import PME.Build
import PME.Circuit

namespace PME

open Outcome

variable {aig : Aiger} {vm : VariableManager} {tr : TransitionRelation}

theorem forall₂_forall_mem_iff {α β : Type} {R : α → β → Prop} {P : α → Prop} {Q : β → Prop}
    {as : List α} {bs : List β} (h : List.Forall₂ R as bs)
    (hpq : ∀ a ∈ as, ∀ b ∈ bs, R a b → (P a ↔ Q b)) : (∀ a ∈ as, P a) ↔ ∀ b ∈ bs, Q b := by
  induction h with
  | nil => simp
  | @cons a b as bs hab hrest ih =>
    rw [List.forall_mem_cons, List.forall_mem_cons]
    refine and_congr (hpq a List.mem_cons_self b List.mem_cons_self hab) (ih ?_)
    intro a' ha' b' hb'
    exact hpq a' (List.mem_cons_of_mem a ha') b' (List.mem_cons_of_mem b hb')

theorem forall₂_exists_left {α β : Type} {R : α → β → Prop} {as : List α} {bs : List β}
    (h : List.Forall₂ R as bs) {b : β} (hb : b ∈ bs) : ∃ a ∈ as, R a b := by
  induction h with
  | nil => exact absurd hb List.not_mem_nil
  | @cons a b' as bs hab hrest ih =>
    rcases List.mem_cons.mp hb with rfl | hb
    · exact ⟨a, List.mem_cons_self, hab⟩
    · obtain ⟨a', ha', hr⟩ := ih hb
      exact ⟨a', List.mem_cons_of_mem a ha', hr⟩

theorem forall₂_exists_right {α β : Type} {R : α → β → Prop} {as : List α} {bs : List β}
    (h : List.Forall₂ R as bs) {a : α} (ha : a ∈ as) : ∃ b ∈ bs, R a b := by
  obtain ⟨b, hb, hr⟩ := forall₂_exists_left h.flip ha
  exact ⟨b, hb, hr⟩

theorem forall₂_nodup {α β : Type} {R : α → β → Prop} {as : List α} {bs : List β}
    (h : List.Forall₂ R as bs) (hinj : ∀ a ∈ as, ∀ a' ∈ as, ∀ b, R a b → R a' b → a = a')
    (hn : as.Nodup) : bs.Nodup := by
  induction h with
  | nil => exact List.nodup_nil
  | @cons a b as bs hab hrest ih =>
    obtain ⟨hnew, hn⟩ := List.nodup_cons.mp hn
    refine List.nodup_cons.mpr ⟨fun hb ↦ ?_, ih (fun c hc c' hc' ↦ ?_) hn⟩
    · obtain ⟨a', ha', hr⟩ := forall₂_exists_left hrest hb
      have heq := hinj a List.mem_cons_self a' (List.mem_cons_of_mem a ha') b hab hr
      exact hnew (heq ▸ ha')
    · exact hinj c (List.mem_cons_of_mem a hc) c' (List.mem_cons_of_mem a hc')

namespace VariableManager

noncomputable def internalize (vm : VariableManager) (x : ℕ → Bool) : Assignment :=
  open Classical in
  fun id ↦ decide (∃ v, v ≠ 0 ∧ vm.externalToInternal.lookup v = some id ∧ x v = true)

theorem internalize_iff (x : ℕ → Bool) (id : ℕ) : vm.internalize x id = true ↔
    ∃ v, v ≠ 0 ∧ vm.externalToInternal.lookup v = some id ∧ x v = true := by
  classical
  unfold internalize
  rw [decide_eq_true_iff]

structure Agree (aig : Aiger) (vm : VariableManager) (x : ℕ → Bool) (y : Assignment) : Prop where
  const : y idFalse = false
  vars : ∀ v ∈ aig.vars, ∀ id, vm.toInternal v = .ok id → y id = x v

theorem agree_internalize (h : vm.Inv) (hwf : aig.WellFormed) (x : ℕ → Bool) :
    Agree aig vm x (vm.internalize x) where
  const := by
    rw [← Bool.not_eq_true, internalize_iff]
    rintro ⟨v, hv, hl, -⟩
    exact hv (h.injective v 0 idFalse hl h.const)
  vars v hv id hid := by
    obtain ⟨heven, hpos, -⟩ := hwf.isVar v hv
    have hl := lookup_of_toInternal heven hid
    rw [Bool.eq_iff_iff, internalize_iff]
    constructor
    · rintro ⟨w, -, hw, hx⟩
      rwa [h.injective v w id hl hw]
    · exact fun hx ↦ ⟨v, by omega, hl, hx⟩

theorem Agree.litVal_eq {x : ℕ → Bool} {y : Assignment} (ha : Agree aig vm x y) (h : vm.Inv)
    (hwf : aig.WellFormed) {lit id : ℕ} (hd : aig.Defines lit) (hid : vm.toInternal lit = .ok id) :
    litVal y id = Aiger.eval x lit := by
  obtain ⟨i, hl, rfl⟩ := exists_of_toInternal hid
  have hi : litVal y i = (aigerStrip lit != 0 && x (aigerStrip lit)) := by
    have heven := (TransitionRelation.lookup_bounds h hl).2.2
    rw [litVal_of_even heven]
    rcases hd with hz | hv
    · rw [hz] at hl ⊢
      rw [h.const, Option.some_inj] at hl
      rw [← hl, ha.const]
      rfl
    · obtain ⟨hev, hpos, -⟩ := hwf.isVar _ hv
      have hto : vm.toInternal (aigerStrip lit) = .ok i := by
        have hstrip : vm.externalToInternal.lookup (aigerStrip (aigerStrip lit)) = some i := by
          rw [aigerStrip_of_even hev, hl]
        rw [toInternal_eq hstrip, (aigerSign_eq_false _).mpr hev]
        rfl
      rw [ha.vars _ hv i hto, bne_iff_ne.mpr (by omega), Bool.true_and]
  rw [Aiger.eval, ← hi]
  cases aigerSign lit <;> simp

end VariableManager

namespace TransitionRelation

open VariableManager

variable {x y : ℕ → Bool} {x' y' : Assignment}

theorem Built.gates_iff (hb : Built aig tr vm) (hwf : aig.WellFormed) (ha : Agree aig vm x x') :
    satClauses x' tr.toCNF ↔
      ∀ g ∈ aig.ands, x g.lhs = (Aiger.eval x g.rhs0 && Aiger.eval x g.rhs1) := by
  rw [toCNF, satClauses_flatMap, hb.gateCNF]
  refine (forall₂_forall_mem_iff hb.gates fun a hmem g _ hg ↦ ?_).symm
  obtain ⟨h0, h1⟩ := hwf.rhs a hmem
  have hvar : a.lhs ∈ aig.vars := List.mem_append_right _ (List.mem_map_of_mem hmem)
  have heven : g.lhs % 2 = 0 :=
    (lookup_bounds hb.inv (lookup_of_toInternal (hwf.isVar _ hvar).1 hg.lhs)).2.2
  have hlhs := ha.vars _ hvar _ hg.lhs
  rw [satClauses_toCNF, litVal_of_even heven, hlhs, ha.litVal_eq hb.inv hwf h0 hg.rhs0,
    ha.litVal_eq hb.inv hwf h1 hg.rhs1]

theorem Built.isFrame_iff (hb : Built aig tr vm) (hwf : aig.WellFormed) (ha : Agree aig vm x x') :
    tr.IsFrame x' ↔ aig.Frame x := by
  have hcons : satCube x' tr.constraints ↔ ∀ c ∈ aig.constraints, Aiger.eval x c = true := by
    refine (forall₂_forall_mem_iff hb.constraints fun c hc id _ hid ↦ ?_).symm
    rw [ha.litVal_eq hb.inv hwf (hwf.constraints c hc) hid]
  constructor
  · intro hf
    exact ⟨(hb.gates_iff hwf ha).mp hf.gates, hcons.mp hf.constraints⟩
  · intro hf
    exact ⟨ha.const, (hb.gates_iff hwf ha).mpr hf.ands, hcons.mpr hf.constraints⟩

theorem latch_var (a : AigerLatch) (ha : a ∈ aig.latches) : a.lit ∈ aig.vars :=
  List.mem_append_left _ (List.mem_append_right _ (List.mem_map_of_mem ha))

theorem Built.step_iff (hb : Built aig tr vm) (hwf : aig.WellFormed) (ha : Agree aig vm x x')
    (hy : ∀ l ∈ aig.latches, ∀ id, vm.toInternal l.lit = .ok id → y' id = y l.lit) :
    tr.Step x' y' ↔ ∀ l ∈ aig.latches, y l.lit = Aiger.eval x l.next := by
  refine (forall₂_forall_mem_iff hb.latches fun a hmem l _ hl ↦ ?_).symm
  rw [hy a hmem _ hl.id, ha.litVal_eq hb.inv hwf (hwf.next a hmem) hl.next]

theorem Built.isInit_iff (hb : Built aig tr vm) (hwf : aig.WellFormed) (ha : Agree aig vm x x') :
    tr.IsInit x' ↔
      ∀ l ∈ aig.latches, (l.reset = 0 → x l.lit = false) ∧ (l.reset = 1 → x l.lit = true) := by
  have htrue : litVal x' idTrue = true := by rw [litVal_idTrue, ha.const, Bool.not_false]
  have hfalse : litVal x' idFalse = false := by rw [litVal_idFalse, ha.const]
  refine (forall₂_forall_mem_iff hb.latches fun a hmem l _ hl ↦ ?_).symm
  rw [ha.vars _ (latch_var a hmem) _ hl.id, hl.reset]
  rcases hwf.reset a hmem with h | h | h
  · rw [h, if_pos rfl, hfalse]
    simp [idFalse, idNull]
  · rw [h, if_neg (by decide), if_pos rfl, htrue]
    simp [idTrue_eq, idNull]
  · obtain ⟨heven, hpos, -⟩ := hwf.isVar _ (latch_var a hmem)
    rw [if_neg (by omega), if_neg (by omega)]
    simp only [ne_eq, not_true_eq_false, false_implies, iff_true]
    omega

theorem Built.litsValid (hb : Built aig tr vm) (hwf : aig.WellFormed)
    (hbad : ∃ o ∈ aig.outputs, LitOf vm o tr.bad) : tr.LitsValid := by
  have hmax := hb.inv.le_maxId
  have hlit : ∀ {lit id : ℕ}, vm.toInternal lit = .ok id → ValidLit id := by
    intro lit id hid
    obtain ⟨i, hl, rfl⟩ := exists_of_toInternal hid
    obtain ⟨hmin, hlt, -⟩ := lookup_bounds hb.inv hl
    have hi : ValidLit i := ⟨hmin, by omega⟩
    split
    · exact hi.negate
    · exact hi
  have hvar : ∀ {v id : ℕ}, v ∈ aig.vars → vm.toInternal v = .ok id →
      minId ≤ id ∧ id ≤ maxId ∧ id % 2 = 0 := by
    intro v id hv hid
    obtain ⟨heven, hpos, -⟩ := hwf.isVar v hv
    obtain ⟨hmin, hlt, hev⟩ := hb.inv.isVar v id (lookup_of_toInternal heven hid) (by omega)
    exact ⟨hmin, by omega, hev⟩
  refine ⟨?_, ?_, ?_, ?_, ?_, ?_⟩
  · obtain ⟨o, -, ho⟩ := hbad
    exact hlit ho
  · intro cls hcls lit hl
    rw [toCNF, hb.gateCNF, List.mem_flatMap] at hcls
    obtain ⟨g, hg, hcls⟩ := hcls
    obtain ⟨a, ha, hag⟩ := forall₂_exists_left hb.gates hg
    have h := hlit hag.lhs
    have h0 := hlit hag.rhs0
    have h1 := hlit hag.rhs1
    simp only [AndGate.toCNF, List.mem_cons, List.not_mem_nil, or_false] at hcls
    rcases hcls with rfl | rfl | rfl
    all_goals
      simp only [List.mem_cons, List.not_mem_nil, or_false] at hl
      rcases hl with rfl | rfl | rfl
    all_goals first | assumption | exact ValidLit.negate ‹_›
  · intro l hl
    obtain ⟨a, ha, hal⟩ := forall₂_exists_left hb.latches hl
    obtain ⟨hmin, hle, heven⟩ := hvar (latch_var a ha) hal.id
    exact ⟨hmin, hle, heven, hlit hal.next⟩
  · intro l hl
    obtain ⟨a, -, hal⟩ := forall₂_exists_left hb.latches hl
    rw [hal.reset]
    split
    · exact .inr (.inl rfl)
    · split
      · exact .inr (.inr rfl)
      · exact .inl rfl
  · intro c hc
    obtain ⟨a, -, ha⟩ := forall₂_exists_left hb.constraints hc
    exact hlit ha
  · intro g hg
    obtain ⟨a, -, hag⟩ := forall₂_exists_left hb.gates hg
    exact ⟨hlit hag.lhs, hlit hag.rhs0, hlit hag.rhs1⟩

theorem Built.signals (hb : Built aig tr vm) : List.Forall₂ (LitOf vm) aig.vars tr.signals := by
  have hlatch : List.Forall₂ (LitOf vm) (aig.latches.map AigerLatch.lit) tr.latchIDs := by
    rw [hb.latchIDs, List.forall₂_map_left_iff, List.forall₂_map_right_iff]
    exact hb.latches.imp fun _ _ hl ↦ hl.id
  have hgate : List.Forall₂ (LitOf vm) (aig.ands.map AigerAnd.lhs) tr.gateIDs := by
    rw [hb.gateIDs, List.forall₂_map_left_iff, List.forall₂_map_right_iff]
    exact hb.gates.imp fun _ _ hg ↦ hg.lhs
  exact List.rel_append (List.rel_append hb.inputs hlatch) hgate

theorem strip_of_toInternal (h : vm.Inv) {lit id : ℕ} (hid : vm.toInternal lit = .ok id) :
    vm.externalToInternal.lookup (aigerStrip lit) = some (strip id) := by
  obtain ⟨i, hl, rfl⟩ := exists_of_toInternal hid
  have heven := (lookup_bounds h hl).2.2
  rw [hl]
  split
  · rw [strip_negate, strip_of_even heven]
  · rw [strip_of_even heven]

theorem Built.defines (hb : Built aig tr vm) (hwf : aig.WellFormed) {lit id : ℕ}
    (hd : aig.Defines lit) (hid : vm.toInternal lit = .ok id) : tr.Defines id := by
  have hl := strip_of_toInternal hb.inv hid
  rcases hd with hz | hv
  · rw [hz, hb.inv.const, Option.some_inj] at hl
    exact .inl hl.symm
  · obtain ⟨i, hi, hvi⟩ := forall₂_exists_right hb.signals hv
    have hli := lookup_of_toInternal (hwf.isVar _ hv).1 hvi
    rw [hl, Option.some_inj] at hli
    exact .inr (hli ▸ hi)

theorem Built.gates_computed (hb : Built aig tr vm) (hwf : aig.WellFormed) :
    ∃ rank, ∀ g ∈ tr.gates, ∃ f, tr.Computes rank g f := by
  obtain ⟨rank, hrank⟩ := hwf.acyclic
  let external : ℕ → ℕ := fun id ↦ Classical.epsilon fun v ↦ vm.externalToInternal.lookup v = some id
  have hexternal : ∀ v id, vm.externalToInternal.lookup v = some id → external id = v := by
    intro v id hv
    have hchosen : vm.externalToInternal.lookup (external id) = some id :=
      @Classical.epsilon_spec _ (fun w ↦ vm.externalToInternal.lookup w = some id) ⟨v, hv⟩
    exact hb.inv.injective _ _ id hchosen hv
  have hgate : ∀ id ∈ tr.gateIDs, ∃ a ∈ aig.ands, vm.externalToInternal.lookup a.lhs = some id := by
    intro id hmem
    rw [hb.gateIDs] at hmem
    obtain ⟨g, hg, rfl⟩ := List.mem_map.mp hmem
    obtain ⟨a, ha, hag⟩ := forall₂_exists_left hb.gates hg
    have hvar : a.lhs ∈ aig.vars := List.mem_append_right _ (List.mem_map_of_mem ha)
    exact ⟨a, ha, lookup_of_toInternal (hwf.isVar _ hvar).1 hag.lhs⟩
  refine ⟨fun id ↦ rank (external id), fun g hg ↦ ?_⟩
  obtain ⟨a, ha, hag⟩ := forall₂_exists_left hb.gates hg
  obtain ⟨hr0, hr1⟩ := hwf.rhs a ha
  have hvar : a.lhs ∈ aig.vars := List.mem_append_right _ (List.mem_map_of_mem ha)
  have hlhs := lookup_of_toInternal (hwf.isVar _ hvar).1 hag.lhs
  have hbelow : ∀ lit id, aig.Defines lit → vm.toInternal lit = .ok id →
      (aigerStrip lit = aigerStrip a.rhs0 ∨ aigerStrip lit = aigerStrip a.rhs1) →
      tr.Below (fun id ↦ rank (external id)) (rank (external g.lhs)) (strip id) := by
    intro lit id hd hid hor
    rcases hb.defines hwf hd hid with hz | hs
    · exact .inl hz
    rcases mem_signals.mp hs with hs | hs
    · exact .inr (.inl hs)
    refine .inr (.inr ⟨hs, ?_⟩)
    obtain ⟨b, hbm, hbl⟩ := hgate _ hs
    have heq := hb.inv.injective _ _ _ hbl (strip_of_toInternal hb.inv hid)
    dsimp only
    rw [hexternal _ _ hbl, hexternal _ _ hlhs]
    refine hrank a ha b hbm ?_
    rw [heq]
    exact hor
  exact ⟨_, computes_toCNF hb.gateCNF (lookup_bounds hb.inv hlhs).2.2
    (hbelow a.rhs0 g.rhs0 hr0 hag.rhs0 (.inl rfl)) (hbelow a.rhs1 g.rhs1 hr1 hag.rhs1 (.inr rfl))⟩

theorem Built.wellFormed (hb : Built aig tr vm) (hwf : aig.WellFormed)
    (hbad : ∃ o ∈ aig.outputs, LitOf vm o tr.bad) : tr.WellFormed where
  toLitsValid := hb.litsValid hwf hbad
  latchIDs_eq := hb.latchIDs
  gateIDs_eq := hb.gateIDs
  isVar id hid := by
    obtain ⟨v, hv, hvid⟩ := forall₂_exists_left hb.signals hid
    obtain ⟨heven, hpos, -⟩ := hwf.isVar v hv
    obtain ⟨hmin, hlt, hev⟩ := hb.inv.isVar v id (lookup_of_toInternal heven hvid) (by omega)
    have hmax := hb.inv.le_maxId
    exact ⟨hmin, by omega, hev⟩
  nodup := by
    refine forall₂_nodup hb.signals (fun v hv w hw id hvid hwid ↦ ?_) hwf.nodup
    exact toInternal_injective hb.inv (hwf.isVar v hv).1 (hwf.isVar w hw).1 hvid hwid
  next l hl := by
    obtain ⟨a, ha, hal⟩ := forall₂_exists_left hb.latches hl
    exact hb.defines hwf (hwf.next a ha) hal.next
  constraints_defined c hc := by
    obtain ⟨a, ha, hac⟩ := forall₂_exists_left hb.constraints hc
    exact hb.defines hwf (hwf.constraints a ha) hac
  bad_defined := by
    obtain ⟨o, ho, hob⟩ := hbad
    exact hb.defines hwf (hwf.outputs.2 o ho) hob
  rhs_defined g hg := by
    obtain ⟨a, ha, hag⟩ := forall₂_exists_left hb.gates hg
    obtain ⟨h0, h1⟩ := hwf.rhs a ha
    exact ⟨hb.defines hwf h0 hag.rhs0, hb.defines hwf h1 hag.rhs1⟩
  gates_computed := hb.gates_computed hwf

/-- The satisfying assignments of the unrolled formula, read at the primed copies of the
file's variables, are the executions of the file. -/
theorem unrollWithInit_adequate (aig : Aiger) (hwf : aig.WellFormed) :
    ∃ tr vm, fromAiger .new aig = .ok (tr, vm) ∧
      (∀ v ∈ aig.vars, ∃ id, vm.toInternal v = .ok id) ∧
      ∀ n, 1 ≤ n → n ≤ maxPrimes → ∀ x : ℕ → ℕ → Bool,
        aig.Execution n x ↔ ∃ σ, satClauses σ ([idTrue] :: tr.unrollWithInit n) ∧
          (∀ i < n, ∀ v ∈ aig.vars, ∀ id, vm.toInternal v = .ok id → σ (prime id i) = x i v) ∧
          ∀ l ∈ aig.latches, ∀ id, vm.toInternal l.lit = .ok id → σ (prime id n) = x n l.lit := by
  obtain ⟨⟨tr, vm⟩, hok, hb, hbad⟩ := Meets.exists_ok (fromAiger_meets hwf)
  dsimp only at hb hbad
  have hlits := hb.litsValid hwf hbad
  refine ⟨tr, vm, hok, hb.vars, fun n hn _ x ↦ ?_⟩
  have hid : ∀ v ∈ aig.vars, ∀ id, vm.toInternal v = .ok id → minId ≤ id ∧ id ≤ maxId := by
    intro v hv id hid
    obtain ⟨heven, hpos, -⟩ := hwf.isVar v hv
    obtain ⟨hmin, hlt, -⟩ := hb.inv.isVar v id (lookup_of_toInternal heven hid) (by omega)
    have hmax := hb.inv.le_maxId
    exact ⟨hmin, by omega⟩
  constructor
  · intro hx
    let y : ℕ → Assignment := fun i ↦ vm.internalize (x i)
    have ha : ∀ i, Agree aig vm (x i) (y i) := fun i ↦ agree_internalize hb.inv hwf (x i)
    have hjoin : ∀ i, ∀ v ∈ aig.vars, ∀ id, vm.toInternal v = .ok id →
        joinFrames y (prime id i) = x i v := by
      intro i v hv id hvid
      obtain ⟨hmin, hmax⟩ := hid v hv id hvid
      have hframe : frameOf (joinFrames y) i id = y i id := frameOf_joinFrames y i hmin hmax
      exact hframe.trans ((ha i).vars v hv id hvid)
    have hrun : tr.IsRun n y := fun i hi ↦
      ⟨(hb.isFrame_iff hwf (ha i)).mpr (hx.frame i hi),
        (hb.step_iff hwf (ha i) fun l hl ↦ (ha (i + 1)).vars _ (latch_var l hl)).mpr (hx.latch i hi)⟩
    have hinit : tr.IsInit (y 0) := (hb.isInit_iff hwf (ha 0)).mpr hx.reset
    refine ⟨joinFrames y, ?_, fun i _ ↦ hjoin i, fun l hl ↦ hjoin n _ (latch_var l hl)⟩
    have hc := joinFrames_idFalse y
    rw [satClauses_cons, satClauses_unrollWithInit hlits hc]
    refine ⟨?_, isRun_joinFrames hlits hrun, ?_⟩
    · simp [hc]
    · exact hinit.congr hlits (sameSignals_joinFrames (ha 0).const).symm
  · rintro ⟨σ, hσ, hvars, hlast⟩
    rw [satClauses_cons] at hσ
    have hc : σ idFalse = false := by simpa using hσ.1
    obtain ⟨hrun, hinit⟩ := (satClauses_unrollWithInit hlits hc n).mp hσ.2
    have ha : ∀ i < n, Agree aig vm (x i) (frameOf σ i) := fun i hi ↦
      ⟨by rw [frameOf_idFalse, hc], hvars i hi⟩
    refine ⟨(hb.isInit_iff hwf (ha 0 hn)).mp hinit, fun i hi ↦ ?_, fun i hi ↦ ?_⟩
    · exact (hb.isFrame_iff hwf (ha i hi)).mp (hrun i hi).1
    · have hnext : ∀ l ∈ aig.latches, ∀ id, vm.toInternal l.lit = .ok id →
          frameOf σ (i + 1) id = x (i + 1) l.lit := by
        intro l hl
        rcases Nat.lt_or_ge (i + 1) n with hlt | hge
        · exact (ha (i + 1) hlt).vars _ (latch_var l hl)
        · obtain rfl : n = i + 1 := by omega
          exact hlast l hl
      exact (hb.step_iff hwf (ha i hi) hnext).mp (hrun i hi).2

end TransitionRelation

def toggle : Aiger where
  maxvar := 3
  inputs := [2]
  latches := [⟨4, 6, 0⟩]
  ands := [⟨6, 5, 2⟩]
  outputs := [4]
  constraints := [3]

theorem toggle_wellFormed : toggle.WellFormed where
  maxvar_lt := by decide
  isVar := by decide
  nodup := by decide
  next := by decide
  reset := by decide
  rhs := by decide
  constraints := by decide
  outputs := by decide
  acyclic := ⟨id, by decide⟩

theorem toggle_unrolled : ∃ tr vm, TransitionRelation.fromAiger .new toggle = .ok (tr, vm) ∧
    ∃ σ, satClauses σ ([idTrue] :: tr.unrollWithInit 2) := by
  obtain ⟨tr, vm, hok, -, hall⟩ :=
    TransitionRelation.unrollWithInit_adequate toggle toggle_wellFormed
  have hidle : toggle.Execution 2 fun _ _ ↦ false :=
    ⟨by decide, fun _ _ ↦ ⟨by decide, by decide⟩, fun _ _ ↦ by decide⟩
  obtain ⟨σ, hσ, -⟩ := (hall 2 (by decide) (by decide) _).mp hidle
  exact ⟨tr, vm, hok, σ, hσ⟩

end PME
