import PME.Unroll

namespace PME

open Outcome

variable {aig : Aiger} {vm vm' vm'' : VariableManager} {fail : Failure → Prop}

def VariableManager.Le (vm vm' : VariableManager) : Prop :=
  ∀ external id, vm.externalToInternal.lookup external = some id → vm'.externalToInternal.lookup external = some id

theorem VariableManager.Le.refl (vm : VariableManager) : vm.Le vm := fun _ _ h ↦ h

theorem VariableManager.Le.trans (h : vm.Le vm') (h' : vm'.Le vm'') : vm.Le vm'' :=
  fun external id he ↦ h' external id (h external id he)

theorem VariableManager.Le.toInternal (h : vm.Le vm') {lit id : ℕ} (hl : vm.toInternal lit = .ok id) :
    vm'.toInternal lit = .ok id := by
  obtain ⟨i, hi, rfl⟩ := VariableManager.exists_of_toInternal hl
  exact VariableManager.toInternal_eq (h _ _ hi)

namespace TransitionRelation

structure Building (aig : Aiger) (vm : VariableManager) : Prop where
  inv : vm.Inv
  keys_nodup : (vm.externalToInternal.map Prod.fst).Nodup
  keys_subset : vm.externalToInternal.map Prod.fst ⊆ 0 :: aig.vars
  nextID : vm.nextID = 2 + 2 * vm.externalToInternal.length

theorem building_new (aig : Aiger) : Building aig .new where
  inv := VariableManager.inv_new
  keys_nodup := by decide
  keys_subset := by simp [VariableManager.new]
  nextID := rfl

theorem Building.nextID_le (h : Building aig vm) (hwf : aig.WellFormed) : vm.nextID ≤ maxId := by
  have hlen := (h.keys_nodup.subperm h.keys_subset).length_le
  have hvars := Aiger.length_vars_le hwf
  have hmax := hwf.maxvar_lt
  have hnext := h.nextID
  simp only [List.length_map, List.length_cons] at hlen
  rw [maxId_eq]
  omega

theorem aigerSign_of_mem (hwf : aig.WellFormed) {external : ℕ} (hexternal : external ∈ 0 :: aig.vars) :
    aigerSign external = false := by
  rw [aigerSign_eq_false]
  rcases List.mem_cons.mp hexternal with rfl | hv
  · rfl
  · exact (hwf.isVar external hv).1

theorem lookup_bounds (h : vm.Inv) {external id : ℕ} (hl : vm.externalToInternal.lookup external = some id) :
    idFalse ≤ id ∧ id < vm.nextID ∧ id % 2 = 0 := by
  have hmin := h.minId_le
  rw [minId_eq] at hmin
  by_cases hexternal : external = 0
  · rw [hexternal, h.const, Option.some_inj] at hl
    subst hl
    exact ⟨le_rfl, by rw [idFalse]; omega, rfl⟩
  · obtain ⟨hid, hlt, heven⟩ := h.isVar external id hl hexternal
    exact ⟨Nat.le_trans (by decide) hid, hlt, heven⟩

theorem createVar_meets (h : Building aig vm) (hwf : aig.WellFormed) {external : ℕ}
    (hexternal : external ∈ 0 :: aig.vars) (hnew : vm.externalToInternal.lookup external = none) :
    Meets (fun r ↦ Building aig r.2 ∧ vm.Le r.2 ∧ r.2.externalToInternal.lookup external = some r.1)
      fail (createVar vm external) := by
  have hsign := aigerSign_of_mem hwf hexternal
  have hne : external ≠ 0 := by
    rintro rfl
    rw [h.inv.const] at hnew
    exact nomatch hnew
  have hids := h.nextID_le hwf
  have hfresh : external ∉ vm.externalToInternal.map Prod.fst := by
    intro hmem
    obtain ⟨p, hp, hpe⟩ := List.mem_map.mp hmem
    have hnone := List.lookup_eq_none_iff.mp hnew p hp
    simp [hpe] at hnone
  unfold createVar
  rw [hsign]
  simp only [Bool.not_false, ensure_true, ok_bind]
  refine (VariableManager.getNewID_meets h.inv hsign (fun _ ↦ hnew) (by omega)).bind fun r hr ↦ ?_
  obtain ⟨id, vm'⟩ := r
  obtain ⟨rfl, hmax, hnext, hinv, hlook, hlen, hkeys⟩ := hr
  have hself : vm'.externalToInternal.lookup external = some vm.nextID := by
    rw [hlook, if_pos ⟨rfl, hne⟩]
  have hb : Building aig vm' := by
    refine ⟨hinv, ?_, ?_, ?_⟩
    · rw [hkeys, if_neg hne]
      exact List.nodup_cons.mpr ⟨hfresh, h.keys_nodup⟩
    · rw [hkeys, if_neg hne]
      exact List.cons_subset.mpr ⟨hexternal, h.keys_subset⟩
    · rw [hnext, hlen, if_neg hne, h.nextID]
      omega
  have hle : vm.Le vm' := by
    intro e i he
    rw [hlook, if_neg]
    · exact he
    · rintro ⟨rfl, -⟩
      rw [hnew] at he
      exact nomatch he
  obtain ⟨hmin, hlt, heven⟩ := lookup_bounds hinv hself
  refine (VariableManager.varOf_meets hinv hmin hlt heven).bind fun i hi ↦ ?_
  subst hi
  exact ⟨hb, hle, hself⟩

theorem getOrCreateVar_meets (h : Building aig vm) (hwf : aig.WellFormed) {external : ℕ}
    (hexternal : external ∈ 0 :: aig.vars) :
    Meets (fun r ↦ Building aig r.2 ∧ vm.Le r.2 ∧ r.2.externalToInternal.lookup external = some r.1)
      fail (getOrCreateVar vm external) := by
  have hsign := aigerSign_of_mem hwf hexternal
  cases hl : vm.externalToInternal.lookup external with
  | none =>
    rw [getOrCreateVar, VariableManager.isKnownExternal, hl]
    exact createVar_meets h hwf hexternal hl
  | some id =>
    obtain ⟨hmin, hlt, heven⟩ := lookup_bounds h.inv hl
    have hto : vm.toInternal external = .ok id := by
      have hstrip : vm.externalToInternal.lookup (aigerStrip external) = some id := by
        rw [aigerStrip_of_even ((aigerSign_eq_false external).mp hsign), hl]
      rw [VariableManager.toInternal_eq hstrip, hsign]
      rfl
    rw [getOrCreateVar, VariableManager.isKnownExternal, hl, hto]
    simp only [Option.isSome_some, if_true, ok_bind]
    refine (VariableManager.varOf_meets h.inv hmin hlt heven).bind fun i hi ↦ ?_
    subst hi
    exact ⟨h, .refl vm, hl⟩

theorem mem_of_defines {lit : ℕ} (h : aig.Defines lit) : aigerStrip lit ∈ 0 :: aig.vars := by
  rcases h with h | h
  · rw [h]
    exact List.mem_cons_self
  · exact List.mem_cons_of_mem 0 h

theorem defines_of_mem (hwf : aig.WellFormed) {v : ℕ} (hv : v ∈ aig.vars) : aig.Defines v := by
  right
  rw [aigerStrip_of_even (hwf.isVar v hv).1]
  exact hv

theorem toInternal_of_lookup {lit id : ℕ}
    (hl : vm.externalToInternal.lookup (aigerStrip lit) = some id) :
    vm.toInternal lit = .ok (if aigerSign lit then negate id else id) :=
  VariableManager.toInternal_eq hl

theorem createSymbols_meets (h : Building aig vm) (hwf : aig.WellFormed) {syms : List ℕ}
    (hs : syms ⊆ aig.vars) :
    Meets (fun vm' ↦ Building aig vm' ∧ vm.Le vm' ∧ ∀ v ∈ syms, ∃ id, vm'.toInternal v = .ok id)
      fail (createSymbols vm syms) := by
  let inv : List ℕ → VariableManager → Prop := fun done vm' ↦
    Building aig vm' ∧ vm.Le vm' ∧ ∀ v ∈ done, ∃ id, vm'.toInternal v = .ok id
  refine foldlM_meets inv vm ⟨h, .refl vm, by simp⟩ fun done v rest vm₁ hl h₁ ↦ ?_
  obtain ⟨hb, hle, hdone⟩ := h₁
  have hv : v ∈ aig.vars := hs (hl ▸ List.mem_append_right done List.mem_cons_self)
  refine (getOrCreateVar_meets hb hwf (mem_of_defines (defines_of_mem hwf hv))).bind fun r hr ↦ ?_
  obtain ⟨hb', hle', hlook⟩ := hr
  refine ⟨hb', hle.trans hle', fun w hw ↦ ?_⟩
  rcases List.mem_append.mp hw with hw | hw
  · obtain ⟨id, hid⟩ := hdone w hw
    exact ⟨id, hle'.toInternal hid⟩
  · obtain rfl := List.mem_singleton.mp hw
    exact ⟨_, toInternal_of_lookup hlook⟩

structure GateOf (vm : VariableManager) (and : AigerAnd) (gate : AndGate) : Prop where
  lhs : vm.toInternal and.lhs = .ok gate.lhs
  rhs0 : vm.toInternal and.rhs0 = .ok gate.rhs0
  rhs1 : vm.toInternal and.rhs1 = .ok gate.rhs1

structure LatchOf (vm : VariableManager) (l : AigerLatch) (latch : Latch) : Prop where
  id : vm.toInternal l.lit = .ok latch.id
  next : vm.toInternal l.next = .ok latch.next
  reset : latch.reset =
    if l.reset = 0 then idFalse else if l.reset = 1 then idTrue else idNull

def LitOf (vm : VariableManager) (lit id : ℕ) : Prop := vm.toInternal lit = .ok id

theorem GateOf.le {and : AigerAnd} {gate : AndGate} (hle : vm.Le vm') (h : GateOf vm and gate) :
    GateOf vm' and gate where
  lhs := hle.toInternal h.lhs
  rhs0 := hle.toInternal h.rhs0
  rhs1 := hle.toInternal h.rhs1

theorem LatchOf.le {l : AigerLatch} {latch : Latch} (hle : vm.Le vm') (h : LatchOf vm l latch) :
    LatchOf vm' l latch where
  id := hle.toInternal h.id
  next := hle.toInternal h.next
  reset := h.reset

theorem forall₂_snoc {α β : Type} {R : α → β → Prop} {as : List α} {bs : List β} {a : α} {b : β}
    (h : List.Forall₂ R as bs) (hab : R a b) : List.Forall₂ R (as ++ [a]) (bs ++ [b]) :=
  List.rel_append h (.cons hab .nil)

theorem toInternal_injective (h : vm.Inv) {v w id : ℕ} (hv : v % 2 = 0) (hw : w % 2 = 0)
    (hvid : vm.toInternal v = .ok id) (hwid : vm.toInternal w = .ok id) : v = w := by
  exact h.injective v w id (VariableManager.lookup_of_toInternal hv hvid)
    (VariableManager.lookup_of_toInternal hw hwid)

theorem not_mem_of_nodup (h : vm.Inv) (hwf : aig.WellFormed) {done : List ℕ} {ids : List ℕ}
    (hids : List.Forall₂ (LitOf vm) done ids) {v id : ℕ} (hid : vm.toInternal v = .ok id)
    (hdone : ∀ w ∈ done, w ∈ aig.vars) (hv : v ∈ aig.vars) (hnew : v ∉ done) : id ∉ ids := by
  intro hmem
  induction hids with
  | nil => exact List.not_mem_nil hmem
  | @cons w i ws is hw hrest ih =>
    rw [List.forall_mem_cons] at hdone
    rw [List.mem_cons] at hnew hmem
    push Not at hnew
    rcases hmem with rfl | hmem
    · have heq := toInternal_injective h (hwf.isVar v hv).1 (hwf.isVar w hdone.1).1 hid hw
      exact hnew.1 heq
    · exact ih hdone.2 hnew.2 hmem

theorem processAnds_meets (h : Building aig vm) (hwf : aig.WellFormed) :
    Meets (fun r ↦ Building aig r.2 ∧ vm.Le r.2 ∧ List.Forall₂ (GateOf r.2) aig.ands r.1.gates ∧
        r.1 = { empty with gates := r.1.gates, gateIDs := r.1.gates.map AndGate.lhs })
      fail (aig.ands.foldlM processAnd (empty, vm)) := by
  let inv : List AigerAnd → TransitionRelation × VariableManager → Prop := fun done r ↦
    Building aig r.2 ∧ vm.Le r.2 ∧ List.Forall₂ (GateOf r.2) done r.1.gates ∧
      r.1 = { empty with gates := r.1.gates, gateIDs := r.1.gates.map AndGate.lhs }
  refine foldlM_meets inv (empty, vm) ⟨h, .refl vm, .nil, rfl⟩ ?_
  rintro done a rest ⟨tr, vm₀⟩ hl ⟨hb₀, hle₀, hgates, htr⟩
  have ha : a ∈ aig.ands := hl ▸ List.mem_append_right done List.mem_cons_self
  have hlhs : a.lhs ∈ aig.vars := List.mem_append_right _ (List.mem_map_of_mem ha)
  obtain ⟨hr0, hr1⟩ := hwf.rhs a ha
  unfold processAnd
  refine (getOrCreateVar_meets hb₀ hwf (mem_of_defines (defines_of_mem hwf hlhs))).bind ?_
  rintro ⟨i, vm₁⟩ ⟨hb₁, hle₁, hi⟩
  refine (getOrCreateVar_meets hb₁ hwf (mem_of_defines hr0)).bind ?_
  rintro ⟨j, vm₂⟩ ⟨hb₂, hle₂, hj⟩
  refine (getOrCreateVar_meets hb₂ hwf (mem_of_defines hr1)).bind ?_
  rintro ⟨k, vm₃⟩ ⟨hb₃, hle₃, hk⟩
  have h₀ := hle₃.toInternal (hle₂.toInternal (toInternal_of_lookup hi))
  have h₁ := hle₃.toInternal (toInternal_of_lookup hj)
  have h₂ := toInternal_of_lookup hk
  have hgates' : List.Forall₂ (GateOf vm₃) done tr.gates :=
    hgates.imp fun _ _ hg ↦ hg.le (hle₁.trans (hle₂.trans hle₃))
  have hlits : List.Forall₂ (LitOf vm₃) (done.map AigerAnd.lhs) (tr.gates.map AndGate.lhs) :=
    List.forall₂_map_left_iff.mpr (List.forall₂_map_right_iff.mpr (hgates'.imp fun _ _ hg ↦ hg.lhs))
  have hmem : ∀ w ∈ done.map AigerAnd.lhs, w ∈ aig.vars := by
    intro w hw
    obtain ⟨g, hg, rfl⟩ := List.mem_map.mp hw
    exact List.mem_append_right _ (List.mem_map_of_mem (hl ▸ List.mem_append_left _ hg))
  have hnodup : (done.map AigerAnd.lhs ++ a.lhs :: rest.map AigerAnd.lhs).Nodup := by
    have hands := (List.nodup_append.mp hwf.nodup).2.1
    rw [← hl, List.map_append, List.map_cons] at hands
    exact hands
  have hnew : a.lhs ∉ done.map AigerAnd.lhs := fun hin ↦
    (List.nodup_append.mp hnodup).2.2 _ hin _ List.mem_cons_self rfl
  have hfresh := not_mem_of_nodup hb₃.inv hwf hlits h₀ hmem hlhs hnew
  simp only [h₀, h₁, h₂, ok_bind, meets_pure]
  rw [if_neg (by simpa using hfresh)]
  refine ⟨hb₃, hle₀.trans (hle₁.trans (hle₂.trans hle₃)), forall₂_snoc hgates' ⟨h₀, h₁, h₂⟩, ?_⟩
  dsimp only at htr ⊢
  rw [htr]
  simp

theorem processLatches_meets (h : Building aig vm) (hwf : aig.WellFormed) (tr : TransitionRelation)
    (htr : tr.latches = [] ∧ tr.latchIDs = [])
    (hlits : ∀ l ∈ aig.latches, ∃ id, vm.toInternal l.lit = .ok id) :
    Meets (fun r ↦ Building aig r.2 ∧ vm.Le r.2 ∧
        List.Forall₂ (LatchOf r.2) aig.latches r.1.latches ∧
        r.1 = { tr with latches := r.1.latches, latchIDs := r.1.latches.map Latch.id })
      fail (aig.latches.foldlM processLatch (tr, vm)) := by
  let inv : List AigerLatch → TransitionRelation × VariableManager → Prop := fun done r ↦
    Building aig r.2 ∧ vm.Le r.2 ∧ List.Forall₂ (LatchOf r.2) done r.1.latches ∧
      r.1 = { tr with latches := r.1.latches, latchIDs := r.1.latches.map Latch.id }
  have hinit : inv [] (tr, vm) := by
    refine ⟨h, .refl vm, by rw [htr.1]; exact .nil, ?_⟩
    cases tr
    simp_all
  refine foldlM_meets inv (tr, vm) hinit ?_
  rintro done l rest ⟨tr', vm₀⟩ hl ⟨hb₀, hle₀, hlatches, htr'⟩
  have hmeml : l ∈ aig.latches := hl ▸ List.mem_append_right done List.mem_cons_self
  have hvars : ∀ l' ∈ aig.latches, l'.lit ∈ aig.vars := fun l' hl' ↦
    List.mem_append_left _ (List.mem_append_right _ (List.mem_map_of_mem hl'))
  have hvar := hvars l hmeml
  unfold processLatch
  rw [aigerSign_of_mem hwf (List.mem_cons_of_mem 0 hvar)]
  simp only [Bool.not_false, ensure_true, ok_bind]
  refine (getOrCreateVar_meets hb₀ hwf (mem_of_defines (hwf.next l hmeml))).bind ?_
  rintro ⟨i, vm₁⟩ ⟨hb₁, hle₁, hi⟩
  obtain ⟨id, hid⟩ := hlits l hmeml
  have hid' := hle₁.toInternal (hle₀.toInternal hid)
  have hlatches' : List.Forall₂ (LatchOf vm₁) done tr'.latches := hlatches.imp fun _ _ hg ↦ hg.le hle₁
  have hids : List.Forall₂ (LitOf vm₁) (done.map AigerLatch.lit) (tr'.latches.map Latch.id) :=
    List.forall₂_map_left_iff.mpr (List.forall₂_map_right_iff.mpr (hlatches'.imp fun _ _ hg ↦ hg.id))
  have hmem : ∀ w ∈ done.map AigerLatch.lit, w ∈ aig.vars := by
    intro w hw
    obtain ⟨g, hg, rfl⟩ := List.mem_map.mp hw
    exact hvars g (hl ▸ List.mem_append_left _ hg)
  have hnodup : (done.map AigerLatch.lit ++ l.lit :: rest.map AigerLatch.lit).Nodup := by
    have hlat := (List.nodup_append.mp (List.nodup_append.mp hwf.nodup).1).2.1
    rw [← hl, List.map_append, List.map_cons] at hlat
    exact hlat
  have hnew : l.lit ∉ done.map AigerLatch.lit := fun hin ↦
    (List.nodup_append.mp hnodup).2.2 _ hin _ List.mem_cons_self rfl
  have hfresh := not_mem_of_nodup hb₁.inv hwf hids hid' hmem hvar hnew
  simp only [hid', ok_bind, createLatch]
  rw [show (!(tr'.latches.map Latch.id).contains id) = true by simpa using hfresh]
  simp only [ensure_true, ok_bind, meets_pure, pure_bind]
  refine ⟨hb₁, hle₀.trans hle₁, forall₂_snoc hlatches' ⟨hid', toInternal_of_lookup hi, rfl⟩, ?_⟩
  dsimp only at htr' ⊢
  rw [htr']
  simp

theorem processInputs_meets (h : vm.Inv) (hwf : aig.WellFormed) (tr : TransitionRelation)
    (htr : tr.inputIDs = []) (hlits : ∀ v ∈ aig.inputs, ∃ id, vm.toInternal v = .ok id) :
    Meets (fun tr' ↦ List.Forall₂ (LitOf vm) aig.inputs tr'.inputIDs ∧
        tr' = { tr with inputIDs := tr'.inputIDs })
      fail (aig.inputs.foldlM (processInput vm) tr) := by
  let inv : List ℕ → TransitionRelation → Prop := fun done tr' ↦
    List.Forall₂ (LitOf vm) done tr'.inputIDs ∧ tr' = { tr with inputIDs := tr'.inputIDs }
  have hinit : inv [] tr := by
    refine ⟨?_, rfl⟩
    rw [htr]
    exact .nil
  refine foldlM_meets inv tr hinit ?_
  rintro done v rest tr' hl ⟨hids, htr'⟩
  have hvars : ∀ w ∈ aig.inputs, w ∈ aig.vars := fun w hw ↦
    List.mem_append_left _ (List.mem_append_left _ hw)
  have hmem : v ∈ aig.inputs := hl ▸ List.mem_append_right done List.mem_cons_self
  have hnodup : (done ++ v :: rest).Nodup := by
    rw [hl]
    exact (List.nodup_append.mp (List.nodup_append.mp hwf.nodup).1).1
  have hnew : v ∉ done := fun hin ↦ (List.nodup_append.mp hnodup).2.2 _ hin _ List.mem_cons_self rfl
  obtain ⟨id, hid⟩ := hlits v hmem
  have hdone : ∀ w ∈ done, w ∈ aig.vars := fun w hw ↦ hvars w (hl ▸ List.mem_append_left _ hw)
  have hfresh := not_mem_of_nodup h hwf hids hid hdone (hvars v hmem) hnew
  unfold processInput
  rw [aigerSign_of_mem hwf (List.mem_cons_of_mem 0 (hvars v hmem)), hid]
  simp only [Bool.not_false, ensure_true, ok_bind, createInput]
  rw [show (!tr'.inputIDs.contains id) = true by simpa using hfresh]
  simp only [ensure_true, ok_bind, meets_pure]
  refine ⟨forall₂_snoc hids hid, ?_⟩
  rw [htr']

structure Built (aig : Aiger) (tr : TransitionRelation) (vm : VariableManager) : Prop where
  inv : vm.Inv
  vars : ∀ v ∈ aig.vars, ∃ id, vm.toInternal v = .ok id
  inputs : List.Forall₂ (LitOf vm) aig.inputs tr.inputIDs
  latches : List.Forall₂ (LatchOf vm) aig.latches tr.latches
  gates : List.Forall₂ (GateOf vm) aig.ands tr.gates
  constraints : List.Forall₂ (LitOf vm) aig.constraints tr.constraints
  latchIDs : tr.latchIDs = tr.latches.map Latch.id
  gateIDs : tr.gateIDs = tr.gates.map AndGate.lhs
  gateCNF : tr.gateCNF = AndGate.toCNF

theorem exists_toInternal (hv : ∀ v ∈ aig.vars, ∃ id, vm.toInternal v = .ok id)
    (h : vm.Inv) (hwf : aig.WellFormed) {lit : ℕ} (hl : aig.Defines lit) :
    ∃ id, vm.toInternal lit = .ok id := by
  rcases hl with hl | hl
  · exact ⟨_, toInternal_of_lookup (hl ▸ h.const)⟩
  · obtain ⟨id, hid⟩ := hv _ hl
    have hlook := VariableManager.lookup_of_toInternal (hwf.isVar _ hl).1 hid
    exact ⟨_, toInternal_of_lookup hlook⟩

theorem buildModel_meets (hwf : aig.WellFormed) :
    Meets (fun r ↦ Built aig r.1 r.2) fail (buildModel .new aig) := by
  have hin : aig.inputs ⊆ aig.vars := fun v hv ↦ List.mem_append_left _ (List.mem_append_left _ hv)
  have hlat : aig.latches.map AigerLatch.lit ⊆ aig.vars := fun v hv ↦
    List.mem_append_left _ (List.mem_append_right _ hv)
  unfold buildModel
  refine (createSymbols_meets (building_new aig) hwf hin).bind fun vm₁ h₁ ↦ ?_
  obtain ⟨hb₁, -, hs₁⟩ := h₁
  refine (createSymbols_meets hb₁ hwf hlat).bind fun vm₂ h₂ ↦ ?_
  obtain ⟨hb₂, hle₂, hs₂⟩ := h₂
  refine (processAnds_meets hb₂ hwf).bind fun r₃ h₃ ↦ ?_
  obtain ⟨tr₃, vm₃⟩ := r₃
  obtain ⟨hb₃, hle₃, hgates, htr₃⟩ := h₃
  dsimp only at hb₃ hle₃ hgates htr₃
  have hlits : ∀ l ∈ aig.latches, ∃ id, vm₃.toInternal l.lit = .ok id := fun l hl ↦ by
    obtain ⟨id, hid⟩ := hs₂ l.lit (List.mem_map_of_mem hl)
    exact ⟨id, hle₃.toInternal hid⟩
  have hempty : tr₃.latches = [] ∧ tr₃.latchIDs = [] := by
    rw [htr₃]
    exact ⟨rfl, rfl⟩
  refine (processLatches_meets hb₃ hwf tr₃ hempty hlits).bind fun r₄ h₄ ↦ ?_
  obtain ⟨tr₄, vm₄⟩ := r₄
  obtain ⟨hb₄, hle₄, hlatches, htr₄⟩ := h₄
  dsimp only at hb₄ hle₄ hlatches htr₄
  have hvars : ∀ v ∈ aig.vars, ∃ id, vm₄.toInternal v = .ok id := by
    intro v hv
    rcases List.mem_append.mp hv with hv | hv
    · rcases List.mem_append.mp hv with hv | hv
      · obtain ⟨id, hid⟩ := hs₁ v hv
        exact ⟨id, (hle₂.trans (hle₃.trans hle₄)).toInternal hid⟩
      · obtain ⟨id, hid⟩ := hs₂ v hv
        exact ⟨id, (hle₃.trans hle₄).toInternal hid⟩
    · obtain ⟨a, ha, rfl⟩ := List.mem_map.mp hv
      obtain ⟨g, -, hg⟩ : ∃ g ∈ tr₃.gates, GateOf vm₃ a g := by
        obtain ⟨i, hi, rfl⟩ := List.mem_iff_getElem.mp ha
        have hi' : i < tr₃.gates.length := hgates.length_eq ▸ hi
        exact ⟨_, List.getElem_mem hi', hgates.get hi hi'⟩
      exact ⟨g.lhs, hle₄.toInternal hg.lhs⟩
  have hnoinput : tr₄.inputIDs = [] := by
    rw [htr₄, htr₃]
    rfl
  have hvin : ∀ v ∈ aig.inputs, ∃ id, vm₄.toInternal v = .ok id := fun v hv ↦ hvars v (hin hv)
  refine (processInputs_meets hb₄.inv hwf tr₄ hnoinput hvin).bind fun tr₅ h₅ ↦ ?_
  obtain ⟨hinputs, htr₅⟩ := h₅
  have hcons : Meets (List.Forall₂ (LitOf vm₄) aig.constraints) fail
      (aig.constraints.mapM vm₄.toInternal) := by
    refine mapM_meets fun c hc ↦ ?_
    obtain ⟨id, hid⟩ := exists_toInternal hvars hb₄.inv hwf (hwf.constraints c hc)
    rw [hid]
    exact hid
  simp only [processConstraints, bind_assoc]
  refine hcons.bind fun cs hcs ↦ ?_
  simp only [pure_bind, meets_pure]
  refine ⟨hb₄.inv, hvars, hinputs, ?_, ?_, ?_, ?_, ?_, ?_⟩
  · rw [htr₅]
    exact hlatches
  · rw [htr₅, htr₄]
    exact hgates.imp fun _ _ hg ↦ hg.le hle₄
  · rw [htr₅, htr₄, htr₃]
    exact hcs
  · rw [htr₅, htr₄]
  · rw [htr₅, htr₄, htr₃]
  · rw [htr₅, htr₄, htr₃]
    rfl

theorem fromAiger_meets (hwf : aig.WellFormed) :
    Meets (fun r ↦ Built aig r.1 r.2 ∧ ∃ o ∈ aig.outputs, LitOf r.2 o r.1.bad)
      fail (fromAiger .new aig) := by
  obtain ⟨hne, houts⟩ := hwf.outputs
  cases ho : aig.outputs with
  | nil => exact absurd ho hne
  | cons o outs =>
    rw [fromAiger, ho]
    refine (buildModel_meets hwf).bind fun r hr ↦ ?_
    obtain ⟨tr, vm⟩ := r
    have hmem : o ∈ aig.outputs := ho ▸ List.mem_cons_self
    obtain ⟨id, hid⟩ := exists_toInternal hr.vars hr.inv hwf (houts o hmem)
    simp only [hid, ok_bind, meets_pure]
    exact ⟨⟨hr.inv, hr.vars, hr.inputs, hr.latches, hr.gates, hr.constraints, hr.latchIDs,
      hr.gateIDs, hr.gateCNF⟩, o, List.mem_cons_self, hid⟩

end TransitionRelation

end PME
