import PME.CollapseSetFinder
import PME.ProofMinimizer
import PME.Lib.SmallestFirst

namespace PME

open Outcome Support TransitionRelation

namespace CollapseSetFinder

open ConsecutionChecker (clauses Provable oneVar provable_halted halted refuter refuted_halted tangled
  tangledProof provable_tangled latchValues supports_tangled_iff)

def addAll (vm : VariableManager) (f : CollapseSetFinder) : ℕ → ClauseVec →
    Result (VariableManager × CollapseSetFinder)
  | _, [] => return (vm, f)
  | id, cls :: proof => do
    let (vm, f) ← f.addClause vm id cls
    addAll vm f (id + 1) proof

/-- The states after searches for collapse sets, with the clauses asked about and the answers.
Other users of the variable manager may take IDs in between. -/
inductive Called (B : Backend) (len : ℕ) (start : VariableManager × CollapseSetFinder) :
    List (ℕ × Option (List ℕ)) → VariableManager → CollapseSetFinder → Prop
  | start : Called B len start [] start.1 start.2
  | others {history vm f vm'} : Called B len start history vm f → vm'.Inv → vm.nextID ≤ vm'.nextID →
      Called B len start history vm' f
  | call {history vm f c r vm' f'} : Called B len start history vm f → c < len →
      f.findAndBlock B vm c = .ok (r, vm', f') → Called B len start (history ++ [(c, r)]) vm' f'

def answersFor (c : ℕ) (history : List (ℕ × Option (List ℕ))) : List (Option (List ℕ)) :=
  (history.filter (·.1 == c)).map Prod.snd

def blockedAfter (history : List (ℕ × Option (List ℕ))) : List (ℕ × Finset ℕ) :=
  history.filterMap fun p ↦ p.2.map fun l ↦ (p.1, l.toFinset)

def Loses (tr : TransitionRelation) (proof : ClauseVec) (c : ℕ) (k : Finset ℕ) : Prop :=
  ¬ Supports tr (clauses proof) (Finset.range proof.length \ k) c

variable {B : Backend} {tr : TransitionRelation} {proof : ClauseVec} {vm vm' : VariableManager}
  {f f' : CollapseSetFinder} {fail : Failure → Prop} {history : List (ℕ × Option (List ℕ))} {c : ℕ}
  {start : VariableManager × CollapseSetFinder}

theorem addAll_building (hids : fail .idsExhausted) {base : Finset ℕ} {n id : ℕ} {cls : ℕ → Clause}
    (h : Building tr cls base n vm f) (hvm : vm.Inv) (hn : n ≤ vm.nextID)
    (hnew : f.clausedb.entries.map ClauseEntry.id = List.range id) {rest : ClauseVec}
    (hbase : ∀ i < rest.length, id + i ∈ base ∧ cls (id + i) = clauses rest i) :
    Meets (fun r ↦ r.1.Inv ∧ vm.nextID ≤ r.1.nextID ∧ Building tr cls base n r.1 r.2 ∧
      r.2.clausedb.entries.map ClauseEntry.id = List.range (id + rest.length)) fail
      (addAll vm f id rest) := by
  induction rest generalizing vm f id with
  | nil => exact ⟨hvm, le_rfl, h, hnew⟩
  | cons c rest ih =>
    obtain ⟨hmem, heq⟩ := hbase 0 (Nat.succ_pos _)
    have hc : cls id = c := heq
    have hout : id ∉ f.clausedb.entries.map ClauseEntry.id := by
      rw [hnew, List.mem_range]
      exact Nat.lt_irrefl id
    have hadd : Meets _ fail _ := h.addClause hvm hn hmem hout hids
    rw [Nat.add_zero, hc] at hadd
    unfold addAll
    refine hadd.bind fun r hr ↦ ?_
    obtain ⟨vm₁, f₁⟩ := r
    obtain ⟨hinv, hle, hbuild, hids₁⟩ := hr
    dsimp only at hinv hle hbuild hids₁ ⊢
    have hnew₁ : f₁.clausedb.entries.map ClauseEntry.id = List.range (id + 1) := by
      rw [hids₁, hnew, List.range_succ]
    refine (ih hbuild hinv (hn.trans hle) hnew₁ fun i hi ↦ ?_).imp fun r hr ↦
      ⟨hr.1, hle.trans hr.2.1, hr.2.2.1, ?_⟩
    · have hnext := hbase (i + 1) (Nat.succ_lt_succ hi)
      rw [Nat.add_comm i 1, ← Nat.add_assoc] at hnext
      exact ⟨hnext.1, hnext.2.trans (by rw [Nat.add_comm 1 i]; rfl)⟩
    · rw [hr.2.2.2, List.length_cons]
      congr 1
      omega

theorem addAll_meets (h : Provable tr vm proof) (hids : fail .idsExhausted) :
    Meets (fun r ↦ r.2.clausedb.entries.length = proof.length ∧
      ∀ B, Rep B tr (clauses proof) (Finset.range proof.length) vm.nextID [] r.1 r.2) fail
      (addAll vm (new tr) 0 proof) := by
  have hstart : Building tr (clauses proof) (Finset.range proof.length) vm.nextID vm (new tr) := building_new
  have hall : ∀ i < proof.length, 0 + i ∈ Finset.range proof.length ∧ clauses proof (0 + i) = clauses proof i := by
    intro i hi
    rw [Nat.zero_add]
    exact ⟨Finset.mem_range.mpr hi, rfl⟩
  refine (addAll_building hids hstart h.vars le_rfl rfl hall).imp fun r hr ↦ ?_
  obtain ⟨hinv, hle, hbuild, hall⟩ := hr
  rw [Nat.zero_add] at hall
  refine ⟨by rw [← List.length_map (f := ClauseEntry.id), hall, List.length_range], fun B ↦ ?_⟩
  refine hbuild.rep hinv hle fun c hc ↦ ?_
  rw [hall, List.mem_range]
  exact Finset.mem_range.mp hc

theorem loses_of_collapses {k : Finset ℕ}
    (h : Collapses (Supports tr (clauses proof)) (Finset.range proof.length) c k) : Loses tr proof c k :=
  h.2.2

/-- The clause itself is assumed in any case, so it is never needed in a collapse set. -/
theorem Loses.collapses {k : Finset ℕ} (h : Loses tr proof c k) :
    Collapses (Supports tr (clauses proof)) (Finset.range proof.length) c
      ((k ∩ Finset.range proof.length).erase c) := by
  refine ⟨(Finset.erase_subset _ _).trans Finset.inter_subset_right, Finset.notMem_erase c _, fun hsup ↦ ?_⟩
  refine h fun x y hxy hall hc ↦ hsup x y hxy (fun d hd ↦ ?_) hc
  obtain ⟨hbase, hno⟩ := Finset.mem_sdiff.mp hd
  by_cases heq : d = c
  · rw [heq]
    exact hc
  · refine hall d (Finset.mem_sdiff.mpr ⟨hbase, fun hk ↦ hno ?_⟩)
    exact Finset.mem_erase.mpr ⟨heq, Finset.mem_inter.mpr ⟨hk, hbase⟩⟩

theorem minimal_collapses_iff {k : Finset ℕ} :
    k ⊆ Finset.range proof.length ∧ Minimal (Loses tr proof c) k ↔
      Minimal (Collapses (Supports tr (clauses proof)) (Finset.range proof.length) c) k := by
  have hsub : ∀ s : Finset ℕ, (s ∩ Finset.range proof.length).erase c ⊆ s := fun s ↦
    (Finset.erase_subset _ _).trans Finset.inter_subset_left
  constructor
  · intro h
    obtain ⟨-, hmin⟩ := h
    have hle : k ⊆ _ := hmin.le_of_le (loses_of_collapses hmin.prop.collapses) (hsub k)
    have heq : k = _ := hle.antisymm (hsub k)
    refine ⟨?_, fun s hs hsk ↦ hmin.le_of_le (loses_of_collapses hs) hsk⟩
    rw [heq]
    exact hmin.prop.collapses
  · intro hmin
    refine ⟨hmin.prop.1, loses_of_collapses hmin.prop, fun s hs hsk ↦ ?_⟩
    exact (hmin.le_of_le (Loses.collapses hs) ((hsub s).trans hsk)).trans (hsub s)

section History

open Exploration (Answered Enumerates)

def foundFor (c : ℕ) (history : List (ℕ × Option (List ℕ))) : List (Finset ℕ) :=
  (answersFor c history).reduceOption.map List.toFinset

theorem answersFor_snoc {c' : ℕ} {r : Option (List ℕ)} :
    answersFor c (history ++ [(c', r)]) =
      if c' = c then answersFor c history ++ [r] else answersFor c history := by
  unfold answersFor
  rw [List.filter_append, List.map_append]
  split
  · next heq => simp [heq]
  · next hne => simp [hne]

theorem blockedAfter_snoc {r : Option (List ℕ)} :
    blockedAfter (history ++ [(c, r)]) = match r with
      | none => blockedAfter history
      | some l => blockedAfter history ++ [(c, l.toFinset)] := by
  unfold blockedAfter
  cases r with
  | none => simp
  | some l => simp

theorem unblocked_iff_found {k : Finset ℕ} :
    Unblocked (blockedAfter history) c k ↔ Exploration.Unblocked (foundFor c history) k := by
  have hblocked : ∀ k', (c, k') ∈ blockedAfter history ↔ k' ∈ foundFor c history := by
    intro k'
    unfold blockedAfter foundFor answersFor List.reduceOption
    simp only [List.mem_filterMap, List.mem_map, List.mem_filter, Option.map_eq_some_iff, Prod.mk.injEq,
      id_eq]
    constructor
    · rintro ⟨⟨c', r⟩, hmem, l, hr, rfl, rfl⟩
      exact ⟨l, ⟨_, ⟨_, ⟨hmem, beq_self_eq_true c'⟩, rfl⟩, hr⟩, rfl⟩
    · rintro ⟨l, ⟨_, ⟨p, ⟨hmem, hc⟩, rfl⟩, hr⟩, rfl⟩
      exact ⟨p, hmem, l, hr, beq_iff_eq.mp hc, rfl⟩
  unfold Unblocked Exploration.Unblocked
  exact forall_congr' fun k' ↦ by rw [hblocked]

def AllAnswered (tr : TransitionRelation) (proof : ClauseVec) (history : List (ℕ × Option (List ℕ))) :
    Prop :=
  ∀ c < proof.length, (∀ l, some l ∈ answersFor c history → l.Nodup) ∧
    Answered (Collapses (Supports tr (clauses proof)) (Finset.range proof.length) c)
      (Finset.range proof.length) (foundFor c history)
      ((answersFor c history).map (Option.map List.toFinset))

theorem allAnswered_nil (hind : Inductive (Supports tr (clauses proof)) (Finset.range proof.length)) :
    AllAnswered tr proof [] := by
  intro c hc
  refine ⟨nofun, Exploration.answered_nil fun hempty ↦ ?_⟩
  exact Finset.not_nonempty_empty (hempty.nonempty hind (Finset.mem_range.mpr hc))

theorem AllAnswered.snoc (h : AllAnswered tr proof history) {r : Option (List ℕ)}
    (hr : IsFound (Supports tr (clauses proof)) (Finset.range proof.length) (blockedAfter history) c r) :
    AllAnswered tr proof (history ++ [(c, r)]) := by
  intro c' hc'
  obtain ⟨hnodup, hanswered⟩ := h c' hc'
  unfold foundFor
  rw [answersFor_snoc]
  split
  · next heq =>
    subst heq
    cases r with
    | none =>
      refine ⟨fun l hl ↦ hnodup l (by simpa using hl), ?_⟩
      have hnone := hanswered.none fun t ht hcol ↦ unblocked_iff_found.not.mp (hr t hcol)
      simpa [List.reduceOption, foundFor] using hnone
    | some l =>
      obtain ⟨hl, hcol, hopen, hleast⟩ := hr
      refine ⟨fun l' hl' ↦ ?_, ?_⟩
      · rcases List.mem_append.mp hl' with hl' | hl'
        · exact hnodup l' hl'
        · rw [Option.some.inj (List.mem_singleton.mp hl')]
          exact hl
      · have hgive := hanswered.give hcol.1 hcol (unblocked_iff_found.mp hopen) fun s _ hs hos ↦
          hleast s hs (unblocked_iff_found.mpr hos)
        simpa [List.reduceOption, foundFor] using hgive
  · exact ⟨hnodup, hanswered⟩

theorem Called.invariant (h : Provable tr vm proof)
    (hind : Inductive (Supports tr (clauses proof)) (Finset.range proof.length))
    (hstart : Rep B tr (clauses proof) (Finset.range proof.length) vm.nextID [] start.1 start.2)
    (hcalled : Called B proof.length start history vm' f) :
    Rep B tr (clauses proof) (Finset.range proof.length) vm.nextID (blockedAfter history) vm' f ∧
      f.clausedb = start.2.clausedb ∧ AllAnswered tr proof history := by
  induction hcalled with
  | start => exact ⟨hstart, rfl, allAnswered_nil hind⟩
  | others _ hvm hle ih => exact ⟨ih.1.mono hvm hle, ih.2⟩
  | @call history vm₁ f₁ c r vm₂ f₂ _ hc hok ih =>
    obtain ⟨hrep, hdb, hall⟩ := ih
    have hfind : Meets _ (fun _ ↦ True) (f₁.findAndBlock B vm₁ c) := findAndBlock_meets hrep h.checkable hind
      (Finset.mem_range.mpr hc) ⟨fun _ ↦ trivial, fun _ ↦ ⟨trivial, trivial⟩⟩
    obtain ⟨-, hdb', -, hfound, hrep'⟩ := post_of_ok hfind hok
    dsimp only at hdb' hfound hrep'
    refine ⟨?_, hdb'.trans hdb, hall.snoc hfound⟩
    rw [blockedAfter_snoc]
    cases r with
    | none => exact hrep'
    | some l => exact hrep'

/-- The answers for each clause are the minimal sets without which it is lost, by size and each
once; the answers for others do not matter. -/
def Lists (tr : TransitionRelation) (proof : ClauseVec) (history : List (ℕ × Option (List ℕ))) : Prop :=
  ∀ c < proof.length, (∀ l, some l ∈ answersFor c history → l.Nodup) ∧
    Enumerates (Loses tr proof c) (Finset.range proof.length)
      ((answersFor c history).map (Option.map List.toFinset))

theorem AllAnswered.lists (h : AllAnswered tr proof history) : Lists tr proof history := by
  intro c hc
  obtain ⟨hnodup, hanswered⟩ := h c hc
  refine ⟨hnodup, hanswered.enumerates.congr fun t ↦ ?_⟩
  rw [minimal_collapses_iff]
  exact ⟨And.right, fun hmin ↦ ⟨hmin.prop.1, hmin⟩⟩

theorem findAndBlock_refuted (h : Provable tr vm proof)
    (hrep : Rep B tr (clauses proof) (Finset.range proof.length) vm.nextID [] vm' f)
    (hr : Refuted B tr f.clausedb.entries) : f.findAndBlock B vm' c = .error .assertion := by
  have hi : f.solverInited = false := Bool.eq_false_iff.mpr fun hi ↦ (hrep.solving hi).2 hr
  have hinit : f.initSolver B = .error .assertion := by
    unfold initSolver
    rw [hi, Bool.not_false, ensure_true, ok_bind, hrep.tr_eq,
      activatedFormula_refuted (h.checkable.suits hrep.filled.toEntered hrep.vars) hr]
    rfl
  unfold findAndBlock find
  rw [hi, if_neg Bool.false_ne_true, hinit]
  rfl

def Crowded (vm : VariableManager) (len : ℕ) (e : Failure) : Prop :=
  (e = .narrowed ∨ e = .idsExhausted) ∧ 2 ^ 32 < vm.nextID + 2 * len ^ 3

/-- Collapse sets are enumerated exactly when the simplifier does not refute the formula. -/
theorem findAndBlock_enumerates (h : Provable tr vm proof)
    (hind : Inductive (Supports tr (clauses proof)) (Finset.range proof.length))
    (hreg : addAll vm (new tr) 0 proof = .ok (vm', f)) :
    (∀ history vm₁ f₁, Called B proof.length (vm', f) history vm₁ f₁ → ∀ c < proof.length,
      Meets (fun r ↦ Lists tr proof (history ++ [(c, r.1)])) (Crowded vm₁ proof.length)
        (f₁.findAndBlock B vm₁ c)) ↔
      ¬ (Refuted B tr f.clausedb.entries ∧ proof ≠ []) := by
  obtain ⟨hlen, hrep⟩ := post_of_ok (addAll_meets h trivial) hreg
  constructor
  · intro hall hno
    obtain ⟨hr, hne⟩ := hno
    have hfirst := hall [] vm' f .start 0 (List.length_pos_of_ne_nil hne)
    rw [findAndBlock_refuted h (hrep B) hr] at hfirst
    exact absurd hfirst.1 (by decide)
  · intro hno history vm₁ f₁ hcalled c hc
    obtain ⟨hrep₁, hdb, hall⟩ := hcalled.invariant h hind (hrep B)
    have hlen₁ : f₁.clausedb.entries.length = proof.length := by rw [hdb, hlen]
    have hexcused : Excused B tr vm₁ f₁ (Crowded vm₁ proof.length) := by
      refine ⟨fun hr ↦ absurd ⟨hdb ▸ hr, List.ne_nil_of_length_pos (Nat.zero_lt_of_lt hc)⟩ hno, fun hlt ↦ ?_⟩
      rw [hlen₁] at hlt
      exact ⟨⟨.inl rfl, hlt⟩, .inr rfl, hlt⟩
    refine (findAndBlock_meets hrep₁ h.checkable hind (Finset.mem_range.mpr hc) hexcused).imp fun r hr ↦ ?_
    exact (hall.snoc hr.2.2.2.1).lists

theorem tangled_loses_iff {k : Finset ℕ} (hk : k ⊆ Finset.range 4) :
    Minimal (Loses tangled tangledProof 2) k ↔ k = {1, 3} := by
  have hloses : ∀ k, Loses tangled tangledProof 2 k ↔ ¬ ∀ u v w : Bool,
      (∀ d ∈ Finset.range 4 \ k, satClause (latchValues u v w) (clauses tangledProof d)) →
      satClause (latchValues u v w) [5, 6] → satClause (latchValues w v v) [5, 6] := fun k ↦
    not_congr supports_tangled_iff
  have hsub : ∀ k ⊆ Finset.range 4, Loses tangled tangledProof 2 k → {1, 3} ⊆ k := by
    intro k hk hlost
    rw [hloses] at hlost
    revert k
    decide
  have hpair : Loses tangled tangledProof 2 {1, 3} := (hloses _).mpr (by decide)
  constructor
  · intro hmin
    have hle := hsub k hk hmin.prop
    exact (hmin.le_of_le hpair hle).antisymm hle
  · rintro rfl
    exact ⟨hpair, fun t ht hle ↦ hsub t (hle.trans hk) ht⟩

/-- Searches for clauses 0 and 2 in turn. The second clause has one collapse set. -/
theorem findAndBlock_enumerates_tangled : ∃ r, addAll .three (new tangled) 0 tangledProof = .ok r ∧
    ∃ a l b vm f, Called ⟨.exhaustive, .keep, false⟩ 4 r [(0, a), (2, some l), (0, b), (2, none)] vm f ∧
      l.toFinset = {1, 3} ∧ Lists tangled tangledProof [(0, a), (2, some l), (0, b), (2, none)] := by
  obtain ⟨r, hr, hid⟩ : ∃ r, addAll .three (new tangled) 0 tangledProof = .ok r ∧ r.1.nextID = 26 :=
    ⟨_, rfl, rfl⟩
  obtain ⟨hlen, hrep⟩ := post_of_ok (addAll_meets provable_tangled trivial) hr
  have hright := (findAndBlock_enumerates (B := ⟨.exhaustive, .keep, false⟩) provable_tangled
    tangled_inductive hr).mpr fun hno ↦ Bool.false_ne_true hno.1.1
  have hcall : ∀ history vm f c, Called ⟨.exhaustive, .keep, false⟩ 4 r history vm f → vm.nextID ≤ 1000 →
      c < 4 → ∃ a vm' f', Called ⟨.exhaustive, .keep, false⟩ 4 r (history ++ [(c, a)]) vm' f' ∧
        vm'.nextID ≤ vm.nextID + 128 ∧ Lists tangled tangledProof (history ++ [(c, a)]) := by
    intro history vm f c hcalled hlow hc
    obtain ⟨hrep', hdb, -⟩ := hcalled.invariant provable_tangled tangled_inductive
      (hrep ⟨.exhaustive, .keep, false⟩)
    have hids : Meets _ (fun _ ↦ True) (f.findAndBlock ⟨.exhaustive, .keep, false⟩ vm c) :=
      findAndBlock_meets hrep' provable_tangled.checkable tangled_inductive (Finset.mem_range.mpr hc)
        ⟨fun _ ↦ trivial, fun _ ↦ ⟨trivial, trivial⟩⟩
    have hcrowded : ∀ e, ¬ Crowded vm tangledProof.length e := by
      intro e he
      have hlt : 2 ^ 32 < vm.nextID + 2 * 4 ^ 3 := he.2
      omega
    obtain ⟨⟨a, vm', f'⟩, hok, hanswers⟩ := ((hright history vm f hcalled c hc).weaken hcrowded).exists_ok
    have htop := (hids.of_ok hok).2.2.1.2
    rw [hdb, hlen] at htop
    exact ⟨a, vm', f', .call hcalled hc hok, htop, hanswers⟩
  obtain ⟨a, vm₁, f₁, h₁, htop₁, -⟩ := hcall [] _ _ 0 .start (by omega) (by decide)
  obtain ⟨x, vm₂, f₂, h₂, htop₂, -⟩ := hcall _ _ _ 2 h₁ (by omega) (by decide)
  obtain ⟨b, vm₃, f₃, h₃, htop₃, -⟩ := hcall _ _ _ 0 h₂ (by omega) (by decide)
  obtain ⟨y, vm₄, f₄, h₄, -, hlists⟩ := hcall _ _ _ 2 h₃ (by omega) (by decide)
  have heach := (hlists 2 (by decide)).2
  have hanswers : answersFor 2 ([] ++ [(0, a)] ++ [(2, x)] ++ [(0, b)] ++ [(2, y)]) = [x, y] := rfl
  rw [hanswers] at heach
  have honly : ∀ l, some l ∈ [x, y] → l.toFinset = {1, 3} := by
    intro l hl
    obtain ⟨hsub, hmin⟩ := heach.each _ (List.mem_map_of_mem hl)
    exact (tangled_loses_iff hsub).mp hmin
  have hmin : Minimal (Loses tangled tangledProof 2) {1, 3} := (tangled_loses_iff (by decide)).mpr rfl
  cases x with
  | none =>
    have hsizes : [none, (y.map List.toFinset).map Finset.card] =
        [(Exploration.minimalSizes (Loses tangled tangledProof 2) (Finset.range 4))[0]?,
          (Exploration.minimalSizes (Loses tangled tangledProof 2) (Finset.range 4))[1]?] := heach.sizes
    obtain ⟨hfirst, hsecond, -⟩ := List.cons.inj hsizes |>.imp_right List.cons.inj
    have hnil := List.getElem?_eq_none_iff.mp hfirst.symm
    have hmem := heach.all (hnil.trans (Nat.zero_le _)) {1, 3} (by decide) hmin
    rw [List.getElem?_eq_none (hnil.trans (Nat.zero_le _))] at hsecond
    cases y with
    | none => simp at hmem
    | some l => exact absurd hsecond (Option.some_ne_none _)
  | some l =>
    cases y with
    | none => exact ⟨r, hr, a, l, b, vm₄, f₄, h₄, honly l (by simp), hlists⟩
    | some l' =>
      have honce := heach.once
      simp [List.reduceOption, honly l (by simp), honly l' (by simp)] at honce

theorem findAndBlock_enumerates_fails : ¬ ∀ (B : Backend) (tr : TransitionRelation)
    (vm vm' : VariableManager) (proof : ClauseVec) (f : CollapseSetFinder), Provable tr vm proof →
    Inductive (Supports tr (clauses proof)) (Finset.range proof.length) →
    addAll vm (new tr) 0 proof = .ok (vm', f) → ∀ history vm₁ f₁,
    Called B proof.length (vm', f) history vm₁ f₁ → ∀ c < proof.length,
    Meets (fun r ↦ Lists tr proof (history ++ [(c, r.1)])) (Crowded vm₁ proof.length)
      (f₁.findAndBlock B vm₁ c) := by
  intro hall
  obtain ⟨r, hr⟩ : ∃ r, addAll oneVar (new halted) 0 [[4]] = .ok r := ⟨_, rfl⟩
  obtain ⟨vm', f⟩ := r
  have hrep := (post_of_ok (addAll_meets provable_halted trivial) hr).2 refuter
  have hclaim := hall refuter halted oneVar vm' [[4]] f provable_halted (halted_inductive _ _) hr
    [] vm' f .start 0 (by decide)
  rw [findAndBlock_refuted provable_halted hrep
    (refuted_halted (provable_halted.checkable.suits hrep.filled.toEntered hrep.vars))] at hclaim
  exact absurd hclaim.1 (by decide)

end History

end CollapseSetFinder

end PME
