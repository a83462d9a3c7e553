import PME.MapSession
import PME.Abstraction
import PME.Lib.Exploration

namespace PME

open Outcome Exploration

def SafeOver (tr : TransitionRelation) (gates : List ℕ) : Prop :=
  ∃ p, tr.ofGates gates = .ok p ∧ p.Safe

def SafeGates (tr : TransitionRelation) (t : Finset ℕ) : Prop := SafeOver tr t.toList

section Safe

variable {tr : TransitionRelation} {gates gates' : List ℕ}

theorem safeOver_of_ok {p : TransitionRelation} (hok : tr.ofGates gates = .ok p) : SafeOver tr gates ↔ p.Safe := by
  constructor
  · intro hsafe
    obtain ⟨q, hq, hsafe⟩ := hsafe
    rw [hok] at hq
    exact Except.ok.inj hq ▸ hsafe
  · exact fun hsafe ↦ ⟨p, hok, hsafe⟩

theorem safeOver_iff_freeBadAt (h : tr.WellFormed) :
    SafeOver tr gates ↔ ∀ k, ¬ tr.FreeBadAt gates {v | TransitionRelation.Cone tr gates v} k := by
  obtain ⟨p, hok, hp⟩ := Meets.exists_ok (TransitionRelation.ofGates_meets h.latches_nodup gates)
  rw [safeOver_of_ok hok]
  exact forall_congr' fun k ↦ not_congr (hp.badAt_iff k)

theorem SafeOver.mono (h : tr.WellFormed) (hsub : gates ⊆ gates') (hsafe : SafeOver tr gates) :
    SafeOver tr gates' := by
  obtain ⟨p, p', hok, hok', -, -, himp⟩ := TransitionRelation.ofGates_mono h.latches_nodup hsub
  exact (safeOver_of_ok hok').mpr (himp ((safeOver_of_ok hok).mp hsafe))

theorem safeOver_iff (h : tr.WellFormed) : SafeOver tr gates ↔ SafeGates tr gates.toFinset := by
  constructor
  · intro hsafe
    exact hsafe.mono h fun g hg ↦ Finset.mem_toList.mpr (List.mem_toFinset.mpr hg)
  · intro hsafe
    exact SafeOver.mono h (fun g hg ↦ List.mem_toFinset.mp (Finset.mem_toList.mp hg)) hsafe

theorem monotone_safeGates (h : tr.WellFormed) : Monotone (SafeGates tr) := fun _ _ hle hsafe ↦
  SafeOver.mono h (fun _ hg ↦ Finset.mem_toList.mpr (hle (Finset.mem_toList.mp hg))) hsafe

theorem SafeOver.safe (h : tr.WellFormed) (hplain : tr.gateCNF = AndGate.toCNF)
    (hsafe : SafeOver tr tr.gateIDs) : tr.Safe := by
  have hall : ∀ g ∈ tr.gates, g.lhs ∈ tr.gateIDs := by
    rw [h.gateIDs_eq]
    exact fun g hg ↦ List.mem_map_of_mem hg
  intro k hk
  have hfree := (TransitionRelation.badAt_eq_freeBadAt hplain hall k).mp hk
  exact (safeOver_iff_freeBadAt h).mp hsafe k (hfree.mono (Set.subset_univ _))

theorem TransitionRelation.WellFormed.gateIDs_nodup (h : tr.WellFormed) : tr.gateIDs.Nodup :=
  (List.nodup_append.mp h.nodup).2.1

/-- The gates as a `std::set`, in increasing order. -/
def idSet (ids : List ℕ) : List ℕ := ids.dedup.insertionSort (· ≤ ·)

theorem mem_idSet {ids : List ℕ} {id : ℕ} : id ∈ idSet ids ↔ id ∈ ids := by
  rw [idSet, (List.perm_insertionSort _ _).mem_iff, List.mem_dedup]

theorem idSet_perm {ids : List ℕ} (h : ids.Nodup) : (idSet ids).Perm ids := by
  refine (List.perm_insertionSort _ _).trans ?_
  rw [h.dedup]

theorem toFinset_idSet (ids : List ℕ) : (idSet ids).toFinset = ids.toFinset := by
  ext id
  rw [List.mem_toFinset, List.mem_toFinset, mem_idSet]

theorem TransitionRelation.WellFormed.gates_idSet (h : tr.WellFormed) : IDSet (idSet tr.gateIDs) := by
  have hvar : ∀ id ∈ idSet tr.gateIDs, minId ≤ id ∧ id ≤ maxId ∧ id % 2 = 0 := fun id hid ↦
    h.isVar id (List.mem_append_right _ (mem_idSet.mp hid))
  exact ⟨(idSet_perm h.gateIDs_nodup).nodup_iff.mpr h.gateIDs_nodup, fun id hid ↦ (hvar id hid).2.2,
    fun id hid ↦ (hvar id hid).1⟩

end Safe

structure IVCFinder where
  mivcs : List Seed
  minimumIVC : Seed

namespace IVCFinder

def new : IVCFinder := ⟨[], []⟩

def minimumIVCKnown (f : IVCFinder) : Bool := !f.minimumIVC.isEmpty

def addMIVC (f : IVCFinder) (ivc : Seed) : IVCFinder := { f with mivcs := f.mivcs ++ [ivc] }

def setMinimumIVC (f : IVCFinder) (ivc : Seed) : IVCFinder := { f with minimumIVC := ivc }

def ReportsAll (tr : TransitionRelation) (f : IVCFinder) : Prop :=
  (∀ s ∈ f.mivcs, s.Nodup) ∧
    Explored.Complete (SafeGates tr) tr.gateIDs.toFinset (f.mivcs.map List.toFinset)

def MinimumRight (f : IVCFinder) : Prop :=
  f.minimumIVC ∈ f.mivcs ∧ ∀ s ∈ f.mivcs, f.minimumIVC.length ≤ s.length

def DeclaresLeast (tr : TransitionRelation) (f : IVCFinder) : Prop :=
  ∀ t ⊆ tr.gateIDs.toFinset, Minimal (SafeGates tr) t →
    Minimal (SafeGates tr) f.minimumIVC.toFinset ∧ f.minimumIVC.length ≤ t.card

end IVCFinder

def smallerIVC (smallest mivc : Seed) : Seed :=
  if smallest.isEmpty || decide (mivc.length < smallest.length) then mivc else smallest

structure KeepsSmallest (mivcs : List Seed) (smallest : Seed) : Prop where
  mem : mivcs = [] ∧ smallest = [] ∨ smallest ∈ mivcs
  le : ∀ s ∈ mivcs, smallest.length ≤ s.length

theorem KeepsSmallest.record {mivcs : List Seed} {smallest : Seed}
    (h : KeepsSmallest mivcs smallest) (hne : ∀ s ∈ mivcs, s ≠ []) (mivc : Seed) :
    KeepsSmallest (mivcs ++ [mivc]) (smallerIVC smallest mivc) := by
  have hmem : ∀ s, s ∈ mivcs ++ [mivc] ↔ s ∈ mivcs ∨ s = mivc := fun s ↦
    List.mem_append.trans (or_congr_right List.mem_singleton)
  by_cases hc : (smallest.isEmpty || decide (mivc.length < smallest.length)) = true
  · have heq : smallerIVC smallest mivc = mivc := if_pos hc
    rw [heq]
    refine ⟨.inr ((hmem _).mpr (.inr rfl)), fun s hs ↦ ?_⟩
    cases (hmem s).mp hs with
    | inr hs => rw [hs]
    | inl hs =>
      cases (Bool.or_eq_true _ _).mp hc with
      | inr hlt => exact (of_decide_eq_true hlt).le.trans (h.le s hs)
      | inl hnil =>
        obtain ⟨hno, -⟩ | hin := h.mem
        · exact absurd (hno ▸ hs) List.not_mem_nil
        · exact absurd (List.isEmpty_iff.mp hnil) (hne _ hin)
  · have heq : smallerIVC smallest mivc = smallest := if_neg hc
    rw [Bool.or_eq_true, not_or, decide_eq_true_iff, not_lt] at hc
    have hin : smallest ∈ mivcs := by
      obtain ⟨-, hnil⟩ | hin := h.mem
      · exact absurd (List.isEmpty_iff.mpr hnil) hc.1
      · exact hin
    rw [heq]
    refine ⟨.inr ((hmem _).mpr (.inl hin)), fun s hs ↦ ?_⟩
    cases (hmem s).mp hs with
    | inl hs => exact h.le s hs
    | inr hs => exact hs ▸ hc.2

/-- Safety checkers: the answers of `IC3Solver`, with the proof for a safe circuit, of
`HybridSafetyChecker` and of a debugger that may leave the gates given to it free. The shuffle of
the randomized mode comes with them. -/
structure SafetyCheckers where
  ic3 : TransitionRelation → Bool
  proof : TransitionRelation → ClauseVec
  hybrid : TransitionRelation → Bool
  debugOverGates : Seed → Bool
  shuffle : Seed → Seed

def negateGates (gates : List ℕ) (seed : Seed) : Seed := gates.filter (!seed.contains ·)

theorem mem_negateGates {gates : List ℕ} {seed : Seed} {gate : ℕ} :
    gate ∈ negateGates gates seed ↔ gate ∈ gates ∧ gate ∉ seed := by
  unfold negateGates
  rw [List.mem_filter, Bool.not_eq_true', ← Bool.not_eq_true, List.contains_iff_mem]

theorem toFinset_negateGates (gates : List ℕ) (seed : Seed) :
    (negateGates gates seed).toFinset = gates.toFinset \ seed.toFinset := by
  ext gate
  rw [List.mem_toFinset, mem_negateGates, Finset.mem_sdiff, List.mem_toFinset, List.mem_toFinset]

theorem negateGates_negateGates {gates : List ℕ} {seed : Seed} (hsub : seed ⊆ gates) :
    (negateGates gates (negateGates gates seed)).toFinset = seed.toFinset := by
  rw [toFinset_negateGates, toFinset_negateGates]
  refine Finset.sdiff_sdiff_eq_self fun gate hg ↦ ?_
  exact List.mem_toFinset.mpr (hsub (List.mem_toFinset.mp hg))

structure SafetyCheckers.Exact (c : SafetyCheckers) (tr : TransitionRelation) : Prop where
  ic3 : ∀ p, c.ic3 p = true ↔ p.Safe
  hybrid : ∀ p, c.hybrid p = true ↔ p.Safe
  debugOverGates : ∀ gates, c.debugOverGates gates = true ↔
    ¬ SafeOver tr (negateGates tr.gateIDs gates)
  shuffle : ∀ seed, (c.shuffle seed).Perm seed

section Exact

noncomputable def SafetyCheckers.exact (tr : TransitionRelation) : SafetyCheckers where
  ic3 p := @decide p.Safe (Classical.dec _)
  proof _ := []
  hybrid p := @decide p.Safe (Classical.dec _)
  debugOverGates gates :=
    @decide (¬ SafeOver tr (negateGates tr.gateIDs gates)) (Classical.dec _)
  shuffle := id

theorem SafetyCheckers.exact_exact (tr : TransitionRelation) : (exact tr).Exact tr where
  ic3 p := @decide_eq_true_iff p.Safe (Classical.dec _)
  hybrid p := @decide_eq_true_iff p.Safe (Classical.dec _)
  debugOverGates _ := @decide_eq_true_iff _ (Classical.dec _)
  shuffle _ := List.Perm.refl _

end Exact

/-- The loop that leaves out gates one by one, as long as a test, which may keep a state, says
that the rest will do. At index `i` the seed is `kept ++ gate :: rest` with `i` gates kept. -/
def shrinkFrom {σ : Type} (test : Seed → σ → Result (Bool × σ)) (kept : Seed) :
    Seed → σ → Result (Seed × σ)
  | [], s => return (kept, s)
  | gate :: rest, s => do
    let (removable, s) ← test (kept ++ rest) s
    if removable then shrinkFrom test kept rest s else shrinkFrom test (kept ++ [gate]) rest s

theorem shrinkFrom_meets {σ : Type} {test : Seed → σ → Result (Bool × σ)} (inv : σ → Prop)
    {good : Finset ℕ → Prop} {fail : Failure → Prop} (hmono : Monotone good) {top : Finset ℕ}
    (htest : ∀ seed s, seed.toFinset ⊆ top → inv s →
      Meets (fun r ↦ inv r.2 ∧ (r.1 = true ↔ good seed.toFinset)) fail (test seed s))
    (kept rest : Seed) (s : σ) (hs : inv s) (htop : (kept ++ rest).toFinset ⊆ top)
    (hnodup : kept.Nodup) (hapart : kept.Disjoint rest) (hgood : good (kept ++ rest).toFinset)
    (hcrit : ∀ a ∈ kept, ¬ good ((kept ++ rest).toFinset.erase a)) :
    Meets (fun r ↦ inv r.2 ∧ r.1.Nodup ∧ r.1.Sublist (kept ++ rest) ∧ Minimal good r.1.toFinset) fail
      (shrinkFrom test kept rest s) := by
  induction rest generalizing kept s with
  | nil =>
    rw [List.append_nil] at hgood hcrit ⊢
    refine ⟨hs, hnodup, List.Sublist.refl _, Explored.minimal_of_erase hmono hgood fun a ha ↦ ?_⟩
    exact hcrit a (List.mem_toFinset.mp ha)
  | cons gate rest ih =>
    have hsub : (kept ++ rest).Sublist (kept ++ gate :: rest) :=
      (List.Sublist.refl kept).append (List.sublist_cons_self gate rest)
    have hle : (kept ++ rest).toFinset ⊆ (kept ++ gate :: rest).toFinset := fun a ha ↦
      List.mem_toFinset.mpr (hsub.subset (List.mem_toFinset.mp ha))
    have herase : (kept ++ gate :: rest).toFinset.erase gate ⊆ (kept ++ rest).toFinset := by
      intro a ha
      obtain ⟨hne, hmem⟩ := Finset.mem_erase.mp ha
      rw [List.mem_toFinset] at hmem ⊢
      obtain h | h := List.mem_append.mp hmem
      · exact List.mem_append_left _ h
      · exact List.mem_append_right _ ((List.mem_cons.mp h).resolve_left hne)
    refine (htest (kept ++ rest) s (hle.trans htop) hs).bind fun r hr ↦ ?_
    obtain ⟨removable, s'⟩ := r
    obtain ⟨hs', hb⟩ := hr
    dsimp only at hs' hb ⊢
    obtain ⟨hnew, hapart⟩ := List.disjoint_cons_right.mp hapart
    cases removable with
    | true =>
      have hkept : ∀ a ∈ kept, ¬ good ((kept ++ rest).toFinset.erase a) := fun a ha h ↦
        hcrit a ha (hmono (Finset.erase_subset_erase a hle) h)
      refine (ih kept s' hs' (hle.trans htop) hnodup hapart (hb.mp rfl) hkept).imp fun r hr ↦ ?_
      exact ⟨hr.1, hr.2.1, hr.2.2.1.trans hsub, hr.2.2.2⟩
    | false =>
      have hlast : gate ∉ rest := by
        intro hin
        have hsame : (kept ++ gate :: rest).toFinset ⊆ (kept ++ rest).toFinset := by
          intro a ha
          rw [List.mem_toFinset, List.mem_append, List.mem_cons] at ha
          rw [List.mem_toFinset, List.mem_append]
          obtain h | rfl | h := ha
          · exact .inl h
          · exact .inr hin
          · exact .inr h
        exact Bool.false_ne_true (hb.mpr (hmono hsame hgood))
      have hnodup' : (kept ++ [gate]).Nodup :=
        hnodup.append (List.nodup_singleton gate) (List.disjoint_singleton.mpr hnew)
      have hapart' : (kept ++ [gate]).Disjoint rest :=
        List.disjoint_append_left.mpr ⟨hapart, List.singleton_disjoint.mpr hlast⟩
      rw [← List.singleton_append, ← List.append_assoc] at hgood hcrit htop ⊢
      refine ih (kept ++ [gate]) s' hs' htop hnodup' hapart' hgood fun a ha ↦ ?_
      cases List.mem_append.mp ha with
      | inl ha => exact hcrit a ha
      | inr ha =>
        rw [List.mem_singleton.mp ha, List.append_assoc, List.singleton_append]
        exact fun h ↦ Bool.false_ne_true (hb.mpr (hmono herase h))

namespace IVCBFFinder

variable (c : SafetyCheckers) (tr : TransitionRelation)

def isSafe (seed : Seed) : Result Bool := do
  let part ← tr.ofGates seed
  return c.ic3 part

/-- The second component is the proof that is handed out, which for an unsafe set is left empty. -/
def isSafeWithProof (seed : Seed) : Result (Bool × ClauseVec) := do
  let part ← tr.ofGates seed
  return if c.ic3 part then (true, c.proof part) else (false, [])

def shrink (seed : Seed) : Result Seed := do
  let test (seed : Seed) (_ : Unit) : Result (Bool × Unit) := do
    return (← isSafe c tr seed, ())
  let (seed, _) ← shrinkFrom test [] (c.shuffle seed) ()
  return seed

end IVCBFFinder

section Shrink

variable {c : SafetyCheckers} {tr : TransitionRelation} {fail : Failure → Prop} {seed : Seed}

theorem meets_check (h : tr.WellFormed) {check : TransitionRelation → Bool}
    (hcheck : ∀ p, check p = true ↔ p.Safe) (seed : Seed) :
    Meets (fun b ↦ b = true ↔ SafeGates tr seed.toFinset) fail
      (do let part ← tr.ofGates seed; return check part) := by
  obtain ⟨p, hok, -⟩ := Meets.exists_ok (TransitionRelation.ofGates_meets h.latches_nodup seed)
  rw [hok, ok_bind, meets_pure, hcheck, ← safeOver_iff h]
  exact (safeOver_of_ok hok).symm

theorem IVCBFFinder.shrink_meets (h : tr.WellFormed) (hc : c.Exact tr)
    (hsafe : SafeGates tr seed.toFinset) :
    Meets (fun s ↦ s.Nodup ∧ s ⊆ seed ∧ Minimal (SafeGates tr) s.toFinset) fail
      (IVCBFFinder.shrink c tr seed) := by
  have hperm := hc.shuffle seed
  have heq : (c.shuffle seed).toFinset = seed.toFinset := List.toFinset_eq_of_perm _ _ hperm
  refine (shrinkFrom_meets (fun _ ↦ True) (monotone_safeGates h) (fun seed _ _ _ ↦ ?_) []
    (c.shuffle seed) () trivial (Finset.Subset.refl _) List.nodup_nil (List.disjoint_nil_left _)
    (heq ▸ hsafe) fun _ ha ↦ absurd ha List.not_mem_nil).bind fun r hr ↦ ?_
  · exact (meets_check h hc.ic3 seed).bind fun b hb ↦ ⟨trivial, hb⟩
  · obtain ⟨-, hnodup', hsub, hmin⟩ := hr
    exact ⟨hnodup', fun a ha ↦ hperm.mem_iff.mp (hsub.subset ha), hmin⟩

end Shrink

theorem low_of_cone {tr : TransitionRelation} {gates : List ℕ} {id : ℕ} (heven : id % 2 = 0)
    (hl : ⟨id, id, idFalse⟩ ∈ tr.latches) (hcone : TransitionRelation.Cone tr gates id)
    {x : ℕ → Assignment} {k : ℕ}
    (hinit : ∀ l ∈ tr.latches, l.id ∈ {v | TransitionRelation.Cone tr gates v} → l.reset ≠ idNull →
      x 0 l.id = litVal (x 0) l.reset)
    (hrun : ∀ i < k + 1, tr.FreeFrame gates (x i) ∧ ∀ l ∈ tr.latches,
      l.id ∈ {v | TransitionRelation.Cone tr gates v} → x (i + 1) l.id = litVal (x i) l.next) :
    ∀ i ≤ k, x i id = false := by
  intro i
  induction i with
  | zero =>
    intro _
    have hnull : idFalse ≠ idNull := by decide
    have hreset : x 0 id = litVal (x 0) idFalse := hinit _ hl hcone hnull
    rw [hreset, litVal_idFalse, (hrun 0 (by omega)).1.const]
  | succ i ih =>
    intro hi
    have hstep : x (i + 1) id = litVal (x i) id := (hrun i (by omega)).2 _ hl hcone
    rw [hstep, litVal_of_even heven, ih (by omega)]

/-- One frame that may go on for ever and is bad shows that these gates are not safe. -/
theorem not_safeOver_of_frame {tr : TransitionRelation} {gates : List ℕ} (h : tr.WellFormed)
    {x : Assignment} (hframe : tr.FreeFrame gates x) (hinit : tr.IsInit x) (hstep : tr.Step x x)
    (hbad : litVal x tr.bad = true) : ¬ SafeOver tr gates := fun hsafe ↦
  (safeOver_iff_freeBadAt h).mp hsafe 0
    ⟨fun _ ↦ x, fun l hl _ ↦ hinit l hl, fun _ _ ↦ ⟨hframe, fun l hl _ ↦ hstep l hl⟩, hbad⟩

theorem safeOver_relay : SafeOver relay [6, 8] := by
  refine (safeOver_iff_freeBadAt relay_wellFormed).mpr fun k hk ↦ ?_
  obtain ⟨x, hinit, hrun, hbad⟩ := hk
  have hcone : TransitionRelation.Cone relay [6, 8] 4 :=
    .rhs0 (g := ⟨6, 4, 4⟩) List.mem_cons_self List.mem_cons_self
  have hlow : x k 4 = false := low_of_cone rfl List.mem_cons_self hcone hinit hrun k le_rfl
  have hgates := (hrun k (by omega)).1.gates
  have hfirst : litVal (x k) 6 = (litVal (x k) 4 && litVal (x k) 4) :=
    hgates ⟨6, 4, 4⟩ (by decide) (by decide)
  have hsecond : litVal (x k) 8 = (litVal (x k) 6 && litVal (x k) 6) :=
    hgates ⟨8, 6, 6⟩ (by decide) (by decide)
  have hval : litVal (x k) 8 = true := hbad
  rw [hsecond, hfirst, litVal_of_even rfl, hlow] at hval
  exact absurd hval Bool.false_ne_true

theorem not_safeOver_relay : ¬ SafeOver relay [6] :=
  not_safeOver_of_frame relay_wellFormed (x := fun v ↦ decide (v = 8)) ⟨by decide, by decide, by decide⟩
    (by decide) (by decide) rfl

def twoWays : TransitionRelation where
  bad := 12
  latches := [⟨4, 4, idFalse⟩]
  gates := [⟨6, 4, 4⟩, ⟨8, 6, 6⟩, ⟨10, 4, 4⟩, ⟨12, 10, 8⟩]
  latchIDs := [4]
  inputIDs := []
  gateIDs := [6, 8, 10, 12]
  constraints := []
  gateCNF := AndGate.toCNF

theorem twoWays_wellFormed : twoWays.WellFormed where
  bad := by decide
  gates := by decide
  latches := by decide
  reset := by decide
  constraints := by decide
  ands := by decide
  latchIDs_eq := rfl
  gateIDs_eq := rfl
  isVar := by decide
  nodup := by decide
  next := by decide
  constraints_defined := by decide
  bad_defined := by decide
  rhs_defined := by decide
  gates_computed := by
    refine ⟨id, fun g hg ↦ ?_⟩
    simp only [twoWays, List.mem_cons, List.not_mem_nil, or_false] at hg
    obtain rfl | rfl | rfl | rfl := hg
    · exact ⟨_, TransitionRelation.computes_toCNF rfl (by decide) (.inr (.inl List.mem_cons_self))
        (.inr (.inl List.mem_cons_self))⟩
    · exact ⟨_, TransitionRelation.computes_toCNF rfl (by decide) (.inr (.inr (by decide)))
        (.inr (.inr (by decide)))⟩
    · exact ⟨_, TransitionRelation.computes_toCNF rfl (by decide) (.inr (.inl List.mem_cons_self))
        (.inr (.inl List.mem_cons_self))⟩
    · exact ⟨_, TransitionRelation.computes_toCNF rfl (by decide) (.inr (.inr (by decide)))
        (.inr (.inr (by decide)))⟩

theorem safeOver_twoWays_short : SafeOver twoWays [10, 12] := by
  refine (safeOver_iff_freeBadAt twoWays_wellFormed).mpr fun k hk ↦ ?_
  obtain ⟨x, hinit, hrun, hbad⟩ := hk
  have hcone : TransitionRelation.Cone twoWays [10, 12] 4 :=
    .rhs0 (g := ⟨10, 4, 4⟩) (by decide) (by decide)
  have hlow : x k 4 = false := low_of_cone rfl List.mem_cons_self hcone hinit hrun k le_rfl
  have hgates := (hrun k (by omega)).1.gates
  have hlast : litVal (x k) 12 = (litVal (x k) 10 && litVal (x k) 8) :=
    hgates ⟨12, 10, 8⟩ (by decide) (by decide)
  have htenth : litVal (x k) 10 = (litVal (x k) 4 && litVal (x k) 4) :=
    hgates ⟨10, 4, 4⟩ (by decide) (by decide)
  have hval : litVal (x k) 12 = true := hbad
  rw [hlast, htenth, litVal_of_even rfl, hlow] at hval
  exact absurd hval Bool.false_ne_true

theorem safeOver_twoWays_long : SafeOver twoWays [6, 8, 12] := by
  refine (safeOver_iff_freeBadAt twoWays_wellFormed).mpr fun k hk ↦ ?_
  obtain ⟨x, hinit, hrun, hbad⟩ := hk
  have hcone : TransitionRelation.Cone twoWays [6, 8, 12] 4 :=
    .rhs0 (g := ⟨6, 4, 4⟩) (by decide) (by decide)
  have hlow : x k 4 = false := low_of_cone rfl List.mem_cons_self hcone hinit hrun k le_rfl
  have hgates := (hrun k (by omega)).1.gates
  have hlast : litVal (x k) 12 = (litVal (x k) 10 && litVal (x k) 8) :=
    hgates ⟨12, 10, 8⟩ (by decide) (by decide)
  have hsecond : litVal (x k) 8 = (litVal (x k) 6 && litVal (x k) 6) :=
    hgates ⟨8, 6, 6⟩ (by decide) (by decide)
  have hfirst : litVal (x k) 6 = (litVal (x k) 4 && litVal (x k) 4) :=
    hgates ⟨6, 4, 4⟩ (by decide) (by decide)
  have hlatch : litVal (x k) 4 = false := (litVal_of_even rfl).trans hlow
  have hval : litVal (x k) 12 = true := hbad
  rw [hlast, hsecond, hfirst, Bool.and_eq_true, hlatch] at hval
  exact absurd hval.2 Bool.false_ne_true

theorem safeGates_twoWays {t : Finset ℕ} (ht : t ⊆ {6, 8, 10, 12}) :
    SafeGates twoWays t ↔ 12 ∈ t ∧ (10 ∈ t ∨ 8 ∈ t ∧ 6 ∈ t) := by
  have hmono := monotone_safeGates twoWays_wellFormed
  have hover : ∀ gates : List ℕ, gates.toFinset ⊆ t → SafeOver twoWays gates → SafeGates twoWays t :=
    fun _ hle hsafe ↦ hmono hle ((safeOver_iff twoWays_wellFormed).mp hsafe)
  have hunder : ∀ gates : List ℕ, t ⊆ gates.toFinset → SafeGates twoWays t → SafeOver twoWays gates :=
    fun _ hle hsafe ↦ (safeOver_iff twoWays_wellFormed).mpr (hmono hle hsafe)
  have hno : ¬ SafeOver twoWays [6, 8, 10] :=
    not_safeOver_of_frame twoWays_wellFormed (x := fun v ↦ decide (v = 12))
      ⟨by decide, by decide, by decide⟩ (by decide) (by decide) rfl
  have hsixth : ¬ SafeOver twoWays [6, 12] :=
    not_safeOver_of_frame twoWays_wellFormed (x := fun v ↦ decide (v ∈ [8, 10, 12]))
      ⟨by decide, by decide, by decide⟩ (by decide) (by decide) rfl
  have heighth : ¬ SafeOver twoWays [8, 12] :=
    not_safeOver_of_frame twoWays_wellFormed (x := fun v ↦ decide (v ∈ [6, 8, 10, 12]))
      ⟨by decide, by decide, by decide⟩ (by decide) (by decide) rfl
  constructor
  · intro hsafe
    refine ⟨?_, ?_⟩
    · by_contra h12
      refine hno (hunder _ (fun g hg ↦ ?_) hsafe)
      have hmem := ht hg
      simp only [Finset.mem_insert, Finset.mem_singleton] at hmem
      obtain rfl | rfl | rfl | rfl := hmem
      · decide
      · decide
      · decide
      · exact absurd hg h12
    · by_contra hneither
      rw [not_or, not_and_or] at hneither
      obtain ⟨h10, h8 | h6⟩ := hneither
      · refine hsixth (hunder _ (fun g hg ↦ ?_) hsafe)
        have hmem := ht hg
        simp only [Finset.mem_insert, Finset.mem_singleton] at hmem
        obtain rfl | rfl | rfl | rfl := hmem
        · decide
        · exact absurd hg h8
        · exact absurd hg h10
        · decide
      · refine heighth (hunder _ (fun g hg ↦ ?_) hsafe)
        have hmem := ht hg
        simp only [Finset.mem_insert, Finset.mem_singleton] at hmem
        obtain rfl | rfl | rfl | rfl := hmem
        · exact absurd hg h6
        · decide
        · exact absurd hg h10
        · decide
  · intro h
    obtain ⟨h12, h10 | ⟨h8, h6⟩⟩ := h
    · refine hover [10, 12] ?_ safeOver_twoWays_short
      simp only [List.toFinset_cons, List.toFinset_nil, Finset.insert_subset_iff]
      exact ⟨h10, h12, Finset.empty_subset t⟩
    · refine hover [6, 8, 12] ?_ safeOver_twoWays_long
      simp only [List.toFinset_cons, List.toFinset_nil, Finset.insert_subset_iff]
      exact ⟨h6, h8, h12, Finset.empty_subset t⟩

theorem twoWays_safe : twoWays.Safe :=
  SafeOver.safe twoWays_wellFormed rfl (safeOver_twoWays_short.mono twoWays_wellFormed (by decide))

def constrained : TransitionRelation where
  bad := 6
  latches := [⟨6, 4, idFalse⟩]
  gates := [⟨8, 5, 5⟩, ⟨10, 8, 8⟩]
  latchIDs := [6]
  inputIDs := [4]
  gateIDs := [8, 10]
  constraints := [8]
  gateCNF := AndGate.toCNF

theorem constrained_wellFormed : constrained.WellFormed where
  bad := by decide
  gates := by decide
  latches := by decide
  reset := by decide
  constraints := by decide
  ands := by decide
  latchIDs_eq := rfl
  gateIDs_eq := rfl
  isVar := by decide
  nodup := by decide
  next := by decide
  constraints_defined := by decide
  bad_defined := by decide
  rhs_defined := by decide
  gates_computed := by
    refine ⟨id, fun g hg ↦ ⟨_, TransitionRelation.computes_toCNF rfl ?_ ?_ ?_⟩⟩
    · revert g
      decide
    all_goals
      cases hg with
      | head => exact .inr (.inl List.mem_cons_self)
      | tail _ hg =>
        obtain rfl := List.mem_singleton.mp hg
        exact .inr (.inr ⟨List.mem_cons_self, by decide⟩)

theorem safeOver_constrained : SafeOver constrained [8] := by
  refine (safeOver_iff_freeBadAt constrained_wellFormed).mpr fun k hk ↦ ?_
  obtain ⟨x, hinit, hrun, hbad⟩ := hk
  have hcone : TransitionRelation.Cone constrained [8] 6 := .bad
  have hval : litVal (x k) 6 = true := hbad
  rw [litVal_of_even rfl] at hval
  cases k with
  | zero =>
    have hreset : x 0 6 = litVal (x 0) idFalse := hinit ⟨6, 4, idFalse⟩ List.mem_cons_self hcone (by decide)
    rw [hreset, litVal_idFalse, (hrun 0 (by omega)).1.const] at hval
    exact Bool.false_ne_true hval
  | succ k =>
    obtain ⟨hframe, hstep⟩ := hrun k (by omega)
    have hnext : x (k + 1) 6 = litVal (x k) 4 := hstep ⟨6, 4, idFalse⟩ List.mem_cons_self hcone
    have hgate : litVal (x k) 8 = (litVal (x k) (negate 4) && litVal (x k) (negate 4)) :=
      hframe.gates ⟨8, 5, 5⟩ (by decide) (by decide)
    have hhigh : litVal (x k) 8 = true := hframe.constraints 8 (by decide)
    rw [hgate, Bool.and_self, litVal_negate, ← hnext, hval] at hhigh
    exact Bool.false_ne_true hhigh

end PME
