import PME.IC3.Proving

namespace PME

namespace TransitionRelation

variable {tr : TransitionRelation}

theorem mem_initState (h : tr.WellFormed) {cls : Clause} (hcls : cls ∈ tr.initState) :
    ∃ lit, cls = [lit] ∧ strip lit ∈ tr.latchIDs := by
  obtain ⟨l, hl, hcls⟩ := List.mem_flatMap.mp hcls
  obtain ⟨-, -, heven, -⟩ := h.latches l hl
  have hmem := h.latch_mem hl
  have hstrip : strip l.id = l.id := strip_of_even heven
  have hid : l.id ≠ 3 := fun heq ↦ by simp [heq] at heven
  obtain hnull | hfalse | htrue := h.reset l hl
  · simp [hnull] at hcls
  · refine ⟨negate l.id, ?_, by rwa [strip_negate, hstrip]⟩
    simpa [hfalse, makeEqual, hid, idNull, idFalse, idTrue, negate] using hcls
  · refine ⟨l.id, ?_, by rwa [hstrip]⟩
    simpa [htrue, makeEqual, idNull, idFalse, idTrue, negate] using hcls

end TransitionRelation

namespace IC3

open Outcome TransitionRelation InductiveTrace IC3Solver FrameSequence

section InitialLemmas

variable {trace trace' trace'' : InductiveTrace} {c : Cube} {cubes cubes' : List Cube} {fail : Failure → Prop}

structure Added (trace : InductiveTrace) (cubes : List Cube) (trace' : InductiveTrace) : Prop where
  inv : trace'.Inv
  up : Setting.Upward trace trace'
  present : ∀ c ∈ cubes, ∃ m, trace'.At (sortCube c) m
  new : ∀ d m, trace'.At d m → trace.At d m ∨ (m = .fin 0 ∧ ∃ c ∈ cubes, d = sortCube c)

theorem added_nil (h : trace.Inv) : Added trace [] trace :=
  ⟨h, .refl _, nofun, fun _ _ hat ↦ .inl hat⟩

theorem Added.trans (h : Added trace cubes trace') (h' : Added trace' cubes' trace'') :
    Added trace (cubes ++ cubes') trace'' := by
  refine ⟨h'.inv, h.up.trans h'.up, fun c hc ↦ ?_, fun d m hat ↦ ?_⟩
  · cases List.mem_append.mp hc with
    | inl hold =>
      obtain ⟨m, hat⟩ := h.present c hold
      obtain ⟨m', hat', -⟩ := h'.up _ m hat
      exact ⟨m', hat'⟩
    | inr hnew => exact h'.present c hnew
  · cases h'.new d m hat with
    | inl hold =>
      refine (h.new d m hold).imp_right fun hex ↦ ?_
      obtain ⟨hm, c, hc, heq⟩ := hex
      exact ⟨hm, c, List.mem_append_left _ hc, heq⟩
    | inr hnew =>
      obtain ⟨hm, c, hc, heq⟩ := hnew
      exact .inr ⟨hm, c, List.mem_append_right _ hc, heq⟩

theorem addInitial_meets (h : trace.Inv) (c : Cube) (hsorted : sortCube c ≠ c → fail .assertion) :
    Meets (fun trace' ↦ Added trace [c] trace') fail (addInitial trace c) := by
  unfold addInitial lemmaIsActive
  by_cases hex : trace.lemmaExists c = true
  · obtain ⟨i, ℓ, he⟩ := h.lemmaExists_iff.mp hex
    rw [if_pos hex, h.getLemmaOf_eq he]
    refine ⟨h, .refl _, fun d hd ↦ ?_, fun _ _ hat ↦ .inl hat⟩
    rw [List.mem_singleton.mp hd, sortCube_of_sorted (h.sorted he)]
    exact ⟨ℓ, h.at_iff.mpr ⟨i, he⟩⟩
  · rw [if_neg hex]
    have hnew : ∀ i m, trace.Entry i (sortCube c) m → ¬ m ≤ .fin 0 → fail .assertion :=
      fun i m he _ ↦ hsorted fun heq ↦ hex (h.lemmaExists_iff.mpr ⟨i, m, heq ▸ he⟩)
    refine (addLemma_meets h hnew).bind fun r hm ↦ ?_
    refine ⟨hm.inv, fun d m hat ↦ Setting.moved_up h hm hat, fun d hd ↦ ?_, fun d m hat ↦ ?_⟩
    · rw [List.mem_singleton.mp hd]
      exact ⟨.fin 0, (hm.at_iff h).mpr (.inl ⟨rfl, rfl⟩)⟩
    · cases (hm.at_iff h).mp hat with
      | inl heq => exact .inr ⟨heq.2, c, List.mem_cons_self, heq.1⟩
      | inr hold => exact .inl hold.2

theorem addInitials_meets (h : trace.Inv) (hsorted : ∀ c ∈ cubes, sortCube c ≠ c → fail .assertion) :
    Meets (fun trace' ↦ Added trace cubes trace') fail (cubes.foldlM addInitial trace) := by
  refine foldlM_meets (Added trace) trace (added_nil h) fun done c rest trace' hl hadded ↦ ?_
  have hmem : c ∈ cubes := hl ▸ List.mem_append_right done List.mem_cons_self
  exact (addInitial_meets hadded.inv c (hsorted c hmem)).imp fun trace'' hc ↦ hadded.trans hc

theorem initializeSolver_meets {s : IC3Solver} (h : s.trace.Inv)
    (hsorted : ∀ c ∈ s.tr.initState.map negateVec ++ s.initConstraints, sortCube c ≠ c → fail .assertion) :
    Meets (fun s' ↦ ∃ trace, Added s.trace (s.tr.initState.map negateVec ++ s.initConstraints) trace ∧
      s' = { s with trace := trace }.resetSAT) fail s.initializeSolver := by
  obtain ⟨hinit, hwait⟩ := List.forall_mem_append.mp hsorted
  unfold initializeSolver
  refine (addInitials_meets h hinit).bind fun trace htrace ↦ ?_
  refine (addInitials_meets htrace.inv hwait).bind fun trace' htrace' ↦ ?_
  exact ⟨trace', htrace.trans htrace', rfl⟩

end InitialLemmas

structure Circuit where
  E : Engines
  tr : TransitionRelation
  first : ℕ
  strict : Prop
  sound : Prop
  wf : tr.WellFormed
  owned : FrameSolver.Owned tr first
  free : sound → tr.constraints = []

namespace Circuit

variable (C : Circuit)

/-- The initial states that no restriction excludes. Restrictions are about states. -/
def Init (restr : List Cube) (x : Assignment) : Prop :=
  C.tr.IsInit x ∧ ∀ c ∈ restr, (∀ lit ∈ c, C.tr.StateVar (strip lit)) → ¬ satCube x c

def Live (restr : List Cube) : Prop :=
  (∃ x, C.tr.IsFrame x ∧ C.Init restr x) ∨ ∃ c ∈ restr, ∃ lit ∈ c, strip lit ∈ C.tr.latchIDs

def Lit (st : IC3Solver) (lit : ℕ) : Prop :=
  (strip lit < C.first ∨ FrameSolver.Known st.vars st.cons [lit]) ∧
    (C.sound → ValidLit lit ∧ (C.tr.StateVar (strip lit) ∨ strip lit = strip C.tr.bad))

variable {C}

theorem Init.same {restr : List Cube} {x x' : Assignment} (h : C.Init restr x)
    (hs : C.tr.SameState x x') : C.Init restr x' := by
  refine ⟨fun l hl hreset ↦ ?_, fun c hc hstate hcube ↦ h.2 c hc hstate ?_⟩
  · have hinit := h.1 l hl hreset
    obtain hnull | hfalse | htrue := C.wf.reset l hl
    · exact absurd hnull hreset
    · rw [← hs _ (C.wf.latch_stateVar hl), hinit]
      refine litVal_congr (hs _ (.inl ?_))
      rw [hfalse]
      rfl
    · rw [← hs _ (C.wf.latch_stateVar hl), hinit]
      refine litVal_congr (hs _ (.inl ?_))
      rw [htrue]
      rfl
  · exact (satCube_congr fun lit hl ↦ hs _ (hstate lit hl)).mpr hcube

theorem mentions_latch {lit : ℕ} (h : strip lit ∈ C.tr.latchIDs) : C.tr.Mentions (strip lit) := by
  rw [C.wf.latchIDs_eq] at h
  obtain ⟨l, hl, heq⟩ := List.mem_map.mp h
  exact .inr (.inl ⟨l, hl, .inl heq.symm⟩)

theorem mentions_bad : C.tr.Mentions (strip C.tr.bad) := .inr (.inr ⟨_, List.mem_cons_self, rfl⟩)

variable (C)

def setting (restr : List Cube) (st : IC3Solver) : Setting where
  E := C.E
  tr := C.tr
  first := C.first
  lits := C.Lit st
  init := C.Init restr
  strict := C.strict
  sound := C.sound
  wf := C.wf
  owned := C.owned
  latch lit h := ⟨.inl (C.owned.mentions _ (mentions_latch h)), fun _ ↦
    ⟨(visible_latch C.wf h).1, .inl (.inr (.inl h))⟩⟩
  bad := ⟨.inl (C.owned.mentions _ mentions_bad), fun _ ↦ ⟨C.wf.bad, .inr rfl⟩⟩
  free := C.free
  visible hs lit h := by
    obtain ⟨hvalid, hstate | hbad⟩ := h.2 hs
    · refine ⟨hvalid, ?_⟩
      obtain hconst | hlatch | hout := hstate
      · exact .inr (.inr (.inr hconst))
      · exact .inl (List.mem_append_left _ hlatch)
      · exact .inr (.inr (.inl hout.1))
    · exact ⟨hvalid, .inr (.inl hbad)⟩
  state _ _ _ hs h := h.same hs

end Circuit

end IC3

end PME
