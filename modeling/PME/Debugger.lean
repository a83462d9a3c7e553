import PME.DebugMeaning
import PME.Lib.SmallestFirst

namespace PME

open Outcome Exploration

/-- `CARDINALITY_INF`. -/
def cardinalityInf : ℕ := 2 ^ 32 - 1

abbrev CorrectionSet := List ℕ

/-- The class `Debugger` with its virtual functions, for a state of type `X`. A result is `none`
for the pair of the source with first component false. -/
structure Debugger (X : Type) where
  setCardinality : X → ℕ → Result X
  clearCardinality : X → Result X
  debug : X → Result (Option CorrectionSet × X)
  debugOverGates : X → List ℕ → Result (Option CorrectionSet × X)
  blockSolution : X → CorrectionSet → Result X

namespace Debugger

variable {X : Type}

def blockFound (V : Debugger X) (r : Option CorrectionSet × X) :
    Result (Option CorrectionSet × X) :=
  match r with
  | (some soln, x) => do
    if soln.isEmpty then return (some soln, x) else return (some soln, ← V.blockSolution x soln)
  | (none, x) => return (none, x)

def debugAndBlock (V : Debugger X) (x : X) : Result (Option CorrectionSet × X) := do
  V.blockFound (← V.debug x)

def debugAndBlockOverGates (V : Debugger X) (x : X) (gates : List ℕ) :
    Result (Option CorrectionSet × X) := do
  V.blockFound (← V.debugOverGates x gates)

end Debugger

def TransitionRelation.FreedBadAt (tr : TransitionRelation) (D : Finset ℕ) (k : ℕ) : Prop :=
  ∃ x, tr.SuspectRun D (k + 1) x ∧ litVal (x k) tr.bad = true

def TransitionRelation.FreedBad (tr : TransitionRelation) (D : Finset ℕ) : Prop :=
  ∃ k, tr.FreedBadAt D k

section Freed

variable {tr : TransitionRelation} {D : Finset ℕ}

theorem TransitionRelation.FreedBadAt.mono {D' : Finset ℕ} {k : ℕ} (hD : D ⊆ D')
    (h : tr.FreedBadAt D k) : tr.FreedBadAt D' k := by
  obtain ⟨x, hx, hbad⟩ := h
  refine ⟨x, ⟨hx.const, hx.init, fun i hi ↦ ?_, hx.step⟩, hbad⟩
  exact ⟨(hx.frame i hi).const, fun g hg hnot ↦ (hx.frame i hi).gates g hg fun hin ↦ hnot (hD hin)⟩

theorem TransitionRelation.FreedBadAt.badAt (hplain : tr.gateCNF = AndGate.toCNF)
    (hfree : tr.constraints = []) {k : ℕ} (h : tr.FreedBadAt ∅ k) : tr.BadAt k := by
  obtain ⟨x, hx, hbad⟩ := h
  refine ⟨x, hx.init, fun i hi ↦ ⟨⟨hx.const i hi.le, ?_, hfree ▸ satCube_nil⟩, hx.step i hi⟩, hbad⟩
  rw [TransitionRelation.toCNF, hplain, satClauses_flatMap]
  intro g hg
  rw [satClauses_toCNF]
  exact (hx.frame i hi).gates g hg (Finset.notMem_empty _)

/-- No gate need be freed only where the circuit is not safe. -/
theorem TransitionRelation.Safe.not_freedBad (hsafe : tr.Safe)
    (hplain : tr.gateCNF = AndGate.toCNF) (hfree : tr.constraints = []) : ¬ tr.FreedBad ∅ :=
  fun ⟨k, hk⟩ ↦ hsafe k (hk.badAt hplain hfree)

end Freed

def DebugAnswer (bad : Finset ℕ → Prop) (gates : List ℕ) (limit : ℕ)
    (blocked : List (Finset ℕ)) : Option CorrectionSet → Prop
  | some soln => soln ⊆ gates ∧ soln.toFinset.card ≤ limit ∧ bad soln.toFinset ∧
      Unblocked blocked soln.toFinset
  | none => Covers bad gates.toFinset blocked limit

/-- Without a bound and with nothing blocked, a search tells whether its gates are a bad set. -/
theorem DebugAnswer.isSome_iff {bad : Finset ℕ → Prop} {gates : List ℕ} {limit : ℕ} {r : Option CorrectionSet}
    (h : DebugAnswer bad gates limit [] r) (hmono : Monotone bad) (hcard : gates.toFinset.card ≤ limit) :
    r.isSome = true ↔ bad gates.toFinset := by
  cases r with
  | none =>
    refine iff_of_false Bool.false_ne_true fun hbad ↦ ?_
    exact h _ (Finset.Subset.refl _) hcard hbad fun _ hno ↦ absurd hno List.not_mem_nil
  | some soln =>
    refine iff_of_true rfl (hmono (fun g hg ↦ ?_) h.2.2.1)
    exact List.mem_toFinset.mpr (h.1 (List.mem_toFinset.mp hg))

/-- A debugger that answers exactly: `Rep limit blocked x` says how many gates a solution may
have in the state `x`, and what has been blocked. Without a cardinality it may have them all. -/
structure Debugger.Exact {X : Type} (V : Debugger X) (bad : Finset ℕ → Prop) (gates : List ℕ)
    (Rep : ℕ → List (Finset ℕ) → X → Prop) (fail : Failure → Prop) : Prop where
  setCardinality : ∀ {limit blocked x n}, Rep limit blocked x → n < gates.length →
    Meets (Rep n blocked) fail (V.setCardinality x n)
  clearCardinality : ∀ {limit blocked x}, Rep limit blocked x →
    Meets (Rep gates.length blocked) fail (V.clearCardinality x)
  debug : ∀ {limit blocked x}, Rep limit blocked x →
    Meets (fun r ↦ DebugAnswer bad gates limit blocked r.1 ∧ Rep limit blocked r.2) fail (V.debug x)
  debugOverGates : ∀ {limit blocked x suspects}, Rep limit blocked x → suspects ⊆ gates →
    Meets (fun r ↦ DebugAnswer bad suspects limit blocked r.1 ∧ Rep limit blocked r.2) fail
      (V.debugOverGates x suspects)
  blockSolution : ∀ {limit blocked x soln}, Rep limit blocked x → soln ⊆ gates → soln ≠ [] →
    Meets (Rep limit (blocked ++ [soln.toFinset])) fail (V.blockSolution x soln)

def blockedBy (blocked : List (Finset ℕ)) (r : Option CorrectionSet) : List (Finset ℕ) :=
  blocked ++ r.toList.map List.toFinset

theorem Debugger.Exact.weaken {X : Type} {V : Debugger X} {bad : Finset ℕ → Prop} {gates : List ℕ}
    {Rep : ℕ → List (Finset ℕ) → X → Prop} {fail fail' : Failure → Prop}
    (h : V.Exact bad gates Rep fail) (hf : ∀ e, fail e → fail' e) : V.Exact bad gates Rep fail' where
  setCardinality hx hn := (h.setCardinality hx hn).weaken hf
  clearCardinality hx := (h.clearCardinality hx).weaken hf
  debug hx := (h.debug hx).weaken hf
  debugOverGates hx hsub := (h.debugOverGates hx hsub).weaken hf
  blockSolution hx hsub hne := (h.blockSolution hx hsub hne).weaken hf

namespace Debugger.Exact

variable {X : Type} {V : Debugger X} {bad : Finset ℕ → Prop} {gates suspects : List ℕ}
  {Rep : ℕ → List (Finset ℕ) → X → Prop} {fail : Failure → Prop} {limit : ℕ}
  {blocked : List (Finset ℕ)} {x : X}

theorem blockFound (h : V.Exact bad gates Rep fail) (hbad : ¬ bad ∅) (hsub : suspects ⊆ gates)
    {r : Option CorrectionSet × X} (hr : DebugAnswer bad suspects limit blocked r.1)
    (hx : Rep limit blocked r.2) :
    Meets (fun r ↦ DebugAnswer bad suspects limit blocked r.1 ∧ Rep limit (blockedBy blocked r.1) r.2)
      fail (V.blockFound r) := by
  obtain ⟨answer, x⟩ := r
  cases answer with
  | none =>
    refine ⟨hr, ?_⟩
    rw [blockedBy, Option.toList_none, List.map_nil, List.append_nil]
    exact hx
  | some soln =>
    have hne : soln ≠ [] := by
      intro hnil
      have hempty : bad soln.toFinset := hr.2.2.1
      rw [hnil] at hempty
      exact hbad hempty
    unfold Debugger.blockFound
    dsimp only
    rw [if_neg (by rw [List.isEmpty_iff]; exact hne)]
    exact (h.blockSolution hx (List.Subset.trans hr.1 hsub) hne).bind fun x' hx' ↦ ⟨hr, hx'⟩

theorem debugAndBlock (h : V.Exact bad gates Rep fail) (hbad : ¬ bad ∅) (hx : Rep limit blocked x) :
    Meets (fun r ↦ DebugAnswer bad gates limit blocked r.1 ∧ Rep limit (blockedBy blocked r.1) r.2)
      fail (V.debugAndBlock x) :=
  (h.debug hx).bind fun _ hr ↦ h.blockFound hbad (List.Subset.refl gates) hr.1 hr.2

theorem debugAndBlockOverGates (h : V.Exact bad gates Rep fail) (hbad : ¬ bad ∅)
    (hsub : suspects ⊆ gates) (hx : Rep limit blocked x) :
    Meets (fun r ↦ DebugAnswer bad suspects limit blocked r.1 ∧ Rep limit (blockedBy blocked r.1) r.2)
      fail (V.debugAndBlockOverGates x suspects) :=
  (h.debugOverGates hx hsub).bind fun _ hr ↦ h.blockFound hbad hsub hr.1 hr.2

end Debugger.Exact

section Chosen

variable {bad : Finset ℕ → Prop} {gates suspects : List ℕ} {limit : ℕ} {blocked : List (Finset ℕ)}

open Classical in
noncomputable def chosenSolution (bad : Finset ℕ → Prop) (gates : List ℕ) (limit : ℕ)
    (blocked : List (Finset ℕ)) : Option CorrectionSet :=
  if h : ∃ soln, DebugAnswer bad gates limit blocked (some soln) then some h.choose else none

theorem chosenSolution_answer :
    DebugAnswer bad gates limit blocked (chosenSolution bad gates limit blocked) := by
  unfold chosenSolution
  split
  · next h => exact h.choose_spec
  · next h =>
    intro t ht hcard hbad hopen
    have htoFinset : t.toList.toFinset = t := t.toList_toFinset
    refine h ⟨t.toList, fun g hg ↦ ?_, ?_⟩
    · exact List.mem_toFinset.mp (ht (Finset.mem_toList.mp hg))
    · rw [htoFinset]
      exact ⟨hcard, hbad, hopen⟩

noncomputable def Debugger.chosen (bad : Finset ℕ → Prop) (gates : List ℕ) :
    Debugger (ℕ × List (Finset ℕ)) where
  setCardinality x n := return (n, x.2)
  clearCardinality x := return (gates.length, x.2)
  debug x := return (chosenSolution bad gates x.1 x.2, x)
  debugOverGates x suspects := return (chosenSolution bad suspects x.1 x.2, x)
  blockSolution x soln := return (x.1, x.2 ++ [soln.toFinset])

theorem Debugger.chosen_exact (bad : Finset ℕ → Prop) (gates : List ℕ) :
    (chosen bad gates).Exact bad gates (fun limit blocked x ↦ x = (limit, blocked)) fun _ ↦ False where
  setCardinality hx _ := by
    subst hx
    rfl
  clearCardinality hx := by
    subst hx
    rfl
  debug hx := by
    subst hx
    exact ⟨chosenSolution_answer, rfl⟩
  debugOverGates hx _ := by
    subst hx
    exact ⟨chosenSolution_answer, rfl⟩
  blockSolution hx _ _ := by
    subst hx
    rfl

end Chosen

end PME
