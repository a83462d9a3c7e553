import PME.HybridSafetyChecker
import PME.IC3Debugger
import PME.PartialCircuit

namespace PME.IVCChecker

open Outcome IC3 Exploration TransitionRelation DebugTransitionRelation

section Checks

variable (E : Engines) (fuel : IC3Solver → ℕ) (tr : TransitionRelation)

end Checks

structure Fits (tr : TransitionRelation) (fuel : IC3Solver → ℕ) (ivc : Seed) : Prop where
  wf : tr.WellFormed
  plain : tr.gateCNF = AndGate.toCNF
  free : tr.constraints = []
  proper : Proper tr ivc
  sub : ivc ⊆ tr.gateIDs
  nodup : ivc.Nodup
  gates : ivc ≠ []
  few : ivc.length < cardinalityInf
  fuel : ∀ st, st.fuelBound ≤ fuel st

/-- The failures that are left: there are no more IDs, or the solver stops at a bad initial state. -/
def Stops (tr : TransitionRelation) (ivc : Seed) (e : Failure) : Prop :=
  e = .idsExhausted ∨ e = .narrowed ∨ e = .assertion ∧ ¬ SafeGates tr ivc.toFinset

variable {E : Engines} {fuel : IC3Solver → ℕ} {tr part : TransitionRelation} {ivc : Seed} {vars : VariableManager}

def Critical (part : TransitionRelation) (g : ℕ) : Prop := g ∈ part.gateIDs ∧ part.FreedBad {g}

structure Counted (E : Engines) {n : ℕ} {d : DebugTransitionRelation} (hd : Debugs part n d) (found : List ℕ)
    (s : ℕ × IC3Debugger) : Prop where
  count : s.1 = found.length
  nodup : found.Nodup
  critical : ∀ g ∈ found, Critical part g
  rep : IC3Debugger.Rep E hd 1 (found.map fun g ↦ {g}) s.2

variable {n : ℕ} {d : DebugTransitionRelation} {hd : Debugs part n d} {found : List ℕ} {s : ℕ × IC3Debugger}
  {fail : Failure → Prop}

theorem Counted.length_le (h : Counted E hd found s) : found.length ≤ part.gateIDs.length :=
  (h.nodup.subperm fun g hg ↦ (h.critical g hg).1).length_le

end PME.IVCChecker
