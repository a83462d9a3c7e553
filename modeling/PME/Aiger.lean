import PME.VariableManager

namespace PME

structure AigerLatch where
  lit : ℕ
  next : ℕ
  reset : ℕ
deriving DecidableEq

structure AigerAnd where
  lhs : ℕ
  rhs0 : ℕ
  rhs1 : ℕ
deriving DecidableEq

/-- The parts of a parsed AIGER file that are read. Literals are even for a variable and odd
for its negation, with `0` and `1` the constants. -/
structure Aiger where
  maxvar : ℕ
  inputs : List ℕ
  latches : List AigerLatch
  ands : List AigerAnd
  outputs : List ℕ
  constraints : List ℕ
deriving DecidableEq

namespace Aiger

def vars (aig : Aiger) : List ℕ :=
  aig.inputs ++ aig.latches.map AigerLatch.lit ++ aig.ands.map AigerAnd.lhs

def Defines (aig : Aiger) (lit : ℕ) : Prop := aigerStrip lit = 0 ∨ aigerStrip lit ∈ aig.vars

instance (aig : Aiger) (lit : ℕ) : Decidable (aig.Defines lit) :=
  inferInstanceAs (Decidable (_ ∨ _))

structure WellFormed (aig : Aiger) : Prop where
  maxvar_lt : aig.maxvar < 2 ^ 31
  isVar : ∀ v ∈ aig.vars, v % 2 = 0 ∧ 0 < v ∧ v ≤ 2 * aig.maxvar
  nodup : aig.vars.Nodup
  next : ∀ l ∈ aig.latches, aig.Defines l.next
  reset : ∀ l ∈ aig.latches, l.reset = 0 ∨ l.reset = 1 ∨ l.reset = l.lit
  rhs : ∀ g ∈ aig.ands, aig.Defines g.rhs0 ∧ aig.Defines g.rhs1
  constraints : ∀ c ∈ aig.constraints, aig.Defines c
  outputs : aig.outputs ≠ [] ∧ ∀ o ∈ aig.outputs, aig.Defines o
  acyclic : ∃ rank : ℕ → ℕ, ∀ g ∈ aig.ands, ∀ h ∈ aig.ands,
    h.lhs = aigerStrip g.rhs0 ∨ h.lhs = aigerStrip g.rhs1 → rank h.lhs < rank g.lhs

def eval (x : ℕ → Bool) (lit : ℕ) : Bool :=
  (aigerStrip lit != 0 && x (aigerStrip lit)) ^^ aigerSign lit

structure Frame (aig : Aiger) (x : ℕ → Bool) : Prop where
  ands : ∀ g ∈ aig.ands, x g.lhs = (eval x g.rhs0 && eval x g.rhs1)
  constraints : ∀ c ∈ aig.constraints, eval x c = true

/-- The executions of `n` frames, with the values the latches have after the last one. -/
structure Execution (aig : Aiger) (n : ℕ) (x : ℕ → ℕ → Bool) : Prop where
  reset : ∀ l ∈ aig.latches, (l.reset = 0 → x 0 l.lit = false) ∧ (l.reset = 1 → x 0 l.lit = true)
  frame : ∀ i < n, aig.Frame (x i)
  latch : ∀ i < n, ∀ l ∈ aig.latches, x (i + 1) l.lit = eval (x i) l.next

variable {aig : Aiger}

theorem length_vars_le (h : aig.WellFormed) : aig.vars.length ≤ aig.maxvar := by
  have hnodup : (aig.vars.map (fun v ↦ v / 2 - 1)).Nodup := by
    refine h.nodup.map_on fun a ha b hb hab ↦ ?_
    have h₁ := h.isVar a ha
    have h₂ := h.isVar b hb
    omega
  have hsub : aig.vars.map (fun v ↦ v / 2 - 1) ⊆ List.range aig.maxvar := by
    intro k hk
    obtain ⟨v, hv, rfl⟩ := List.mem_map.mp hk
    have hvar := h.isVar v hv
    exact List.mem_range.mpr (by omega)
  simpa using (hnodup.subperm hsub).length_le

end Aiger

end PME
