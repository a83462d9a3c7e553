import PME.SeedSearch

namespace PME

open Outcome

inductive MapCall
  | blockUp (seed : Seed)
  | blockDown (seed : Seed)
  | addClause (cls : Clause)
  | findSeed
  | findMinimalSeed
  | findMaximalSeed
  | checkSeed (seed : Seed)

namespace MapCall

def Proper (ids : List ℕ) : MapCall → Prop
  | .blockUp seed | .blockDown seed | .checkSeed seed => seed ⊆ ids
  | .addClause cls => cls ≠ [] ∧ Over ids cls
  | .findSeed | .findMinimalSeed | .findMaximalSeed => True

def Leaves (t : Finset ℕ) : MapCall → Prop
  | .blockUp seed => ¬ seed.toFinset ⊆ t
  | .blockDown seed => ¬ t ⊆ seed.toFinset
  | .addClause cls => satClause (seedVal t) cls
  | .findSeed | .findMinimalSeed | .findMaximalSeed | .checkSeed _ => True

def searches : MapCall → Bool
  | .findSeed | .findMinimalSeed | .findMaximalSeed => true
  | .blockUp _ | .blockDown _ | .addClause _ | .checkSeed _ => false

end MapCall

def Open (calls : List MapCall) (t : Finset ℕ) : Prop := ∀ c ∈ calls, c.Leaves t

theorem open_snoc {calls : List MapCall} {c : MapCall} {t : Finset ℕ} :
    Open (calls ++ [c]) t ↔ Open calls t ∧ c.Leaves t := by
  unfold Open
  rw [List.forall_mem_append, List.forall_mem_singleton]

namespace MapSolver

variable {M : Type}

def call (V : MapSolver M) (x : M) : MapCall → Result M
  | .blockUp seed => V.blockUp x seed
  | .blockDown seed => V.blockDown x seed
  | .addClause cls => V.addClause x cls
  | .findSeed => do return (← V.findSeed x).2
  | .findMinimalSeed => do return (← V.findMinimalSeed x).2
  | .findMaximalSeed => do return (← V.findMaximalSeed x).2
  | .checkSeed seed => do return (← V.checkSeed x seed).2

inductive Reached (V : MapSolver M) (ids : List ℕ) (x₀ : M) : List MapCall → M → Prop
  | start : Reached V ids x₀ [] x₀
  | call {calls : List MapCall} {x x' : M} (c : MapCall) (hx : Reached V ids x₀ calls x)
      (hc : c.Proper ids) (hcall : V.call x c = .ok x') : Reached V ids x₀ (calls ++ [c]) x'

theorem Blocks.call {V : MapSolver M} {ids : List ℕ} {Rep : (Finset ℕ → Prop) → M → Prop} (h : V.Blocks ids Rep)
    {P : Finset ℕ → Prop} {x : M} (hx : Rep P x) {c : MapCall} (hc : c.Proper ids) (hno : c.searches = false) :
    Meets (Rep fun t ↦ P t ∧ c.Leaves t) (fun _ ↦ False) (V.call x c) := by
  cases c with
  | blockUp seed => exact h.blockUp hx hc
  | blockDown seed => exact h.blockDown hx
  | addClause cls => exact h.addClause hx hc.1 hc.2
  | checkSeed seed =>
    exact (h.checkSeed seed hx).bind fun r hr ↦ h.congr hr.1 fun _ _ ↦ ⟨fun hp ↦ ⟨hp, trivial⟩, And.left⟩
  | findSeed => exact absurd hno.symm Bool.false_ne_true
  | findMinimalSeed => exact absurd hno.symm Bool.false_ne_true
  | findMaximalSeed => exact absurd hno.symm Bool.false_ne_true

variable {V : MapSolver M} {ids : List ℕ} {Rep : ℕ → (Finset ℕ → Prop) → M → Prop}
  {fail : Failure → Prop} {x₀ x : M} {calls : List MapCall} {n : ℕ}

theorem Contract.search (h : V.Contract ids Rep fail)
    (hmin : ∀ {n P x}, Rep (n + 1) P x → Meets (fun r ↦ Rep n P r.2) fail (V.findMinimalSeed x))
    (hmax : ∀ {n P x}, Rep (n + 1) P x → Meets (fun r ↦ Rep n P r.2) fail (V.findMaximalSeed x))
    {P : Finset ℕ → Prop} (hx : Rep (n + 1) P x) {c : MapCall} (hyes : c.searches = true) :
    Meets (Rep n fun t ↦ P t ∧ c.Leaves t) fail (V.call x c) := by
  have hsame : ∀ {x'}, Rep n P x' → Rep n (fun t ↦ P t ∧ True) x' := fun hx' ↦
    (h.blocks n).congr hx' fun _ _ ↦ ⟨fun hp ↦ ⟨hp, trivial⟩, And.left⟩
  cases c with
  | findSeed => exact (h.findSeed hx).bind fun r hr ↦ hsame hr.1
  | findMinimalSeed => exact (hmin hx).bind fun r hr ↦ hsame hr
  | findMaximalSeed => exact (hmax hx).bind fun r hr ↦ hsame hr
  | blockUp seed => exact absurd hyes Bool.false_ne_true
  | blockDown seed => exact absurd hyes Bool.false_ne_true
  | addClause cls => exact absurd hyes Bool.false_ne_true
  | checkSeed seed => exact absurd hyes Bool.false_ne_true

/-- After any calls the map holds the seeds that they have left. Each search has taken its share. -/
theorem Contract.reached (h : V.Contract ids Rep fail)
    (hmin : ∀ {n P x}, Rep (n + 1) P x → Meets (fun r ↦ Rep n P r.2) fail (V.findMinimalSeed x))
    (hmax : ∀ {n P x}, Rep (n + 1) P x → Meets (fun r ↦ Rep n P r.2) fail (V.findMaximalSeed x))
    (hstart : Rep (n + calls.countP MapCall.searches) (fun _ ↦ True) x₀) (hx : V.Reached ids x₀ calls x) :
    Rep n (Open calls) x := by
  induction hx generalizing n with
  | start =>
    exact (h.blocks n).congr hstart fun t _ ↦ ⟨fun _ _ hc ↦ absurd hc List.not_mem_nil, fun _ ↦ trivial⟩
  | @call calls x x' c _ hc hcall ih =>
    rw [List.countP_append, List.countP_singleton] at hstart
    have hstep : Meets (Rep n fun t ↦ Open calls t ∧ c.Leaves t) fail (V.call x c) := by
      cases hs : c.searches with
      | true =>
        rw [hs, if_pos rfl, Nat.add_comm _ 1, ← Nat.add_assoc] at hstart
        exact h.search hmin hmax (ih hstart) hs
      | false =>
        rw [hs, if_neg Bool.false_ne_true, Nat.add_zero] at hstart
        exact ((h.blocks n).call (ih hstart) hc hs).weaken fun _ ↦ False.elim
    exact (h.blocks n).congr (hstep.of_ok hcall) fun t _ ↦ open_snoc.symm

end MapSolver

section Sessions

variable {ids : List ℕ} {vm : VariableManager} {o : MSU4Options} {S : SAT.Solver}
  {calls : List MapCall}

theorem SATArbitraryMapSolver.reached_rep (hids : IDSet ids) {x : SATArbitraryMapSolver}
    (h : (SATArbitraryMapSolver.solver S).Reached ids (.new ids) calls x) :
    SATArbitraryMapSolver.Rep ids (Open calls) x := by
  have hcontract : (SATArbitraryMapSolver.solver S).Contract ids (fun _ ↦ SATArbitraryMapSolver.Rep ids)
    (fun _ ↦ True) := SATArbitraryMapSolver.contract hids
  exact hcontract.reached (n := 0) (fun _ ↦ trivial) (fun _ ↦ trivial) (.new hids) h

def mostIDs (ids : List ℕ) (vm : VariableManager) (calls : List MapCall) : ℕ :=
  vm.nextID + (calls.countP MapCall.searches + 1) * MSU4MaxSATSolver.solveIDs ids.length

theorem MSU4ArbitraryMapSolver.reached_rep (hids : IDSet ids) (hvm : vm.Inv)
    (hlt : ∀ id ∈ ids, id < vm.nextID) (hS : S.Relevant) {x : MSU4ArbitraryMapSolver}
    (h : (MSU4ArbitraryMapSolver.solver o S).Reached ids (.new vm ids) calls x) :
    MSU4ArbitraryMapSolver.RepWithin S ids (mostIDs ids vm calls) 1 (Open calls) x := by
  refine (MSU4ArbitraryMapSolver.contract (o := o) hids hS).reached
    (fun h ↦ ((MSU4ArbitraryMapSolver.findsMinimal hids hS).findMinimalSeed h).imp fun _ ↦ And.left)
    (fun h ↦ ((MSU4ArbitraryMapSolver.findsMaximal hids hS).findMaximalSeed h).imp fun _ ↦ And.left) ?_ h
  refine ⟨.new hids hvm hlt, ?_⟩
  rw [Nat.add_comm 1]
  exact le_rfl

structure Answers {M : Type} (V : MapSolver M) (ids : List ℕ) (P : Finset ℕ → Prop)
    (fail : Failure → Prop) (x : M) : Prop where
  findSeed : Meets (fun r ↦ IsSeed ids P r.1) fail (V.findSeed x)
  checkSeed : ∀ seed ⊆ ids, Meets (fun r ↦ r.1 = true ↔ P seed.toFinset) (fun _ ↦ False) (V.checkSeed x seed)
  call : ∀ c : MapCall, c.Proper ids → c.searches = false →
    Meets (fun _ ↦ True) (fun _ ↦ False) (V.call x c)

theorem MapSolver.Contract.answers {M : Type} {V : MapSolver M} {Rep : ℕ → (Finset ℕ → Prop) → M → Prop}
    {P : Finset ℕ → Prop} {fail : Failure → Prop} {x : M} (h : V.Contract ids Rep fail)
    (hx : Rep 1 P x) : Answers V ids P fail x where
  findSeed := (h.findSeed hx).imp fun _ ↦ And.right
  checkSeed seed hsub := by
    refine ((h.blocks 1).checkSeed seed hx).imp fun r hr ↦ ?_
    have heq : ids.toFinset ∩ seed.toFinset = seed.toFinset := by
      apply Finset.inter_eq_right.mpr
      exact fun id hid ↦ List.mem_toFinset.mpr (hsub (List.mem_toFinset.mp hid))
    rw [heq] at hr
    exact hr.2
  call c hc hno := ((h.blocks 1).call hx hc hno).imp fun _ _ ↦ trivial

/-- After any calls, both map solvers answer for the seeds that the calls have left, and so
give the same answers to checks. -/
theorem mapSolvers_right (hids : IDSet ids) (hvm : vm.Inv) (hlt : ∀ id ∈ ids, id < vm.nextID)
    (hS : S.Relevant) :
    (∀ x, (MSU4ArbitraryMapSolver.solver o S).Reached ids (.new vm ids) calls x →
      Answers (MSU4ArbitraryMapSolver.solver o S) ids (Open calls)
        (MSU4MapSolver.TooLarge ids (mostIDs ids vm calls)) x ∧
      Meets (fun r ↦ IsMinimalSeed ids (Open calls) r.1) (MSU4MapSolver.TooLarge ids (mostIDs ids vm calls))
        (MSU4ArbitraryMapSolver.findMinimalSeed o S x) ∧
      Meets (fun r ↦ IsMaximalSeed ids (Open calls) r.1) (MSU4MapSolver.TooLarge ids (mostIDs ids vm calls))
        (MSU4ArbitraryMapSolver.findMaximalSeed o S x)) ∧
    (∀ S' x, (SATArbitraryMapSolver.solver S').Reached ids (.new ids) calls x →
      Answers (SATArbitraryMapSolver.solver S') ids (Open calls) (fun _ ↦ False) x) ∧
    ∀ S' x y, (MSU4ArbitraryMapSolver.solver o S).Reached ids (.new vm ids) calls x →
      (SATArbitraryMapSolver.solver S').Reached ids (.new ids) calls y →
      ∀ seed ⊆ ids, (x.checkSeed S seed).1 = (y.checkSeed S' seed).1 := by
  have hmsu4 : ∀ x, (MSU4ArbitraryMapSolver.solver o S).Reached ids (.new vm ids) calls x →
      MSU4ArbitraryMapSolver.RepWithin S ids (mostIDs ids vm calls) 1 (Open calls) x := fun x hx ↦
    MSU4ArbitraryMapSolver.reached_rep hids hvm hlt hS hx
  have hsat : ∀ S' x, (SATArbitraryMapSolver.solver S').Reached ids (.new ids) calls x →
      Answers (SATArbitraryMapSolver.solver S') ids (Open calls) (fun _ ↦ False) x := fun S' x hx ↦
    (SATArbitraryMapSolver.contract hids).answers (SATArbitraryMapSolver.reached_rep hids hx)
  have hanswers : ∀ x, (MSU4ArbitraryMapSolver.solver o S).Reached ids (.new vm ids) calls x →
      Answers (MSU4ArbitraryMapSolver.solver o S) ids (Open calls)
        (MSU4MapSolver.TooLarge ids (mostIDs ids vm calls)) x :=
    fun x hx ↦ (MSU4ArbitraryMapSolver.contract hids hS).answers (hmsu4 x hx)
  refine ⟨fun x hx ↦ ⟨hanswers x hx, ?_, ?_⟩, hsat, fun S' x y hx hy seed hsub ↦ ?_⟩
  · exact ((MSU4ArbitraryMapSolver.findsMinimal hids hS).findMinimalSeed (hmsu4 x hx)).imp
      fun _ ↦ And.right
  · exact ((MSU4ArbitraryMapSolver.findsMaximal hids hS).findMaximalSeed (hmsu4 x hx)).imp
      fun _ ↦ And.right
  · have hx' : (x.checkSeed S seed).1 = true ↔ Open calls seed.toFinset :=
      (hanswers x hx).checkSeed seed hsub
    have hy' : (y.checkSeed S' seed).1 = true ↔ Open calls seed.toFinset :=
      (hsat S' y hy).checkSeed seed hsub
    exact Bool.eq_iff_iff.mpr (hx'.trans hy'.symm)

theorem MSU4ArbitraryMapSolver.exists_reached (hids : IDSet ids) (hvm : vm.Inv) (hlt : ∀ id ∈ ids, id < vm.nextID)
    (hS : S.Relevant) (hlen : ids.length < 2 ^ 32) (hc : ∀ c ∈ calls, c.Proper ids)
    (htop : mostIDs ids vm calls ≤ 2 ^ 32) :
    ∃ x, (MSU4ArbitraryMapSolver.solver o S).Reached ids (.new vm ids) calls x := by
  induction calls using List.reverseRecOn with
  | nil => exact ⟨_, .start⟩
  | append_singleton calls c ih =>
    obtain ⟨hcalls, hlast⟩ := List.forall_mem_append.mp hc
    have hle : mostIDs ids vm calls ≤ mostIDs ids vm (calls ++ [c]) := by
      unfold mostIDs
      rw [List.countP_append]
      exact Nat.add_le_add_left (Nat.mul_le_mul_right _ (by omega)) _
    obtain ⟨x, hx⟩ := ih hcalls (hle.trans htop)
    have hrep := MSU4ArbitraryMapSolver.reached_rep hids hvm hlt hS hx
    have hcall : Meets (fun _ ↦ True) (fun _ ↦ False) ((MSU4ArbitraryMapSolver.solver o S).call x c) := by
      cases hs : c.searches with
      | true =>
        refine ((MapSolver.Contract.search (contract hids hS) (fun h ↦ ?_) (fun h ↦ ?_) hrep hs).weaken fun e he ↦ ?_).imp
          fun _ _ ↦ trivial
        · exact ((findsMinimal hids hS).findMinimalSeed h).imp fun _ ↦ And.left
        · exact ((findsMaximal hids hS).findMaximalSeed h).imp fun _ ↦ And.left
        · exact MSU4MapSolver.not_tooLarge (hle.trans htop) hlen e he
      | false => exact ((blocks hids 1).call hrep (hlast c (List.mem_singleton_self c)) hs).imp fun _ _ ↦ trivial
    obtain ⟨x', hok, -⟩ := hcall.exists_ok
    exact ⟨x', hx.call c (hlast c (List.mem_singleton_self c)) hok⟩

def threeCalls : List MapCall :=
  [.findMinimalSeed, .blockUp [4, 6], .findMaximalSeed, .blockDown [8], .checkSeed [4, 8], .addClause [4, 6]]

theorem mapSolvers_right_three : ∃ x,
    (MSU4ArbitraryMapSolver.solver ⟨32, 1, true, Nat.one_pos⟩ .minimal).Reached [4, 6, 8]
      (.new .three [4, 6, 8]) threeCalls x ∧
    Open threeCalls {6, 8} ∧
    Answers (MSU4ArbitraryMapSolver.solver ⟨32, 1, true, Nat.one_pos⟩ .minimal) [4, 6, 8] (Open threeCalls)
      (MSU4MapSolver.TooLarge [4, 6, 8] 3256) x ∧
    Meets (fun r ↦ IsMinimalSeed [4, 6, 8] (Open threeCalls) r.1) (fun _ ↦ False)
      (MSU4ArbitraryMapSolver.findMinimalSeed ⟨32, 1, true, Nat.one_pos⟩ .minimal x) := by
  have hids : IDSet [4, 6, 8] := ⟨by decide, by decide, by decide⟩
  have hvm := VariableManager.inv_three
  have hproper : ∀ c ∈ threeCalls, c.Proper [4, 6, 8] := by
    unfold threeCalls
    simp [MapCall.Proper, Over, strip_of_even]
  have hopen : Open threeCalls {6, 8} := by
    unfold Open threeCalls
    simp [MapCall.Leaves, satClause, litVal_of_even, show ¬ ({4, 6} : Finset ℕ) ⊆ {6, 8} by decide]
  obtain ⟨x, hx⟩ := MSU4ArbitraryMapSolver.exists_reached (o := ⟨32, 1, true, Nat.one_pos⟩) hids hvm (by decide)
    SAT.Solver.minimal_relevant (by decide) hproper (by decide)
  have hright := (mapSolvers_right hids hvm (by decide) SAT.Solver.minimal_relevant).1 x hx
  exact ⟨x, hx, hopen, hright.1,
    hright.2.1.weaken (MSU4MapSolver.not_tooLarge (by decide) (by decide))⟩

end Sessions

end PME
