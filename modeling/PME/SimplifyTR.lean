import PME.Circuit

namespace PME

open Outcome

def freeze (ids : List ℕ) (primes : Bool) : List ℕ :=
  ids.flatMap fun id ↦ if primes then [id, prime id 1] else [id]

def simplifyTR (Z : SAT.Simplifier) (tr : TransitionRelation) : Result ClauseVec := do
  let simpSolver ← SATAdaptor.new.addClauses (tr.unroll 2)
  -- latches, constraints and inputs with their primes, and the bad literal at both times
  simpSolver.simplify Z (freeze tr.latchIDs true ++ freeze tr.constraints true ++
    freeze tr.inputIDs true ++ [tr.bad, prime tr.bad 1])

namespace TransitionRelation

variable {tr : TransitionRelation}

structure Linked (tr : TransitionRelation) (x y : Assignment) : Prop where
  fst : tr.IsFrame x
  snd : tr.IsFrame y
  step : tr.Step x y

theorem exists_step (hnodup : (tr.latches.map Latch.id).Nodup) (x : Assignment) :
    ∃ y, tr.Step x y := by
  classical
  let y : Assignment := fun v ↦ if hv : ∃ l ∈ tr.latches, l.id = v then litVal x hv.choose.next else x v
  refine ⟨y, fun l hl ↦ ?_⟩
  have hex : ∃ l' ∈ tr.latches, l'.id = l.id := ⟨l, hl, rfl⟩
  have hsame : hex.choose = l :=
    List.inj_on_of_nodup_map hnodup hex.choose_spec.1 hl hex.choose_spec.2
  have hy : y l.id = litVal x hex.choose.next := dif_pos hex
  rw [hy, hsame]

section Frames

variable {x : Assignment}

structure IsState (tr : TransitionRelation) (x : Assignment) : Prop where
  const : x idFalse = false
  gates : satClauses x tr.toCNF

theorem exists_isState (hwf : tr.WellFormed) {u : Assignment} (hu : u idFalse = false) :
    ∃ x, IsState tr x ∧ ∀ v ∉ tr.gateIDs, x v = u v := by
  obtain ⟨x, hx, hgates⟩ := hwf.exists_gates u hu
  refine ⟨x, ⟨(hx _ fun hmem ↦ ?_).trans hu, hgates⟩, hx⟩
  exact absurd (hwf.isVar _ (mem_signals.mpr (.inr hmem))).1 (by decide)

theorem exists_next (hwf : tr.WellFormed) (x : Assignment) {u : Assignment} (hu : u idFalse = false) :
    ∃ y, IsState tr y ∧ tr.Step x y ∧ ∀ v, v ∉ tr.gateIDs → v ∉ tr.latchIDs → y v = u v := by
  classical
  obtain ⟨z, hz⟩ := exists_step hwf.latches_nodup x
  have hmin : ∀ v ∈ tr.latchIDs, minId ≤ v := fun v hv ↦
    (hwf.isVar v (mem_signals.mpr (.inl (List.mem_append_right _ hv)))).1
  have hconst : idFalse ∉ tr.latchIDs := fun hmem ↦ absurd (hmin _ hmem) (by decide)
  obtain ⟨y, hy, hyu⟩ := exists_isState hwf
    (u := fun v ↦ if v ∈ tr.latchIDs then z v else u v) ((if_neg hconst).trans hu)
  refine ⟨y, hy, fun l hl ↦ ?_, fun v hgate hlatch ↦ (hyu v hgate).trans (if_neg hlatch)⟩
  have hmem := hwf.latch_mem hl
  rw [hyu _ (hwf.not_gate (List.mem_append_right _ hmem)), if_pos hmem]
  exact hz l hl

theorem IsState.isFrame (h : IsState tr x) (hmet : satCube x tr.constraints) : tr.IsFrame x :=
  ⟨h.const, h.gates, hmet⟩

/-- Without constraints every valuation of inputs and latches is one of a frame. -/
theorem exists_isFrame (hwf : tr.WellFormed) (hfree : tr.constraints = []) {u : Assignment}
    (hu : u idFalse = false) : ∃ x, tr.IsFrame x ∧ ∀ v ∉ tr.gateIDs, x v = u v :=
  (exists_isState hwf hu).imp fun _ hx ↦ ⟨hx.1.isFrame (hfree ▸ satCube_nil), hx.2⟩

/-- Without constraints every frame has a next one, whatever its inputs are. -/
theorem exists_linked (hwf : tr.WellFormed) (hfree : tr.constraints = []) (hx : tr.IsFrame x)
    {u : Assignment} (hu : u idFalse = false) :
    ∃ y, tr.Linked x y ∧ ∀ v, v ∉ tr.gateIDs → v ∉ tr.latchIDs → y v = u v := by
  obtain ⟨y, hy, hstep, hval⟩ := exists_next hwf x hu
  exact ⟨y, ⟨hx, hy.isFrame (hfree ▸ satCube_nil), hstep⟩, hval⟩

theorem exists_initial (hwf : tr.WellFormed)
    (hfree : tr.constraints = []) : ∃ x, tr.IsFrame x ∧ tr.IsInit x := by
  classical
  have hconst : ¬ ∃ l ∈ tr.latches, l.id = idFalse ∧ l.reset = idTrue := by
    intro hex
    obtain ⟨l, hl, heq, -⟩ := hex
    have hmin := (hwf.isVar _ (mem_signals.mpr (.inl (List.mem_append_right _ (hwf.latch_mem hl))))).1
    rw [heq] at hmin
    exact absurd hmin (by decide)
  obtain ⟨x, hx, hval⟩ := exists_isFrame hwf hfree
    (u := fun v ↦ decide (∃ l ∈ tr.latches, l.id = v ∧ l.reset = idTrue)) (decide_eq_false hconst)
  refine ⟨x, hx, fun l hl hreset ↦ ?_⟩
  rw [hval l.id (hwf.not_gate (List.mem_append_right _ (hwf.latch_mem hl)))]
  have honly : ∀ l' ∈ tr.latches, l'.id = l.id → l' = l := fun l' hl' heq ↦
    List.inj_on_of_nodup_map hwf.latches_nodup hl' hl heq
  obtain hnull | hfalse | htrue := hwf.reset l hl
  · exact absurd hnull hreset
  · rw [hfalse, litVal_idFalse, hx.const]
    refine decide_eq_false fun hex ↦ ?_
    obtain ⟨l', hl', heq, htrue⟩ := hex
    rw [honly l' hl' heq, hfalse] at htrue
    exact absurd htrue (by decide)
  · rw [htrue, litVal_idTrue, hx.const]
    exact decide_eq_true ⟨l, hl, rfl, htrue⟩

end Frames

theorem isRun_two_iff {x : ℕ → Assignment} :
    tr.IsRun 2 x ↔ tr.Linked (x 0) (x 1) ∧ tr.Step (x 1) (x 2) := by
  constructor
  · intro h
    obtain ⟨h0, h01⟩ := h 0 (by decide)
    obtain ⟨h1, h12⟩ := h 1 (by decide)
    exact ⟨⟨h0, h1, h01⟩, h12⟩
  · rintro ⟨hl, hs⟩ i hi
    rcases Nat.lt_or_eq_of_le (Nat.le_of_lt_succ hi) with hlt | rfl
    · obtain rfl : i = 0 := by omega
      exact ⟨hl.fst, hl.step⟩
    · exact ⟨hl.snd, hs⟩

theorem exists_linked_iff (h : tr.LitsValid) (hnodup : (tr.latches.map Latch.id).Nodup)
    (p : Assignment → Assignment → Prop)
    (hp : ∀ x x' y y', SameSignals x x' → SameSignals y y' → p x y → p x' y') :
    (∃ σ, satClauses σ ([idTrue] :: tr.unroll 2) ∧ p (frameOf σ 0) (frameOf σ 1)) ↔
      ∃ x y, tr.Linked x y ∧ p x y := by
  constructor
  · rintro ⟨σ, hσ, hpσ⟩
    obtain ⟨htrue, hσ⟩ := (satClauses_cons _ _).mp hσ
    have hc : σ idFalse = false := by simpa using htrue
    have hrun := (satClauses_unroll h hc 2).mp hσ
    exact ⟨_, _, (isRun_two_iff.mp hrun).1, hpσ⟩
  · rintro ⟨x, y, hxy, hpxy⟩
    obtain ⟨z, hz⟩ := exists_step hnodup y
    let w : ℕ → Assignment := fun i ↦ if i = 0 then x else if i = 1 then y else z
    have hrun : tr.IsRun 2 w := isRun_two_iff.mpr ⟨hxy, hz⟩
    refine ⟨joinFrames w, ?_, ?_⟩
    · rw [satClauses_cons, satClauses_unroll h (joinFrames_idFalse w)]
      exact ⟨by simp, isRun_joinFrames h hrun⟩
    · have h0 : SameSignals (frameOf (joinFrames w) 0) (w 0) := sameSignals_joinFrames hxy.fst.const
      have h1 : SameSignals (frameOf (joinFrames w) 1) (w 1) := sameSignals_joinFrames hxy.snd.const
      exact hp _ _ _ _ h0.symm h1.symm hpxy

theorem mem_freeze {ids : List ℕ} {primes : Bool} {v : ℕ} :
    v ∈ freeze ids primes ↔ v ∈ ids ∨ primes = true ∧ ∃ id ∈ ids, prime id 1 = v := by
  simp only [freeze, List.mem_flatMap]
  cases primes with
  | false => simp
  | true =>
    simp only [if_true, List.mem_cons, List.not_mem_nil, or_false, true_and]
    constructor
    · rintro ⟨id, hid, rfl | rfl⟩
      exacts [.inl hid, .inr ⟨id, hid, rfl⟩]
    · rintro (hv | ⟨id, hid, rfl⟩)
      exacts [⟨v, hv, .inl rfl⟩, ⟨id, hid, .inr rfl⟩]

def observed (tr : TransitionRelation) : List ℕ :=
  tr.latchIDs ++ tr.constraints ++ tr.inputIDs ++ [tr.bad]

theorem WellFormed.validLit_observed (h : tr.WellFormed) {lit : ℕ} (hl : lit ∈ tr.observed) :
    ValidLit lit := by
  have hvar : ∀ v ∈ tr.inputIDs ++ tr.latchIDs, ValidLit v := fun v hv ↦ by
    obtain ⟨hmin, hmax, -⟩ := h.isVar v (mem_signals.mpr (.inl hv))
    exact ⟨Nat.le_trans (by decide) hmin, hmax⟩
  simp only [observed, List.mem_append, List.mem_singleton] at hl
  rcases hl with ((hl | hl) | hl) | rfl
  · exact hvar lit (List.mem_append_right _ hl)
  · exact h.toLitsValid.constraints lit hl
  · exact hvar lit (List.mem_append_left _ hl)
  · exact h.toLitsValid.bad

/-- Two assignments cannot be told apart by observed literals at times 0 and 1, nor by
variables that the unrolled formula does not have. -/
structure SameObserved (tr : TransitionRelation) (σ τ : Assignment) : Prop where
  const : τ idFalse = σ idFalse
  observed : ∀ lit ∈ tr.observed, ∀ i ≤ 1, litVal (frameOf τ i) lit = litVal (frameOf σ i) lit
  others : ∀ v ∉ varsOf ([idTrue] :: tr.unroll 2), τ v = σ v

theorem unroll_nonempty (h : ∀ cls ∈ tr.toCNF, cls ≠ []) (n : ℕ) :
    ∀ cls ∈ tr.unroll n, cls ≠ [] := by
  intro cls hc
  obtain ⟨i, -, hc⟩ := List.mem_flatMap.mp hc
  rw [addTimeFrame, List.mem_append, List.mem_append] at hc
  rcases hc with (hc | hc) | hc
  · obtain ⟨c, hmem, rfl⟩ := List.mem_map.mp hc
    simpa [primeClause] using h c hmem
  · obtain ⟨l, -, hc⟩ := List.mem_flatMap.mp hc
    unfold makeEqual at hc
    split_ifs at hc <;> simp at hc
    all_goals first | (subst hc; simp) | (rcases hc with rfl | rfl <;> simp)
  · obtain ⟨c, -, rfl⟩ := List.mem_map.mp hc
    simp

/-- The simplified formula answers questions about what is observed as the unrolled formula
does. -/
theorem simplifyTR_meets (h : tr.WellFormed) (Z : SAT.Simplifier) {fail : Failure → Prop}
    (hfail : (¬ ∃ σ, satClauses σ ([idTrue] :: tr.unroll 2)) → fail .assertion) :
    Meets (fun simp ↦ (∀ cls ∈ simp, cls ≠ []) ∧ ∀ p : Assignment → Prop,
      (∀ σ τ, tr.SameObserved σ τ → p σ → p τ) →
      ((∃ σ, satClauses σ ([idTrue] :: simp) ∧ p σ) ↔
        ∃ σ, satClauses σ ([idTrue] :: tr.unroll 2) ∧ p σ))
      fail (simplifyTR Z tr) := by
  unfold simplifyTR
  refine (SATAdaptor.addClauses_meets (unroll_nonempty h.toCNF_nonempty 2)).bind fun ad had ↦ ?_
  obtain ⟨hcl, -⟩ := had
  have hdb : ad.clauses = [idTrue] :: tr.unroll 2 := hcl
  refine (SATAdaptor.simplify_meets fun hno ↦ hfail (hdb ▸ hno)).imp fun simp hs ↦ ?_
  refine ⟨Z.nonempty _ _ _ hs, fun p hp ↦ ?_⟩
  rw [hdb] at hs
  refine SAT.Simplifier.exists_iff hs p fun σ τ hc hsame ↦ hp σ τ ⟨hc, fun lit hl i hi ↦ ?_, ?_⟩
  · have hmax := (h.validLit_observed hl).2
    have hfrozen : ∀ lit ∈ tr.observed, lit ∈ freeze tr.latchIDs true ++ freeze tr.constraints true ++
        freeze tr.inputIDs true ++ [tr.bad, prime tr.bad 1] ∧ prime lit 1 ∈ freeze tr.latchIDs true ++
        freeze tr.constraints true ++ freeze tr.inputIDs true ++ [tr.bad, prime tr.bad 1] := by
      intro lit hl
      simp only [TransitionRelation.observed, List.mem_append, mem_freeze, List.mem_cons,
        List.not_mem_nil, or_false, true_and] at hl ⊢
      rcases hl with ((hl | hl) | hl) | rfl
      · exact ⟨.inl (.inl (.inl (.inl hl))), .inl (.inl (.inl (.inr ⟨lit, hl, rfl⟩)))⟩
      · exact ⟨.inl (.inl (.inr (.inl hl))), .inl (.inl (.inr (.inr ⟨lit, hl, rfl⟩)))⟩
      · exact ⟨.inl (.inr (.inl hl)), .inl (.inr (.inr ⟨lit, hl, rfl⟩))⟩
      · exact ⟨.inr (.inl rfl), .inr (.inr rfl)⟩
    obtain ⟨hnow, hnext⟩ := hfrozen lit hl
    have heq : τ (strip (prime lit i)) = σ (strip (prime lit i)) := by
      apply hsame
      left
      rcases Nat.lt_or_eq_of_le hi with hlt | rfl
      · obtain rfl : i = 0 := by omega
        rw [prime_zero hmax]
        exact List.mem_map_of_mem hnow
      · exact List.mem_map_of_mem hnext
    rw [← litVal_prime hmax, ← litVal_prime hmax]
    exact litVal_congr heq
  · intro v hv
    exact hsame v (.inr hv)

end TransitionRelation

end PME
