import PME.DebugExecution
import PME.IC3.FrameMeaning
import PME.NegatedProof
import PME.UnsatCores

namespace PME

open Outcome TransitionRelation DebugTransitionRelation

/-- A step in which only the gates of `S` are computed, and the others take arbitrary values. -/
structure TransitionRelation.FreeLinked (tr : TransitionRelation) (S : List ℕ) (x y : Assignment) : Prop where
  fst : tr.SuspectFrame {g | g ∉ S} x
  snd : tr.SuspectFrame {g | g ∉ S} y
  step : tr.Step x y

/-- The clauses stay true in every such step. -/
def TransitionRelation.Carried (tr : TransitionRelation) (S : List ℕ) (inv : ClauseVec) : Prop :=
  ∀ x y, tr.FreeLinked S x y → satClauses x inv → satClauses y inv

variable {tr : TransitionRelation} {n : ℕ} {d : DebugTransitionRelation} {x y σ : Assignment} {S : List ℕ}
  {vm : VariableManager} {inv unrolled : ClauseVec} {r : VariableManager × ClauseVec}

theorem TransitionRelation.Carried.mono {C : List ℕ} (h : tr.Carried C inv) (hsub : C ⊆ S) : tr.Carried S inv := by
  have hframe : ∀ {z : Assignment}, tr.SuspectFrame {g | g ∉ S} z → tr.SuspectFrame {g | g ∉ C} z := fun hz ↦
    ⟨hz.const, fun g hg hin ↦ hz.gates g hg fun hno ↦ hno (hsub (not_not.mp hin))⟩
  exact fun x y hxy ↦ h x y ⟨hframe hxy.fst, hframe hxy.snd, hxy.step⟩

namespace DebugTransitionRelation.Debugs

theorem freeLinked (h : Debugs tr n d) (hxy : d.Linked x y)
    (hlow : ∀ g ∈ S, x (d.debugLatchForGate g) = false) : tr.FreeLinked S x y := by
  obtain ⟨hstep, hkept⟩ := (h.step_iff x y).mp hxy.step
  have hframe : ∀ z : Assignment, d.IsFrame z → (∀ g ∈ tr.gateIDs, g ∈ S → z (d.debugLatchForGate g) = false) →
      tr.SuspectFrame {g | g ∉ S} z := by
    intro z hz hlow
    obtain ⟨hconst, hgates⟩ := (h.isFrame_iff z).mp hz
    refine ⟨hconst, fun g hg hS ↦ ?_⟩
    have hmem := h.wf.gate_mem hg
    have hval := hgates g hg
    rwa [litVal_of_even (h.latch_isVar hmem).2.2, hlow _ hmem (not_not.mp hS), if_neg Bool.false_ne_true] at hval
  refine ⟨hframe x hxy.fst fun g _ hg ↦ hlow g hg, hframe y hxy.snd fun g hmem hg ↦ ?_, hstep⟩
  obtain ⟨j, hj, -, hl, -⟩ := h.debugLatch_mem hmem
  have heven := (h.latch_isVar hmem).2.2
  have hsame := hkept j hj
  rw [← hl, litVal_of_even heven] at hsame
  exact hsame.trans (hlow g hg)

theorem exists_linked (h : Debugs tr n d) (hxy : tr.FreeLinked S x y) :
    ∃ x' y', d.Linked x' y' ∧ (∀ v < n, x' v = x v ∧ y' v = y v) ∧
      ∀ g ∈ tr.gateIDs, g ∈ S → x' (d.debugLatchForGate g) = false := by
  let run : ℕ → Assignment := fun i ↦ if i = 0 then x else y
  have hdebug := h.toIsDebug
  refine ⟨IsDebug.lift tr n {g | g ∉ S} run 0, IsDebug.lift tr n {g | g ∉ S} run 1, ⟨?_, ?_, ?_⟩,
    fun v hv ↦ ⟨IsDebug.lift_old hv 0, IsDebug.lift_old hv 1⟩, fun g hmem hg ↦ ?_⟩
  · exact hdebug.isFrame_lift h.wf h.even h.minId_le h.old hxy.fst
  · exact hdebug.isFrame_lift h.wf h.even h.minId_le h.old hxy.snd
  · exact hdebug.step_lift h.wf h.even h.minId_le h.old hxy.step
  · rw [← Bool.not_eq_true, hdebug.lift_selects hmem]
    exact not_not.mpr hg

end DebugTransitionRelation.Debugs

section Unrolled

theorem observed_known (h : tr.WellFormed) {o : ℕ} (ho : o ∈ tr.observed) :
    tr.Mentions (strip o) ∨ strip o ∈ tr.signals := by
  have hvar : ∀ v ∈ tr.inputIDs ++ tr.latchIDs, strip v ∈ tr.signals := by
    intro v hv
    have hmem := mem_signals.mpr (.inl hv)
    rwa [strip_of_even (h.isVar v hmem).2.2]
  simp only [observed, List.mem_append, List.mem_singleton] at ho
  rcases ho with ((ho | ho) | ho) | rfl
  · exact .inr (hvar o (List.mem_append_right _ ho))
  · exact .inl (.inr (.inr ⟨o, List.mem_cons_of_mem _ ho, rfl⟩))
  · exact .inr (hvar o (List.mem_append_left _ ho))
  · exact .inl (.inr (.inr ⟨tr.bad, List.mem_cons_self, rfl⟩))

theorem unprime_strip (h : tr.WellFormed) {o lit : ℕ} (ho : o ∈ tr.observed) (hlit : lit = o ∨ lit = prime o 1) :
    unprime (strip lit) = strip o := by
  have hvalid := h.validLit_observed ho
  rcases hlit with rfl | rfl
  · rw [← prime_zero hvalid.strip.2, unprime_prime hvalid.strip.2, prime_zero hvalid.strip.2]
  · rw [strip_prime hvalid.2, unprime_prime hvalid.strip.2]

theorem exists_observed {lit : ℕ} (hlit : lit ∈ freeze tr.latchIDs true ++ freeze tr.constraints true ++
    freeze tr.inputIDs true ++ [tr.bad, prime tr.bad 1]) : ∃ o ∈ tr.observed, lit = o ∨ lit = prime o 1 := by
  simp only [List.mem_append, mem_freeze, true_and, List.mem_cons, List.not_mem_nil, or_false] at hlit
  simp only [observed, List.mem_append, List.mem_singleton]
  rcases hlit with (((hl | ⟨o, hl, rfl⟩) | (hl | ⟨o, hl, rfl⟩)) | (hl | ⟨o, hl, rfl⟩)) | rfl | rfl
  · exact ⟨lit, by tauto, .inl rfl⟩
  · exact ⟨o, by tauto, .inr rfl⟩
  · exact ⟨lit, by tauto, .inl rfl⟩
  · exact ⟨o, by tauto, .inr rfl⟩
  · exact ⟨lit, by tauto, .inl rfl⟩
  · exact ⟨o, by tauto, .inr rfl⟩
  · exact ⟨tr.bad, by tauto, .inl rfl⟩
  · exact ⟨tr.bad, by tauto, .inr rfl⟩

/-- A simplified formula has no variables but those of the unrolled one and those kept. -/
theorem computeSimplifiedTR_known (h : tr.WellFormed) (B : Backend) :
    Meets (fun cnf ↦ ∀ v ∈ varsOf cnf, unprime v = idFalse ∨ tr.Mentions (unprime v) ∨ unprime v ∈ tr.signals)
      (fun _ ↦ True) (IC3.TransitionRelationSolver.computeSimplifiedTR B tr) := by
  have hunroll : ∀ v ∈ varsOf (tr.unroll 2), tr.Mentions (unprime v) := by
    intro v hv
    obtain ⟨u, i, hu, hvalid, rfl⟩ := h.toLitsValid.mentions_of_mem hv
    rwa [unprime_prime hvalid.2]
  unfold IC3.TransitionRelationSolver.computeSimplifiedTR
  split
  · unfold simplifyTR
    refine (SATAdaptor.addClauses_meets (unroll_nonempty h.toCNF_nonempty 2)).bind fun ad had ↦ ?_
    have hdb : ad.clauses = [idTrue] :: tr.unroll 2 := had.1
    refine (SATAdaptor.simplify_meets fun _ ↦ trivial).imp fun cnf hcnf v hv ↦ ?_
    rw [hdb] at hcnf
    cases B.simplifier.vars _ _ _ hcnf hv with
    | inl hv =>
      obtain ⟨cls, hcls, lit, hl, rfl⟩ := hv
      cases List.mem_cons.mp hcls with
      | inl hconst =>
        subst hconst
        obtain rfl := List.mem_singleton.mp hl
        exact .inl (by decide)
      | inr hcls => exact .inr (.inl (hunroll _ (mem_varsOf hcls hl)))
    | inr hv =>
      obtain ⟨lit, hlit, rfl⟩ := List.mem_map.mp hv
      obtain ⟨o, ho, hcases⟩ := exists_observed hlit
      rw [unprime_strip h ho hcases]
      exact .inr (observed_known h ho)
  · exact fun v hv ↦ .inr (.inl (hunroll v hv))

theorem DebugTransitionRelation.Debugs.computeSimplifiedTR_meets (h : Debugs tr n d) (B : Backend)
    {fail : Failure → Prop} :
    Meets (fun cnf ↦ IC3.Answers d.toTransitionRelation cnf ∧
      ∀ c ∈ cnf, ∀ lit ∈ c, unprime (strip lit) < n + 4 * tr.gateIDs.length) fail
      (IC3.TransitionRelationSolver.computeSimplifiedTR B d.toTransitionRelation) := by
  have hwf := h.wellFormed
  have hmin := h.minId_le
  obtain ⟨x, hx, -⟩ := exists_initial hwf h.constraints
  obtain ⟨y, hxy, -⟩ := TransitionRelation.exists_linked hwf h.constraints hx (u := fun _ ↦ false) rfl
  have hsat : ∃ σ, satClauses σ ([idTrue] :: d.unroll 2) := by
    obtain ⟨σ, hσ, -⟩ := (exists_linked_iff hwf.toLitsValid hwf.latches_nodup (fun _ _ ↦ True)
      fun _ _ _ _ _ _ _ ↦ trivial).mpr ⟨x, y, hxy, trivial⟩
    exact ⟨σ, hσ⟩
  refine ((IC3.computeSimplifiedTR_meets hwf B fun hno ↦ absurd hsat hno).and
    (computeSimplifiedTR_known hwf B)).imp fun cnf hcnf ↦ ⟨hcnf.1, fun c hc lit hl ↦ ?_⟩
  rcases hcnf.2 _ (mem_varsOf hc hl) with hconst | hm | hs
  · rw [hconst]
    exact Nat.lt_of_lt_of_le (by decide) (hmin.trans (Nat.le_add_right _ _))
  · exact h.mentions_lt hm
  · exact h.signals_lt hs

end Unrolled

theorem not_satClauses_iff : ¬ satClauses σ inv ↔ ∃ c ∈ inv, ¬ satClause σ c := by
  simp [satClauses]

/-- Clauses over what the debug relation shares with the circuit. -/
def Shared (d : DebugTransitionRelation) (n : ℕ) (inv : ClauseVec) : Prop :=
  ∀ c ∈ inv, ∀ lit ∈ c, IC3.Visible d.toTransitionRelation lit ∧ strip lit < n

theorem satClause_congr_litVal {τ : Assignment} {c : Clause} (h : ∀ lit ∈ c, litVal σ lit = litVal τ lit) :
    satClause σ c ↔ satClause τ c := satClause_congr fun lit hl ↦ litVal_eq_iff.mp (h lit hl)

/-- The hard clauses: the proof, its negation for the next state, and the debug relation. -/
structure CoreQuery (tr : TransitionRelation) (n : ℕ) (d : DebugTransitionRelation) (vm : VariableManager)
    (inv unrolled : ClauseVec) (r : VariableManager × ClauseVec) : Prop where
  debugs : Debugs tr n d
  old : n + 4 * tr.gateIDs.length ≤ vm.nextID
  answers : IC3.Answers d.toTransitionRelation unrolled
  negates : IVCUCBFFinder.Negates vm inv r
  shared : Shared d n inv

namespace CoreQuery

theorem visible_latch (h : CoreQuery tr n d vm inv unrolled r) {g : ℕ} (hg : g ∈ tr.gateIDs) :
    IC3.Visible d.toTransitionRelation (d.debugLatchForGate g) := by
  refine IC3.visible_latch h.debugs.wellFormed ?_
  rw [strip_of_even (h.debugs.latch_isVar hg).2.2]
  exact h.debugs.latch_mem_latchIDs hg

/-- The primed literals of the proof are no variables that its negation has made. -/
theorem not_made (h : CoreQuery tr n d vm inv unrolled r) {c : Clause} {lit : ℕ} (hc : c ∈ inv) (hl : lit ∈ c) :
    ¬ (vm.nextID ≤ prime (strip lit) 1 ∧ prime (strip lit) 1 < r.1.nextID) := by
  obtain ⟨hvis, hlt⟩ := h.shared c hc lit hl
  have hle := h.old
  have hmax := h.negates.vars.le_maxId
  rw [prime_eq hvis.1.strip.2]
  rw [maxId_eq] at hmax
  split
  · omega
  · omega

theorem visible_made (h : CoreQuery tr n d vm inv unrolled r) {v : ℕ} (hv : v ∈ varsOf r.2)
    (hnew : vm.nextID ≤ v ∧ v < r.1.nextID) : IC3.Visible d.toTransitionRelation v := by
  have hmin := h.debugs.minId_le
  have hle := h.old
  have hmax := h.negates.vars.le_maxId
  have hstrip : strip v = v := by
    obtain ⟨cls, hcls, lit, hl, rfl⟩ := hv
    exact strip_strip lit
  refine ⟨⟨?_, by omega⟩, .inr (.inr (.inl fun hm ↦ ?_))⟩
  · rw [minId_eq] at hmin
    rw [idFalse]
    omega
  · have hlt := h.debugs.mentions_lt (hstrip ▸ hm)
    omega

theorem exists_freeLinked (h : CoreQuery tr n d vm inv unrolled r) (hS : S ⊆ tr.gateIDs)
    (hsat : GroupsSat (inv ++ r.2 ++ unrolled) (fun g ↦ [[negate (d.debugLatchForGate g)]]) S) :
    ∃ x y, tr.FreeLinked S x y ∧ satClauses x inv ∧ ¬ satClauses y inv := by
  obtain ⟨σ, hconst, hhard, hsoft⟩ := hsat
  rw [satClauses_append, satClauses_append] at hhard
  obtain ⟨⟨hσ, hdiff⟩, hunrolled⟩ := hhard
  have htrue : satClause σ [idTrue] := by simp [hconst]
  have hall : satClauses σ ([idTrue] :: unrolled) := (satClauses_cons _ _).mpr ⟨htrue, hunrolled⟩
  obtain ⟨x, y, hxy, hval⟩ := h.answers.exists_linked h.debugs.wellFormed hall
  obtain ⟨c, hc, hfalse⟩ := h.negates.sound σ hdiff
  refine ⟨x, y, h.debugs.freeLinked hxy fun g hg ↦ ?_, fun c hc ↦ ?_,
    not_satClauses_iff.mpr ⟨c, hc, fun hy ↦ hfalse ?_⟩⟩
  · have hlow : litVal σ (negate (d.debugLatchForGate g)) = true := by simpa using hsoft g hg
    rw [litVal_negate, ← (hval _ (h.visible_latch (hS hg))).1,
      litVal_of_even (h.debugs.latch_isVar (hS hg)).2.2] at hlow
    simpa using hlow
  · exact (satClause_congr_litVal fun lit hl ↦ (hval lit (h.shared c hc lit hl).1).1).mpr (hσ c hc)
  · refine (satClause_congr_litVal fun lit hl ↦ ?_).mp hy
    have hvis := (h.shared c hc lit hl).1
    rw [(hval lit hvis).2, litVal_prime hvis.1.2]

/-- The clauses that say that the proof is left have variables of their own, to which values are
given before the transition relation is solved for the others. -/
theorem groupsSat_of_freeLinked (h : CoreQuery tr n d vm inv unrolled r) (hS : S ⊆ tr.gateIDs)
    (hxy : tr.FreeLinked S x y) (hx : satClauses x inv) (hy : ¬ satClauses y inv) :
    GroupsSat (inv ++ r.2 ++ unrolled) (fun g ↦ [[negate (d.debugLatchForGate g)]]) S := by
  obtain ⟨x', y', hxy', hsame, hlow⟩ := h.debugs.exists_linked hxy
  obtain ⟨c, hc, hfalse⟩ := not_satClauses_iff.mp hy
  let frames : ℕ → Assignment := fun i ↦ if i = 0 then x' else y'
  have hsignals : SameSignals (frameOf (joinFrames frames) 1) y' := sameSignals_joinFrames hxy'.snd.const
  have hleft : ¬ satClause (frameOf (joinFrames frames) 1) c := by
    refine fun hsat ↦ hfalse ((satClause_congr_litVal fun lit hl ↦ ?_).mp hsat)
    obtain ⟨hvis, hlt⟩ := h.shared c hc lit hl
    rw [hsignals.litVal_eq hvis.1]
    exact litVal_congr (hsame _ hlt).2
  obtain ⟨τ, hτ, hdiff⟩ := h.negates.complete (joinFrames frames) ⟨c, hc, hleft⟩
  have hmin := h.debugs.minId_le
  have hge := h.old
  let x'' : Assignment := fun v ↦ if vm.nextID ≤ v ∧ v < r.1.nextID then τ v else x' v
  have hold : ∀ v < n + 4 * tr.gateIDs.length, x'' v = x' v := fun v hv ↦ if_neg (by omega)
  have hconst : idFalse < n + 4 * tr.gateIDs.length := Nat.lt_of_lt_of_le (by decide) (hmin.trans (Nat.le_add_right _ _))
  have hlinked : d.Linked x'' y' := hxy'.congr_mentioned (hold _ hconst) fun v hv ↦ hold v (h.debugs.mentions_lt hv)
  obtain ⟨σ, hσ, hval⟩ := h.answers.exists_model h.debugs.wellFormed hlinked
  obtain ⟨htrue, hunrolled⟩ := (satClauses_cons _ _).mp hσ
  refine ⟨σ, by simpa using htrue, ?_, fun g hg ↦ ?_⟩
  · rw [satClauses_append, satClauses_append]
    refine ⟨⟨fun c hc ↦ (satClause_congr_litVal fun lit hl ↦ ?_).mpr (hx c hc), ?_⟩, hunrolled⟩
    · obtain ⟨hvis, hlt⟩ := h.shared c hc lit hl
      rw [(hval lit hvis).1]
      exact litVal_congr ((hold _ (by omega)).trans (hsame _ hlt).1)
    · refine (satClauses_congr fun v hv ↦ ?_).mpr hdiff
      obtain ⟨c, hc, lit, hl, rfl⟩ | hnew := h.negates.known v hv
      · obtain ⟨hvis, hlt⟩ := h.shared c hc lit hl
        have hnext := (hval lit hvis).2
        rw [litVal_prime hvis.1.2, litVal_eq_iff] at hnext
        rw [hτ _ (h.not_made hc hl)]
        exact hnext.trans (litVal_eq_iff.mp (hsignals.litVal_eq hvis.1)).symm
      · have hvis := h.visible_made hv hnew
        have heq := litVal_eq_iff.mp (hval v hvis).1
        obtain ⟨cls, hcls, lit, hl, rfl⟩ := hv
        rw [strip_strip] at heq
        exact heq.trans (if_pos hnew)
  · have hvar := h.debugs.latch_isVar (hS hg)
    have heq := (hval _ (h.visible_latch (hS hg))).1
    rw [litVal_of_even hvar.2.2, litVal_of_even hvar.2.2, hold _ (h.debugs.latch_lt (hS hg)), hlow g (hS hg) hg] at heq
    simp [heq, litVal_of_even hvar.2.2]

/-- The formula with the debug latches of `S` low has a model when a step in which the gates of `S`
are computed leads out of the proof. -/
theorem groupsSat_iff (h : CoreQuery tr n d vm inv unrolled r) (hS : S ⊆ tr.gateIDs) :
    GroupsSat (inv ++ r.2 ++ unrolled) (fun g ↦ [[negate (d.debugLatchForGate g)]]) S ↔ ¬ tr.Carried S inv := by
  constructor
  · intro hsat hcarried
    obtain ⟨x, y, hxy, hx, hy⟩ := h.exists_freeLinked hS hsat
    exact hy (hcarried x y hxy hx)
  · intro hno
    unfold TransitionRelation.Carried at hno
    push Not at hno
    obtain ⟨x, y, hxy, hx, hy⟩ := hno
    exact h.groupsSat_of_freeLinked hS hxy hx hy

end CoreQuery

end PME
