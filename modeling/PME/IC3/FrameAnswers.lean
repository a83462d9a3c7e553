import PME.IC3.FrameMeaning

namespace PME.IC3

open Outcome TransitionRelation

variable {B : Backend} {tr : TransitionRelation} {σ x y : Assignment}

theorem mem_extractCore {c crits : Cube} {n lit : ℕ} (h : lit ∈ extractCoreWithPrimes c crits n) :
    lit ∈ c := by
  obtain ⟨crit, -, hcrit⟩ := List.mem_filterMap.mp h
  split at hcrit
  · obtain rfl := Option.some_inj.mp hcrit
    exact (‹_ ∧ _›).2
  · exact nomatch hcrit

theorem mem_extractCore_of_prime {c crits : Cube} {n lit : ℕ} (hc : lit ∈ c) (hmin : minId ≤ lit)
    (hmax : lit ≤ maxId) (hn : n ≤ maxPrimes) (h : prime lit n ∈ crits) :
    lit ∈ extractCoreWithPrimes c crits n := by
  refine List.mem_filterMap.mpr ⟨prime lit n, h, ?_⟩
  rw [nprimes_prime hmin hmax hn, unprime_prime hmax, if_pos ⟨rfl, hc⟩]

theorem nodup_extractCore {c crits : Cube} {n : ℕ} (hnodup : crits.Nodup)
    (hlt : ∀ lit ∈ crits, lit < 2 ^ 64) : (extractCoreWithPrimes c crits n).Nodup := by
  induction crits with
  | nil => exact List.nodup_nil
  | cons crit crits ih =>
    obtain ⟨hnew, hnodup⟩ := List.nodup_cons.mp hnodup
    have hrest := ih hnodup fun lit hl ↦ hlt lit (List.mem_cons_of_mem _ hl)
    unfold extractCoreWithPrimes
    rw [List.filterMap_cons]
    by_cases hcrit : nprimes crit = n ∧ unprime crit ∈ c
    · rw [if_pos hcrit]
      refine List.nodup_cons.mpr ⟨fun hmem ↦ hnew ?_, hrest⟩
      obtain ⟨crit', hmem', heq⟩ := List.mem_filterMap.mp hmem
      split at heq
      · have hboth := ‹nprimes crit' = n ∧ unprime crit' ∈ c›
        have hun := Option.some_inj.mp heq
        have hp := hcrit.1.trans hboth.1.symm
        rw [nprimes_eq (hlt crit List.mem_cons_self),
          nprimes_eq (hlt crit' (List.mem_cons_of_mem _ hmem'))] at hp
        rw [unprime_eq, unprime_eq] at hun
        have hsame : crit = crit' := by omega
        exact hsame ▸ hmem'
      · exact nomatch heq
    · rw [if_neg hcrit]
      exact hrest

theorem mem_extract {ad : SATAdaptor} {m : Assignment} {vars : List ℕ} {n lit : ℕ}
    (hvars : ∀ v ∈ vars, minId ≤ v ∧ v ≤ maxId ∧ v % 2 = 0) (h : lit ∈ ad.extract m vars n) :
    strip lit ∈ vars ∧ litVal m (prime lit n) = true := by
  obtain ⟨v, hv, hlit⟩ := List.mem_filterMap.mp h
  obtain ⟨-, hmax, heven⟩ := hvars v hv
  obtain ⟨value, hvalue, rfl⟩ := Option.map_eq_some_iff.mp hlit
  unfold SATAdaptor.safeGetAssignment at hvalue
  split at hvalue
  · obtain rfl := Option.some_inj.mp hvalue
    cases hval : litVal m (prime v n) with
    | true =>
      rw [if_pos rfl, unprime_prime hmax, strip_of_even heven]
      exact ⟨hv, hval⟩
    | false =>
      rw [if_neg Bool.false_ne_true, ← prime_negate hmax, unprime_prime (negate_le hmax),
        strip_negate, strip_of_even heven, prime_negate hmax, litVal_negate, hval]
      exact ⟨hv, rfl⟩
  · exact nomatch hvalue

theorem exists_extract {ad : SATAdaptor} {m : Assignment} {vars : List ℕ} {n v : ℕ}
    (hvars : ∀ v ∈ vars, minId ≤ v ∧ v ≤ maxId ∧ v % 2 = 0) (hv : v ∈ vars)
    (hknown : prime v n ∈ ad.known) : ∃ lit ∈ ad.extract m vars n, strip lit = v := by
  obtain ⟨-, hmax, heven⟩ := hvars v hv
  have hhas : ad.hasSAT (prime v n) = true := by
    rw [SATAdaptor.hasSAT, strip_prime hmax, strip_of_even heven]
    exact List.contains_iff_mem.mpr hknown
  have hvalue : ad.safeGetAssignment m (prime v n) = some (litVal m (prime v n)) := by
    rw [SATAdaptor.safeGetAssignment, if_pos hhas]
  cases hval : litVal m (prime v n) with
  | true =>
    refine ⟨v, List.mem_filterMap.mpr ⟨v, hv, ?_⟩, strip_of_even heven⟩
    rw [hvalue, hval, Option.map_some, if_pos rfl, unprime_prime hmax]
  | false =>
    refine ⟨negate v, List.mem_filterMap.mpr ⟨v, hv, ?_⟩, ?_⟩
    · rw [hvalue, hval, Option.map_some, if_neg Bool.false_ne_true, ← prime_negate hmax,
        unprime_prime (negate_le hmax)]
    · rw [strip_negate, strip_of_even heven]

/-- Valuations that agree on the signals give a literal of the circuit the same value. -/
theorem litVal_of_signals {lit : ℕ} (hx : x idFalse = false) (hy : y idFalse = false)
    (hxy : ∀ v ∈ tr.signals, x v = y v) (hl : tr.Defines lit) : litVal x lit = litVal y lit := by
  refine litVal_congr ?_
  cases hl with
  | inl hconst => rw [hconst, hx, hy]
  | inr hmem => exact hxy _ hmem

/-- The latches and inputs of a frame, and the inputs of the next, leave nothing open. -/
theorem linked_unique {x' y' : Assignment} (hwf : tr.WellFormed) (h : tr.Linked x y)
    (h' : tr.Linked x' y') (hx : ∀ v ∈ tr.inputIDs ++ tr.latchIDs, x v = x' v)
    (hy : ∀ v ∈ tr.inputIDs, y v = y' v) : ∀ v ∈ tr.signals, y v = y' v := by
  have hsignals := hwf.signals_unique h.fst.const h'.fst.const h.fst.gates h'.fst.gates hx
  refine hwf.signals_unique h.snd.const h'.snd.const h.snd.gates h'.snd.gates fun v hv ↦ ?_
  cases List.mem_append.mp hv with
  | inl hin => exact hy v hin
  | inr hlatch =>
    rw [hwf.latchIDs_eq] at hlatch
    obtain ⟨l, hl, rfl⟩ := List.mem_map.mp hlatch
    rw [h.step l hl, h'.step l hl]
    exact litVal_of_signals h.fst.const h'.fst.const hsignals (hwf.next l hl)

def RelInd (tr : TransitionRelation) (trace : InductiveTrace) (ℓ : Level) (c core : Cube) : Prop :=
  ∀ x y, tr.Linked x y → InFrame trace ℓ x → ¬ satCube x c → ¬ satCube y core

def Intersects (tr : TransitionRelation) (trace : InductiveTrace) (ℓ : Level) (c : Cube) : Prop :=
  ∃ x y, tr.Linked x y ∧ InFrame trace ℓ x ∧ satCube x c

structure Predecessor (tr : TransitionRelation) (trace : InductiveTrace) (ℓ : Level) (c : Cube)
    (pred inp pinp : Cube) : Prop where
  latches : ∀ lit ∈ pred, strip lit ∈ tr.latchIDs
  inputs : ∀ lit ∈ inp, strip lit ∈ tr.inputIDs
  primed : ∀ lit ∈ pinp, strip lit ∈ tr.inputIDs
  step : ∃ x y, tr.Linked x y ∧ InFrame trace ℓ x ∧ ¬ satCube x c ∧ satCube y c ∧
    satCube x pred ∧ satCube x inp ∧ satCube y pinp
  determined : ∀ x y, tr.Linked x y → satCube x pred → satCube x inp → satCube y pinp → satCube y c

namespace FrameSolver

variable {first : ℕ} {vm vm' : VariableManager} {trace : InductiveTrace} {fs fs' : FrameSolver}
  {ℓ : Level} {c crits : Cube} {m : Assignment} {extra : ClauseVec} {now : Cube}

structure Readable (tr : TransitionRelation) (first : ℕ) (trace : InductiveTrace) : Prop where
  wf : tr.WellFormed
  owned : Owned tr first
  visible : AllVisible tr trace

/-- A target that can be asked about: its literals are signals that keep their meaning. -/
structure Target (tr : TransitionRelation) (c : Cube) : Prop where
  visible : ∀ lit ∈ c, Visible tr lit
  defines : ∀ lit ∈ c, tr.Defines lit

theorem Target.subset {c' : Cube} (h : Target tr c) (hs : c' ⊆ c) : Target tr c' :=
  ⟨fun lit hl ↦ h.visible lit (hs hl), fun lit hl ↦ h.defines lit (hs hl)⟩

theorem latch_var (hwf : tr.WellFormed) : ∀ v ∈ tr.latchIDs, minId ≤ v ∧ v ≤ maxId ∧ v % 2 = 0 :=
  fun v hv ↦ hwf.isVar v (mem_signals.mpr (.inl (List.mem_append_right _ hv)))

theorem input_var (hwf : tr.WellFormed) : ∀ v ∈ tr.inputIDs, minId ≤ v ∧ v ≤ maxId ∧ v % 2 = 0 :=
  fun v hv ↦ hwf.isVar v (mem_signals.mpr (.inl (List.mem_append_left _ hv)))

/-- What the solver knows of a model, filled up with two frames where it knows nothing, shows
two frames again. -/
theorem Queried.exists_filled
    (hq : Queried B tr first vm trace fs ℓ extra now (.sat m) vm' fs')
    (hr : Readable tr first trace) (hx : x idFalse = false) (hy : y idFalse = false) :
    ∃ x' y', tr.Linked x' y' ∧ InFrame trace ℓ x' ∧ ∀ lit, Visible tr lit →
      (strip lit ∈ fs'.solver.known → litVal x' lit = litVal m lit) ∧
      (strip lit ∉ fs'.solver.known → litVal x' lit = litVal x lit) ∧
      (strip (prime lit 1) ∈ fs'.solver.known → litVal y' lit = litVal m (prime lit 1)) ∧
      (strip (prime lit 1) ∉ fs'.solver.known → litVal y' lit = litVal y lit) := by
  classical
  let w : ℕ → Assignment := fun i ↦ if i = 0 then x else y
  let σ : Assignment := fun v ↦ if v ∈ fs'.solver.known then m v else joinFrames w v
  have hin : ∀ lit, strip lit ∈ fs'.solver.known → litVal σ lit = litVal m lit :=
    fun lit hl ↦ litVal_congr (if_pos hl)
  have hout : ∀ lit, strip lit ∉ fs'.solver.known → litVal σ lit = litVal (joinFrames w) lit :=
    fun lit hl ↦ litVal_congr (if_neg hl)
  obtain ⟨sent, hsent, -⟩ := hq.sent hq.inited
  have hclauses : satClauses σ fs'.solver.clauses := by
    refine (satClauses_congr fun v hv ↦ ?_).mpr ((satClauses_append _ _).mp hq.valid.1).1
    exact if_pos (hsent.known v hv)
  have hassumed : satCube σ (fs'.assumed trace.numFrames ℓ) := by
    intro lit hl
    rw [hin lit (hq.knows_now lit (List.mem_append_left _ hl))]
    exact hq.valid.2 lit (List.mem_append_left _ hl)
  obtain ⟨x', y', hlink, hframe, hval⟩ :=
    hq.toReady.exists_linked hr.wf hr.visible hclauses hassumed
  have h0 : SameSignals (frameOf (joinFrames w) 0) x := sameSignals_joinFrames hx
  have h1 : SameSignals (frameOf (joinFrames w) 1) y := sameSignals_joinFrames hy
  refine ⟨x', y', hlink, hframe, fun lit hl ↦ ?_⟩
  obtain ⟨hnow, hnext⟩ := hval lit hl
  refine ⟨fun hk ↦ hnow.trans (hin lit hk), fun hk ↦ ?_, fun hk ↦ hnext.trans (hin _ hk), fun hk ↦ ?_⟩
  · rw [hnow, hout lit hk, ← litVal_frameOf_zero hl.1.2, h0.litVal_eq hl.1]
  · rw [hnext, hout _ hk, litVal_prime hl.1.2, h1.litVal_eq hl.1]

theorem Queried.exists_frames
    (hq : Queried B tr first vm trace fs ℓ extra now (.sat m) vm' fs')
    (hr : Readable tr first trace) : ∃ x y, tr.Linked x y ∧ InFrame trace ℓ x ∧
      ∀ lit, Visible tr lit → litVal x lit = litVal m lit ∧ litVal y lit = litVal m (prime lit 1) :=
  hq.toReady.exists_linked hr.wf hr.visible ((satClauses_append _ _).mp hq.valid.1).1
    fun lit hl ↦ hq.valid.2 lit (List.mem_append_left _ hl)

/-- A step into the cube that is not shown in full is still a step into the cube. -/
theorem Queried.predecessor
    (hq : Queried B tr first vm trace fs ℓ [negateVec c] (primeVec c 1) (.sat m) vm' fs')
    (hr : Readable tr first trace) (hc : Target tr c) :
    Predecessor tr trace ℓ c (fs'.solver.extract m tr.latchIDs 0)
      (fs'.solver.extract m tr.inputIDs 0) (fs'.solver.extract m tr.inputIDs 1) := by
  have hlatch := latch_var hr.wf
  have hinput := input_var hr.wf
  have hnext : ∀ lit ∈ c, litVal m (prime lit 1) = true := fun lit hl ↦
    hq.valid.2 _ (List.mem_append_right _ (List.mem_map_of_mem hl))
  refine ⟨fun lit hl ↦ (mem_extract hlatch hl).1, fun lit hl ↦ (mem_extract hinput hl).1,
    fun lit hl ↦ (mem_extract hinput hl).1, ?_, ?_⟩
  · obtain ⟨x, y, hxy, hframe, hval⟩ := hq.exists_frames hr
    refine ⟨x, y, hxy, hframe, fun hcube ↦ ?_, fun lit hl ↦ ?_, fun lit hl ↦ ?_, fun lit hl ↦ ?_,
      fun lit hl ↦ ?_⟩
    · have hneg : satClause m (negateVec c) :=
        ((satClauses_append _ _).mp hq.valid.1).2 _ List.mem_cons_self
      refine (satClause_negateVec c).mp hneg fun lit hl ↦ ?_
      rw [← (hval lit (hc.visible lit hl)).1]
      exact hcube lit hl
    · exact (hval lit (hc.visible lit hl)).2.trans (hnext lit hl)
    · obtain ⟨hmem, htrue⟩ := mem_extract hlatch hl
      have hvis := visible_latch hr.wf hmem
      rw [prime_zero hvis.1.2] at htrue
      exact (hval lit hvis).1.trans htrue
    · obtain ⟨hmem, htrue⟩ := mem_extract hinput hl
      have hvis := visible_input hr.wf hmem
      rw [prime_zero hvis.1.2] at htrue
      exact (hval lit hvis).1.trans htrue
    · obtain ⟨hmem, htrue⟩ := mem_extract hinput hl
      exact (hval lit (visible_input hr.wf hmem)).2.trans htrue
  · intro x y hxy hpred hinp hpinp
    obtain ⟨x', y', hxy', -, hval⟩ := hq.exists_filled hr hxy.fst.const hxy.snd.const
    have hknown : ∀ (vars : List ℕ) (i : ℕ) (z : Assignment),
        (∀ v ∈ vars, minId ≤ v ∧ v ≤ maxId ∧ v % 2 = 0) →
        satCube z (fs'.solver.extract m vars i) → ∀ v ∈ vars, prime v i ∈ fs'.solver.known →
        z v = m (prime v i) := by
      intro vars i z hvars hz v hv hk
      obtain ⟨lit, hl, hstrip⟩ := exists_extract hvars hv hk
      obtain ⟨-, htrue⟩ := mem_extract hvars hl
      obtain ⟨-, hmax, -⟩ := hvars v hv
      have hle : lit ≤ maxId := by
        rw [strip_eq] at hstrip
        rw [maxId_eq] at hmax ⊢
        have heven := (hvars v hv).2.2
        omega
      have hsame : litVal z lit = litVal (frameOf m i) lit := by
        rw [hz lit hl, ← litVal_prime hle, htrue]
      rw [litVal_eq_iff, hstrip] at hsame
      exact hsame
    have hnow : ∀ v ∈ tr.inputIDs ++ tr.latchIDs, x' v = x v := by
      intro v hv
      have hvar : minId ≤ v ∧ v ≤ maxId ∧ v % 2 = 0 := hr.wf.isVar v (mem_signals.mpr (.inl hv))
      have hvis : Visible tr v := by
        refine ⟨⟨Nat.le_trans (by decide) hvar.1, hvar.2.1⟩, .inl ?_⟩
        rw [strip_of_even hvar.2.2]
        exact List.mem_append.mpr (List.mem_append.mp hv).symm
      obtain ⟨hin, hout, -⟩ := hval v hvis
      rw [strip_of_even hvar.2.2, litVal_of_even hvar.2.2, litVal_of_even hvar.2.2] at hin
      rw [strip_of_even hvar.2.2, litVal_of_even hvar.2.2, litVal_of_even hvar.2.2] at hout
      by_cases hk : v ∈ fs'.solver.known
      · have hzero : prime v 0 = v := prime_zero hvar.2.1
        rw [hin hk]
        cases List.mem_append.mp hv with
        | inl hmem =>
          have heq := hknown tr.inputIDs 0 x hinput hinp v hmem (hzero.symm ▸ hk)
          rw [heq, hzero]
        | inr hmem =>
          have heq := hknown tr.latchIDs 0 x hlatch hpred v hmem (hzero.symm ▸ hk)
          rw [heq, hzero]
      · exact hout hk
    have hthen : ∀ v ∈ tr.inputIDs, y' v = y v := by
      intro v hv
      have hvar := hinput v hv
      have hvis : Visible tr v := visible_input hr.wf (by rw [strip_of_even hvar.2.2]; exact hv)
      obtain ⟨-, -, hin, hout⟩ := hval v hvis
      rw [strip_prime hvar.2.1, strip_of_even hvar.2.2, litVal_of_even hvar.2.2] at hin
      rw [strip_prime hvar.2.1, strip_of_even hvar.2.2, litVal_of_even hvar.2.2,
        litVal_of_even hvar.2.2] at hout
      by_cases hk : prime v 1 ∈ fs'.solver.known
      · rw [hin hk, litVal_prime hvar.2.1, litVal_of_even hvar.2.2]
        exact (hknown tr.inputIDs 1 y hinput hpinp v hv hk).symm
      · exact hout hk
    have hsignals := linked_unique hr.wf hxy' hxy hnow hthen
    intro lit hl
    have hk : strip (prime lit 1) ∈ fs'.solver.known :=
      hq.knows_now _ (List.mem_append_right _ (List.mem_map_of_mem hl))
    rw [← litVal_of_signals hxy'.snd.const hxy.snd.const hsignals (hc.defines lit hl),
      (hval lit (hc.visible lit hl)).2.2.1 hk]
    exact hnext lit hl

/-- A refusal keeps the next frame out of every cube with the literals that were needed. -/
theorem Queried.relInd
    (hq : Queried B tr first vm trace fs ℓ [negateVec c] (primeVec c 1) (.unsat crits) vm' fs')
    (hr : Readable tr first trace) (hc : ∀ lit ∈ c, Visible tr lit) (hknown : Known vm fs c)
    {core : Cube} (hcore : ∀ lit ∈ c, prime lit 1 ∈ crits → lit ∈ core) :
    RelInd tr trace ℓ c core := by
  intro x y hxy hx hout hin
  obtain ⟨σ, hσ, hassumed, hval⟩ := hq.toReady.exists_model hr.wf hr.owned hr.visible hxy hx
  have hlit : ∀ lit ∈ c, litVal σ lit = litVal x lit ∧ litVal σ (prime lit 1) = litVal y lit :=
    fun lit hl ↦ hval lit (hc lit hl) (hq.newer.known hknown lit hl).2
  refine hq.valid.2.2 σ ?_ fun crit hcrit ↦ ?_
  · rw [satClauses_append, satClauses_cons, satClause_negateVec]
    refine ⟨hσ, fun hcube ↦ hout fun lit hl ↦ ?_, satClauses_nil⟩
    rw [← (hlit lit hl).1]
    exact hcube lit hl
  · cases List.mem_append.mp (hq.valid.1 hcrit) with
    | inl hact => exact hassumed crit hact
    | inr hprime =>
      obtain ⟨lit, hl, rfl⟩ := List.mem_map.mp hprime
      exact (hlit lit hl).2.trans (hin lit (hcore lit hl hcrit))

theorem Queried.not_intersects
    (hq : Queried B tr first vm trace fs ℓ [] c (.unsat crits) vm' fs')
    (hr : Readable tr first trace) (hc : ∀ lit ∈ c, Visible tr lit) (hknown : Known vm fs c) :
    ¬ Intersects tr trace ℓ c := by
  intro hex
  obtain ⟨x, y, hxy, hx, hcube⟩ := hex
  obtain ⟨σ, hσ, hassumed, hval⟩ := hq.toReady.exists_model hr.wf hr.owned hr.visible hxy hx
  refine hq.valid.2.2 σ ((satClauses_append _ _).mpr ⟨hσ, satClauses_nil⟩) fun crit hcrit ↦ ?_
  cases List.mem_append.mp (hq.valid.1 hcrit) with
  | inl hact => exact hassumed crit hact
  | inr hmem =>
    rw [(hval crit (hc crit hmem) (hq.newer.known hknown crit hmem).2).1]
    exact hcube crit hmem

theorem Queried.intersects
    (hq : Queried B tr first vm trace fs ℓ [] c (.sat m) vm' fs') (hr : Readable tr first trace)
    (hc : ∀ lit ∈ c, Visible tr lit) : Intersects tr trace ℓ c := by
  obtain ⟨x, y, hxy, hx, hval⟩ := hq.exists_frames hr
  refine ⟨x, y, hxy, hx, fun lit hl ↦ ?_⟩
  rw [(hval lit (hc lit hl)).1]
  exact hq.valid.2 lit (List.mem_append_right _ hl)

theorem extract_ne_nil (hwf : tr.WellFormed) {v : ℕ} (hv : v ∈ tr.latchIDs)
    (hknown : v ∈ fs'.solver.known) : fs'.solver.extract m tr.latchIDs 0 ≠ [] := by
  have hzero : prime v 0 = v := prime_zero (latch_var hwf v hv).2.1
  obtain ⟨lit, hl, -⟩ := exists_extract (m := m) (n := 0) (latch_var hwf) hv (hzero.symm ▸ hknown)
  exact List.ne_nil_of_mem hl

theorem Rep.not_mentioned (h : Rep B tr first vm trace fs) (hi : fs.solverInited = true)
    (hno : ∀ l ∈ tr.latchIDs, l ∉ fs.solver.known) :
    ∀ v ∈ varsOf ([idTrue] :: fs.unrolled), v ∉ tr.latchIDs := by
  obtain ⟨sent, hsent, -⟩ := h.sent hi
  intro v hv hmem
  obtain ⟨cls, hcls, lit, hl, rfl⟩ := hv
  refine hno _ hmem (hsent.known _ (mem_varsOf ?_ hl))
  rw [hsent.clauses]
  exact List.mem_append_left _ hcls

theorem Rep.blind (h : Rep B tr first vm trace fs) (hi : fs.solverInited = true)
    (hwf : tr.WellFormed) (hno : ∀ l ∈ tr.latchIDs, l ∉ fs.solver.known)
    (hbadLatch : strip tr.bad ∉ tr.latchIDs) {x₀ : Assignment} (hxy : tr.Linked x y)
    (hbad : litVal x tr.bad = true) :
    ∃ x' y', tr.Linked x' y' ∧ (∀ l ∈ tr.latchIDs, x' l = x₀ l) ∧ litVal x' tr.bad = true := by
  classical
  have hvars := h.not_mentioned hi hno
  obtain ⟨σ, hσ, hsame⟩ := (h.answers hi hwf).exists_model hwf hxy
  let σ' : Assignment := fun v ↦ if v ∈ tr.latchIDs then x₀ v else σ v
  have hσ' : satClauses σ' ([idTrue] :: fs.unrolled) :=
    (satClauses_congr fun v hv ↦ if_neg (hvars v hv)).mpr hσ
  obtain ⟨x', y', hxy', hval⟩ := (h.answers hi hwf).exists_linked hwf hσ'
  refine ⟨x', y', hxy', fun l hl ↦ ?_, ?_⟩
  · have heven := (latch_var hwf l hl).2.2
    have hvis : Visible tr l := visible_latch hwf (by rw [strip_of_even heven]; exact hl)
    have heq := (hval l hvis).1
    rw [litVal_of_even heven, litVal_of_even heven] at heq
    exact heq.trans (if_pos hl)
  · have hkept : litVal σ' tr.bad = litVal σ tr.bad := litVal_congr (if_neg hbadLatch)
    rw [(hval _ (visible_bad hwf)).1, hkept, (hsame _ (visible_bad hwf)).1]
    exact hbad

theorem Rep.not_held (h : Rep B tr first vm trace fs) (hi : fs.solverInited = true)
    (hwf : tr.WellFormed) (hno : ∀ l ∈ tr.latchIDs, l ∉ fs.solver.known) (hxy : tr.Linked x y)
    {l : Latch} (hl : l ∈ tr.latches) (heq : l.next = l.id) : False := by
  classical
  obtain ⟨σ, hσ, hsame⟩ := (h.answers hi hwf).exists_model hwf hxy
  let σ' : Assignment := fun v ↦ if v ∈ tr.latchIDs then !y v else σ v
  have hσ' : satClauses σ' ([idTrue] :: fs.unrolled) :=
    (satClauses_congr fun v hv ↦ if_neg (h.not_mentioned hi hno v hv)).mpr hσ
  obtain ⟨x', y', hxy', hval⟩ := (h.answers hi hwf).exists_linked hwf hσ'
  have hmem := hwf.latch_mem hl
  obtain ⟨hmin, hmax, heven⟩ := latch_var hwf _ hmem
  have hvis : Visible tr l.id := visible_latch hwf ((strip_of_even heven).symm ▸ hmem)
  have hprimed : strip (prime l.id 1) ∉ tr.latchIDs := by
    intro hin
    have hle := (latch_var hwf _ hin).2.1
    rw [strip_prime hmax, prime_of_ge (hmin.trans_eq (strip_of_even heven).symm)
      ((strip_le _).trans hmax), maxId_eq] at hle
    omega
  have hnow : x' l.id = !y l.id := by
    have hx' := (hval _ hvis).1
    rw [litVal_of_even heven, litVal_of_even heven] at hx'
    exact hx'.trans (if_pos hmem)
  have hnext : y' l.id = y l.id := by
    have hy' := (hval _ hvis).2.trans (litVal_congr (if_neg hprimed) : litVal σ' _ = litVal σ _)
    rw [(hsame _ hvis).2, litVal_of_even heven, litVal_of_even heven] at hy'
    exact hy'
  have hstep := hxy'.step l hl
  rw [heq, litVal_of_even heven, hnow, hnext] at hstep
  cases hy : y l.id with
  | true => exact Bool.false_ne_true (by rw [hy] at hstep; exact hstep.symm)
  | false => exact Bool.false_ne_true (by rw [hy] at hstep; exact hstep)

end FrameSolver

end PME.IC3
