import PME.BatchPlan

namespace PME

open Outcome Exploration DebugTransitionRelation

namespace BMCCorrectionSetFinder

variable {X : Type}

def NoneLate (results : List CorrectionSet) : Prop :=
  results.Pairwise fun u v ↦ ¬ v.toFinset ⊂ u.toFinset

/-- What a batch has found: sets that it can find, enough of them for those that it is to block, and
any set that the solver prefers, before all that lies inside it. -/
structure Logged (S : SAT.Solver) (d : DebugTransitionRelation) (found blocked : Set (Finset ℕ))
    (results : List (Finset ℕ)) : Prop where
  sound : ∀ u ∈ results, u ∈ found
  complete : ∀ t ∈ blocked, ¬ Unblocked results t
  preferred : ∀ u ∈ found, S.Prefers (fun σ ↦ (d.selected σ).toFinset = u) →
    ∃ before after, results = before ++ u :: after ∧ Unblocked before u

structure Begun (S : SAT.Solver) (tr : TransitionRelation) (n : ℕ) (d : DebugTransitionRelation)
    (I : X → VariableManager → Prop) (p : Plan) (x : ℕ)
    (s : List CorrectionSet × BMCCorrectionSetFinder X) : Prop where
  rep : Rep tr n d I (s.1.map List.toFinset) s.2
  kMin_eq : s.2.kMin = p.kMin
  kMax_eq : s.2.kMax = p.kMax
  le : s.2.vars.nextID ≤ x
  log : Logged S d p.found p.blocked (s.1.map List.toFinset)

/-- The state of a batch before a turn. What can be found before step `j` has been found, where `j` is
the step of the turn, or the one after it when the step has had something. -/
structure Stage (S : SAT.Solver) (tr : TransitionRelation) (n : ℕ) (d : DebugTransitionRelation)
    (I : X → VariableManager → Prop) (p : Plan) (c j x : ℕ) (b : Batch X) : Prop where
  rep : Rep tr n d I (b.result.map List.toFinset) b.finder
  lastSoln_eq : b.lastSoln = p.lastSoln tr c (j - 1)
  kMin_eq : b.finder.kMin = max p.kMin (p.lastSoln tr c (j - 1))
  kMax_eq : b.finder.kMax = p.kMax
  paid : Paid tr c x b.finder
  going : ∀ i < b.k, ¬ p.GivesUp tr c i
  step : j = b.k ∨ j = b.k + 1 ∧ ∃ t, p.Finds tr c b.k t
  step_le : j ≤ p.kMax + 1
  log : Logged S d (p.foundTo tr c j) (p.blockedTo tr c b.k) (b.result.map List.toFinset)

variable {S : SAT.Solver} {V : Debugger (X × VariableManager)} {opts : BMCOptions}
  {tr : TransitionRelation} {n : ℕ} {d : DebugTransitionRelation} {I : X → VariableManager → Prop}
  {fail : Failure → Prop} {f : BMCCorrectionSetFinder X} {p : Plan} {c j k x : ℕ} {b : Batch X}
  {canFind blocked : Set (Finset ℕ)} {results : List (Finset ℕ)} {t u D : Finset ℕ}

theorem findAt_prefers (hs : Grounds V tr n d I fun _ ↦ True) (h : Rep tr n d I results f) (hc : 0 < c)
    (hS : S.Prefers fun σ ↦ (d.selected σ).toFinset = D) (hD : D ⊆ tr.gateIDs.toFinset) (hcard : D.card ≤ c)
    (hbad : tr.FreedBadAt D k) (hopen : Unblocked results D) :
    Meets (fun r ↦ r.1.map List.toFinset = some D) (fun _ ↦ True) (findAt S V f k c) := by
  have hblock : ∀ r : Option CorrectionSet × BMCCorrectionSetFinder X,
      Meets (fun r' ↦ r'.1 = r.1) (fun _ ↦ True) (blockFound V r) := by
    intro r
    obtain ⟨answer, f'⟩ := r
    cases answer with
    | none => rfl
    | some corr => exact (meets_any _).bind fun _ _ ↦ rfl
  unfold findAt
  split
  · next he => exact absurd hopen (h.covers_of_isExhausted (fun _ ↦ hc) he D hD hcard hbad)
  · refine (setBMCCardinality_meets (c := c) hs h (paid_add le_rfl c) fun _ ↦ ⟨trivial, trivial⟩).bind
      fun f' hf' ↦ ?_
    obtain ⟨-, -, hbmc, -, -⟩ := hf'
    have hle : D.card ≤ tr.gateIDs.length := (Finset.card_le_card hD).trans (List.toFinset_card_le _)
    have hdebug := BMCDebugger.debugAtK_prefers S hbmc hs.debugs hs.many hS
      ⟨hD, le_min hcard hle, hopen, hbad⟩
    exact hdebug.bind fun r hr ↦ (hblock _).imp fun r' hr' ↦ hr'.symm ▸ hr

def verdict (b : Batch X) : Batch X ⊕ List CorrectionSet × BMCCorrectionSetFinder X :=
  if b.k - b.lastSoln ≥ 3 ∧ b.k ≥ b.finder.kMin then .inr (b.result, { b.finder with kMax := b.k })
  else .inl b

theorem verdict_eq_inl (h : ¬ (b.k - b.lastSoln ≥ 3 ∧ b.k ≥ b.finder.kMin)) : verdict b = .inl b := if_neg h

theorem verdict_eq_inr (h : b.k - b.lastSoln ≥ 3 ∧ b.k ≥ b.finder.kMin) :
    verdict b = .inr (b.result, { b.finder with kMax := b.k }) := if_pos h

theorem giveUp_verdict (h : b.finder.kMin ≤ b.finder.kMax ∨ fail .assertion) :
    Meets (fun r ↦ r = verdict b) fail (giveUp b) := by
  unfold giveUp
  cases hle : decide (b.finder.kMin ≤ b.finder.kMax) with
  | false => exact h.resolve_left (of_decide_eq_false hle)
  | true =>
    rw [ensure_true, ok_bind]
    unfold verdict
    split <;> rfl

structure TurnFinds (tr : TransitionRelation) (n : ℕ) (d : DebugTransitionRelation)
    (I : X → VariableManager → Prop) (c x : ℕ) (b : Batch X) (corr : CorrectionSet)
    (f' : BMCCorrectionSetFinder X) : Prop where
  answer : DebugAnswer (tr.FreedBadAt · b.k) tr.gateIDs c (b.result.map List.toFinset) (some corr)
  rep : Rep tr n d I (b.result.map List.toFinset ++ [corr.toFinset]) f'
  same : SameBounds b.finder f'
  paid : Paid tr c x f'

structure TurnExhausts (tr : TransitionRelation) (n : ℕ) (d : DebugTransitionRelation)
    (I : X → VariableManager → Prop) (c x : ℕ) (b : Batch X) (f' : BMCCorrectionSetFinder X) : Prop where
  covers : Covers (tr.FreedBadAt · b.k) tr.gateIDs.toFinset (b.result.map List.toFinset) c
  rep : Rep tr n d I (b.result.map List.toFinset) f'
  same : SameBounds b.finder f'
  paid : Paid tr c x f'

/-- What one turn does at a step within the bound. The property `q` is any that the answer is known
to have. -/
theorem batchTurn_turns (hs : Grounds V tr n d I fail)
    (h : Rep tr n d I (b.result.map List.toFinset) b.finder) (hk : b.k ≤ b.finder.kMax)
    (hp : Paid tr c x b.finder) (hids : Room fail x)
    (hbounds : b.finder.kMin ≤ b.finder.kMax ∨ fail .assertion) (hdeep : maxPrimes ≤ b.k → fail .assertion)
    (hempty : tr.FreedBadAt ∅ b.k → 0 < c ∧ fail .assertion) {q : Option CorrectionSet → Prop}
    (hq : Meets (fun r ↦ q r.1) (fun _ ↦ True) (findAt S V b.finder b.k c)) :
    Meets (fun r ↦ ∃ f',
      (∃ corr, q (some corr) ∧ TurnFinds tr n d I c x b corr f' ∧
        r = verdict ⟨b.k, b.k, b.result ++ [corr], { f' with kMin := max f'.kMin b.k }⟩) ∨
      TurnExhausts tr n d I c x b f' ∧ r = verdict ⟨b.k + 1, b.lastSoln, b.result, f'.exhaust b.k c⟩)
      fail (batchTurn S V c b) := by
  unfold batchTurn
  rw [if_pos hk]
  refine ((findAt_meets hs h hp hids hdeep hempty).and hq).bind fun r hr ↦ ?_
  obtain ⟨answer, f'⟩ := r
  obtain ⟨⟨hanswer, hrep, hsame, -, hpaid⟩, hq'⟩ := hr
  dsimp only at hanswer hrep hsame hpaid hq' ⊢
  obtain ⟨hkMax, hkMin⟩ := hsame
  cases answer with
  | some corr =>
    have hgive : Meets _ fail (giveUp ⟨b.k, b.k, b.result ++ [corr], { f' with kMin := max f'.kMin b.k }⟩) :=
      giveUp_verdict (hbounds.imp_left fun hle ↦ by dsimp only; omega)
    exact hgive.imp fun r hr ↦ ⟨f', .inl ⟨corr, hq', ⟨hanswer, hrep, ⟨hkMax, hkMin⟩, hpaid⟩, hr⟩⟩
  | none =>
    rw [BasicMCSFinder.blockedBy_none] at hrep
    have hgive : Meets _ fail (giveUp ⟨b.k + 1, b.lastSoln, b.result, f'.exhaust b.k c⟩) :=
      giveUp_verdict (hbounds.imp_left fun hle ↦ by dsimp only [exhaust]; omega)
    exact hgive.imp fun r hr ↦ ⟨f', .inr ⟨⟨hanswer, hrep, ⟨hkMax, hkMin⟩, hpaid⟩, hr⟩⟩

theorem Logged.unblocked (h : Logged S d (p.foundTo tr c k) blocked results) (hp : p.Closed)
    (ht : p.Finds tr c k t) : Unblocked results t := fun _ hu hut ↦
  ht.new (hp.upperTo c k hut (hp.foundTo c k (h.sound _ hu)))

theorem Logged.snoc (h : Logged S d (p.foundTo tr c j) (p.blockedTo tr c k) results) (hp : p.Closed)
    (hj : j = k ∨ j = k + 1) (hD : p.Finds tr c k D)
    (hprefers : ∀ u, S.Prefers (fun σ ↦ (d.selected σ).toFinset = u) → p.Finds tr c k u →
      Unblocked results u → D = u) :
    Logged S d (p.foundTo tr c (k + 1)) (p.blockedTo tr c k) (results ++ [D]) where
  sound := by
    refine List.forall_mem_append.mpr ⟨fun u hu ↦ ?_, List.forall_mem_singleton.mpr ?_⟩
    · rcases hj with rfl | rfl
      · exact Plan.foundTo_succ.mpr (.inl (h.sound u hu))
      · exact h.sound u hu
    · exact Plan.foundTo_succ.mpr (.inr hD)
  complete t ht hopen := h.complete t ht (hopen.anti (List.subset_append_left _ _))
  preferred u hu hS := by
    by_cases hold : u ∈ p.foundTo tr c j
    · obtain ⟨before, after, rfl, hbefore⟩ := h.preferred u hold hS
      exact ⟨before, after ++ [D], by rw [List.append_assoc, List.cons_append], hbefore⟩
    · obtain rfl : j = k := hj.resolve_right fun hj ↦ hold (hj ▸ hu)
      have hu' := (Plan.foundTo_succ.mp hu).resolve_left hold
      have hopen := h.unblocked hp hu'
      obtain rfl := hprefers u hS hu' hopen
      exact ⟨results, [], rfl, hopen⟩

theorem Logged.quiet (h : Logged S d (p.foundTo tr c k) blocked results) (hp : p.Closed)
    (hcovers : Covers (tr.FreedBadAt · k) tr.gateIDs.toFinset results c) : ¬ p.Finds tr c k t := fun ht ↦
  hcovers t ht.subset ht.card_le ht.bad (h.unblocked hp ht)

theorem Logged.exhaust (h : Logged S d (p.foundTo tr c j) (p.blockedTo tr c k) results) (hp : p.Closed)
    (hj : j = k ∨ j = k + 1) (hcovers : Covers (tr.FreedBadAt · k) tr.gateIDs.toFinset results c) :
    Logged S d (p.foundTo tr c (k + 1)) (p.blockedTo tr c (k + 1)) results := by
  have hfound : p.foundTo tr c j = p.foundTo tr c (k + 1) := by
    rcases hj with rfl | rfl
    · ext u
      exact ⟨fun hu ↦ Plan.foundTo_succ.mpr (.inl hu), fun hu ↦
        (Plan.foundTo_succ.mp hu).resolve_right (h.quiet hp hcovers)⟩
    · rfl
  rw [hfound] at h
  refine ⟨h.sound, fun t ht hopen ↦ ?_, h.preferred⟩
  rcases ht with ht | ht
  · exact h.complete t (.inl ht) hopen
  · rcases within_succ.mp ht with ht | ⟨u, hut, hgates, hcard, hbad⟩
    · exact h.complete t (.inr ht) hopen
    · exact hcovers u hgates hcard hbad fun v hv hvu ↦ hopen v hv (hvu.trans hut)

noncomputable def turnsLeft (tr : TransitionRelation) (b : Batch X) : ℕ :=
  (b.finder.kMax + 1 - b.k) +
    (⟨b.result.map List.toFinset, []⟩ : Explored ℕ).remaining tr.gateIDs.toFinset

def TurnsTo (S : SAT.Solver) (tr : TransitionRelation) (n : ℕ) (d : DebugTransitionRelation)
    (I : X → VariableManager → Prop) (p : Plan) (c x : ℕ) (b : Batch X) :
    Batch X ⊕ List CorrectionSet × BMCCorrectionSetFinder X → Prop
  | .inl b' => (∃ j, Stage S tr n d I p c j x b') ∧ turnsLeft tr b' < turnsLeft tr b
  | .inr r => Begun S tr n d I (p.next tr c) x r

theorem Stage.finds {corr : CorrectionSet} {f' : BMCCorrectionSetFinder X}
    (h : Stage S tr n d I p c j x b) (hp : p.Closed) (hk : b.k ≤ b.finder.kMax)
    (hf : TurnFinds tr n d I c x b corr f')
    (hprefers : ∀ u, S.Prefers (fun σ ↦ (d.selected σ).toFinset = u) → p.Finds tr c b.k u →
      Unblocked (b.result.map List.toFinset) u → corr.toFinset = u) :
    TurnsTo S tr n d I p c x b
      (verdict ⟨b.k, b.k, b.result ++ [corr], { f' with kMin := max f'.kMin b.k }⟩) := by
  obtain ⟨hkMax, hkMin⟩ := hf.same
  obtain ⟨hin, hcard, hbad, hopen⟩ := hf.answer
  have hsubset : corr.toFinset ⊆ tr.gateIDs.toFinset := fun g hg ↦
    List.mem_toFinset.mpr (hin (List.mem_toFinset.mp hg))
  have hfinds : p.Finds tr c b.k corr.toFinset := ⟨hsubset, hcard, hbad, fun ht ↦ h.log.complete _ ht hopen⟩
  have hj : j = b.k ∨ j = b.k + 1 := h.step.imp_right And.left
  have hlog := h.log.snoc hp hj hfinds hprefers
  have happend : (b.result ++ [corr]).map List.toFinset = b.result.map List.toFinset ++ [corr.toFinset] := by
    rw [List.map_append, List.map_singleton]
  have hlast : p.lastSoln tr c (b.k + 1 - 1) = b.k := Plan.lastSoln_eq hfinds
  have hmax := h.kMax_eq
  rw [verdict_eq_inl (by dsimp only; omega)]
  refine ⟨⟨b.k + 1, ?_, hlast.symm, ?_, hkMax.trans hmax, hf.paid, h.going, .inr ⟨rfl, _, hfinds⟩,
    by omega, ?_⟩, ?_⟩
  · rw [happend]
    exact ⟨hf.rep.bmc, hf.rep.ic3, hf.rep.none_exhausted, hf.rep.exhausted⟩
  · have hle : p.lastSoln tr c (j - 1) ≤ j - 1 := Plan.lastSoln_le
    rw [hlast]
    dsimp only
    rw [hkMin, h.kMin_eq]
    omega
  · rw [happend]
    exact hlog
  · have hlt := remaining_blocked_lt hsubset hopen
    unfold turnsLeft
    rw [happend]
    dsimp only
    omega

theorem Stage.exhausted {f' : BMCCorrectionSetFinder X} (h : Stage S tr n d I p c j x b) (hp : p.Closed)
    (hk : b.k ≤ b.finder.kMax) (hf : TurnExhausts tr n d I c x b f') :
    TurnsTo S tr n d I p c x b (verdict ⟨b.k + 1, b.lastSoln, b.result, f'.exhaust b.k c⟩) := by
  obtain ⟨hkMax, hkMin⟩ := hf.same
  have hrep := hf.rep.exhaust hf.covers
  have hlog := h.log.exhaust hp (h.step.imp_right And.left) hf.covers
  have hlast : p.lastSoln tr c (j - 1) = p.lastSoln tr c b.k := by
    rcases h.step with rfl | ⟨rfl, -⟩
    · exact (Plan.lastSoln_of_quiet fun _ ↦ h.log.quiet hp hf.covers).symm
    · rfl
  have hsoln := h.lastSoln_eq
  have hmin := h.kMin_eq
  rw [hlast] at hsoln hmin
  have hle : p.lastSoln tr c b.k ≤ b.k := Plan.lastSoln_le
  have hiff : b.k + 1 - b.lastSoln ≥ 3 ∧ b.k + 1 ≥ f'.kMin ↔ p.GivesUp tr c b.k := by
    unfold Plan.GivesUp
    omega
  have hmax := h.kMax_eq
  by_cases hup : p.GivesUp tr c b.k
  · have hstep := Plan.lastStep_eq_of_givesUp (hmax ▸ hk) h.going hup
    rw [verdict_eq_inr (b := ⟨b.k + 1, b.lastSoln, b.result, f'.exhaust b.k c⟩) (hiff.mpr hup)]
    refine ⟨⟨hrep.bmc, hrep.ic3, hrep.none_exhausted, hrep.exhausted⟩, ?_, ?_, hf.paid.1, ?_⟩
    · dsimp only [Plan.next, exhaust]
      rw [hstep, hkMin, hmin]
    · dsimp only [Plan.next]
      rw [hstep, if_pos hup]
    · dsimp only [Plan.next]
      rw [hstep]
      exact hlog
  · have hno := mt hiff.mp hup
    rw [verdict_eq_inl (b := ⟨b.k + 1, b.lastSoln, b.result, f'.exhaust b.k c⟩) hno]
    refine ⟨⟨b.k + 1, hrep, hsoln, hkMin.trans hmin, hkMax.trans hmax, hf.paid, fun i hi ↦ ?_,
      .inl rfl, by omega, hlog⟩, ?_⟩
    · rcases Nat.lt_succ_iff_lt_or_eq.mp hi with hi | rfl
      · exact h.going i hi
      · exact hup
    · unfold turnsLeft
      dsimp only [exhaust]
      omega

theorem Stage.ended (h : Stage S tr n d I p c j x b) (hk : ¬ b.k ≤ b.finder.kMax) :
    Begun S tr n d I (p.next tr c) x (b.result, b.finder) := by
  obtain ⟨hrep, -, hmin, hmax, hpaid, hgoing, hstep, hle, hlog⟩ := h
  obtain ⟨hj, hb⟩ : j = p.kMax + 1 ∧ b.k = p.kMax + 1 := by omega
  have hgo : ∀ i ≤ p.kMax, ¬ p.GivesUp tr c i := fun i hi ↦ hgoing i (by omega)
  have hlast := Plan.lastStep_eq_kMax hgo
  refine ⟨hrep, ?_, ?_, hpaid.1, ?_⟩
  · dsimp only [Plan.next]
    rw [hlast, hmin, hj, Nat.add_sub_cancel]
  · dsimp only [Plan.next]
    rw [hlast, if_neg (hgo _ le_rfl), hmax]
  · dsimp only [Plan.next]
    rw [hlast]
    rw [hj, hb] at hlog
    exact hlog

structure Allows (tr : TransitionRelation) (fail : Failure → Prop) (p : Plan) (c x : ℕ) : Prop where
  bounds : p.kMin ≤ p.kMax ∨ fail .assertion
  room : Room fail x
  deep : maxPrimes ≤ p.lastStep tr c → fail .assertion
  empty : ∅ ∈ (p.next tr c).blocked → fail .assertion

theorem batchTurn_turnsTo (hs : Grounds V tr n d I fail) (hp : p.Closed) (hc : 0 < c)
    (ha : Allows tr fail p c x) (h : Stage S tr n d I p c j x b) :
    Meets (TurnsTo S tr n d I p c x b) fail (batchTurn S V c b) := by
  by_cases hk : b.k ≤ b.finder.kMax
  · have hmax := h.kMax_eq
    have hlast : b.k ≤ p.lastStep tr c := Plan.le_lastStep (hmax ▸ hk) h.going
    have hbounds : b.finder.kMin ≤ b.finder.kMax ∨ fail .assertion := by
      refine ha.bounds.imp_left fun hle ↦ ?_
      have hsoln : p.lastSoln tr c (j - 1) ≤ j - 1 := Plan.lastSoln_le
      have hmin := h.kMin_eq
      have hj := h.step
      omega
    have hempty : tr.FreedBadAt ∅ b.k → 0 < c ∧ fail .assertion := by
      intro hb
      refine ⟨hc, ha.empty (.inr ⟨∅, Finset.Subset.refl ∅, Finset.empty_subset _, Nat.zero_le c, b.k, ?_, hb⟩)⟩
      exact Nat.lt_succ_of_le hlast
    have hprefers : Meets (fun r ↦ ∀ u, S.Prefers (fun σ ↦ (d.selected σ).toFinset = u) → p.Finds tr c b.k u →
        Unblocked (b.result.map List.toFinset) u → r.1.map List.toFinset = some u) (fun _ ↦ True)
        (findAt S V b.finder b.k c) := by
      have hopen : Grounds V tr n d I fun _ ↦ True :=
        ⟨hs.debugs, hs.many, hs.yields.weaken fun _ _ ↦ trivial⟩
      refine meets_of_ok (fun _ ↦ trivial) fun r hr u hS hu hfree ↦ ?_
      have hfind := findAt_prefers hopen h.rep hc hS hu.subset hu.card_le hu.bad hfree
      exact hfind.of_ok hr
    have hturn := batchTurn_turns hs h.rep hk h.paid ha.room hbounds (fun hle ↦ ha.deep (hle.trans hlast))
      hempty (q := fun answer ↦ ∀ u, S.Prefers (fun σ ↦ (d.selected σ).toFinset = u) →
        p.Finds tr c b.k u → Unblocked (b.result.map List.toFinset) u → answer.map List.toFinset = some u)
      hprefers
    refine hturn.imp fun r hr ↦ ?_
    obtain ⟨f', ⟨corr, hq, hf, rfl⟩ | ⟨hf, rfl⟩⟩ := hr
    · exact h.finds hp hk hf fun u hS hu hfree ↦ Option.some.inj (hq u hS hu hfree)
    · exact h.exhausted hp hk hf
  · unfold batchTurn
    rw [if_neg hk]
    exact h.ended hk

theorem findBatchAt_begun (hs : Grounds V tr n d I fail) (hp : p.Closed) (hc : 0 < c)
    (ha : Allows tr fail p c (x + cost tr)) {s : List CorrectionSet × BMCCorrectionSetFinder X}
    (h : Begun S tr n d I p x s) {fuel : ℕ} (hfuel : p.kMax + 1 + 2 ^ tr.gateIDs.length < fuel) :
    Meets (Begun S tr n d I (p.next tr c) (x + cost tr)) fail (findBatchAt S V fuel c s) := by
  have hzero : p.lastSoln tr c 0 = 0 := Nat.le_zero.mp Plan.lastSoln_le
  have hstart : Stage S tr n d I p c 0 (x + cost tr) ⟨0, 0, s.1, s.2⟩ := by
    refine ⟨h.rep, hzero.symm, ?_, h.kMax_eq, paid_add h.le c, nofun, .inl rfl, Nat.zero_le _, ?_⟩
    · rw [Nat.zero_sub, hzero, Nat.max_zero]
      exact h.kMin_eq
    · rw [Plan.foundTo_zero, Plan.blockedTo_zero]
      exact h.log
  refine loop_meets_of_measure (fun b ↦ ∃ j, Stage S tr n d I p c j (x + cost tr) b) (turnsLeft tr)
    (fun b hb ↦ ?_) fuel _ ⟨0, hstart⟩ ?_
  · obtain ⟨j, hb⟩ := hb
    refine (batchTurn_turnsTo hs hp hc ha hb).imp fun r hr ↦ ?_
    cases r with
    | inl b' => exact hr
    | inr out => exact hr
  · refine lt_of_le_of_lt ?_ hfuel
    rw [← h.kMax_eq]
    refine Nat.add_le_add (Nat.sub_le _ _) ((Explored.remaining_le _ _).trans ?_)
    exact Nat.pow_le_pow_right Nat.two_pos (card_gates_le (List.Subset.refl _))

theorem range'_split {nMax c : ℕ} {done rest : List ℕ} (h : done ++ c :: rest = List.range' 1 nMax) :
    c = done.length + 1 ∧ done.length < nMax := by
  have hlen : done.length + (rest.length + 1) = nMax := by
    rw [← List.length_cons, ← List.length_append, h, List.length_range']
  have hget : (List.range' 1 nMax)[done.length]? = some c := by
    rw [← h, List.getElem?_append_right le_rfl, Nat.sub_self]
    rfl
  rw [List.getElem?_range' (by omega)] at hget
  have heq := Option.some.inj hget
  omega

/-- What a batch may fail with: too many variables; an assertion, when the bounds are the wrong way
round, when it comes to a step where the circuit is bad as it is, or to one beyond the frames that an
ID can be primed to. -/
def BatchStops (tr : TransitionRelation) (opts : BMCOptions) (nMax x : ℕ) (e : Failure) : Prop :=
  (e = .narrowed ∨ e = .idsExhausted) ∧ 2 ^ 32 < x + nMax * cost tr ∨
    e = .assertion ∧ (opts.mcsBmcKMax < opts.mcsBmcKMin ∨ ∅ ∈ (plan tr opts nMax).blocked ∨
      ∃ c < nMax, maxPrimes ≤ (plan tr opts c).lastStep tr (c + 1))

theorem not_batchStops {top : ℕ} (hle : opts.mcsBmcKMin ≤ opts.mcsBmcKMax)
    (hbad : ∀ k, ¬ tr.FreedBadAt ∅ k) (hids : x + top * cost tr ≤ 2 ^ 32)
    (hdeep : opts.mcsBmcKMax + top < maxPrimes) (e : Failure) : ¬ BatchStops tr opts top x e := by
  rintro (⟨-, hmany⟩ | ⟨-, hwrong | hempty | ⟨c, hc, hstep⟩⟩)
  · exact absurd hmany hids.not_gt
  · exact absurd hwrong hle.not_gt
  · exact empty_notMem_blocked hbad top hempty
  · have hlast := hstep.trans Plan.lastStep_le
    have hkMax := (plan_kMax_le c : (plan tr opts c).kMax ≤ _)
    omega

def nMax (tr : TransitionRelation) (opts : BMCOptions) (m : ℕ) : ℕ :=
  min (min m tr.gateIDs.length) opts.mcsBmcNMax

theorem findBatch_begun (hs : Grounds V tr n d I fail) {m : ℕ} {f₀ : BMCCorrectionSetFinder X}
    (hstops : ∀ e, BatchStops tr opts (nMax tr opts m) x e → fail e)
    (h : Begun S tr n d I (plan tr opts 0) x ([], f₀)) {fuel : ℕ}
    (hfuel : opts.mcsBmcKMax + tr.gateIDs.length + 2 ^ tr.gateIDs.length < fuel) :
    Meets (Begun S tr n d I (plan tr opts (nMax tr opts m)) (x + nMax tr opts m * cost tr)) fail
      (findBatch S V opts fuel f₀ m) := by
  have hle : nMax tr opts m ≤ tr.gateIDs.length := (min_le_left _ _).trans (min_le_right _ _)
  have hstart : Begun S tr n d I (plan tr opts 0) (x + 0 * cost tr) ([], f₀) := by
    rw [Nat.zero_mul, Nat.add_zero]
    exact h
  unfold findBatch
  rw [h.rep.numGates hs.debugs]
  change Meets _ fail ((List.range' 1 (nMax tr opts m)).foldlM (fun s n ↦ findBatchAt S V fuel n s) ([], f₀))
  generalize nMax tr opts m = top at hstops hle ⊢
  have hfold : Meets (Begun S tr n d I (plan tr opts (List.range' 1 top).length)
      (x + (List.range' 1 top).length * cost tr)) fail
      ((List.range' 1 top).foldlM (fun s n ↦ findBatchAt S V fuel n s) ([], f₀)) := by
    refine foldlM_meets (fun done ↦ Begun S tr n d I (plan tr opts done.length) (x + done.length * cost tr))
      ([], f₀) hstart ?_
    intro done c rest s hl hs'
    obtain ⟨rfl, hlt⟩ := range'_split hl
    rw [List.length_append, List.length_singleton, Nat.succ_mul, ← Nat.add_assoc]
    have hkMax : (plan tr opts done.length).kMax ≤ opts.mcsBmcKMax + done.length := plan_kMax_le _
    refine findBatchAt_begun hs (plan_closed _) (Nat.succ_pos _) ⟨?_, ?_, ?_, ?_⟩ hs' (by omega)
    · rcases Nat.lt_or_ge opts.mcsBmcKMax opts.mcsBmcKMin with hwrong | hright
      · exact .inr (hstops _ (.inr ⟨rfl, .inl hwrong⟩))
      · exact .inl (plan_bounds hright _)
    · intro hmany
      have hmul := Nat.mul_le_mul_right (cost tr) hlt
      rw [Nat.succ_mul] at hmul
      exact ⟨hstops _ (.inl ⟨.inl rfl, by omega⟩), hstops _ (.inl ⟨.inr rfl, by omega⟩)⟩
    · exact fun hdeep ↦ hstops _ (.inr ⟨rfl, .inr (.inr ⟨_, hlt, hdeep⟩)⟩)
    · exact fun hempty ↦ hstops _ (.inr ⟨rfl, .inr (.inl (plan_blocked_mono hlt hempty))⟩)
  rw [List.length_range'] at hfold
  exact hfold

/-- When nothing that can be found lies inside anything else, nothing is found late. -/
theorem Logged.noneLate {sets : List CorrectionSet} (h : Logged S d canFind blocked (sets.map List.toFinset))
    (hanti : IsAntichain (· ⊆ ·) canFind) : NoneLate sets := by
  refine List.pairwise_of_forall_mem_list fun u hu v hv hvu ↦ ?_
  exact hanti (h.sound _ (List.mem_map_of_mem hv)) (h.sound _ (List.mem_map_of_mem hu)) hvu.ne hvu.subset

/-- A solver that prefers a set with another inside makes the batch find the other one late. -/
theorem Logged.late {sets : List CorrectionSet} (h : Logged S d canFind blocked (sets.map List.toFinset))
    (hS : S.Prefers fun σ ↦ (d.selected σ).toFinset = u) (hu : u ∈ canFind) (ht : t ∈ blocked)
    (htu : t ⊂ u) : ¬ NoneLate sets := by
  intro hnone
  obtain ⟨before, after, hsets, hbefore⟩ := h.preferred u hu hS
  obtain ⟨v, hv, hvt⟩ := not_unblocked.mp (h.complete t ht)
  have hvu : v ⊂ u := lt_of_le_of_lt hvt htu
  have hpairs : (sets.map List.toFinset).Pairwise fun u v ↦ ¬ v ⊂ u := List.pairwise_map.mpr hnone
  rw [hsets, List.pairwise_append, List.pairwise_cons] at hpairs
  rw [hsets, List.mem_append, List.mem_cons] at hv
  rcases hv with hv | rfl | hv
  · exact hbefore v hv hvu.subset
  · exact hvu.ne rfl
  · exact hpairs.2.1.1 v hv hvu

theorem begun_new {vm : VariableManager} {x₀ : X} (hvm : vm.Inv)
    (hle : n + 4 * tr.gateIDs.length ≤ vm.nextID) (hx : I x₀ vm) :
    Begun S tr n d I (plan tr opts 0) vm.nextID ([], new opts vm d x₀) :=
  ⟨rep_new hvm hle hx, rfl, rfl, le_rfl, nofun, nofun, nofun⟩

/-- A batch finds no part of a set after the set, whatever the solver, exactly when none of the sets
that it can find lies inside another. -/
theorem findBatch_noneLate (V : Debugger (X × VariableManager)) (I : X → VariableManager → Prop)
    (opts : BMCOptions) (tr : TransitionRelation) (hwf : tr.WellFormed)
    (hplain : tr.gateCNF = AndGate.toCNF) (hmany : tr.gateIDs.length < cardinalityInf)
    (vm : VariableManager) (hvm : vm.Inv) (hold : ∀ v ∈ tr.signals, v < vm.nextID)
    (d : DebugTransitionRelation) (vm₀ : VariableManager) (hd : fromRelation vm tr = .ok (d, vm₀))
    (fail : Failure → Prop) (hV : Yields V tr I fail) (x₀ : X) (hx : I x₀ vm₀) (m fuel : ℕ)
    (hfuel : opts.mcsBmcKMax + tr.gateIDs.length + 2 ^ tr.gateIDs.length < fuel) :
    (IsAntichain (· ⊆ ·) (plan tr opts (nMax tr opts m)).found → ∀ S, Meets (fun r ↦ NoneLate r.1)
        (fun e ↦ fail e ∨ BatchStops tr opts (nMax tr opts m) vm₀.nextID e)
        (findBatch S V opts fuel (new opts vm₀ d x₀) m)) ∧
      (¬ IsAntichain (· ⊆ ·) (plan tr opts (nMax tr opts m)).found → ∃ S, Meets (fun r ↦ ¬ NoneLate r.1)
        (fun e ↦ fail e ∨ BatchStops tr opts (nMax tr opts m) vm₀.nextID e)
        (findBatch S V opts fuel (new opts vm₀ d x₀) m)) := by
  obtain ⟨hdebugs, hvm₀, hnext⟩ := post_of_ok
    ((fromRelation_debugs hwf hplain hvm hold).weaken fun _ _ ↦ trivial) hd
  have hs : Grounds V tr vm.nextID d I fun e ↦ fail e ∨ BatchStops tr opts (nMax tr opts m) vm₀.nextID e :=
    ⟨hdebugs, hmany, hV.weaken fun _ ↦ .inl⟩
  have hbatch := fun S ↦ findBatch_begun (S := S) hs (fun _ ↦ .inr) (begun_new hvm₀ hnext.ge hx) hfuel
  constructor
  · exact fun hanti S ↦ (hbatch S).imp fun r hr ↦ hr.log.noneLate hanti
  · intro hchain
    unfold IsAntichain Set.Pairwise at hchain
    push Not at hchain
    obtain ⟨t, ht, u, hu, hne, htu⟩ := hchain
    have hsub : t ⊂ u := Finset.ssubset_iff_subset_ne.mpr ⟨not_not.mp htu, hne⟩
    have hS := SAT.Solver.preferring_prefers fun σ ↦ (d.selected σ).toFinset = u
    exact ⟨_, (hbatch _).imp fun r hr ↦ hr.log.late hS hu ((plan_closed _).found ht) hsub⟩

end BMCCorrectionSetFinder

/-- The state after six calls of `getNewID`. -/
def sixVars : VariableManager where
  nextID := 16
  vars := [(14, 0), (12, 0), (10, 0), (8, 0), (6, 0), (4, 0), (2, 0)]
  internalToExternal := [(2, 0)]
  externalToInternal := [(0, 2)]

theorem sixVars_inv : sixVars.Inv := by
  have hstep : ∀ vm vm' : VariableManager, ∀ y, vm.Inv → vm.getNewID 0 = .ok (y, vm') → vm'.Inv := by
    intro vm vm' y h hr
    have hm : Meets _ (fun _ ↦ True) (vm.getNewID 0) := getNewID_zero_meets h fun _ ↦ trivial
    exact (hm.of_ok hr).2.2
  exact hstep _ _ _ (hstep _ _ _ fourVars_inv rfl) rfl

/-- A gate that is bad when another gate was high one step before and a third one is high, which
has the value of the first three steps before. -/
def staged : TransitionRelation where
  bad := 14
  latches := [⟨4, 10, idFalse⟩, ⟨6, 4, idFalse⟩, ⟨8, 6, idFalse⟩]
  gates := [⟨10, 2, 2⟩, ⟨12, 8, 8⟩, ⟨14, 4, 12⟩]
  latchIDs := [4, 6, 8]
  inputIDs := []
  gateIDs := [10, 12, 14]
  constraints := []
  gateCNF := AndGate.toCNF

theorem staged_wellFormed : staged.WellFormed where
  bad := by decide
  gates := by decide
  latches := by decide
  reset := by decide
  constraints := by decide
  ands := by decide
  latchIDs_eq := rfl
  gateIDs_eq := rfl
  isVar := by decide
  nodup := by decide
  next := by decide
  constraints_defined := by decide
  bad_defined := by decide
  rhs_defined := by decide
  gates_computed := by
    refine ⟨id, fun g hg ↦ ⟨_, TransitionRelation.computes_toCNF rfl ?_ ?_ ?_⟩⟩
    · revert g hg
      decide
    all_goals
      revert g hg
      unfold TransitionRelation.Below
      decide

def Suffices (D : Finset ℕ) (k : ℕ) : Prop := 14 ∈ D ∨ 1 ≤ k ∧ 10 ∈ D ∧ (12 ∈ D ∨ 3 ≤ k)

instance (D : Finset ℕ) (k : ℕ) : Decidable (Suffices D k) := by
  unfold Suffices
  infer_instance

theorem suffices_of_freedBadAt {D : Finset ℕ} {k : ℕ} (h : staged.FreedBadAt D k) : Suffices D k := by
  obtain ⟨x, hx, hbad⟩ := h
  have hfirst : ∀ l ∈ staged.latches, x 0 l.id = false := by
    intro l hl
    have hreset : ∀ l ∈ staged.latches, l.reset = idFalse := by decide
    rw [hx.init l hl (by rw [hreset l hl]; decide), hreset l hl]
    exact litVal_idFalse.trans (hx.const 0 (Nat.zero_le _))
  have hnext : ∀ l ∈ staged.latches, ∀ i ≤ k, x (i + 1) l.id = x i l.next := by
    intro l hl i hi
    have heven : ∀ l ∈ staged.latches, l.next % 2 = 0 := by decide
    rw [hx.step i (by omega) l hl, litVal_of_even (heven l hl)]
  have hgate : ∀ g ∈ staged.gates, g.lhs ∉ D → ∀ i ≤ k, x i g.lhs = (x i g.rhs0 && x i g.rhs1) := by
    intro g hg hno i hi
    have heven : ∀ g ∈ staged.gates, g.lhs % 2 = 0 ∧ g.rhs0 % 2 = 0 ∧ g.rhs1 % 2 = 0 := by decide
    obtain ⟨hlhs, h0, h1⟩ := heven g hg
    rw [← litVal_of_even (σ := x i) hlhs, ← litVal_of_even (σ := x i) h0, ← litVal_of_even (σ := x i) h1]
    exact (hx.frame i (by omega)).gates g hg hno
  by_contra hno
  unfold Suffices at hno
  push Not at hno
  obtain ⟨h14, hrest⟩ := hno
  have hhigh : x k 14 = true := (litVal_of_even rfl).symm.trans hbad
  rw [hgate ⟨14, 4, 12⟩ (by decide) h14 k le_rfl, Bool.and_eq_true] at hhigh
  obtain ⟨hone, htwo⟩ := hhigh
  dsimp only at hone htwo
  cases k with
  | zero => exact Bool.false_ne_true ((hfirst ⟨4, 10, idFalse⟩ (by decide)).symm.trans hone)
  | succ k =>
    rw [hnext ⟨4, 10, idFalse⟩ (by decide) k (by omega)] at hone
    have h10 : 10 ∈ D := by
      by_contra h10
      rw [hgate ⟨10, 2, 2⟩ (by decide) h10 k (by omega)] at hone
      have hlow : x k 2 = false := hx.const k (by omega)
      rw [hlow] at hone
      exact Bool.false_ne_true hone
    obtain ⟨h12, hlt⟩ := hrest (by omega) h10
    rw [hgate ⟨12, 8, 8⟩ (by decide) h12 (k + 1) le_rfl, Bool.and_self,
      hnext ⟨8, 6, idFalse⟩ (by decide) k (by omega)] at htwo
    have hlow : x k 6 = false := by
      cases k with
      | zero => exact hfirst ⟨6, 4, idFalse⟩ (by decide)
      | succ k =>
        obtain rfl : k = 0 := by omega
        rw [hnext ⟨6, 4, idFalse⟩ (by decide) 0 (by omega)]
        exact hfirst ⟨4, 10, idFalse⟩ (by decide)
    exact Bool.false_ne_true (hlow.symm.trans htwo)

theorem freedBadAt_of_high {D : Finset ℕ} {k : ℕ} (high : ℕ → List ℕ)
    (hconst : ∀ i ≤ k + 1, idFalse ∉ high i) (hinit : staged.IsInit fun v ↦ decide (v ∈ high 0))
    (hframe : ∀ i < k + 1, ∀ g ∈ staged.gates, g.lhs ∉ D → litVal (fun v ↦ decide (v ∈ high i)) g.lhs =
      (litVal (fun v ↦ decide (v ∈ high i)) g.rhs0 && litVal (fun v ↦ decide (v ∈ high i)) g.rhs1))
    (hstep : ∀ i < k + 1, staged.Step (fun v ↦ decide (v ∈ high i)) fun v ↦ decide (v ∈ high (i + 1)))
    (hbad : litVal (fun v ↦ decide (v ∈ high k)) staged.bad = true) : staged.FreedBadAt D k := by
  refine ⟨fun i v ↦ decide (v ∈ high i), ⟨fun i hi ↦ decide_eq_false (hconst i hi), hinit,
    fun i hi ↦ ⟨decide_eq_false (hconst i hi.le), fun g hg hno ↦ ?_⟩, hstep⟩, hbad⟩
  exact hframe i hi g hg fun hin ↦ hno (Finset.mem_coe.mpr hin)

theorem freedBadAt_staged_zero : staged.FreedBadAt {14} 0 :=
  freedBadAt_of_high (fun _ ↦ [14]) (by decide) (by decide) (by decide) (by decide) rfl

theorem freedBadAt_staged_one : staged.FreedBadAt {10, 12} 1 :=
  freedBadAt_of_high (fun i ↦ [[10, 12], [4, 10, 12, 14]].getD i [4, 6, 10, 12, 14])
    (by decide) (by decide) (by decide) (by decide) rfl

theorem freedBadAt_staged_three : staged.FreedBadAt {10} 3 :=
  freedBadAt_of_high (fun i ↦ [[10], [4, 10], [4, 6, 10]].getD i [4, 6, 8, 10, 12, 14])
    (by decide) (by decide) (by decide) (by decide) rfl

theorem not_freedBadAt_staged {k : ℕ} : ¬ staged.FreedBadAt ∅ k := by
  intro h
  have hno : ∀ k, ¬ Suffices ∅ k := by simp [Suffices]
  exact hno k (suffices_of_freedBadAt h)

theorem safe_staged : ∀ k, ¬ staged.FreedBadAt ∅ k := fun _ ↦ not_freedBadAt_staged

theorem fromRelation_staged : ∃ d vm, fromRelation sixVars staged = .ok (d, vm) ∧
    Debugs staged sixVars.nextID d ∧ vm.Inv ∧ vm.nextID = 28 := by
  have hmade := fromRelation_debugs staged_wellFormed rfl sixVars_inv (by decide)
  cases hr : fromRelation sixVars staged with
  | ok r =>
    rw [hr] at hmade
    exact ⟨r.1, r.2, rfl, hmade⟩
  | error e =>
    rw [hr] at hmade
    exact absurd hmade.2 (by decide)

namespace BMCCorrectionSetFinder

theorem not_within_staged {c k : ℕ} {t : Finset ℕ}
    (h : ∀ u ∈ t.powerset, u.card ≤ c → ∀ i < k, ¬ Suffices u i) : ¬ Within staged c k t :=
  fun ⟨u, hu, _, hcard, i, hi, hbad⟩ ↦
    h u (Finset.mem_powerset.mpr hu) hcard i hi (suffices_of_freedBadAt hbad)

/-- Where single gates can give up at once they do: `{14}` is all there is up to step 2. -/
theorem lastSoln_staged : (plan staged ⟨3, 0, 2, false⟩ 0).lastSoln staged 1 2 = 0 := by
  have hquiet : ∀ k, 0 < k → k ≤ 2 → ∀ t, ¬ (plan staged ⟨3, 0, 2, false⟩ 0).Finds staged 1 k t := by
    intro k hpos hk t ht
    have honly : ∀ t ∈ staged.gateIDs.toFinset.powerset, t.card ≤ 1 → ∀ k ≤ 2, Suffices t k → {14} ⊆ t := by
      decide
    have hin := honly t (Finset.mem_powerset.mpr ht.subset) ht.card_le k hk (suffices_of_freedBadAt ht.bad)
    exact ht.new (.inr ⟨{14}, hin, by decide, by decide, 0, hpos, freedBadAt_staged_zero⟩)
  rw [Plan.lastSoln_of_quiet (hquiet 2 (by decide) le_rfl),
    Plan.lastSoln_of_quiet (hquiet 1 (by decide) (by decide))]
  exact Nat.le_zero.mp Plan.lastSoln_le

/-- The search for single gates gives up after step 2, the one for pairs goes on to step 3. -/
theorem chain_staged : {10} ∈ (plan staged ⟨3, 0, 2, false⟩ 2).found ∧
    {10, 12} ∈ (plan staged ⟨3, 0, 2, false⟩ 2).found := by
  have hup : (plan staged ⟨3, 0, 2, false⟩ 0).GivesUp staged 1 2 := by
    unfold Plan.GivesUp
    rw [lastSoln_staged]
    decide
  have hlast : (plan staged ⟨3, 0, 2, false⟩ 0).lastStep staged 1 = 2 := by
    refine Plan.lastStep_eq_of_givesUp (by decide : 2 ≤ 3) (fun i hi hno ↦ ?_) hup
    have hlate := hno.1
    omega
  have hkMax : (plan staged ⟨3, 0, 2, false⟩ 1).kMax = 3 :=
    (Plan.next_kMax_of_givesUp (hlast.symm ▸ hup)).trans (congrArg Nat.succ hlast)
  have hfinds : ∀ k t, t ∈ staged.gateIDs.toFinset.powerset → t.card ≤ 2 → staged.FreedBadAt t k →
      (∀ u ∈ t.powerset, u.card ≤ 1 → ∀ i < 3, ¬ Suffices u i) →
      (∀ u ∈ t.powerset, u.card ≤ 2 → ∀ i < k, ¬ Suffices u i) →
      (plan staged ⟨3, 0, 2, false⟩ 1).Finds staged 2 k t := by
    intro k t ht hcard hbad hone htwo
    refine ⟨Finset.mem_powerset.mp ht, hcard, hbad, ?_⟩
    rintro ((hno | hw) | hw)
    · exact hno
    · rw [hlast] at hw
      exact not_within_staged hone hw
    · exact not_within_staged htwo hw
  have hten := hfinds 3 {10} (by decide) (by decide) freedBadAt_staged_three (by decide) (by decide)
  have hpair := hfinds 1 {10, 12} (by decide) (by decide) freedBadAt_staged_one (by decide) (by decide)
  have hthree : 3 ≤ (plan staged ⟨3, 0, 2, false⟩ 1).lastStep staged 2 := by
    refine Plan.le_lastStep hkMax.ge fun i hi hno ↦ ?_
    have hlate := hno.1
    have hsoln : 1 ≤ (plan staged ⟨3, 0, 2, false⟩ 1).lastSoln staged 2 i :=
      Plan.le_lastSoln hpair (by omega)
    omega
  exact ⟨.inr ⟨3, Nat.lt_succ_of_le hthree, hten⟩, .inr ⟨1, Nat.lt_succ_of_le (le_trans (by decide) hthree), hpair⟩⟩

/-- With no give-up before the last step all steps are come to for all cardinalities. -/
theorem antichain_staged : IsAntichain (· ⊆ ·) (plan staged ⟨4, 4, 2, false⟩ 2).found := by
  have hten : (plan staged ⟨4, 4, 2, false⟩ 0).Finds staged 1 3 {10} := by
    refine ⟨by decide, by decide, freedBadAt_staged_three, ?_⟩
    rintro (hno | hw)
    · exact hno
    · exact not_within_staged (by decide) hw
  have hgo : ∀ i, i ≤ 4 → ¬ (plan staged ⟨4, 4, 2, false⟩ 0).GivesUp staged 1 i := by
    intro i hi hno
    obtain ⟨hlate, hmin⟩ := hno
    have hfour : 4 ≤ i + 1 := hmin
    have hsoln : 3 ≤ (plan staged ⟨4, 4, 2, false⟩ 0).lastSoln staged 1 i :=
      Plan.le_lastSoln hten (by omega)
    omega
  have hlast : (plan staged ⟨4, 4, 2, false⟩ 0).lastStep staged 1 = 4 := Plan.lastStep_eq_kMax hgo
  have hkMax : (plan staged ⟨4, 4, 2, false⟩ 1).kMax = 4 :=
    Plan.next_kMax_of_going (hlast.symm ▸ hgo 4 le_rfl)
  refine isAntichain_found safe_staged fun i hi ↦ ?_
  obtain rfl : i = 0 := by omega
  rw [hlast]
  exact Plan.lastStep_le.trans hkMax.le

theorem findBatch_noneLate_staged : ∃ d vm x₀, fromRelation sixVars staged = .ok (d, vm) ∧
    IC3Debugger.new vm d = .ok x₀ ∧
    (∃ r, findBatch .exhaustive (IC3Debugger.shared .plain IC3.IC3Solver.fuelBound).paired ⟨4, 4, 2, false⟩ 20
      (new ⟨4, 4, 2, false⟩ vm d x₀) 2 = .ok r ∧ NoneLate r.1) ∧
    ∃ S r, findBatch S (IC3Debugger.shared .plain IC3.IC3Solver.fuelBound).paired ⟨3, 0, 2, false⟩ 20
      (new ⟨3, 0, 2, false⟩ vm d x₀) 2 = .ok r ∧ ¬ NoneLate r.1 := by
  obtain ⟨d, vm, hok, hdebugs, hvm, hnext⟩ := fromRelation_staged
  have hmade : Meets _ (fun _ ↦ False) (IC3Debugger.new vm d) :=
    IC3Debugger.new_meets (E := .plain) hdebugs hvm hnext.ge
  obtain ⟨x₀, hx₀, -⟩ := hmade.exists_ok
  have hV := yields_ic3 (E := .plain) hdebugs (by decide) (by decide) fun _ ↦ le_rfl
  have hright := fun opts hfuel ↦ findBatch_noneLate _ _ opts staged staged_wellFormed rfl (by decide) sixVars
    sixVars_inv (by decide) d vm hok _ hV x₀ (waiting_new hdebugs hvm hnext.ge hx₀) 2 20 hfuel
  refine ⟨d, vm, x₀, hok, hx₀, ?_, ?_⟩
  · have hmeets := (hright ⟨4, 4, 2, false⟩ (by decide)).1 antichain_staged .exhaustive
    refine (hmeets.weaken fun e he ↦ ?_).exists_ok
    exact not_batchStops (by decide) safe_staged (hnext ▸ by decide) (by decide) e (he.resolve_left id)
  · have hchain : ¬ IsAntichain (· ⊆ ·) (plan staged ⟨3, 0, 2, false⟩ 2).found := fun h ↦
      h chain_staged.1 chain_staged.2 (by decide) (by decide)
    obtain ⟨S, hmeets⟩ := (hright ⟨3, 0, 2, false⟩ (by decide)).2 hchain
    refine ⟨S, (hmeets.weaken fun e he ↦ ?_).exists_ok⟩
    exact not_batchStops (by decide) safe_staged (hnext ▸ by decide) (by decide) e (he.resolve_left id)

/-- After `{10, 12}` the batch finds `{10}`. -/
theorem findBatch_noneLate_fails : ¬ ∀ (S : SAT.Solver) (E : IC3.Engines) (fuelIC3 : IC3.IC3Solver → ℕ),
    (∀ st, st.fuelBound ≤ fuelIC3 st) → ∀ (opts : BMCOptions) (tr : TransitionRelation), tr.WellFormed →
    tr.gateCNF = AndGate.toCNF → tr.constraints = [] → tr.gateIDs.length < cardinalityInf →
    ∀ vm : VariableManager, vm.Inv → (∀ v ∈ tr.signals, v < vm.nextID) → ∀ d vm₀,
    fromRelation vm tr = .ok (d, vm₀) → ∀ x₀, IC3Debugger.new vm₀ d = .ok x₀ → ∀ m fuel results f',
    findBatch S (IC3Debugger.shared E fuelIC3).paired opts fuel (new opts vm₀ d x₀) m = .ok (results, f') →
    NoneLate results := by
  intro hall
  obtain ⟨d, vm, hok, hdebugs, hvm, hnext⟩ := fromRelation_staged
  have hmade : Meets _ (fun _ ↦ False) (IC3Debugger.new vm d) :=
    IC3Debugger.new_meets (E := .plain) hdebugs hvm hnext.ge
  obtain ⟨x₀, hx₀, -⟩ := hmade.exists_ok
  have hV := yields_ic3 (E := .plain) hdebugs (by decide) (by decide) fun _ ↦ le_rfl
  have hS := SAT.Solver.preferring_prefers fun σ ↦ (d.selected σ).toFinset = {10, 12}
  have hs : Grounds _ staged sixVars.nextID d _ _ := ⟨hdebugs, by decide, hV⟩
  have hbegun : Begun (.preferring fun σ ↦ (d.selected σ).toFinset = {10, 12}) staged sixVars.nextID d
      (Waiting .plain IC3.IC3Solver.fuelBound hdebugs) (plan staged ⟨3, 0, 2, false⟩ 0) vm.nextID ([], new ⟨3, 0, 2, false⟩ vm d x₀) :=
    begun_new hvm hnext.ge (waiting_new hdebugs hvm hnext.ge hx₀)
  have hmeets := findBatch_begun (m := 2) hs (fun e he ↦ absurd he
    (not_batchStops (by decide) safe_staged (hnext ▸ by decide) (by decide) e)) hbegun
    (by decide : 3 + 3 + 2 ^ 3 < 20)
  obtain ⟨r, hr, hlog⟩ := hmeets.exists_ok
  refine hlog.log.late hS chain_staged.2 ((plan_closed 2).found chain_staged.1) (by decide) ?_
  exact hall _ _ _ (fun _ ↦ le_rfl) _ staged staged_wellFormed rfl rfl (by decide) sixVars sixVars_inv
    (by decide) d vm hok x₀ hx₀ 2 20 r.1 r.2 hr

end BMCCorrectionSetFinder

end PME
