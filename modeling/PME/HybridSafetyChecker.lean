import PME.IC3.Decision
import PME.IC3.Restrictions

namespace PME

open Outcome TransitionRelation IC3

structure HybridSafetyChecker where
  kmax : ℕ
  ic3 : IC3Solver
  bmc : BMCSolver

namespace HybridSafetyChecker

def new (kmax : ℕ) (vars : VariableManager) (tr : TransitionRelation) : Result HybridSafetyChecker := do
  return ⟨kmax, ← IC3Solver.new vars tr, .new tr⟩

def setKMax (s : HybridSafetyChecker) (k : ℕ) : HybridSafetyChecker := { s with kmax := k }

def bmcSolve (S : SAT.Solver) (s : HybridSafetyChecker) : Result (SafetyResult × BMCSolver) :=
  if s.kmax > 0 then s.bmc.solve S s.kmax [] else return (⟨.unknown, [], []⟩, s.bmc)

def prove (E : Engines) (fuel : ℕ) (s : HybridSafetyChecker) : Result (SafetyResult × HybridSafetyChecker) := do
  let (result, bmc) ← s.bmcSolve E.sat
  let s := { s with bmc := bmc }
  if result.result = .unsafeAt then return (result, s)
  else do
    ensure (result.result == .unknown)
    let (result, ic3) ← (IC3Solver.prove E fuel s.ic3).2
    return (result, { s with ic3 := ic3 })

variable {E : Engines} {tr : TransitionRelation} {first : ℕ} {s s' : HybridSafetyChecker}
  {fail : Failure → Prop}

/-- The checkers that calls make, of which any number are to `prove`. Others make variables too. -/
inductive Reached (E : Engines) (tr : TransitionRelation) (first : ℕ) : HybridSafetyChecker → Prop
  | new {kmax : ℕ} {vars : VariableManager} {s : HybridSafetyChecker} (hvars : vars.Inv)
      (hfirst : first ≤ vars.nextID) (hr : HybridSafetyChecker.new kmax vars tr = .ok s) : Reached E tr first s
  | others {s : HybridSafetyChecker} {vars : VariableManager} (h : Reached E tr first s) (hvars : vars.Inv)
      (hle : s.ic3.vars.nextID ≤ vars.nextID) :
      Reached E tr first { s with ic3 := { s.ic3 with vars := vars } }
  | setKMax {s : HybridSafetyChecker} (h : Reached E tr first s) (k : ℕ) : Reached E tr first (s.setKMax k)
  | prove {s s' : HybridSafetyChecker} {fuel : ℕ} {r : SafetyResult} (h : Reached E tr first s)
      (hr : s.prove E fuel = .ok (r, s')) : Reached E tr first s'

structure Rep (hwf : tr.WellFormed) (howned : FrameSolver.Owned tr first) (hfree : tr.constraints = [])
    (E : Engines) (s : HybridSafetyChecker) : Prop where
  ic3 : Session (.plain E hwf howned hfree) [] [] s.ic3
  bmc : BMCSolver.Ready tr [] s.bmc

theorem solveAt_answers (S : SAT.Solver) (assumps : Cube) (ks : List ℕ) (b : BMCSolver) :
    Meets (fun p ↦ p.1.result = .unsafeAt ∨ p.1.result = .unknown) (fun _ ↦ True)
      (BMCSolver.solveAt S assumps ks b) := by
  induction ks generalizing b with
  | nil => exact .inr rfl
  | cons k ks ih =>
    unfold BMCSolver.solveAt
    have hany : Meets (fun _ ↦ True) (fun _ ↦ True) (b.solveAtK S k assumps) :=
      meets_of_ok (fun _ ↦ trivial) fun _ _ ↦ trivial
    refine hany.bind fun p _ ↦ ?_
    dsimp only
    split
    · next hfails => exact .inl hfails
    · exact ih p.2

theorem bmcSolve_answers (S : SAT.Solver) (s : HybridSafetyChecker) :
    Meets (fun p ↦ p.1.result = .unsafeAt ∨ p.1.result = .unknown) (fun _ ↦ True) (s.bmcSolve S) := by
  unfold bmcSolve
  split
  · exact solveAt_answers S [] _ s.bmc
  · exact .inr rfl

theorem execution_of_badAt (hwf : tr.WellFormed) {k : ℕ} (h : tr.BadAt k) :
    BMCSolver.Execution tr [] [] k (k + 1) := by
  obtain ⟨x, hinit, hrun, hbad⟩ := h
  have hlits := hwf.toLitsValid
  have hsame : ∀ i < k + 1, SameSignals (frameOf (joinFrames x) i) (x i) := fun i hi ↦
    sameSignals_joinFrames (hrun i hi).1.const
  refine ⟨joinFrames x, joinFrames_idFalse x, ?_, isRun_joinFrames hlits hrun, satClauses_nil, satCube_nil, ?_⟩
  · exact hinit.congr hlits (hsame 0 (Nat.succ_pos k)).symm
  · exact (hsame k (Nat.lt_succ_self k)).litVal_eq hwf.bad ▸ hbad

/-- The bounded engine finds only what there is, and a bad initial frame if it is asked. -/
theorem bmcSolve_meets (S : SAT.Solver) (hwf : tr.WellFormed) (hfree : tr.constraints = [])
    (h : BMCSolver.Ready tr [] s.bmc) (hdeep : BMCSolver.Deep tr s.kmax → fail .assertion) :
    Meets (fun r ↦ BMCSolver.Ready tr [] r.2 ∧ (r.1.result = .unsafeAt → ¬ tr.Safe) ∧
      (r.1.result ≠ .unsafeAt → 0 < s.kmax → ¬ tr.BadAt 0)) fail (s.bmcSolve S) := by
  unfold bmcSolve
  split
  · have hext : ∀ k m, BMCSolver.Execution tr [] [] k (k + 1) → BMCSolver.Execution tr [] [] k m := by
      intro k m hex
      refine BMCSolver.Execution.extend hwf hfree (fun v hv ↦ ?_)
        (fun lit hl ↦ absurd hl List.not_mem_nil) m hex
      obtain ⟨cls, hcls, -⟩ := hv
      exact absurd hcls List.not_mem_nil
    refine (h.solveRange S hwf (fun cls hcls ↦ absurd hcls List.not_mem_nil) hext 0 hdeep).imp fun r hr ↦ ?_
    obtain ⟨hready, hfound, hnone⟩ := hr
    refine ⟨hready, fun hfails hsafe ↦ ?_, fun hno _ hbad ↦ ?_⟩
    · obtain ⟨k, -, htraces⟩ := hfound hfails
      obtain ⟨σ, -, hinit, hrun, -, -, hbad⟩ := htraces.execution
      exact hsafe k ⟨frameOf σ, hinit, hrun, hbad⟩
    · exact hnone hno 0 ⟨le_rfl, Nat.zero_le _⟩ (execution_of_badAt hwf hbad)
  · next hzero => exact ⟨h, nofun, fun _ hk ↦ absurd hk hzero⟩

def Decides (tr : TransitionRelation) (r : SafetyResult) : Prop :=
  (r.result = .safe ↔ tr.Safe) ∧ (r.result = .unsafeAt ↔ ¬ tr.Safe)

variable {hwf : tr.WellFormed} {howned : FrameSolver.Owned tr first} {hfree : tr.constraints = []}

def Unavoidable (tr : TransitionRelation) (e : Failure) : Prop :=
  e = .idsExhausted ∨ e = .assertion ∧ ∃ x, tr.IsInit x ∧ tr.IsFrame x ∧ litVal x tr.bad = true

/-- What stops a checker. The assertion is for one that does not ask the bounded engine, or asks it
for more frames than an ID can be primed to. -/
def Stops (tr : TransitionRelation) (kmax : ℕ) (e : Failure) : Prop :=
  e = .idsExhausted ∨ e = .assertion ∧
    (kmax = 0 ∧ (∃ x, tr.IsInit x ∧ tr.IsFrame x ∧ litVal x tr.bad = true) ∨ BMCSolver.Deep tr kmax)

theorem badAt_zero (hwf : tr.WellFormed) {x : Assignment} (hinit : tr.IsInit x) (hframe : tr.IsFrame x)
    (hbad : litVal x tr.bad = true) : tr.BadAt 0 := by
  obtain ⟨y, hy⟩ := exists_step hwf.latches_nodup x
  refine ⟨fun i ↦ if i = 0 then x else y, hinit, fun i hi ↦ ?_, hbad⟩
  obtain rfl : i = 0 := Nat.lt_one_iff.mp hi
  exact ⟨hframe, hy⟩

/-- What the unbounded engine answers by itself. Variables are only made. -/
theorem ic3_decides {ic3 : IC3Solver} (h : Session (.plain E hwf howned hfree) [] [] ic3) {fuel : ℕ}
    (hfuel : ic3.fuelBound ≤ fuel) :
    Meets (fun r ↦ Decides tr r.1 ∧ r.2.vars.Inv ∧ ic3.vars.nextID ≤ r.2.vars.nextID) (Unavoidable tr)
      (IC3Solver.prove E fuel ic3).2 := by
  have hends := session_proves h trivial (List.Subset.refl _) (Circuit.live_nil hfree) hfuel
    fun _ _ hno ↦ hno.elim
  have hgrows : Meets (fun r ↦ ic3.vars.nextID ≤ r.2.vars.nextID) (fun _ ↦ True)
      (IC3Solver.prove E fuel ic3).2 :=
    meets_of_ok (fun _ ↦ trivial) fun r hr ↦ (proceeds_of_ok (proceeds_prove _) hr).vars
  refine ((hends.weaken fun e he ↦ ?_).and hgrows).imp fun r hr ↦ ?_
  · cases he with
    | inl hids => exact .inl hids
    | inr hblind =>
      obtain ⟨x, hx, hcube⟩ := hblind.2.initial
      exact .inr ⟨hblind.1, x, hx.1.1, hx.2, hcube _ List.mem_cons_self⟩
  · obtain ⟨⟨hproved, hsession⟩, hle⟩ := hr
    have hsafe := hproved.safe_iff trivial
    have hno := (hproved.decides trivial).2
    rw [Circuit.reaches_bad_iff] at hsafe hno
    exact ⟨⟨hsafe.trans not_not, hno⟩, hsession.between.rep.cons.vars, hle⟩

theorem Rep.prove (h : Rep hwf howned hfree E s) {fuel : ℕ} (hfuel : s.ic3.fuelBound ≤ fuel) :
    Meets (fun r ↦ Decides tr r.1 ∧ r.2.ic3.vars.Inv ∧ s.ic3.vars.nextID ≤ r.2.ic3.vars.nextID)
      (Stops tr s.kmax) (s.prove E fuel) := by
  unfold HybridSafetyChecker.prove
  have hbmc : Meets _ (Stops tr s.kmax) (s.bmcSolve E.sat) :=
    bmcSolve_meets E.sat hwf hfree h.bmc fun hdeep ↦ .inr ⟨rfl, .inr hdeep⟩
  refine (hbmc.and (bmcSolve_answers E.sat s)).bind fun r hr ↦ ?_
  obtain ⟨⟨hready, hfound, hfirst⟩, hanswer⟩ := hr
  dsimp only
  split
  · next hfails =>
    have hno := hfound hfails
    refine ⟨⟨iff_of_false (fun hsafe ↦ ?_) hno, iff_of_true hfails hno⟩, h.ic3.between.rep.cons.vars, le_rfl⟩
    exact SafetyAnswer.noConfusion (hfails.symm.trans hsafe)
  · next hfails =>
    rw [hanswer.resolve_left hfails, beq_self_eq_true, ensure_true, ok_bind]
    refine ((ic3_decides h.ic3 hfuel).weaken fun e he ↦ ?_).bind fun r' hr' ↦ hr'
    obtain rfl | ⟨rfl, x, hinit, hframe, hbad⟩ := he
    · exact .inl rfl
    · refine .inr ⟨rfl, .inl ⟨?_, x, hinit, hframe, hbad⟩⟩
      by_contra hk
      exact hfirst hfails (Nat.pos_of_ne_zero hk) (badAt_zero hwf hinit hframe hbad)

theorem Reached.rep (h : Reached E tr first s) : Rep hwf howned hfree E s := by
  induction h with
  | new hvars hfirst hr =>
    unfold HybridSafetyChecker.new at hr
    obtain ⟨ic3, hnew, hr⟩ := bind_eq_ok.mp hr
    obtain rfl := Except.ok.inj hr
    exact ⟨.new hvars hfirst hnew, BMCSolver.ready_new⟩
  | others _ hvars hle ih => exact ⟨.made ih.ic3 hvars hle, ih.bmc⟩
  | setKMax _ k ih => exact ⟨ih.ic3, ih.bmc⟩
  | @prove s s' fuel r _ hr ih =>
    unfold HybridSafetyChecker.prove at hr
    obtain ⟨⟨result, bmc⟩, hbmc, hr⟩ := bind_eq_ok.mp hr
    have hready := post_of_ok (bmcSolve_meets E.sat hwf hfree ih.bmc fun _ ↦ trivial) hbmc
    dsimp only at hr
    split at hr
    · obtain ⟨-, rfl⟩ := Prod.mk.inj (Except.ok.inj hr)
      exact ⟨ih.ic3, hready.1⟩
    · obtain ⟨-, -, hr⟩ := bind_eq_ok.mp hr
      obtain ⟨⟨result', ic3⟩, hic3, hr⟩ := bind_eq_ok.mp hr
      obtain ⟨-, rfl⟩ := Prod.mk.inj (Except.ok.inj hr)
      refine ⟨session_proved ih.ic3 (fun _ ↦ ⟨List.Subset.refl _, Circuit.live_nil hfree⟩)
        (fun _ _ hno ↦ hno.elim) hic3, hready.1⟩

/-- A new checker that asks the bounded engine answers, unless the IDs run out. -/
theorem prove_new (hwf : tr.WellFormed) (howned : FrameSolver.Owned tr first) (hfree : tr.constraints = [])
    {kmax : ℕ} (hk : 0 < kmax) {vars : VariableManager} (hvars : vars.Inv) (hfirst : first ≤ vars.nextID)
    {fuel : IC3Solver → ℕ} (hfuel : ∀ st, st.fuelBound ≤ fuel st) (hids : fail .idsExhausted)
    (hdeep : BMCSolver.Deep tr kmax → fail .assertion) :
    Meets (fun r ↦ Decides tr r.1 ∧ r.2.ic3.vars.Inv ∧ vars.nextID ≤ r.2.ic3.vars.nextID) fail (do
      let s ← new kmax vars tr
      s.prove E (fuel s.ic3)) := by
  have hnew : Meets (fun s ↦ s.kmax = kmax ∧ s.ic3.vars = vars ∧ Rep hwf howned hfree E s) fail
      (new kmax vars tr) := by
    have hic3 : Meets _ fail (IC3Solver.new vars tr) :=
      session_new (C := .plain E hwf howned hfree) hvars hfirst
    exact hic3.bind fun ic3 h ↦ ⟨rfl, h.2.2, h.1, BMCSolver.ready_new⟩
  refine hnew.bind fun s hs ↦ ?_
  obtain ⟨rfl, rfl, hrep⟩ := hs
  refine (hrep.prove (hfuel s.ic3)).weaken fun e he ↦ ?_
  obtain rfl | ⟨rfl, ⟨hzero, -⟩ | hfar⟩ := he
  · exact hids
  · exact absurd hzero hk.ne'
  · exact hdeep hfar

/-- After any calls, an attempt with enough fuel answers with what holds of the circuit. -/
theorem checker_decides (hwf : tr.WellFormed) (howned : FrameSolver.Owned tr first)
    (hfree : tr.constraints = []) (h : Reached E tr first s) {fuel : ℕ}
    (hfuel : s.ic3.fuelBound ≤ fuel) : Meets (fun r ↦ Decides tr r.1) (Stops tr s.kmax) (s.prove E fuel) :=
  ((h.rep : Rep hwf howned hfree E s).prove hfuel).imp fun _ ↦ And.left

theorem handOver_checker_decides : ∃ s, Reached .plain handOver 10 s ∧
    Meets (fun r ↦ Decides handOver r.1) (Stops handOver s.kmax) (s.prove .plain s.ic3.fuelBound) := by
  obtain ⟨s, hs⟩ : ∃ s, HybridSafetyChecker.new 4 .three handOver = .ok s := ⟨_, rfl⟩
  have hnew : Reached .plain handOver 10 s := .new VariableManager.inv_three le_rfl hs
  have h : Reached .plain handOver 10 (s.setKMax 0) := .setKMax hnew 0
  exact ⟨_, h, checker_decides handOver_wellFormed owned_handOver rfl h le_rfl⟩

end HybridSafetyChecker

end PME
