import PME.BMCTrace
import PME.IC3.Guarantees

namespace PME

open Outcome

namespace TransitionRelation

open FrameSequence

variable {tr : TransitionRelation} {x y : Assignment} {f : ℕ → Assignment} {n k : ℕ}
  {start : Assignment → Prop}

theorem IsRun.snoc (h : tr.IsRun n f) (hframe : tr.IsFrame (f n)) (hstep : tr.Step (f n) y) :
    tr.IsRun (n + 1) fun i ↦ if i ≤ n then f i else y := by
  intro i hi
  dsimp only
  rw [if_pos (Nat.le_of_lt_succ hi)]
  obtain rfl | hlt := Nat.eq_or_lt_of_le (Nat.le_of_lt_succ hi)
  · rw [if_neg (by omega)]
    exact ⟨hframe, hstep⟩
  · rw [if_pos (Nat.succ_le_of_lt hlt)]
    exact h i hlt

theorem exists_run (hframe : ∀ x, start x → tr.IsFrame x) (h : Reach start tr.Linked n x) :
    ∃ m f, start (f 0) ∧ tr.IsRun m f ∧ f m = x ∧ tr.IsFrame x := by
  induction h with
  | @start n x hx => exact ⟨0, fun _ ↦ x, hx, fun i hi ↦ absurd hi (Nat.not_lt_zero i), rfl, hframe x hx⟩
  | @step n x y _ hxy ih =>
    obtain ⟨m, f, hinit, hrun, rfl, hlast⟩ := ih
    refine ⟨m + 1, _, ?_, hrun.snoc hlast hxy.step, if_neg (Nat.not_succ_le_self m), hxy.snd⟩
    rwa [if_pos (Nat.zero_le m)]

theorem reach_of_run (hinit : start (f 0)) (hrun : tr.IsRun (n + 1) f) :
    Reach start tr.Linked n (f n) := by
  induction n with
  | zero => exact .start hinit
  | succ n ih =>
    have hlast := hrun n (by omega)
    refine .step (ih fun i hi ↦ hrun i (by omega)) ⟨hlast.1, (hrun (n + 1) (by omega)).1, hlast.2⟩

theorem reach_bad_iff (hwf : tr.WellFormed) :
    (∃ n x, Reach (fun x ↦ tr.IsInit x ∧ tr.IsFrame x) tr.Linked n x ∧ litVal x tr.bad = true) ↔
      ¬ tr.Safe := by
  constructor
  · intro hex hsafe
    obtain ⟨n, x, hx, hbad⟩ := hex
    obtain ⟨m, f, hinit, hrun, rfl, hframe⟩ := exists_run (fun _ hx ↦ hx.2) hx
    obtain ⟨w, hw⟩ := exists_step hwf.latches_nodup (f m)
    refine hsafe m ⟨_, ?_, hrun.snoc hframe hw, ?_⟩
    · rw [if_pos (Nat.zero_le m)]
      exact hinit.1
    · rwa [if_pos le_rfl]
  · intro hno
    obtain ⟨k, hk⟩ := not_forall_not.mp hno
    obtain ⟨f, hinit, hrun, hbad⟩ := hk
    exact ⟨k, f k, reach_of_run ⟨hinit, (hrun 0 (Nat.succ_pos k)).1⟩ hrun, hbad⟩

end TransitionRelation

namespace IC3

open TransitionRelation InductiveTrace IC3Solver FrameSequence Setting

variable {E : Engines} {tr : TransitionRelation} {first : ℕ} {base restr : List Cube} {st : IC3Solver}

/-- A target is reachable by steps from an initial state that the restrictions leave. -/
def Circuit.Reaches (C : Circuit) (restr : List Cube) (target : Cube) : Prop :=
  ∃ n x, Reach (fun x ↦ C.Init restr x ∧ C.tr.IsFrame x) C.tr.Linked n x ∧ satCube x target

/-- The failures that are left when the fuel is enough: the IDs run out, or the state of an initial
frame that is bad cannot be shown, since no latch is in any clause. -/
def Circuit.Unavoidable (C : Circuit) (restr : List Cube) (st : IC3Solver) (e : Failure) : Prop :=
  e = .idsExhausted ∨ e = .assertion ∧ (C.setting restr st).Blind st.trace [C.tr.bad]

theorem Setting.Answers.decides {C : Circuit} {r : SafetyResult} {st' : IC3Solver}
    (h : (C.setting restr st).Answers st [C.tr.bad] r st') (hs : C.sound) :
    r.result ≠ .unknown ∧ (r.result = .unsafeAt ↔ C.Reaches restr [C.tr.bad]) := by
  refine ⟨h.known, fun hunsafe ↦ (h.found hs hunsafe).reach hs, fun hex ↦ ?_⟩
  obtain ⟨n, x, hx, hbad⟩ := hex
  cases hres : r.result with
  | unsafeAt => rfl
  | unknown => exact absurd hres h.known
  | safe =>
    have hframe := (again_self (R := C.setting restr st) hx).2
    exact absurd hbad (h.closed hs hres x hframe ((h.good.sem hs).reach_inf hx))

theorem Setting.Answers.safe_iff {C : Circuit} {r : SafetyResult} {st' : IC3Solver}
    (h : (C.setting restr st).Answers st [C.tr.bad] r st') (hs : C.sound) :
    r.result = .safe ↔ ¬ C.Reaches restr [C.tr.bad] := by
  obtain ⟨hknown, hunsafe⟩ := h.decides hs
  rw [← not_congr hunsafe]
  cases hres : r.result with
  | safe => exact ⟨fun _ ↦ SafetyAnswer.noConfusion, fun _ ↦ rfl⟩
  | unsafeAt => exact ⟨SafetyAnswer.noConfusion, fun hno ↦ absurd rfl hno⟩
  | unknown => exact absurd hres hknown

theorem checkInitial_events (E : Engines) (target : Cube) (st : IC3Solver) :
    ∀ ev ∈ (checkInitial E target st).1, ev.label = .changed := by
  have hgoes : Journal.Goes (fun _ ↦ True) (fun ev ↦ ev.label = .changed) (fun _ _ ↦ True) (fun _ ↦ True)
      (checkInitial E target) st := by
    have hask : Journal.Goes (fun _ ↦ True) (fun ev ↦ ev.label = .changed) (fun _ _ ↦ True) (fun _ ↦ True)
        (ask E fun B vm trace cons ↦ cons.intersectionFull B vm trace (.fin 0) target) st := by
      unfold ask
      refine Journal.goes_get_bind ?_
      refine Journal.goes_lift_bind _ (meets_of_ok (fun _ ↦ trivial) fun _ _ ↦ trivial) fun r _ ↦ ?_
      exact Journal.goes_set_bind (Journal.goes_emit_bind (fun _ ↦ rfl) fun _ ↦ Journal.goes_pure trivial)
    unfold checkInitial
    refine hask.bind fun r st' _ ↦ ?_
    cases r with
    | none => exact Journal.goes_pure trivial
    | some p => exact Journal.goes_pure trivial
  exact (hgoes fun _ _ ↦ trivial).1

theorem session_proved {C : Circuit} {st' : IC3Solver} {r : SafetyResult} {fuel : ℕ}
    (h : Session C base restr st) (hbase : C.sound → restr ⊆ base ∧ C.Live restr)
    (hkept : ∀ ev ∈ (prove C.E fuel st).1, (C.setting restr st).Kept ev)
    (hr : (prove C.E fuel st).2 = .ok (r, st')) : Session C base restr st' := by
  have hover : (C.setting restr st).Over [C.tr.bad] := fun lit hl ↦
    List.mem_singleton.mp hl ▸ (C.setting restr st).bad
  have htarget : prove C.E fuel st = proveTarget C.E fuel [C.tr.bad] st := by
    have htr : st.tr = C.tr := h.between.rep.tr_eq
    rw [← htr]
    rfl
  exact .prove h hbase hover (fun _ ↦ rfl) (htarget ▸ hkept) (htarget ▸ hr)

theorem session_proves {C : Circuit} (h : Session C base restr st) (hs : C.sound) (hbase : restr ⊆ base)
    (hlive : C.Live restr) {fuel : ℕ} (hfuel : st.fuelBound ≤ fuel)
    (hkept : ∀ ev ∈ (prove C.E fuel st).1, (C.setting restr st).Kept ev) :
    Meets (fun r ↦ (C.setting restr st).Answers st [C.tr.bad] r.1 r.2 ∧ Session C base restr r.2)
      (C.Unavoidable restr st) (prove C.E fuel st).2 := by
  have hgood := h.between.good fun _ ↦ ⟨hbase, hlive⟩
  have hallows : (C.setting restr st).Allows (C.Unavoidable restr st) := ⟨.inl rfl, fun hno ↦ absurd hs hno⟩
  have hover : (C.setting restr st).Over [C.tr.bad] := fun lit hl ↦
    List.mem_singleton.mp hl ▸ (C.setting restr st).bad
  have hstart : ∀ e, (checkInitial C.E [C.tr.bad] st).2 = .error e → C.Unavoidable restr st e := by
    have hends := checkInitial_ends hgood hallows hover (fun hnil ↦ absurd hnil (List.cons_ne_nil _ _))
      fun _ hblind ↦ .inr ⟨rfl, hblind⟩
    intro e he
    refine (hends fun ev hev _ lit s heq ↦ ?_).2.of_error he
    exact Label.noConfusion ((checkInitial_events C.E [C.tr.bad] st ev hev).symm.trans heq)
  have hends := prove_ends hgood hallows (.inr ⟨hs, hfuel⟩) hstart
  refine (hends hkept).2.self.imp fun r hr ↦ ⟨hr.2, ?_⟩
  exact session_proved h (fun _ ↦ ⟨hbase, hlive⟩) hkept hr.1

/-- With enough fuel a proof attempt ends, and its answer says whether a bad state is reachable. -/
theorem prove_decides (hwf : tr.WellFormed) (howned : FrameSolver.Owned tr first)
    (hfree : tr.constraints = []) (h : Session (.plain E hwf howned hfree) base restr st)
    (hbase : restr ⊆ base) (hlive : (Circuit.plain E hwf howned hfree).Live restr) {fuel : ℕ}
    (hfuel : st.fuelBound ≤ fuel) :
    Meets (fun r ↦ r.1.result ≠ .unknown ∧ (r.1.result = .unsafeAt ↔
      (Circuit.plain E hwf howned hfree).Reaches restr [tr.bad]))
      ((Circuit.plain E hwf howned hfree).Unavoidable restr st) (prove E fuel st).2 :=
  (session_proves h trivial hbase hlive hfuel fun _ _ hno ↦ hno.elim).imp fun _ hr ↦ hr.1.decides trivial

/-- Without restrictions a bad state is reachable when the circuit is not safe. -/
theorem Circuit.reaches_bad_iff {C : Circuit} : C.Reaches [] [C.tr.bad] ↔ ¬ C.tr.Safe := by
  rw [← TransitionRelation.reach_bad_iff C.wf]
  have hinit : ∀ x, C.Init [] x ↔ C.tr.IsInit x := fun x ↦
    and_iff_left fun c hc ↦ absurd hc List.not_mem_nil
  have hcube : ∀ x, satCube x [C.tr.bad] ↔ litVal x C.tr.bad = true := fun x ↦
    (satCube_cons _ _).trans (and_iff_left satCube_nil)
  refine exists₂_congr fun n x ↦ and_congr ⟨fun h ↦ ?_, fun h ↦ ?_⟩ (hcube x)
  · exact h.imp fun y hy ↦ ⟨(hinit y).mp hy.1, hy.2⟩
  · exact h.imp fun y hy ↦ ⟨(hinit y).mpr hy.1, hy.2⟩

theorem handOver_decides : ∃ st, Session (.plain .plain handOver_wellFormed owned_handOver rfl) [[6]] [[6]] st ∧
    Meets (fun r ↦ r.1.result ≠ .unknown ∧ (r.1.result = .unsafeAt ↔
      (Circuit.plain .plain handOver_wellFormed owned_handOver rfl).Reaches [[6]] [handOver.bad]))
      ((Circuit.plain .plain handOver_wellFormed owned_handOver rfl).Unavoidable [[6]] st)
      (prove .plain st.fuelBound st).2 := by
  obtain ⟨st, h⟩ := session_handOver (C := .plain .plain handOver_wellFormed owned_handOver rfl) rfl rfl
  exact ⟨st, h, prove_decides handOver_wellFormed owned_handOver rfl h (List.Subset.refl _)
    (live_handOver rfl) le_rfl⟩

end IC3

end PME
