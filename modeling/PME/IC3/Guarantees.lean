import PME.IC3.Climbing
import PME.IC3.Session

namespace PME

namespace IC3

open Outcome TransitionRelation InductiveTrace IC3Solver FrameSequence Setting

variable {E : Engines} {tr : TransitionRelation} {first : ℕ} {base restr : List Cube} {st : IC3Solver}

def Circuit.plain (E : Engines) (hwf : tr.WellFormed) (howned : FrameSolver.Owned tr first)
    (hfree : tr.constraints = []) : Circuit where
  E := E
  tr := tr
  first := first
  strict := False
  sound := True
  wf := hwf
  owned := howned
  free _ := hfree

theorem Circuit.live_nil {C : Circuit} (hfree : C.tr.constraints = []) : C.Live [] := by
  obtain ⟨x, hx, hinit⟩ := exists_initial C.wf hfree
  exact .inl ⟨x, hx, hinit, nofun⟩

/-- The failures that a run from this state may end with: the fuel or the IDs run out, or the
query for a bad initial state fails, before the main loop begins. -/
def Tolerated (E : Engines) (st : IC3Solver) (target : Cube) (e : Failure) : Prop :=
  e = .outOfFuel ∨ e = .idsExhausted ∨ (checkInitial E target st).2 = .error e

/-- Obligations above level 0 exclude the initial states, no assertion of the main loop fails, and
each lemma stays at least as high as it is. -/
theorem prove_guarantees (hwf : tr.WellFormed) (howned : FrameSolver.Owned tr first)
    (hfree : tr.constraints = []) (h : Session (.plain E hwf howned hfree) base restr st)
    (hbase : restr ⊆ base) (hlive : (Circuit.plain E hwf howned hfree).Live restr) (fuel : ℕ) :
    (∀ ev ∈ (prove E fuel st).1, ∀ obl, ev.label = .popped obl → 0 < obl.level →
      ∀ x, tr.IsFrame x → (Circuit.plain E hwf howned hfree).Init restr x → ¬ satCube x obl.cti) ∧
    (∀ e, (prove E fuel st).2 = .error e → Tolerated E st [tr.bad] e) ∧
    (st :: (prove E fuel st).1.map Event.solver).Pairwise Above := by
  have hgood := h.between.good fun _ ↦ ⟨hbase, hlive⟩
  have hallows : ((Circuit.plain E hwf howned hfree).setting restr st).Allows
      (Tolerated E st [tr.bad]) := ⟨.inr (.inl rfl), fun hno ↦ absurd trivial hno⟩
  have hgoes : ((Circuit.plain E hwf howned hfree).setting restr st).Goes _ _ (prove E fuel) st :=
    prove_goes hgood hallows (.inl rfl) fun e he ↦ .inr (.inr he)
  obtain ⟨hsafe, hmeets⟩ := hgoes fun ev _ hno ↦ hno.elim
  refine ⟨fun ev hev obl hobl hpos x hx hinit ↦ ?_, fun e he ↦ ?_, (rises_prove fuel st).pairwise⟩
  · exact (hsafe ev hev).popped trivial obl hobl hpos x ⟨hinit, hx⟩
  · rw [he] at hmeets
    exact hmeets

noncomputable def Engines.plain : Engines where
  sat := .exhaustive
  simplifier := .keep
  simplify := false
  pick l := l.headD 0
  pick_mem l hl := by
    cases l with
    | nil => exact absurd rfl hl
    | cons i l => exact List.mem_cons_self

/-- The second latch starts free and is handed on to the first. Both high is bad. -/
def handOver : TransitionRelation where
  bad := 8
  latches := [⟨4, 6, idFalse⟩, ⟨6, 6, idNull⟩]
  gates := [⟨8, 4, 6⟩]
  latchIDs := [4, 6]
  inputIDs := []
  gateIDs := [8]
  constraints := []
  gateCNF := AndGate.toCNF

theorem handOver_wellFormed : handOver.WellFormed where
  bad := by decide
  gates := by decide
  latches := by decide
  reset := by decide
  constraints := by decide
  ands := by decide
  latchIDs_eq := rfl
  gateIDs_eq := rfl
  isVar := by decide
  nodup := by decide
  next := by decide
  constraints_defined := by decide
  bad_defined := by decide
  rhs_defined := by decide
  gates_computed := by
    refine ⟨id, fun g hg ↦ ⟨_, computes_toCNF rfl ?_ ?_ ?_⟩⟩
    · revert g
      decide
    all_goals
      obtain rfl := List.mem_singleton.mp hg
      exact .inr (.inl (by decide))

theorem owned_handOver : FrameSolver.Owned handOver 10 where
  minId_le := by decide
  mentions v hv := by
    have hcnf : ∀ cls ∈ handOver.toCNF, ∀ lit ∈ cls, strip lit < 10 := by decide
    have hlatch : ∀ l ∈ handOver.latches, l.id < 10 ∧ strip l.next < 10 := by decide
    obtain ⟨cls, hcls, lit, hl, rfl⟩ | ⟨l, hl, rfl | rfl⟩ | ⟨lit, hlit, rfl⟩ := hv
    · exact hcnf cls hcls lit hl
    · exact (hlatch l hl).1
    · exact (hlatch l hl).2
    · rw [List.mem_singleton.mp hlit]
      decide
  inputs := nofun

/-- A solver whose initial states have been restricted to those with the second latch low. -/
theorem session_handOver {C : Circuit} (htr : C.tr = handOver) (hfirst : C.first = 10) :
    ∃ st, Session C [[6]] [[6]] st := by
  obtain ⟨st, st₁, st₂, hst, hr₁, hinit, hr₂⟩ : ∃ st st₁ st₂, IC3Solver.new .three handOver = .ok st ∧
      st.restrictInitialStates [7] = .ok st₁ ∧ st₁.initConstraints = [[6]] ∧
      st₁.initialStatesRestricted = .ok st₂ := ⟨_, _, _, rfl, rfl, rfl, rfl⟩
  have hnew : Session C [] [] st := .new VariableManager.inv_three hfirst.le (htr ▸ hst)
  have hstate : ∀ lit ∈ [7], C.tr.StateVar (strip lit) := by
    rw [htr]
    exact List.forall_mem_singleton.mpr (.inr (.inl (by decide)))
  have hlits : ∀ lit ∈ [7], C.Lit st lit := fun lit hl ↦
    ⟨.inl (by rw [hfirst, List.mem_singleton.mp hl]; decide), fun _ ↦
      ⟨by rw [List.mem_singleton.mp hl]; decide, .inl (hstate lit hl)⟩⟩
  have h := (hnew.restrict hlits (fun _ ↦ hstate) hr₁).restricted hr₂
  rw [hinit] at h
  exact ⟨st₂, h⟩

theorem live_handOver {C : Circuit} (htr : C.tr = handOver) : C.Live [[6]] :=
  .inr ⟨[6], List.mem_singleton_self _, 6, List.mem_singleton_self _, by rw [htr]; decide⟩

theorem handOver_guarantees :
    ∃ st, Session (.plain .plain handOver_wellFormed owned_handOver rfl) [[6]] [[6]] st ∧
      (∀ ev ∈ (prove .plain 9 st).1, ∀ obl, ev.label = .popped obl → 0 < obl.level →
        ∀ x, handOver.IsFrame x → (Circuit.plain .plain handOver_wellFormed owned_handOver rfl).Init [[6]] x →
          ¬ satCube x obl.cti) ∧
      (∀ e, (prove .plain 9 st).2 = .error e → Tolerated .plain st [handOver.bad] e) ∧
      (st :: (prove .plain 9 st).1.map Event.solver).Pairwise Above := by
  obtain ⟨st, h⟩ := session_handOver (C := .plain .plain handOver_wellFormed owned_handOver rfl) rfl rfl
  exact ⟨st, h, prove_guarantees handOver_wellFormed owned_handOver rfl h (List.Subset.refl _)
    (live_handOver rfl) 9⟩

theorem owned_stuck : FrameSolver.Owned stuck 6 where
  minId_le := by decide
  mentions v hv := by
    obtain ⟨g, hg, -⟩ | ⟨l, hl, hv⟩ | ⟨lit, hlit, rfl⟩ := hv
    · exact absurd hg List.not_mem_nil
    · rw [List.mem_singleton.mp hl] at hv
      obtain rfl | rfl := hv <;> decide
    · rw [List.mem_singleton.mp hlit]
      decide
  inputs := nofun

def threeHigh : TransitionRelation where
  bad := negate 4
  latches := [⟨4, 4, idTrue⟩, ⟨6, 6, idTrue⟩, ⟨8, 8, idTrue⟩]
  gates := []
  latchIDs := [4, 6, 8]
  inputIDs := []
  gateIDs := []
  constraints := []
  gateCNF := AndGate.toCNF

theorem threeHigh_wellFormed : threeHigh.WellFormed where
  bad := by decide
  gates := by decide
  latches := by decide
  reset := by decide
  constraints := by decide
  ands := by decide
  latchIDs_eq := rfl
  gateIDs_eq := rfl
  isVar := by decide
  nodup := by decide
  next := by decide
  constraints_defined := by decide
  bad_defined := by decide
  rhs_defined := by decide
  gates_computed := ⟨fun _ ↦ 0, nofun⟩

theorem owned_threeHigh : FrameSolver.Owned threeHigh 10 where
  minId_le := by decide
  mentions v hv := by
    obtain ⟨g, hg, -⟩ | ⟨l, hl, hv⟩ | ⟨lit, hlit, rfl⟩ := hv
    · exact absurd hg List.not_mem_nil
    · have hlow : ∀ l ∈ threeHigh.latches, l.id < 10 ∧ strip l.next < 10 := by decide
      obtain rfl | rfl := hv
      · exact (hlow l hl).1
      · exact (hlow l hl).2
    · rw [List.mem_singleton.mp hlit]
      decide
  inputs := nofun

end IC3

end PME
