import PME.IC3.Guarantees

namespace PME.IC3

open Outcome TransitionRelation InductiveTrace IC3Solver Setting

def Circuit.any (E : Engines) {tr : TransitionRelation} {first : ℕ} (hwf : tr.WellFormed)
    (howned : FrameSolver.Owned tr first) : Circuit where
  E := E
  tr := tr
  first := first
  strict := False
  sound := False
  wf := hwf
  owned := howned
  free := False.elim

/-- The states that a solver is in between two calls, or goes through when it proves something. -/
inductive Reached (C : Circuit) : IC3Solver → Prop
  | between {base restr : List Cube} {st : IC3Solver} (h : Session C base restr st) : Reached C st
  | during {base restr : List Cube} {st : IC3Solver} {target : Cube} {fuel : ℕ} {ev : Event}
      (h : Session C base restr st) (hover : (C.setting restr st).Over target)
      (hev : ev ∈ (proveTarget C.E fuel target st).1) : Reached C ev.solver

namespace FrameSolver

variable {B : Backend} {tr : TransitionRelation} {first : ℕ} {vm : VariableManager}
  {trace : InductiveTrace} {fs : FrameSolver} {ℓ : Level}

def setUp (B : Backend) (vm : VariableManager) (trace : InductiveTrace) (fs : FrameSolver) :
    Result (VariableManager × FrameSolver) :=
  if fs.solverInited then pure (vm, fs) else fs.renewSAT B vm trace

/-- The clauses of lemmas that the assumptions switch on say what the lemmas at the level and
above it say. -/
def Refines (trace : InductiveTrace) (fs : FrameSolver) (ℓ : Level) (assumps : Cube) : Prop :=
  ∀ σ, satCube σ assumps →
    ((∀ cls ∈ fs.lemmaClauses, fs.ActiveUnder assumps cls → satClause σ cls) ↔ InFrame trace ℓ σ)

theorem Ready.refines (h : Ready B tr first vm trace fs ℓ) :
    Refines trace fs ℓ (fs.assumed trace.numFrames ℓ) := by
  obtain ⟨sent, hsent, hall⟩ := h.sent h.inited
  exact fun σ hσ ↦ hsent.active_iff h.toActivation h.inv hall h.enough hσ

theorem Rep.refines {fail : Failure → Prop} (h : Rep B tr first vm trace fs)
    (hi : fs.solverInited = true) (hids : Lacks vm trace fs → fail .idsExhausted) (ℓ : Level) :
    Meets (fun r ↦ Refines trace r.2.2 ℓ r.1) fail (fs.levelAssumps vm trace ℓ) := by
  refine (ready_meets h hi hids ℓ).imp fun r hr ↦ ?_
  obtain ⟨hready, -, hassumps⟩ := hr
  rw [hassumps]
  exact hready.refines

theorem Rep.lemmaClauses_nil (h : Rep B tr first vm trace fs) (hi : fs.solverInited = false) :
    fs.lemmaClauses = [] := by
  obtain ⟨hunrolled, hclauses⟩ := h.start hi
  rw [lemmaClauses, hunrolled, hclauses]
  rfl

/-- What stops a set-up: too few IDs, an empty lemma, or a circuit that has no step. -/
def SetUpStops (tr : TransitionRelation) (vm : VariableManager) (trace : InductiveTrace) (fs : FrameSolver)
    (e : Failure) : Prop :=
  e = .idsExhausted ∧ Lacks vm trace fs ∨
    e = .assertion ∧ ((∃ m, trace.At [] m) ∨ ¬ ∃ σ, satClauses σ ([idTrue] :: tr.unroll 2))

theorem Rep.setUp (h : Rep B tr first vm trace fs) (hwf : tr.WellFormed) :
    Meets (fun r ↦ Rep B tr first r.1 trace r.2 ∧ r.2.solverInited = true ∧ Newer vm fs r.1 r.2)
      (SetUpStops tr vm trace fs) (fs.setUp B vm trace) := by
  refine setUp_meets h ⟨fun hlacks ↦ .inl ⟨rfl, hlacks⟩, fun m hat ↦ .inr ⟨rfl, .inl ⟨m, hat⟩⟩, ?_⟩
  exact (computeSimplifiedTR_meets hwf B fun hno ↦ .inr ⟨rfl, .inr hno⟩).imp fun _ hu ↦ hu.nonempty

end FrameSolver

variable {E : Engines} {tr : TransitionRelation} {first : ℕ} {st : IC3Solver}

theorem Reached.rep {hwf : tr.WellFormed} {howned : FrameSolver.Owned tr first}
    (h : Reached (.any E hwf howned) st) :
    FrameSolver.Rep E.toBackend tr first st.vars st.trace st.cons := by
  cases h with
  | between h => exact h.between.rep.cons
  | @during base restr st target fuel ev h hover hev =>
    let C := Circuit.any E hwf howned
    have hall : (C.setting restr st).Allows fun _ ↦ True := ⟨trivial, fun _ _ ↦ trivial⟩
    have hgoes : (C.setting restr st).Goes _ _ (proveTarget C.E fuel target) st :=
      proveTarget_goes (h.between.good False.elim) hall trivial (fun _ _ ↦ trivial) hover False.elim
    exact ((hgoes fun _ _ ↦ False.elim).1 ev hev).rep.cons

/-- In every state that a solver reaches, its frame solver has no lemmas until it is set up, and then
has for every level what the trace has there. A query first sets it up. -/
theorem frames_refine (hwf : tr.WellFormed) (howned : FrameSolver.Owned tr first)
    (h : Reached (.any E hwf howned) st) (ℓ : Level) :
    (st.cons.solverInited = false → st.cons.lemmaClauses = []) ∧
    (st.cons.solverInited = true → Meets (fun r ↦ r.2.2.Refines st.trace ℓ r.1)
      (fun e ↦ e = .idsExhausted ∧ FrameSolver.Lacks st.vars st.trace st.cons)
      (st.cons.levelAssumps st.vars st.trace ℓ)) ∧
    Meets (fun r ↦ r.2.2.Refines st.trace ℓ r.1) (FrameSolver.SetUpStops tr st.vars st.trace st.cons)
      (st.cons.setUp E.toBackend st.vars st.trace >>= fun r ↦ r.2.levelAssumps r.1 st.trace ℓ) := by
  refine ⟨h.rep.lemmaClauses_nil, fun hi ↦ h.rep.refines hi (fun hlacks ↦ ⟨rfl, hlacks⟩) ℓ,
    (h.rep.setUp hwf).bind fun r hr ↦ ?_⟩
  obtain ⟨hrep, hi, hnewer⟩ := hr
  exact hrep.refines hi (fun hlacks ↦ .inl ⟨rfl, hnewer.lacks_iff.mp hlacks⟩) ℓ

theorem ask_eq {α : Type} {query : Backend → VariableManager → InductiveTrace → FrameSolver →
    Result (α × VariableManager × FrameSolver)} {a : α} {vars : VariableManager} {cons : FrameSolver}
    (h : query E.toBackend st.vars st.trace st.cons = .ok (a, vars, cons)) :
    ask E query st = ([⟨.changed, { st with vars := vars, cons := cons }⟩],
      .ok (a, { st with vars := vars, cons := cons })) := by
  have hlift : (Journal.lift (query E.toBackend st.vars st.trace st.cons) : IC3M _) st =
      ([], .ok ((a, vars, cons), st)) := by
    rw [h]
    rfl
  change Journal.bind (Journal.lift (query E.toBackend st.vars st.trace st.cons)) _ st = _
  rw [Journal.bind, hlift]
  rfl

/-- A proof first goes through the state after its query about the initial states. -/
theorem mem_proveTarget {target : Cube} (fuel : ℕ) {found : Option (Cube × Cube)} {vars : VariableManager}
    {cons : FrameSolver} (h : st.cons.intersectionFull E.toBackend st.vars st.trace (.fin 0) target =
      .ok (found, vars, cons)) :
    ⟨.changed, { st with vars := vars, cons := cons }⟩ ∈ (proveTarget E fuel target st).1 := by
  refine Journal.mem_bind (Journal.mem_bind ?_)
  rw [ask_eq h]
  exact List.mem_cons_self

/-- The lemmas of a set-up solver are at three levels. One of them has come from the first. -/
theorem threeHigh_refines : ∃ st, Reached (.any .plain threeHigh_wellFormed owned_threeHigh) st ∧
    st.cons.solverInited = true ∧
    (st.trace.At [7] (.fin 0) ∧ st.trace.At [5, 7] (.fin 1) ∧ st.trace.At [5] .inf) ∧
    Meets (fun r ↦ r.2.2.Refines st.trace (.fin 0) r.1) (fun _ ↦ False)
      (st.cons.levelAssumps st.vars st.trace (.fin 0)) := by
  obtain ⟨st₀, i, st₁, j, st₂, h₀, h₁, h₂, hat, hcubes, hlacks⟩ : ∃ st₀ i st₁ j st₂,
      IC3Solver.new .three threeHigh = .ok st₀ ∧
      (addLemma [5, 7] (.fin 1) st₀).2 = .ok (i, st₁) ∧ (addLemma [5] .inf st₁).2 = .ok (j, st₂) ∧
      (st₂.trace.At [7] (.fin 0) ∧ st₂.trace.At [5, 7] (.fin 1) ∧ st₂.trace.At [5] .inf) ∧
      (∀ d ∈ st₂.trace.lemmas, d.cube ≠ []) ∧ ¬ FrameSolver.Lacks st₂.vars st₂.trace st₂.cons :=
    ⟨_, _, _, _, _, rfl, rfl, rfl,
      ⟨⟨_, .tail _ (.head _), rfl, rfl, rfl⟩, ⟨_, .tail _ (.tail _ (.tail _ (.head _))), rfl, rfl, rfl⟩,
        ⟨_, .head _, rfl, rfl, rfl⟩⟩, by decide, by unfold FrameSolver.Lacks; decide⟩
  have hover : ∀ st : IC3Solver, ∀ c : Cube, (∀ lit ∈ c, strip lit < 10) →
      ((Circuit.any .plain threeHigh_wellFormed owned_threeHigh).setting [] st).Over c :=
    fun st c hc lit hl ↦ ⟨.inl (hc lit hl), False.elim⟩
  have hsession : Session (.any .plain threeHigh_wellFormed owned_threeHigh) [] [] st₂ :=
    .addLemma (.addLemma (.new VariableManager.inv_three (by decide) h₀) (hover _ _ (by decide)) False.elim h₁)
      (hover _ _ (by decide)) False.elim h₂
  have hmay : FrameSolver.MayFail Engines.plain.toBackend threeHigh st₂.vars st₂.trace st₂.cons
      fun _ ↦ False := by
    refine ⟨hlacks, fun m hat ↦ ?_, ?_⟩
    · obtain ⟨d, hd, -, hnil, -⟩ := hat
      exact hcubes d hd hnil
    · exact unroll_nonempty threeHigh_wellFormed.toCNF_nonempty 2
  obtain ⟨r, hr, hafter, -⟩ := (FrameSolver.intersectionFull_meets (c := [5]) (Reached.between hsession).rep
    threeHigh_wellFormed hmay nofun (.fin 0) fun m vm fs hq _ hblind ↦
      hblind 4 (by decide) (hq.knows_now 5 (List.mem_append_right _ List.mem_cons_self))).exists_ok
  have hreached := Reached.during hsession (hover _ _ (by decide)) (mem_proveTarget 9 hr)
  refine ⟨_, hreached, hafter.inited, hat, ?_⟩
  refine ((frames_refine threeHigh_wellFormed owned_threeHigh hreached (.fin 0)).2.1 hafter.inited).weaken ?_
  exact fun e he ↦ hlacks (hafter.newer.lacks_iff.mp he.2)

/-- Before it is set up, the frame solver of a new solver does not have the lemma that excludes
the states that are not initial. -/
theorem stuck_unrefined : ∃ st, Reached (.any .plain stuck_wellFormed owned_stuck) st ∧
    ¬ Meets (fun r ↦ r.2.2.Refines st.trace (.fin 0) r.1) (· = .idsExhausted)
      (st.cons.levelAssumps st.vars st.trace (.fin 0)) := by
  obtain ⟨vars, st, hvars, hfirst, hst, hat, assumps, vm, fs, hr, hassumps, hclauses⟩ :
      ∃ vars st, VariableManager.new.getNewID 0 = .ok (4, vars) ∧ vars.nextID = 6 ∧
        IC3Solver.new vars stuck = .ok st ∧ st.trace.At [negate 4] (.fin 0) ∧ ∃ assumps vm fs,
          st.cons.levelAssumps st.vars st.trace (.fin 0) = .ok (assumps, vm, fs) ∧
          assumps = [negate 6] ∧ fs.lemmaClauses = [] :=
    ⟨_, _, rfl, rfl, rfl, ⟨_, List.mem_cons_self, rfl, rfl, rfl⟩, _, _, _, rfl, rfl, rfl⟩
  have h : Reached (.any .plain stuck_wellFormed owned_stuck) st :=
    .between (.new (VariableManager.inv_new.getNewID hvars) hfirst.ge hst)
  refine ⟨st, h, fun hmeets ↦ ?_⟩
  have hrefines := hmeets.of_ok hr
  dsimp only at hrefines
  rw [hassumps] at hrefines
  have hlow : satCube (fun _ ↦ false) [negate 6] := List.forall_mem_singleton.mpr rfl
  have hframe := (hrefines _ hlow).mp fun cls hcls ↦ absurd (hclauses ▸ hcls) List.not_mem_nil
  exact hframe _ _ hat le_rfl (List.forall_mem_singleton.mpr rfl)

end PME.IC3
