import PME.DebugExecution
import PME.IC3.Decision

namespace PME.IC3

open Outcome TransitionRelation InductiveTrace IC3Solver FrameSequence Setting

variable {C : Circuit} {base restr cubes : List Cube} {st st' : IC3Solver} {fail : Failure → Prop}
  {c : Cube} {x y : Assignment} {lo hi : ℕ} {P Q : Assignment → Prop}

theorem sortCube_sortCube (c : Cube) : sortCube (sortCube c) = sortCube c :=
  sortCube_of_sorted (sorted_sortCube c)

theorem session_sorted (h : Session C base restr st) : ∀ c ∈ st.initConstraints, sortCube c = c := by
  have hsetup : ∀ {s s' : IC3Solver}, s.trace.Inv → s.initializeSolver = .ok s' →
      s'.initConstraints = s.initConstraints := by
    intro s s' hinv hr
    obtain ⟨trace, -, rfl⟩ := post_of_ok (initializeSolver_meets hinv fun _ _ _ ↦ trivial) hr
    rfl
  induction h with
  | new _ _ hr =>
    rw [hsetup inv_new hr]
    exact fun c hc ↦ absurd hc List.not_mem_nil
  | made _ _ _ ih => exact ih
  | restrict _ _ _ hr ih =>
    obtain ⟨-, -, hr⟩ := bind_eq_ok.mp hr
    obtain rfl := Except.ok.inj hr
    refine List.forall_mem_append.mpr ⟨ih, fun c hc ↦ ?_⟩
    rw [List.mem_singleton.mp hc]
    exact sortCube_sortCube _
  | clear _ _ => exact fun c hc ↦ absurd hc List.not_mem_nil
  | pledge _ ih => exact ih
  | expanded _ hr ih =>
    rw [hsetup inv_new hr]
    exact ih
  | restricted h hr ih =>
    rw [hsetup h.between.rep.cons.inv hr]
    exact ih
  | @addLemma base restr st st' c ℓ id h hover _ hr ih =>
    have hgoes : (C.setting restr st).Goes (fun id st' ↦ (C.setting restr st).LemmaMoved st (sortCube c) ℓ
        id st') (fun _ ↦ True) (IC3Solver.addLemma c ℓ) st :=
      addLemma_moves h.between.rep trivial hover (fun _ _ _ ↦ trivial) fun _ ↦ trivial
    have hmeets := (hgoes (by rw [Circuit.addLemma_events]; exact fun _ hno ↦ absurd hno List.not_mem_nil)).2
    rw [(hmeets.of_ok hr).constraints]
    exact ih
  | @prove base restr st st' target fuel r h hbase hover htarget hkept hr ih =>
    have hgoes : (C.setting restr st).Goes _ _ (proveTarget C.E fuel target) st :=
      proveTarget_goes (h.between.good hbase) (⟨trivial, fun _ _ ↦ trivial⟩ : Allows _ fun _ ↦ True)
        trivial (fun _ _ ↦ trivial) hover htarget
    rw [((hgoes hkept).2.of_ok hr).constraints]
    exact ih

structure Circuit.Keeps (C : Circuit) (st st' : IC3Solver) : Prop where
  lits : ∀ lit, C.Lit st lit → C.Lit st' lit
  waiting : st'.initConstraints = st.initConstraints

theorem Circuit.Keeps.trans {st'' : IC3Solver} (h : C.Keeps st st') (h' : C.Keeps st' st'') : C.Keeps st st'' :=
  ⟨fun lit hl ↦ h'.lits lit (h.lits lit hl), h'.waiting.trans h.waiting⟩

theorem initState_sorted (hwf : C.tr.WellFormed) (hc : c ∈ C.tr.initState.map negateVec) : sortCube c = c := by
  obtain ⟨cls, hcls, rfl⟩ := List.mem_map.mp hc
  obtain ⟨lit, rfl, -⟩ := mem_initState hwf hcls
  rfl

theorem initializeSolver_keeps {s : IC3Solver} (hinv : s.trace.Inv) (htr : s.tr = C.tr)
    (hsorted : ∀ c ∈ s.initConstraints, sortCube c = c) :
    Meets (fun s' ↦ C.Keeps s s' ∧ s'.vars = s.vars) fail s.initializeSolver := by
  have hall : ∀ c ∈ s.tr.initState.map negateVec ++ s.initConstraints, sortCube c ≠ c → fail .assertion := by
    intro c hc hne
    refine absurd ?_ hne
    cases List.mem_append.mp hc with
    | inl hinit => exact initState_sorted C.wf (htr ▸ hinit)
    | inr hwait => exact hsorted c hwait
  refine (initializeSolver_meets hinv hall).imp fun s' hs' ↦ ?_
  obtain ⟨trace, -, rfl⟩ := hs'
  refine ⟨⟨fun lit hl ↦ ⟨hl.1.imp_right fun hknown l hmem ↦ ?_, hl.2⟩, rfl⟩, rfl⟩
  exact ⟨(hknown l hmem).1, List.not_mem_nil⟩

theorem session_restricted (h : Session C base restr st) :
    Meets (fun st' ↦ Session C (base ++ st.initConstraints) (restr ++ st.initConstraints) st' ∧
      C.Keeps st st' ∧ st'.vars = st.vars) fail st.initialStatesRestricted :=
  (initializeSolver_keeps h.between.rep.cons.inv h.between.rep.tr_eq (session_sorted h)).self.imp
    fun _ hs' ↦ ⟨.restricted h hs'.1, hs'.2⟩

theorem session_expanded (h : Session C base restr st) :
    Meets (fun st' ↦ Session C st.initConstraints st.initConstraints st' ∧ C.Keeps st st' ∧
      st'.vars = st.vars) fail st.initialStatesExpanded := by
  have hkeeps : Meets _ fail st.initialStatesExpanded :=
    initializeSolver_keeps (s := { st with trace := st.trace.clear }) inv_new h.between.rep.tr_eq
      fun c hc ↦ session_sorted h c hc
  exact hkeeps.self.imp fun _ hs' ↦ ⟨.expanded h hs'.1, ⟨hs'.2.1.lits, hs'.2.1.waiting⟩, hs'.2.2⟩

theorem session_new {vars : VariableManager} (hvars : vars.Inv) (hfirst : C.first ≤ vars.nextID) :
    Meets (fun st ↦ Session C [] [] st ∧ st.initConstraints = [] ∧ st.vars = vars) fail
      (IC3Solver.new vars C.tr) := by
  have hkeeps : Meets _ fail (IC3Solver.new vars C.tr) :=
    initializeSolver_keeps (C := C) (s := ⟨vars, C.tr, .new, [], .new C.tr, .new C.tr, []⟩) inv_new rfl
      fun c hc ↦ absurd hc List.not_mem_nil
  exact hkeeps.self.imp fun _ hs' ↦ ⟨.new hvars hfirst hs'.1, hs'.2.1.waiting, hs'.2.2⟩

def cubesOf (clauses : ClauseVec) : List Cube := clauses.map fun cls ↦ sortCube (negateVec cls)

def Circuit.Restricts (C : Circuit) (st : IC3Solver) (clauses : ClauseVec) : Prop :=
  ∀ cls ∈ clauses, cls ≠ [] ∧ ∀ lit ∈ cls, C.Lit st lit ∧ C.tr.StateVar (strip lit)

theorem session_restricts {cls : Clause} (h : Session C base restr st) (hcls : C.Restricts st [cls]) :
    Meets (fun st' ↦ Session C base restr st' ∧
      st' = { st with initConstraints := st.initConstraints ++ cubesOf [cls] }) fail
      (st.restrictInitialStates cls) := by
  obtain ⟨hne, hlits⟩ := hcls cls List.mem_cons_self
  have hok : st.restrictInitialStates cls =
      .ok { st with initConstraints := st.initConstraints ++ [sortCube (negateVec cls)] } := by
    unfold restrictInitialStates
    rw [Bool.eq_false_iff.mpr (mt List.isEmpty_iff.mp hne), Bool.not_false, ensure_true]
    rfl
  rw [hok]
  exact ⟨.restrict h (fun lit hl ↦ (hlits lit hl).1) (fun _ lit hl ↦ (hlits lit hl).2) hok, rfl⟩

theorem session_restrictsAll {clauses : ClauseVec} (h : Session C base restr st)
    (hclauses : C.Restricts st clauses) :
    Meets (fun st' ↦ Session C base restr st' ∧
      st' = { st with initConstraints := st.initConstraints ++ cubesOf clauses }) fail
      (clauses.foldlM restrictInitialStates st) := by
  refine foldlM_meets (fun done st' ↦ Session C base restr st' ∧
    st' = { st with initConstraints := st.initConstraints ++ cubesOf done }) st ⟨h, ?_⟩ ?_
  · rw [cubesOf, List.map_nil, List.append_nil]
  · intro done cls rest st' hl hst'
    obtain ⟨hsession, rfl⟩ := hst'
    have hmem : cls ∈ clauses := hl ▸ List.mem_append_right done List.mem_cons_self
    have hcls : C.Restricts { st with initConstraints := st.initConstraints ++ cubesOf done } [cls] := by
      intro cls' hcls'
      rw [List.mem_singleton.mp hcls']
      exact hclauses cls hmem
    refine (session_restricts hsession hcls).imp fun st'' hst'' ↦ ⟨hst''.1, ?_⟩
    rw [hst''.2, cubesOf, cubesOf, cubesOf, List.map_append, List.append_assoc]

def Frozen (tr : TransitionRelation) (cls : Clause) : Prop :=
  ∀ lit ∈ cls, ∃ l ∈ tr.latches, l.next = l.id ∧ l.id = strip lit

theorem Frozen.satCube_iff {tr : TransitionRelation} {cls : Clause} (h : Frozen tr cls)
    (hwf : tr.WellFormed) (hxy : tr.Step x y) : satCube y (negateVec cls) ↔ satCube x (negateVec cls) := by
  refine satCube_congr fun lit hl ↦ ?_
  obtain ⟨l', hmem, rfl⟩ := List.mem_map.mp hl
  obtain ⟨l, hlatch, hnext, hid⟩ := h l' hmem
  have heven := (hwf.isVar _ (mem_signals.mpr (.inl (List.mem_append_right _ (hwf.latch_mem hlatch))))).2.2
  have hstep := hxy l hlatch
  rw [hnext, litVal_of_even heven, hid] at hstep
  rw [strip_negate, hstep]

/-- A clause about latches that keep their values holds forever, if it restricts the initial states. -/
theorem session_addClause {cls : Clause} (h : Session C base restr st)
    (hmem : sortCube (negateVec cls) ∈ restr) (hne : cls ≠ []) (hfrozen : Frozen C.tr cls)
    (hids : fail .idsExhausted) :
    Meets (fun r ↦ Session C base restr r.2 ∧ C.Keeps st r.2) fail
      (IC3Solver.addClausalLemma cls .inf st).2 := by
  have hlatch : ∀ lit ∈ negateVec cls, strip lit ∈ C.tr.latchIDs := by
    intro lit hl
    obtain ⟨l', hl', rfl⟩ := List.mem_map.mp hl
    obtain ⟨l, hlatch, -, hid⟩ := hfrozen l' hl'
    rw [strip_negate, ← hid]
    exact C.wf.latch_mem hlatch
  have hover : (C.setting restr st).Over (negateVec cls) := fun lit hl ↦ (C.setting restr st).latch lit (hlatch lit hl)
  have hcube : negateVec cls ≠ [] := fun hnil ↦ hne (List.map_eq_nil_iff.mp hnil)
  have hexcludes : (C.setting restr st).Excludes st.trace .inf (sortCube (negateVec cls)) := by
    refine ⟨fun hnil ↦ ?_, fun x hx ↦ ?_, fun p _ x y _ _ hno hxy ↦ ?_⟩
    · obtain ⟨lit, hl⟩ := List.exists_mem_of_ne_nil _ hcube
      exact List.not_mem_nil (hnil ▸ mem_sortCube.mpr hl)
    · exact hx.1.2 _ hmem fun lit hl ↦ .inr (.inl (hlatch lit (mem_sortCube.mp hl)))
    · rw [Circuit.satCube_sortCube] at hno ⊢
      rwa [hfrozen.satCube_iff C.wf hxy.step]
  have hgoes : (C.setting restr st).Goes (fun id st' ↦ (C.setting restr st).LemmaMoved st
      (sortCube (negateVec cls)) .inf id st') fail (IC3Solver.addLemma (negateVec cls) .inf) st :=
    addLemma_moves h.between.rep hids hover (fun _ _ hno ↦ absurd Level.le_inf hno) fun hnil ↦ absurd hnil hcube
  have hmeets := (hgoes (by rw [Circuit.addLemma_events]; exact fun _ hno ↦ absurd hno List.not_mem_nil)).2
  refine hmeets.self.imp fun r hr ↦ ⟨.addLemma h hover (fun _ ↦ hexcludes) hr.1, ?_, hr.2.constraints⟩
  exact fun lit hl ↦ Circuit.lit_mono hr.2.rep hl

theorem session_addClauses {clauses : ClauseVec} (h : Session C base restr st)
    (hmem : cubesOf clauses ⊆ restr) (hclauses : ∀ cls ∈ clauses, cls ≠ [] ∧ Frozen C.tr cls)
    (hids : fail .idsExhausted) :
    Meets (fun st' ↦ Session C base restr st' ∧ C.Keeps st st') fail (st.addClausalLemmas clauses .inf) := by
  unfold addClausalLemmas
  refine foldlM_meets (fun _ st' ↦ Session C base restr st' ∧ C.Keeps st st') st
    ⟨h, fun _ hl ↦ hl, rfl⟩ fun done cls rest st' hl hst' ↦ ?_
  have hcls : cls ∈ clauses := hl ▸ List.mem_append_right done List.mem_cons_self
  obtain ⟨hne, hfrozen⟩ := hclauses cls hcls
  exact (session_addClause hst'.1 (hmem (List.mem_map_of_mem hcls)) hne hfrozen hids).bind
    fun r hr ↦ ⟨hr.1, hst'.2.trans hr.2⟩

theorem Circuit.Lit.lt (h : Session C base restr st) {lit : ℕ} (hl : C.Lit st lit) :
    strip lit < st.vars.nextID :=
  hl.1.elim (fun hlow ↦ hlow.trans_le h.between.rep.cons.first_le) fun hknown ↦
    (hknown lit List.mem_cons_self).1

/-- A variable that others have made is one that the solver knows nothing of. -/
theorem lit_of_new (h : Session C base restr st) {vars : VariableManager} (hvars : vars.Inv) {lit : ℕ}
    (hge : st.vars.nextID ≤ strip lit) (hlt : strip lit < vars.nextID)
    (hsignals : ∀ v ∈ C.tr.signals, v < C.first) :
    C.Lit { st with vars := vars } lit ∧ C.tr.StateVar (strip lit) := by
  have hfirst : C.first ≤ st.vars.nextID := h.between.rep.cons.first_le
  have hmin := C.owned.minId_le
  have hmax := hvars.le_maxId
  have hle := strip_le lit
  have hnew : ¬ C.tr.Mentions (strip lit) ∧ strip lit ∉ C.tr.signals :=
    ⟨fun hmem ↦ absurd (C.owned.mentions _ hmem) (by omega), fun hmem ↦ absurd (hsignals _ hmem) (by omega)⟩
  have hvalid : ValidLit lit := by
    rw [minId_eq] at hmin
    rw [maxId_eq] at hmax
    refine ⟨by rw [idFalse]; omega, ?_⟩
    rw [strip_eq] at hlt
    rw [maxId_eq]
    omega
  refine ⟨⟨.inr fun l hmem ↦ ?_, fun _ ↦ ⟨hvalid, .inl (.inr (.inr hnew))⟩⟩, .inr (.inr hnew)⟩
  rw [List.mem_singleton.mp hmem]
  exact ⟨hlt, fun hact ↦ absurd (h.between.rep.cons.act _ hact).2.2 (not_lt_of_ge hge)⟩

section Admitting

structure Circuit.Selects (C : Circuit) (hi : ℕ) (Q : Assignment → Prop) (cubes : List Cube) : Prop where
  state : ∀ c ∈ cubes, ∀ lit ∈ c, C.tr.StateVar (strip lit)
  sound : ∀ x, (∀ c ∈ cubes, ¬ satCube x c) → Q x
  complete : ∀ x, Q x → ∃ x' : Assignment, (∀ v < hi, x' v = x v) ∧ ∀ c ∈ cubes, ¬ satCube x' c

theorem excluded_cubesOf (clauses : ClauseVec) :
    (∀ c ∈ cubesOf clauses, ¬ satCube x c) ↔ satClauses x clauses := by
  rw [cubesOf, List.forall_mem_map]
  refine forall₂_congr fun cls _ ↦ ?_
  rw [Circuit.satCube_sortCube, satCube_negateVec, not_not]

theorem strip_of_mem_cubesOf {clauses : ClauseVec} (hc : c ∈ cubesOf clauses) {lit : ℕ} (hl : lit ∈ c) :
    ∃ cls ∈ clauses, ∃ l ∈ cls, lit = negate l := by
  obtain ⟨cls, hcls, rfl⟩ := List.mem_map.mp hc
  obtain ⟨l, hmem, rfl⟩ := List.mem_map.mp (mem_sortCube.mp hl)
  exact ⟨cls, hcls, l, hmem, rfl⟩

theorem Circuit.Restricts.state {clauses : ClauseVec} (h : C.Restricts st clauses) :
    ∀ c ∈ cubesOf clauses, ∀ lit ∈ c, C.tr.StateVar (strip lit) := by
  intro c hc lit hl
  obtain ⟨cls, hcls, l, hmem, rfl⟩ := strip_of_mem_cubesOf hc hl
  rw [strip_negate]
  exact ((h cls hcls).2 l hmem).2

theorem Circuit.Restricts.lits {clauses : ClauseVec} (h : C.Restricts st clauses) :
    ∀ c ∈ cubesOf clauses, ∀ lit ∈ c, C.Lit st lit := by
  intro c hc lit hl
  obtain ⟨cls, hcls, l, hmem, rfl⟩ := strip_of_mem_cubesOf hc hl
  exact Circuit.lit_negate ((h cls hcls).2 l hmem).1

theorem Circuit.Restricts.selects {clauses : ClauseVec} (h : C.Restricts st clauses)
    (hiff : ∀ x, satClauses x clauses ↔ Q x) : C.Selects hi Q (cubesOf clauses) := by
  refine ⟨h.state, fun x hx ↦ (hiff x).mp ((excluded_cubesOf clauses).mp hx), fun x hx ↦ ?_⟩
  exact ⟨x, fun _ _ ↦ rfl, (excluded_cubesOf clauses).mpr ((hiff x).mpr hx)⟩

theorem Circuit.Selects.append {cubes' : List Cube} (h : C.Selects lo P cubes) (h' : C.Selects hi Q cubes')
    (hlo : lo ≤ hi) (hbelow : ∀ c ∈ cubes, ∀ lit ∈ c, strip lit < hi)
    (hQ : ∀ x x' : Assignment, (∀ v < lo, x' v = x v) → Q x → Q x') :
    C.Selects lo (fun x ↦ P x ∧ Q x) (cubes ++ cubes') := by
  refine ⟨List.forall_mem_append.mpr ⟨h.state, h'.state⟩, fun x hx ↦ ?_, fun x hx ↦ ?_⟩
  · obtain ⟨hold, hnew⟩ := List.forall_mem_append.mp hx
    exact ⟨h.sound x hold, h'.sound x hnew⟩
  · obtain ⟨x₁, hsame₁, hold⟩ := h.complete x hx.1
    obtain ⟨x₂, hsame₂, hnew⟩ := h'.complete x₁ (hQ x x₁ hsame₁ hx.2)
    refine ⟨x₂, fun v hv ↦ (hsame₂ v (by omega)).trans (hsame₁ v hv), ?_⟩
    refine List.forall_mem_append.mpr ⟨fun c hc ↦ ?_, hnew⟩
    rw [satCube_congr fun lit hl ↦ hsame₂ _ (hbelow c hc lit hl)]
    exact hold c hc

structure Circuit.Loaded (C : Circuit) (base restr : List Cube) (st st' : IC3Solver) (cubes : List Cube) :
    Prop where
  session : Session C base restr st'
  grown : ∀ lit, C.Lit st lit → C.Lit st' lit
  waiting : st'.initConstraints = st.initConstraints ++ cubes
  lits : ∀ c ∈ cubes, ∀ lit ∈ c, C.Lit st' lit

theorem Circuit.Loaded.trans {cubes' : List Cube} {st'' : IC3Solver} (h : C.Loaded base restr st st' cubes)
    (h' : C.Loaded base restr st' st'' cubes') : C.Loaded base restr st st'' (cubes ++ cubes') := by
  refine ⟨h'.session, fun lit hl ↦ h'.grown lit (h.grown lit hl), ?_, List.forall_mem_append.mpr ⟨?_, h'.lits⟩⟩
  · rw [h'.waiting, h.waiting, List.append_assoc]
  · exact fun c hc lit hl ↦ h'.grown lit (h.lits c hc lit hl)

theorem Circuit.loaded_nil (h : Session C base restr st) : C.Loaded base restr st st [] :=
  ⟨h, fun _ hl ↦ hl, (List.append_nil _).symm, fun _ hc ↦ absurd hc List.not_mem_nil⟩

theorem session_loads {clauses : ClauseVec} (h : Session C base restr st)
    (hclauses : C.Restricts st clauses) :
    Meets (fun st' ↦ C.Loaded base restr st st' (cubesOf clauses) ∧ st'.vars = st.vars) fail
      (clauses.foldlM restrictInitialStates st) := by
  refine (session_restrictsAll h hclauses).imp fun st' hst' ↦ ?_
  obtain ⟨hsession, rfl⟩ := hst'
  exact ⟨⟨hsession, fun _ hl ↦ hl, rfl, hclauses.lits⟩, rfl⟩

/-- The initial states that the restrictions leave are those with the property, up to variables
from `lo` on. -/
structure Circuit.Admits (C : Circuit) (lo : ℕ) (P : Assignment → Prop) (restr : List Cube) : Prop where
  sound : ∀ x, C.Init restr x → P x
  complete : ∀ x, C.tr.IsInit x → P x → ∃ x' : Assignment, (∀ v < lo, x' v = x v) ∧ C.Init restr x'

theorem Circuit.Admits.of_mem {restr' : List Cube} (h : C.Admits lo P restr)
    (hmem : ∀ c, c ∈ restr' ↔ c ∈ restr) : C.Admits lo P restr' := by
  have hinit : ∀ x, C.Init restr' x ↔ C.Init restr x := fun x ↦
    and_congr_right fun _ ↦ forall_congr' fun c ↦ imp_congr_left (hmem c)
  refine ⟨fun x hx ↦ h.sound x ((hinit x).mp hx), fun x hx hP ↦ ?_⟩
  obtain ⟨x', hsame, hx'⟩ := h.complete x hx hP
  exact ⟨x', hsame, (hinit x').mpr hx'⟩

theorem Circuit.Admits.congr (h : C.Admits lo P restr) (hPQ : ∀ x, P x ↔ Q x) : C.Admits lo Q restr :=
  ⟨fun x hx ↦ (hPQ x).mp (h.sound x hx), fun x hx hQ ↦ h.complete x hx ((hPQ x).mpr hQ)⟩

theorem Circuit.Admits.append (h : C.Admits lo P restr) (h' : C.Selects hi Q cubes) (hlo : lo ≤ hi)
    (hsignals : ∀ v ∈ C.tr.signals, v < lo) (hconst : idFalse < lo)
    (hbelow : ∀ c ∈ restr, ∀ lit ∈ c, strip lit < hi)
    (hQ : ∀ x x' : Assignment, (∀ v < lo, x' v = x v) → Q x → Q x') :
    C.Admits lo (fun x ↦ P x ∧ Q x) (restr ++ cubes) := by
  refine ⟨fun x hx ↦ ?_, fun x hx hPQ ↦ ?_⟩
  · obtain ⟨hold, hnew⟩ := init_append.mp hx
    exact ⟨h.sound x hold, h'.sound x fun c hc ↦ hnew c hc (h'.state c hc)⟩
  · obtain ⟨x₁, hsame₁, hinit₁⟩ := h.complete x hx hPQ.1
    obtain ⟨x₂, hsame₂, hnew⟩ := h'.complete x₁ (hQ x x₁ hsame₁ hPQ.2)
    have hsame : ∀ v < lo, x₂ v = x v := fun v hv ↦ (hsame₂ v (by omega)).trans (hsame₁ v hv)
    refine ⟨x₂, hsame, init_append.mpr ⟨⟨?_, fun c hc hvars ↦ ?_⟩, fun c hc _ ↦ hnew c hc⟩⟩
    · exact C.wf.isInit_of_signals (hsame _ hconst) (fun v hv ↦ hsame v (hsignals v hv)) hx
    · rw [satCube_congr fun lit hl ↦ hsame₂ _ (hbelow c hc lit hl)]
      exact hinit₁.2 c hc hvars

theorem Circuit.admits_nil (C : Circuit) (lo : ℕ) : C.Admits lo (fun _ ↦ True) [] :=
  ⟨fun _ _ ↦ trivial, fun x hx _ ↦ ⟨x, fun _ _ ↦ rfl, hx, fun _ hc ↦ absurd hc List.not_mem_nil⟩⟩

theorem Circuit.Admits.live (h : C.Admits lo P restr) (hfree : C.tr.constraints = []) (hconst : idFalse < lo)
    (hx : C.tr.IsInit x) (hfalse : x idFalse = false) (hP : P x) : C.Live restr := by
  obtain ⟨x', hsame, hinit⟩ := h.complete x hx hP
  obtain ⟨x'', hframe, hstate, -⟩ := exists_sameState C.wf hfree ((hsame _ hconst).trans hfalse) fun _ ↦ false
  exact .inl ⟨x'', hframe, hinit.same hstate⟩

end Admitting

end PME.IC3
