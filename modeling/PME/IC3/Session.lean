import PME.IC3.Initialization

namespace PME.IC3

open Outcome TransitionRelation InductiveTrace IC3Solver FrameSequence

/-- The solvers that calls make. The lemmas of a solver are about the initial states that the
second list leaves; its first frame has those that the first list leaves. -/
inductive Session (C : Circuit) : List Cube → List Cube → IC3Solver → Prop
  | new {vars : VariableManager} {st : IC3Solver} (hvars : vars.Inv) (hfirst : C.first ≤ vars.nextID)
      (hr : IC3Solver.new vars C.tr = .ok st) : Session C [] [] st
  /-- Others make variables too. -/
  | made {base restr : List Cube} {st : IC3Solver} {vars : VariableManager}
      (h : Session C base restr st) (hvars : vars.Inv) (hle : st.vars.nextID ≤ vars.nextID) :
      Session C base restr { st with vars := vars }
  | restrict {base restr : List Cube} {st st' : IC3Solver} {cls : Clause}
      (h : Session C base restr st) (hlits : ∀ lit ∈ cls, C.Lit st lit)
      (hstate : C.sound → ∀ lit ∈ cls, C.tr.StateVar (strip lit))
      (hr : st.restrictInitialStates cls = .ok st') : Session C base restr st'
  | clear {base restr : List Cube} {st : IC3Solver} (h : Session C base restr st) :
      Session C base restr st.clearRestrictions
  /-- Lemmas may be about restrictions that the first frame does not have yet. -/
  | pledge {base restr : List Cube} {st : IC3Solver} (h : Session C base restr st) :
      Session C base (restr ++ st.initConstraints) st
  | expanded {base restr : List Cube} {st st' : IC3Solver} (h : Session C base restr st)
      (hr : st.initialStatesExpanded = .ok st') :
      Session C st.initConstraints st.initConstraints st'
  | restricted {base restr : List Cube} {st st' : IC3Solver} (h : Session C base restr st)
      (hr : st.initialStatesRestricted = .ok st') :
      Session C (base ++ st.initConstraints) (restr ++ st.initConstraints) st'
  /-- A lemma from outside is one that holds. -/
  | addLemma {base restr : List Cube} {st st' : IC3Solver} {c : Cube} {ℓ : Level} {id : LemmaID}
      (h : Session C base restr st) (hover : (C.setting restr st).Over c)
      (hc : C.sound → (C.setting restr st).Excludes st.trace ℓ (sortCube c))
      (hr : (IC3Solver.addLemma c ℓ st).2 = .ok (id, st')) : Session C base restr st'
  | prove {base restr : List Cube} {st st' : IC3Solver} {target : Cube} {fuel : ℕ} {r : SafetyResult}
      (h : Session C base restr st) (hbase : C.sound → restr ⊆ base ∧ C.Live restr)
      (hover : (C.setting restr st).Over target) (htarget : C.sound → target = [C.tr.bad])
      (hkept : ∀ ev ∈ (proveTarget C.E fuel target st).1, (C.setting restr st).Kept ev)
      (hr : (proveTarget C.E fuel target st).2 = .ok (r, st')) : Session C base restr st'

namespace Circuit

open Setting

variable {C : Circuit} {base restr : List Cube} {st st' : IC3Solver} {fail : Failure → Prop}

structure Between (C : Circuit) (base restr : List Cube) (st : IC3Solver) : Prop where
  rep : (C.setting restr st).Rep st
  initial : C.sound → ∀ x, C.tr.IsFrame x → InFrame st.trace (.fin 0) x → C.Init base x
  holds : C.sound → Holds C.strict (C.setting restr st).Start C.tr.Linked Before satCube st.trace.At
  nonempty : C.sound → ∀ m, ¬ st.trace.At [] m
  named : C.sound → ∀ c ∈ base, ∃ m, st.trace.At (sortCube c) m
  waiting : ∀ c ∈ st.initConstraints, ∀ lit ∈ c, C.Lit st lit
  states : C.sound → ∀ c ∈ st.initConstraints, c ≠ [] ∧ ∀ lit ∈ c, C.tr.StateVar (strip lit)

theorem lit_mono (h : (C.setting restr st).Rep st') {lit : ℕ} (hl : C.Lit st lit) : C.Lit st' lit := by
  refine ⟨.inr fun l hmem ↦ ?_, hl.2⟩
  rw [List.mem_singleton.mp hmem]
  exact h.kept lit hl

theorem Rep.relit (h : (C.setting restr st).Rep st') : (C.setting restr st').Rep st' := by
  refine ⟨h.cons, h.lift, h.tr_eq, fun lit hl ↦ ?_, fun c ℓ hat lit hl ↦ lit_mono h (h.lemmas c ℓ hat lit hl)⟩
  cases hl.1 with
  | inl hlow =>
    refine ⟨hlow.trans_le h.cons.first_le, fun hmem ↦ ?_⟩
    exact absurd (h.cons.act _ hmem).2.1 (not_le_of_gt hlow)
  | inr hknown => exact hknown lit List.mem_cons_self

theorem named_up {trace trace' : InductiveTrace} {c : Cube} (hup : Upward trace trace')
    (h : ∃ m, trace.At c m) : ∃ m, trace'.At c m := by
  obtain ⟨m, hat⟩ := h
  obtain ⟨m', hat', -⟩ := hup c m hat
  exact ⟨m', hat'⟩

/-- With initial states, or restrictions of latches, the solver can tell initial states from others. -/
theorem Between.good (h : C.Between base restr st) (hbase : C.sound → restr ⊆ base ∧ C.Live restr) :
    (C.setting restr st).Good st := by
  refine ⟨h.rep, fun hs ↦ ⟨fun x hx hf ↦ ?_, h.holds hs, h.nonempty hs, ?_⟩⟩
  · have hinit := h.initial hs x hx hf
    exact ⟨hinit.1, fun c hc ↦ hinit.2 c ((hbase hs).1 hc)⟩
  · refine (hbase hs).2.imp (fun hex ↦ ?_) fun hex ↦ ?_
    · obtain ⟨x, hx, hinit⟩ := hex
      exact ⟨x, hinit, hx⟩
    · obtain ⟨c, hc, lit, hl, hmem⟩ := hex
      obtain ⟨m, hat⟩ := h.named hs c ((hbase hs).1 hc)
      exact ⟨_, m, hat, lit, mem_sortCube.mpr hl, hmem⟩

theorem satCube_sortCube {x : Assignment} {c : Cube} : satCube x (sortCube c) ↔ satCube x c :=
  ⟨satCube_subset fun _ hl ↦ mem_sortCube.mpr hl, satCube_subset fun _ hl ↦ mem_sortCube.mp hl⟩

theorem initState_excluded {x : Assignment} (hx : x idFalse = false) :
    (∀ c ∈ C.tr.initState.map negateVec, ¬ satCube x c) ↔ C.tr.IsInit x := by
  rw [← satClauses_initState C.wf.toLitsValid hx, List.forall_mem_map]
  refine forall₂_congr fun cls _ ↦ ?_
  rw [satCube_negateVec, not_not]

theorem init_append {cubes : List Cube} {x : Assignment} :
    C.Init (restr ++ cubes) x ↔ C.Init restr x ∧
      ∀ c ∈ cubes, (∀ lit ∈ c, C.tr.StateVar (strip lit)) → ¬ satCube x c := by
  unfold Init
  rw [List.forall_mem_append, and_assoc]

structure Starting (C : Circuit) (base restr : List Cube) (s : IC3Solver) : Prop where
  vars : s.vars.Inv
  first_le : C.first ≤ s.vars.nextID
  tr_eq : s.tr = C.tr
  inv : s.trace.Inv
  lits : ∀ c ℓ, s.trace.At c ℓ → ∀ lit ∈ c, C.Lit s lit
  initial : C.sound → ∀ x, C.tr.IsFrame x → InFrame s.trace (.fin 0) x →
    ∀ c ∈ base, (∀ lit ∈ c, C.tr.StateVar (strip lit)) → ¬ satCube x c
  holds : C.sound → Holds C.strict (C.setting restr s).Start C.tr.Linked Before satCube s.trace.At
  nonempty : C.sound → ∀ m, ¬ s.trace.At [] m
  named : C.sound → ∀ c ∈ base, ∃ m, s.trace.At (sortCube c) m
  waiting : ∀ c ∈ s.initConstraints, ∀ lit ∈ c, C.Lit s lit
  states : C.sound → ∀ c ∈ s.initConstraints, c ≠ [] ∧ ∀ lit ∈ c, C.tr.StateVar (strip lit)

theorem Starting.between {s s' : IC3Solver} (h : C.Starting base restr s)
    (hr : s.initializeSolver = .ok s') :
    C.Between (base ++ s.initConstraints) (restr ++ s.initConstraints) s' := by
  obtain ⟨trace, hadded, rfl⟩ := post_of_ok (initializeSolver_meets h.inv fun _ _ _ ↦ trivial) hr
  rw [h.tr_eq] at hadded
  have hlit : ∀ lit, C.Lit s lit → C.Lit { s with trace := trace }.resetSAT lit := by
    intro lit hl
    refine ⟨hl.1.imp_right fun hknown l hmem ↦ ⟨(hknown l hmem).1, List.not_mem_nil⟩, hl.2⟩
  have hnew : ∀ c ∈ C.tr.initState.map negateVec ++ s.initConstraints, ∀ lit ∈ c, C.Lit s lit := by
    intro c hc lit hl
    cases List.mem_append.mp hc with
    | inl hinit =>
      obtain ⟨cls, hcls, rfl⟩ := List.mem_map.mp hinit
      obtain ⟨l, rfl, hmem⟩ := mem_initState C.wf hcls
      obtain rfl := List.mem_singleton.mp hl
      exact (C.setting restr s).latch _ (by rwa [strip_negate])
    | inr hwait => exact h.waiting c hwait lit hl
  have hover : ∀ c ℓ, trace.At c ℓ → ∀ lit ∈ c, C.Lit s lit := by
    intro c ℓ hat lit hl
    cases hadded.new c ℓ hat with
    | inl hold => exact h.lits c ℓ hold lit hl
    | inr hex =>
      obtain ⟨-, d, hd, rfl⟩ := hex
      exact hnew d hd lit (mem_sortCube.mp hl)
  have hbelow : ∀ lit, C.Lit s lit → strip lit < s.vars.nextID := fun lit hl ↦
    hl.1.elim (fun hlow ↦ hlow.trans_le h.first_le) fun hknown ↦ (hknown lit List.mem_cons_self).1
  have hout : ∀ c ∈ C.tr.initState.map negateVec ++ s.initConstraints, ∀ x, InFrame trace (.fin 0) x →
      ¬ satCube x c := by
    intro c hc x hx
    obtain ⟨m, hat⟩ := hadded.present c hc
    refine mt satCube_sortCube.mpr (hx _ m hat ?_)
    cases m with
    | fin n => exact Level.fin_le_fin.mpr (Nat.zero_le n)
    | inf => exact Level.le_inf
  refine ⟨⟨?_, h.tr_eq ▸ UNSATCoreLifter.rep_new, h.tr_eq, fun lit hl ↦ ⟨?_, List.not_mem_nil⟩,
    fun c ℓ hat lit hl ↦ hlit lit (hover c ℓ hat lit hl)⟩, fun hs x hx hf ↦ ?_, fun hs ↦ ?_,
    fun hs m hat ↦ ?_, fun hs c hc ↦ ?_, fun c hc lit hl ↦ hlit lit (h.waiting c hc lit hl), h.states⟩
  · have hrep : FrameSolver.Rep C.E.toBackend C.tr C.first s.vars trace (FrameSolver.new C.tr) :=
      FrameSolver.rep_new h.vars h.first_le hadded.inv fun c ℓ hat lit hl ↦
        hbelow lit (hover c ℓ hat lit hl)
    exact h.tr_eq ▸ hrep
  · exact hl.1.elim (fun hlow ↦ hlow.trans_le h.first_le) fun hknown ↦ (hknown lit List.mem_cons_self).1
  · have hold : InFrame s.trace (.fin 0) x := Frame.of_moved hf hadded.up
    refine init_append.mpr ⟨⟨?_, h.initial hs x hx hold⟩, fun c hc _ ↦ ?_⟩
    · exact (initState_excluded hx.const).mp fun c hc ↦ hout c (List.mem_append_left _ hc) x hf
    · exact hout c (List.mem_append_right _ hc) x hf
  · refine Holds.added ((h.holds hs).restrict fun x hx ↦ ⟨(init_append.mp hx.1).1, hx.2⟩) hadded.up
      fun c m hat ↦ (hadded.new c m hat).imp_right fun hex ↦ ?_
    obtain ⟨rfl, d, hd, rfl⟩ := hex
    refine ⟨fun x hx ↦ mt satCube_sortCube.mp ?_, fun p hp ↦ ?_⟩
    · obtain ⟨hinit, hcubes⟩ := init_append.mp hx.1
      cases List.mem_append.mp hd with
      | inl hstart => exact (initState_excluded hx.2.const).mpr hinit.1 d hstart
      | inr hwait => exact hcubes d hwait (h.states hs d hwait).2
    · cases p with
      | fin n => exact Nat.succ_ne_zero n (Eq.symm hp)
      | inf => exact hp
  · cases hadded.new [] m hat with
    | inl hold => exact h.nonempty hs m hold
    | inr hex =>
      obtain ⟨-, d, hd, hnil⟩ := hex
      have hempty : d = [] := List.eq_nil_iff_forall_not_mem.mpr fun lit hl ↦
        List.not_mem_nil (hnil ▸ mem_sortCube.mpr hl)
      cases List.mem_append.mp hd with
      | inl hstart =>
        obtain ⟨cls, hcls, rfl⟩ := List.mem_map.mp hstart
        obtain ⟨l, rfl, -⟩ := mem_initState C.wf hcls
        exact List.cons_ne_nil _ _ hempty
      | inr hwait => exact (h.states hs d hwait).1 hempty
  · cases List.mem_append.mp hc with
    | inl hbase =>
      exact named_up hadded.up (h.named hs c hbase)
    | inr hwait => exact hadded.present c (List.mem_append_right _ hwait)

theorem starting_new {s : IC3Solver} (hvars : s.vars.Inv) (hfirst : C.first ≤ s.vars.nextID)
    (htr : s.tr = C.tr) (hwait : ∀ c ∈ s.initConstraints, ∀ lit ∈ c, C.Lit s lit)
    (hstates : C.sound → ∀ c ∈ s.initConstraints, c ≠ [] ∧ ∀ lit ∈ c, C.tr.StateVar (strip lit)) :
    C.Starting [] [] { s with trace := .new } := by
  refine ⟨hvars, hfirst, htr, inv_new, fun c ℓ hat ↦ absurd hat not_at_new, fun _ _ _ _ ↦ nofun,
    fun _ ↦ ⟨fun c ℓ hat ↦ absurd hat not_at_new, fun c ℓ p hat ↦ absurd hat not_at_new⟩,
    fun _ m ↦ not_at_new, fun _ ↦ nofun, hwait, hstates⟩

theorem Between.starting (h : C.Between base restr st) : C.Starting base restr st :=
  ⟨h.rep.cons.vars, h.rep.cons.first_le, h.rep.tr_eq, h.rep.cons.inv, h.rep.lemmas,
    fun hs x hx hf ↦ (h.initial hs x hx hf).2, h.holds, h.nonempty, h.named, h.waiting, h.states⟩

theorem Between.with_vars (h : C.Between base restr st) {vars : VariableManager} (hvars : vars.Inv)
    (hle : st.vars.nextID ≤ vars.nextID) : C.Between base restr { st with vars := vars } := by
  have hlit : ∀ lit, C.Lit st lit → C.Lit { st with vars := vars } lit := fun lit hl ↦
    ⟨hl.1.imp_right fun hknown l hmem ↦ ⟨(hknown l hmem).1.trans_le hle, (hknown l hmem).2⟩, hl.2⟩
  have hcons := h.rep.cons.with_vars hvars hle
  refine ⟨⟨hcons, h.rep.lift, h.rep.tr_eq, fun lit hl ↦ ?_, fun c ℓ hat lit hl ↦
    hlit lit (h.rep.lemmas c ℓ hat lit hl)⟩, h.initial, h.holds, h.nonempty, h.named,
    fun c hc lit hl ↦ hlit lit (h.waiting c hc lit hl), h.states⟩
  refine hl.1.elim (fun hlow ↦ ⟨hlow.trans_le hcons.first_le, fun hmem ↦ ?_⟩) fun hknown ↦
    hknown lit List.mem_cons_self
  exact absurd (hcons.act _ hmem).2.1 (not_le_of_gt hlow)

theorem lit_negate {lit : ℕ} (h : C.Lit st lit) : C.Lit st (negate lit) := by
  refine ⟨?_, fun hs ↦ ⟨(h.2 hs).1.negate, ?_⟩⟩
  · rw [strip_negate]
    refine h.1.imp_right fun hknown l hmem ↦ ?_
    rw [List.mem_singleton.mp hmem, strip_negate]
    exact hknown lit List.mem_cons_self
  · rw [strip_negate]
    exact (h.2 hs).2

theorem addLemma_events (c : Cube) (ℓ : Level) (st : IC3Solver) :
    (IC3Solver.addLemma c ℓ st).1 = [] := by
  have hnone : Journal.Goes (fun _ ↦ True) (fun _ ↦ False) (fun _ _ ↦ True) (fun _ ↦ True)
      (IC3Solver.addLemma c ℓ) st := by
    unfold IC3Solver.addLemma
    refine Journal.goes_get_bind ?_
    refine Journal.goes_lift_bind _ (meets_of_ok (fun _ ↦ trivial) fun _ _ ↦ trivial) fun r _ ↦ ?_
    refine Journal.goes_lift_bind _ (meets_of_ok (fun _ ↦ trivial) fun _ _ ↦ trivial) fun r' _ ↦ ?_
    exact Journal.goes_set_bind (Journal.goes_pure trivial)
  exact List.eq_nil_iff_forall_not_mem.mpr (hnone fun _ _ ↦ trivial).1

end Circuit

open Circuit Setting

theorem Session.between {C : Circuit} {base restr : List Cube} {st : IC3Solver}
    (h : Session C base restr st) : C.Between base restr st := by
  induction h with
  | @new vars st hvars hfirst hr =>
    exact (starting_new (s := ⟨vars, C.tr, .new, [], .new C.tr, .new C.tr, []⟩) hvars hfirst rfl nofun
      fun _ ↦ nofun).between hr
  | made _ hvars hle ih => exact ih.with_vars hvars hle
  | @restrict base restr st st' cls _ hlits hstate hr ih =>
    unfold restrictInitialStates at hr
    obtain ⟨_, hne, hr⟩ := bind_eq_ok.mp hr
    obtain rfl := Except.ok.inj hr
    have hcls : cls ≠ [] := by
      rintro rfl
      exact nomatch hne
    have hcube : ∀ lit ∈ sortCube (negateVec cls), ∃ l ∈ cls, strip lit = strip l := by
      intro lit hl
      obtain ⟨l, hmem, rfl⟩ := List.mem_map.mp (mem_sortCube.mp hl)
      exact ⟨l, hmem, strip_negate l⟩
    refine ⟨⟨ih.rep.cons, ih.rep.lift, ih.rep.tr_eq, ih.rep.kept, ih.rep.lemmas⟩, ih.initial, ih.holds,
      ih.nonempty, ih.named, fun c hc lit hl ↦ ?_, fun hs c hc ↦ ?_⟩
    · cases List.mem_append.mp hc with
      | inl hold => exact ih.waiting c hold lit hl
      | inr hnew =>
        rw [List.mem_singleton.mp hnew] at hl
        obtain ⟨l, hmem, rfl⟩ := List.mem_map.mp (mem_sortCube.mp hl)
        exact lit_negate (hlits l hmem)
    · cases List.mem_append.mp hc with
      | inl hold => exact ih.states hs c hold
      | inr hnew =>
        rw [List.mem_singleton.mp hnew]
        refine ⟨fun hnil ↦ ?_, fun lit hl ↦ ?_⟩
        · obtain ⟨l, hmem⟩ := List.exists_mem_of_ne_nil cls hcls
          exact List.not_mem_nil (hnil ▸ mem_sortCube.mpr (List.mem_map_of_mem hmem))
        · obtain ⟨l, hmem, heq⟩ := hcube lit hl
          exact heq ▸ hstate hs l hmem
  | clear _ ih =>
    exact ⟨⟨ih.rep.cons, ih.rep.lift, ih.rep.tr_eq, ih.rep.kept, ih.rep.lemmas⟩, ih.initial, ih.holds,
      ih.nonempty, ih.named, nofun, fun _ ↦ nofun⟩
  | @pledge base restr st _ ih =>
    exact ⟨⟨ih.rep.cons, ih.rep.lift, ih.rep.tr_eq, ih.rep.kept, ih.rep.lemmas⟩, ih.initial,
      fun hs ↦ (ih.holds hs).restrict fun x hx ↦ ⟨(init_append.mp hx.1).1, hx.2⟩, ih.nonempty, ih.named,
      ih.waiting, ih.states⟩
  | @expanded base restr st st' _ hr ih =>
    exact (starting_new ih.rep.cons.vars ih.rep.cons.first_le ih.rep.tr_eq ih.waiting ih.states).between hr
  | @restricted base restr st st' _ hr ih => exact ih.starting.between hr
  | @addLemma base restr st st' c ℓ id _ hover hc hr ih =>
    have hgoes : (C.setting restr st).Goes (fun id st' ↦ (C.setting restr st).LemmaMoved st (sortCube c) ℓ
        id st') (fun _ ↦ True) (IC3Solver.addLemma c ℓ) st :=
      addLemma_moves ih.rep trivial hover (fun _ _ _ ↦ trivial) fun _ ↦ trivial
    have hm := (hgoes (by rw [addLemma_events]; exact nofun)).2.of_ok hr
    have hinv := ih.rep.cons.inv
    have hup := hm.upward hinv
    exact ⟨Rep.relit hm.rep, fun hs x hx hf ↦ ih.initial hs x hx (Frame.of_moved hf hup),
      fun hs ↦ holds_moved (ih.holds hs) hinv hm.moved (hc hs),
      fun hs ↦ nonempty_moved (ih.nonempty hs) hinv hm.moved (hc hs).nonempty,
      fun hs d hd ↦ named_up hup (ih.named hs d hd),
      fun d hd lit hl ↦ lit_mono hm.rep (ih.waiting d (hm.constraints ▸ hd) lit hl),
      fun hs ↦ hm.constraints ▸ ih.states hs⟩
  | @prove base restr st st' target fuel r _ hbase hover htarget hkept hr ih =>
    have hall : (C.setting restr st).Allows fun _ ↦ True := ⟨trivial, fun _ _ ↦ trivial⟩
    have hgoes : (C.setting restr st).Goes _ _ (proveTarget C.E fuel target) st :=
      proveTarget_goes (ih.good hbase) hall trivial (fun _ _ ↦ trivial) hover htarget
    have hans := (hgoes hkept).2.of_ok hr
    have hrep := Rep.relit hans.good.toRep
    exact ⟨hrep, fun hs x hx hf ↦ ih.initial hs x hx (Frame.of_moved hf hans.up),
      fun hs ↦ (hans.good.sem hs).holds, fun hs ↦ (hans.good.sem hs).nonempty,
      fun hs d hd ↦ named_up hans.up (ih.named hs d hd),
      fun c hc lit hl ↦ lit_mono hans.good.toRep (ih.waiting c (hans.constraints ▸ hc) lit hl),
      fun hs ↦ hans.constraints ▸ ih.states hs⟩

end PME.IC3
