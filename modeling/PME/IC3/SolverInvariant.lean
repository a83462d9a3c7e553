import PME.Lib.FrameSequence
import PME.IC3.Lifting
import PME.IC3.IC3Solver

namespace PME

namespace TransitionRelation

variable {tr : TransitionRelation} {x x' y : Assignment}

def StateVar (tr : TransitionRelation) (v : ℕ) : Prop :=
  v = idFalse ∨ v ∈ tr.latchIDs ∨ (¬ tr.Mentions v ∧ v ∉ tr.signals)

def SameState (tr : TransitionRelation) (x x' : Assignment) : Prop := ∀ v, tr.StateVar v → x v = x' v

theorem WellFormed.latch_stateVar (h : tr.WellFormed) {l : Latch} (hl : l ∈ tr.latches) :
    tr.StateVar l.id := .inr (.inl (h.latch_mem hl))

theorem SameState.linked (hs : tr.SameState x x') (hwf : tr.WellFormed) (hy : tr.Linked y x)
    (hx' : tr.IsFrame x') : tr.Linked y x' := by
  refine ⟨hy.fst, hx', fun l hl ↦ ?_⟩
  rw [← hs l.id (hwf.latch_stateVar hl)]
  exact hy.step l hl

theorem exists_sameState (hwf : tr.WellFormed) (hfree : tr.constraints = [])
    (hx : x idFalse = false) (u : ℕ → Bool) : ∃ x', tr.IsFrame x' ∧ tr.SameState x x' ∧
      ∀ v ∈ tr.inputIDs, x' v = u v := by
  classical
  have hinput : ∀ v ∈ tr.inputIDs, v ∉ tr.gateIDs ∧ minId ≤ v := fun v hv ↦
    ⟨hwf.not_gate (List.mem_append_left _ hv),
      (hwf.isVar v (mem_signals.mpr (.inl (List.mem_append_left _ hv)))).1⟩
  have hconst : idFalse ∉ tr.inputIDs := fun hmem ↦ absurd (hinput _ hmem).2 (by decide)
  obtain ⟨x', hx', hval⟩ := exists_isFrame hwf hfree
    (u := fun v ↦ if v ∈ tr.inputIDs then u v else x v) ((if_neg hconst).trans hx)
  refine ⟨x', hx', fun v hv ↦ ?_, fun v hv ↦ (hval v (hinput v hv).1).trans (if_pos hv)⟩
  obtain rfl | hlatch | hout := hv
  · exact hx.trans hx'.const.symm
  · have hno : v ∉ tr.inputIDs := fun hmem ↦
      List.disjoint_of_nodup_append (List.nodup_append.mp hwf.nodup).1 hmem hlatch
    rw [hval v (hwf.not_gate (List.mem_append_right _ hlatch)), if_neg hno]
  · have hno := mt mem_signals.mpr hout.2
    rw [not_or, List.mem_append, not_or] at hno
    rw [hval v hno.2, if_neg hno.1.1]

end TransitionRelation

namespace IC3

open Outcome TransitionRelation InductiveTrace FrameSequence

def Before : Level → Level → Prop
  | .fin n, .fin m => m = n + 1
  | .inf, .inf => True
  | _, _ => False

theorem Before.le {p ℓ : Level} (h : Before p ℓ) : p ≤ ℓ := by
  cases p with
  | fin n =>
    cases ℓ with
    | fin m =>
      have heq : m = n + 1 := h
      exact Level.fin_le_fin.mpr (by omega)
    | inf => exact h.elim
  | inf =>
    cases ℓ with
    | fin m => exact h.elim
    | inf => exact le_rfl

theorem before_inf {p : Level} (h : Before p .inf) : p = .inf := by
  cases p with
  | fin n => exact h.elim
  | inf => rfl

theorem before_succ {p : Level} {k : ℕ} (h : Before p (.fin (k + 1))) : p = .fin k := by
  cases p with
  | fin n => rw [Nat.succ_injective (show k + 1 = n + 1 from h)]
  | inf => exact h.elim

theorem exists_before {n : ℕ} {m : Level} (h : .fin (n + 1) ≤ m) : ∃ p, Before p m ∧ .fin n ≤ p := by
  cases m with
  | fin k =>
    have hle := Level.fin_le_fin.mp h
    exact ⟨.fin (k - 1), show k = k - 1 + 1 by omega, Level.fin_le_fin.mpr (by omega)⟩
  | inf => exact ⟨.inf, trivial, Level.le_inf⟩

theorem eq_inf {m : Level} (h : .inf ≤ m) : m = .inf := by
  cases m with
  | fin k => exact absurd h Level.not_inf_le_fin
  | inf => rfl

/-- What does not change while a solver works: the circuit, the literals that lemmas may have,
and the initial states. If it is sound to, the lemmas are about them. -/
structure Setting where
  E : Engines
  tr : TransitionRelation
  first : ℕ
  lits : ℕ → Prop
  init : Assignment → Prop
  strict : Prop
  sound : Prop
  wf : tr.WellFormed
  owned : FrameSolver.Owned tr first
  latch : ∀ lit, strip lit ∈ tr.latchIDs → lits lit
  bad : lits tr.bad
  free : sound → tr.constraints = []
  visible : sound → ∀ lit, lits lit → Visible tr lit
  state : sound → ∀ x x', tr.SameState x x' → init x → init x'

namespace Setting

variable (R : Setting)

def Start (x : Assignment) : Prop := R.init x ∧ R.tr.IsFrame x

def Over (c : Cube) : Prop := ∀ lit ∈ c, R.lits lit

def Initiated (c : Cube) : Prop := ∀ x, R.Start x → ¬ satCube x c

structure Sem (trace : InductiveTrace) : Prop where
  init : ∀ x, R.tr.IsFrame x → InFrame trace (.fin 0) x → R.init x
  holds : Holds R.strict R.Start R.tr.Linked Before satCube trace.At
  nonempty : ∀ m, ¬ trace.At [] m
  /-- There is an initial state, unless lemmas about latches leave none. -/
  alive : (∃ x, R.Start x) ∨ ∃ c ℓ, trace.At c ℓ ∧ ∃ lit ∈ c, strip lit ∈ R.tr.latchIDs

structure Rep (s : IC3Solver) : Prop where
  cons : FrameSolver.Rep R.E.toBackend R.tr R.first s.vars s.trace s.cons
  lift : UNSATCoreLifter.Rep R.E.toBackend R.tr s.trace s.lift
  tr_eq : s.tr = R.tr
  kept : ∀ lit, R.lits lit → strip lit < s.vars.nextID ∧ strip lit ∉ s.cons.activation
  lemmas : ∀ c ℓ, s.trace.At c ℓ → R.Over c

structure Good (s : IC3Solver) : Prop extends R.Rep s where
  sem : R.sound → R.Sem s.trace

def Kept (ev : Event) : Prop := R.strict → ∀ lit s, ev.label = .dropped lit s → lit ∉ s

structure Safe (ev : Event) : Prop where
  rep : R.Rep ev.solver
  good : ev.label ≠ .moving → R.Good ev.solver
  popped : R.sound → ∀ obl, ev.label = .popped obl → 0 < obl.level → R.Initiated obl.cti

abbrev Goes {α : Type} (post : α → IC3Solver → Prop) (fail : Failure → Prop) (x : IC3M α)
    (s : IC3Solver) : Prop := Journal.Goes R.Kept R.Safe post fail x s

structure Allows (fail : Failure → Prop) : Prop where
  ids : fail .idsExhausted
  unsound : ¬ R.sound → ∀ e, fail e

end Setting

variable {R : Setting} {s s' s'' : IC3Solver} {trace trace' : InductiveTrace} {c : Cube}
  {ℓ m : Level} {id : LemmaID} {fail : Failure → Prop} {n : ℕ} {x x' y : Assignment}

namespace Setting

theorem Over.subset {c' : Cube} (h : R.Over c) (hs : c' ⊆ c) : R.Over c' := fun lit hl ↦ h lit (hs hl)

theorem Initiated.superset {c' : Cube} (h : R.Initiated c) (hs : c ⊆ c') : R.Initiated c' :=
  fun x hx hc ↦ h x hx (satCube_subset hs hc)

theorem over_of_latches (h : ∀ lit ∈ c, strip lit ∈ R.tr.latchIDs) : R.Over c :=
  fun lit hl ↦ R.latch lit (h lit hl)

theorem exists_next (hs : R.sound) (hx : R.tr.IsFrame x) : ∃ y, R.tr.Linked x y :=
  (exists_linked R.wf (R.free hs) hx (u := fun _ ↦ false) rfl).imp fun _ h ↦ h.1

theorem Start.same (h : R.Start x) (hs : R.sound) (hxx' : R.tr.SameState x x')
    (hx' : R.tr.IsFrame x') : R.Start x' := ⟨R.state hs x x' hxx' h.1, hx'⟩

theorem reach_same (hs : R.sound) (h : Reach R.Start R.tr.Linked n x) (hxx' : R.tr.SameState x x')
    (hx' : R.tr.IsFrame x') : Reach R.Start R.tr.Linked n x' := by
  cases h with
  | start hx => exact .start (hx.same hs hxx' hx')
  | step hw hwx => exact .step hw (hxx'.linked R.wf hwx hx')

theorem Sem.reach_fin (h : R.Sem trace) (hx : Reach R.Start R.tr.Linked n x) :
    InFrame trace (.fin n) x :=
  h.holds.frame_of_reach Level.fin (fun n ↦ Level.fin_le_fin.mpr (Nat.le_succ n))
    (fun _ _ ↦ exists_before) hx

theorem Sem.reach_inf (h : R.Sem trace) (hx : Reach R.Start R.tr.Linked n x) :
    InFrame trace .inf x :=
  h.holds.frame_of_reach (fun _ ↦ Level.inf) (fun _ ↦ le_rfl)
    (fun _ m hm ↦ ⟨.inf, by rw [eq_inf hm]; exact trivial, le_rfl⟩) hx

theorem Sem.start_iff (h : R.Sem trace) (hx : R.tr.IsFrame x) :
    R.Start x ↔ InFrame trace (.fin 0) x :=
  ⟨fun hs ↦ h.holds.frame_of_init hs, fun hf ↦ ⟨h.init x hx hf, hx⟩⟩

theorem Sem.intersects_iff (h : R.Sem trace) (hs : R.sound) :
    Intersects R.tr trace (.fin 0) c ↔ ¬ R.Initiated c := by
  constructor
  · intro hex hinit
    obtain ⟨x, y, hxy, hx, hc⟩ := hex
    exact hinit x ((h.start_iff hxy.fst).mpr hx) hc
  · intro hno
    by_contra hnone
    refine hno fun x hx hc ↦ hnone ?_
    obtain ⟨y, hxy⟩ := exists_next hs hx.2
    exact ⟨x, y, hxy, (h.start_iff hx.2).mp hx, hc⟩

structure Excludes (R : Setting) (trace : InductiveTrace) (ℓ : Level) (c : Cube) : Prop where
  nonempty : c ≠ []
  initiated : R.Initiated c
  next : ∀ p, Before p ℓ → ∀ x y, R.strict ∨ Via R.Start R.tr.Linked (InFrame trace p) x →
    InFrame trace p x → ¬ satCube x c → R.tr.Linked x y → ¬ satCube y c

theorem holds_moved (h : Holds R.strict R.Start R.tr.Linked Before satCube trace.At) (hinv : trace.Inv)
    (hm : Moved trace c ℓ id trace') (hc : R.Excludes trace ℓ c) :
    Holds R.strict R.Start R.tr.Linked Before satCube trace'.At := by
  refine h.moved (fun p ℓ ↦ Before.le) (fun d m ↦ hm.at_iff hinv) (fun m hat ↦ ?_) hc.initiated hc.next
  obtain ⟨i, he⟩ := hinv.at_iff.mp hat
  obtain rfl := hm.other i m he
  exact (hm.before c m he).2

theorem nonempty_moved (h : ∀ m, ¬ trace.At [] m) (hinv : trace.Inv) (hm : Moved trace c ℓ id trace')
    (hc : c ≠ []) (m : Level) : ¬ trace'.At [] m := by
  intro hat
  cases (hm.at_iff hinv).mp hat with
  | inl heq => exact hc heq.1.symm
  | inr hold => exact h m hold.2

theorem moved_up (hinv : trace.Inv) (hm : Moved trace c ℓ id trace') {d : Cube}
    (hat : trace.At d m) : ∃ m', trace'.At d m' ∧ m ≤ m' := by
  by_cases hd : d = c
  · subst hd
    obtain ⟨i, he⟩ := hinv.at_iff.mp hat
    obtain rfl := hm.other i m he
    exact ⟨ℓ, (hm.at_iff hinv).mpr (.inl ⟨rfl, rfl⟩), (hm.before d m he).2⟩
  · exact ⟨m, (hm.at_iff hinv).mpr (.inr ⟨hd, hat⟩), le_rfl⟩

theorem Sem.moved (h : R.Sem trace) (hinv : trace.Inv) (hm : Moved trace c ℓ id trace')
    (hc : R.Excludes trace ℓ c) : R.Sem trace' := by
  have hup : ∀ d m, trace.At d m → ∃ m', trace'.At d m' ∧ m ≤ m' := fun _ _ ↦ moved_up hinv hm
  refine ⟨fun x hx hf ↦ h.init x hx (Frame.of_moved hf hup), holds_moved h.holds hinv hm hc,
    nonempty_moved h.nonempty hinv hm hc.nonempty, h.alive.imp_right fun hex ↦ ?_⟩
  obtain ⟨d, m, hat, hlit⟩ := hex
  obtain ⟨m', hat', -⟩ := hup d m hat
  exact ⟨d, m', hat', hlit⟩

theorem Rep.known (h : R.Rep s) (hc : R.Over c) : FrameSolver.Known s.vars s.cons c :=
  fun lit hl ↦ h.kept lit (hc lit hl)

theorem Good.readable (h : R.Good s) (hs : R.sound) :
    FrameSolver.Readable R.tr R.first s.trace :=
  ⟨R.wf, R.owned, fun c ℓ hat lit hl ↦ R.visible hs lit (h.lemmas c ℓ hat lit hl)⟩

structure SameLemmas (s s' : IC3Solver) : Prop where
  trace : s'.trace = s.trace
  constraints : s'.initConstraints = s.initConstraints

theorem SameLemmas.refl : SameLemmas s s := ⟨rfl, rfl⟩

theorem SameLemmas.trans (h : SameLemmas s s') (h' : SameLemmas s' s'') : SameLemmas s s'' :=
  ⟨h'.trace.trans h.trace, h'.constraints.trans h.constraints⟩

structure Asked (R : Setting) (s s' : IC3Solver) : Prop extends SameLemmas s s' where
  good : R.Good s'
  obls : s'.obls = s.obls

theorem Good.asked (h : R.Good s) : R.Asked s s := ⟨.refl, h, rfl⟩

theorem Asked.trans (h : R.Asked s s') (h' : R.Asked s' s'') : R.Asked s s'' :=
  ⟨h.toSameLemmas.trans h'.toSameLemmas, h'.good, h'.obls.trans h.obls⟩

theorem Good.after (h : R.Good s) {vm : VariableManager} {fs : FrameSolver}
    (ha : FrameSolver.After R.E.toBackend R.tr R.first s.vars s.trace s.cons vm fs) :
    R.Good { s with vars := vm, cons := fs } := by
  refine ⟨⟨ha.rep, h.lift, h.tr_eq, fun lit hl ↦ ?_, h.lemmas⟩, h.sem⟩
  have hknown : FrameSolver.Known s.vars s.cons [lit] := fun l hmem ↦
    List.mem_singleton.mp hmem ▸ h.kept lit hl
  exact ha.newer.known hknown lit List.mem_cons_self

theorem Good.safe (h : R.Good s) {label : Label} (hpop : ∀ obl, label ≠ .popped obl) :
    R.Safe ⟨label, s⟩ :=
  ⟨h.toRep, fun _ ↦ h, fun _ obl heq ↦ absurd heq (hpop obl)⟩

theorem goes_ask {α : Type} {query : Backend → VariableManager → InductiveTrace → FrameSolver →
      Result (α × VariableManager × FrameSolver)}
    {q : α → IC3Solver → Prop} (post : α → VariableManager → FrameSolver → Prop) (h : R.Good s)
    (hx : Meets (fun r ↦ FrameSolver.After R.E.toBackend R.tr R.first s.vars s.trace s.cons r.2.1 r.2.2 ∧
      post r.1 r.2.1 r.2.2) fail (query R.E.toBackend s.vars s.trace s.cons))
    (hq : ∀ a vm fs, post a vm fs → R.Asked s { s with vars := vm, cons := fs } →
      q a { s with vars := vm, cons := fs }) :
    R.Goes q fail (IC3Solver.ask R.E query) s := by
  have hlift : R.Goes (fun (r : α × VariableManager × FrameSolver) s' ↦ s' = s ∧
      FrameSolver.After R.E.toBackend R.tr R.first s.vars s.trace s.cons r.2.1 r.2.2 ∧
      post r.1 r.2.1 r.2.2) fail (Journal.lift (query R.E.toBackend s.vars s.trace s.cons)) s :=
    Journal.goes_lift (hx.imp fun r hr ↦ ⟨rfl, hr⟩)
  unfold IC3Solver.ask
  refine Journal.goes_get_bind (hlift.bind fun r s' hr ↦ ?_)
  obtain ⟨a, vm, fs⟩ := r
  obtain ⟨rfl, hafter, hpost⟩ := hr
  have hgood := h.after hafter
  refine Journal.goes_set_bind ?_
  have hrecord : R.Goes (fun _ s'' ↦ s'' = { s' with vars := vm, cons := fs }) fail
      (record .changed) { s' with vars := vm, cons := fs } :=
    Journal.goes_emit (fun _ ↦ hgood.safe nofun) fun _ ↦ rfl
  refine hrecord.bind fun _ s'' hs ↦ ?_
  subst hs
  exact Journal.goes_pure (hq a vm fs hpost ⟨⟨rfl, rfl⟩, hgood, rfl⟩)

theorem goes_check {b : Bool} {post : Unit → IC3Solver → Prop} (hf : R.Allows fail)
    (hb : R.sound → b = true) (h : b = true → post () s) : R.Goes post fail (check b) s := by
  refine Journal.goes_lift ?_
  cases b with
  | true => exact h rfl
  | false => exact hf.unsound (fun hs ↦ Bool.false_ne_true (hb hs)) .assertion

theorem goes_check_bind {α : Type} {b : Bool} {f : Unit → IC3M α} {q : α → IC3Solver → Prop}
    (hf : R.Allows fail) (hb : R.sound → b = true) (h : b = true → R.Goes q fail (f ()) s) :
    R.Goes q fail (check b >>= f) s := by
  refine Journal.goes_lift_bind (fun _ ↦ b = true) ?_ fun _ hb' ↦ h hb'
  cases b with
  | true => rfl
  | false => exact hf.unsound (fun hs ↦ Bool.false_ne_true (hb hs)) .assertion

theorem Good.record_bind {α : Type} {label : Label} {f : Unit → IC3M α} {q : α → IC3Solver → Prop}
    (h : R.Good s) (hpop : ∀ obl, label ≠ .popped obl) (hf : R.Goes q fail (f ()) s) :
    R.Goes q fail (record label >>= f) s :=
  Journal.goes_emit_bind (fun _ ↦ h.safe hpop) fun _ ↦ hf

theorem Good.mayFail (h : R.Good s) (hf : R.Allows fail) :
    FrameSolver.MayFail R.E.toBackend R.tr s.vars s.trace s.cons fail := by
  refine ⟨fun _ ↦ hf.ids, fun m hat ↦ hf.unsound (fun hs ↦ (h.sem hs).nonempty m hat) _, ?_⟩
  refine (computeSimplifiedTR_meets R.wf R.E.toBackend fun hno ↦ hf.unsound (fun hs ↦ ?_) _).imp
    fun unrolled hu ↦ hu.nonempty
  obtain ⟨x, hx, -⟩ := exists_isFrame R.wf (R.free hs) (u := fun _ ↦ false) rfl
  obtain ⟨y, hxy⟩ := exists_next hs hx
  have hlink := exists_linked_iff R.wf.toLitsValid R.wf.latches_nodup (fun _ _ ↦ True)
    fun _ _ _ _ _ _ _ ↦ trivial
  obtain ⟨σ, hσ, -⟩ := hlink.mpr ⟨x, y, hxy, trivial⟩
  exact hno ⟨σ, hσ⟩

theorem nprimes_visible {tr : TransitionRelation} {lit : ℕ} (h : Visible tr lit) : nprimes lit = 0 := by
  have hmax := h.1.2
  rw [maxId_eq] at hmax
  rw [nprimes_eq (by omega)]
  omega

theorem Good.faults (h : R.Good s) (hf : R.Allows fail) (hc : R.Over c) (hne : R.sound → c ≠ []) :
    FrameSolver.Faults R.E.toBackend R.tr R.first s.vars s.trace s.cons fail c := by
  refine ⟨h.mayFail hf, fun hnil ↦ hf.unsound (fun hs ↦ hne hs hnil) _, fun hex ↦ ?_⟩
  obtain ⟨lit, hl, hprimes⟩ := hex
  exact hf.unsound (fun hs ↦ hprimes (nprimes_visible (R.visible hs lit (hc lit hl)))) _

def Askable (R : Setting) (c : Cube) : Prop :=
  (∃ lit ∈ c, strip lit ∈ R.tr.latchIDs) ∨ R.Initiated c

theorem initiation_goes (h : R.Good s) (hf : R.Allows fail) (hc : R.Over c)
    (hask : R.sound → c ≠ [] → R.Askable c) :
    R.Goes (fun b s' ↦ R.Asked s s' ∧ (R.sound → (b = true ↔ c ≠ [] ∧ R.Initiated c))) fail
      (IC3Solver.initiation R.E c) s := by
  unfold IC3Solver.initiation
  by_cases hnil : c = []
  · subst hnil
    rw [List.isEmpty_nil, if_pos rfl]
    exact Journal.goes_pure ⟨h.asked, fun _ ↦ ⟨nofun, fun hno ↦ absurd rfl hno.1⟩⟩
  rw [if_neg fun hempty ↦ hnil (List.isEmpty_iff.mp hempty)]
  have hmeets := FrameSolver.intersection_meets h.cons R.wf (h.mayFail hf) (c := c)
    (fun hno ↦ absurd hno hnil) (.fin 0) fun m vm fs hq hne hno ↦ hf.unsound (fun hs ↦ ?_) _
  · have hgoes : R.Goes (fun b s' ↦ R.Asked s s' ∧ (R.sound → (b = true ↔ ¬ R.Initiated c))) fail
        (IC3Solver.ask R.E fun B vm trace cons ↦ cons.intersection B vm trace (.fin 0) c) s := by
      refine goes_ask (fun b _ _ ↦ FrameSolver.Readable R.tr R.first s.trace →
        (∀ lit ∈ c, Visible R.tr lit) → FrameSolver.Known s.vars s.cons c →
        (b = true ↔ Intersects R.tr s.trace (.fin 0) c)) h hmeets fun b vm fs hb hasked ↦
          ⟨hasked, fun hs ↦ ?_⟩
      rw [hb (h.readable hs) (fun lit hl ↦ R.visible hs lit (hc lit hl)) (h.known hc)]
      exact (h.sem hs).intersects_iff hs
    refine hgoes.bind fun b s' hpost ↦ Journal.goes_pure ⟨hpost.1, fun hs ↦ ?_⟩
    rw [Bool.not_eq_true', ← Bool.not_eq_true, hpost.2 hs, not_not]
    exact ⟨fun hinit ↦ ⟨hnil, hinit⟩, fun hboth ↦ hboth.2⟩
  · cases hask hs hnil with
    | inl hlatch =>
      obtain ⟨lit, hl, hmem⟩ := hlatch
      exact hno _ hmem (hq.knows_now lit (List.mem_append_right _ hl))
    | inr hinit =>
      have hex := hq.intersects (h.readable hs) fun lit hl ↦ R.visible hs lit (hc lit hl)
      exact ((h.sem hs).intersects_iff hs).mp hex hinit

end Setting

end IC3

end PME
