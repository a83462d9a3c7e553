import PME.IC3.RecursiveBlock

namespace PME.IC3

open Outcome TransitionRelation InductiveTrace IC3Solver FrameSequence

namespace Setting

variable {R : Setting} {st st' : IC3Solver} {fail : Failure → Prop} {c : Cube} {k n r : ℕ}
  {trace trace' : InductiveTrace} {id : LemmaID} {ids : List LemmaID}

/-- A lemma that holds after every step from its frame is one of the next frame. -/
theorem consecution_goes (h : R.Good st) (hf : R.Allows fail) (hat : st.trace.At c (.fin k)) :
    R.Goes (fun b st' ↦ R.Asked st st' ∧
      (b = true → R.sound → R.Excludes st.trace (.fin (k + 1)) c)) fail
      (ask R.E fun B vm trace cons ↦ cons.consecution B vm trace (.fin k) c) st := by
  have hover := h.lemmas c _ hat
  have hne : R.sound → c ≠ [] := fun hs hnil ↦ (h.sem hs).nonempty _ (hnil ▸ hat)
  refine goes_ask (fun b vm fs ↦ b = true → ∃ crits, FrameSolver.Queried R.E.toBackend R.tr R.first
    st.vars st.trace st.cons (.fin k) [negateVec c] (primeVec c 1) (.unsat crits) vm fs) h
    (FrameSolver.consecution_meets h.cons (h.faults hf hover hne) (.fin k))
    fun b vm fs hb hasked ↦ ⟨hasked, fun htrue hs ↦ ?_⟩
  obtain ⟨crits, hq⟩ := hb htrue
  have hrel := hq.relInd (h.readable hs) (fun lit hl ↦ R.visible hs lit (hover lit hl)) (h.known hover)
    fun lit hl _ ↦ hl
  refine ⟨hne hs, (h.sem hs).holds.initial c _ hat, fun p hp x y _ hx hout hxy ↦ ?_⟩
  obtain rfl := before_succ hp
  exact hrel x y hxy hx hout

structure Pushed (R : Setting) (st : IC3Solver) (k : ℕ) (ids : List LemmaID) (st' : IC3Solver) :
    Prop where
  good : R.Good st'
  obls : st'.obls = st.obls
  constraints : st'.initConstraints = st.initConstraints
  up : Upward st.trace st'.trace
  others : ∀ id ∉ ids, ∀ c m, st'.trace.Entry id c m ↔ st.trace.Entry id c m
  old : ∀ id c m, st'.trace.Entry id c m → ∃ m', st.trace.Entry id c m' ∧ (m = .fin k → m' = .fin k)
  numFrames : st.trace.numFrames ≤ st'.trace.numFrames

theorem Asked.pushed (h : R.Asked st st') (ids : List ℕ) : R.Pushed st k ids st' := by
  refine ⟨h.good, h.obls, h.constraints, h.upward, fun _ _ _ _ ↦ ?_, fun id c m he ↦ ?_, ?_⟩
  · rw [h.trace]
  · rw [h.trace] at he
    exact ⟨m, he, fun hm ↦ hm⟩
  · rw [h.trace]

theorem Pushed.trans {st'' : IC3Solver} {ids' : List LemmaID} (h : R.Pushed st k ids st')
    (h' : R.Pushed st' k ids' st'') : R.Pushed st k (ids ++ ids') st'' := by
  refine ⟨h'.good, h'.obls.trans h.obls, h'.constraints.trans h.constraints, h.up.trans h'.up,
    fun id hid c m ↦ ?_, fun id c m he ↦ ?_, h.numFrames.trans h'.numFrames⟩
  · rw [List.mem_append, not_or] at hid
    exact (h'.others id hid.2 c m).trans (h.others id hid.1 c m)
  · obtain ⟨m', he', hm'⟩ := h'.old id c m he
    obtain ⟨m'', he'', hm''⟩ := h.old id c m' he'
    exact ⟨m'', he'', fun hm ↦ hm'' (hm' hm)⟩

theorem LemmaMoved.pushed (h : R.LemmaMoved st c (.fin (k + 1)) id st') (hst : R.Good st)
    (he : st.trace.Entry id c (.fin k)) (hc : R.sound → R.Excludes st.trace (.fin (k + 1)) c) :
    R.Pushed st k [id] st' := by
  refine ⟨h.good hst hc, h.obls, h.constraints, h.upward hst.cons.inv, fun i hi d m ↦ ?_,
    fun i d m hd ↦ ?_, ?_⟩
  · have hne : i ≠ id := fun heq ↦ hi (List.mem_singleton.mpr heq)
    rw [h.moved.entry]
    exact ⟨fun hor ↦ (hor.resolve_left fun heq ↦ hne heq.1).2, fun hold ↦ .inr ⟨hne, hold⟩⟩
  · cases (h.moved.entry i d m).mp hd with
    | inl heq =>
      obtain ⟨rfl, rfl, rfl⟩ := heq
      exact ⟨.fin k, he, fun _ ↦ rfl⟩
    | inr hold => exact ⟨m, hold.2, fun hm ↦ hm⟩
  · rw [h.moved.numFrames]
    exact le_max_left _ _

structure Counted (trace : InductiveTrace) (k : ℕ) (ids : List LemmaID) (r : ℕ) : Prop where
  le : r ≤ ids.length
  all : r = ids.length → ∀ id ∈ ids, ∀ c, ¬ trace.Entry id c (.fin k)
  stuck : r ≠ ids.length → ∃ id ∈ ids, ∃ c, trace.Entry id c (.fin k)

theorem Counted.stays (h : Counted trace k ids r) (he : trace.Entry id c (.fin k)) :
    Counted trace k (id :: ids) r := by
  have hle := h.le
  refine ⟨?_, fun heq ↦ ?_, fun _ ↦ ⟨id, List.mem_cons_self, c, he⟩⟩
  · rw [List.length_cons]
    omega
  · rw [List.length_cons] at heq
    omega

theorem Counted.pushed (h : Counted trace k ids r) (hno : ∀ c, ¬ trace.Entry id c (.fin k)) :
    Counted trace k (id :: ids) (r + 1) := by
  refine ⟨Nat.succ_le_succ h.le, fun heq i hi ↦ ?_, fun hne ↦ ?_⟩
  · cases List.mem_cons.mp hi with
    | inl hself => exact hself ▸ hno
    | inr hmem => exact h.all (Nat.succ_injective heq) i hmem
  · obtain ⟨i, hi, hex⟩ := h.stuck fun heq ↦ hne (congrArg Nat.succ heq)
    exact ⟨i, List.mem_cons_of_mem _ hi, hex⟩

theorem pushAll_goes (h : R.Good st) (hf : R.Allows fail) (hnodup : ids.Nodup)
    (hids : ∀ id ∈ ids, ∃ c, st.trace.Entry id c (.fin k)) :
    R.Goes (fun r st' ↦ R.Pushed st k ids st' ∧ Counted st'.trace k ids r) fail
      (pushAll R.E k ids) st := by
  induction ids generalizing st with
  | nil =>
    exact Journal.goes_pure ⟨h.asked.pushed [], le_rfl, fun _ id hid ↦ absurd hid List.not_mem_nil,
      fun hne ↦ absurd rfl hne⟩
  | cons id ids ih =>
    obtain ⟨hnew, hnodup⟩ := List.nodup_cons.mp hnodup
    obtain ⟨c, he⟩ := hids id List.mem_cons_self
    have hat := h.cons.inv.at_iff.mpr ⟨id, he⟩
    have hcube : st.trace.cubeOf id = .ok c := by
      rw [cubeOf, h.cons.inv.getLemma_eq he, ok_bind]
      rfl
    unfold pushAll
    refine Journal.goes_get_bind (Journal.goes_lift_bind (fun d ↦ d = c) ?_ fun d hd ↦ ?_)
    · rw [hcube]
      rfl
    subst hd
    refine (consecution_goes h hf hat).bind fun b st₁ hb ↦ ?_
    obtain ⟨hasked, hb⟩ := hb
    rw [← hasked.trace] at he hids hb
    cases b with
    | false =>
      rw [if_neg Bool.false_ne_true]
      refine (ih hasked.good hnodup fun i hi ↦ hids i (List.mem_cons_of_mem _ hi)).imp fun r st₂ hr ↦ ?_
      obtain ⟨hpushed, hcount⟩ := hr
      exact ⟨(hasked.pushed [id]).trans hpushed,
        hcount.stays ((hpushed.others id hnew d _).mpr he)⟩
    | true =>
      rw [if_pos rfl]
      have hex := hb rfl
      refine (pushLemma_goes hasked.good.toRep hf he (Level.fin_le_fin.mpr (Nat.le_succ k))
        fun hs ↦ (hex hs).nonempty).bind fun _ st₂ hm ↦ ?_
      have hone := hm.pushed hasked.good he hex
      refine hone.good.record_bind (fun _ hlabel ↦ by cases hlabel) ?_
      refine (ih hone.good hnodup fun i hi ↦ ?_).bind fun r st₃ hr ↦ ?_
      · obtain ⟨e, he'⟩ := hids i (List.mem_cons_of_mem _ hi)
        have hne : i ∉ [id] := fun hmem ↦ hnew (List.mem_singleton.mp hmem ▸ hi)
        exact ⟨e, (hone.others i hne e _).mpr he'⟩
      obtain ⟨hpushed, hcount⟩ := hr
      have hboth := ((hasked.pushed []).trans hone).trans hpushed
      refine Journal.goes_pure ⟨hboth, hcount.pushed fun e he' ↦ ?_⟩
      have hmoved := (hpushed.others id hnew e _).mp he'
      have hlevel := (hmoved.eq hm.moved.entry_self).2
      exact absurd (Level.fin.inj hlevel) (Nat.ne_of_lt (Nat.lt_succ_self k))

theorem eq_or_next {m : Level} (h : .fin k ≤ m) : m = .fin k ∨ .fin (k + 1) ≤ m := by
  cases m with
  | fin n =>
    obtain heq | hlt := Nat.eq_or_lt_of_le (Level.fin_le_fin.mp h)
    · exact .inl (congrArg Level.fin heq.symm)
    · exact .inr (Level.fin_le_fin.mpr hlt)
  | inf => exact .inr Level.le_inf

def Promoted (trace : InductiveTrace) (k : ℕ) (trace' : InductiveTrace) : Prop :=
  ∀ id c m, trace'.Entry id c m ↔
    (m = .inf ∧ ∃ m', .fin k ≤ m' ∧ trace.Entry id c m') ∨ (m < .fin k ∧ trace.Entry id c m)

theorem promoted_refl (hinv : trace.Inv) : Promoted trace trace.numFrames trace := by
  refine fun id c m ↦ ⟨fun he ↦ ?_, fun hor ↦ ?_⟩
  · cases m with
    | inf => exact .inl ⟨rfl, .inf, Level.le_inf, he⟩
    | fin k =>
      have hlt := hinv.needed_le (hinv.at_iff.mpr ⟨id, he⟩)
      rw [Level.needed_fin] at hlt
      exact .inr ⟨Level.fin_lt_fin.mpr hlt, he⟩
  · cases hor with
    | inl hinf =>
      obtain ⟨rfl, m', hle, he⟩ := hinf
      cases m' with
      | inf => exact he
      | fin k =>
        have hlt := hinv.needed_le (hinv.at_iff.mpr ⟨id, he⟩)
        rw [Level.needed_fin] at hlt
        exact absurd (Level.fin_le_fin.mp hle) (by omega)
    | inr hold => exact hold.2

/-- In the middle of `pushFrameToInf` nothing is known but that the parts fit together. -/
structure Moving (R : Setting) (st st' : IC3Solver) : Prop where
  rep : R.Rep st'
  obls : st'.obls = st.obls
  constraints : st'.initConstraints = st.initConstraints
  numFrames : st'.trace.numFrames = st.trace.numFrames

structure Emptying (R : Setting) (st : IC3Solver) (k : ℕ) (done : List LemmaID) (st' : IC3Solver) :
    Prop extends R.Moving st st' where
  entry : ∀ id c m, st'.trace.Entry id c m ↔
    (id ∈ done ∧ m = .inf ∧ st.trace.Entry id c (.fin k)) ∨ (id ∉ done ∧ st.trace.Entry id c m)

theorem emptying_goes (h : R.Rep st) (hf : R.Allows fail) (hne : R.sound → ∀ m, ¬ st.trace.At [] m) :
    R.Goes (fun _ st' ↦ R.Emptying st k (st.trace.frames.frame (.fin k)) st') fail
      ((st.trace.frames.frame (.fin k)).forM fun id ↦ do
        pushLemma id .inf
        record .moving) st := by
  refine Journal.goes_forM (R.Emptying st k) ⟨⟨h, rfl, rfl, rfl⟩, fun id c m ↦ ?_⟩
    fun done id rest st₁ hl h₁ ↦ ?_
  · exact ⟨fun he ↦ .inr ⟨List.not_mem_nil, he⟩, fun hor ↦ (hor.resolve_left fun hmem ↦
      List.not_mem_nil hmem.1).2⟩
  · have hnodup : (done ++ id :: rest).Nodup := hl ▸ h.cons.inv.nodup _
    have hnew : id ∉ done := (List.nodup_middle.mp hnodup).notMem ∘ List.mem_append_left rest
    have hmem : id ∈ st.trace.frames.frame (.fin k) :=
      hl ▸ List.mem_append_right done List.mem_cons_self
    obtain ⟨c, he⟩ := h.cons.inv.mem_iff.mp hmem
    have he₁ := (h₁.entry id c (.fin k)).mpr (.inr ⟨hnew, he⟩)
    refine (pushLemma_goes h₁.rep hf he₁ Level.le_inf fun hs hnil ↦ ?_).bind fun _ st₂ hm ↦ ?_
    · exact hne hs _ (h.cons.inv.at_iff.mpr ⟨id, hnil ▸ he⟩)
    refine Journal.goes_emit (fun _ ↦ ⟨hm.rep, fun hno ↦ absurd rfl hno, fun _ obl heq ↦ nomatch heq⟩)
      fun _ ↦ ⟨⟨hm.rep, hm.obls.trans h₁.obls, hm.constraints.trans h₁.constraints, ?_⟩, fun i d m ↦ ?_⟩
    · rw [hm.moved.numFrames, h₁.numFrames]
      exact max_eq_left (Nat.zero_le _)
    · rw [hm.moved.entry, h₁.entry, List.mem_append, List.mem_singleton]
      by_cases hi : i = id
      · subst hi
        constructor
        · intro hor
          obtain ⟨-, rfl, rfl⟩ := hor.resolve_right fun hno ↦ hno.1 rfl
          exact .inl ⟨.inr rfl, rfl, he⟩
        · intro hor
          obtain ⟨-, rfl, hd⟩ := hor.resolve_right fun hno ↦ hno.1 (.inr rfl)
          exact .inl ⟨rfl, (hd.eq he).1, rfl⟩
      · simp only [hi, false_and, or_false, false_or, ne_eq, not_false_eq_true, true_and]

theorem Emptying.promoted (h : R.Emptying st k (st.trace.frames.frame (.fin k)) st')
    (hinv : st.trace.Inv) (hp : Promoted trace (k + 1) st.trace) : Promoted trace k st'.trace := by
  intro id c m
  have hthere : ∀ d, st.trace.Entry id d (.fin k) ↔ trace.Entry id d (.fin k) := fun d ↦ by
    rw [hp id d]
    simp
  have hmem : id ∈ st.trace.frames.frame (.fin k) ↔ ∃ d, trace.Entry id d (.fin k) :=
    hinv.mem_iff.trans (exists_congr hthere)
  rw [h.entry, hmem, hp id c m]
  constructor
  · intro hor
    cases hor with
    | inl hsent => exact .inl ⟨hsent.2.1, .fin k, le_rfl, (hthere c).mp hsent.2.2⟩
    | inr hold =>
      obtain ⟨hno, hold⟩ := hold
      cases hold with
      | inl hinf =>
        obtain ⟨rfl, m', hle, he⟩ := hinf
        exact .inl ⟨rfl, m', (Level.fin_le_fin.mpr (Nat.le_succ k)).trans hle, he⟩
      | inr hlow =>
        refine .inr ⟨lt_of_not_ge fun hge ↦ ?_, hlow.2⟩
        cases eq_or_next hge with
        | inl heq => exact hno ⟨c, heq ▸ hlow.2⟩
        | inr hnext => exact absurd hlow.1 (not_lt_of_ge hnext)
  · intro hor
    cases hor with
    | inl hinf =>
      obtain ⟨rfl, m', hle, he⟩ := hinf
      cases eq_or_next hle with
      | inl heq =>
        subst heq
        exact .inl ⟨⟨c, he⟩, rfl, (hthere c).mpr he⟩
      | inr hnext =>
        refine .inr ⟨fun hex ↦ ?_, .inl ⟨rfl, m', hnext, he⟩⟩
        obtain ⟨d, hd⟩ := hex
        rw [(he.eq hd).2] at hnext
        exact absurd (Level.fin_le_fin.mp hnext) (by omega)
    | inr hlow =>
      refine .inr ⟨fun hex ↦ ?_, .inr ⟨hlow.1.trans (Level.fin_lt_fin.mpr (Nat.lt_succ_self k)), hlow.2⟩⟩
      obtain ⟨d, hd⟩ := hex
      rw [(hlow.2.eq hd).2] at hlow
      exact absurd hlow.1 (lt_irrefl _)

theorem Moving.trans {st'' : IC3Solver} (h : R.Moving st st') (h' : R.Moving st' st'') :
    R.Moving st st'' :=
  ⟨h'.rep, h'.obls.trans h.obls, h'.constraints.trans h.constraints, h'.numFrames.trans h.numFrames⟩

theorem Promoted.nonempty (h : Promoted trace k trace') (hinv : trace.Inv) (hinv' : trace'.Inv)
    (hne : ∀ m, ¬ trace.At [] m) (m : Level) : ¬ trace'.At [] m := by
  intro hat
  obtain ⟨id, he⟩ := hinv'.at_iff.mp hat
  cases (h id [] m).mp he with
  | inl hinf =>
    obtain ⟨-, m', -, he'⟩ := hinf
    exact hne m' (hinv.at_iff.mpr ⟨id, he'⟩)
  | inr hold => exact hne m (hinv.at_iff.mpr ⟨id, hold.2⟩)

theorem pushFramesToInf_goes (h : R.Rep st) (hf : R.Allows fail) (hinv : trace.Inv)
    (hne : R.sound → ∀ m, ¬ trace.At [] m) (hp : Promoted trace n st.trace)
    (hn : n ≤ st.trace.numFrames) :
    R.Goes (fun _ st' ↦ R.Moving st st' ∧ Promoted trace (min k n) st'.trace) fail
      (pushFramesToInf k n) st := by
  induction n generalizing st with
  | zero => exact Journal.goes_pure ⟨⟨h, rfl, rfl, rfl⟩, by rwa [Nat.min_zero]⟩
  | succ n ih =>
    unfold pushFramesToInf
    by_cases hk : k ≤ n
    · rw [if_pos hk]
      refine Journal.goes_get_bind (Journal.goes_lift_bind
        (fun frame ↦ frame = st.trace.frames.frame (.fin n)) ?_ fun frame hframe ↦ ?_)
      · have hexists : st.trace.frames.frameExists (.fin n) = true := decide_eq_true (by
          have hnum : st.trace.frames.frames.length = st.trace.numFrames := rfl
          omega)
        unfold getFrame Frames.getFrame
        rw [hexists, ensure_true]
        rfl
      subst hframe
      refine (emptying_goes h hf fun hs ↦ hp.nonempty hinv h.cons.inv (hne hs)).bind fun _ st₁ h₁ ↦ ?_
      have hle : n ≤ st₁.trace.numFrames := by
        rw [h₁.numFrames]
        omega
      refine (ih h₁.rep (h₁.promoted h.cons.inv hp) hle).imp fun _ st₂ h₂ ↦ ?_
      rw [min_eq_left (hk.trans (Nat.le_succ n))]
      rw [min_eq_left hk] at h₂
      exact ⟨h₁.toMoving.trans h₂.1, h₂.2⟩
    · rw [if_neg hk]
      refine Journal.goes_pure ⟨⟨h, rfl, rfl, rfl⟩, ?_⟩
      rwa [min_eq_right (by omega)]

theorem Promoted.at_iff (h : Promoted trace k trace') (hinv : trace.Inv) (hinv' : trace'.Inv) {d : Cube}
    {m : Level} : trace'.At d m ↔
      (m = .inf ∧ ∃ m', .fin k ≤ m' ∧ trace.At d m') ∨ (m < .fin k ∧ trace.At d m) := by
  rw [hinv'.at_iff, hinv.at_iff]
  constructor
  · intro hex
    obtain ⟨id, he⟩ := hex
    cases (h id d m).mp he with
    | inl hinf =>
      obtain ⟨rfl, m', hle, he'⟩ := hinf
      exact .inl ⟨rfl, m', hle, hinv.at_iff.mpr ⟨id, he'⟩⟩
    | inr hold => exact .inr ⟨hold.1, id, hold.2⟩
  · intro hor
    cases hor with
    | inl hinf =>
      obtain ⟨rfl, m', hle, hat⟩ := hinf
      obtain ⟨id, he⟩ := hinv.at_iff.mp hat
      exact ⟨id, (h id d .inf).mpr (.inl ⟨rfl, m', hle, he⟩)⟩
    | inr hold =>
      obtain ⟨hlt, id, he⟩ := hold
      exact ⟨id, (h id d m).mpr (.inr ⟨hlt, he⟩)⟩

theorem Promoted.upward (h : Promoted trace k trace') (hinv : trace.Inv) (hinv' : trace'.Inv) :
    Upward trace trace' := by
  intro c m hat
  obtain hlt | hge := lt_or_ge m (.fin k)
  · exact ⟨m, (h.at_iff hinv hinv').mpr (.inr ⟨hlt, hat⟩), le_rfl⟩
  · exact ⟨.inf, (h.at_iff hinv hinv').mpr (.inl ⟨rfl, m, hge, hat⟩), Level.le_inf⟩

theorem Sem.promoted (h : R.Sem trace) (hinv : trace.Inv) (hinv' : trace'.Inv)
    (hp : Promoted trace k trace') (hempty : ∀ c, ¬ trace.At c (.fin k)) : R.Sem trace' := by
  have hup := hp.upward hinv hinv'
  refine ⟨fun x hx hf ↦ h.init x hx (Frame.of_moved hf hup), ?_,
    hp.nonempty hinv hinv' h.nonempty, h.alive.imp_right fun hex ↦ ?_⟩
  · refine h.holds.promoted (fun m ↦ Level.le_inf) (fun p ↦ before_inf) (fun d m ↦ hp.at_iff hinv hinv')
      fun d m hle hat ↦ ?_
    cases eq_or_next hle with
    | inl heq => exact absurd (heq ▸ hat) (hempty d)
    | inr hnext => exact exists_before hnext
  · obtain ⟨c, ℓ, hat, hlit⟩ := hex
    obtain ⟨m, hat', -⟩ := hup c ℓ hat
    exact ⟨c, m, hat', hlit⟩

structure Promotable (trace : InductiveTrace) (k : ℕ) : Prop where
  pos : 0 < k
  lt : k < trace.numFrames
  below : k = 1 ∨ ∃ id c, trace.Entry id c (.fin (k - 1))
  empty : ∀ id c, ¬ trace.Entry id c (.fin k)

structure Raised (R : Setting) (st st' : IC3Solver) : Prop where
  good : R.Good st'
  obls : st'.obls = st.obls
  constraints : st'.initConstraints = st.initConstraints
  up : Upward st.trace st'.trace

theorem Raised.trans {st'' : IC3Solver} (h : R.Raised st st') (h' : R.Raised st' st'') :
    R.Raised st st'' :=
  ⟨h'.good, h'.obls.trans h.obls, h'.constraints.trans h.constraints, h.up.trans h'.up⟩

theorem Good.raised (h : R.Good st) : R.Raised st st := ⟨h, rfl, rfl, .refl _⟩

theorem Pushed.raised (h : R.Pushed st k ids st') : R.Raised st st' :=
  ⟨h.good, h.obls, h.constraints, h.up⟩

theorem Rep.same_entries (h : R.Rep st) (hinv : trace.Inv)
    (he : ∀ i c ℓ, trace.Entry i c ℓ ↔ st.trace.Entry i c ℓ) : R.Rep { st with trace := trace } := by
  have hat : ∀ c ℓ, trace.At c ℓ ↔ st.trace.At c ℓ := fun c ℓ ↦
    hinv.at_iff.trans ((exists_congr fun i ↦ he i c ℓ).trans h.cons.inv.at_iff.symm)
  exact ⟨h.cons.same_entries hinv he, h.lift.moved fun c hc ↦ (hat c .inf).mpr hc, h.tr_eq, h.kept,
    fun c ℓ hc ↦ h.lemmas c ℓ ((hat c ℓ).mp hc)⟩

theorem Promotable.unusedFrom_eq (h : Promotable trace k) (hinv' : trace'.Inv)
    (hp : Promoted trace k trace') (hnum : trace'.numFrames = trace.numFrames) :
    trace'.unusedFrom (trace'.numFrames - 1) trace'.numFrames = k := by
  have hlt := h.lt
  have hpos := h.pos
  have hbelow : k = 1 ∨ trace'.frames.frame (.fin (k - 1)) ≠ [] := by
    refine h.below.imp_right fun hex ↦ ?_
    obtain ⟨id, c, he⟩ := hex
    have hlow : (Level.fin (k - 1)) < .fin k := Level.fin_lt_fin.mpr (by omega)
    exact List.ne_nil_of_mem (hinv'.mem_iff.mpr ⟨c, (hp id c _).mpr (.inr ⟨hlow, he⟩)⟩)
  have habove : ∀ j, k ≤ j → trace'.frames.frame (.fin j) = [] := by
    intro j hj
    refine List.eq_nil_iff_forall_not_mem.mpr fun id hmem ↦ ?_
    obtain ⟨c, he⟩ := hinv'.mem_iff.mp hmem
    cases (hp id c _).mp he with
    | inl hinf => exact nomatch hinf.1
    | inr hlow => exact absurd (Level.fin_lt_fin.mp hlow.1) (by omega)
  have heq := InductiveTrace.unusedFrom_eq hpos hbelow habove (i := trace'.numFrames - 1) (by omega)
  rwa [Nat.sub_add_cancel (by omega)] at heq

theorem pushFrameToInf_goes (h : R.Good st) (hf : R.Allows fail)
    (hc : R.sound → Promotable st.trace k) :
    R.Goes (fun _ st' ↦ R.Raised st st' ∧ Promoted st.trace k st'.trace ∧ st'.trace.numFrames = k) fail
      (pushFrameToInf k) st := by
  unfold pushFrameToInf
  refine goes_check_bind hf (fun hs ↦ decide_eq_true (hc hs).pos) fun _ ↦ Journal.goes_get_bind ?_
  refine (pushFramesToInf_goes (k := k) h.toRep hf h.cons.inv (fun hs ↦ (h.sem hs).nonempty)
    (promoted_refl h.cons.inv) le_rfl).bind fun _ st₁ h₁ ↦ ?_
  obtain ⟨hmoving, hp⟩ := h₁
  have hframes : st₁.trace.numFrames = 0 → st₁.trace.frames.frame .inf = [] → fail .assertion := by
    intro hzero _
    refine hf.unsound (fun hs ↦ ?_) _
    have hlt := (hc hs).lt
    rw [← hmoving.numFrames, hzero] at hlt
    exact Nat.not_lt_zero k hlt
  refine Journal.goes_get_bind (Journal.goes_lift_bind _
    (clearUnusedFrames_meets hmoving.rep.cons.inv hframes) fun trace' ht ↦ Journal.goes_set_bind ?_)
  obtain ⟨hinv', hentry, -, hnum⟩ := ht
  have hcleared := hmoving.rep.same_entries hinv' hentry
  have hp' : Promoted st.trace (min k st.trace.numFrames) trace' := fun id c m ↦
    (hentry id c m).trans (hp id c m)
  have hgood : R.Good { st₁ with trace := trace' } := by
    refine ⟨hcleared, fun hs ↦ ?_⟩
    rw [min_eq_left (hc hs).lt.le] at hp'
    refine (h.sem hs).promoted h.cons.inv hinv' hp' fun c hat ↦ ?_
    obtain ⟨id, he⟩ := h.cons.inv.at_iff.mp hat
    exact (hc hs).empty id c he
  refine goes_check_bind hf (fun hs ↦ decide_eq_true (hnum.trans ?_)) fun hcheck ↦ ?_
  · rw [min_eq_left (hc hs).lt.le] at hp
    exact (hc hs).unusedFrom_eq hmoving.rep.cons.inv hp hmoving.numFrames
  · have hrest : R.Goes (fun _ st' ↦ st' = { st₁ with trace := trace' }) fail (record .promoted)
        { st₁ with trace := trace' } := Journal.goes_emit (fun _ ↦ hgood.safe nofun) fun _ ↦ rfl
    refine hrest.imp fun _ st₂ heq ↦ ?_
    subst heq
    have hlevel : trace'.numFrames = k := of_decide_eq_true hcheck
    have hle : k ≤ st.trace.numFrames := by
      rw [← hlevel, hnum, ← hmoving.numFrames]
      exact (InductiveTrace.unusedFrom_numFrames st₁.trace).1
    refine ⟨⟨hgood, hmoving.obls, hmoving.constraints, hp'.upward h.cons.inv hinv'⟩, ?_, hlevel⟩
    rwa [min_eq_left hle] at hp'

structure Passing (trace : InductiveTrace) (k : ℕ) : Prop where
  pos : 0 < k
  below : ∀ j, 0 < j → j < k → ∃ id c, trace.Entry id c (.fin j)

theorem Passing.le (h : Passing trace k) (hids : ∀ id c m, trace.Entry id c m → id < n) : k ≤ n + 1 := by
  choose! f c hf using h.below
  have hmaps : ∀ j ∈ Finset.Ico 1 k, f j ∈ Finset.range n := by
    intro j hj
    obtain ⟨hpos, hlt⟩ := Finset.mem_Ico.mp hj
    exact Finset.mem_range.mpr (hids _ _ _ (hf j hpos hlt))
  have hinj : Set.InjOn f (Finset.Ico 1 k) := by
    intro i hi j hj heq
    obtain ⟨hi, hik⟩ := Finset.mem_Ico.mp hi
    obtain ⟨hj, hjk⟩ := Finset.mem_Ico.mp hj
    have he := hf i hi hik
    rw [heq] at he
    exact Level.fin.inj (he.eq (hf j hj hjk)).2
  have hcard := Finset.card_le_card_of_injOn f hmaps hinj
  rw [Nat.card_Ico, Finset.card_range] at hcard
  omega

theorem Pushed.passing (h : R.Pushed st k (st.trace.frames.frame (.fin k)) st') (hinv : st.trace.Inv)
    (hp : Passing st.trace k) : Passing st'.trace k := by
  refine ⟨hp.pos, fun j hpos hlt ↦ ?_⟩
  obtain ⟨id, c, he⟩ := hp.below j hpos hlt
  refine ⟨id, c, (h.others id (fun hmem ↦ ?_) c _).mpr he⟩
  obtain ⟨d, hd⟩ := hinv.mem_iff.mp hmem
  exact absurd (Level.fin.inj (he.eq hd).2) hlt.ne

structure Swept (R : Setting) (st st' : IC3Solver) : Prop extends R.Raised st st' where
  old : ∀ c m, st'.trace.At c m → ∃ m', st.trace.At c m'
  filled : ∀ j, 0 < j → j < st'.trace.numFrames → ∃ c, st'.trace.At c (.fin j)

theorem Swept.after {st'' : IC3Solver} (h : R.Swept st' st'') (hst : R.Pushed st k ids st')
    (hinv : st.trace.Inv) : R.Swept st st'' := by
  refine ⟨hst.raised.trans h.toRaised, fun c m hat ↦ ?_, h.filled⟩
  obtain ⟨m', hat'⟩ := h.old c m hat
  obtain ⟨id, he⟩ := hst.good.cons.inv.at_iff.mp hat'
  obtain ⟨m'', he', -⟩ := hst.old id c m' he
  exact ⟨m'', hinv.at_iff.mpr ⟨id, he'⟩⟩

theorem Passing.filled (h : Passing trace k) (hinv : trace.Inv) :
    ∀ j, 0 < j → j < k → ∃ c, trace.At c (.fin j) := by
  intro j hpos hlt
  obtain ⟨id, c, he⟩ := h.below j hpos hlt
  exact ⟨c, hinv.at_iff.mpr ⟨id, he⟩⟩

theorem Raised.swept (h : R.Raised st st') (hinv : st.trace.Inv) (hp : Promoted st.trace k st'.trace)
    (hnum : st'.trace.numFrames = k) (hpass : Passing st.trace k) : R.Swept st st' := by
  refine ⟨h, fun c m hat ↦ ?_, fun j hpos hlt ↦ ?_⟩
  · cases (hp.at_iff hinv h.good.cons.inv).mp hat with
    | inl hinf =>
      obtain ⟨-, m', -, hat'⟩ := hinf
      exact ⟨m', hat'⟩
    | inr hlow => exact ⟨m, hlow.2⟩
  · rw [hnum] at hlt
    obtain ⟨c, hat⟩ := hpass.filled hinv j hpos hlt
    exact ⟨c, (hp.at_iff hinv h.good.cons.inv).mpr (.inr ⟨Level.fin_lt_fin.mpr hlt, hat⟩)⟩

theorem pushLemmasFrom_goes {N : ℕ} (h : R.Good st) (hf : R.Allows fail) (hp : Passing st.trace k)
    (hids : ∀ id c m, st.trace.Entry id c m → id < N) (hn : N + 2 ≤ n + k) :
    R.Goes (fun _ st' ↦ R.Swept st st') fail (pushLemmasFrom R.E n k) st := by
  induction n generalizing st k with
  | zero =>
    have hle := hp.le hids
    omega
  | succ n ih =>
    unfold pushLemmasFrom
    refine Journal.goes_get_bind ?_
    by_cases hk : k < st.trace.numFrames
    · rw [if_pos hk]
      refine Journal.goes_lift_bind
        (fun frame ↦ frame = st.trace.frames.frame (.fin k)) ?_ fun frame hframe ↦ ?_
      · have hexists : st.trace.frames.frameExists (.fin k) = true := decide_eq_true hk
        unfold getFrame Frames.getFrame
        rw [hexists, ensure_true]
        rfl
      subst hframe
      have hinv := h.cons.inv
      refine (pushAll_goes h hf (hinv.nodup _) fun id hid ↦ hinv.mem_iff.mp hid).bind fun r st₁ hr ↦ ?_
      obtain ⟨hpushed, hcount⟩ := hr
      have hpassing := hpushed.passing hinv hp
      by_cases hall : r = (st.trace.frames.frame (.fin k)).length
      · rw [if_pos hall]
        refine (pushFrameToInf_goes hpushed.good hf fun _ ↦
          ⟨hp.pos, hk.trans_le hpushed.numFrames, ?_, fun id c he ↦ ?_⟩).imp fun _ st₂ h₂ ↦
            (h₂.1.swept hpushed.good.cons.inv h₂.2.1 h₂.2.2 hpassing).after hpushed hinv
        · by_cases hone : k = 1
          · exact .inl hone
          · have hpos := hp.pos
            exact .inr (hpassing.below (k - 1) (by omega) (by omega))
        · by_cases hmem : id ∈ st.trace.frames.frame (.fin k)
          · exact hcount.all hall id hmem c he
          · exact hmem (hinv.mem_iff.mpr ⟨c, (hpushed.others id hmem c _).mp he⟩)
      · rw [if_neg hall]
        refine (ih hpushed.good ⟨Nat.succ_pos k, fun j hpos hlt ↦ ?_⟩ (fun id c m he ↦ ?_)
          (by omega)).imp fun _ st₂ h₂ ↦ h₂.after hpushed hinv
        · obtain rfl | hbelow := Nat.eq_or_lt_of_le (Nat.le_of_lt_succ hlt)
          · obtain ⟨id, -, c, he⟩ := hcount.stuck hall
            exact ⟨id, c, he⟩
          · exact hpassing.below j hpos hbelow
        · obtain ⟨m', he', -⟩ := hpushed.old id c m he
          exact hids id c m' he'
    · rw [if_neg hk]
      exact Journal.goes_pure ⟨h.raised, fun c m hat ↦ ⟨m, hat⟩, fun j hpos hlt ↦
        hp.filled h.cons.inv j hpos (hlt.trans_le (Nat.le_of_not_lt hk))⟩

theorem pushLemmas_goes (h : R.Good st) (hf : R.Allows fail) :
    R.Goes (fun _ st' ↦ R.Swept st st') fail (pushLemmas R.E) st := by
  unfold pushLemmas
  refine Journal.goes_get_bind (pushLemmasFrom_goes (N := st.trace.lemmas.length) h hf
    ⟨Nat.one_pos, fun j hpos hlt ↦ absurd hlt (by omega)⟩ (fun id c m he ↦ ?_) (by omega))
  obtain ⟨d, hd, -⟩ := he
  exact (List.getElem?_eq_some_iff.mp hd).1

end Setting

end PME.IC3
