import PME.IC3.Pushing

namespace PME.IC3

open Outcome TransitionRelation InductiveTrace IC3Solver FrameSequence

namespace Setting

variable {R : Setting} {st st' : IC3Solver} {fail : Failure → Prop} {target : Cube} {k n fuel : ℕ}
  {trace : InductiveTrace}

def ShownInitial (R : Setting) (target : Cube) (p : Cube × Cube) : Prop :=
  ∃ x, R.Start x ∧ satCube x target ∧ FrameSolver.Displayed R.tr x p.1

structure Blind (R : Setting) (trace : InductiveTrace) (target : Cube) : Prop where
  initial : ∃ x, R.Start x ∧ satCube x target
  lemmas : ∀ c ℓ, trace.At c ℓ → ∀ lit ∈ c, strip lit ∉ R.tr.latchIDs
  moves : ∀ l ∈ R.tr.latches, l.next ≠ l.id

theorem blind_of_query (h : R.Good st) (hs : R.sound) (hover : R.Over target) {m : Assignment}
    {vm : VariableManager} {fs : FrameSolver} (hq : FrameSolver.Queried R.E.toBackend R.tr R.first
      st.vars st.trace st.cons (.fin 0) [] target (.sat m) vm fs)
    (hno : ∀ l ∈ R.tr.latchIDs, l ∉ fs.solver.known) : R.Blind st.trace target := by
  obtain ⟨sent, hsent, hall⟩ := hq.sent hq.inited
  obtain ⟨x, y, hxy, hx, hcube⟩ := hq.intersects (h.readable hs) fun lit hl ↦ R.visible hs lit (hover lit hl)
  refine ⟨?_, fun c ℓ hat lit hl hmem ↦ ?_, fun l hl heq ↦ ?_⟩
  · exact ⟨x, ((h.sem hs).start_iff hxy.fst).mpr hx, hcube⟩
  · refine hno _ hmem (hsent.known _ ?_)
    rw [← strip_negate, hsent.clauses]
    refine mem_varsOf (List.mem_append_right _ (List.mem_map_of_mem (hall c ℓ hat))) ?_
    have hneg : negate lit ∈ negateVec c := List.mem_map_of_mem hl
    cases ℓ with
    | inf => exact hneg
    | fin n => exact List.mem_append_left _ hneg
  · exact hq.toRep.not_held hq.inited R.wf hno hxy hl heq

theorem checkInitial_ends (h : R.Good st) (hf : R.Allows fail) (hover : R.Over target)
    (hnil : target = [] → fail .assertion)
    (hblind : R.sound → R.Blind st.trace target → fail .assertion) :
    R.Goes (fun r st' ↦ R.Asked st st' ∧ (R.sound → match r with
      | some cex => ∃ p, cex = [⟨p.2, p.1⟩] ∧ R.ShownInitial target p
      | none => R.Initiated target)) fail (checkInitial R.E target) st := by
  have hvis := fun (hs : R.sound) lit hl ↦ R.visible hs lit (hover lit hl)
  unfold checkInitial
  have hask : R.Goes (fun r st' ↦ R.Asked st st' ∧ (R.sound → match r with
      | some p => R.ShownInitial target p
      | none => R.Initiated target)) fail
      (ask R.E fun B vm trace cons ↦ cons.intersectionFull B vm trace (.fin 0) target) st := by
    refine goes_ask (FrameSolver.Found R.E.toBackend R.tr R.first st.vars st.trace st.cons (.fin 0)
        target) h
      (FrameSolver.intersectionFull_meets h.cons R.wf (h.mayFail hf) hnil (.fin 0)
        fun m vm fs hq _ hno ↦ ?_) fun r vm fs hr hasked ↦ ⟨hasked, fun hs ↦ ?_⟩
    · by_cases hs : R.sound
      · exact hblind hs (blind_of_query h hs hover hq hno)
      · exact hf.unsound hs _
    cases r with
    | none =>
      obtain ⟨crits, hq⟩ := hr
      have hno := hq.not_intersects (h.readable hs) (hvis hs) (h.known hover)
      exact not_not.mp (mt ((h.sem hs).intersects_iff hs).mpr hno)
    | some p =>
      obtain ⟨m, hstate, -, hq⟩ := hr
      obtain ⟨x, y, hxy, hx, hshown, hval⟩ := hq.displayed (h.readable hs)
      refine ⟨x, ((h.sem hs).start_iff hxy.fst).mpr hx, fun lit hl ↦ ?_, hstate ▸ hshown⟩
      rw [hval lit (hvis hs lit hl) (hq.knows_now lit (List.mem_append_right _ hl))]
      exact hq.valid.2 lit (List.mem_append_right _ hl)
  refine hask.bind fun r st₁ hr ↦ ?_
  cases r with
  | none => exact Journal.goes_pure hr
  | some p => exact Journal.goes_pure ⟨hr.1, fun hs ↦ ⟨p, rfl, hr.2 hs⟩⟩

theorem checkInitial_goes (h : R.Good st) (hover : R.Over target) :
    R.Goes (fun r st' ↦ R.Asked st st' ∧ (R.sound → match r with
      | some cex => ∃ p, cex = [⟨p.2, p.1⟩] ∧ R.ShownInitial target p
      | none => R.Initiated target)) (fun _ ↦ True) (checkInitial R.E target) st :=
  checkInitial_ends h ⟨trivial, fun _ _ ↦ trivial⟩ hover (fun _ ↦ trivial) fun _ _ ↦ trivial

def Closed (R : Setting) (trace : InductiveTrace) (target : Cube) : Prop :=
  ∀ x, R.tr.IsFrame x → InFrame trace .inf x → ¬ satCube x target

theorem isSafe_goes (h : R.Good st) (hf : R.Allows fail) (hover : R.Over target)
    (hc : R.sound → target = [R.tr.bad] ∧ R.Initiated [R.tr.bad]) :
    R.Goes (fun b st' ↦ R.Asked st st' ∧ (b = true → R.sound → R.Closed st.trace target)) fail
      (isSafe R.E target) st := by
  have hinv := h.cons.inv
  unfold isSafe
  refine Journal.goes_get_bind (Journal.goes_lift_bind
    (fun b ↦ b = true → st.trace.At target .inf) ?_ fun b hb ↦ ?_)
  · by_cases hex : st.trace.lemmaExists target = true
    · obtain ⟨i, ℓ, he⟩ := hinv.lemmaExists_iff.mp hex
      rw [if_pos hex, hinv.getLemmaOf_eq he, ok_bind]
      intro hlevel
      obtain rfl : ℓ = .inf := eq_of_beq hlevel
      exact hinv.at_iff.mpr ⟨i, he⟩
    · rw [if_neg hex]
      exact nofun
  cases b with
  | true =>
    rw [if_pos rfl]
    exact Journal.goes_pure ⟨h.asked, fun _ _ x _ hx ↦ hx target .inf (hb rfl) le_rfl⟩
  | false =>
    rw [if_neg Bool.false_ne_true]
    have hask : R.Goes (fun b st' ↦ R.Asked st st' ∧ (b = false → R.sound → R.Closed st.trace target))
        fail (ask R.E fun B vm trace cons ↦ cons.intersection B vm trace .inf target) st := by
      refine goes_ask (fun b _ _ ↦ FrameSolver.Readable R.tr R.first st.trace →
        (∀ lit ∈ target, Visible R.tr lit) → FrameSolver.Known st.vars st.cons target →
        (b = true ↔ Intersects R.tr st.trace .inf target)) h
        (FrameSolver.intersection_meets h.cons R.wf (h.mayFail hf) (fun hnil ↦
          hf.unsound (fun hs ↦ ?_) _) .inf fun m vm fs hq hne hno ↦ hf.unsound (fun hs ↦ ?_) _)
        fun b vm fs hb hasked ↦ ⟨hasked, fun hfalse hs x hx hframe hcube ↦ ?_⟩
      · rw [(hc hs).1] at hnil
        exact List.cons_ne_nil _ _ hnil
      · obtain ⟨rfl, hinit⟩ := hc hs
        have hbad : strip R.tr.bad ∉ R.tr.latchIDs := fun hmem ↦
          hno _ hmem (hq.knows_now _ (List.mem_append_right _ List.mem_cons_self))
        obtain ⟨x, y, hxy, -, hcube⟩ := hq.intersects (h.readable hs) fun lit hl ↦
          R.visible hs lit (hover lit hl)
        have hfalse := (h.sem hs).not_blind hs hq.toRep hq.inited hno hbad hinit hxy.fst
        exact nomatch hfalse.symm.trans (hcube _ List.mem_cons_self)
      · obtain ⟨y, hxy⟩ := exists_next hs hx
        have hiff := hb (h.readable hs) (fun lit hl ↦ R.visible hs lit (hover lit hl)) (h.known hover)
        rw [hfalse] at hiff
        exact nomatch hiff.mpr ⟨x, y, hxy, hframe, hcube⟩
    refine hask.bind fun b st₁ hb ↦ Journal.goes_pure ⟨hb.1, fun htrue ↦ hb.2 ?_⟩
    simpa using htrue

structure Proved (R : Setting) (st : IC3Solver) (target : Cube) (r : Option SafetyCounterExample)
    (st' : IC3Solver) : Prop where
  good : R.Good st'
  constraints : st'.initConstraints = st.initConstraints
  up : Upward st.trace st'.trace
  found : R.sound → ∀ cex, r = some cex → R.Shows target cex
  closed : R.sound → r = none → R.Closed st'.trace target

theorem Proved.after {r : Option SafetyCounterExample} {st₁ : IC3Solver}
    (h : R.Proved st₁ target r st') (hc : st₁.initConstraints = st.initConstraints)
    (hup : Upward st.trace st₁.trace) : R.Proved st target r st' :=
  ⟨h.good, h.constraints.trans hc, hup.trans h.up, h.found, h.closed⟩

theorem Covered.single {lit : ℕ} (h : Covered trace [lit] k) (hne : ∀ m, ¬ trace.At [] m) :
    ∃ m, trace.At [lit] m ∧ .fin k ≤ m := by
  obtain ⟨c, m, hat, hsub, hlen, hle⟩ := h
  cases c with
  | nil => exact absurd hat (hne m)
  | cons l rest =>
    obtain rfl : rest = [] := List.eq_nil_of_length_eq_zero (by
      rw [List.length_cons, List.length_singleton] at hlen
      omega)
    obtain rfl := List.mem_singleton.mp (hsub List.mem_cons_self)
    exact ⟨m, hat, hle⟩

theorem levelOf_meets (hinv : trace.Inv) {m : Level} (hat : trace.At target m) :
    Meets (fun level ↦ level = m) fail (trace.levelOf target) := by
  obtain ⟨id, he⟩ := hinv.at_iff.mp hat
  unfold levelOf
  rw [hinv.lemmaExists_iff.mpr ⟨id, m, he⟩, ensure_true, ok_bind, hinv.getLemmaOf_eq he, ok_bind]
  rfl

structure Fueled (R : Setting) (keys : Finset Cube) (trace : InductiveTrace) (fuel n k : ℕ) : Prop where
  learnable : learnable R.tr ⊆ keys
  lemmas : ∀ c m, trace.At c m → c ∈ keys
  level : k ≤ keys.card + 1
  passes : keys.card + 2 ≤ n + k
  fuel : searchBound R.tr (keys.card + 1) ≤ fuel

variable {keys : Finset Cube} {trace' : InductiveTrace}

theorem Fueled.not_zero (h : R.Fueled keys trace fuel 0 k) : False := by
  have hlevel := h.level
  have hpasses := h.passes
  omega

theorem Fueled.search (h : R.Fueled keys trace fuel n k) : searchBound R.tr k ≤ fuel :=
  (searchBound_mono h.level).trans h.fuel

/-- After a pass every frame up to that of the target has a lemma of its own. -/
theorem Fueled.next (h : R.Fueled keys trace fuel (n + 1) k) (hgrown : R.Grown trace trace')
    (hinv : trace'.Inv) {level : ℕ} (hle : k ≤ level) (hlt : level < trace'.numFrames)
    (hfilled : ∀ j, 0 < j → j < trace'.numFrames → ∃ c, trace'.At c (.fin j)) :
    R.Fueled keys trace' fuel n (level + 1) := by
  have hlemmas : ∀ c m, trace'.At c m → c ∈ keys := fun c m hat ↦
    (hgrown c m hat).elim (fun hex ↦ hex.elim (h.lemmas c)) fun hnew ↦ h.learnable hnew
  have hlevel : level + 1 ≤ keys.card + 1 := Ascent.length_le_card (fun c m ↦ trace'.At c (.fin m))
    (fun c m m' hm hm' ↦ Level.fin.inj (hinv.at_unique hm hm')) (fun c m ↦ hlemmas c _)
    fun m hpos hm ↦ hfilled m hpos (by omega)
  have hpasses := h.passes
  exact ⟨h.learnable, hlemmas, hlevel, by omega, h.fuel⟩

theorem proveFrom_goes (h : R.Good st) (hf : R.Allows fail)
    (hfuel : fail .outOfFuel ∨ R.sound ∧ R.Fueled keys st.trace fuel n k)
    (hover : R.Over target) (hpos : 0 < k) (hc : R.sound → target = [R.tr.bad] ∧
      ∀ j x, j < k → Reach R.Start R.tr.Linked j x → ¬ satCube x [R.tr.bad]) :
    R.Goes (R.Proved st target) fail (proveFrom R.E fuel target n k) st := by
  induction n generalizing st k with
  | zero => exact Journal.goes_throw (hfuel.resolve_right fun hno ↦ hno.2.not_zero)
  | succ n ih =>
    have hinit : R.sound → R.Initiated [R.tr.bad] := fun hs x hx ↦ (hc hs).2 0 x hpos (.start hx)
    unfold proveFrom
    refine (isSafe_goes h hf hover fun hs ↦ ⟨(hc hs).1, hinit hs⟩).bind fun b st₁ hb ↦ ?_
    obtain ⟨hasked, hb⟩ := hb
    cases b with
    | true =>
      rw [if_pos rfl]
      exact Journal.goes_pure ⟨hasked.good, hasked.constraints, hasked.upward, fun _ ↦ nofun, fun hs _ ↦
        hasked.trace ▸ hb rfl hs⟩
    | false =>
      rw [if_neg Bool.false_ne_true]
      refine (recursiveBlock_goes hf (hfuel.imp_right (And.imp_right Fueled.search)) hasked.good hover hpos
        fun hs ↦ ?_).bind fun r st₂ hr ↦ ?_
      · obtain ⟨rfl, havoid⟩ := hc hs
        exact ⟨⟨⟨List.pairwise_singleton _ _, List.cons_ne_nil _ _, hinit hs⟩, .inr rfl⟩, havoid⟩
      obtain ⟨hr, hgrown⟩ := hr
      have hcons := hr.constraints.trans hasked.constraints
      have hup := hasked.upward.trans hr.up
      cases r with
      | some cex =>
        exact Journal.goes_pure ⟨hr.good, hcons, hup, hr.found, fun _ ↦ nofun⟩
      | none =>
        refine Journal.goes_get_bind (Journal.goes_set_bind ?_)
        refine (pushLemmas_goes (hr.good.with_obls []) hf).bind fun _ st₃ h₃ ↦ ?_
        refine Journal.goes_get_bind (Journal.goes_lift_bind (fun level ↦ R.sound →
          st₃.trace.At target level ∧ .fin k ≤ level) ?_ fun level hlevel ↦ ?_)
        · by_cases hs : R.sound
          · obtain ⟨rfl, -⟩ := hc hs
            have hcovered := (hr.blocked hs rfl).up h₃.up
            obtain ⟨m, hat, hle⟩ := hcovered.single (h₃.good.sem hs).nonempty
            refine (levelOf_meets h₃.good.cons.inv hat).imp fun level heq _ ↦ ?_
            subst heq
            exact ⟨hat, hle⟩
          · exact meets_of_ok (hf.unsound hs) fun _ _ hs' ↦ absurd hs' hs
        refine goes_check_bind hf (fun hs ↦ decide_eq_true (hlevel hs).2) fun _ ↦ ?_
        cases level with
        | inf =>
          exact Journal.goes_pure ⟨h₃.good, h₃.constraints.trans hcons, hup.trans h₃.up, fun _ ↦ nofun,
            fun hs _ x _ hx ↦ hx target .inf (hlevel hs).1 le_rfl⟩
        | fin level =>
          have hnext : R.sound ∧ R.Fueled keys st.trace fuel (n + 1) k →
              R.sound ∧ R.Fueled keys st₃.trace fuel n (level + 1) := by
            intro hn
            obtain ⟨hat, hle⟩ := hlevel hn.1
            have hlt := h₃.good.cons.inv.needed_le hat
            rw [Level.needed_fin] at hlt
            refine ⟨hn.1, hn.2.next (fun c m hat ↦ ?_) h₃.good.cons.inv (Level.fin_le_fin.mp hle) hlt
              h₃.filled⟩
            obtain ⟨m', hat'⟩ := h₃.old c m hat
            exact hasked.trace ▸ hgrown hn.1 c m' hat'
          refine (ih h₃.good (hfuel.imp_right hnext) (Nat.succ_pos level) fun hs ↦ ⟨(hc hs).1, fun j x hj hx ↦ ?_⟩).imp
            fun r st₄ h₄ ↦ h₄.after (h₃.constraints.trans hcons) (hup.trans h₃.up)
          have hframe := (h₃.good.sem hs).reach_fin (hx.mono (Nat.le_of_lt_succ hj))
          have hout := hframe target (.fin level) (hlevel hs).1 le_rfl
          rwa [(hc hs).1] at hout

structure Answers (R : Setting) (st : IC3Solver) (target : Cube) (r : SafetyResult) (st' : IC3Solver) :
    Prop where
  good : R.Good st'
  constraints : st'.initConstraints = st.initConstraints
  up : Upward st.trace st'.trace
  known : r.result ≠ .unknown
  found : R.sound → r.result = .unsafeAt → R.Shows target r.cex
  closed : R.sound → r.result = .safe → R.Closed st'.trace target
  proof : r.result = .safe → ∀ cls, cls ∈ r.proof ↔ ∃ c, st'.trace.At c .inf ∧ cls = negateVec c

theorem recordProof_meets (hinv : st.trace.Inv) :
    Meets (fun proof ↦ ∀ cls, cls ∈ proof ↔ ∃ c, st.trace.At c .inf ∧ cls = negateVec c) fail
      st.recordProof := by
  have hframe : st.trace.getFrame .inf = .ok (st.trace.frames.frame .inf) := rfl
  unfold recordProof
  rw [hframe, ok_bind]
  refine (mapM_meets (R := fun id cls ↦ ∃ c, st.trace.Entry id c .inf ∧ cls = negateVec c)
    fun id hid ↦ ?_).imp fun proof hproof cls ↦ ⟨fun hcls ↦ ?_, fun hex ↦ ?_⟩
  · obtain ⟨c, he⟩ := hinv.mem_iff.mp hid
    rw [cubeOf, hinv.getLemma_eq he]
    exact ⟨c, he, rfl⟩
  · obtain ⟨i, hi, hget⟩ := List.getElem_of_mem hcls
    obtain ⟨c, he, heq⟩ := hproof.get (hproof.length_eq ▸ hi) hi
    exact ⟨c, hinv.at_iff.mpr ⟨_, he⟩, hget.symm.trans heq⟩
  · obtain ⟨c, hat, rfl⟩ := hex
    obtain ⟨id, he⟩ := hinv.at_iff.mp hat
    obtain ⟨i, hi, hget⟩ := List.getElem_of_mem (hinv.mem_iff.mpr ⟨c, he⟩)
    obtain ⟨d, hd, heq⟩ := hproof.get hi (hproof.length_eq ▸ hi)
    rw [List.get_eq_getElem, hget] at hd
    rw [(he.eq hd).1]
    exact heq ▸ List.get_mem _ _

theorem fueled_start (htr : st.tr = R.tr) (hn : st.fuelBound ≤ fuel) :
    R.Fueled (learnable R.tr ∪ (st.trace.lemmas.map LemmaData.cube).toFinset) st.trace fuel fuel 1 := by
  generalize hkeys : learnable R.tr ∪ _ = keys
  have hcard : keys.card ≤ (learnable R.tr).card + st.trace.lemmas.length := by
    rw [← hkeys, ← List.length_map LemmaData.cube]
    exact (Finset.card_union_le _ _).trans (Nat.add_le_add_left (List.toFinset_card_le _) _)
  have hbound : searchBound R.tr (keys.card + 1) ≤ fuel :=
    (searchBound_mono (Nat.succ_le_succ hcard)).trans (htr ▸ hn)
  refine ⟨hkeys ▸ Finset.subset_union_left, fun c m hat ↦ ?_, Nat.le_add_left 1 _, ?_, hbound⟩
  · obtain ⟨d, hd, -, rfl, -⟩ := hat
    exact hkeys ▸ Finset.mem_union_right _ (List.mem_toFinset.mpr (List.mem_map_of_mem hd))
  · simp only [searchBound, Ascent.rank] at hbound
    omega

theorem proveTarget_ends (h : R.Good st) (hf : R.Allows fail)
    (hfuel : fail .outOfFuel ∨ R.sound ∧ st.fuelBound ≤ fuel)
    (hstart : ∀ e, (checkInitial R.E target st).2 = .error e → fail e)
    (hover : R.Over target) (hc : R.sound → target = [R.tr.bad]) :
    R.Goes (R.Answers st target) fail (proveTarget R.E fuel target) st := by
  unfold proveTarget
  refine ((checkInitial_goes h hover).of_error hstart).bind fun r st₁ hr ↦ ?_
  obtain ⟨hasked, hr⟩ := hr
  cases r with
  | some cex =>
    refine Journal.goes_pure ⟨hasked.good, hasked.constraints, hasked.upward, nofun, fun hs _ ↦ ?_,
      fun _ ↦ nofun, nofun⟩
    obtain ⟨p, rfl, x, hx, hcube, hshown⟩ := hr hs
    have hself : R.Again x x := ⟨fun _ _ ↦ rfl, hx.2⟩
    exact ⟨x, _, [], rfl, hx, hshown, 0, x, .start hself, hcube⟩
  | none =>
    have hfuel' := hfuel.imp_right (And.imp_right (fueled_start h.tr_eq))
    rw [← hasked.trace] at hfuel'
    refine (proveFrom_goes hasked.good hf hfuel' hover Nat.one_pos fun hs ↦ ⟨hc hs, fun j x hj hx ↦ ?_⟩).bind
      fun r st₂ hp ↦ ?_
    · obtain rfl : j = 0 := by omega
      have hinit := hr hs
      rw [hc hs] at hinit
      cases hx with
      | start hx => exact hinit x hx
    cases r with
    | some cex =>
      exact Journal.goes_pure ⟨hp.good, hp.constraints.trans hasked.constraints,
        hasked.upward.trans hp.up, nofun, fun hs _ ↦ hp.found hs cex rfl, fun _ ↦ nofun, nofun⟩
    | none =>
      refine Journal.goes_get_bind (Journal.goes_lift_bind _ (recordProof_meets hp.good.cons.inv)
        fun proof hproof ↦ ?_)
      exact Journal.goes_pure ⟨hp.good, hp.constraints.trans hasked.constraints,
        hasked.upward.trans hp.up, nofun, fun _ ↦ nofun, fun hs _ ↦ hp.closed hs rfl, fun _ ↦ hproof⟩

theorem proveTarget_goes (h : R.Good st) (hf : R.Allows fail) (hfuel : fail .outOfFuel)
    (hstart : ∀ e, (checkInitial R.E target st).2 = .error e → fail e)
    (hover : R.Over target) (hc : R.sound → target = [R.tr.bad]) :
    R.Goes (R.Answers st target) fail (proveTarget R.E fuel target) st :=
  proveTarget_ends h hf (.inl hfuel) hstart hover hc

theorem prove_ends (h : R.Good st) (hf : R.Allows fail)
    (hfuel : fail .outOfFuel ∨ R.sound ∧ st.fuelBound ≤ fuel)
    (hstart : ∀ e, (checkInitial R.E [R.tr.bad] st).2 = .error e → fail e) :
    R.Goes (R.Answers st [R.tr.bad]) fail (prove R.E fuel) st := by
  unfold prove
  refine Journal.goes_get_bind ?_
  rw [h.tr_eq]
  exact proveTarget_ends h hf hfuel hstart
    (fun lit hl ↦ List.mem_singleton.mp hl ▸ R.bad) fun _ ↦ rfl

theorem prove_goes (h : R.Good st) (hf : R.Allows fail) (hfuel : fail .outOfFuel)
    (hstart : ∀ e, (checkInitial R.E [R.tr.bad] st).2 = .error e → fail e) :
    R.Goes (R.Answers st [R.tr.bad]) fail (prove R.E fuel) st :=
  prove_ends h hf (.inl hfuel) hstart

end Setting

end PME.IC3
