import PME.IC3.FreshVariables
import PME.IC3.Session

namespace PME.IC3

open Outcome InductiveTrace IC3Solver Setting

section Traces

variable {t t' : InductiveTrace} {id : LemmaID} {data d : LemmaData} {ℓ : Level} {c : Cube}

theorem setLevel_upward (hget : t.lemmas[id]? = some data) (hcube : d.cube = data.cube)
    (hle : data.deleted = false → d.deleted = false ∧ data.level ≤ ℓ) (frames : Frames) :
    Upward t (t.setLevel id d ℓ frames) := by
  intro c m hat
  obtain ⟨e, he, hactive, rfl, rfl⟩ := hat
  obtain ⟨j, hj⟩ := List.mem_iff_getElem?.mp he
  by_cases hji : id = j
  · subst hji
    cases hget.symm.trans hj
    obtain ⟨hdel, hlevel⟩ := hle hactive
    have hlt := (List.getElem?_eq_some_iff.mp hget).1
    exact ⟨ℓ, ⟨_, List.mem_set hlt _, hdel, hcube, rfl⟩, hlevel⟩
  · have hstill : (t.lemmas.set id { d with level := ℓ })[j]? = some e :=
      (List.getElem?_set_ne hji).trans hj
    exact ⟨e.level, ⟨e, List.mem_of_getElem? hstill, hactive, rfl, rfl⟩, le_rfl⟩

theorem getLemma_eq_ok (h : t.getLemma id = .ok data) : t.lemmas[id]? = some data := by
  unfold getLemma at h
  cases hget : t.lemmas[id]? with
  | none =>
    rw [hget] at h
    exact nomatch h
  | some d =>
    rw [hget] at h
    exact congrArg some (Except.ok.inj h)

theorem addLemma_upward (h : t.addLemma c ℓ = .ok (id, t')) : Upward t t' := by
  unfold InductiveTrace.addLemma at h
  dsimp only at h
  split at h
  · obtain ⟨i, -, h⟩ := bind_eq_ok.mp h
    obtain ⟨data, hdata, h⟩ := bind_eq_ok.mp h
    obtain ⟨frames, hframes, h⟩ := bind_eq_ok.mp h
    cases h
    refine setLevel_upward (d := { data with deleted := false }) (getLemma_eq_ok hdata) rfl
      (fun hactive ↦ ⟨rfl, ?_⟩) frames
    rw [hactive, if_neg Bool.false_ne_true] at hframes
    obtain ⟨_, hle, -⟩ := bind_eq_ok.mp hframes
    exact of_decide_eq_true (ensure_eq_ok hle)
  · cases h
    intro d m hat
    obtain ⟨e, he, hrest⟩ := hat
    exact ⟨m, ⟨e, List.mem_append_left _ he, hrest⟩, le_rfl⟩

theorem pushLemma_upward (h : t.pushLemma id ℓ = .ok t') : Upward t t' := by
  unfold InductiveTrace.pushLemma at h
  obtain ⟨data, hdata, h⟩ := bind_eq_ok.mp h
  obtain ⟨_, hle, h⟩ := bind_eq_ok.mp h
  obtain ⟨frames, -, h⟩ := bind_eq_ok.mp h
  cases h
  exact setLevel_upward (getLemma_eq_ok hdata) rfl
    (fun hactive ↦ ⟨hactive, of_decide_eq_true (ensure_eq_ok hle)⟩) frames

theorem clearUnusedFrames_upward (h : t.clearUnusedFrames = .ok t') : Upward t t' := by
  unfold clearUnusedFrames at h
  obtain ⟨-, -, h⟩ := bind_eq_ok.mp h
  obtain ⟨frames, -, h⟩ := bind_eq_ok.mp h
  cases h
  exact fun c m hat ↦ ⟨m, hat, le_rfl⟩

end Traces

def Above (st st' : IC3Solver) : Prop := Upward st.trace st'.trace

structure Later (st st' : IC3Solver) : Prop where
  above : Above st st'
  vars : st.vars.nextID ≤ st'.vars.nextID

theorem Later.of_trace {st st' : IC3Solver} (h : st'.trace = st.trace) (hle : st.vars.nextID ≤ st'.vars.nextID) :
    Later st st' := by
  refine ⟨?_, hle⟩
  unfold Above
  rw [h]
  exact .refl st.trace

instance : Std.Refl Later := ⟨fun _ ↦ .of_trace rfl le_rfl⟩

instance : IsTrans IC3Solver Later := ⟨fun _ _ _ h h' ↦ ⟨h.above.trans h'.above, h.vars.trans h'.vars⟩⟩

def Proceeds {α : Type} (x : IC3M α) : Prop := ∀ st, Journal.Climbs Later Event.solver x st

def Rises {α : Type} (x : IC3M α) : Prop := ∀ st, Journal.Climbs Above Event.solver x st

theorem Proceeds.rises {α : Type} {x : IC3M α} (h : Proceeds x) : Rises x := fun st ↦
  (h st).imp fun _ _ hle ↦ hle.above

section Computations

variable {α β : Type} {E : Engines}

theorem proceeds_pure (a : α) : Proceeds (pure a : IC3M α) := fun _ ↦ Journal.climbs_pure a

theorem proceeds_throw (err : Failure) : Proceeds (Journal.throw err : IC3M α) := fun _ ↦
  Journal.climbs_throw err

theorem proceeds_lift (x : Result α) : Proceeds (Journal.lift x : IC3M α) := fun _ ↦ Journal.climbs_lift x

theorem proceeds_check (b : Bool) : Proceeds (check b) := proceeds_lift _

theorem proceeds_record (label : Label) : Proceeds (record label) := fun _ ↦ Journal.climbs_emit rfl

theorem Proceeds.bind {x : IC3M α} {f : α → IC3M β} (hx : Proceeds x) (hf : ∀ a, Proceeds (f a)) :
    Proceeds (x >>= f) := fun st ↦ (hx st).bind fun a st' _ ↦ hf a st'

theorem proceeds_get_bind {f : IC3Solver → IC3M α}
    (h : ∀ st, Journal.Climbs Later Event.solver (f st) st) : Proceeds (Journal.get >>= f) :=
  fun st ↦ Journal.climbs_get_bind (h st)

theorem climbs_lift_bind {st : IC3Solver} {x : Result α} {f : α → IC3M β}
    (h : ∀ a, x = .ok a → Journal.Climbs Later Event.solver (f a) st) :
    Journal.Climbs Later Event.solver (Journal.lift x >>= f) st := by
  refine Journal.Climbs.bind (Journal.climbs_lift x) fun a st' hx ↦ ?_
  cases x with
  | error err => exact nomatch hx
  | ok b =>
    cases hx
    exact h _ rfl

theorem climbs_set_bind {st st' : IC3Solver} {f : Unit → IC3M α} (h : Later st st')
    (hf : Proceeds (f ())) : Journal.Climbs Later Event.solver (Journal.set st' >>= f) st :=
  Journal.Climbs.bind (Journal.climbs_set h) fun _ st'' _ ↦ hf st''

theorem proceeds_ask {query : Backend → VariableManager → InductiveTrace → FrameSolver →
    Result (α × VariableManager × FrameSolver)} (hq : ∀ B vm trace fs,
      Meets (fun r ↦ vm.nextID ≤ r.2.1.nextID) (fun _ ↦ True) (query B vm trace fs)) :
    Proceeds (ask E query) := by
  unfold ask
  refine proceeds_get_bind fun st ↦ climbs_lift_bind fun r hr ↦ ?_
  refine climbs_set_bind (.of_trace rfl ((hq _ _ _ _).of_ok hr)) ?_
  exact (proceeds_record _).bind fun _ ↦ proceeds_pure _

theorem proceeds_addLemma (c : Cube) (ℓ : Level) : Proceeds (IC3Solver.addLemma c ℓ) := by
  unfold IC3Solver.addLemma
  refine proceeds_get_bind fun st ↦ climbs_lift_bind fun r hr ↦ climbs_lift_bind fun r' hr' ↦ ?_
  have hle := (FrameSolver.addLemma_le _ _ _ _).of_ok hr'
  exact climbs_set_bind ⟨addLemma_upward hr, hle⟩ (proceeds_pure _)

theorem proceeds_pushLemma (id : LemmaID) (ℓ : Level) : Proceeds (IC3Solver.pushLemma id ℓ) := by
  unfold IC3Solver.pushLemma
  refine proceeds_get_bind fun st ↦ climbs_lift_bind fun trace hr ↦ climbs_lift_bind fun r hr' ↦ ?_
  exact Journal.climbs_set ⟨pushLemma_upward hr, (FrameSolver.addLemma_le _ _ _ _).of_ok hr'⟩

theorem proceeds_pushFramesToInf (level i : ℕ) : Proceeds (pushFramesToInf level i) := by
  induction i with
  | zero => exact proceeds_pure _
  | succ i ih =>
    unfold pushFramesToInf
    split
    · refine proceeds_get_bind fun st ↦ climbs_lift_bind fun frame _ ↦ ?_
      refine Journal.Climbs.bind (Journal.climbs_forM fun id _ ↦ ?_) fun _ st' _ ↦ ih st'
      exact (proceeds_pushLemma id .inf).bind fun _ ↦ proceeds_record _
    · exact proceeds_pure _

theorem proceeds_pushFrameToInf (level : ℕ) : Proceeds (pushFrameToInf level) := by
  unfold pushFrameToInf
  refine (proceeds_check _).bind fun _ ↦ proceeds_get_bind fun st ↦ ?_
  refine (proceeds_pushFramesToInf level _ st).bind fun _ st' _ ↦ Journal.climbs_get_bind ?_
  refine climbs_lift_bind fun trace hr ↦ climbs_set_bind ⟨clearUnusedFrames_upward hr, le_rfl⟩ ?_
  exact (proceeds_check _).bind fun _ ↦ proceeds_record _

theorem proceeds_initiation (s : Cube) : Proceeds (initiation E s) := by
  unfold initiation
  split
  · exact proceeds_pure _
  · exact (proceeds_ask fun B vm trace fs ↦ FrameSolver.intersection_le B vm trace fs _ _).bind fun _ ↦ proceeds_pure _

theorem proceeds_reinitiateLoop (s : Cube) (n : ℕ) (t : Cube) (i j : ℕ) :
    Proceeds (reinitiateLoop E s n t i j) := by
  induction n generalizing t i j with
  | zero => exact proceeds_throw _
  | succ n ih =>
    unfold reinitiateLoop
    split
    · exact proceeds_pure _
    · refine (proceeds_check _).bind fun _ ↦ ?_
      dsimp only
      split
      · exact proceeds_pure _
      · refine Proceeds.bind ((proceeds_initiation _).bind fun b ↦ ?_) fun r ↦ ih _ _ _
        split
        · exact proceeds_pure _
        · exact proceeds_pure _

theorem proceeds_reinitiate (s orig : Cube) : Proceeds (reinitiate E s orig) := by
  unfold reinitiate
  refine (proceeds_check _).bind fun _ ↦ (proceeds_check _).bind fun _ ↦ (proceeds_check _).bind fun _ ↦ ?_
  refine (proceeds_initiation _).bind fun _ ↦ (proceeds_check _).bind fun _ ↦ ?_
  refine (proceeds_reinitiateLoop _ _ _ _ _).bind fun _ ↦ (proceeds_initiation _).bind fun _ ↦ ?_
  exact (proceeds_check _).bind fun _ ↦ proceeds_pure _

theorem proceeds_initiate (s orig : Cube) : Proceeds (initiate E s orig) := by
  unfold initiate
  refine (proceeds_check _).bind fun _ ↦ Proceeds.bind ((proceeds_initiation _).bind fun b ↦ ?_) fun s ↦ ?_
  · split
    · exact proceeds_pure _
    · exact proceeds_reinitiate _ _
  · exact (proceeds_initiation _).bind fun _ ↦ (proceeds_check _).bind fun _ ↦ proceeds_pure _

theorem proceeds_generalizeLoop (k n : ℕ) (s : Cube) (it : ℕ) : Proceeds (generalizeLoop E k n s it) := by
  induction n generalizing s it with
  | zero => exact proceeds_throw _
  | succ n ih =>
    unfold generalizeLoop
    split
    · refine (proceeds_initiation _).bind fun b ↦ ?_
      split
      · refine (proceeds_ask fun B vm trace fs ↦ FrameSolver.consecutionCore_le B vm trace fs _ _).bind fun r ↦ ?_
        cases r with
        | some core =>
          refine (proceeds_initiate _ _).bind fun s ↦ (proceeds_check _).bind fun _ ↦ ?_
          exact (proceeds_record _).bind fun _ ↦ ih _ _
        | none => exact ih _ _
      · exact ih _ _
    · exact proceeds_pure _

theorem proceeds_generalizeAll (level n : ℕ) (s : Cube) : Proceeds (generalizeAll E level n s) := by
  induction n generalizing s with
  | zero => exact proceeds_throw _
  | succ n ih =>
    unfold generalizeAll generalizeIteration
    refine (proceeds_generalizeLoop _ _ _ _).bind fun s' ↦ (proceeds_check _).bind fun _ ↦ ?_
    split
    · exact proceeds_pure _
    · exact ih _

theorem proceeds_generalize (s : Cube) (level : ℕ) : Proceeds (generalize E s level) :=
  (proceeds_check _).bind fun _ ↦ proceeds_generalizeAll _ _ _

theorem proceeds_liftCube (pred succ inp pinp : Cube) : Proceeds (liftCube E pred succ inp pinp) := by
  unfold liftCube
  refine proceeds_get_bind fun st ↦ climbs_lift_bind fun r _ ↦ ?_
  exact climbs_set_bind (.of_trace rfl le_rfl) (proceeds_pure _)

theorem proceeds_block (target : Cube) (level : ℕ) : Proceeds (block E target level) := by
  unfold block
  split
  · exact proceeds_pure _
  · refine (proceeds_ask fun B vm trace fs ↦ FrameSolver.consecutionFull_le B vm trace fs _ _).bind fun r ↦ ?_
    cases r with
    | holds core =>
      refine (proceeds_initiate _ _).bind fun core ↦ (proceeds_generalize _ _).bind fun core ↦ ?_
      exact (proceeds_initiation _).bind fun _ ↦ (proceeds_check _).bind fun _ ↦ proceeds_pure _
    | fails t inp pinp =>
      refine (proceeds_check _).bind fun _ ↦ (proceeds_liftCube _ _ _ _).bind fun lifted ↦ ?_
      exact (proceeds_check _).bind fun _ ↦ proceeds_pure _

theorem proceeds_newObligation (obl : ProofObligation) : Proceeds (newObligation obl) :=
  proceeds_get_bind fun _ ↦ climbs_set_bind (.of_trace rfl le_rfl) (proceeds_pure _)

theorem proceeds_modifyObligation (i : ℕ) (change : ProofObligation → ProofObligation) :
    Proceeds (modifyObligation i change) :=
  proceeds_get_bind fun _ ↦ Journal.climbs_set (.of_trace rfl le_rfl)

theorem proceeds_blockQueue (targetLevel n : ℕ) (q : List ℕ) : Proceeds (blockQueue E targetLevel n q) := by
  induction n generalizing q with
  | zero => exact proceeds_throw _
  | succ n ih =>
    unfold blockQueue
    refine proceeds_get_bind fun st ↦ ?_
    split
    · exact proceeds_pure _ st
    · refine Proceeds.bind (proceeds_record _) (fun _ ↦ ?_) st
      refine (proceeds_check _).bind fun _ ↦ (proceeds_check _).bind fun _ ↦ ?_
      split
      · exact proceeds_pure _
      · refine (proceeds_lift _).bind fun b ↦ ?_
        split
        · exact ih _
        · refine (proceeds_block _ _).bind fun r ↦ ?_
          cases r with
          | blocked g t =>
            refine (proceeds_check _).bind fun _ ↦ (proceeds_addLemma _ _).bind fun _ ↦ ?_
            refine (proceeds_record _).bind fun _ ↦ ?_
            split
            · exact (proceeds_modifyObligation _ _).bind fun _ ↦ ih _
            · exact ih _
          | predecessor t conc inp pinp =>
            refine (proceeds_newObligation _).bind fun j ↦ ?_
            exact (proceeds_modifyObligation _ _).bind fun _ ↦ ih _

theorem proceeds_recursiveBlock (fuel : ℕ) (target : Cube) (targetLevel : ℕ) :
    Proceeds (recursiveBlock E fuel target targetLevel) :=
  (proceeds_newObligation _).bind fun _ ↦ proceeds_blockQueue _ _ _

theorem proceeds_pushAll (k : ℕ) (ids : List LemmaID) : Proceeds (pushAll E k ids) := by
  induction ids with
  | nil => exact proceeds_pure _
  | cons id ids ih =>
    unfold pushAll
    refine proceeds_get_bind fun st ↦ climbs_lift_bind fun c _ ↦ Proceeds.bind (proceeds_ask fun B vm trace fs ↦ FrameSolver.consecution_le B vm trace fs _ _) (fun b ↦ ?_) st
    split
    · refine (proceeds_pushLemma _ _).bind fun _ ↦ (proceeds_record _).bind fun _ ↦ ?_
      exact ih.bind fun _ ↦ proceeds_pure _
    · exact ih

theorem proceeds_pushLemmasFrom (n k : ℕ) : Proceeds (pushLemmasFrom E n k) := by
  induction n generalizing k with
  | zero => exact proceeds_throw _
  | succ n ih =>
    unfold pushLemmasFrom
    refine proceeds_get_bind fun st ↦ ?_
    split
    · refine climbs_lift_bind fun frame _ ↦ Proceeds.bind (proceeds_pushAll _ _) (fun pushed ↦ ?_) st
      split
      · exact proceeds_pushFrameToInf _
      · exact ih _
    · exact proceeds_pure _ st

theorem proceeds_checkInitial (target : Cube) : Proceeds (checkInitial E target) := by
  unfold checkInitial
  refine (proceeds_ask fun B vm trace fs ↦ FrameSolver.intersectionFull_le B vm trace fs _ _).bind fun r ↦ ?_
  cases r with
  | none => exact proceeds_pure _
  | some p => exact proceeds_pure _

theorem proceeds_isSafe (target : Cube) : Proceeds (isSafe E target) := by
  unfold isSafe
  refine proceeds_get_bind fun st ↦ climbs_lift_bind fun b _ ↦ ?_
  split
  · exact proceeds_pure _ st
  · exact Proceeds.bind (proceeds_ask fun B vm trace fs ↦ FrameSolver.intersection_le B vm trace fs _ _) (fun _ ↦ proceeds_pure _) st

theorem proceeds_proveFrom (fuel : ℕ) (target : Cube) (n k : ℕ) :
    Proceeds (proveFrom E fuel target n k) := by
  induction n generalizing k with
  | zero => exact proceeds_throw _
  | succ n ih =>
    unfold proveFrom
    refine (proceeds_isSafe _).bind fun b ↦ ?_
    split
    · exact proceeds_pure _
    · refine (proceeds_recursiveBlock _ _ _).bind fun r ↦ ?_
      cases r with
      | some cex => exact proceeds_pure _
      | none =>
        refine proceeds_get_bind fun st ↦ climbs_set_bind (.of_trace rfl le_rfl) ?_
        refine Proceeds.bind (proceeds_get_bind fun st ↦ proceeds_pushLemmasFrom _ _ st) fun _ ↦ ?_
        refine proceeds_get_bind fun st ↦ climbs_lift_bind fun level _ ↦ ?_
        refine Proceeds.bind (proceeds_check _) (fun _ ↦ ?_) st
        cases level with
        | inf => exact proceeds_pure _
        | fin level => exact ih _

theorem proceeds_proveTarget (fuel : ℕ) (target : Cube) : Proceeds (proveTarget E fuel target) := by
  unfold proveTarget
  refine (proceeds_checkInitial _).bind fun r ↦ ?_
  cases r with
  | some cex => exact proceeds_pure _
  | none =>
    refine (proceeds_proveFrom _ _ _ _).bind fun r ↦ ?_
    cases r with
    | some cex => exact proceeds_pure _
    | none => exact proceeds_get_bind fun st ↦ climbs_lift_bind fun proof _ ↦ proceeds_pure _ st

theorem proceeds_prove (fuel : ℕ) : Proceeds (prove E fuel) :=
  proceeds_get_bind fun st ↦ proceeds_proveTarget _ _ st

/-- No run of `prove` takes a lemma down. -/
theorem rises_prove (fuel : ℕ) : Rises (prove E fuel) := (proceeds_prove fuel).rises

theorem proceeds_of_ok {x : IC3M α} {a : α} {st st' : IC3Solver} (h : Proceeds x) (hr : (x st).2 = .ok (a, st')) :
    Later st st' := (h st).last a st' hr st List.mem_cons_self

end Computations

end PME.IC3
