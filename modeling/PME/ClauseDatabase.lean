import PME.SimplifyTR
import PME.Lib.Support

namespace PME

open Outcome

/-- What the maps of a `ClauseDatabaseT<T>` hold for one clause. -/
structure ClauseEntry (T : Type) where
  id : ℕ
  activation : ℕ
  clause : Clause
  data : T

structure ClauseDatabase (T : Type) where
  entries : List (ClauseEntry T)

namespace ClauseDatabase

variable {T : Type}

def new : ClauseDatabase T := ⟨[]⟩

def addClause (db : ClauseDatabase T) (id activation : ℕ) (cls : Clause) (data : T) :
    Result (ClauseDatabase T) := do
  ensure (!(db.entries.map ClauseEntry.id).contains id)
  ensure (!(db.entries.map ClauseEntry.activation).contains activation)
  return ⟨db.entries ++ [⟨id, activation, cls.insertionSort (· ≤ ·), data⟩]⟩

/-- Looking up an ID that is missing is an exception of `unordered_map::at`. -/
def entryOf (db : ClauseDatabase T) (id : ℕ) : Result (ClauseEntry T) :=
  match db.entries.find? (·.id == id) with
  | some e => return e
  | none => throw .exception

def activationOfID (db : ClauseDatabase T) (id : ℕ) : Result ℕ := do
  return (← db.entryOf id).activation

def clauseOf (db : ClauseDatabase T) (id : ℕ) : Result Clause := do
  return (← db.entryOf id).clause

def getData (db : ClauseDatabase T) (id : ℕ) : Result T := do
  return (← db.entryOf id).data

theorem addClause_meets {db : ClauseDatabase T} {id activation : ℕ} {cls : Clause} {data : T}
    (hid : id ∉ db.entries.map ClauseEntry.id)
    (hact : activation ∉ db.entries.map ClauseEntry.activation) {fail : Failure → Prop} :
    Meets (fun db' ↦ db'.entries =
      db.entries ++ [⟨id, activation, cls.insertionSort (· ≤ ·), data⟩]) fail
      (db.addClause id activation cls data) := by
  have hno : ∀ (l : List ℕ) (v : ℕ), v ∉ l → (!l.contains v) = true := fun l v hv ↦ by
    rw [Bool.not_eq_true', ← Bool.not_eq_true, List.contains_iff_mem]
    exact hv
  unfold addClause
  rw [hno _ _ hid, hno _ _ hact, ensure_true, ok_bind, ok_bind, meets_pure]

theorem entryOf_meets {db : ClauseDatabase T} (hnodup : (db.entries.map ClauseEntry.id).Nodup)
    {e : ClauseEntry T} (he : e ∈ db.entries) {fail : Failure → Prop} :
    Meets (· = e) fail (db.entryOf e.id) := by
  have hfind : db.entries.find? (·.id == e.id) = some e := by
    obtain ⟨e', hfind⟩ : ∃ e', db.entries.find? (·.id == e.id) = some e' := by
      refine Option.isSome_iff_exists.mp (List.find?_isSome.mpr ⟨e, he, beq_self_eq_true _⟩)
    have hid : e'.id = e.id := by simpa using List.find?_some hfind
    have heq : e' = e := List.inj_on_of_nodup_map hnodup (List.mem_of_find?_eq_some hfind) he hid
    rw [hfind, heq]
  unfold entryOf
  rw [hfind]
  exact rfl

end ClauseDatabase

/-- The SAT solver of the queries, and the one that simplifies formulas before when option
`simplify` is on. -/
structure Backend where
  sat : SAT.Solver
  simplifier : SAT.Simplifier
  simplify : Bool

section Formula

variable {T : Type}

def getActivatedClause (e : ClauseEntry T) : Clause := e.clause ++ [negate e.activation]

def twoFrames (tr : TransitionRelation) (entries : List (ClauseEntry T)) : ClauseVec :=
  tr.unroll 2 ++ entries.map getActivatedClause

def frozenIDs (tr : TransitionRelation) (entries : List (ClauseEntry T)) : List ℕ :=
  entries.map ClauseEntry.activation ++ freeze tr.latchIDs true ++ freeze tr.constraints true ++
    [tr.bad, prime tr.bad 1]

def activatedFormula (B : Backend) (tr : TransitionRelation) (entries : List (ClauseEntry T)) :
    Result ClauseVec :=
  if B.simplify then do
    let simpSolver ← SATAdaptor.new.addClauses (twoFrames tr entries)
    simpSolver.simplify B.simplifier (frozenIDs tr entries)
  else return twoFrames tr entries

end Formula

namespace TransitionRelation

def Mentions (tr : TransitionRelation) (v : ℕ) : Prop :=
  v ∈ varsOf tr.toCNF ∨ (∃ l ∈ tr.latches, v = l.id ∨ v = strip l.next) ∨
    ∃ c ∈ tr.bad :: tr.constraints, v = strip c

variable {tr : TransitionRelation}

theorem varsOf_makeEqual {a b v : ℕ} (hv : v ∈ varsOf (makeEqual a b)) : v = strip a ∨ v = strip b := by
  obtain ⟨cls, hc, lit, hl, rfl⟩ := hv
  have hlit : lit = a ∨ lit = b ∨ lit = negate a ∨ lit = negate b := by
    unfold makeEqual at hc
    split_ifs at hc <;> simp only [List.mem_cons, List.not_mem_nil, or_false] at hc
    · subst hc
      exact .inl (List.mem_singleton.mp hl)
    · subst hc
      exact .inr (.inl (List.mem_singleton.mp hl))
    · subst hc
      exact .inr (.inr (.inl (List.mem_singleton.mp hl)))
    · subst hc
      exact .inr (.inr (.inr (List.mem_singleton.mp hl)))
    · cases hc with
      | inl hc =>
        subst hc
        simp only [List.mem_cons, List.not_mem_nil, or_false] at hl
        cases hl with
        | inl hl => exact .inl hl
        | inr hl => exact .inr (.inr (.inr hl))
      | inr hc =>
        subst hc
        simp only [List.mem_cons, List.not_mem_nil, or_false] at hl
        cases hl with
        | inl hl => exact .inr (.inr (.inl hl))
        | inr hl => exact .inr (.inl hl)
  obtain rfl | rfl | rfl | rfl := hlit
  · exact .inl rfl
  · exact .inr rfl
  · exact .inl (strip_negate a)
  · exact .inr (strip_negate b)

theorem LitsValid.mentions_of_mem (h : tr.LitsValid) {n v : ℕ} (hv : v ∈ varsOf (tr.unroll n)) :
    ∃ u i, tr.Mentions u ∧ ValidLit u ∧ v = prime u i := by
  obtain ⟨cls, hc, lit, hl, rfl⟩ := hv
  obtain ⟨i, -, hc⟩ := List.mem_flatMap.mp hc
  rw [addTimeFrame, List.append_assoc, List.mem_append, List.mem_append] at hc
  obtain hc | hc | hc := hc
  · obtain ⟨c, hmem, rfl⟩ := List.mem_map.mp hc
    obtain ⟨l, hlit, rfl⟩ := List.mem_map.mp hl
    have hvalid := h.gates c hmem l hlit
    exact ⟨strip l, i, .inl (mem_varsOf hmem hlit), hvalid.strip, strip_prime hvalid.2 i⟩
  · obtain ⟨l, hlatch, hc⟩ := List.mem_flatMap.mp hc
    obtain ⟨hmin, hmax, heven, hnext⟩ := h.latches l hlatch
    cases varsOf_makeEqual (mem_varsOf hc hl) with
    | inl heq =>
      refine ⟨strip l.next, i, .inr (.inl ⟨l, hlatch, .inr rfl⟩), hnext.strip, ?_⟩
      rw [heq, strip_prime hnext.2]
    | inr heq =>
      refine ⟨l.id, i + 1, .inr (.inl ⟨l, hlatch, .inl rfl⟩), h.latch_id hlatch, ?_⟩
      rw [heq, strip_prime hmax, strip_of_even heven]
  · obtain ⟨c, hmem, rfl⟩ := List.mem_map.mp hc
    obtain rfl := List.mem_singleton.mp hl
    have hvalid := h.constraints c hmem
    exact ⟨strip c, i, .inr (.inr ⟨c, List.mem_cons_of_mem _ hmem, rfl⟩), hvalid.strip,
      strip_prime hvalid.2 i⟩

end TransitionRelation

section Meaning

variable {T : Type}

/-- What consecution checks and collapse sets are made for: clauses of literals that may be
primed, and activation variables that nothing else uses. -/
structure Suits (tr : TransitionRelation) (entries : List (ClauseEntry T)) : Prop where
  valid : tr.LitsValid
  nonempty : ∀ cls ∈ tr.toCNF, cls ≠ []
  latchIDs_eq : tr.latchIDs = tr.latches.map Latch.id
  latches_nodup : (tr.latches.map Latch.id).Nodup
  lits : ∀ e ∈ entries, ∀ lit ∈ e.clause, ValidLit lit
  act : ∀ e ∈ entries, e.activation % 2 = 0 ∧ minId ≤ e.activation ∧ e.activation ≤ maxId
  unmentioned : ∀ e ∈ entries, ¬ tr.Mentions e.activation
  apart : ∀ e ∈ entries, ∀ e' ∈ entries, ∀ lit ∈ e'.clause, strip lit ≠ e.activation
  ids_nodup : (entries.map ClauseEntry.id).Nodup
  acts_nodup : (entries.map ClauseEntry.activation).Nodup

structure Fresh (tr : TransitionRelation) (entries : List (ClauseEntry T)) (v : ℕ) : Prop where
  even : v % 2 = 0
  ge : minId ≤ v
  le : v ≤ maxId
  unmentioned : ¬ tr.Mentions v
  apart : ∀ e ∈ entries, ∀ lit ∈ e.clause, strip lit ≠ v

variable {tr : TransitionRelation} {entries : List (ClauseEntry T)} {σ τ : Assignment}

theorem Suits.fresh (h : Suits tr entries) {e : ClauseEntry T} (he : e ∈ entries) :
    Fresh tr entries e.activation :=
  ⟨(h.act e he).1, (h.act e he).2.1, (h.act e he).2.2, h.unmentioned e he, h.apart e he⟩

theorem Suits.validLit_act (h : Suits tr entries) {e : ClauseEntry T} (he : e ∈ entries) :
    ValidLit e.activation :=
  ⟨Nat.le_trans (by decide) (h.act e he).2.1, (h.act e he).2.2⟩

theorem satClause_activated (h : Suits tr entries) {e : ClauseEntry T} (he : e ∈ entries) :
    satClause σ (getActivatedClause e) ↔ (σ e.activation = true → satClause σ e.clause) := by
  rw [getActivatedClause, satClause_append, satClause_cons, litVal_negate,
    litVal_of_even (h.act e he).1]
  cases σ e.activation with
  | false => simp
  | true => simp

theorem satClauses_twoFrames (h : Suits tr entries) (hσ : satClauses σ ([idTrue] :: twoFrames tr entries)) :
    tr.Linked (frameOf σ 0) (frameOf σ 1) ∧
      ∀ e ∈ entries, σ e.activation = true → satClause (frameOf σ 0) e.clause := by
  obtain ⟨htrue, hσ⟩ := (satClauses_cons _ _).mp hσ
  obtain ⟨hunroll, hact⟩ := (satClauses_append _ _).mp hσ
  have hc : σ idFalse = false := by simpa using htrue
  have hrun := (TransitionRelation.satClauses_unroll h.valid hc 2).mp hunroll
  refine ⟨(TransitionRelation.isRun_two_iff.mp hrun).1, fun e he hon ↦ ?_⟩
  obtain ⟨lit, hl, hv⟩ := (satClause_activated h he).mp (hact _ (List.mem_map_of_mem he)) hon
  refine ⟨lit, hl, ?_⟩
  rw [litVal_frameOf_zero (h.lits e he lit hl).2]
  exact hv

theorem TransitionRelation.Linked.congr_mentioned {x x' y : Assignment} (hxy : tr.Linked x y) (hc : x' idFalse = x idFalse) (hx : ∀ v, tr.Mentions v → x' v = x v) :
    tr.Linked x' y where
  snd := hxy.snd
  fst := by
    refine ⟨hc.trans hxy.fst.const, ?_, fun c hcon ↦ ?_⟩
    · exact (satClauses_congr fun v hv ↦ hx v (.inl hv)).mpr hxy.fst.gates
    · have hval : litVal x' c = litVal x c :=
        litVal_congr (hx _ (.inr (.inr ⟨c, List.mem_cons_of_mem _ hcon, rfl⟩)))
      rw [hval]
      exact hxy.fst.constraints c hcon
  step l hl := by
    have hval : litVal x' l.next = litVal x l.next :=
      litVal_congr (hx _ (.inr (.inl ⟨l, hl, .inr rfl⟩)))
    rw [hval]
    exact hxy.step l hl

/-- Any two frames may be found, with any values of the fresh variables that leave the clauses
active that hold. -/
theorem exists_twoFrames (h : Suits tr entries) {x y : Assignment} (hxy : tr.Linked x y)
    (A : ℕ → Bool) (hA : ∀ e ∈ entries, A e.activation = true → satClause x e.clause) :
    ∃ σ, satClauses σ ([idTrue] :: twoFrames tr entries) ∧
      (∀ v, Fresh tr entries v → σ v = A v) ∧
      (∀ lit, ValidLit lit → ¬ Fresh tr entries (strip lit) → litVal σ lit = litVal x lit) ∧
      ∀ lit, ValidLit lit → litVal (frameOf σ 1) lit = litVal y lit := by
  classical
  let x' : Assignment := fun v ↦ if Fresh tr entries v then A v else x v
  have hfresh : ∀ v, Fresh tr entries v → x' v = A v := fun v hv ↦ if_pos hv
  have hsame : ∀ v, ¬ Fresh tr entries v → x' v = x v := fun v hv ↦ if_neg hv
  have hconst : ¬ Fresh tr entries idFalse := fun hno ↦ absurd hno.ge (by decide)
  have hxy' : tr.Linked x' y :=
    hxy.congr_mentioned (hsame _ hconst) fun v hv ↦ hsame v fun hno ↦ hno.unmentioned hv
  have hclauses : ∀ e ∈ entries, x' e.activation = true → satClause x' e.clause := by
    intro e he hon
    rw [hfresh _ (h.fresh he)] at hon
    refine (satClause_congr fun lit hl ↦ hsame _ fun hno ↦ ?_).mpr (hA e he hon)
    exact hno.apart e he lit hl rfl
  have hlink := TransitionRelation.exists_linked_iff h.valid h.latches_nodup (fun u v ↦
    SameSignals x' u ∧ SameSignals y v) fun u u' v v' hu hv huv ↦
      ⟨⟨huv.1.1.trans hu.1, fun w hmin hmax ↦ (huv.1.2 w hmin hmax).trans (hu.2 w hmin hmax)⟩,
        huv.2.1.trans hv.1, fun w hmin hmax ↦ (huv.2.2 w hmin hmax).trans (hv.2 w hmin hmax)⟩
  obtain ⟨σ, hσ, hnow, hnext⟩ := hlink.mpr ⟨x', y, hxy', ⟨rfl, fun _ _ _ ↦ rfl⟩, rfl, fun _ _ _ ↦ rfl⟩
  have hzero : ∀ lit, ValidLit lit → litVal σ lit = litVal x' lit := by
    intro lit hl
    rw [← litVal_frameOf_zero hl.2]
    exact (hnow.litVal_eq hl).symm
  have hvar : ∀ v, Fresh tr entries v → σ v = x' v := by
    intro v hv
    have hval := hzero v ⟨Nat.le_trans (by decide) hv.ge, hv.le⟩
    rw [litVal_of_even hv.even, litVal_of_even hv.even] at hval
    exact hval
  refine ⟨σ, ?_, fun v hv ↦ (hvar v hv).trans (hfresh v hv), fun lit hl hno ↦ ?_, fun lit hl ↦ ?_⟩
  · obtain ⟨htrue, hunroll⟩ := (satClauses_cons _ _).mp hσ
    refine (satClauses_cons _ _).mpr ⟨htrue, (satClauses_append _ _).mpr ⟨hunroll, ?_⟩⟩
    intro cls hc
    obtain ⟨e, he, rfl⟩ := List.mem_map.mp hc
    refine (satClause_activated h he).mpr fun hon ↦ ?_
    rw [hvar _ (h.fresh he)] at hon
    obtain ⟨lit, hl, hv⟩ := hclauses e he hon
    exact ⟨lit, hl, (hzero lit (h.lits e he lit hl)).trans hv⟩
  · exact (hzero lit hl).trans (litVal_congr (hsame _ hno))
  · exact (hnext.litVal_eq hl).symm

def MayAsk (tr : TransitionRelation) (lit : ℕ) : Prop :=
  ValidLit lit ∧ (strip lit ∈ tr.latchIDs ∨ (∃ c ∈ tr.bad :: tr.constraints, strip lit = strip c) ∨
    ¬ tr.Mentions (strip lit))

structure SameAsked (tr : TransitionRelation) (entries : List (ClauseEntry T)) (σ τ : Assignment) :
    Prop where
  const : τ idFalse = σ idFalse
  fresh : ∀ v, Fresh tr entries v → τ v = σ v
  now : ∀ lit ∈ tr.latchIDs ++ (tr.bad :: tr.constraints), τ (strip lit) = σ (strip lit)
  next : ∀ lit, MayAsk tr lit → litVal (frameOf τ 1) lit = litVal (frameOf σ 1) lit

theorem Suits.nonempty_twoFrames (h : Suits tr entries) : ∀ cls ∈ twoFrames tr entries, cls ≠ [] := by
  intro cls hc
  obtain hc | hc := List.mem_append.mp hc
  · exact TransitionRelation.unroll_nonempty h.nonempty 2 cls hc
  · obtain ⟨e, -, rfl⟩ := List.mem_map.mp hc
    exact List.append_ne_nil_of_right_ne_nil _ (List.cons_ne_nil _ _)

theorem prime_not_fresh {u v i : ℕ} (hu : ValidLit u) (hv : minId ≤ v) (hmax : v ≤ maxId)
    (heq : v = prime u i) : v = u := by
  obtain hlow | hge := Nat.lt_or_ge u minId
  · rw [heq, prime_of_lt hlow]
  · have hinj : v = u ∧ 0 = i := prime_injective hv hmax hge hu.2 ((prime_zero hmax).trans heq)
    exact hinj.1

theorem Suits.sameAsked (h : Suits tr entries) (hc : τ idFalse = σ idFalse)
    (hsame : ∀ v, v ∈ (frozenIDs tr entries).map strip ∨ v ∉ varsOf ([idTrue] :: twoFrames tr entries) →
      τ v = σ v) : SameAsked tr entries σ τ := by
  have hfrozen : ∀ lit ∈ tr.latchIDs ++ (tr.bad :: tr.constraints),
      lit ∈ frozenIDs tr entries ∧ prime lit 1 ∈ frozenIDs tr entries := by
    intro lit hl
    simp only [frozenIDs, List.mem_append, List.mem_cons, TransitionRelation.mem_freeze,
      List.not_mem_nil, or_false, true_and] at hl ⊢
    obtain hl | rfl | hl := hl
    · exact ⟨.inl (.inl (.inr (.inl hl))), .inl (.inl (.inr (.inr ⟨lit, hl, rfl⟩)))⟩
    · exact ⟨.inr (.inl rfl), .inr (.inr rfl)⟩
    · exact ⟨.inl (.inr (.inl hl)), .inl (.inr (.inr ⟨lit, hl, rfl⟩))⟩
  have hvalid : ∀ lit ∈ tr.latchIDs ++ (tr.bad :: tr.constraints), ValidLit lit := by
    intro lit hl
    obtain hl | hl := List.mem_append.mp hl
    · rw [h.latchIDs_eq] at hl
      obtain ⟨l, hlatch, rfl⟩ := List.mem_map.mp hl
      exact h.valid.latch_id hlatch
    · obtain rfl | hl := List.mem_cons.mp hl
      · exact h.valid.bad
      · exact h.valid.constraints lit hl
  -- a variable of the formula at time 0 that is fresh is an activation variable
  have hfresh : ∀ v, Fresh tr entries v → τ v = σ v := by
    intro v hv
    refine hsame v (or_iff_not_imp_right.mpr fun hocc ↦ ?_)
    rw [not_not] at hocc
    obtain ⟨cls, hcls, lit, hl, hstrip⟩ := hocc
    obtain rfl | hcls := List.mem_cons.mp hcls
    · obtain rfl := List.mem_singleton.mp hl
      exact absurd (hstrip ▸ hv.ge) (by decide)
    · obtain hcls | hcls := List.mem_append.mp hcls
      · obtain ⟨u, i, hu, hval, heq⟩ := h.valid.mentions_of_mem (mem_varsOf hcls hl)
        rw [hstrip] at heq
        exact absurd (prime_not_fresh hval hv.ge hv.le heq ▸ hu) hv.unmentioned
      · obtain ⟨e, he, rfl⟩ := List.mem_map.mp hcls
        obtain hl | hl := List.mem_append.mp hl
        · exact absurd hstrip (hv.apart e he lit hl)
        · obtain rfl := List.mem_singleton.mp hl
          rw [strip_negate, strip_of_even (h.act e he).1] at hstrip
          refine List.mem_map.mpr ⟨e.activation, ?_, (strip_of_even (h.act e he).1).trans hstrip⟩
          simp only [frozenIDs, List.mem_append]
          exact .inl (.inl (.inl (List.mem_map_of_mem he)))
  refine ⟨hc, hfresh, fun lit hl ↦ hsame _ (.inl (List.mem_map_of_mem (hfrozen lit hl).1)), ?_⟩
  intro lit hask
  refine litVal_congr ?_
  obtain ⟨hval, hask⟩ := hask
  have hkept : ∀ l ∈ tr.latchIDs ++ (tr.bad :: tr.constraints), strip lit = strip l →
      frameOf τ 1 (strip lit) = frameOf σ 1 (strip lit) := by
    intro l hl hstrip
    have hmem : prime (strip l) 1 ∈ (frozenIDs tr entries).map strip :=
      List.mem_map.mpr ⟨_, (hfrozen l hl).2, strip_prime (hvalid l hl).2 1⟩
    rw [hstrip]
    exact hsame _ (.inl hmem)
  obtain hlatch | ⟨c, hcon, hstrip⟩ | hno := hask
  · exact hkept _ (List.mem_append_left _ hlatch) (strip_strip lit).symm
  · exact hkept c (List.mem_append_right _ hcon) hstrip
  · obtain hconst | hge := hval.strip_cases
    · rw [hconst, frameOf_idFalse, frameOf_idFalse]
      exact hc
    · refine hsame _ (.inr fun hocc ↦ ?_)
      have hbig : maxId < prime (strip lit) 1 := by
        rw [prime_of_ge hge hval.strip.2, maxId_eq]
        omega
      obtain ⟨cls, hcls, l, hl, hstrip⟩ := hocc
      obtain rfl | hcls := List.mem_cons.mp hcls
      · obtain rfl := List.mem_singleton.mp hl
        rw [← hstrip] at hbig
        exact absurd hbig (by decide)
      · obtain hcls | hcls := List.mem_append.mp hcls
        · obtain ⟨u, i, hu, huval, heq⟩ := h.valid.mentions_of_mem (mem_varsOf hcls hl)
          rw [hstrip] at heq
          obtain hlow | huge := Nat.lt_or_ge u minId
          · rw [prime_of_lt hlow] at heq
            have hle := huval.2
            omega
          · have hinj := prime_injective hge hval.strip.2 huge huval.2 heq
            exact hno (hinj.1 ▸ hu)
        · obtain ⟨e, he, rfl⟩ := List.mem_map.mp hcls
          have hle : strip l ≤ maxId := by
            obtain hl | hl := List.mem_append.mp hl
            · exact (h.lits e he l hl).strip.2
            · obtain rfl := List.mem_singleton.mp hl
              rw [strip_negate]
              exact (h.validLit_act he).strip.2
          omega

def Refuted (B : Backend) (tr : TransitionRelation) (entries : List (ClauseEntry T)) : Prop :=
  B.simplify = true ∧
    B.simplifier.eliminate ([idTrue] :: twoFrames tr entries) ((frozenIDs tr entries).map strip) = none

structure FormulaAnswers (tr : TransitionRelation) (entries : List (ClauseEntry T)) (vec : ClauseVec) :
    Prop where
  nonempty : ∀ cls ∈ vec, cls ≠ []
  vars : varsOf vec ⊆
    varsOf ([idTrue] :: twoFrames tr entries) ∪ {v | v ∈ (frozenIDs tr entries).map strip}
  iff : ∀ p : Assignment → Prop, (∀ σ τ, SameAsked tr entries σ τ → p σ → p τ) →
    ((∃ σ, satClauses σ ([idTrue] :: vec) ∧ p σ) ↔
      ∃ σ, satClauses σ ([idTrue] :: twoFrames tr entries) ∧ p σ)

theorem activatedFormula_meets (h : Suits tr entries) (B : Backend) {fail : Failure → Prop}
    (hfail : Refuted B tr entries → fail .assertion) :
    Meets (fun vec ↦ FormulaAnswers tr entries vec ∧ ¬ Refuted B tr entries) fail
      (activatedFormula B tr entries) := by
  unfold activatedFormula
  split
  · next hsimp =>
    refine (SATAdaptor.addClauses_meets h.nonempty_twoFrames).bind fun ad had ↦ ?_
    have hdb : ad.clauses = [idTrue] :: twoFrames tr entries := had.1
    unfold SATAdaptor.simplify
    rw [hdb]
    cases hel : B.simplifier.eliminate ([idTrue] :: twoFrames tr entries)
        ((frozenIDs tr entries).map strip) with
    | none => exact hfail ⟨hsimp, hel⟩
    | some simp =>
      refine ⟨⟨B.simplifier.nonempty _ _ _ hel, fun v hv ↦ ?_, fun p hp ↦ ?_⟩, fun hno ↦ ?_⟩
      · obtain hv | hv := B.simplifier.vars _ _ _ hel hv
        · exact .inl hv
        · exact .inr hv
      · exact SAT.Simplifier.exists_iff hel p fun σ τ hc hsame ↦ hp σ τ (h.sameAsked hc hsame)
      · exact absurd (hel.symm.trans hno.2) (Option.some_ne_none simp)
  · next hsimp =>
    refine ⟨⟨h.nonempty_twoFrames, fun v hv ↦ .inl ?_, fun p _ ↦ Iff.rfl⟩, fun hno ↦ hsimp hno.1⟩
    obtain ⟨cls, hcls, lit, hl, heq⟩ := hv
    exact ⟨cls, List.mem_cons_of_mem _ hcls, lit, hl, heq⟩

theorem activatedFormula_refuted (h : Suits tr entries) {B : Backend} (hr : Refuted B tr entries) :
    activatedFormula B tr entries = .error .assertion := by
  obtain ⟨hsimp, hel⟩ := hr
  have hadd : Meets _ (fun _ ↦ False) (SATAdaptor.new.addClauses (twoFrames tr entries)) :=
    SATAdaptor.addClauses_meets h.nonempty_twoFrames
  obtain ⟨ad, hok, had⟩ := hadd.exists_ok
  have hdb : ad.clauses = [idTrue] :: twoFrames tr entries := had.1
  unfold activatedFormula SATAdaptor.simplify
  rw [if_pos hsimp, hok, ok_bind, hdb, hel]
  rfl

/-- Together with `cls c` itself the clauses of `s` carry `cls c` over to the next frame. -/
def Supports (tr : TransitionRelation) (cls : ℕ → Clause) (s : Finset ℕ) (c : ℕ) : Prop :=
  ∀ x y, tr.Linked x y → (∀ d ∈ s, satClause x (cls d)) → satClause x (cls c) → satClause y (cls c)

theorem upward_supports (tr : TransitionRelation) (cls : ℕ → Clause) :
    Support.Upward (Supports tr cls) := fun _ _ _ hst hs x y hxy hall ↦
  hs x y hxy fun d hd ↦ hall d (hst hd)

structure Checkable (tr : TransitionRelation) (cls : ℕ → Clause) (base : Finset ℕ) (n : ℕ) : Prop where
  valid : tr.LitsValid
  nonempty : ∀ cls ∈ tr.toCNF, cls ≠ []
  latchIDs_eq : tr.latchIDs = tr.latches.map Latch.id
  latches_nodup : (tr.latches.map Latch.id).Nodup
  ge : minId ≤ n
  mentions : ∀ v, tr.Mentions v → v < n
  lits : ∀ c ∈ base, ∀ lit ∈ cls c, MayAsk tr lit ∧ strip lit < n

/-- The entries that clauses of `base` get, with activation variables made from `n` on. -/
structure Entered (cls : ℕ → Clause) (base : Finset ℕ) (n : ℕ) (vm : VariableManager)
    (entries : List (ClauseEntry T)) : Prop where
  mem : ∀ e ∈ entries, e.id ∈ base
  clause : ∀ e ∈ entries, e.clause = (cls e.id).insertionSort (· ≤ ·)
  act : ∀ e ∈ entries, e.activation % 2 = 0 ∧ n ≤ e.activation ∧ e.activation < vm.nextID
  ids_nodup : (entries.map ClauseEntry.id).Nodup
  acts_nodup : (entries.map ClauseEntry.activation).Nodup

variable {cls : ℕ → Clause} {base : Finset ℕ} {n : ℕ} {vm vm' : VariableManager}

theorem Entered.nil : Entered cls base n vm ([] : List (ClauseEntry T)) :=
  ⟨nofun, nofun, nofun, List.nodup_nil, List.nodup_nil⟩

theorem Entered.mono (h : Entered cls base n vm entries) (hle : vm.nextID ≤ vm'.nextID) :
    Entered cls base n vm' entries :=
  { h with act := fun e he ↦ ⟨(h.act e he).1, (h.act e he).2.1, (h.act e he).2.2.trans_le hle⟩ }

theorem Entered.add (h : Entered cls base n vm entries) {c act : ℕ} {data : T} (hc : c ∈ base)
    (hnew : c ∉ entries.map ClauseEntry.id) (hn : n ≤ vm.nextID) (heven : vm.nextID % 2 = 0)
    (hact : act = vm.nextID) (hlt : act < vm'.nextID) :
    Entered cls base n vm' (entries ++ [⟨c, act, (cls c).insertionSort (· ≤ ·), data⟩]) := by
  have hold : ∀ e ∈ entries, e.activation < act := fun e he ↦ hact ▸ (h.act e he).2.2
  refine ⟨fun e he ↦ ?_, fun e he ↦ ?_, fun e he ↦ ?_, ?_, ?_⟩
  · cases List.mem_append.mp he with
    | inl he => exact h.mem e he
    | inr he =>
      rw [List.mem_singleton.mp he]
      exact hc
  · cases List.mem_append.mp he with
    | inl he => exact h.clause e he
    | inr he => rw [List.mem_singleton.mp he]
  · cases List.mem_append.mp he with
    | inl he => exact ⟨(h.act e he).1, (h.act e he).2.1, (hold e he).trans hlt⟩
    | inr he =>
      rw [List.mem_singleton.mp he]
      exact ⟨hact ▸ heven, hact ▸ hn, hlt⟩
  · rw [List.map_append, List.nodup_append]
    refine ⟨h.ids_nodup, List.nodup_singleton _, fun a ha b hb hab ↦ ?_⟩
    rw [List.map_singleton, List.mem_singleton] at hb
    rw [hab, hb] at ha
    exact hnew ha
  · rw [List.map_append, List.nodup_append]
    refine ⟨h.acts_nodup, List.nodup_singleton _, fun a ha b hb hab ↦ ?_⟩
    rw [List.map_singleton, List.mem_singleton] at hb
    obtain ⟨e, he, rfl⟩ := List.mem_map.mp ha
    have hlt' := hold e he
    rw [hab, hb] at hlt'
    exact absurd hlt' (Nat.lt_irrefl _)

theorem Entered.mem_clause (h : Entered cls base n vm entries) {e : ClauseEntry T} (he : e ∈ entries)
    {lit : ℕ} : lit ∈ e.clause ↔ lit ∈ cls e.id := by
  rw [h.clause e he]
  exact (List.perm_insertionSort (· ≤ ·) _).mem_iff

theorem Entered.satClause (h : Entered cls base n vm entries) {e : ClauseEntry T} (he : e ∈ entries)
    {x : Assignment} : satClause x e.clause ↔ satClause x (cls e.id) :=
  exists_congr fun _ ↦ and_congr_left fun _ ↦ h.mem_clause he

theorem Entered.unique (h : Entered cls base n vm entries) {e e' : ClauseEntry T} (he : e ∈ entries)
    (he' : e' ∈ entries) (heq : e.id = e'.id) : e = e' :=
  List.inj_on_of_nodup_map h.ids_nodup he he' heq

theorem Checkable.suits (hc : Checkable tr cls base n) (h : Entered cls base n vm entries)
    (hvm : vm.Inv) : Suits tr entries where
  valid := hc.valid
  nonempty := hc.nonempty
  latchIDs_eq := hc.latchIDs_eq
  latches_nodup := hc.latches_nodup
  lits e he lit hl := ((hc.lits _ (h.mem e he) lit ((h.mem_clause he).mp hl)).1).1
  act e he := by
    obtain ⟨heven, hge, hlt⟩ := h.act e he
    have hmin := hc.ge
    have hmax := hvm.le_maxId
    exact ⟨heven, by omega, by omega⟩
  unmentioned e he hm := by
    have hlt := hc.mentions _ hm
    have hge := (h.act e he).2.1
    omega
  apart e he e' he' lit hl heq := by
    have hlt := (hc.lits _ (h.mem e' he') lit ((h.mem_clause he').mp hl)).2
    have hge := (h.act e he).2.1
    omega
  ids_nodup := h.ids_nodup
  acts_nodup := h.acts_nodup

theorem Checkable.fresh (hc : Checkable tr cls base n) (h : Entered cls base n vm entries)
    (hvm : vm.Inv) {v : ℕ} (heven : v % 2 = 0) (hge : n ≤ v) (hlt : v < vm.nextID) :
    Fresh tr entries v where
  even := heven
  ge := hc.ge.trans hge
  le := by
    have hmax := hvm.le_maxId
    omega
  unmentioned hm := absurd (hc.mentions _ hm) (by omega)
  apart e he lit hl heq := by
    have hlt := (hc.lits _ (h.mem e he) lit ((h.mem_clause he).mp hl)).2
    omega

theorem Checkable.vars_bound (hc : Checkable tr cls base n) (h : Entered cls base n vm entries)
    (hn : n ≤ vm.nextID) {v : ℕ}
    (hv : v ∈ varsOf ([idTrue] :: twoFrames tr entries) ∪ {v | v ∈ (frozenIDs tr entries).map strip}) :
    v < vm.nextID ∨ maxId < v := by
  have hmin := hc.ge
  rw [minId_eq] at hmin
  have hprime : ∀ u i, ValidLit u → u < n → v = prime u i → v < vm.nextID ∨ maxId < v := by
    intro u i hu hlt heq
    obtain hlow | hge := Nat.lt_or_ge u minId
    · rw [prime_of_lt hlow] at heq
      exact .inl (by omega)
    · rw [prime_of_ge hge hu.2] at heq
      rw [maxId_eq]
      cases i with
      | zero => exact .inl (by omega)
      | succ i => exact .inr (by omega)
  have hlatch : ∀ l ∈ tr.latches, strip l.id = l.id ∧ ValidLit l.id ∧ l.id < n := by
    intro l hl
    obtain ⟨-, -, heven, -⟩ := hc.valid.latches l hl
    exact ⟨strip_of_even heven, hc.valid.latch_id hl, hc.mentions _ (.inr (.inl ⟨l, hl, .inl rfl⟩))⟩
  have hcon : ∀ c ∈ tr.bad :: tr.constraints, ValidLit c ∧ strip c < n := by
    intro c hmem
    refine ⟨?_, hc.mentions _ (.inr (.inr ⟨c, hmem, rfl⟩))⟩
    obtain rfl | hmem := List.mem_cons.mp hmem
    · exact hc.valid.bad
    · exact hc.valid.constraints c hmem
  obtain ⟨cls', hcls, lit, hl, hstrip⟩ | hv := hv
  · obtain rfl | hcls := List.mem_cons.mp hcls
    · obtain rfl := List.mem_singleton.mp hl
      rw [strip_idTrue, idFalse] at hstrip
      exact .inl (by omega)
    · obtain hcls | hcls := List.mem_append.mp hcls
      · obtain ⟨u, i, hu, hval, heq⟩ := hc.valid.mentions_of_mem (mem_varsOf hcls hl)
        exact hprime u i hval (hc.mentions u hu) (hstrip ▸ heq)
      · obtain ⟨e, he, rfl⟩ := List.mem_map.mp hcls
        obtain hl | hl := List.mem_append.mp hl
        · have hlt := (hc.lits _ (h.mem e he) lit ((h.mem_clause he).mp hl)).2
          exact .inl (by omega)
        · obtain rfl := List.mem_singleton.mp hl
          rw [strip_negate, strip_of_even (h.act e he).1] at hstrip
          exact .inl (hstrip ▸ (h.act e he).2.2)
  · obtain ⟨lit, hl, hstrip⟩ := List.mem_map.mp hv
    simp only [frozenIDs, List.mem_append, List.mem_cons, TransitionRelation.mem_freeze,
      List.not_mem_nil, or_false, true_and] at hl
    obtain ((hl | hl | ⟨l, hl, rfl⟩) | hl | ⟨c, hl, rfl⟩) | rfl | rfl := hl
    · obtain ⟨e, he, rfl⟩ := List.mem_map.mp hl
      rw [strip_of_even (h.act e he).1] at hstrip
      exact .inl (hstrip ▸ (h.act e he).2.2)
    · rw [hc.latchIDs_eq] at hl
      obtain ⟨l, hmem, rfl⟩ := List.mem_map.mp hl
      obtain ⟨heq, -, hlt⟩ := hlatch l hmem
      exact .inl (by omega)
    · rw [hc.latchIDs_eq] at hl
      obtain ⟨l, hmem, rfl⟩ := List.mem_map.mp hl
      obtain ⟨heq, hval, hlt⟩ := hlatch l hmem
      refine hprime l.id 1 hval hlt ?_
      rw [← hstrip, strip_prime hval.2, heq]
    · exact .inl (hstrip ▸ (hcon lit (List.mem_cons_of_mem _ hl)).2.trans_le hn)
    · obtain ⟨hval, hlt⟩ := hcon c (List.mem_cons_of_mem _ hl)
      exact hprime (strip c) 1 hval.strip hlt (hstrip ▸ strip_prime hval.2 1)
    · exact .inl (hstrip ▸ (hcon _ List.mem_cons_self).2.trans_le hn)
    · obtain ⟨hval, hlt⟩ := hcon _ List.mem_cons_self
      exact hprime (strip tr.bad) 1 hval.strip hlt (hstrip ▸ strip_prime hval.2 1)

def failsNext (c : Clause) : Cube := primeVec (negateVec c) 1

theorem satCube_failsNext {c : Clause} (hc : ∀ lit ∈ c, ValidLit lit) :
    satCube σ (failsNext c) ↔ ¬ satClause (frameOf σ 1) c := by
  have hle : ∀ lit ∈ negateVec c, lit ≤ maxId := by
    intro lit hl
    obtain ⟨l, hmem, rfl⟩ := List.mem_map.mp hl
    exact negate_le (hc l hmem).2
  rw [failsNext, satCube_primeVec hle, satCube_negateVec]

def Own (tr : TransitionRelation) (lit : ℕ) : Prop :=
  ValidLit lit ∧ ∃ l ∈ tr.latchIDs ++ (tr.bad :: tr.constraints), strip lit = strip l

theorem Suits.latch_mentioned (h : Suits tr entries) {v : ℕ} (hv : v ∈ tr.latchIDs) :
    strip v = v ∧ tr.Mentions v := by
  rw [h.latchIDs_eq] at hv
  obtain ⟨l, hl, rfl⟩ := List.mem_map.mp hv
  obtain ⟨-, -, heven, -⟩ := h.valid.latches l hl
  exact ⟨strip_of_even heven, .inr (.inl ⟨l, hl, .inl rfl⟩)⟩

theorem Own.mayAsk (h : Suits tr entries) {lit : ℕ} (hl : Own tr lit) : MayAsk tr lit := by
  obtain ⟨hvalid, l, hmem, heq⟩ := hl
  refine ⟨hvalid, ?_⟩
  cases List.mem_append.mp hmem with
  | inl hlatch =>
    rw [(h.latch_mentioned hlatch).1] at heq
    exact .inl (heq ▸ hlatch)
  | inr hcon => exact .inr (.inl ⟨l, hcon, heq⟩)

theorem Own.not_fresh (h : Suits tr entries) {lit : ℕ} (hl : Own tr lit) :
    ¬ Fresh tr entries (strip lit) := by
  obtain ⟨-, l, hmem, heq⟩ := hl
  intro hfresh
  refine hfresh.unmentioned ?_
  cases List.mem_append.mp hmem with
  | inl hlatch =>
    obtain ⟨hstrip, hment⟩ := h.latch_mentioned hlatch
    rwa [heq, hstrip]
  | inr hcon => exact .inr (.inr ⟨l, hcon, heq⟩)

/-- A question about fresh variables, clauses of the circuit's own literals in the first frame and
a clause in the second, asked of the formula. -/
theorem FormulaAnswers.exists_now_iff {vec : ClauseVec} (ha : FormulaAnswers tr entries vec)
    (h : Suits tr entries) {now : ClauseVec} (hnow : ∀ cls ∈ now, ∀ lit ∈ cls, Own tr lit) {c : Clause}
    (hc : ∀ lit ∈ c, MayAsk tr lit) (r : Assignment → Prop)
    (hr : ∀ σ τ : Assignment, (∀ v, Fresh tr entries v → τ v = σ v) → r σ → r τ) :
    (∃ σ, satClauses σ ([idTrue] :: vec) ∧ satClauses σ now ∧ r σ ∧ satCube σ (failsNext c)) ↔
      ∃ A x y, r A ∧ tr.Linked x y ∧
        (∀ e ∈ entries, A e.activation = true → satClause x e.clause) ∧ satClauses x now ∧
        ¬ satClause y c := by
  have hvalid : ∀ lit ∈ c, ValidLit lit := fun lit hl ↦ (hc lit hl).1
  refine (ha.iff (fun σ ↦ satClauses σ now ∧ r σ ∧ satCube σ (failsNext c))
    fun σ τ hsame hp ↦ ?_).trans ?_
  · obtain ⟨hcls, hrσ, hfail⟩ := hp
    refine ⟨fun cls hmem ↦ ?_, hr σ τ hsame.fresh hrσ, ?_⟩
    · obtain ⟨lit, hl, hv⟩ := hcls cls hmem
      obtain ⟨-, l, hown, heq⟩ := hnow cls hmem lit hl
      have hval : τ (strip lit) = σ (strip lit) := heq ▸ hsame.now l hown
      exact ⟨lit, hl, (litVal_congr hval).trans hv⟩
    · rw [satCube_failsNext hvalid] at hfail ⊢
      intro hsat
      obtain ⟨lit, hl, hv⟩ := hsat
      exact hfail ⟨lit, hl, (hsame.next lit (hc lit hl)).symm.trans hv⟩
  · constructor
    · intro hex
      obtain ⟨σ, hσ, hcls, hrσ, hfail⟩ := hex
      obtain ⟨hlink, hact⟩ := satClauses_twoFrames h hσ
      refine ⟨σ, _, _, hrσ, hlink, hact, fun cls hmem ↦ ?_, (satCube_failsNext hvalid).mp hfail⟩
      obtain ⟨lit, hl, hv⟩ := hcls cls hmem
      exact ⟨lit, hl, (litVal_frameOf_zero (hnow cls hmem lit hl).1.2).trans hv⟩
    · intro hex
      obtain ⟨A, x, y, hA, hlink, hact, hcls, hfail⟩ := hex
      obtain ⟨σ, hσ, hfresh, hold, hnext⟩ := exists_twoFrames h hlink A hact
      refine ⟨σ, hσ, fun cls hmem ↦ ?_, hr A σ hfresh hA, (satCube_failsNext hvalid).mpr fun hsat ↦ ?_⟩
      · obtain ⟨lit, hl, hv⟩ := hcls cls hmem
        have hown := hnow cls hmem lit hl
        exact ⟨lit, hl, (hold lit hown.1 (hown.not_fresh h)).trans hv⟩
      · obtain ⟨lit, hl, hv⟩ := hsat
        exact hfail ⟨lit, hl, (hnext lit (hvalid lit hl)).symm.trans hv⟩

/-- A question about fresh variables and a clause in the second frame, asked of the formula. -/
theorem FormulaAnswers.exists_iff {vec : ClauseVec} (ha : FormulaAnswers tr entries vec)
    (h : Suits tr entries) {c : Clause} (hc : ∀ lit ∈ c, MayAsk tr lit) (r : Assignment → Prop)
    (hr : ∀ σ τ : Assignment, (∀ v, Fresh tr entries v → τ v = σ v) → r σ → r τ) :
    (∃ σ, satClauses σ ([idTrue] :: vec) ∧ r σ ∧ satCube σ (failsNext c)) ↔
      ∃ A x y, r A ∧ tr.Linked x y ∧
        (∀ e ∈ entries, A e.activation = true → satClause x e.clause) ∧ ¬ satClause y c := by
  have hquery := ha.exists_now_iff h (fun cls (hmem : cls ∈ []) ↦ absurd hmem List.not_mem_nil) hc r hr
  simpa only [satClauses_nil, true_and] using hquery

end Meaning

end PME
