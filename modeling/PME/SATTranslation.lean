import PME.Execution
import PME.SATAdaptor

namespace PME

open Outcome

namespace SAT

/-- The solvers' variables are `int`s from 1 on, and a negative literal is a negative number. No
solver gets near `INT_MAX` variables. -/
def Literal.negate (lit : ℤ) : ℤ := -lit

def Literal.isNegated (lit : ℤ) : Bool := decide (lit < 0)

def Literal.strip (lit : ℤ) : ℤ :=
  if Literal.isNegated lit then -lit else lit

def Literal.val (m : ℤ → Bool) (lit : ℤ) : Bool :=
  m (Literal.strip lit) ^^ Literal.isNegated lit

section

variable {m : ℤ → Bool}

theorem Literal.strip_of_pos {v : ℤ} (h : 1 ≤ v) : Literal.strip v = v ∧ Literal.isNegated v = false := by
  have hn : Literal.isNegated v = false := decide_eq_false (by omega)
  refine ⟨?_, hn⟩
  rw [Literal.strip, hn]
  rfl

theorem Literal.strip_negate_of_pos {v : ℤ} (h : 1 ≤ v) :
    Literal.strip (Literal.negate v) = v ∧ Literal.isNegated (Literal.negate v) = true := by
  have hn : Literal.isNegated (-v) = true := decide_eq_true (by omega)
  refine ⟨?_, hn⟩
  rw [Literal.strip, Literal.negate, hn, if_pos rfl, neg_neg]

theorem Literal.val_of_pos {v : ℤ} (h : 1 ≤ v) : Literal.val m v = m v := by
  obtain ⟨hs, hn⟩ := Literal.strip_of_pos h
  rw [Literal.val, hs, hn, Bool.xor_false]

theorem Literal.val_negate_of_pos {v : ℤ} (h : 1 ≤ v) : Literal.val m (Literal.negate v) = !m v := by
  obtain ⟨hs, hn⟩ := Literal.strip_negate_of_pos h
  rw [Literal.val, hs, hn, Bool.xor_true]

theorem Literal.val_negate {s : ℤ} (h : 1 ≤ Literal.strip s) :
    Literal.val m (Literal.negate s) = !Literal.val m s := by
  cases hn : Literal.isNegated s with
  | false =>
    rw [Literal.strip, hn, if_neg Bool.false_ne_true] at h
    rw [Literal.val_of_pos h, Literal.val_negate_of_pos h]
  | true =>
    rw [Literal.strip, hn, if_pos rfl] at h
    have hs : Literal.val m (Literal.negate (-s)) = !m (-s) := Literal.val_negate_of_pos h
    rw [Literal.negate, neg_neg] at hs
    rw [hs, Literal.negate, Literal.val_of_pos h, Bool.not_not]

end

inductive Vendored.Answer
  | sat (model : ℤ → Bool)
  | unsat (conflict : List ℤ)

def Vendored.Answer.Valid (clauses : List (List ℤ)) (assumps : List ℤ) :
    Vendored.Answer → Prop
  | .sat m => (∀ cls ∈ clauses, ∃ lit ∈ cls, Literal.val m lit = true) ∧
      ∀ lit ∈ assumps, Literal.val m lit = true
  | .unsat conflict => conflict.Nodup ∧ (∀ lit ∈ conflict, Literal.negate lit ∈ assumps) ∧
      ∀ m, (∀ cls ∈ clauses, ∃ lit ∈ cls, Literal.val m lit = true) →
        ∃ lit ∈ conflict, Literal.val m lit = true

/-- Minisat or Glucose. The first argument counts the queries, as for `Solver`. -/
structure Vendored where
  solve : ℕ → List (List ℤ) → List ℤ → Vendored.Answer
  valid : ∀ n clauses assumps, (∀ lit ∈ assumps, 1 ≤ Literal.strip lit) →
    (solve n clauses assumps).Valid clauses assumps

open Classical in
noncomputable def Vendored.exhaustive : Vendored where
  solve _ clauses assumps :=
    if h : ∃ m, (∀ cls ∈ clauses, ∃ lit ∈ cls, Literal.val m lit = true) ∧
      ∀ lit ∈ assumps, Literal.val m lit = true
    then .sat h.choose else .unsat (assumps.dedup.map Literal.negate)
  valid _ clauses assumps hpos := by
    split
    · exact Exists.choose_spec ‹_›
    · next hno =>
      refine ⟨(List.nodup_dedup assumps).map neg_injective, fun lit hl ↦ ?_, fun m hm ↦ ?_⟩
      · obtain ⟨a, ha, rfl⟩ := List.mem_map.mp hl
        rw [Literal.negate, Literal.negate, neg_neg]
        exact List.mem_dedup.mp ha
      · by_contra hall
        refine hno ⟨m, hm, fun lit hl ↦ ?_⟩
        have hneg : Literal.negate lit ∈ assumps.dedup.map Literal.negate :=
          List.mem_map_of_mem (List.mem_dedup.mpr hl)
        have hv : ¬ Literal.val m (Literal.negate lit) = true := fun hv ↦ hall ⟨_, hneg, hv⟩
        rw [Literal.val_negate (hpos lit hl)] at hv
        simpa using hv

inductive SolverResult
  | sat (model : ℤ → Bool)
  | unsat
  | unknown

/-- The variables of the maps to the vendored solver's are those from 1 up to `nextVar`. -/
structure MinisatStyleSolver where
  nextVar : ℤ
  clauses : List (List ℤ)
  lastResult : SolverResult
  calls : ℕ

namespace MinisatStyleSolver

def new : MinisatStyleSolver := ⟨1, [], .unknown, 0⟩

def newVariable (s : MinisatStyleSolver) : ℤ × MinisatStyleSolver :=
  (s.nextVar, { s with nextVar := s.nextVar + 1 })

/-- The assertion of `toMinisat`. -/
def toMinisat (s : MinisatStyleSolver) (lit : ℤ) : Result ℤ := do
  ensure (decide (1 ≤ Literal.strip lit ∧ Literal.strip lit < s.nextVar))
  return lit

def addClause (s : MinisatStyleSolver) (cls : List ℤ) : Result MinisatStyleSolver := do
  let mcls ← cls.mapM s.toMinisat
  return { s with clauses := s.clauses ++ [mcls] }

def solve (V : Vendored) (s : MinisatStyleSolver) (assumps : List ℤ) :
    Result (Bool × List ℤ × MinisatStyleSolver) := do
  let mvec ← assumps.mapM s.toMinisat
  let s' := { s with calls := s.calls + 1 }
  match V.solve s.calls s.clauses mvec with
  | .sat m => return (true, [], { s' with lastResult := .sat m })
  | .unsat conflict =>
    return (false, (conflict.map Literal.negate).filter (fun lit ↦ assumps.contains lit),
      { s' with lastResult := .unsat })

def getAssignment (s : MinisatStyleSolver) (lit : ℤ) : Result Bool :=
  match s.lastResult with
  | .sat m => do
    let mlit ← s.toMinisat lit
    return Literal.val m mlit
  | _ => throw .assertion

end MinisatStyleSolver

end SAT

/-- `SATAdaptor` as the code has it, with the maps between IDs and the solver's variables. The
structure `SATAdaptor` is what its users rely on. -/
structure SATTranslator where
  groups : List ℤ
  solver : SAT.MinisatStyleSolver
  idToSAT : ℕ → Option ℤ
  satToID : ℤ → Option ℕ

namespace SATTranslator

open SAT

def groupNull : ℤ := 0

def introduceVariable (ad : SATTranslator) (id : ℕ) : Result SATTranslator :=
  match ad.idToSAT (strip id) with
  | some _ => return ad
  | none => do
    let (satvar, solver) := ad.solver.newVariable
    ensure (ad.satToID satvar).isNone
    return { ad with
      solver := solver
      idToSAT := Function.update ad.idToSAT (strip id) (some satvar)
      satToID := Function.update ad.satToID satvar (some (strip id)) }

def satVarOf (ad : SATTranslator) (id : ℕ) : Result ℤ :=
  match ad.idToSAT id with
  | some satvar => return satvar
  | none => throw .exception

def idOf (ad : SATTranslator) (satvar : ℤ) : Result ℕ :=
  match ad.satToID satvar with
  | some id => return id
  | none => throw .exception

def toSAT (ad : SATTranslator) (id : ℕ) : Result ℤ := do
  let satvar ← ad.satVarOf (strip id)
  return if isNegated id then Literal.negate satvar else satvar

def toSATVec : SATTranslator → List ℕ → Result (List ℤ × SATTranslator)
  | ad, [] => return ([], ad)
  | ad, id :: idvec => do
    let ad ← ad.introduceVariable id
    let lit ← ad.toSAT id
    let (satvec, ad) ← ad.toSATVec idvec
    return (lit :: satvec, ad)

def fromSAT (ad : SATTranslator) (lit : ℤ) : Result ℕ := do
  let id ← ad.idOf (Literal.strip lit)
  return if Literal.isNegated lit then PME.negate id else id

def addClause (ad : SATTranslator) (cls : Clause) : Result SATTranslator := do
  ensure (!cls.isEmpty)
  let (satcls, ad) ← ad.toSATVec cls
  return { ad with solver := ← ad.solver.addClause satcls }

/-- A new solver holds the clause of `ID_TRUE`. -/
def reset : Result SATTranslator := do
  let ad ← (⟨[], .new, fun _ ↦ none, fun _ ↦ none⟩ : SATTranslator).introduceVariable idTrue
  ad.addClause [idTrue]

def createGroup (ad : SATTranslator) : ℤ × SATTranslator :=
  let (gid, solver) := ad.solver.newVariable
  (gid, { ad with groups := gid :: ad.groups, solver := solver })

def addGroupClause (ad : SATTranslator) (group : ℤ) (cls : Clause) :
    Result SATTranslator := do
  ensure (!cls.isEmpty)
  let (satcls, ad) ← ad.toSATVec cls
  return { ad with solver := ← ad.solver.addClause (satcls ++ [Literal.negate group]) }

def pushCrits (ad : SATTranslator) (assumps : Cube) : List ℤ → Cube → Result Cube
  | [], crits => return crits
  | satlit :: satcrits, crits =>
    if ad.groups.contains satlit then ad.pushCrits assumps satcrits crits else do
      let lit ← ad.fromSAT satlit
      ensure (assumps.contains lit)
      ad.pushCrits assumps satcrits (crits ++ [lit])

/-- No `crits` is the null pointer. -/
def groupSolve (V : Vendored) (ad : SATTranslator) (group : ℤ) (assumps : Cube)
    (crits : Option Cube) : Result (Bool × Option Cube × SATTranslator) := do
  let (satassumps, ad) ← ad.toSATVec assumps
  ensure (group == groupNull || ad.groups.contains group)
  let satassumps := if group = groupNull then satassumps else satassumps ++ [group]
  let (sat, satcrits, solver) ← ad.solver.solve V satassumps
  let ad := { ad with solver := solver }
  match sat, crits with
  | false, some crits => return (sat, some (← ad.pushCrits assumps satcrits crits), ad)
  | _, _ => return (sat, crits, ad)

def solve (V : Vendored) (ad : SATTranslator) (assumps : Cube) (crits : Option Cube) :
    Result (Bool × Option Cube × SATTranslator) :=
  ad.groupSolve V groupNull assumps crits

/-- `none` is `SAT::UNDEF`: the variable has no counterpart. -/
def safeGetAssignment (ad : SATTranslator) (lit : ℕ) : Result (Option Bool) :=
  match ad.solver.lastResult, ad.idToSAT (strip lit) with
  | .sat _, some _ => do
    let satlit ← ad.toSAT lit
    return some (← ad.solver.getAssignment satlit)
  | .sat _, none => return none
  | _, _ => throw .assertion

def Encodes (ad : SATTranslator) (ids : List ℕ) (lits : List ℤ) : Prop :=
  List.Forall₂ (fun id lit ↦ ad.toSAT id = .ok lit) ids lits

structure Maps (ad : SATTranslator) : Prop where
  inverse : ∀ id v, ad.idToSAT id = some v ↔ ad.satToID v = some id
  isVar : ∀ id v, ad.idToSAT id = some v → isNegated id = false ∧ 1 ≤ v ∧ v < ad.solver.nextVar
  isGroup : ∀ g ∈ ad.groups, ad.satToID g = none ∧ 1 ≤ g ∧ g < ad.solver.nextVar
  pos : 1 ≤ ad.solver.nextVar

/-- The solver holds the plain clauses and, with its activation literal, each clause of a group. -/
structure Rep (plain : ClauseVec) (grouped : ℤ → ClauseVec) (ad : SATTranslator) : Prop
    extends Maps ad where
  holds : ∀ cls ∈ [idTrue] :: plain, ∃ lits ∈ ad.solver.clauses, ad.Encodes cls lits
  holdsGroup : ∀ g ∈ ad.groups, ∀ cls ∈ grouped g,
    ∃ lits, lits ++ [Literal.negate g] ∈ ad.solver.clauses ∧ ad.Encodes cls lits
  stored : ∀ c ∈ ad.solver.clauses, (∃ cls ∈ [idTrue] :: plain, ad.Encodes cls c) ∨
    ∃ g ∈ ad.groups, ∃ cls ∈ grouped g, ∃ lits, c = lits ++ [Literal.negate g] ∧ ad.Encodes cls lits
  empty : ∀ g ∉ ad.groups, grouped g = []

inductive Session (V : Vendored) : ClauseVec → (ℤ → ClauseVec) → SATTranslator → Prop
  | reset {ad : SATTranslator} (hr : reset = .ok ad) : Session V [] (fun _ ↦ []) ad
  | addClause {plain : ClauseVec} {grouped : ℤ → ClauseVec} {ad ad' : SATTranslator}
      {cls : Clause} (h : Session V plain grouped ad) (hr : ad.addClause cls = .ok ad') :
      Session V (plain ++ [cls]) grouped ad'
  | createGroup {plain : ClauseVec} {grouped : ℤ → ClauseVec} {ad : SATTranslator}
      (h : Session V plain grouped ad) : Session V plain grouped ad.createGroup.2
  | addGroupClause {plain : ClauseVec} {grouped : ℤ → ClauseVec} {ad ad' : SATTranslator}
      {g : ℤ} {cls : Clause} (h : Session V plain grouped ad) (hg : g ∈ ad.groups)
      (hr : ad.addGroupClause g cls = .ok ad') :
      Session V plain (Function.update grouped g (grouped g ++ [cls])) ad'
  | groupSolve {plain : ClauseVec} {grouped : ℤ → ClauseVec} {ad : SATTranslator}
      {g : ℤ} {assumps : Cube} {crits : Option Cube} {r : Bool × Option Cube × SATTranslator}
      (h : Session V plain grouped ad) (hr : ad.groupSolve V g assumps crits = .ok r) :
      Session V plain grouped r.2.2

variable {V : Vendored} {ad ad' : SATTranslator} {plain : ClauseVec} {grouped : ℤ → ClauseVec}
  {fail : Failure → Prop} {g v : ℤ} {id lit : ℕ} {satlit : ℤ} {cls assumps : Cube}
  {ids : List ℕ} {lits : List ℤ} {σ : Assignment} {m : ℤ → Bool}

theorem toSAT_eq_ok : ad.toSAT lit = .ok satlit ↔ ∃ v, ad.idToSAT (strip lit) = some v ∧
    satlit = if isNegated lit then Literal.negate v else v := by
  unfold toSAT satVarOf
  cases ad.idToSAT (strip lit) with
  | none =>
    constructor
    · exact nofun
    · rintro ⟨v, hv, -⟩
      exact nomatch hv
  | some v =>
    constructor
    · intro h
      cases h
      exact ⟨v, rfl, rfl⟩
    · rintro ⟨w, hw, rfl⟩
      cases hw
      rfl

structure Extends (ad ad' : SATTranslator) : Prop where
  kept : ∀ id v, ad.idToSAT id = some v → ad'.idToSAT id = some v
  groups : ad'.groups = ad.groups
  clauses : ad'.solver.clauses = ad.solver.clauses

theorem Extends.refl (ad : SATTranslator) : Extends ad ad := ⟨fun _ _ h ↦ h, rfl, rfl⟩

theorem Extends.trans {ad'' : SATTranslator} (h : Extends ad ad') (h' : Extends ad' ad'') :
    Extends ad ad'' :=
  ⟨fun id v hv ↦ h'.kept id v (h.kept id v hv), h'.groups.trans h.groups, h'.clauses.trans h.clauses⟩

theorem Extends.toSAT (h : Extends ad ad') (hl : ad.toSAT lit = .ok satlit) :
    ad'.toSAT lit = .ok satlit := by
  obtain ⟨v, hv, rfl⟩ := toSAT_eq_ok.mp hl
  exact toSAT_eq_ok.mpr ⟨v, h.kept _ v hv, rfl⟩

theorem Extends.encodes (h : Extends ad ad') (he : ad.Encodes ids lits) : ad'.Encodes ids lits :=
  he.imp fun _ _ ↦ h.toSAT

/-- The sign of a literal and its variable can be read off the solver's literal. -/
theorem Maps.toSAT_spec (h : Maps ad) (hl : ad.toSAT lit = .ok satlit) :
    ad.satToID (Literal.strip satlit) = some (strip lit) ∧
      Literal.isNegated satlit = isNegated lit ∧ 1 ≤ Literal.strip satlit ∧
      Literal.strip satlit < ad.solver.nextVar := by
  obtain ⟨v, hv, rfl⟩ := toSAT_eq_ok.mp hl
  obtain ⟨-, hpos, hlt⟩ := h.isVar _ v hv
  have hid := (h.inverse _ v).mp hv
  cases hneg : isNegated lit with
  | false =>
    obtain ⟨hs, hn⟩ := Literal.strip_of_pos hpos
    rw [if_neg Bool.false_ne_true, hs]
    exact ⟨hid, hn, hpos, hlt⟩
  | true =>
    obtain ⟨hs, hn⟩ := Literal.strip_negate_of_pos hpos
    rw [if_pos rfl, hs]
    exact ⟨hid, hn, hpos, hlt⟩

theorem Maps.not_group (h : Maps ad) (hl : ad.toSAT lit = .ok satlit) : satlit ∉ ad.groups := by
  intro hg
  obtain ⟨hnone, hpos, -⟩ := h.isGroup _ hg
  have hid := (h.toSAT_spec hl).1
  rw [(Literal.strip_of_pos hpos).1, hnone] at hid
  exact nomatch hid

theorem Maps.fromSAT (h : Maps ad) (hl : ad.toSAT lit = .ok satlit) : ad.fromSAT satlit = .ok lit := by
  obtain ⟨hid, hneg, -⟩ := h.toSAT_spec hl
  rw [SATTranslator.fromSAT, idOf, hid, hneg]
  refine congrArg Except.ok ?_
  cases hn : isNegated lit with
  | false =>
    rw [if_neg Bool.false_ne_true, strip, hn]
    rfl
  | true => rw [if_pos rfl, strip, hn, if_pos rfl, negate_negate]

theorem Maps.satToID_nextVar (h : Maps ad) : ad.satToID ad.solver.nextVar = none := by
  refine Option.eq_none_iff_forall_ne_some.mpr fun id hid ↦ ?_
  have hlt := (h.isVar id _ ((h.inverse id _).mpr hid)).2.2
  omega

theorem introduceVariable_meets (h : Maps ad) :
    Meets (fun ad' ↦ Maps ad' ∧ Extends ad ad' ∧ ∃ v, ad'.idToSAT (strip id) = some v) fail
      (ad.introduceVariable id) := by
  unfold introduceVariable
  cases hid : ad.idToSAT (strip id) with
  | some v => exact ⟨h, .refl ad, v, hid⟩
  | none =>
    have hnew := h.satToID_nextVar
    dsimp only [MinisatStyleSolver.newVariable]
    rw [hnew, Option.isNone_none, ensure_true, ok_bind]
    refine ⟨⟨fun id' v ↦ ?_, fun id' v hv ↦ ?_, fun g hg ↦ ?_, ?_⟩, ⟨fun id' v hv ↦ ?_, rfl, rfl⟩,
      ad.solver.nextVar, Function.update_self ..⟩
    · dsimp only
      rw [Function.update_apply, Function.update_apply]
      split_ifs with hi hv hv
      · simp [hi, hv]
      · refine ⟨fun heq ↦ absurd (Option.some_inj.mp heq).symm hv, fun heq ↦ ?_⟩
        rw [hi, ← h.inverse, hid] at heq
        exact nomatch heq
      · refine ⟨fun heq ↦ ?_, fun heq ↦ absurd (Option.some_inj.mp heq).symm hi⟩
        rw [hv, h.inverse, hnew] at heq
        exact nomatch heq
      · exact h.inverse id' v
    · dsimp only at hv ⊢
      rw [Function.update_apply] at hv
      split_ifs at hv with hi
      · cases hv
        exact ⟨hi ▸ isNegated_strip id, h.pos, by omega⟩
      · obtain ⟨hneg, hpos, hlt⟩ := h.isVar id' v hv
        exact ⟨hneg, hpos, by omega⟩
    · obtain ⟨hnone, hpos, hlt⟩ := h.isGroup g hg
      refine ⟨?_, hpos, ?_⟩
      · dsimp only
        rw [Function.update_of_ne (by omega)]
        exact hnone
      · dsimp only
        omega
    · have hpos := h.pos
      dsimp only
      omega
    · dsimp only
      rw [Function.update_of_ne]
      · exact hv
      · rintro rfl
        rw [hid] at hv
        exact nomatch hv

theorem toSATVec_meets (h : Maps ad) (ids : List ℕ) :
    Meets (fun r ↦ Maps r.2 ∧ Extends ad r.2 ∧ r.2.Encodes ids r.1) fail (ad.toSATVec ids) := by
  induction ids generalizing ad with
  | nil => exact ⟨h, .refl ad, .nil⟩
  | cons id ids ih =>
    unfold toSATVec
    refine (introduceVariable_meets h).bind fun ad₁ h₁ ↦ ?_
    obtain ⟨hmaps, hext, v, hv⟩ := h₁
    have hlit : ad₁.toSAT id = .ok _ := toSAT_eq_ok.mpr ⟨v, hv, rfl⟩
    rw [hlit, ok_bind]
    refine (ih hmaps).bind fun r hr ↦ ?_
    obtain ⟨hmaps', hext', henc⟩ := hr
    exact ⟨hmaps', hext.trans hext', .cons (hext'.toSAT hlit) henc⟩

theorem Rep.extend (h : Rep plain grouped ad) (hmaps : Maps ad') (hext : Extends ad ad') :
    Rep plain grouped ad' := by
  refine ⟨hmaps, fun cls hc ↦ ?_, fun g hg cls hc ↦ ?_, fun c hc ↦ ?_, fun g hg ↦ ?_⟩
  · obtain ⟨lits, hl, he⟩ := h.holds cls hc
    exact ⟨lits, hext.clauses ▸ hl, hext.encodes he⟩
  · obtain ⟨lits, hl, he⟩ := h.holdsGroup g (hext.groups ▸ hg) cls hc
    exact ⟨lits, hext.clauses ▸ hl, hext.encodes he⟩
  · refine (h.stored c (hext.clauses ▸ hc)).imp ?_ ?_
    · rintro ⟨cls, hcls, he⟩
      exact ⟨cls, hcls, hext.encodes he⟩
    · rintro ⟨g, hg, cls, hcls, lits, heq, he⟩
      exact ⟨g, hext.groups ▸ hg, cls, hcls, lits, heq, hext.encodes he⟩
  · exact h.empty g (hext.groups ▸ hg)

theorem mapM_toMinisat {s : MinisatStyleSolver} {lits : List ℤ}
    (h : ∀ lit ∈ lits, 1 ≤ Literal.strip lit ∧ Literal.strip lit < s.nextVar) :
    lits.mapM s.toMinisat = .ok lits := by
  induction lits with
  | nil => rfl
  | cons lit lits ih =>
    obtain ⟨hlit, hlits⟩ := List.forall_mem_cons.mp h
    rw [List.mapM_cons, MinisatStyleSolver.toMinisat, decide_eq_true hlit, ensure_true, ok_bind, ih hlits]
    rfl

theorem Maps.encodes_range (h : Maps ad) (he : ad.Encodes ids lits) :
    ∀ satlit ∈ lits, 1 ≤ Literal.strip satlit ∧ Literal.strip satlit < ad.solver.nextVar := by
  intro satlit hl
  obtain ⟨lit, -, hlit⟩ := forall₂_exists_left he hl
  exact (h.toSAT_spec hlit).2.2

theorem Maps.group_range (h : Maps ad) (hg : g ∈ ad.groups) :
    1 ≤ Literal.strip g ∧ Literal.strip g < ad.solver.nextVar ∧
      Literal.strip (Literal.negate g) = Literal.strip g := by
  obtain ⟨-, hpos, hlt⟩ := h.isGroup g hg
  rw [(Literal.strip_of_pos hpos).1, (Literal.strip_negate_of_pos hpos).1]
  exact ⟨hpos, hlt, rfl⟩

theorem addClause_eq {s : MinisatStyleSolver} (h : ∀ lit ∈ lits, 1 ≤ Literal.strip lit ∧
    Literal.strip lit < s.nextVar) : s.addClause lits = .ok { s with clauses := s.clauses ++ [lits] } := by
  rw [MinisatStyleSolver.addClause, mapM_toMinisat h]
  rfl

theorem Maps.with_solver {s : MinisatStyleSolver} (h : Maps ad) (hs : s.nextVar = ad.solver.nextVar) :
    Maps { ad with solver := s } :=
  ⟨h.inverse, fun id v hv ↦ hs ▸ h.isVar id v hv, fun g hg ↦ hs ▸ h.isGroup g hg, hs ▸ h.pos⟩

theorem addClause_meets (h : Rep plain grouped ad) (hc : cls ≠ []) :
    Meets (Rep (plain ++ [cls]) grouped) fail (ad.addClause cls) := by
  unfold addClause
  rw [ensure_nonempty hc, ok_bind]
  refine (toSATVec_meets h.toMaps cls).bind fun r hr ↦ ?_
  obtain ⟨lits, ad₁⟩ := r
  obtain ⟨hmaps, hext, he⟩ := hr
  have h₁ := h.extend hmaps hext
  dsimp only at hmaps he h₁ ⊢
  rw [addClause_eq (hmaps.encodes_range he), ok_bind]
  refine ⟨hmaps.with_solver rfl, fun d hd ↦ ?_, fun g hg d hd ↦ ?_, fun c hc ↦ ?_, h₁.empty⟩
  · rw [← List.cons_append] at hd
    cases List.mem_append.mp hd with
    | inl hold =>
      obtain ⟨lits', hl, he'⟩ := h₁.holds d hold
      exact ⟨lits', List.mem_append_left _ hl, he'⟩
    | inr hnew =>
      cases List.mem_singleton.mp hnew
      exact ⟨lits, List.mem_append_right _ List.mem_cons_self, he⟩
  · obtain ⟨lits', hl, he'⟩ := h₁.holdsGroup g hg d hd
    exact ⟨lits', List.mem_append_left _ hl, he'⟩
  · cases List.mem_append.mp hc with
    | inl hold =>
      refine (h₁.stored c hold).imp_left ?_
      rintro ⟨d, hd, he'⟩
      exact ⟨d, List.mem_append_left _ hd, he'⟩
    | inr hnew =>
      cases List.mem_singleton.mp hnew
      exact .inl ⟨cls, List.mem_cons_of_mem _ (List.mem_append_right _ List.mem_cons_self), he⟩

theorem addGroupClause_meets (h : Rep plain grouped ad) (hg : g ∈ ad.groups) (hc : cls ≠ []) :
    Meets (Rep plain (Function.update grouped g (grouped g ++ [cls]))) fail (ad.addGroupClause g cls) := by
  unfold addGroupClause
  rw [ensure_nonempty hc, ok_bind]
  refine (toSATVec_meets h.toMaps cls).bind fun r hr ↦ ?_
  obtain ⟨lits, ad₁⟩ := r
  obtain ⟨hmaps, hext, he⟩ := hr
  have h₁ := h.extend hmaps hext
  have hg₁ : g ∈ ad₁.groups := hext.groups ▸ hg
  dsimp only at hmaps he h₁ ⊢
  rw [addClause_eq ?_, ok_bind]
  · have hself : Function.update grouped g (grouped g ++ [cls]) g = grouped g ++ [cls] :=
      Function.update_self ..
    have hsub : ∀ g', grouped g' ⊆ Function.update grouped g (grouped g ++ [cls]) g' := by
      intro g' d hd
      rw [Function.update_apply]
      split_ifs with heq
      · exact List.mem_append_left _ (heq ▸ hd)
      · exact hd
    refine ⟨hmaps.with_solver rfl, fun d hd ↦ ?_, fun g' hg' d hd ↦ ?_, fun c hc ↦ ?_, fun g' hg' ↦ ?_⟩
    · obtain ⟨lits', hl, he'⟩ := h₁.holds d hd
      exact ⟨lits', List.mem_append_left _ hl, he'⟩
    · rw [Function.update_apply] at hd
      have hcase : d ∈ grouped g' ∨ g' = g ∧ d = cls := by
        split_ifs at hd with heq
        · subst heq
          exact (List.mem_append.mp hd).imp_right fun hd ↦ ⟨rfl, List.mem_singleton.mp hd⟩
        · exact .inl hd
      obtain hold | ⟨rfl, rfl⟩ := hcase
      · obtain ⟨lits', hl, he'⟩ := h₁.holdsGroup g' hg' d hold
        exact ⟨lits', List.mem_append_left _ hl, he'⟩
      · exact ⟨lits, List.mem_append_right _ List.mem_cons_self, he⟩
    · cases List.mem_append.mp hc with
      | inl hold =>
        refine (h₁.stored c hold).imp_right ?_
        rintro ⟨g', hg', d, hd, lits', heq, he'⟩
        exact ⟨g', hg', d, hsub g' hd, lits', heq, he'⟩
      | inr hnew =>
        refine .inr ⟨g, hg₁, cls, ?_, lits, List.mem_singleton.mp hnew, he⟩
        rw [hself]
        exact List.mem_append_right _ List.mem_cons_self
    · rw [Function.update_of_ne]
      · exact h₁.empty g' hg'
      · rintro rfl
        exact hg' hg₁
  · refine List.forall_mem_append.mpr ⟨hmaps.encodes_range he, fun s hs ↦ ?_⟩
    cases List.mem_singleton.mp hs
    obtain ⟨hpos, hlt, hneg⟩ := hmaps.group_range hg₁
    rw [hneg]
    exact ⟨hpos, hlt⟩

theorem createGroup_rep (h : Rep plain grouped ad) : Rep plain grouped ad.createGroup.2 := by
  have hnew := h.satToID_nextVar
  have hgid : ad.solver.nextVar ∉ ad.groups := fun hg ↦ by
    have hlt := (h.isGroup _ hg).2.2
    omega
  dsimp only [createGroup, MinisatStyleSolver.newVariable]
  refine ⟨⟨h.inverse, fun id v hv ↦ ?_, fun g hg ↦ ?_, ?_⟩, h.holds, fun g hg cls hc ↦ ?_, fun c hc ↦ ?_,
    fun g hg ↦ h.empty g fun hold ↦ hg (List.mem_cons_of_mem _ hold)⟩
  · obtain ⟨hneg, hpos, hlt⟩ := h.isVar id v hv
    exact ⟨hneg, hpos, by dsimp only; omega⟩
  · have hpos := h.pos
    cases List.mem_cons.mp hg with
    | inl heq =>
      subst heq
      exact ⟨hnew, hpos, by dsimp only; omega⟩
    | inr hold =>
      obtain ⟨hnone, hpos', hlt⟩ := h.isGroup g hold
      exact ⟨hnone, hpos', by dsimp only; omega⟩
  · have hpos := h.pos
    dsimp only
    omega
  · cases List.mem_cons.mp hg with
    | inl heq =>
      rw [heq, h.empty _ hgid] at hc
      exact absurd hc List.not_mem_nil
    | inr hold => exact h.holdsGroup g hold cls hc
  · refine (h.stored c hc).imp_right ?_
    rintro ⟨g, hg, cls, hcls, lits, heq, he⟩
    exact ⟨g, List.mem_cons_of_mem _ hg, cls, hcls, lits, heq, he⟩

def decode (ad : SATTranslator) (m : ℤ → Bool) : Assignment := fun id ↦
  match ad.idToSAT id with
  | some v => m v
  | none => false

def encode (ad : SATTranslator) (σ : Assignment) (g : ℤ) : ℤ → Bool := fun v ↦
  match ad.satToID v with
  | some id => σ id
  | none => decide (v = g)

theorem Maps.val_decode (h : Maps ad) (hl : ad.toSAT lit = .ok satlit) :
    Literal.val m satlit = litVal (ad.decode m) lit := by
  obtain ⟨hid, hneg, -⟩ := h.toSAT_spec hl
  rw [Literal.val, litVal, decode, (h.inverse _ _).mpr hid, hneg]

theorem Maps.val_encode (h : Maps ad) (hl : ad.toSAT lit = .ok satlit) :
    Literal.val (ad.encode σ g) satlit = litVal σ lit := by
  obtain ⟨hid, hneg, -⟩ := h.toSAT_spec hl
  rw [Literal.val, litVal, encode, hid, hneg]

theorem Maps.encode_group (h : Maps ad) {g' : ℤ} (hg : g' ∈ ad.groups) :
    Literal.val (ad.encode σ g) g' = decide (g' = g) ∧
      Literal.val (ad.encode σ g) (Literal.negate g') = !decide (g' = g) := by
  obtain ⟨hnone, hpos, -⟩ := h.isGroup g' hg
  have hval : ad.encode σ g g' = decide (g' = g) := by rw [encode, hnone]
  rw [Literal.val_of_pos hpos, Literal.val_negate_of_pos hpos, hval]
  exact ⟨rfl, rfl⟩

theorem Encodes.satClause_iff (he : ad.Encodes cls lits)
    (hval : ∀ lit satlit, ad.toSAT lit = .ok satlit → Literal.val m satlit = litVal σ lit) :
    (∃ satlit ∈ lits, Literal.val m satlit = true) ↔ satClause σ cls := by
  constructor
  · rintro ⟨satlit, hl, hv⟩
    obtain ⟨lit, hlit, henc⟩ := forall₂_exists_left he hl
    exact ⟨lit, hlit, (hval lit satlit henc).symm.trans hv⟩
  · rintro ⟨lit, hl, hv⟩
    obtain ⟨satlit, hlit, henc⟩ := forall₂_exists_right he hl
    exact ⟨satlit, hlit, (hval lit satlit henc).trans hv⟩

/-- Of a model of the solver in which the group is active, the group's clauses are true. -/
theorem Rep.decode_sat (h : Rep plain grouped ad)
    (hclauses : ∀ c ∈ ad.solver.clauses, ∃ s ∈ c, Literal.val m s = true)
    (hactive : g ≠ groupNull → Literal.val m g = true) :
    satClauses (ad.decode m) ([idTrue] :: (plain ++ grouped g)) := by
  have hval : ∀ lit satlit, ad.toSAT lit = .ok satlit → Literal.val m satlit = litVal (ad.decode m) lit :=
    fun lit satlit hl ↦ h.val_decode hl
  intro cls hc
  rw [← List.cons_append] at hc
  cases List.mem_append.mp hc with
  | inl hplain =>
    obtain ⟨lits, hl, he⟩ := h.holds cls hplain
    exact (he.satClause_iff hval).mp (hclauses lits hl)
  | inr hgroup =>
    have hin : g ∈ ad.groups := by
      by_contra hno
      rw [h.empty g hno] at hgroup
      exact List.not_mem_nil hgroup
    have hpos := (h.isGroup g hin).2.1
    have hne : g ≠ groupNull := by
      rw [groupNull]
      omega
    obtain ⟨lits, hl, he⟩ := h.holdsGroup g hin cls hgroup
    obtain ⟨s, hs, hv⟩ := hclauses _ hl
    cases List.mem_append.mp hs with
    | inl hin => exact (he.satClause_iff hval).mp ⟨s, hin, hv⟩
    | inr hact =>
      have hon := hactive hne
      rw [Literal.val_of_pos hpos] at hon
      rw [List.mem_singleton.mp hact, Literal.val_negate_of_pos hpos, hon] at hv
      exact nomatch hv

/-- A model of the plain clauses and one group's gives one in which the other groups are not active. -/
theorem Rep.encode_sat (h : Rep plain grouped ad)
    (hσ : satClauses σ ([idTrue] :: (plain ++ grouped g))) :
    ∀ c ∈ ad.solver.clauses, ∃ s ∈ c, Literal.val (ad.encode σ g) s = true := by
  have hval : ∀ lit satlit, ad.toSAT lit = .ok satlit →
      Literal.val (ad.encode σ g) satlit = litVal σ lit := fun lit satlit hl ↦ h.val_encode hl
  rw [← List.cons_append, satClauses_append] at hσ
  intro c hc
  obtain ⟨cls, hcls, he⟩ | ⟨g', hg', cls, hcls, lits, rfl, he⟩ := h.stored c hc
  · exact (he.satClause_iff hval).mpr (hσ.1 cls hcls)
  · by_cases heq : g' = g
    · subst heq
      obtain ⟨s, hs, hv⟩ := (he.satClause_iff hval).mpr (hσ.2 cls hcls)
      exact ⟨s, List.mem_append_left _ hs, hv⟩
    · refine ⟨Literal.negate g', List.mem_append_right _ List.mem_cons_self, ?_⟩
      rw [(h.encode_group hg').2, decide_eq_false heq]
      rfl

/-- The literals pushed are those of the core that are not for a group, as IDs. -/
theorem pushCrits_meets {satcrits : List ℤ} (h : Maps ad)
    (hcore : ∀ s ∈ satcrits, s ∈ ad.groups ∨ ∃ lit ∈ assumps, ad.toSAT lit = .ok s) (crits : Cube) :
    Meets (fun r ↦ ∃ pushed ⊆ assumps, r = crits ++ pushed ∧
      ad.Encodes pushed (satcrits.filter (fun s ↦ !ad.groups.contains s))) fail
      (ad.pushCrits assumps satcrits crits) := by
  induction satcrits generalizing crits with
  | nil => exact ⟨[], List.nil_subset _, (List.append_nil _).symm, .nil⟩
  | cons s satcrits ih =>
    obtain ⟨hs, hrest⟩ := List.forall_mem_cons.mp hcore
    unfold pushCrits
    by_cases hg : s ∈ ad.groups
    · have hin : ad.groups.contains s = true := List.contains_iff_mem.mpr hg
      rw [if_pos hin, List.filter_cons_of_neg (by simpa using hg)]
      exact ih hrest crits
    · have hout : ¬ ad.groups.contains s = true := mt List.contains_iff_mem.mp hg
      obtain ⟨lit, hmem, hlit⟩ := hs.resolve_left hg
      have hfound : assumps.contains lit = true := List.contains_iff_mem.mpr hmem
      rw [if_neg hout, h.fromSAT hlit, ok_bind, hfound, ensure_true, ok_bind,
        List.filter_cons_of_pos (by simpa using hg)]
      refine (ih hrest (crits ++ [lit])).imp fun r hr ↦ ?_
      obtain ⟨pushed, hsub, rfl, he⟩ := hr
      exact ⟨lit :: pushed, List.cons_subset.mpr ⟨hmem, hsub⟩, by simp, .cons hlit he⟩

/-- What the critical literals say: with a group's activation literal they refute the clauses. -/
theorem Rep.core_unsat {satcrits : List ℤ} {pushed : Cube} (h : Rep plain grouped ad)
    (hcore : ∀ s ∈ satcrits, s ∈ ad.groups → s = g)
    (he : ad.Encodes pushed (satcrits.filter (fun s ↦ !ad.groups.contains s)))
    (hno : ∀ m, (∀ c ∈ ad.solver.clauses, ∃ s ∈ c, Literal.val m s = true) →
      ∃ s ∈ satcrits, Literal.val m s = false) (σ : Assignment)
    (hσ : satClauses σ ([idTrue] :: (plain ++ grouped g))) : ¬ satCube σ pushed := by
  intro hcube
  obtain ⟨s, hs, hv⟩ := hno _ (h.encode_sat hσ)
  by_cases hg : s ∈ ad.groups
  · rw [(h.encode_group hg).1, decide_eq_true (hcore s hs hg)] at hv
    exact nomatch hv
  · have hkept : s ∈ satcrits.filter (fun s ↦ !ad.groups.contains s) :=
      List.mem_filter.mpr ⟨hs, by simpa using hg⟩
    obtain ⟨lit, hl, hlit⟩ := forall₂_exists_left he hkept
    rw [h.val_encode hlit, hcube lit hl] at hv
    exact nomatch hv

theorem solve_meets {s : MinisatStyleSolver}
    (h : ∀ lit ∈ lits, 1 ≤ Literal.strip lit ∧ Literal.strip lit < s.nextVar) :
    Meets (fun r ↦ r.2.2.nextVar = s.nextVar ∧ r.2.2.clauses = s.clauses ∧
      (r.1 = true → ∃ m, r.2.2.lastResult = .sat m ∧
        (∀ c ∈ s.clauses, ∃ lit ∈ c, Literal.val m lit = true) ∧ ∀ lit ∈ lits, Literal.val m lit = true) ∧
      (r.1 = false → r.2.1 ⊆ lits ∧ r.2.1.Nodup ∧
        ∀ m, (∀ c ∈ s.clauses, ∃ lit ∈ c, Literal.val m lit = true) →
          ∃ lit ∈ r.2.1, Literal.val m lit = false)) fail (s.solve V lits) := by
  unfold MinisatStyleSolver.solve
  rw [mapM_toMinisat h, ok_bind]
  have hvalid := V.valid s.calls s.clauses lits fun lit hl ↦ (h lit hl).1
  generalize V.solve s.calls s.clauses lits = a at hvalid
  cases a with
  | sat m => exact ⟨rfl, rfl, fun _ ↦ ⟨m, rfl, hvalid⟩, nofun⟩
  | unsat conflict =>
    obtain ⟨hnodup, hsub, hno⟩ := hvalid
    have hinj : Function.Injective Literal.negate := fun a b heq ↦ neg_injective heq
    refine ⟨rfl, rfl, nofun, fun _ ↦ ⟨fun lit hl ↦ ?_, (hnodup.map hinj).filter _, fun m hm ↦ ?_⟩⟩
    · exact List.contains_iff_mem.mp (List.mem_filter.mp hl).2
    · obtain ⟨lit, hl, hv⟩ := hno m hm
      have hin := hsub lit hl
      refine ⟨Literal.negate lit, List.mem_filter.mpr ⟨List.mem_map_of_mem hl, ?_⟩, ?_⟩
      · exact List.contains_iff_mem.mpr hin
      · have hpos := (h _ hin).1
        have hback : Literal.val m (Literal.negate (Literal.negate lit)) = _ := Literal.val_negate hpos
        rw [Literal.negate, Literal.negate, neg_neg, hv] at hback
        exact (Bool.not_eq_true' _).mp hback.symm

/-- The solver answers for the plain clauses, the clauses of this group and the assumptions. -/
theorem groupSolve_meets (h : Rep plain grouped ad) (hg : g = groupNull ∨ g ∈ ad.groups)
    (assumps : Cube) (crits : Option Cube) :
    Meets (fun r ↦ Rep plain grouped r.2.2 ∧ ∃ a : Answer,
      a.Valid ([idTrue] :: (plain ++ grouped g)) assumps ∧ r.1 = a.isSat ∧
      match a with
      | .sat σ => r.2.1 = crits ∧ ∀ lit ∈ assumps,
          r.2.2.safeGetAssignment lit = .ok (some (litVal σ lit))
      | .unsat pushed => r.2.1 = crits.map (· ++ pushed)) fail
      (ad.groupSolve V g assumps crits) := by
  unfold groupSolve
  refine (toSATVec_meets h.toMaps assumps).bind fun r hr ↦ ?_
  obtain ⟨lits, ad₁⟩ := r
  obtain ⟨hmaps, hext, he⟩ := hr
  have h₁ := h.extend hmaps hext
  have hg₁ : g = groupNull ∨ g ∈ ad₁.groups := hext.groups ▸ hg
  have hknown : (g == groupNull || ad₁.groups.contains g) = true := by simpa using hg₁
  dsimp only at hmaps he h₁ ⊢
  rw [hknown, ensure_true, ok_bind]
  set satassumps := if g = groupNull then lits else lits ++ [g] with hsat
  have hmem : ∀ s, s ∈ satassumps ↔ s ∈ lits ∨ g ≠ groupNull ∧ s = g := by
    intro s
    rw [hsat]
    split_ifs with hnull
    · simp [hnull]
    · simp [hnull]
  have hrange : ∀ s ∈ satassumps, 1 ≤ Literal.strip s ∧ Literal.strip s < ad₁.solver.nextVar := by
    intro s hs
    obtain hl | ⟨hne, rfl⟩ := (hmem s).mp hs
    · exact hmaps.encodes_range he s hl
    · obtain ⟨hpos, hlt, -⟩ := hmaps.group_range (hg₁.resolve_left hne)
      exact ⟨hpos, hlt⟩
  refine (solve_meets hrange).bind fun r hr ↦ ?_
  obtain ⟨sat, satcrits, solver⟩ := r
  obtain ⟨hnext, hclauses, htrue, hfalse⟩ := hr
  dsimp only at hnext hclauses htrue hfalse ⊢
  have hmaps' := hmaps.with_solver hnext
  have hrep : Rep plain grouped { ad₁ with solver := solver } := by
    refine ⟨hmaps', fun cls hc ↦ ?_, fun g hg cls hc ↦ ?_, fun c hc ↦ ?_, h₁.empty⟩
    · exact hclauses ▸ h₁.holds cls hc
    · exact hclauses ▸ h₁.holdsGroup g hg cls hc
    · exact h₁.stored c (hclauses ▸ hc)
  cases sat with
  | true =>
    obtain ⟨m, hlast, hm, hassumps⟩ := htrue rfl
    refine ⟨hrep, .sat (ad₁.decode m), ⟨?_, fun lit hl ↦ ?_⟩, rfl, rfl, fun lit hl ↦ ?_⟩
    · exact h₁.decode_sat hm fun hne ↦ hassumps g ((hmem g).mpr (.inr ⟨hne, rfl⟩))
    · obtain ⟨s, hs, hlit⟩ := forall₂_exists_right he hl
      rw [← hmaps.val_decode hlit]
      exact hassumps s ((hmem s).mpr (.inl hs))
    · obtain ⟨s, hs, hlit⟩ := forall₂_exists_right he hl
      obtain ⟨v, hv, -⟩ := toSAT_eq_ok.mp hlit
      have hlit' : toSAT { ad₁ with solver := solver } lit = .ok s := hlit
      have hin := hmaps.toSAT_spec hlit
      rw [safeGetAssignment, hlast]
      dsimp only
      rw [hv]
      dsimp only
      rw [hlit', ok_bind, MinisatStyleSolver.getAssignment, hlast]
      dsimp only
      rw [MinisatStyleSolver.toMinisat, hnext, decide_eq_true hin.2.2, ensure_true, ok_bind]
      exact congrArg (fun b ↦ Except.ok (some b)) (hmaps.val_decode hlit)
  | false =>
    obtain ⟨hsub, hnodup, hno⟩ := hfalse rfl
    have hcore : ∀ s ∈ satcrits, s ∈ ad₁.groups ∨ ∃ lit ∈ assumps, ad₁.toSAT lit = .ok s := by
      intro s hs
      obtain hl | ⟨hne, rfl⟩ := (hmem s).mp (hsub hs)
      · exact .inr (forall₂_exists_left he hl)
      · exact .inl (hg₁.resolve_left hne)
    have hself : ∀ s ∈ satcrits, s ∈ ad₁.groups → s = g := by
      intro s hs hin
      obtain hl | ⟨-, rfl⟩ := (hmem s).mp (hsub hs)
      · obtain ⟨lit, -, hlit⟩ := forall₂_exists_left he hl
        exact absurd hin (hmaps.not_group hlit)
      · rfl
    have hvalid : ∀ pushed ⊆ assumps,
        ad₁.Encodes pushed (satcrits.filter (fun s ↦ !ad₁.groups.contains s)) →
        (Answer.unsat pushed).Valid ([idTrue] :: (plain ++ grouped g)) assumps := by
      intro pushed hpushed henc
      refine ⟨hpushed, forall₂_nodup henc.flip (fun s _ s' _ lit hs hs' ↦ ?_) (hnodup.filter _),
        h₁.core_unsat hself henc hno⟩
      exact Except.ok.inj (hs.symm.trans hs')
    cases crits with
    | none =>
      have hpush : Meets _ (fun _ ↦ False) (ad₁.pushCrits assumps satcrits []) :=
        pushCrits_meets hmaps hcore []
      obtain ⟨-, -, pushed, hpushed, -, henc⟩ := hpush.exists_ok
      exact ⟨hrep, .unsat pushed, hvalid pushed hpushed henc, rfl, rfl⟩
    | some crits =>
      have hpush : Meets _ fail (pushCrits { ad₁ with solver := solver } assumps satcrits crits) :=
        pushCrits_meets hmaps' hcore crits
      refine hpush.bind fun r hr ↦ ?_
      obtain ⟨pushed, hpushed, rfl, henc⟩ := hr
      exact ⟨hrep, .unsat pushed, hvalid pushed hpushed henc, rfl, rfl⟩

theorem reset_meets : Meets (Rep [] fun _ ↦ []) fail reset := by
  have hmaps : Maps ⟨[], .new, fun _ ↦ none, fun _ ↦ none⟩ :=
    ⟨fun _ _ ↦ ⟨nofun, nofun⟩, nofun, nofun, le_rfl⟩
  unfold reset
  refine (introduceVariable_meets hmaps).bind fun ad₁ h₁ ↦ ?_
  obtain ⟨hmaps₁, hext, -⟩ := h₁
  unfold addClause
  rw [ensure_nonempty (List.cons_ne_nil _ _), ok_bind]
  refine (toSATVec_meets hmaps₁ [idTrue]).bind fun r hr ↦ ?_
  obtain ⟨lits, ad₂⟩ := r
  obtain ⟨hmaps₂, hext', he⟩ := hr
  have hgroups : ad₂.groups = [] := hext'.groups.trans hext.groups
  have hclauses : ad₂.solver.clauses = [] := hext'.clauses.trans hext.clauses
  dsimp only at hmaps₂ he ⊢
  rw [addClause_eq (hmaps₂.encodes_range he), ok_bind, hclauses]
  refine ⟨hmaps₂.with_solver rfl, fun cls hc ↦ ?_, fun g hg ↦ ?_, fun c hc ↦ ?_, fun _ _ ↦ rfl⟩
  · cases List.mem_singleton.mp hc
    exact ⟨lits, List.mem_cons_self, he⟩
  · have hg : g ∈ ad₂.groups := hg
    rw [hgroups] at hg
    exact absurd hg List.not_mem_nil
  · cases List.mem_singleton.mp hc
    exact .inl ⟨[idTrue], List.mem_cons_self, he⟩

theorem groupSolve_group {crits : Option Cube} {r : Bool × Option Cube × SATTranslator} (h : Maps ad)
    (hr : ad.groupSolve V g assumps crits = .ok r) : g = groupNull ∨ g ∈ ad.groups := by
  obtain ⟨p, hp, hr⟩ := bind_eq_ok.mp hr
  obtain ⟨lits, ad₁⟩ := p
  obtain ⟨-, hext, -⟩ := post_of_ok (toSATVec_meets h assumps) hp
  obtain ⟨u, hknown, -⟩ := bind_eq_ok.mp hr
  have hg : (g == groupNull || ad₁.groups.contains g) = true := ensure_eq_ok hknown
  rw [hext.groups] at hg
  simpa using hg

theorem Session.rep (h : Session V plain grouped ad) : Rep plain grouped ad := by
  induction h with
  | reset hr => exact post_of_ok reset_meets hr
  | @addClause plain grouped ad ad' cls h hr ih =>
    have hne : cls ≠ [] := by
      rintro rfl
      exact nomatch hr
    exact post_of_ok (addClause_meets ih hne) hr
  | createGroup h ih => exact createGroup_rep ih
  | @addGroupClause plain grouped ad ad' g cls h hg hr ih =>
    have hne : cls ≠ [] := by
      rintro rfl
      exact nomatch hr
    exact post_of_ok (addGroupClause_meets ih hg hne) hr
  | @groupSolve plain grouped ad g assumps crits r h hr ih =>
    have hg := groupSolve_group ih.toMaps hr
    exact (post_of_ok (groupSolve_meets ih hg assumps crits) hr).1

end SATTranslator

end PME
