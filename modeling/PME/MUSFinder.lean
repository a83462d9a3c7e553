import PME.VariableManager
import PME.Execution

namespace PME

open Outcome

structure MUSFinder where
  solver : SATAdaptor
  nextGroup : ℕ
  groupToActivation : List (ℕ × ℕ)
  activationToGroup : List (ℕ × ℕ)

namespace MUSFinder

def new : MUSFinder := ⟨.new, 0, [], []⟩

def addHardClause (mf : MUSFinder) (cls : Clause) : Result MUSFinder := do
  return { mf with solver := ← mf.solver.addClause cls }

/-- Groups are counted by an `unsigned`. -/
def createGroup (mf : MUSFinder) (vm : VariableManager) : Result (ℕ × VariableManager × MUSFinder) := do
  let thisGroup := mf.nextGroup
  let (act, vm) ← vm.getNewID 0
  ensure (mf.groupToActivation.lookup thisGroup).isNone
  return (thisGroup, vm, { mf with
    nextGroup := (thisGroup + 1) % 2 ^ 32
    groupToActivation := (thisGroup, act) :: mf.groupToActivation
    activationToGroup := (act, thisGroup) :: mf.activationToGroup })

def activationForGroup (mf : MUSFinder) (gid : ℕ) : Result ℕ :=
  match mf.groupToActivation.lookup gid with
  | some act => return act
  | none => throw .exception

def groupForActivation (mf : MUSFinder) (act : ℕ) : Result ℕ :=
  match mf.activationToGroup.lookup act with
  | some gid => return gid
  | none => throw .exception

def addSoftClause (mf : MUSFinder) (group : ℕ) (cls : Clause) : Result MUSFinder := do
  let act ← mf.activationForGroup group
  return { mf with solver := ← mf.solver.addClause (cls ++ [negate act]) }

def isUNSAT (S : SAT.Solver) (mf : MUSFinder) (core : List ℕ) :
    Result (Bool × List ℕ × MUSFinder) := do
  let assumps ← core.mapM mf.activationForGroup
  let (answer, solver) := mf.solver.solve S assumps
  let mf := { mf with solver := solver }
  match answer with
  | .sat _ => return (false, core, mf)
  | .unsat crits => return (true, ← crits.mapM mf.groupForActivation, mf)

def groups (mf : MUSFinder) : List ℕ := mf.groupToActivation.map Prod.fst

def findCore (S : SAT.Solver) (mf : MUSFinder) : Result (List ℕ × MUSFinder) := do
  let (unsat, core, mf) ← mf.isUNSAT S mf.groups
  ensure unsat
  return (core, mf)

/-- The loop of `findMUS`, at the iterator's place. -/
def findMUSLoop (S : SAT.Solver) : ℕ → MUSFinder → List ℕ → ℕ → Result (List ℕ × MUSFinder)
  | 0, _, _, _ => throw .outOfFuel
  | n + 1, mf, mus, it =>
    if it = mus.length then return (mus, mf) else do
      let gid := mus.getD it 0
      let (unsat, candidate, mf) ← mf.isUNSAT S (mus.filter (· != gid))
      if unsat then
        let mus := candidate.insertionSort (· ≤ ·)
        findMUSLoop S n mf mus (mus.takeWhile (· ≤ gid)).length
      else
        findMUSLoop S n mf mus (it + 1)

def findMUS (S : SAT.Solver) (mf : MUSFinder) : Result (List ℕ × MUSFinder) := do
  let (core, mf) ← mf.findCore S
  let mus := core.insertionSort (· ≤ ·)
  findMUSLoop S (mus.length + 1) mf mus 0

end MUSFinder

def GroupsSat (hard : ClauseVec) (soft : ℕ → ClauseVec) (groups : List ℕ) : Prop :=
  ∃ σ : Assignment, σ idFalse = false ∧ satClauses σ hard ∧ ∀ g ∈ groups, satClauses σ (soft g)

theorem GroupsSat.subset {hard : ClauseVec} {soft : ℕ → ClauseVec} {groups groups' : List ℕ}
    (h : GroupsSat hard soft groups) (hsub : groups' ⊆ groups) : GroupsSat hard soft groups' := by
  obtain ⟨σ, hconst, hhard, hsoft⟩ := h
  exact ⟨σ, hconst, hhard, fun g hg ↦ hsoft g (hsub hg)⟩

namespace MUSFinder

def Usable (vm : VariableManager) (mf : MUSFinder) (lit : ℕ) : Prop :=
  unprime (strip lit) < vm.nextID ∧ ∀ g, mf.groupToActivation.lookup g ≠ some (strip lit)

/-- The solver holds the hard clauses, and the clauses of each group with its activation literal. -/
structure Rep (hard : ClauseVec) (soft : ℕ → ClauseVec) (vm : VariableManager) (mf : MUSFinder) :
    Prop where
  vars : vm.Inv
  inverse : ∀ g a, mf.groupToActivation.lookup g = some a ↔ mf.activationToGroup.lookup a = some g
  isAct : ∀ g a, mf.groupToActivation.lookup g = some a → a % 2 = 0 ∧ minId ≤ a ∧ a < vm.nextID
  clauses : ∀ cls, cls ∈ mf.solver.clauses ↔ cls = [idTrue] ∨ cls ∈ hard ∨
    ∃ g a, mf.groupToActivation.lookup g = some a ∧ ∃ c ∈ soft g, cls = c ++ [negate a]
  usable : ∀ cls, (cls ∈ hard ∨ ∃ g, cls ∈ soft g) → ∀ lit ∈ cls, Usable vm mf lit
  empty : ∀ g, mf.groupToActivation.lookup g = none → soft g = []

inductive Session (S : SAT.Solver) :
    ClauseVec → (ℕ → ClauseVec) → VariableManager → MUSFinder → Prop
  | new {vm : VariableManager} (hvars : vm.Inv) : Session S [] (fun _ ↦ []) vm .new
  /-- Others make variables too. -/
  | made {hard : ClauseVec} {soft : ℕ → ClauseVec} {vm vm' : VariableManager} {mf : MUSFinder}
      (h : Session S hard soft vm mf) (hvars : vm'.Inv) (hle : vm.nextID ≤ vm'.nextID) :
      Session S hard soft vm' mf
  | addHardClause {hard : ClauseVec} {soft : ℕ → ClauseVec} {vm : VariableManager}
      {mf mf' : MUSFinder} {cls : Clause} (h : Session S hard soft vm mf)
      (hlits : ∀ lit ∈ cls, Usable vm mf lit) (hr : mf.addHardClause cls = .ok mf') :
      Session S (hard ++ [cls]) soft vm mf'
  | createGroup {hard : ClauseVec} {soft : ℕ → ClauseVec} {vm vm' : VariableManager}
      {mf mf' : MUSFinder} {gid : ℕ} (h : Session S hard soft vm mf)
      (hr : mf.createGroup vm = .ok (gid, vm', mf')) : Session S hard soft vm' mf'
  | addSoftClause {hard : ClauseVec} {soft : ℕ → ClauseVec} {vm : VariableManager}
      {mf mf' : MUSFinder} {group : ℕ} {cls : Clause} (h : Session S hard soft vm mf)
      (hlits : ∀ lit ∈ cls, Usable vm mf lit) (hr : mf.addSoftClause group cls = .ok mf') :
      Session S hard (Function.update soft group (soft group ++ [cls])) vm mf'
  | findCore {hard : ClauseVec} {soft : ℕ → ClauseVec} {vm : VariableManager} {mf mf' : MUSFinder}
      {core : List ℕ} (h : Session S hard soft vm mf) (hr : mf.findCore S = .ok (core, mf')) :
      Session S hard soft vm mf'
  | findMUS {hard : ClauseVec} {soft : ℕ → ClauseVec} {vm : VariableManager} {mf mf' : MUSFinder}
      {mus : List ℕ} (h : Session S hard soft vm mf) (hr : mf.findMUS S = .ok (mus, mf')) :
      Session S hard soft vm mf'

variable {S : SAT.Solver} {hard : ClauseVec} {soft : ℕ → ClauseVec} {vm vm' : VariableManager}
  {mf mf' : MUSFinder} {cls : Clause} {core mus : List ℕ} {gid act group n it lit : ℕ}
  {fail : Failure → Prop}

theorem rep_new (hvars : vm.Inv) : Rep [] (fun _ ↦ []) vm .new where
  vars := hvars
  inverse g a := by simp [new]
  isAct g a h := nomatch h
  clauses cls := by simp [new, SATAdaptor.new, SATAdaptor.reset]
  usable cls h := by simp at h
  empty g _ := rfl

theorem Usable.mono (h : Usable vm mf lit) (hle : vm.nextID ≤ vm'.nextID) : Usable vm' mf lit :=
  ⟨h.1.trans_le hle, h.2⟩

theorem Rep.with_vars (h : Rep hard soft vm mf) (hvars : vm'.Inv) (hle : vm.nextID ≤ vm'.nextID) :
    Rep hard soft vm' mf := by
  refine ⟨hvars, h.inverse, fun g a hg ↦ ?_, h.clauses, fun cls hc lit hl ↦ (h.usable cls hc lit hl).mono hle,
    h.empty⟩
  obtain ⟨heven, hmin, hlt⟩ := h.isAct g a hg
  exact ⟨heven, hmin, hlt.trans_le hle⟩

theorem Rep.with_solver (h : Rep hard soft vm mf) {ad : SATAdaptor}
    (hc : ad.clauses = mf.solver.clauses) : Rep hard soft vm { mf with solver := ad } :=
  ⟨h.vars, h.inverse, h.isAct, fun cls ↦ hc ▸ h.clauses cls, h.usable, h.empty⟩

theorem Rep.addHardClause (h : Rep hard soft vm mf) (hlits : ∀ lit ∈ cls, Usable vm mf lit)
    (hr : mf.addHardClause cls = .ok mf') : Rep (hard ++ [cls]) soft vm mf' := by
  obtain ⟨ad, had, hr⟩ := bind_eq_ok.mp hr
  cases hr
  have hne : cls ≠ [] := by
    rintro rfl
    exact nomatch had
  obtain ⟨hclauses, -⟩ := post_of_ok (SATAdaptor.addClause_meets hne) had
  refine ⟨h.vars, h.inverse, h.isAct, fun c ↦ ?_, fun c hc lit hl ↦ ?_, h.empty⟩
  · dsimp only
    rw [hclauses, List.mem_append, h.clauses, List.mem_append, or_assoc, or_right_comm]
  · cases hc with
    | inl hhard =>
      cases List.mem_append.mp hhard with
      | inl hold => exact h.usable c (.inl hold) lit hl
      | inr hnew => exact hlits lit (List.mem_singleton.mp hnew ▸ hl)
    | inr hsoft => exact h.usable c (.inr hsoft) lit hl

theorem Rep.addSoftClause (h : Rep hard soft vm mf) (hlits : ∀ lit ∈ cls, Usable vm mf lit)
    (hr : mf.addSoftClause group cls = .ok mf') :
    Rep hard (Function.update soft group (soft group ++ [cls])) vm mf' := by
  obtain ⟨act, hact, hr⟩ := bind_eq_ok.mp hr
  obtain ⟨ad, had, hr⟩ := bind_eq_ok.mp hr
  cases hr
  have hlookup : mf.groupToActivation.lookup group = some act := by
    unfold activationForGroup at hact
    split at hact
    · cases hact
      assumption
    · exact nomatch hact
  obtain ⟨hclauses, -⟩ := post_of_ok (SATAdaptor.addClause_meets (List.concat_ne_nil (negate act) cls)) had
  refine ⟨h.vars, h.inverse, h.isAct, fun c ↦ ?_, fun c hc lit hl ↦ ?_, fun g hg ↦ ?_⟩
  · dsimp only
    rw [hclauses, List.mem_append, h.clauses, List.mem_singleton]
    constructor
    · intro hor
      obtain (hconst | hhard | ⟨g, a, hg, d, hd, rfl⟩) | rfl := hor
      · exact .inl hconst
      · exact .inr (.inl hhard)
      · refine .inr (.inr ⟨g, a, hg, d, ?_, rfl⟩)
        by_cases hgg : g = group
        · subst hgg
          rw [Function.update_self]
          exact List.mem_append_left _ hd
        · rwa [Function.update_of_ne hgg]
      · refine .inr (.inr ⟨group, act, hlookup, cls, ?_, rfl⟩)
        rw [Function.update_self]
        exact List.mem_append_right _ List.mem_cons_self
    · intro hor
      obtain hconst | hhard | ⟨g, a, hg, d, hd, rfl⟩ := hor
      · exact .inl (.inl hconst)
      · exact .inl (.inr (.inl hhard))
      · by_cases hgg : g = group
        · subst hgg
          rw [Function.update_self] at hd
          cases List.mem_append.mp hd with
          | inl hold => exact .inl (.inr (.inr ⟨g, a, hg, d, hold, rfl⟩))
          | inr hnew =>
            rw [List.mem_singleton.mp hnew, Option.some_inj.mp (hg.symm.trans hlookup)]
            exact .inr rfl
        · rw [Function.update_of_ne hgg] at hd
          exact .inl (.inr (.inr ⟨g, a, hg, d, hd, rfl⟩))
  · cases hc with
    | inl hhard => exact h.usable c (.inl hhard) lit hl
    | inr hsoft =>
      obtain ⟨g, hg⟩ := hsoft
      by_cases hgg : g = group
      · subst hgg
        rw [Function.update_self] at hg
        cases List.mem_append.mp hg with
        | inl hold => exact h.usable c (.inr ⟨g, hold⟩) lit hl
        | inr hnew => exact hlits lit (List.mem_singleton.mp hnew ▸ hl)
      · rw [Function.update_of_ne hgg] at hg
        exact h.usable c (.inr ⟨g, hg⟩) lit hl
  · have hgg : g ≠ group := by
      rintro rfl
      rw [hlookup] at hg
      exact nomatch hg
    rw [Function.update_of_ne hgg]
    exact h.empty g hg

theorem Rep.createGroup (h : Rep hard soft vm mf) (hr : mf.createGroup vm = .ok (gid, vm', mf')) :
    Rep hard soft vm' mf' := by
  obtain ⟨⟨act, vm₁⟩, hact, hr⟩ := bind_eq_ok.mp hr
  obtain ⟨_, hnone, hr⟩ := bind_eq_ok.mp hr
  cases hr
  have hmeets : Meets (fun r ↦ vm.Extends 0 r.1 r.2) (fun _ ↦ True) (vm.getNewID 0) :=
    VariableManager.getNewID_meets h.vars rfl (absurd rfl) fun _ ↦ trivial
  have hext : vm.Extends 0 act vm' := hmeets.of_ok hact
  have hmin := h.vars.minId_le
  have heven := h.vars.even
  have hnext := hext.nextID
  have hmax := hext.le_maxId
  have hnone' : mf.groupToActivation.lookup mf.nextGroup = none :=
    Option.isNone_iff_eq_none.mp (ensure_eq_ok hnone)
  have hold : ∀ g a, mf.groupToActivation.lookup g = some a → g ≠ mf.nextGroup ∧ a ≠ act := by
    intro g a hg
    refine ⟨fun hgg ↦ ?_, fun haa ↦ ?_⟩
    · rw [hgg, hnone'] at hg
      exact nomatch hg
    · have hlt := (h.isAct g a hg).2.2
      rw [haa, hext.id_eq] at hlt
      exact absurd hlt (Nat.lt_irrefl _)
  have hlookup : ∀ g a, ((mf.nextGroup, act) :: mf.groupToActivation).lookup g = some a ↔
      (g = mf.nextGroup ∧ a = act) ∨ mf.groupToActivation.lookup g = some a := by
    intro g a
    rw [List.lookup_cons]
    by_cases hg : g = mf.nextGroup
    · subst hg
      simp [hnone', eq_comm]
    · simp [beq_false_of_ne hg, hg]
  have hlookup' : ∀ g a, ((act, mf.nextGroup) :: mf.activationToGroup).lookup a = some g ↔
      (g = mf.nextGroup ∧ a = act) ∨ mf.activationToGroup.lookup a = some g := by
    intro g a
    rw [List.lookup_cons]
    by_cases ha : a = act
    · subst ha
      have hno : mf.activationToGroup.lookup a ≠ some g := fun hg ↦
        (hold g a ((h.inverse g a).mpr hg)).2 rfl
      simp [hno, eq_comm]
    · simp [beq_false_of_ne ha, ha]
  refine ⟨hext.inv, fun g a ↦ ?_, fun g a hg ↦ ?_, fun cls ↦ ?_, fun cls hc lit hl ↦ ?_, fun g hg ↦ ?_⟩
  · rw [hlookup, hlookup', h.inverse]
  · cases (hlookup g a).mp hg with
    | inl hnew =>
      rw [hnew.2, hext.id_eq]
      exact ⟨heven, hmin, by omega⟩
    | inr hg' =>
      obtain ⟨hev, hmin', hlt⟩ := h.isAct g a hg'
      exact ⟨hev, hmin', by omega⟩
  · dsimp only
    rw [h.clauses]
    refine or_congr_right (or_congr_right (exists_congr fun g ↦ exists_congr fun a ↦ ?_))
    rw [hlookup]
    constructor
    · exact fun hand ↦ ⟨.inr hand.1, hand.2⟩
    · intro hand
      obtain ⟨⟨rfl, rfl⟩ | hg, hex⟩ := hand
      · obtain ⟨c, hc, -⟩ := hex
        rw [h.empty _ hnone'] at hc
        exact absurd hc List.not_mem_nil
      · exact ⟨hg, hex⟩
  · obtain ⟨hlt, hno⟩ := h.usable cls hc lit hl
    refine ⟨by omega, fun g hg ↦ ?_⟩
    cases (hlookup g _).mp hg with
    | inl hnew =>
      have hact' : strip lit = act := hnew.2
      rw [hact', unprime_eq, hext.id_eq, Nat.mod_eq_of_lt] at hlt
      · exact absurd hlt (Nat.lt_irrefl _)
      · rw [maxId_eq] at hmax
        rw [← hext.id_eq]
        omega
    | inr hg' => exact hno g hg'
  · refine h.empty g (Option.eq_none_iff_forall_ne_some.mpr fun a ha ↦ ?_)
    rw [(hlookup g a).mpr (.inr ha)] at hg
    exact nomatch hg

theorem mem_groups : gid ∈ mf.groups ↔ ∃ a, mf.groupToActivation.lookup gid = some a := by
  rw [← Option.isSome_iff_exists, ← not_iff_not, Bool.not_eq_true, Option.isSome_eq_false_iff,
    Option.isNone_iff_eq_none, List.lookup_eq_none_iff, groups, List.mem_map]
  simp only [not_exists, not_and, bne_iff_ne]
  exact forall₂_congr fun _ _ ↦ ne_comm

theorem activationForGroup_meets (hg : gid ∈ mf.groups) :
    Meets (fun a ↦ mf.groupToActivation.lookup gid = some a) fail (mf.activationForGroup gid) := by
  obtain ⟨a, ha⟩ := mem_groups.mp hg
  simp [activationForGroup, ha]

theorem groupForActivation_meets (h : mf.activationToGroup.lookup act = some gid) :
    Meets (fun g ↦ mf.activationToGroup.lookup act = some g) fail (mf.groupForActivation act) := by
  simp [groupForActivation, h]

def activate (mf : MUSFinder) (groups : List ℕ) (σ : Assignment) : Assignment := fun v ↦
  match mf.activationToGroup.lookup v with
  | some g => decide (g ∈ groups)
  | none => σ v

theorem activate_act {σ : Assignment} {groups : List ℕ} (h : mf.activationToGroup.lookup act = some gid) :
    mf.activate groups σ act = decide (gid ∈ groups) := by
  rw [activate, h]

theorem Rep.activate_usable (h : Rep hard soft vm mf) {σ : Assignment} {groups : List ℕ}
    (hl : Usable vm mf lit) : mf.activate groups σ (strip lit) = σ (strip lit) := by
  have hnone : mf.activationToGroup.lookup (strip lit) = none :=
    Option.eq_none_iff_forall_ne_some.mpr fun g hg ↦ hl.2 g ((h.inverse g _).mpr hg)
  rw [activate, hnone]

/-- A model of some of the groups is one of the solver's clauses when just these are active. -/
theorem Rep.activate_sat (h : Rep hard soft vm mf) {σ : Assignment} {groups : List ℕ}
    (hconst : σ idFalse = false) (hhard : satClauses σ hard)
    (hsoft : ∀ g ∈ groups, satClauses σ (soft g)) :
    satClauses (mf.activate groups σ) mf.solver.clauses := by
  have hkeep : ∀ cls, (cls ∈ hard ∨ ∃ g, cls ∈ soft g) → satClause σ cls →
      satClause (mf.activate groups σ) cls := fun cls hc hσ ↦
    (satClause_congr fun lit hl ↦ h.activate_usable (h.usable cls hc lit hl)).mpr hσ
  intro cls hcls
  obtain rfl | hc | ⟨g, a, hg, c, hc, rfl⟩ := (h.clauses cls).mp hcls
  · have hnone : mf.activationToGroup.lookup idFalse = none := by
      refine Option.eq_none_iff_forall_ne_some.mpr fun g hg ↦ ?_
      have hmin := (h.isAct g _ ((h.inverse g _).mpr hg)).2.1
      exact absurd hmin (by decide)
    refine ⟨idTrue, List.mem_cons_self, ?_⟩
    rw [litVal_idTrue, activate, hnone, hconst]
    rfl
  · exact hkeep cls (.inl hc) (hhard cls hc)
  · rw [satClause_append]
    by_cases hin : g ∈ groups
    · exact .inl (hkeep c (.inr ⟨g, hc⟩) (hsoft g hin c hc))
    · refine .inr ⟨negate a, List.mem_cons_self, ?_⟩
      rw [litVal_negate, litVal_of_even (h.isAct g a hg).1, activate_act ((h.inverse g a).mp hg),
        decide_eq_false hin]
      rfl

/-- The solver is asked whether the groups are satisfiable together with the hard clauses. -/
theorem isUNSAT_meets (h : Rep hard soft vm mf) (hcore : core ⊆ mf.groups) :
    Meets (fun r ↦ Rep hard soft vm r.2.2 ∧ r.2.2.groups = mf.groups ∧
      (r.1 = true → ¬ GroupsSat hard soft r.2.1 ∧ r.2.1 ⊆ core ∧ r.2.1.Nodup) ∧
      (r.1 = false → GroupsSat hard soft core)) fail (mf.isUNSAT S core) := by
  unfold isUNSAT
  refine (mapM_meets fun g hg ↦ activationForGroup_meets (hcore hg)).bind fun assumps hassumps ↦ ?_
  have hclauses := mf.solver.solve_clauses S assumps
  have hvalid := mf.solver.solve_valid S assumps
  generalize mf.solver.solve S assumps = r at hclauses hvalid
  obtain ⟨answer, ad⟩ := r
  have hrep := h.with_solver hclauses
  dsimp only at hrep hvalid ⊢
  cases answer with
  | sat m =>
    obtain ⟨hclauses, hcube⟩ := hvalid
    refine ⟨hrep, rfl, nofun, fun _ ↦ ⟨m, ?_, fun cls hc ↦ ?_, fun g hg cls hc ↦ ?_⟩⟩
    · have htrue := hclauses [idTrue] ((h.clauses _).mpr (.inl rfl))
      simpa using htrue
    · exact hclauses cls ((h.clauses cls).mpr (.inr (.inl hc)))
    · obtain ⟨a, ha, hlookup⟩ := forall₂_exists_right hassumps hg
      have hcls := hclauses (cls ++ [negate a]) ((h.clauses _).mpr (.inr (.inr ⟨g, a, hlookup, cls, hc, rfl⟩)))
      rw [satClause_append] at hcls
      refine hcls.resolve_right fun hneg ↦ ?_
      rw [satClause_cons, litVal_negate, hcube a ha] at hneg
      exact hneg.elim nofun not_satClause_nil
  | unsat crits =>
    obtain ⟨hsub, hnodup, hno⟩ := hvalid
    have hgroup : ∀ act ∈ crits, ∃ g ∈ core, mf.activationToGroup.lookup act = some g := by
      intro act hact
      obtain ⟨g, hg, hlookup⟩ := forall₂_exists_left hassumps (hsub hact)
      exact ⟨g, hg, (h.inverse g act).mp hlookup⟩
    have hmap : Meets (List.Forall₂ (fun act g ↦ mf.activationToGroup.lookup act = some g) crits) fail
        (crits.mapM { mf with solver := ad }.groupForActivation) :=
      mapM_meets fun act hact ↦ groupForActivation_meets (hgroup act hact).choose_spec.2
    refine hmap.bind fun core' hcore' ↦ ⟨hrep, rfl, fun _ ↦ ⟨?_, ?_, ?_⟩, nofun⟩
    · intro hsat
      obtain ⟨σ, hconst, hhard, hsoft⟩ := hsat
      refine hno _ (h.activate_sat hconst hhard hsoft) fun act hact ↦ ?_
      obtain ⟨g, hg, hlookup⟩ := forall₂_exists_right hcore' hact
      rw [litVal_of_even (h.isAct g act ((h.inverse g act).mpr hlookup)).1, activate_act hlookup,
        decide_eq_true hg]
    · intro g hg
      obtain ⟨act, hact, hlookup⟩ := forall₂_exists_left hcore' hg
      obtain ⟨g', hg', hlookup'⟩ := hgroup act hact
      exact Option.some_inj.mp (hlookup'.symm.trans hlookup) ▸ hg'
    · refine forall₂_nodup hcore' (fun act _ act' _ g hlookup hlookup' ↦ ?_) hnodup
      exact Option.some_inj.mp (((h.inverse g act).mpr hlookup).symm.trans ((h.inverse g act').mpr hlookup'))

theorem findCore_meets (h : Rep hard soft vm mf) (hfail : GroupsSat hard soft mf.groups → fail .assertion) :
    Meets (fun r ↦ Rep hard soft vm r.2 ∧ r.2.groups = mf.groups ∧ ¬ GroupsSat hard soft r.1 ∧
      r.1 ⊆ mf.groups ∧ r.1.Nodup) fail (mf.findCore S) := by
  unfold findCore
  refine (isUNSAT_meets h (List.Subset.refl _)).bind fun r hr ↦ ?_
  obtain ⟨unsat, core, mf'⟩ := r
  obtain ⟨hrep, hgroups, hunsat, hsat⟩ := hr
  cases unsat with
  | true => exact ⟨hrep, hgroups, hunsat rfl⟩
  | false => exact hfail (hsat rfl)

structure Shrinking (hard : ClauseVec) (soft : ℕ → ClauseVec) (groups mus : List ℕ) (it n : ℕ) :
    Prop where
  sorted : mus.Pairwise (· < ·)
  groups : mus ⊆ groups
  unsat : ¬ GroupsSat hard soft mus
  needed : ∀ g ∈ mus.take it, GroupsSat hard soft (mus.filter (· != g))
  left : (mus.drop it).length < n

theorem lt_insertionSort (h : core.Nodup) : (core.insertionSort (· ≤ ·)).Pairwise (· < ·) := by
  have hperm : (core.insertionSort (· ≤ ·)).Nodup := (List.perm_insertionSort (· ≤ ·) core).nodup_iff.mpr h
  exact (List.pairwise_insertionSort (· ≤ ·) core).imp₂ (fun _ _ hle hne ↦ lt_of_le_of_ne hle hne) hperm

theorem exists_upperBound {l : List ℕ} (h : l.Pairwise (· < ·)) (bound : ℕ) : ∃ a b, l = a ++ b ∧
    (l.takeWhile (· ≤ bound)).length = a.length ∧ (∀ g ∈ a, g ≤ bound) ∧ ∀ g ∈ b, bound < g := by
  induction l with
  | nil => exact ⟨[], [], rfl, rfl, nofun, nofun⟩
  | cons g l ih =>
    by_cases hg : g ≤ bound
    · obtain ⟨a, b, heq, hlen, ha, hb⟩ := ih h.of_cons
      refine ⟨g :: a, b, congrArg _ heq, ?_, List.forall_mem_cons.mpr ⟨hg, ha⟩, hb⟩
      rw [List.takeWhile_cons_of_pos (by simpa using hg), List.length_cons, hlen, List.length_cons]
    · refine ⟨[], g :: l, rfl, ?_, nofun, fun g' hg' ↦ ?_⟩
      · rw [List.takeWhile_cons_of_neg (by simpa using hg)]
      · cases List.mem_cons.mp hg' with
        | inl heq => omega
        | inr hmem =>
          have hlt := List.rel_of_pairwise_cons h hmem
          omega

/-- A group that is not needed is left out with all that the solver does not name, and what comes
before it stays needed. -/
theorem Shrinking.drop {groups a b : List ℕ} (h : Shrinking hard soft groups (a ++ gid :: b) a.length (n + 1))
    (hcore : core ⊆ (a ++ gid :: b).filter (· != gid)) (hnodup : core.Nodup)
    (hunsat : ¬ GroupsSat hard soft core) :
    Shrinking hard soft groups (core.insertionSort (· ≤ ·))
      ((core.insertionSort (· ≤ ·)).takeWhile (· ≤ gid)).length n := by
  have hmem : ∀ g, g ∈ core.insertionSort (· ≤ ·) ↔ g ∈ core := fun g ↦ List.mem_insertionSort _
  have hsub : core.insertionSort (· ≤ ·) ⊆ a ++ gid :: b := fun g hg ↦
    (List.mem_filter.mp (hcore ((hmem g).mp hg))).1
  have hne : ∀ g ∈ core.insertionSort (· ≤ ·), g ≠ gid := fun _ hg ↦ by
    simpa using (List.mem_filter.mp (hcore ((hmem _).mp hg))).2
  obtain ⟨-, hb, hab⟩ := List.pairwise_append.mp h.sorted
  have hsorted := lt_insertionSort hnodup
  have hneeded := h.needed
  have hleft := h.left
  rw [List.take_left] at hneeded
  rw [List.drop_left, List.length_cons] at hleft
  obtain ⟨a', b', heq, hlen, ha', hb'⟩ := exists_upperBound hsorted gid
  refine ⟨hsorted, List.Subset.trans hsub h.groups, fun hsat ↦ hunsat ?_, fun g hg ↦ ?_, ?_⟩
  · exact hsat.subset fun g hg ↦ (hmem g).mpr hg
  · rw [hlen, heq, List.take_left] at hg
    have hin : g ∈ core.insertionSort (· ≤ ·) := heq ▸ List.mem_append_left _ hg
    refine (hneeded g ?_).subset (List.filter_subset _ hsub)
    have hlt := lt_of_le_of_ne (ha' g hg) (hne g hin)
    refine (List.mem_append.mp (hsub hin)).resolve_right fun hafter ↦ ?_
    have hge := List.rel_of_pairwise_cons hb ((List.mem_cons.mp hafter).resolve_left hlt.ne)
    omega
  · rw [hlen, heq, List.drop_left]
    have hsub' : b' ⊆ b := by
      intro g hg
      have hlt := hb' g hg
      have hin : g ∈ core.insertionSort (· ≤ ·) := heq ▸ List.mem_append_right _ hg
      have hafter := (List.mem_append.mp (hsub hin)).resolve_left fun hbefore ↦
        absurd (hab g hbefore gid List.mem_cons_self) (by omega)
      exact (List.mem_cons.mp hafter).resolve_left hlt.ne'
    have hnodup' : b'.Nodup := by
      rw [heq] at hsorted
      exact (List.pairwise_append.mp hsorted).2.1.imp fun hlt ↦ hlt.ne
    have hle := (List.subperm_of_subset hnodup' hsub').length_le
    omega

theorem Shrinking.keep {groups a b : List ℕ} (h : Shrinking hard soft groups (a ++ gid :: b) a.length (n + 1))
    (hsat : GroupsSat hard soft ((a ++ gid :: b).filter (· != gid))) :
    Shrinking hard soft groups (a ++ gid :: b) (a.length + 1) n := by
  have htake : (a ++ gid :: b).take (a.length + 1) = a ++ [gid] := by
    rw [List.take_length_add_append]
    rfl
  have hdrop : (a ++ gid :: b).drop (a.length + 1) = b := by
    rw [← List.drop_drop, List.drop_left]
    rfl
  have hneeded := h.needed
  have hleft := h.left
  rw [List.take_left] at hneeded
  rw [List.drop_left, List.length_cons] at hleft
  refine ⟨h.sorted, h.groups, h.unsat, fun g hg ↦ ?_, ?_⟩
  · rw [htake] at hg
    cases List.mem_append.mp hg with
    | inl hbefore => exact hneeded g hbefore
    | inr hself => exact List.mem_singleton.mp hself ▸ hsat
  · rw [hdrop]
    omega

theorem findMUSLoop_meets {groups : List ℕ} (h : Rep hard soft vm mf) (hgroups : mf.groups = groups)
    (hs : Shrinking hard soft groups mus it n) (hit : it ≤ mus.length) :
    Meets (fun r ↦ Rep hard soft vm r.2 ∧ r.1.Pairwise (· < ·) ∧ r.1 ⊆ groups ∧
      ¬ GroupsSat hard soft r.1 ∧ ∀ g ∈ r.1, GroupsSat hard soft (r.1.filter (· != g)))
      fail (findMUSLoop S n mf mus it) := by
  induction n generalizing mf mus it with
  | zero => exact absurd hs.left (Nat.not_lt_zero _)
  | succ n ih =>
    unfold findMUSLoop
    by_cases hend : it = mus.length
    · rw [if_pos hend]
      have hneeded := hs.needed
      rw [hend, List.take_length] at hneeded
      exact ⟨h, hs.sorted, hs.groups, hs.unsat, hneeded⟩
    rw [if_neg hend]
    dsimp only
    obtain ⟨a, gid, b, rfl, rfl⟩ : ∃ a gid b, mus = a ++ gid :: b ∧ it = a.length := by
      have hlt : it < mus.length := lt_of_le_of_ne hit hend
      refine ⟨mus.take it, mus[it], mus.drop (it + 1), ?_, (List.length_take_of_le hit).symm⟩
      rw [List.getElem_cons_drop, List.take_append_drop]
    have hget : (a ++ gid :: b).getD a.length 0 = gid := by
      rw [List.getD_append_right _ _ _ _ le_rfl, Nat.sub_self]
      rfl
    rw [hget]
    have hcandidate : (a ++ gid :: b).filter (· != gid) ⊆ mf.groups :=
      List.Subset.trans List.filter_sublist.subset (hgroups ▸ hs.groups)
    refine (isUNSAT_meets h hcandidate).bind fun r hr ↦ ?_
    obtain ⟨unsat, core, mf'⟩ := r
    obtain ⟨hrep, hgroups', hunsat, hsat⟩ := hr
    cases unsat with
    | true =>
      obtain ⟨hno, hsub, hnodup⟩ := hunsat rfl
      refine ih hrep (hgroups'.trans hgroups) (hs.drop hsub hnodup hno) ?_
      exact (List.takeWhile_prefix _).length_le
    | false =>
      refine ih hrep (hgroups'.trans hgroups) (hs.keep (hsat rfl)) ?_
      simp

/-- The deletion loop keeps a set of groups that is unsatisfiable with the hard clauses, and ends
when each of them is needed. -/
theorem findMUS_meets (h : Rep hard soft vm mf) (hfail : GroupsSat hard soft mf.groups → fail .assertion) :
    Meets (fun r ↦ Rep hard soft vm r.2 ∧ r.1.Pairwise (· < ·) ∧ r.1 ⊆ mf.groups ∧
      ¬ GroupsSat hard soft r.1 ∧ ∀ g ∈ r.1, GroupsSat hard soft (r.1.filter (· != g)))
      fail (mf.findMUS S) := by
  unfold findMUS
  refine (findCore_meets h hfail).bind fun r hr ↦ ?_
  obtain ⟨core, mf'⟩ := r
  obtain ⟨hrep, hgroups, hunsat, hsub, hnodup⟩ := hr
  have hmem : ∀ g, g ∈ core.insertionSort (· ≤ ·) ↔ g ∈ core := fun g ↦ List.mem_insertionSort _
  refine findMUSLoop_meets hrep hgroups ⟨lt_insertionSort hnodup, fun g hg ↦ hsub ((hmem g).mp hg),
    fun hsat ↦ hunsat (hsat.subset fun g hg ↦ (hmem g).mpr hg), nofun, ?_⟩ (Nat.zero_le _)
  exact Nat.lt_succ_self _

theorem Session.rep (h : Session S hard soft vm mf) : Rep hard soft vm mf := by
  induction h with
  | new hvars => exact rep_new hvars
  | made _ hvars hle ih => exact ih.with_vars hvars hle
  | addHardClause _ hlits hr ih => exact ih.addHardClause hlits hr
  | createGroup _ hr ih => exact ih.createGroup hr
  | addSoftClause _ hlits hr ih => exact ih.addSoftClause hlits hr
  | findCore _ hr ih => exact (post_of_ok (findCore_meets ih fun _ ↦ trivial) hr).1
  | findMUS _ hr ih => exact (post_of_ok (findMUS_meets ih fun _ ↦ trivial) hr).1

end MUSFinder

end PME
