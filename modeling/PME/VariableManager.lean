import PME.SATAdaptor

namespace PME

open Outcome

def aigerSign (lit : ℕ) : Bool := lit &&& 1 != 0

def aigerNot (lit : ℕ) : ℕ := lit ^^^ 1

def aigerStrip (lit : ℕ) : ℕ := if aigerSign lit then aigerNot lit else lit

theorem aigerSign_eq_false (lit : ℕ) : aigerSign lit = false ↔ lit % 2 = 0 :=
  isNegated_eq_false lit

theorem aigerStrip_of_even {lit : ℕ} (h : lit % 2 = 0) : aigerStrip lit = lit := strip_of_even h

/-- The three maps of the source, newest entry first. A variable carries its external ID,
which is zero for a variable that has none. -/
structure VariableManager where
  nextID : ℕ
  vars : List (ℕ × ℕ)
  internalToExternal : List (ℕ × ℕ)
  externalToInternal : List (ℕ × ℕ)
deriving DecidableEq

namespace VariableManager

def new : VariableManager where
  nextID := minId
  vars := [(idFalse, 0)]
  internalToExternal := [(idFalse, 0)]
  externalToInternal := [(0, idFalse)]

def getNewID (vm : VariableManager) (external : ℕ) : Result (ℕ × VariableManager) :=
  if maxId < vm.nextID then throw .idsExhausted else
  let id := vm.nextID
  let vm := { vm with nextID := vm.nextID + idIncr, vars := (id, external) :: vm.vars }
  if external = 0 then return (id, vm) else do
  ensure (vm.internalToExternal.lookup id).isNone
  ensure (vm.externalToInternal.lookup external).isNone
  return (id, { vm with
    internalToExternal := (id, external) :: vm.internalToExternal
    externalToInternal := (external, id) :: vm.externalToInternal })

def isKnownExternal (vm : VariableManager) (external : ℕ) : Bool :=
  (vm.externalToInternal.lookup external).isSome

def toInternal (vm : VariableManager) (external : ℕ) : Result ℕ :=
  match vm.externalToInternal.lookup (aigerStrip external) with
  | some id => return if aigerSign external then negate id else id
  | none => throw .exception

def isValidId (id : ℕ) : Bool := decide (minId ≤ id) || id == idTrue || id == idFalse

def varOf (vm : VariableManager) (id : ℕ) : Result ℕ := do
  ensure (isValidId id)
  match vm.vars.lookup (strip id) with
  | some _ => return strip id
  | none => throw .exception

def toExternal (vm : VariableManager) (id : ℕ) : Result ℕ := do
  ensure (isValidId id)
  ensure (isValidId (strip id))
  match vm.vars.lookup (strip id) with
  | some external =>
    ensure (!aigerSign external)
    return if isNegated id then aigerNot external else external
  | none => throw .exception

def makeInternal (vm : VariableManager) (vec : List (List ℕ)) : Result ClauseVec :=
  vec.mapM (·.mapM vm.toInternal)

structure Inv (vm : VariableManager) : Prop where
  even : vm.nextID % 2 = 0
  minId_le : minId ≤ vm.nextID
  le_maxId : vm.nextID ≤ maxId + 1
  known : ∀ id, idFalse ≤ id → id < vm.nextID → id % 2 = 0 →
    ∃ external, vm.vars.lookup id = some external ∧ aigerSign external = false
  fresh : ∀ id, vm.nextID ≤ id → vm.internalToExternal.lookup id = none
  const : vm.externalToInternal.lookup 0 = some idFalse
  isVar : ∀ external id, vm.externalToInternal.lookup external = some id → external ≠ 0 →
    minId ≤ id ∧ id < vm.nextID ∧ id % 2 = 0
  injective : ∀ external external' id, vm.externalToInternal.lookup external = some id →
    vm.externalToInternal.lookup external' = some id → external = external'

theorem inv_new : Inv new where
  even := rfl
  minId_le := le_rfl
  le_maxId := by decide
  known := by
    intro id hmin hlt heven
    obtain rfl : id = idFalse := by
      simp only [new, minId_eq, idFalse] at *
      omega
    exact ⟨0, rfl, rfl⟩
  fresh := by
    intro id hid
    have hne : (id == idFalse) = false := beq_false_of_ne (by simp only [new, minId_eq] at hid; simp only [idFalse]; omega)
    simp [new, hne]
  const := rfl
  isVar := by
    intro external id h hexternal
    have hne : (external == 0) = false := beq_false_of_ne hexternal
    simp [new, hne] at h
  injective := by
    intro external external' id h h'
    have hzero : ∀ e i, new.externalToInternal.lookup e = some i → e = 0 := by
      intro e i he
      by_contra hne
      simp [new, beq_false_of_ne hne] at he
    rw [hzero _ _ h, hzero _ _ h']

variable {vm : VariableManager}

structure Extends (vm : VariableManager) (external id : ℕ) (vm' : VariableManager) : Prop where
  id_eq : id = vm.nextID
  le_maxId : id ≤ maxId
  nextID : vm'.nextID = vm.nextID + 2
  inv : vm'.Inv
  lookup : ∀ e, vm'.externalToInternal.lookup e =
    if e = external ∧ external ≠ 0 then some id else vm.externalToInternal.lookup e
  length : vm'.externalToInternal.length =
    vm.externalToInternal.length + if external = 0 then 0 else 1
  keys : vm'.externalToInternal.map Prod.fst =
    (if external = 0 then [] else [external]) ++ vm.externalToInternal.map Prod.fst

theorem getNewID_meets {fail : Failure → Prop} (h : vm.Inv) {external : ℕ} (hsign : aigerSign external = false)
    (hnew : external ≠ 0 → vm.externalToInternal.lookup external = none)
    (hids : maxId < vm.nextID → fail .idsExhausted) :
    Meets (fun r ↦ vm.Extends external r.1 r.2) fail (vm.getNewID external) := by
  unfold getNewID
  by_cases hle : maxId < vm.nextID
  · rw [if_pos hle]
    exact hids hle
  have hmin := h.minId_le
  have heven := h.even
  rw [minId_eq] at hmin
  have hmax : vm.nextID + 2 ≤ maxId + 1 := by
    rw [maxId_eq] at hle ⊢
    omega
  have hknown : ∀ id, idFalse ≤ id → id < vm.nextID + 2 → id % 2 = 0 →
      ∃ e, ((vm.nextID, external) :: vm.vars).lookup id = some e ∧ aigerSign e = false := by
    intro id hid hlt hev
    by_cases hid' : id = vm.nextID
    · subst hid'
      exact ⟨external, List.lookup_cons_self, hsign⟩
    · rw [List.lookup_cons, beq_false_of_ne hid']
      exact h.known id hid (by omega) hev
  simp only [hle, if_false]
  by_cases hexternal : external = 0
  · subst hexternal
    simp only [if_true, meets_pure]
    refine ⟨rfl, by omega, rfl, ⟨?_, ?_, hmax, hknown, ?_, h.const, ?_, h.injective⟩, ?_, rfl, rfl⟩
    · simp only [idIncr]; omega
    · simp only [minId_eq, idIncr]; omega
    · intro id hid
      exact h.fresh id (by simp only [idIncr] at hid; omega)
    · intro e id he hne
      have hv := h.isVar e id he hne
      exact ⟨hv.1, by simp only [idIncr]; omega, hv.2.2⟩
    · intro e
      simp
  · have hnone := hnew hexternal
    have hfresh := h.fresh vm.nextID le_rfl
    have hl : ∀ e, ((external, vm.nextID) :: vm.externalToInternal).lookup e =
        if e = external then some vm.nextID else vm.externalToInternal.lookup e := by
      intro e
      by_cases he : e = external
      · subst he
        simp
      · rw [List.lookup_cons, beq_false_of_ne he, if_neg he]
    simp only [hexternal, if_false, hnone, hfresh, Option.isNone_none, ensure_true, ok_bind, meets_pure]
    refine ⟨rfl, by omega, rfl, ⟨?_, ?_, hmax, hknown, ?_, ?_, ?_, ?_⟩, ?_, ?_, ?_⟩
    · simp only [idIncr]; omega
    · simp only [minId_eq, idIncr]; omega
    · intro id hid
      have hid' : id ≠ vm.nextID := by simp only [idIncr] at hid; omega
      rw [List.lookup_cons, beq_false_of_ne hid']
      exact h.fresh id (by simp only [idIncr] at hid; omega)
    · rw [hl, if_neg (Ne.symm hexternal)]
      exact h.const
    · intro e id he hne
      rw [hl] at he
      split at he
      · obtain rfl : vm.nextID = id := Option.some_inj.mp he
        exact ⟨h.minId_le, by simp only [idIncr]; omega, heven⟩
      · have hv := h.isVar e id he hne
        exact ⟨hv.1, by simp only [idIncr]; omega, hv.2.2⟩
    · have hold : ∀ e, vm.externalToInternal.lookup e ≠ some vm.nextID := by
        intro e he
        by_cases hz : e = 0
        · rw [hz, h.const, Option.some_inj] at he
          simp only [idFalse] at he
          omega
        · have hv := h.isVar e _ he hz
          omega
      intro e e' id he he'
      rw [hl] at he he'
      split at he <;> split at he'
      · omega
      · exact absurd ((Option.some_inj.mp he) ▸ he') (hold e')
      · exact absurd ((Option.some_inj.mp he') ▸ he) (hold e)
      · exact h.injective e e' id he he'
    · intro e
      simp [hl, hexternal]
    · simp [hexternal]
    · simp [hexternal]

/-- A variable without an external name can always be made, until the IDs run out. -/
theorem Inv.getNewID (h : vm.Inv) {r : ℕ × VariableManager} (hr : vm.getNewID 0 = .ok r) :
    r.2.Inv := by
  have hext : Meets (fun r ↦ vm.Extends 0 r.1 r.2) (fun _ ↦ True) (vm.getNewID 0) :=
    getNewID_meets h rfl (absurd rfl) fun _ ↦ trivial
  exact (hext.of_ok hr).inv

theorem isValidId_of_even {id : ℕ} (hmin : idFalse ≤ id) (heven : id % 2 = 0) :
    isValidId id = true := by
  by_cases h : id = idFalse
  · subst h
    rfl
  · have hid : minId ≤ id := by
      simp only [idFalse, minId_eq] at *
      omega
    simp only [isValidId, hid, decide_true, Bool.true_or]

theorem toInternal_eq {external id : ℕ} (h : vm.externalToInternal.lookup (aigerStrip external) = some id) :
    vm.toInternal external = .ok (if aigerSign external then negate id else id) := by
  rw [toInternal, h]
  rfl

/-- A literal is known when its variable is, and gets the ID of its variable with its sign. -/
theorem exists_of_toInternal {external id : ℕ} (h : vm.toInternal external = .ok id) :
    ∃ i, vm.externalToInternal.lookup (aigerStrip external) = some i ∧
      id = if aigerSign external then negate i else i := by
  cases hl : vm.externalToInternal.lookup (aigerStrip external) with
  | none =>
    have herror : vm.toInternal external = .error .exception := by
      rw [toInternal, hl]
      rfl
    rw [herror] at h
    cases h
  | some i =>
    rw [toInternal_eq hl] at h
    exact ⟨i, rfl, (Except.ok.inj h).symm⟩

theorem lookup_of_toInternal {external id : ℕ} (heven : external % 2 = 0)
    (h : vm.toInternal external = .ok id) : vm.externalToInternal.lookup external = some id := by
  obtain ⟨i, hl, hid⟩ := exists_of_toInternal h
  rw [aigerStrip_of_even heven] at hl
  rw [(aigerSign_eq_false external).mpr heven, if_neg Bool.false_ne_true] at hid
  rw [hl, hid]

theorem varOf_meets {fail : Failure → Prop} (h : vm.Inv) {id : ℕ} (hmin : idFalse ≤ id)
    (hlt : id < vm.nextID) (heven : id % 2 = 0) : Meets (· = id) fail (vm.varOf id) := by
  obtain ⟨external, hexternal, -⟩ := h.known id hmin hlt heven
  have hv := isValidId_of_even hmin heven
  simp [varOf, strip_of_even heven, hv, hexternal]

theorem toExternal_meets {fail : Failure → Prop} (h : vm.Inv) {id : ℕ} (hmin : idFalse ≤ id)
    (hlt : id < vm.nextID) (heven : id % 2 = 0) : Meets (fun _ ↦ True) fail (vm.toExternal id) := by
  obtain ⟨external, hexternal, hsign⟩ := h.known id hmin hlt heven
  have hv := isValidId_of_even hmin heven
  simp [toExternal, strip_of_even heven, hv, hexternal, hsign]

def three : VariableManager := ⟨10, [(8, 0), (6, 0), (4, 0), (2, 0)], [(2, 0)], [(0, 2)]⟩

theorem inv_three : three.Inv := by
  have h₁ : new.getNewID 0 = .ok (4, ⟨6, [(4, 0), (2, 0)], [(2, 0)], [(0, 2)]⟩) := rfl
  have h₂ : getNewID ⟨6, [(4, 0), (2, 0)], [(2, 0)], [(0, 2)]⟩ 0 =
      .ok (6, ⟨8, [(6, 0), (4, 0), (2, 0)], [(2, 0)], [(0, 2)]⟩) := rfl
  have h₃ : getNewID ⟨8, [(6, 0), (4, 0), (2, 0)], [(2, 0)], [(0, 2)]⟩ 0 = .ok (8, three) := rfl
  exact ((inv_new.getNewID h₁).getNewID h₂).getNewID h₃

end VariableManager

end PME
