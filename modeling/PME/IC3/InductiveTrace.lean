import PME.SATAdaptor

namespace PME.IC3

open Outcome

/-- A level is an `unsigned` in the source, and `LEVEL_INF` the largest of them. Here there is
a level for every number, and infinity above them. -/
inductive Level
  | fin (n : ℕ)
  | inf
deriving DecidableEq

namespace Level

def toWithTop : Level → WithTop ℕ
  | fin n => WithTop.some n
  | inf => ⊤

theorem toWithTop_injective : Function.Injective toWithTop := by
  intro a b h
  cases a with
  | fin n =>
    cases b with
    | fin m => rw [WithTop.coe_injective h]
    | inf => exact absurd h (WithTop.coe_ne_top (a := n))
  | inf =>
    cases b with
    | fin m => exact absurd h.symm (WithTop.coe_ne_top (a := m))
    | inf => rfl

instance : LinearOrder Level := LinearOrder.lift' toWithTop toWithTop_injective

@[simp] theorem fin_le_fin {n m : ℕ} : fin n ≤ fin m ↔ n ≤ m := WithTop.coe_le_coe

@[simp] theorem fin_lt_fin {n m : ℕ} : fin n < fin m ↔ n < m := WithTop.coe_lt_coe

@[simp] theorem fin_lt_inf {n : ℕ} : fin n < inf := WithTop.coe_lt_top n

@[simp] theorem le_inf {ℓ : Level} : ℓ ≤ inf := (le_top : toWithTop ℓ ≤ ⊤)

@[simp] theorem not_inf_le_fin {n : ℕ} : ¬ inf ≤ fin n := WithTop.not_top_le_coe n

def needed : Level → ℕ
  | fin n => n + 1
  | inf => 0

@[simp] theorem needed_fin (n : ℕ) : needed (fin n) = n + 1 := rfl

@[simp] theorem needed_inf : needed inf = 0 := rfl

end Level

abbrev LemmaID := ℕ

abbrev Frame := List LemmaID

structure Frames where
  frames : List Frame
  frameInf : Frame

namespace Frames

def new : Frames := ⟨[], []⟩

def numFrames (f : Frames) : ℕ := f.frames.length

def frameExists (f : Frames) : Level → Bool
  | .inf => true
  | .fin n => decide (n < f.frames.length)

/-- A frame that does not exist is one that is made empty when it is first changed. -/
def frame (f : Frames) : Level → Frame
  | .inf => f.frameInf
  | .fin n => f.frames.getD n []

def getFrame (f : Frames) (level : Level) : Result Frame := do
  ensure (f.frameExists level)
  return f.frame level

def createFrame (f : Frames) (n : ℕ) : List Frame :=
  f.frames ++ List.replicate (n + 1 - f.frames.length) []

def modifyFrame (f : Frames) (level : Level) (change : Frame → Frame) : Frames :=
  match level with
  | .inf => { f with frameInf := change f.frameInf }
  | .fin n => { f with frames := (f.createFrame n).modify n change }

def addLemmaToFrame (f : Frames) (id : LemmaID) (level : Level) : Frames :=
  f.modifyFrame level fun frame ↦ if id ∈ frame then frame else frame.orderedInsert (· ≤ ·) id

def removeLemmaFromFrame (f : Frames) (id : LemmaID) (level : Level) : Result Frames := do
  ensure ((f.frame level).contains id)
  return f.modifyFrame level (·.erase id)

def shrink (f : Frames) (n : ℕ) : Result Frames := do
  ensure (decide (n ≤ f.frames.length))
  return { f with frames := f.frames.take n }

end Frames

def sortCube (cube : Cube) : Cube := cube.insertionSort (· ≤ ·)

structure LemmaData where
  id : LemmaID
  cube : Cube
  level : Level
  deleted : Bool

structure InductiveTrace where
  frames : Frames
  lemmas : List LemmaData
  cubeToLemmaID : List (Cube × LemmaID)

namespace InductiveTrace

def new : InductiveTrace := ⟨.new, [], []⟩

def clear (_ : InductiveTrace) : InductiveTrace := new

def numFrames (t : InductiveTrace) : ℕ := t.frames.numFrames

def getFrame (t : InductiveTrace) (level : Level) : Result Frame := t.frames.getFrame level

def getLemma (t : InductiveTrace) (id : LemmaID) : Result LemmaData :=
  match t.lemmas[id]? with
  | some data => return data
  | none => throw .exception

def cubeOf (t : InductiveTrace) (id : LemmaID) : Result Cube := do
  return (← t.getLemma id).cube

/-- The sorted copy that the source makes here is not the one it looks for. -/
def lemmaExists (t : InductiveTrace) (cube : Cube) : Bool := (t.cubeToLemmaID.lookup cube).isSome

def idOf (t : InductiveTrace) (cube : Cube) : Result LemmaID :=
  match t.cubeToLemmaID.lookup (sortCube cube) with
  | some id => return id
  | none => throw .exception

def getLemmaOf (t : InductiveTrace) (cube : Cube) : Result LemmaData := do
  t.getLemma (← t.idOf cube)

def levelOf (t : InductiveTrace) (cube : Cube) : Result Level := do
  ensure (t.lemmaExists cube)
  return (← t.getLemmaOf cube).level

def lemmaIsActive (t : InductiveTrace) (cube : Cube) : Result Bool :=
  if t.lemmaExists cube then do return !(← t.getLemmaOf cube).deleted else return false

def setLevel (t : InductiveTrace) (id : LemmaID) (data : LemmaData) (level : Level)
    (frames : Frames) : InductiveTrace :=
  { t with
    frames := frames.addLemmaToFrame data.id level
    lemmas := t.lemmas.set id { data with level := level } }

def addLemma (t : InductiveTrace) (cube : Cube) (level : Level) :
    Result (LemmaID × InductiveTrace) :=
  let sorted := sortCube cube
  if t.lemmaExists sorted then do
    let id ← t.idOf sorted
    let data ← t.getLemma id
    let frames ← (if data.deleted then pure t.frames else do
      ensure (decide (data.level ≤ level))
      t.frames.removeLemmaFromFrame data.id data.level : Result Frames)
    return (data.id, t.setLevel id { data with deleted := false } level frames)
  else
    let id := t.lemmas.length
    return (id, {
      frames := t.frames.addLemmaToFrame id level
      lemmas := t.lemmas ++ [⟨id, sorted, level, false⟩]
      cubeToLemmaID := (sorted, id) :: t.cubeToLemmaID })

def pushLemma (t : InductiveTrace) (id : LemmaID) (level : Level) : Result InductiveTrace := do
  let data ← t.getLemma id
  ensure (decide (data.level ≤ level))
  let frames ← t.frames.removeLemmaFromFrame data.id data.level
  return t.setLevel id data level frames

def removeLemma (t : InductiveTrace) (id : LemmaID) : Result InductiveTrace := do
  let data ← t.getLemma id
  let frames ← t.frames.removeLemmaFromFrame data.id data.level
  return { t with frames := frames, lemmas := t.lemmas.set id { data with deleted := true } }

/-- The loop of `clearUnusedFrames`, which goes down from this frame. -/
def unusedFrom (t : InductiveTrace) : ℕ → ℕ → ℕ
  | 0, k => k
  | i + 1, k => if (t.frames.frame (.fin (i + 1))).isEmpty then unusedFrom t i (i + 1) else k

/-- When there are no frames, the loop begins at `LEVEL_INF`, the number before zero, and goes
down from there to levels that have no frame, unless there are lemmas at infinity. -/
def clearUnusedFrames (t : InductiveTrace) : Result InductiveTrace := do
  ensure (decide (t.numFrames ≠ 0) || !t.frames.frameInf.isEmpty)
  return { t with frames := ← t.frames.shrink (t.unusedFrom (t.numFrames - 1) t.numFrames) }

end InductiveTrace

namespace Frames

variable {f f' : Frames} {id i : LemmaID} {ℓ m : Level} {fail : Failure → Prop}

theorem numFrames_modifyFrame (change : Frame → Frame) :
    (f.modifyFrame ℓ change).numFrames = max f.numFrames ℓ.needed := by
  cases ℓ with
  | inf => simp [modifyFrame, numFrames]
  | fin n =>
    simp only [modifyFrame, numFrames, createFrame, List.length_modify, List.length_append,
      List.length_replicate, Level.needed_fin]
    omega

theorem getD_createFrame (n k : ℕ) : (f.createFrame n).getD k [] = f.frames.getD k [] := by
  rw [createFrame, List.getD_eq_getElem?_getD, List.getD_eq_getElem?_getD, List.getElem?_append]
  split
  · rfl
  · rw [List.getElem?_replicate, List.getElem?_eq_none (by omega)]
    split <;> rfl

theorem frame_modifyFrame_same (change : Frame → Frame) :
    (f.modifyFrame ℓ change).frame ℓ = change (f.frame ℓ) := by
  cases ℓ with
  | inf => rfl
  | fin n =>
    have hlt : n < (f.createFrame n).length := by
      rw [createFrame, List.length_append, List.length_replicate]
      omega
    have hold := getD_createFrame (f := f) n n
    change ((f.createFrame n).modify n change).getD n [] = change (f.frames.getD n [])
    rw [← hold, List.getD_eq_getElem?_getD, List.getD_eq_getElem?_getD, List.getElem?_modify_eq,
      List.getElem?_eq_getElem hlt]
    rfl

theorem frame_modifyFrame_ne (change : Frame → Frame) (h : m ≠ ℓ) :
    (f.modifyFrame ℓ change).frame m = f.frame m := by
  cases ℓ with
  | inf =>
    cases m with
    | inf => exact absurd rfl h
    | fin k => rfl
  | fin n =>
    cases m with
    | inf => rfl
    | fin k =>
      have hne : n ≠ k := fun heq ↦ h (by rw [heq])
      have hold := getD_createFrame (f := f) n k
      change ((f.createFrame n).modify n change).getD k [] = f.frames.getD k []
      rw [← hold, List.getD_eq_getElem?_getD, List.getD_eq_getElem?_getD,
        List.getElem?_modify_ne _ _ hne]

theorem mem_addLemmaToFrame :
    i ∈ (f.addLemmaToFrame id ℓ).frame m ↔ (i = id ∧ m = ℓ) ∨ i ∈ f.frame m := by
  unfold addLemmaToFrame
  by_cases hm : m = ℓ
  · subst hm
    rw [frame_modifyFrame_same]
    split
    · exact ⟨.inr, fun h ↦ h.elim (fun h ↦ h.1 ▸ ‹_›) fun h ↦ h⟩
    · rw [List.mem_orderedInsert]
      simp
  · rw [frame_modifyFrame_ne _ hm]
    simp [hm]

theorem nodup_addLemmaToFrame (h : ∀ m, (f.frame m).Nodup) (m : Level) :
    ((f.addLemmaToFrame id ℓ).frame m).Nodup := by
  unfold addLemmaToFrame
  by_cases hm : m = ℓ
  · subst hm
    rw [frame_modifyFrame_same]
    split
    · exact h m
    · rw [(List.perm_orderedInsert _ _ _).nodup_iff]
      exact List.nodup_cons.mpr ⟨‹_›, h m⟩
  · rw [frame_modifyFrame_ne _ hm]
    exact h m

theorem removeLemmaFromFrame_meets (h : ∀ m, (f.frame m).Nodup) (hid : id ∈ f.frame ℓ) :
    Meets (fun f' ↦ (∀ m, (f'.frame m).Nodup) ∧ f'.numFrames = max f.numFrames ℓ.needed ∧
      ∀ i m, i ∈ f'.frame m ↔ i ∈ f.frame m ∧ ¬ (i = id ∧ m = ℓ))
      fail (f.removeLemmaFromFrame id ℓ) := by
  unfold removeLemmaFromFrame
  rw [List.contains_iff_mem.mpr hid, ensure_true, ok_bind]
  refine ⟨fun m ↦ ?_, numFrames_modifyFrame _, fun i m ↦ ?_⟩
  · by_cases hm : m = ℓ
    · subst hm
      rw [frame_modifyFrame_same]
      exact (h m).erase id
    · rw [frame_modifyFrame_ne _ hm]
      exact h m
  · by_cases hm : m = ℓ
    · subst hm
      rw [frame_modifyFrame_same, (h m).mem_erase_iff]
      simp [and_comm]
    · rw [frame_modifyFrame_ne _ hm]
      simp [hm]

theorem needed_le_of_mem (h : i ∈ f.frame ℓ) : ℓ.needed ≤ f.numFrames := by
  cases ℓ with
  | inf => exact Nat.zero_le _
  | fin n =>
    rw [Level.needed_fin, numFrames]
    by_contra hlt
    have hempty : f.frame (.fin n) = [] := by
      change f.frames.getD n [] = []
      rw [List.getD_eq_getElem?_getD, List.getElem?_eq_none (by omega)]
      rfl
    rw [hempty] at h
    exact List.not_mem_nil h

end Frames

namespace InductiveTrace

open Frames

/-- The trace keeps an entry for every cube it has seen, and a lemma is in the frame of its
level and in no other. -/
structure Inv (t : InductiveTrace) : Prop where
  data : ∀ i (d : LemmaData), t.lemmas[i]? = some d → d.id = i ∧ d.deleted = false ∧ d.cube.Pairwise (· ≤ ·)
  map : ∀ c i, t.cubeToLemmaID.lookup c = some i ↔ ∃ d : LemmaData, t.lemmas[i]? = some d ∧ d.cube = c
  mem : ∀ i ℓ, i ∈ t.frames.frame ℓ ↔ ∃ d : LemmaData, t.lemmas[i]? = some d ∧ d.level = ℓ
  nodup : ∀ ℓ, (t.frames.frame ℓ).Nodup

def Entry (t : InductiveTrace) (id : LemmaID) (c : Cube) (ℓ : Level) : Prop :=
  ∃ d : LemmaData, t.lemmas[id]? = some d ∧ d.cube = c ∧ d.level = ℓ

def At (t : InductiveTrace) (c : Cube) (ℓ : Level) : Prop :=
  ∃ d ∈ t.lemmas, d.deleted = false ∧ d.cube = c ∧ d.level = ℓ

variable {t t' : InductiveTrace} {c c' : Cube} {ℓ m : Level} {id i : LemmaID}
  {fail : Failure → Prop}

theorem inv_new : Inv new where
  data i d h := by
    change ([] : List LemmaData)[i]? = some d at h
    rw [List.getElem?_nil] at h
    exact nomatch h
  map c i := by simp [new]
  mem i ℓ := by
    cases ℓ with
    | inf => simp [new, Frames.new, Frames.frame]
    | fin n => simp [new, Frames.new, Frames.frame]
  nodup ℓ := by
    cases ℓ with
    | inf => exact List.nodup_nil
    | fin n => simp [new, Frames.new, Frames.frame]

theorem not_at_new : ¬ new.At c ℓ := by simp [At, new]

theorem Inv.at_iff (h : t.Inv) : t.At c ℓ ↔ ∃ i, t.Entry i c ℓ := by
  constructor
  · intro hat
    obtain ⟨d, hd, -, hc, hℓ⟩ := hat
    obtain ⟨i, hi⟩ := List.mem_iff_getElem?.mp hd
    exact ⟨i, d, hi, hc, hℓ⟩
  · intro hex
    obtain ⟨i, d, hi, hc, hℓ⟩ := hex
    exact ⟨d, List.mem_iff_getElem?.mpr ⟨i, hi⟩, (h.data i d hi).2.1, hc, hℓ⟩

theorem Inv.mem_iff (h : t.Inv) : i ∈ t.frames.frame ℓ ↔ ∃ c, t.Entry i c ℓ := by
  rw [h.mem]
  constructor
  · intro hex
    obtain ⟨d, hi, hℓ⟩ := hex
    exact ⟨d.cube, d, hi, rfl, hℓ⟩
  · intro hex
    obtain ⟨c, d, hi, -, hℓ⟩ := hex
    exact ⟨d, hi, hℓ⟩

theorem Entry.eq (he : t.Entry i c ℓ) (he' : t.Entry i c' m) : c = c' ∧ ℓ = m := by
  obtain ⟨d, hi, rfl, rfl⟩ := he
  obtain ⟨d', hi', rfl, rfl⟩ := he'
  rw [Option.some_inj.mp (hi.symm.trans hi')]
  exact ⟨rfl, rfl⟩

theorem Inv.lookup (h : t.Inv) (he : t.Entry i c ℓ) : t.cubeToLemmaID.lookup c = some i := by
  obtain ⟨d, hi, hc, -⟩ := he
  exact (h.map c i).mpr ⟨d, hi, hc⟩

theorem Inv.sorted (h : t.Inv) (he : t.Entry i c ℓ) : c.Pairwise (· ≤ ·) := by
  obtain ⟨d, hi, rfl, -⟩ := he
  exact (h.data i d hi).2.2

theorem Inv.entry_unique (h : t.Inv) (he : t.Entry id c ℓ) (he' : t.Entry i c m) : id = i :=
  Option.some_inj.mp ((h.lookup he).symm.trans (h.lookup he'))

theorem Inv.at_unique (h : t.Inv) (hat : t.At c ℓ) (hat' : t.At c m) : ℓ = m := by
  obtain ⟨i, he⟩ := h.at_iff.mp hat
  obtain ⟨j, he'⟩ := h.at_iff.mp hat'
  obtain rfl := h.entry_unique he he'
  exact (he.eq he').2

theorem Inv.needed_le (h : t.Inv) (hat : t.At c ℓ) : ℓ.needed ≤ t.numFrames := by
  obtain ⟨i, he⟩ := h.at_iff.mp hat
  exact needed_le_of_mem (h.mem_iff.mpr ⟨c, he⟩)

theorem Inv.lemmaExists_iff (h : t.Inv) : t.lemmaExists c = true ↔ ∃ i ℓ, t.Entry i c ℓ := by
  rw [lemmaExists, Option.isSome_iff_exists]
  constructor
  · intro hex
    obtain ⟨i, hi⟩ := hex
    obtain ⟨d, hd, hc⟩ := (h.map c i).mp hi
    exact ⟨i, d.level, d, hd, hc, rfl⟩
  · intro hex
    obtain ⟨i, ℓ, he⟩ := hex
    exact ⟨i, h.lookup he⟩

theorem sortCube_of_sorted (hc : c.Pairwise (· ≤ ·)) : sortCube c = c := hc.insertionSort_eq

theorem mem_sortCube {lit : ℕ} : lit ∈ sortCube c ↔ lit ∈ c := List.mem_insertionSort _

theorem sorted_sortCube (c : Cube) : (sortCube c).Pairwise (· ≤ ·) :=
  List.pairwise_insertionSort _ c

theorem Inv.getLemma_eq (h : t.Inv) (he : t.Entry i c ℓ) :
    t.getLemma i = .ok ⟨i, c, ℓ, false⟩ := by
  obtain ⟨d, hi, rfl, rfl⟩ := he
  obtain ⟨hid, hdel, -⟩ := h.data i d hi
  rw [getLemma, hi]
  obtain ⟨did, dcube, dlevel, ddel⟩ := d
  cases hid
  cases hdel
  rfl

theorem Inv.idOf_eq (h : t.Inv) (he : t.Entry i c ℓ) : t.idOf c = .ok i := by
  rw [idOf, sortCube_of_sorted (h.sorted he), h.lookup he]
  rfl

theorem Inv.getLemmaOf_eq (h : t.Inv) (he : t.Entry i c ℓ) :
    t.getLemmaOf c = .ok ⟨i, c, ℓ, false⟩ := by
  rw [getLemmaOf, h.idOf_eq he, ok_bind, h.getLemma_eq he]

structure Moved (t : InductiveTrace) (c : Cube) (ℓ : Level) (id : LemmaID) (t' : InductiveTrace) :
    Prop where
  inv : t'.Inv
  entry : ∀ i d m, t'.Entry i d m ↔ (i = id ∧ d = c ∧ m = ℓ) ∨ (i ≠ id ∧ t.Entry i d m)
  before : ∀ d m, t.Entry id d m → d = c ∧ m ≤ ℓ
  other : ∀ i m, t.Entry i c m → i = id
  numFrames : t'.numFrames = max t.numFrames ℓ.needed

theorem Moved.entry_self (h : Moved t c ℓ id t') : t'.Entry id c ℓ :=
  (h.entry id c ℓ).mpr (.inl ⟨rfl, rfl, rfl⟩)

theorem Moved.at_iff (h : Moved t c ℓ id t') (hinv : t.Inv) {d : Cube} :
    t'.At d m ↔ (d = c ∧ m = ℓ) ∨ (d ≠ c ∧ t.At d m) := by
  rw [h.inv.at_iff, hinv.at_iff]
  constructor
  · intro hex
    obtain ⟨i, he⟩ := hex
    cases (h.entry i d m).mp he with
    | inl heq => exact .inl heq.2
    | inr hold =>
      refine .inr ⟨fun hd ↦ ?_, i, hold.2⟩
      subst hd
      exact hold.1 (h.other i m hold.2)
  · intro hor
    cases hor with
    | inl heq => exact ⟨id, (h.entry id d m).mpr (.inl ⟨rfl, heq⟩)⟩
    | inr hold =>
      obtain ⟨hne, i, he⟩ := hold
      refine ⟨i, (h.entry i d m).mpr (.inr ⟨fun hi ↦ ?_, he⟩)⟩
      subst hi
      exact hne (h.before d m he).1

theorem setLevel_moved (h : t.Inv) (he : t.Entry id c ℓ) (hle : ℓ ≤ m) {frames : Frames}
    (hnodup : ∀ n, (frames.frame n).Nodup) (hnum : frames.numFrames = t.numFrames)
    (hmem : ∀ i n, i ∈ frames.frame n ↔ i ∈ t.frames.frame n ∧ ¬ (i = id ∧ n = ℓ)) :
    Moved t c m id (t.setLevel id ⟨id, c, ℓ, false⟩ m frames) := by
  have hlt : id < t.lemmas.length := by
    obtain ⟨d, hd, -⟩ := he
    exact (List.getElem?_eq_some_iff.mp hd).1
  have hget : ∀ i, (t.setLevel id ⟨id, c, ℓ, false⟩ m frames).lemmas[i]? =
      if id = i then some ⟨id, c, m, false⟩ else t.lemmas[i]? := by
    intro i
    change (t.lemmas.set id ⟨id, c, m, false⟩)[i]? = _
    rw [List.getElem?_set, if_pos hlt]
  have hentry : ∀ i d n, (t.setLevel id ⟨id, c, ℓ, false⟩ m frames).Entry i d n ↔
      (i = id ∧ d = c ∧ n = m) ∨ (i ≠ id ∧ t.Entry i d n) := by
    intro i d n
    unfold Entry
    rw [hget i]
    by_cases hi : id = i
    · subst hi
      simp only [if_true, Option.some_inj, exists_eq_left', ne_eq, not_true_eq_false, false_and,
        or_false, true_and]
      exact and_congr eq_comm eq_comm
    · simp only [if_neg hi, Ne.symm hi, ne_eq, not_false_eq_true, true_and, false_and, false_or]
  have hsame : ∀ (d : Cube) (i : ℕ), (∃ e : LemmaData, (t.setLevel id ⟨id, c, ℓ, false⟩ m frames).lemmas[i]? = some e ∧
      e.cube = d) ↔ ∃ e : LemmaData, t.lemmas[i]? = some e ∧ e.cube = d := by
    intro d i
    rw [hget i]
    by_cases hi : id = i
    · subst hi
      obtain ⟨e, hd, rfl, -⟩ := he
      simp only [if_true, Option.some_inj, exists_eq_left', hd]
    · rw [if_neg hi]
  refine ⟨⟨fun i d hd ↦ ?_, fun d i ↦ (h.map d i).trans (hsame d i).symm, fun i n ↦ ?_,
    nodup_addLemmaToFrame hnodup⟩, hentry, fun d n hd ↦ ?_, fun i n hi ↦ h.entry_unique hi he, ?_⟩
  · rw [hget i] at hd
    by_cases hi : id = i
    · rw [if_pos hi] at hd
      cases hd
      exact ⟨hi, rfl, h.sorted he⟩
    · rw [if_neg hi] at hd
      exact h.data i d hd
  · have hiff := hentry i
    change i ∈ (frames.addLemmaToFrame id m).frame n ↔ _
    rw [mem_addLemmaToFrame, hmem, h.mem_iff]
    constructor
    · intro hor
      cases hor with
      | inl hnew => exact (hiff c n).mpr (.inl ⟨hnew.1, rfl, hnew.2⟩) |>.imp fun d hd ↦ ⟨hd.1, hd.2.2⟩
      | inr hold =>
        obtain ⟨⟨d, hd⟩, hne⟩ := hold
        have hi : i ≠ id := by
          intro hi
          subst hi
          exact hne ⟨rfl, (hd.eq he).2⟩
        exact (hiff d n).mpr (.inr ⟨hi, hd⟩) |>.imp fun d hd ↦ ⟨hd.1, hd.2.2⟩
    · intro hex
      obtain ⟨d, hd, hn⟩ := hex
      cases (hiff d.cube n).mp ⟨d, hd, rfl, hn⟩ with
      | inl heq => exact .inl ⟨heq.1, heq.2.2⟩
      | inr hold => exact .inr ⟨⟨_, hold.2⟩, fun hno ↦ hold.1 hno.1⟩
  · obtain ⟨rfl, rfl⟩ := hd.eq he
    exact ⟨rfl, hle⟩
  · have hframes := @numFrames_modifyFrame frames m
      fun frame ↦ if id ∈ frame then frame else frame.orderedInsert (· ≤ ·) id
    rw [hnum] at hframes
    exact hframes

theorem Inv.remove_meets (h : t.Inv) (he : t.Entry id c ℓ) :
    Meets (fun frames : Frames ↦ (∀ n, (frames.frame n).Nodup) ∧
      frames.numFrames = t.numFrames ∧
      ∀ i n, i ∈ frames.frame n ↔ i ∈ t.frames.frame n ∧ ¬ (i = id ∧ n = ℓ))
      fail (t.frames.removeLemmaFromFrame id ℓ) := by
  have hmem := h.mem_iff.mpr ⟨c, he⟩
  refine (removeLemmaFromFrame_meets h.nodup hmem).imp fun frames hframes ↦ ?_
  obtain ⟨hnodup, hnum, hmem'⟩ := hframes
  exact ⟨hnodup, hnum.trans (max_eq_left (needed_le_of_mem hmem)), hmem'⟩

theorem pushLemma_meets (h : t.Inv) (he : t.Entry id c ℓ) (hle : ℓ ≤ m) :
    Meets (Moved t c m id) fail (t.pushLemma id m) := by
  unfold pushLemma
  rw [h.getLemma_eq he, ok_bind]
  dsimp only
  rw [decide_eq_true hle, ensure_true, ok_bind]
  refine (h.remove_meets he).bind fun frames hframes ↦ ?_
  exact setLevel_moved h he hle hframes.1 hframes.2.1 hframes.2.2

theorem addNew_moved (h : t.Inv) (hnone : ∀ i m, ¬ t.Entry i c m) (hsorted : c.Pairwise (· ≤ ·))
    (ℓ : Level) :
    Moved t c ℓ t.lemmas.length {
      frames := t.frames.addLemmaToFrame t.lemmas.length ℓ
      lemmas := t.lemmas ++ [⟨t.lemmas.length, c, ℓ, false⟩]
      cubeToLemmaID := (c, t.lemmas.length) :: t.cubeToLemmaID } := by
  have hget : ∀ i, (t.lemmas ++ [⟨t.lemmas.length, c, ℓ, false⟩])[i]? =
      if i = t.lemmas.length then some (⟨t.lemmas.length, c, ℓ, false⟩ : LemmaData)
      else t.lemmas[i]? := by
    intro i
    rw [List.getElem?_append]
    rcases Nat.lt_trichotomy i t.lemmas.length with hlt | rfl | hgt
    · rw [if_pos hlt, if_neg (by omega)]
    · rw [if_neg (by omega), if_pos rfl, Nat.sub_self]
      rfl
    · rw [if_neg (by omega), if_neg (by omega), List.getElem?_eq_none (by omega : t.lemmas.length ≤ i)]
      exact List.getElem?_eq_none (by rw [List.length_singleton]; omega)
  have hnew : ∀ d m, ¬ t.Entry t.lemmas.length d m := by
    intro d m he
    obtain ⟨e, hd, -⟩ := he
    rw [List.getElem?_eq_none le_rfl] at hd
    exact nomatch hd
  have hentry : ∀ (i : ℕ) (d : Cube) (n : Level),
      (∃ e : LemmaData, (t.lemmas ++ [⟨t.lemmas.length, c, ℓ, false⟩])[i]? = some e ∧
        e.cube = d ∧ e.level = n) ↔
      (i = t.lemmas.length ∧ d = c ∧ n = ℓ) ∨ (i ≠ t.lemmas.length ∧ t.Entry i d n) := by
    intro i d n
    rw [hget i]
    by_cases hi : i = t.lemmas.length
    · rw [if_pos hi]
      simp only [Option.some_inj, exists_eq_left', hi, ne_eq, not_true_eq_false, false_and,
        or_false, true_and]
      exact and_congr eq_comm eq_comm
    · rw [if_neg hi]
      simp only [hi, ne_eq, not_false_eq_true, true_and, false_and, false_or]
      rfl
  refine ⟨⟨fun i d hd ↦ ?_, fun d i ↦ ?_, fun i n ↦ ?_, nodup_addLemmaToFrame h.nodup⟩, hentry,
    fun d n hd ↦ absurd hd (hnew d n), fun i n hi ↦ absurd hi (hnone i n), numFrames_modifyFrame _⟩
  · dsimp only at hd
    rw [hget i] at hd
    by_cases hi : i = t.lemmas.length
    · rw [if_pos hi] at hd
      cases hd
      exact ⟨hi.symm, rfl, hsorted⟩
    · rw [if_neg hi] at hd
      exact h.data i d hd
  · dsimp only
    rw [List.lookup_cons, hget i]
    by_cases hd : d = c
    · subst hd
      rw [beq_self_eq_true]
      dsimp only
      by_cases hi : i = t.lemmas.length
      · rw [if_pos hi, hi]
        exact ⟨fun _ ↦ ⟨_, rfl, rfl⟩, fun _ ↦ rfl⟩
      · rw [if_neg hi, Option.some_inj]
        exact ⟨fun heq ↦ absurd heq.symm hi, fun ⟨e, he, hc⟩ ↦ absurd ⟨e, he, hc, rfl⟩ (hnone i e.level)⟩
    · rw [beq_false_of_ne hd]
      dsimp only
      rw [h.map d i]
      by_cases hi : i = t.lemmas.length
      · rw [if_pos hi, hi]
        constructor
        · intro hex
          obtain ⟨e, he, hc⟩ := hex
          exact absurd ⟨e, he, hc, rfl⟩ (hnew d e.level)
        · intro hex
          obtain ⟨e, he, hc⟩ := hex
          cases he
          exact absurd hc.symm hd
      · rw [if_neg hi]
  · dsimp only
    rw [mem_addLemmaToFrame, h.mem_iff]
    constructor
    · intro hor
      cases hor with
      | inl hself =>
        obtain ⟨e, he, -, hn⟩ := (hentry i c n).mpr (.inl ⟨hself.1, rfl, hself.2⟩)
        exact ⟨e, he, hn⟩
      | inr hold =>
        obtain ⟨d, hd⟩ := hold
        have hi : i ≠ t.lemmas.length := fun hi ↦ hnew d n (hi ▸ hd)
        obtain ⟨e, he, -, hn⟩ := (hentry i d n).mpr (.inr ⟨hi, hd⟩)
        exact ⟨e, he, hn⟩
    · intro hex
      obtain ⟨e, he, hn⟩ := hex
      cases (hentry i e.cube n).mp ⟨e, he, rfl, hn⟩ with
      | inl hself => exact .inl ⟨hself.1, hself.2.2⟩
      | inr hold => exact .inr ⟨_, hold.2⟩

theorem addLemma_meets (h : t.Inv) (hle : ∀ i m, t.Entry i (sortCube c) m → ¬ m ≤ ℓ → fail .assertion) :
    Meets (fun r ↦ Moved t (sortCube c) ℓ r.1 r.2) fail (t.addLemma c ℓ) := by
  unfold addLemma
  dsimp only
  by_cases hex : t.lemmaExists (sortCube c) = true
  · obtain ⟨i, m, he⟩ := h.lemmaExists_iff.mp hex
    rw [if_pos hex, h.idOf_eq he, ok_bind, h.getLemma_eq he, ok_bind]
    dsimp only
    rw [if_neg Bool.false_ne_true]
    by_cases hm : m ≤ ℓ
    · rw [decide_eq_true hm, ensure_true, ok_bind]
      refine (h.remove_meets he).bind fun frames hframes ↦ ?_
      exact setLevel_moved h he hm hframes.1 hframes.2.1 hframes.2.2
    · rw [decide_eq_false hm]
      exact hle i m he hm
  · rw [if_neg hex]
    have hnone : ∀ i m, ¬ t.Entry i (sortCube c) m := fun i m he ↦
      hex (h.lemmaExists_iff.mpr ⟨i, m, he⟩)
    exact addNew_moved h hnone (sorted_sortCube c) ℓ

theorem unusedFrom_spec (t : InductiveTrace) (i : ℕ) : t.unusedFrom i (i + 1) ≤ i + 1 ∧
    ∀ j, t.unusedFrom i (i + 1) ≤ j → j ≤ i → t.frames.frame (.fin j) = [] := by
  induction i with
  | zero => exact ⟨le_rfl, fun j hj hle ↦ absurd hj (by rw [unusedFrom]; omega)⟩
  | succ i ih =>
    rw [unusedFrom]
    split
    · refine ⟨ih.1.trans (Nat.le_succ _), fun j hj hle ↦ ?_⟩
      obtain rfl | hlt := Nat.eq_or_lt_of_le hle
      · exact List.isEmpty_iff.mp ‹_›
      · exact ih.2 j hj (by omega)
    · exact ⟨le_rfl, fun j hj hle ↦ absurd hj (by omega)⟩

theorem unusedFrom_eq {level : ℕ} (hpos : 1 ≤ level) (hbelow : level = 1 ∨
    t.frames.frame (.fin (level - 1)) ≠ []) (habove : ∀ j, level ≤ j → t.frames.frame (.fin j) = [])
    {i : ℕ} (hi : level ≤ i + 1) : t.unusedFrom i (i + 1) = level := by
  induction i with
  | zero =>
    rw [unusedFrom]
    omega
  | succ i ih =>
    rw [unusedFrom]
    obtain rfl | hlt := Nat.eq_or_lt_of_le hi
    · have hne : t.frames.frame (.fin (i + 1)) ≠ [] := hbelow.resolve_left (by omega)
      rw [if_neg fun hempty ↦ hne (List.isEmpty_iff.mp hempty)]
    · rw [habove (i + 1) (by omega), List.isEmpty_nil, if_pos rfl]
      exact ih (by omega)

theorem frame_take {f : Frames} {k : ℕ} (h : ∀ j, k ≤ j → j < f.numFrames → f.frame (.fin j) = [])
    (ℓ : Level) : ({ f with frames := f.frames.take k } : Frames).frame ℓ = f.frame ℓ := by
  cases ℓ with
  | inf => rfl
  | fin n =>
    change (f.frames.take k).getD n [] = f.frames.getD n []
    rw [List.getD_eq_getElem?_getD, List.getD_eq_getElem?_getD, List.getElem?_take]
    split
    · rfl
    · by_cases hn : n < f.numFrames
      · have hempty := h n (by omega) hn
        change f.frames.getD n [] = [] at hempty
        rw [List.getD_eq_getElem?_getD] at hempty
        exact hempty.symm
      · rw [List.getElem?_eq_none (Nat.le_of_not_lt hn)]

theorem unusedFrom_numFrames (t : InductiveTrace) :
    t.unusedFrom (t.numFrames - 1) t.numFrames ≤ t.numFrames ∧
      ∀ j, t.unusedFrom (t.numFrames - 1) t.numFrames ≤ j → j < t.numFrames →
        t.frames.frame (.fin j) = [] := by
  obtain hzero | hpos := Nat.eq_zero_or_pos t.numFrames
  · rw [hzero]
    exact ⟨le_rfl, fun j _ hj ↦ absurd hj (Nat.not_lt_zero j)⟩
  · have hspec := unusedFrom_spec t (t.numFrames - 1)
    rw [Nat.sub_add_cancel hpos] at hspec
    exact ⟨hspec.1, fun j hj hlt ↦ hspec.2 j hj (by omega)⟩

theorem clearUnusedFrames_spec
    (hfail : t.numFrames = 0 → t.frames.frame .inf = [] → fail .assertion) :
    Meets (fun t' ↦ t'.lemmas = t.lemmas ∧ t'.cubeToLemmaID = t.cubeToLemmaID ∧
      (∀ ℓ, t'.frames.frame ℓ = t.frames.frame ℓ) ∧
      t'.numFrames = t.unusedFrom (t.numFrames - 1) t.numFrames) fail t.clearUnusedFrames := by
  have hspec := unusedFrom_numFrames t
  unfold clearUnusedFrames Frames.shrink
  by_cases hstart : t.numFrames ≠ 0 ∨ t.frames.frameInf ≠ []
  · have hcheck : (decide (t.numFrames ≠ 0) || !t.frames.frameInf.isEmpty) = true := by
      simpa using hstart
    rw [hcheck, ensure_true, ok_bind]
    rw [decide_eq_true (show t.unusedFrom (t.numFrames - 1) t.numFrames ≤ t.frames.frames.length from
      hspec.1), ensure_true, ok_bind]
    refine ⟨rfl, rfl, frame_take hspec.2, ?_⟩
    change (t.frames.frames.take _).length = _
    rw [List.length_take]
    exact min_eq_left hspec.1
  · obtain ⟨hzero, hinf⟩ := not_or.mp hstart
    have hcheck : (decide (t.numFrames ≠ 0) || !t.frames.frameInf.isEmpty) = false := by
      simpa using not_or.mp hstart
    rw [hcheck]
    exact hfail (not_not.mp hzero) (not_not.mp hinf)

theorem clearUnusedFrames_meets (h : t.Inv)
    (hfail : t.numFrames = 0 → t.frames.frame .inf = [] → fail .assertion) :
    Meets (fun t' ↦ t'.Inv ∧ (∀ i c ℓ, t'.Entry i c ℓ ↔ t.Entry i c ℓ) ∧
      (∀ ℓ, t'.frames.frame ℓ = t.frames.frame ℓ) ∧
      t'.numFrames = t.unusedFrom (t.numFrames - 1) t.numFrames) fail t.clearUnusedFrames := by
  refine (clearUnusedFrames_spec hfail).imp fun t' ht ↦ ?_
  obtain ⟨hlemmas, hmap, hframe, hnum⟩ := ht
  have hentry : ∀ i c ℓ, t'.Entry i c ℓ ↔ t.Entry i c ℓ := by
    intro i c ℓ
    rw [Entry, hlemmas]
    rfl
  refine ⟨⟨fun i d hd ↦ h.data i d (hlemmas ▸ hd), fun c i ↦ ?_, fun i ℓ ↦ ?_, fun ℓ ↦ ?_⟩, hentry,
    hframe, hnum⟩
  · rw [hlemmas, hmap]
    exact h.map c i
  · rw [hlemmas, hframe]
    exact h.mem i ℓ
  · rw [hframe]
    exact h.nodup ℓ

end InductiveTrace

end PME.IC3
