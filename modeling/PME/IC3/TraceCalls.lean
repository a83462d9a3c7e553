import PME.IC3.InductiveTrace

namespace PME.IC3.InductiveTrace

open Outcome Frames

variable {t t' : InductiveTrace} {c c' : Cube} {ℓ m : Level} {id i : LemmaID} {d e : LemmaData}
  {fail : Failure → Prop}

/-- The records, the index of the cubes and the frames say the same: a lemma that is not deleted
is in the frame of its level and in no other, and a deleted one is in none. -/
structure Consistent (t : InductiveTrace) : Prop where
  data : ∀ (i : ℕ) (d : LemmaData), t.lemmas[i]? = some d → d.id = i ∧ d.cube.Pairwise (· ≤ ·)
  map : ∀ c i, t.cubeToLemmaID.lookup c = some i ↔
    ∃ d : LemmaData, t.lemmas[i]? = some d ∧ d.cube = c
  mem : ∀ i ℓ, i ∈ t.frames.frame ℓ ↔
    ∃ d : LemmaData, t.lemmas[i]? = some d ∧ d.deleted = false ∧ d.level = ℓ
  nodup : ∀ ℓ, (t.frames.frame ℓ).Nodup

theorem inv_iff : t.Inv ↔ t.Consistent ∧ ∀ d ∈ t.lemmas, d.deleted = false := by
  constructor
  · intro h
    refine ⟨⟨fun i d hd ↦ ?_, h.map, fun i ℓ ↦ ?_, h.nodup⟩, fun d hd ↦ ?_⟩
    · exact ⟨(h.data i d hd).1, (h.data i d hd).2.2⟩
    · rw [h.mem]
      refine exists_congr fun d ↦ and_congr_right fun hd ↦ ?_
      exact (and_iff_right (h.data i d hd).2.1).symm
    · obtain ⟨i, hi⟩ := List.mem_iff_getElem?.mp hd
      exact (h.data i d hi).2.1
  · intro h
    obtain ⟨h, hnone⟩ := h
    have hactive : ∀ (i : ℕ) (d : LemmaData), t.lemmas[i]? = some d → d.deleted = false := fun i d hd ↦
      hnone d (List.mem_iff_getElem?.mpr ⟨i, hd⟩)
    refine ⟨fun i d hd ↦ ⟨(h.data i d hd).1, hactive i d hd, (h.data i d hd).2⟩, h.map,
      fun i ℓ ↦ ?_, h.nodup⟩
    rw [h.mem]
    refine exists_congr fun d ↦ and_congr_right fun hd ↦ ?_
    exact and_iff_right (hactive i d hd)

theorem consistent_new : new.Consistent := (inv_iff.mp inv_new).1

namespace Consistent

theorem unique (h : t.Consistent) (hd : t.lemmas[id]? = some d) (he : t.lemmas[i]? = some e)
    (hc : d.cube = e.cube) : id = i := by
  have hid := (h.map _ id).mpr ⟨d, hd, rfl⟩
  have hi := (h.map _ i).mpr ⟨e, he, rfl⟩
  rw [hc, hi] at hid
  exact (Option.some_inj.mp hid).symm

theorem mem_iff (h : t.Consistent) (hd : t.lemmas[id]? = some d) :
    id ∈ t.frames.frame ℓ ↔ d.deleted = false ∧ d.level = ℓ := by
  rw [h.mem]
  constructor
  · intro hex
    obtain ⟨e, he, hrest⟩ := hex
    cases hd.symm.trans he
    exact hrest
  · exact fun hrest ↦ ⟨d, hd, hrest⟩

theorem id_eq (h : t.Consistent) (hd : t.lemmas[id]? = some d) : d.id = id := (h.data id d hd).1

theorem sorted (h : t.Consistent) (hd : t.lemmas[id]? = some d) : d.cube.Pairwise (· ≤ ·) :=
  (h.data id d hd).2

/-- One record is written anew, and only this lemma changes its place. -/
theorem update (h : t.Consistent) (hd : t.lemmas[id]? = some d) (hid : e.id = d.id)
    (hc : e.cube = d.cube) {frames : Frames} (hnodup : ∀ ℓ, (frames.frame ℓ).Nodup)
    (hmem : ∀ i ℓ, i ∈ frames.frame ℓ ↔
      (i = id ∧ e.deleted = false ∧ e.level = ℓ) ∨ (i ≠ id ∧ i ∈ t.frames.frame ℓ)) :
    Consistent { t with frames := frames, lemmas := t.lemmas.set id e } := by
  have hlt : id < t.lemmas.length := (List.getElem?_eq_some_iff.mp hd).1
  have hget : ∀ i, (t.lemmas.set id e)[i]? = if id = i then some e else t.lemmas[i]? := by
    intro i
    rw [List.getElem?_set, if_pos hlt]
  refine ⟨fun i f hf ↦ ?_, fun c i ↦ ?_, fun i ℓ ↦ ?_, hnodup⟩
  · dsimp only at hf
    rw [hget i] at hf
    by_cases hi : id = i
    · rw [if_pos hi] at hf
      cases hf
      rw [hid, hc]
      exact hi ▸ h.data id d hd
    · rw [if_neg hi] at hf
      exact h.data i f hf
  · dsimp only
    rw [h.map c i, hget i]
    by_cases hi : id = i
    · subst hi
      simp only [hd, if_true, Option.some_inj, exists_eq_left', hc]
    · rw [if_neg hi]
  · dsimp only
    rw [hmem, hget i]
    by_cases hi : id = i
    · subst hi
      simp
    · simp only [if_neg hi, Ne.symm hi, false_and, false_or, ne_eq, not_false_eq_true, true_and]
      exact h.mem i ℓ

theorem remove_meets (h : t.Consistent) (hd : t.lemmas[id]? = some d) (hactive : d.deleted = false) :
    Meets (fun frames : Frames ↦ (∀ ℓ, (frames.frame ℓ).Nodup) ∧
      ∀ i ℓ, i ∈ frames.frame ℓ ↔ i ≠ id ∧ i ∈ t.frames.frame ℓ)
      fail (t.frames.removeLemmaFromFrame d.id d.level) := by
  have hmem : d.id ∈ t.frames.frame d.level := by
    rw [h.id_eq hd]
    exact (h.mem_iff hd).mpr ⟨hactive, rfl⟩
  refine (removeLemmaFromFrame_meets h.nodup hmem).imp fun frames hframes ↦ ?_
  obtain ⟨hnodup, -, hrest⟩ := hframes
  refine ⟨hnodup, fun i ℓ ↦ ?_⟩
  rw [hrest, h.id_eq hd]
  constructor
  · intro hand
    refine ⟨fun hi ↦ hand.2 ⟨hi, ?_⟩, hand.1⟩
    exact ((h.mem_iff hd).mp (hi ▸ hand.1)).2.symm
  · exact fun hand ↦ ⟨hand.2, fun hboth ↦ hand.1 hboth.1⟩

theorem setLevel (h : t.Consistent) (hd : t.lemmas[id]? = some d) {frames : Frames}
    (hnodup : ∀ ℓ, (frames.frame ℓ).Nodup)
    (hmem : ∀ i ℓ, i ∈ frames.frame ℓ ↔ i ≠ id ∧ i ∈ t.frames.frame ℓ) :
    (t.setLevel id { d with deleted := false } ℓ frames).Consistent := by
  refine h.update (e := { d with deleted := false, level := ℓ }) hd rfl rfl
    (nodup_addLemmaToFrame hnodup) fun i m ↦ ?_
  rw [mem_addLemmaToFrame, hmem]
  dsimp only
  rw [h.id_eq hd]
  simp only [true_and, eq_comm]

/-- What `addLemma` and `pushLemma` bring about: an active lemma with this cube at this level,
and nothing else. -/
structure Stored (t : InductiveTrace) (id : LemmaID) (c : Cube) (ℓ : Level) (t' : InductiveTrace) :
    Prop where
  consistent : t'.Consistent
  self : t'.lemmas[id]? = some ⟨id, c, ℓ, false⟩
  other : ∀ i, i ≠ id → t'.lemmas[i]? = t.lemmas[i]?

theorem setLevel_stored (h : t.Consistent) (hd : t.lemmas[id]? = some d) (hi : i = id)
    (hc : d.cube = c) {frames : Frames}
    (hnodup : ∀ ℓ, (frames.frame ℓ).Nodup)
    (hmem : ∀ i ℓ, i ∈ frames.frame ℓ ↔ i ≠ id ∧ i ∈ t.frames.frame ℓ) :
    Stored t i c ℓ (t.setLevel id { d with deleted := false } ℓ frames) := by
  subst hi hc
  have hlt : i < t.lemmas.length := (List.getElem?_eq_some_iff.mp hd).1
  refine ⟨h.setLevel hd hnodup hmem, ?_, fun i hi ↦ ?_⟩
  · change (t.lemmas.set i { d with deleted := false, level := ℓ })[i]? = _
    rw [List.getElem?_set_self hlt, h.id_eq hd]
  · exact List.getElem?_set_ne (Ne.symm hi)

theorem pushLemma_meets (h : t.Consistent) (hd : t.lemmas[id]? = some d)
    (hactive : d.deleted = false) (hle : d.level ≤ ℓ) :
    Meets (Stored t id d.cube ℓ) fail (t.pushLemma id ℓ) := by
  unfold pushLemma getLemma
  rw [hd]
  dsimp only
  rw [pure_bind, decide_eq_true hle, ensure_true, ok_bind]
  refine (h.remove_meets hd hactive).bind fun frames hframes ↦ ?_
  have hstored := h.setLevel_stored (ℓ := ℓ) hd rfl rfl hframes.1 hframes.2
  rw [← hactive] at hstored
  exact hstored

theorem removeLemma_meets (h : t.Consistent) (hd : t.lemmas[id]? = some d)
    (hactive : d.deleted = false) :
    Meets (fun t' ↦ t'.Consistent ∧ t'.lemmas = t.lemmas.set id { d with deleted := true })
      fail (t.removeLemma id) := by
  unfold removeLemma getLemma
  rw [hd]
  dsimp only
  rw [pure_bind]
  refine (h.remove_meets hd hactive).bind fun frames hframes ↦ ?_
  refine ⟨h.update (e := { d with deleted := true }) hd rfl rfl hframes.1 fun i ℓ ↦ ?_, rfl⟩
  rw [hframes.2]
  simp

theorem clearUnusedFrames_meets (h : t.Consistent)
    (hfail : t.numFrames = 0 → t.frames.frame .inf = [] → fail .assertion) :
    Meets (fun t' ↦ t'.Consistent ∧ t'.lemmas = t.lemmas ∧
      (∀ ℓ, t'.frames.frame ℓ = t.frames.frame ℓ) ∧
      t'.numFrames = t.unusedFrom (t.numFrames - 1) t.numFrames) fail t.clearUnusedFrames := by
  refine (clearUnusedFrames_spec hfail).imp fun t' ht ↦ ?_
  obtain ⟨hlemmas, hmap, hframe, hnum⟩ := ht
  refine ⟨⟨fun i d hd ↦ h.data i d (hlemmas ▸ hd), fun c i ↦ ?_, fun i ℓ ↦ ?_, fun ℓ ↦ ?_⟩, hlemmas,
    hframe, hnum⟩
  · rw [hlemmas, hmap]
    exact h.map c i
  · rw [hlemmas, hframe]
    exact h.mem i ℓ
  · rw [hframe]
    exact h.nodup ℓ

theorem lookup_isSome (h : t.Consistent) :
    t.lemmaExists c = true ↔ ∃ i : ℕ, ∃ d : LemmaData, t.lemmas[i]? = some d ∧ d.cube = c := by
  rw [lemmaExists, Option.isSome_iff_exists]
  exact exists_congr fun i ↦ h.map c i

theorem addNew (h : t.Consistent) (hnone : ∀ (i : ℕ) (d : LemmaData), t.lemmas[i]? = some d → d.cube ≠ c)
    (hc : c.Pairwise (· ≤ ·)) (ℓ : Level) :
    Stored t t.lemmas.length c ℓ {
      frames := t.frames.addLemmaToFrame t.lemmas.length ℓ
      lemmas := t.lemmas ++ [⟨t.lemmas.length, c, ℓ, false⟩]
      cubeToLemmaID := (c, t.lemmas.length) :: t.cubeToLemmaID } := by
  have hself : (t.lemmas ++ [⟨t.lemmas.length, c, ℓ, false⟩])[t.lemmas.length]? =
      some (⟨t.lemmas.length, c, ℓ, false⟩ : LemmaData) := List.getElem?_concat_length
  have hother : ∀ i, i ≠ t.lemmas.length →
      (t.lemmas ++ [(⟨t.lemmas.length, c, ℓ, false⟩ : LemmaData)])[i]? = t.lemmas[i]? := by
    intro i hi
    obtain hlt | hgt := Nat.lt_or_gt_of_ne hi
    · exact List.getElem?_append_left hlt
    · rw [List.getElem?_eq_none (by rw [List.length_append, List.length_singleton]; omega),
        List.getElem?_eq_none hgt.le]
  have hend : t.lemmas[t.lemmas.length]? = none := List.getElem?_eq_none le_rfl
  refine ⟨⟨fun i d hd ↦ ?_, fun c' i ↦ ?_, fun i m ↦ ?_, nodup_addLemmaToFrame h.nodup⟩, hself, hother⟩
  · dsimp only at hd
    by_cases hi : i = t.lemmas.length
    · subst hi
      cases hself.symm.trans hd
      exact ⟨rfl, hc⟩
    · rw [hother i hi] at hd
      exact h.data i d hd
  · dsimp only
    rw [List.lookup_cons]
    by_cases hi : i = t.lemmas.length
    · subst hi
      rw [hself]
      by_cases hcc : c' = c
      · subst hcc
        simp
      · have hold : t.cubeToLemmaID.lookup c' ≠ some t.lemmas.length := by
          intro hlook
          obtain ⟨d, hd, -⟩ := (h.map c' _).mp hlook
          rw [hend] at hd
          exact nomatch hd
        simp only [beq_false_of_ne hcc, hold, Option.some_inj, exists_eq_left', Ne.symm hcc]
    · rw [hother i hi]
      by_cases hcc : c' = c
      · subst hcc
        simp only [beq_self_eq_true, Option.some_inj, Ne.symm hi, false_iff, not_exists, not_and]
        exact fun d hd ↦ hnone i d hd
      · simp only [beq_false_of_ne hcc]
        exact h.map c' i
  · dsimp only
    rw [mem_addLemmaToFrame]
    by_cases hi : i = t.lemmas.length
    · subst hi
      have hold : t.lemmas.length ∉ t.frames.frame m := by
        intro hmem
        obtain ⟨d, hd, -⟩ := (h.mem _ m).mp hmem
        rw [hend] at hd
        exact nomatch hd
      simp only [hself, hold, Option.some_inj, exists_eq_left', true_and, or_false]
      exact eq_comm
    · rw [hother i hi, h.mem]
      simp [hi]

theorem addLemma_meets (h : t.Consistent) (hfail : ∀ (i : ℕ) (d : LemmaData), t.lemmas[i]? = some d →
      d.deleted = false → d.cube = sortCube c → ¬ d.level ≤ ℓ → fail .assertion) :
    Meets (fun r ↦ Stored t r.1 (sortCube c) ℓ r.2) fail (t.addLemma c ℓ) := by
  unfold addLemma
  dsimp only
  by_cases hex : t.lemmaExists (sortCube c) = true
  · obtain ⟨id, d, hd, hc⟩ := h.lookup_isSome.mp hex
    have hid : t.idOf (sortCube c) = .ok id := by
      rw [idOf, sortCube_of_sorted (sorted_sortCube c), (h.map _ id).mpr ⟨d, hd, hc⟩]
      rfl
    have hget : t.getLemma id = .ok d := by
      rw [getLemma, hd]
      rfl
    rw [if_pos hex, hid, ok_bind, hget, ok_bind]
    cases hdel : d.deleted with
    | true =>
      have hout : ∀ i ℓ, i ∈ t.frames.frame ℓ ↔ i ≠ id ∧ i ∈ t.frames.frame ℓ := by
        intro i ℓ
        refine ⟨fun hmem ↦ ⟨fun hi ↦ ?_, hmem⟩, And.right⟩
        have hactive := ((h.mem_iff hd).mp (hi ▸ hmem)).1
        rw [hdel] at hactive
        cases hactive
      rw [if_pos rfl, pure_bind]
      exact h.setLevel_stored hd (h.id_eq hd) hc h.nodup hout
    | false =>
      rw [if_neg Bool.false_ne_true]
      by_cases hle : d.level ≤ ℓ
      · rw [decide_eq_true hle, ensure_true, ok_bind]
        refine (h.remove_meets hd hdel).bind fun frames hframes ↦ ?_
        exact h.setLevel_stored hd (h.id_eq hd) hc hframes.1 hframes.2
      · rw [decide_eq_false hle]
        exact hfail id d hd hdel hc hle
  · rw [if_neg hex]
    refine h.addNew (fun i d hd hc ↦ hex (h.lookup_isSome.mpr ⟨i, d, hd, hc⟩)) (sorted_sortCube c) ℓ

end Consistent

inductive Call
  | addLemma (cube : Cube) (level : Level)
  | pushLemma (id : LemmaID) (level : Level)
  | removeLemma (id : LemmaID)
  | clearUnusedFrames
  | clear

def perform (t : InductiveTrace) : Call → Result InductiveTrace
  | .addLemma cube level => do return (← t.addLemma cube level).2
  | .pushLemma id level => t.pushLemma id level
  | .removeLemma id => t.removeLemma id
  | .clearUnusedFrames => t.clearUnusedFrames
  | .clear => return t.clear

inductive Reached : InductiveTrace → Prop
  | new : Reached new
  | step {t t' : InductiveTrace} (call : Call) : Reached t → t.perform call = .ok t' → Reached t'

/-- No active lemma is added at a lower level, and only active lemmas are pushed and removed, and
pushed not below their level. -/
def Permitted (t : InductiveTrace) : Call → Prop
  | .addLemma cube level => ∀ (i : ℕ) (d : LemmaData), t.lemmas[i]? = some d → d.deleted = false →
      d.cube = sortCube cube → d.level ≤ level
  | .pushLemma id level => ∃ d : LemmaData, t.lemmas[id]? = some d ∧ d.deleted = false ∧
      d.level ≤ level
  | .removeLemma id => ∃ d : LemmaData, t.lemmas[id]? = some d ∧ d.deleted = false
  | .clearUnusedFrames => True
  | .clear => True

/-- The loop of `clearUnusedFrames` has a frame to begin at. -/
def HasFrame (t : InductiveTrace) (call : Call) : Prop :=
  call = .clearUnusedFrames → t.numFrames ≠ 0 ∨ t.frames.frame .inf ≠ []

structure Trimmed (t t' : InductiveTrace) : Prop where
  lemmas : t'.lemmas = t.lemmas
  frames : ∀ ℓ, t'.frames.frame ℓ = t.frames.frame ℓ
  le : t'.numFrames ≤ t.numFrames
  empty : ∀ j, t'.numFrames ≤ j → t.frames.frame (.fin j) = []
  first : t.numFrames ≠ 0 → t'.numFrames ≠ 0
  last : 1 < t'.numFrames → t'.frames.frame (.fin (t'.numFrames - 1)) ≠ []

theorem unusedFrom_last (t : InductiveTrace) (i : ℕ) : 1 ≤ t.unusedFrom i (i + 1) ∧
    (1 < t.unusedFrom i (i + 1) → t.frames.frame (.fin (t.unusedFrom i (i + 1) - 1)) ≠ []) := by
  induction i with
  | zero => exact ⟨le_rfl, fun hlt ↦ absurd hlt (Nat.lt_irrefl 1)⟩
  | succ i ih =>
    rw [unusedFrom]
    split
    · exact ih
    · refine ⟨Nat.succ_pos _, fun _ hempty ↦ ?_⟩
      simp_all

theorem frame_of_ge {j : ℕ} (hj : t.numFrames ≤ j) : t.frames.frame (.fin j) = [] := by
  refine List.eq_nil_iff_forall_not_mem.mpr fun i hi ↦ ?_
  have hle := needed_le_of_mem hi
  rw [Level.needed_fin] at hle
  exact absurd hj (Nat.not_le_of_lt hle)

theorem trimmed_of_numFrames (hlemmas : t'.lemmas = t.lemmas)
    (hframes : ∀ ℓ, t'.frames.frame ℓ = t.frames.frame ℓ)
    (hnum : t'.numFrames = t.unusedFrom (t.numFrames - 1) t.numFrames) : Trimmed t t' := by
  have hspec := unusedFrom_numFrames t
  rw [← hnum] at hspec
  have hempty : ∀ j, t'.numFrames ≤ j → t.frames.frame (.fin j) = [] := by
    intro j hj
    obtain hlt | hge := Nat.lt_or_ge j t.numFrames
    · exact hspec.2 j hj hlt
    · exact frame_of_ge hge
  obtain hzero | hpos := Nat.eq_zero_or_pos t.numFrames
  · have hzero' : t'.numFrames = 0 := Nat.le_zero.mp (hzero ▸ hspec.1)
    exact ⟨hlemmas, hframes, hspec.1, hempty, fun hne ↦ absurd hzero hne, fun hlt ↦ by omega⟩
  · have hlast := unusedFrom_last t (t.numFrames - 1)
    rw [Nat.sub_add_cancel hpos, ← hnum] at hlast
    refine ⟨hlemmas, hframes, hspec.1, hempty, fun _ ↦ by omega, fun hlt ↦ ?_⟩
    rw [hframes]
    exact hlast.2 hlt

theorem Consistent.active_of_remove (h : t.Consistent) {frames : Frames} (hget : t.getLemma id = .ok d)
    (hremove : t.frames.removeLemmaFromFrame d.id d.level = .ok frames) :
    t.lemmas[id]? = some d ∧ d.deleted = false := by
  have hd : t.lemmas[id]? = some d := by
    unfold getLemma at hget
    split at hget
    · cases hget
      assumption
    · exact nomatch hget
  obtain ⟨_, hmem, -⟩ := bind_eq_ok.mp hremove
  have hin := List.contains_iff_mem.mp (ensure_eq_ok hmem)
  rw [h.id_eq hd] at hin
  exact ⟨hd, ((h.mem_iff hd).mp hin).1⟩

theorem Consistent.perform (h : t.Consistent) {call : Call} (hok : t.perform call = .ok t') :
    t'.Consistent := by
  cases call with
  | addLemma c ℓ =>
    obtain ⟨r, hadd, hok⟩ := bind_eq_ok.mp hok
    cases hok
    exact (post_of_ok (h.addLemma_meets fun _ _ _ _ _ _ ↦ trivial) hadd).consistent
  | pushLemma id ℓ =>
    obtain ⟨d, hget, hrest⟩ := bind_eq_ok.mp hok
    obtain ⟨_, hle, hrest⟩ := bind_eq_ok.mp hrest
    obtain ⟨frames, hremove, -⟩ := bind_eq_ok.mp hrest
    obtain ⟨hd, hactive⟩ := h.active_of_remove hget hremove
    exact (post_of_ok (h.pushLemma_meets hd hactive (of_decide_eq_true (ensure_eq_ok hle))) hok).consistent
  | removeLemma id =>
    obtain ⟨d, hget, hrest⟩ := bind_eq_ok.mp hok
    obtain ⟨frames, hremove, -⟩ := bind_eq_ok.mp hrest
    obtain ⟨hd, hactive⟩ := h.active_of_remove hget hremove
    exact (post_of_ok (h.removeLemma_meets hd hactive) hok).1
  | clearUnusedFrames => exact (post_of_ok (h.clearUnusedFrames_meets fun _ _ ↦ trivial) hok).1
  | clear =>
    cases hok
    exact consistent_new

theorem Reached.consistent (h : Reached t) : t.Consistent := by
  induction h with
  | new => exact consistent_new
  | step call _ hok ih => exact ih.perform hok

/-- A permitted call does what it is for, unless it is `clearUnusedFrames` on an empty trace. -/
theorem Consistent.perform_meets (h : t.Consistent) {call : Call} (hcall : t.Permitted call)
    (hfail : ¬ t.HasFrame call → fail .assertion) :
    Meets (fun t' ↦ t'.Consistent ∧ (call = .clearUnusedFrames → Trimmed t t')) fail
      (t.perform call) := by
  cases call with
  | addLemma c ℓ =>
    refine (h.addLemma_meets fun i d hd hdel hc hle ↦ ?_).bind fun r hr ↦ ⟨hr.consistent, nofun⟩
    exact absurd (hcall i d hd hdel hc) hle
  | pushLemma id ℓ =>
    obtain ⟨d, hd, hactive, hle⟩ := hcall
    exact (h.pushLemma_meets hd hactive hle).imp fun t' ht ↦ ⟨ht.consistent, nofun⟩
  | removeLemma id =>
    obtain ⟨d, hd, hactive⟩ := hcall
    exact (h.removeLemma_meets hd hactive).imp fun t' ht ↦ ⟨ht.1, nofun⟩
  | clearUnusedFrames =>
    refine (h.clearUnusedFrames_meets fun hzero hinf ↦ hfail fun hframe ↦ ?_).imp fun t' ht ↦ ?_
    · exact (hframe rfl).elim (· hzero) (· hinf)
    · obtain ⟨hinv, hlemmas, hframes, hnum⟩ := ht
      exact ⟨hinv, fun _ ↦ trimmed_of_numFrames hlemmas hframes hnum⟩
  | clear => exact ⟨consistent_new, nofun⟩

/-- The trace is consistent after every sequence of calls, and the next permitted call ends
without a failure, and with what it is for done, exactly when it is not `clearUnusedFrames` on
a trace without frames and without lemmas at infinity. -/
theorem reached_consistent (h : Reached t) : t.Consistent ∧ ∀ call, t.Permitted call →
    (Meets (fun t' ↦ t'.Consistent ∧ (call = .clearUnusedFrames → Trimmed t t')) (fun _ ↦ False)
      (t.perform call) ↔ t.HasFrame call) := by
  refine ⟨h.consistent, fun call hcall ↦ ⟨fun hmeets hclear ↦ ?_, fun hframe ↦ ?_⟩⟩
  · subst hclear
    by_contra hno
    have hcheck : (decide (t.numFrames ≠ 0) || !t.frames.frameInf.isEmpty) = false := by
      simpa [Frames.frame] using not_or.mp hno
    unfold perform InductiveTrace.clearUnusedFrames at hmeets
    rw [hcheck] at hmeets
    exact hmeets
  · exact h.consistent.perform_meets hcall fun hno ↦ hno hframe

theorem reached_addLemma {r : LemmaID × InductiveTrace} (h : Reached t)
    (hadd : t.addLemma c ℓ = .ok r) : Reached r.2 := by
  refine h.step (.addLemma c ℓ) ?_
  rw [perform, hadd]
  rfl

theorem reached_consistent_two : ∃ r, new.addLemma [6, 4] (.fin 2) = .ok r ∧ ∃ t,
    r.2.removeLemma r.1 = .ok t ∧ Meets (fun t' ↦ t'.Consistent ∧
      (Call.clearUnusedFrames = .clearUnusedFrames → Trimmed t t')) (fun _ ↦ False)
      (t.perform .clearUnusedFrames) := by
  have hadd : new.addLemma [6, 4] (.fin 2) =
      .ok (0, ⟨⟨[[], [], [0]], []⟩, [⟨0, [4, 6], .fin 2, false⟩], [([4, 6], 0)]⟩) := rfl
  refine ⟨_, hadd, _, rfl, ?_⟩
  have hreached : Reached ⟨⟨[[], [], []], []⟩, [⟨0, [4, 6], .fin 2, true⟩], [([4, 6], 0)]⟩ :=
    (reached_addLemma .new hadd).step (.removeLemma 0) rfl
  exact ((reached_consistent hreached).2 .clearUnusedFrames trivial).mpr fun _ ↦ .inl (by decide)

/-- On a new trace `clearUnusedFrames` looks for a frame at the level below `LEVEL_INF`. -/
theorem reached_consistent_fails : ¬ ∀ t, Reached t → ∀ call, t.Permitted call →
    Meets (fun t' ↦ t'.Consistent ∧ (call = .clearUnusedFrames → Trimmed t t')) (fun _ ↦ False)
      (t.perform call) :=
  fun h ↦ h new .new .clearUnusedFrames trivial

theorem sortCube_eq_of_perm (h : c'.Perm c) : sortCube c' = sortCube c := by
  have hperm : (sortCube c').Perm (sortCube c) :=
    (List.perm_insertionSort _ c').trans (h.trans (List.perm_insertionSort _ c).symm)
  exact hperm.eq_of_pairwise' (sorted_sortCube c') (sorted_sortCube c)

namespace Consistent

theorem lemmaExists_iff (h : t.Consistent) : t.lemmaExists c = true ↔
    c.Pairwise (· ≤ ·) ∧ ∃ d ∈ t.lemmas, d.cube = sortCube c := by
  rw [h.lookup_isSome]
  constructor
  · intro hex
    obtain ⟨i, d, hd, rfl⟩ := hex
    exact ⟨h.sorted hd, d, List.mem_iff_getElem?.mpr ⟨i, hd⟩, (sortCube_of_sorted (h.sorted hd)).symm⟩
  · intro hand
    obtain ⟨hsorted, d, hd, hc⟩ := hand
    obtain ⟨i, hi⟩ := List.mem_iff_getElem?.mp hd
    exact ⟨i, d, hi, hc.trans (sortCube_of_sorted hsorted)⟩

theorem lemmaExists_sortCube (h : t.Consistent) : t.lemmaExists (sortCube c) = true ↔
    ∃ d ∈ t.lemmas, d.cube = sortCube c := by
  rw [h.lemmaExists_iff, sortCube_of_sorted (sorted_sortCube c)]
  exact and_iff_right (sorted_sortCube c)

theorem getLemmaOf_sortCube : t.getLemmaOf (sortCube c) = t.getLemmaOf c := by
  rw [getLemmaOf, getLemmaOf, idOf, idOf, sortCube_of_sorted (sorted_sortCube c)]

/-- The two lookups that begin with `lemmaExists` agree with those for another order of the
literals when this one does. -/
theorem lookups_congr (hex : t.lemmaExists c = t.lemmaExists (sortCube c)) :
    t.lemmaIsActive c = t.lemmaIsActive (sortCube c) ∧ t.levelOf c = t.levelOf (sortCube c) := by
  rw [lemmaIsActive, lemmaIsActive, levelOf, levelOf, hex, getLemmaOf_sortCube]
  exact ⟨rfl, rfl⟩

theorem lemmaExists_eq_iff (h : t.Consistent) : t.lemmaExists c = t.lemmaExists (sortCube c) ↔
    c.Pairwise (· ≤ ·) ∨ ∀ d ∈ t.lemmas, d.cube ≠ sortCube c := by
  rw [Bool.eq_iff_iff, h.lemmaExists_iff, h.lemmaExists_sortCube]
  constructor
  · intro hiff
    by_cases hex : ∃ d ∈ t.lemmas, d.cube = sortCube c
    · exact .inl (hiff.mpr hex).1
    · exact .inr fun d hd hc ↦ hex ⟨d, hd, hc⟩
  · intro hor
    cases hor with
    | inl hsorted => exact and_iff_right hsorted
    | inr hnone =>
      have hex : ¬ ∃ d ∈ t.lemmas, d.cube = sortCube c := fun ⟨d, hd, hc⟩ ↦ hnone d hd hc
      exact ⟨fun hand ↦ absurd hand.2 hex, fun hyes ↦ absurd hyes hex⟩

end Consistent

/-- The lookups of a cube give what those of its sorted copy give exactly when the cube is sorted
itself or the trace has never seen its literals. In particular a stored lemma is found, in every
order of its literals but for the sorted one, by `getLemma` only. -/
theorem lookups_agree (h : Reached t) (hperm : c'.Perm c) :
    (t.lemmaExists c' = t.lemmaExists (sortCube c) ∧
      t.lemmaIsActive c' = t.lemmaIsActive (sortCube c) ∧
      t.levelOf c' = t.levelOf (sortCube c) ∧ t.getLemmaOf c' = t.getLemmaOf (sortCube c) ↔
      c'.Pairwise (· ≤ ·) ∨ ∀ d ∈ t.lemmas, d.cube ≠ sortCube c) ∧
    ∀ ℓ r, t.addLemma c ℓ = .ok r →
      (r.2.lemmaExists c' = true ∧ r.2.lemmaIsActive c' = .ok true ∧ r.2.levelOf c' = .ok ℓ ∧
        r.2.getLemmaOf c' = .ok ⟨r.1, sortCube c, ℓ, false⟩ ↔ c'.Pairwise (· ≤ ·)) := by
  rw [← sortCube_eq_of_perm hperm]
  refine ⟨⟨fun hall ↦ h.consistent.lemmaExists_eq_iff.mp hall.1, fun hor ↦ ?_⟩, fun ℓ r hadd ↦ ?_⟩
  · have hex := h.consistent.lemmaExists_eq_iff.mpr hor
    obtain ⟨hactive, hlevel⟩ := Consistent.lookups_congr hex
    exact ⟨hex, hactive, hlevel, Consistent.getLemmaOf_sortCube.symm⟩
  · have hstored := post_of_ok (h.consistent.addLemma_meets fun _ _ _ _ _ _ ↦ trivial) hadd
    rw [← sortCube_eq_of_perm hperm] at hstored
    have hmem : (⟨r.1, sortCube c', ℓ, false⟩ : LemmaData) ∈ r.2.lemmas :=
      List.mem_iff_getElem?.mpr ⟨r.1, hstored.self⟩
    have hiff := hstored.consistent.lemmaExists_iff (c := c')
    refine ⟨fun hall ↦ (hiff.mp hall.1).1, fun hsorted ↦ ?_⟩
    have hex := hiff.mpr ⟨hsorted, _, hmem, rfl⟩
    have hget : r.2.getLemmaOf c' = .ok ⟨r.1, sortCube c', ℓ, false⟩ := by
      have hid : r.2.idOf c' = .ok r.1 := by
        rw [idOf, (hstored.consistent.map _ r.1).mpr ⟨_, hstored.self, rfl⟩]
        rfl
      rw [getLemmaOf, hid, ok_bind, getLemma, hstored.self]
      rfl
    refine ⟨hex, ?_, ?_, hget⟩
    · rw [lemmaIsActive, if_pos hex, hget]
      rfl
    · rw [levelOf, hex, ensure_true, ok_bind, hget]
      rfl

theorem lookups_agree_two : ∃ r, new.addLemma [6, 4] (.fin 2) = .ok r ∧
    r.2.lemmaExists [4, 6] = true ∧ r.2.levelOf [4, 6] = .ok (.fin 2) ∧
    ¬ (r.2.lemmaExists [6, 4] = true ∧ r.2.lemmaIsActive [6, 4] = .ok true ∧
      r.2.levelOf [6, 4] = .ok (.fin 2) ∧
      r.2.getLemmaOf [6, 4] = .ok ⟨r.1, sortCube [6, 4], .fin 2, false⟩) := by
  refine ⟨_, rfl, ?_⟩
  have hsorted := ((@lookups_agree new [6, 4] [4, 6] .new (by decide)).2
    (.fin 2) _ rfl).mpr (by decide)
  have hother := (@lookups_agree new [6, 4] [6, 4] .new (List.Perm.refl _)).2
    (.fin 2) _ rfl
  exact ⟨hsorted.1, hsorted.2.2.1, fun hall ↦ absurd (hother.mp hall) (by decide)⟩

/-- A stored lemma is not found with its literals in another order. -/
theorem lookups_agree_fails : ¬ ∀ (t : InductiveTrace) (c c' : Cube), Reached t → c'.Perm c →
    t.lemmaExists c' = t.lemmaExists (sortCube c) ∧
    t.lemmaIsActive c' = t.lemmaIsActive (sortCube c) ∧
    t.levelOf c' = t.levelOf (sortCube c) ∧ t.getLemmaOf c' = t.getLemmaOf (sortCube c) := by
  intro h
  have hadd : new.addLemma [6, 4] (.fin 2) =
      .ok (0, ⟨⟨[[], [], [0]], []⟩, [⟨0, [4, 6], .fin 2, false⟩], [([4, 6], 0)]⟩) := rfl
  have hex := (h _ [6, 4] [6, 4] (reached_addLemma .new hadd) (List.Perm.refl _)).1
  exact absurd hex (by decide)

end PME.IC3.InductiveTrace
