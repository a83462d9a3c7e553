import PME.Network

namespace PME

open Outcome Comparator

variable {fail : Failure → Prop} {e o : List ℕ} {gates : List (Gate ℕ)} {vm : VariableManager}
  {le ge : Bool}

theorem vecAt_of_lt (vec : List ℕ) (i : ℕ) (h : i < vec.length) :
    ∃ x, vec[i]? = some x ∧ vecAt vec i = .ok x := by
  obtain ⟨x, hx⟩ : ∃ x, vec[i]? = some x := ⟨_, List.getElem?_eq_getElem h⟩
  refine ⟨x, hx, ?_⟩
  rw [vecAt, hx]
  rfl

theorem takeOdd_getElem? (vec : List ℕ) (i : ℕ) : (takeOdd vec)[i]? = vec[2 * i + 1]? := by
  induction vec using takeOdd.induct generalizing i with
  | case1 => simp [takeOdd]
  | case2 => simp [takeOdd]
  | case3 _ y vec ih =>
    cases i with
    | zero => simp [takeOdd]
    | succ i => simpa [takeOdd, Nat.mul_add] using ih i

theorem takeEven_getElem? (vec : List ℕ) (i : ℕ) : (takeEven vec)[i]? = vec[2 * i]? := by
  induction vec using takeEven.induct generalizing i with
  | case1 => simp [takeEven]
  | case2 =>
    cases i with
    | zero => simp [takeEven]
    | succ i => simp [takeEven, Nat.mul_add]
  | case3 x _ vec ih =>
    cases i with
    | zero => simp [takeEven]
    | succ i => simpa [takeEven, Nat.mul_add] using ih i

theorem mem_of_mem_takeOdd {vec : List ℕ} {w : ℕ} (h : w ∈ takeOdd vec) : w ∈ vec := by
  obtain ⟨i, hi⟩ := List.mem_iff_getElem?.mp h
  rw [takeOdd_getElem?] at hi
  exact List.mem_of_getElem? hi

theorem mem_of_mem_takeEven {vec : List ℕ} {w : ℕ} (h : w ∈ takeEven vec) : w ∈ vec := by
  obtain ⟨i, hi⟩ := List.mem_iff_getElem?.mp h
  rw [takeEven_getElem?] at hi
  exact List.mem_of_getElem? hi

/-- Where element `i` of the merged list comes from. Up to the extra element the sides
alternate, after it they alternate the other way round. -/
def zipAt (e o : List ℕ) (extra : Option ℕ) (i : ℕ) : Option ℕ :=
  match extra with
  | none => if i % 2 = 0 then e[i / 2]? else o[i / 2]?
  | some c =>
    if i ≤ c then if i % 2 = 0 then e[i / 2]? else o[i / 2]?
    else if i % 2 = 1 then e[(i + 1) / 2]? else o[(i - 2) / 2]?

theorem getElem?_append_pair {l : List ℕ} {x y : ℕ} {f : ℕ → Option ℕ}
    (h : ∀ i < l.length, l[i]? = f i) (hx : f l.length = some x) (hy : f (l.length + 1) = some y) :
    ∀ i < (l ++ [x, y]).length, (l ++ [x, y])[i]? = f i := by
  intro i hi
  rw [List.length_append, List.length_cons, List.length_singleton] at hi
  by_cases hlt : i < l.length
  · rw [List.getElem?_append_left hlt]
    exact h i hlt
  · rw [List.getElem?_append_right (by omega)]
    obtain rfl | rfl : i = l.length ∨ i = l.length + 1 := by omega
    · simp [hx]
    · simp [hy]

theorem getElem?_append_singleton {l : List ℕ} {x : ℕ} {f : ℕ → Option ℕ}
    (h : ∀ i < l.length, l[i]? = f i) (hx : f l.length = some x) :
    ∀ i < (l ++ [x]).length, (l ++ [x])[i]? = f i := by
  intro i hi
  rw [List.length_append, List.length_singleton] at hi
  by_cases hlt : i < l.length
  · rw [List.getElem?_append_left hlt]
    exact h i hlt
  · obtain rfl : i = l.length := by omega
    simp [hx]

theorem foldlM_zipperStep_none (hle : o.length ≤ e.length) :
    Meets (fun s ↦ s.1.length = 2 * o.length ∧
        ∀ i < s.1.length, s.1[i]? = zipAt e o none i) fail
      (o.foldlM (zipperStep e none) ([], 0)) := by
  have hfold : Meets _ fail _ := foldlM_meets (f := zipperStep e none) (l := o)
    (fun done s ↦ s.2 = done.length ∧ s.1.length = 2 * done.length ∧
      ∀ i < s.1.length, s.1[i]? = zipAt e o none i) ([], 0) (by simp) ?_
  · exact hfold.imp fun s h ↦ h.2
  intro done x rest s hl h
  obtain ⟨hcount, hlen, hat⟩ := h
  have ho : o[done.length]? = some x := by simp [← hl]
  have hlt : done.length < o.length := by
    rw [← hl]
    simp
  obtain ⟨y, hy, hat'⟩ := vecAt_of_lt e done.length (by omega)
  simp only [zipperStep, hcount, hat', ok_bind, reduceCtorEq, if_false, meets_pure]
  refine ⟨by simp, by simp [hlen]; omega, ?_⟩
  apply getElem?_append_pair hat
  · rw [hlen, zipAt, if_pos (by omega), ← hy]
    congr 1
    omega
  · rw [hlen, zipAt, if_neg (by omega), ← ho]
    congr 1
    omega

/-- The loop that takes one element more from the even side when `c` are merged. -/
theorem foldlM_zipperStep_some {c : ℕ} (hc : c % 2 = 0) (hpos : 0 < c) (hle : o.length + 2 ≤ e.length) :
    Meets (fun s ↦ s.2 = o.length + (if c ≤ 2 * o.length then 1 else 0) ∧
        s.1.length = o.length + s.2 ∧ ∀ i < s.1.length, s.1[i]? = zipAt e o (some c) i) fail
      (o.foldlM (zipperStep e (some c)) ([], 0)) := by
  refine foldlM_meets (f := zipperStep e (some c)) (l := o)
    (fun done s ↦ s.2 = done.length + (if c ≤ 2 * done.length then 1 else 0) ∧
      s.1.length = done.length + s.2 ∧ ∀ i < s.1.length, s.1[i]? = zipAt e o (some c) i)
    ([], 0) ?_ ?_
  · simp
    omega
  intro done x rest s hl h
  obtain ⟨hcount, hlen, hat⟩ := h
  have ho : o[done.length]? = some x := by simp [← hl]
  have hlt : done.length < o.length := by
    rw [← hl]
    simp
  have hs : s.2 ≤ done.length + 1 := by split at hcount <;> omega
  obtain ⟨y, hy, hvec⟩ := vecAt_of_lt e s.2 (by omega)
  -- the two elements of this pass stand where `zipAt` puts them, before or after the extra one
  have hmerged : ∀ i < (s.1 ++ [y, x]).length, (s.1 ++ [y, x])[i]? = zipAt e o (some c) i := by
    apply getElem?_append_pair hat
    · rw [← hy, zipAt]
      split at hcount
      · rw [if_neg (by omega), if_pos (by omega)]
        congr 1
        omega
      · rw [if_pos (by omega), if_pos (by omega)]
        congr 1
        omega
    · rw [← ho, zipAt]
      split at hcount
      · rw [if_neg (by omega), if_neg (by omega)]
        congr 1
        omega
      · rw [if_pos (by omega), if_neg (by omega)]
        congr 1
        omega
  have hlen' : (s.1 ++ [y, x]).length = done.length + s.2 + 2 := by simp [hlen]
  simp only [zipperStep, hvec, ok_bind, Option.some_inj]
  by_cases hextra : c = (s.1 ++ [y, x]).length
  · have hcount' : ¬ c ≤ 2 * done.length := by
      intro hle'
      rw [if_pos hle'] at hcount
      omega
    rw [if_neg hcount'] at hcount
    obtain ⟨y', hy', hvec'⟩ := vecAt_of_lt e (s.2 + 1) (by omega)
    rw [if_pos hextra, hvec', ok_bind, meets_pure]
    refine ⟨?_, ?_, ?_⟩
    · rw [if_pos (by simp; omega)]
      simp
      omega
    · simp
      omega
    · apply getElem?_append_singleton hmerged
      rw [← hextra, zipAt, if_pos le_rfl, if_pos hc, ← hy']
      congr 1
      omega
  · rw [if_neg hextra, meets_pure]
    refine ⟨?_, ?_, hmerged⟩
    · dsimp only
      rw [List.length_append, List.length_singleton]
      split at hcount
      · rw [if_pos (by omega)]
        omega
      · rw [if_neg (by omega)]
        omega
    · simp
      omega

structure Zipped (e o z : List ℕ) : Prop where
  length : z.length = e.length + o.length
  first : z[0]? = e[0]?
  pair : ∀ j, 2 * j + 2 < z.length →
    z[2 * j + 1]? = o[j]? ∧ z[2 * j + 2]? = e[j + 1]? ∨
      z[2 * j + 1]? = e[j + 1]? ∧ z[2 * j + 2]? = o[j]?
  last : ∀ j, z.length = 2 * j + 2 →
    z[2 * j + 1]? = o[j]? ∧ e.length ≤ j + 1 ∨ z[2 * j + 1]? = e[j + 1]? ∧ o.length ≤ j

theorem vecBack_eq (vec : List ℕ) (i : ℕ) (h : vec.length = i + 1) :
    ∃ x, vec[i]? = some x ∧ vecBack vec = .ok x := by
  obtain ⟨x, hx, hat⟩ := vecAt_of_lt vec i (by omega)
  refine ⟨x, hx, ?_⟩
  rw [vecBack, h, Nat.add_sub_cancel]
  exact hat

/-- The two halves of a merge of sorted lists of lengths `a` and `b` fit together. -/
theorem zipperMerge_meets {a b : ℕ} (he : e.length = (a + 1) / 2 + (b + 1) / 2)
    (ho : o.length = a / 2 + b / 2) (ha : 0 < a) (hab : a ≤ b) (hone : ¬ (a = 1 ∧ b = 1)) :
    Meets (Zipped e o) fail (zipperMerge e o a b) := by
  have hle : o.length ≤ e.length := by omega
  have hdiff : e.length - o.length ≤ 2 := by omega
  have hzero : (e.length - o.length != 0 || (a % 2 == 0 && b % 2 == 0)) = true := by
    rw [Bool.or_eq_true, bne_iff_ne, Bool.and_eq_true, beq_iff_eq, beq_iff_eq]
    omega
  have hodd : (e.length - o.length != 1 || a % 2 != b % 2) = true := by
    rw [Bool.or_eq_true, bne_iff_ne, bne_iff_ne]
    omega
  have htwo : (e.length - o.length != 2 || a % 2 == 1) = true := by
    rw [Bool.or_eq_true, bne_iff_ne, beq_iff_eq]
    omega
  simp only [zipperMerge, hle, hdiff, hzero, hodd, htwo, decide_true, ensure_true, ok_bind]
  by_cases hsmall : e.length - o.length ≤ 1
  · rw [if_pos hsmall]
    refine (foldlM_zipperStep_none hle).bind fun s h ↦ ?_
    obtain ⟨merged, _⟩ := s
    obtain ⟨hlen, hat⟩ := h
    dsimp only at hlen hat ⊢
    have hzip : ∀ z : List ℕ, z.length = e.length + o.length →
        (∀ i < z.length, z[i]? = zipAt e o none i) → Zipped e o z := by
      intro z hz h
      refine ⟨hz, ?_, fun j hj ↦ .inl ⟨?_, ?_⟩, fun j hj ↦ .inl ⟨?_, by omega⟩⟩
      · rw [h 0 (by omega)]
        rfl
      · rw [h _ (by omega), zipAt, if_neg (by omega)]
        congr 1
        omega
      · rw [h _ hj, zipAt, if_pos (by omega)]
        congr 1
        omega
      · rw [h _ (by omega), zipAt, if_neg (by omega)]
        congr 1
        omega
    by_cases hd : e.length - o.length = 1
    · obtain ⟨x, hx, hback⟩ := vecBack_eq e o.length (by omega)
      rw [if_pos hd, hback, ok_bind, meets_pure]
      apply hzip
      · simp
        omega
      · apply getElem?_append_singleton hat
        rw [hlen, zipAt, if_pos (by omega), ← hx]
        congr 1
        omega
    · rw [if_neg hd, meets_pure]
      exact hzip merged (by omega) hat
  · rw [if_neg hsmall]
    refine (foldlM_zipperStep_some (c := a + 1) (by omega) (by omega) (by omega)).bind fun s h ↦ ?_
    obtain ⟨merged, iEven⟩ := s
    obtain ⟨hcount, hlen, hat⟩ := h
    dsimp only at hcount hlen hat ⊢
    rw [if_pos (by omega)] at hcount
    have hlast : (iEven == e.length - 1) = true := by
      rw [beq_iff_eq]
      omega
    obtain ⟨x, hx, hback⟩ := vecBack_eq e (o.length + 1) (by omega)
    rw [hlast, ensure_true, ok_bind, hback, ok_bind, meets_pure]
    have hz : (merged ++ [x]).length = e.length + o.length := by
      simp
      omega
    have h : ∀ i < (merged ++ [x]).length, (merged ++ [x])[i]? = zipAt e o (some (a + 1)) i := by
      apply getElem?_append_singleton hat
      rw [hlen, zipAt, if_neg (by omega), if_pos (by omega), ← hx]
      congr 1
      omega
    refine ⟨hz, ?_, fun j hj ↦ ?_, fun j hj ↦ .inr ⟨?_, by omega⟩⟩
    · rw [h 0 (by omega)]
      rfl
    · by_cases hj' : 2 * j + 2 ≤ a + 1
      · refine .inl ⟨?_, ?_⟩
        · rw [h _ (by omega), zipAt, if_pos (by omega), if_neg (by omega)]
          congr 1
          omega
        · rw [h _ hj, zipAt, if_pos hj', if_pos (by omega)]
          congr 1
          omega
      · refine .inr ⟨?_, ?_⟩
        · rw [h _ (by omega), zipAt, if_neg (by omega), if_pos (by omega)]
          congr 1
          omega
        · rw [h _ hj, zipAt, if_neg hj', if_neg (by omega)]
          congr 1
          omega
    · rw [h _ (by omega), zipAt, if_neg (by omega), if_pos (by omega)]
      congr 1
      omega

theorem Zipped.mem {e o z : List ℕ} (h : Zipped e o z) {i x : ℕ} (hx : z[i]? = some x) :
    x ∈ e ∨ x ∈ o := by
  have hi : i < z.length := (List.getElem?_eq_some_iff.mp hx).1
  by_cases hzero : i = 0
  · subst hzero
    rw [h.first] at hx
    exact .inl (List.mem_of_getElem? hx)
  obtain ⟨j, hj⟩ : ∃ j, i = 2 * j + 1 ∨ i = 2 * j + 2 := ⟨(i - 1) / 2, by omega⟩
  by_cases hpair : 2 * j + 2 < z.length
  · obtain hz | hz := h.pair j hpair
    · cases hj with
      | inl hj => exact .inr (List.mem_of_getElem? (by rw [← hz.1, ← hj, hx]))
      | inr hj => exact .inl (List.mem_of_getElem? (by rw [← hz.2, ← hj, hx]))
    · cases hj with
      | inl hj => exact .inl (List.mem_of_getElem? (by rw [← hz.1, ← hj, hx]))
      | inr hj => exact .inr (List.mem_of_getElem? (by rw [← hz.2, ← hj, hx]))
  · obtain rfl : i = 2 * j + 1 := by omega
    obtain hz | hz := h.last j (by omega)
    · exact .inr (List.mem_of_getElem? (by rw [← hz.1, hx]))
    · exact .inl (List.mem_of_getElem? (by rw [← hz.1, hx]))

def Merges (gates : List (Gate ℕ)) (a b outs : List ℕ) : Prop :=
  ∀ R, Compatible R → ∀ v : ℕ → Bool, (∀ g ∈ gates, g.Holds R v) → ∀ p q,
    p ≤ a.length → q ≤ b.length → Follows R v p a → Follows R v q b → Follows R v (p + q) outs

theorem shorter_longer (a b : List ℕ) :
    shorter a b = a ∧ longer a b = b ∧ a.length ≤ b.length ∨
      shorter a b = b ∧ longer a b = a ∧ b.length ≤ a.length := by
  unfold shorter longer
  split
  · exact .inl ⟨rfl, rfl, ‹_›⟩
  · exact .inr ⟨rfl, rfl, by omega⟩

theorem Merges.of_shorter {a b outs : List ℕ} (h : Merges gates (shorter a b) (longer a b) outs) :
    Merges gates a b outs := by
  intro R hR v hv p q hp hq ha hb
  obtain ⟨hs, hl, -⟩ | ⟨hs, hl, -⟩ := shorter_longer a b
  · rw [hs, hl] at h
    exact h R hR v hv p q hp hq ha hb
  · rw [hs, hl] at h
    rw [Nat.add_comm]
    exact h R hR v hv q p hq hp hb ha

/-- Sorted halves and a last layer make a merge, when the halves are complete or both cut
so that the even half is longer by one. -/
theorem Merges.of_halves {gateso gatese : List (Gate ℕ)} {a b o e outs : List ℕ}
    (ho : Merges gateso (takeOdd a) (takeOdd b) o) (he : Merges gatese (takeEven a) (takeEven b) e)
    (hsubo : gateso ⊆ gates) (hsube : gatese ⊆ gates)
    (hlen : e.length = (a.length + 1) / 2 + (b.length + 1) / 2 ∧
        o.length = a.length / 2 + b.length / 2 ∨
      e.length = o.length + 1 ∧ outs.length ≤ e.length + o.length)
    (hmerged : ∀ R v, (∀ g ∈ gates, Gate.Holds R v g) → ∀ i w, outs[i]? = some w →
      Merged R v e o i w) : Merges gates a b outs := by
  intro R hR v hv p q hp hq ha hb
  have hfo : Follows R v (p / 2 + q / 2) o :=
    ho R hR v (fun g hg ↦ hv g (hsubo hg)) (p / 2) (q / 2) (by rw [length_takeOdd]; omega)
      (by rw [length_takeOdd]; omega) (ha.odds (takeOdd_getElem? a)) (hb.odds (takeOdd_getElem? b))
  have hfe : Follows R v ((p + 1) / 2 + (q + 1) / 2) e :=
    he R hR v (fun g hg ↦ hv g (hsube hg)) ((p + 1) / 2) ((q + 1) / 2)
      (by rw [length_takeEven]; omega) (by rw [length_takeEven]; omega)
      (ha.evens (takeEven_getElem? a)) (hb.evens (takeEven_getElem? b))
  -- thresholds beyond the ends of the halves are moved to the ends
  have hfo' : Follows R v (min (p / 2 + q / 2) o.length) o := hfo.congr fun i hi ↦ by omega
  have hfe' : Follows R v (min ((p + 1) / 2 + (q + 1) / 2) e.length) e :=
    hfe.congr fun i hi ↦ by omega
  have hf := follows_of_merged hR (by omega) (by omega) hfe' hfo' (by omega) (by omega)
    (hmerged R v hv)
  refine hf.congr fun i hi ↦ ?_
  omega

theorem mem_shorter_longer {a b : List ℕ} {w : ℕ} (h : w ∈ shorter a b ∨ w ∈ longer a b) :
    w ∈ a ++ b := by
  obtain ⟨hs, hl, -⟩ | ⟨hs, hl, -⟩ := shorter_longer a b
  · rw [hs, hl] at h
    exact List.mem_append.mpr h
  · rw [hs, hl] at h
    exact List.mem_append.mpr h.symm

theorem mergeNetwork_meets (hdir : (le || ge) = true) {a b : List ℕ} (h : vm.Inv)
    (hins : ∀ w ∈ a ++ b, Old vm.nextID (strip w))
    (hids : maxId + 1 < vm.nextID + 2 * (a.length + b.length) ^ 2 → fail .idsExhausted) :
    Meets (fun r ↦ r.outputs.length = a.length + b.length ∧
      ∃ gates, Network vm le ge (a ++ b) ((a.length + b.length) ^ 2) r gates ∧
        Merges gates a b r.outputs) fail (mergeNetwork vm a b le ge) := by
  induction hn : a.length + b.length using Nat.strong_induction_on generalizing vm a b with
  | _ n ih =>
  rw [hn] at hids
  have hsub : ∀ w, w ∈ shorter a b ∨ w ∈ longer a b → w ∈ a ++ b := fun w ↦ mem_shorter_longer
  have hls := length_shorter a b
  have hll := length_longer a b
  have hmerges : ∀ gates outs, Merges gates (shorter a b) (longer a b) outs → Merges gates a b outs :=
    fun gates outs ↦ Merges.of_shorter
  rw [mergeNetwork]
  revert hsub hls hll hmerges
  generalize shorter a b = aVec
  generalize longer a b = bVec
  intro hsub hls hll hmerges
  have hle : aVec.length ≤ bVec.length := by omega
  have hlen : aVec.length + bVec.length = n := by omega
  simp only [hle, hdir, decide_true, ensure_true, ok_bind]
  by_cases hone : aVec.length = 1 ∧ bVec.length = 1
  · rw [dif_pos hone]
    obtain ⟨x₁, rfl⟩ := List.length_eq_one_iff.mp hone.1
    obtain ⟨x₂, rfl⟩ := List.length_eq_one_iff.mp hone.2
    simp only [List.length_singleton] at hlen
    subst hlen
    have hodd : maxId % 2 = 1 := rfl
    have hev := h.even
    refine (getNewID_zero_meets h fun hmax ↦ hids (by omega)).bind fun y hy ↦ ?_
    obtain ⟨y₁, vm₁⟩ := y
    obtain ⟨rfl, hnext₁, hinv₁⟩ := hy
    dsimp only at hnext₁ hinv₁ ⊢
    refine (getNewID_zero_meets hinv₁ fun hmax ↦ hids (by omega)).bind fun y hy ↦ ?_
    obtain ⟨y₂, vm₂⟩ := y
    obtain ⟨rfl, hnext₂, hinv₂⟩ := hy
    dsimp only at hnext₂ hinv₂ ⊢
    have hat₁ : vecAt [x₁] 0 = .ok x₁ := rfl
    have hat₂ : vecAt [x₂] 0 = .ok x₂ := rfl
    simp only [hat₁, hat₂, ok_bind, comp_eq hdir, meets_pure, hnext₁]
    have hx₁ := hins x₁ (hsub x₁ (by simp))
    have hx₂ := hins x₂ (hsub x₂ (by simp))
    have hcomp := Network.comp le ge h hinv₂ (by omega) hx₁ hx₂
    refine ⟨by simp, _, hcomp.mono (fun w hw ↦ hsub w (by simpa using hw)) (by simp), hmerges _ _ ?_⟩
    intro R hR v hv p q hp hq ha hb
    obtain ⟨hor, hand⟩ := hv _ (List.mem_singleton.mpr rfl)
    rw [List.length_singleton] at hp hq
    have h₁ := ha 0 x₁ rfl
    have h₂ := hb 0 x₂ rfl
    intro i w hw
    obtain hi | hi : i = 0 ∨ i = 1 := by
      have := (List.getElem?_eq_some_iff.mp hw).1
      simp at this
      omega
    · subst hi
      obtain rfl : vm.nextID = w := by simpa using hw
      have hd : decide (0 < p + q) = (decide (0 < p) || decide (0 < q)) := by
        rw [← Bool.decide_or]
        exact decide_eq_decide.mpr (by omega)
      rw [hd]
      exact hR.trans _ _ _ (hR.or _ _ _ _ h₁ h₂) hor
    · subst hi
      obtain rfl : vm.nextID + 2 = w := by simpa using hw
      have hd : decide (1 < p + q) = (decide (0 < p) && decide (0 < q)) := by
        rw [← Bool.decide_and]
        exact decide_eq_decide.mpr (by omega)
      rw [hd]
      exact hR.trans _ _ _ (hR.and _ _ _ _ h₁ h₂) hand
  rw [dif_neg hone]
  by_cases hempty : aVec.length = 0
  · rw [dif_pos hempty, meets_pure]
    refine ⟨by dsimp only; omega, [], (Network.nil h fun w hw ↦ hsub w (.inr hw)).mono
      (fun w hw ↦ hw) (Nat.zero_le _), hmerges _ _ ?_⟩
    intro R hR v hv p q hp hq ha hb
    obtain rfl : p = 0 := by omega
    rw [Nat.zero_add]
    exact hb
  rw [dif_neg hempty]
  have hoddlen : (takeOdd aVec).length + (takeOdd bVec).length = aVec.length / 2 + bVec.length / 2 := by
    rw [length_takeOdd, length_takeOdd]
  have hevenlen : (takeEven aVec).length + (takeEven bVec).length =
      (aVec.length + 1) / 2 + (bVec.length + 1) / 2 := by
    rw [length_takeEven, length_takeEven]
  have hoddsub : ∀ w ∈ takeOdd aVec ++ takeOdd bVec, w ∈ a ++ b := fun w hw ↦
    hsub w ((List.mem_append.mp hw).imp mem_of_mem_takeOdd mem_of_mem_takeOdd)
  have hevensub : ∀ w ∈ takeEven aVec ++ takeEven bVec, w ∈ a ++ b := fun w hw ↦
    hsub w ((List.mem_append.mp hw).imp mem_of_mem_takeEven mem_of_mem_takeEven)
  obtain ⟨no, hno⟩ : ∃ no, no = aVec.length / 2 + bVec.length / 2 := ⟨_, rfl⟩
  obtain ⟨ne, hne⟩ : ∃ ne, ne = (aVec.length + 1) / 2 + (bVec.length + 1) / 2 := ⟨_, rfl⟩
  have hbound : no ^ 2 + ne ^ 2 + 2 * ((n - 1) / 2) ≤ n ^ 2 := by
    have hsum : n = no + ne := by omega
    have hpos : 0 < no := by omega
    have hpos' : 0 < ne := by omega
    have hmul : no + ne ≤ 2 * (no * ne) := by nlinarith
    have hsq : n ^ 2 = no ^ 2 + ne ^ 2 + 2 * (no * ne) := by
      rw [hsum]
      ring
    omega
  refine (ih no (by omega) h (fun w hw ↦ hins w (hoddsub w hw)) ?_ (by omega)).bind fun r hr ↦ ?_
  · intro hmax
    rw [hoddlen, ← hno] at hmax
    exact hids (by omega)
  obtain ⟨holen, gateso, hneto, hmergeso⟩ := hr
  have hleo := hneto.nextID_le
  have hmono := hneto.segment.le
  have hevenins : ∀ w ∈ takeEven aVec ++ takeEven bVec, Old r.vm.nextID (strip w) := fun w hw ↦
    (hins w (hevensub w hw)).mono hmono
  refine (ih ne (by omega) hneto.inv hevenins ?_ (by omega)).bind fun r' hr' ↦ ?_
  · intro hmax
    rw [hevenlen, ← hne] at hmax
    exact hids (by omega)
  obtain ⟨helen, gatese, hnete, hmergese⟩ := hr'
  refine (zipperMerge_meets (by omega) (by omega) (by omega) hle hone).bind fun z hz ↦ ?_
  have hzlen := hz.length
  obtain ⟨z₀, hz₀, hat₀⟩ := vecAt_of_lt z 0 (by omega)
  rw [hat₀, ok_bind]
  have hbase : Network vm le ge (a ++ b) (no ^ 2 + ne ^ 2) ⟨r'.vm, [z₀], r.cnf ++ r'.cnf⟩
      (gateso ++ gatese) := by
    refine (hneto.mono hoddsub le_rfl).append _ (hnete.mono (fun w hw ↦ hevensub w hw) le_rfl) hins
      (fun w hw ↦ .inl hw) fun w hw ↦ ?_
    rw [List.mem_singleton] at hw
    rw [hw]
    exact (hz.mem hz₀).symm
  have hwire : ∀ i x : ℕ, z[i]? = some x → Wire vm.nextID r'.vm.nextID (a ++ b) x := by
    intro i x hx
    obtain hmem | hmem := hz.mem hx
    · exact (hnete.outputs x hmem).trans hmono hnete.segment.le fun w hw ↦ .inl (hevensub w hw)
    · exact ((hneto.mono hoddsub le_rfl).outputs x hmem).mono hnete.segment.le
  have hpair : ∀ j < (z.length - 1) / 2, ∃ x₁ x₂, z[2 * j + 1]? = some x₁ ∧
      z[2 * j + 2]? = some x₂ ∧ (do return (← vecAt z (2 * j + 1), ← vecAt z (2 * j + 2)) :
        Result (ℕ × ℕ)) = .ok (x₁, x₂) := by
    intro j hj
    obtain ⟨x₁, hx₁, hat₁⟩ := vecAt_of_lt z (2 * j + 1) (by omega)
    obtain ⟨x₂, hx₂, hat₂⟩ := vecAt_of_lt z (2 * j + 2) (by omega)
    refine ⟨x₁, x₂, hx₁, hx₂, ?_⟩
    rw [hat₁, ok_bind, hat₂]
    rfl
  refine (compPairs_meets hdir hbase hins ?_ ?_).bind fun r'' hr'' ↦ ?_
  · intro j hj
    obtain ⟨x₁, x₂, hx₁, hx₂, hp⟩ := hpair j hj
    exact ⟨x₁, x₂, hp, hwire _ _ hx₁, hwire _ _ hx₂⟩
  · intro hmax
    exact hids (by rw [hzlen] at hmax; omega)
  obtain ⟨hmono', gates', hnet, hlayer⟩ := hr''
  dsimp only at hmono'
  have hbound' : no ^ 2 + ne ^ 2 + 2 * ((z.length - 1) / 2) ≤ n ^ 2 := by
    rw [hzlen]
    omega
  have houtlen : r''.outputs.length = 1 + 2 * ((z.length - 1) / 2) := hlayer.length
  have hmeaning : ∀ outs : List ℕ,
      (∀ R v, (∀ g ∈ gateso ++ gatese ++ gates', Gate.Holds R v g) → ∀ i w, outs[i]? = some w →
        Merged R v r'.outputs r.outputs i w) →
      Merges (gateso ++ gatese ++ gates') a b outs := fun outs houts ↦
    hmerges _ _ (Merges.of_halves hmergeso hmergese (by simp) (by simp)
      (.inl ⟨by omega, by omega⟩) houts)
  have hmerged : ∀ R v, (∀ g ∈ gateso ++ gatese ++ gates', Gate.Holds R v g) → ∀ i w,
      r''.outputs[i]? = some w → Merged R v r'.outputs r.outputs i w := by
    intro R v hv
    refine merged_of_layer hlayer (by rw [← hz.first, hz₀]) (fun j hj ↦ ?_) fun g hg ↦
      hv g (by simp [hg])
    obtain ⟨x₁, x₂, hx₁, hx₂, hp⟩ := hpair j hj
    refine ⟨x₁, x₂, hp, ?_⟩
    rw [← hx₁, ← hx₂]
    exact (hz.pair j (by omega)).symm.imp (fun h ↦ ⟨h.1.symm, h.2.symm⟩)
      (fun h ↦ ⟨h.1.symm, h.2.symm⟩)
  by_cases heven : (aVec.length + bVec.length) % 2 = 0
  · have hlast : (r''.outputs.length == aVec.length + bVec.length - 1) = true := by
      rw [beq_iff_eq]
      omega
    obtain ⟨j, hj⟩ : ∃ j, z.length = 2 * j + 2 := ⟨(z.length - 2) / 2, by omega⟩
    obtain ⟨x, hx, hback⟩ := vecBack_eq z (2 * j + 1) (by omega)
    rw [if_pos heven, hlast, ensure_true, ok_bind, hback, ok_bind, meets_pure]
    refine ⟨by simp; omega, _, ⟨hnet.inv, ?_, hnet.cnf, hnet.segment, ?_⟩, hmeaning _ ?_⟩
    · have := hnet.nextID_le
      dsimp only
      omega
    · intro w hw
      cases List.mem_append.mp hw with
      | inl hw => exact hnet.outputs w hw
      | inr hw =>
        rw [List.mem_singleton] at hw
        rw [hw]
        exact (hwire _ _ hx).mono hmono'
    · intro R v hv i w hw
      by_cases hi : i < r''.outputs.length
      · rw [List.getElem?_append_left hi] at hw
        exact hmerged R v hv i w hw
      · rw [List.getElem?_append_right (by omega)] at hw
        obtain ⟨hi', rfl⟩ : i - r''.outputs.length = 0 ∧ x = w := by
          rw [List.getElem?_singleton] at hw
          split at hw
          · exact ⟨‹_›, Option.some_inj.mp hw⟩
          · simp at hw
        have hij : i = 2 * j + 1 := by omega
        obtain hl | hl := hz.last j hj
        · exact .lastOdd j hij (by rw [← hl.1, hx]) hl.2
        · exact .lastEven j hij (by rw [← hl.1, hx]) hl.2
  · rw [if_neg heven, meets_pure]
    exact ⟨by omega, _, hnet.mono (fun w hw ↦ hw) hbound', hmeaning _ hmerged⟩

theorem simpMergeNetwork_meets (hdir : (le || ge) = true) {a b : List ℕ} {c : ℕ} (h : vm.Inv)
    (hins : ∀ w ∈ a ++ b, Old vm.nextID (strip w))
    (hids : maxId + 1 < vm.nextID + 2 * (a.length + b.length) ^ 2 → fail .idsExhausted) :
    Meets (fun r ↦ r.outputs.length = min c (a.length + b.length) ∧
      ∃ gates, Network vm le ge (a ++ b) ((a.length + b.length) ^ 2) r gates ∧
        Merges gates a b r.outputs) fail (simpMergeNetwork vm a b c le ge) := by
  induction hn : a.length + b.length using Nat.strong_induction_on generalizing vm a b c with
  | _ n ih =>
  rw [hn] at hids
  have hls := length_shorter a b
  have hll := length_longer a b
  have hsub : ∀ w, w ∈ (shorter a b).take c ∨ w ∈ (longer a b).take c → w ∈ a ++ b := fun w hw ↦
    mem_shorter_longer (hw.imp List.mem_of_mem_take List.mem_of_mem_take)
  have hmerges : ∀ gates outs, outs.length ≤ c →
      Merges gates ((shorter a b).take c) ((longer a b).take c) outs → Merges gates a b outs := by
    intro gates outs hlen hm
    refine Merges.of_shorter fun R hR v hv p q hp hq ha hb ↦ ?_
    have hf := hm R hR v hv (min p c) (min q c) (by rw [List.length_take]; omega)
      (by rw [List.length_take]; omega) (ha.take c) (hb.take c)
    exact hf.congr fun i hi ↦ by omega
  rw [simpMergeNetwork]
  have hla : ((shorter a b).take c).length = min c (min a.length b.length) := by
    rw [List.length_take, hls]
  have hlb : ((longer a b).take c).length = min c (max a.length b.length) := by
    rw [List.length_take, hll]
  revert hla hlb hsub hmerges
  generalize (shorter a b).take c = aVec
  generalize (longer a b).take c = bVec
  intro hsub hmerges hla hlb
  have hle : aVec.length ≤ bVec.length := by omega
  have hc : bVec.length ≤ c := by omega
  simp only [hle, hc, hdir, decide_true, ensure_true, ok_bind]
  by_cases hempty : aVec.length = 0
  · rw [dif_pos hempty, meets_pure]
    refine ⟨by dsimp only; omega, [], (Network.nil h fun w hw ↦ hsub w (.inr hw)).mono
      (fun w hw ↦ hw) (Nat.zero_le _), hmerges _ _ hc ?_⟩
    intro R hR v hv p q hp hq ha hb
    obtain rfl : p = 0 := by omega
    rw [Nat.zero_add]
    exact hb
  rw [dif_neg hempty]
  have hodd : maxId % 2 = 1 := rfl
  by_cases hone : aVec.length = 1 ∧ bVec.length = 1 ∧ c = 1
  · rw [dif_pos hone]
    obtain ⟨x₁, rfl⟩ := List.length_eq_one_iff.mp hone.1
    obtain ⟨x₂, rfl⟩ := List.length_eq_one_iff.mp hone.2.1
    have hpos : 1 ≤ n ^ 2 := Nat.one_le_pow _ _ (by omega)
    have hev := h.even
    refine (getNewID_zero_meets h fun hmax ↦ hids (by omega)).bind fun y hy ↦ ?_
    obtain ⟨y, vm₁⟩ := y
    obtain ⟨rfl, hnext, hinv⟩ := hy
    dsimp only at hnext hinv ⊢
    have hat₁ : vecAt [x₁] 0 = .ok x₁ := rfl
    have hat₂ : vecAt [x₂] 0 = .ok x₂ := rfl
    simp only [hat₁, hat₂, ok_bind, partialComp_eq hdir, meets_pure]
    have hx₁ := hins x₁ (hsub x₁ (by simp))
    have hx₂ := hins x₂ (hsub x₂ (by simp))
    have hor := Network.or le ge h hinv hnext hx₁ hx₂
    refine ⟨?_, _, hor.mono (fun w hw ↦ hsub w (by simpa using hw)) hpos, hmerges _ _ ?_ ?_⟩
    · simp at hla hlb ⊢
      omega
    · simp
      omega
    intro R hR v hv p q hp hq ha hb
    have hg : R (v x₁ || v x₂) (v vm.nextID) := hv _ (List.mem_singleton.mpr rfl)
    have h₁ := ha 0 x₁ rfl
    have h₂ := hb 0 x₂ rfl
    apply follows_singleton
    have hd : decide (0 < p + q) = (decide (0 < p) || decide (0 < q)) := by
      rw [← Bool.decide_or]
      exact decide_eq_decide.mpr (by omega)
    rw [hd]
    exact hR.trans _ _ _ (hR.or _ _ _ _ h₁ h₂) hg
  rw [dif_neg hone]
  have hlen : aVec.length + bVec.length ≤ n := by omega
  by_cases hfits : aVec.length + bVec.length ≤ c
  · rw [dif_pos hfits]
    have hpow : (aVec.length + bVec.length) ^ 2 ≤ n ^ 2 := Nat.pow_le_pow_left hlen 2
    have hins' : ∀ w ∈ aVec ++ bVec, w ∈ a ++ b := fun w hw ↦ hsub w (List.mem_append.mp hw)
    refine (mergeNetwork_meets hdir h (fun w hw ↦ hins w (hins' w hw))
      fun hmax ↦ hids (by omega)).imp fun r hr ↦ ?_
    obtain ⟨hrlen, gates, hnet, hm⟩ := hr
    exact ⟨by omega, gates, hnet.mono hins' hpow, hmerges _ _ (by omega) hm⟩
  rw [dif_neg hfits]
  have hoddlen : (takeOdd aVec).length + (takeOdd bVec).length = aVec.length / 2 + bVec.length / 2 := by
    rw [length_takeOdd, length_takeOdd]
  have hevenlen : (takeEven aVec).length + (takeEven bVec).length =
      (aVec.length + 1) / 2 + (bVec.length + 1) / 2 := by
    rw [length_takeEven, length_takeEven]
  have hoddsub : ∀ w ∈ takeOdd aVec ++ takeOdd bVec, w ∈ a ++ b := fun w hw ↦
    hsub w ((List.mem_append.mp hw).imp mem_of_mem_takeOdd mem_of_mem_takeOdd)
  have hevensub : ∀ w ∈ takeEven aVec ++ takeEven bVec, w ∈ a ++ b := fun w hw ↦
    hsub w ((List.mem_append.mp hw).imp mem_of_mem_takeEven mem_of_mem_takeEven)
  obtain ⟨no, hno⟩ : ∃ no, no = aVec.length / 2 + bVec.length / 2 := ⟨_, rfl⟩
  obtain ⟨ne, hne⟩ : ∃ ne, ne = (aVec.length + 1) / 2 + (bVec.length + 1) / 2 := ⟨_, rfl⟩
  have hbound : no ^ 2 + ne ^ 2 + c ≤ n ^ 2 := by
    have hpos : 0 < no := by omega
    have hpos' : 0 < ne := by omega
    have hmul : no + ne ≤ 2 * (no * ne) := by nlinarith
    have hsq : (no + ne) ^ 2 = no ^ 2 + ne ^ 2 + 2 * (no * ne) := by ring
    have hpow : (no + ne) ^ 2 ≤ n ^ 2 := Nat.pow_le_pow_left (by omega) 2
    omega
  obtain ⟨oddSize, hoddSize⟩ : ∃ s, s = (if (c % 2 == 0) = true then c / 2 else (c - 1) / 2) :=
    ⟨_, rfl⟩
  obtain ⟨evenSize, hevenSize⟩ : ∃ s, s = (if (c % 2 == 0) = true then c / 2 + 1 else (c + 1) / 2) :=
    ⟨_, rfl⟩
  rw [← hoddSize, ← hevenSize]
  have hsizes : oddSize = c / 2 ∧ evenSize = c / 2 + 1 := by
    cases hpar : c % 2 == 0 with
    | true =>
      rw [hpar] at hoddSize hevenSize
      exact ⟨hoddSize, hevenSize⟩
    | false =>
      rw [hpar] at hoddSize hevenSize
      have hne : ¬ c % 2 = 0 := fun h ↦ by simp [h] at hpar
      simp only [Bool.false_eq_true, if_false] at hoddSize hevenSize
      omega
  obtain ⟨rfl, rfl⟩ := hsizes
  refine (ih no (by omega) (c := c / 2) h (fun w hw ↦ hins w (hoddsub w hw)) ?_
    (by omega)).bind fun r hr ↦ ?_
  · intro hmax
    rw [hoddlen, ← hno] at hmax
    exact hids (by omega)
  obtain ⟨holen, gateso, hneto, hmergeso⟩ := hr
  have hleo := hneto.nextID_le
  have hmono := hneto.segment.le
  have hevenins : ∀ w ∈ takeEven aVec ++ takeEven bVec, Old r.vm.nextID (strip w) := fun w hw ↦
    (hins w (hevensub w hw)).mono hmono
  refine (ih ne (by omega) (c := c / 2 + 1) hneto.inv hevenins ?_ (by omega)).bind fun r' hr' ↦ ?_
  · intro hmax
    rw [hevenlen, ← hne] at hmax
    exact hids (by omega)
  obtain ⟨helen, gatese, hnete, hmergese⟩ := hr'
  have hol : r.outputs.length = c / 2 := by omega
  have hel : r'.outputs.length = c / 2 + 1 := by omega
  obtain ⟨z₀, hz₀, hat₀⟩ := vecAt_of_lt r'.outputs 0 (by omega)
  rw [hat₀, ok_bind]
  have hbase : ∀ outs : List ℕ, (∀ w ∈ outs, w ∈ r.outputs ∨ w ∈ r'.outputs) →
      Network vm le ge (a ++ b) (no ^ 2 + ne ^ 2) ⟨r'.vm, outs, r.cnf ++ r'.cnf⟩
        (gateso ++ gatese) := fun outs houts ↦
    (hneto.mono hoddsub (by rw [hno])).append _ (hnete.mono (fun w hw ↦ hevensub w hw) (by rw [hne]))
      hins (fun w hw ↦ .inl hw) houts
  have hwire : ∀ w, w ∈ r.outputs ∨ w ∈ r'.outputs → Wire vm.nextID r'.vm.nextID (a ++ b) w :=
    fun w hw ↦ (hbase (r.outputs ++ r'.outputs) (by simp)).outputs w (List.mem_append.mpr hw)
  have hpair : ∀ j < c / 2, ∃ x₁ x₂, r'.outputs[j + 1]? = some x₁ ∧ r.outputs[j]? = some x₂ ∧
      (do return (← vecAt r'.outputs (j + 1), ← vecAt r.outputs j) : Result (ℕ × ℕ)) =
        .ok (x₁, x₂) := by
    intro j hj
    obtain ⟨x₁, hx₁, hat₁⟩ := vecAt_of_lt r'.outputs (j + 1) (by omega)
    obtain ⟨x₂, hx₂, hat₂⟩ := vecAt_of_lt r.outputs j (by omega)
    refine ⟨x₁, x₂, hx₁, hx₂, ?_⟩
    rw [hat₁, ok_bind, hat₂]
    rfl
  have hz₀mem : ∀ w ∈ [z₀], w ∈ r.outputs ∨ w ∈ r'.outputs := by
    intro w hw
    rw [List.mem_singleton] at hw
    rw [hw]
    exact .inr (List.mem_of_getElem? hz₀)
  have hlayerpairs : ∀ count ≤ c / 2, ∀ j < count, ∃ x₁ x₂,
      (do return (← vecAt r'.outputs (j + 1), ← vecAt r.outputs j) : Result (ℕ × ℕ)) =
        .ok (x₁, x₂) ∧ Wire vm.nextID r'.vm.nextID (a ++ b) x₁ ∧
        Wire vm.nextID r'.vm.nextID (a ++ b) x₂ := by
    intro count hcount j hj
    obtain ⟨x₁, x₂, hx₁, hx₂, hp⟩ := hpair j (by omega)
    exact ⟨x₁, x₂, hp, hwire _ (.inr (List.mem_of_getElem? hx₁)),
      hwire _ (.inl (List.mem_of_getElem? hx₂))⟩
  have hmerged : ∀ count ≤ c / 2, ∀ gates' outs,
      Layer (fun j ↦ do return (← vecAt r'.outputs (j + 1), ← vecAt r.outputs j)) [z₀] count outs
        gates' → ∀ R v, (∀ g ∈ gates', Gate.Holds R v g) → ∀ i w, outs[i]? = some w →
        Merged R v r'.outputs r.outputs i w := by
    intro count hcount gates' outs hlayer R v hv
    refine merged_of_layer hlayer hz₀ (fun j hj ↦ ?_) hv
    obtain ⟨x₁, x₂, hx₁, hx₂, hp⟩ := hpair j (by omega)
    exact ⟨x₁, x₂, hp, .inl ⟨hx₁, hx₂⟩⟩
  cases hpar : c % 2 == 0 with
  | true =>
    rw [beq_iff_eq] at hpar
    have hlast : (r'.outputs.length == c / 2 + 1) = true := by rw [beq_iff_eq, hel]
    have hlast' : (r.outputs.length == c / 2) = true := by rw [beq_iff_eq, hol]
    rw [if_pos rfl, hlast, hlast', ensure_true, ok_bind, ok_bind]
    refine (compPairs_meets hdir (hbase [z₀] hz₀mem) hins
      (hlayerpairs (c / 2 - 1) (by omega)) fun hmax ↦ hids (by omega)).bind fun r'' hr'' ↦ ?_
    obtain ⟨hmono', gates', hnet, hlayer⟩ := hr''
    dsimp only at hmono'
    have houtlen : r''.outputs.length = 1 + 2 * (c / 2 - 1) := hlayer.length
    have hle'' := hnet.nextID_le
    have hev := hnet.inv.even
    refine (getNewID_zero_meets hnet.inv fun hmax ↦ hids (by omega)).bind fun y hy ↦ ?_
    obtain ⟨y, vm₁⟩ := y
    obtain ⟨rfl, hnext, hinv⟩ := hy
    dsimp only at hnext hinv ⊢
    obtain ⟨x₁, hx₁, hback₁⟩ := vecBack_eq r'.outputs (c / 2) (by omega)
    obtain ⟨x₂, hx₂, hback₂⟩ := vecBack_eq r.outputs (c / 2 - 1) (by omega)
    rw [hback₁, ok_bind, hback₂, ok_bind, partialComp_eq hdir, ok_bind, meets_pure]
    have hw₁ := (hwire x₁ (.inr (List.mem_of_getElem? hx₁))).mono hmono'
    have hw₂ := (hwire x₂ (.inl (List.mem_of_getElem? hx₂))).mono hmono'
    have hor := Network.or le ge hnet.inv hinv hnext
      (hw₁.old hnet.segment.le hins) (hw₂.old hnet.segment.le hins)
    have happ := hnet.append (r''.outputs ++ [r''.vm.nextID]) hor hins (by simp [hw₁, hw₂])
      (fun w hw ↦ List.mem_append.mp hw)
    have hlen' : (r''.outputs ++ [r''.vm.nextID]).length = c := by
      simp
      omega
    refine ⟨by dsimp only; omega, _, happ.mono (fun w hw ↦ hw) (by omega), hmerges _ _ hlen'.le ?_⟩
    refine Merges.of_halves hmergeso hmergese (by simp) (by simp)
      (.inr ⟨by omega, by dsimp only; omega⟩) ?_
    intro R v hv i w hw
    by_cases hi : i < r''.outputs.length
    · rw [List.getElem?_append_left hi] at hw
      exact hmerged _ (by omega) gates' r''.outputs hlayer R v (fun g hg ↦ hv g (by simp [hg])) i w hw
    · rw [List.getElem?_append_right (by omega)] at hw
      obtain ⟨hi', rfl⟩ : i - r''.outputs.length = 0 ∧ r''.vm.nextID = w := by
        rw [List.getElem?_singleton] at hw
        split at hw
        · exact ⟨‹_›, Option.some_inj.mp hw⟩
        · simp at hw
      have hg : R (v x₁ || v x₂) (v r''.vm.nextID) := hv (.or x₁ x₂ _) (by simp)
      refine .larger (c / 2 - 1) x₁ x₂ (by omega) ?_ hx₂ hg
      rw [← hx₁]
      congr 1
      omega
  | false =>
    have hne : ¬ c % 2 = 0 := fun h ↦ by simp [h] at hpar
    have hlast : (r.outputs.length == (c - 1) / 2) = true := by
      rw [beq_iff_eq]
      omega
    have hlast' : (r'.outputs.length == (c + 1) / 2) = true := by
      rw [beq_iff_eq]
      omega
    rw [if_neg Bool.false_ne_true, hlast, hlast', ensure_true, ok_bind, ok_bind]
    refine (compPairs_meets hdir (hbase [z₀] hz₀mem) hins
      (hlayerpairs ((c - 1) / 2) (by omega)) fun hmax ↦ hids (by omega)).imp fun r'' hr'' ↦ ?_
    obtain ⟨hmono', gates', hnet, hlayer⟩ := hr''
    have houtlen : r''.outputs.length = 1 + 2 * ((c - 1) / 2) := hlayer.length
    refine ⟨by omega, _, hnet.mono (fun w hw ↦ hw) (by omega), hmerges _ _ (by omega) ?_⟩
    refine Merges.of_halves hmergeso hmergese (by simp) (by simp) (.inr ⟨by omega, by omega⟩) ?_
    intro R v hv
    exact hmerged _ (by omega) gates' r''.outputs hlayer R v fun g hg ↦ hv g (by simp [hg])

end PME
