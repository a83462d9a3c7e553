import PME.Lib.Greedy
import PME.IC3.SolverInvariant

namespace PME.IC3

open Outcome TransitionRelation IC3Solver

section Lists

variable {a b s t : Cube} {i j n lit : ℕ}

theorem sorted_of_lt (h : s.Pairwise (· < ·)) : s.Pairwise (· ≤ ·) := h.imp fun hlt ↦ hlt.le

theorem nodup_of_lt (h : s.Pairwise (· < ·)) : s.Nodup := h.imp fun hlt ↦ hlt.ne

theorem isSorted_of_lt (h : s.Pairwise (· < ·)) : isSorted s = true :=
  decide_eq_true (sorted_of_lt h)

theorem sortCube_of_lt (h : s.Pairwise (· < ·)) : sortCube s = s :=
  InductiveTrace.sortCube_of_sorted (sorted_of_lt h)

theorem lt_sortCube (h : s.Nodup) : (sortCube s).Pairwise (· < ·) := by
  have hperm : (sortCube s).Nodup := (List.perm_insertionSort (· ≤ ·) s).nodup_iff.mpr h
  exact (InductiveTrace.sorted_sortCube s).imp₂ (fun _ _ hle hne ↦ lt_of_le_of_ne hle hne) hperm

theorem subset_sortCube : sortCube s ⊆ s := fun _ hl ↦ InductiveTrace.mem_sortCube.mp hl

/-- Where the part above a literal starts, when everything before is at most the literal. -/
theorem upperBound_append (ha : ∀ l ∈ a, l ≤ lit) (hb : ∀ l ∈ b, lit < l) :
    upperBound (a ++ b) lit = a.length := by
  have hnone : b.takeWhile (· ≤ lit) = [] := by
    cases b with
    | nil => rfl
    | cons l b => exact List.takeWhile_cons_of_neg (by simpa using hb l List.mem_cons_self)
  rw [upperBound, List.takeWhile_append_of_pos (by simpa using ha), hnone, List.append_nil]

theorem getD_append_length (a : Cube) (l : ℕ) (b : Cube) : (a ++ l :: b).getD a.length 0 = l := by
  rw [List.getD_append_right _ _ _ _ le_rfl, Nat.sub_self]
  rfl

theorem eraseIdx_append_length (a : Cube) (l : ℕ) (b : Cube) :
    (a ++ l :: b).eraseIdx a.length = a ++ b := by
  rw [List.eraseIdx_append_of_length_le le_rfl, Nat.sub_self]
  rfl

theorem agree_append (s₁ t₁ : Cube) : agree (s₁ ++ a) (t₁ ++ b) s₁.length t₁.length = agree a b 0 0 := by
  rw [agree, List.drop_left, List.drop_left]
  rfl

theorem exists_agree (a b : Cube) : ∃ common a' b', a = common ++ a' ∧ b = common ++ b' ∧
    common.length = agree a b 0 0 ∧ ∀ l a'' l' b'', a' = l :: a'' → b' = l' :: b'' → l ≠ l' := by
  induction a generalizing b with
  | nil => exact ⟨[], [], b, rfl, rfl, rfl, fun _ _ _ _ hl ↦ nomatch hl⟩
  | cons l a ih =>
    cases b with
    | nil => exact ⟨[], l :: a, [], rfl, rfl, rfl, fun _ _ _ _ _ hl ↦ nomatch hl⟩
    | cons l' b =>
      by_cases heq : l = l'
      · subst heq
        obtain ⟨common, a', b', ha, hb, hlen, hne⟩ := ih b
        refine ⟨l :: common, a', b', congrArg _ ha, congrArg _ hb, ?_, hne⟩
        have hmore : agree (l :: a) (l :: b) 0 0 = agree a b 0 0 + 1 := by
          simp [agree]
        rw [List.length_cons, hlen, hmore]
      · refine ⟨[], l :: a, l' :: b, rfl, rfl, by simp [agree, heq], ?_⟩
        intro k a'' k' b'' hk hk'
        rw [← (List.cons.inj hk).1, ← (List.cons.inj hk').1]
        exact heq

/-- The loop of `reinitiate` merges the cube it starts from with the core, and has come to these
places of both. -/
structure Merging (s t : Cube) (i j n : ℕ) : Prop where
  sorted_s : s.Pairwise (· < ·)
  sorted_t : t.Pairwise (· < ·)
  split : ∃ s₁ a t₁ b, s = s₁ ++ a ∧ t = t₁ ++ b ∧ s₁.length = i ∧ t₁.length = j ∧ s₁ ⊆ t₁ ∧
    a ⊆ b ∧ b.length < n

theorem Merging.subset (h : Merging s t i j n) : s ⊆ t := by
  obtain ⟨s₁, a, t₁, b, rfl, rfl, -, -, hdone, hleft, -⟩ := h.split
  intro l hl
  cases List.mem_append.mp hl with
  | inl hmem => exact List.mem_append_left _ (hdone hmem)
  | inr hmem => exact List.mem_append_right _ (hleft hmem)

theorem Merging.pos (h : Merging s t i j n) : 0 < n := by
  obtain ⟨-, -, -, b, -, -, -, -, -, -, hlt⟩ := h.split
  omega

theorem Merging.check (h : Merging s t i j n) (hj : j ≠ t.length) :
    i = s.length ∨ t.getD j 0 ≤ s.getD i 0 := by
  obtain ⟨s₁, a, t₁, b, rfl, rfl, rfl, rfl, -, hleft, -⟩ := h.split
  cases a with
  | nil => exact .inl (by rw [List.append_nil])
  | cons l a =>
    cases b with
    | nil => exact absurd (by rw [List.append_nil]) hj
    | cons l' b =>
      rw [getD_append_length, getD_append_length]
      have hsorted := (List.pairwise_append.mp h.sorted_t).2.1
      cases List.mem_cons.mp (hleft List.mem_cons_self) with
      | inl heq => exact .inr heq.ge
      | inr hmem => exact .inr (List.rel_of_pairwise_cons hsorted hmem).le

/-- After what they have in common comes a literal that the core does not have, and the core is
not behind. -/
theorem Merging.exists_next (h : Merging s t i j (n + 1)) (hj : j + agree s t i j ≠ t.length) :
    ∃ s₁ a t₁ common lit b, s = s₁ ++ a ∧ t = t₁ ++ common ++ lit :: b ∧
      s₁.length = i + agree s t i j ∧ t₁.length = j ∧ common.length = agree s t i j ∧
      s₁ ⊆ t₁ ++ common ∧ common ⊆ s ∧ a ⊆ b ∧ lit ∉ s ∧ b.length < n ∧
      (∀ l ∈ t₁ ++ common, l < lit) ∧ ∀ l ∈ b, lit < l := by
  obtain ⟨s₁, a, t₁, b, rfl, rfl, rfl, rfl, hdone, hleft, hlt⟩ := h.split
  obtain ⟨common, a', b', rfl, rfl, hlen, hne⟩ := exists_agree a b
  rw [agree_append, ← hlen] at hj ⊢
  have hs := h.sorted_s
  have ht := h.sorted_t
  rw [← List.append_assoc] at hs ht hj
  cases b' with
  | nil => exact absurd (by rw [List.append_nil, List.length_append]) hj
  | cons lit b'' =>
    obtain ⟨-, hs', hsd⟩ := List.pairwise_append.mp hs
    obtain ⟨-, ht', htd⟩ := List.pairwise_append.mp ht
    have hlow : ∀ l ∈ t₁ ++ common, l < lit := fun l hl ↦ htd l hl lit List.mem_cons_self
    have hhigh : ∀ l ∈ b'', lit < l := fun l hl ↦ List.rel_of_pairwise_cons ht' hl
    have hdone' : s₁ ++ common ⊆ t₁ ++ common := List.append_subset.mpr
      ⟨fun l hl ↦ List.mem_append_left _ (hdone hl), List.subset_append_right _ _⟩
    have hleft' : a' ⊆ lit :: b'' := by
      intro l hl
      cases List.mem_append.mp (hleft (List.mem_append_right _ hl)) with
      | inl hmem => exact absurd (hsd l (List.mem_append_right _ hmem) l hl) (lt_irrefl l)
      | inr hmem => exact hmem
    have hnot : lit ∉ a' := by
      intro hmem
      cases a' with
      | nil => exact List.not_mem_nil hmem
      | cons l a'' =>
        have hll := hne l a'' lit b'' rfl rfl
        have hlt₁ := List.rel_of_pairwise_cons hs' ((List.mem_cons.mp hmem).resolve_left (Ne.symm hll))
        have hlt₂ := hhigh l ((List.mem_cons.mp (hleft' List.mem_cons_self)).resolve_left hll)
        omega
    refine ⟨s₁ ++ common, a', t₁, common, lit, b'', (List.append_assoc _ _ _).symm,
      (List.append_assoc _ _ _).symm, List.length_append, rfl, rfl, hdone', fun l hl ↦ ?_, ?_, ?_, ?_,
      hlow, hhigh⟩
    · exact List.mem_append_right _ (List.mem_append_left _ hl)
    · exact fun l hl ↦ (List.mem_cons.mp (hleft' hl)).resolve_left fun heq ↦ hnot (heq ▸ hl)
    · intro hmem
      rw [← List.append_assoc] at hmem
      cases List.mem_append.mp hmem with
      | inl hin => exact absurd (hlow lit (hdone' hin)) (lt_irrefl lit)
      | inr hin => exact hnot hin
    · rw [List.length_append, List.length_cons] at hlt
      omega

theorem Merging.next (h : Merging s t i j (n + 1)) (hj : j + agree s t i j ≠ t.length) :
    Merging s (t.eraseIdx (j + agree s t i j)) (i + agree s t i j)
      (upperBound (t.eraseIdx (j + agree s t i j)) (t.getD (j + agree s t i j) 0)) n ∧
    Merging s t (i + agree s t i j) (j + agree s t i j + 1) n := by
  obtain ⟨s₁, a, t₁, common, lit, b, hseq, hteq, hi, hj₁, hk, hdone, -, hleft, -, hlt, hlow, hhigh⟩ :=
    h.exists_next hj
  have hlen : (t₁ ++ common).length = j + agree s t i j := by
    rw [List.length_append, hj₁, hk]
  have hs := h.sorted_s
  have ht := h.sorted_t
  rw [← hlen, ← hi]
  rw [hteq] at ht ⊢
  obtain ⟨ht₁, ht', htd⟩ := List.pairwise_append.mp ht
  rw [getD_append_length, eraseIdx_append_length,
    upperBound_append (fun l hl ↦ (hlow l hl).le) hhigh]
  refine ⟨⟨hs, ?_, s₁, a, _, b, hseq, rfl, rfl, rfl, hdone, hleft, hlt⟩,
    ⟨hs, ht, s₁, a, t₁ ++ common ++ [lit], b, hseq, ?_, rfl, ?_, ?_, hleft, hlt⟩⟩
  · refine List.pairwise_append.mpr ⟨ht₁, ht'.of_cons, fun l hl l' hl' ↦ ?_⟩
    exact htd l hl l' (List.mem_cons_of_mem _ hl')
  · simp only [List.append_assoc, List.singleton_append]
  · rw [List.length_append, List.length_singleton]
  · exact fun l hl ↦ List.mem_append_left _ (hdone hl)

theorem Merging.dropEach_next {p : Cube → Prop} (h : Merging s t i j (n + 1))
    (hj : j + agree s t i j ≠ t.length) :
    (p (t.eraseIdx (j + agree s t i j)) → dropEach p s (t.drop j) t =
      dropEach p s ((t.eraseIdx (j + agree s t i j)).drop
        (upperBound (t.eraseIdx (j + agree s t i j)) (t.getD (j + agree s t i j) 0)))
        (t.eraseIdx (j + agree s t i j))) ∧
    (¬ p (t.eraseIdx (j + agree s t i j)) → dropEach p s (t.drop j) t =
      dropEach p s (t.drop (j + agree s t i j + 1)) t) := by
  obtain ⟨s₁, a, t₁, common, lit, b, -, hteq, -, hj₁, hk, -, hcommon, -, hlit, -, hlow, hhigh⟩ :=
    h.exists_next hj
  have hlen : (t₁ ++ common).length = j + agree s t i j := by
    rw [List.length_append, hj₁, hk]
  have hleft : t.drop j = common ++ lit :: b := by
    rw [hteq, List.append_assoc, ← hj₁, List.drop_left]
  have hnext : t.drop (j + agree s t i j + 1) = b := by
    rw [← hlen, hteq, ← List.drop_drop, List.drop_left]
    rfl
  have herase : t.erase lit = t₁ ++ common ++ b := by
    rw [hteq, List.erase_append_right _ fun hmem ↦ lt_irrefl lit (hlow lit hmem),
      List.erase_cons_head]
  have hidx : t.eraseIdx (j + agree s t i j) = t₁ ++ common ++ b := by
    rw [← hlen, hteq, eraseIdx_append_length]
  have hget : t.getD (j + agree s t i j) 0 = lit := by
    rw [← hlen, hteq, getD_append_length]
  rw [hidx, hget, hleft, dropEach_append, dropEach_of_subset hcommon,
    upperBound_append (fun l hl ↦ (hlow l hl).le) hhigh, List.drop_left, hnext, ← herase]
  exact ⟨fun hp ↦ dropEach_dropped hlit hp, fun hp ↦ dropEach_kept hp⟩

theorem Merging.drop_subset (h : Merging s t i j n) (hj : j + agree s t i j = t.length) :
    t.drop j ⊆ s := by
  obtain ⟨s₁, a, t₁, b, rfl, rfl, rfl, rfl, -, -, -⟩ := h.split
  obtain ⟨common, a', b', rfl, rfl, hlen, -⟩ := exists_agree a b
  rw [agree_append, ← hlen, List.length_append, List.length_append] at hj
  obtain rfl : b' = [] := List.length_eq_zero_iff.mp (by omega)
  rw [List.drop_left, List.append_nil]
  exact fun l hl ↦ List.mem_append_right _ (List.mem_append_left _ hl)

theorem Merging.stays (h : Merging s t i j n) :
    ¬ (i ≠ s.length ∧ j ≠ t.length ∧ s.getD i 0 < t.getD j 0) := by
  intro hno
  cases h.check hno.2.1 with
  | inl heq => exact hno.1 heq
  | inr hle => exact absurd hno.2.2 (Nat.not_lt.mpr hle)

theorem merging_start {core : Cube} (hs : s.Pairwise (· < ·)) (hc : core.Pairwise (· < ·))
    (hsub : core ⊆ s) : Merging core s 0 0 (s.length + 1) :=
  ⟨hc, hs, [], core, [], s, rfl, rfl, rfl, rfl, List.Subset.refl _, hsub, Nat.lt_succ_self _⟩

end Lists

namespace Setting

variable {R : Setting} {st st' : IC3Solver} {fail : Failure → Prop} {s t c core orig : Cube}
  {i j n : ℕ}

def AllAskable (R : Setting) (c : Cube) : Prop := ∀ d ⊆ c, d ≠ [] → R.Askable d

theorem AllAskable.subset (h : R.AllAskable c) {d : Cube} (hd : d ⊆ c) : R.AllAskable d :=
  fun e he hne ↦ h e (List.Subset.trans he hd) hne

structure Apart (R : Setting) (c : Cube) : Prop where
  sorted : c.Pairwise (· < ·)
  nonempty : c ≠ []
  initiated : R.Initiated c

theorem reinitiateLoop_goes (h : R.Good st) (hf : R.Allows fail) (hover : R.Over t)
    (hm : R.sound → Merging s t i j n ∧ R.AllAskable t ∧ R.Apart t) :
    R.Goes (fun u st' ↦ R.Asked st st' ∧ u ⊆ t ∧ (R.sound → s ⊆ u ∧ R.Apart u)) fail
      (reinitiateLoop R.E s n t i j) st := by
  induction n generalizing st t i j with
  | zero =>
    exact Journal.goes_throw (hf.unsound (fun hs ↦ absurd (hm hs).1.pos (Nat.lt_irrefl 0)) _)
  | succ n ih =>
    unfold reinitiateLoop
    have hdone : R.Goes (fun u st' ↦ R.Asked st st' ∧ u ⊆ t ∧ (R.sound → s ⊆ u ∧ R.Apart u)) fail
        (pure t) st :=
      Journal.goes_pure ⟨h.asked, List.Subset.refl t, fun hs ↦ ⟨(hm hs).1.subset, (hm hs).2.2⟩⟩
    by_cases hj : j = t.length
    · rw [if_pos hj]
      exact hdone
    rw [if_neg hj]
    have hcheck : R.Goes (fun _ st' ↦ st' = st) fail
        (check (decide (i = s.length ∨ t.getD j 0 ≤ s.getD i 0))) st :=
      goes_check hf (fun hs ↦ decide_eq_true ((hm hs).1.check hj)) fun _ ↦ rfl
    refine hcheck.bind fun _ st₁ heq ↦ ?_
    subst heq
    dsimp only
    by_cases hj' : j + agree s t i j = t.length
    · rw [if_pos hj']
      exact hdone
    rw [if_neg hj']
    have herase : t.eraseIdx (j + agree s t i j) ⊆ t := List.eraseIdx_subset
    -- either the literal is dropped or the place moves on
    have hpass : R.Goes (fun (r : Cube × ℕ) st' ↦ R.Asked st₁ st' ∧ r.1 ⊆ t ∧ (R.sound →
        Merging s r.1 (i + agree s t i j) r.2 n ∧ R.Apart r.1)) fail (do
        if ← IC3Solver.initiation R.E (t.eraseIdx (j + agree s t i j)) then
          return (t.eraseIdx (j + agree s t i j),
            upperBound (t.eraseIdx (j + agree s t i j)) (t.getD (j + agree s t i j) 0))
        else return (t, j + agree s t i j + 1)) st₁ := by
      refine (initiation_goes h hf (hover.subset herase)
        fun hs hne ↦ (hm hs).2.1 _ herase hne).bind fun b st₂ hb ↦ ?_
      obtain ⟨hasked, hb⟩ := hb
      cases b with
      | true =>
        refine Journal.goes_pure ⟨hasked, herase, fun hs ↦ ?_⟩
        have hnext := ((hm hs).1.next hj').1
        obtain ⟨hne, hinit⟩ := (hb hs).mp rfl
        exact ⟨hnext, hnext.sorted_t, hne, hinit⟩
      | false =>
        exact Journal.goes_pure ⟨hasked, List.Subset.refl t, fun hs ↦
          ⟨((hm hs).1.next hj').2, (hm hs).2.2⟩⟩
    refine hpass.bind fun r st₂ hr ↦ ?_
    obtain ⟨t', j'⟩ := r
    obtain ⟨hasked, hsub, hmerge⟩ := hr
    refine (ih hasked.good (hover.subset hsub) fun hs ↦ ?_).imp fun u st₃ hu ↦
      ⟨hasked.trans hu.1, List.Subset.trans hu.2.1 hsub, hu.2.2⟩
    obtain ⟨hmerging, hapart⟩ := hmerge hs
    rw [if_neg hmerging.stays]
    exact ⟨hmerging, (hm hs).2.1.subset hsub, hapart⟩

/-- A core that is not itself apart from the initial states has fewer literals. -/
theorem length_lt_of_not_initiated (hc : core.Pairwise (· < ·))
    (hsub : core ⊆ orig) (ho : R.Apart orig) (hno : ¬ (core ≠ [] ∧ R.Initiated core)) :
    core.length < orig.length := by
  have hle := (List.subperm_of_subset (nodup_of_lt hc) hsub).length_le
  refine lt_of_le_of_ne hle fun heq ↦ hno ?_
  have hperm := (List.subperm_of_subset (nodup_of_lt hc) hsub).perm_of_length_le heq.ge
  refine ⟨fun hnil ↦ ho.nonempty ?_, ho.initiated.superset hperm.symm.subset⟩
  subst hnil
  exact hperm.nil_eq.symm

theorem reinitiate_goes (h : R.Good st) (hf : R.Allows fail) (hover : R.Over orig)
    (ho : R.sound → R.AllAskable orig ∧ R.Apart orig ∧ core.Pairwise (· < ·) ∧ core ⊆ orig ∧
      ¬ (core ≠ [] ∧ R.Initiated core)) :
    R.Goes (fun u st' ↦ R.Asked st st' ∧ u ⊆ orig ∧ (R.sound → core ⊆ u ∧ R.Apart u)) fail
      (reinitiate R.E core orig) st := by
  unfold reinitiate
  have hpre : ∀ {b : Bool} {st : IC3Solver}, (R.sound → b = true) →
      R.Goes (fun _ st' ↦ st' = st) fail (check b) st := fun hb ↦ goes_check hf hb fun _ ↦ rfl
  refine (hpre fun hs ↦ ?_).bind fun _ st₁ heq ↦ ?_
  · obtain ⟨-, hapart, hc, hsub, hno⟩ := ho hs
    exact decide_eq_true (length_lt_of_not_initiated hc hsub hapart hno)
  subst heq
  refine (hpre fun hs ↦ isSorted_of_lt (ho hs).2.2.1).bind fun _ st₂ heq ↦ ?_
  subst heq
  refine (hpre fun hs ↦ isSorted_of_lt (ho hs).2.1.sorted).bind fun _ st₃ heq ↦ ?_
  subst heq
  refine (initiation_goes h hf hover fun hs hne ↦
    (ho hs).1 orig (List.Subset.refl _) hne).bind fun b st₄ hb ↦ ?_
  refine (hpre fun hs ↦ (hb.2 hs).mpr ⟨(ho hs).2.1.nonempty, (ho hs).2.1.initiated⟩).bind
    fun _ st₅ heq ↦ ?_
  subst heq
  refine (reinitiateLoop_goes hb.1.good hf hover fun hs ↦ ?_).bind fun u st₆ hu ↦ ?_
  · obtain ⟨hask, hapart, hc, hsub, -⟩ := ho hs
    exact ⟨merging_start hapart.sorted hc hsub, hask, hapart⟩
  obtain ⟨hasked, hsub, hu⟩ := hu
  refine (initiation_goes hasked.good hf (hover.subset hsub) fun hs hne ↦
    (ho hs).1 u hsub hne).bind fun b' st₇ hb' ↦ ?_
  refine (hpre fun hs ↦ (hb'.2 hs).mpr ⟨(hu hs).2.nonempty, (hu hs).2.initiated⟩).bind
    fun _ st₈ heq ↦ ?_
  subst heq
  exact Journal.goes_pure ⟨(hb.1.trans hasked).trans hb'.1, hsub, hu⟩

/-- The core, with literals of the cube it comes from put back as far as the initial states
demand it. -/
theorem initiate_goes (h : R.Good st) (hf : R.Allows fail) (hover : R.Over orig)
    (hsub : core ⊆ orig)
    (ho : R.sound → R.AllAskable orig ∧ R.Apart orig ∧ core.Pairwise (· < ·)) :
    R.Goes (fun u st' ↦ R.Asked st st' ∧ u ⊆ orig ∧ (R.sound → core ⊆ u ∧ R.Apart u)) fail
      (initiate R.E core orig) st := by
  unfold initiate
  have hpre : ∀ {b : Bool} {st : IC3Solver}, (R.sound → b = true) →
      R.Goes (fun _ st' ↦ st' = st) fail (check b) st := fun hb ↦ goes_check hf hb fun _ ↦ rfl
  refine (hpre fun hs ↦ isSorted_of_lt (ho hs).2.2).bind fun _ st₁ heq ↦ ?_
  subst heq
  have hchoice : R.Goes (fun u st' ↦ R.Asked st₁ st' ∧ u ⊆ orig ∧
      (R.sound → core ⊆ u ∧ R.Apart u)) fail (do
      if ← IC3Solver.initiation R.E core then return core else reinitiate R.E core orig) st₁ := by
    refine (initiation_goes h hf (hover.subset hsub) fun hs hne ↦
      (ho hs).1 core hsub hne).bind fun b st₂ hb ↦ ?_
    obtain ⟨hasked, hb⟩ := hb
    cases b with
    | true =>
      refine Journal.goes_pure ⟨hasked, hsub, fun hs ↦ ⟨List.Subset.refl _, ?_⟩⟩
      obtain ⟨hne, hinit⟩ := (hb hs).mp rfl
      exact ⟨(ho hs).2.2, hne, hinit⟩
    | false =>
      refine (reinitiate_goes hasked.good hf hover fun hs ↦ ?_).imp fun u st₃ hu ↦
        ⟨hasked.trans hu.1, hu.2⟩
      obtain ⟨hask, hapart, hc⟩ := ho hs
      exact ⟨hask, hapart, hc, hsub, fun hboth ↦ nomatch (hb hs).mpr hboth⟩
  refine hchoice.bind fun u st₂ hu ↦ ?_
  obtain ⟨hasked, husub, hu⟩ := hu
  refine (initiation_goes hasked.good hf (hover.subset husub) fun hs hne ↦
    (ho hs).1 u husub hne).bind fun b st₃ hb ↦ ?_
  refine (hpre fun hs ↦ (hb.2 hs).mpr ⟨(hu hs).2.nonempty, (hu hs).2.initiated⟩).bind
    fun _ st₄ heq ↦ ?_
  subst heq
  exact Journal.goes_pure ⟨hasked.trans hb.1, husub, hu⟩

end Setting

end PME.IC3
