import PME.IC3.Reinitiation

namespace PME.IC3

open Outcome TransitionRelation IC3Solver FrameSequence

theorem upperBound_le (s : Cube) (lit : ℕ) : upperBound s lit ≤ s.length :=
  (List.takeWhile_sublist _).length_le

/-- There are no more literals above one in a part of a cube than there are in the cube. -/
theorem length_sub_upperBound {s₁ s₂ u : Cube} {lit : ℕ} (hs : (s₁ ++ lit :: s₂).Pairwise (· < ·))
    (hu : u.Pairwise (· < ·)) (hsub : u ⊆ s₁ ++ lit :: s₂) : u.length - upperBound u lit ≤ s₂.length := by
  have hsplit := List.takeWhile_append_dropWhile (p := fun l ↦ decide (l ≤ lit)) (l := u)
  have hlen := congrArg List.length hsplit
  rw [List.length_append] at hlen
  have habove : ∀ l ∈ u.dropWhile (· ≤ lit), lit < l := by
    intro l hl
    cases hdrop : u.dropWhile (· ≤ lit) with
    | nil =>
      rw [hdrop] at hl
      exact absurd hl List.not_mem_nil
    | cons first rest =>
      have hfirst : lit < first := by
        have hno := List.head?_dropWhile_not (fun l ↦ decide (l ≤ lit)) u
        rw [hdrop] at hno
        simpa using hno
      rw [hdrop] at hl
      cases List.mem_cons.mp hl with
      | inl heq => exact heq ▸ hfirst
      | inr hmem =>
        have hsorted : (first :: rest).Pairwise (· < ·) := hdrop ▸ hu.sublist (List.dropWhile_sublist _)
        exact hfirst.trans (List.rel_of_pairwise_cons hsorted hmem)
  have hrest : u.dropWhile (· ≤ lit) ⊆ s₂ := by
    intro l hl
    have hlt := habove l hl
    obtain ⟨-, -, hlow⟩ := List.pairwise_append.mp hs
    cases List.mem_append.mp (hsub ((List.dropWhile_sublist _).subset hl)) with
    | inl hmem => exact absurd (hlow l hmem lit List.mem_cons_self) (by omega)
    | inr hmem => exact (List.mem_cons.mp hmem).resolve_left hlt.ne'
  have hle := (List.subperm_of_subset
    ((nodup_of_lt hu).sublist (List.dropWhile_sublist _)) hrest).length_le
  have hbound : upperBound u lit = (u.takeWhile fun l ↦ decide (l ≤ lit)).length := rfl
  omega

namespace Setting

variable {R : Setting} {st st' : IC3Solver} {fail : Failure → Prop} {s t c core target : Cube}
  {it k n level : ℕ} {trace : InductiveTrace}

structure Relative (R : Setting) (trace : InductiveTrace) (k : ℕ) (c : Cube) : Prop
    extends R.Apart c where
  next : ∀ x y, R.strict ∨ Via R.Start R.tr.Linked (InFrame trace (.fin k)) x →
    InFrame trace (.fin k) x → ¬ satCube x c → R.tr.Linked x y → ¬ satCube y c

theorem Relative.excludes (h : R.Relative trace k c) : R.Excludes trace (.fin (k + 1)) c := by
  refine ⟨h.nonempty, h.initiated, fun p hp ↦ ?_⟩
  obtain rfl := before_succ hp
  exact h.next

def Simple (R : Setting) (c : Cube) : Prop :=
  c.length ≤ 1 ∨ ∀ lit ∈ c, strip lit ∈ R.tr.latchIDs

theorem Simple.subset {d : Cube} (h : R.Simple c) (hd : d ⊆ c) (hnodup : d.Nodup) : R.Simple d := by
  cases h with
  | inl hlen => exact .inl ((List.subperm_of_subset hnodup hd).length_le.trans hlen)
  | inr hlatch => exact .inr fun lit hl ↦ hlatch lit (hd hl)

theorem allAskable_of_latches (h : ∀ lit ∈ c, strip lit ∈ R.tr.latchIDs) : R.AllAskable c := by
  intro d hd hne
  obtain ⟨lit, hl⟩ := List.exists_mem_of_ne_nil d hne
  exact .inl ⟨lit, hl, h lit (hd hl)⟩

structure Handled (R : Setting) (c : Cube) : Prop extends R.Apart c where
  shape : (∀ lit ∈ c, strip lit ∈ R.tr.latchIDs) ∨ c = [R.tr.bad]

theorem Handled.simple (h : R.Handled c) : R.Simple c :=
  h.shape.elim .inr fun heq ↦ .inl (by rw [heq, List.length_singleton])

theorem Handled.over (h : R.Handled c) : R.Over c := by
  cases h.shape with
  | inl hlatch => exact over_of_latches hlatch
  | inr heq => exact fun lit hl ↦ List.mem_singleton.mp (heq ▸ hl) ▸ R.bad

theorem Handled.allAskable (h : R.Handled c) : R.AllAskable c := by
  cases h.shape with
  | inl hlatch => exact allAskable_of_latches hlatch
  | inr heq =>
    intro d hd hne
    refine .inr (h.initiated.superset fun lit hl ↦ ?_)
    obtain ⟨l, hmem⟩ := List.exists_mem_of_ne_nil d hne
    have hbad := hd hmem
    rw [heq] at hl hbad
    rw [List.mem_singleton.mp hl, ← List.mem_singleton.mp hbad]
    exact hmem

theorem latch_ge (R : Setting) {lit : ℕ} (h : strip lit ∈ R.tr.latchIDs) : minId ≤ lit :=
  (FrameSolver.latch_var R.wf _ h).1.trans (strip_le lit)

theorem Handled.isTarget (h : R.Handled c) : FrameSolver.Target R.tr c := by
  cases h.shape with
  | inl hlatch =>
    exact ⟨fun lit hl ↦ visible_latch R.wf (hlatch lit hl), fun lit hl ↦
      .inr (mem_signals.mpr (.inl (List.mem_append_right _ (hlatch lit hl))))⟩
  | inr heq =>
    subst heq
    exact ⟨fun lit hl ↦ List.mem_singleton.mp hl ▸ visible_bad R.wf,
      fun lit hl ↦ List.mem_singleton.mp hl ▸ R.wf.bad_defined⟩

theorem coreQuery_goes (h : R.Good st) (hf : R.Allows fail) (hover : R.Over c)
    (hc : R.sound → c ≠ [] ∧ ∀ lit ∈ c, minId ≤ lit) (k : ℕ) :
    R.Goes (fun r st' ↦ R.Asked st st' ∧ ∀ core, r = some core → core ⊆ c ∧ (R.sound →
      core.Nodup ∧ RelInd R.tr st.trace (.fin k) c core)) fail
      (ask R.E fun B vm trace cons ↦ cons.consecutionCore B vm trace (.fin k) c) st := by
  refine goes_ask (fun r vm fs ↦ ∀ core, r = some core → ∃ crits,
    core = extractCoreWithPrimes c crits 1 ∧ FrameSolver.Queried R.E.toBackend R.tr R.first st.vars
      st.trace st.cons (.fin k) [negateVec c] (primeVec c 1) (.unsat crits) vm fs) h
    (FrameSolver.consecutionCore_meets h.cons (h.faults hf hover fun hs ↦ (hc hs).1) (.fin k))
    fun r vm fs hr hasked ↦ ⟨hasked, fun core hcore ↦ ?_⟩
  obtain ⟨crits, rfl, hq⟩ := hr core hcore
  refine ⟨fun lit hl ↦ mem_extractCore hl, fun hs ↦ ?_⟩
  have hvis : ∀ lit ∈ c, Visible R.tr lit := fun lit hl ↦ R.visible hs lit (hover lit hl)
  exact ⟨hq.nodup_core hvis, hq.relInd_core (h.readable hs) hvis (h.known hover) (hc hs).2⟩

/-- What is left after a literal is dropped follows from the frame if the literal stays dropped,
or as far as the frame can be reached. -/
theorem relative_drop {s₁ s₂ u : Cube} {lit : ℕ} (hinit : R.Initiated (s₁ ++ s₂))
    (hrel : RelInd R.tr trace (.fin k) (s₁ ++ s₂) core)
    (hcore : core ⊆ s₁ ++ s₂) (hcu : core ⊆ u) (hus : u ⊆ s₁ ++ lit :: s₂) (hu : R.Apart u)
    (hkept : R.strict → lit ∉ u) : R.Relative trace k u := by
  refine ⟨hu, fun x y hor hx hout hxy hin ↦ ?_⟩
  refine hrel x y hxy hx (fun hc ↦ ?_) (satCube_subset hcu hin)
  cases hor with
  | inl hstrict =>
    refine hout (satCube_subset (fun l hl ↦ ?_) hc)
    cases List.mem_append.mp (hus hl) with
    | inl hmem => exact List.mem_append_left _ hmem
    | inr hmem =>
      refine List.mem_append_right _ ((List.mem_cons.mp hmem).resolve_left fun heq ↦ ?_)
      exact hkept hstrict (heq ▸ hl)
  | inr hvia =>
    exact hvia.not_sat hinit (fun z w hzw hz hno ↦ hrel z w hzw hz hno)
      (fun z hz ↦ satCube_subset hcore hz) hc

theorem generalizeLoop_goes (h : R.Good st) (hf : R.Allows fail) (hover : R.Over s)
    (hs : R.sound → R.Relative st.trace k s ∧ R.Simple s ∧ it ≤ s.length ∧ s.length - it < n) :
    R.Goes (fun u st' ↦ R.Asked st st' ∧ u ⊆ s ∧ (R.sound → R.Relative st.trace k u)) fail
      (generalizeLoop R.E k n s it) st := by
  induction n generalizing st s it with
  | zero =>
    refine Journal.goes_throw (hf.unsound (fun hsound ↦ ?_) _)
    exact absurd (hs hsound).2.2.2 (Nat.not_lt_zero _)
  | succ n ih =>
    unfold generalizeLoop
    by_cases hgo : it ≠ s.length ∧ s.length > 1
    swap
    · rw [if_neg hgo]
      exact Journal.goes_pure ⟨h.asked, List.Subset.refl s, fun hsound ↦ (hs hsound).1⟩
    rw [if_pos hgo]
    dsimp only
    have hlatch : R.sound → ∀ lit ∈ s, strip lit ∈ R.tr.latchIDs := fun hsound ↦
      (hs hsound).2.1.resolve_left (Nat.not_le.mpr hgo.2)
    have herase : s.eraseIdx it ⊆ s := List.eraseIdx_subset
    have hskip : ∀ {st₂ : IC3Solver}, R.Asked st st₂ → R.Goes (fun u st' ↦ R.Asked st st' ∧ u ⊆ s ∧
        (R.sound → R.Relative st.trace k u)) fail (generalizeLoop R.E k n s (it + 1)) st₂ := by
      intro st₂ hasked
      have hrest := @ih _ _ (it + 1) hasked.good hover fun hsound ↦ ?_
      · rw [hasked.trace] at hrest
        exact hrest.imp fun u st₃ hu ↦ ⟨hasked.trans hu.1, hu.2⟩
      · obtain ⟨hrel, hsimple, hle, hlt⟩ := hs hsound
        rw [hasked.trace]
        exact ⟨hrel, hsimple, by omega, by omega⟩
    refine (initiation_goes h hf (hover.subset herase) fun hsound hne ↦
      allAskable_of_latches (hlatch hsound) _ herase hne).bind fun b st₁ hb ↦ ?_
    obtain ⟨hasked, hb⟩ := hb
    cases b with
    | false => exact hskip hasked
    | true =>
      rw [if_pos rfl]
      have hask := coreQuery_goes hasked.good hf (hover.subset herase) (fun hsound ↦
        ⟨((hb hsound).mp rfl).1, fun lit hl ↦ R.latch_ge (hlatch hsound lit (herase hl))⟩) k
      refine hask.bind fun r st₂ hr ↦ ?_
      obtain ⟨hasked', hcore⟩ := hr
      rw [hasked.trace] at hcore
      cases r with
      | none => exact hskip (hasked.trans hasked')
      | some core =>
        dsimp only
        obtain ⟨hsub, hcore⟩ := hcore core rfl
        have hsorted : sortCube core ⊆ s := fun l hl ↦ herase (hsub (subset_sortCube hl))
        refine (initiate_goes hasked'.good hf hover hsorted fun hsound ↦
          ⟨allAskable_of_latches (hlatch hsound), (hs hsound).1.toApart,
            lt_sortCube (hcore hsound).1⟩).bind fun u st₃ hu ↦ ?_
        obtain ⟨hasked'', hus, hu⟩ := hu
        have hall := (hasked.trans hasked').trans hasked''
        have hcheck : R.Goes (fun _ st' ↦ st' = st₃) fail (check (isSorted u)) st₃ :=
          goes_check hf (fun hsound ↦ isSorted_of_lt (hu hsound).2.sorted) fun _ ↦ rfl
        refine hcheck.bind fun _ st₄ heq ↦ ?_
        subst heq
        have hrecord : R.Goes (fun _ st' ↦ st' = st₄ ∧ (R.strict → s.getD it 0 ∉ u)) fail
            (record (.dropped (s.getD it 0) u)) st₄ :=
          Journal.goes_emit (fun _ ↦ hall.good.safe nofun) fun hkept ↦
            ⟨rfl, fun hstrict ↦ hkept hstrict _ _ rfl⟩
        refine hrecord.bind fun _ st₅ hst ↦ ?_
        obtain ⟨rfl, hkept⟩ := hst
        have hrest := @ih _ _ (upperBound u (s.getD it 0)) hall.good (hover.subset hus)
          fun hsound ↦ ?_
        · rw [hall.trace] at hrest
          exact hrest.imp fun v st₆ hv ↦ ⟨hall.trans hv.1, List.Subset.trans hv.2.1 hus, hv.2.2⟩
        · obtain ⟨hrel, hsimple, hle, hlt⟩ := hs hsound
          obtain ⟨hcu, hapart⟩ := hu hsound
          obtain ⟨hnodup, hind⟩ := hcore hsound
          have hinit := ((hb hsound).mp rfl).2
          have hit : it < s.length := lt_of_le_of_ne hle hgo.1
          rw [hall.trace]
          have hsplit : s = s.take it ++ s[it] :: s.drop (it + 1) := by
            rw [← List.drop_eq_getElem_cons hit, List.take_append_drop]
          have hlen : (s.take it).length = it := List.length_take_of_le hit.le
          generalize s.take it = s₁ at hsplit hlen
          generalize s.drop (it + 1) = s₂ at hsplit
          generalize s[it] = lit at hsplit
          subst hsplit
          subst hlen
          rw [eraseIdx_append_length] at hinit hind hsub
          rw [getD_append_length] at hkept ⊢
          refine ⟨relative_drop hinit hind hsub (fun l hl ↦ hcu (InductiveTrace.mem_sortCube.mpr hl)) hus
            hapart hkept, hsimple.subset hus (nodup_of_lt hapart.sorted), upperBound_le _ _, ?_⟩
          have hbound := length_sub_upperBound hrel.sorted hapart.sorted hus
          rw [List.length_append, List.length_cons] at hlt
          omega

theorem generalizeAll_goes (h : R.Good st) (hf : R.Allows fail) (hover : R.Over s)
    (hs : R.sound → R.Relative st.trace (level - 1) s ∧ R.Simple s ∧ s.length < n) :
    R.Goes (fun u st' ↦ R.Asked st st' ∧ u ⊆ s ∧ (R.sound → R.Relative st.trace (level - 1) u)) fail
      (generalizeAll R.E level n s) st := by
  induction n generalizing st s with
  | zero =>
    exact Journal.goes_throw (hf.unsound (fun hsound ↦ absurd (hs hsound).2.2 (Nat.not_lt_zero _)) _)
  | succ n ih =>
    unfold generalizeAll generalizeIteration
    refine (generalizeLoop_goes h hf hover fun hsound ↦ ?_).bind fun u st₁ hu ↦ ?_
    · obtain ⟨hrel, hsimple, -⟩ := hs hsound
      exact ⟨hrel, hsimple, Nat.zero_le _, by omega⟩
    obtain ⟨hasked, hus, hu⟩ := hu
    have hle : R.sound → u.length ≤ s.length := fun hsound ↦
      (List.subperm_of_subset (nodup_of_lt (hu hsound).sorted) hus).length_le
    have hcheck : R.Goes (fun _ st' ↦ st' = st₁) fail (check (decide (u.length ≤ s.length))) st₁ :=
      goes_check hf (fun hsound ↦ decide_eq_true (hle hsound)) fun _ ↦ rfl
    refine hcheck.bind fun _ st₂ heq ↦ ?_
    subst heq
    by_cases hsame : u.length = s.length
    · rw [if_pos hsame]
      exact Journal.goes_pure ⟨hasked, hus, hu⟩
    · rw [if_neg hsame]
      have hrest := ih hasked.good (hover.subset hus) fun hsound ↦ ?_
      · rw [hasked.trace] at hrest
        exact hrest.imp fun v st₃ hv ↦ ⟨hasked.trans hv.1, List.Subset.trans hv.2.1 hus, hv.2.2⟩
      · obtain ⟨-, hsimple, hlt⟩ := hs hsound
        rw [hasked.trace]
        have hle' := hle hsound
        exact ⟨hu hsound, hsimple.subset hus (nodup_of_lt (hu hsound).sorted), by omega⟩

theorem generalize_goes (h : R.Good st) (hf : R.Allows fail) (hover : R.Over s) (hlevel : 0 < level)
    (hs : R.sound → R.Relative st.trace (level - 1) s ∧ R.Simple s) :
    R.Goes (fun u st' ↦ R.Asked st st' ∧ u ⊆ s ∧ (R.sound → R.Relative st.trace (level - 1) u)) fail
      (generalize R.E s level) st := by
  unfold generalize
  have hcheck : R.Goes (fun _ st' ↦ st' = st) fail (check (decide (level > 0))) st :=
    goes_check hf (fun _ ↦ decide_eq_true hlevel) fun _ ↦ rfl
  refine hcheck.bind fun _ st₁ heq ↦ ?_
  subst heq
  refine (generalizeAll_goes h hf (hover.subset subset_sortCube) fun hsound ↦ ?_).imp fun u st₂ hu ↦
    ⟨hu.1, List.Subset.trans hu.2.1 subset_sortCube, hu.2.2⟩
  obtain ⟨hrel, hsimple⟩ := hs hsound
  rw [sortCube_of_lt hrel.sorted]
  exact ⟨hrel, hsimple, Nat.lt_succ_self _⟩

end Setting

end PME.IC3
