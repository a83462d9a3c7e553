import PME.Lib.Ascent
import PME.IC3.LemmaMoves

namespace PME.IC3

open Outcome TransitionRelation InductiveTrace IC3Solver FrameSequence Ascent

def learnable (tr : TransitionRelation) : Finset Cube :=
  insert [tr.bad] <|
    (tr.latchIDs ++ tr.latchIDs.map negate).toFinset.powerset.image fun lits ↦ lits.sort

def searchBound (tr : TransitionRelation) (top : ℕ) : ℕ :=
  rank top ((learnable tr).card * (top + 1)) 1 none + 1

theorem searchBound_mono {tr : TransitionRelation} {top top' : ℕ} (h : top ≤ top') :
    searchBound tr top ≤ searchBound tr top' := by
  have hmul : (learnable tr).card * (top + 1) * (2 * top + 2) ≤
      (learnable tr).card * (top' + 1) * (2 * top' + 2) := by gcongr
  simp only [searchBound, rank]
  omega

def IC3Solver.fuelBound (st : IC3Solver) : ℕ :=
  searchBound st.tr ((learnable st.tr).card + st.trace.lemmas.length + 1)

namespace Setting

variable {R : Setting} {trace trace' trace'' : InductiveTrace} {c target : Cube} {i n top level : ℕ}
  {obl : ProofObligation} {obls obls' : List ProofObligation} {q q' : List ℕ} {next : Option ℕ}

theorem mem_latchLits {lit : ℕ} (h : strip lit ∈ R.tr.latchIDs) :
    lit ∈ R.tr.latchIDs ++ R.tr.latchIDs.map negate := by
  unfold strip at h
  split at h
  · exact List.mem_append_right _ (List.mem_map.mpr ⟨_, h, negate_negate lit⟩)
  · exact List.mem_append_left _ h

theorem mem_learnable (hsorted : c.Pairwise (· < ·)) (hlatch : ∀ lit ∈ c, strip lit ∈ R.tr.latchIDs) :
    c ∈ learnable R.tr := by
  refine Finset.mem_insert_of_mem (Finset.mem_image.mpr ⟨c.toFinset, ?_, ?_⟩)
  · refine Finset.mem_powerset.mpr fun lit hl ↦ List.mem_toFinset.mpr ?_
    exact mem_latchLits (hlatch lit (List.mem_toFinset.mp hl))
  · exact (List.toFinset_sort (· ≤ ·) (nodup_of_lt hsorted)).mpr (hsorted.imp Nat.le_of_lt)

theorem Handled.learnable (h : R.Handled target) (hsub : c ⊆ target) (hsorted : c.Pairwise (· < ·))
    (hne : c ≠ []) : c ∈ learnable R.tr := by
  cases h.shape with
  | inl hlatch => exact mem_learnable hsorted fun lit hl ↦ hlatch lit (hsub hl)
  | inr heq =>
    subst heq
    have hperm := List.subperm_of_subset (nodup_of_lt hsorted) hsub
    cases List.subperm_singleton_iff.mp hperm with
    | inl hnil => exact absurd hnil hne
    | inr hself => exact hself ▸ Finset.mem_insert_self _ _

def Grown (R : Setting) (trace trace' : InductiveTrace) : Prop :=
  ∀ c m, trace'.At c m → (∃ m', trace.At c m') ∨ c ∈ learnable R.tr

theorem Grown.refl (trace : InductiveTrace) : R.Grown trace trace := fun _ m hat ↦ .inl ⟨m, hat⟩

theorem Grown.trans (h : R.Grown trace trace') (h' : R.Grown trace' trace'') : R.Grown trace trace'' := by
  intro c m hat
  cases h' c m hat with
  | inl hex =>
    obtain ⟨m', hat'⟩ := hex
    exact h c m' hat'
  | inr hnew => exact .inr hnew

def Held (trace : InductiveTrace) (c : Cube) (k : ℕ) : Prop := ∃ m, trace.At c m ∧ .fin k ≤ m

def Uncovered (trace : InductiveTrace) (obl : ProofObligation) : Prop :=
  ¬ ∃ c m, trace.At c m ∧ .fin obl.level ≤ m ∧ covers c obl.cti = true

def Awaited (trace : InductiveTrace) (obls : List ProofObligation) (q : List ℕ) (next : Option ℕ) : Prop :=
  ∀ level ∈ next, ∃ i ∈ q, ∃ obl, obls[i]? = some obl ∧ obl.level = level ∧ Uncovered trace obl ∧
    ∀ j ∈ q, j ≠ i → ∀ o, obls[j]? = some o → level < o.level

def Lowest (obls : List ProofObligation) (q : List ℕ) (obl : ProofObligation) : Prop :=
  ∀ j ∈ q, ∀ o, obls[j]? = some o → obl.level ≤ o.level

structure Budget (R : Setting) (top : ℕ) (trace : InductiveTrace) (obls : List ProofObligation)
    (q : List ℕ) (n : ℕ) : Prop where
  le : ∀ i ∈ q, ∀ o, obls[i]? = some o → o.level ≤ top
  enough : ∃ next, Awaited trace obls q next ∧
    rank top (missing (learnable R.tr) top (Held trace)).card q.length next < n

theorem Awaited.eq (h : Awaited trace obls q next) (hi : i ∈ q) (hget : obls[i]? = some obl)
    (hlow : Lowest obls q obl) : ∀ level ∈ next, level = obl.level ∧ Uncovered trace obl := by
  intro level hlevel
  obtain ⟨j, hj, o, ho, rfl, hopen, habove⟩ := h level hlevel
  by_cases hji : i = j
  · subst hji
    cases hget.symm.trans ho
    exact ⟨rfl, hopen⟩
  · exact absurd (hlow j hj o ho) (Nat.not_le_of_lt (habove i hi hji obl hget))

theorem Budget.not_zero (h : R.Budget top trace obls q 0) : False := by
  obtain ⟨next, -, hlt⟩ := h.enough
  exact Nat.not_lt_zero _ hlt

theorem Budget.covered (h : R.Budget top trace obls q (n + 1)) (hi : i ∈ q) (hget : obls[i]? = some obl)
    (hlow : Lowest obls q obl) (hno : ¬ Uncovered trace obl) : R.Budget top trace obls (q.erase i) n := by
  obtain ⟨next, hnext, hlt⟩ := h.enough
  refine ⟨fun j hj ↦ h.le j (List.mem_of_mem_erase hj), none, fun _ hnone ↦ ?_, ?_⟩
  · exact absurd hnone (Option.not_mem_none _)
  have heq := hnext.eq hi hget hlow
  obtain rfl : next = none := Option.eq_none_iff_forall_not_mem.mpr fun level hlevel ↦
    hno (heq level hlevel).2
  have hlen : (q.erase i).length < q.length := by
    rw [List.length_erase_of_mem hi]
    exact Nat.sub_lt (List.length_pos_of_mem hi) Nat.one_pos
  have hdone : rank top (missing (learnable R.tr) top (Held trace)).card (q.erase i).length none < _ :=
    rank_done hlen
  omega

theorem Budget.learnt (h : R.Budget top trace obls q (n + 1)) (hlen : q'.length ≤ q.length)
    (hle : ∀ i ∈ q', ∀ o, obls'[i]? = some o → o.level ≤ top) (hc : c ∈ learnable R.tr)
    (hup : ∀ d m, trace.At d m → ∃ m', trace'.At d m' ∧ m ≤ m') (hlevel : level ≤ top)
    (hheld : Held trace' c level) (hnew : ¬ Held trace c level) : R.Budget top trace' obls' q' n := by
  obtain ⟨next, -, hlt⟩ := h.enough
  refine ⟨hle, none, fun _ hnone ↦ absurd hnone (Option.not_mem_none _), ?_⟩
  have hmono : ∀ d k, Held trace d k → Held trace' d k := by
    intro d k hd
    obtain ⟨m, hat, hkm⟩ := hd
    obtain ⟨m', hat', hmm'⟩ := hup d m hat
    exact ⟨m', hat', hkm.trans hmm'⟩
  have hreached : _ < rank top (missing (learnable R.tr) top (Held trace)).card q.length next :=
    rank_reached (card_missing_lt hmono hc hlevel hheld hnew) hlen
  omega

theorem Budget.below (h : R.Budget top trace obls q (n + 1)) (hi : i ∈ q) (hget : obls[i]? = some obl)
    (hlow : Lowest obls q obl) (hpos : 0 < obl.level) {j : ℕ} {pred : ProofObligation}
    (hlevel : pred.level = obl.level - 1) (hopen : Uncovered trace pred)
    (hpred : obls'[j]? = some pred) (hlen : q'.length = q.length + 1) (hj : j ∈ q')
    (hrest : ∀ k ∈ q', k ≠ j → ∀ o, obls'[k]? = some o → ∃ k' ∈ q, ∃ o', obls[k']? = some o' ∧
      o.level = o'.level) : R.Budget top trace obls' q' n := by
  obtain ⟨next, hnext, hlt⟩ := h.enough
  have htop := h.le i hi obl hget
  refine ⟨fun k hk o ho ↦ ?_, some (obl.level - 1), fun level heq ↦ ?_, ?_⟩
  · by_cases hkj : k = j
    · subst hkj
      cases hpred.symm.trans ho
      omega
    · obtain ⟨k', hk', o', ho', heq⟩ := hrest k hk hkj o ho
      exact heq ▸ h.le k' hk' o' ho'
  · obtain rfl := Option.mem_some_iff.mp heq
    refine ⟨j, hj, pred, hpred, hlevel, hopen, fun k hk hkj o ho ↦ ?_⟩
    obtain ⟨k', hk', o', ho', heq⟩ := hrest k hk hkj o ho
    have hle := hlow k' hk' o' ho'
    omega
  · have hdown : _ < rank top (missing (learnable R.tr) top (Held trace)).card q.length next :=
      rank_down hpos htop fun k hk ↦ (hnext.eq hi hget hlow k hk).1
    rw [hlen]
    omega

theorem budget_start (hroot : obls[i]? = some obl) (hlevel : obl.level ≤ top)
    (hn : searchBound R.tr top ≤ n) : R.Budget top trace obls [i] n := by
  refine ⟨fun j hj o ho ↦ ?_, none, fun _ hnone ↦ absurd hnone (Option.not_mem_none _), ?_⟩
  · obtain rfl := List.mem_singleton.mp hj
    cases hroot.symm.trans ho
    exact hlevel
  · have hcard : (missing (learnable R.tr) top (Held trace)).card ≤ _ := card_missing_le
    have hmul := Nat.mul_le_mul_right (2 * top + 2) hcard
    simp only [searchBound, rank, List.length_singleton] at hn ⊢
    omega

end Setting

end PME.IC3
