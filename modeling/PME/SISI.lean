import PME.FindMinimalSupport

namespace PME

open Outcome Support

structure SISI where
  feas : Finset ℕ
  nec : Finset ℕ
  all : List ℕ

namespace SISI

open ConsecutionChecker

def new : SISI := ⟨∅, ∅, []⟩

def addToFEAS (m : SISI) (id : ℕ) : SISI := { m with feas := insert id m.feas }

def addToNEC (m : SISI) (id : ℕ) : SISI := { m with nec := insert id m.nec }

def addClause (m : SISI) (id : ℕ) : SISI := { m with all := m.all ++ [id] }

/-- A set in the order in which `std::set` is iterated over. -/
def ordered (s : Finset ℕ) : List ℕ := s.sort (· ≤ ·)

def findSIS (B : Backend) (cc : ConsecutionChecker) (nec : Finset ℕ) (vec : List ℕ) :
    Result (Bool × List ℕ × ConsecutionChecker) := cc.findSafeMIS B vec (ordered nec)

/-- The loop of `refineNEC`. -/
def refineNECLoop (B : Backend) (feas : Finset ℕ) : List ℕ → Finset ℕ → ConsecutionChecker →
    Result (Finset ℕ × ConsecutionChecker)
  | [], nec, cc => return (nec, cc)
  | id :: ids, nec, cc =>
    if id ∈ nec then refineNECLoop B feas ids nec cc else do
      let testFeas := (ordered feas).filter (· ≠ id)
      let (found, _, cc) ← findSIS B cc nec testFeas
      refineNECLoop B feas ids (if found then nec else insert id nec) cc

def refineNEC (B : Backend) (m : SISI) (cc : ConsecutionChecker) : Result (SISI × ConsecutionChecker) := do
  ensure (decide m.feas.Nonempty)
  let (nec, cc) ← refineNECLoop B m.feas (ordered m.feas) m.nec cc
  return ({ m with nec := nec }, cc)

def minimizeSupport (B : Backend) (cc : ConsecutionChecker) (vec : List ℕ) (id : ℕ) :
    Result (List ℕ × ConsecutionChecker) := do
  let (minsupp, cc) ← cc.findMinimalSupportOf B vec id
  ensure (decide (minsupp.length ≤ vec.length))
  return (minsupp, cc)

/-- One iteration over the feasible set in `refineFEAS`, from an element on. When the set grows it
goes on after the first element of the new set. -/
def refineFEASPass (B : Backend) (all : List ℕ) : ℕ → Finset ℕ → Finset ℕ → List ℕ → ConsecutionChecker →
    Result (Finset ℕ × Finset ℕ × ConsecutionChecker)
  | 0, _, _, _, _ => throw .outOfFuel
  | _ + 1, known, feas, [], cc => return (known, feas, cc)
  | n + 1, known, feas, id :: rest, cc =>
    if id ∈ known then refineFEASPass B all n known feas rest cc else do
      let (answer, cc) ← cc.solve B (ordered feas) id
      match answer with
      | .holds _ => refineFEASPass B all n (insert id known) feas rest cc
      | .fails _ => do
        let (answer, cc) ← cc.solve B all id
        let support := match answer with
          | .holds support => support
          | .fails _ => []
        let (support, cc) ← minimizeSupport B cc support id
        let feas' := feas ∪ support.toFinset
        ensure (decide (feas.card < feas'.card))
        refineFEASPass B all n (insert id known) feas' (ordered feas').tail cc

/-- The loop of `refineFEAS`. -/
def refineFEASLoop (B : Backend) (all : List ℕ) : ℕ → Finset ℕ → Finset ℕ → ConsecutionChecker →
    Result (Finset ℕ × ConsecutionChecker)
  | 0, _, _, _ => throw .outOfFuel
  | n + 1, known, feas, cc =>
    if known.card < feas.card then do
      let fuel := (all.length + 1) * (all.length + 1)
      let (known, feas, cc) ← refineFEASPass B all fuel known feas (ordered feas) cc
      refineFEASLoop B all n known feas cc
    else return (feas, cc)

def refineFEAS (B : Backend) (m : SISI) (cc : ConsecutionChecker) : Result (SISI × ConsecutionChecker) := do
  ensure (decide m.nec.Nonempty)
  let (feas, cc) ← refineFEASLoop B m.all (m.all.length + 1) ∅ m.nec cc
  return ({ m with feas := feas }, cc)

/-- The loop of `bruteForceMinimize` over the feasible vector, which consists of the IDs before the
iterator and those from it on. -/
def bruteForceLoop (B : Backend) (nec : Finset ℕ) : ℕ → Finset ℕ → List ℕ → List ℕ →
    ConsecutionChecker → Result (Finset ℕ × ConsecutionChecker)
  | 0, _, _, _, _ => throw .outOfFuel
  | n + 1, keep, front, rest, cc =>
    if keep.card < (front ++ rest).length then
      match rest with
      | [] => throw .exception -- past the end
      | id :: rest =>
        if id ∈ keep then bruteForceLoop B nec n keep (front ++ [id]) rest cc else do
          let testFeas := (front ++ id :: rest).filter (· ≠ id)
          let (found, testFeas, cc) ← findSIS B cc nec testFeas
          if found then do
            ensure (decide (testFeas.length < (front ++ id :: rest).length))
            bruteForceLoop B nec n keep [] testFeas cc
          else bruteForceLoop B nec n (insert id keep) (front ++ [id]) rest cc
    else return (keep, cc)

def bruteForceMinimize (B : Backend) (m : SISI) (cc : ConsecutionChecker) :
    Result (List ℕ × ConsecutionChecker) := do
  let feas := ordered m.feas
  let (keep, cc) ← bruteForceLoop B m.nec ((feas.length + 1) * (feas.length + 1)) m.nec [] feas cc
  return (ordered keep, cc)

/-- The loop of `isMinimal`. -/
def isMinimalLoop (B : Backend) (nec : Finset ℕ) : Finset ℕ → List ℕ → List ℕ →
    ConsecutionChecker → Result (Bool × ConsecutionChecker)
  | keep, front, [], cc =>
    if keep.card < front.length then throw .exception -- past the end
    else return (true, cc)
  | keep, front, id :: rest, cc =>
    if keep.card < (front ++ id :: rest).length then
      if id ∈ keep then isMinimalLoop B nec keep (front ++ [id]) rest cc else do
        let testFeas := (front ++ id :: rest).filter (· ≠ id)
        let (found, testFeas, cc) ← findSIS B cc nec testFeas
        if found then do
          ensure (decide (testFeas.length < (front ++ id :: rest).length))
          return (false, cc)
        else isMinimalLoop B nec (insert id keep) (front ++ [id]) rest cc
    else return (true, cc)

def isMinimal (B : Backend) (m : SISI) (cc : ConsecutionChecker) : Result (Bool × ConsecutionChecker) :=
  isMinimalLoop B m.nec m.nec [] (ordered m.feas) cc

variable {B : Backend} {tr : TransitionRelation} {cls : ℕ → Clause} {base : Finset ℕ} {n : ℕ}
  {vm : VariableManager} {cc : ConsecutionChecker} {fail : Failure → Prop} {m : SISI}
  {p feas nec keep s : Finset ℕ} {vec front rest : List ℕ} {c : ℕ}

@[simp] theorem mem_ordered : c ∈ ordered s ↔ c ∈ s := Finset.mem_sort _

@[simp] theorem ordered_toFinset : (ordered s).toFinset = s := Finset.sort_toFinset _ _

@[simp] theorem ordered_length : (ordered s).length = s.card := Finset.length_sort _

theorem ordered_nodup : (ordered s).Nodup := Finset.sort_nodup _ _

theorem filter_ne_toFinset : (vec.filter (· ≠ c)).toFinset = vec.toFinset.erase c := by
  ext d
  simp [and_comm]

/-- The clauses that are needed for one which is no tautology are none either. -/
theorem not_tautology_of_narrowed (h : Narrowed (Supports tr cls) p s nec)
    (hp : ∀ d ∈ p, ¬ Tautology (cls d)) : ∀ d ∈ nec, ¬ Tautology (cls d) := by
  intro d hd
  obtain ⟨t, ht, hpt, hind⟩ := h.feasible
  have hsub : p ⊆ plain cls t := fun a ha ↦ Finset.mem_filter.mpr ⟨hpt ha, hp a ha⟩
  have hmem := h.needs (plain cls t) ((Finset.filter_subset _ t).trans ht) hsub (inductive_plain hind) hd
  exact (Finset.mem_filter.mp hmem).2

theorem findSIS_meets (h : Rep B tr cls base n vm cc) (hc : Checkable tr cls base n)
    (hfail : Refuted B tr cc.clausedb.entries → fail .assertion) (hvec : vec.toFinset ⊆ base)
    (htaut : ∀ d ∈ nec, ¬ Tautology (cls d)) :
    Meets (fun r ↦ Rep B tr cls base n vm r.2.2 ∧ r.2.2.clausedb = cc.clausedb ∧
      (r.1 = true ↔ Feasible (Supports tr cls) nec vec.toFinset) ∧
      (r.1 = true → r.2.1.Subperm vec ∧ nec ⊆ r.2.1.toFinset ∧
        Inductive (Supports tr cls) r.2.1.toFinset)) fail (findSIS B cc nec vec) := by
  refine (findSafeMIS_meets h hc (fun d hd ↦ hvec (List.mem_toFinset.mpr hd))
    (fun d hd ↦ htaut d (mem_ordered.mp hd)) hfail).imp fun r hr ↦ ?_
  obtain ⟨hrep, hdb, hfound, hsub⟩ := hr
  have hiff := hfound.iff
  rw [ordered_toFinset] at hiff
  refine ⟨hrep, hdb, hiff, fun hf ↦ ⟨hsub hf, fun d hd ↦ ?_, hfound.holds hf⟩⟩
  exact List.mem_toFinset.mpr (hfound.nec_subset hf (mem_ordered.mpr hd))

theorem refineNECLoop_meets (hc : Checkable tr cls base n) (hfeas : feas ⊆ base)
    (hp : ∀ d ∈ p, ¬ Tautology (cls d)) {ids : List ℕ} (h : Rep B tr cls base n vm cc)
    (hfail : Refuted B tr cc.clausedb.entries → fail .assertion)
    (hn : Narrowed (Supports tr cls) p feas nec) :
    Meets (fun r ↦ Rep B tr cls base n vm r.2 ∧ r.2.clausedb = cc.clausedb ∧
      Narrowed (Supports tr cls) p feas r.1) fail (refineNECLoop B feas ids nec cc) := by
  induction ids generalizing nec cc with
  | nil => exact ⟨h, rfl, hn⟩
  | cons id ids ih =>
    unfold refineNECLoop
    by_cases hmem : id ∈ nec
    · rw [if_pos hmem]
      exact ih h hfail hn
    · have htest : ((ordered feas).filter (· ≠ id)).toFinset = feas.erase id := by
        rw [filter_ne_toFinset, ordered_toFinset]
      rw [if_neg hmem]
      refine (findSIS_meets h hc hfail ?_ (not_tautology_of_narrowed hn hp)).bind fun r hr ↦ ?_
      · rw [htest]
        exact (Finset.erase_subset id feas).trans hfeas
      obtain ⟨found, vec, cc'⟩ := r
      obtain ⟨h', hdb, hiff, -⟩ := hr
      rw [htest] at hiff
      dsimp only at h' hdb hiff ⊢
      cases found with
      | true =>
        refine (ih h' (hdb ▸ hfail) hn).imp fun r hr ↦ ⟨hr.1, hr.2.1.trans hdb, hr.2.2⟩
      | false =>
        have hno : ¬ Feasible (Supports tr cls) nec (feas.erase id) := mt hiff.mpr Bool.false_ne_true
        have hinsert := hn.insert (Finset.Subset.refl nec) hno
        exact (ih h' (hdb ▸ hfail) hinsert).imp fun r hr ↦ ⟨hr.1, hr.2.1.trans hdb, hr.2.2⟩

theorem refineNEC_meets (hc : Checkable tr cls base n) (hfeas : m.feas ⊆ base)
    (hp : ∀ d ∈ p, ¬ Tautology (cls d)) (hne : p.Nonempty) (h : Rep B tr cls base n vm cc)
    (hfail : Refuted B tr cc.clausedb.entries → fail .assertion)
    (hn : Narrowed (Supports tr cls) p m.feas m.nec) :
    Meets (fun r ↦ Rep B tr cls base n vm r.2 ∧ r.2.clausedb = cc.clausedb ∧ r.1.feas = m.feas ∧
      r.1.all = m.all ∧ Narrowed (Supports tr cls) p m.feas r.1.nec) fail (refineNEC B m cc) := by
  have hfull : m.feas.Nonempty := hne.mono (hn.subset.trans hn.nec_subset)
  unfold refineNEC
  rw [decide_eq_true hfull, ensure_true, ok_bind]
  refine (refineNECLoop_meets hc hfeas hp h hfail hn).bind fun r hr ↦ ?_
  exact ⟨hr.1, hr.2.1, rfl, rfl, hr.2.2⟩

theorem findMinimalSupportOf_meets (h : Rep B tr cls base n vm cc) (hc : Checkable tr cls base n)
    (hfail : Refuted B tr cc.clausedb.entries → fail .assertion) (hvec : ∀ d ∈ vec, d ∈ base)
    (hcb : c ∈ base) (hown : ∀ lit ∈ cls c, Own tr lit) (hempty : cls c = [] → fail .assertion)
    (hsup : Supports tr cls vec.toFinset c) :
    Meets (fun r ↦ Rep B tr cls base n vm r.2 ∧ r.2.clausedb = cc.clausedb ∧ r.1 ⊆ vec ∧
      r.1.length ≤ vec.length ∧ Supports tr cls r.1.toFinset c) fail
      (cc.findMinimalSupportOf B vec c) := by
  obtain ⟨e, he, rfl⟩ := h.ids c hcb
  have hmem : ∀ lit, lit ∈ e.clause ↔ lit ∈ cls e.id := fun lit ↦ h.entered.mem_clause he
  have hask : ∀ lit ∈ e.clause, Own tr lit ∧ MayAsk tr lit := fun lit hl ↦
    ⟨hown lit ((hmem lit).mp hl), (hc.lits _ hcb lit ((hmem lit).mp hl)).1⟩
  have hnil : e.clause = [] → fail .assertion := fun heq ↦ hempty <|
    List.eq_nil_iff_forall_not_mem.mpr fun lit hl ↦ absurd ((hmem lit).mpr hl) (heq ▸ List.not_mem_nil)
  unfold findMinimalSupportOf
  rw [(h.entry_meets he).1, ok_bind]
  refine (findMinimalSupport_meets h hc hvec hask hnil hfail ((carries_congr hmem).mpr hsup)).imp
    fun r hr ↦ ?_
  obtain ⟨hrep, hdb, hmin⟩ := hr
  exact ⟨hrep, hdb, hmin.subset, hmin.length, (carries_congr hmem).mp hmin.carries⟩

theorem minimizeSupport_meets (h : Rep B tr cls base n vm cc) (hc : Checkable tr cls base n)
    (hfail : Refuted B tr cc.clausedb.entries → fail .assertion) (hvec : ∀ d ∈ vec, d ∈ base)
    (hcb : c ∈ base) (hown : ∀ lit ∈ cls c, Own tr lit) (hempty : cls c = [] → fail .assertion)
    (hsup : Supports tr cls vec.toFinset c) :
    Meets (fun r ↦ Rep B tr cls base n vm r.2 ∧ r.2.clausedb = cc.clausedb ∧ r.1 ⊆ vec ∧
      Supports tr cls r.1.toFinset c) fail (minimizeSupport B cc vec c) := by
  unfold minimizeSupport
  refine (findMinimalSupportOf_meets h hc hfail hvec hcb hown hempty hsup).bind fun r hr ↦ ?_
  obtain ⟨minsupp, cc'⟩ := r
  obtain ⟨hrep, hdb, hsub, hlen, hsup'⟩ := hr
  dsimp only at hlen ⊢
  rw [decide_eq_true hlen, ensure_true, ok_bind]
  exact ⟨hrep, hdb, hsub, hsup'⟩

structure Growing (tr : TransitionRelation) (cls : ℕ → Clause) (nec all known feas : Finset ℕ) : Prop where
  nec_subset : nec ⊆ feas
  subset : feas ⊆ all
  known_subset : known ⊆ feas
  supports : ∀ c ∈ known, Supports tr cls feas c

variable {all known : Finset ℕ}

theorem Growing.holds (h : Growing tr cls nec all known feas) (hc : c ∈ feas)
    (hsup : Supports tr cls feas c) : Growing tr cls nec all (insert c known) feas := by
  refine ⟨h.nec_subset, h.subset, Finset.insert_subset hc h.known_subset, fun d hd ↦ ?_⟩
  cases Finset.mem_insert.mp hd with
  | inl heq => exact heq ▸ hsup
  | inr hmem => exact h.supports d hmem

theorem Growing.grow (h : Growing tr cls nec all known feas) (hc : c ∈ feas) (hs : s ⊆ all)
    (hsup : Supports tr cls s c) : Growing tr cls nec all (insert c known) (feas ∪ s) := by
  have hleft : feas ⊆ feas ∪ s := Finset.subset_union_left
  refine ⟨h.nec_subset.trans hleft, Finset.union_subset h.subset hs,
    Finset.insert_subset (hleft hc) (h.known_subset.trans hleft), fun d hd ↦ ?_⟩
  cases Finset.mem_insert.mp hd with
  | inl heq => exact heq ▸ upward_carries (cls c) Finset.subset_union_right hsup
  | inr hmem => exact upward_carries (cls d) hleft (h.supports d hmem)

theorem card_lt_of_lost (hno : ¬ Supports tr cls feas c) (hsup : Supports tr cls s c) :
    feas.card < (feas ∪ s).card := by
  refine Finset.card_lt_card (Finset.ssubset_iff_subset_ne.mpr ⟨Finset.subset_union_left, fun heq ↦ ?_⟩)
  have hs : s ⊆ feas := heq ▸ Finset.subset_union_right
  exact hno (upward_carries (cls c) hs hsup)

theorem ne_nil_of_lost (hno : ¬ Supports tr cls feas c) : cls c ≠ [] := by
  intro hnil
  refine hno fun x y _ _ hx ↦ ?_
  rw [hnil] at hx
  exact absurd hx not_satClause_nil

theorem refineFEASPass_meets (hc : Checkable tr cls base n) {all : List ℕ}
    (hown : ∀ d ∈ base, ∀ lit ∈ cls d, Own tr lit) (hall : ∀ d ∈ all, d ∈ base)
    (hind : Inductive (Supports tr cls) all.toFinset) {k : ℕ} (h : Rep B tr cls base n vm cc)
    (hfail : Refuted B tr cc.clausedb.entries → fail .assertion)
    (hg : Growing tr cls nec all.toFinset known feas) (hrest : ∀ d ∈ rest, d ∈ feas)
    (hlen : rest.length ≤ feas.card)
    (hk : (all.length - known.card) * (all.length + 1) + rest.length < k) :
    Meets (fun r ↦ Rep B tr cls base n vm r.2.2 ∧ r.2.2.clausedb = cc.clausedb ∧
      Growing tr cls nec all.toFinset r.1 r.2.1 ∧ known ⊆ r.1 ∧
      ((∃ d ∈ rest, d ∉ known) → known.card < r.1.card)) fail
      (refineFEASPass B all k known feas rest cc) := by
  induction k generalizing known feas rest cc with
  | zero => exact absurd hk (Nat.not_lt_zero _)
  | succ k ih =>
    cases rest with
    | nil =>
      rw [refineFEASPass]
      refine ⟨h, rfl, hg, Finset.Subset.refl known, fun hex ↦ ?_⟩
      obtain ⟨d, hd, -⟩ := hex
      exact absurd hd List.not_mem_nil
    | cons id rest =>
      have hid : id ∈ feas := hrest id List.mem_cons_self
      have hrest' : ∀ d ∈ rest, d ∈ feas := fun d hd ↦ hrest d (List.mem_cons_of_mem id hd)
      have hidall : id ∈ all.toFinset := hg.subset hid
      have hidbase : id ∈ base := hall id (List.mem_toFinset.mp hidall)
      rw [List.length_cons] at hlen hk
      unfold refineFEASPass
      by_cases hmem : id ∈ known
      · rw [if_pos hmem]
        refine (ih h hfail hg hrest' (by omega) (by omega)).imp fun r hr ↦
          ⟨hr.1, hr.2.1, hr.2.2.1, hr.2.2.2.1, fun hex ↦ hr.2.2.2.2 ?_⟩
        obtain ⟨d, hd, hno⟩ := hex
        exact ⟨d, (List.mem_cons.mp hd).resolve_left fun heq ↦ hno (heq ▸ hmem), hno⟩
      · have hcard : (insert id known).card = known.card + 1 := Finset.card_insert_of_notMem hmem
        have hframe : ∀ d ∈ ordered feas, d ∈ base := fun d hd ↦
          hall d (List.mem_toFinset.mp (hg.subset (mem_ordered.mp hd)))
        have hle : (insert id known).card ≤ all.length :=
          (Finset.card_le_card (Finset.insert_subset hidall (hg.known_subset.trans hg.subset))).trans
            (List.toFinset_card_le all)
        have hfuel : (all.length - (insert id known).card) * (all.length + 1) + all.length < k := by
          have hsplit : (all.length - known.card) * (all.length + 1) =
              (all.length - (insert id known).card) * (all.length + 1) + (all.length + 1) := by
            have hone : all.length - known.card = (all.length - (insert id known).card) + 1 := by omega
            rw [hone]
            ring
          omega
        rw [if_neg hmem]
        refine (solve_mem_meets h hc hfail hframe (mem_ordered.mpr hid)).bind fun r hr ↦ ?_
        obtain ⟨answer, cc'⟩ := r
        obtain ⟨h', -, hdb, hans⟩ := hr
        have hiff := hans.iff
        rw [ordered_toFinset] at hiff
        dsimp only at h' hdb hiff ⊢
        cases answer with
        | holds supp =>
          have hgrow := hg.holds hid (hiff.mp rfl)
          have hshort : rest.length ≤ all.length := by
            have hsub := Finset.card_le_card hg.subset
            have hdedup := List.toFinset_card_le all
            omega
          refine (ih h' (hdb ▸ hfail) hgrow hrest' (by omega) (by omega)).imp fun r hr ↦ ?_
          obtain ⟨hrep, hdb', hg', hsub, -⟩ := hr
          have hcard' := Finset.card_le_card hsub
          exact ⟨hrep, hdb'.trans hdb, hg', (Finset.subset_insert id known).trans hsub, fun _ ↦ by omega⟩
        | fails m =>
          have hno : ¬ Supports tr cls feas id := fun hsup ↦ Bool.false_ne_true (hiff.mpr hsup)
          dsimp only
          refine (solve_mem_meets h' hc (hdb ▸ hfail) hall (List.mem_toFinset.mp hidall)).bind
            fun r hr ↦ ?_
          obtain ⟨answer, cc''⟩ := r
          obtain ⟨h'', -, hdb', hans'⟩ := hr
          dsimp only at h'' hdb' hans' ⊢
          cases answer with
          | fails m' => exact absurd (hans'.iff.mpr (hind id hidall)) Bool.false_ne_true
          | holds supp =>
            obtain ⟨-, hsub, hsup⟩ := hans'.support supp rfl
            have hdb'' : cc''.clausedb = cc.clausedb := hdb'.trans hdb
            refine (minimizeSupport_meets h'' hc (hdb'' ▸ hfail) (fun d hd ↦ hall d (hsub hd)) hidbase
              (hown id hidbase) (fun hnil ↦ absurd hnil (ne_nil_of_lost hno)) hsup).bind fun r hr ↦ ?_
            obtain ⟨supp', cc₃⟩ := r
            obtain ⟨h₃, hdb₃, hsub₃, hsup₃⟩ := hr
            have hinto : supp'.toFinset ⊆ all.toFinset := fun d hd ↦
              List.mem_toFinset.mpr (hsub (hsub₃ (List.mem_toFinset.mp hd)))
            have hgrow := hg.grow hid hinto hsup₃
            have hshort : (feas ∪ supp'.toFinset).card ≤ all.length :=
              (Finset.card_le_card hgrow.subset).trans (List.toFinset_card_le all)
            have htail : (ordered (feas ∪ supp'.toFinset)).tail.length ≤ (feas ∪ supp'.toFinset).card := by
              rw [List.length_tail, ordered_length]
              exact Nat.sub_le _ _
            dsimp only at h₃ hdb₃ ⊢
            rw [decide_eq_true (card_lt_of_lost hno hsup₃), ensure_true, ok_bind]
            refine (ih h₃ ((hdb₃.trans hdb'') ▸ hfail) hgrow
              (fun d hd ↦ mem_ordered.mp (List.mem_of_mem_tail hd)) htail (by omega)).imp fun r hr ↦ ?_
            obtain ⟨hrep, hdb', hg', hsub, -⟩ := hr
            have hcard' := Finset.card_le_card hsub
            exact ⟨hrep, hdb'.trans (hdb₃.trans hdb''), hg', (Finset.subset_insert id known).trans hsub,
              fun _ ↦ by omega⟩

theorem refineFEASLoop_meets (hc : Checkable tr cls base n) {all : List ℕ}
    (hown : ∀ d ∈ base, ∀ lit ∈ cls d, Own tr lit) (hall : ∀ d ∈ all, d ∈ base)
    (hind : Inductive (Supports tr cls) all.toFinset) {k : ℕ} (h : Rep B tr cls base n vm cc)
    (hfail : Refuted B tr cc.clausedb.entries → fail .assertion)
    (hg : Growing tr cls nec all.toFinset known feas) (hk : all.length - known.card < k) :
    Meets (fun r ↦ Rep B tr cls base n vm r.2 ∧ r.2.clausedb = cc.clausedb ∧ nec ⊆ r.1 ∧
      r.1 ⊆ all.toFinset ∧ Inductive (Supports tr cls) r.1) fail
      (refineFEASLoop B all k known feas cc) := by
  induction k generalizing known feas cc with
  | zero => exact absurd hk (Nat.not_lt_zero _)
  | succ k ih =>
    unfold refineFEASLoop
    by_cases hlt : known.card < feas.card
    · have hle : feas.card ≤ all.length := (Finset.card_le_card hg.subset).trans (List.toFinset_card_le all)
      rw [if_pos hlt]
      refine (refineFEASPass_meets hc hown hall hind h hfail hg (fun d hd ↦ mem_ordered.mp hd)
        ordered_length.le ?_).bind fun r hr ↦ ?_
      · have hmul : (all.length - known.card) * (all.length + 1) ≤ all.length * (all.length + 1) :=
          Nat.mul_le_mul_right _ (Nat.sub_le _ _)
        have hsq : (all.length + 1) * (all.length + 1) = all.length * (all.length + 1) + (all.length + 1) := by
          ring
        rw [ordered_length]
        omega
      obtain ⟨known', feas', cc'⟩ := r
      obtain ⟨h', hdb, hg', -, hmore⟩ := hr
      obtain ⟨d, hd, hno⟩ := Finset.exists_mem_notMem_of_card_lt_card hlt
      have hcard := hmore ⟨d, mem_ordered.mpr hd, hno⟩
      dsimp only at h' hdb hg' hcard ⊢
      exact (ih h' (hdb ▸ hfail) hg' (by omega)).imp fun r hr ↦ ⟨hr.1, hr.2.1.trans hdb, hr.2.2⟩
    · have heq : known = feas := Finset.eq_of_subset_of_card_le hg.known_subset (not_lt.mp hlt)
      subst heq
      rw [if_neg hlt]
      exact ⟨h, rfl, hg.nec_subset, hg.subset, hg.supports⟩

theorem refineFEAS_meets (hc : Checkable tr cls base n) (hown : ∀ d ∈ base, ∀ lit ∈ cls d, Own tr lit)
    (hall : ∀ d ∈ m.all, d ∈ base) (hind : Inductive (Supports tr cls) m.all.toFinset)
    (hne : m.nec.Nonempty) (hnec : m.nec ⊆ m.all.toFinset) (h : Rep B tr cls base n vm cc)
    (hfail : Refuted B tr cc.clausedb.entries → fail .assertion) :
    Meets (fun r ↦ Rep B tr cls base n vm r.2 ∧ r.2.clausedb = cc.clausedb ∧ r.1.nec = m.nec ∧
      r.1.all = m.all ∧ m.nec ⊆ r.1.feas ∧ r.1.feas ⊆ m.all.toFinset ∧
      Inductive (Supports tr cls) r.1.feas) fail (refineFEAS B m cc) := by
  have hstart : Growing tr cls m.nec m.all.toFinset ∅ m.nec :=
    ⟨Finset.Subset.refl m.nec, hnec, Finset.empty_subset m.nec, nofun⟩
  unfold refineFEAS
  rw [decide_eq_true hne, ensure_true, ok_bind]
  refine (refineFEASLoop_meets hc hown hall hind h hfail hstart ?_).bind fun r hr ↦ ?_
  · exact Nat.lt_succ_of_le (Nat.sub_le _ _)
  · exact ⟨hr.1, hr.2.1, rfl, rfl, hr.2.2⟩

/-- With a formula that the simplifier refutes the first support asked for ends the refinement. -/
theorem refineFEAS_refuted (hc : Checkable tr cls base n) (h : Rep B tr cls base n vm cc)
    (hr : Refuted B tr cc.clausedb.entries) (hne : m.nec.Nonempty) (hnec : m.nec ⊆ base) :
    refineFEAS B m cc = .error .assertion := by
  obtain ⟨id, rest, hids⟩ : ∃ id rest, ordered m.nec = id :: rest := by
    obtain ⟨d, hd⟩ := hne
    exact List.exists_cons_of_ne_nil (List.ne_nil_of_mem (mem_ordered.mpr hd))
  have hid : id ∈ base := hnec (mem_ordered.mp (hids ▸ List.mem_cons_self))
  have hlt : (∅ : Finset ℕ).card < m.nec.card := Finset.card_pos.mpr hne
  obtain ⟨k, hk⟩ : ∃ k, (m.all.length + 1) * (m.all.length + 1) = k + 1 :=
    Nat.exists_eq_succ_of_ne_zero (Nat.mul_ne_zero (Nat.succ_ne_zero _) (Nat.succ_ne_zero _))
  have hpass : refineFEASPass B m.all (k + 1) ∅ m.nec (ordered m.nec) cc = .error .assertion := by
    rw [hids]
    unfold refineFEASPass
    rw [if_neg (Finset.notMem_empty id), solve_refuted h hc hr hid]
    rfl
  unfold refineFEAS refineFEASLoop
  rw [decide_eq_true hne, ensure_true, ok_bind, if_pos hlt]
  dsimp only
  rw [hk, hpass]
  rfl

structure Trying (tr : TransitionRelation) (cls : ℕ → Clause) (p nec keep : Finset ℕ)
    (front rest : List ℕ) : Prop where
  narrowed : Narrowed (Supports tr cls) p (front ++ rest).toFinset keep
  nec_subset : nec ⊆ keep
  front_subset : ∀ c ∈ front, c ∈ keep
  nodup : (front ++ rest).Nodup

theorem Trying.next (h : Trying tr cls p nec keep front (c :: rest)) (hc : c ∈ keep) :
    Trying tr cls p nec keep (front ++ [c]) rest := by
  have hsame : front ++ [c] ++ rest = front ++ c :: rest := by simp
  refine ⟨hsame ▸ h.narrowed, h.nec_subset, fun d hd ↦ ?_, hsame ▸ h.nodup⟩
  cases List.mem_append.mp hd with
  | inl hfront => exact h.front_subset d hfront
  | inr hlast => exact List.mem_singleton.mp hlast ▸ hc

theorem Trying.retain (h : Trying tr cls p nec keep front (c :: rest))
    (hno : ¬ Feasible (Supports tr cls) nec ((front ++ c :: rest).toFinset.erase c)) :
    Trying tr cls p nec (insert c keep) front (c :: rest) :=
  ⟨h.narrowed.insert h.nec_subset hno, h.nec_subset.trans (Finset.subset_insert c keep),
    fun d hd ↦ Finset.mem_insert_of_mem (h.front_subset d hd), h.nodup⟩

theorem Trying.length (h : Trying tr cls p nec keep front rest) :
    (front ++ rest).toFinset.card = (front ++ rest).length := List.toFinset_card_of_nodup h.nodup

theorem Trying.front_length (h : Trying tr cls p nec keep front []) : front.length ≤ keep.card := by
  have hnodup := h.nodup
  rw [List.append_nil] at hnodup
  rw [← List.toFinset_card_of_nodup hnodup]
  exact Finset.card_le_card fun d hd ↦ h.front_subset d (List.mem_toFinset.mp hd)

theorem bruteForceLoop_meets (hc : Checkable tr cls base n) (hp : ∀ d ∈ p, ¬ Tautology (cls d))
    (hnec : p ⊆ nec) (hs : s ⊆ base) {b k : ℕ} (h : Rep B tr cls base n vm cc)
    (hfail : Refuted B tr cc.clausedb.entries → fail .assertion)
    (ht : Trying tr cls p nec keep front rest) (hsub : (front ++ rest).toFinset ⊆ s)
    (hb : (front ++ rest).length ≤ b) (hk : (front ++ rest).length * (b + 1) + rest.length < k) :
    Meets (fun r ↦ Rep B tr cls base n vm r.2 ∧ r.2.clausedb = cc.clausedb ∧ r.1 ⊆ s ∧
      Minimal (fun t ↦ p ⊆ t ∧ Inductive (Supports tr cls) t) r.1) fail
      (bruteForceLoop B nec k keep front rest cc) := by
  induction k generalizing keep front rest cc with
  | zero => exact absurd hk (Nat.not_lt_zero _)
  | succ k ih =>
    unfold bruteForceLoop
    by_cases hlt : keep.card < (front ++ rest).length
    · rw [if_pos hlt]
      cases rest with
      | nil =>
        rw [List.append_nil] at hlt
        exact absurd hlt (not_lt.mpr ht.front_length)
      | cons id rest =>
        have hsame : front ++ [id] ++ rest = front ++ id :: rest := by simp
        rw [List.length_cons] at hk
        dsimp only
        by_cases hmem : id ∈ keep
        · rw [if_pos hmem]
          refine ih h hfail (ht.next hmem) (hsame ▸ hsub) (hsame ▸ hb) ?_
          rw [hsame]
          omega
        · have htest : ((front ++ id :: rest).filter (· ≠ id)).toFinset =
              (front ++ id :: rest).toFinset.erase id := filter_ne_toFinset
          have hntaut : ∀ d ∈ nec, ¬ Tautology (cls d) := fun d hd ↦
            not_tautology_of_narrowed ht.narrowed hp d (ht.nec_subset hd)
          rw [if_neg hmem]
          refine (findSIS_meets h hc hfail ?_ hntaut).bind fun r hr ↦ ?_
          · rw [htest]
            exact ((Finset.erase_subset _ _).trans hsub).trans hs
          obtain ⟨found, vec, cc'⟩ := r
          obtain ⟨h', hdb, hiff, hyes⟩ := hr
          rw [htest] at hiff
          dsimp only at h' hdb hiff hyes ⊢
          cases found with
          | true =>
            obtain ⟨hperm, hnv, hind⟩ := hyes rfl
            have hvec : vec.toFinset ⊆ (front ++ id :: rest).toFinset.erase id := by
              rw [← htest]
              exact fun d hd ↦ List.mem_toFinset.mpr (hperm.subset (List.mem_toFinset.mp hd))
            have hshort : vec.length < (front ++ id :: rest).length := by
              refine hperm.length_le.trans_lt (List.length_filter_lt_length_iff_exists.mpr ?_)
              exact ⟨id, by simp, by simp⟩
            rw [if_pos rfl, decide_eq_true hshort, ensure_true, ok_bind]
            have hnodup : vec.Nodup := by
              obtain ⟨l, hl, hsubl⟩ := hperm
              exact hl.nodup_iff.mp ((ht.nodup.filter _).sublist hsubl)
            refine (ih h' (hdb ▸ hfail) ?_ ?_ ?_ ?_).imp fun r hr ↦ ⟨hr.1, hr.2.1.trans hdb, hr.2.2⟩
            · refine ⟨?_, ht.nec_subset, nofun, hnodup⟩
              exact ht.narrowed.shrink (hvec.trans (Finset.erase_subset _ _)) hind (hnec.trans hnv)
            · exact (hvec.trans (Finset.erase_subset _ _)).trans hsub
            · exact hshort.le.trans hb
            · rw [List.nil_append]
              have hmul : (vec.length + 1) * (b + 1) ≤ (front ++ id :: rest).length * (b + 1) :=
                Nat.mul_le_mul_right _ hshort
              have hsplit : (vec.length + 1) * (b + 1) = vec.length * (b + 1) + (b + 1) := by ring
              omega
          | false =>
            have hno := mt hiff.mpr Bool.false_ne_true
            rw [if_neg Bool.false_ne_true]
            refine (ih h' (hdb ▸ hfail) ((ht.retain hno).next (Finset.mem_insert_self id keep))
              (hsame ▸ hsub) (hsame ▸ hb) ?_).imp fun r hr ↦ ⟨hr.1, hr.2.1.trans hdb, hr.2.2⟩
            rw [hsame]
            omega
    · have hle : (front ++ rest).toFinset.card ≤ keep.card := ht.length.le.trans (not_lt.mp hlt)
      obtain ⟨heq, hmin⟩ := ht.narrowed.minimal hle
      rw [if_neg hlt]
      exact ⟨h, rfl, heq ▸ hsub, heq.symm ▸ hmin⟩

theorem bruteForceLoop_done {k : ℕ} (h : ¬ keep.card < (front ++ rest).length) :
    bruteForceLoop B nec (k + 1) keep front rest cc = .ok (keep, cc) := by
  unfold bruteForceLoop
  rw [if_neg h]
  rfl

theorem bruteForceMinimize_meets (hc : Checkable tr cls base n) (hp : ∀ d ∈ p, ¬ Tautology (cls d))
    (hfeas : m.feas ⊆ base) (h : Rep B tr cls base n vm cc)
    (hfail : Refuted B tr cc.clausedb.entries → m.nec.card < m.feas.card → fail .assertion)
    (hn : Narrowed (Supports tr cls) p m.feas m.nec) :
    Meets (fun r ↦ Rep B tr cls base n vm r.2 ∧ r.2.clausedb = cc.clausedb ∧ r.1.toFinset ⊆ m.feas ∧
      r.1 = ordered r.1.toFinset ∧ Minimal (fun t ↦ p ⊆ t ∧ Inductive (Supports tr cls) t) r.1.toFinset)
      fail (bruteForceMinimize B m cc) := by
  have hset : ([] ++ ordered m.feas).toFinset = m.feas := ordered_toFinset
  have hstart : Trying tr cls p m.nec m.nec [] (ordered m.feas) :=
    ⟨hset.symm ▸ hn, Finset.Subset.refl m.nec, nofun, ordered_nodup⟩
  unfold bruteForceMinimize
  by_cases hlt : m.nec.card < m.feas.card
  · refine (bruteForceLoop_meets hc hp hn.subset hfeas h (fun hr ↦ hfail hr hlt) hstart hset.le le_rfl
      ?_).bind fun r hr ↦ ?_
    · have hsq : ((ordered m.feas).length + 1) * ((ordered m.feas).length + 1) =
          (ordered m.feas).length * ((ordered m.feas).length + 1) + ((ordered m.feas).length + 1) := by ring
      rw [List.nil_append]
      omega
    · obtain ⟨keep, cc'⟩ := r
      obtain ⟨hrep, hdb, hsub, hmin⟩ := hr
      dsimp only at hsub hmin
      refine ⟨hrep, hdb, ?_⟩
      rw [ordered_toFinset]
      exact ⟨hsub, rfl, hmin⟩
  · obtain ⟨heq, hmin⟩ := hn.minimal (not_lt.mp hlt)
    have hdone : ¬ m.nec.card < ([] ++ ordered m.feas).length := by
      rwa [List.nil_append, ordered_length]
    obtain ⟨k, hk⟩ : ∃ k, ((ordered m.feas).length + 1) * ((ordered m.feas).length + 1) = k + 1 :=
      Nat.exists_eq_succ_of_ne_zero (Nat.mul_ne_zero (Nat.succ_ne_zero _) (Nat.succ_ne_zero _))
    dsimp only
    rw [hk, bruteForceLoop_done hdone]
    refine ⟨h, rfl, ?_⟩
    rw [ordered_toFinset]
    exact ⟨heq.subset, rfl, heq.symm ▸ hmin⟩

theorem isMinimalLoop_meets (hc : Checkable tr cls base n) (hp : ∀ d ∈ p, ¬ Tautology (cls d))
    (hnec : p ⊆ nec) (hs : s ⊆ base) (h : Rep B tr cls base n vm cc)
    (hfail : Refuted B tr cc.clausedb.entries → fail .assertion)
    (ht : Trying tr cls p nec keep front rest) (hsame : (front ++ rest).toFinset = s) :
    Meets (fun r ↦ Rep B tr cls base n vm r.2 ∧ r.2.clausedb = cc.clausedb ∧
      (r.1 = true ↔ Minimal (fun t ↦ p ⊆ t ∧ Inductive (Supports tr cls) t) s)) fail
      (isMinimalLoop B nec keep front rest cc) := by
  have hdone : ¬ keep.card < (front ++ rest).length →
      Minimal (fun t ↦ p ⊆ t ∧ Inductive (Supports tr cls) t) s := by
    intro hlt
    have hle : (front ++ rest).toFinset.card ≤ keep.card := ht.length.le.trans (not_lt.mp hlt)
    exact hsame ▸ (ht.narrowed.minimal hle).2
  induction rest generalizing keep front cc with
  | nil =>
    have hno : ¬ keep.card < front.length := not_lt.mpr ht.front_length
    rw [isMinimalLoop, if_neg hno]
    refine ⟨h, rfl, fun _ ↦ hdone ?_, fun _ ↦ rfl⟩
    rwa [List.append_nil]
  | cons id rest ih =>
    have hnext : front ++ [id] ++ rest = front ++ id :: rest := by simp
    unfold isMinimalLoop
    by_cases hlt : keep.card < (front ++ id :: rest).length
    · rw [if_pos hlt]
      by_cases hmem : id ∈ keep
      · rw [if_pos hmem]
        exact ih h hfail (ht.next hmem) (hnext ▸ hsame) fun hlt' ↦ hdone (hnext ▸ hlt')
      · have htest : ((front ++ id :: rest).filter (· ≠ id)).toFinset = s.erase id := by
          rw [filter_ne_toFinset, hsame]
        have hntaut : ∀ d ∈ nec, ¬ Tautology (cls d) := fun d hd ↦
          not_tautology_of_narrowed ht.narrowed hp d (ht.nec_subset hd)
        rw [if_neg hmem]
        refine (findSIS_meets h hc hfail ?_ hntaut).bind fun r hr ↦ ?_
        · rw [htest]
          exact (Finset.erase_subset _ _).trans hs
        obtain ⟨found, vec, cc'⟩ := r
        obtain ⟨h', hdb, hiff, hyes⟩ := hr
        rw [htest] at hiff
        dsimp only at h' hdb hiff hyes ⊢
        cases found with
        | true =>
          obtain ⟨hperm, -⟩ := hyes rfl
          have hshort : vec.length < (front ++ id :: rest).length := by
            refine hperm.length_le.trans_lt (List.length_filter_lt_length_iff_exists.mpr ?_)
            exact ⟨id, by simp, by simp⟩
          have hid : id ∈ s := hsame ▸ List.mem_toFinset.mpr (by simp)
          obtain ⟨u, hu, hnu, hind⟩ := hiff.mp rfl
          rw [if_pos rfl, decide_eq_true hshort, ensure_true, ok_bind]
          refine ⟨h', hdb, nofun, fun hmin ↦ ?_⟩
          have hle := hmin.le_of_le ⟨hnec.trans hnu, hind⟩ (hu.trans (Finset.erase_subset id s))
          exact absurd (hu (hle hid)) (Finset.notMem_erase id s)
        | false =>
          have hno : ¬ Feasible (Supports tr cls) nec ((front ++ id :: rest).toFinset.erase id) :=
            hsame.symm ▸ mt hiff.mpr Bool.false_ne_true
          have ht' := (ht.retain hno).next (Finset.mem_insert_self id keep)
          rw [if_neg Bool.false_ne_true]
          refine (ih h' (hdb ▸ hfail) ht' (hnext ▸ hsame) fun hlt' ↦ ?_).imp
            fun r hr ↦ ⟨hr.1, hr.2.1.trans hdb, hr.2.2⟩
          exact hsame ▸ (hnext ▸ ht'.narrowed.minimal (ht'.length.le.trans (not_lt.mp hlt'))).2
    · rw [if_neg hlt]
      exact ⟨h, rfl, fun _ ↦ hdone hlt, fun _ ↦ rfl⟩

theorem isMinimal_meets (hc : Checkable tr cls base n) (hp : ∀ d ∈ p, ¬ Tautology (cls d))
    (hfeas : m.feas ⊆ base) (h : Rep B tr cls base n vm cc)
    (hfail : Refuted B tr cc.clausedb.entries → m.nec.card < m.feas.card → fail .assertion)
    (hn : Narrowed (Supports tr cls) p m.feas m.nec) :
    Meets (fun r ↦ Rep B tr cls base n vm r.2 ∧ r.2.clausedb = cc.clausedb ∧
      (r.1 = true ↔ Minimal (fun t ↦ p ⊆ t ∧ Inductive (Supports tr cls) t) m.feas)) fail
      (isMinimal B m cc) := by
  have hset : ([] ++ ordered m.feas).toFinset = m.feas := ordered_toFinset
  have hstart : Trying tr cls p m.nec m.nec [] (ordered m.feas) :=
    ⟨hset.symm ▸ hn, Finset.Subset.refl m.nec, nofun, ordered_nodup⟩
  unfold isMinimal
  by_cases hlt : m.nec.card < m.feas.card
  · exact isMinimalLoop_meets hc hp hn.subset hfeas h (fun hr ↦ hfail hr hlt) hstart hset
  · have hdone : ¬ m.nec.card < ([] ++ ordered m.feas).length := by
      rwa [List.nil_append, ordered_length]
    have hend : isMinimalLoop B m.nec m.nec [] (ordered m.feas) cc = .ok (true, cc) := by
      rw [List.nil_append] at hdone
      cases hl : ordered m.feas with
      | nil =>
        rw [isMinimalLoop, if_neg (by simp)]
        rfl
      | cons id rest =>
        rw [hl] at hdone
        rw [isMinimalLoop, List.nil_append, if_neg hdone]
        rfl
    rw [hend]
    exact ⟨h, rfl, fun _ ↦ (hn.minimal (not_lt.mp hlt)).2, fun _ ↦ rfl⟩

/-- With a formula that the simplifier refutes the first clause tried ends the test. -/
theorem isMinimalLoop_refuted (hc : Checkable tr cls base n) (h : Rep B tr cls base n vm cc)
    (hr : Refuted B tr cc.clausedb.entries) (hbase : ∀ d ∈ front ++ rest, d ∈ base)
    (hne : nec.Nonempty) (hnec : nec ⊆ keep) (hall : ∀ d ∈ nec, d ∈ front ++ rest)
    (hex : ∃ d ∈ rest, d ∉ keep) (hlt : keep.card < (front ++ rest).length) :
    isMinimalLoop B nec keep front rest cc = .error .assertion := by
  induction rest generalizing front with
  | nil =>
    obtain ⟨d, hd, -⟩ := hex
    exact absurd hd List.not_mem_nil
  | cons id rest ih =>
    have hsame : front ++ [id] ++ rest = front ++ id :: rest := by simp
    unfold isMinimalLoop
    rw [if_pos hlt]
    by_cases hmem : id ∈ keep
    · rw [if_pos hmem]
      refine ih (hsame ▸ hbase) (hsame ▸ hall) ?_ (hsame ▸ hlt)
      obtain ⟨d, hd, hno⟩ := hex
      exact ⟨d, (List.mem_cons.mp hd).resolve_left fun heq ↦ hno (heq ▸ hmem), hno⟩
    · have htest : ∀ d ∈ nec, d ∈ (front ++ id :: rest).filter (· ≠ id) := fun d hd ↦
        List.mem_filter.mpr ⟨hall d hd, decide_eq_true fun heq ↦ hmem (heq ▸ hnec hd)⟩
      obtain ⟨d, hd⟩ := hne
      have hask : findSIS B cc nec ((front ++ id :: rest).filter (· ≠ id)) = .error .assertion :=
        findSafeMIS_refuted h hc hr (fun d hd ↦ hbase d (List.mem_filter.mp hd).1)
          (List.ne_nil_of_mem (htest d hd)) fun d hd ↦ htest d (mem_ordered.mp hd)
      rw [if_neg hmem]
      dsimp only
      rw [hask]
      rfl

end SISI

end PME
