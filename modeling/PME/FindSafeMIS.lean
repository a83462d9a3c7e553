import PME.ConsecutionChecker

namespace PME

open Outcome Support

def containsAllOf (vec props : List ℕ) : Bool := props.all vec.contains

namespace ConsecutionChecker

def isSafeInductive (B : Backend) (cc : ConsecutionChecker) (vec props : List ℕ) :
    Result (Bool × ConsecutionChecker) :=
  if containsAllOf vec props then cc.isInductive B vec else return (false, cc)

/-- The loop over a clause in `removeSATClauses`: whether no literal of the negated clause is
false in the next frame of the model. -/
def negcpSat (cc : ConsecutionChecker) (m : Assignment) : Clause → Result Bool
  | [] => return true
  | lit :: cls => do
    ensure (nprimes lit == 0)
    if cc.solver.safeGetAssignment m (negate (prime lit 1)) = some false then return false
    else cc.negcpSat m cls

def removeSATClauses (cc : ConsecutionChecker) (m : Assignment) (nec : List ℕ) :
    List ℕ → Result (Bool × List ℕ)
  | [] => return (true, [])
  | id :: vec => do
    let cls ← cc.clauseOf id
    if ← cc.negcpSat m cls then
      if nec.contains id then return (false, vec) else cc.removeSATClauses m nec vec
    else do
      let (maybe, vec) ← cc.removeSATClauses m nec vec
      return (maybe, id :: vec)

/-- One pass of `findSafeMIS` over the vector, which consists of the IDs before the iterator and
those from it on. The pass is left with the vector when there is no safe inductive subset, and
otherwise ends with whether a clause was removed. -/
def findPass (B : Backend) (nec : List ℕ) : ℕ → Bool → List ℕ → List ℕ → ConsecutionChecker →
    Result ((List ℕ ⊕ Bool × List ℕ) × ConsecutionChecker)
  | 0, _, _, _, _ => throw .outOfFuel
  | _ + 1, removed, front, [], cc => return (.inr (removed, front), cc)
  | n + 1, removed, front, id :: rest, cc => do
    let (answer, cc) ← cc.solve B (front ++ id :: rest) id
    match answer with
    | .holds _ => findPass B nec n removed (front ++ [id]) rest cc
    | .fails m =>
      if nec.contains id then return (.inl (front ++ id :: rest), cc) else do
        let (maybe, vec) ← cc.removeSATClauses m nec (front ++ rest)
        if maybe then findPass B nec n true (vec.takeWhile (· < id)) (vec.dropWhile (· < id)) cc
        else return (.inl vec, cc)

/-- The passes of `findSafeMIS`, until one removes nothing. -/
def findPasses (B : Backend) (nec : List ℕ) : ℕ → List ℕ → ConsecutionChecker →
    Result (Bool × List ℕ × ConsecutionChecker)
  | 0, _, _ => throw .outOfFuel
  | n + 1, vec, cc => do
    match ← findPass B nec ((vec.length + 1) * (vec.length + 1)) false [] vec cc with
    | (.inl vec, cc) => return (false, vec, cc)
    | (.inr (removed, vec), cc) => if removed then findPasses B nec n vec cc else return (true, vec, cc)

def findSafeMIS (B : Backend) (cc : ConsecutionChecker) (vec nec : List ℕ) :
    Result (Bool × List ℕ × ConsecutionChecker) := do
  if containsAllOf vec nec then do
    let (safe, cc) ← cc.isSafeInductive B vec nec
    if safe then return (true, vec, cc)
    else findPasses B nec (vec.length + 1) (vec.insertionSort (· ≤ ·)) cc
  else return (false, vec, cc)

variable {B : Backend} {tr : TransitionRelation} {cls : ℕ → Clause} {base : Finset ℕ} {n : ℕ}
  {vm : VariableManager} {cc : ConsecutionChecker} {fail : Failure → Prop} {frame nec vec : List ℕ}
  {m : Assignment} {c : ℕ}

theorem containsAllOf_iff {props : List ℕ} : containsAllOf vec props = true ↔ props ⊆ vec := by
  simp [containsAllOf, List.subset_def]

def plain (cls : ℕ → Clause) (s : Finset ℕ) : Finset ℕ := s.filter fun d ↦ ¬ Tautology (cls d)

theorem satClause_tautology {c : Clause} (h : Tautology c) (x : Assignment) : satClause x c := by
  obtain ⟨lit, hl, hneg⟩ := h
  cases hv : litVal x lit with
  | true => exact ⟨lit, hl, hv⟩
  | false => exact ⟨negate lit, hneg, by rw [litVal_negate, hv]; rfl⟩

theorem inductive_plain {u : Finset ℕ} (h : Inductive (Supports tr cls) u) :
    Inductive (Supports tr cls) (plain cls u) := by
  intro c hc x y hxy hall
  refine h c (Finset.mem_filter.mp hc).1 x y hxy fun d hd ↦ ?_
  by_cases htaut : Tautology (cls d)
  · exact satClause_tautology htaut x
  · exact hall d (Finset.mem_filter.mpr ⟨hd, htaut⟩)

theorem feasible_plain {s t : Finset ℕ} (ht : ∀ c ∈ t, ¬ Tautology (cls c)) :
    Feasible (Supports tr cls) t (plain cls s) ↔ Feasible (Supports tr cls) t s := by
  constructor
  · exact fun h ↦ monotone_feasible (Finset.filter_subset _ s) h
  · intro h
    obtain ⟨u, hu, htu, hind⟩ := h
    refine ⟨plain cls u, Finset.filter_subset_filter _ hu, fun c hc ↦ ?_, inductive_plain hind⟩
    exact Finset.mem_filter.mpr ⟨htu hc, ht c hc⟩

theorem plain_eq {s : Finset ℕ} (h : ∀ c ∈ s, ¬ Tautology (cls c)) : plain cls s = s :=
  Finset.filter_true_of_mem h

theorem nprimes_valid {lit : ℕ} (h : ValidLit lit) : nprimes lit = 0 := by
  have hle := h.2
  rw [maxId_eq] at hle
  rw [nprimes_eq (by omega)]
  omega

theorem negcpSat_meets {c : Clause} (hc : ∀ lit ∈ c, ValidLit lit) :
    Meets (fun b ↦ b = true ↔
      ∀ lit ∈ c, cc.solver.safeGetAssignment m (negate (prime lit 1)) ≠ some false) fail
      (cc.negcpSat m c) := by
  induction c with
  | nil => simp [negcpSat]
  | cons lit c ih =>
    have hzero : (nprimes lit == 0) = true := beq_iff_eq.mpr (nprimes_valid (hc lit List.mem_cons_self))
    unfold negcpSat
    rw [hzero, ensure_true, ok_bind]
    by_cases hv : cc.solver.safeGetAssignment m (negate (prime lit 1)) = some false
    · simp [hv]
    · rw [if_neg hv]
      refine (ih fun l hl ↦ hc l (List.mem_cons_of_mem _ hl)).imp fun b hb ↦ ?_
      simp [hb, hv]

theorem removeSATClauses_meets (h : Rep B tr cls base n vm cc) (hc : Checkable tr cls base n)
    (hlost : ∀ d ∈ frame, ¬ Tautology (cls d) → (∀ lit ∈ cls d,
      cc.solver.safeGetAssignment m (negate (prime lit 1)) ≠ some false) →
        ¬ Supports tr cls frame.toFinset d)
    (hframe : ∀ d ∈ frame, d ∈ base) (hvec : vec ⊆ frame) (htaut : ∀ d ∈ nec, ¬ Tautology (cls d)) :
    Meets (fun r ↦ r.2.Sublist vec ∧
      (r.1 = true → (∀ d ∈ vec, ¬ Tautology (cls d) → d ∉ r.2 → ¬ Supports tr cls frame.toFinset d) ∧
        ∀ d ∈ nec, d ∈ vec → d ∈ r.2) ∧
      (r.1 = false → ∃ d ∈ nec, ¬ Supports tr cls frame.toFinset d)) fail
      (cc.removeSATClauses m nec vec) := by
  induction vec with
  | nil => exact ⟨.slnil, fun _ ↦ ⟨nofun, nofun⟩, nofun⟩
  | cons c vec ih =>
    have hcf : c ∈ frame := hvec List.mem_cons_self
    obtain ⟨e, he, rfl⟩ := h.ids c (hframe c hcf)
    have hvalid : ∀ lit ∈ e.clause, ValidLit lit := fun lit hl ↦
      (hc.lits _ (h.entered.mem e he) lit ((h.entered.mem_clause he).mp hl)).1.1
    have hrest := ih fun d hd ↦ hvec (List.mem_cons_of_mem _ hd)
    unfold removeSATClauses
    rw [(h.entry_meets he).1, ok_bind]
    refine (negcpSat_meets hvalid).bind fun b hb ↦ ?_
    cases b with
    | true =>
      have hno : ¬ Tautology (cls e.id) → ¬ Supports tr cls frame.toFinset e.id := fun ht ↦
        hlost e.id hcf ht fun lit hl ↦ hb.mp rfl lit ((h.entered.mem_clause he).mpr hl)
      rw [if_pos rfl]
      by_cases hnec : nec.contains e.id = true
      · have hmem := List.contains_iff_mem.mp hnec
        rw [if_pos hnec]
        exact ⟨List.sublist_cons_self _ _, nofun, fun _ ↦ ⟨_, hmem, hno (htaut _ hmem)⟩⟩
      · rw [if_neg hnec]
        refine hrest.imp fun r hr ↦ ⟨hr.1.cons _, fun hr' ↦ ⟨fun d hd ht hout ↦ ?_, fun d hd hdv ↦ ?_⟩,
          hr.2.2⟩
        · cases List.mem_cons.mp hd with
          | inl heq => exact heq ▸ hno (heq ▸ ht)
          | inr hmem => exact (hr.2.1 hr').1 d hmem ht hout
        · cases List.mem_cons.mp hdv with
          | inl heq => exact absurd (List.contains_iff_mem.mpr (heq ▸ hd)) hnec
          | inr hmem => exact (hr.2.1 hr').2 d hd hmem
    | false =>
      rw [if_neg Bool.false_ne_true]
      refine hrest.bind fun r hr ↦ ?_
      obtain ⟨maybe, vec'⟩ := r
      refine ⟨hr.1.cons_cons _, fun hr' ↦ ⟨fun d hd ht hout ↦ ?_, fun d hd hdv ↦ ?_⟩, hr.2.2⟩
      · rw [List.mem_cons, not_or] at hout
        exact (hr.2.1 hr').1 d ((List.mem_cons.mp hd).resolve_left hout.1) ht hout.2
      · cases List.mem_cons.mp hdv with
        | inl heq => exact List.mem_cons.mpr (.inl heq)
        | inr hmem => exact List.mem_cons_of_mem _ ((hr.2.1 hr').2 d hd hmem)

structure Passing (tr : TransitionRelation) (cls : ℕ → Clause) (nec : List ℕ) (s : Finset ℕ) (all : List ℕ)
    (removed : Bool) (front rest : List ℕ) : Prop where
  retains : Retains (Supports tr cls) (plain cls s) s (front ++ rest).toFinset
  nec_subset : nec ⊆ front ++ rest
  sublist : (front ++ rest).Sublist all
  lt : removed = true → (front ++ rest).length < all.length
  checked : removed = false → ∀ c ∈ front, Supports tr cls (front ++ rest).toFinset c

variable {s : Finset ℕ} {removed : Bool} {all front rest : List ℕ}

theorem Passing.mem_base (h : Passing tr cls nec s all removed front rest) (hs : s ⊆ base) {d : ℕ}
    (hd : d ∈ front ++ rest) : d ∈ base := hs (h.retains.subset (List.mem_toFinset.mpr hd))

theorem Passing.keep (h : Passing tr cls nec s all removed front (c :: rest))
    (hc : Supports tr cls (front ++ c :: rest).toFinset c) :
    Passing tr cls nec s all removed (front ++ [c]) rest := by
  have heq : front ++ [c] ++ rest = front ++ c :: rest := by simp
  refine ⟨heq ▸ h.retains, heq ▸ h.nec_subset, heq ▸ h.sublist, heq ▸ h.lt, fun hr d hd ↦ ?_⟩
  rw [heq]
  cases List.mem_append.mp hd with
  | inl hd => exact h.checked hr d hd
  | inr hd => exact List.mem_singleton.mp hd ▸ hc

/-- After clauses that the vector does not support have been removed from it. -/
theorem Passing.remove (h : Passing tr cls nec s all removed front (c :: rest)) (hnec : c ∉ nec)
    (hc : ¬ Supports tr cls (front ++ c :: rest).toFinset c) (hsub : vec.Sublist (front ++ rest))
    (hlost : ∀ d ∈ front ++ rest, ¬ Tautology (cls d) → d ∉ vec →
      ¬ Supports tr cls (front ++ c :: rest).toFinset d)
    (hkept : ∀ d ∈ nec, d ∈ front ++ rest → d ∈ vec) :
    Passing tr cls nec s all true (vec.takeWhile (· < c)) (vec.dropWhile (· < c)) := by
  have hlen : (front ++ rest).length < (front ++ c :: rest).length := by simp
  have hshort : vec.length < all.length := hsub.length_le.trans_lt (hlen.trans_le h.sublist.length_le)
  have hinto : front ++ rest ⊆ front ++ c :: rest :=
    ((List.Sublist.refl front).append (List.sublist_cons_self c rest)).subset
  have hinside : vec.Sublist all := (hsub.trans
    ((List.Sublist.refl front).append (List.sublist_cons_self c rest))).trans h.sublist
  have hother : ∀ d ∈ front ++ c :: rest, d ≠ c → d ∈ front ++ rest := by
    intro d hd hne
    cases List.mem_append.mp hd with
    | inl hd => exact List.mem_append_left _ hd
    | inr hd => exact List.mem_append_right _ ((List.mem_cons.mp hd).resolve_left hne)
  rw [← List.takeWhile_append_dropWhile (p := (· < c)) (l := vec)] at hshort hkept hinside
  refine ⟨?_, fun d hd ↦ ?_, hinside, fun _ ↦ hshort, nofun⟩
  · rw [List.takeWhile_append_dropWhile]
    refine h.retains.without (upward_supports tr cls) (fun d hd ↦ ?_) fun d hd hk hout ↦ ?_
    · exact List.mem_toFinset.mpr (hinto (hsub.subset (List.mem_toFinset.mp hd)))
    · by_cases heq : d = c
      · exact heq ▸ hc
      · exact hlost d (hother d (List.mem_toFinset.mp hd) heq) (Finset.mem_filter.mp hk).2 fun hmem ↦
          hout (List.mem_toFinset.mpr hmem)
  · exact hkept d hd (hother d (h.nec_subset hd) fun heq ↦ hnec (heq ▸ hd))

def Passed (tr : TransitionRelation) (cls : ℕ → Clause) (nec : List ℕ) (s : Finset ℕ) (all : List ℕ) :
    List ℕ ⊕ Bool × List ℕ → Prop
  | .inl _ => ¬ Feasible (Supports tr cls) nec.toFinset s
  | .inr (removed, vec) => Passing tr cls nec s all removed vec []

theorem findPass_meets (hc : Checkable tr cls base n) (hs : s ⊆ base)
    (htaut : ∀ d ∈ nec, ¬ Tautology (cls d)) {k : ℕ} (h : Rep B tr cls base n vm cc)
    (hfail : Refuted B tr cc.clausedb.entries → fail .assertion)
    (hp : Passing tr cls nec s all removed front rest)
    (hk : (front ++ rest).length * (all.length + 1) + rest.length < k) :
    Meets (fun r ↦ Rep B tr cls base n vm r.2 ∧ r.2.clausedb = cc.clausedb ∧
      Passed tr cls nec s all r.1) fail (findPass B nec k removed front rest cc) := by
  have hplain : ∀ d ∈ nec.toFinset, ¬ Tautology (cls d) := fun d hd ↦ htaut d (List.mem_toFinset.mp hd)
  induction k generalizing removed front rest cc with
  | zero => exact absurd hk (Nat.not_lt_zero _)
  | succ k ih =>
    cases rest with
    | nil =>
      rw [findPass]
      exact ⟨h, rfl, hp⟩
    | cons c rest =>
      have hmem : c ∈ front ++ c :: rest := List.mem_append_right _ List.mem_cons_self
      unfold findPass
      refine (solve_mem_meets h hc hfail (fun d hd ↦ hp.mem_base hs hd) hmem).bind fun r hr ↦ ?_
      obtain ⟨answer, cc'⟩ := r
      obtain ⟨h', -, hdb, hans⟩ := hr
      dsimp only at h' hdb hans ⊢
      cases answer with
      | holds support =>
        have hkeep := hp.keep (hans.iff.mp rfl)
        refine (ih h' (hdb ▸ hfail) hkeep ?_).imp fun r hr ↦ ⟨hr.1, hr.2.1.trans hdb, hr.2.2⟩
        have hlen : (front ++ [c] ++ rest).length = (front ++ c :: rest).length := by simp
        rw [hlen]
        rw [List.length_cons] at hk
        omega
      | fails m =>
        have hno : ¬ Supports tr cls (front ++ c :: rest).toFinset c := fun hsup ↦
          Bool.false_ne_true (hans.iff.mpr hsup)
        dsimp only
        by_cases hnec : nec.contains c = true
        · rw [if_pos hnec]
          refine ⟨h', hdb, mt (feasible_plain hplain).mpr ?_⟩
          exact hp.retains.not_feasible (upward_supports tr cls)
            (List.mem_toFinset.mpr (List.contains_iff_mem.mp hnec)) hno
        · rw [if_neg hnec]
          have hinto : front ++ rest ⊆ front ++ c :: rest :=
            ((List.Sublist.refl front).append (List.sublist_cons_self c rest)).subset
          refine (removeSATClauses_meets h' hc (hans.lost m rfl) (fun d hd ↦ hp.mem_base hs hd) hinto
            htaut).bind fun r hr ↦ ?_
          obtain ⟨maybe, vec⟩ := r
          obtain ⟨hsub, hyes, hnot⟩ := hr
          dsimp only at hsub hyes hnot ⊢
          cases maybe with
          | true =>
            obtain ⟨hlost, hkept⟩ := hyes rfl
            have hremove := hp.remove (fun hcn ↦ hnec (List.contains_iff_mem.mpr hcn)) hno hsub hlost hkept
            rw [if_pos rfl]
            refine (ih h' (hdb ▸ hfail) hremove ?_).imp fun r hr ↦ ⟨hr.1, hr.2.1.trans hdb, hr.2.2⟩
            have hdrop : (vec.dropWhile (· < c)).length ≤ vec.length :=
              (List.dropWhile_sublist _).length_le
            have hvec := hsub.length_le
            have hle := hp.sublist.length_le
            rw [List.takeWhile_append_dropWhile]
            rw [List.length_append] at hk hvec hle
            rw [List.length_cons] at hk hle
            have hmul : vec.length * (all.length + 1) ≤ (front.length + rest.length) * (all.length + 1) :=
              Nat.mul_le_mul_right _ hvec
            have hsplit : (front.length + (rest.length + 1)) * (all.length + 1) =
                (front.length + rest.length) * (all.length + 1) + (all.length + 1) := by ring
            omega
          | false =>
            obtain ⟨d, hd, hlost⟩ := hnot rfl
            refine ⟨h', hdb, mt (feasible_plain hplain).mpr ?_⟩
            exact hp.retains.not_feasible (upward_supports tr cls) (List.mem_toFinset.mpr hd) hlost

/-- What the search for a safe inductive subset answers. Of the clauses that are not tautologies
it finds as many as there can be. -/
structure Searched (tr : TransitionRelation) (cls : ℕ → Clause) (nec : List ℕ) (s : Finset ℕ) (found : Bool)
    (vec : List ℕ) : Prop where
  iff : found = true ↔ Feasible (Supports tr cls) nec.toFinset s
  retains : found = true → Retains (Supports tr cls) (plain cls s) s vec.toFinset
  holds : found = true → Inductive (Supports tr cls) vec.toFinset
  nec_subset : found = true → nec ⊆ vec

theorem searched_of_retains (hr : Retains (Supports tr cls) (plain cls s) s vec.toFinset)
    (hind : Inductive (Supports tr cls) vec.toFinset) (hnec : nec ⊆ vec) :
    Searched tr cls nec s true vec := by
  refine ⟨⟨fun _ ↦ ?_, fun _ ↦ rfl⟩, fun _ ↦ hr, fun _ ↦ hind, fun _ ↦ hnec⟩
  exact ⟨vec.toFinset, hr.subset, fun c hc ↦ List.mem_toFinset.mpr (hnec (List.mem_toFinset.mp hc)), hind⟩

theorem searched_of_not_feasible (h : ¬ Feasible (Supports tr cls) nec.toFinset s) :
    Searched tr cls nec s false vec := ⟨⟨nofun, fun hf ↦ absurd hf h⟩, nofun, nofun, nofun⟩

theorem findPasses_meets (hc : Checkable tr cls base n) (hs : s ⊆ base)
    (htaut : ∀ d ∈ nec, ¬ Tautology (cls d)) {k : ℕ} (h : Rep B tr cls base n vm cc)
    (hfail : Refuted B tr cc.clausedb.entries → fail .assertion)
    (hr : Retains (Supports tr cls) (plain cls s) s vec.toFinset) (hnec : nec ⊆ vec)
    (hk : vec.length < k) :
    Meets (fun r ↦ Rep B tr cls base n vm r.2.2 ∧ r.2.2.clausedb = cc.clausedb ∧
      Searched tr cls nec s r.1 r.2.1 ∧ (r.1 = true → r.2.1.Sublist vec)) fail
      (findPasses B nec k vec cc) := by
  induction k generalizing vec cc with
  | zero => exact absurd hk (Nat.not_lt_zero _)
  | succ k ih =>
    have hstart : Passing tr cls nec s vec false [] vec :=
      ⟨hr, hnec, .refl vec, nofun, fun _ c hcm ↦ absurd hcm List.not_mem_nil⟩
    unfold findPasses
    refine (findPass_meets hc hs htaut h hfail hstart ?_).bind fun r hr ↦ ?_
    · have hsq : (vec.length + 1) * (vec.length + 1) = vec.length * (vec.length + 1) + (vec.length + 1) := by
        ring
      rw [List.nil_append]
      omega
    obtain ⟨out, cc'⟩ := r
    obtain ⟨h', hdb, hpassed⟩ := hr
    dsimp only at h' hdb hpassed ⊢
    cases out with
    | inl vec' => exact ⟨h', hdb, searched_of_not_feasible hpassed, nofun⟩
    | inr out =>
      obtain ⟨removed, vec'⟩ := out
      have hp : Passing tr cls nec s vec removed vec' [] := hpassed
      have hall : vec' ++ [] = vec' := List.append_nil vec'
      have hsub := hp.sublist
      rw [hall] at hsub
      dsimp only
      cases removed with
      | true =>
        have hlt := hp.lt rfl
        rw [hall] at hlt
        rw [if_pos rfl]
        refine (ih h' (hdb ▸ hfail) (hall ▸ hp.retains) (hall ▸ hp.nec_subset) (by omega)).imp
          fun r hr ↦ ⟨hr.1, hr.2.1.trans hdb, hr.2.2.1, fun hf ↦ ?_⟩
        exact (hr.2.2.2 hf).trans hsub
      | false =>
        rw [if_neg Bool.false_ne_true]
        refine ⟨h', hdb, searched_of_retains (hall ▸ hp.retains) (fun c hcm ↦ ?_) (hall ▸ hp.nec_subset),
          fun _ ↦ hsub⟩
        have hchecked := hp.checked rfl c (List.mem_toFinset.mp hcm)
        rwa [hall] at hchecked

theorem findSafeMIS_meets (h : Rep B tr cls base n vm cc) (hc : Checkable tr cls base n)
    (hvec : ∀ d ∈ vec, d ∈ base) (htaut : ∀ d ∈ nec, ¬ Tautology (cls d))
    (hfail : Refuted B tr cc.clausedb.entries → fail .assertion) :
    Meets (fun r ↦ Rep B tr cls base n vm r.2.2 ∧ r.2.2.clausedb = cc.clausedb ∧
      Searched tr cls nec vec.toFinset r.1 r.2.1 ∧ (r.1 = true → r.2.1.Subperm vec)) fail
      (cc.findSafeMIS B vec nec) := by
  have hs : vec.toFinset ⊆ base := fun d hd ↦ hvec d (List.mem_toFinset.mp hd)
  have hretains : Retains (Supports tr cls) (plain cls vec.toFinset) vec.toFinset vec.toFinset :=
    .start (Finset.filter_subset _ _)
  unfold findSafeMIS
  by_cases hall : containsAllOf vec nec = true
  · have hnec := containsAllOf_iff.mp hall
    rw [if_pos hall]
    unfold isSafeInductive
    rw [if_pos hall]
    refine (isInductive_meets h hc hfail hvec).bind fun r hr ↦ ?_
    obtain ⟨safe, cc'⟩ := r
    obtain ⟨h', hdb, -, hiff⟩ := hr
    dsimp only at h' hdb hiff ⊢
    cases safe with
    | true =>
      rw [if_pos rfl]
      exact ⟨h', hdb, searched_of_retains hretains (hiff.mp rfl) hnec, fun _ ↦ List.Subperm.refl vec⟩
    | false =>
      have hperm := List.perm_insertionSort (· ≤ ·) vec
      have hsame : (vec.insertionSort (· ≤ ·)).toFinset = vec.toFinset := List.toFinset_eq_of_perm _ _ hperm
      rw [if_neg Bool.false_ne_true]
      refine (findPasses_meets hc (hsame.symm ▸ hs) htaut h' (hdb ▸ hfail) (hsame.symm ▸ hretains)
        (fun d hd ↦ hperm.mem_iff.mpr (hnec hd)) ?_).imp fun r hr ↦ ?_
      · rw [hperm.length_eq]
        exact Nat.lt_succ_self _
      · obtain ⟨hrep, hdb', hfound, hsub⟩ := hr
        rw [hsame] at hfound
        exact ⟨hrep, hdb'.trans hdb, hfound, fun hf ↦ (hsub hf).subperm.trans hperm.subperm⟩
  · rw [if_neg hall]
    refine ⟨h, rfl, searched_of_not_feasible fun hf ↦ hall (containsAllOf_iff.mpr fun d hd ↦ ?_), nofun⟩
    exact List.mem_toFinset.mp (hf.nec_subset (List.mem_toFinset.mpr hd))

section Keeping

theorem removeSATClauses_sublist (vec : List ℕ) :
    Meets (fun r ↦ r.2.Sublist vec) (fun _ ↦ True) (cc.removeSATClauses m nec vec) := by
  induction vec with
  | nil => exact .slnil
  | cons id vec ih =>
    unfold removeSATClauses
    refine (meets_any _).bind fun cls _ ↦ (meets_any _).bind fun sat _ ↦ ?_
    cases sat with
    | true =>
      rw [if_pos rfl]
      by_cases hnec : nec.contains id = true
      · rw [if_pos hnec]
        exact List.sublist_cons_self id vec
      · rw [if_neg hnec]
        exact ih.imp fun r hr ↦ hr.cons id
    | false =>
      rw [if_neg Bool.false_ne_true]
      exact ih.bind fun r hr ↦ hr.cons_cons id

theorem findPass_keeps (hc : Checkable tr cls base n) {k : ℕ} (h : Rep B tr cls base n vm cc)
    (hbase : ∀ d ∈ front ++ rest, d ∈ base) :
    Meets (fun r ↦ Rep B tr cls base n vm r.2 ∧ r.2.clausedb = cc.clausedb ∧
      ∀ p, r.1 = .inr p → ∀ d ∈ p.2, d ∈ base) (fun _ ↦ True) (findPass B nec k removed front rest cc) := by
  induction k generalizing removed front rest cc with
  | zero => exact trivial
  | succ k ih =>
    cases rest with
    | nil =>
      rw [findPass]
      rw [List.append_nil] at hbase
      exact ⟨h, rfl, fun p hp ↦ by cases hp; exact hbase⟩
    | cons c rest =>
      have hsub : front ++ rest ⊆ front ++ c :: rest :=
        ((List.Sublist.refl front).append (List.sublist_cons_self c rest)).subset
      unfold findPass
      refine (solve_mem_meets h hc (fun _ ↦ trivial) hbase
        (List.mem_append_right _ List.mem_cons_self)).bind fun r hr ↦ ?_
      obtain ⟨answer, cc'⟩ := r
      obtain ⟨h', -, hdb, -⟩ := hr
      dsimp only at h' hdb ⊢
      cases answer with
      | holds support =>
        have hsame : front ++ [c] ++ rest = front ++ c :: rest := by simp
        exact (ih h' (hsame ▸ hbase)).imp fun r hr ↦ ⟨hr.1, hr.2.1.trans hdb, hr.2.2⟩
      | fails m =>
        dsimp only
        by_cases hnec : nec.contains c = true
        · rw [if_pos hnec]
          exact ⟨h', hdb, nofun⟩
        · rw [if_neg hnec]
          refine (removeSATClauses_sublist (front ++ rest)).bind fun r hr ↦ ?_
          obtain ⟨maybe, vec⟩ := r
          cases maybe with
          | true =>
            rw [if_pos rfl]
            refine (ih h' fun d hd ↦ ?_).imp fun r hr ↦ ⟨hr.1, hr.2.1.trans hdb, hr.2.2⟩
            rw [List.takeWhile_append_dropWhile] at hd
            exact hbase d (hsub (hr.subset hd))
          | false => exact ⟨h', hdb, nofun⟩

theorem findPasses_keeps (hc : Checkable tr cls base n) {k : ℕ} (h : Rep B tr cls base n vm cc)
    (hvec : ∀ d ∈ vec, d ∈ base) :
    Meets (fun r ↦ Rep B tr cls base n vm r.2.2 ∧ r.2.2.clausedb = cc.clausedb) (fun _ ↦ True)
      (findPasses B nec k vec cc) := by
  induction k generalizing vec cc with
  | zero => exact trivial
  | succ k ih =>
    unfold findPasses
    refine (findPass_keeps hc h hvec).bind fun r hr ↦ ?_
    obtain ⟨out, cc'⟩ := r
    obtain ⟨h', hdb, hkept⟩ := hr
    cases out with
    | inl vec' => exact ⟨h', hdb⟩
    | inr out =>
      obtain ⟨removed, vec'⟩ := out
      cases removed with
      | true => exact (ih h' (hkept _ rfl)).imp fun r hr ↦ ⟨hr.1, hr.2.trans hdb⟩
      | false => exact ⟨h', hdb⟩

/-- The queries of a search leave a checker with the same clauses, also where its answer is wrong
because of tautologies. -/
theorem findSafeMIS_keeps (h : Rep B tr cls base n vm cc) (hc : Checkable tr cls base n)
    (hvec : ∀ d ∈ vec, d ∈ base) :
    Meets (fun r ↦ Rep B tr cls base n vm r.2.2 ∧ r.2.2.clausedb = cc.clausedb) (fun _ ↦ True)
      (cc.findSafeMIS B vec nec) := by
  unfold findSafeMIS
  by_cases hall : containsAllOf vec nec = true
  · rw [if_pos hall]
    unfold isSafeInductive
    rw [if_pos hall]
    refine (isInductive_meets h hc (fun _ ↦ trivial) hvec).bind fun r hr ↦ ?_
    obtain ⟨safe, cc'⟩ := r
    obtain ⟨h', hdb, -⟩ := hr
    cases safe with
    | true => exact ⟨h', hdb⟩
    | false =>
      have hperm := List.perm_insertionSort (· ≤ ·) vec
      refine (findPasses_keeps hc h' fun d hd ↦ ?_).imp fun r hr ↦ ⟨hr.1, hr.2.trans hdb⟩
      exact hvec d (hperm.mem_iff.mp hd)
  · rw [if_neg hall]
    exact ⟨h, rfl⟩

end Keeping

end ConsecutionChecker

end PME
