import PME.Debugger

namespace PME

open Outcome Exploration

structure BasicMCSFinder (X : Type) where
  solver : X
  cardinality : ℕ

namespace BasicMCSFinder

variable {X : Type}

def new (solver : X) : BasicMCSFinder X := ⟨solver, 1⟩

section Finder

variable (V : Debugger X) (tr : TransitionRelation)

def setCardinality (f : BasicMCSFinder X) (n : ℕ) : Result (BasicMCSFinder X) := do
  let solver ← (if n ≥ tr.gates.length then V.clearCardinality f.solver
    else V.setCardinality f.solver n)
  return { f with solver := solver }

def doDebug (f : BasicMCSFinder X) (gates : List ℕ) :
    Result (Option CorrectionSet × BasicMCSFinder X) := do
  let (result, solver) ← (if gates.isEmpty then V.debugAndBlock f.solver
    else V.debugAndBlockOverGates f.solver gates)
  return (result, { f with solver := solver })

def moreCorrectionSets (f : BasicMCSFinder X) (n : ℕ) : Result (Bool × BasicMCSFinder X) := do
  let f ← setCardinality V tr f n
  let (result, solver) ← V.debug f.solver
  return (result.isSome, { f with solver := solver })

/-- `++cardinality` of an `unsigned`. -/
def increment (cardinality : ℕ) : ℕ := (cardinality + 1) % 2 ^ 32

/-- The loop of `doFind` at a cardinality. -/
def doFindFrom : ℕ → List ℕ → ℕ → ℕ → BasicMCSFinder X →
    Result (Option CorrectionSet × BasicMCSFinder X)
  | 0, _, _, _, _ => throw .outOfFuel
  | fuel + 1, gates, n, cardinality, f =>
    if cardinality ≤ n then do
      -- a global search keeps its cardinality
      let f := if gates.isEmpty then { f with cardinality := cardinality } else f
      let f ← setCardinality V tr f cardinality
      let (result, f) ← doDebug V f gates
      if result.isSome then return (result, f)
      let (more, f) ← moreCorrectionSets V tr f n
      if more then doFindFrom fuel gates n (increment cardinality) f else return (none, f)
    else return (none, f)

def doFind (fuel : ℕ) (f : BasicMCSFinder X) (gates : List ℕ) (n : ℕ) :
    Result (Option CorrectionSet × BasicMCSFinder X) :=
  doFindFrom V tr fuel gates n (if gates.isEmpty then f.cardinality else 1) f

def findNextOverGates (fuel : ℕ) (f : BasicMCSFinder X) (gates : List ℕ) (n : ℕ) :
    Result (Option CorrectionSet × BasicMCSFinder X) := doFind V tr fuel f gates n

def findNext (fuel : ℕ) (f : BasicMCSFinder X) (n : ℕ) :
    Result (Option CorrectionSet × BasicMCSFinder X) := doFind V tr fuel f [] n

def block (f : BasicMCSFinder X) (corr : CorrectionSet) : Result (BasicMCSFinder X) := do
  let solver ← V.blockSolution f.solver corr
  return { f with solver := solver }

/-- So many calls of `findNext()` one after the other. -/
def findNexts (fuel : ℕ) : ℕ → BasicMCSFinder X →
    Result (List (Option CorrectionSet) × BasicMCSFinder X)
  | 0, f => return ([], f)
  | k + 1, f => do
    let (result, f) ← findNext V tr fuel f cardinalityInf
    let (results, f) ← findNexts fuel k f
    return (result :: results, f)

/-- The states that a sequence of calls can lead to, with the sets blocked on the way. -/
inductive Reached (x₀ : X) : List (Finset ℕ) → BasicMCSFinder X → Prop
  | start : Reached x₀ [] (new x₀)
  | findNextOverGates {blocked : List (Finset ℕ)} {f f' : BasicMCSFinder X} {fuel n : ℕ}
      {gates : List ℕ} {r : Option CorrectionSet} (hf : Reached x₀ blocked f)
      (hgates : gates ⊆ tr.gateIDs) (hcall : findNextOverGates V tr fuel f gates n = .ok (r, f')) :
      Reached x₀ (blockedBy blocked r) f'
  | findNext {blocked : List (Finset ℕ)} {f f' : BasicMCSFinder X} {fuel n : ℕ}
      {r : Option CorrectionSet} (hf : Reached x₀ blocked f)
      (hcall : findNext V tr fuel f n = .ok (r, f')) : Reached x₀ (blockedBy blocked r) f'
  | moreCorrectionSets {blocked : List (Finset ℕ)} {f f' : BasicMCSFinder X} {n : ℕ} {more : Bool}
      (hf : Reached x₀ blocked f) (hcall : moreCorrectionSets V tr f n = .ok (more, f')) :
      Reached x₀ blocked f'
  | block {blocked : List (Finset ℕ)} {f f' : BasicMCSFinder X} {corr : CorrectionSet}
      (hf : Reached x₀ blocked f) (hcorr : corr ⊆ tr.gateIDs) (hne : corr ≠ [])
      (hcall : block V f corr = .ok f') : Reached x₀ (blocked ++ [corr.toFinset]) f'

end Finder

variable {V : Debugger X} {tr : TransitionRelation} {bad : Finset ℕ → Prop}
  {Rep : ℕ → List (Finset ℕ) → X → Prop} {fail : Failure → Prop} {limit : ℕ}
  {blocked : List (Finset ℕ)} {f : BasicMCSFinder X} {gates : List ℕ} {n c : ℕ}

theorem blockedBy_none : blockedBy blocked none = blocked := List.append_nil blocked

def suspects (tr : TransitionRelation) (gates : List ℕ) : List ℕ :=
  if gates.isEmpty then tr.gateIDs else gates

theorem setCardinality_meets (h : V.Exact bad tr.gateIDs Rep fail) (hwf : tr.WellFormed)
    (hf : Rep limit blocked f.solver) (n : ℕ) :
    Meets (fun f' ↦ f'.cardinality = f.cardinality ∧ Rep (min n tr.gateIDs.length) blocked f'.solver)
      fail (setCardinality V tr f n) := by
  have hlen : tr.gates.length = tr.gateIDs.length := by rw [hwf.gateIDs_eq, List.length_map]
  unfold setCardinality
  rw [hlen]
  split
  · next hn =>
    refine (h.clearCardinality hf).bind fun x hx ↦ ⟨rfl, ?_⟩
    rw [Nat.min_eq_right hn]
    exact hx
  · next hn =>
    refine (h.setCardinality hf (Nat.not_le.mp hn)).bind fun x hx ↦ ⟨rfl, ?_⟩
    rw [Nat.min_eq_left (Nat.not_le.mp hn).le]
    exact hx

theorem doDebug_meets (h : V.Exact bad tr.gateIDs Rep fail) (hbad : ¬ bad ∅)
    (hf : Rep limit blocked f.solver) (hgates : gates ⊆ tr.gateIDs) :
    Meets (fun r ↦ r.2.cardinality = f.cardinality ∧
        DebugAnswer bad (suspects tr gates) limit blocked r.1 ∧
        Rep limit (blockedBy blocked r.1) r.2.solver) fail (doDebug V f gates) := by
  unfold doDebug suspects
  split
  · exact (h.debugAndBlock hbad hf).bind fun r hr ↦ ⟨rfl, hr⟩
  · exact (h.debugAndBlockOverGates hbad hgates hf).bind fun r hr ↦ ⟨rfl, hr⟩

theorem moreCorrectionSets_meets (h : V.Exact bad tr.gateIDs Rep fail) (hwf : tr.WellFormed)
    (hf : Rep limit blocked f.solver) (n : ℕ) :
    Meets (fun r ↦ r.2.cardinality = f.cardinality ∧ (∃ limit, Rep limit blocked r.2.solver) ∧
        (r.1 = true ↔ ¬ Covers bad tr.gateIDs.toFinset blocked (min n tr.gateIDs.length))) fail
      (moreCorrectionSets V tr f n) := by
  unfold moreCorrectionSets
  refine (setCardinality_meets h hwf hf n).bind fun f' hf' ↦ ?_
  obtain ⟨hcard, hf'⟩ := hf'
  refine (h.debug hf').bind fun r hr ↦ ?_
  obtain ⟨answer, x⟩ := r
  obtain ⟨hanswer, hx⟩ := hr
  refine ⟨hcard, ⟨_, hx⟩, ?_⟩
  cases answer with
  | none => exact ⟨nofun, fun hno ↦ absurd hanswer hno⟩
  | some soln =>
    refine ⟨fun _ hcovers ↦ ?_, fun _ ↦ rfl⟩
    obtain ⟨hsub, hle, hsoln, hopen⟩ := hanswer
    have hbase : soln.toFinset ⊆ tr.gateIDs.toFinset := fun g hg ↦
      List.mem_toFinset.mpr (hsub (List.mem_toFinset.mp hg))
    exact hcovers _ hbase hle hsoln hopen

structure Left (Rep : ℕ → List (Finset ℕ) → X → Prop) (blocked : List (Finset ℕ)) (c : ℕ)
    (f : BasicMCSFinder X) : Prop where
  rep : ∃ limit, Rep limit blocked f.solver
  cardinality : f.cardinality = c

/-- One turn of the loop ends with a solution, or with the probe, which says whether to go on. -/
theorem turn_meets (h : V.Exact bad tr.gateIDs Rep fail) (hwf : tr.WellFormed) (hbad : ¬ bad ∅)
    (hgates : gates ⊆ tr.gateIDs) (hf : ∃ limit, Rep limit blocked f.solver) (hle : c ≤ n) {kept : ℕ}
    (hkept : kept = if gates.isEmpty then c else f.cardinality) {fuel : ℕ}
    {post : Option CorrectionSet × BasicMCSFinder X → Prop}
    (hfound : ∀ soln f',
      DebugAnswer bad (suspects tr gates) (min c tr.gateIDs.length) blocked (some soln) →
      Left Rep (blockedBy blocked (some soln)) kept f' → post (some soln, f'))
    (hdone : ∀ f', Covers bad (suspects tr gates).toFinset blocked (min c tr.gateIDs.length) →
      Covers bad tr.gateIDs.toFinset blocked (min n tr.gateIDs.length) → Left Rep blocked kept f' →
      post (none, f'))
    (hmore : ∀ f', Covers bad (suspects tr gates).toFinset blocked (min c tr.gateIDs.length) →
      ¬ Covers bad tr.gateIDs.toFinset blocked (min n tr.gateIDs.length) → Left Rep blocked kept f' →
      Meets post fail (doFindFrom V tr fuel gates n (increment c) f')) :
    Meets post fail (doFindFrom V tr (fuel + 1) gates n c f) := by
  unfold doFindFrom
  rw [if_pos hle]
  obtain ⟨limit, hrep⟩ := hf
  obtain ⟨g, hg⟩ : ∃ g, g = if gates.isEmpty then { f with cardinality := c } else f := ⟨_, rfl⟩
  have hgrep : Rep limit blocked g.solver := by
    rw [hg]
    split <;> exact hrep
  have hgcard : g.cardinality = kept := by
    rw [hg, hkept]
    split <;> rfl
  rw [← hg]
  refine (setCardinality_meets h hwf hgrep c).bind fun f₁ hf₁ ↦ ?_
  obtain ⟨hcard₁, hrep₁⟩ := hf₁
  refine (doDebug_meets h hbad hrep₁ hgates).bind fun r hr ↦ ?_
  obtain ⟨answer, f₂⟩ := r
  obtain ⟨hcard₂, hanswer, hrep₂⟩ := hr
  dsimp only at hcard₂ hanswer hrep₂ ⊢
  cases answer with
  | some soln => exact hfound soln f₂ hanswer ⟨⟨_, hrep₂⟩, hcard₂.trans (hcard₁.trans hgcard)⟩
  | none =>
    rw [blockedBy_none] at hrep₂
    refine (moreCorrectionSets_meets h hwf hrep₂ n).bind fun r hr ↦ ?_
    obtain ⟨more, f₃⟩ := r
    obtain ⟨hcard₃, hrep₃, hmore'⟩ := hr
    dsimp only at hcard₃ hrep₃ hmore' ⊢
    have hleft : Left Rep blocked kept f₃ :=
      ⟨hrep₃, hcard₃.trans (hcard₂.trans (hcard₁.trans hgcard))⟩
    cases more with
    | true => exact hmore f₃ hanswer (hmore'.mp rfl) hleft
    | false =>
      refine hdone f₃ hanswer ?_ hleft
      by_contra hno
      exact Bool.false_ne_true (hmore'.mpr hno)

section History

theorem doFindFrom_left (h : V.Exact bad tr.gateIDs Rep fail) (hwf : tr.WellFormed) (hbad : ¬ bad ∅)
    (hfuel : fail .outOfFuel) (hgates : gates ⊆ tr.gateIDs) (hf : ∃ limit, Rep limit blocked f.solver)
    (fuel : ℕ) : Meets (fun r ↦ ∃ limit, Rep limit (blockedBy blocked r.1) r.2.solver) fail
      (doFindFrom V tr fuel gates n c f) := by
  induction fuel generalizing c f with
  | zero => exact hfuel
  | succ fuel ih =>
    by_cases hle : c ≤ n
    · apply turn_meets h hwf hbad hgates hf hle rfl
      · intro soln f' _ hleft
        exact hleft.rep
      · intro f' _ _ hleft
        rw [blockedBy_none]
        exact hleft.rep
      · intro f' _ _ hleft
        exact ih hleft.rep
    · unfold doFindFrom
      rw [if_neg hle, meets_pure, blockedBy_none]
      exact hf

theorem block_meets (h : V.Exact bad tr.gateIDs Rep fail) (hf : Rep limit blocked f.solver)
    {corr : CorrectionSet} (hcorr : corr ⊆ tr.gateIDs) (hne : corr ≠ []) :
    Meets (fun f' ↦ Rep limit (blocked ++ [corr.toFinset]) f'.solver) fail (block V f corr) :=
  (h.blockSolution hf hcorr hne).bind fun _ hx ↦ hx

theorem Reached.rep (h : V.Exact bad tr.gateIDs Rep fail) (hwf : tr.WellFormed) (hbad : ¬ bad ∅)
    (hfuel : fail .outOfFuel) {x₀ : X} (hstart : Rep tr.gateIDs.length [] x₀)
    (hf : Reached V tr x₀ blocked f) : ∃ limit, Rep limit blocked f.solver := by
  induction hf with
  | start => exact ⟨_, hstart⟩
  | findNextOverGates _ hgates hcall ih =>
    exact (doFindFrom_left h hwf hbad hfuel hgates ih _).of_ok hcall
  | findNext _ hcall ih =>
    exact (doFindFrom_left h hwf hbad hfuel (List.nil_subset _) ih _).of_ok hcall
  | moreCorrectionSets _ hcall ih =>
    obtain ⟨limit, hrep⟩ := ih
    exact ((moreCorrectionSets_meets h hwf hrep _).of_ok hcall).2.1
  | block _ hcorr hne hcall ih =>
    obtain ⟨limit, hrep⟩ := ih
    exact ⟨limit, (block_meets h hrep hcorr hne).of_ok hcall⟩

end History

section Global

structure Knows (bad : Finset ℕ → Prop) (tr : TransitionRelation)
    (Rep : ℕ → List (Finset ℕ) → X → Prop) (found : List (Finset ℕ)) (f : BasicMCSFinder X) :
    Prop where
  rep : ∃ limit, Rep limit found f.solver
  smallest : SmallestFirst bad tr.gateIDs.toFinset found f.cardinality
  le : f.cardinality ≤ tr.gateIDs.length

structure Next (bad : Finset ℕ → Prop) (tr : TransitionRelation)
    (Rep : ℕ → List (Finset ℕ) → X → Prop) (found : List (Finset ℕ))
    (r : Option CorrectionSet × BasicMCSFinder X) : Prop where
  knows : Knows bad tr Rep (blockedBy found r.1) r.2
  done : r.1 = none → ∀ t ⊆ tr.gateIDs.toFinset, bad t → ¬ Unblocked found t
  unblocked : ∀ soln, r.1 = some soln → soln ⊆ tr.gateIDs ∧ bad soln.toFinset ∧ Unblocked found soln.toFinset

theorem card_le_length {t : Finset ℕ} (ht : t ⊆ tr.gateIDs.toFinset) : t.card ≤ tr.gateIDs.length :=
  (Finset.card_le_card ht).trans (List.toFinset_card_le _)

theorem doFindFrom_next (h : V.Exact bad tr.gateIDs Rep fail) (hwf : tr.WellFormed) (hbad : ¬ bad ∅)
    (hsize : tr.gateIDs.length < 2 ^ 32) {fuel : ℕ} (hfuel : tr.gateIDs.length < fuel + c)
    (hle : c ≤ tr.gateIDs.length) (hf : ∃ limit, Rep limit blocked f.solver)
    (hs : SmallestFirst bad tr.gateIDs.toFinset blocked c) :
    Meets (Next bad tr Rep blocked) fail (doFindFrom V tr fuel [] cardinalityInf c f) := by
  induction fuel generalizing c f with
  | zero => omega
  | succ fuel ih =>
    have hinf : cardinalityInf = 2 ^ 32 - 1 := rfl
    apply turn_meets h hwf hbad (List.nil_subset _) hf (by omega) rfl
    · intro soln f' hanswer hleft
      obtain ⟨hsub, hcard, hsoln, hopen⟩ := hanswer
      have hbase : soln.toFinset ⊆ tr.gateIDs.toFinset := fun g hg ↦
        List.mem_toFinset.mpr (hsub (List.mem_toFinset.mp hg))
      have hnew := hs.add hbase (hcard.trans (Nat.min_le_left _ _)) hsoln hopen
      exact ⟨⟨hleft.rep, hleft.cardinality ▸ hnew, hleft.cardinality ▸ hle⟩, nofun, fun soln' hsoln' ↦
        Option.some.inj hsoln' ▸ ⟨hsub, hsoln, hopen⟩⟩
    · intro f' _ hcovers hleft
      refine ⟨?_, fun _ t ht ↦ hcovers t ht (Nat.le_min.mpr ⟨?_, card_le_length ht⟩), nofun⟩
      · rw [blockedBy_none]
        exact ⟨hleft.rep, hleft.cardinality ▸ hs, hleft.cardinality ▸ hle⟩
      · exact (card_le_length ht).trans (by omega)
    · intro f' hnone hmore hleft
      have hcovers : Covers bad tr.gateIDs.toFinset blocked c := by
        rw [Nat.min_eq_left hle] at hnone
        exact hnone
      have hlt : c < tr.gateIDs.length := by
        by_contra hge
        refine hmore fun t ht hcard ↦ hcovers t ht ?_
        exact (hcard.trans (Nat.min_le_right _ _)).trans (Nat.not_lt.mp hge)
      have hinc : increment c = c + 1 := Nat.mod_eq_of_lt (by omega)
      rw [hinc]
      exact ih (by omega) hlt hleft.rep (hs.raise hcovers)

theorem findNext_next (h : V.Exact bad tr.gateIDs Rep fail) (hwf : tr.WellFormed) (hbad : ¬ bad ∅)
    (hsize : tr.gateIDs.length < 2 ^ 32) {fuel : ℕ} (hfuel : tr.gateIDs.length < fuel)
    (hk : Knows bad tr Rep blocked f) :
    Meets (Next bad tr Rep blocked) fail (findNext V tr fuel f cardinalityInf) :=
  doFindFrom_next h hwf hbad hsize (by omega) hk.le hk.rep hk.smallest

theorem findNexts_done (h : V.Exact bad tr.gateIDs Rep fun _ ↦ False) (hwf : tr.WellFormed)
    (hbad : ¬ bad ∅) (hsize : tr.gateIDs.length < 2 ^ 32) {fuel : ℕ} (hfuel : tr.gateIDs.length < fuel)
    (hk : Knows bad tr Rep blocked f)
    (hdone : ∀ t ⊆ tr.gateIDs.toFinset, bad t → ¬ Unblocked blocked t) (k : ℕ) :
    ∃ f', findNexts V tr fuel k f = .ok (List.replicate k none, f') := by
  induction k generalizing f with
  | zero => exact ⟨f, rfl⟩
  | succ k ih =>
    obtain ⟨⟨result, f₁⟩, hok, hnext⟩ := (findNext_next h hwf hbad hsize hfuel hk).exists_ok
    have hnone : result = none := by
      cases result with
      | none => rfl
      | some soln =>
        obtain ⟨hsub, hsoln, hopen⟩ := hnext.unblocked soln rfl
        have hbase : soln.toFinset ⊆ tr.gateIDs.toFinset := fun g hg ↦
          List.mem_toFinset.mpr (hsub (List.mem_toFinset.mp hg))
        exact absurd hopen (hdone _ hbase hsoln)
    subst hnone
    have hk' : Knows bad tr Rep (blockedBy blocked none) f₁ := hnext.knows
    rw [blockedBy_none] at hk'
    obtain ⟨f', hrest⟩ := ih hk'
    refine ⟨f', ?_⟩
    unfold findNexts
    rw [hok, ok_bind]
    dsimp only
    rw [hrest, ok_bind, List.replicate_succ]
    rfl

/-- The next calls return what is missing, smaller sets first, and then nothing. -/
theorem findNexts_enumerates (h : V.Exact bad tr.gateIDs Rep fun _ ↦ False) (hwf : tr.WellFormed)
    (hbad : ¬ bad ∅) (hsize : tr.gateIDs.length < 2 ^ 32) {fuel : ℕ} (hfuel : tr.gateIDs.length < fuel)
    {found : List (Finset ℕ)} (hk : Knows bad tr Rep found f) :
    ∃ L : List CorrectionSet, Explored.Complete bad tr.gateIDs.toFinset (found ++ L.map List.toFinset) ∧
      (found ++ L.map List.toFinset).Pairwise (fun u v ↦ u.card ≤ v.card) ∧
      ∀ k, ∃ f', findNexts V tr fuel k f = .ok ((List.range k).map (L[·]?), f') := by
  obtain ⟨m, hm⟩ : ∃ m, 2 ^ tr.gateIDs.toFinset.card - found.length = m := ⟨_, rfl⟩
  induction m using Nat.strong_induction_on generalizing found f with
  | _ m ih =>
    obtain ⟨⟨result, f₁⟩, hok, hnext⟩ := (findNext_next h hwf hbad hsize hfuel hk).exists_ok
    cases result with
    | none =>
      have hdone := hnext.done rfl
      refine ⟨[], ?_, ?_, fun k ↦ ?_⟩
      · rw [List.map_nil, List.append_nil]
        exact hk.smallest.complete hdone
      · rw [List.map_nil, List.append_nil]
        exact hk.smallest.sorted
      · obtain ⟨f', hrest⟩ := findNexts_done h hwf hbad hsize hfuel hk hdone k
        refine ⟨f', hrest.trans ?_⟩
        simp [List.map_const']
    | some soln =>
      have hk' : Knows bad tr Rep (found ++ [soln.toFinset]) f₁ := hnext.knows
      have hlen := hk'.smallest.length_le
      rw [List.length_append, List.length_singleton] at hlen
      have hlt : 2 ^ tr.gateIDs.toFinset.card - (found ++ [soln.toFinset]).length < m := by
        rw [List.length_append, List.length_singleton]
        omega
      obtain ⟨L, hcomplete, hsorted, hcalls⟩ := ih _ hlt hk' rfl
      have hmap : found ++ (soln :: L).map List.toFinset = found ++ [soln.toFinset] ++ L.map List.toFinset := by
        rw [List.map_cons, List.append_assoc, List.singleton_append]
      refine ⟨soln :: L, hmap ▸ hcomplete, hmap ▸ hsorted, fun k ↦ ?_⟩
      cases k with
      | zero => exact ⟨f, rfl⟩
      | succ k =>
        obtain ⟨f', hrest⟩ := hcalls k
        refine ⟨f', ?_⟩
        unfold findNexts
        rw [hok, ok_bind]
        dsimp only
        rw [hrest, ok_bind, List.range_succ_eq_map]
        simp [pure, Except.pure, Function.comp_def]

/-- Exactly the minimal correction sets are found, each once and smaller ones first, and then
nothing any more, by a debugger that answers exactly. -/
theorem findNexts_right (V : Debugger X) (tr : TransitionRelation)
    (Rep : ℕ → List (Finset ℕ) → X → Prop) (hV : V.Exact tr.FreedBad tr.gateIDs Rep fun _ ↦ False)
    (hwf : tr.WellFormed) (hplain : tr.gateCNF = AndGate.toCNF) (hfree : tr.constraints = [])
    (hgates : tr.gateIDs ≠ []) (hsize : tr.gateIDs.length < 2 ^ 32) (hsafe : tr.Safe) (x₀ : X)
    (hx : Rep tr.gateIDs.length [] x₀) (fuel : ℕ) (hfuel : tr.gateIDs.length < fuel) :
    ∃ L : List CorrectionSet,
      Explored.Complete tr.FreedBad tr.gateIDs.toFinset (L.map List.toFinset) ∧
      (L.map List.toFinset).Pairwise (fun u v ↦ u.card ≤ v.card) ∧
      ∀ k, ∃ f, findNexts V tr fuel k (new x₀) = .ok ((List.range k).map (L[·]?), f) := by
  have hbad : ¬ tr.FreedBad ∅ := hsafe.not_freedBad hplain hfree
  have hk : Knows tr.FreedBad tr Rep [] (new x₀) :=
    ⟨⟨_, hx⟩, smallestFirst_nil hbad, List.length_pos_iff.mpr hgates⟩
  exact findNexts_enumerates hV hwf hbad hsize hfuel hk

end Global

section Restricted

/-- A smallest bad set among these gates that contains no blocked one, if there is any. -/
def SmallestIn (bad : Finset ℕ → Prop) (gates : List ℕ) (blocked : List (Finset ℕ)) :
    Option CorrectionSet → Prop
  | some soln => soln ⊆ gates ∧ bad soln.toFinset ∧ Unblocked blocked soln.toFinset ∧
      ∀ t ⊆ gates.toFinset, bad t → Unblocked blocked t → soln.toFinset.card ≤ t.card
  | none => ∀ t ⊆ gates.toFinset, bad t → ¬ Unblocked blocked t

def Remains (bad : Finset ℕ → Prop) (gates : List ℕ) (blocked : List (Finset ℕ)) : Prop :=
  ∃ t ⊆ gates.toFinset, bad t ∧ Unblocked blocked t

theorem suspects_of_ne_nil (hne : gates ≠ []) : suspects tr gates = gates := by
  unfold suspects
  rw [if_neg (by rw [List.isEmpty_iff]; exact hne)]

theorem toFinset_subset (hgates : gates ⊆ tr.gateIDs) : gates.toFinset ⊆ tr.gateIDs.toFinset :=
  fun _ hg ↦ List.mem_toFinset.mpr (hgates (List.mem_toFinset.mp hg))

theorem covers_all_iff (hn : n = cardinalityInf) (hsize : tr.gateIDs.length < 2 ^ 32) :
    Covers bad tr.gateIDs.toFinset blocked (min n tr.gateIDs.length) ↔ ¬ Remains bad tr.gateIDs blocked := by
  have hinf : cardinalityInf = 2 ^ 32 - 1 := rfl
  have hmin : min n tr.gateIDs.length = tr.gateIDs.length := Nat.min_eq_right (by omega)
  rw [hmin]
  constructor
  · intro hcovers hremains
    obtain ⟨t, ht, hbad, hopen⟩ := hremains
    exact hcovers t ht (card_le_length ht) hbad hopen
  · exact fun hno t ht _ hbad hopen ↦ hno ⟨t, ht, hbad, hopen⟩

theorem doFindFrom_smallest (h : V.Exact bad tr.gateIDs Rep fail) (hwf : tr.WellFormed)
    (hbad : ¬ bad ∅) (hsize : tr.gateIDs.length < 2 ^ 32) (hne : gates ≠ []) (hgates : gates ⊆ tr.gateIDs)
    (hremains : Remains bad gates blocked) {fuel : ℕ} (hfuel : tr.gateIDs.length < fuel + c)
    (hf : ∃ limit, Rep limit blocked f.solver)
    (hleast : ∀ t ⊆ gates.toFinset, bad t → Unblocked blocked t → c ≤ t.card) :
    Meets (fun r ↦ SmallestIn bad gates blocked r.1) fail
      (doFindFrom V tr fuel gates cardinalityInf c f) := by
  have hinf : cardinalityInf = 2 ^ 32 - 1 := rfl
  have hwithin : ∀ t ⊆ gates.toFinset, bad t → Unblocked blocked t → c ≤ tr.gateIDs.length :=
    fun t ht hb ho ↦ (hleast t ht hb ho).trans (card_le_length (ht.trans (toFinset_subset hgates)))
  induction fuel generalizing c f with
  | zero =>
    obtain ⟨t, ht, hb, ho⟩ := hremains
    have hle := hwithin t ht hb ho
    omega
  | succ fuel ih =>
    obtain ⟨t, ht, hb, ho⟩ := hremains
    have hle : c ≤ tr.gateIDs.length := hwithin t ht hb ho
    apply turn_meets h hwf hbad hgates hf (by omega) rfl
    · intro soln f' hanswer _
      rw [suspects_of_ne_nil hne] at hanswer
      obtain ⟨hsub, hcard, hsoln, hopen⟩ := hanswer
      refine ⟨hsub, hsoln, hopen, fun t ht hb ho ↦ ?_⟩
      exact (hcard.trans (Nat.min_le_left _ _)).trans (hleast t ht hb ho)
    · intro f' _ hcovers _
      refine absurd ⟨t, ht.trans (toFinset_subset hgates), hb, ho⟩ ((covers_all_iff rfl hsize).mp hcovers)
    · intro f' hnone _ hleft
      rw [suspects_of_ne_nil hne, Nat.min_eq_left hle] at hnone
      have hnext : ∀ t ⊆ gates.toFinset, bad t → Unblocked blocked t → c + 1 ≤ t.card := by
        intro t ht hb ho
        by_contra hlt
        exact hnone t ht (by omega) hb ho
      have hlt : c + 1 ≤ tr.gateIDs.length :=
        (hnext t ht hb ho).trans (card_le_length (ht.trans (toFinset_subset hgates)))
      have hinc : increment c = c + 1 := Nat.mod_eq_of_lt (by omega)
      rw [hinc]
      exact ih (by omega) hleft.rep hnext fun t ht hb ho ↦
        (hnext t ht hb ho).trans (card_le_length (ht.trans (toFinset_subset hgates)))

/-- Where a bad set is left, but none among the gates given, the loop goes on for ever. -/
theorem doFindFrom_diverges (h : V.Exact bad tr.gateIDs Rep fail) (hwf : tr.WellFormed)
    (hbad : ¬ bad ∅) (hfuel : fail .outOfFuel) (hsize : tr.gateIDs.length < 2 ^ 32) (hne : gates ≠ []) (hgates : gates ⊆ tr.gateIDs)
    (hnone : ¬ Remains bad gates blocked) (hremains : Remains bad tr.gateIDs blocked) (fuel : ℕ)
    (hc : c < 2 ^ 32) (hf : ∃ limit, Rep limit blocked f.solver) :
    Meets (fun _ ↦ False) fail (doFindFrom V tr fuel gates cardinalityInf c f) := by
  induction fuel generalizing c f with
  | zero => exact hfuel
  | succ fuel ih =>
    have hinf : cardinalityInf = 2 ^ 32 - 1 := rfl
    apply turn_meets h hwf hbad hgates hf (by omega) rfl
    · intro soln f' hanswer _
      rw [suspects_of_ne_nil hne] at hanswer
      obtain ⟨hsub, _, hsoln, hopen⟩ := hanswer
      refine hnone ⟨soln.toFinset, fun g hg ↦ ?_, hsoln, hopen⟩
      exact List.mem_toFinset.mpr (hsub (List.mem_toFinset.mp hg))
    · intro f' _ hcovers _
      exact (covers_all_iff rfl hsize).mp hcovers hremains
    · intro f' _ _ hleft
      exact ih (Nat.mod_lt _ (by decide)) hleft.rep

theorem doFindFrom_nothing (h : V.Exact bad tr.gateIDs Rep fail) (hwf : tr.WellFormed)
    (hbad : ¬ bad ∅) (hsize : tr.gateIDs.length < 2 ^ 32) (hne : gates ≠ []) (hgates : gates ⊆ tr.gateIDs)
    (hnone : ¬ Remains bad tr.gateIDs blocked) (hc : c < 2 ^ 32)
    (hf : ∃ limit, Rep limit blocked f.solver) :
    Meets (fun r ↦ SmallestIn bad gates blocked r.1) fail
      (doFindFrom V tr 1 gates cardinalityInf c f) := by
  have hinf : cardinalityInf = 2 ^ 32 - 1 := rfl
  have hall : ∀ t ⊆ gates.toFinset, bad t → ¬ Unblocked blocked t := fun t ht hb ho ↦
    hnone ⟨t, ht.trans (toFinset_subset hgates), hb, ho⟩
  apply turn_meets h hwf hbad hgates hf (by omega) rfl
  · intro soln f' hanswer _
    rw [suspects_of_ne_nil hne] at hanswer
    obtain ⟨hsub, _, hsoln, hopen⟩ := hanswer
    refine absurd hopen (hall _ (fun g hg ↦ ?_) hsoln)
    exact List.mem_toFinset.mpr (hsub (List.mem_toFinset.mp hg))
  · intro f' _ _ _
    exact hall
  · intro f' _ hmore _
    exact absurd ((covers_all_iff rfl hsize).mpr hnone) hmore

theorem one_le_card (hbad : ¬ bad ∅) {t : Finset ℕ} (ht : bad t) : 1 ≤ t.card :=
  Finset.card_pos.mpr (Finset.nonempty_iff_ne_empty.mpr fun hempty ↦ hbad (hempty ▸ ht))

theorem findNextOverGates_eq (hne : gates ≠ []) (fuel : ℕ) :
    findNextOverGates V tr fuel f gates n = doFindFrom V tr fuel gates n 1 f := by
  unfold findNextOverGates doFind
  rw [if_neg (by rw [List.isEmpty_iff]; exact hne)]

/-- A search among given gates ends, with a smallest set that is left among them or with none,
exactly when a set is left among them or nowhere at all. -/
theorem findNextOverGates_right (V : Debugger X) (tr : TransitionRelation)
    (Rep : ℕ → List (Finset ℕ) → X → Prop) (hV : V.Exact tr.FreedBad tr.gateIDs Rep fun _ ↦ False)
    (hwf : tr.WellFormed) (hplain : tr.gateCNF = AndGate.toCNF) (hfree : tr.constraints = [])
    (hsize : tr.gateIDs.length < 2 ^ 32) (hsafe : tr.Safe) (x₀ : X) (hx : Rep tr.gateIDs.length [] x₀)
    (blocked : List (Finset ℕ)) (f : BasicMCSFinder X) (hf : Reached V tr x₀ blocked f)
    (gates : List ℕ) (hgates : gates ⊆ tr.gateIDs) (hne : gates ≠ []) :
    (∃ fuel r, findNextOverGates V tr fuel f gates cardinalityInf = .ok r ∧
        SmallestIn tr.FreedBad gates blocked r.1) ↔
      Remains tr.FreedBad gates blocked ∨ ¬ Remains tr.FreedBad tr.gateIDs blocked := by
  have hbad : ¬ tr.FreedBad ∅ := hsafe.not_freedBad hplain hfree
  have hopen : V.Exact tr.FreedBad tr.gateIDs Rep fun _ ↦ True := hV.weaken fun _ _ ↦ trivial
  have hrep : ∃ limit, Rep limit blocked f.solver := hf.rep hopen hwf hbad trivial hx
  have hstart : 1 < 2 ^ 32 := by decide
  simp only [findNextOverGates_eq hne]
  constructor
  · intro hright
    obtain ⟨fuel, r, hok, -⟩ := hright
    by_contra hno
    obtain ⟨hnone, hremains⟩ := not_or.mp hno
    have honly : V.Exact tr.FreedBad tr.gateIDs Rep (· = .outOfFuel) := hV.weaken fun _ ↦ False.elim
    have hdiverges := doFindFrom_diverges honly hwf hbad rfl hsize hne hgates hnone (not_not.mp hremains)
      fuel hstart hrep
    rw [hok] at hdiverges
    exact hdiverges
  · intro hcase
    cases hcase with
    | inl hremains =>
      exact ⟨_, (doFindFrom_smallest hV hwf hbad hsize hne hgates hremains
        (Nat.lt_succ_of_lt (Nat.lt_succ_self _)) hrep fun t _ hb _ ↦ one_le_card hbad hb).exists_ok⟩
    | inr hnone =>
      exact ⟨1, (doFindFrom_nothing hV hwf hbad hsize hne hgates hnone hstart hrep).exists_ok⟩

end Restricted

end BasicMCSFinder

theorem stays_low {tr : TransitionRelation} {id : ℕ} (heven : id % 2 = 0)
    (hl : ⟨id, id, idFalse⟩ ∈ tr.latches) {x : ℕ → Assignment} {k : ℕ} (hconst : x 0 idFalse = false)
    (hinit : tr.IsInit (x 0)) (hstep : ∀ i < k, tr.Step (x i) (x (i + 1))) : ∀ i ≤ k, x i id = false := by
  intro i
  induction i with
  | zero =>
    intro _
    have hnull : idFalse ≠ idNull := by decide
    have hreset : x 0 id = litVal (x 0) idFalse := hinit _ hl hnull
    rw [hreset, litVal_idFalse, hconst]
  | succ i ih =>
    intro hi
    have hnext : x (i + 1) id = litVal (x i) id := hstep i hi _ hl
    rw [hnext, litVal_of_even heven, ih (by omega)]

def spare : TransitionRelation where
  bad := 8
  latches := [⟨4, 4, idFalse⟩]
  gates := [⟨6, 4, 4⟩, ⟨8, 4, 4⟩]
  latchIDs := [4]
  inputIDs := []
  gateIDs := [6, 8]
  constraints := []
  gateCNF := AndGate.toCNF

theorem spare_wellFormed : spare.WellFormed where
  bad := by decide
  gates := by decide
  latches := by decide
  reset := by decide
  constraints := by decide
  ands := by decide
  latchIDs_eq := rfl
  gateIDs_eq := rfl
  isVar := by decide
  nodup := by decide
  next := by decide
  constraints_defined := by decide
  bad_defined := by decide
  rhs_defined := by decide
  gates_computed := by
    have hbelow : ∀ g : AndGate, TransitionRelation.Below spare id g.lhs 4 := fun _ ↦ .inr (.inl List.mem_cons_self)
    refine ⟨id, fun g hg ↦ ⟨_, TransitionRelation.computes_toCNF rfl ?_ ?_ ?_⟩⟩
    · revert g
      decide
    all_goals
      cases hg with
      | head => exact hbelow ⟨6, 4, 4⟩
      | tail _ hg =>
        obtain rfl := List.mem_singleton.mp hg
        exact hbelow ⟨8, 4, 4⟩

theorem spare_safe : spare.Safe := by
  intro k hk
  obtain ⟨x, hinit, hrun, hbad⟩ := hk
  have hlow : x k 4 = false :=
    stays_low rfl List.mem_cons_self (hrun 0 (by omega)).1.const hinit (fun i hi ↦ (hrun i (by omega)).2) k
      le_rfl
  have hgates := (hrun k (by omega)).1.gates
  rw [TransitionRelation.toCNF, satClauses_flatMap] at hgates
  have hgate : litVal (x k) 8 = (litVal (x k) 4 && litVal (x k) 4) :=
    (satClauses_toCNF _ _).mp (hgates ⟨8, 4, 4⟩ (by decide))
  have hval : litVal (x k) 8 = true := hbad
  rw [hgate, litVal_of_even rfl, hlow] at hval
  exact absurd hval Bool.false_ne_true

theorem spare_freedBad {t : Finset ℕ} : spare.FreedBad t ↔ 8 ∈ t := by
  constructor
  · intro h
    obtain ⟨k, x, hx, hbad⟩ := h
    by_contra hnot
    have hlow : x k 4 = false :=
      stays_low rfl List.mem_cons_self (hx.const 0 (by omega)) hx.init (fun i hi ↦ hx.step i (by omega)) k
        le_rfl
    have hgate : litVal (x k) 8 = (litVal (x k) 4 && litVal (x k) 4) :=
      (hx.frame k (by omega)).gates ⟨8, 4, 4⟩ (by decide) hnot
    have hval : litVal (x k) 8 = true := hbad
    rw [hgate, litVal_of_even rfl, hlow] at hval
    exact absurd hval Bool.false_ne_true
  · intro hmem
    refine ⟨0, fun _ v ↦ decide (v = 8), ⟨fun _ _ ↦ rfl, by decide, fun i _ ↦ ⟨rfl, ?_⟩, fun i _ ↦ ?_⟩, rfl⟩
    · intro g hg hnot
      cases hg with
      | head => rfl
      | tail _ hg =>
        obtain rfl := List.mem_singleton.mp hg
        exact absurd hmem hnot
    · decide

namespace BasicMCSFinder

/-- The only minimal correction set is found, and then nothing. -/
theorem findNexts_right_spare :
    ∃ L : List CorrectionSet, Explored.Complete spare.FreedBad [6, 8].toFinset (L.map List.toFinset) ∧
      (L.map List.toFinset).Pairwise (fun u v ↦ u.card ≤ v.card) ∧
      ∀ k, ∃ f, findNexts (.chosen spare.FreedBad [6, 8]) spare 3 k (new (2, [])) =
        .ok ((List.range k).map (L[·]?), f) :=
  findNexts_right (.chosen spare.FreedBad [6, 8]) spare (fun limit blocked x ↦ x = (limit, blocked))
    (Debugger.chosen_exact spare.FreedBad [6, 8]) spare_wellFormed rfl rfl (by decide) (by decide) spare_safe
    (2, []) rfl 3 (by decide)

theorem findNextOverGates_right_spare :
    ∃ fuel r, findNextOverGates (.chosen spare.FreedBad [6, 8]) spare fuel (new (2, [])) [8]
      cardinalityInf = .ok r ∧ SmallestIn spare.FreedBad [8] [] r.1 := by
  refine (findNextOverGates_right (.chosen spare.FreedBad [6, 8]) spare
    (fun limit blocked x ↦ x = (limit, blocked)) (Debugger.chosen_exact spare.FreedBad [6, 8])
    spare_wellFormed rfl rfl (by decide) spare_safe (2, []) rfl [] _ .start [8] (by decide)
    (by decide)).mpr (.inl ⟨{8}, by decide, spare_freedBad.mpr (by decide), ?_⟩)
  exact fun u hu ↦ absurd hu List.not_mem_nil

/-- The gate that nothing reads is no correction set, and the other one keeps the search going. -/
theorem findNextOverGates_right_fails : ¬ ∀ (V : Debugger (ℕ × List (Finset ℕ)))
    (tr : TransitionRelation) (Rep : ℕ → List (Finset ℕ) → ℕ × List (Finset ℕ) → Prop),
    (V.Exact tr.FreedBad tr.gateIDs Rep fun _ ↦ False) → tr.WellFormed → tr.gateCNF = AndGate.toCNF →
    tr.constraints = [] → tr.gateIDs.length < 2 ^ 32 → tr.Safe → ∀ x₀, Rep tr.gateIDs.length [] x₀ →
    ∀ blocked f, Reached V tr x₀ blocked f → ∀ gates ⊆ tr.gateIDs, gates ≠ [] →
    ∃ fuel r, findNextOverGates V tr fuel f gates cardinalityInf = .ok r ∧
      SmallestIn tr.FreedBad gates blocked r.1 := by
  intro hall
  have hexact := Debugger.chosen_exact spare.FreedBad [6, 8]
  obtain ⟨fuel, r, hok, -⟩ := hall (.chosen spare.FreedBad [6, 8]) spare
    (fun limit blocked x ↦ x = (limit, blocked)) hexact spare_wellFormed rfl rfl (by decide) spare_safe (2, [])
    rfl [] _ .start [6] (by decide) (by decide)
  have hbad : ¬ spare.FreedBad ∅ := fun h ↦ absurd (spare_freedBad.mp h) (Finset.notMem_empty 8)
  have hnone : ¬ Remains spare.FreedBad [6] [] := by
    intro hremains
    obtain ⟨t, ht, hb, -⟩ := hremains
    exact absurd (List.mem_toFinset.mp (ht (spare_freedBad.mp hb))) (by decide)
  have hremains : Remains spare.FreedBad spare.gateIDs [] :=
    ⟨{8}, by decide, spare_freedBad.mpr (by decide), fun u hu ↦ absurd hu List.not_mem_nil⟩
  have hstart : 1 < 2 ^ 32 := by decide
  have honly : (Debugger.chosen spare.FreedBad [6, 8]).Exact spare.FreedBad spare.gateIDs
      (fun limit blocked x ↦ x = (limit, blocked)) (· = .outOfFuel) := hexact.weaken fun _ ↦ False.elim
  have hdiverges := doFindFrom_diverges honly spare_wellFormed hbad rfl (by decide) (by decide) (by decide)
    hnone hremains fuel hstart (f := new (2, [])) ⟨2, rfl⟩
  have hrun : doFindFrom (.chosen spare.FreedBad [6, 8]) spare fuel [6] cardinalityInf 1 (new (2, [])) = .ok r :=
    hok
  rw [hrun] at hdiverges
  exact hdiverges

end BasicMCSFinder

end PME
