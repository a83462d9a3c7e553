import PME.HybridDebugger

namespace PME

open Outcome Exploration DebugTransitionRelation IC3

namespace BasicMCSFinder

variable {X : Type}

section Finder

variable (V : Debugger X) (tr : TransitionRelation)

/-- The loop of `findAll`, with the sets found so far. -/
def findAllFrom (fuel n : ℕ) : ℕ → List CorrectionSet → BasicMCSFinder X →
    Result (List CorrectionSet × BasicMCSFinder X)
  | 0, _, _ => throw .outOfFuel
  | passes + 1, results, f => do
    let (corr, f) ← findNext V tr fuel f n
    match corr with
    | some corr => findAllFrom fuel n passes (results ++ [corr]) f
    | none => return (results, f)

def findAll (fuel : ℕ) (f : BasicMCSFinder X) (n : ℕ) : Result (List CorrectionSet × BasicMCSFinder X) :=
  findAllFrom V tr fuel n fuel [] f

def findBatch (fuel : ℕ) (f : BasicMCSFinder X) (n : ℕ) : Result (List CorrectionSet × BasicMCSFinder X) :=
  findAll V tr fuel f n

/-- Calls of `findBatch` one after the other, with these bounds. -/
def findBatches (fuel : ℕ) : List ℕ → BasicMCSFinder X → Result (List (List CorrectionSet) × BasicMCSFinder X)
  | [], f => return ([], f)
  | n :: bounds, f => do
    let (batch, f) ← findBatch V tr fuel f n
    let (batches, f) ← findBatches fuel bounds f
    return (batch :: batches, f)

end Finder

variable {V : Debugger X} {tr : TransitionRelation} {bad : Finset ℕ → Prop}
  {Rep : ℕ → List (Finset ℕ) → X → Prop} {fail : Failure → Prop} {blocked found : List (Finset ℕ)}
  {f : BasicMCSFinder X} {n c fuel : ℕ}

structure NextWithin (bad : Finset ℕ → Prop) (tr : TransitionRelation)
    (Rep : ℕ → List (Finset ℕ) → X → Prop) (found : List (Finset ℕ)) (n : ℕ)
    (r : Option CorrectionSet × BasicMCSFinder X) : Prop where
  knows : Knows bad tr Rep (blockedBy found r.1) r.2
  done : r.1 = none → Covers bad tr.gateIDs.toFinset found n
  within : ∀ soln, r.1 = some soln → soln.toFinset ⊆ tr.gateIDs.toFinset ∧ soln.toFinset.card ≤ n ∧
    Unblocked found soln.toFinset

theorem doFindFrom_within (h : V.Exact bad tr.gateIDs Rep fail) (hwf : tr.WellFormed) (hbad : ¬ bad ∅)
    (hsize : tr.gateIDs.length < 2 ^ 32) (hfuel : tr.gateIDs.length < fuel + c)
    (hle : c ≤ tr.gateIDs.length) (hf : ∃ limit, Rep limit blocked f.solver)
    (hs : SmallestFirst bad tr.gateIDs.toFinset blocked c) (hkept : n < c → f.cardinality = c) :
    Meets (NextWithin bad tr Rep blocked n) fail (doFindFrom V tr fuel [] n c f) := by
  induction fuel generalizing c f with
  | zero => omega
  | succ fuel ih =>
    by_cases hn : c ≤ n
    · apply turn_meets h hwf hbad (List.nil_subset _) hf hn rfl
      · intro soln f' hanswer hleft
        obtain ⟨hsub, hcard, hsoln, hopen⟩ := hanswer
        have hbase : soln.toFinset ⊆ tr.gateIDs.toFinset := fun g hg ↦
          List.mem_toFinset.mpr (hsub (List.mem_toFinset.mp hg))
        have hcard' : soln.toFinset.card ≤ c := hcard.trans (Nat.min_le_left _ _)
        have hnew := hs.add hbase hcard' hsoln hopen
        refine ⟨⟨hleft.rep, hleft.cardinality ▸ hnew, hleft.cardinality ▸ hle⟩,
          fun hno ↦ absurd hno (Option.some_ne_none soln), fun soln' hsoln' ↦ ?_⟩
        rw [← Option.some.inj hsoln']
        exact ⟨hbase, hcard'.trans hn, hopen⟩
      · intro f' _ hcovers hleft
        refine ⟨?_, fun _ ↦ (covers_min_iff (List.toFinset_card_le _)).mp hcovers,
          fun soln hno ↦ absurd hno.symm (Option.some_ne_none soln)⟩
        rw [blockedBy_none]
        exact ⟨hleft.rep, hleft.cardinality ▸ hs, hleft.cardinality ▸ hle⟩
      · intro f' hnone hmore hleft
        have hcovers : Covers bad tr.gateIDs.toFinset blocked c :=
          (covers_min_iff (List.toFinset_card_le _)).mp hnone
        have hleast : ∀ m, m ≤ c → ¬ min n tr.gateIDs.length ≤ m := fun m hm hle' ↦
          hmore fun t ht hcard ↦ hcovers t ht (hcard.trans (hle'.trans hm))
        have hlt : c + 1 ≤ min n tr.gateIDs.length := Nat.not_le.mp (hleast c le_rfl)
        obtain ⟨hltn, hltl⟩ := Nat.le_min.mp hlt
        have hinc : increment c = c + 1 := Nat.mod_eq_of_lt (by omega)
        rw [hinc]
        exact ih (by omega) hltl hleft.rep (hs.raise hcovers) fun hno ↦ absurd hno (by omega)
    · unfold doFindFrom
      rw [if_neg hn]
      have hcard : f.cardinality = c := hkept (Nat.not_le.mp hn)
      refine ⟨?_, fun _ t ht htn ↦ hs.covers t ht (htn.trans_lt (Nat.not_le.mp hn)),
        fun soln hno ↦ absurd hno.symm (Option.some_ne_none soln)⟩
      rw [blockedBy_none]
      exact ⟨hf, hcard ▸ hs, hcard ▸ hle⟩

theorem findNext_within (h : V.Exact bad tr.gateIDs Rep fail) (hwf : tr.WellFormed) (hbad : ¬ bad ∅)
    (hsize : tr.gateIDs.length < 2 ^ 32) (hfuel : tr.gateIDs.length < fuel) (hk : Knows bad tr Rep found f)
    (n : ℕ) : Meets (NextWithin bad tr Rep found n) fail (findNext V tr fuel f n) :=
  doFindFrom_within h hwf hbad hsize (by omega) hk.le hk.rep hk.smallest fun _ ↦ rfl

structure Collected (bad : Finset ℕ → Prop) (tr : TransitionRelation)
    (Rep : ℕ → List (Finset ℕ) → X → Prop) (found : List (Finset ℕ)) (n : ℕ) (batch : List CorrectionSet)
    (f : BasicMCSFinder X) : Prop where
  knows : Knows bad tr Rep (found ++ batch.map List.toFinset) f
  card_le : ∀ corr ∈ batch, corr.toFinset.card ≤ n

theorem Collected.add {batch : List CorrectionSet} {soln : CorrectionSet} {f' : BasicMCSFinder X}
    (h : Collected bad tr Rep found n batch f)
    (hnext : NextWithin bad tr Rep (found ++ batch.map List.toFinset) n (some soln, f')) :
    Collected bad tr Rep found n (batch ++ [soln]) f' := by
  refine ⟨?_, List.forall_mem_append.mpr ⟨h.card_le, List.forall_mem_singleton.mpr (hnext.within soln rfl).2.1⟩⟩
  rw [List.map_append, ← List.append_assoc]
  exact hnext.knows

theorem findAllFrom_meets (h : V.Exact bad tr.gateIDs Rep fail) (hwf : tr.WellFormed) (hbad : ¬ bad ∅)
    (hsize : tr.gateIDs.length < 2 ^ 32) (hfuel : tr.gateIDs.length < fuel) (passes : ℕ)
    (batch : List CorrectionSet) (hc : Collected bad tr Rep found n batch f)
    (hpasses : 2 ^ tr.gateIDs.length < passes + batch.length) :
    Meets (fun r ↦ Collected bad tr Rep found n r.1 r.2 ∧
        Covers bad tr.gateIDs.toFinset (found ++ r.1.map List.toFinset) n) fail
      (findAllFrom V tr fuel n passes batch f) := by
  induction passes generalizing batch f with
  | zero =>
    have hlen := hc.knows.smallest.length_le
    have hcard : tr.gateIDs.toFinset.card ≤ tr.gateIDs.length := List.toFinset_card_le _
    have hpow : 2 ^ tr.gateIDs.toFinset.card ≤ 2 ^ tr.gateIDs.length := Nat.pow_le_pow_right Nat.two_pos hcard
    rw [List.length_append, List.length_map] at hlen
    omega
  | succ passes ih =>
    unfold findAllFrom
    refine (findNext_within h hwf hbad hsize hfuel hc.knows n).bind fun r hr ↦ ?_
    obtain ⟨answer, f'⟩ := r
    cases answer with
    | some soln =>
      refine ih (batch ++ [soln]) (hc.add hr) ?_
      rw [List.length_append, List.length_singleton]
      omega
    | none =>
      refine ⟨⟨?_, hc.card_le⟩, hr.done rfl⟩
      have hknows := hr.knows
      rwa [blockedBy_none] at hknows

theorem findAll_meets (h : V.Exact bad tr.gateIDs Rep fail) (hwf : tr.WellFormed) (hbad : ¬ bad ∅)
    (hsize : tr.gateIDs.length < 2 ^ 32) (hfuel : 2 ^ tr.gateIDs.length < fuel)
    (hk : Knows bad tr Rep found f) (n : ℕ) :
    Meets (fun r ↦ Collected bad tr Rep found n r.1 r.2 ∧
        Covers bad tr.gateIDs.toFinset (found ++ r.1.map List.toFinset) n) fail (findAll V tr fuel f n) := by
  have hgates : tr.gateIDs.length < fuel := Nat.lt_two_pow_self.trans hfuel
  refine findAllFrom_meets h hwf hbad hsize hgates fuel [] ⟨?_, fun _ hno ↦ absurd hno List.not_mem_nil⟩ hfuel
  rw [List.map_nil, List.append_nil]
  exact hk

/-- The batches for these bounds, when the sets up to some size have been found: each has exactly
the minimal sets within its bound that were beyond all earlier ones. -/
def Batched (good : Finset ℕ → Prop) (base : Finset ℕ) : ℕ → List ℕ → List (List CorrectionSet) → Prop
  | _, [], batches => batches = []
  | m, n :: bounds, batches => ∃ batch rest, batches = batch :: rest ∧
      (∀ t, t ∈ batch.map List.toFinset ↔ t ⊆ base ∧ Minimal good t ∧ m < t.card ∧ t.card ≤ n) ∧
      Batched good base (max m n) bounds rest

structure FoundUpTo (good : Finset ℕ → Prop) (base : Finset ℕ) (m : ℕ) (found : List (Finset ℕ)) : Prop where
  card_le : ∀ t ∈ found, t.card ≤ m
  covers : Covers good base found m

theorem Collected.mem_iff {batch : List CorrectionSet} {m : ℕ} {base : Finset ℕ} (hbase : base = tr.gateIDs.toFinset)
    (h : Collected bad tr Rep found n batch f) (hup : FoundUpTo bad base m found)
    (hcovers : Covers bad base (found ++ batch.map List.toFinset) n) {t : Finset ℕ} :
    t ∈ batch.map List.toFinset ↔ t ⊆ base ∧ Minimal bad t ∧ m < t.card ∧ t.card ≤ n := by
  obtain ⟨-, smallest, -⟩ := h.knows
  have hfresh : t ⊆ base → Minimal bad t → ∀ sets, Covers bad base sets t.card →
      (∀ u ∈ sets, Minimal bad u) → t ∈ sets := by
    intro hsub hmin sets hsets hall
    obtain ⟨u, hu, hut⟩ := not_unblocked.mp (hsets t hsub le_rfl hmin.prop)
    have heq : t = u := (hmin.le_of_le (hall u hu).prop hut).antisymm hut
    exact heq ▸ hu
  constructor
  · intro ht
    obtain ⟨hsub, hmin⟩ := smallest.minimal t (List.mem_append_right _ ht)
    rw [← hbase] at hsub
    have hold : t ∉ found := fun hin ↦ (List.nodup_append.mp smallest.nodup).2.2 t hin t ht rfl
    obtain ⟨corr, hcorr, heq⟩ := List.mem_map.mp ht
    refine ⟨hsub, hmin, ?_, heq ▸ h.card_le corr hcorr⟩
    by_contra hle
    exact hold (hfresh hsub hmin found (fun s hs hcard ↦ hup.covers s hs (hcard.trans (Nat.not_lt.mp hle)))
      fun u hu ↦ (smallest.minimal u (List.mem_append_left _ hu)).2)
  · intro ht
    obtain ⟨hsub, hmin, hlt, hle⟩ := ht
    have hmem := hfresh hsub hmin _ (fun s hs hcard ↦ hcovers s hs (hcard.trans hle))
      fun u hu ↦ (smallest.minimal u hu).2
    refine (List.mem_append.mp hmem).resolve_left fun hin ↦ ?_
    exact absurd (hup.card_le t hin) (Nat.not_le.mpr hlt)

theorem Collected.foundUpTo {batch : List CorrectionSet} {m : ℕ} (h : Collected bad tr Rep found n batch f)
    (hup : FoundUpTo bad tr.gateIDs.toFinset m found)
    (hcovers : Covers bad tr.gateIDs.toFinset (found ++ batch.map List.toFinset) n) :
    FoundUpTo bad tr.gateIDs.toFinset (max m n) (found ++ batch.map List.toFinset) := by
  refine ⟨List.forall_mem_append.mpr ⟨fun t ht ↦ ?_, fun t ht ↦ ?_⟩, fun t ht hcard hgood hopen ↦ ?_⟩
  · exact (hup.card_le t ht).trans (le_max_left m n)
  · obtain ⟨corr, hcorr, rfl⟩ := List.mem_map.mp ht
    exact (h.card_le corr hcorr).trans (le_max_right m n)
  · cases le_max_iff.mp hcard with
    | inl hle => exact hup.covers t ht hle hgood (unblocked_append.mp hopen).1
    | inr hle => exact hcovers t ht hle hgood hopen

theorem findBatches_meets (h : V.Exact bad tr.gateIDs Rep fail) (hwf : tr.WellFormed) (hbad : ¬ bad ∅)
    (hsize : tr.gateIDs.length < 2 ^ 32) (hfuel : 2 ^ tr.gateIDs.length < fuel) (bounds : List ℕ) {m : ℕ}
    (hk : Knows bad tr Rep found f) (hup : FoundUpTo bad tr.gateIDs.toFinset m found) :
    Meets (fun r ↦ Batched bad tr.gateIDs.toFinset m bounds r.1 ∧
        Knows bad tr Rep (found ++ r.1.flatten.map List.toFinset) r.2) fail (findBatches V tr fuel bounds f) := by
  induction bounds generalizing found f m with
  | nil =>
    refine ⟨rfl, ?_⟩
    rw [List.flatten_nil, List.map_nil, List.append_nil]
    exact hk
  | cons n bounds ih =>
    unfold findBatches
    refine (findAll_meets h hwf hbad hsize hfuel hk n).bind fun r hr ↦ ?_
    obtain ⟨batch, f'⟩ := r
    obtain ⟨hcollected, hcovers⟩ := hr
    refine (ih hcollected.knows (hcollected.foundUpTo hup hcovers)).bind fun r hr ↦ ?_
    obtain ⟨batches, f''⟩ := r
    obtain ⟨hbatched, hknows⟩ := hr
    refine ⟨⟨batch, batches, rfl, fun t ↦ hcollected.mem_iff rfl hup hcovers, hbatched⟩, ?_⟩
    rw [List.flatten_cons, List.map_append, ← List.append_assoc]
    exact hknows

def findBatchesWith (E : Engines) (fuel : IC3Solver → ℕ) (kmax : ℕ) (vars : VariableManager)
    (tr : TransitionRelation) (d : DebugTransitionRelation) (passes : ℕ) (bounds : List ℕ) :
    Result (List (List CorrectionSet)) := do
  let solver ← HybridDebugger.new kmax vars d
  let (batches, _) ← findBatches (HybridDebugger.asDebugger E fuel) tr passes bounds (new solver)
  return batches

/-- The failures of the debuggers: their variables run out, or the bound is beyond what IDs can be primed. -/
def DebugStops (kmax : ℕ) (e : Failure) : Prop :=
  e = .idsExhausted ∨ e = .narrowed ∨ e = .assertion ∧ maxPrimes ≤ kmax

section Hybrid

variable {vm vm₀ : VariableManager} {d : DebugTransitionRelation} {fuel : IC3Solver → ℕ}

theorem hybrid_exact (hwf : tr.WellFormed) (hplain : tr.gateCNF = AndGate.toCNF) (hpos : tr.gateIDs ≠ [])
    (hmany : tr.gateIDs.length < cardinalityInf) (hvm : vm.Inv) (hold : ∀ v ∈ tr.signals, v < vm.nextID)
    (hd : fromRelation vm tr = .ok (d, vm₀)) (hfuel : ∀ st, st.fuelBound ≤ fuel st) (E : Engines) (kmax : ℕ) :
    ∃ Rep, (HybridDebugger.asDebugger E fuel).Exact tr.FreedBad tr.gateIDs Rep (DebugStops kmax) ∧
      Meets (Rep tr.gateIDs.length []) (DebugStops kmax) (HybridDebugger.new kmax vm₀ d) := by
  have hdebugs : Meets _ (fun _ ↦ True) (fromRelation vm tr) :=
    (fromRelation_debugs hwf hplain hvm hold).weaken fun _ _ ↦ trivial
  obtain ⟨hdebug, hvm₀, hnext⟩ := post_of_ok hdebugs hd
  refine ⟨HybridDebugger.Rep E hdebug kmax vm₀.nextID, ?_, ?_⟩
  · exact HybridDebugger.asDebugger_exact hdebug hpos hmany ⟨.inl rfl, .inr (.inl rfl)⟩
      (fun h ↦ .inr (.inr ⟨rfl, h⟩)) hfuel
  · exact HybridDebugger.new_meets hdebug kmax hvm₀ hnext.ge

/-- With the debugger that asks both engines a search among given gates ends, with a smallest set
that is left among them or with none, when a set is left among them or nowhere at all. Otherwise
it goes on until the debugger stops it. -/
theorem findNextOverGates_hybrid (hwf : tr.WellFormed) (hplain : tr.gateCNF = AndGate.toCNF)
    (hfree : tr.constraints = []) (hpos : tr.gateIDs ≠ []) (hmany : tr.gateIDs.length < cardinalityInf)
    (hsafe : tr.Safe) (hvm : vm.Inv) (hold : ∀ v ∈ tr.signals, v < vm.nextID)
    (hd : fromRelation vm tr = .ok (d, vm₀)) (hfuel : ∀ st, st.fuelBound ≤ fuel st) {E : Engines} {kmax : ℕ}
    {solver : HybridDebugger} (hnew : HybridDebugger.new kmax vm₀ d = .ok solver)
    {blocked : List (Finset ℕ)} {f : BasicMCSFinder HybridDebugger}
    (hf : Reached (HybridDebugger.asDebugger E fuel) tr solver blocked f) {gates : List ℕ}
    (hgates : gates ⊆ tr.gateIDs) (hne : gates ≠ []) :
    (Remains tr.FreedBad gates blocked ∨ ¬ Remains tr.FreedBad tr.gateIDs blocked →
      ∃ turns, Meets (fun r ↦ SmallestIn tr.FreedBad gates blocked r.1) (DebugStops kmax)
        (findNextOverGates (HybridDebugger.asDebugger E fuel) tr turns f gates cardinalityInf)) ∧
    (¬ Remains tr.FreedBad gates blocked ∧ Remains tr.FreedBad tr.gateIDs blocked →
      ∀ turns, Meets (fun _ ↦ False) (fun e ↦ DebugStops kmax e ∨ e = .outOfFuel)
        (findNextOverGates (HybridDebugger.asDebugger E fuel) tr turns f gates cardinalityInf)) := by
  have hinf : cardinalityInf = 2 ^ 32 - 1 := rfl
  have hsize : tr.gateIDs.length < 2 ^ 32 := by omega
  have hstart : 1 < 2 ^ 32 := by decide
  have hbad : ¬ tr.FreedBad ∅ := hsafe.not_freedBad hplain hfree
  obtain ⟨Rep, hV, hmade⟩ := hybrid_exact hwf hplain hpos hmany hvm hold hd hfuel E kmax
  have hopen : (HybridDebugger.asDebugger E fuel).Exact tr.FreedBad tr.gateIDs Rep
      (fun e ↦ DebugStops kmax e ∨ e = .outOfFuel) := hV.weaken fun _ ↦ .inl
  have hrep : ∃ limit, Rep limit blocked f.solver := hf.rep hopen hwf hbad (.inr rfl) (hmade.of_ok hnew)
  simp only [findNextOverGates_eq hne]
  constructor
  · intro hcase
    cases hcase with
    | inl hremains =>
      exact ⟨tr.gateIDs.length, doFindFrom_smallest hV hwf hbad hsize hne hgates hremains
        (Nat.lt_succ_self _) hrep fun t _ hb _ ↦ one_le_card hbad hb⟩
    | inr hnone => exact ⟨1, doFindFrom_nothing hV hwf hbad hsize hne hgates hnone hstart hrep⟩
  · intro hcase turns
    exact doFindFrom_diverges hopen hwf hbad (.inr rfl) hsize hne hgates hcase.1 hcase.2 turns hstart hrep

/-- Batches have all minimal sets of gates within their bounds, each set in the first batch that
it can be in, and once. They come smallest first. -/
theorem findBatchesWith_right (E : Engines) (tr : TransitionRelation) (hwf : tr.WellFormed)
    (hplain : tr.gateCNF = AndGate.toCNF) (hfree : tr.constraints = []) (hpos : tr.gateIDs ≠ [])
    (hmany : tr.gateIDs.length < cardinalityInf) (hsafe : tr.Safe) (vm : VariableManager) (hvm : vm.Inv)
    (hold : ∀ v ∈ tr.signals, v < vm.nextID) (d : DebugTransitionRelation) (vm₀ : VariableManager)
    (hd : fromRelation vm tr = .ok (d, vm₀)) (fuel : IC3Solver → ℕ) (hfuel : ∀ st, st.fuelBound ≤ fuel st)
    (kmax passes : ℕ) (hpasses : 2 ^ tr.gateIDs.length < passes) (bounds : List ℕ) :
    Meets (fun batches ↦ Batched tr.FreedBad tr.gateIDs.toFinset 0 bounds batches ∧
        (batches.flatten.map List.toFinset).Nodup ∧
        (batches.flatten.map List.toFinset).Pairwise fun u v ↦ u.card ≤ v.card)
      (DebugStops kmax) (findBatchesWith E fuel kmax vm₀ tr d passes bounds) := by
  have hinf : cardinalityInf = 2 ^ 32 - 1 := rfl
  have hbad : ¬ tr.FreedBad ∅ := hsafe.not_freedBad hplain hfree
  obtain ⟨Rep, hV, hnew⟩ := hybrid_exact hwf hplain hpos hmany hvm hold hd hfuel E kmax
  unfold findBatchesWith
  refine hnew.bind fun solver hsolver ↦ ?_
  have hk : Knows tr.FreedBad tr Rep [] (new solver) :=
    ⟨⟨_, hsolver⟩, smallestFirst_nil hbad, List.length_pos_iff.mpr hpos⟩
  have hup : FoundUpTo tr.FreedBad tr.gateIDs.toFinset 0 [] := by
    refine ⟨fun _ hno ↦ absurd hno List.not_mem_nil, fun t _ hcard hfreed ↦ ?_⟩
    rw [Finset.card_eq_zero.mp (Nat.le_zero.mp hcard)] at hfreed
    exact absurd hfreed hbad
  refine (findBatches_meets hV hwf hbad (by omega) hpasses bounds hk hup).bind fun r hr ↦ ?_
  obtain ⟨hbatched, hknows⟩ := hr
  exact ⟨hbatched, hknows.smallest.nodup, hknows.smallest.sorted⟩

end Hybrid

theorem spare_batches : ∃ d vm, fromRelation fourVars spare = .ok (d, vm) ∧
    Meets (fun batches ↦ Batched spare.FreedBad spare.gateIDs.toFinset 0 [1, 2] batches ∧
        (batches.flatten.map List.toFinset).Nodup ∧
        (batches.flatten.map List.toFinset).Pairwise fun u v ↦ u.card ≤ v.card)
      (DebugStops 2) (findBatchesWith .plain IC3Solver.fuelBound 2 vm spare d 5 [1, 2]) := by
  have hold : ∀ v ∈ spare.signals, v < fourVars.nextID := by decide
  have hmade := fromRelation_debugs spare_wellFormed rfl fourVars_inv hold
  cases hr : fromRelation fourVars spare with
  | ok r =>
    refine ⟨r.1, r.2, rfl, ?_⟩
    exact findBatchesWith_right .plain spare spare_wellFormed rfl rfl (List.cons_ne_nil _ _) (by decide) spare_safe
      fourVars fourVars_inv hold r.1 r.2 hr IC3Solver.fuelBound (fun _ ↦ le_rfl) 2 5 (by decide) [1, 2]
  | error e =>
    rw [hr] at hmade
    exact absurd hmade.2 (by decide)

end BasicMCSFinder

end PME
