import PME.MapSession
import PME.UnifiedIVC

namespace PME

open Outcome

namespace IVCBFFinder

variable {M : Type} (c : SafetyCheckers) (tr : TransitionRelation)

def checkMap (V : MapSolver M) : Option M → Seed → Result (Bool × Option M)
  | none, _ => return (true, none)
  | some map, seed => do
    let (sat, map) ← V.checkSeed map seed
    return (sat, some map)

def shrinkWithMap (V : MapSolver M) (seed : Seed) (map : Option M) : Result (Seed × Option M) :=
  let test (seed_copy : Seed) (map : Option M) : Result (Bool × Option M) := do
    let (sat, map) ← checkMap V map seed_copy
    if !sat then return (false, map)
    else return (← isSafe c tr seed_copy, map)
  shrinkFrom test [] (c.shuffle seed) map

end IVCBFFinder

/-- Without a map, this is the loop that asks for safety only. -/
theorem IVCBFFinder.shrinkWithMap_none {M : Type} (c : SafetyCheckers) (tr : TransitionRelation)
    (V : MapSolver M) (seed : Seed) : shrinkWithMap c tr V seed none = (do
      let seed ← shrink c tr seed
      return (seed, none)) := by
  unfold shrinkWithMap shrink
  generalize c.shuffle seed = rest
  generalize ([] : Seed) = kept
  induction rest generalizing kept with
  | nil => rfl
  | cons gate rest ih =>
    unfold shrinkFrom
    have hnone : checkMap V none (kept ++ rest) = .ok (true, none) := rfl
    simp only [hnone, ok_bind, Bool.not_true, Bool.false_eq_true, if_false]
    cases hsafe : isSafe c tr (kept ++ rest) with
    | error e => rfl
    | ok safe =>
      cases safe with
      | true => exact ih kept
      | false => exact ih (kept ++ [gate])

/-- A map may rule out a gate set that is not safe, and one with a reported MIVC that is not
part of the seed. -/
def RulesOut (tr : TransitionRelation) (mivcs : List Seed) (seed : Seed) (t : Finset ℕ) : Prop :=
  ¬ SafeGates tr t ∨ ∃ mivc ∈ mivcs, mivc.toFinset ⊆ t ∧ ¬ mivc ⊆ seed

structure ShrunkTo (tr : TransitionRelation) (seed shrunk : Seed) : Prop where
  nodup : shrunk.Nodup
  sub : shrunk ⊆ seed
  safe : SafeOver tr shrunk
  critical : ∀ gate ∈ shrunk, ¬ SafeOver tr (shrunk.erase gate)

section Shrink

variable {M : Type} {V : MapSolver M} {ids : List ℕ} {Rep : M → Prop} {P : Finset ℕ → Prop}
  {fail : Failure → Prop} {c : SafetyCheckers} {tr : TransitionRelation} {mivcs : List Seed}
  {seed : Seed}

theorem ShrunkTo.of_minimal (h : tr.WellFormed) {shrunk : Seed} (hnodup : shrunk.Nodup)
    (hsub : shrunk ⊆ seed) (hmin : Minimal (SafeGates tr) shrunk.toFinset) :
    ShrunkTo tr seed shrunk where
  nodup := hnodup
  sub := hsub
  safe := (safeOver_iff h).mpr hmin.prop
  critical gate hg hsafe := by
    have hsafe' : SafeGates tr (shrunk.erase gate).toFinset := (safeOver_iff h).mp hsafe
    have herase : (shrunk.erase gate).toFinset ⊆ shrunk.toFinset := fun g hg ↦
      List.mem_toFinset.mpr (List.mem_of_mem_erase (List.mem_toFinset.mp hg))
    have hle : shrunk.toFinset ⊆ (shrunk.erase gate).toFinset := hmin.le_of_le hsafe' herase
    have hin : gate ∈ shrunk.erase gate := List.mem_toFinset.mp (hle (List.mem_toFinset.mpr hg))
    exact hnodup.not_mem_erase hin

def Checks (V : MapSolver M) (ids : List ℕ) (P : Finset ℕ → Prop) (Rep : M → Prop)
    (fail : Failure → Prop) : Prop :=
  ∀ (x : M) (seed : Seed), Rep x →
    Meets (fun r ↦ Rep r.2 ∧ (r.1 = true ↔ P (ids.toFinset ∩ seed.toFinset))) fail (V.checkSeed x seed)

/-- A map that is asked about a part of the seed rules it out only if it is not safe: a MIVC in
it would be part of the seed. -/
theorem checkMap_meets (hV : Checks V ids P Rep fail) (hids : seed ⊆ ids)
    (hmap : ∀ t ⊆ ids.toFinset, ¬ P t → RulesOut tr mivcs seed t) {seed_copy : Seed}
    (hsub : seed_copy.toFinset ⊆ seed.toFinset) {map : Option M} (hrep : ∀ m ∈ map, Rep m) :
    Meets (fun r ↦ (∀ m ∈ r.2, Rep m) ∧ (r.1 = false → ¬ SafeGates tr seed_copy.toFinset)) fail
      (IVCBFFinder.checkMap V map seed_copy) := by
  cases map with
  | none => exact ⟨hrep, nofun⟩
  | some map =>
    refine (hV map seed_copy (hrep map rfl)).bind fun r hr ↦ ?_
    obtain ⟨sat, map'⟩ := r
    obtain ⟨hrep', hsat⟩ := hr
    dsimp only at hrep' hsat ⊢
    refine ⟨fun m hm ↦ ?_, fun hno hsafe ↦ ?_⟩
    · cases hm
      exact hrep'
    · have hunsat : sat = false := hno
      have hbase : seed_copy.toFinset ⊆ ids.toFinset := fun g hg ↦
        List.mem_toFinset.mpr (hids (List.mem_toFinset.mp (hsub hg)))
      rw [Finset.inter_eq_right.mpr hbase, hunsat] at hsat
      have hexcluded : ¬ P seed_copy.toFinset := fun hp ↦ Bool.false_ne_true (hsat.mpr hp)
      cases hmap _ hbase hexcluded with
      | inl hbad => exact hbad hsafe
      | inr hmivc =>
        obtain ⟨mivc, -, hin, hout⟩ := hmivc
        exact hout fun g hg ↦ List.mem_toFinset.mp (hsub (hin (List.mem_toFinset.mpr hg)))

theorem shrinkWithMap_meets (h : tr.WellFormed) (hV : Checks V ids P Rep fail)
    (hic3 : ∀ p, c.ic3 p = true ↔ p.Safe) (hshuffle : ∀ seed, (c.shuffle seed).Perm seed)
    (hids : seed ⊆ ids) (hsafe : SafeOver tr seed)
    (hmap : ∀ t ⊆ ids.toFinset, ¬ P t → RulesOut tr mivcs seed t) (map : Option M)
    (hrep : ∀ m ∈ map, Rep m) :
    Meets (fun r ↦ ShrunkTo tr seed r.1) fail (IVCBFFinder.shrinkWithMap c tr V seed map) := by
  have hperm : (c.shuffle seed).Perm seed := hshuffle seed
  have heq : (c.shuffle seed).toFinset = seed.toFinset := List.toFinset_eq_of_perm _ _ hperm
  have hstart : SafeGates tr (c.shuffle seed).toFinset := by
    rw [heq]
    exact (safeOver_iff h).mp hsafe
  refine (shrinkFrom_meets (fun map : Option M ↦ ∀ m ∈ map, Rep m) (monotone_safeGates h)
    (fun seed_copy map hsub hm ↦ ?_) [] (c.shuffle seed) map hrep heq.subset List.nodup_nil
    (List.disjoint_nil_left _) hstart fun _ ha ↦ absurd ha List.not_mem_nil).imp fun r hr ↦ ?_
  · refine (checkMap_meets hV hids hmap hsub hm).bind fun r hr ↦ ?_
    obtain ⟨sat, map'⟩ := r
    obtain ⟨hrep', hsat⟩ := hr
    dsimp only at hrep' hsat ⊢
    cases sat with
    | false =>
      exact ⟨hrep', fun hno ↦ absurd hno Bool.false_ne_true, fun hsafe ↦ absurd hsafe (hsat rfl)⟩
    | true => exact (meets_check h hic3 seed_copy).bind fun b hb ↦ ⟨hrep', hb⟩
  · obtain ⟨-, hnodup, hsub, hmin⟩ := hr
    exact .of_minimal h hnodup (fun g hg ↦ hperm.mem_iff.mp (hsub.subset hg)) hmin

theorem shrink_shrunkTo (V : MapSolver M) (h : tr.WellFormed) (hic3 : ∀ p, c.ic3 p = true ↔ p.Safe)
    (hshuffle : ∀ seed, (c.shuffle seed).Perm seed) (hsafe : SafeOver tr seed) :
    ∃ shrunk, IVCBFFinder.shrink c tr seed = .ok shrunk ∧ ShrunkTo tr seed shrunk := by
  have hnone : Meets (fun r ↦ ShrunkTo tr seed r.1) (fun _ ↦ False)
      (IVCBFFinder.shrinkWithMap c tr V seed none) := by
    have hV : Checks V seed (fun _ ↦ True) (fun _ ↦ False) (fun _ ↦ False) := fun _ _ hrep ↦ hrep.elim
    have hmap : ∀ t ⊆ seed.toFinset, ¬ True → RulesOut tr [] seed t := fun _ _ hno ↦ absurd trivial hno
    exact shrinkWithMap_meets h hV hic3 hshuffle (List.Subset.refl seed) hsafe hmap none nofun
  rw [IVCBFFinder.shrinkWithMap_none] at hnone
  obtain ⟨r, hr, hshrunk⟩ := hnone.exists_ok
  obtain ⟨shrunk, hok, hrest⟩ := bind_eq_ok.mp hr
  cases hrest
  exact ⟨shrunk, hok, hshrunk⟩

/-- Shrinking from a safe seed ends with a safe part of it that cannot lose a gate, in whatever
order the gates are tried: without a map, and with one that earlier calls left in any state where
it rules out only what it may. -/
theorem shrink_minimal {vm : VariableManager} {o : MSU4Options} {S : SAT.Solver} (h : tr.WellFormed)
    (hic3 : ∀ p, c.ic3 p = true ↔ p.Safe) (hshuffle : ∀ seed, (c.shuffle seed).Perm seed)
    (hsafe : SafeOver tr seed) (hids : IDSet ids) (hsub : seed ⊆ ids) (hvm : vm.Inv)
    (hlt : ∀ id ∈ ids, id < vm.nextID) (hS : S.Relevant) (mivcs : List Seed) :
    (∃ shrunk, IVCBFFinder.shrink c tr seed = .ok shrunk ∧ ShrunkTo tr seed shrunk) ∧
    ∀ calls, (∀ t ⊆ ids.toFinset, ¬ Open calls t → RulesOut tr mivcs seed t) →
      (∀ S' map, (SATArbitraryMapSolver.solver S').Reached ids (.new ids) calls map →
        ∃ r, IVCBFFinder.shrinkWithMap c tr (SATArbitraryMapSolver.solver S') seed (some map) = .ok r ∧
          ShrunkTo tr seed r.1) ∧
      ∀ map, (MSU4ArbitraryMapSolver.solver o S).Reached ids (.new vm ids) calls map →
        ∃ r, IVCBFFinder.shrinkWithMap c tr (MSU4ArbitraryMapSolver.solver o S) seed (some map) = .ok r ∧
          ShrunkTo tr seed r.1 := by
  refine ⟨shrink_shrunkTo (MSU4ArbitraryMapSolver.solver o S) h hic3 hshuffle hsafe, fun calls hmap ↦ ⟨fun S' map hx ↦ ?_, fun map hx ↦ ?_⟩⟩
  · have hrep := SATArbitraryMapSolver.reached_rep hids hx
    exact Meets.exists_ok (shrinkWithMap_meets h (fun x seed ↦ (SATArbitraryMapSolver.blocks hids).checkSeed seed)
      hic3 hshuffle hsub hsafe hmap (some map) fun m hm ↦ Option.mem_some.mp hm ▸ hrep)
  · have hrep := MSU4ArbitraryMapSolver.reached_rep hids hvm hlt hS hx
    exact Meets.exists_ok (shrinkWithMap_meets h (fun x seed ↦ (MSU4ArbitraryMapSolver.blocks hids 1).checkSeed seed)
      hic3 hshuffle hsub hsafe hmap (some map) fun m hm ↦ Option.mem_some.mp hm ▸ hrep)

/-- The map knows that the first gate alone does not do. -/
theorem shrink_minimal_relay :
    (∃ shrunk, IVCBFFinder.shrink (.exact relay) relay [8, 6] = .ok shrunk ∧
      ShrunkTo relay [8, 6] shrunk) ∧
    ∃ map, (SATArbitraryMapSolver.solver .minimal).Reached [6, 8] (.new [6, 8]) [.blockDown [6]] map ∧
      ∃ r, IVCBFFinder.shrinkWithMap (.exact relay) relay (SATArbitraryMapSolver.solver .minimal) [8, 6]
        (some map) = .ok r ∧ ShrunkTo relay [8, 6] r.1 := by
  have hids : IDSet [6, 8] := ⟨by decide, by decide, by decide⟩
  have hsafe : SafeOver relay [8, 6] :=
    (safeOver_iff relay_wellFormed).mpr ((safeOver_iff relay_wellFormed).mp safeOver_relay)
  have hexact := SafetyCheckers.exact_exact relay
  have hmap : ∀ t ⊆ [6, 8].toFinset, ¬ Open [.blockDown [6]] t → RulesOut relay [] [8, 6] t := by
    intro t _ hclosed
    refine .inl fun hsafe' ↦ hclosed fun call hcall ↦ ?_
    cases List.mem_singleton.mp hcall
    intro hle
    have hone : SafeGates relay [6].toFinset := monotone_safeGates relay_wellFormed hle hsafe'
    exact not_safeOver_relay ((safeOver_iff relay_wellFormed).mpr hone)
  obtain ⟨hnone, hsome⟩ := shrink_minimal (o := ⟨32, 1, true, Nat.one_pos⟩) relay_wellFormed hexact.ic3 hexact.shuffle
    hsafe hids (by decide) VariableManager.inv_three (by decide) SAT.Solver.minimal_relevant []
  obtain ⟨map, hblocked⟩ : ∃ map,
      (SATArbitraryMapSolver.solver .minimal).blockDown (.new [6, 8]) [6] = .ok map := ⟨_, rfl⟩
  have hreached := MapSolver.Reached.call (.blockDown [6]) (.start (V := SATArbitraryMapSolver.solver .minimal))
    (show [6] ⊆ [6, 8] by decide) hblocked
  exact ⟨hnone, map, hreached, (hsome _ hmap).1 .minimal map hreached⟩

end Shrink

end PME
