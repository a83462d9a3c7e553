import PME.CoreQuery
import PME.SafetyProof

namespace PME

open Outcome TransitionRelation DebugTransitionRelation

namespace IVCUCBFFinder

def initStatesSafe (S : SAT.Solver) (tr : TransitionRelation) (seed : Seed) : Result Bool := do
  let part ← tr.ofGates seed
  let (answer, _) ← (BMCSolver.new part).solve S 0 []
  return decide (answer.result ≠ .unsafeAt)

/-- The part of `shrinkUC` that sets the MUS finder up. -/
def buildQuery (B : Backend) (d : DebugTransitionRelation) (vm : VariableManager) (seed : Seed)
    (shrunkProof : ClauseVec) : Result (VariableManager × MUSFinderWrapper) := do
  let finder ← MUSFinderWrapper.new.addHardClauses shrunkProof
  let (vm, negInvp) ← negatePrimeAndCNFize vm shrunkProof
  let finder ← finder.addHardClauses negInvp
  let debugTR ← (if B.simplify then simplifyTR B.simplifier d.toTransitionRelation else pure (d.unroll 2))
  let finder ← finder.addHardClauses debugTR
  seed.foldlM (fun (s : VariableManager × MUSFinderWrapper) gate ↦
    s.2.addSoftClause s.1 gate [negate (d.debugLatchForGate gate)]) (vm, finder)

def findCoreOrMUS (B : Backend) (opts : IVCUCBFOptions) (finder : MUSFinderWrapper) (seed : Seed) : Result Seed :=
  if opts.useCore then do
    let (core, _) ← finder.findCore B.sat
    return core
  else if opts.useMUS then do
    let (core, _) ← finder.findMUS B.sat
    return core
  else return seed

def shrinkUC (B : Backend) (opts : IVCUCBFOptions) (d : DebugTransitionRelation) (vm : VariableManager)
    (tr : TransitionRelation) (seed : Seed) (proof : ClauseVec) : Result (VariableManager × Seed) := do
  let (vm, shrunkProof) ← shrinkProof B opts vm tr seed proof
  let (vm, finder) ← buildQuery B d vm seed (orProperty tr shrunkProof)
  let core ← findCoreOrMUS B opts finder seed
  let initSafe ← initStatesSafe B.sat tr core
  return (vm, if initSafe then core else seed)

/-- The constructor makes the debug relation. -/
def shrink (B : Backend) (opts : IVCUCBFOptions) (c : SafetyCheckers) (vm : VariableManager)
    (tr : TransitionRelation) (seed : Seed) : Result (VariableManager × Seed) := do
  let (d, vm) ← fromRelation vm tr
  let (safe, proof) ← IVCBFFinder.isSafeWithProof c tr seed
  ensure safe
  let (vm, core) ← shrinkUC B opts d vm tr seed proof
  return (vm, ← IVCBFFinder.shrink c tr core)

end IVCUCBFFinder

def TransitionRelation.StartsSafe (p : TransitionRelation) : Prop :=
  ∀ x, p.IsFrame x → p.IsInit x → litVal x p.bad = false

section BadStart

variable {p tr : TransitionRelation} {fail : Failure → Prop}

theorem execution_start_iff (hv : p.LitsValid) (hnodup : (p.latches.map Latch.id).Nodup) :
    BMCSolver.Execution p [] [] 0 1 ↔ ¬ p.StartsSafe := by
  unfold TransitionRelation.StartsSafe
  push Not
  constructor
  · rintro ⟨σ, -, hinit, hrun, -, -, hbad⟩
    exact ⟨frameOf σ 0, (hrun 0 Nat.one_pos).1, hinit, by simpa using hbad⟩
  · rintro ⟨x, hx, hinit, hbad⟩
    obtain ⟨y, hy⟩ := exists_step hnodup x
    let run : ℕ → Assignment := fun i ↦ if i = 0 then x else y
    have hrun : p.IsRun 1 run := by
      intro i hi
      obtain rfl : i = 0 := by omega
      exact ⟨hx, hy⟩
    have hsame : SameSignals (frameOf (joinFrames run) 0) x := sameSignals_joinFrames hx.const
    refine ⟨joinFrames run, joinFrames_idFalse run, hinit.congr hv hsame.symm, isRun_joinFrames hv hrun,
      satClauses_nil, satCube_nil, ?_⟩
    rw [hsame.litVal_eq hv.bad]
    simpa using hbad

theorem IVCUCBFFinder.initStatesSafe_meets (S : SAT.Solver) (h : tr.WellFormed) (seed : Seed) :
    Meets (fun b ↦ b = true ↔ ∀ p, tr.ofGates seed = .ok p → p.StartsSafe) fail (initStatesSafe S tr seed) := by
  obtain ⟨p, hok, hp, relevant, ha⟩ := Meets.exists_ok (ofGates_assigns h.latches_nodup seed)
  have hvalid := hp.litsValid h
  have hnodup : (p.latches.map Latch.id).Nodup := hp.latchIDs ▸ ha.nodup
  have hask : Meets _ fail ((BMCSolver.new p).solveAtK S 0 []) :=
    BMCSolver.solveAtK_meets S BMCSolver.rep_new hvalid hp.toCNF_nonempty nofun (absurd · BMCSolver.not_deep_zero) []
  have hsolve : Meets (fun r ↦ r.1.result = .unsafeAt ↔ ¬ p.StartsSafe) fail ((BMCSolver.new p).solve S 0 []) := by
    refine hask.bind fun r hr ↦ ?_
    obtain ⟨answer, b⟩ := r
    have hanswer : answer.result = .unsafeAt ↔ BMCSolver.Execution p [] [] 0 1 := hr.2.2.2
    rw [← execution_start_iff hvalid hnodup]
    by_cases hres : answer.result = .unsafeAt
    · simpa [hres] using hanswer
    · simpa [hres, BMCSolver.solveAt] using hanswer
  unfold initStatesSafe
  rw [hok, ok_bind]
  have hall : (∀ q, .ok p = (.ok q : Result TransitionRelation) → q.StartsSafe) ↔ p.StartsSafe :=
    ⟨fun hq ↦ hq p rfl, fun hq q heq ↦ Except.ok.inj heq ▸ hq⟩
  rw [hall]
  refine hsolve.bind fun r hr ↦ ?_
  obtain ⟨answer, b⟩ := r
  simp [hr]

theorem SafetyProof.shared {n : ℕ} {d : DebugTransitionRelation} {seed : Seed} {inv : ClauseVec} (h : Debugs tr n d) (hp : IsPartial tr seed p) (hproof : SafetyProof p inv) :
    Shared d n inv := by
  have hwf := h.wellFormed
  intro c hc lit hl
  obtain rfl | hlatch := hproof.clause c hc
  · obtain rfl := List.mem_singleton.mp hl
    rw [hp.bad, ← h.bad]
    refine ⟨(IC3.visible_bad hwf).negate, ?_⟩
    rw [strip_negate, h.bad]
    obtain hconst | hmem := h.wf.bad_defined
    · rw [hconst]
      exact Nat.lt_of_lt_of_le (by decide) h.minId_le
    · exact h.old _ hmem
  · have hmem : strip lit ∈ tr.latchIDs := by
      have hin := hlatch lit hl
      rw [hp.latchIDs] at hin
      obtain ⟨l, hl', heq⟩ := List.mem_map.mp hin
      exact heq ▸ h.wf.latch_mem ((hp.latches l).mp hl').1
    refine ⟨IC3.visible_latch hwf ?_, h.old _ (mem_signals.mpr (.inl (List.mem_append_right _ hmem)))⟩
    rw [h.base]
    exact List.mem_append_left _ hmem

end BadStart

def IVCUCBFOptions.Minimizes (opts : IVCUCBFOptions) : Prop := opts.useSimpleMin = true ∨ opts.useSISI = true

def IVCUCBFOptions.SeeksCore (opts : IVCUCBFOptions) : Prop := opts.useCore = true ∨ opts.useMUS = true

namespace IVCUCBFFinder

/-- The proofs that shrinking can make of the one that is given. -/
structure Usable (opts : IVCUCBFOptions) (p : TransitionRelation) (given inv : ClauseVec) : Prop where
  proof : SafetyProof p inv
  nonempty : inv ≠ []
  part : inv ⊆ [negate p.bad] :: given
  property : opts.Minimizes → [negate p.bad] ∈ inv
  kept : ¬ opts.Minimizes → inv = orProperty p given

/-- The circuit of the seed starts and, where formulas are simplified to minimize the proof, steps. -/
structure Startable (simplify : Bool) (opts : IVCUCBFOptions) (p : TransitionRelation) : Prop where
  starts : ∃ x, p.IsFrame x ∧ p.IsInit x
  steps : simplify = true → opts.Minimizes → ∃ x y, p.Linked x y

/-- A set of gates from which gates can be left out by cores: with the gates of a core alone the proof
still holds and nothing but a bad initial state can make the circuit unsafe. The proofs hold where
the constraints do, which the debug relation does not have. -/
structure Shrinkable (simplify : Bool) (opts : IVCUCBFOptions) (tr : TransitionRelation) (S : List ℕ)
    (p : TransitionRelation) (given : ClauseVec) : Prop extends Startable simplify opts p where
  carried : opts.SeeksCore → ∀ inv, Usable opts p given inv → tr.Carried S inv
  safe : opts.SeeksCore → ∀ inv, Usable opts p given inv → ∀ C ⊆ S, tr.Carried C inv →
    (∀ q, tr.ofGates C = .ok q → q.StartsSafe) → SafeOver tr C

variable {tr p : TransitionRelation} {n : ℕ} {d : DebugTransitionRelation} {vm : VariableManager} {seed core : Seed}
  {inv proof : ClauseVec} {B : Backend} {opts : IVCUCBFOptions} {w : MUSFinderWrapper} {fail : Failure → Prop}

/-- The finder that `buildQuery` sets up: the gates of a part of the seed are unsatisfiable when they
carry the proof. -/
structure Asks (tr : TransitionRelation) (seed : Seed) (inv : ClauseVec) (cls : ℕ → Clause)
    (r : VariableManager × MUSFinderWrapper) : Prop where
  query : ∃ hard first, MUSFinderWrapper.Rep hard (MUSFinderWrapper.softOf cls seed) first seed r.1 r.2 ∧
    ∀ C ⊆ seed, GroupsSat hard (fun g ↦ [cls g]) C ↔ ¬ tr.Carried C inv

theorem buildQuery_meets (h : Debugs tr n d) (hvm : vm.Inv) (hold : n + 4 * tr.gateIDs.length ≤ vm.nextID)
    (hnodup : seed.Nodup) (hsub : seed ⊆ tr.gateIDs) (hinv : Shared d n inv) (hne : inv ≠ []) (hnil : [] ∉ inv)
    (hids : ∀ e : Failure, e = .narrowed ∨ e = .idsExhausted →
      2 ^ 32 < vm.nextID + encodingIDs inv.length + 2 * seed.length → fail e)
    (hmany : 2 ^ 32 < seed.length → fail .assertion) :
    Meets (fun r ↦ Asks tr seed inv (fun g ↦ [negate (d.debugLatchForGate g)]) r ∧ r.1.Inv ∧
      vm.nextID ≤ r.1.nextID ∧ r.1.nextID ≤ vm.nextID + encodingIDs inv.length + 2 * seed.length)
      fail (buildQuery B d vm seed inv) := by
  have hmin := h.minId_le
  have hlits : ∀ c ∈ inv, ∀ lit ∈ c, lit ≤ maxId := fun c hc lit hl ↦ (hinv c hc lit hl).1.1.2
  have hnow : ∀ c ∈ inv, c ≠ [] ∧ ∀ lit ∈ c, unprime (strip lit) < vm.nextID := by
    refine fun c hc ↦ ⟨fun hempty ↦ hnil (hempty ▸ hc), fun lit hl ↦ ?_⟩
    have hlt := (hinv c hc lit hl).2
    rw [unprime_eq]
    exact (Nat.mod_le _ _).trans_lt (by omega)
  unfold buildQuery
  refine (MUSFinderWrapper.addHardClauses_meets (MUSFinderWrapper.rep_new hvm) hnow).bind fun w₁ h₁ ↦ ?_
  have hneg : Meets (Negates vm inv) fail (negatePrimeAndCNFize vm inv) := by
    refine (negatePrimeAndCNFize_meets inv hvm hne hlits).weaken fun e he ↦ hids e ?_ ?_
    · exact he.imp And.left And.left
    · rw [TooLarge, maxId_eq] at he
      omega
  refine hneg.bind fun r hr ↦ ?_
  obtain ⟨vm₂, negInvp⟩ := r
  have hge : vm.nextID ≤ vm₂.nextID := hr.ge
  have hle : vm₂.nextID ≤ vm.nextID + encodingIDs inv.length := hr.le
  have hnext : ∀ c ∈ negInvp, c ≠ [] ∧ ∀ lit ∈ c, unprime (strip lit) < vm₂.nextID := by
    refine fun c hc ↦ ⟨hr.nonempty c hc, fun lit hl ↦ ?_⟩
    obtain ⟨c', hc', lit', hl', heq⟩ | hnew := hr.known _ (mem_varsOf hc hl)
    · obtain ⟨hvis, hlt⟩ := hinv c' hc' lit' hl'
      rw [heq, unprime_prime hvis.1.strip.2]
      omega
    · rw [unprime_eq]
      exact (Nat.mod_le _ _).trans_lt hnew.2
  refine (MUSFinderWrapper.addHardClauses_meets (h₁.with_vars hr.vars hge) hnext).bind fun w₂ h₂ ↦ ?_
  have hunroll : Meets _ fail (if B.simplify then simplifyTR B.simplifier d.toTransitionRelation else pure (d.unroll 2)) :=
    h.computeSimplifiedTR_meets B
  refine hunroll.bind fun unrolled hu ↦ ?_
  have hunrolled : ∀ c ∈ unrolled, c ≠ [] ∧ ∀ lit ∈ c, unprime (strip lit) < vm₂.nextID := by
    refine fun c hc ↦ ⟨hu.1.nonempty c hc, fun lit hl ↦ ?_⟩
    have hlt := hu.2 c hc lit hl
    omega
  refine (MUSFinderWrapper.addHardClauses_meets h₂ hunrolled).bind fun w₃ h₃ ↦ ?_
  have hlatch : ∀ g ∈ seed, ∀ lit ∈ [negate (d.debugLatchForGate g)], strip lit < vm.nextID := by
    intro g hg lit hl
    have hlt := h.latch_lt (hsub hg)
    rw [List.mem_singleton.mp hl, strip_negate, strip_of_even (h.latch_isVar (hsub hg)).2.2]
    omega
  have hexhausted : maxId + 1 < vm₂.nextID + 2 * seed.length → fail .idsExhausted := fun hlt ↦ by
    rw [maxId_eq] at hlt
    exact hids _ (.inr rfl) (by omega)
  refine (MUSFinderWrapper.addSoftClauses_meets h₃ hnodup hlatch hexhausted hmany).imp fun r hr' ↦ ?_
  obtain ⟨vm₄, w₄⟩ := r
  obtain ⟨hrep, hlast⟩ := hr'
  dsimp only at hrep hlast ⊢
  have hquery : CoreQuery tr n d vm inv unrolled (vm₂, negInvp) := ⟨h, hold, hu.1, hr, hinv⟩
  refine ⟨⟨_, _, hrep, fun C hC ↦ ?_⟩, hrep.finder.vars, by omega, by omega⟩
  exact hquery.groupsSat_iff (List.Subset.trans hC hsub)

/-- The core, or the whole seed, carries the proof. -/
theorem findCoreOrMUS_meets {cls : ℕ → Clause} {r : VariableManager × MUSFinderWrapper} (h : Asks tr seed inv cls r)
    (hnodup : seed.Nodup) (hcarried : opts.SeeksCore → ¬ tr.Carried seed inv → fail .assertion) :
    Meets (fun core ↦ core.Nodup ∧ core ⊆ seed ∧ (core = seed ∧ ¬ opts.SeeksCore ∨ opts.SeeksCore ∧ tr.Carried core inv)) fail
      (findCoreOrMUS B opts r.2 seed) := by
  obtain ⟨hard, first, hrep, hasks⟩ := h.query
  have hunsat : opts.SeeksCore → GroupsSat hard (fun g ↦ [cls g]) seed → fail .assertion := fun hseek hsat ↦
    hcarried hseek ((hasks seed (List.Subset.refl _)).mp hsat)
  have hcore : ∀ core : Seed, core ⊆ seed → ¬ GroupsSat hard (fun g ↦ [cls g]) core → tr.Carried core inv :=
    fun core hsub hno ↦ not_not.mp (mt (hasks core hsub).mpr hno)
  unfold findCoreOrMUS
  split
  · next huse =>
    refine (MUSFinderWrapper.findCore_meets hrep hnodup (hunsat (.inl huse))).bind fun r hr ↦ ?_
    exact ⟨hr.1, hr.2.1, .inr ⟨.inl huse, hcore _ hr.2.1 hr.2.2⟩⟩
  · split
    · next huse =>
      refine (MUSFinderWrapper.findMUS_meets hrep hnodup (hunsat (.inr huse))).bind fun r hr ↦ ?_
      exact ⟨hr.1, hr.2.1, .inr ⟨.inr huse, hcore _ hr.2.1 hr.2.2⟩⟩
    · next hno hno' => exact ⟨hnodup, List.Subset.refl _, .inl ⟨rfl, not_or.mpr ⟨hno, hno'⟩⟩⟩

/-- IDs that are taken for a proof of `len` clauses, to minimize it, to negate it and for the groups. -/
def coreIDs (gates len : ℕ) : ℕ := 2 * len + encodingIDs len + 2 * gates

theorem encodingIDs_mono {m k : ℕ} (h : m ≤ k) : encodingIDs m ≤ encodingIDs k := by
  unfold encodingIDs
  gcongr

theorem orProperty_bad (h : p.bad = tr.bad) (inv : ClauseVec) : orProperty tr inv = orProperty p inv := by
  unfold orProperty
  rw [h]

/-- What a call of `shrinkUC` has done when it returns: the gates that are left, unless they are all,
carry some usable proof and start safely. -/
structure CoreShrunk (opts : IVCUCBFOptions) (tr p : TransitionRelation) (seed : Seed) (given : ClauseVec)
    (vm : VariableManager) (cost : ℕ) (r : VariableManager × Seed) : Prop where
  vars : r.1.Inv
  ge : vm.nextID ≤ r.1.nextID
  le : r.1.nextID ≤ vm.nextID + cost
  nodup : r.2.Nodup
  subset : r.2 ⊆ seed
  carried : opts.SeeksCore → ∃ inv, Usable opts p given inv ∧ tr.Carried seed inv
  core : r.2 = seed ∨ opts.SeeksCore ∧ ∃ inv, Usable opts p given inv ∧ tr.Carried r.2 inv ∧
    ∀ q, tr.ofGates r.2 = .ok q → q.StartsSafe

theorem shrinkUC_meets (h : Debugs tr n d) (hvm : vm.Inv) (hold : n + 4 * tr.gateIDs.length ≤ vm.nextID)
    (hnodup : seed.Nodup) (hsub : seed ⊆ tr.gateIDs) (hok : tr.ofGates seed = .ok p) (hproof : SafetyProof p proof)
    (hstart : Startable B.simplify opts p)
    (hcarried : opts.SeeksCore → ∀ inv, Usable opts p proof inv → ¬ tr.Carried seed inv → fail .assertion)
    (hids : ∀ e : Failure, e = .narrowed ∨ e = .idsExhausted →
      2 ^ 32 < vm.nextID + coreIDs seed.length (proof.length + 1) → fail e)
    (hmany : 2 ^ 32 < seed.length → fail .assertion) :
    Meets (CoreShrunk opts tr p seed proof vm (coreIDs seed.length (proof.length + 1))) fail
      (shrinkUC B opts d vm tr seed proof) := by
  have hpart : Meets _ fail (tr.ofGates seed) := ofGates_meets h.wf.latches_nodup seed
  have hp : IsPartial tr seed p := hpart.of_ok hok
  have hsignals : ∀ v ∈ tr.signals, v < vm.nextID := fun v hv ↦ by
    have hlt := h.old v hv
    omega
  have hminimize : Meets _ fail (shrinkProof B opts vm tr seed proof) :=
    shrinkProof_meets h.wf hvm hsignals hok hproof hstart.starts hstart.steps fun hlt ↦ hids _ (.inr rfl) (by
      rw [maxId_eq] at hlt
      unfold coreIDs
      omega)
  unfold shrinkUC
  refine hminimize.bind fun r₁ h₁ ↦ ?_
  obtain ⟨vm₁, shrunk⟩ := r₁
  have hshrunk := h₁.orProperty
  dsimp only at hshrunk ⊢
  rw [orProperty_bad hp.bad]
  have hne := orProperty_ne_nil p shrunk
  generalize orProperty p shrunk = inv at hshrunk hne ⊢
  obtain ⟨hinv₁, hge₁, hle₁, hproof', hlen, hpart', hprop, hkept⟩ := hshrunk
  dsimp only at hinv₁ hge₁ hle₁ hproof' hlen hpart' hprop hkept
  have husable : Usable opts p proof inv := ⟨hproof', hne, hpart', hprop, fun hno ↦
    (orProperty_of_ne_nil hne).symm.trans (hkept hno)⟩
  have hcost := encodingIDs_mono hlen
  have hbuild : Meets _ fail (buildQuery B d vm₁ seed inv) :=
    buildQuery_meets h hinv₁ (by omega) hnodup hsub (hproof'.shared h hp) hne (hproof'.nil_not_mem hstart.starts)
      (fun e he hlt ↦ hids e he (by unfold coreIDs; omega)) hmany
  refine hbuild.bind fun r₂ h₂ ↦ ?_
  obtain ⟨vm₂, finder⟩ := r₂
  obtain ⟨hasks, hinv₂, hge₂, hle₂⟩ := h₂
  dsimp only at hinv₂ hge₂ hle₂ ⊢
  have hfind : Meets _ fail (findCoreOrMUS B opts finder seed) :=
    findCoreOrMUS_meets (r := (vm₂, finder)) hasks hnodup fun hseek ↦ hcarried hseek inv husable
  refine hfind.bind fun core hcore ↦ ?_
  obtain ⟨honce, hin, hcases⟩ := hcore
  have hall : opts.SeeksCore → ∃ inv, Usable opts p proof inv ∧ tr.Carried seed inv := fun hseek ↦
    ⟨inv, husable, (hcases.resolve_left fun hno ↦ hno.2 hseek).2.mono hin⟩
  have hge : vm.nextID ≤ vm₂.nextID := by omega
  have hle : vm₂.nextID ≤ vm.nextID + coreIDs seed.length (proof.length + 1) := by
    unfold coreIDs
    omega
  refine (initStatesSafe_meets B.sat h.wf core).bind fun b hb ↦ ?_
  cases b with
  | false => exact ⟨hinv₂, hge, hle, hnodup, List.Subset.refl _, hall, .inl rfl⟩
  | true =>
    refine ⟨hinv₂, hge, hle, honce, hin, hall, hcases.imp And.left fun hcore ↦ ?_⟩
    exact ⟨hcore.1, inv, husable, hcore.2, hb.mp rfl⟩

theorem CoreShrunk.safe {simplify : Bool} {cost : ℕ} {r : VariableManager × Seed}
    (h : CoreShrunk opts tr p seed proof vm cost r) (hshrink : Shrinkable simplify opts tr seed p proof) (hsafe : SafeOver tr seed) : SafeOver tr r.2 := by
  obtain heq | ⟨hseek, inv, husable, hcarried, hstarts⟩ := h.core
  · rwa [heq]
  · exact hshrink.safe hseek inv husable r.2 h.subset hcarried hstarts

end IVCUCBFFinder

/-- The proofs handed out for the safe circuits are proofs of them. -/
def SafetyCheckers.Certifies (c : SafetyCheckers) (tr : TransitionRelation) : Prop :=
  ∀ gates p, tr.ofGates gates = .ok p → p.Safe → SafetyProof p (c.proof p)

namespace IVCUCBFFinder

variable {tr p : TransitionRelation} {vm : VariableManager} {seed : Seed} {B : Backend} {opts : IVCUCBFOptions}
  {c : SafetyCheckers} {fail : Failure → Prop}

def shrinkIDs (gates len : ℕ) : ℕ := 4 * gates + coreIDs gates (len + 1)

theorem shrinkIDs_mono {gates m k : ℕ} (h : m ≤ k) : shrinkIDs gates m ≤ shrinkIDs gates k := by
  have hcost : encodingIDs (m + 1) ≤ encodingIDs (k + 1) := encodingIDs_mono (Nat.succ_le_succ h)
  unfold shrinkIDs coreIDs
  omega

/-- The part of `shrink` before the gates are tried one by one. -/
theorem core_meets (h : tr.WellFormed) (hplain : tr.gateCNF = AndGate.toCNF) (hc : c.Exact tr)
    (hproof : SafetyProof p (c.proof p)) (hvm : vm.Inv) (hold : ∀ v ∈ tr.signals, v < vm.nextID) (hnodup : seed.Nodup)
    (hsub : seed ⊆ tr.gateIDs) (hok : tr.ofGates seed = .ok p) (hsafe : p.Safe)
    (hstart : Startable B.simplify opts p)
    (hcarried : opts.SeeksCore → ∀ inv, Usable opts p (c.proof p) inv → ¬ tr.Carried seed inv → fail .assertion)
    (hids : ∀ e : Failure, e = .narrowed ∨ e = .idsExhausted →
      2 ^ 32 < vm.nextID + shrinkIDs tr.gateIDs.length (c.proof p).length → fail e)
    (hmany : 2 ^ 32 < seed.length → fail .assertion)
    {Q : VariableManager × Seed → Prop}
    (hrest : ∀ r, CoreShrunk opts tr p seed (c.proof p) vm (shrinkIDs tr.gateIDs.length (c.proof p).length) r →
      Meets (fun s ↦ Q (r.1, s)) fail (IVCBFFinder.shrink c tr r.2)) :
    Meets Q fail (shrink B opts c vm tr seed) := by
  have hlen : seed.length ≤ tr.gateIDs.length := (List.subperm_of_subset hnodup hsub).length_le
  unfold shrinkIDs coreIDs at *
  have hdebug : Meets _ fail (fromRelation vm tr) := (fromRelation_debugs h hplain hvm hold).weaken fun e he ↦ by
    rw [maxId_eq] at he
    exact hids e (.inr he.1) (by omega)
  unfold shrink IVCBFFinder.isSafeWithProof
  refine hdebug.bind fun r hr ↦ ?_
  obtain ⟨d, vm₁⟩ := r
  obtain ⟨hd, hinv₁, hnext₁⟩ := hr
  dsimp only at hd hinv₁ hnext₁ ⊢
  rw [hok, ok_bind, if_pos ((hc.ic3 p).mpr hsafe)]
  simp only [pure_bind, ensure_true, ok_bind]
  have hcore : Meets _ fail (shrinkUC B opts d vm₁ tr seed (c.proof p)) :=
    shrinkUC_meets hd hinv₁ hnext₁.ge hnodup hsub hok hproof hstart hcarried
      (fun e he hlt ↦ hids e he (by unfold coreIDs at hlt; omega)) hmany
  refine hcore.bind fun r hr ↦ ?_
  obtain ⟨hinv₂, hge₂, hle₂, honce, hin, hall, hcases⟩ := hr
  unfold coreIDs at hle₂
  exact (hrest r ⟨hinv₂, by omega, by omega, honce, hin, hall, hcases⟩).bind fun s hs ↦ hs

theorem shrink_meets (h : tr.WellFormed) (hplain : tr.gateCNF = AndGate.toCNF) (hc : c.Exact tr)
    (hproof : SafetyProof p (c.proof p)) (hvm : vm.Inv) (hold : ∀ v ∈ tr.signals, v < vm.nextID) (hnodup : seed.Nodup)
    (hsub : seed ⊆ tr.gateIDs) (hok : tr.ofGates seed = .ok p)
    (hshrink : Shrinkable B.simplify opts tr seed p (c.proof p)) (hsafe : SafeGates tr seed.toFinset)
    (hids : ∀ e : Failure, e = .narrowed ∨ e = .idsExhausted →
      2 ^ 32 < vm.nextID + shrinkIDs tr.gateIDs.length (c.proof p).length → fail e)
    (hmany : 2 ^ 32 < seed.length → fail .assertion) :
    Meets (fun r ↦ r.1.Inv ∧ vm.nextID ≤ r.1.nextID ∧
      r.1.nextID ≤ vm.nextID + shrinkIDs tr.gateIDs.length (c.proof p).length ∧
      r.2.Nodup ∧ r.2 ⊆ seed ∧ Minimal (SafeGates tr) r.2.toFinset) fail (shrink B opts c vm tr seed) := by
  have hsafe' : SafeOver tr seed := (safeOver_iff h).mpr hsafe
  refine core_meets h hplain hc hproof hvm hold hnodup hsub hok ((safeOver_of_ok hok).mp hsafe') hshrink.toStartable
    (fun hseek inv husable hno ↦ absurd (hshrink.carried hseek inv husable) hno) hids hmany fun r hr ↦ ?_
  have hcore := (safeOver_iff h).mp (hr.safe hshrink hsafe')
  refine (IVCBFFinder.shrink_meets h hc hcore).imp fun s hs ↦ ?_
  exact ⟨hr.vars, hr.ge, hr.le, hs.1, List.Subset.trans hs.2.1 hr.subset, hs.2.2⟩

end IVCUCBFFinder

namespace IVCUCBFFinder

section Free

variable {tr p q : TransitionRelation} {S C : List ℕ} {x y : Assignment} {inv : ClauseVec} {opts : IVCUCBFOptions}
  {k : ℕ} {simplify : Bool}

end Free

end IVCUCBFFinder

end PME
