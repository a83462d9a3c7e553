import PME.BMCTrace
import PME.IC3.FrameAnswers

namespace PME.IC3

open Outcome TransitionRelation

theorem prime_lt {lit n : ℕ} (hmax : lit ≤ maxId) (hn : n ≤ maxPrimes) : prime lit n < 2 ^ 64 := by
  obtain hlow | hmin := Nat.lt_or_ge lit minId
  · rw [prime_of_lt hlow]
    rw [minId_eq] at hlow
    omega
  · rw [prime_of_ge hmin hmax]
    have hmax' : maxPrimes = 65535 := by decide
    rw [maxId_eq] at hmax
    omega

namespace FrameSolver

open InductiveTrace

variable {B : Backend} {tr : TransitionRelation} {first : ℕ} {vm vm' : VariableManager}
  {trace : InductiveTrace} {fs fs' : FrameSolver} {fail : Failure → Prop} {c crits : Cube}
  {ℓ : Level} {m : Assignment} {extra : ClauseVec} {now : Cube}

/-- A state that a model shows may only be empty when the solver has no latch in it. -/
theorem extractPredecessor_meets (hwf : tr.WellFormed) (htr : fs.tr = tr)
    (hblind : tr.latchIDs ≠ [] → (∀ l ∈ tr.latchIDs, l ∉ fs.solver.known) → fail .assertion) :
    Meets (fun pred ↦ pred = fs.solver.extract m tr.latchIDs 0 ∧ (tr.latchIDs ≠ [] → pred ≠ [])) fail
      (fs.extractPredecessor m) := by
  unfold extractPredecessor
  rw [htr]
  dsimp only
  by_cases hnone : tr.latchIDs = []
  · rw [hnone, List.isEmpty_nil, Bool.or_true, ensure_true, ok_bind]
    exact ⟨rfl, fun hno ↦ absurd rfl hno⟩
  by_cases hnil : fs.solver.extract m tr.latchIDs 0 = []
  · rw [hnil, List.isEmpty_nil, Bool.not_true, Bool.false_or,
      Bool.eq_false_iff.mpr fun hno ↦ hnone (List.isEmpty_iff.mp hno)]
    exact hblind hnone fun l hl hknown ↦ extract_ne_nil hwf hl hknown hnil
  · rw [Bool.eq_false_iff.mpr fun hno ↦ hnil (List.isEmpty_iff.mp hno), Bool.not_false,
      Bool.true_or, ensure_true, ok_bind]
    exact ⟨rfl, fun _ ↦ hnil⟩

theorem known_of_extract {ad : SATAdaptor} {vars : List ℕ} {lit : ℕ}
    (hvars : ∀ v ∈ vars, minId ≤ v ∧ v ≤ maxId ∧ v % 2 = 0) (h : lit ∈ ad.extract m vars 0) :
    strip lit ∈ ad.known := by
  obtain ⟨v, hv, hlit⟩ := List.mem_filterMap.mp h
  obtain ⟨-, hmax, heven⟩ := hvars v hv
  obtain ⟨value, hvalue, -⟩ := Option.map_eq_some_iff.mp hlit
  obtain rfl : strip lit = v := by
    have hone : lit ∈ ad.extract m [v] 0 := List.mem_filterMap.mpr ⟨v, List.mem_singleton_self v, hlit⟩
    exact List.mem_singleton.mp (mem_extract (fun u hu ↦ List.mem_singleton.mp hu ▸ hvars v hv) hone).1
  unfold SATAdaptor.safeGetAssignment at hvalue
  split at hvalue
  · next hhas =>
    rw [prime_zero hmax, SATAdaptor.hasSAT, strip_of_even heven] at hhas
    exact List.contains_iff_mem.mp hhas
  · exact absurd hvalue.symm (Option.some_ne_none _)

def Displayed (tr : TransitionRelation) (x : Assignment) (state : Cube) : Prop :=
  satCube x state ∧ ∀ v ∈ tr.latchIDs, x v = true → v ∈ state

theorem Displayed.sorted {x : Assignment} {state : Cube} (h : Displayed tr x state) :
    Displayed tr x (sortCube state) :=
  ⟨satCube_subset (fun _ hl ↦ mem_sortCube.mp hl) h.1, fun v hv hx ↦ mem_sortCube.mpr (h.2 v hv hx)⟩

/-- What the solver has not seen can be taken to be false in the frame that a model shows. -/
theorem Queried.displayed
    (hq : Queried B tr first vm trace fs ℓ extra now (.sat m) vm' fs') (hr : Readable tr first trace) :
    ∃ x y, tr.Linked x y ∧ InFrame trace ℓ x ∧
      Displayed tr x (fs'.solver.extract m tr.latchIDs 0) ∧
      ∀ lit, Visible tr lit → strip lit ∈ fs'.solver.known → litVal x lit = litVal m lit := by
  obtain ⟨x, y, hxy, hframe, hval⟩ := hq.exists_filled hr (x := fun _ ↦ false) (y := fun _ ↦ false) rfl rfl
  have hlatch := latch_var hr.wf
  refine ⟨x, y, hxy, hframe, ⟨fun lit hl ↦ ?_, fun v hv hx ↦ ?_⟩, fun lit hl ↦ (hval lit hl).1⟩
  · obtain ⟨hmem, htrue⟩ := mem_extract hlatch hl
    have hvis := visible_latch hr.wf hmem
    rw [(hval lit hvis).1 (known_of_extract hlatch hl), ← prime_zero hvis.1.2]
    exact htrue
  · have heven := (hlatch v hv).2.2
    have hstrip := strip_of_even heven
    have hvis : Visible tr v := visible_latch hr.wf (hstrip.symm ▸ hv)
    rw [SATAdaptor.mem_extract_zero m (fun u hu ↦ (hlatch u hu).2) hv]
    by_cases hk : v ∈ fs'.solver.known
    · have heq := (hval v hvis).1 (hstrip.symm ▸ hk)
      rw [litVal_of_even heven, litVal_of_even heven, hx] at heq
      rw [SATAdaptor.seen_eq m hk, ← heq]
    · have heq := (hval v hvis).2.1 (hstrip.symm ▸ hk)
      rw [litVal_of_even heven, litVal_of_even heven, hx] at heq
      exact absurd heq Bool.noConfusion

structure After (B : Backend) (tr : TransitionRelation) (first : ℕ) (vm : VariableManager)
    (trace : InductiveTrace) (fs : FrameSolver) (vm' : VariableManager) (fs' : FrameSolver) :
    Prop where
  rep : Rep B tr first vm' trace fs'
  inited : fs'.solverInited = true
  newer : Newer vm fs vm' fs'

theorem Queried.after {answer : SAT.Answer}
    (hq : Queried B tr first vm trace fs ℓ extra now answer vm' fs') :
    After B tr first vm trace fs vm' fs' := ⟨hq.toRep, hq.inited, hq.newer⟩

theorem Queried.nodup_core
    (hq : Queried B tr first vm trace fs ℓ extra (primeVec c 1) (.unsat crits) vm' fs')
    (hc : ∀ lit ∈ c, Visible tr lit) : (extractCoreWithPrimes c crits 1).Nodup := by
  refine nodup_extractCore hq.valid.2.1 fun crit hcrit ↦ ?_
  cases List.mem_append.mp (hq.valid.1 hcrit) with
  | inl hact =>
    cases ℓ with
    | inf => exact absurd hact List.not_mem_nil
    | fin n =>
      obtain ⟨i, hi, rfl⟩ := List.mem_map.mp hact
      have hrange := List.mem_range'_1.mp hi
      have hlt := (hq.act _ (Activation.getD_mem (hq.enough n rfl i hrange.1 (by omega)))).2.2
      have hmax := hq.vars.le_maxId
      have hle := @negate_le (fs'.activation.getD i idNull) (by omega)
      rw [maxId_eq] at hle
      omega
  | inr hprime =>
    obtain ⟨lit, hl, rfl⟩ := List.mem_map.mp hprime
    exact prime_lt (hc lit hl).1.2 (by decide)

theorem Queried.relInd_core
    (hq : Queried B tr first vm trace fs ℓ [negateVec c] (primeVec c 1) (.unsat crits) vm' fs')
    (hr : Readable tr first trace) (hc : ∀ lit ∈ c, Visible tr lit) (hknown : Known vm fs c) :
    (∀ lit ∈ c, minId ≤ lit) → RelInd tr trace ℓ c (extractCoreWithPrimes c crits 1) :=
  fun hmin ↦ hq.relInd hr hc hknown fun lit hl hcrit ↦
    mem_extractCore_of_prime hl (hmin lit hl) (hc lit hl).1.2 (by decide) hcrit

structure Faults (B : Backend) (tr : TransitionRelation) (first : ℕ) (vm : VariableManager)
    (trace : InductiveTrace) (fs : FrameSolver) (fail : Failure → Prop) (c : Cube) : Prop
    extends MayFail B tr vm trace fs fail where
  nonempty : c = [] → fail .assertion
  unprimed : (∃ lit ∈ c, nprimes lit ≠ 0) → fail .assertion

theorem consecutionFull_meets (h : Rep B tr first vm trace fs) (hwf : tr.WellFormed)
    (hf : Faults B tr first vm trace fs fail c) (ℓ : Level)
    (hblind : ∀ m vm' fs', Queried B tr first vm trace fs ℓ [negateVec c] (primeVec c 1) (.sat m) vm' fs' →
      tr.latchIDs ≠ [] → (∀ l ∈ tr.latchIDs, l ∉ fs'.solver.known) → fail .assertion) :
    Meets (fun r ↦ After B tr first vm trace fs r.2.1 r.2.2 ∧ match r.1 with
      | .holds core => ∃ crits, core = extractCoreWithPrimes c crits 1 ∧
          Queried B tr first vm trace fs ℓ [negateVec c] (primeVec c 1) (.unsat crits) r.2.1 r.2.2
      | .fails pred inp pinp => (tr.latchIDs ≠ [] → pred ≠ []) ∧
          ∃ m, pred = r.2.2.solver.extract m tr.latchIDs 0 ∧
          inp = r.2.2.solver.extract m tr.inputIDs 0 ∧ pinp = r.2.2.solver.extract m tr.inputIDs 1 ∧
          Queried B tr first vm trace fs ℓ [negateVec c] (primeVec c 1) (.sat m) r.2.1 r.2.2)
      fail (fs.consecutionFull B vm trace ℓ c) := by
  unfold consecutionFull
  refine (consecutionQuery_meets h hf.toMayFail hf.nonempty hf.unprimed ℓ).bind fun r hr ↦ ?_
  obtain ⟨answer, vm₁, fs₁⟩ := r
  obtain ⟨-, hq⟩ := hr
  dsimp only at hq ⊢
  cases answer with
  | unsat crits => exact ⟨hq.after, crits, rfl, hq⟩
  | sat m =>
    dsimp only
    refine (extractPredecessor_meets hwf hq.tr_eq (hblind m vm₁ fs₁ hq)).bind fun pred hp ↦ ?_
    obtain ⟨hpred, hne⟩ := hp
    refine ⟨hq.after, hne, m, hpred, ?_, ?_, hq⟩
    · rw [extractInputs, hq.tr_eq]
    · rw [extractPrimedInputs, hq.tr_eq]

theorem consecutionCore_meets (h : Rep B tr first vm trace fs)
    (hf : Faults B tr first vm trace fs fail c) (ℓ : Level) :
    Meets (fun r ↦ After B tr first vm trace fs r.2.1 r.2.2 ∧ ∀ core, r.1 = some core →
      ∃ crits, core = extractCoreWithPrimes c crits 1 ∧
        Queried B tr first vm trace fs ℓ [negateVec c] (primeVec c 1) (.unsat crits) r.2.1 r.2.2)
      fail (fs.consecutionCore B vm trace ℓ c) := by
  unfold consecutionCore
  refine (consecutionQuery_meets h hf.toMayFail hf.nonempty hf.unprimed ℓ).bind fun r hr ↦ ?_
  obtain ⟨answer, vm₁, fs₁⟩ := r
  obtain ⟨-, hq⟩ := hr
  dsimp only at hq ⊢
  cases answer with
  | unsat crits =>
    refine ⟨hq.after, fun core hcore ↦ ⟨crits, (Option.some_inj.mp hcore).symm, hq⟩⟩
  | sat m => exact ⟨hq.after, fun core hcore ↦ nomatch hcore⟩

theorem consecution_meets (h : Rep B tr first vm trace fs)
    (hf : Faults B tr first vm trace fs fail c) (ℓ : Level) :
    Meets (fun r ↦ After B tr first vm trace fs r.2.1 r.2.2 ∧ (r.1 = true → ∃ crits,
        Queried B tr first vm trace fs ℓ [negateVec c] (primeVec c 1) (.unsat crits) r.2.1 r.2.2))
      fail (fs.consecution B vm trace ℓ c) := by
  unfold consecution
  refine (consecutionQuery_meets h hf.toMayFail hf.nonempty hf.unprimed ℓ).bind fun r hr ↦ ?_
  obtain ⟨answer, vm₁, fs₁⟩ := r
  obtain ⟨-, hq⟩ := hr
  dsimp only at hq ⊢
  cases answer with
  | unsat crits => exact ⟨hq.after, fun _ ↦ ⟨crits, hq⟩⟩
  | sat m => exact ⟨hq.after, fun hno ↦ nomatch hno⟩

/-- The end of `intersectionFull`, which makes a state and inputs of a model. -/
def fullAnswer (answer : SAT.Answer) (vm : VariableManager) (fs : FrameSolver) :
    Result (Option (Cube × Cube) × VariableManager × FrameSolver) := do
  match answer with
  | .unsat _ => return (none, vm, fs)
  | .sat m => return (some (← fs.extractPredecessor m, fs.extractInputs m), vm, fs)

def Found (B : Backend) (tr : TransitionRelation) (first : ℕ) (vm : VariableManager)
    (trace : InductiveTrace) (fs : FrameSolver) (ℓ : Level) (c : Cube) :
    Option (Cube × Cube) → VariableManager → FrameSolver → Prop
  | none, vm', fs' => ∃ crits, Queried B tr first vm trace fs ℓ [] c (.unsat crits) vm' fs'
  | some (state, inputs), vm', fs' => ∃ m, state = fs'.solver.extract m tr.latchIDs 0 ∧
      inputs = fs'.solver.extract m tr.inputIDs 0 ∧
      Queried B tr first vm trace fs ℓ [] c (.sat m) vm' fs'

theorem intersectionFull_meets (h : Rep B tr first vm trace fs) (hwf : tr.WellFormed)
    (hf : MayFail B tr vm trace fs fail) (hc : c = [] → fail .assertion) (ℓ : Level)
    (hblind : ∀ m vm' fs', Queried B tr first vm trace fs ℓ [] c (.sat m) vm' fs' →
      tr.latchIDs ≠ [] → (∀ l ∈ tr.latchIDs, l ∉ fs'.solver.known) → fail .assertion) :
    Meets (fun r ↦ After B tr first vm trace fs r.2.1 r.2.2 ∧
        Found B tr first vm trace fs ℓ c r.1 r.2.1 r.2.2)
      fail (fs.intersectionFull B vm trace ℓ c) := by
  unfold intersectionFull
  refine intersectionQuery_meets h hf hc ℓ fullAnswer fun answer vm₁ fs₁ _ hq ↦ ?_
  cases answer with
  | unsat crits => exact ⟨hq.after, crits, hq⟩
  | sat m =>
    unfold fullAnswer
    refine (extractPredecessor_meets hwf hq.tr_eq (hblind m vm₁ fs₁ hq)).bind fun pred hp ↦ ?_
    refine ⟨hq.after, m, hp.1, ?_, hq⟩
    rw [extractInputs, hq.tr_eq]

/-- A cube intersects a frame exactly when the solver says so. -/
theorem intersection_meets (h : Rep B tr first vm trace fs) (hwf : tr.WellFormed)
    (hf : MayFail B tr vm trace fs fail) (hc : c = [] → fail .assertion) (ℓ : Level)
    (hblind : ∀ m vm' fs', Queried B tr first vm trace fs ℓ [] c (.sat m) vm' fs' →
      tr.latchIDs ≠ [] → (∀ l ∈ tr.latchIDs, l ∉ fs'.solver.known) → fail .assertion) :
    Meets (fun r ↦ After B tr first vm trace fs r.2.1 r.2.2 ∧ (Readable tr first trace →
      (∀ lit ∈ c, Visible tr lit) → Known vm fs c → (r.1 = true ↔ Intersects tr trace ℓ c)))
      fail (fs.intersection B vm trace ℓ c) := by
  unfold intersection
  refine (intersectionFull_meets h hwf hf hc ℓ hblind).bind fun r hr ↦ ?_
  obtain ⟨found, vm₁, fs₁⟩ := r
  obtain ⟨hafter, hr⟩ := hr
  refine ⟨hafter, fun hread hvis hknown ↦ ?_⟩
  cases found with
  | none =>
    obtain ⟨crits, hq⟩ := hr
    exact ⟨nofun, fun hno ↦ absurd hno (hq.not_intersects hread hvis hknown)⟩
  | some p =>
    obtain ⟨m, -, -, hq⟩ := hr
    exact ⟨fun _ ↦ hq.intersects hread hvis, fun _ ↦ rfl⟩

end FrameSolver

end PME.IC3
