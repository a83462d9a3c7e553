import PME.TotalizerEmission

namespace PME

open Outcome TotalizerTree

namespace TotalizerCardinalityConstraint

def made (c : TotalizerCardinalityConstraint) : List ℕ :=
  match c.root with
  | some root => root.made
  | none => []

/-- A constraint in use: the variables it shares with the rest of the program, and the clauses
written so far. -/
structure Session where
  vars : VariableManager
  constraint : TotalizerCardinalityConstraint
  emitted : ClauseVec

/-- An input is a literal that has not been added and that is not over a variable made for the
constraint itself. -/
structure Session.Admits (s : Session) (id : ℕ) : Prop where
  ne_null : id ≠ idNull
  old : Old s.vars.nextID (strip id)
  new : id ∉ s.constraint.inputs
  other : strip id ∉ s.constraint.made

inductive Step : Session → Session → Prop
  | addInput {s : Session} {vars' : VariableManager} {c' : TotalizerCardinalityConstraint}
    (id : ℕ) (hid : s.Admits id) (h : s.constraint.addInput s.vars id = .ok (vars', c')) :
    Step s { s with vars := vars', constraint := c' }
  | setCardinality {s : Session} {vars' : VariableManager} {c' : TotalizerCardinalityConstraint}
    (n : ℕ) (h : s.constraint.setCardinality s.vars n = .ok (vars', c')) :
    Step s { s with vars := vars', constraint := c' }
  | incrementalCNFize {s : Session} {c' : TotalizerCardinalityConstraint} {cnf : ClauseVec}
    (h : s.constraint.incrementalCNFize = .ok (c', cnf)) :
    Step s { s with constraint := c', emitted := s.emitted ++ cnf }
  /-- Others make variables in between. -/
  | getNewID {s : Session} {vars' : VariableManager} (h : vars'.Inv)
    (hle : s.vars.nextID ≤ vars'.nextID) : Step s { s with vars := vars' }

structure Kept (s : Session) (t : TotalizerTree) : Prop where
  leaves : t.leaves = s.constraint.inputs
  outputs : s.constraint.outputs = t.outputs
  filled : t.Filled s.constraint.cardinality
  proper : t.Proper
  lt : ∀ v ∈ t.made, v < s.vars.nextID
  old : ∀ x ∈ t.leaves, Old s.vars.nextID (strip x)
  sent : ∃ k ≤ s.constraint.cardinality, t.Marked s.constraint.cardinality k ∧
    s.emitted.Perm t.sentCNF

structure Session.Inv (s : Session) : Prop where
  vars : s.vars.Inv
  empty : s.constraint.root = none → s.constraint.inputs = [] ∧ s.emitted = []
  kept : ∀ t, s.constraint.root = some t → Kept s t

variable {fail : Failure → Prop} {s s' : Session} {t : TotalizerTree}

theorem inv_new {vars : VariableManager} (h : vars.Inv) : Session.Inv ⟨vars, new, []⟩ where
  vars := h
  empty _ := ⟨rfl, rfl⟩
  kept _ ht := nomatch ht

theorem Kept.withVars (h : Kept s t) {vars' : VariableManager}
    (hle : s.vars.nextID ≤ vars'.nextID) : Kept { s with vars := vars' } t :=
  { h with
    lt := fun v hv ↦ (h.lt v hv).trans_le hle
    old := fun x hx ↦ (h.old x hx).mono hle }

section NewRoot

variable {id : ℕ} {new : List ℕ} {vars' : VariableManager}

theorem Kept.node_proper (h : Kept s t) (hvars : s.vars.Inv) (hid : s.Admits id)
    (hmade : s.constraint.made = t.made) (hvars' : vars'.Inv)
    (hnew : Fresh s.vars.nextID vars'.nextID new) :
    (TotalizerTree.node t (leaf id) new new.toFinset).Proper where
  leaves := by
    simp only [TotalizerTree.leaves, h.leaves]
    refine List.nodup_append.mpr ⟨h.leaves ▸ h.proper.leaves, List.nodup_singleton id, ?_⟩
    intro x hx y hy he
    rw [List.mem_singleton.mp hy] at he
    exact hid.new (he ▸ hx)
  made := by
    simp only [TotalizerTree.made, List.append_nil]
    refine List.nodup_append.mpr ⟨h.proper.made, hnew.nodup, fun v hv w hw he ↦ ?_⟩
    have hlt := h.lt v hv
    have hrange := hnew.range w hw
    omega
  fresh := by
    intro v hv
    simp only [TotalizerTree.made, List.append_nil, List.mem_append] at hv
    cases hv with
    | inl hv => exact h.proper.fresh v hv
    | inr hv => exact ⟨hvars.minId_le.trans (hnew.range v hv).1, hnew.even v hv⟩
  apart := by
    intro x hx hm
    simp only [TotalizerTree.made, List.append_nil, List.mem_append] at hm
    simp only [TotalizerTree.leaves, List.mem_append, List.mem_singleton] at hx
    have hold : Old s.vars.nextID (strip x) := by
      cases hx with
      | inl hx => exact h.old x hx
      | inr he => exact he ▸ hid.old
    cases hm with
    | inl hm =>
      cases hx with
      | inl hx => exact h.proper.apart x hx hm
      | inr he => exact hid.other (hmade ▸ he ▸ hm)
    | inr hm =>
      have hrange := hnew.range _ hm
      have hmax := hvars'.le_maxId
      cases hold with
      | inl hlt => omega
      | inr hgt => omega

/-- The tree for a new input beside the inputs of an old tree, with all its outputs dirty. -/
theorem Kept.node (h : Kept s t) (hvars : s.vars.Inv) (hid : s.Admits id)
    (hmade : s.constraint.made = t.made) (hvars' : vars'.Inv)
    (hnew : Fresh s.vars.nextID vars'.nextID new)
    (hlen : new.length = min s.constraint.cardinality (t.outputSize + 1)) :
    Kept { s with
      vars := vars', constraint := { s.constraint with
        root := some (.node t (leaf id) new new.toFinset), outputs := new,
        inputs := s.constraint.inputs ++ [id] } } (.node t (leaf id) new new.toFinset) where
  leaves := by simp [TotalizerTree.leaves, h.leaves]
  outputs := rfl
  filled := ⟨h.filled, trivial, hlen⟩
  proper := h.node_proper hvars hid hmade hvars' hnew
  lt := by
    intro v hv
    simp only [TotalizerTree.made, List.append_nil, List.mem_append] at hv
    cases hv with
    | inl hv => exact (h.lt v hv).trans_le hnew.le
    | inr hv => exact (hnew.range v hv).2
  old := by
    intro x hx
    simp only [TotalizerTree.leaves, List.mem_append, List.mem_singleton] at hx
    cases hx with
    | inl hx => exact (h.old x hx).mono hnew.le
    | inr he => exact he ▸ hid.old.mono hnew.le
  sent := by
    obtain ⟨k, hk, hm, hsent⟩ := h.sent
    have hnode := (h.node_proper hvars hid hmade hvars' hnew).apart_node
    refine ⟨0, Nat.zero_le _, ⟨rfl, k, Nat.zero_le k, hk, hm, trivial⟩, ?_⟩
    simp only [sentCNF, hnode.filter_eq_nil, List.append_nil]
    exact hsent

end NewRoot

theorem addInput_meets (h : s.Inv) (hids : fail .idsExhausted) {id : ℕ} (hid : s.Admits id) :
    Meets (fun r ↦ Session.Inv { s with vars := r.1, constraint := r.2 }) fail
      (s.constraint.addInput s.vars id) := by
  unfold addInput
  cases hroot : s.constraint.root with
  | none =>
    obtain ⟨hin, hemit⟩ := h.empty hroot
    dsimp only
    rw [meets_pure]
    refine ⟨h.vars, fun hno ↦ absurd hno (Option.some_ne_none _), fun t ht ↦ ?_⟩
    obtain rfl : leaf id = t := Option.some_inj.mp ht
    refine ⟨by simp [TotalizerTree.leaves, updateCachedOutputs, hin], rfl, trivial, ?_, ?_, ?_, ?_⟩
    · exact ⟨List.nodup_singleton id, .nil, fun v hv ↦ absurd hv List.not_mem_nil,
        fun x _ ↦ List.not_mem_nil⟩
    · exact fun v hv ↦ absurd hv List.not_mem_nil
    · intro x hx
      exact List.mem_singleton.mp hx ▸ hid.old
    · exact ⟨0, Nat.zero_le _, trivial, hemit ▸ .nil⟩
  | some t =>
    have hkept := h.kept t hroot
    dsimp only
    refine (addOutputs_meets h.vars hids _).bind fun r hr ↦ ?_
    obtain ⟨vars', outputs, dirty⟩ := r
    obtain ⟨hinv, new, hlen, heq, hfresh⟩ := hr
    obtain ⟨rfl, rfl⟩ := Prod.mk.inj heq
    dsimp only at hinv hfresh ⊢
    rw [meets_pure]
    refine ⟨hinv, fun hno ↦ absurd hno (Option.some_ne_none _), fun t' ht' ↦ ?_⟩
    obtain rfl := Option.some_inj.mp ht'
    have hmade : s.constraint.made = t.made := by simp only [made, hroot]
    have hnode := hkept.node h.vars hid hmade hinv hfresh hlen
    rw [Finset.empty_union]
    exact hnode

theorem setCardinality_meets (h : s.Inv) (hids : fail .idsExhausted) (n : ℕ) :
    Meets (fun r ↦ Session.Inv { s with vars := r.1, constraint := r.2 }) fail
      (s.constraint.setCardinality s.vars n) := by
  unfold setCardinality
  split
  · exact h
  · cases hroot : s.constraint.root with
    | none => exact ⟨h.vars, fun _ ↦ h.empty hroot, fun t ht ↦ nomatch ht⟩
    | some t =>
      have hkept := h.kept t hroot
      refine (increaseNodeCardinality_meets h.vars hids (by omega) hkept.filled).bind fun r hr ↦ ?_
      obtain ⟨vars', t'⟩ := r
      obtain ⟨hinv, hgrown, hfilled⟩ := hr
      dsimp only at hinv hgrown hfilled ⊢
      rw [meets_pure]
      refine ⟨hinv, fun hno ↦ (nomatch hno), fun t'' ht'' ↦ ?_⟩
      obtain rfl : t' = t'' := Option.some_inj.mp ht''
      have hproper := hgrown.proper hkept.proper hkept.lt h.vars.minId_le hinv.le_maxId hkept.old
      obtain ⟨k, hk, hm, hsent⟩ := hkept.sent
      refine ⟨hgrown.leaves_eq.trans hkept.leaves, rfl, hfilled, hproper, ?_, ?_, ?_⟩
      · intro v hv
        cases hgrown.made_of_mem hv with
        | inl hv => exact (hkept.lt v hv).trans_le hgrown.le
        | inr hv => exact hv.2.1
      · intro x hx
        rw [hgrown.leaves_eq] at hx
        exact (hkept.old x hx).mono hgrown.le
      · have hle : s.constraint.cardinality ≤ n := by omega
        refine ⟨k, hk.trans hle, hgrown.marked hm hk hle hkept.filled hfilled, ?_⟩
        exact hsent.trans (hgrown.sentCNF_perm hm hk hkept.filled hfilled hkept.proper hproper).symm

structure Current (s : Session) (t : TotalizerTree) (r : TotalizerCardinalityConstraint × ClauseVec) :
    Prop where
  constraint : r.1 = { s.constraint with root := some t.settled }
  emitted : (s.emitted ++ r.2).Perm t.fullCNF

theorem Kept.incrementalCNFize_meets (h : Kept s t) (hroot : s.constraint.root = some t) :
    Meets (Current s t) fail s.constraint.incrementalCNFize := by
  obtain ⟨k, -, hm, hsent⟩ := h.sent
  unfold incrementalCNFize
  rw [hroot]
  refine (toCNF_meets hm h.filled).bind fun r hr ↦ ?_
  obtain ⟨t', cnf⟩ := r
  obtain ⟨rfl, hperm⟩ := hr
  rw [meets_pure]
  exact ⟨rfl, (hsent.append_right cnf).trans hperm⟩

theorem Kept.settled (h : Kept s t) {r : TotalizerCardinalityConstraint × ClauseVec}
    (hr : Current s t r) :
    Kept { s with constraint := r.1, emitted := s.emitted ++ r.2 } t.settled := by
  obtain ⟨c', cnf⟩ := r
  obtain ⟨rfl, hperm⟩ := hr
  refine ⟨by simpa using h.leaves, by simpa using h.outputs, filled_settled.mpr h.filled,
    proper_settled.mpr h.proper, by simpa using h.lt, by simpa using h.old, ?_⟩
  exact ⟨_, le_rfl, marked_settled h.filled, by simpa using hperm⟩

theorem incrementalCNFize_meets (h : s.Inv) (hempty : s.constraint.root = none → fail .assertion) :
    Meets (fun r ↦ Session.Inv { s with constraint := r.1, emitted := s.emitted ++ r.2 }) fail
      s.constraint.incrementalCNFize := by
  cases hroot : s.constraint.root with
  | none =>
    unfold incrementalCNFize
    rw [hroot]
    exact hempty hroot
  | some t =>
    refine ((h.kept t hroot).incrementalCNFize_meets hroot).imp fun r hr ↦ ?_
    have hkept := (h.kept t hroot).settled hr
    refine ⟨h.vars, fun hno ↦ ?_, fun t' ht' ↦ ?_⟩
    · rw [hr.constraint] at hno
      exact nomatch hno
    · rw [hr.constraint] at ht'
      exact Option.some_inj.mp ht' ▸ hkept

theorem Step.inv (hstep : Step s s') (h : s.Inv) : s'.Inv := by
  cases hstep with
  | addInput id hid hr =>
    have hinv := post_of_ok (addInput_meets h trivial hid) hr
    exact hinv
  | setCardinality n hr =>
    have hinv := post_of_ok (setCardinality_meets h trivial n) hr
    exact hinv
  | incrementalCNFize hr =>
    have hinv := post_of_ok (incrementalCNFize_meets h fun _ ↦ trivial) hr
    exact hinv
  | getNewID hvars hle =>
    exact ⟨hvars, h.empty, fun t ht ↦ (h.kept t ht).withVars hle⟩

theorem inv_of_run {vars : VariableManager} (hvars : vars.Inv)
    (hrun : Relation.ReflTransGen Step ⟨vars, new, []⟩ s) : s.Inv := by
  induction hrun with
  | refl => exact inv_new hvars
  | tail _ hstep ih => exact hstep.inv ih

theorem Kept.CNFize_meets (h : Kept s t) (hroot : s.constraint.root = some t) :
    Meets (fun r ↦ r.1 = { s.constraint with root := some t.settled } ∧ r.2.Perm t.fullCNF) fail
      s.constraint.CNFize := by
  unfold CNFize incrementalCNFize
  rw [hroot]
  refine (toCNF_clearIncrementality_meets h.filled h.proper).bind fun r hr ↦ ?_
  obtain ⟨t', cnf⟩ := r
  obtain ⟨rfl, hperm⟩ := hr
  exact ⟨rfl, hperm⟩

/-- In every run, what has been written after an incremental call is what a full one would
write, no clause of it comes twice, and it counts the inputs. -/
theorem incremental_eq_full {vars : VariableManager} (hvars : vars.Inv)
    (hrun : Relation.ReflTransGen Step ⟨vars, new, []⟩ s) (hne : s.constraint.inputs ≠ []) :
    ∃ c' cnf c'' full, s.constraint.incrementalCNFize = .ok (c', cnf) ∧
      c'.CNFize = .ok (c'', full) ∧ (s.emitted ++ cnf).Perm full ∧
      (s.emitted ++ cnf).Pairwise (fun cls cls' ↦ ¬ cls.Perm cls') ∧
      (∀ σ : Assignment, σ idFalse = false → ∃ τ : Assignment,
        (∀ x ∈ c'.inputs, litVal τ x = litVal σ x) ∧ τ idFalse = false ∧
        satClauses τ (s.emitted ++ cnf)) ∧
      (∀ τ : Assignment, τ idFalse = false → satClauses τ (s.emitted ++ cnf) →
        ∀ i y, c'.outputs[i]? = some y → (litVal τ y = true ↔ i < trueCount τ c'.inputs)) ∧
      min c'.cardinality c'.inputs.length ≤ c'.outputs.length := by
  have hinv := inv_of_run hvars hrun
  cases hroot : s.constraint.root with
  | none => exact absurd (hinv.empty hroot).1 hne
  | some t =>
    have hkept := hinv.kept t hroot
    have hmeets : Meets (Current s t) (fun _ ↦ False) s.constraint.incrementalCNFize :=
      hkept.incrementalCNFize_meets hroot
    obtain ⟨⟨c', cnf⟩, hok, hcurrent⟩ := hmeets.exists_ok
    obtain ⟨hc', hperm⟩ := hcurrent
    have hkept' := hkept.settled ⟨hc', hperm⟩
    have hroot' : c'.root = some t.settled := congrArg root hc'
    obtain ⟨⟨c'', full⟩, hok', -, hfullperm⟩ := (hkept'.CNFize_meets hroot').exists_ok
    dsimp only at hperm hfullperm
    rw [fullCNF_settled] at hfullperm
    have hsat : ∀ τ : Assignment, satClauses τ (s.emitted ++ cnf) ↔ satClauses τ t.settled.fullCNF :=
      fun τ ↦ by rw [fullCNF_settled]; exact forall_congr' fun cls ↦ by rw [hperm.mem_iff]
    refine ⟨c', cnf, c'', full, hok, hok', hperm.trans hfullperm.symm, ?_, ?_, ?_, ?_⟩
    · refine (hperm.pairwise_iff fun {_ _} hno hsymm ↦ hno hsymm.symm).mpr ?_
      exact fullCNF_pairwise hkept.proper
    · intro σ hσ
      obtain ⟨τ, hτ, hmodel⟩ := fullCNF_extension hkept'.proper hkept'.filled hσ
      refine ⟨τ, fun x hx ↦ litVal_congr (hτ _ ?_), ?_, (hsat τ).mpr hmodel⟩
      · exact hkept'.proper.apart x (hkept'.leaves ▸ hx)
      · exact (hτ _ hkept'.proper.idFalse_not_mem).trans hσ
    · intro τ hτ hmodel i y hy
      have hshows := fullCNF_shows hτ hkept'.filled ((hsat τ).mp hmodel)
      rw [hkept'.leaves] at hshows
      exact (shows_bit_iff hτ).mp hshows i y (hkept'.outputs ▸ hy)
    · have hsize := hkept'.filled.outputSize
      rw [hkept'.leaves, outputSize, ← hkept'.outputs] at hsize
      dsimp only at hsize
      omega

/-- Two inputs are counted up to one and written out; then a third comes, the cardinality
grows, and the rest is written. -/
theorem incremental_eq_full_three : ∃ s, Relation.ReflTransGen Step ⟨fourVars, new, []⟩ s ∧
    s.constraint.inputs = [4, 7, 8] ∧ s.constraint.cardinality = 2 ∧ s.emitted.length = 3 ∧
    ∃ c' cnf c'' full, s.constraint.incrementalCNFize = .ok (c', cnf) ∧
      c'.CNFize = .ok (c'', full) ∧ (s.emitted ++ cnf).Perm full := by
  have h₁ := (Relation.ReflTransGen.refl (r := Step) (a := ⟨fourVars, new, []⟩)).tail
    (.addInput 4 ⟨by decide, .inl (by decide), by decide, by decide⟩ rfl)
  have h₂ := h₁.tail (.addInput 7 ⟨by decide, .inl (by decide), by decide, by decide⟩ rfl)
  have h₃ := h₂.tail (.setCardinality 1 rfl)
  have h₄ := h₃.tail (.incrementalCNFize rfl)
  have h₅ := h₄.tail (.addInput 8 ⟨by decide, .inl (by decide), by decide, by decide⟩ rfl)
  have hrun := h₅.tail (.setCardinality 2 rfl)
  obtain ⟨c', cnf, c'', full, hok, hok', hperm, -⟩ :=
    incremental_eq_full fourVars_inv hrun (by decide)
  exact ⟨_, hrun, by decide, by decide, by decide, c', cnf, c'', full, hok, hok', hperm⟩

end TotalizerCardinalityConstraint

end PME
