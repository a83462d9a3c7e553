import PME.Circuit

namespace PME.TransitionRelation

open Outcome

def copyGate (gates : List ℕ) (s : TransitionRelation × Finset ℕ) (gate : AndGate) :
    TransitionRelation × Finset ℕ :=
  let (tr, relevant) := s
  if gates.contains gate.lhs then
    ({ tr with gates := tr.gates ++ [gate], gateIDs := tr.gateIDs ++ [gate.lhs] },
      insert (strip gate.rhs1) (insert (strip gate.rhs0) relevant))
  else s

def copyLatch (s : TransitionRelation × Finset ℕ × Bool) (latch : Latch) :
    TransitionRelation × Finset ℕ × Bool :=
  let (tr, relevant, fixpoint) := s
  if latch.id ∉ relevant then s
  else if (tr.latches.map Latch.id).contains latch.id then s
  else
    let next := strip latch.next
    let tr := { tr with latches := tr.latches ++ [latch], latchIDs := tr.latchIDs ++ [latch.id] }
    if next ∈ relevant then (tr, relevant, fixpoint) else (tr, insert next relevant, false)

def copyLatches (other : TransitionRelation) (s : TransitionRelation × Finset ℕ) :
    Result ((TransitionRelation × Finset ℕ) ⊕ (TransitionRelation × Finset ℕ)) :=
  let (tr, relevant, fixpoint) := other.latches.foldl copyLatch (s.1, s.2, true)
  return if fixpoint then .inr (tr, relevant) else .inl (tr, relevant)

/-- The constructor `TransitionRelation(other, gates)`. -/
def ofGates (other : TransitionRelation) (gates : List ℕ) : Result TransitionRelation := do
  let tr := { empty with bad := other.bad, constraints := other.constraints }
  let s := other.gates.foldl (copyGate gates) (tr, {other.bad})
  let (tr, relevant) ← loop .outOfFuel (copyLatches other) (other.latches.length + 1) s
  let inputs := relevant.sort.filter fun id ↦
    !(tr.latches.map Latch.id).contains id && !(tr.gates.map AndGate.lhs).contains id
  return { tr with inputIDs := tr.inputIDs ++ inputs.map strip }

/-- The signals that the bad literal as it stands, the operands of the gates of `S` and the
next states of the latches among them reach. -/
inductive Cone (tr : TransitionRelation) (S : List ℕ) : ℕ → Prop
  | bad : Cone tr S tr.bad
  | rhs0 {g : AndGate} (hg : g ∈ tr.gates) (hS : g.lhs ∈ S) : Cone tr S (strip g.rhs0)
  | rhs1 {g : AndGate} (hg : g ∈ tr.gates) (hS : g.lhs ∈ S) : Cone tr S (strip g.rhs1)
  | next {l : Latch} (hl : l ∈ tr.latches) (hid : Cone tr S l.id) : Cone tr S (strip l.next)

variable {tr : TransitionRelation} {S S' : List ℕ} {fail : Failure → Prop}

theorem Cone.mono (h : S ⊆ S') {v : ℕ} (hv : Cone tr S v) : Cone tr S' v := by
  induction hv with
  | bad => exact .bad
  | rhs0 hg hS => exact .rhs0 hg (h hS)
  | rhs1 hg hS => exact .rhs1 hg (h hS)
  | next hl _ ih => exact .next hl ih

structure Copied (tr : TransitionRelation) (S : List ℕ) (p : TransitionRelation)
    (relevant : Finset ℕ) : Prop where
  eq : p = { empty with
    bad := tr.bad, constraints := tr.constraints
    gates := tr.gates.filter fun g ↦ S.contains g.lhs, gateIDs := p.gateIDs
    latches := p.latches, latchIDs := p.latches.map Latch.id }
  gateIDs : p.gateIDs = p.gates.map AndGate.lhs
  latches : ∀ l ∈ p.latches, l ∈ tr.latches ∧ l.id ∈ relevant ∧ strip l.next ∈ relevant
  nodup : (p.latches.map Latch.id).Nodup
  cone : ∀ v ∈ relevant, Cone tr S v
  bad : tr.bad ∈ relevant
  rhs : ∀ g ∈ tr.gates, g.lhs ∈ S → strip g.rhs0 ∈ relevant ∧ strip g.rhs1 ∈ relevant

theorem copied_gates (tr : TransitionRelation) (S : List ℕ) :
    let s := tr.gates.foldl (copyGate S)
      ({ empty with bad := tr.bad, constraints := tr.constraints }, {tr.bad})
    Copied tr S s.1 s.2 ∧ s.1.latches = [] := by
  let start : TransitionRelation := { empty with bad := tr.bad, constraints := tr.constraints }
  have h : ∀ rest done s, done ++ rest = tr.gates →
      s.1 = { start with
        gates := done.filter fun g ↦ S.contains g.lhs
        gateIDs := (done.filter fun g ↦ S.contains g.lhs).map AndGate.lhs } →
      (∀ v ∈ s.2, Cone tr S v) → tr.bad ∈ s.2 →
      (∀ g ∈ done, g.lhs ∈ S → strip g.rhs0 ∈ s.2 ∧ strip g.rhs1 ∈ s.2) →
      Copied tr S (rest.foldl (copyGate S) s).1 (rest.foldl (copyGate S) s).2 ∧
        (rest.foldl (copyGate S) s).1.latches = [] := by
    intro rest
    induction rest with
    | nil =>
      intro done s hl hs hcone hbad hrhs
      rw [List.append_nil] at hl
      subst hl
      simp only [List.foldl_nil]
      rw [hs]
      exact ⟨⟨rfl, rfl, nofun, List.nodup_nil, hcone, hbad, hrhs⟩, rfl⟩
    | cons g rest ih =>
      intro done s hl hs hcone hbad hrhs
      have hg : g ∈ tr.gates := hl ▸ List.mem_append_right done List.mem_cons_self
      have hl' : (done ++ [g]) ++ rest = tr.gates := by rw [List.append_assoc]; exact hl
      rw [List.foldl_cons]
      obtain ⟨p, relevant⟩ := s
      dsimp only at hs hcone hbad hrhs
      by_cases hS : g.lhs ∈ S
      · refine ih (done ++ [g]) _ hl' ?_ ?_ ?_ ?_
        · simp [copyGate, hS, hs, List.filter_append]
        · intro v hv
          simp only [copyGate, List.contains_eq_mem, hS, decide_true, if_true,
            Finset.mem_insert] at hv
          rcases hv with rfl | rfl | hv
          · exact .rhs1 hg hS
          · exact .rhs0 hg hS
          · exact hcone v hv
        · simp [copyGate, hS, hbad]
        · intro g' hg' hS'
          simp only [copyGate, List.contains_eq_mem, hS, decide_true, if_true, Finset.mem_insert]
          rcases List.mem_append.mp hg' with hg' | hg'
          · obtain ⟨h0, h1⟩ := hrhs g' hg' hS'
            exact ⟨.inr (.inr h0), .inr (.inr h1)⟩
          · obtain rfl := List.mem_singleton.mp hg'
            exact ⟨.inr (.inl rfl), .inl rfl⟩
      · have hskip : copyGate S (p, relevant) g = (p, relevant) := by simp [copyGate, hS]
        rw [hskip]
        refine ih (done ++ [g]) _ hl' ?_ hcone hbad ?_
        · simp [hS, hs, List.filter_append]
        · intro g' hg' hS'
          rcases List.mem_append.mp hg' with hg' | hg'
          · exact hrhs g' hg' hS'
          · obtain rfl := List.mem_singleton.mp hg'
            exact absurd hS' hS
  exact h tr.gates [] _ rfl rfl (by simp [Cone.bad]) (by simp) (by simp)

/-- A pass copies every latch that was relevant when it began. Unless it meets a signal not
yet relevant, and then it has copied a latch, nothing else is relevant afterwards. -/
structure Passed (tr : TransitionRelation) (S : List ℕ) (p : TransitionRelation)
    (relevant : Finset ℕ) (done : List Latch) (s : TransitionRelation × Finset ℕ × Bool) : Prop where
  copied : Copied tr S s.1 s.2.1
  all : ∀ l ∈ done, l.id ∈ relevant → l.id ∈ s.1.latches.map Latch.id
  subset : relevant ⊆ s.2.1
  fixpoint : s.2.2 = true → s.2.1 = relevant
  grows : s.2.2 = false → p.latches.length < s.1.latches.length
  le : p.latches.length ≤ s.1.latches.length

theorem Passed.step {p : TransitionRelation} {relevant : Finset ℕ} {done : List Latch}
    {s : TransitionRelation × Finset ℕ × Bool} (h : Passed tr S p relevant done s) {l : Latch}
    (hl : l ∈ tr.latches) : Passed tr S p relevant (done ++ [l]) (copyLatch s l) := by
  obtain ⟨q, rel, fix⟩ := s
  obtain ⟨hcopied, hall, hsub, hfix, hgrows, hle⟩ := h
  dsimp only at hcopied hall hsub hfix hgrows hle
  have hkeep : ∀ q' : TransitionRelation, (∀ id ∈ q.latches.map Latch.id, id ∈ q'.latches.map Latch.id) →
      (l.id ∈ relevant → l.id ∈ q'.latches.map Latch.id) →
      ∀ l' ∈ done ++ [l], l'.id ∈ relevant → l'.id ∈ q'.latches.map Latch.id := by
    intro q' hq hself l' hl' hrel
    rcases List.mem_append.mp hl' with hl' | hl'
    · exact hq _ (hall l' hl' hrel)
    · obtain rfl := List.mem_singleton.mp hl'
      exact hself hrel
  by_cases hid : l.id ∈ rel
  · by_cases hin : l.id ∈ q.latches.map Latch.id
    · have hskip : copyLatch (q, rel, fix) l = (q, rel, fix) := by simp [copyLatch, hid, hin]
      rw [hskip]
      exact ⟨hcopied, hkeep q (fun _ h ↦ h) (fun _ ↦ hin), hsub, hfix, hgrows, hle⟩
    · let q' : TransitionRelation :=
        { q with latches := q.latches ++ [l], latchIDs := q.latchIDs ++ [l.id] }
      let rel' : Finset ℕ := insert (strip l.next) rel
      have hsub' : rel ⊆ rel' := Finset.subset_insert _ _
      have hcopied' : ∀ r, r = rel' → Copied tr S q' r := by
        rintro _ rfl
        refine ⟨?_, hcopied.gateIDs, ?_, ?_, ?_, hsub' hcopied.bad, ?_⟩
        · have heq := hcopied.eq
          dsimp only [q']
          rw [heq]
          simp
        · intro l' hl'
          rcases List.mem_append.mp hl' with hl' | hl'
          · obtain ⟨ht, hi, hn⟩ := hcopied.latches l' hl'
            exact ⟨ht, hsub' hi, hsub' hn⟩
          · obtain rfl := List.mem_singleton.mp hl'
            exact ⟨hl, hsub' hid, Finset.mem_insert_self _ _⟩
        · dsimp only [q']
          rw [List.map_append]
          refine List.nodup_append.mpr ⟨hcopied.nodup, by simp, ?_⟩
          intro a ha b hb hab
          obtain rfl : b = l.id := by simpa using hb
          exact hin (hab ▸ ha)
        · intro v hv
          rcases Finset.mem_insert.mp hv with rfl | hv
          · exact .next hl (hcopied.cone _ hid)
          · exact hcopied.cone v hv
        · intro g hg hS
          obtain ⟨h0, h1⟩ := hcopied.rhs g hg hS
          exact ⟨hsub' h0, hsub' h1⟩
      have hkeep' := hkeep q' (fun id h ↦ by simp only [q', List.map_append, List.mem_append]; exact .inl h)
        (fun _ ↦ by simp [q'])
      have hlen : q'.latches.length = q.latches.length + 1 := by simp [q']
      by_cases hnext : strip l.next ∈ rel
      · have hcopy : copyLatch (q, rel, fix) l = (q', rel, fix) := by
          simp only [copyLatch, hid, not_true_eq_false, if_false, List.contains_eq_mem, hin,
            decide_false, Bool.false_eq_true, hnext, if_true, q']
        rw [hcopy]
        have hrel : rel = rel' := (Finset.insert_eq_of_mem hnext).symm
        have hlt : p.latches.length < q'.latches.length := by omega
        exact ⟨hcopied' rel hrel, hkeep', hsub, hfix, fun _ ↦ hlt, hlt.le⟩
      · have hcopy : copyLatch (q, rel, fix) l = (q', rel', false) := by
          simp only [copyLatch, hid, not_true_eq_false, if_false, List.contains_eq_mem, hin,
            decide_false, Bool.false_eq_true, hnext, q', rel']
        rw [hcopy]
        have hlt : p.latches.length < q'.latches.length := by omega
        exact ⟨hcopied' rel' rfl, hkeep', hsub.trans hsub', nofun, fun _ ↦ hlt, hlt.le⟩
  · have hskip : copyLatch (q, rel, fix) l = (q, rel, fix) := by simp [copyLatch, hid]
    rw [hskip]
    exact ⟨hcopied, hkeep q (fun _ h ↦ h) (fun hrel ↦ absurd (hsub hrel) hid), hsub, hfix, hgrows, hle⟩

theorem passed_latches {p : TransitionRelation} {relevant : Finset ℕ} (h : Copied tr S p relevant) :
    Passed tr S p relevant tr.latches (tr.latches.foldl copyLatch (p, relevant, true)) := by
  have hrun : ∀ rest done s, done ++ rest = tr.latches → Passed tr S p relevant done s →
      Passed tr S p relevant tr.latches (rest.foldl copyLatch s) := by
    intro rest
    induction rest with
    | nil =>
      intro done s hl hs
      rw [List.append_nil] at hl
      exact hl ▸ hs
    | cons l rest ih =>
      intro done s hl hs
      have hmem : l ∈ tr.latches := hl ▸ List.mem_append_right done List.mem_cons_self
      exact ih (done ++ [l]) _ (by rw [List.append_assoc]; exact hl) (hs.step hmem)
  exact hrun tr.latches [] _ rfl ⟨h, nofun, subset_rfl, fun _ ↦ rfl, nofun, le_rfl⟩

theorem Copied.copied_of_relevant {p : TransitionRelation} {relevant : Finset ℕ}
    (h : Copied tr S p relevant) (hall : ∀ l ∈ tr.latches, l.id ∈ relevant → l.id ∈ p.latches.map Latch.id)
    (hnodup : (tr.latches.map Latch.id).Nodup) {l : Latch} (hl : l ∈ tr.latches) (hrel : l.id ∈ relevant) :
    l ∈ p.latches := by
  obtain ⟨l', hl', hid⟩ := List.mem_map.mp (hall l hl hrel)
  have heq : l' = l := List.inj_on_of_nodup_map hnodup (h.latches l' hl').1 hl hid
  exact heq ▸ hl'

theorem Copied.cone_subset {p : TransitionRelation} {relevant : Finset ℕ} (h : Copied tr S p relevant)
    (hall : ∀ l ∈ tr.latches, l.id ∈ relevant → l.id ∈ p.latches.map Latch.id)
    (hnodup : (tr.latches.map Latch.id).Nodup) : ∀ v, Cone tr S v → v ∈ relevant := by
  intro v hv
  induction hv with
  | bad => exact h.bad
  | rhs0 hg hS => exact (h.rhs _ hg hS).1
  | rhs1 hg hS => exact (h.rhs _ hg hS).2
  | next hl _ ih => exact (h.latches _ (h.copied_of_relevant hall hnodup hl ih)).2.2

theorem Copied.closed {p : TransitionRelation} {relevant : Finset ℕ} (h : Copied tr S p relevant)
    (hall : ∀ l ∈ tr.latches, l.id ∈ relevant → l.id ∈ p.latches.map Latch.id)
    (hnodup : (tr.latches.map Latch.id).Nodup) (l : Latch) :
    l ∈ p.latches ↔ l ∈ tr.latches ∧ Cone tr S l.id := by
  constructor
  · intro hl
    obtain ⟨htr, hid, -⟩ := h.latches l hl
    exact ⟨htr, h.cone _ hid⟩
  · rintro ⟨hl, hc⟩
    exact h.copied_of_relevant hall hnodup hl (h.cone_subset hall hnodup _ hc)

/-- What the constructor makes. -/
structure IsPartial (tr : TransitionRelation) (S : List ℕ) (p : TransitionRelation) : Prop where
  bad : p.bad = tr.bad
  constraints : p.constraints = tr.constraints
  gates : p.gates = tr.gates.filter fun g ↦ S.contains g.lhs
  gateIDs : p.gateIDs = p.gates.map AndGate.lhs
  latches : ∀ l, l ∈ p.latches ↔ l ∈ tr.latches ∧ Cone tr S l.id
  latchIDs : p.latchIDs = p.latches.map Latch.id
  gateCNF : p.gateCNF = AndGate.toCNF

structure Assigned (tr : TransitionRelation) (S : List ℕ) (p : TransitionRelation) (relevant : Finset ℕ) :
    Prop where
  cone : ∀ v, v ∈ relevant ↔ Cone tr S v
  nodup : p.latchIDs.Nodup
  inputIDs : p.inputIDs = (relevant.sort.filter fun id ↦
    !(p.latches.map Latch.id).contains id && !(p.gates.map AndGate.lhs).contains id).map strip

theorem ofGates_assigns (hnodup : (tr.latches.map Latch.id).Nodup) (S : List ℕ) :
    Meets (fun p ↦ IsPartial tr S p ∧ ∃ relevant, Assigned tr S p relevant) fail (tr.ofGates S) := by
  let inv : TransitionRelation × Finset ℕ → Prop := fun s ↦ Copied tr S s.1 s.2
  let done : TransitionRelation × Finset ℕ → Prop := fun s ↦ Copied tr S s.1 s.2 ∧
    ∀ l ∈ tr.latches, l.id ∈ s.2 → l.id ∈ s.1.latches.map Latch.id
  have hbound : ∀ s, inv s → s.1.latches.length ≤ tr.latches.length := by
    intro s hs
    have hsub : s.1.latches.map Latch.id ⊆ tr.latches.map Latch.id := by
      intro id hid
      obtain ⟨l, hl, rfl⟩ := List.mem_map.mp hid
      exact List.mem_map_of_mem (hs.latches l hl).1
    simpa using (hs.nodup.subperm hsub).length_le
  have hbody : ∀ s, inv s → Meets
      (Pass (· < ·) (fun s ↦ tr.latches.length - s.1.latches.length) inv done s) fail
      (copyLatches tr s) := by
    intro s hs
    have hp := passed_latches hs
    unfold copyLatches
    generalize tr.latches.foldl copyLatch (s.1, s.2, true) = t at hp
    obtain ⟨q, rel, fix⟩ := t
    cases fix with
    | true =>
      obtain rfl : rel = s.2 := hp.fixpoint rfl
      exact ⟨hp.copied, hp.all⟩
    | false =>
      have hlt := hp.grows rfl
      have hle := hbound (q, rel) hp.copied
      dsimp only at hlt hle
      exact ⟨hp.copied, by dsimp only; omega⟩
  obtain ⟨hstart, hnil⟩ := copied_gates tr S
  unfold ofGates
  refine (loop_meets_of_measure _ _ hbody _ _ hstart ?_).bind fun s hs ↦ ?_
  · exact Nat.lt_succ_of_le (Nat.sub_le _ _)
  · obtain ⟨hc, hall⟩ := hs
    obtain ⟨p, rel⟩ := s
    dsimp only at hc hall
    have hclosed := hc.closed hall hnodup
    have hcone := hc.cone_subset hall hnodup
    have hgateIDs := hc.gateIDs
    have hids := hc.nodup
    have heq := hc.eq
    simp only [meets_pure]
    rw [heq] at hclosed hgateIDs hids ⊢
    exact ⟨⟨rfl, rfl, rfl, hgateIDs, hclosed, rfl, rfl⟩, rel, fun v ↦ ⟨hc.cone v, hcone v⟩, hids, rfl⟩

theorem ofGates_meets (hnodup : (tr.latches.map Latch.id).Nodup) (S : List ℕ) :
    Meets (IsPartial tr S) fail (tr.ofGates S) := (ofGates_assigns hnodup S).imp fun _ hp ↦ hp.1

end PME.TransitionRelation
