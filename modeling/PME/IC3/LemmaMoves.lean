import PME.IC3.Blocking

namespace PME.IC3

open Outcome TransitionRelation InductiveTrace FrameSequence

namespace Setting

variable {R : Setting} {st st' : IC3Solver} {fail : Failure → Prop} {c target : Cube} {ℓ m : Level}
  {id : LemmaID} {trace trace' : InductiveTrace}

theorem Rep.told (h : R.Rep st) (hm : Moved st.trace c ℓ id trace') (hover : R.Over c)
    (hids : fail .idsExhausted) (hempty : c = [] → fail .assertion) :
    Meets (fun r ↦ R.Rep { st with trace := trace', vars := r.1, cons := r.2 }) fail
      (st.cons.addLemma st.vars trace' id) := by
  refine (FrameSolver.addLemma_meets h.cons hm (h.known hover) (fun _ ↦ hids) hempty).imp fun r hr ↦ ?_
  obtain ⟨hcons, hnewer, -⟩ := hr
  refine ⟨hcons, h.lift.moved fun d hat ↦ ?_, h.tr_eq, fun lit hl ↦ ?_, fun d m hat ↦ ?_⟩
  · obtain ⟨m', hat', hle⟩ := moved_up h.cons.inv hm hat
    exact eq_inf hle ▸ hat'
  · have hknown : FrameSolver.Known st.vars st.cons [lit] := fun l hmem ↦
      List.mem_singleton.mp hmem ▸ h.kept lit hl
    exact hnewer.known hknown lit List.mem_cons_self
  · cases (hm.at_iff h.cons.inv).mp hat with
    | inl heq => exact heq.1 ▸ hover
    | inr hold => exact h.lemmas d m hold.2

structure LemmaMoved (R : Setting) (st : IC3Solver) (c : Cube) (ℓ : Level) (id : LemmaID)
    (st' : IC3Solver) : Prop where
  moved : Moved st.trace c ℓ id st'.trace
  rep : R.Rep st'
  obls : st'.obls = st.obls
  constraints : st'.initConstraints = st.initConstraints

theorem LemmaMoved.good (h : R.LemmaMoved st c ℓ id st') (hst : R.Good st)
    (hc : R.sound → R.Excludes st.trace ℓ c) : R.Good st' :=
  ⟨h.rep, fun hs ↦ (hst.sem hs).moved hst.cons.inv h.moved (hc hs)⟩

theorem addLemma_moves (h : R.Rep st) (hids : fail .idsExhausted) (hover : R.Over c)
    (hdown : ∀ m, st.trace.At (sortCube c) m → ¬ m ≤ ℓ → fail .assertion)
    (hempty : c = [] → fail .assertion) :
    R.Goes (fun id st' ↦ R.LemmaMoved st (sortCube c) ℓ id st') fail (IC3Solver.addLemma c ℓ) st := by
  unfold IC3Solver.addLemma
  refine Journal.goes_get_bind (Journal.goes_lift_bind _ (addLemma_meets h.cons.inv fun i m he ↦
    hdown m (h.cons.inv.at_iff.mpr ⟨i, he⟩)) fun r hm ↦ ?_)
  have hsorted : R.Over (sortCube c) := hover.subset fun lit hl ↦ mem_sortCube.mp hl
  refine Journal.goes_lift_bind _ (h.told hm hsorted hids fun hnil ↦ hempty ?_) fun r' hrep ↦ ?_
  · exact List.eq_nil_iff_forall_not_mem.mpr fun lit hl ↦
      List.not_mem_nil (hnil ▸ mem_sortCube.mpr hl)
  · exact Journal.goes_set_bind (Journal.goes_pure ⟨hm, hrep, rfl, rfl⟩)

theorem addLemma_goes (h : R.Rep st) (hf : R.Allows fail) (hover : R.Over c)
    (hc : R.sound → c ≠ [] ∧ ∀ m, st.trace.At (sortCube c) m → m ≤ ℓ) :
    R.Goes (fun id st' ↦ R.LemmaMoved st (sortCube c) ℓ id st') fail (IC3Solver.addLemma c ℓ) st :=
  addLemma_moves h hf.ids hover (fun m hat hno ↦ hf.unsound (fun hs ↦ hno ((hc hs).2 m hat)) _)
    fun hnil ↦ hf.unsound (fun hs ↦ (hc hs).1 hnil) _

theorem pushLemma_goes (h : R.Rep st) (hf : R.Allows fail) (he : st.trace.Entry id c m)
    (hle : m ≤ ℓ) (hne : R.sound → c ≠ []) :
    R.Goes (fun _ st' ↦ R.LemmaMoved st c ℓ id st') fail (IC3Solver.pushLemma id ℓ) st := by
  unfold IC3Solver.pushLemma
  refine Journal.goes_get_bind (Journal.goes_lift_bind _ (pushLemma_meets h.cons.inv he hle)
    fun trace' hm ↦ ?_)
  have hover := h.lemmas c m (h.cons.inv.at_iff.mpr ⟨id, he⟩)
  refine Journal.goes_lift_bind _ (h.told hm hover hf.ids fun hnil ↦ hf.unsound (fun hs ↦ hne hs hnil) _)
    fun r hrep ↦ ?_
  exact Journal.goes_set ⟨hm, hrep, rfl, rfl⟩

end Setting

section Subsumption

variable {a b c target : Cube} {trace : InductiveTrace} {level : ℕ} {fail : Failure → Prop}

/-- The answer of `subsumes` for sorted cubes. -/
def covers (a b : Cube) : Bool := decide (a.length ≤ b.length) && subsumesFrom a b

theorem subsumes_eq (ha : isSorted a = true) (hb : isSorted b = true) :
    subsumes a b = .ok (covers a b) := by
  unfold subsumes
  rw [ha, hb, ensure_true, ok_bind, ok_bind, covers]
  by_cases hlen : a.length > b.length
  · rw [if_pos hlen, decide_eq_false (by omega), Bool.false_and]
    rfl
  · rw [if_neg hlen, decide_eq_true (by omega), Bool.true_and]
    rfl

theorem subset_of_subsumesFrom (h : subsumesFrom a b = true) : a ⊆ b := by
  induction a generalizing b with
  | nil => exact List.nil_subset b
  | cons lit a ih =>
    unfold subsumesFrom at h
    split at h
    · exact nomatch h
    · next lit' b' hdrop =>
      have hsub : lit' :: b' ⊆ b := hdrop ▸ (List.dropWhile_sublist _).subset
      have hself : lit' = lit := by
        have hno := List.head?_dropWhile_not (fun l ↦ l != lit) b
        rw [hdrop] at hno
        simpa using hno
      exact List.cons_subset.mpr ⟨hself ▸ hsub List.mem_cons_self, List.Subset.trans (ih h) hsub⟩

theorem subsumesFrom_of_subset (ha : a.Pairwise (· < ·)) (hb : b.Pairwise (· < ·)) (h : a ⊆ b) :
    subsumesFrom a b = true := by
  induction a generalizing b with
  | nil => rfl
  | cons lit a ih =>
    obtain ⟨b₁, b₂, rfl⟩ := List.append_of_mem (h List.mem_cons_self)
    obtain ⟨-, hb₂, hlow⟩ := List.pairwise_append.mp hb
    have hdrop : (b₁ ++ lit :: b₂).dropWhile (· != lit) = lit :: b₂ := by
      rw [List.dropWhile_append_of_pos fun l hl ↦ ?_]
      · exact List.dropWhile_cons_of_neg (by simp)
      · exact bne_iff_ne.mpr (hlow l hl lit List.mem_cons_self).ne
    unfold subsumesFrom
    rw [hdrop]
    refine ih ha.of_cons hb₂ fun l hl ↦ ?_
    have hlt := List.rel_of_pairwise_cons ha hl
    cases List.mem_append.mp (h (List.mem_cons_of_mem lit hl)) with
    | inl hmem => exact absurd (hlow l hmem lit List.mem_cons_self) (by omega)
    | inr hmem => exact hmem

theorem covers_of_subset (ha : a.Pairwise (· < ·)) (hb : b.Pairwise (· < ·)) (h : a ⊆ b) :
    covers a b = true := by
  have hlen := (List.subperm_of_subset (nodup_of_lt ha) h).length_le
  rw [covers, decide_eq_true hlen, Bool.true_and]
  exact subsumesFrom_of_subset ha hb h

theorem subset_of_covers (h : covers a b = true) : a ⊆ b ∧ a.length ≤ b.length := by
  rw [covers, Bool.and_eq_true, decide_eq_true_iff] at h
  exact ⟨subset_of_subsumesFrom h.2, h.1⟩

theorem frameBlocks_meets (hinv : trace.Inv) (htarget : isSorted target = true) {ℓ : Level}
    (hexists : trace.frames.frameExists ℓ = true) :
    Meets (fun b ↦ b = true ↔ ∃ c, trace.At c ℓ ∧ covers c target = true) fail
      (IC3Solver.frameBlocks trace target ℓ) := by
  unfold IC3Solver.frameBlocks InductiveTrace.getFrame Frames.getFrame
  rw [hexists, ensure_true, ok_bind, pure_bind]
  refine (foldlM_meets (fun done b ↦ b = true ↔ ∃ id ∈ done, ∃ c, trace.Entry id c ℓ ∧
    covers c target = true) false ⟨nofun, fun hex ↦ ?_⟩ ?_).imp fun b hb ↦ ?_
  · obtain ⟨id, hid, -⟩ := hex
    exact absurd hid List.not_mem_nil
  · intro done id rest found hl hfound
    have hmem : id ∈ trace.frames.frame ℓ := hl ▸ List.mem_append_right _ List.mem_cons_self
    obtain ⟨c, he⟩ := hinv.mem_iff.mp hmem
    cases found with
    | true =>
      rw [if_pos rfl]
      refine ⟨fun _ ↦ ?_, fun _ ↦ rfl⟩
      obtain ⟨i, hi, hex⟩ := hfound.mp rfl
      exact ⟨i, List.mem_append_left _ hi, hex⟩
    | false =>
      rw [if_neg Bool.false_ne_true, cubeOf, hinv.getLemma_eq he, ok_bind, pure_bind]
      dsimp only
      rw [subsumes_eq (decide_eq_true (hinv.sorted he)) htarget]
      constructor
      · exact fun hcovers ↦ ⟨id, List.mem_append_right _ List.mem_cons_self, c, he, hcovers⟩
      · intro hex
        obtain ⟨i, hi, d, hd, hcovers⟩ := hex
        cases List.mem_append.mp hi with
        | inl hold => exact nomatch hfound.mpr ⟨i, hold, d, hd, hcovers⟩
        | inr hself =>
          obtain rfl := List.mem_singleton.mp hself
          exact (hd.eq he).1 ▸ hcovers
  · refine hb.trans ⟨fun hex ↦ ?_, fun hex ↦ ?_⟩
    · obtain ⟨id, -, c, he, hcovers⟩ := hex
      exact ⟨c, hinv.at_iff.mpr ⟨id, he⟩, hcovers⟩
    · obtain ⟨c, hat, hcovers⟩ := hex
      obtain ⟨id, he⟩ := hinv.at_iff.mp hat
      exact ⟨id, hinv.mem_iff.mpr ⟨c, he⟩, c, he, hcovers⟩

theorem syntacticBlock_meets (hinv : trace.Inv) (htarget : isSorted target = true) :
    Meets (fun b ↦ b = true ↔ ∃ c m, trace.At c m ∧ .fin level ≤ m ∧ covers c target = true) fail
      (IC3Solver.syntacticBlock trace target level) := by
  unfold IC3Solver.syntacticBlock
  refine (foldlM_meets (fun done b ↦ b = true ↔ ∃ k ∈ done, ∃ c, trace.At c (.fin k) ∧
    covers c target = true) false ⟨nofun, fun hex ↦ ?_⟩ ?_).bind fun found hfound ↦ ?_
  · obtain ⟨k, hk, -⟩ := hex
    exact absurd hk List.not_mem_nil
  · intro done k rest found hl hfound
    have hmem : k ∈ List.range' level (trace.numFrames - level) :=
      hl ▸ List.mem_append_right _ List.mem_cons_self
    have hrange := List.mem_range'_1.mp hmem
    have hexists : trace.frames.frameExists (.fin k) = true := decide_eq_true (by
      have hnum : trace.numFrames = trace.frames.frames.length := rfl
      omega)
    cases found with
    | true =>
      rw [if_pos rfl]
      refine ⟨fun _ ↦ ?_, fun _ ↦ rfl⟩
      obtain ⟨i, hi, hex⟩ := hfound.mp rfl
      exact ⟨i, List.mem_append_left _ hi, hex⟩
    | false =>
      rw [if_neg Bool.false_ne_true]
      refine (frameBlocks_meets hinv htarget hexists).imp fun b hb ↦ hb.trans ⟨fun hex ↦ ?_, fun hex ↦ ?_⟩
      · exact ⟨k, List.mem_append_right _ List.mem_cons_self, hex⟩
      · obtain ⟨i, hi, hat⟩ := hex
        cases List.mem_append.mp hi with
        | inl hold => exact nomatch hfound.mpr ⟨i, hold, hat⟩
        | inr hself => exact List.mem_singleton.mp hself ▸ hat
  · have hfin : ∀ c k, trace.At c (.fin k) → level ≤ k →
        k ∈ List.range' level (trace.numFrames - level) := by
      intro c k hat hle
      have hlt := hinv.needed_le hat
      rw [Level.needed_fin] at hlt
      exact List.mem_range'_1.mpr (by omega)
    cases found with
    | true =>
      rw [if_pos rfl]
      refine ⟨fun _ ↦ ?_, fun _ ↦ rfl⟩
      obtain ⟨k, hk, c, hat, hcovers⟩ := hfound.mp rfl
      exact ⟨c, .fin k, hat, Level.fin_le_fin.mpr (List.mem_range'_1.mp hk).1, hcovers⟩
    | false =>
      rw [if_neg Bool.false_ne_true]
      refine (frameBlocks_meets hinv htarget rfl).imp fun b hb ↦ hb.trans ⟨fun hex ↦ ?_, fun hex ↦ ?_⟩
      · obtain ⟨c, hat, hcovers⟩ := hex
        exact ⟨c, .inf, hat, Level.le_inf, hcovers⟩
      · obtain ⟨c, m, hat, hle, hcovers⟩ := hex
        cases m with
        | inf => exact ⟨c, hat, hcovers⟩
        | fin k =>
          exact nomatch hfound.mpr ⟨k, hfin c k hat (Level.fin_le_fin.mp hle), c, hat, hcovers⟩

end Subsumption

end PME.IC3
