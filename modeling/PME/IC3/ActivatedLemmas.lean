import PME.IC3.FrameSolver

namespace PME.IC3

open Outcome

namespace FrameSolver

open InductiveTrace

def clauseAt (fs : FrameSolver) (c : Cube) : Level → Clause
  | .inf => negateVec c
  | .fin n => negateVec c ++ [fs.activation.getD n idNull]

structure Sent (trace : InductiveTrace) (fs : FrameSolver) (sent : List (Cube × Level)) : Prop where
  clauses : fs.solver.clauses =
    ([idTrue] :: fs.unrolled) ++ sent.map fun p ↦ fs.clauseAt p.1 p.2
  activated : ∀ p ∈ sent, p.2.needed ≤ fs.activation.length
  left : ∀ p ∈ sent, ∃ ℓ, trace.At p.1 ℓ ∧ p.2 ≤ ℓ
  known : ∀ v ∈ varsOf fs.solver.clauses, v ∈ fs.solver.known

def Known (vm : VariableManager) (fs : FrameSolver) (c : Cube) : Prop :=
  ∀ lit ∈ c, strip lit < vm.nextID ∧ strip lit ∉ fs.activation

/-- The activation variables are different variables, from `first` on, that no lemma uses. -/
structure Activation (first : ℕ) (vm : VariableManager) (trace : InductiveTrace) (fs : FrameSolver) :
    Prop where
  vars : vm.Inv
  first_le : first ≤ vm.nextID
  act : ∀ act ∈ fs.activation, act % 2 = 0 ∧ first ≤ act ∧ act < vm.nextID
  nodup : fs.activation.Nodup
  lits : ∀ c ℓ, trace.At c ℓ → Known vm fs c

structure Rep (B : Backend) (tr : TransitionRelation) (first : ℕ) (vm : VariableManager)
    (trace : InductiveTrace) (fs : FrameSolver) : Prop
    extends Activation first vm trace fs where
  inv : trace.Inv
  tr_eq : fs.tr = tr
  start : fs.solverInited = false → fs.unrolled = [] ∧ fs.solver.clauses = [[idTrue]]
  formula : fs.solverInited = true → TransitionRelationSolver.computeSimplifiedTR B tr = .ok fs.unrolled
  sent : fs.solverInited = true → ∃ sent, Sent trace fs sent ∧ ∀ c ℓ, trace.At c ℓ → (c, ℓ) ∈ sent

structure Newer (vm : VariableManager) (fs : FrameSolver) (vm' : VariableManager)
    (fs' : FrameSolver) : Prop where
  le : vm.nextID ≤ vm'.nextID
  new : ∀ act ∈ fs'.activation, act ∈ fs.activation ∨ vm.nextID ≤ act
  ids : vm'.nextID + 2 * fs.activation.length = vm.nextID + 2 * fs'.activation.length

def Lacks (vm : VariableManager) (trace : InductiveTrace) (fs : FrameSolver) : Prop :=
  maxId + 2 * fs.activation.length < vm.nextID + 2 * trace.numFrames

structure Grown (vm : VariableManager) (fs : FrameSolver) (vm' : VariableManager)
    (fs' : FrameSolver) : Prop where
  vars : vm'.Inv
  le : vm.nextID ≤ vm'.nextID
  fs_eq : fs' = { fs with activation := fs'.activation }
  prefix_eq : fs.activation <+: fs'.activation
  act : ∀ act ∈ fs'.activation, act ∈ fs.activation ∨
    (act % 2 = 0 ∧ vm.nextID ≤ act ∧ act < vm'.nextID)
  nodup : fs'.activation.Nodup
  ids : vm'.nextID + 2 * fs.activation.length = vm.nextID + 2 * fs'.activation.length

variable {B : Backend} {tr : TransitionRelation} {first : ℕ} {vm vm' vm'' : VariableManager}
  {trace trace' : InductiveTrace} {fs fs' fs'' : FrameSolver} {sent : List (Cube × Level)}
  {fail : Failure → Prop} {c : Cube} {ℓ m : Level} {id : LemmaID}

theorem Newer.refl : Newer vm fs vm fs := ⟨le_rfl, fun _ ↦ .inl, rfl⟩

theorem Newer.trans (h : Newer vm fs vm' fs') (h' : Newer vm' fs' vm'' fs'') :
    Newer vm fs vm'' fs'' := by
  have hids := h.ids
  have hids' := h'.ids
  refine ⟨h.le.trans h'.le, fun act hact ↦ ?_, by omega⟩
  cases h'.new act hact with
  | inl hold => exact h.new act hold
  | inr hnew => exact .inr (h.le.trans hnew)

theorem Newer.known (h : Newer vm fs vm' fs') (hc : Known vm fs c) : Known vm' fs' c := by
  intro lit hl
  obtain ⟨hlt, hno⟩ := hc lit hl
  refine ⟨hlt.trans_le h.le, fun hact ↦ ?_⟩
  cases h.new _ hact with
  | inl hold => exact hno hold
  | inr hnew => omega

theorem Newer.lacks_iff (h : Newer vm fs vm' fs') : Lacks vm' trace fs' ↔ Lacks vm trace fs := by
  have hids := h.ids
  unfold Lacks
  omega

theorem Grown.newer (h : Grown vm fs vm' fs') : Newer vm fs vm' fs' :=
  ⟨h.le, fun act hact ↦ (h.act act hact).imp (fun hold ↦ hold) fun hnew ↦ hnew.2.1, h.ids⟩

theorem Activation.grown (h : Activation first vm trace fs) : Grown vm fs vm fs where
  vars := h.vars
  le := le_rfl
  fs_eq := rfl
  prefix_eq := List.prefix_rfl
  act _ hact := .inl hact
  nodup := h.nodup
  ids := rfl

theorem Grown.trans (h : Grown vm fs vm' fs') (h' : Grown vm' fs' vm'' fs'') :
    Grown vm fs vm'' fs'' where
  vars := h'.vars
  le := h.le.trans h'.le
  fs_eq := by
    rw [h'.fs_eq, h.fs_eq]
  prefix_eq := h.prefix_eq.trans h'.prefix_eq
  act act hact := by
    have hle := h.le
    have hle' := h'.le
    cases h'.act act hact with
    | inl hold =>
      cases h.act act hold with
      | inl hold => exact .inl hold
      | inr hnew => exact .inr ⟨hnew.1, hnew.2.1, by omega⟩
    | inr hnew => exact .inr ⟨hnew.1, by omega, hnew.2.2⟩
  nodup := h'.nodup
  ids := by
    have hids := h.ids
    have hids' := h'.ids
    omega

theorem Activation.grow (h : Activation first vm trace fs) (hg : Grown vm fs vm' fs') :
    Activation first vm' trace fs' where
  vars := hg.vars
  first_le := h.first_le.trans hg.le
  act act hact := by
    have hle := hg.le
    have hfirst := h.first_le
    cases hg.act act hact with
    | inl hold =>
      obtain ⟨heven, hge, hlt⟩ := h.act act hold
      exact ⟨heven, hge, by omega⟩
    | inr hnew => exact ⟨hnew.1, by omega, hnew.2.2⟩
  nodup := hg.nodup
  lits c ℓ hat := hg.newer.known (h.lits c ℓ hat)

theorem Grown.clauseAt_eq (h : Grown vm fs vm' fs') (hn : ℓ.needed ≤ fs.activation.length) :
    fs'.clauseAt c ℓ = fs.clauseAt c ℓ := by
  cases ℓ with
  | inf => rfl
  | fin n =>
    have hlt : n < fs.activation.length := hn
    obtain ⟨more, hmore⟩ := h.prefix_eq
    rw [clauseAt, clauseAt, ← hmore, List.getD_append _ _ _ _ hlt]

theorem Sent.grow (h : Sent trace fs sent) (hg : Grown vm fs vm' fs') : Sent trace fs' sent := by
  have hsolver : fs'.solver = fs.solver := by rw [hg.fs_eq]
  have hunrolled : fs'.unrolled = fs.unrolled := by rw [hg.fs_eq]
  have hlen := hg.prefix_eq.length_le
  refine ⟨?_, fun p hp ↦ (h.activated p hp).trans hlen, h.left, ?_⟩
  · rw [hsolver, hunrolled, h.clauses]
    congr 1
    exact List.map_congr_left fun p hp ↦ (hg.clauseAt_eq (h.activated p hp)).symm
  · rw [hsolver]
    exact h.known

theorem Rep.grow (h : Rep B tr first vm trace fs) (hg : Grown vm fs vm' fs') :
    Rep B tr first vm' trace fs' := by
  have hinited : fs'.solverInited = fs.solverInited := by rw [hg.fs_eq]
  have hunrolled : fs'.unrolled = fs.unrolled := by rw [hg.fs_eq]
  have hsolver : fs'.solver = fs.solver := by rw [hg.fs_eq]
  refine ⟨h.toActivation.grow hg, h.inv, by rw [hg.fs_eq]; exact h.tr_eq, ?_, ?_, ?_⟩
  · rw [hinited, hunrolled, hsolver]
    exact h.start
  · rw [hinited, hunrolled]
    exact h.formula
  · rw [hinited]
    intro hi
    obtain ⟨sent, hsent, hall⟩ := h.sent hi
    exact ⟨sent, hsent.grow hg, hall⟩

/-- Making activation variables fails only when there are no more IDs. -/
theorem growActivation_meets (h : Activation first vm trace fs) (n : ℕ)
    (hids : 0 < n → maxId < vm.nextID + 2 * n → fail .idsExhausted) :
    Meets (fun r ↦ Grown vm fs r.1 r.2 ∧ r.2.activation.length = fs.activation.length + n) fail
      (fs.growActivation vm n) := by
  induction n generalizing vm fs with
  | zero => exact ⟨h.grown, rfl⟩
  | succ n ih =>
    unfold growActivation
    refine (VariableManager.getNewID_meets h.vars rfl (absurd rfl) fun hlt ↦
      hids (Nat.succ_pos n) (by omega)).bind fun r hr ↦ ?_
    obtain ⟨id, vm₁⟩ := r
    have hid : id = vm.nextID := hr.id_eq
    have hnext : vm₁.nextID = vm.nextID + 2 := hr.nextID
    have hnew : id ∉ fs.activation := fun hmem ↦ by
      have hlt := (h.act id hmem).2.2
      omega
    have hgrown : Grown vm fs vm₁ { fs with activation := fs.activation ++ [id] } := by
      refine ⟨hr.inv, by omega, rfl, List.prefix_append _ _, fun act hact ↦ ?_, ?_, ?_⟩
      · cases List.mem_append.mp hact with
        | inl hold => exact .inl hold
        | inr hself =>
          obtain rfl := List.mem_singleton.mp hself
          have heven := h.vars.even
          exact .inr ⟨by omega, by omega, by omega⟩
      · refine List.nodup_append.mpr ⟨h.nodup, List.nodup_singleton id, fun a ha b hb ↦ ?_⟩
        obtain rfl := List.mem_singleton.mp hb
        exact fun heq ↦ hnew (heq ▸ ha)
      · rw [List.length_append, List.length_singleton]
        omega
    dsimp only
    refine (ih (h.grow hgrown) fun _ hlt ↦ hids (Nat.succ_pos n) (by omega)).imp fun r hr ↦ ⟨hgrown.trans hr.1, ?_⟩
    rw [hr.2, List.length_append, List.length_singleton]
    omega

theorem levelAct_meets (h : Activation first vm trace fs) (hids : Lacks vm trace fs → fail .idsExhausted)
    {n : ℕ} (hn : n < trace.numFrames) :
    Meets (fun r ↦ Grown vm fs r.2.1 r.2.2 ∧ n < r.2.2.activation.length ∧
      r.1 = r.2.2.activation.getD n idNull) fail (fs.levelAct vm n) := by
  unfold levelAct
  refine (growActivation_meets h _ fun hpos hlt ↦ hids ?_).bind fun r hr ↦ ?_
  · unfold Lacks
    omega
  obtain ⟨vm₁, fs₁⟩ := r
  obtain ⟨hg, hlen⟩ := hr
  have hlt : n < fs₁.activation.length := by
    dsimp only at hlen
    omega
  dsimp only
  rw [List.getElem?_eq_getElem hlt]
  refine ⟨hg, hlt, ?_⟩
  rw [List.getD_eq_getElem?_getD, List.getElem?_eq_getElem hlt]
  rfl

theorem activatedClauseOf_meets (h : Activation first vm trace fs)
    (hids : Lacks vm trace fs → fail .idsExhausted) (data : LemmaData)
    (hle : data.level.needed ≤ trace.numFrames) :
    Meets (fun r ↦ Grown vm fs r.2.1 r.2.2 ∧ data.level.needed ≤ r.2.2.activation.length ∧
      r.1 = r.2.2.clauseAt data.cube data.level) fail (fs.activatedClauseOf vm data) := by
  unfold activatedClauseOf
  cases hl : data.level with
  | inf => exact ⟨h.grown, Nat.zero_le _, rfl⟩
  | fin n =>
    rw [hl] at hle
    dsimp only
    refine (levelAct_meets h hids hle).bind fun r hr ↦ ⟨hr.1, hr.2.1, ?_⟩
    rw [hr.2.2]
    rfl

structure Sending (base : FrameSolver) (first : ℕ) (vm : VariableManager) (trace : InductiveTrace)
    (fs : FrameSolver) (sent : List (Cube × Level)) : Prop
    extends Activation first vm trace fs, Sent trace fs sent where
  fs_eq : fs = { base with solver := fs.solver, activation := fs.activation }

variable {base : FrameSolver}

theorem Sending.grow (h : Sending base first vm trace fs sent) (hg : Grown vm fs vm' fs') :
    Sending base first vm' trace fs' sent := by
  refine ⟨h.toActivation.grow hg, h.toSent.grow hg, ?_⟩
  have hsolver : fs'.solver = fs.solver := by rw [hg.fs_eq]
  rw [hsolver, hg.fs_eq, h.fs_eq]

theorem Sending.base_eq (h : Sending base first vm trace fs sent) :
    fs.tr = base.tr ∧ fs.unrolled = base.unrolled ∧ fs.solverInited = base.solverInited := by
  rw [h.fs_eq]
  exact ⟨rfl, rfl, rfl⟩

theorem satClause_known {ad : SATAdaptor} {cls : Clause}
    (hv : ∀ v ∈ varsOf ad.clauses, v ∈ ad.known) {ad' : SATAdaptor}
    (h : ad'.clauses = ad.clauses ++ [cls] ∧ ad'.groups = ad.groups ∧ ad'.calls = ad.calls ∧
      ∀ v, v ∈ ad'.known ↔ v ∈ ad.known ∨ ∃ lit ∈ cls, strip lit = v) :
    ∀ v ∈ varsOf ad'.clauses, v ∈ ad'.known := by
  intro v hmem
  obtain ⟨c, hc, lit, hl, rfl⟩ := hmem
  rw [h.1] at hc
  refine (h.2.2.2 _).mpr ?_
  cases List.mem_append.mp hc with
  | inl hold => exact .inl (hv _ (mem_varsOf hold hl))
  | inr hnew =>
    obtain rfl := List.mem_singleton.mp hnew
    exact .inr ⟨lit, hl, rfl⟩

theorem sendLemma_meets (h : Sending base first vm trace fs sent) (hinv : trace.Inv)
    (hids : Lacks vm trace fs → fail .idsExhausted) (he : trace.Entry id c ℓ) (hempty : c = [] → fail .assertion) :
    Meets (fun r ↦ Sending base first r.1 trace r.2 (sent ++ [(c, ℓ)]) ∧ Newer vm fs r.1 r.2) fail
      (fs.sendLemma vm trace id) := by
  unfold sendLemma
  rw [hinv.getLemma_eq he, ok_bind]
  have hneeded := hinv.needed_le (hinv.at_iff.mpr ⟨id, he⟩)
  refine (activatedClauseOf_meets h.toActivation hids _ hneeded).bind fun r hr ↦ ?_
  obtain ⟨cls, vm₁, fs₁⟩ := r
  obtain ⟨hg, hneeded, hcls⟩ := hr
  have hsend : Sending base first vm₁ trace fs₁ sent := h.grow hg
  dsimp only at hneeded hcls ⊢
  by_cases hnil : cls = []
  · have hc : c = [] := by
      rw [hcls] at hnil
      cases ℓ with
      | inf => exact List.map_eq_nil_iff.mp hnil
      | fin n => exact absurd hnil (List.append_ne_nil_of_right_ne_nil _ (List.cons_ne_nil _ _))
    rw [hnil]
    exact hempty hc
  · refine (SATAdaptor.addClause_meets hnil).bind fun ad had ↦ ?_
    refine ⟨⟨⟨hsend.vars, hsend.first_le, hsend.act, hsend.nodup, hsend.lits⟩,
      ⟨?_, ?_, ?_, ?_⟩, ?_⟩, hg.newer.le, hg.newer.new, hg.newer.ids⟩
    · dsimp only
      rw [had.1, hsend.clauses, List.map_append, hcls, List.append_assoc]
      rfl
    · intro p hp
      cases List.mem_append.mp hp with
      | inl hold => exact hsend.activated p hold
      | inr hnew =>
        obtain rfl := List.mem_singleton.mp hnew
        exact hneeded
    · intro p hp
      cases List.mem_append.mp hp with
      | inl hold => exact hsend.left p hold
      | inr hnew =>
        obtain rfl := List.mem_singleton.mp hnew
        exact ⟨ℓ, hinv.at_iff.mpr ⟨id, he⟩, le_rfl⟩
    · exact satClause_known hsend.known had
    · exact congrArg (fun f : FrameSolver ↦ { f with solver := ad }) hsend.fs_eq

theorem sendFrame_meets (h : Sending base first vm trace fs sent) (hinv : trace.Inv)
    (hids : Lacks vm trace fs → fail .idsExhausted) (hexists : trace.frames.frameExists ℓ = true)
    (hempty : ∀ m, trace.At [] m → fail .assertion) :
    Meets (fun r ↦ Newer vm fs r.1 r.2 ∧ ∃ sent', Sending base first r.1 trace r.2 sent' ∧
      sent ⊆ sent' ∧ ∀ c, trace.At c ℓ → (c, ℓ) ∈ sent') fail (fs.sendFrame vm trace ℓ) := by
  unfold sendFrame InductiveTrace.getFrame Frames.getFrame
  rw [hexists, ensure_true, ok_bind, pure_bind]
  have hfold : Meets _ fail _ := foldlM_meets (l := trace.frames.frame ℓ)
    (f := fun (r : VariableManager × FrameSolver) id ↦ do
      let data ← trace.getLemma id
      if data.deleted then return (r.1, r.2) else r.2.sendLemma r.1 trace id)
    (fun done r ↦ Newer vm fs r.1 r.2 ∧ ∃ sent', Sending base first r.1 trace r.2 sent' ∧
      sent ⊆ sent' ∧ ∀ id ∈ done, ∀ c, trace.Entry id c ℓ → (c, ℓ) ∈ sent') (vm, fs)
    ⟨.refl, sent, h, List.Subset.refl _, nofun⟩ ?_
  · refine hfold.imp fun r hr ↦ ?_
    obtain ⟨hnewer, sent', hsend, hsub, hall⟩ := hr
    refine ⟨hnewer, sent', hsend, hsub, fun c hat ↦ ?_⟩
    obtain ⟨i, he⟩ := hinv.at_iff.mp hat
    exact hall i (hinv.mem_iff.mpr ⟨c, he⟩) c he
  · intro done id rest r hl hr
    obtain ⟨hnewer, sent', hsend, hsub, hall⟩ := hr
    have hmem : id ∈ trace.frames.frame ℓ := hl ▸ List.mem_append_right _ List.mem_cons_self
    obtain ⟨c, he⟩ := hinv.mem_iff.mp hmem
    rw [hinv.getLemma_eq he, ok_bind]
    dsimp only
    rw [if_neg Bool.false_ne_true]
    have hnil : c = [] → fail .assertion := fun hc ↦
      hempty ℓ (hinv.at_iff.mpr ⟨id, hc ▸ he⟩)
    refine (sendLemma_meets hsend hinv (fun hlacks ↦ hids (hnewer.lacks_iff.mp hlacks)) he hnil).imp fun r' hr' ↦ ?_
    refine ⟨hnewer.trans hr'.2, _, hr'.1, fun p hp ↦ List.mem_append_left _ (hsub hp),
      fun i hi c' he' ↦ ?_⟩
    cases List.mem_append.mp hi with
    | inl hold => exact List.mem_append_left _ (hall i hold c' he')
    | inr hself =>
      obtain rfl := List.mem_singleton.mp hself
      obtain rfl := (he'.eq he).1
      exact List.mem_append_right _ List.mem_cons_self

theorem renewSAT_meets (h : Rep B tr first vm trace fs) (hi : fs.solverInited = false)
    (hids : Lacks vm trace fs → fail .idsExhausted) (hempty : ∀ m, trace.At [] m → fail .assertion)
    (hformula : Meets (fun unrolled ↦ ∀ cls ∈ unrolled, cls ≠ []) fail
      (TransitionRelationSolver.computeSimplifiedTR B tr)) :
    Meets (fun r ↦ Rep B tr first r.1 trace r.2 ∧ r.2.solverInited = true ∧ Newer vm fs r.1 r.2)
      fail (fs.renewSAT B vm trace) := by
  unfold renewSAT TransitionRelationSolver.renewSAT
  rw [(h.start hi).1, List.isEmpty_nil, if_pos rfl, h.tr_eq, bind_assoc]
  refine hformula.self.bind fun unrolled hu ↦ ?_
  obtain ⟨hcompute, hne⟩ := hu
  rw [bind_assoc]
  refine (SATAdaptor.addClauses_meets hne).bind fun ad had ↦ ?_
  rw [pure_bind]
  dsimp only
  have hstart : Sending { fs with tr := tr, solver := ad, unrolled := unrolled } first vm trace
      { fs with tr := tr, solver := ad, unrolled := unrolled } [] := by
    refine ⟨⟨h.vars, h.first_le, h.act, h.nodup, h.lits⟩, ⟨?_, nofun, nofun, ?_⟩, rfl⟩
    · exact had.1.trans (List.append_nil _).symm
    · intro v hv
      refine (had.2.2.2 v).mpr ?_
      obtain ⟨cls, hc, lit, hl, rfl⟩ := hv
      rw [had.1] at hc
      cases List.mem_append.mp hc with
      | inl hconst =>
        obtain rfl := List.mem_singleton.mp hconst
        obtain rfl := List.mem_singleton.mp hl
        exact .inl List.mem_cons_self
      | inr hmem => exact .inr (mem_varsOf hmem hl)
  have hstartNewer : Newer vm fs vm { fs with tr := tr, solver := ad, unrolled := unrolled } :=
    ⟨le_rfl, fun _ ↦ .inl, rfl⟩
  refine (sendFrame_meets (ℓ := .inf) hstart h.inv hids rfl hempty).bind fun r hr ↦ ?_
  obtain ⟨hnewer, sentInf, hsendInf, -, hinf⟩ := hr
  have hfold : Meets _ fail _ := foldlM_meets (l := List.range trace.numFrames)
    (f := fun (r : VariableManager × FrameSolver) i ↦ r.2.sendFrame r.1 trace (.fin i))
    (fun done r ↦ Newer vm fs r.1 r.2 ∧ ∃ sent,
      Sending { fs with tr := tr, solver := ad, unrolled := unrolled } first r.1 trace r.2 sent ∧
      (∀ c, trace.At c .inf → (c, .inf) ∈ sent) ∧
      ∀ i ∈ done, ∀ c, trace.At c (.fin i) → (c, .fin i) ∈ sent) r
    ⟨hstartNewer.trans hnewer, sentInf, hsendInf, hinf, nofun⟩ ?_
  · refine hfold.bind fun r' hr' ↦ ?_
    obtain ⟨hnewer', sent, hsend, hinf, hfin⟩ := hr'
    have hall : ∀ c ℓ, trace.At c ℓ → (c, ℓ) ∈ sent := by
      intro c ℓ hat
      cases ℓ with
      | inf => exact hinf c hat
      | fin n => exact hfin n (List.mem_range.mpr (h.inv.needed_le hat)) c hat
    obtain ⟨htr, hunrolled, -⟩ := hsend.base_eq
    refine ⟨⟨⟨hsend.vars, hsend.first_le, hsend.act, hsend.nodup, hsend.lits⟩, h.inv,
      htr, nofun, fun _ ↦ ?_, fun _ ↦ ⟨sent, ?_, hall⟩⟩, rfl,
      hnewer'.le, hnewer'.new, hnewer'.ids⟩
    · exact hcompute.trans (congrArg Except.ok hunrolled.symm)
    · exact ⟨hsend.clauses, hsend.activated, hsend.left, hsend.known⟩
  · intro done i rest r' hl hr'
    obtain ⟨hnewer', sent, hsend, hinf, hfin⟩ := hr'
    have hlt : i < trace.numFrames :=
      List.mem_range.mp (hl ▸ List.mem_append_right _ List.mem_cons_self)
    have hexists : trace.frames.frameExists (.fin i) = true := decide_eq_true hlt
    refine (sendFrame_meets hsend h.inv (fun hlacks ↦ hids (hnewer'.lacks_iff.mp hlacks)) hexists hempty).imp
      fun r'' hr'' ↦ ?_
    obtain ⟨hstep, sent', hsend', hsub, hall⟩ := hr''
    refine ⟨hnewer'.trans hstep, sent', hsend', fun c hat ↦ hsub (hinf c hat), fun j hj c hat ↦ ?_⟩
    cases List.mem_append.mp hj with
    | inl hold => exact hsub (hfin j hold c hat)
    | inr hself =>
      obtain rfl := List.mem_singleton.mp hself
      exact hall c hat

theorem Sent.moved (h : Sent trace fs sent) (hinv : trace.Inv) (hm : Moved trace c ℓ id trace') :
    Sent trace' fs sent := by
  refine ⟨h.clauses, h.activated, fun p hp ↦ ?_, h.known⟩
  obtain ⟨m, hat, hle⟩ := h.left p hp
  by_cases hc : p.1 = c
  · rw [hc] at hat
    obtain ⟨i, he⟩ := hinv.at_iff.mp hat
    obtain rfl := hm.other i m he
    exact ⟨ℓ, (hm.at_iff hinv).mpr (.inl ⟨hc, rfl⟩), hle.trans (hm.before c m he).2⟩
  · exact ⟨m, (hm.at_iff hinv).mpr (.inr ⟨hc, hat⟩), hle⟩

theorem addLemma_meets (h : Rep B tr first vm trace fs) (hm : Moved trace c ℓ id trace')
    (hc : Known vm fs c) (hids : Lacks vm trace' fs → fail .idsExhausted) (hempty : c = [] → fail .assertion) :
    Meets (fun r ↦ Rep B tr first r.1 trace' r.2 ∧ Newer vm fs r.1 r.2 ∧
      r.2.solverInited = fs.solverInited) fail (fs.addLemma vm trace' id) := by
  have hact : Activation first vm trace' fs := by
    refine ⟨h.vars, h.first_le, h.act, h.nodup, fun d m hat ↦ ?_⟩
    cases (hm.at_iff h.inv).mp hat with
    | inl heq => exact heq.1 ▸ hc
    | inr hold => exact h.lits d m hold.2
  unfold addLemma
  by_cases hi : fs.solverInited = true
  · rw [if_pos hi]
    obtain ⟨sent, hsent, hall⟩ := h.sent hi
    have hsend : Sending fs first vm trace' fs sent := ⟨hact, hsent.moved h.inv hm, rfl⟩
    refine (sendLemma_meets hsend hm.inv hids hm.entry_self hempty).imp fun r hr ↦ ?_
    obtain ⟨hr, hnewer⟩ := hr
    obtain ⟨htr, hunrolled, hinited⟩ := hr.base_eq
    refine ⟨⟨hr.toActivation, hm.inv, htr.trans h.tr_eq, fun hno ↦ ?_, fun _ ↦ ?_,
      fun _ ↦ ⟨_, hr.toSent, fun d m hat ↦ ?_⟩⟩, hnewer, hinited⟩
    · exact nomatch (hno.symm.trans hinited).trans hi
    · rw [hunrolled]
      exact h.formula hi
    · cases (hm.at_iff h.inv).mp hat with
      | inl heq =>
        obtain ⟨rfl, rfl⟩ := heq
        exact List.mem_append_right _ List.mem_cons_self
      | inr hold => exact List.mem_append_left _ (hall d m hold.2)
  · rw [if_neg hi]
    exact ⟨⟨hact, hm.inv, h.tr_eq, h.start, h.formula, fun hno ↦ absurd hno hi⟩, .refl, rfl⟩

theorem rep_new (hvars : vm.Inv) (hfirst : first ≤ vm.nextID) (hinv : trace.Inv)
    (hlits : ∀ c ℓ, trace.At c ℓ → ∀ lit ∈ c, strip lit < vm.nextID) :
    Rep B tr first vm trace (new tr) where
  vars := hvars
  first_le := hfirst
  act := nofun
  nodup := List.nodup_nil
  lits c ℓ hat lit hl := ⟨hlits c ℓ hat lit hl, List.not_mem_nil⟩
  inv := hinv
  tr_eq := rfl
  start _ := ⟨rfl, rfl⟩
  formula := nofun
  sent := nofun

theorem Rep.with_vars (h : Rep B tr first vm trace fs) (hvars : vm'.Inv) (hle : vm.nextID ≤ vm'.nextID) :
    Rep B tr first vm' trace fs := by
  exact ⟨⟨hvars, h.first_le.trans hle, fun act hact ↦ ⟨(h.act act hact).1, (h.act act hact).2.1,
    (h.act act hact).2.2.trans_le hle⟩, h.nodup, fun c ℓ hat lit hl ↦ ⟨(h.lits c ℓ hat lit hl).1.trans_le hle, (h.lits c ℓ hat lit hl).2⟩⟩,
    h.inv, h.tr_eq, h.start, h.formula, h.sent⟩

theorem Rep.same_entries (h : Rep B tr first vm trace fs) (hinv : trace'.Inv)
    (he : ∀ i c ℓ, trace'.Entry i c ℓ ↔ trace.Entry i c ℓ) : Rep B tr first vm trace' fs := by
  have hat : ∀ c ℓ, trace'.At c ℓ ↔ trace.At c ℓ := by
    intro c ℓ
    rw [hinv.at_iff, h.inv.at_iff]
    exact exists_congr fun i ↦ he i c ℓ
  refine ⟨⟨h.vars, h.first_le, h.act, h.nodup, fun c ℓ hc ↦ h.lits c ℓ ((hat c ℓ).mp hc)⟩, hinv,
    h.tr_eq, h.start, h.formula, fun hi ↦ ?_⟩
  obtain ⟨sent, hsent, hall⟩ := h.sent hi
  refine ⟨sent, ⟨hsent.clauses, hsent.activated, fun p hp ↦ ?_, hsent.known⟩,
    fun c ℓ hc ↦ hall c ℓ ((hat c ℓ).mp hc)⟩
  obtain ⟨ℓ, hc, hle⟩ := hsent.left p hp
  exact ⟨ℓ, (hat p.1 ℓ).mpr hc, hle⟩

def assumed (fs : FrameSolver) (numFrames : ℕ) : Level → Cube
  | .inf => []
  | .fin n => (List.range' n (numFrames - n)).map fun i ↦ negate (fs.activation.getD i idNull)

theorem levelAssumps_meets (h : Activation first vm trace fs)
    (hids : Lacks vm trace fs → fail .idsExhausted) (ℓ : Level) :
    Meets (fun r ↦ Grown vm fs r.2.1 r.2.2 ∧ r.1 = r.2.2.assumed trace.numFrames ℓ ∧
      ∀ n, ℓ = .fin n → ∀ i, n ≤ i → i < trace.numFrames → i < r.2.2.activation.length) fail
      (fs.levelAssumps vm trace ℓ) := by
  cases ℓ with
  | inf => exact ⟨h.grown, rfl, fun n hn ↦ nomatch hn⟩
  | fin n =>
    unfold levelAssumps
    refine (foldlM_meets (fun done (r : Cube × VariableManager × FrameSolver) ↦
      Grown vm fs r.2.1 r.2.2 ∧
      r.1 = done.map (fun i ↦ negate (r.2.2.activation.getD i idNull)) ∧
      ∀ i ∈ done, i < r.2.2.activation.length) ([], vm, fs) ⟨h.grown, rfl, nofun⟩ ?_).imp ?_
    · intro done i rest r hl hr
      obtain ⟨assumps, vm₁, fs₁⟩ := r
      obtain ⟨hg, heq, hlen⟩ := hr
      dsimp only at hg heq hlen ⊢
      have hlt : i < trace.numFrames := by
        have hmem := List.mem_range'_1.mp (hl ▸ List.mem_append_right done List.mem_cons_self)
        omega
      refine (levelAct_meets (h.grow hg) (fun hlacks ↦ hids (hg.newer.lacks_iff.mp hlacks)) hlt).bind fun r hr ↦ ?_
      obtain ⟨act, vm₂, fs₂⟩ := r
      obtain ⟨hg', hlt, hact⟩ := hr
      dsimp only at hg' hlt hact ⊢
      have hlen' := hg'.prefix_eq.length_le
      refine ⟨hg.trans hg', ?_, fun j hj ↦ ?_⟩
      · have hsame : done.map (fun i ↦ negate (fs₁.activation.getD i idNull)) =
            done.map fun i ↦ negate (fs₂.activation.getD i idNull) := by
          refine List.map_congr_left fun j hj ↦ ?_
          obtain ⟨more, hmore⟩ := hg'.prefix_eq
          rw [← hmore, List.getD_append _ _ _ _ (hlen j hj)]
        rw [List.map_append, ← hsame, heq, hact]
        rfl
      · cases List.mem_append.mp hj with
        | inl hold => exact (hlen j hold).trans_le hlen'
        | inr hself =>
          obtain rfl := List.mem_singleton.mp hself
          exact hlt
    · intro r hr
      refine ⟨hr.1, hr.2.1, fun k hk i hi hlt ↦ hr.2.2 i (List.mem_range'_1.mpr ?_)⟩
      cases hk
      omega

def lemmaClauses (fs : FrameSolver) : ClauseVec := fs.solver.clauses.drop (1 + fs.unrolled.length)

def ActiveUnder (fs : FrameSolver) (assumps : Cube) (cls : Clause) : Prop :=
  ∀ lit ∈ cls, lit ∈ fs.activation → negate lit ∈ assumps

theorem Sent.lemmaClauses_eq (h : Sent trace fs sent) :
    fs.lemmaClauses = sent.map fun p ↦ fs.clauseAt p.1 p.2 := by
  rw [lemmaClauses, h.clauses]
  refine List.drop_left' ?_
  rw [List.length_cons, Nat.add_comm]

theorem Activation.getD_mem {n : ℕ} (hn : n < fs.activation.length) :
    fs.activation.getD n idNull ∈ fs.activation := by
  rw [List.getD_eq_getElem?_getD, List.getElem?_eq_getElem hn]
  exact List.getElem_mem hn

theorem Activation.act_injective (h : Activation first vm trace fs) {i k : ℕ}
    (hi : i < fs.activation.length) (hk : k < fs.activation.length)
    (heq : fs.activation.getD i idNull = fs.activation.getD k idNull) : i = k := by
  rw [List.getD_eq_getElem?_getD, List.getD_eq_getElem?_getD, List.getElem?_eq_getElem hi,
    List.getElem?_eq_getElem hk] at heq
  exact (List.Nodup.getElem_inj_iff h.nodup).mp heq

theorem mem_clauseAt_fin {lit n : ℕ} :
    lit ∈ fs.clauseAt c (.fin n) ↔ lit ∈ negateVec c ∨ lit = fs.activation.getD n idNull := by
  rw [clauseAt, List.mem_append, List.mem_singleton]

theorem Activation.not_act (h : Activation first vm trace fs) (hat : trace.At c ℓ) {lit : ℕ}
    (hl : lit ∈ negateVec c) : lit ∉ fs.activation := by
  intro hact
  obtain ⟨l, hmem, rfl⟩ := List.mem_map.mp hl
  have heven := (h.act _ hact).1
  have hno := (h.lits c ℓ hat l hmem).2
  rw [← strip_negate, strip_of_even heven] at hno
  exact hno hact

/-- What the active clauses say is what the lemmas at the level and above it say. -/
theorem Sent.active_iff (h : Sent trace fs sent) (ha : Activation first vm trace fs)
    (hinv : trace.Inv) (hall : ∀ c ℓ, trace.At c ℓ → (c, ℓ) ∈ sent)
    (hlen : ∀ n, ℓ = .fin n → ∀ i, n ≤ i → i < trace.numFrames → i < fs.activation.length)
    {σ : Assignment} (hσ : satCube σ (fs.assumed trace.numFrames ℓ)) :
    (∀ cls ∈ fs.lemmaClauses, fs.ActiveUnder (fs.assumed trace.numFrames ℓ) cls → satClause σ cls) ↔
      ∀ c m, trace.At c m → ℓ ≤ m → ¬ satCube σ c := by
  rw [h.lemmaClauses_eq, List.forall_mem_map]
  constructor
  · intro hcls c m hat hle
    have hclause := hcls (c, m) (hall c m hat)
    dsimp only at hclause
    cases m with
    | inf =>
      have hsat := hclause fun lit hl hact ↦ absurd hact (ha.not_act hat hl)
      exact (satClause_negateVec c).mp hsat
    | fin k =>
      cases ℓ with
      | inf => exact absurd hle Level.not_inf_le_fin
      | fin n =>
        have hnk : n ≤ k := Level.fin_le_fin.mp hle
        have hk : k < trace.numFrames := hinv.needed_le hat
        have hoff : negate (fs.activation.getD k idNull) ∈ fs.assumed trace.numFrames (.fin n) :=
          List.mem_map.mpr ⟨k, List.mem_range'_1.mpr (by omega), rfl⟩
        have hsat : satClause σ (fs.clauseAt c (.fin k)) := by
          refine hclause fun lit hl hact ↦ ?_
          cases mem_clauseAt_fin.mp hl with
          | inl hneg => exact absurd hact (ha.not_act hat hneg)
          | inr heq => exact heq ▸ hoff
        have hfalse := hσ _ hoff
        rw [litVal_negate, Bool.not_eq_true'] at hfalse
        rw [clauseAt, satClause_append, satClause_cons, hfalse, satClause_negateVec] at hsat
        simpa using hsat
  · intro hlemmas p hp hactive
    obtain ⟨c, m⟩ := p
    obtain ⟨m', hat, hle⟩ := h.left (c, m) hp
    dsimp only at hle hactive ⊢
    cases m with
    | inf =>
      have hm : ℓ ≤ m' := Level.le_inf.trans hle
      exact (satClause_negateVec c).mpr (hlemmas c m' hat hm)
    | fin k =>
      have hk : k < fs.activation.length := h.activated _ hp
      have hmem := Activation.getD_mem hk
      have hon := hactive _ (mem_clauseAt_fin.mpr (.inr rfl)) hmem
      cases ℓ with
      | inf => exact absurd hon List.not_mem_nil
      | fin n =>
        obtain ⟨i, hi, heq⟩ := List.mem_map.mp hon
        have hrange := List.mem_range'_1.mp hi
        have hilen := hlen n rfl i hrange.1 (by omega)
        have hik := ha.act_injective hilen hk (negate_injective heq)
        have hnk : Level.fin n ≤ Level.fin k := Level.fin_le_fin.mpr (hik ▸ hrange.1)
        rw [clauseAt, satClause_append]
        exact .inl ((satClause_negateVec c).mpr (hlemmas c m' hat (hnk.trans hle)))

end FrameSolver

end PME.IC3
