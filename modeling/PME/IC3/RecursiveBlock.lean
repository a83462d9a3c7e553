import PME.IC3.SearchBudget

namespace PME.IC3

open Outcome TransitionRelation InductiveTrace IC3Solver FrameSequence

def ProofObligation.key (obl : ProofObligation) : ℕ ×ₗ ℕ ×ₗ ℕ ×ₗ Cube :=
  toLex (obl.level, toLex (obl.cti.length, toLex (obl.mayDegree, obl.cti)))

theorem obligationComparator_iff (a b : ProofObligation) :
    obligationComparator a b = true ↔ b.key < a.key := by
  unfold obligationComparator ProofObligation.key
  rw [Prod.Lex.toLex_lt_toLex, Prod.Lex.toLex_lt_toLex, Prod.Lex.toLex_lt_toLex]
  split
  · simp only [decide_eq_true_eq]
    omega
  · split
    · simp only [decide_eq_true_eq]
      omega
    · split
      · simp only [decide_eq_true_eq]
        omega
      · simp only [decide_eq_true_eq]
        refine ⟨fun h ↦ .inr ⟨by omega, .inr ⟨by omega, .inr ⟨by omega, h⟩⟩⟩, fun h ↦ ?_⟩
        have h₁ := (h.resolve_left (by omega)).2
        have h₂ := (h₁.resolve_left (by omega)).2
        exact (h₂.resolve_left (by omega)).2

theorem exists_first {obls : List ProofObligation} {q : List ℕ} (hq : q ≠ []) : ∃ i ∈ q, ∀ j ∈ q,
    ∀ a b, obls[i]? = some a → obls[j]? = some b → obligationComparator a b = false := by
  obtain ⟨i, hi, hmin⟩ := q.toFinset.exists_min_image
    (fun i ↦ WithBot.map ProofObligation.key obls[i]?) (q.toFinset_nonempty_iff.mpr hq)
  refine ⟨i, List.mem_toFinset.mp hi, fun j hj a b ha hb ↦ ?_⟩
  have hle := hmin j (List.mem_toFinset.mpr hj)
  rw [ha, hb] at hle
  have hkey : a.key ≤ b.key := WithBot.coe_le_coe.mp hle
  exact Bool.not_eq_true _ |>.mp (mt (obligationComparator_iff a b).mp hkey.not_gt)

/-- A queue of obligations of the pool has one to pop, and no other is at a lower level. -/
theorem popObligation_spec (E : Engines) {obls : List ProofObligation} {q : List ℕ} (hq : q ≠ [])
    (hvalid : ∀ i ∈ q, i < obls.length) :
    ∃ i obl, popObligation E obls q = some (i, obl, q.erase i) ∧ i ∈ q ∧ obls[i]? = some obl ∧
      Setting.Lowest obls q obl := by
  unfold popObligation
  rw [if_neg fun hempty ↦ hq (List.isEmpty_iff.mp hempty)]
  generalize hfirst : List.filter _ q = first
  have hne : first ≠ [] := by
    obtain ⟨i, hi, hmin⟩ := exists_first hq
    refine List.ne_nil_of_mem (a := i) (hfirst ▸ List.mem_filter.mpr ⟨hi, ?_⟩)
    refine List.all_eq_true.mpr fun j hj ↦ ?_
    split
    · next a b ha hb => rw [hmin j hj a b ha hb, Bool.not_false]
    · rfl
  have hsub : first ⊆ q := by
    rw [← hfirst]
    exact List.filter_sublist.subset
  have hmem := hsub (E.pick_mem first hne)
  have hget := List.getElem?_eq_getElem (hvalid _ hmem)
  have hmin := E.pick_mem first hne
  rw [← hfirst] at hmin
  have hall := List.all_eq_true.mp (List.mem_filter.mp hmin).2
  rw [hfirst, hget] at hall
  rw [hget]
  refine ⟨_, _, rfl, hmem, hget, fun j hj b hb ↦ ?_⟩
  have hfalse := hall j hj
  rw [hb] at hfalse
  have hkey := mt (obligationComparator_iff _ b).mpr (by simpa using hfalse)
  obtain hlt | heq := Prod.Lex.le_iff.mp (not_lt.mp hkey)
  · exact hlt.le
  · exact heq.1.le

namespace Setting

variable {R : Setting} {st st' : IC3Solver} {fail : Failure → Prop} {target c : Cube}
  {trace trace' : InductiveTrace} {obl : ProofObligation} {obls : List ProofObligation} {q : List ℕ}
  {k n targetLevel base : ℕ} {x : Assignment}

def Again (R : Setting) (x x' : Assignment) : Prop := R.tr.SameState x x' ∧ R.tr.IsFrame x'

def LeadsTo (R : Setting) (target : Cube) (x : Assignment) : Prop :=
  ∃ n y, Reach (R.Again x) R.tr.Linked n y ∧ satCube y target

theorem reach_again {m : ℕ} {y : Assignment} (hs : R.sound) (hx : Reach R.Start R.tr.Linked n x)
    (hy : Reach (R.Again x) R.tr.Linked m y) : ∃ k, Reach R.Start R.tr.Linked k y := by
  induction hy with
  | start hy => exact ⟨n, reach_same hs hx hy.1 hy.2⟩
  | step _ hyz ih =>
    obtain ⟨k, hk⟩ := ih
    exact ⟨k + 1, .step hk hyz⟩

theorem LeadsTo.reach (h : R.LeadsTo target x) (hs : R.sound) (hx : Reach R.Start R.tr.Linked n x) :
    ∃ k y, Reach R.Start R.tr.Linked k y ∧ satCube y target := by
  obtain ⟨m, y, hy, hcube⟩ := h
  obtain ⟨k, hk⟩ := reach_again hs hx hy
  exact ⟨k, y, hk, hcube⟩

theorem again_self (hx : Reach R.Start R.tr.Linked n x) : R.Again x x := by
  refine ⟨fun _ _ ↦ rfl, ?_⟩
  cases hx with
  | start hx => exact hx.2
  | step _ hxy => exact hxy.snd

theorem LeadsTo.step {x' y : Assignment} (h : R.LeadsTo target y) (hxx' : R.Again x x')
    (hstep : R.tr.Linked x' y) : R.LeadsTo target x := by
  obtain ⟨m, z, hz, hcube⟩ := h
  refine ⟨m + 1, z, ?_, hcube⟩
  clear hcube
  induction hz with
  | start hz => exact .step (.start hxx') (hz.1.linked R.wf hstep hz.2)
  | step _ hyz ih => exact .step ih hyz

/-- A state in a lifted cube has a step into its target, if not with its own inputs. -/
theorem Stepped.next {t conc inp pinp : Cube} (h : R.Stepped trace k target t conc inp pinp)
    (hs : R.sound) (hsem : R.Sem trace) (hx : Reach R.Start R.tr.Linked n x) (hc : satCube x t) :
    ∃ x' y, R.Again x x' ∧ R.tr.Linked x' y ∧ Reach R.Start R.tr.Linked (n + 1) y ∧ satCube y target := by
  have hframe := (again_self hx).2
  obtain ⟨x₀, y₀, hstep, -, -, -, -, hinp, hpinp⟩ := h.shown.step
  obtain ⟨x', hx', hsame, hu⟩ := exists_sameState R.wf (R.free hs) hframe.const x₀
  obtain ⟨y, hxy, hv⟩ := exists_linked R.wf (R.free hs) hx' (u := y₀) hstep.snd.const
  have hreach := reach_same hs hx hsame hx'
  refine ⟨x', y, ⟨hsame, hx'⟩, hxy, .step hreach hxy, h.leads x' y hxy (hsem.reach_inf hreach) ?_ ?_ ?_⟩
  · refine (satCube_congr fun lit hl ↦ ?_).mp hc
    exact hsame _ (.inr (.inl (h.shown.latches lit (h.subset hl))))
  · exact (satCube_congr fun lit hl ↦ (hu _ (h.shown.inputs lit hl)).symm).mp hinp
  · refine (satCube_congr fun lit hl ↦ (hv _ ?_ ?_).symm).mp hpinp
    · exact R.wf.not_gate (List.mem_append_left _ (h.shown.primed lit hl))
    · exact fun hmem ↦ List.disjoint_of_nodup_append (List.nodup_append.mp R.wf.nodup).1
        (h.shown.primed lit hl) hmem

structure Owed (R : Setting) (target : Cube) (obl : ProofObligation) : Prop where
  sorted : obl.cti.Pairwise (· < ·)
  nonempty : obl.cti ≠ []
  shape : (∀ lit ∈ obl.cti, strip lit ∈ R.tr.latchIDs) ∨ obl.cti = [R.tr.bad]
  avoids : ∀ n x, n < obl.level → Reach R.Start R.tr.Linked n x → ¬ satCube x obl.cti
  hits : obl.level = 0 → ∃ x, R.Start x ∧ satCube x obl.cti ∧ FrameSolver.Displayed R.tr x obl.concreteState
  leads : ∀ n x, Reach R.Start R.tr.Linked n x → satCube x obl.cti → R.LeadsTo target x

theorem Owed.handled (h : R.Owed target obl) (hpos : 0 < obl.level) : R.Handled obl.cti :=
  ⟨⟨h.sorted, h.nonempty, fun x hx ↦ h.avoids 0 x hpos (.start hx)⟩, h.shape⟩

def Covered (trace : InductiveTrace) (target : Cube) (level : ℕ) : Prop :=
  ∃ c m, trace.At c m ∧ c ⊆ target ∧ c.length ≤ target.length ∧ .fin level ≤ m

structure Search (R : Setting) (target : Cube) (targetLevel base : ℕ) (trace : InductiveTrace)
    (obls : List ProofObligation) (q : List ℕ) : Prop where
  valid : ∀ i ∈ q, base ≤ i ∧ i < obls.length
  plain : ∀ i obl, base ≤ i → obls[i]? = some obl → R.Over obl.cti ∧ obl.mayDegree = 0
  owed : R.sound → ∀ i obl, base ≤ i → obls[i]? = some obl → R.Owed target obl
  root : R.sound → Covered trace target targetLevel ∨
    ∃ i ∈ q, ∃ obl, obls[i]? = some obl ∧ obl.cti = target ∧ obl.level = targetLevel

def Upward (trace trace' : InductiveTrace) : Prop :=
  ∀ c m, trace.At c m → ∃ m', trace'.At c m' ∧ m ≤ m'

theorem Upward.refl (trace : InductiveTrace) : Upward trace trace := fun _ m hat ↦ ⟨m, hat, le_rfl⟩

theorem Upward.trans {trace'' : InductiveTrace} (h : Upward trace trace') (h' : Upward trace' trace'') :
    Upward trace trace'' := by
  intro c m hat
  obtain ⟨m', hat', hle⟩ := h c m hat
  obtain ⟨m'', hat'', hle'⟩ := h' c m' hat'
  exact ⟨m'', hat'', hle.trans hle'⟩

theorem Covered.up (h : Covered trace target n) (hup : Upward trace trace') : Covered trace' target n := by
  obtain ⟨c, m, hat, hsub, hlen, hle⟩ := h
  obtain ⟨m', hat', hle'⟩ := hup c m hat
  exact ⟨c, m', hat', hsub, hlen, hle.trans hle'⟩

def Shows (R : Setting) (target : Cube) (cex : SafetyCounterExample) : Prop :=
  ∃ x first rest, cex = first :: rest ∧ R.Start x ∧ FrameSolver.Displayed R.tr x first.state ∧
    R.LeadsTo target x

theorem Shows.reach {cex : SafetyCounterExample} (h : R.Shows target cex) (hs : R.sound) :
    ∃ n x, Reach R.Start R.tr.Linked n x ∧ satCube x target := by
  obtain ⟨x, -, -, -, hx, -, hleads⟩ := h
  exact hleads.reach hs (.start (n := 0) hx)

structure Searched (R : Setting) (st : IC3Solver) (target : Cube) (targetLevel : ℕ)
    (r : Option SafetyCounterExample) (st' : IC3Solver) : Prop where
  good : R.Good st'
  constraints : st'.initConstraints = st.initConstraints
  up : Upward st.trace st'.trace
  found : R.sound → ∀ cex, r = some cex → R.Shows target cex
  blocked : R.sound → r = none → Covered st'.trace target targetLevel

theorem Search.up (h : R.Search target targetLevel base trace obls q) (hup : Upward trace trace') :
    R.Search target targetLevel base trace' obls q :=
  ⟨h.valid, h.plain, h.owed, fun hs ↦ (h.root hs).imp_left fun hcovered ↦ hcovered.up hup⟩

theorem Search.done {i : ℕ} (h : R.Search target targetLevel base trace obls q) (hget : obls[i]? = some obl)
    (hup : Upward trace trace')
    (hcovers : R.sound → obl.level = targetLevel → Covered trace' obl.cti obl.level) :
    R.Search target targetLevel base trace' obls (q.erase i) := by
  refine ⟨fun j hj ↦ h.valid j (List.mem_of_mem_erase hj), h.plain, h.owed, fun hs ↦ ?_⟩
  cases h.root hs with
  | inl hcovered => exact .inl (hcovered.up hup)
  | inr hex =>
    obtain ⟨j, hj, root, hroot, htarget, hlevel⟩ := hex
    by_cases hji : j = i
    · subst hji
      cases hget.symm.trans hroot
      refine .inl ?_
      rw [← htarget, ← hlevel]
      exact hcovers hs hlevel
    · exact .inr ⟨j, (List.mem_erase_of_ne hji).mpr hj, root, hroot, htarget, hlevel⟩

theorem Search.added (h : R.Search target targetLevel base trace obls q)
    (obl : ProofObligation) (hbase : base ≤ obls.length)
    (hplain : R.Over obl.cti ∧ obl.mayDegree = 0) (howed : R.sound → R.Owed target obl) :
    R.Search target targetLevel base trace (obls ++ [obl]) (obls.length :: q) := by
  have hget : ∀ (i : ℕ) o, (obls ++ [obl])[i]? = some o → obls[i]? = some o ∨ o = obl := by
    intro i o ho
    obtain hlt | hge := Nat.lt_or_ge i obls.length
    · exact .inl ((List.getElem?_append_left hlt).symm.trans ho)
    · rw [List.getElem?_append_right hge] at ho
      exact .inr (List.mem_singleton.mp (List.mem_of_getElem? ho))
  refine ⟨fun i hi ↦ ?_, fun i o hi ho ↦ ?_, fun hs i o hi ho ↦ ?_,
    fun hs ↦ (h.root hs).imp_right fun hex ↦ ?_⟩
  · rw [List.length_append, List.length_singleton]
    cases List.mem_cons.mp hi with
    | inl heq => omega
    | inr hmem =>
      obtain ⟨hle, hlt⟩ := h.valid i hmem
      omega
  · exact (hget i o ho).elim (h.plain i o hi) fun heq ↦ heq ▸ hplain
  · exact (hget i o ho).elim (h.owed hs i o hi) fun heq ↦ heq ▸ howed hs
  · obtain ⟨j, hj, root, hroot, heq⟩ := hex
    exact ⟨j, List.mem_cons_of_mem _ hj, root,
      (List.getElem?_append_left (h.valid j hj).2).trans hroot, heq⟩

/-- An obligation that is put back may be another, unless it is for the target. -/
theorem Search.changed {i : ℕ} (h : R.Search target targetLevel base trace obls q)
    (hi : i ∈ q) (hget : obls[i]? = some obl) (change : ProofObligation → ProofObligation)
    (hplain : R.Over (change obl).cti ∧ (change obl).mayDegree = 0)
    (howed : R.sound → R.Owed target (change obl))
    (hroot : obl.level = targetLevel → (change obl).cti = obl.cti ∧ (change obl).level = obl.level) :
    R.Search target targetLevel base trace (obls.modify i change) (i :: q.erase i) := by
  have hself : (obls.modify i change)[i]? = some (change obl) := by
    rw [List.getElem?_modify_eq, hget]
    rfl
  have hor : ∀ (j : ℕ) o, (obls.modify i change)[j]? = some o → obls[j]? = some o ∨ o = change obl := by
    intro j o ho
    by_cases hji : j = i
    · subst hji
      exact .inr (Option.some_injective _ (ho.symm.trans hself))
    · exact .inl ((List.getElem?_modify_ne _ _ (Ne.symm hji)).symm.trans ho)
  refine ⟨fun j hj ↦ ?_, fun j o hj ho ↦ ?_, fun hs j o hj ho ↦ ?_,
    fun hs ↦ (h.root hs).imp_right fun hex ↦ ?_⟩
  · rw [List.length_modify]
    exact h.valid j ((List.mem_cons.mp hj).elim (fun heq ↦ heq ▸ hi) List.mem_of_mem_erase)
  · exact (hor j o ho).elim (h.plain j o hj) fun heq ↦ heq ▸ hplain
  · exact (hor j o ho).elim (h.owed hs j o hj) fun heq ↦ heq ▸ howed hs
  · obtain ⟨j, hj, root, hget', htarget, hlevel⟩ := hex
    by_cases hji : j = i
    · subst hji
      cases hget.symm.trans hget'
      obtain ⟨hcti, hlevel'⟩ := hroot hlevel
      exact ⟨j, List.mem_cons_self, _, hself, hcti.trans htarget, hlevel'.trans hlevel⟩
    · refine ⟨j, List.mem_cons_of_mem _ ((List.mem_erase_of_ne hji).mpr hj), root, ?_, htarget, hlevel⟩
      exact (List.getElem?_modify_ne _ _ (Ne.symm hji)).trans hget'

theorem Searched.after {r : Option SafetyCounterExample} {st₁ : IC3Solver}
    (h : R.Searched st₁ target targetLevel r st') (hc : st₁.initConstraints = st.initConstraints)
    (hup : Upward st.trace st₁.trace) : R.Searched st target targetLevel r st' :=
  ⟨h.good, h.constraints.trans hc, hup.trans h.up, h.found, h.blocked⟩

theorem LemmaMoved.upward {ℓ : Level} {id : LemmaID} (h : R.LemmaMoved st c ℓ id st')
    (hinv : st.trace.Inv) : Upward st.trace st'.trace := fun _ _ hat ↦ moved_up hinv h.moved hat

theorem Asked.upward (h : R.Asked st st') : Upward st.trace st'.trace := by
  rw [h.trace]
  exact .refl _

theorem covered_of_covers (h : ∃ c m, trace.At c m ∧ .fin n ≤ m ∧ covers c target = true) :
    Covered trace target n := by
  obtain ⟨c, m, hat, hle, hcovers⟩ := h
  obtain ⟨hsub, hlen⟩ := subset_of_covers hcovers
  exact ⟨c, m, hat, hsub, hlen, hle⟩

theorem Owed.raised (h : R.Owed target obl) (hsem : R.Sem trace) (hc : Covered trace obl.cti obl.level) :
    R.Owed target { obl with level := obl.level + 1 } := by
  refine ⟨h.sorted, h.nonempty, h.shape, fun n x hn hx hcube ↦ ?_, nofun, h.leads⟩
  obtain ⟨c, m, hat, hsub, -, hle⟩ := hc
  have hframe := hsem.reach_fin (hx.mono (Nat.le_of_lt_succ hn))
  exact hframe c m hat hle (satCube_subset hsub hcube)

theorem Owed.predecessor (h : R.Owed target obl) (hs : R.sound) (hsem : R.Sem trace)
    (hpos : 0 < obl.level) {t conc inp pinp : Cube} {parent : Option ℕ}
    (hlatch : ∀ lit ∈ t, strip lit ∈ R.tr.latchIDs)
    (hstep : R.Stepped trace (obl.level - 1) obl.cti t conc inp pinp) :
    R.Owed target ⟨obl.level - 1, sortCube t, conc, inp, 0, parent⟩ := by
  refine ⟨lt_sortCube hstep.nodup, fun hnil ↦ ?_, .inl fun lit hl ↦ hlatch lit (subset_sortCube hl),
    fun n x hn hx hcube ↦ ?_, fun hzero ↦ ?_, fun n x hx hcube ↦ ?_⟩
  · obtain ⟨lit, hl⟩ := List.exists_mem_of_ne_nil t hstep.nonempty
    have hcti : sortCube t = [] := hnil
    exact List.not_mem_nil (hcti ▸ InductiveTrace.mem_sortCube.mpr hl)
  · have hin := satCube_subset (fun lit hl ↦ InductiveTrace.mem_sortCube.mpr hl) hcube
    obtain ⟨-, y, -, -, hy, hcti⟩ := hstep.next hs hsem hx hin
    have hlt : n < obl.level - 1 := hn
    exact h.avoids (n + 1) y (by omega) hy hcti
  · obtain ⟨x, hframe, hx, hconc⟩ := hstep.displays
    have hlevel : obl.level - 1 = 0 := hzero
    rw [hlevel] at hx
    exact ⟨x, (hsem.start_iff hframe).mpr hx,
      satCube_subset (fun lit hl ↦ hstep.subset (subset_sortCube hl)) hconc.1, hconc⟩
  · have hin := satCube_subset (fun lit hl ↦ InductiveTrace.mem_sortCube.mpr hl) hcube
    obtain ⟨x', y, hagain, hxy, hy, hcti⟩ := hstep.next hs hsem hx hin
    exact (h.leads (n + 1) y hy hcti).step hagain hxy

theorem blocked_goes {t : Cube} {level : ℕ} (h : R.Good st) (hf : R.Allows fail) (hover : R.Over c)
    (hc : R.sound → R.Handled c) (hlevel : 0 < level)
    (hnew : ¬ ∃ d m, st.trace.At d m ∧ .fin level ≤ m ∧ covers d c = true) (hsub : t ⊆ c)
    (hrel : R.sound → R.Relative st.trace (level - 1) t) :
    R.Goes (fun id st' ↦ R.LemmaMoved st (sortCube t) (.fin level) id st' ∧ R.Good st' ∧
      (R.sound → Covered st'.trace c level)) fail (addLemma t (.fin level)) st := by
  refine (addLemma_goes h.toRep hf (hover.subset hsub) fun hs ↦ ⟨(hrel hs).nonempty, fun m hat ↦ ?_⟩).imp
    fun id st' hm ↦ ⟨hm, hm.good h fun hs ↦ ?_, fun hs ↦ ?_⟩
  · rw [sortCube_of_lt (hrel hs).sorted] at hat
    by_contra hno
    exact hnew ⟨t, m, hat, (not_le.mp hno).le, covers_of_subset (hrel hs).sorted (hc hs).sorted hsub⟩
  · rw [sortCube_of_lt (hrel hs).sorted]
    have hex := (hrel hs).excludes
    rwa [Nat.sub_add_cancel hlevel] at hex
  · refine ⟨sortCube t, .fin level, ?_, fun lit hl ↦ hsub (subset_sortCube hl), ?_, le_rfl⟩
    · exact (hm.moved.at_iff h.cons.inv).mpr (.inl ⟨rfl, rfl⟩)
    · rw [sortCube_of_lt (hrel hs).sorted]
      exact (List.subperm_of_subset (nodup_of_lt (hrel hs).sorted) hsub).length_le

theorem LemmaMoved.learns {t : Cube} {level : ℕ} {id : LemmaID}
    (h : R.LemmaMoved st (sortCube t) (.fin level) id st') (hinv : st.trace.Inv) (hc : R.Handled c)
    (hsub : t ⊆ c) (hrel : R.Relative trace k t) :
    t ∈ learnable R.tr ∧ R.Grown st.trace st'.trace ∧ Held st'.trace t level := by
  have hmoved := h.moved
  rw [sortCube_of_lt hrel.sorted] at hmoved
  have hlearn := hc.learnable hsub hrel.sorted hrel.nonempty
  refine ⟨hlearn, fun d m hat ↦ ?_, .fin level, (hmoved.at_iff hinv).mpr (.inl ⟨rfl, rfl⟩), le_rfl⟩
  cases (hmoved.at_iff hinv).mp hat with
  | inl heq => exact .inr (heq.1 ▸ hlearn)
  | inr hold => exact .inl ⟨m, hold.2⟩

/-- What is found below an obligation is covered by nothing, since its states are in the frame. -/
theorem Stepped.uncovered {t conc inp pinp : Cube} {pred : ProofObligation}
    (h : R.Stepped trace k target t conc inp pinp) (hlevel : pred.level = k) (hcti : pred.cti = sortCube t) :
    Uncovered trace pred := by
  intro hex
  obtain ⟨d, m, hat, hle, hcovers⟩ := hex
  obtain ⟨x, y, -, hx, -, -, hconc, -⟩ := h.shown.step
  refine hx d m hat (hlevel ▸ hle) (satCube_subset (fun lit hl ↦ h.subset ?_) hconc)
  exact subset_sortCube (hcti ▸ (subset_of_covers hcovers).1 hl)

theorem length_cons_erase {i : ℕ} (hi : i ∈ q) : (i :: q.erase i).length = q.length := by
  rw [List.length_cons, List.length_erase_of_mem hi]
  exact Nat.sub_add_cancel (List.length_pos_of_mem hi)

theorem Budget.raised_le {i top : ℕ} (h : R.Budget top trace obls q n) (hi : i ∈ q)
    (hget : obls[i]? = some obl) (hlt : obl.level < top) : ∀ j ∈ i :: q.erase i, ∀ o,
      (obls.modify i fun o ↦ { o with level := obl.level + 1 })[j]? = some o → o.level ≤ top := by
  intro j hj o ho
  by_cases hji : j = i
  · subst hji
    rw [List.getElem?_modify_eq, hget] at ho
    cases ho
    exact hlt
  · rw [List.getElem?_modify_ne _ _ (Ne.symm hji)] at ho
    exact h.le j ((List.mem_cons.mp hj).elim (fun heq ↦ heq ▸ hi) List.mem_of_mem_erase) o ho

theorem Budget.below_added {i top : ℕ} (pred : ProofObligation) (change : ProofObligation → ProofObligation)
    (h : R.Budget top trace obls q (n + 1)) (hi : i ∈ q) (hget : obls[i]? = some obl)
    (hlow : Lowest obls q obl) (hpos : 0 < obl.level) (hvalid : ∀ j ∈ q, j < obls.length)
    (hlevel : pred.level = obl.level - 1) (hopen : Uncovered trace pred)
    (hchange : ∀ o, (change o).level = o.level) :
    R.Budget top trace ((obls ++ [pred]).modify i change) (i :: obls.length :: q.erase i) n := by
  have hne : obls.length ≠ i := (hvalid i hi).ne'
  refine h.below hi hget hlow hpos hlevel hopen (j := obls.length) ?_ ?_
    (List.mem_cons_of_mem _ List.mem_cons_self) fun k hk hkj o ho ↦ ?_
  · rw [List.getElem?_modify_ne _ _ hne.symm]
    exact List.getElem?_concat_length
  · rw [List.length_cons, List.length_cons, ← length_cons_erase hi, List.length_cons]
  · have hmem : k ∈ q := by
      cases List.mem_cons.mp hk with
      | inl heq => exact heq ▸ hi
      | inr hk => exact List.mem_of_mem_erase ((List.mem_cons.mp hk).resolve_left hkj)
    have hold : (obls ++ [pred])[k]? = obls[k]? := List.getElem?_append_left (hvalid k hmem)
    by_cases hki : k = i
    · subst hki
      rw [List.getElem?_modify_eq, hold, hget] at ho
      cases ho
      exact ⟨k, hmem, obl, hget, hchange obl⟩
    · rw [List.getElem?_modify_ne _ _ (Ne.symm hki), hold] at ho
      exact ⟨k, hmem, o, ho, rfl⟩

theorem Good.with_obls (h : R.Good st) (obls : List ProofObligation) : R.Good { st with obls := obls } :=
  ⟨⟨h.cons, h.lift, h.tr_eq, h.kept, h.lemmas⟩, h.sem⟩

theorem goes_modify_bind {α : Type} {i : ℕ} {change : ProofObligation → ProofObligation}
    {f : Unit → IC3M α} {post : α → IC3Solver → Prop}
    (h : R.Goes post fail (f ()) { st with obls := st.obls.modify i change }) :
    R.Goes post fail (modifyObligation i change >>= f) st := h

theorem goes_new_bind {α : Type} {f : ℕ → IC3M α} {post : α → IC3Solver → Prop}
    (h : R.Goes post fail (f st.obls.length) { st with obls := st.obls ++ [obl] }) :
    R.Goes post fail (newObligation obl >>= f) st := h

theorem buildCex_first {i : ℕ} (hget : obls[i]? = some obl) :
    ∃ first rest, buildCex obls obls.length (some i) = first :: rest ∧
      first.state = sortCube obl.concreteState := by
  cases hlen : obls.length with
  | zero =>
    rw [List.eq_nil_of_length_eq_zero hlen] at hget
    exact nomatch hget
  | succ n =>
    unfold buildCex
    rw [hget]
    exact ⟨_, _, rfl, rfl⟩

theorem blockQueue_goes (hf : R.Allows fail)
    (hfuel : fail .outOfFuel ∨ R.sound ∧ R.Budget targetLevel st.trace st.obls q n) (h : R.Good st)
    (hq : R.Search target targetLevel base st.trace st.obls q) :
    R.Goes (fun r st' ↦ R.Searched st target targetLevel r st' ∧ (R.sound → R.Grown st.trace st'.trace))
      fail (blockQueue R.E targetLevel n q) st := by
  induction n generalizing st q with
  | zero => exact Journal.goes_throw (hfuel.resolve_right fun hno ↦ hno.2.not_zero)
  | succ n ih =>
    unfold blockQueue
    refine Journal.goes_get_bind ?_
    by_cases hempty : q = []
    · subst hempty
      refine Journal.goes_pure ⟨⟨h, rfl, .refl _, fun _ ↦ nofun, fun hs _ ↦ ?_⟩, fun _ ↦ .refl _⟩
      refine (hq.root hs).resolve_right fun hex ↦ ?_
      obtain ⟨i, hi, -⟩ := hex
      exact List.not_mem_nil hi
    obtain ⟨i, obl, hpop, hi, hget, hlow⟩ := popObligation_spec R.E hempty fun i hi ↦ (hq.valid i hi).2
    rw [hpop]
    dsimp only
    obtain ⟨hbase, hlt⟩ := hq.valid i hi
    obtain ⟨hover, hmay⟩ := hq.plain i obl hbase hget
    have howed := fun hs ↦ hq.owed hs i obl hbase hget
    refine Journal.goes_emit_bind (fun _ ↦ ⟨h.toRep, fun _ ↦ h, fun hs o heq hpos ↦ ?_⟩) fun _ ↦ ?_
    · cases heq
      exact ((howed hs).handled hpos).initiated
    refine goes_check_bind hf (fun _ ↦ beq_iff_eq.mpr hmay) fun _ ↦ ?_
    refine goes_check_bind hf (fun hs ↦ isSorted_of_lt (howed hs).sorted) fun hsorted ↦ ?_
    by_cases hzero : obl.level = 0
    · rw [if_pos hzero]
      refine Journal.goes_pure ⟨⟨h, rfl, .refl _, fun hs cex heq ↦ ?_, nofun⟩, fun _ ↦ .refl _⟩
      obtain ⟨x, hx, hcti, hshown⟩ := (howed hs).hits hzero
      obtain ⟨first, rest, hcex, hstate⟩ := buildCex_first hget
      refine ⟨x, first, rest, (Option.some_injective _ heq).symm.trans hcex, hx, ?_, ?_⟩
      · exact hstate ▸ hshown.sorted
      · exact (howed hs).leads 0 x (.start hx) hcti
    rw [if_neg hzero]
    have hpos := Nat.pos_of_ne_zero hzero
    have hhandled := fun hs ↦ (howed hs).handled hpos
    refine Journal.goes_lift_bind _ (syntacticBlock_meets h.cons.inv hsorted) fun b hb ↦ ?_
    cases b with
    | true =>
      rw [if_pos rfl]
      refine ih (hfuel.imp_right fun hn ↦ ⟨hn.1, hn.2.covered hi hget hlow fun hno ↦ hno (hb.mp rfl)⟩) h ?_
      exact hq.done hget (.refl _) fun _ _ ↦ covered_of_covers (hb.mp rfl)
    | false =>
      rw [if_neg Bool.false_ne_true]
      refine (block_goes h hf hover hhandled hpos).bind fun r st₁ hr ↦ ?_
      obtain ⟨hasked, hr⟩ := hr
      have hup := hasked.upward
      rw [← hasked.trace, ← hasked.obls] at hq
      rw [← hasked.trace] at hb
      rw [← hasked.obls] at hget hlt hlow
      rw [← hasked.trace, ← hasked.obls] at hfuel
      cases r with
      | blocked g t =>
        obtain ⟨rfl, hsub, hrel⟩ := hr
        refine goes_check_bind hf (fun _ ↦ decide_eq_true le_rfl) fun _ ↦ ?_
        refine (blocked_goes hasked.good hf hover hhandled hpos (fun hex ↦ nomatch hb.mpr hex) hsub
          fun hs ↦ hasked.trace ▸ hrel hs).bind fun id st₂ hm ↦ ?_
        obtain ⟨hm, hgood, hcovered⟩ := hm
        have hup' := hm.upward hasked.good.cons.inv
        refine hgood.record_bind nofun ?_
        have hafter := hq.up hup'
        have hlearns := fun hs ↦ hm.learns hasked.good.cons.inv (hhandled hs) hsub (hrel hs)
        have hgrown : R.sound → R.Grown st.trace st₂.trace := fun hs ↦ hasked.trace ▸ (hlearns hs).2.1
        have hspent : ∀ obls' q', q'.length ≤ q.length → (R.Budget targetLevel st₁.trace st₁.obls q (n + 1) →
            ∀ j ∈ q', ∀ o, obls'[j]? = some o → o.level ≤ targetLevel) →
            fail .outOfFuel ∨ R.sound ∧ R.Budget targetLevel st₂.trace obls' q' n := by
          refine fun obls' q' hlen hle ↦ hfuel.imp_right fun hn ↦ ⟨hn.1, ?_⟩
          obtain ⟨hlearn, -, hheld⟩ := hlearns hn.1
          refine hn.2.learnt hlen (hle hn.2) hlearn hup' (hn.2.le i hi obl hget) hheld fun hex ↦ ?_
          obtain ⟨m, hat, hle⟩ := hex
          have hcovers := covers_of_subset (hrel hn.1).sorted (hhandled hn.1).sorted hsub
          exact absurd (hb.mpr ⟨t, m, hat, hle, hcovers⟩) Bool.false_ne_true
        rw [← hm.obls] at hafter hget hspent
        have hcons := hm.constraints.trans hasked.constraints
        by_cases hg : obl.level < targetLevel
        · rw [if_pos hg]
          refine goes_modify_bind ?_
          have hchanged := hafter.changed hi hget (fun o ↦ { o with level := obl.level + 1 })
            ⟨hover, hmay⟩ (fun hs ↦ (howed hs).raised (hgood.sem hs) (hcovered hs))
            fun hlevel ↦ absurd hlevel hg.ne
          have hfuel' := hspent _ _ (length_cons_erase hi).le fun hn ↦ hn.raised_le hi hget hg
          refine (ih hfuel' (hgood.with_obls _) hchanged).imp fun r st₃ hr ↦ ?_
          exact ⟨hr.1.after hcons (hup.trans hup'), fun hs ↦ (hgrown hs).trans (hr.2 hs)⟩
        · rw [if_neg hg]
          have hfuel' := hspent st₂.obls (q.erase i) List.erase_sublist.length_le fun hn j hj o ho ↦
            hn.le j (List.mem_of_mem_erase hj) o ho
          refine (ih hfuel' hgood (hafter.done hget (.refl _) fun hs _ ↦ hcovered hs)).imp fun r st₃ hr ↦ ?_
          exact ⟨hr.1.after hcons (hup.trans hup'), fun hs ↦ (hgrown hs).trans (hr.2 hs)⟩
      | predecessor t conc inp pinp =>
        obtain ⟨hlatch, hstep⟩ := hr
        refine goes_new_bind (goes_modify_bind ?_)
        have hadded := hq.added ⟨obl.level - 1, sortCube t, conc, inp, 0, some i⟩
          (hbase.trans hlt.le) ⟨over_of_latches fun lit hl ↦ hlatch lit (subset_sortCube hl), rfl⟩
          fun hs ↦ (howed hs).predecessor hs (hasked.good.sem hs) hpos hlatch (hasked.trace ▸ hstep hs)
        have hchanged := hadded.changed (List.mem_cons_of_mem _ hi)
          ((List.getElem?_append_left hlt).trans hget)
          (fun o ↦ if o.inputs.isEmpty then { o with inputs := pinp } else o) ?_ ?_ ?_
        · rw [List.erase_cons_tail fun heq ↦ hlt.ne' (beq_iff_eq.mp heq)] at hchanged
          have hopen : R.sound → Uncovered st₁.trace ⟨obl.level - 1, sortCube t, conc, inp, 0, some i⟩ :=
            fun hs ↦ (hasked.trace ▸ hstep hs).uncovered rfl rfl
          have hfuel' := hfuel.imp_right fun hn ↦ And.intro hn.1 <|
            Budget.below_added _ (fun o ↦ if o.inputs.isEmpty then { o with inputs := pinp } else o)
              hn.2 hi hget hlow hpos (fun j hj ↦ (hq.valid j hj).2) rfl (hopen hn.1) fun o ↦ by split <;> rfl
          refine (ih hfuel' (hasked.good.with_obls _) hchanged).imp fun r st₃ hr ↦ ?_
          exact ⟨hr.1.after hasked.constraints hup, fun hs ↦ hasked.trace ▸ hr.2 hs⟩
        · split
          · exact ⟨hover, hmay⟩
          · exact ⟨hover, hmay⟩
        · intro hs
          split
          · exact ⟨(howed hs).sorted, (howed hs).nonempty, (howed hs).shape, (howed hs).avoids,
              (howed hs).hits, (howed hs).leads⟩
          · exact howed hs
        · intro _
          split
          · exact ⟨rfl, rfl⟩
          · exact ⟨rfl, rfl⟩

theorem recursiveBlock_goes (hf : R.Allows fail)
    (hfuel : fail .outOfFuel ∨ R.sound ∧ searchBound R.tr targetLevel ≤ n) (h : R.Good st)
    (hover : R.Over target) (hpos : 0 < targetLevel) (hc : R.sound → R.Handled target ∧
      ∀ k x, k < targetLevel → Reach R.Start R.tr.Linked k x → ¬ satCube x target) :
    R.Goes (fun r st' ↦ R.Searched st target targetLevel r st' ∧ (R.sound → R.Grown st.trace st'.trace))
      fail (recursiveBlock R.E n target targetLevel) st := by
  unfold recursiveBlock
  refine goes_new_bind ?_
  let root : ProofObligation := ⟨targetLevel, target, [], [], 0, none⟩
  have hroot : ∀ i o, st.obls.length ≤ i → (st.obls ++ [root])[i]? = some o → o = root := by
    intro i o hi ho
    rw [List.getElem?_append_right hi] at ho
    exact List.mem_singleton.mp (List.mem_of_getElem? ho)
  have hstart : R.Search target targetLevel st.obls.length st.trace (st.obls ++ [root])
      [st.obls.length] := by
    refine ⟨fun i hi ↦ ?_, fun i o hi ho ↦ ?_, fun hs i o hi ho ↦ ?_,
      fun _ ↦ .inr ⟨_, List.mem_cons_self, root, List.getElem?_concat_length, rfl, rfl⟩⟩
    · rw [List.mem_singleton.mp hi, List.length_append, List.length_singleton]
      exact ⟨le_rfl, Nat.lt_succ_self _⟩
    · rw [hroot i o hi ho]
      exact ⟨hover, rfl⟩
    · rw [hroot i o hi ho]
      obtain ⟨hhandled, havoid⟩ := hc hs
      exact ⟨hhandled.sorted, hhandled.nonempty, hhandled.shape, havoid,
        fun hzero ↦ absurd hzero hpos.ne', fun n x hx hcube ↦ ⟨0, x, .start (again_self hx), hcube⟩⟩
  have hbudget : searchBound R.tr targetLevel ≤ n →
      R.Budget targetLevel st.trace (st.obls ++ [root]) [st.obls.length] n :=
    budget_start List.getElem?_concat_length le_rfl
  exact (blockQueue_goes hf (hfuel.imp_right (And.imp_right hbudget)) (h.with_obls _) hstart).imp fun r st' hr ↦
    ⟨hr.1.after rfl (.refl _), hr.2⟩

end Setting

end PME.IC3
