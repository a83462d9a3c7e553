import PME.IC3.Generalization

namespace PME.IC3

open Outcome TransitionRelation IC3Solver FrameSequence

namespace Setting

variable {R : Setting} {st st' : IC3Solver} {fail : Failure → Prop} {c pred succ inp pinp : Cube}
  {k level : ℕ} {trace : InductiveTrace} {vm : VariableManager} {fs : FrameSolver}

/-- A solver that has no latch in it cannot tell initial states from others, so that nothing is
bad when they are not. -/
theorem Sem.not_blind (h : R.Sem trace) (hs : R.sound)
    (hrep : FrameSolver.Rep R.E.toBackend R.tr R.first vm trace fs) (hi : fs.solverInited = true)
    (hno : ∀ l ∈ R.tr.latchIDs, l ∉ fs.solver.known) (hbad : strip R.tr.bad ∉ R.tr.latchIDs)
    (hinit : R.Initiated [R.tr.bad]) {x : Assignment} (hx : R.tr.IsFrame x) :
    litVal x R.tr.bad = false := by
  classical
  by_contra hval
  rw [Bool.not_eq_false] at hval
  cases h.alive with
  | inr hex =>
    obtain ⟨d, ℓ, hat, lit, hl, hmem⟩ := hex
    obtain ⟨sent, hsent, hall⟩ := hrep.sent hi
    refine hno _ hmem (hsent.known _ ?_)
    rw [← strip_negate, hsent.clauses]
    refine mem_varsOf (List.mem_append_right _ (List.mem_map_of_mem (hall d ℓ hat))) ?_
    have hneg : negate lit ∈ negateVec d := List.mem_map_of_mem hl
    cases ℓ with
    | inf => exact hneg
    | fin n => exact List.mem_append_left _ hneg
  | inl hex =>
    obtain ⟨x₀, hx₀⟩ := hex
    obtain ⟨y, hxy⟩ := exists_next hs hx
    obtain ⟨x', y', hxy', hlatch, hval'⟩ := hrep.blind hi R.wf hno hbad hxy hval
    let z : Assignment := fun v ↦ if v = idFalse ∨ R.tr.Mentions v ∨ v ∈ R.tr.signals then x' v else x₀ v
    have hin : ∀ v, v = idFalse ∨ R.tr.Mentions v ∨ v ∈ R.tr.signals → z v = x' v := fun v hv ↦ if_pos hv
    have hz : R.tr.IsFrame z :=
      (hxy'.congr_mentioned (hin _ (.inl rfl)) fun v hv ↦ hin v (.inr (.inl hv))).fst
    have hsame : R.tr.SameState x₀ z := by
      intro v hv
      obtain rfl | hmem | hout := hv
      · exact hx₀.2.const.trans hz.const.symm
      · have hsig : v ∈ R.tr.signals := mem_signals.mpr (.inl (List.mem_append_right _ hmem))
        exact (hlatch v hmem).symm.trans (hin v (.inr (.inr hsig))).symm
      · by_cases hconst : v = idFalse
        · subst hconst
          exact hx₀.2.const.trans hz.const.symm
        · exact (if_neg fun hor ↦ hor.elim hconst fun hor ↦ hor.elim hout.1 hout.2).symm
    refine hinit z (hx₀.same hs hsame hz) fun lit hl ↦ ?_
    rw [List.mem_singleton.mp hl, litVal_congr (hin _ (.inr (.inl (.inr (.inr
      ⟨_, List.mem_cons_self, rfl⟩)))))]
    exact hval'

structure Refused (R : Setting) (trace : InductiveTrace) (k : ℕ) (c core : Cube) : Prop where
  nodup : core.Nodup
  relInd : ∀ u, core ⊆ u → u ⊆ c → u ≠ [] → RelInd R.tr trace (.fin k) c u

def Displays (R : Setting) (trace : InductiveTrace) (k : ℕ) (state : Cube) : Prop :=
  ∃ x, R.tr.IsFrame x ∧ InFrame trace (.fin k) x ∧ FrameSolver.Displayed R.tr x state

theorem fullQuery_goes (h : R.Good st) (hf : R.Allows fail) (hover : R.Over c)
    (hc : R.sound → R.Handled c) (k : ℕ) :
    R.Goes (fun r st' ↦ R.Asked st st' ∧ match r with
      | .holds core => core ⊆ c ∧ (R.sound → R.Refused st.trace k c core)
      | .fails pred inp pinp => (∀ lit ∈ pred, strip lit ∈ R.tr.latchIDs) ∧
          (R.sound → pred ≠ [] ∧ Predecessor R.tr st.trace (.fin k) c pred inp pinp ∧
            R.Displays st.trace k pred)) fail
      (ask R.E fun B vm trace cons ↦ cons.consecutionFull B vm trace (.fin k) c) st := by
  refine goes_ask (fun r vm fs ↦ match r with
    | .holds core => ∃ crits, core = extractCoreWithPrimes c crits 1 ∧
        FrameSolver.Queried R.E.toBackend R.tr R.first st.vars st.trace st.cons (.fin k)
          [negateVec c] (primeVec c 1) (.unsat crits) vm fs
    | .fails pred inp pinp => (R.tr.latchIDs ≠ [] → pred ≠ []) ∧
        ∃ m, pred = fs.solver.extract m R.tr.latchIDs 0 ∧
        inp = fs.solver.extract m R.tr.inputIDs 0 ∧ pinp = fs.solver.extract m R.tr.inputIDs 1 ∧
        FrameSolver.Queried R.E.toBackend R.tr R.first st.vars st.trace st.cons (.fin k)
          [negateVec c] (primeVec c 1) (.sat m) vm fs) h (FrameSolver.consecutionFull_meets h.cons R.wf
    (h.faults hf hover fun hs ↦ (hc hs).nonempty) (.fin k) fun m vm fs hq hne hno ↦
      hf.unsound (fun hs ↦ ?_) _) fun r vm fs hr hasked ↦ ⟨hasked, ?_⟩
  · have hknown : ∀ lit ∈ c, strip lit ∈ R.tr.latchIDs → False := by
      intro lit hl hmem
      have hk := hq.knows_extra (negateVec c) List.mem_cons_self (negate lit) (List.mem_map_of_mem hl)
      rw [strip_negate] at hk
      exact hno _ hmem hk
    obtain ⟨lit, hl⟩ := List.exists_mem_of_ne_nil c (hc hs).nonempty
    cases (hc hs).shape with
    | inl hlatch => exact hknown lit hl (hlatch lit hl)
    | inr heq =>
      have hbad : R.tr.bad ∈ c := heq ▸ List.mem_cons_self
      obtain ⟨x, y, hxy, -, hval⟩ := hq.exists_frames (h.readable hs)
      have hfalse := (h.sem hs).not_blind hs hq.toRep hq.inited hno (hknown _ hbad)
        (heq ▸ (hc hs).initiated) hxy.snd
      have htrue := hq.valid.2 _ (List.mem_append_right _ (List.mem_map_of_mem hbad))
      rw [(hval _ (visible_bad R.wf)).2] at hfalse
      exact nomatch hfalse.symm.trans htrue
  · cases r with
    | holds core =>
      obtain ⟨crits, rfl, hq⟩ := hr
      refine ⟨fun lit hl ↦ mem_extractCore hl, fun hs ↦ ?_⟩
      have hvis := (hc hs).isTarget.visible
      refine ⟨hq.nodup_core hvis, fun u hcu huc hne ↦ ?_⟩
      cases (hc hs).shape with
      | inl hlatch =>
        refine hq.relInd (h.readable hs) hvis (h.known hover) fun lit hl hcrit ↦ hcu ?_
        exact mem_extractCore_of_prime hl (R.latch_ge (hlatch lit hl)) (hvis lit hl).1.2 (by decide) hcrit
      | inr heq =>
        refine hq.relInd (h.readable hs) hvis (h.known hover) fun lit hl _ ↦ ?_
        obtain ⟨l, hmem⟩ := List.exists_mem_of_ne_nil u hne
        have hbad := huc hmem
        rw [heq] at hl hbad
        rw [List.mem_singleton.mp hl, ← List.mem_singleton.mp hbad]
        exact hmem
    | fails pred inp pinp =>
      obtain ⟨hne, m, rfl, rfl, rfl, hq⟩ := hr
      refine ⟨fun lit hl ↦ (mem_extract (FrameSolver.latch_var R.wf) hl).1, fun hs ↦ ?_⟩
      have hp := hq.predecessor (h.readable hs) (hc hs).isTarget
      obtain ⟨x₀, y₀, hxy₀, hin₀, hshown, -⟩ := hq.displayed (h.readable hs)
      refine ⟨hne fun hnone ↦ ?_, hp, x₀, hxy₀.fst, hin₀, hshown⟩
      obtain ⟨x, y, hxy, -, -, hcube, -⟩ := hp.step
      have hno : ∀ l, l ∉ R.tr.latchIDs := fun l hl ↦ List.not_mem_nil (hnone ▸ hl)
      obtain ⟨lit, hl⟩ := List.exists_mem_of_ne_nil c (hc hs).nonempty
      cases (hc hs).shape with
      | inl hlatch => exact hno _ (hlatch lit hl)
      | inr heq =>
        have hfalse := (h.sem hs).not_blind hs hq.toRep hq.inited (fun l hl ↦ absurd hl (hno l)) (hno _)
          (heq ▸ (hc hs).initiated) hxy.snd
        have htrue := hcube _ (heq ▸ List.mem_cons_self)
        exact nomatch hfalse.symm.trans htrue

theorem Good.with_lift (h : R.Good st) {ul : UNSATCoreLifter}
    (hl : UNSATCoreLifter.Rep R.E.toBackend R.tr st.trace ul) : R.Good { st with lift := ul } :=
  ⟨⟨h.cons, hl, h.tr_eq, h.kept, h.lemmas⟩, h.sem⟩

theorem liftCube_goes (h : R.Good st) (hf : R.Allows fail)
    (hshown : R.sound → UNSATCoreLifter.Shown R.tr R.first st.trace (.fin k) pred succ inp pinp)
    (hsucc : R.sound → succ ≠ []) :
    R.Goes (fun u st' ↦ R.Asked st st' ∧ u ≠ [] ∧ u ⊆ pred ∧ (R.sound → u.Nodup ∧
      Leads R.tr st.trace u succ inp pinp)) fail (liftCube R.E pred succ inp pinp) st := by
  unfold liftCube
  refine Journal.goes_get_bind ?_
  have hmay := h.mayFail hf
  have hno : ¬ UNSATCoreLifter.Shown R.tr R.first st.trace (.fin k) pred succ inp pinp →
      fail .assertion ∧ fail .exception := fun hno ↦
    ⟨hf.unsound (fun hs ↦ hno (hshown hs)) _, hf.unsound (fun hs ↦ hno (hshown hs)) _⟩
  have hlift : R.Goes (fun (r : Cube × UNSATCoreLifter) st' ↦ st' = st ∧
      UNSATCoreLifter.Rep R.E.toBackend R.tr st.trace r.2 ∧ r.1 ≠ [] ∧ r.1 ⊆ pred ∧
      (R.sound → r.1.Nodup ∧ Leads R.tr st.trace r.1 succ inp pinp)) fail
      (Journal.lift (st.lift.lift R.E.toBackend st.trace pred succ inp pinp)) st := by
    refine Journal.goes_lift ((UNSATCoreLifter.lift_meets h.lift h.cons.inv hno
      (fun hnil ↦ hf.unsound (fun hs ↦ hsucc hs hnil) _) (hmay.empty .inf) hmay.formula).imp
        fun r hr ↦ ?_)
    exact ⟨rfl, hr.1, hr.2.1, hr.2.2.1, fun hs ↦ hr.2.2.2 (hshown hs)⟩
  refine hlift.bind fun r st₁ hr ↦ ?_
  obtain ⟨lifted, ul⟩ := r
  obtain ⟨rfl, hrep, hne, hsub, hsem⟩ := hr
  exact Journal.goes_set_bind (Journal.goes_pure ⟨⟨⟨rfl, rfl⟩, h.with_lift hrep, rfl⟩, hne, hsub, hsem⟩)

structure Stepped (R : Setting) (trace : InductiveTrace) (k : ℕ) (target t conc inp pinp : Cube) :
    Prop where
  shown : Predecessor R.tr trace (.fin k) target conc inp pinp
  displays : R.Displays trace k conc
  subset : t ⊆ conc
  nonempty : t ≠ []
  nodup : t.Nodup
  leads : Leads R.tr trace t target inp pinp

/-- What a result of `block` says. -/
def Answered (R : Setting) (trace : InductiveTrace) (target : Cube) (level : ℕ) : BlockResult → Prop
  | .blocked g t => g = level ∧ t ⊆ target ∧ (R.sound → R.Relative trace (level - 1) t)
  | .predecessor t conc inp pinp => (∀ lit ∈ t, strip lit ∈ R.tr.latchIDs) ∧
      (R.sound → R.Stepped trace (level - 1) target t conc inp pinp)

theorem block_goes {target : Cube} (h : R.Good st) (hf : R.Allows fail) (hover : R.Over target)
    (hc : R.sound → R.Handled target) (hlevel : 0 < level) :
    R.Goes (fun r st' ↦ R.Asked st st' ∧ R.Answered st.trace target level r) fail
      (block R.E target level) st := by
  unfold block
  rw [if_neg hlevel.ne']
  refine (fullQuery_goes h hf hover hc (level - 1)).bind fun r st₁ hr ↦ ?_
  obtain ⟨hasked, hr⟩ := hr
  cases r with
  | holds core =>
    obtain ⟨hsub, href⟩ := hr
    have hsorted : sortCube core ⊆ target := fun l hl ↦ hsub (subset_sortCube hl)
    refine (initiate_goes hasked.good hf hover hsorted fun hs ↦ ⟨(hc hs).allAskable,
      (hc hs).toApart, lt_sortCube (href hs).nodup⟩).bind fun u st₂ hu ↦ ?_
    obtain ⟨hasked₁, hut, hu⟩ := hu
    have hall := hasked.trans hasked₁
    have hrel : R.sound → R.Relative st₂.trace (level - 1) u := by
      intro hs
      obtain ⟨hcu, hapart⟩ := hu hs
      refine ⟨hapart, fun x y _ hx hout hxy ↦ ?_⟩
      rw [hall.trace] at hx
      refine (href hs).relInd u (fun l hl ↦ hcu (InductiveTrace.mem_sortCube.mpr hl)) hut
        hapart.nonempty x y hxy hx fun hin ↦ hout (satCube_subset hut hin)
    refine (generalize_goes hall.good hf (hover.subset hut) hlevel fun hs ↦
      ⟨hrel hs, (hc hs).simple.subset hut (nodup_of_lt (hu hs).2.sorted)⟩).bind fun v st₃ hv ↦ ?_
    obtain ⟨hasked₂, hvu, hv⟩ := hv
    have hall₂ := hall.trans hasked₂
    have hvt := List.Subset.trans hvu hut
    refine (initiation_goes hall₂.good hf (hover.subset hvt) fun hs hne ↦
      (hc hs).allAskable v hvt hne).bind fun b st₄ hb ↦ ?_
    obtain ⟨hasked₃, hb⟩ := hb
    have hcheck : R.Goes (fun _ st' ↦ st' = st₄) fail (check b) st₄ :=
      goes_check hf (fun hs ↦ (hb hs).mpr ⟨(hv hs).nonempty, (hv hs).initiated⟩) fun _ ↦ rfl
    refine hcheck.bind fun _ st₅ heq ↦ ?_
    subst heq
    refine Journal.goes_pure ⟨hall₂.trans hasked₃, rfl, hvt, fun hs ↦ ?_⟩
    rw [← hall.trace]
    exact hv hs
  | fails pred inp pinp =>
    obtain ⟨hlatch, hpred⟩ := hr
    have hcheck : R.Goes (fun _ st' ↦ st' = st₁) fail (check (!pred.isEmpty)) st₁ :=
      goes_check hf (fun hs ↦ by simpa using (hpred hs).1) fun _ ↦ rfl
    refine hcheck.bind fun _ st₂ heq ↦ ?_
    subst heq
    refine (liftCube_goes (k := level - 1) hasked.good hf (fun hs ↦ ?_) fun hs ↦
      (hc hs).nonempty).bind fun u st₃ hu ↦ ?_
    · obtain ⟨hne, hp, -⟩ := hpred hs
      exact ⟨hasked.good.readable hs, (hc hs).isTarget, hasked.trace ▸ hp, hne⟩
    obtain ⟨hasked₁, hne, hsub, hu⟩ := hu
    have hcheck' : R.Goes (fun _ st' ↦ st' = st₃) fail (check (!u.isEmpty)) st₃ :=
      goes_check hf (fun _ ↦ by simpa using hne) fun _ ↦ rfl
    refine hcheck'.bind fun _ st₄ heq ↦ ?_
    subst heq
    refine Journal.goes_pure ⟨hasked.trans hasked₁, fun lit hl ↦ hlatch lit (hsub hl), fun hs ↦ ?_⟩
    obtain ⟨hnodup, hleads⟩ := hu hs
    rw [hasked.trace] at hleads
    exact ⟨(hpred hs).2.1, (hpred hs).2.2, hsub, hne, hnodup, hleads⟩

end Setting

end PME.IC3
