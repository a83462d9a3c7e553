import PME.IC3.Decision

namespace PME.IC3

open Outcome TransitionRelation InductiveTrace IC3Solver FrameSequence Setting

variable {E : Engines} {tr : TransitionRelation} {first : ℕ} {base restr : List Cube} {st : IC3Solver}

/-- What frames are to contain: the first the initial states, frame `n` what is reached in at most
`n` steps, and the last all that is ever reached. -/
structure Circuit.Frames (C : Circuit) (restr : List Cube) (trace : InductiveTrace) : Prop where
  initial : ∀ x, C.tr.IsFrame x → (InFrame trace (.fin 0) x ↔ C.Init restr x)
  within : ∀ n x, Reach (fun x ↦ C.Init restr x ∧ C.tr.IsFrame x) C.tr.Linked n x →
    InFrame trace (.fin n) x ∧ InFrame trace .inf x
  named : ∀ c ℓ, trace.At c ℓ → c ≠ []

theorem Setting.Good.frames {C : Circuit} {s : IC3Solver} (h : (C.setting restr st).Good s)
    (hs : C.sound) : C.Frames restr s.trace := by
  have hsem := h.sem hs
  refine ⟨fun x hx ↦ ?_, fun n x hx ↦ ⟨hsem.reach_fin hx, hsem.reach_inf hx⟩, ?_⟩
  · exact (hsem.start_iff hx).symm.trans (and_iff_left hx)
  · rintro c ℓ hat rfl
    exact hsem.nonempty ℓ hat

/-- In every state that a proof attempt goes through, but for the middle of `pushFrameToInf`, the
frames contain what they are to contain. -/
theorem prove_frames (hwf : tr.WellFormed) (howned : FrameSolver.Owned tr first)
    (hfree : tr.constraints = []) (h : Session (.plain E hwf howned hfree) base restr st)
    (hbase : restr ⊆ base) (hlive : (Circuit.plain E hwf howned hfree).Live restr) (fuel : ℕ) :
    (∀ ev ∈ (prove E fuel st).1, ev.label ≠ .moving →
      (Circuit.plain E hwf howned hfree).Frames restr ev.solver.trace) ∧
    Meets (fun r ↦ (Circuit.plain E hwf howned hfree).Frames restr r.2.trace) (fun _ ↦ True)
      (prove E fuel st).2 := by
  have hgood := h.between.good fun _ ↦ ⟨hbase, hlive⟩
  have hallows : ((Circuit.plain E hwf howned hfree).setting restr st).Allows fun _ ↦ True :=
    ⟨trivial, fun _ _ ↦ trivial⟩
  have hgoes : ((Circuit.plain E hwf howned hfree).setting restr st).Goes _ _ (prove E fuel) st :=
    prove_goes hgood hallows trivial fun _ _ ↦ trivial
  obtain ⟨hsafe, hmeets⟩ := hgoes fun ev _ hno ↦ hno.elim
  exact ⟨fun ev hev hlabel ↦ ((hsafe ev hev).good hlabel).frames trivial,
    hmeets.imp fun r hr ↦ hr.good.frames trivial⟩

theorem handOver_frames : ∃ st, Session (.plain .plain handOver_wellFormed owned_handOver rfl) [[6]] [[6]] st ∧
    (∀ ev ∈ (prove .plain 9 st).1, ev.label ≠ .moving →
      (Circuit.plain .plain handOver_wellFormed owned_handOver rfl).Frames [[6]] ev.solver.trace) ∧
    Meets (fun r ↦ (Circuit.plain .plain handOver_wellFormed owned_handOver rfl).Frames [[6]] r.2.trace)
      (fun _ ↦ True) (prove .plain 9 st).2 := by
  obtain ⟨st, h⟩ := session_handOver (C := .plain .plain handOver_wellFormed owned_handOver rfl) rfl rfl
  exact ⟨st, h, prove_frames handOver_wellFormed owned_handOver rfl h (List.Subset.refl _)
    (live_handOver rfl) 9⟩

/-- A circuit without constraints, in runs in which no step of generalization puts back the literal
that it has dropped. -/
def Circuit.careful (E : Engines) (hwf : tr.WellFormed) (howned : FrameSolver.Owned tr first)
    (hfree : tr.constraints = []) : Circuit where
  E := E
  tr := tr
  first := first
  strict := True
  sound := True
  wf := hwf
  owned := howned
  free _ := hfree

def KeepsDropped (evs : List Event) : Prop := ∀ ev ∈ evs, ∀ lit s, ev.label = .dropped lit s → lit ∉ s

/-- The clauses are an inductive strengthening: they hold initially, steps keep them, and no frame
that meets them is bad. -/
structure Circuit.Certificate (C : Circuit) (restr : List Cube) (proof : ClauseVec) : Prop where
  initiation : ∀ x, C.tr.IsFrame x → C.Init restr x → satClauses x proof
  consecution : ∀ x y, C.tr.Linked x y → satClauses x proof → satClauses y proof
  safety : ∀ x, C.tr.IsFrame x → satClauses x proof → litVal x C.tr.bad = false

theorem satClauses_proof {trace : InductiveTrace} {proof : ClauseVec} {x : Assignment}
    (h : ∀ cls, cls ∈ proof ↔ ∃ c, trace.At c .inf ∧ cls = negateVec c) :
    satClauses x proof ↔ InFrame trace .inf x := by
  constructor
  · intro hsat c m hat hle
    obtain rfl := eq_inf hle
    exact (satClause_negateVec c).mp (hsat _ ((h _).mpr ⟨c, hat, rfl⟩))
  · intro hframe cls hcls
    obtain ⟨c, hat, rfl⟩ := (h cls).mp hcls
    exact (satClause_negateVec c).mpr (hframe c .inf hat le_rfl)

/-- When the frames follow from one another, the clauses that always hold are a certificate. -/
theorem Setting.Answers.certificate {C : Circuit} {r : SafetyResult} {st' : IC3Solver}
    (h : (C.setting restr st).Answers st [C.tr.bad] r st') (hs : C.sound) (hstrict : C.strict)
    (hsafe : r.result = .safe) : C.Certificate restr r.proof := by
  have hsem := h.good.sem hs
  have hproof : ∀ x, satClauses x r.proof ↔ InFrame st'.trace .inf x := fun x ↦
    satClauses_proof (h.proof hsafe)
  refine ⟨fun x hx hinit ↦ ?_, fun x y hxy hsat ↦ ?_, fun x hx hsat ↦ ?_⟩
  · exact (hproof x).mpr (hsem.reach_inf (.start (n := 0) ⟨hinit, hx⟩))
  · rw [hproof] at hsat ⊢
    intro c m hat hle
    obtain rfl := eq_inf hle
    exact hsem.holds.next c .inf .inf hat trivial x y (.inl hstrict) hsat hxy
  · have hno := h.closed hs hsafe x hx ((hproof x).mp hsat)
    exact Bool.eq_false_iff.mpr fun hbad ↦ hno fun lit hl ↦ List.mem_singleton.mp hl ▸ hbad

/-- A proof that is returned is an inductive strengthening, unless some step of generalization,
here or in an earlier call, has put back the literal that it has dropped. -/
theorem prove_certifies (hwf : tr.WellFormed) (howned : FrameSolver.Owned tr first)
    (hfree : tr.constraints = []) (h : Session (.careful E hwf howned hfree) base restr st)
    (hbase : restr ⊆ base) (hlive : (Circuit.careful E hwf howned hfree).Live restr) {fuel : ℕ}
    (hfuel : st.fuelBound ≤ fuel) :
    Meets (fun r ↦ KeepsDropped (prove E fuel st).1 →
        (r.1.result = .safe ↔ ¬ (Circuit.careful E hwf howned hfree).Reaches restr [tr.bad]) ∧
        (r.1.result = .safe → (Circuit.careful E hwf howned hfree).Certificate restr r.1.proof))
      (fun e ↦ KeepsDropped (prove E fuel st).1 → (Circuit.careful E hwf howned hfree).Unavoidable restr st e)
      (prove E fuel st).2 := by
  have hends := fun hkept : KeepsDropped (prove E fuel st).1 ↦
    session_proves h trivial hbase hlive hfuel fun ev hev _ ↦ hkept ev hev
  cases hrun : (prove E fuel st).2 with
  | error e => exact fun hkept ↦ (hends hkept).of_error hrun
  | ok r =>
    intro hkept
    have hr := ((hends hkept).of_ok hrun).1
    exact ⟨hr.safe_iff trivial, hr.certificate trivial trivial⟩

theorem handOver_certifies :
    ∃ st, Session (.careful .plain handOver_wellFormed owned_handOver rfl) [[6]] [[6]] st ∧
    Meets (fun r ↦ KeepsDropped (prove .plain st.fuelBound st).1 →
        (r.1.result = .safe ↔
          ¬ (Circuit.careful .plain handOver_wellFormed owned_handOver rfl).Reaches [[6]] [handOver.bad]) ∧
        (r.1.result = .safe →
          (Circuit.careful .plain handOver_wellFormed owned_handOver rfl).Certificate [[6]] r.1.proof))
      (fun e ↦ KeepsDropped (prove .plain st.fuelBound st).1 →
        (Circuit.careful .plain handOver_wellFormed owned_handOver rfl).Unavoidable [[6]] st e)
      (prove .plain st.fuelBound st).2 := by
  obtain ⟨st, h⟩ := session_handOver (C := .careful .plain handOver_wellFormed owned_handOver rfl) rfl rfl
  exact ⟨st, h, prove_certifies handOver_wellFormed owned_handOver rfl h (List.Subset.refl _)
    (live_handOver rfl) le_rfl⟩

end PME.IC3
