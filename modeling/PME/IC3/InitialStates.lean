import PME.IC3.Guarantees

namespace PME.IC3

open Outcome TransitionRelation InductiveTrace IC3Solver

variable {E : Engines} {tr : TransitionRelation} {first : ℕ} {trace : InductiveTrace}
  {st st' : IC3Solver} {s t c orig : Cube} {i j n : ℕ} {x : Assignment}

/-- The initial states, as a solver has them: those of its first frame in which the constraints
hold, as they do in some next state. -/
def InitialState (tr : TransitionRelation) (trace : InductiveTrace) (x : Assignment) : Prop :=
  InFrame trace (.fin 0) x ∧ ∃ y, tr.Linked x y

def DisjointInit (tr : TransitionRelation) (trace : InductiveTrace) (c : Cube) : Prop :=
  ∀ x, InitialState tr trace x → ¬ satCube x c

theorem DisjointInit.superset (h : DisjointInit tr trace c) (hc : c ⊆ t) : DisjointInit tr trace t :=
  fun x hx ht ↦ h x hx (satCube_subset hc ht)

theorem intersects_iff_not_disjointInit : Intersects tr trace (.fin 0) c ↔ ¬ DisjointInit tr trace c := by
  unfold Intersects DisjointInit InitialState
  push Not
  exact exists_congr fun x ↦ ⟨fun ⟨y, hxy, hx, hc⟩ ↦ ⟨⟨hx, y, hxy⟩, hc⟩,
    fun ⟨⟨hx, y, hxy⟩, hc⟩ ↦ ⟨y, hxy, hx, hc⟩⟩

/-- Without constraints these are the initial states of the circuit that no restriction excludes. -/
theorem Session.initialState_iff {C : Circuit} {base restr : List Cube} (h : Session C base restr st)
    (hbase : restr ⊆ base) (hlive : C.Live restr) (hs : C.sound) :
    InitialState C.tr st.trace x ↔ C.tr.IsFrame x ∧ C.Init restr x := by
  have hsem := (h.between.good fun _ ↦ ⟨hbase, hlive⟩).sem hs
  constructor
  · intro hx
    obtain ⟨hframe, y, hxy⟩ := hx
    exact ⟨hxy.fst, ((hsem.start_iff hxy.fst).mpr hframe).1⟩
  · intro hx
    exact ⟨(hsem.start_iff hx.1).mp ⟨hx.2, hx.1⟩,
      Setting.exists_next (R := C.setting restr st) hs hx.1⟩

structure Loaded (E : Engines) (tr : TransitionRelation) (first : ℕ) (st : IC3Solver) : Prop where
  readable : FrameSolver.Readable tr first st.trace
  cons : FrameSolver.Rep E.toBackend tr first st.vars st.trace st.cons

theorem Session.loaded {C : Circuit} {base restr : List Cube} (h : Session C base restr st)
    (hs : C.sound) : Loaded C.E C.tr C.first st := by
  have hrep := h.between.rep
  refine ⟨⟨C.wf, C.owned, fun c ℓ hat lit hl ↦ ?_⟩, hrep.cons⟩
  exact (C.setting restr st).visible hs lit (hrep.lemmas c ℓ hat lit hl)

def IsTarget (tr : TransitionRelation) (c : Cube) : Prop :=
  (∀ lit ∈ c, strip lit ∈ tr.latchIDs) ∨ c = [tr.bad]

theorem IsTarget.visible (h : IsTarget tr orig) (hwf : tr.WellFormed) (hc : c ⊆ orig) :
    ∀ lit ∈ c, Visible tr lit ∧ tr.Mentions (strip lit) := by
  intro lit hl
  cases h with
  | inl hlatch =>
    have hmem := hlatch lit (hc hl)
    refine ⟨visible_latch hwf hmem, ?_⟩
    rw [hwf.latchIDs_eq] at hmem
    obtain ⟨l, hl, heq⟩ := List.mem_map.mp hmem
    exact .inr (.inl ⟨l, hl, .inl heq.symm⟩)
  | inr heq =>
    subst heq
    obtain rfl := List.mem_singleton.mp (hc hl)
    exact ⟨visible_bad hwf, .inr (.inr ⟨_, List.mem_cons_self, rfl⟩)⟩

theorem IsTarget.part (h : IsTarget tr orig) (hc : c ⊆ orig) (hne : c ≠ []) :
    (∃ lit ∈ c, strip lit ∈ tr.latchIDs) ∨ orig ⊆ c := by
  obtain ⟨lit, hl⟩ := List.exists_mem_of_ne_nil c hne
  cases h with
  | inl hlatch => exact .inl ⟨lit, hl, hlatch lit (hc hl)⟩
  | inr heq =>
    subst heq
    obtain rfl := List.mem_singleton.mp (hc hl)
    exact .inr fun l hmem ↦ List.mem_singleton.mp hmem ▸ hl

def Lacking (st : IC3Solver) (e : Failure) : Prop :=
  e = .idsExhausted ∧ FrameSolver.Lacks st.vars st.trace st.cons

namespace Loaded

structure Same (st st' : IC3Solver) : Prop where
  trace : st'.trace = st.trace
  lacks : FrameSolver.Lacks st'.vars st'.trace st'.cons → FrameSolver.Lacks st.vars st.trace st.cons

theorem Same.refl : Same st st := ⟨rfl, id⟩

theorem Same.trans {st'' : IC3Solver} (h : Same st st') (h' : Same st' st'') : Same st st'' :=
  ⟨h'.trace.trans h.trace, fun hl ↦ h.lacks (h'.lacks hl)⟩

abbrev Runs {α : Type} (E : Engines) (tr : TransitionRelation) (first : ℕ) (post : α → Prop)
    (x : IC3M α) (st : IC3Solver) : Prop :=
  Journal.Goes (fun _ ↦ True) (fun _ ↦ True)
    (fun a st' ↦ Loaded E tr first st' ∧ Same st st' ∧ post a) (Lacking st) x st

theorem mayFail (h : Loaded E tr first st) (halive : ∃ x, InitialState tr st.trace x) :
    FrameSolver.MayFail E.toBackend tr st.vars st.trace st.cons (Lacking st) := by
  obtain ⟨x, hx, y, hxy⟩ := halive
  refine ⟨fun hlacks ↦ ⟨rfl, hlacks⟩, fun m hat ↦ ?_, ?_⟩
  · have hle : (Level.fin 0) ≤ m := by
      cases m with
      | fin n => exact Level.fin_le_fin.mpr (Nat.zero_le n)
      | inf => exact Level.le_inf
    exact absurd (fun lit hl ↦ absurd hl List.not_mem_nil) (hx [] m hat hle)
  · refine (computeSimplifiedTR_meets h.readable.wf E.toBackend fun hno ↦ ?_).imp
      fun unrolled hu ↦ hu.nonempty
    have hlink := exists_linked_iff h.readable.wf.toLitsValid h.readable.wf.latches_nodup
      (fun _ _ ↦ True) fun _ _ _ _ _ _ _ ↦ trivial
    obtain ⟨σ, hσ, -⟩ := hlink.mpr ⟨x, y, hxy, trivial⟩
    exact absurd ⟨σ, hσ⟩ hno

theorem known (h : Loaded E tr first st) (hc : ∀ lit ∈ c, Visible tr lit ∧ tr.Mentions (strip lit)) :
    FrameSolver.Known st.vars st.cons c := by
  intro lit hl
  have hlow := h.readable.owned.mentions _ (hc lit hl).2
  refine ⟨hlow.trans_le h.cons.first_le, fun hact ↦ ?_⟩
  exact absurd (h.cons.act _ hact).2.1 (not_le_of_gt hlow)

theorem initiation_runs (h : Loaded E tr first st) (hdisj : DisjointInit tr st.trace orig)
    (halive : ∃ x, InitialState tr st.trace x) (horig : IsTarget tr orig) (hc : c ⊆ orig) :
    Runs E tr first (fun b ↦ b = true ↔ DisjointInit tr st.trace c) (IC3Solver.initiation E c) st := by
  unfold IC3Solver.initiation
  by_cases hnil : c = []
  · subst hnil
    rw [List.isEmpty_nil, if_pos rfl]
    obtain ⟨x, hx⟩ := halive
    refine Journal.goes_pure ⟨h, .refl, nofun, fun hno ↦ ?_⟩
    exact absurd (fun lit hl ↦ absurd hl List.not_mem_nil) (hno x hx)
  rw [if_neg fun hempty ↦ hnil (List.isEmpty_iff.mp hempty)]
  have hvis := horig.visible h.readable.wf hc
  have hmeets := FrameSolver.intersection_meets h.cons h.readable.wf (h.mayFail halive) (c := c)
    (fun hno ↦ absurd hno hnil) (.fin 0) fun m vm fs hq hne hno ↦ ?_
  · have hasks : Runs E tr first (fun b ↦ b = true ↔ ¬ DisjointInit tr st.trace c)
        (ask E fun B vm trace cons ↦ cons.intersection B vm trace (.fin 0) c) st := by
      unfold ask
      refine Journal.goes_get_bind (Journal.goes_lift_bind _ hmeets fun r hr ↦ ?_)
      obtain ⟨b, vm, fs⟩ := r
      obtain ⟨hafter, hb⟩ := hr
      have hiff := hb h.readable (fun lit hl ↦ (hvis lit hl).1) (h.known hvis)
      rw [intersects_iff_not_disjointInit] at hiff
      exact Journal.goes_set_bind (Journal.goes_emit_bind (fun _ ↦ trivial) fun _ ↦
        Journal.goes_pure ⟨⟨h.readable, hafter.rep⟩, ⟨rfl, hafter.newer.lacks_iff.mp⟩, hiff⟩)
    refine hasks.bind fun b st' hb ↦ Journal.goes_pure ⟨hb.1, hb.2.1, ?_⟩
    have hiff : b = true ↔ ¬ DisjointInit tr st.trace c := hb.2.2
    dsimp only
    rw [Bool.not_eq_true', ← Bool.not_eq_true, hiff, not_not]
  · cases horig.part hc hnil with
    | inl hlatch =>
      obtain ⟨lit, hl, hmem⟩ := hlatch
      exact absurd (hq.knows_now lit (List.mem_append_right _ hl)) (hno _ hmem)
    | inr hall =>
      have hex := hq.intersects h.readable fun lit hl ↦ (hvis lit hl).1
      refine absurd (fun x hx hcube ↦ ?_) (intersects_iff_not_disjointInit.mp hex)
      exact hdisj x hx (satCube_subset hall hcube)

theorem check_runs {α : Type} {b : Bool} {f : Unit → IC3M α} {post : α → Prop} (hb : b = true)
    (hf : Runs E tr first post (f ()) st) : Runs E tr first post (check b >>= f) st := by
  refine Journal.goes_lift_bind (fun _ ↦ True) ?_ fun _ _ ↦ hf
  subst hb
  trivial

theorem Runs.bind {α β : Type} {x : IC3M α} {f : α → IC3M β} {post : α → Prop} {q : β → Prop}
    (hx : Runs E tr first post x st) (hf : ∀ a st', Loaded E tr first st' → Same st st' →
      post a → Runs E tr first q (f a) st') : Runs E tr first q (x >>= f) st :=
  Journal.Goes.bind hx fun a st' hr ↦ ((hf a st' hr.1 hr.2.1 hr.2.2).imp fun _ _ hr' ↦
    ⟨hr'.1, hr.2.1.trans hr'.2.1, hr'.2.2⟩).weaken fun _ he ↦ ⟨he.1, hr.2.1.lacks he.2⟩

/-- The loop drops, of what is left of the cube, each literal that the core does not have and that
can be dropped when its turn comes. -/
theorem reinitiateLoop_runs (h : Loaded E tr first st) (hdisj : DisjointInit tr st.trace orig)
    (halive : ∃ x, InitialState tr st.trace x) (horig : IsTarget tr orig) (ht : t ⊆ orig)
    (hm : Merging s t i j n) :
    Runs E tr first (fun u ↦ u = dropEach (DisjointInit tr st.trace) s (t.drop j) t)
      (reinitiateLoop E s n t i j) st := by
  induction n generalizing st t i j with
  | zero => exact absurd hm.pos (Nat.lt_irrefl 0)
  | succ n ih =>
    unfold reinitiateLoop
    by_cases hj : j = t.length
    · rw [if_pos hj]
      refine Journal.goes_pure ⟨h, .refl, ?_⟩
      rw [hj, List.drop_length]
      rfl
    rw [if_neg hj]
    refine check_runs (decide_eq_true (hm.check hj)) ?_
    dsimp only
    by_cases hj' : j + agree s t i j = t.length
    · rw [if_pos hj']
      refine Journal.goes_pure ⟨h, .refl, ?_⟩
      rw [dropEach_of_subset (hm.drop_subset hj')]
    rw [if_neg hj']
    have herase : t.eraseIdx (j + agree s t i j) ⊆ t := List.eraseIdx_subset
    obtain ⟨hdrop, hkeep⟩ := hm.dropEach_next (p := DisjointInit tr st.trace) hj'
    obtain ⟨hnext, hnext'⟩ := hm.next hj'
    -- either the literal is dropped or the place moves on
    have hpass : Runs E tr first (fun r : Cube × ℕ ↦ r.1 ⊆ orig ∧
        Merging s r.1 (i + agree s t i j) r.2 n ∧
        dropEach (DisjointInit tr st.trace) s (t.drop j) t =
          dropEach (DisjointInit tr st.trace) s (r.1.drop r.2) r.1) (do
        if ← IC3Solver.initiation E (t.eraseIdx (j + agree s t i j)) then
          return (t.eraseIdx (j + agree s t i j),
            upperBound (t.eraseIdx (j + agree s t i j)) (t.getD (j + agree s t i j) 0))
        else return (t, j + agree s t i j + 1)) st := by
      refine (h.initiation_runs hdisj halive horig (List.Subset.trans herase ht)).bind
        fun b st₁ h₁ hsame hb ↦ ?_
      cases b with
      | true => exact Journal.goes_pure ⟨h₁, .refl, List.Subset.trans herase ht, hnext,
          hdrop (hb.mp rfl)⟩
      | false => exact Journal.goes_pure ⟨h₁, .refl, ht, hnext', hkeep fun hp ↦ absurd (hb.mpr hp) Bool.false_ne_true⟩
    refine hpass.bind fun r st₁ h₁ hsame hr ↦ ?_
    have htrace := hsame.trace
    obtain ⟨t', j'⟩ := r
    obtain ⟨ht', hmerging, heq⟩ := hr
    rw [if_neg hmerging.stays, heq, ← htrace]
    exact ih h₁ (htrace ▸ hdisj) (htrace ▸ halive) ht' hmerging

end Loaded

/-- Re-initiation goes through the literals of the cube in their order, and drops each that the
core does not have and that can be dropped from the cube held when its turn comes. The result has
the literals of the core, and is disjoint from the initial states, but no longer so without any
one of its other literals. -/
theorem reinitiate_drops (h : Loaded E tr first st) (horig : orig.Pairwise (· < ·))
    (htarget : IsTarget tr orig) (hdisj : DisjointInit tr st.trace orig) (hs : s.Pairwise (· < ·))
    (hsub : s ⊆ orig) (hmeets : ¬ DisjointInit tr st.trace s) :
    Meets (fun r ↦ r.1.Pairwise (· < ·) ∧ s ⊆ r.1 ∧ r.1 ⊆ orig ∧ DisjointInit tr st.trace r.1 ∧
        r.1 = dropEach (DisjointInit tr st.trace) s orig orig ∧
        (∀ a lit b, orig = a ++ lit :: b → lit ∉ s → (lit ∈ r.1 ↔
          ¬ DisjointInit tr st.trace ((dropEach (DisjointInit tr st.trace) s a orig).erase lit))) ∧
        ∀ lit ∈ r.1, lit ∉ s → ¬ DisjointInit tr st.trace (r.1.erase lit))
      (Lacking st) (reinitiate E s orig st).2 := by
  have halive : ∃ x, InitialState tr st.trace x := by
    by_contra hno
    exact hmeets fun x hx ↦ absurd ⟨x, hx⟩ hno
  have hlt : s.length < orig.length := by
    have hperm := List.subperm_of_subset (nodup_of_lt hs) hsub
    refine lt_of_le_of_ne hperm.length_le fun heq ↦ hmeets ?_
    exact hdisj.superset (hperm.perm_of_length_le heq.ge).symm.subset
  have hruns : Loaded.Runs E tr first (fun u ↦ u = dropEach (DisjointInit tr st.trace) s orig orig)
      (reinitiate E s orig) st := by
    unfold reinitiate
    refine Loaded.check_runs (decide_eq_true hlt) (Loaded.check_runs (isSorted_of_lt hs)
      (Loaded.check_runs (isSorted_of_lt horig) ?_))
    refine (h.initiation_runs hdisj halive htarget (List.Subset.refl _)).bind
      fun b st₁ h₁ hsame₁ hb ↦ Loaded.check_runs (hb.mpr hdisj) ?_
    have htrace₁ := hsame₁.trace
    refine (h₁.reinitiateLoop_runs (htrace₁ ▸ hdisj) (htrace₁ ▸ halive) htarget (List.Subset.refl _)
      (merging_start horig hs hsub)).bind fun u st₂ h₂ hsame₂ hu ↦ ?_
    have htrace₂ := hsame₂.trace
    rw [htrace₁, List.drop_zero] at hu
    rw [htrace₁] at htrace₂
    subst hu
    refine (h₂.initiation_runs (htrace₂ ▸ hdisj) (htrace₂ ▸ halive) htarget
      dropEach_sublist.subset).bind fun b' st₃ h₃ _ hb' ↦ Loaded.check_runs (hb'.mpr ?_) ?_
    · rw [htrace₂]
      exact dropEach_holds hdisj
    · exact Journal.goes_pure ⟨h₃, .refl, rfl⟩
  refine (hruns fun _ _ ↦ trivial).2.imp fun r hr ↦ ?_
  obtain ⟨-, -, hr⟩ := hr
  have hsplit : ∀ a lit b, orig = a ++ lit :: b → lit ∉ s → (lit ∈ r.1 ↔
      ¬ DisjointInit tr st.trace ((dropEach (DisjointInit tr st.trace) s a orig).erase lit)) := by
    intro a lit b heq hlit
    have hnodup := nodup_of_lt horig
    rw [hr]
    have hmem : lit ∈ orig := heq ▸ List.mem_append_right _ List.mem_cons_self
    have hiff := mem_dropEach_iff (p := DisjointInit tr st.trace) (heq ▸ hnodup) hlit hnodup hmem
    rwa [← heq] at hiff
  refine ⟨?_, ?_, ?_, ?_, hr, hsplit, fun lit hl hlit ↦ ?_⟩
  · exact hr ▸ horig.sublist dropEach_sublist
  · exact hr ▸ subset_dropEach hsub
  · exact hr ▸ dropEach_sublist.subset
  · exact hr ▸ dropEach_holds hdisj
  · have hmem : lit ∈ orig := by
      rw [hr] at hl
      exact dropEach_sublist.subset hl
    obtain ⟨a, b, heq⟩ := List.append_of_mem hmem
    intro hno
    refine (hsplit a lit b heq hlit).mp hl (hno.superset ?_)
    have hsub' : r.1.Sublist (dropEach (DisjointInit tr st.trace) s a orig) := by
      have happ : dropEach (DisjointInit tr st.trace) s (a ++ lit :: b) orig = _ := dropEach_append
      rw [← heq] at happ
      rw [hr, happ]
      exact dropEach_sublist
    exact (hsub'.erase lit).subset

theorem disjointInit_of_low {lit : ℕ} (hinit : ∀ x, InitialState threeHigh trace x → threeHigh.IsInit x)
    (hlow : lit ∈ [5, 7, 9]) (hl : lit ∈ c) : DisjointInit threeHigh trace c := by
  intro x hx hc
  have hlatch : ∀ lit ∈ [5, 7, 9], ∃ l ∈ threeHigh.latches, l.reset = idTrue ∧ lit = negate l.id := by
    decide
  obtain ⟨l, hmem, hreset, rfl⟩ := hlatch lit hlow
  have hframe := hx.1
  obtain ⟨hconst, hhigh⟩ : x idFalse = false ∧ x l.id = litVal x l.reset := by
    obtain ⟨-, y, hxy⟩ := hx
    exact ⟨hxy.fst.const, hinit x ⟨hframe, y, hxy⟩ l hmem (by rw [hreset]; decide)⟩
  have heven : ∀ l ∈ threeHigh.latches, l.id % 2 = 0 := by decide
  have hno : litVal x (negate l.id) = true := hc _ hl
  rw [litVal_negate, litVal_of_even (heven l hmem), hhigh, hreset, litVal_idTrue, hconst] at hno
  exact absurd hno (by decide)

/-- Of two literals that are not in the core, the first is dropped. -/
theorem reinitiate_drops_threeHigh : ∃ st, Session (.plain .plain threeHigh_wellFormed owned_threeHigh rfl) [] [] st ∧
    Meets (fun r ↦ r.1 = [6, 9]) (fun _ ↦ False) (reinitiate .plain [6] [5, 6, 9] st).2 := by
  obtain ⟨st, hst, hlacks⟩ : ∃ st,
      IC3Solver.new .three threeHigh = .ok st ∧
      ¬ FrameSolver.Lacks st.vars st.trace st.cons :=
    ⟨_, rfl, by unfold FrameSolver.Lacks; decide⟩
  have h : Session (.plain .plain threeHigh_wellFormed owned_threeHigh rfl) [] [] st :=
    .new VariableManager.inv_three (by decide) hst
  have hiff : ∀ x, InitialState threeHigh st.trace x ↔ threeHigh.IsFrame x ∧ threeHigh.IsInit x ∧ _ :=
    fun x ↦ h.initialState_iff (List.Subset.refl _) (Circuit.live_nil rfl) trivial
  have hlow : ∀ c : Cube, (∃ lit ∈ [5, 7, 9], lit ∈ c) → DisjointInit threeHigh st.trace c :=
    fun c ⟨lit, hlow, hl⟩ ↦ disjointInit_of_low (fun x hx ↦ ((hiff x).mp hx).2.1) hlow hl
  have hhigh : ¬ DisjointInit threeHigh st.trace [6] := by
    obtain ⟨x, hframe, hinit⟩ := exists_initial threeHigh_wellFormed rfl
    refine fun hno ↦ hno x ((hiff x).mpr ⟨hframe, hinit, nofun⟩) (List.forall_mem_singleton.mpr ?_)
    have hval : x 6 = litVal x idTrue := hinit ⟨6, 6, idTrue⟩ (.tail _ (.head _)) (by decide)
    rw [litVal_of_even (by decide), hval, litVal_idTrue, hframe.const]
    rfl
  have htarget : IsTarget threeHigh [5, 6, 9] := .inl (by decide)
  refine ⟨st, h, ((reinitiate_drops (h.loaded trivial) (by decide) htarget
    (hlow _ ⟨5, by decide, by decide⟩) (by decide) (by decide) hhigh).imp fun r hr ↦ ?_).weaken
    fun e he ↦ hlacks he.2⟩
  obtain ⟨hsorted, hcore, hsub, hdisj, -, hsplit, -⟩ := hr
  have hfive : 5 ∉ r.1 := fun hmem ↦
    (hsplit [] 5 [6, 9] rfl (by decide)).mp hmem (hlow [6, 9] ⟨9, by decide, by decide⟩)
  have hnine : 9 ∈ r.1 := by
    by_contra hno
    refine hhigh (hdisj.superset fun lit hl ↦ ?_)
    obtain rfl | rfl | rfl : lit = 5 ∨ lit = 6 ∨ lit = 9 := by simpa using hsub hl
    · exact absurd hl hfive
    · exact List.mem_singleton.mpr rfl
    · exact absurd hl hno
  refine hsorted.eq_of_mem_iff (by decide) fun lit ↦ ⟨fun hl ↦ ?_, fun hl ↦ ?_⟩
  · obtain rfl | hlit := List.mem_cons.mp (hsub hl)
    · exact absurd hl hfive
    · exact hlit
  · obtain rfl | rfl : lit = 6 ∨ lit = 9 := by simpa using hl
    · exact hcore List.mem_cons_self
    · exact hnine


end PME.IC3
