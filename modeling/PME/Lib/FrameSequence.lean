import Mathlib.Tactic

namespace FrameSequence

variable {α γ L : Type*} [LinearOrder L]

def Frame (sat : α → γ → Prop) (lemmas : γ → L → Prop) (ℓ : L) (x : α) : Prop :=
  ∀ c m, lemmas c m → ℓ ≤ m → ¬ sat x c

inductive Reach (init : α → Prop) (step : α → α → Prop) : ℕ → α → Prop
  | start {n : ℕ} {x : α} : init x → Reach init step n x
  | step {n : ℕ} {x y : α} : Reach init step n x → step x y → Reach init step (n + 1) y

inductive Via (init : α → Prop) (step : α → α → Prop) (within : α → Prop) : α → Prop
  | start {x : α} : init x → Via init step within x
  | step {x y : α} : Via init step within x → within x → step x y → Via init step within y

/-- Every lemma follows from the frame before its level: from all of the states in it, or, if
not strictly, from those that can be reached within it. -/
structure Holds (strict : Prop) (init : α → Prop) (step : α → α → Prop) (before : L → L → Prop)
    (sat : α → γ → Prop) (lemmas : γ → L → Prop) : Prop where
  initial : ∀ c ℓ, lemmas c ℓ → ∀ x, init x → ¬ sat x c
  next : ∀ c ℓ p, lemmas c ℓ → before p ℓ → ∀ x y, strict ∨ Via init step (Frame sat lemmas p) x →
    Frame sat lemmas p x → step x y → ¬ sat y c

variable {strict : Prop} {init : α → Prop} {step : α → α → Prop} {before : L → L → Prop}
  {sat : α → γ → Prop} {lemmas lemmas' : γ → L → Prop} {c core : γ} {ℓ m p : L} {x y : α} {n k : ℕ}

theorem Frame.mono (h : Frame sat lemmas ℓ x) (hle : ℓ ≤ m) : Frame sat lemmas m x :=
  fun c k hc hk ↦ h c k hc (hle.trans hk)

theorem Reach.mono (h : Reach init step n x) (hle : n ≤ k) : Reach init step k x := by
  induction h generalizing k with
  | start hx => exact .start hx
  | step _ hxy ih =>
    obtain ⟨k, rfl⟩ : ∃ j, k = j + 1 := ⟨k - 1, by omega⟩
    exact .step (ih (by omega)) hxy

theorem Reach.imp {init' : α → Prop} (h : Reach init step n x) (hi : ∀ x, init x → init' x) :
    Reach init' step n x := by
  induction h with
  | start hx => exact .start (hi _ hx)
  | step _ hxy ih => exact .step ih hxy

theorem Via.mono {within within' : α → Prop} (h : Via init step within x)
    (hle : ∀ x, within x → within' x) : Via init step within' x := by
  induction h with
  | start hx => exact .start hx
  | step _ hx hxy ih => exact .step ih (hle _ hx) hxy

/-- What follows from a set without a cube, the cube included, is not reached within the set. -/
theorem Via.not_sat {within : α → Prop} (h : Via init step within x)
    (hinit : ∀ x, init x → ¬ sat x c)
    (hstep : ∀ x y, step x y → within x → ¬ sat x c → ¬ sat y core)
    (hcore : ∀ x, sat x c → sat x core) : ¬ sat x c := by
  induction h with
  | start hx => exact hinit _ hx
  | step _ hx hxy ih => exact fun hc ↦ hstep _ _ hxy hx ih (hcore _ hc)

theorem Holds.weaken (h : Holds strict init step before sat lemmas) :
    Holds False init step before sat lemmas :=
  ⟨h.initial, fun c ℓ p hc hp x y hx ↦ h.next c ℓ p hc hp x y (.inr (hx.resolve_left id))⟩

theorem Via.mono_init {init' : α → Prop} {within : α → Prop} (h : Via init step within x)
    (hle : ∀ x, init x → init' x) : Via init' step within x := by
  induction h with
  | start hx => exact .start (hle _ hx)
  | step _ hx hxy ih => exact .step ih hx hxy

theorem Holds.restrict {init' : α → Prop} (h : Holds strict init step before sat lemmas)
    (hle : ∀ x, init' x → init x) : Holds strict init' step before sat lemmas :=
  ⟨fun c ℓ hc x hx ↦ h.initial c ℓ hc x (hle x hx), fun c ℓ p hc hp x y hor ↦
    h.next c ℓ p hc hp x y (hor.imp_right fun hvia ↦ hvia.mono_init hle)⟩

theorem Holds.frame_of_init (h : Holds strict init step before sat lemmas) (hx : init x) :
    Frame sat lemmas ℓ x := fun c m hc _ ↦ h.initial c m hc x hx

theorem Holds.frame_of_reach (h : Holds strict init step before sat lemmas) (level : ℕ → L)
    (hmono : ∀ n, level n ≤ level (n + 1))
    (hbefore : ∀ n m, level (n + 1) ≤ m → ∃ p, before p m ∧ level n ≤ p)
    (hx : Reach init step n x) : Frame sat lemmas (level n) x := by
  have hboth : ∀ p, level n ≤ p → Frame sat lemmas p x ∧ Via init step (Frame sat lemmas p) x := by
    induction hx with
    | start hx => exact fun p _ ↦ ⟨h.frame_of_init hx, .start hx⟩
    | @step n x y _ hxy ih =>
      intro p hp
      obtain ⟨hframe, hvia⟩ := ih p ((hmono n).trans hp)
      refine ⟨fun c m hc hm ↦ ?_, .step hvia hframe hxy⟩
      obtain ⟨q, hq, hle⟩ := hbefore n m (hp.trans hm)
      obtain ⟨hframe, hvia⟩ := ih q hle
      exact h.next c m q hc hq x y (.inr hvia) hframe hxy
  exact (hboth _ le_rfl).1

theorem Frame.of_moved (h : Frame sat lemmas' p x)
    (hup : ∀ c m, lemmas c m → ∃ m', lemmas' c m' ∧ m ≤ m') : Frame sat lemmas p x := by
  intro c m hc hm
  obtain ⟨m', hc', hle⟩ := hup c m hc
  exact h c m' hc' (hm.trans hle)

/-- Lemmas about initial states may be added at a level that nothing comes before. -/
theorem Holds.added (h : Holds strict init step before sat lemmas)
    (hup : ∀ c m, lemmas c m → ∃ m', lemmas' c m' ∧ m ≤ m')
    (hnew : ∀ c m, lemmas' c m → lemmas c m ∨ (∀ x, init x → ¬ sat x c) ∧ ∀ p, ¬ before p m) :
    Holds strict init step before sat lemmas' := by
  refine ⟨fun c ℓ hc ↦ ?_, fun c ℓ p hc hp x y hor hx ↦ ?_⟩
  · cases hnew c ℓ hc with
    | inl hold => exact h.initial c ℓ hold
    | inr hstart => exact hstart.1
  · cases hnew c ℓ hc with
    | inl hold =>
      have hframe : ∀ z, Frame sat lemmas' p z → Frame sat lemmas p z := fun z hz ↦ hz.of_moved hup
      exact h.next c ℓ p hold hp x y (hor.imp_right fun hvia ↦ hvia.mono hframe) (hframe x hx)
    | inr hstart => exact absurd hp (hstart.2 p)

theorem Holds.moved (h : Holds strict init step before sat lemmas)
    (hbefore : ∀ p ℓ, before p ℓ → p ≤ ℓ)
    (hlemmas : ∀ d m, lemmas' d m ↔ (d = c ∧ m = ℓ) ∨ (d ≠ c ∧ lemmas d m))
    (hup : ∀ m, lemmas c m → m ≤ ℓ) (hinit : ∀ x, init x → ¬ sat x c)
    (hnext : ∀ p, before p ℓ → ∀ x y, strict ∨ Via init step (Frame sat lemmas p) x →
      Frame sat lemmas p x → ¬ sat x c → step x y → ¬ sat y c) :
    Holds strict init step before sat lemmas' := by
  have hmoved : ∀ p x, Frame sat lemmas' p x → Frame sat lemmas p x := by
    intro p x hx
    refine hx.of_moved fun d m hd ↦ ?_
    by_cases hdc : d = c
    · subst hdc
      exact ⟨ℓ, (hlemmas d ℓ).mpr (.inl ⟨rfl, rfl⟩), hup m hd⟩
    · exact ⟨m, (hlemmas d m).mpr (.inr ⟨hdc, hd⟩), le_rfl⟩
  refine ⟨fun d m hd ↦ ?_, fun d m p hd hp x y hor hx hxy ↦ ?_⟩
  · cases (hlemmas d m).mp hd with
    | inl heq => exact heq.1 ▸ hinit
    | inr hold => exact h.initial d m hold.2
  · have hold := hor.imp_right fun hvia ↦ hvia.mono (hmoved p)
    cases (hlemmas d m).mp hd with
    | inl heq =>
      obtain ⟨rfl, rfl⟩ := heq
      exact hnext p hp x y hold (hmoved p x hx) (hx d m hd (hbefore p m hp)) hxy
    | inr hd => exact h.next d m p hd.2 hp x y hold (hmoved p x hx) hxy

theorem Holds.promoted (h : Holds strict init step before sat lemmas) {top : L}
    (htop : ∀ m, m ≤ top) (hbefore : ∀ p, before p top → p = top)
    (hlemmas : ∀ d m, lemmas' d m ↔ (m = top ∧ ∃ m', ℓ ≤ m' ∧ lemmas d m') ∨ (m < ℓ ∧ lemmas d m))
    (hnone : ∀ d m, ℓ ≤ m → lemmas d m → ∃ p, before p m ∧ ℓ ≤ p) :
    Holds strict init step before sat lemmas' := by
  have hmoved : ∀ p x, Frame sat lemmas' p x → Frame sat lemmas p x := by
    intro p x hx
    refine hx.of_moved fun d m hd ↦ ?_
    by_cases hm : ℓ ≤ m
    · exact ⟨top, (hlemmas d top).mpr (.inl ⟨rfl, m, hm, hd⟩), htop m⟩
    · exact ⟨m, (hlemmas d m).mpr (.inr ⟨lt_of_not_ge hm, hd⟩), le_rfl⟩
  have hframe : ∀ x, Frame sat lemmas' top x → Frame sat lemmas ℓ x := fun x hx d m hd hm ↦
    hx d top ((hlemmas d top).mpr (.inl ⟨rfl, m, hm, hd⟩)) le_rfl
  refine ⟨fun d m hd ↦ ?_, fun d m p hd hp x y hor hx hxy ↦ ?_⟩
  · cases (hlemmas d m).mp hd with
    | inl hnew =>
      obtain ⟨-, m', -, hd'⟩ := hnew
      exact h.initial d m' hd'
    | inr hold => exact h.initial d m hold.2
  · cases (hlemmas d m).mp hd with
    | inl hnew =>
      obtain ⟨rfl, m', hm', hd'⟩ := hnew
      obtain ⟨q, hq, hle⟩ := hnone d m' hm' hd'
      obtain rfl := hbefore p hp
      refine h.next d m' q hd' hq x y ?_ ((hframe x hx).mono hle) hxy
      exact hor.imp_right fun hvia ↦ hvia.mono fun z hz ↦ (hframe z hz).mono hle
    | inr hold =>
      exact h.next d m p hold.2 hp x y (hor.imp_right fun hvia ↦ hvia.mono (hmoved p))
        (hmoved p x hx) hxy

end FrameSequence
