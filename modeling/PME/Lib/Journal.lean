import PME.Lib.Outcome

open Outcome

/-- A computation on a state that may fail, with a journal of the events it goes through.
The journal is kept when the computation fails. -/
def Journal (e ε σ α : Type) : Type := σ → List e × Except ε (α × σ)

namespace Journal

variable {e ε σ α β : Type}

protected def pure (a : α) : Journal e ε σ α := fun s ↦ ([], .ok (a, s))

protected def bind (x : Journal e ε σ α) (f : α → Journal e ε σ β) : Journal e ε σ β := fun s ↦
  match x s with
  | (es, .error err) => (es, .error err)
  | (es, .ok (a, s')) => (es ++ (f a s').1, (f a s').2)

instance : Monad (Journal e ε σ) where
  pure := Journal.pure
  bind := Journal.bind

def get : Journal e ε σ σ := fun s ↦ ([], .ok (s, s))

def set (s : σ) : Journal e ε σ Unit := fun _ ↦ ([], .ok ((), s))

def throw (err : ε) : Journal e ε σ α := fun _ ↦ ([], .error err)

def lift (x : Except ε α) : Journal e ε σ α := fun s ↦ ([], x.map fun a ↦ (a, s))

def emit (ev : σ → e) : Journal e ε σ Unit := fun s ↦ ([ev s], .ok ((), s))

/-- From this state, as long as the events are as assumed, the events are as guaranteed, and
the computation meets its specification. -/
def Goes (assume guar : e → Prop) (post : α → σ → Prop) (fail : ε → Prop) (x : Journal e ε σ α)
    (s : σ) : Prop :=
  (∀ ev ∈ (x s).1, assume ev) →
    (∀ ev ∈ (x s).1, guar ev) ∧ Meets (fun p ↦ post p.1 p.2) fail (x s).2

variable {assume guar guar' : e → Prop} {post post' : α → σ → Prop} {q : β → σ → Prop}
  {fail fail' : ε → Prop} {s : σ}

theorem goes_pure {a : α} (h : post a s) :
    Goes assume guar post fail (Pure.pure a : Journal e ε σ α) s :=
  fun _ ↦ ⟨fun _ hev ↦ absurd hev List.not_mem_nil, h⟩

theorem goes_throw {err : ε} (h : fail err) :
    Goes assume guar post fail (throw err : Journal e ε σ α) s :=
  fun _ ↦ ⟨fun _ hev ↦ absurd hev List.not_mem_nil, h⟩

theorem goes_set {post : Unit → σ → Prop} {s' : σ} (h : post () s') :
    Goes assume guar post fail (set s') s :=
  fun _ ↦ ⟨fun _ hev ↦ absurd hev List.not_mem_nil, h⟩

theorem goes_emit {post : Unit → σ → Prop} {ev : σ → e} (hg : assume (ev s) → guar (ev s))
    (h : assume (ev s) → post () s) : Goes assume guar post fail (emit ev) s := by
  intro ha
  have hev := ha _ List.mem_cons_self
  refine ⟨fun ev' hev' ↦ ?_, h hev⟩
  obtain rfl := List.mem_singleton.mp hev'
  exact hg hev

theorem goes_lift {x : Except ε α} (h : Meets (fun a ↦ post a s) fail x) :
    Goes assume guar post fail (lift x) s := by
  refine fun _ ↦ ⟨fun _ hev ↦ absurd hev List.not_mem_nil, ?_⟩
  cases x with
  | ok a => exact h
  | error err => exact h

theorem goes_get_bind {f : σ → Journal e ε σ β} (h : Goes assume guar q fail (f s) s) :
    Goes assume guar q fail (get >>= f) s := h

theorem goes_set_bind {f : Unit → Journal e ε σ β} {s' : σ} (h : Goes assume guar q fail (f ()) s') :
    Goes assume guar q fail (set s' >>= f) s := h

theorem Goes.imp {x : Journal e ε σ α} (h : Goes assume guar post fail x s)
    (hp : ∀ a s', post a s' → post' a s') : Goes assume guar post' fail x s :=
  fun ha ↦ ⟨(h ha).1, (h ha).2.imp fun p ↦ hp p.1 p.2⟩

theorem Goes.weaken {x : Journal e ε σ α} (h : Goes assume guar post fail x s)
    (hf : ∀ err, fail err → fail' err) : Goes assume guar post fail' x s :=
  fun ha ↦ ⟨(h ha).1, (h ha).2.weaken hf⟩

theorem Goes.mono {x : Journal e ε σ α} (h : Goes assume guar post fail x s)
    (hg : ∀ ev, guar ev → guar' ev) : Goes assume guar' post fail x s :=
  fun ha ↦ ⟨fun ev hev ↦ hg ev ((h ha).1 ev hev), (h ha).2⟩

theorem Goes.of_error {x : Journal e ε σ α} (h : Goes assume guar post (fun _ ↦ True) x s)
    (hf : ∀ err, (x s).2 = .error err → fail err) : Goes assume guar post fail x s := by
  intro ha
  obtain ⟨hg, hm⟩ := h ha
  refine ⟨hg, ?_⟩
  cases hx : (x s).2 with
  | ok p =>
    rw [hx] at hm
    exact hm
  | error err => exact hf err hx

theorem Goes.and {x : Journal e ε σ α} (h : Goes assume guar post fail x s)
    (h' : Goes assume guar' post' fail' x s) :
    Goes assume (fun ev ↦ guar ev ∧ guar' ev) (fun a s' ↦ post a s' ∧ post' a s')
      (fun err ↦ fail err ∧ fail' err) x s := by
  intro ha
  obtain ⟨hg, hm⟩ := h ha
  obtain ⟨hg', hm'⟩ := h' ha
  refine ⟨fun ev hev ↦ ⟨hg ev hev, hg' ev hev⟩, ?_⟩
  cases hx : (x s).2 with
  | ok p =>
    rw [hx] at hm hm'
    exact ⟨hm, hm'⟩
  | error err =>
    rw [hx] at hm hm'
    exact ⟨hm, hm'⟩

theorem mem_bind {x : Journal e ε σ α} {f : α → Journal e ε σ β} {ev : e} (h : ev ∈ (x s).1) :
    ev ∈ ((x >>= f) s).1 := by
  change ev ∈ (Journal.bind x f s).1
  unfold Journal.bind
  split
  · next heq => rwa [heq] at h
  · next heq => exact List.mem_append_left _ (by rwa [heq] at h)

theorem Goes.bind {x : Journal e ε σ α} {f : α → Journal e ε σ β}
    (hx : Goes assume guar post fail x s)
    (hf : ∀ a s', post a s' → Goes assume guar q fail (f a) s') :
    Goes assume guar q fail (x >>= f) s := by
  have hrun : (x >>= f) s = match x s with
      | (es, .error err) => (es, .error err)
      | (es, .ok (a, s')) => (es ++ (f a s').1, (f a s').2) := rfl
  unfold Goes at *
  rw [hrun]
  generalize x s = r at hx
  obtain ⟨es, out⟩ := r
  intro ha
  cases out with
  | error err => exact hx ha
  | ok p =>
    obtain ⟨a, s'⟩ := p
    have hall := List.forall_mem_append.mp ha
    obtain ⟨hg, hpost⟩ := hx hall.1
    obtain ⟨hg', hq⟩ := hf a s' hpost hall.2
    exact ⟨List.forall_mem_append.mpr ⟨hg, hg'⟩, hq⟩

theorem goes_lift_bind (post : α → Prop) {x : Except ε α} {f : α → Journal e ε σ β}
    (hx : Meets post fail x) (hf : ∀ a, post a → Goes assume guar q fail (f a) s) :
    Goes assume guar q fail (lift x >>= f) s := by
  have hlift : Goes assume guar (fun a s' ↦ s' = s ∧ post a) fail (lift x) s :=
    goes_lift (hx.imp fun _ ha ↦ ⟨rfl, ha⟩)
  refine hlift.bind fun a s' hpost ↦ ?_
  obtain ⟨rfl, ha⟩ := hpost
  exact hf a ha

theorem goes_emit_bind {ev : σ → e} {f : Unit → Journal e ε σ β} (hg : assume (ev s) → guar (ev s))
    (hf : assume (ev s) → Goes assume guar q fail (f ()) s) :
    Goes assume guar q fail (emit ev >>= f) s := by
  have hemit : Goes assume guar (fun _ s' ↦ s' = s ∧ assume (ev s)) fail (emit ev) s :=
    goes_emit hg fun ha ↦ ⟨rfl, ha⟩
  refine hemit.bind fun _ s' hpost ↦ ?_
  obtain ⟨rfl, ha⟩ := hpost
  exact hf ha

/-- A loop over a list keeps an invariant that may speak of the elements already done. -/
theorem goes_forM {l : List α} {f : α → Journal e ε σ PUnit} (inv : List α → σ → Prop) (hs : inv [] s)
    (hstep : ∀ done a rest s, done ++ a :: rest = l → inv done s →
      Goes assume guar (fun _ s' ↦ inv (done ++ [a]) s') fail (f a) s) :
    Goes assume guar (fun _ s' ↦ inv l s') fail (l.forM f) s := by
  have h : ∀ rest done s, done ++ rest = l → inv done s →
      Goes assume guar (fun _ s' ↦ inv l s') fail (rest.forM f) s := by
    intro rest
    induction rest with
    | nil =>
      intro done s hl hinv
      rw [List.append_nil] at hl
      exact goes_pure (hl ▸ hinv)
    | cons a rest ih =>
      intro done s hl hinv
      refine Goes.bind (hstep done a rest s hl hinv) fun _ s' hinv' ↦ ?_
      exact ih (done ++ [a]) s' (by rw [List.append_assoc]; exact hl) hinv'
  exact h l [] s rfl hs

section Climbing

variable {r : σ → σ → Prop} {state : e → σ}

structure Climbs (r : σ → σ → Prop) (state : e → σ) (x : Journal e ε σ α) (s : σ) : Prop where
  pairwise : (s :: (x s).1.map state).Pairwise r
  last : ∀ a s', (x s).2 = .ok (a, s') → ∀ t ∈ s :: (x s).1.map state, r t s'

theorem climbs_throw (err : ε) : Climbs r state (throw err : Journal e ε σ α) s :=
  ⟨List.pairwise_singleton _ _, fun _ _ h ↦ nomatch h⟩

theorem climbs_set {s' : σ} (h : r s s') : Climbs r state (set s' : Journal e ε σ Unit) s := by
  refine ⟨List.pairwise_singleton _ _, fun b s'' heq t ht ↦ ?_⟩
  cases heq
  rw [List.mem_singleton.mp ht]
  exact h

theorem climbs_get_bind {f : σ → Journal e ε σ β} (h : Climbs r state (f s) s) :
    Climbs r state (get >>= f) s :=
  ⟨h.pairwise, h.last⟩

theorem Climbs.imp {r' : σ → σ → Prop} {x : Journal e ε σ α} (h : Climbs r state x s)
    (hr : ∀ t u, r t u → r' t u) : Climbs r' state x s :=
  ⟨h.pairwise.imp (hr _ _), fun a s' ha t ht ↦ hr t s' (h.last a s' ha t ht)⟩

section Refl

variable [Std.Refl r]

theorem climbs_pure (a : α) : Climbs r state (Pure.pure a : Journal e ε σ α) s := by
  refine ⟨List.pairwise_singleton _ _, fun b s' h t ht ↦ ?_⟩
  cases h
  rw [List.mem_singleton.mp ht]
  exact refl_of r s

theorem climbs_emit {ev : σ → e} (h : state (ev s) = s) :
    Climbs r state (emit ev : Journal e ε σ Unit) s := by
  have hall : ∀ t ∈ [s, state (ev s)], t = s := by simp [h]
  refine ⟨?_, fun b s' heq t ht ↦ ?_⟩
  · refine List.pairwise_pair.mpr ?_
    rw [h]
    exact refl_of r s
  · cases heq
    rw [hall t ht]
    exact refl_of r s

theorem climbs_lift (x : Except ε α) : Climbs r state (lift x : Journal e ε σ α) s := by
  refine ⟨List.pairwise_singleton _ _, fun a s' h t ht ↦ ?_⟩
  cases x with
  | error err => exact nomatch h
  | ok b =>
    cases h
    rw [List.mem_singleton.mp ht]
    exact refl_of r s

end Refl

theorem Climbs.bind [IsTrans σ r] {x : Journal e ε σ α} {f : α → Journal e ε σ β} (hx : Climbs r state x s)
    (hf : ∀ a s', (x s).2 = .ok (a, s') → Climbs r state (f a) s') : Climbs r state (x >>= f) s := by
  have hrun : (x >>= f) s = match x s with
      | (es, .error err) => (es, .error err)
      | (es, .ok (a, s')) => (es ++ (f a s').1, (f a s').2) := rfl
  obtain ⟨hpair, hlast⟩ := hx
  cases hxs : x s with
  | mk es out =>
    rw [hxs] at hpair hlast hf
    cases out with
    | error err =>
      refine ⟨?_, fun b s'' h ↦ ?_⟩
      · rw [hrun, hxs]
        exact hpair
      · rw [hrun, hxs] at h
        exact nomatch h
    | ok p =>
      obtain ⟨a, s'⟩ := p
      obtain ⟨hpair', hlast'⟩ := hf a s' rfl
      have hthere := hlast a s' rfl
      obtain ⟨habove, htail⟩ := List.pairwise_cons.mp hpair'
      refine ⟨?_, fun b s'' h t ht ↦ ?_⟩
      · rw [hrun, hxs]
        dsimp only
        rw [List.map_append, ← List.cons_append]
        exact List.pairwise_append.mpr ⟨hpair, htail, fun t ht u hu ↦ trans_of r (hthere t ht) (habove u hu)⟩
      · rw [hrun, hxs] at h ht
        dsimp only at h ht
        rw [List.map_append, ← List.cons_append] at ht
        have hself := hlast' b s'' h
        cases List.mem_append.mp ht with
        | inl hold => exact trans_of r (hthere t hold) (hself s' List.mem_cons_self)
        | inr hnew => exact hself t (List.mem_cons_of_mem _ hnew)

theorem climbs_forM [Std.Refl r] [IsTrans σ r] {l : List α} {f : α → Journal e ε σ PUnit} (h : ∀ a ∈ l, ∀ s, Climbs r state (f a) s) :
    Climbs r state (l.forM f) s := by
  induction l generalizing s with
  | nil => exact climbs_pure _
  | cons a l ih =>
    refine Climbs.bind (h a List.mem_cons_self s) fun _ s' _ ↦ ?_
    exact ih fun b hb ↦ h b (List.mem_cons_of_mem _ hb)

end Climbing

end Journal
