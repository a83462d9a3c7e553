import Mathlib.Tactic

namespace Outcome

variable {ε α β σ ρ : Type}

/-- A computation that may fail meets a specification when a value it returns satisfies
`post` and a failure it ends in is one that `fail` allows. With `fail` always false this is
total correctness, with `fail` always true partial correctness. -/
def Meets (post : α → Prop) (fail : ε → Prop) : Except ε α → Prop
  | .ok a => post a
  | .error e => fail e

variable {post post' : α → Prop} {fail : ε → Prop} {q : β → Prop}

@[simp] theorem meets_ok (a : α) : Meets post fail (.ok a) ↔ post a := Iff.rfl

@[simp] theorem meets_error (e : ε) : Meets post fail (.error e) ↔ fail e := Iff.rfl

@[simp] theorem meets_pure (a : α) : Meets post fail (pure a) ↔ post a := Iff.rfl

@[simp] theorem meets_throw (e : ε) :
    Meets post fail (throw e : Except ε α) ↔ fail e := Iff.rfl

@[simp] theorem ok_bind (a : α) (f : α → Except ε β) : (.ok a >>= f) = f a := rfl

@[simp] theorem error_bind (e : ε) (f : α → Except ε β) : (.error e >>= f) = .error e := rfl

theorem Meets.imp {x : Except ε α} (h : Meets post fail x) (hp : ∀ a, post a → post' a) :
    Meets post' fail x := by
  cases x with
  | ok a => exact hp a h
  | error e => exact h

theorem Meets.weaken {fail' : ε → Prop} {x : Except ε α} (h : Meets post fail x)
    (hf : ∀ e, fail e → fail' e) : Meets post fail' x := by
  cases x with
  | ok a => exact h
  | error e => exact hf e h

theorem Meets.bind {x : Except ε α} {f : α → Except ε β} (hx : Meets post fail x)
    (hf : ∀ a, post a → Meets q fail (f a)) : Meets q fail (x >>= f) := by
  cases x with
  | ok a => exact hf a hx
  | error e => exact hx

/-- Where every failure is allowed, only the values returned matter. -/
theorem meets_of_ok {x : Except ε α} (hf : ∀ e, fail e) (h : ∀ a, x = .ok a → post a) :
    Meets post fail x := by
  cases x with
  | ok a => exact h a rfl
  | error e => exact hf e

theorem meets_any (x : Except ε α) : Meets (fun _ ↦ True) (fun _ ↦ True) x :=
  meets_of_ok (fun _ ↦ trivial) fun _ _ ↦ trivial

theorem Meets.of_ok {x : Except ε α} {a : α} (h : Meets post fail x) (hx : x = .ok a) :
    post a := by
  subst hx
  exact h

theorem Meets.of_error {x : Except ε α} {e : ε} (h : Meets post fail x) (hx : x = .error e) :
    fail e := by
  subst hx
  exact h

theorem post_of_ok {x : Except ε α} {a : α} (h : Meets post (fun _ ↦ True) x) (hx : x = .ok a) :
    post a := h.of_ok hx

theorem Meets.and {x : Except ε α} (h : Meets post fail x) (h' : Meets post' (fun _ ↦ True) x) :
    Meets (fun a ↦ post a ∧ post' a) fail x := by
  cases x with
  | ok a => exact ⟨h, h'⟩
  | error e => exact h

theorem Meets.both {fail' : ε → Prop} {x : Except ε α} (h : Meets post fail x) (h' : Meets post' fail' x) :
    Meets (fun a ↦ post a ∧ post' a) (fun e ↦ fail e ∧ fail' e) x := by
  cases x with
  | ok a => exact ⟨h, h'⟩
  | error e => exact ⟨h, h'⟩

theorem Meets.self {x : Except ε α} (h : Meets post fail x) :
    Meets (fun a ↦ x = .ok a ∧ post a) fail x := by
  cases x with
  | ok a => exact ⟨rfl, h⟩
  | error e => exact h

theorem Meets.exists_ok {x : Except ε α} (h : Meets post (fun _ ↦ False) x) :
    ∃ a, x = .ok a ∧ post a := by
  cases x with
  | ok a => exact ⟨a, rfl, h⟩
  | error e => exact h.elim

theorem bind_eq_ok {x : Except ε α} {f : α → Except ε β} {b : β} :
    (x >>= f) = .ok b ↔ ∃ a, x = .ok a ∧ f a = .ok b := by
  cases x with
  | ok a => exact ⟨fun h ↦ ⟨a, rfl, h⟩, fun ⟨_, ha, h⟩ ↦ by cases ha; exact h⟩
  | error e => exact ⟨fun h ↦ (nomatch h), fun ⟨_, ha, _⟩ ↦ (nomatch ha)⟩

section Lists

variable {f : σ → α → Except ε σ} {l : List α}

theorem foldlM_meets (inv : List α → σ → Prop) (s : σ) (hs : inv [] s)
    (hstep : ∀ done a rest s, done ++ a :: rest = l → inv done s →
      Meets (inv (done ++ [a])) fail (f s a)) : Meets (inv l) fail (l.foldlM f s) := by
  have h : ∀ rest done s, done ++ rest = l → inv done s → Meets (inv l) fail (rest.foldlM f s) := by
    intro rest
    induction rest with
    | nil =>
      intro done s hl hinv
      rw [List.append_nil] at hl
      exact hl ▸ hinv
    | cons a rest ih =>
      intro done s hl hinv
      rw [List.foldlM_cons]
      refine (hstep done a rest s hl hinv).bind fun s' hinv' ↦ ?_
      exact ih (done ++ [a]) s' (by rw [List.append_assoc]; exact hl) hinv'
  exact h l [] s rfl hs

theorem mapM_meets {g : α → Except ε β} {R : α → β → Prop}
    (h : ∀ a ∈ l, Meets (R a) fail (g a)) : Meets (List.Forall₂ R l) fail (l.mapM g) := by
  induction l with
  | nil =>
    rw [List.mapM_nil]
    exact List.Forall₂.nil
  | cons a l ih =>
    rw [List.mapM_cons]
    refine (h a List.mem_cons_self).bind fun b hb ↦ ?_
    refine (ih fun a' ha' ↦ h a' (List.mem_cons_of_mem a ha')).bind fun bs hbs ↦ ?_
    exact List.Forall₂.cons hb hbs

end Lists

def loop (dry : ε) (body : σ → Except ε (σ ⊕ ρ)) : ℕ → σ → Except ε ρ
  | 0, _ => .error dry
  | n + 1, s =>
    match body s with
    | .error e => .error e
    | .ok (.inl s') => loop dry body n s'
    | .ok (.inr r) => .ok r

section Loop

variable {dry : ε} {body : σ → Except ε (σ ⊕ ρ)} {inv : σ → Prop} {done : ρ → Prop}

def Pass {μ : Type*} (lt : μ → μ → Prop) (measure : σ → μ) (inv : σ → Prop) (done : ρ → Prop)
    (s : σ) : σ ⊕ ρ → Prop
  | .inl s' => inv s' ∧ lt (measure s') (measure s)
  | .inr r => done r

theorem loop_succ_meets {n : ℕ} {s : σ}
    (h : Meets (fun r ↦ match r with
      | .inl s' => Meets done fail (loop dry body n s')
      | .inr r => done r) fail (body s)) : Meets done fail (loop dry body (n + 1) s) := by
  simp only [loop]
  match hb : body s with
  | .error e =>
    rw [hb] at h
    exact h
  | .ok (.inl s') =>
    rw [hb] at h
    exact h
  | .ok (.inr r) =>
    rw [hb] at h
    exact h

theorem loop_meets (hdry : fail dry)
    (hbody : ∀ s, inv s → Meets (Pass (fun _ _ ↦ True) (fun _ ↦ ()) inv done s) fail (body s))
    (n : ℕ) (s : σ) (hs : inv s) : Meets done fail (loop dry body n s) := by
  induction n generalizing s with
  | zero => exact hdry
  | succ n ih =>
    refine loop_succ_meets ((hbody s hs).imp fun r hr ↦ ?_)
    cases r with
    | inl s' => exact ih s' hr.1
    | inr r => exact hr

/-- Total correctness with a rank that decreases from pass to pass, and so bounds them. -/
theorem loop_meets_of_rank (inv : ℕ → σ → Prop)
    (hbody : ∀ rank s, inv rank s →
      Meets (fun r ↦ match r with
        | .inl s' => ∃ rank' < rank, inv rank' s'
        | .inr r => done r) fail (body s))
    (n : ℕ) {rank : ℕ} {s : σ} (hs : inv rank s) (hn : rank < n) :
    Meets done fail (loop dry body n s) := by
  induction n generalizing s rank with
  | zero => omega
  | succ n ih =>
    refine loop_succ_meets ((hbody rank s hs).imp fun r hr ↦ ?_)
    cases r with
    | inl s' =>
      obtain ⟨rank', hlt, hs'⟩ := hr
      exact ih hs' (by omega)
    | inr r => exact hr

theorem loop_meets_of_measure (inv : σ → Prop) (measure : σ → ℕ)
    (hbody : ∀ s, inv s → Meets (Pass (· < ·) measure inv done s) fail (body s))
    (n : ℕ) (s : σ) (hs : inv s) (hn : measure s < n) : Meets done fail (loop dry body n s) := by
  have hinv : ∀ rank s, inv s ∧ measure s = rank → Meets (fun r ↦ match r with
      | .inl s' => ∃ rank' < rank, inv s' ∧ measure s' = rank'
      | .inr r => done r) fail (body s) := by
    intro rank s h
    refine (hbody s h.1).imp fun r hr ↦ ?_
    cases r with
    | inl s' => exact ⟨_, h.2 ▸ hr.2, hr.1, rfl⟩
    | inr r => exact hr
  exact loop_meets_of_rank _ hinv n ⟨hs, rfl⟩ hn

end Loop

end Outcome
