import PME.Lib.Outcome

namespace Outcome

variable {ε σ ι β : Type}

def firstFound (body : σ → ι → Except ε (Option β × σ)) : List ι → σ → Except ε (Option β × σ)
  | [], s => .ok (none, s)
  | i :: is, s => do
    let (r, s) ← body s i
    match r with
    | some x => return (some x, s)
    | none => firstFound body is s

theorem firstFound_singleton (body : σ → ι → Except ε (Option β × σ)) (i : ι) (s : σ) :
    firstFound body [i] s = body s i := by
  unfold firstFound
  cases body s i with
  | error e => rfl
  | ok r =>
    obtain ⟨answer, s'⟩ := r
    cases answer <;> rfl

def Found (found : β → σ → Prop) (inv : σ → Prop) (r : Option β × σ) : Prop :=
  match r.1 with
  | some x => found x r.2
  | none => inv r.2

@[simp] theorem found_some {found : β → σ → Prop} {inv : σ → Prop} {x : β} {s : σ} :
    Found found inv (some x, s) ↔ found x s := Iff.rfl

@[simp] theorem found_none {found : β → σ → Prop} {inv : σ → Prop} {s : σ} :
    Found found inv (none, s) ↔ inv s := Iff.rfl

variable {body : σ → ι → Except ε (Option β × σ)} {fail : ε → Prop} {found : β → σ → Prop}
  {l : List ι} {s : σ}

/-- The invariant speaks of the items that were gone through and found nothing. -/
theorem firstFound_meets (inv : List ι → σ → Prop) (hs : inv [] s)
    (hstep : ∀ done i rest s, done ++ i :: rest = l → inv done s →
      Meets (Found found (inv (done ++ [i]))) fail (body s i)) :
    Meets (Found found (inv l)) fail (firstFound body l s) := by
  have h : ∀ rest done s, done ++ rest = l → inv done s →
      Meets (Found found (inv l)) fail (firstFound body rest s) := by
    intro rest
    induction rest with
    | nil =>
      intro done s hl hinv
      rw [List.append_nil] at hl
      exact hl ▸ hinv
    | cons i rest ih =>
      intro done s hl hinv
      unfold firstFound
      refine (hstep done i rest s hl hinv).bind fun r hr ↦ ?_
      obtain ⟨answer, s'⟩ := r
      cases answer with
      | some x => exact hr
      | none => exact ih (done ++ [i]) s' (by rw [List.append_assoc]; exact hl) hr
  exact h l [] s rfl hs

end Outcome
