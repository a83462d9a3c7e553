import PME.SortingNetwork

namespace PME

open Outcome Comparator

/-- What the clauses say of a wire and the value it should have: with `le` on a one in the
value makes the wire one, with `ge` on the other way round. -/
def Direction (le ge : Bool) (u v : Bool) : Prop :=
  (le = true → u = true → v = true) ∧ (ge = true → v = true → u = true)

theorem compatible_direction (le ge : Bool) : Compatible (Direction le ge) where
  refl a := ⟨fun _ h ↦ h, fun _ h ↦ h⟩
  trans a b c h h' := ⟨fun hl ha ↦ h'.1 hl (h.1 hl ha), fun hg hc ↦ h.2 hg (h'.2 hg hc)⟩
  or a b c d h h' := by
    simp only [Direction, Bool.or_eq_true]
    exact ⟨fun hl ↦ Or.imp (h.1 hl) (h'.1 hl), fun hg ↦ Or.imp (h.2 hg) (h'.2 hg)⟩
  and a b c d h h' := by
    simp only [Direction, Bool.and_eq_true]
    exact ⟨fun hl ↦ And.imp (h.1 hl) (h'.1 hl), fun hg ↦ And.imp (h.2 hg) (h'.2 hg)⟩

def gateCNF (le ge : Bool) : Gate ℕ → ClauseVec
  | .comp x₁ x₂ y₁ y₂ =>
    (if le then [[negate x₁, y₁], [negate x₂, y₁], [negate x₁, negate x₂, y₂]] else []) ++
      (if ge then [[x₁, negate y₂], [x₂, negate y₂], [x₁, x₂, negate y₁]] else [])
  | .or x₁ x₂ y =>
    (if le then [[negate x₁, y], [negate x₂, y]] else []) ++
      (if ge then [[x₁, x₂, negate y]] else [])

theorem satClauses_gateCNF {σ : Assignment} (le ge : Bool) (g : Gate ℕ) :
    satClauses σ (gateCNF le ge g) ↔ g.Holds (Direction le ge) (litVal σ) := by
  cases g with
  | comp x₁ x₂ y₁ y₂ =>
    cases le <;> cases ge <;> simp [gateCNF, Gate.Holds, Direction, satClause_cons] <;> grind
  | or x₁ x₂ y =>
    cases le <;> cases ge <;> simp [gateCNF, Gate.Holds, Direction, satClause_cons] <;> grind

theorem gateCNF_vars {le ge : Bool} {g : Gate ℕ} {cls : Clause} {lit : ℕ}
    (hc : cls ∈ gateCNF le ge g) (hl : lit ∈ cls) : ∃ w ∈ g.wires, strip lit = strip w := by
  cases g with
  | comp x₁ x₂ y₁ y₂ => cases le <;> cases ge <;> simp [gateCNF, Gate.wires] at hc ⊢ <;> grind [strip_negate]
  | or x₁ x₂ y => cases le <;> cases ge <;> simp [gateCNF, Gate.wires] at hc ⊢ <;> grind [strip_negate]

theorem gateCNF_nonempty {le ge : Bool} {g : Gate ℕ} {cls : Clause} (hc : cls ∈ gateCNF le ge g) :
    cls ≠ [] := by
  cases g with
  | comp x₁ x₂ y₁ y₂ => cases le <;> cases ge <;> simp [gateCNF] at hc <;> grind
  | or x₁ x₂ y => cases le <;> cases ge <;> simp [gateCNF] at hc <;> grind

theorem comp_eq {le ge : Bool} (h : (le || ge) = true) (x₁ x₂ y₁ y₂ : ℕ) :
    comp x₁ x₂ y₁ y₂ le ge = .ok (gateCNF le ge (.comp x₁ x₂ y₁ y₂)) := by
  rw [comp, h]
  rfl

theorem partialComp_eq {le ge : Bool} (h : (le || ge) = true) (x₁ x₂ y : ℕ) :
    partialComp x₁ x₂ y le ge = .ok (gateCNF le ge (.or x₁ x₂ y)) := by
  rw [partialComp, h]
  rfl

def Old (n v : ℕ) : Prop := v < n ∨ maxId < v

theorem Old.mono {n n' v : ℕ} (h : Old n v) (hn : n ≤ n') : Old n' v := h.imp (·.trans_le hn) id

def Wire (n n' : ℕ) (ins : List ℕ) (w : ℕ) : Prop := w ∈ ins ∨ n ≤ strip w ∧ strip w < n'

variable {n n₁ n₂ : ℕ} {ins ins' : List ℕ} {gates gates' : List (Gate ℕ)}

theorem Wire.mono {w : ℕ} (h : Wire n n₁ ins w) (hn : n₁ ≤ n₂) : Wire n n₂ ins w := by
  cases h with
  | inl h => exact .inl h
  | inr h => exact .inr ⟨h.1, by omega⟩

theorem Wire.trans {w : ℕ} (h : Wire n₁ n₂ ins' w) (hn : n ≤ n₁) (hn' : n₁ ≤ n₂)
    (hins : ∀ w ∈ ins', Wire n n₁ ins w) : Wire n n₂ ins w := by
  cases h with
  | inl h => exact (hins w h).mono hn'
  | inr h => exact .inr ⟨by omega, h.2⟩

theorem Wire.old {w : ℕ} (h : Wire n n₁ ins w) (hn : n ≤ n₁) (hins : ∀ w ∈ ins, Old n (strip w)) :
    Old n₁ (strip w) := by
  cases h with
  | inl h => exact (hins w h).mono hn
  | inr h => exact .inl h.2

structure Segment (n n' : ℕ) (ins : List ℕ) (gates : List (Gate ℕ)) : Prop where
  le : n ≤ n'
  wires : ∀ g ∈ gates, ∀ w ∈ g.wires, Wire n n' ins w
  extends_ : ∀ σ : Assignment, ∃ τ : Assignment, (∀ v, Old n v → τ v = σ v) ∧
    ∀ g ∈ gates, g.Holds (· = ·) (litVal τ)

theorem Segment.nil (n : ℕ) (ins : List ℕ) : Segment n n ins [] where
  le := le_rfl
  wires := by simp
  extends_ σ := ⟨σ, by simp⟩

theorem Segment.append (h : Segment n n₁ ins gates) (h' : Segment n₁ n₂ ins' gates')
    (hins : ∀ w ∈ ins, Old n (strip w)) (hins' : ∀ w ∈ ins', Wire n n₁ ins w) :
    Segment n n₂ ins (gates ++ gates') where
  le := h.le.trans h'.le
  wires := by
    intro g hg w hw
    cases List.mem_append.mp hg with
    | inl hg => exact (h.wires g hg w hw).mono h'.le
    | inr hg => exact (h'.wires g hg w hw).trans h.le h'.le hins'
  extends_ := by
    intro σ
    obtain ⟨τ, hτ, hgates⟩ := h.extends_ σ
    obtain ⟨τ', hτ', hgates'⟩ := h'.extends_ τ
    refine ⟨τ', fun v hv ↦ (hτ' v (hv.mono h.le)).trans (hτ v hv), fun g hg ↦ ?_⟩
    cases List.mem_append.mp hg with
    | inl hg =>
      refine (Gate.holds_congr fun w hw ↦ ?_).mp (hgates g hg)
      exact litVal_congr (hτ' _ ((h.wires g hg w hw).old h.le hins)).symm
    | inr hg => exact hgates' g hg

theorem Segment.comp {x₁ x₂ : ℕ} (hn : n % 2 = 0) (hmax : n + 4 ≤ maxId + 1) (hx₁ : Old n (strip x₁))
    (hx₂ : Old n (strip x₂)) :
    Segment n (n + 4) [x₁, x₂] [.comp x₁ x₂ n (n + 2)] where
  le := by omega
  wires := by
    intro g hg w hw
    rw [List.mem_singleton] at hg
    subst hg
    have hs : strip n = n := strip_of_even hn
    have hs' : strip (n + 2) = n + 2 := strip_of_even (by omega)
    simp only [Gate.wires, List.mem_cons, List.not_mem_nil, or_false] at hw
    rcases hw with rfl | rfl | rfl | rfl
    · exact .inl (by simp)
    · exact .inl (by simp)
    · exact .inr (by omega)
    · exact .inr (by omega)
  extends_ := by
    intro σ
    let τ : Assignment := fun v ↦
      if v = n then litVal σ x₁ || litVal σ x₂ else
      if v = n + 2 then litVal σ x₁ && litVal σ x₂ else σ v
    have hτ : ∀ v, Old n v → τ v = σ v := by
      intro v hv
      unfold Old at hv
      simp only [τ]
      rw [if_neg (by omega), if_neg (by omega)]
    refine ⟨τ, hτ, fun g hg ↦ ?_⟩
    rw [List.mem_singleton] at hg
    subst hg
    have h₁ : litVal τ x₁ = litVal σ x₁ := litVal_congr (hτ _ hx₁)
    have h₂ : litVal τ x₂ = litVal σ x₂ := litVal_congr (hτ _ hx₂)
    have hy₁ : litVal τ n = (litVal σ x₁ || litVal σ x₂) := by
      rw [litVal_of_even hn]
      simp only [τ, if_true]
    have hy₂ : litVal τ (n + 2) = (litVal σ x₁ && litVal σ x₂) := by
      rw [litVal_of_even (by omega)]
      simp [τ]
    simp only [Gate.Holds, h₁, h₂, hy₁, hy₂, and_self]

theorem Segment.or {x₁ x₂ : ℕ} (hn : n % 2 = 0) (hmax : n + 2 ≤ maxId + 1) (hx₁ : Old n (strip x₁))
    (hx₂ : Old n (strip x₂)) :
    Segment n (n + 2) [x₁, x₂] [.or x₁ x₂ n] where
  le := by omega
  wires := by
    intro g hg w hw
    rw [List.mem_singleton] at hg
    subst hg
    have hs : strip n = n := strip_of_even hn
    simp only [Gate.wires, List.mem_cons, List.not_mem_nil, or_false] at hw
    rcases hw with rfl | rfl | rfl
    · exact .inl (by simp)
    · exact .inl (by simp)
    · exact .inr (by omega)
  extends_ := by
    intro σ
    let τ : Assignment := fun v ↦ if v = n then litVal σ x₁ || litVal σ x₂ else σ v
    have hτ : ∀ v, Old n v → τ v = σ v := by
      intro v hv
      unfold Old at hv
      simp only [τ]
      rw [if_neg (by omega)]
    refine ⟨τ, hτ, fun g hg ↦ ?_⟩
    rw [List.mem_singleton] at hg
    subst hg
    have h₁ : litVal τ x₁ = litVal σ x₁ := litVal_congr (hτ _ hx₁)
    have h₂ : litVal τ x₂ = litVal σ x₂ := litVal_congr (hτ _ hx₂)
    have hy : litVal τ n = (litVal σ x₁ || litVal σ x₂) := by
      rw [litVal_of_even hn]
      simp only [τ, if_true]
    simp only [Gate.Holds, h₁, h₂, hy]

/-- A network over the wires `ins`, built from the state `vm` with at most `bound` new IDs. -/
structure Network (vm : VariableManager) (le ge : Bool) (ins : List ℕ) (bound : ℕ)
    (r : CNFNetwork) (gates : List (Gate ℕ)) : Prop where
  inv : r.vm.Inv
  nextID_le : r.vm.nextID ≤ vm.nextID + 2 * bound
  cnf : r.cnf = gates.flatMap (gateCNF le ge)
  segment : Segment vm.nextID r.vm.nextID ins gates
  outputs : ∀ w ∈ r.outputs, Wire vm.nextID r.vm.nextID ins w

variable {vm : VariableManager} {le ge : Bool} {bound bound' : ℕ} {r r' : CNFNetwork}

theorem Network.nil (h : vm.Inv) (hins : ∀ w ∈ ins', w ∈ ins) :
    Network vm le ge ins 0 ⟨vm, ins', []⟩ [] where
  inv := h
  nextID_le := le_rfl
  cnf := rfl
  segment := Segment.nil _ _
  outputs w hw := .inl (hins w hw)

theorem Network.append (outs : List ℕ) (h : Network vm le ge ins bound r gates)
    (h' : Network r.vm le ge ins' bound' r' gates') (hins : ∀ w ∈ ins, Old vm.nextID (strip w))
    (hins' : ∀ w ∈ ins', Wire vm.nextID r.vm.nextID ins w)
    (houts : ∀ w ∈ outs, w ∈ r.outputs ∨ w ∈ r'.outputs) :
    Network vm le ge ins (bound + bound') ⟨r'.vm, outs, r.cnf ++ r'.cnf⟩ (gates ++ gates') where
  inv := h'.inv
  nextID_le := by
    have h₁ := h.nextID_le
    have h₂ := h'.nextID_le
    dsimp only
    omega
  cnf := by rw [h.cnf, h'.cnf, List.flatMap_append]
  segment := h.segment.append h'.segment hins hins'
  outputs := by
    intro w hw
    cases houts w hw with
    | inl h₁ => exact (h.outputs w h₁).mono h'.segment.le
    | inr h₂ => exact (h'.outputs w h₂).trans h.segment.le h'.segment.le hins'

theorem Network.mono (h : Network vm le ge ins bound r gates) (hins : ins ⊆ ins')
    (hb : bound ≤ bound') : Network vm le ge ins' bound' r gates := by
  have hw : ∀ w, Wire vm.nextID r.vm.nextID ins w → Wire vm.nextID r.vm.nextID ins' w :=
    fun w hw ↦ hw.imp (fun h ↦ hins h) id
  refine ⟨h.inv, ?_, h.cnf, ⟨h.segment.le, ?_, h.segment.extends_⟩, fun w hw' ↦ hw w (h.outputs w hw')⟩
  · have hle := h.nextID_le
    omega
  · intro g hg w hw'
    exact hw w (h.segment.wires g hg w hw')

theorem Network.comp (le ge : Bool) {vm' : VariableManager} (h : vm.Inv) (h' : vm'.Inv)
    (hnext : vm'.nextID = vm.nextID + 4) {x₁ x₂ : ℕ}
    (hx₁ : Old vm.nextID (strip x₁)) (hx₂ : Old vm.nextID (strip x₂)) :
    Network vm le ge [x₁, x₂] 2 ⟨vm', [vm.nextID, vm.nextID + 2],
      gateCNF le ge (.comp x₁ x₂ vm.nextID (vm.nextID + 2))⟩
      [.comp x₁ x₂ vm.nextID (vm.nextID + 2)] where
  inv := h'
  nextID_le := hnext.le
  cnf := by simp
  segment := by
    have hmax := h'.le_maxId
    rw [hnext] at hmax ⊢
    exact Segment.comp h.even hmax hx₁ hx₂
  outputs := by
    intro w hw
    have heven := h.even
    have hs : strip vm.nextID = vm.nextID := strip_of_even heven
    have hs' : strip (vm.nextID + 2) = vm.nextID + 2 := strip_of_even (by omega)
    simp only [List.mem_cons, List.not_mem_nil, or_false] at hw
    cases hw with
    | inl hw => exact .inr (by dsimp only; rw [hw]; omega)
    | inr hw => exact .inr (by dsimp only; rw [hw]; omega)

theorem Network.or (le ge : Bool) {vm' : VariableManager} (h : vm.Inv) (h' : vm'.Inv)
    (hnext : vm'.nextID = vm.nextID + 2) {x₁ x₂ : ℕ}
    (hx₁ : Old vm.nextID (strip x₁)) (hx₂ : Old vm.nextID (strip x₂)) :
    Network vm le ge [x₁, x₂] 1 ⟨vm', [vm.nextID], gateCNF le ge (.or x₁ x₂ vm.nextID)⟩
      [.or x₁ x₂ vm.nextID] where
  inv := h'
  nextID_le := hnext.le
  cnf := by simp
  segment := by
    have hmax := h'.le_maxId
    rw [hnext] at hmax ⊢
    exact Segment.or h.even hmax hx₁ hx₂
  outputs := by
    intro w hw
    have hs : strip vm.nextID = vm.nextID := strip_of_even h.even
    rw [List.mem_singleton] at hw
    exact .inr (by dsimp only; rw [hw]; omega)

variable {fail : Failure → Prop}

theorem getNewID_zero_meets (h : vm.Inv) (hids : maxId < vm.nextID → fail .idsExhausted) :
    Meets (fun r ↦ r.1 = vm.nextID ∧ r.2.nextID = vm.nextID + 2 ∧ r.2.Inv) fail
      (vm.getNewID 0) :=
  (VariableManager.getNewID_meets h (by decide) (by simp) hids).imp fun _ hr ↦
    ⟨hr.id_eq, hr.nextID, hr.inv⟩

structure Layer (pair : ℕ → Result (ℕ × ℕ)) (before : List ℕ) (count : ℕ) (outs : List ℕ)
    (gates : List (Gate ℕ)) : Prop where
  length : outs.length = before.length + 2 * count
  before_eq : ∀ i < before.length, outs[i]? = before[i]?
  pairs : ∀ j < count, ∀ x₁ x₂, pair j = .ok (x₁, x₂) → ∃ y₁ y₂,
    outs[before.length + 2 * j]? = some y₁ ∧ outs[before.length + 2 * j + 1]? = some y₂ ∧
      Gate.comp x₁ x₂ y₁ y₂ ∈ gates

theorem compPairs_meets {pair : ℕ → Result (ℕ × ℕ)} {count : ℕ} (hdir : (le || ge) = true)
    (h : Network vm le ge ins bound r gates) (hins : ∀ w ∈ ins, Old vm.nextID (strip w))
    (hpair : ∀ j < count, ∃ x₁ x₂, pair j = .ok (x₁, x₂) ∧ Wire vm.nextID r.vm.nextID ins x₁ ∧
      Wire vm.nextID r.vm.nextID ins x₂)
    (hids : maxId + 1 < vm.nextID + 2 * (bound + 2 * count) → fail .idsExhausted) :
    Meets (fun r' ↦ r.vm.nextID ≤ r'.vm.nextID ∧
      ∃ gates', Network vm le ge ins (bound + 2 * count) r' (gates ++ gates') ∧
        Layer pair r.outputs count r'.outputs gates') fail (compPairs pair count le ge r) := by
  unfold compPairs
  refine Meets.imp (foldlM_meets (fun done s ↦ r.vm.nextID ≤ s.vm.nextID ∧
    ∃ gates', Network vm le ge ins (bound + 2 * done.length) s (gates ++ gates') ∧
      Layer pair r.outputs done.length s.outputs gates') r ?_ ?_) fun r' hr' ↦ ?_
  · exact ⟨le_rfl, [], by simpa using h, by simp, by simp, by simp⟩
  rotate_left
  · rw [List.length_range] at hr'
    exact hr'
  intro done j rest s hl hs
  obtain ⟨hmono, gates', hnet, hlayer⟩ := hs
  have hj : (List.range count)[done.length]? = some j := by simp [← hl]
  obtain ⟨hlt, hj⟩ := List.getElem?_eq_some_iff.mp hj
  rw [List.getElem_range] at hj
  rw [List.length_range] at hlt
  subst hj
  obtain ⟨x₁, x₂, hp, hx₁, hx₂⟩ := hpair _ hlt
  have hw₁ := hx₁.mono hmono
  have hw₂ := hx₂.mono hmono
  have hlt₁ := hw₁.old hnet.segment.le hins
  have hlt₂ := hw₂.old hnet.segment.le hins
  have hle := hnet.nextID_le
  rw [hp, ok_bind]
  dsimp only
  refine (getNewID_zero_meets hnet.inv fun hmax ↦ hids (by omega)).bind fun y hy ↦ ?_
  obtain ⟨y₁, vm₁⟩ := y
  obtain ⟨rfl, hnext₁, hinv₁⟩ := hy
  dsimp only at hnext₁ hinv₁ ⊢
  have hodd : maxId % 2 = 1 := rfl
  have hev := hnet.inv.even
  refine (getNewID_zero_meets hinv₁ fun hmax ↦ hids (by omega)).bind fun y hy ↦ ?_
  obtain ⟨y₂, vm₂⟩ := y
  obtain ⟨rfl, hnext₂, hinv₂⟩ := hy
  dsimp only at hnext₂ hinv₂ ⊢
  rw [comp_eq hdir, ok_bind, meets_pure, hnext₁]
  have hcomp := Network.comp le ge hnet.inv hinv₂ (by omega) hlt₁ hlt₂
  have happ := hnet.append (s.outputs ++ [s.vm.nextID, s.vm.nextID + 2]) hcomp hins
    (by simp [hw₁, hw₂]) (fun w hw ↦ List.mem_append.mp hw)
  refine ⟨by dsimp only; omega, gates' ++ [.comp x₁ x₂ s.vm.nextID (s.vm.nextID + 2)], ?_, ?_⟩
  · rw [← List.append_assoc]
    exact happ.mono (fun w hw ↦ hw) (by simp; omega)
  have hlen := hlayer.length
  refine ⟨by simp [hlen]; omega, fun i hi ↦ ?_, fun j hj z₁ z₂ hz ↦ ?_⟩
  · dsimp only
    rw [List.getElem?_append_left (by omega)]
    exact hlayer.before_eq i hi
  · rw [List.length_append, List.length_singleton] at hj
    dsimp only
    by_cases hjlt : j < done.length
    · obtain ⟨y₁, y₂, h₁, h₂, hmem⟩ := hlayer.pairs j hjlt z₁ z₂ hz
      refine ⟨y₁, y₂, ?_, ?_, List.mem_append_left _ hmem⟩
      · rw [List.getElem?_append_left (by omega)]
        exact h₁
      · rw [List.getElem?_append_left (by omega)]
        exact h₂
    · obtain rfl : j = done.length := by omega
      rw [hp] at hz
      cases hz
      refine ⟨s.vm.nextID, s.vm.nextID + 2, ?_, ?_, by simp⟩
      · rw [List.getElem?_append_right (by omega), hlen]
        simp
      · rw [List.getElem?_append_right (by omega), hlen]
        rw [show r.outputs.length + 2 * done.length + 1 - (r.outputs.length + 2 * done.length) = 1
          by omega]
        rfl

/-- A layer on the pairs of an odd-even merge computes what such a merge needs. -/
theorem merged_of_layer {R : Bool → Bool → Prop} {v : ℕ → Bool} {pair : ℕ → Result (ℕ × ℕ)}
    {count z₀ : ℕ} {e o outs : List ℕ} (hlayer : Layer pair [z₀] count outs gates)
    (hz₀ : e[0]? = some z₀)
    (hpair : ∀ j < count, ∃ x₁ x₂, pair j = .ok (x₁, x₂) ∧
      (e[j + 1]? = some x₁ ∧ o[j]? = some x₂ ∨ o[j]? = some x₁ ∧ e[j + 1]? = some x₂))
    (hgates : ∀ g ∈ gates, g.Holds R v) (i w : ℕ) (hw : outs[i]? = some w) :
    Merged R v e o i w := by
  have hi : i < outs.length := (List.getElem?_eq_some_iff.mp hw).1
  have hlen : outs.length = 1 + 2 * count := hlayer.length
  by_cases hzero : i = 0
  · subst hzero
    have h := hlayer.before_eq 0 (by simp)
    rw [hw, List.getElem?_cons_zero, Option.some_inj] at h
    exact .first rfl (by rw [hz₀, h])
  obtain ⟨j, hj⟩ : ∃ j, i = 2 * j + 1 ∨ i = 2 * j + 2 := ⟨(i - 1) / 2, by omega⟩
  obtain ⟨x₁, x₂, hp, hx⟩ := hpair j (by omega)
  obtain ⟨y₁, y₂, hy₁, hy₂, hmem⟩ := hlayer.pairs j (by omega) x₁ x₂ hp
  obtain ⟨hor, hand⟩ : R (v x₁ || v x₂) (v y₁) ∧ R (v x₁ && v x₂) (v y₂) := hgates _ hmem
  rw [List.length_singleton, show 1 + 2 * j = 2 * j + 1 by omega] at hy₁ hy₂
  cases hj with
  | inl hj =>
    rw [hj, hy₁, Option.some_inj] at hw
    subst hw
    cases hx with
    | inl hx => exact .larger j x₁ x₂ hj hx.1 hx.2 hor
    | inr hx => exact .larger j x₂ x₁ hj hx.2 hx.1 (by rw [Bool.or_comm]; exact hor)
  | inr hj =>
    rw [hj, hy₂, Option.some_inj] at hw
    subst hw
    cases hx with
    | inl hx => exact .smaller j x₁ x₂ hj hx.1 hx.2 hand
    | inr hx => exact .smaller j x₂ x₁ hj hx.2 hx.1 (by rw [Bool.and_comm]; exact hand)

end PME
