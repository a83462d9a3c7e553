import PME.UnifiedIVCPass

namespace PME

open Outcome Exploration Explored

namespace UnifiedIVCFinder

variable {M F : Type} (ctx : UnifiedIVCContext M F)

def goesDown (f : UnifiedIVCFinder M F) : Bool :=
  ctx.opts.directionDown && (f.seedCount % 2 == 0 || !ctx.opts.directionUp)

def goesUp (f : UnifiedIVCFinder M F) : Bool :=
  ctx.opts.directionUp && (!(f.seedCount % 2 == 0) || !ctx.opts.directionDown)

structure KeepsMinimum (ctx : UnifiedIVCContext M F) (f : UnifiedIVCFinder M F) : Prop where
  right : f.minimumIVC ≠ [] → f.minimumIVC ∈ f.mivcs ∧
    ∀ t ⊆ allGates ctx, Minimal (SafeGates ctx.tr) t → f.minimumIVC.length ≤ t.card
  upOnly : ctx.opts.directionUp = true → ctx.opts.directionDown = false →
    f.minimumIVCKnown = true ∨ f.mivcs = [] ∨ [] ∈ f.mivcs
  noUp : ctx.opts.directionUp = false → f.mivcLB = 0

def Open (f : UnifiedIVCFinder M F) (t : Finset ℕ) : Prop :=
  t ⊆ allGates ctx ∧ satClauses (seedVal t) f.checkMap.map.clauses

/-- An unexplored minimal safe set of a size that a pass declares the minimum: that of the lower
bound or, upwards, the least there is. -/
structure Declarable (f : UnifiedIVCFinder M F) (m : Finset ℕ) : Prop where
  opened : Open ctx f m
  minimal : Minimal (SafeGates ctx.tr) m
  size : m.card = f.mivcLB ∨ goesUp ctx f = true ∧ ∀ t, Open ctx f t → m.card ≤ t.card

/-- When the directions alternate and no minimum is known, no set can be declared that is larger
than one recorded. -/
def Timely (f : UnifiedIVCFinder M F) : Prop :=
  ctx.opts.directionUp = true → ctx.opts.directionDown = true → f.minimumIVCKnown = false →
    ∀ m, Declarable ctx f m → ∀ s ∈ f.mivcs, m.card ≤ s.length

def Misled (f : UnifiedIVCFinder M F) : Prop :=
  ∃ s ∈ f.mivcs, f.minimumIVCKnown = true ∧ s.length < f.minimumIVC.length ∨
    f.minimumIVCKnown = false ∧ ∃ m, Open ctx f m ∧ Minimal (SafeGates ctx.tr) m ∧
      m.card = f.mivcLB ∧ s.length < m.card

variable {ctx} {Rep : (Finset ℕ → Prop) → M → Prop} {CsRep : List (Finset ℕ) → F → Prop}
  {fail : Failure → Prop} {e : Explored ℕ} {f f' : UnifiedIVCFinder M F} {seed : Seed}

theorem goesUp_eq_false_of_down (h : goesDown ctx f = true) : goesUp ctx f = false := by
  unfold goesDown at h
  unfold goesUp
  revert h
  cases ctx.opts.directionDown <;> cases ctx.opts.directionUp <;> cases f.seedCount % 2 == 0 <;> decide

theorem goesUp_of_upOnly (hup : ctx.opts.directionUp = true) (hdown : ctx.opts.directionDown = false) :
    goesUp ctx f = true := by
  unfold goesUp
  rw [hup, hdown, Bool.not_false, Bool.or_true, Bool.and_true]

theorem goesUp_of_noUp (hup : ctx.opts.directionUp = false) : goesUp ctx f = false := by
  unfold goesUp
  rw [hup, Bool.false_and]

theorem Promised.subset_allGates {isMinimal isMaximal : Bool}
    (h : Promised ctx e seed isMinimal isMaximal) : seed.toFinset ⊆ allGates ctx :=
  toFinset_gateSet ▸ seed_subset h.sub

theorem Knows.open_iff (hk : Knows ctx Rep CsRep e f) {t : Finset ℕ} :
    Open ctx f t ↔ t ⊆ allGates ctx ∧ e.Unexplored t := by
  refine and_congr_right fun hbase ↦ (hk.checkMap.fits t ?_).symm
  rw [toFinset_gateSet]
  exact hbase

theorem known_eq_true {f : IVCFinder} : f.minimumIVCKnown = true ↔ f.minimumIVC ≠ [] := by
  unfold IVCFinder.minimumIVCKnown
  rw [Bool.not_eq_true', ← Bool.not_eq_true, List.isEmpty_iff]

theorem Promised.open_shrunk (h : Parts ctx Rep CsRep fail) (hk : Knows ctx Rep CsRep e f)
    {isMinimal isMaximal doShrink : Bool} (hseed : Promised ctx e seed isMinimal isMaximal) {mivc : Seed}
    (hshrunk : Shrunk ctx doShrink seed mivc) : Open ctx f mivc.toFinset := by
  have hle : mivc.toFinset ⊆ seed.toFinset := fun g hg ↦
    List.mem_toFinset.mpr (hshrunk.sub (List.mem_toFinset.mp hg))
  exact hk.open_iff.mpr ⟨hle.trans hseed.subset_allGates,
    hk.sound.unexplored_of_subset h.monotone hseed.unexplored hle hshrunk.minimal.prop⟩

/-- A set that is declared the minimum is no larger than those recorded before. -/
theorem KeepsMinimum.le_of_declared (hk : Knows ctx Rep CsRep e f)
    (hmin : KeepsMinimum ctx f) (htimely : Timely ctx f) (hunknown : f.minimumIVCKnown = false)
    {mivc : Seed} (hnodup : mivc.Nodup) (hopen : Open ctx f mivc.toFinset)
    (hminimal : Minimal (SafeGates ctx.tr) mivc.toFinset)
    (hleast : ∀ t ⊆ allGates ctx, e.Unexplored t → mivc.length ≤ t.card)
    (hlb : goesUp ctx f = true ∨ mivc.length = f.mivcLB) {s : Seed} (hs : s ∈ f.mivcs) :
    mivc.length ≤ s.length := by
  cases hup : ctx.opts.directionUp with
  | false =>
    obtain hyes | hlen := hlb
    · rw [goesUp_of_noUp hup] at hyes
      exact absurd hyes Bool.false_ne_true
    · rw [hlen, hmin.noUp hup]
      exact Nat.zero_le _
  | true =>
    cases hdown : ctx.opts.directionDown with
    | false =>
      obtain hknown | hno | hempty := hmin.upOnly hup hdown
      · rw [hknown] at hunknown
        exact absurd hunknown.symm Bool.false_ne_true
      · exact absurd (hno ▸ hs) List.not_mem_nil
      · exact absurd rfl (hk.nonempty (hk.open_iff.mp hopen).2 _ hempty)
    | true =>
      have hcard : mivc.toFinset.card = mivc.length := List.toFinset_card_of_nodup hnodup
      have hsize : mivc.toFinset.card = f.mivcLB ∨
          goesUp ctx f = true ∧ ∀ t, Open ctx f t → mivc.toFinset.card ≤ t.card := by
        rw [hcard]
        exact hlb.symm.imp_right fun hyes ↦ ⟨hyes, fun t ht ↦ hleast t ht.1 (hk.open_iff.mp ht).2⟩
      have hle := htimely hup hdown hunknown _ ⟨hopen, hminimal, hsize⟩ s hs
      rw [hcard] at hle
      exact hle

theorem KeepsMinimum.step (h : Parts ctx Rep CsRep fail) (hk : Knows ctx Rep CsRep e f)
    (hmin : KeepsMinimum ctx f) (htimely : Timely ctx f)
    (hseed : Promised ctx e seed (goesUp ctx f) (goesDown ctx f))
    (hhandled : Handled ctx Rep CsRep e f seed (goesUp ctx f) (goesDown ctx f) f')
    (hlb : f'.mivcLB = (f.raiseLB seed (goesUp ctx f)).mivcLB) : KeepsMinimum ctx f' := by
  have hnoUp : ctx.opts.directionUp = false → f'.mivcLB = 0 := by
    intro hup
    rw [goesUp_of_noUp hup] at hlb
    exact hlb.trans (hmin.noUp hup)
  cases hhandled with
  | refuted d hle hfull hbad hknows hsame =>
    refine ⟨?_, ?_, hnoUp⟩
    · rw [hsame]
      exact hmin.right
    · rw [hsame]
      exact hmin.upOnly
  | found mivc hshrunk hsafe hknows hmivcs hdeclares =>
    have hmem : ∀ s ∈ f.mivcs, s ∈ f'.mivcs := fun s hs ↦ by
      rw [hmivcs]
      exact List.mem_append_left _ hs
    have hmivc : mivc ∈ f'.mivcs := by
      rw [hmivcs]
      exact List.mem_append_right _ (List.mem_singleton_self mivc)
    cases hknown : f.minimumIVCKnown with
    | true =>
      have hsame := hdeclares.known hknown
      refine ⟨fun hne ↦ ?_, fun _ _ ↦ .inl ?_, hnoUp⟩
      · rw [hsame] at hne ⊢
        exact ⟨hmem _ (hmin.right hne).1, (hmin.right hne).2⟩
      · rw [known_eq_true, hsame, ← known_eq_true]
        exact hknown
    | false =>
      have hnil : f.minimumIVC = [] := by
        by_contra hne
        rw [known_eq_true.mpr hne] at hknown
        exact Bool.false_ne_true hknown.symm
      obtain ⟨heq, hleast, hbound⟩ | ⟨hup, -, hsame⟩ := hdeclares.unknown hknown
      · refine ⟨fun _ ↦ ⟨heq ▸ hmivc, fun t hbase ht ↦ ?_⟩, fun _ _ ↦ ?_, hnoUp⟩
        · rw [heq]
          by_cases hopen : e.Unexplored t
          · exact hleast t hbase hopen
          · have hfound := hk.sound.found_of_minimal h.monotone ht hopen
            rw [← hk.mivcs] at hfound
            obtain ⟨s, hs, rfl⟩ := List.mem_map.mp hfound
            rw [List.toFinset_card_of_nodup (hk.nodup s hs)]
            exact hmin.le_of_declared hk htimely hknown hshrunk.nodup (hseed.open_shrunk h hk hshrunk)
              hshrunk.minimal hleast hbound hs
        · by_cases hempty : mivc = []
          · exact .inr (.inr (hempty ▸ hmivc))
          · exact .inl (known_eq_true.mpr (heq ▸ hempty))
      · refine ⟨fun hne ↦ absurd (hsame.trans hnil) hne, fun hdir hdown ↦ ?_, hnoUp⟩
        rw [goesUp_of_upOnly hdir hdown] at hup
        exact absurd hup.symm Bool.false_ne_true

theorem Declarable.lb_eq (hk : Knows ctx Rep CsRep e f) (hids : IDSet (gateSet ctx)) {m : Finset ℕ}
    (hm : Declarable ctx f m) (hlen : ctx.tr.gateIDs.length < 2 ^ 32)
    (hseed : Promised ctx e seed (goesUp ctx f) (goesDown ctx f)) :
    m.card = (f.raiseLB seed (goesUp ctx f)).mivcLB := by
  have hopen := (hk.open_iff.mp hm.opened).2
  have hunexplored : Open ctx f seed.toFinset := hk.open_iff.mpr ⟨hseed.subset_allGates, hseed.unexplored⟩
  cases hup : goesUp ctx f with
  | false => exact hm.size.resolve_right fun hyes ↦ Bool.false_ne_true (hup.symm.trans hyes.1)
  | true =>
    have hcard : seed.toFinset.card = seed.length :=
      List.toFinset_card_of_nodup (hids.nodup.sublist hseed.sub)
    have hle : seed.length ≤ m.card := hseed.minimal hup m hm.opened.1 hopen
    have hge : m.card ≤ seed.length := by
      rw [← hcard]
      obtain hsize | ⟨-, hleast⟩ := hm.size
      · rw [hsize]
        exact hk.lb _ hseed.subset_allGates hseed.unexplored
      · exact hleast _ hunexplored
    have hfew : m.card ≤ ctx.tr.gateIDs.length :=
      (Finset.card_le_card hm.opened.1).trans (List.toFinset_card_le _)
    have heq : (f.raiseLB seed true).mivcLB = seed.length % 2 ^ 32 := rfl
    rw [heq, Nat.mod_eq_of_lt (by omega)]
    omega

/-- While a set can be declared that is larger than one recorded, nothing else is declared. -/
theorem Declarable.misled (h : Parts ctx Rep CsRep fail) (hk : Knows ctx Rep CsRep e f)
    (hlen : ctx.tr.gateIDs.length < 2 ^ 32) (hunknown : f.minimumIVCKnown = false) {m : Finset ℕ}
    (hm : Declarable ctx f m) {s : Seed} (hs : s ∈ f.mivcs) (hlt : s.length < m.card)
    (hseed : Promised ctx e seed (goesUp ctx f) (goesDown ctx f))
    (hhandled : Handled ctx Rep CsRep e f seed (goesUp ctx f) (goesDown ctx f) f')
    (hlb : f'.mivcLB = (f.raiseLB seed (goesUp ctx f)).mivcLB) : Misled ctx f' := by
  have hopen := (hk.open_iff.mp hm.opened).2
  have hsize : m.card = f'.mivcLB := (hm.lb_eq hk h.map.idSet hlen hseed).trans hlb.symm
  cases hhandled with
  | refuted d hle hfull hbad hknows hsame =>
    have hd : ¬ m ⊆ d := fun hmd ↦ hknows.sound.refuted d
      (List.mem_append_right _ (List.mem_singleton_self d)) (h.monotone hmd hm.minimal.prop)
    have hleft : Open ctx f' m :=
      hknows.open_iff.mpr ⟨hm.opened.1, unexplored_addRefuted.mpr ⟨hopen, hd⟩⟩
    refine ⟨s, hsame ▸ hs, .inr ⟨?_, m, hleft, hm.minimal, hsize, hlt⟩⟩
    rw [hsame]
    exact hunknown
  | found mivc hshrunk hsafe hknows hmivcs hdeclares =>
    have hmem : s ∈ f'.mivcs := hmivcs ▸ List.mem_append_left _ hs
    obtain ⟨heq, hleast, -⟩ | ⟨hup, hne, hsame⟩ := hdeclares.unknown hunknown
    · have hcard : mivc.toFinset.card = mivc.length := List.toFinset_card_of_nodup hshrunk.nodup
      have hleft := hseed.open_shrunk h hk hshrunk
      have hge : m.card ≤ mivc.length := by
        rw [← hcard]
        obtain hsize | ⟨-, hle⟩ := hm.size
        · rw [hsize]
          exact hk.lb _ hleft.1 (hk.open_iff.mp hleft).2
        · exact hle _ hleft
      have hlong : s.length < f'.minimumIVC.length := heq ▸ hlt.trans_le hge
      have hnonempty : f'.minimumIVC ≠ [] := List.ne_nil_of_length_pos (Nat.zero_lt_of_lt hlong)
      exact ⟨s, hmem, .inl ⟨known_eq_true.mpr hnonempty, hlong⟩⟩
    · rw [hup] at hlb
      have hbound : m.card = f.mivcLB := hsize.trans hlb
      have hkept : ¬ mivc.toFinset ⊆ m := by
        intro hle
        have hcard := Finset.card_le_card hle
        have hopen' := hseed.open_shrunk h hk hshrunk
        have hlow := hk.lb _ hopen'.1 (hk.open_iff.mp hopen').2
        rw [List.toFinset_card_of_nodup hshrunk.nodup] at hcard hlow
        exact hne (by omega)
      have hleft : Open ctx f' m :=
        hknows.open_iff.mpr ⟨hm.opened.1, unexplored_addFound.mpr ⟨hopen, hkept⟩⟩
      refine ⟨s, hmem, .inr ⟨?_, m, hleft, hm.minimal, hsize, hlt⟩⟩
      rw [known_congr hsame]
      exact hunknown

theorem Misled.step (h : Parts ctx Rep CsRep fail) (hk : Knows ctx Rep CsRep e f)
    (hlen : ctx.tr.gateIDs.length < 2 ^ 32) (hmis : Misled ctx f ∨ ¬ Timely ctx f)
    (hseed : Promised ctx e seed (goesUp ctx f) (goesDown ctx f))
    (hhandled : Handled ctx Rep CsRep e f seed (goesUp ctx f) (goesDown ctx f) f')
    (hlb : f'.mivcLB = (f.raiseLB seed (goesUp ctx f)).mivcLB) : Misled ctx f' := by
  obtain ⟨s, hs, ⟨hknown, hlong⟩ | ⟨hunknown, m, hopen, hminimal, hsize, hlt⟩⟩ | hlate := hmis
  · have hsame : f'.minimumIVC = f.minimumIVC ∧ s ∈ f'.mivcs := by
      cases hhandled with
      | refuted d hle hfull hbad hknows hsame => rw [hsame]; exact ⟨rfl, hs⟩
      | found mivc hshrunk hsafe hknows hmivcs hdeclares =>
        exact ⟨hdeclares.known hknown, hmivcs ▸ List.mem_append_left _ hs⟩
    refine ⟨s, hsame.2, .inl ⟨?_, hsame.1 ▸ hlong⟩⟩
    rw [known_congr hsame.1]
    exact hknown
  · exact Declarable.misled h hk hlen hunknown ⟨hopen, hminimal, .inl hsize⟩ hs hlt hseed hhandled hlb
  · unfold Timely at hlate
    push Not at hlate
    obtain ⟨-, -, hunknown, m, hm, s, hs, hlt⟩ := hlate
    exact Declarable.misled h hk hlen hunknown hm hs hlt hseed hhandled hlb

/-- When nothing is left to explore, a set larger than one recorded has been declared. -/
theorem Misled.not_declaresLeast (hk : Knows ctx Rep CsRep e f) (hmis : Misled ctx f)
    (hdone : ∀ t ⊆ allGates ctx, ¬ e.Unexplored t) :
    f.minimumIVCKnown = true ∧ ¬ f.DeclaresLeast ctx.tr := by
  obtain ⟨s, hs, ⟨hknown, hlong⟩ | ⟨-, m, hopen, -⟩⟩ := hmis
  · refine ⟨hknown, fun hleast ↦ ?_⟩
    have hfound : s.toFinset ∈ e.found := hk.mivcs ▸ List.mem_map_of_mem hs
    obtain ⟨hbase, hminimal⟩ := hk.sound.found _ hfound
    have hle := (hleast _ hbase hminimal).2
    rw [List.toFinset_card_of_nodup (hk.nodup s hs)] at hle
    omega
  · exact absurd (hk.open_iff.mp hopen).2 (hdone m hopen.1)

end UnifiedIVCFinder

end PME
