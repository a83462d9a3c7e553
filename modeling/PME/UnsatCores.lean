import PME.MUSFinder

namespace PME

open Outcome

structure MUSFinderWrapper where
  finder : MUSFinder
  externalToInternal : List (ℕ × ℕ)
  internalToExternal : List (ℕ × ℕ)

namespace MUSFinderWrapper

def new : MUSFinderWrapper := ⟨.new, [], []⟩

def addHardClause (w : MUSFinderWrapper) (cls : Clause) : Result MUSFinderWrapper := do
  return { w with finder := ← w.finder.addHardClause cls }

def addHardClauses (w : MUSFinderWrapper) (vec : ClauseVec) : Result MUSFinderWrapper :=
  vec.foldlM addHardClause w

def internalGroup (w : MUSFinderWrapper) (externalGroup : ℕ) : Result ℕ :=
  match w.externalToInternal.lookup externalGroup with
  | some gid => return gid
  | none => throw .exception

def externalGroup (w : MUSFinderWrapper) (gid : ℕ) : Result ℕ :=
  match w.internalToExternal.lookup gid with
  | some ext => return ext
  | none => throw .exception

def createGroup (w : MUSFinderWrapper) (vm : VariableManager) (externalGroup : ℕ) :
    Result (VariableManager × MUSFinderWrapper) := do
  let (gid, vm, finder) ← w.finder.createGroup vm
  ensure (w.internalToExternal.lookup gid).isNone
  return (vm, {
    finder := finder
    externalToInternal := (externalGroup, gid) :: w.externalToInternal
    internalToExternal := (gid, externalGroup) :: w.internalToExternal })

def addSoftClause (w : MUSFinderWrapper) (vm : VariableManager) (externalGroup : ℕ) (cls : Clause) :
    Result (VariableManager × MUSFinderWrapper) := do
  let (vm, w) ←
    if (w.externalToInternal.lookup externalGroup).isNone then w.createGroup vm externalGroup
    else pure (vm, w)
  let gid ← w.internalGroup externalGroup
  return (vm, { w with finder := ← w.finder.addSoftClause gid cls })

def mapCore (w : MUSFinderWrapper) (internal : List ℕ) : Result (List ℕ) := internal.mapM w.externalGroup

def findCore (S : SAT.Solver) (w : MUSFinderWrapper) : Result (List ℕ × MUSFinderWrapper) := do
  let (core, finder) ← w.finder.findCore S
  return (← w.mapCore core, { w with finder := finder })

def findMUS (S : SAT.Solver) (w : MUSFinderWrapper) : Result (List ℕ × MUSFinderWrapper) := do
  let (core, finder) ← w.finder.findMUS S
  return (← w.mapCore core, { w with finder := finder })

end MUSFinderWrapper

namespace MUSFinder

variable {S : SAT.Solver} {hard : ClauseVec} {soft : ℕ → ClauseVec} {vm : VariableManager} {mf : MUSFinder}
  {cls : Clause} {gid : ℕ} {fail : Failure → Prop}

theorem addHardClause_meets (h : Rep hard soft vm mf) (hne : cls ≠ []) (hlits : ∀ lit ∈ cls, Usable vm mf lit) :
    Meets (fun mf' ↦ Rep (hard ++ [cls]) soft vm mf' ∧ mf'.groupToActivation = mf.groupToActivation ∧
      mf'.nextGroup = mf.nextGroup) fail (mf.addHardClause cls) := by
  have hadd : Meets (fun mf' ↦ mf'.groupToActivation = mf.groupToActivation ∧ mf'.nextGroup = mf.nextGroup)
      fail (mf.addHardClause cls) := (SATAdaptor.addClause_meets hne).bind fun _ _ ↦ ⟨rfl, rfl⟩
  exact hadd.self.imp fun mf' hmf' ↦ ⟨h.addHardClause hlits hmf'.1, hmf'.2⟩

theorem addSoftClause_meets (h : Rep hard soft vm mf) (hgid : gid ∈ mf.groups)
    (hlits : ∀ lit ∈ cls, Usable vm mf lit) :
    Meets (fun mf' ↦ Rep hard (Function.update soft gid (soft gid ++ [cls])) vm mf' ∧
      mf'.groupToActivation = mf.groupToActivation ∧ mf'.nextGroup = mf.nextGroup)
      fail (mf.addSoftClause gid cls) := by
  have hadd : Meets (fun mf' ↦ mf'.groupToActivation = mf.groupToActivation ∧ mf'.nextGroup = mf.nextGroup)
      fail (mf.addSoftClause gid cls) :=
    (activationForGroup_meets hgid).bind fun act _ ↦
      (SATAdaptor.addClause_meets (List.concat_ne_nil (negate act) cls)).bind fun _ _ ↦ ⟨rfl, rfl⟩
  exact hadd.self.imp fun mf' hmf' ↦ ⟨h.addSoftClause hlits hmf'.1, hmf'.2⟩

theorem createGroup_meets (h : Rep hard soft vm mf) (hids : maxId < vm.nextID → fail .idsExhausted)
    (hnew : mf.nextGroup ∈ mf.groups → fail .assertion) :
    Meets (fun r ↦ Rep hard soft r.2.1 r.2.2 ∧ mf.nextGroup ∉ mf.groups ∧ r.1 = mf.nextGroup ∧
      r.2.1.nextID = vm.nextID + 2 ∧ r.2.2.groupToActivation = (mf.nextGroup, vm.nextID) :: mf.groupToActivation ∧
      r.2.2.nextGroup = (mf.nextGroup + 1) % 2 ^ 32) fail (mf.createGroup vm) := by
  have hmake : Meets (fun r ↦ mf.nextGroup ∉ mf.groups ∧ r.1 = mf.nextGroup ∧
      r.2.1.nextID = vm.nextID + 2 ∧ r.2.2.groupToActivation = (mf.nextGroup, vm.nextID) :: mf.groupToActivation ∧
      r.2.2.nextGroup = (mf.nextGroup + 1) % 2 ^ 32) fail (mf.createGroup vm) := by
    unfold createGroup
    refine (VariableManager.getNewID_meets h.vars rfl (absurd rfl) hids).bind fun r hr ↦ ?_
    obtain ⟨act, vm'⟩ := r
    have hact := hr.id_eq
    have hnext := hr.nextID
    dsimp only at hact hnext ⊢
    cases hlookup : mf.groupToActivation.lookup mf.nextGroup with
    | none =>
      have hout : mf.nextGroup ∉ mf.groups := fun hin ↦ by
        obtain ⟨a, ha⟩ := mem_groups.mp hin
        exact nomatch hlookup.symm.trans ha
      simp [hact, hnext, hout]
    | some a => exact hnew (mem_groups.mpr ⟨a, hlookup⟩)
  exact hmake.self.imp fun r hr ↦ ⟨h.createGroup hr.1, hr.2⟩

end MUSFinder

namespace MUSFinderWrapper

/-- Group `j` of the finder is the `j`-th of `exts`, with the clauses `soft j`. Activation variables
are made from `first` on. -/
structure Rep (hard : ClauseVec) (soft : ℕ → ClauseVec) (first : ℕ) (exts : List ℕ) (vm : VariableManager)
    (w : MUSFinderWrapper) : Prop where
  finder : MUSFinder.Rep hard soft vm w.finder
  first_le : first ≤ vm.nextID
  acts : ∀ g a, w.finder.groupToActivation.lookup g = some a → first ≤ a
  groups : ∀ g, g ∈ w.finder.groups ↔ g < exts.length
  nextGroup : w.finder.nextGroup = exts.length % 2 ^ 32
  internal : ∀ ext g, w.externalToInternal.lookup ext = some g ↔ exts[g]? = some ext
  external : ∀ g, w.internalToExternal.lookup g = exts[g]?

variable {S : SAT.Solver} {hard vec : ClauseVec} {soft : ℕ → ClauseVec} {cls : ℕ → Clause} {c : Clause}
  {exts todo : List ℕ} {vm : VariableManager} {w : MUSFinderWrapper} {ext first : ℕ} {fail : Failure → Prop}

theorem rep_new (hvm : vm.Inv) : Rep [] (fun _ ↦ []) vm.nextID [] vm new where
  finder := MUSFinder.rep_new hvm
  first_le := le_rfl
  acts := nofun
  groups g := by simp [new, MUSFinder.new, MUSFinder.groups]
  nextGroup := rfl
  internal ext g := by simp [new]
  external g := rfl

theorem Rep.with_vars (h : Rep hard soft first exts vm w) {vm' : VariableManager} (hvars : vm'.Inv)
    (hle : vm.nextID ≤ vm'.nextID) : Rep hard soft first exts vm' w :=
  ⟨h.finder.with_vars hvars hle, h.first_le.trans hle, h.acts, h.groups, h.nextGroup, h.internal, h.external⟩

theorem Rep.lookup_none (h : Rep hard soft first [] vm w) (g : ℕ) :
    w.finder.groupToActivation.lookup g = none := by
  refine Option.eq_none_iff_forall_ne_some.mpr fun a ha ↦ ?_
  exact absurd ((h.groups g).mp (MUSFinder.mem_groups.mpr ⟨a, ha⟩)) (Nat.not_lt_zero g)

theorem addHardClauses_meets (h : Rep hard soft first [] vm w)
    (hvec : ∀ c ∈ vec, c ≠ [] ∧ ∀ lit ∈ c, unprime (strip lit) < vm.nextID) :
    Meets (Rep (hard ++ vec) soft first [] vm) fail (w.addHardClauses vec) := by
  refine foldlM_meets (fun done w' ↦ Rep (hard ++ done) soft first [] vm w') w ?_ fun done c rest w' hl hw' ↦ ?_
  · rw [List.append_nil]
    exact h
  · obtain ⟨hne, hlits⟩ := hvec c (hl ▸ List.mem_append_right done List.mem_cons_self)
    have husable : ∀ lit ∈ c, MUSFinder.Usable vm w'.finder lit := by
      refine fun lit hl ↦ ⟨hlits lit hl, fun g ↦ ?_⟩
      rw [hw'.lookup_none g]
      exact (Option.some_ne_none _).symm
    refine (MUSFinder.addHardClause_meets hw'.finder hne husable).bind fun mf hmf ↦ ?_
    obtain ⟨hrep, hgroups, hnext⟩ := hmf
    rw [List.append_assoc] at hrep
    refine ⟨hrep, hw'.first_le, fun g a ha ↦ ?_, fun g ↦ ?_, hnext.trans hw'.nextGroup, hw'.internal, hw'.external⟩
    · rw [hgroups] at ha
      exact hw'.acts g a ha
    · dsimp only
      rw [MUSFinder.groups, hgroups]
      exact hw'.groups g

theorem getElem?_concat (exts : List ℕ) (ext g : ℕ) :
    (exts ++ [ext])[g]? = if g = exts.length then some ext else exts[g]? := by
  by_cases hg : g = exts.length
  · simp [hg]
  · rw [if_neg hg]
    obtain hlt | hgt := Nat.lt_or_gt_of_ne hg
    · exact List.getElem?_append_left hlt
    · simp [Nat.le_of_lt hgt, hgt]

theorem createGroup_meets (h : Rep hard soft first exts vm w) (hnew : ext ∉ exts)
    (hids : maxId < vm.nextID → fail .idsExhausted) (hmany : 2 ^ 32 ≤ exts.length → fail .assertion) :
    Meets (fun r ↦ Rep hard soft first (exts ++ [ext]) r.1 r.2 ∧ r.1.nextID = vm.nextID + 2)
      fail (w.createGroup vm ext) := by
  have hmade : Meets _ fail (w.finder.createGroup vm) := MUSFinder.createGroup_meets h.finder hids fun hin ↦ by
    rw [h.groups, h.nextGroup] at hin
    exact hmany (by omega)
  unfold createGroup
  refine hmade.bind fun r hr ↦ ?_
  obtain ⟨gid, vm', mf⟩ := r
  obtain ⟨hrep, hout, hgid, hnextID, hlookup, hnext⟩ := hr
  dsimp only at hrep hgid hnextID hlookup hnext ⊢
  have hlast : w.finder.nextGroup = exts.length := by
    rw [h.groups, h.nextGroup] at hout
    rw [h.nextGroup]
    omega
  rw [hlast] at hgid hlookup hnext
  subst hgid
  rw [h.external, List.getElem?_eq_none le_rfl, Option.isNone_none, ensure_true, ok_bind]
  refine ⟨⟨hrep, ?_, fun g a ha ↦ ?_, fun g ↦ ?_, ?_, fun ext' g ↦ ?_, fun g ↦ ?_⟩, hnextID⟩
  · dsimp only
    exact h.first_le.trans (hnextID ▸ Nat.le_add_right _ 2)
  · rw [hlookup, List.lookup_cons] at ha
    cases heq : g == exts.length with
    | true =>
      rw [heq] at ha
      exact Option.some.inj ha ▸ h.first_le
    | false =>
      rw [heq] at ha
      exact h.acts g a ha
  · have hgroups := h.groups g
    unfold MUSFinder.groups at hgroups ⊢
    rw [hlookup, List.map_cons, List.mem_cons, hgroups, List.length_append, List.length_singleton]
    omega
  · rw [hnext, List.length_append, List.length_singleton]
  · rw [List.lookup_cons, getElem?_concat]
    by_cases hext : ext' = ext
    · subst hext
      have hno : exts[g]? ≠ some ext' := fun hg ↦ hnew (List.mem_of_getElem? hg)
      by_cases hg : g = exts.length
      · simp [hg]
      · simp [hg, hno, Ne.symm hg]
    · have hother := h.internal ext' g
      by_cases hg : g = exts.length
      · simpa [hg, beq_false_of_ne hext, Ne.symm hext] using hother
      · simpa [hg, beq_false_of_ne hext] using hother
  · rw [List.lookup_cons, getElem?_concat]
    by_cases hg : g = exts.length
    · simp [hg]
    · simp [hg, beq_false_of_ne hg, h.external]

theorem addSoftClause_meets (h : Rep hard soft first exts vm w) (hnew : ext ∉ exts)
    (hlits : ∀ lit ∈ c, strip lit < first) (hids : maxId < vm.nextID → fail .idsExhausted)
    (hmany : 2 ^ 32 ≤ exts.length → fail .assertion) :
    Meets (fun r ↦ Rep hard (Function.update soft exts.length (soft exts.length ++ [c])) first (exts ++ [ext]) r.1 r.2 ∧
      r.1.nextID = vm.nextID + 2) fail (w.addSoftClause vm ext c) := by
  have hunknown : w.externalToInternal.lookup ext = none :=
    Option.eq_none_iff_forall_ne_some.mpr fun g hg ↦ hnew (List.mem_of_getElem? ((h.internal ext g).mp hg))
  unfold addSoftClause
  rw [hunknown, Option.isNone_none, if_pos rfl]
  refine (createGroup_meets h hnew hids hmany).bind fun r hr ↦ ?_
  obtain ⟨vm', w'⟩ := r
  obtain ⟨hrep, hnextID⟩ := hr
  dsimp only at hrep hnextID ⊢
  have hgid : w'.externalToInternal.lookup ext = some exts.length := by
    rw [hrep.internal, getElem?_concat, if_pos rfl]
  have hin : exts.length ∈ w'.finder.groups := by
    rw [hrep.groups, List.length_append, List.length_singleton]
    exact Nat.lt_succ_self _
  have husable : ∀ lit ∈ c, MUSFinder.Usable vm' w'.finder lit := by
    intro lit hl
    have hlt := hlits lit hl
    refine ⟨?_, fun g hg ↦ Nat.lt_irrefl _ (hlt.trans_le (hrep.acts g _ hg))⟩
    rw [unprime_eq]
    exact (Nat.mod_le _ _).trans_lt (hlt.trans_le hrep.first_le)
  simp only [internalGroup, hgid, pure_bind]
  refine (MUSFinder.addSoftClause_meets hrep.finder hin husable).bind fun mf hmf ↦ ?_
  obtain ⟨hfinder, hlookup, hnext⟩ := hmf
  refine ⟨⟨hfinder, hrep.first_le, fun g a ha ↦ ?_, fun g ↦ ?_, hnext.trans hrep.nextGroup, hrep.internal,
    hrep.external⟩, hnextID⟩
  · rw [hlookup] at ha
    exact hrep.acts g a ha
  · dsimp only
    rw [MUSFinder.groups, hlookup]
    exact hrep.groups g

def softOf (cls : ℕ → Clause) (exts : List ℕ) : ℕ → ClauseVec := fun j ↦ (exts[j]?.map cls).toList

theorem softOf_concat (cls : ℕ → Clause) (exts : List ℕ) (ext : ℕ) :
    Function.update (softOf cls exts) exts.length (softOf cls exts exts.length ++ [cls ext]) =
      softOf cls (exts ++ [ext]) := by
  funext j
  unfold softOf
  rw [getElem?_concat]
  by_cases hj : j = exts.length
  · simp [hj]
  · simp [hj]

/-- One group for each of a list without repetitions, with one clause. -/
theorem addSoftClauses_meets (h : Rep hard (fun _ ↦ []) first [] vm w) (hnodup : todo.Nodup)
    (hlits : ∀ ext ∈ todo, ∀ lit ∈ cls ext, strip lit < first)
    (hids : maxId + 1 < vm.nextID + 2 * todo.length → fail .idsExhausted)
    (hmany : 2 ^ 32 < todo.length → fail .assertion) :
    Meets (fun r ↦ Rep hard (softOf cls todo) first todo r.1 r.2 ∧ r.1.nextID = vm.nextID + 2 * todo.length) fail
      (todo.foldlM (fun (s : VariableManager × MUSFinderWrapper) ext ↦ s.2.addSoftClause s.1 ext (cls ext)) (vm, w)) := by
  refine foldlM_meets (fun done (s : VariableManager × MUSFinderWrapper) ↦
    Rep hard (softOf cls done) first done s.1 s.2 ∧ s.1.nextID = vm.nextID + 2 * done.length) _ ⟨?_, rfl⟩
    fun done ext rest s hl hs ↦ ?_
  · exact h
  obtain ⟨hrep, hnext⟩ := hs
  have hmem : ext ∈ todo := hl ▸ List.mem_append_right done List.mem_cons_self
  have hnew : ext ∉ done := by
    rw [← hl] at hnodup
    exact fun hin ↦ (List.nodup_append.mp hnodup).2.2 _ hin _ List.mem_cons_self rfl
  have hlen := congrArg List.length hl
  have heven := hrep.finder.vars.even
  rw [List.length_append, List.length_cons] at hlen
  refine (addSoftClause_meets hrep hnew (hlits ext hmem) (fun hlt ↦ hids ?_) fun hle ↦ hmany ?_).imp fun r hr ↦ ?_
  · rw [maxId_eq] at hlt ⊢
    omega
  · omega
  · rw [softOf_concat] at hr
    refine ⟨hr.1, ?_⟩
    rw [hr.2, hnext, List.length_append, List.length_singleton]
    omega

theorem mapCore_meets (h : Rep hard soft first exts vm w) {core : List ℕ} (hcore : core ⊆ w.finder.groups) :
    Meets (List.Forall₂ (fun g ext ↦ exts[g]? = some ext) core) fail (w.mapCore core) := by
  refine mapM_meets fun g hg ↦ ?_
  have hlt := (h.groups g).mp (hcore hg)
  simp [externalGroup, h.external, List.getElem?_eq_getElem hlt]

/-- The groups that are named outside are satisfiable when the finder's own are. -/
theorem groupsSat_iff {core core' : List ℕ} (h : List.Forall₂ (fun g ext ↦ exts[g]? = some ext) core core') :
    GroupsSat hard (softOf cls exts) core ↔ GroupsSat hard (fun ext ↦ [cls ext]) core' := by
  refine exists_congr fun σ ↦ and_congr_right fun _ ↦ and_congr_right fun _ ↦ ?_
  refine forall₂_forall_mem_iff h fun g _ ext _ hext ↦ ?_
  rw [softOf, hext, Option.map_some, Option.toList_some]

theorem Rep.groupsSat_groups_iff (h : Rep hard soft first exts vm w) :
    GroupsSat hard (softOf cls exts) w.finder.groups ↔ GroupsSat hard (fun ext ↦ [cls ext]) exts := by
  refine exists_congr fun σ ↦ and_congr_right fun _ ↦ and_congr_right fun _ ↦ ?_
  constructor
  · intro hall ext hext
    obtain ⟨g, hg, rfl⟩ := List.mem_iff_getElem.mp hext
    have hsat := hall g ((h.groups g).mpr hg)
    rwa [softOf, List.getElem?_eq_getElem hg, Option.map_some, Option.toList_some] at hsat
  · intro hall g hg
    rw [h.groups] at hg
    rw [softOf, List.getElem?_eq_getElem hg, Option.map_some, Option.toList_some]
    exact hall _ (List.getElem_mem hg)

theorem mapCore_right (h : Rep hard (softOf cls exts) first exts vm w) (hnodup : exts.Nodup) {core : List ℕ}
    (hcore : core ⊆ w.finder.groups) (honce : core.Nodup) (hunsat : ¬ GroupsSat hard (softOf cls exts) core) :
    Meets (fun ids ↦ ids.Nodup ∧ ids ⊆ exts ∧ ¬ GroupsSat hard (fun ext ↦ [cls ext]) ids) fail (w.mapCore core) := by
  refine (mapCore_meets h hcore).imp fun ids hids ↦ ⟨?_, fun ext hext ↦ ?_, ?_⟩
  · refine forall₂_nodup hids (fun g _ g' _ ext hg hg' ↦ ?_) honce
    have hlt := (List.getElem?_eq_some_iff.mp hg).1
    exact (List.getElem?_inj hlt hnodup).mp (hg.trans hg'.symm)
  · obtain ⟨g, -, hg⟩ := forall₂_exists_left hids hext
    exact List.mem_of_getElem? hg
  · rwa [← groupsSat_iff hids]

/-- The core names some of the groups, which are unsatisfiable together with the hard clauses. -/
theorem findCore_meets (h : Rep hard (softOf cls exts) first exts vm w) (hnodup : exts.Nodup)
    (hfail : GroupsSat hard (fun ext ↦ [cls ext]) exts → fail .assertion) :
    Meets (fun r ↦ r.1.Nodup ∧ r.1 ⊆ exts ∧ ¬ GroupsSat hard (fun ext ↦ [cls ext]) r.1) fail (w.findCore S) := by
  unfold findCore
  refine (MUSFinder.findCore_meets h.finder fun hsat ↦ hfail (h.groupsSat_groups_iff.mp hsat)).bind fun r hr ↦ ?_
  obtain ⟨core, mf⟩ := r
  obtain ⟨-, -, hunsat, hsub, honce⟩ := hr
  exact (mapCore_right h hnodup hsub honce hunsat).bind fun ids hids ↦ hids

theorem findMUS_meets (h : Rep hard (softOf cls exts) first exts vm w) (hnodup : exts.Nodup)
    (hfail : GroupsSat hard (fun ext ↦ [cls ext]) exts → fail .assertion) :
    Meets (fun r ↦ r.1.Nodup ∧ r.1 ⊆ exts ∧ ¬ GroupsSat hard (fun ext ↦ [cls ext]) r.1) fail (w.findMUS S) := by
  unfold findMUS
  refine (MUSFinder.findMUS_meets h.finder fun hsat ↦ hfail (h.groupsSat_groups_iff.mp hsat)).bind fun r hr ↦ ?_
  obtain ⟨mus, mf⟩ := r
  obtain ⟨-, hsorted, hsub, hunsat, -⟩ := hr
  have honce : mus.Nodup := hsorted.imp fun hlt ↦ hlt.ne
  exact (mapCore_right h hnodup hsub honce hunsat).bind fun ids hids ↦ hids

end MUSFinderWrapper

end PME
