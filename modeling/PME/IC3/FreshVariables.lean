import PME.IC3.UNSATCoreLifter

namespace PME

open Outcome

theorem VariableManager.getNewID_le (vm : VariableManager) (external : ℕ) :
    Meets (fun r ↦ vm.nextID ≤ r.2.nextID) (fun _ ↦ True) (vm.getNewID external) := by
  have hle : vm.nextID ≤ vm.nextID + idIncr := Nat.le_add_right _ _
  unfold getNewID
  split
  · trivial
  · dsimp only
    split
    · exact hle
    · exact (meets_any _).bind fun _ _ ↦ (meets_any _).bind fun _ _ ↦ hle

namespace IC3.FrameSolver

variable (B : Backend) (vm : VariableManager) (trace : InductiveTrace) (fs : FrameSolver)
  (level : Level) (c : Cube) (id : LemmaID)

theorem growActivation_le (n : ℕ) :
    Meets (fun r ↦ vm.nextID ≤ r.1.nextID) (fun _ ↦ True) (fs.growActivation vm n) := by
  induction n generalizing vm fs with
  | zero => exact le_rfl
  | succ n ih =>
    unfold growActivation
    refine (vm.getNewID_le 0).bind fun r hr ↦ ?_
    exact (ih r.2 _).imp fun r' hr' ↦ hr.trans hr'

theorem levelAct_le (n : ℕ) :
    Meets (fun r ↦ vm.nextID ≤ r.2.1.nextID) (fun _ ↦ True) (fs.levelAct vm n) := by
  unfold levelAct
  refine (growActivation_le vm fs _).bind fun r hr ↦ ?_
  dsimp only
  split
  · exact hr
  · trivial

theorem activatedClauseOf_le (data : LemmaData) :
    Meets (fun r ↦ vm.nextID ≤ r.2.1.nextID) (fun _ ↦ True) (fs.activatedClauseOf vm data) := by
  unfold activatedClauseOf
  dsimp only
  split
  · exact le_rfl
  · exact (levelAct_le vm fs _).bind fun r hr ↦ hr

theorem sendLemma_le :
    Meets (fun r ↦ vm.nextID ≤ r.1.nextID) (fun _ ↦ True) (fs.sendLemma vm trace id) := by
  unfold sendLemma
  refine (meets_any _).bind fun data _ ↦ (activatedClauseOf_le vm fs data).bind fun r hr ↦ ?_
  exact (meets_any _).bind fun solver _ ↦ hr

theorem addLemma_le :
    Meets (fun r ↦ vm.nextID ≤ r.1.nextID) (fun _ ↦ True) (fs.addLemma vm trace id) := by
  unfold addLemma
  split
  · exact sendLemma_le vm trace fs id
  · exact le_rfl

theorem sendFrame_le :
    Meets (fun r ↦ vm.nextID ≤ r.1.nextID) (fun _ ↦ True) (fs.sendFrame vm trace level) := by
  unfold sendFrame
  refine (meets_any _).bind fun frame _ ↦ ?_
  refine foldlM_meets (fun _ (r : VariableManager × FrameSolver) ↦ vm.nextID ≤ r.1.nextID) _ le_rfl
    fun done id rest r _ hr ↦ ?_
  refine (meets_any _).bind fun data _ ↦ ?_
  split
  · exact hr
  · exact (sendLemma_le r.1 trace r.2 id).imp fun r' hr' ↦ hr.trans hr'

theorem renewSAT_le :
    Meets (fun r ↦ vm.nextID ≤ r.1.nextID) (fun _ ↦ True) (fs.renewSAT B vm trace) := by
  unfold renewSAT
  refine (meets_any _).bind fun base _ ↦ (sendFrame_le vm trace _ .inf).bind fun r hr ↦ ?_
  have hframes : ∀ l : List ℕ, Meets (fun r' : VariableManager × FrameSolver ↦ vm.nextID ≤ r'.1.nextID)
      (fun _ ↦ True) (l.foldlM (fun r i ↦ r.2.sendFrame r.1 trace (.fin i)) r) := fun l ↦
    foldlM_meets (fun _ r ↦ vm.nextID ≤ r.1.nextID) r hr fun done i rest r' _ hr' ↦
      (sendFrame_le r'.1 trace r'.2 (.fin i)).imp fun r'' hr'' ↦ hr'.trans hr''
  exact (hframes _).bind fun r' hr' ↦ hr'

theorem levelAssumps_le :
    Meets (fun r ↦ vm.nextID ≤ r.2.1.nextID) (fun _ ↦ True) (fs.levelAssumps vm trace level) := by
  cases level with
  | inf => exact le_rfl
  | fin n =>
    refine foldlM_meets (fun _ (r : Cube × VariableManager × FrameSolver) ↦ vm.nextID ≤ r.2.1.nextID) _
      le_rfl fun done i rest r _ hr ↦ ?_
    exact (levelAct_le r.2.1 r.2.2 i).bind fun r' hr' ↦ hr.trans hr'

theorem init_le :
    Meets (fun r ↦ vm.nextID ≤ r.1.nextID) (fun _ ↦ True)
      (if fs.solverInited then pure (vm, fs) else fs.renewSAT B vm trace) := by
  split
  · exact le_rfl
  · exact renewSAT_le B vm trace fs

theorem consecutionQuery_le :
    Meets (fun r ↦ vm.nextID ≤ r.2.1.nextID) (fun _ ↦ True) (fs.consecutionQuery B vm trace level c) := by
  unfold consecutionQuery
  refine (init_le B vm trace fs).bind fun r hr ↦ (meets_any _).bind fun _ _ ↦ ?_
  refine (levelAssumps_le r.1 trace r.2 level).bind fun r' hr' ↦ (meets_any _).bind fun _ _ ↦ ?_
  exact (meets_any _).bind fun solver _ ↦ hr.trans hr'

theorem consecutionFull_le :
    Meets (fun r ↦ vm.nextID ≤ r.2.1.nextID) (fun _ ↦ True) (fs.consecutionFull B vm trace level c) := by
  unfold consecutionFull
  refine (consecutionQuery_le B vm trace fs level c).bind fun r hr ↦ ?_
  dsimp only
  split
  · exact hr
  · exact (meets_any _).bind fun pred _ ↦ hr

theorem consecutionCore_le :
    Meets (fun r ↦ vm.nextID ≤ r.2.1.nextID) (fun _ ↦ True) (fs.consecutionCore B vm trace level c) := by
  unfold consecutionCore
  refine (consecutionQuery_le B vm trace fs level c).bind fun r hr ↦ ?_
  dsimp only
  split
  · exact hr
  · exact hr

theorem consecution_le :
    Meets (fun r ↦ vm.nextID ≤ r.2.1.nextID) (fun _ ↦ True) (fs.consecution B vm trace level c) :=
  (consecutionQuery_le B vm trace fs level c).bind fun _ hr ↦ hr

theorem intersectionFull_le :
    Meets (fun r ↦ vm.nextID ≤ r.2.1.nextID) (fun _ ↦ True) (fs.intersectionFull B vm trace level c) := by
  unfold intersectionFull
  refine (meets_any _).bind fun _ _ ↦ (init_le B vm trace fs).bind fun r hr ↦ ?_
  refine (levelAssumps_le r.1 trace r.2 level).bind fun r' hr' ↦ ?_
  dsimp only
  split
  · exact hr.trans hr'
  · exact (meets_any _).bind fun pred _ ↦ hr.trans hr'

theorem intersection_le :
    Meets (fun r ↦ vm.nextID ≤ r.2.1.nextID) (fun _ ↦ True) (fs.intersection B vm trace level c) :=
  (intersectionFull_le B vm trace fs level c).bind fun _ hr ↦ hr

end IC3.FrameSolver

end PME
