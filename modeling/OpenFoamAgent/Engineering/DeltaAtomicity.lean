/-
# Deltas and their audit

The text of a delta is committed before its audit actions are dispatched, and
each dispatch checks budgets and policies of its own. So a delta can be in the
case although one of its actions is refused. `execute_atomic` says when that
cannot be: the delta is in the case already, or every action passes the guards
of the dispatcher in the state it is dispatched in.
-/
import OpenFoamAgent.Contracts.RepairRuns
import OpenFoamAgent.Engineering.Deltas
import OpenFoamAgent.Library.Runs
import OpenFoamAgent.Workspace.Frames

namespace OpenFoamAgent
namespace Engineering

open Python Schemas Workspace Contracts Controller

/-! ### The loop over the edits -/

theorem spent_of_sameRound {c c' : Controller} (h : SameRound c c') (b : Budget) :
    b.spent c' = b.spent c ∧ b.allowance c' = b.allowance c := by
  cases b with
  | toolActions =>
    refine ⟨?_, by simp [Budget.allowance, h.policy]⟩
    simp [Budget.spent, toolActionCount, currentRoundEvents, h.events, h.start]
  | runtimeRepairActions start =>
    exact ⟨by simp [Budget.spent, h.events], by simp [Budget.allowance, h.policy]⟩

/-- An event counts once at most. -/
theorem spent_record_le (b : Budget) (c : Controller) (event : EngineeringEvent) :
    b.spent (c.record event) ≤ b.spent c + 1 ∧
      b.allowance (c.record event) = b.allowance c := by
  cases b with
  | toolActions =>
    refine ⟨?_, rfl⟩
    show (c.record event).currentRoundEvents.length ≤ c.currentRoundEvents.length + 1
    rcases c.currentRoundEvents_record event with h | h
    · rw [h]
      omega
    · rw [h, List.length_append]
      exact le_rfl
  | runtimeRepairActions start =>
    refine ⟨?_, rfl⟩
    show (c.engineeringEvents ++ [event]).length ≤ c.engineeringEvents.length + 1
    rw [List.length_append]
    exact le_rfl

variable {m : Machine} {ex : Executor} {c : Controller}

/-- The dispatcher admits the edit in the phase of the executor. -/
def AdmittedBy (m : Machine) (ex : Executor) (c : Controller) (a : CaseAction) : Prop :=
  c.Admits m ex.phase a

instance (m : Machine) (ex : Executor) (c : Controller) (a : CaseAction) :
    Decidable (AdmittedBy m ex c a) :=
  inferInstanceAs (Decidable (c.Admits m ex.phase a))

/-- Within the budget, the loop reports every edit exactly when each is admitted in the state
it is dispatched in. -/
theorem dispatchEdits_reported_iff {edits : List CaseAction}
    (hbudget : ex.budget.spent c + edits.length ≤ ex.budget.allowance c) :
    (c.dispatchEdits m ex edits).2 = .reported ↔
      Runs.Meets (fun c a => c.edit m ex.phase a) (AdmittedBy m ex) c edits := by
  induction edits generalizing c with
  | nil => exact ⟨fun _ => trivial, fun _ => rfl⟩
  | cons a edits ih =>
    rw [List.length_cons] at hbudget
    have hroom : ¬ ex.budget.allowance c ≤ ex.budget.spent c := by omega
    have hadmits : (∃ event, (c.dispatch m ex.phase a).2 = some event ∧ event.success = true) ↔
        c.Admits m ex.phase a := dispatch_succeeds_iff
    have hround := dispatch_sameRound m c ex.phase a
    show _ ↔ c.Admits m ex.phase a ∧ Runs.Meets _ _ (c.edit m ex.phase a) edits
    rw [← hadmits]
    unfold dispatchEdits edit
    rw [if_neg hroom]
    generalize c.dispatch m ex.phase a = r at hround ⊢
    obtain ⟨c', report⟩ := r
    cases report with
    | none =>
      refine ⟨fun h => (by cases h), ?_⟩
      rintro ⟨⟨event, hevent, -⟩, -⟩
      cases hevent
    | some event =>
      obtain ⟨hspent, hallowance⟩ := spent_of_sameRound hround ex.budget
      obtain ⟨hrecord, hkeep⟩ := spent_record_le ex.budget c' event
      have hbudget' : ex.budget.spent (c'.record event) + edits.length ≤
          ex.budget.allowance (c'.record event) := by
        dsimp only at hspent hallowance
        omega
      dsimp only
      split_ifs with hsuccess
      · rw [ih hbudget']
        exact ⟨fun h => ⟨⟨event, rfl, hsuccess⟩, h⟩, fun h => h.2⟩
      · refine ⟨fun h => (by cases h), ?_⟩
        rintro ⟨⟨event', hevent, hsuccess'⟩, -⟩
        obtain rfl := Option.some.inj hevent
        exact absurd hsuccess' hsuccess

/-! ### The files of a delta -/

/-- The case holds the delta: each text is where its path says, and no dropped path names a file. -/
structure InPlace (w : CaseWorkspace) (delta : Delta) : Prop where
  files : ∀ x ∈ delta.changedFiles.items, w.tree.fileAt (locate x.1) = some (encode x.2)
  drops : ∀ p ∈ delta.dropPaths, w.tree.fileAt (locate p) = none

/-- No file of the delta differs between two workspaces. -/
structure Untouched (w w' : CaseWorkspace) (delta : Delta) : Prop where
  files : ∀ x ∈ delta.changedFiles.items, w'.tree.fileAt (locate x.1) = w.tree.fileAt (locate x.1)
  drops : ∀ p ∈ delta.dropPaths, w'.tree.fileAt (locate p) = w.tree.fileAt (locate p)

/-- The action edits a file of the delta, as the delta says. -/
def IsEdit (delta : Delta) (a : CaseAction) : Prop := a ∈ delta.writes ∨ a ∈ delta.deletes

theorem InPlace.untouched {w w' : CaseWorkspace} {delta : Delta} (h : InPlace w delta)
    (h' : InPlace w' delta) : Untouched w w' delta :=
  ⟨fun x hx => (h'.files x hx).trans (h.files x hx).symm,
    fun p hp => (h'.drops p hp).trans (h.drops p hp).symm⟩

theorem InPlace.of_untouched {w w' : CaseWorkspace} {delta : Delta} (h : InPlace w' delta)
    (hu : Untouched w w' delta) : InPlace w delta :=
  ⟨fun x hx => (hu.files x hx).symm.trans (h.files x hx),
    fun p hp => (hu.drops p hp).symm.trans (h.drops p hp)⟩

/-- A change of one file that writes what the delta has there keeps the delta in place. -/
theorem InPlace.keep {w w' : CaseWorkspace} {delta : Delta} {l : Location} (h : InPlace w delta)
    (hwithin : Within {l} w w') (hfile : w'.tree.fileAt l = w.tree.fileAt l) : InPlace w' delta := by
  have hsame : ∀ k, w'.tree.fileAt k = w.tree.fileAt k := by
    intro k
    by_cases hk : k = l
    · rw [hk, hfile]
    · exact hwithin.tree.files k (by simpa using hk)
  exact ⟨fun x hx => (hsame _).trans (h.files x hx), fun p hp => (hsame _).trans (h.drops p hp)⟩

/-- The edits of a delta keep it in place. -/
theorem perform_inPlace {delta : Delta} {a : CaseAction} (ha : IsEdit delta a)
    (h : InPlace c.workspace delta) : InPlace (c.perform m a).1.workspace delta := by
  have hmutation : ∀ {α : Type} (o : Outcome α), InPlace o.1 delta →
      InPlace (c.afterMutation o).1.workspace delta := by
    rintro α ⟨w, r⟩ ho
    cases r <;> exact ho
  rcases ha with ha | ha
  · obtain ⟨x, hx, rfl⟩ := List.mem_map.1 ha
    show InPlace (c.performWrite m x.1 x.2).1.workspace delta
    unfold performWrite
    split_ifs
    · exact h
    · refine hmutation _ (h.keep (CaseWorkspace.writeText_within m.host c.workspace x.1 x.2) ?_)
      rcases CaseWorkspace.writeText_file m.host c.workspace x.1 x.2 with hfile | hfile
      · exact hfile
      · rw [hfile, h.files x hx]
  · obtain ⟨p, hp, rfl⟩ := List.mem_map.1 ha
    show InPlace (c.performDelete m p).1.workspace delta
    unfold performDelete
    split_ifs
    · exact h
    · refine hmutation _ ?_
      rw [CaseWorkspace.delete_of_missing m.host (h.drops p hp)]
      exact h

theorem dispatch_inPlace {delta : Delta} {a : CaseAction} (phase : Phase) (ha : IsEdit delta a)
    (h : InPlace c.workspace delta) : InPlace (c.dispatch m phase a).1.workspace delta := by
  have hperform := perform_inPlace (m := m) ha h
  have hsettle : ∀ b, InPlace ((c.perform m a).1.settle m phase b).1.workspace delta := by
    intro b
    have hframe : ((c.perform m a).1.settle m phase b).1.workspace = (c.perform m a).1.workspace :=
      congrArg Holdings.workspace (settle_frame m (c.perform m a).1 phase b).1
    rw [hframe]
    exact hperform
  have hd := dispatched m c phase a
  generalize c.dispatch m phase a = r at hd ⊢
  obtain ⟨c', report⟩ := r
  dsimp only at hd ⊢
  cases hd with
  | unauthorized =>
    have hframe : (c.phasePolicy phase a.path).1.workspace = c.workspace :=
      congrArg Holdings.workspace (phasePolicy_frame c phase a.path).1
    rw [hframe]
    exact h
  | refused => exact h
  | unnamed => exact h
  | notPerformed => exact hperform
  | notSettled meshAffecting => exact hsettle meshAffecting
  | done meshAffecting => exact hsettle meshAffecting

/-- The loop keeps a delta in place, however it ends. -/
theorem dispatchEdits_inPlace {delta : Delta} {edits : List CaseAction}
    (hedits : ∀ a ∈ edits, IsEdit delta a) (h : InPlace c.workspace delta) :
    InPlace (c.dispatchEdits m ex edits).1.workspace delta := by
  induction edits generalizing c with
  | nil => exact h
  | cons a edits ih =>
    have hdispatch := dispatch_inPlace (m := m) ex.phase (hedits a List.mem_cons_self) h
    unfold dispatchEdits
    split_ifs
    · show InPlace (c.recordExhaustion ex a).workspace delta
      unfold recordExhaustion
      split_ifs <;> exact h
    · generalize c.dispatch m ex.phase a = r at hdispatch ⊢
      obtain ⟨c', report⟩ := r
      cases report with
      | none => exact hdispatch
      | some event =>
        dsimp only
        split_ifs
        · exact ih (fun a' ha' => hedits a' (List.mem_cons_of_mem _ ha')) hdispatch
        · exact hdispatch

/-! ### Executed deltas -/

/-- The delta is applied and every edit of it reported as done, or no file of it changed. -/
def Atomic (c : Controller) (delta : Delta) (result : Controller × Report) : Prop :=
  (result.2 = .reported ∧ InPlace result.1.workspace delta) ∨
    Untouched c.workspace result.1.workspace delta

/-- The executor returns before the commit. -/
def Gated (ex : Executor) (c : Controller) (delta : Delta) (edits : List CaseAction) : Prop :=
  ex.budget.allowance c < ex.budget.spent c + (edits.length + delta.consumers) ∨
    delta.toolchainReady = false

/-- The delta gives each place one text, and drops no place it writes. -/
def PlainDelta (delta : Delta) : Prop :=
  CaseWorkspace.Consistent delta.changedFiles.items ∧
    ∀ p ∈ delta.dropPaths, locate p ∉ CaseWorkspace.places delta.changedFiles.items

/-- The delta gives each place one text; it is in the case when it is executed, or every edit of
it passes the guards of the dispatcher in the state it is dispatched in. A transaction that
raises has left the files of the delta as they were. -/
def Audits (m : Machine) (ex : Executor) (c : Controller) (delta : Delta)
    (edits : List CaseAction) : Prop :=
  Gated ex c delta edits ∨
    match c.commit m delta.changedFiles.items delta.dropPaths with
    | (c', .error _) => Untouched c.workspace c'.workspace delta
    | (c', .ok ()) => PlainDelta delta ∧ (InPlace c.workspace delta ∨
        Runs.Meets (fun c a => c.edit m ex.phase a) (AdmittedBy m ex) c' edits)

theorem commit_inPlace {c' : Controller} {delta : Delta} (hplain : PlainDelta delta)
    (h : c.commit m delta.changedFiles.items delta.dropPaths = (c', .ok ())) :
    InPlace c'.workspace delta ∧ SameRound c c' := by
  unfold commit at h
  split at h
  · cases h
  · rename_i w committed hcommit
    cases h
    obtain ⟨hfiles, hdrops, -⟩ :=
      CaseWorkspace.commitTextTransaction_returns hplain.1 hplain.2 hcommit
    exact ⟨⟨hfiles, hdrops⟩, rfl, rfl, rfl⟩

theorem execute_of_gated {delta : Delta} {edits : List CaseAction}
    (h : Gated ex c delta edits) : c.execute m ex delta edits = (c, .gated) := by
  unfold execute
  split_ifs with hbudget hready
  · rfl
  · rfl
  · exact absurd (by simpa using hready) (h.resolve_left hbudget ▸ Bool.false_ne_true)

theorem execute_of_not_gated {delta : Delta} {edits : List CaseAction}
    (h : ¬ Gated ex c delta edits) :
    c.execute m ex delta edits =
      match c.commit m delta.changedFiles.items delta.dropPaths with
      | (c', .error e) => (c', .notCommitted e)
      | (c', .ok ()) => c'.dispatchEdits m ex edits := by
  obtain ⟨hbudget, hready⟩ := not_or.1 h
  unfold execute
  rw [if_neg hbudget, Bool.not_eq_false] at *
  rw [hready]
  rfl

/-- An executed delta is atomic when it is audited without a refusal, and, if it gives each
place one text, only then. -/
theorem execute_atomic (m : Machine) (ex : Executor) (c : Controller) {delta : Delta}
    {edits : List CaseAction} (hedits : ∀ a ∈ edits, IsEdit delta a) :
    (Audits m ex c delta edits → Atomic c delta (c.execute m ex delta edits)) ∧
      (PlainDelta delta → Atomic c delta (c.execute m ex delta edits) →
        Audits m ex c delta edits) := by
  by_cases hgated : Gated ex c delta edits
  · rw [execute_of_gated hgated]
    exact ⟨fun _ => .inr ⟨fun _ _ => rfl, fun _ _ => rfl⟩, fun _ _ => .inl hgated⟩
  rw [execute_of_not_gated hgated]
  unfold Audits
  rw [or_iff_right hgated]
  cases hcommit : c.commit m delta.changedFiles.items delta.dropPaths with
  | mk c' r =>
    cases r with
    | error e =>
      exact ⟨fun h => .inr h, fun _ h => h.resolve_left fun hreported => by cases hreported.1⟩
    | ok _ =>
      have hreport : PlainDelta delta → InPlace (c'.dispatchEdits m ex edits).1.workspace delta ∧
          ((c'.dispatchEdits m ex edits).2 = .reported ↔
            Runs.Meets (fun c a => c.edit m ex.phase a) (AdmittedBy m ex) c' edits) := by
        intro hplain
        obtain ⟨hplace, hround⟩ := commit_inPlace hplain hcommit
        obtain ⟨hspent, hallowance⟩ := spent_of_sameRound hround ex.budget
        have hnot := (not_or.1 hgated).1
        exact ⟨dispatchEdits_inPlace hedits hplace, dispatchEdits_reported_iff (by omega)⟩
      dsimp only
      constructor
      · rintro ⟨hplain, hbefore | hadmitted⟩
        · exact .inr (hbefore.untouched (hreport hplain).1)
        · exact .inl ⟨(hreport hplain).2.2 hadmitted, (hreport hplain).1⟩
      · rintro hplain (⟨hreported, -⟩ | huntouched)
        · exact ⟨hplain, .inr ((hreport hplain).2.1 hreported)⟩
        · exact ⟨hplain, .inl ((hreport hplain).1.of_untouched huntouched)⟩

/-! ### The four executors -/

/-- A call of one of the executors. -/
inductive Call where
  | casePlan (plan : EngineeringPlan)
  | prepareRepair
  | strategyRevision
  | runtimeRepair (approvedSolver : Text) (runtimeEventStart : ℕ) (plan : EngineeringPlan)

namespace Call

/-- The execution of a delta by the call. -/
def run (m : Machine) (c : Controller) (delta : Delta) : Call → Controller × Report
  | casePlan plan => c.executeCasePlan m plan delta
  | prepareRepair => c.executePrepareRepairPlan m delta
  | strategyRevision => c.executeStrategyRevision m delta
  | runtimeRepair approvedSolver start plan =>
    c.executeRuntimeRepairPlan m approvedSolver start plan delta

def executor : Call → Executor
  | casePlan _ => ⟨.prepare, .toolActions, true⟩
  | prepareRepair | strategyRevision => ⟨.prepare, .toolActions, false⟩
  | runtimeRepair _ start _ => ⟨.runtimeRepair, .runtimeRepairActions start, false⟩

/-- What the call makes of a delta: only a strategy revision drops files. -/
def compiled (delta : Delta) : Call → Delta
  | strategyRevision => delta
  | _ => { delta with dropPaths := [] }

def edits (delta : Delta) : Call → List CaseAction
  | strategyRevision => delta.deletes ++ delta.writes
  | _ => delta.writes

/-- The state in which the call comes to the budget check, if it does. -/
def entered (c : Controller) (delta : Delta) : Call → Option Controller
  | casePlan plan =>
    if !delta.toolchainReady then none else some { c with pendingExecutionPlan := some plan }
  | prepareRepair | strategyRevision => some c
  | runtimeRepair approvedSolver _ plan =>
    match c.authorizeRepair plan delta.changedFiles with
    | .error _ => none
    | .ok c' => if plan.solver ≠ approvedSolver then none else some c'

/-- The call is not entered, or it is audited without a refusal. -/
def Sound (m : Machine) (c : Controller) (delta : Delta) (call : Call) : Prop :=
  ∀ c', call.entered c delta = some c' →
    Audits m call.executor c' (call.compiled delta) (call.edits delta)

theorem authorizeRepair_workspace {c' : Controller} {plan : EngineeringPlan}
    {changedFiles : Dict Text Text} (h : c.authorizeRepair plan changedFiles = .ok c') :
    c'.workspace = c.workspace := by
  unfold authorizeRepair at h
  split at h
  · cases h; rfl
  · split at h
    · cases h
    · split at h
      · cases h
      · cases h; rfl

theorem run_of_entered {c' : Controller} {delta : Delta} {call : Call}
    (h : call.entered c delta = some c') :
    call.run m c delta = c'.execute m call.executor (call.compiled delta) (call.edits delta) ∧
      c'.workspace = c.workspace := by
  cases call with
  | casePlan plan =>
    simp only [entered] at h
    split_ifs at h with hready
    cases h
    refine ⟨?_, rfl⟩
    show c.executeCasePlan m plan delta = _
    unfold executeCasePlan
    rw [if_neg hready]
    rfl
  | prepareRepair => cases h; exact ⟨rfl, rfl⟩
  | strategyRevision => cases h; exact ⟨rfl, rfl⟩
  | runtimeRepair approvedSolver start plan =>
    simp only [entered] at h
    split at h
    · cases h
    · rename_i authorized hgate
      split_ifs at h with hsolver
      cases h
      refine ⟨?_, authorizeRepair_workspace hgate⟩
      show c.executeRuntimeRepairPlan m approvedSolver start plan delta = _
      unfold executeRuntimeRepairPlan
      rw [hgate]
      dsimp only
      rw [if_neg hsolver]
      rfl

theorem run_of_not_entered {delta : Delta} {call : Call} (h : call.entered c delta = none) :
    (call.run m c delta).1.workspace = c.workspace := by
  cases call with
  | casePlan plan =>
    simp only [entered] at h
    split_ifs at h with hready
    show (c.executeCasePlan m plan delta).1.workspace = _
    unfold executeCasePlan
    rw [if_pos hready]
  | prepareRepair => cases h
  | strategyRevision => cases h
  | runtimeRepair approvedSolver start plan =>
    simp only [entered] at h
    show (c.executeRuntimeRepairPlan m approvedSolver start plan delta).1.workspace = _
    unfold executeRuntimeRepairPlan
    cases hgate : c.authorizeRepair plan delta.changedFiles with
    | error e => rfl
    | ok authorized =>
      rw [hgate] at h
      dsimp only at h ⊢
      split_ifs at h with hsolver
      rw [if_pos hsolver]
      exact authorizeRepair_workspace hgate

theorem isEdit_of_mem_edits (delta : Delta) (call : Call) {a : CaseAction}
    (h : a ∈ call.edits delta) : IsEdit (call.compiled delta) a := by
  cases call with
  | strategyRevision => exact (List.mem_append.1 h).symm
  | casePlan _ => exact .inl h
  | prepareRepair => exact .inl h
  | runtimeRepair _ _ _ => exact .inl h

end Call

/-! ### Examples -/

/-- A machine on which nothing fails and no mesh evidence is recorded. -/
def quietMachine : Machine := ⟨.reliable, fun _ _ => .ok ⟨[]⟩⟩

/-- A repair of `system/fvSchemes`. -/
def schemesDelta : Delta where
  changedFiles := .ofItems [("system/fvSchemes".toList, "ddt backward;\n".toList)]

/-- A controller whose round has the events `events`. -/
def roundOf (events : List EngineeringEvent) : Controller where
  workspace := caseWith "deltaT 1e-3;\n"
  engineeringPlan := some (planWith [])
  engineeringEvents := events

/-- A mesh command that failed. -/
def meshFailure : EngineeringEvent where
  actionType := "run_mesh_command".toList
  success := false
  summary := .other "checkMesh failed".toList
  meshCommandExecuted := true

/-- An edit after it. -/
def meshEdit : EngineeringEvent where
  actionType := "write_case_file".toList
  success := true
  summary := .wrote "system/blockMeshDict".toList

/-- Six mesh repair cycles, and the mesh command that failed after the last. -/
def exhaustedRound : List EngineeringEvent :=
  (List.replicate 6 [meshFailure, meshEdit]).flatten ++ [meshFailure]

end Engineering
end OpenFoamAgent
