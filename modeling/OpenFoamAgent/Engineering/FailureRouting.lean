/-
# Where a failed event goes

`_record_unresolved_failure` and `_route_failed_event` of `engineering/agent.py`,
`dispatch_prepare`, and the paths of the prepare phase that dispatch tool events:
the single action and the action sequence of `decision_controller.py`, the case
plan of `authoring_controller.py`, and the repair plan, the strategy revision and
the blockMesh repair of `repair_controller.py`.

What a tool answers, what the gates of a preview find and what an action
compiles to are arguments: the results hold whatever these are. Three of the
paths route a failed event. The other three return what the dispatcher says,
which for a failed event is that the round goes on; `routed_iff` is exact about
what follows.
-/
import OpenFoamAgent.Workflow.State

namespace OpenFoamAgent
namespace Engineering
namespace Routing

open Python Workflow

/-! ### Events and failures -/

/-- `EngineeringEvent.failure_category`. -/
inductive FailureCategory where
  | case | tool | infra | security | userContract
  deriving DecidableEq

namespace FailureCategory

/-- The categories that `_route_failed_event` stops at. -/
def stops (c : FailureCategory) : Bool := [tool, infra, security, userContract].contains c

/-- The labels of `_route_failed_event`. -/
def label : FailureCategory → Text
  | case => []
  | tool => "validation/tool infrastructure".toList
  | infra => "workflow/runtime infrastructure".toList
  | security => "security/execution policy".toList
  | userContract => "confirmed user contract".toList

/-- Only case failures are left to another turn. -/
theorem stops_eq_false_iff {c : FailureCategory} : c.stops = false ↔ c = case := by
  cases c <;> decide

end FailureCategory

inductive ValidationStatus where
  | pass | fail | inconclusive
  deriving DecidableEq

/-- `EngineeringEvent`, the fields that a failure record holds. -/
structure ToolEvent where
  step : ℕ
  actionType : Text
  success : Bool
  validationStatus : ValidationStatus
  summary : Text
  outputExcerpt : Text := []
  failureSignature : Option Text := none
  failureCategory : Option FailureCategory := none
  deriving DecidableEq

/-- `_failure_record`. -/
structure FailureRecord where
  step : ℕ
  actionType : Text
  category : FailureCategory
  validationStatus : ValidationStatus
  summary : Text
  outputExcerpt : Text
  failureSignature : Option Text
  deriving DecidableEq

namespace ToolEvent

/-- `_event` of a failure. -/
def failure (step : ℕ) (actionType summary : Text) (output : Text := [])
    (category : Option FailureCategory := none) (signature : Option Text := none) : ToolEvent where
  step := step
  actionType := actionType
  success := false
  validationStatus := .fail
  summary := summary
  outputExcerpt := output
  failureSignature := signature
  failureCategory := category

/-- `_event` of a success. -/
def done (step : ℕ) (actionType summary : Text) (output : Text := []) : ToolEvent where
  step := step
  actionType := actionType
  success := true
  validationStatus := .pass
  summary := summary
  outputExcerpt := output

variable (e : ToolEvent)

/-- `event.failure_category or "case"`. -/
def category : FailureCategory := e.failureCategory.getD .case

/-- `_failure_record`. -/
def record : FailureRecord where
  step := e.step
  actionType := e.actionType
  category := e.category
  validationStatus := e.validationStatus
  summary := e.summary
  outputExcerpt := e.outputExcerpt.take 4000
  failureSignature := e.failureSignature

/-- The record is of the failure `e`, by the comparison of `_record_unresolved_failure`. -/
def RecordedAs (r : FailureRecord) : Prop :=
  r.actionType = e.actionType ∧ r.summary = e.summary ∧ r.failureSignature = e.failureSignature

instance (r : FailureRecord) : Decidable (e.RecordedAs r) :=
  inferInstanceAs (Decidable (_ ∧ _ ∧ _))

/-- A failure that no repair turn may be given. -/
def Stops : Prop := e.success = false ∧ e.category.stops = true

instance : Decidable e.Stops := inferInstanceAs (Decidable (_ ∧ _))

end ToolEvent

/-! ### The round -/

/-- The state of a round: the fields of `CFDState` and of the agent that the paths change, and
`rest` for everything else that tools and gates read or change. -/
structure Round (P W : Type) where
  currentState : State
  history : List HistoryEntry := []
  primaryFailure : Option FailureRecord := none
  secondaryFailures : List FailureRecord := []
  engineeringEvents : List ToolEvent := []
  engineeringRoundStartIndex : ℕ := 0
  pendingExecutionPlan : Option P := none
  rest : W

namespace Round

variable {P W : Type} (s : Round P W)

/-- `transition`. -/
def transition (newState : State) (note : Text) : Round P W :=
  { s with
    history := s.history ++ [⟨s.currentState, newState, note⟩]
    currentState := newState }

/-- `state.engineering_events.append(event)`. -/
def append (e : ToolEvent) : Round P W :=
  { s with engineeringEvents := s.engineeringEvents ++ [e] }

/-- Everything else, behind a call that changed it. -/
def setRest (rest : W) : Round P W := { s with rest := rest }

/-- `self._pending_execution_plan = plan`. -/
def setPendingPlan (plan : Option P) : Round P W := { s with pendingExecutionPlan := plan }

/-- `_current_round_events`. -/
def currentRoundEvents : List ToolEvent :=
  s.engineeringEvents.drop (min s.engineeringRoundStartIndex s.engineeringEvents.length)

/-- `_tool_action_count`. -/
def toolActionCount : ℕ := s.currentRoundEvents.length

/-- `_record_unresolved_failure`. -/
def recordUnresolvedFailure (e : ToolEvent) : Round P W :=
  match s.primaryFailure with
  | none => { s with primaryFailure := some e.record }
  | some prior =>
    if e.RecordedAs prior then s
    else if s.secondaryFailures.length < 16 then
      { s with secondaryFailures := s.secondaryFailures ++ [e.record] }
    else s

/-- `_route_failed_event`. -/
def routeFailedEvent (e : ToolEvent) (defaultTerminal : Bool) : Bool × Round P W :=
  if e.success then (defaultTerminal, s)
  else
    let s' := s.recordUnresolvedFailure e
    if e.category.stops then
      (true, s'.transition .engineeringBlocked
        ("Engineering stopped by ".toList ++ e.category.label ++
          " failure; CFD case repair was not invoked: ".toList ++ e.summary))
    else (defaultTerminal, s')

/-- `_clear_unresolved_failure`. -/
def clearUnresolvedFailure : Round P W := { s with primaryFailure := none, secondaryFailures := [] }

/-- `_resolve_failure_action`. -/
def resolveFailureAction (actionType : Text) : Round P W :=
  let primary := s.primaryFailure.filter (·.actionType ≠ actionType)
  let remaining := s.secondaryFailures.filter (·.actionType ≠ actionType)
  match primary, remaining with
  | none, first :: others => { s with primaryFailure := some first, secondaryFailures := others }
  | _, _ => { s with primaryFailure := primary, secondaryFailures := remaining }

/-- The failure `e` is recorded as unresolved. -/
def Recorded (e : ToolEvent) : Prop :=
  (∃ r ∈ s.primaryFailure, e.RecordedAs r) ∨ ∃ r ∈ s.secondaryFailures, e.RecordedAs r

/-- The events of `r` behind those of `s`. -/
def newEvents (r : Bool × Round P W) : List ToolEvent :=
  r.2.engineeringEvents.drop s.engineeringEvents.length

/-- There is room for the failure `e` among the unresolved ones, or it is one of them. -/
def Admits (e : ToolEvent) : Prop :=
  s.primaryFailure = none ∨ s.Recorded e ∨ s.secondaryFailures.length < 16

end Round

/-! ### Dispatching one action -/

/-- `BlockAction`. -/
structure BlockAction where
  reason : Text
  engineeringChoiceMissing : Bool := false
  missingItems : List Text := []
  needsUserInput : Bool := false

/-- The actions of the prepare phase: a tool action, or one that `dispatch_prepare` answers
itself. -/
inductive PrepareAction (P A : Type) where
  | finishPreview (plan : P)
  | retrySolver
  | block (action : BlockAction)
  | tool (action : A)

/-- What `dispatch_prepare` finds out about a preview: its failures, the advisory gaps, and
everything that the checks changed, with the seal when there is no failure. -/
structure PreviewCheck (W : Type) where
  failures : List Text
  warnings : List Text
  rest : W

/-- The answer of `_dispatch_tool_action`; `resolves` says that the readiness validation passed
and called `_resolve_failure_action`. -/
structure ToolAnswer (W : Type) where
  event : ToolEvent
  resolves : Bool
  rest : W

/-- What a single action meets before it is dispatched. -/
inductive Support (W : Type) where
  /-- A retrieval in front of a first direct repair attempt. -/
  | deferred
  /-- A retrieval that was made before. -/
  | duplicate
  | dispatched (rest : W)

/-- What the paths call. -/
structure Tools (P A W : Type) where
  maxToolActions : ℕ
  maxCasePlanAuthoringRetries : ℕ
  nativeExecution : Bool
  requireSolveReadyGate : Bool
  actionType : A → Text
  dispatchToolAction : A → Round P W → ToolAnswer W
  checkPreview : P → Round P W → PreviewCheck W
  /-- `_recoverable_precommit_authoring_block`, with the paths it found. -/
  recoverableBlock : BlockAction → Round P W → Option (List Text)
  support : PrepareAction P A → Round P W → Support W

/-- `separator.join(items)`. -/
def joined (separator : Text) (items : List Text) : Text := List.intercalate separator items

/-- The event, whether it ends the round, and the round behind the action. -/
structure Dispatched (P W : Type) where
  event : ToolEvent
  terminal : Bool
  round : Round P W

section
variable {P A W : Type} (t : Tools P A W) (step : ℕ)

/-- `action.type`. -/
def PrepareAction.type : PrepareAction P A → Text
  | .finishPreview _ => "finish_preview".toList
  | .retrySolver => "retry_solver".toList
  | .block _ => "block".toList
  | .tool a => t.actionType a

/-- The accepted branch of `dispatch_prepare` for a preview. -/
def acceptPreview (check : PreviewCheck W) (s : Round P W) : Dispatched P W :=
  let s' := (s.setRest check.rest).clearUnresolvedFailure
  let gated := t.nativeExecution && t.requireSolveReadyGate
  let ready :=
    if gated then
      (s'.transition .meshReady
          "Current case passed checkMesh and mesh evidence gates.".toList).transition
        .preSolveValidation
        "Mesh-ready case entered deterministic pre-solve completeness validation.".toList
    else s'
  let round :=
    if gated then
      ready.transition .solveReady
        ("Agent case passed safety/integrity, checkMesh, and pre-solve completeness ".toList ++
          "gates. Solver approval is required.".toList)
    else if t.nativeExecution then
      ready.transition .meshReady
        ("Agent case passed safety/integrity gates and checkMesh. ".toList ++
          "Solver approval is required.".toList)
    else
      ready.transition .casePreviewReady
        ("Agent case preview passed static safety/integrity gates; ".toList ++
          "native tools were not executed.".toList)
  let summary :=
    if check.warnings = [] then "Engineering plan accepted and case sealed.".toList
    else "Engineering plan accepted and case sealed with ".toList ++
      (Nat.repr check.warnings.length).toList ++ " advisory semantic-assurance gap(s).".toList
  ⟨.done step "finish_preview".toList summary (joined ['\n'] check.warnings), true, round⟩

/-- The branch of `dispatch_prepare` for a block. -/
def dispatchBlock (action : BlockAction) (s : Round P W) : Dispatched P W :=
  match t.recoverableBlock action s with
  | some paths =>
    let details := ("modelReason=".toList ++ action.reason) ::
      (if paths = [] then []
        else ["agentOwnedGeneratedArtifacts=".toList ++ joined ", ".toList (paths.take 12)])
    ⟨.failure step "block".toList
      ("Pre-commit authoring strategy is infeasible; escalating to Agent strategy ".toList ++
        "revision instead of terminally blocking.".toList)
      (joined ['\n'] details) (some .case) (some "authoring_feasibility:precommit_strategy".toList),
      false, s⟩
  | none =>
    if action.engineeringChoiceMissing then
      let missing := joined ", ".toList (action.missingItems.take 12)
      ⟨.failure step "block".toList
        ("Block rejected by delegated-assumption policy: choose the missing engineering ".toList ++
          "details as engineering_defaults.".toList)
        ("delegatedMissing=".toList ++
          if missing = [] then "delegated engineering details".toList else missing)
        none (some "assumption_policy:delegated_engineering_choice".toList), false, s⟩
    else
      ⟨.done step "block".toList action.reason, true,
        s.transition
          (if action.needsUserInput then .engineeringReviewRequired else .engineeringBlocked)
          action.reason⟩

/-- `dispatch_prepare`. -/
def dispatchPrepare (action : PrepareAction P A) (s : Round P W) : Dispatched P W :=
  match action with
  | .finishPreview plan =>
    let check := t.checkPreview plan s
    if check.failures = [] then acceptPreview t step check s
    else
      ⟨.failure step "finish_preview".toList
        "Engineering plan rejected by deterministic safety/evidence gate.".toList
        (joined ['\n'] check.failures), false, s.setRest check.rest⟩
  | .retrySolver =>
    ⟨.failure step "retry_solver".toList
      "retry_solver is only valid after a solver failure.".toList, false, s⟩
  | .block b => dispatchBlock t step b s
  | .tool a =>
    let answer := t.dispatchToolAction a s
    let s' := s.setRest answer.rest
    ⟨answer.event, false,
      if answer.resolves then s'.resolveFailureAction (t.actionType a) else s'⟩

/-! ### The dispatch loop -/

/-- The note of a round that ran out of actions. -/
def budgetNote : Text :=
  "Engineering deterministic action budget exhausted (".toList ++
    (Nat.repr t.maxToolActions).toList ++ ").".toList

/-- What a dispatch loop does with an action in front of which the budget is spent, and with a
failed event. -/
structure LoopRule where
  /-- What stopped, in the event of a spent budget; without it no event is recorded. -/
  stopped : Option Text
  /-- Failed events go through `_route_failed_event`. -/
  routes : Bool
  /-- `self._pending_execution_plan = None` when the loop ends well. -/
  settles : Bool

/-- The event in front of an action for which there is no budget. -/
def budgetEvent (what : Text) (action : PrepareAction P A) : ToolEvent :=
  .failure step (action.type t)
    ("Engineering deterministic action budget exhausted (".toList ++
      (Nat.repr t.maxToolActions).toList ++ "); ".toList ++ what ++ " stopped.".toList)
    [] (some .infra)

/-- The loop over compiled actions. -/
def dispatchLoop (rule : LoopRule) : List (PrepareAction P A) → Round P W → Bool × Round P W
  | [], s => (false, s)
  | action :: actions, s =>
    if t.maxToolActions ≤ s.toolActionCount then
      let s' := match rule.stopped with
        | some what => s.append (budgetEvent t step what action)
        | none => s
      (true, s'.transition .engineeringBlocked (budgetNote t))
    else
      let x := dispatchPrepare t step action s
      let s' := x.round.append x.event
      if x.event.success = false then
        if rule.routes then s'.routeFailedEvent x.event x.terminal else (x.terminal, s')
      else if x.terminal then
        (true, if rule.settles then s'.setPendingPlan none else s')
      else dispatchLoop rule actions s'

/-! ### The paths -/

/-- The event with which a path refuses an action before anything is changed. -/
structure Refusal where
  actionType : Text
  summary : Text
  output : Text := []
  /-- The event names its category, which is the case. -/
  named : Bool := false
  signature : Option Text := none

def Refusal.event (r : Refusal) : ToolEvent :=
  .failure step r.actionType r.summary r.output (if r.named then some .case else none) r.signature

/-- What an action compiles to before the first dispatch. -/
inductive Preparation (P A W : Type) where
  | refused (r : Refusal) (rest : W)
  /-- The actions, and the failures of `_native_toolchain_preflight`. -/
  | compiled (actions : List (PrepareAction P A)) (toolchain : List Text) (rest : W)

/-- The event of a retrieval in front of a first direct repair attempt. -/
def deferredEvent (action : PrepareAction P A) : ToolEvent :=
  { ToolEvent.failure step (action.type t)
      ("Reference retrieval deferred: the current native diagnostic already enumerates ".toList ++
        "supported alternatives and implicated files are available; ".toList ++
        "attempt one direct repair first.".toList)
      [] (some .case) with validationStatus := .inconclusive }

/-- The event of a retrieval that was made before. -/
def duplicateEvent (action : PrepareAction P A) : ToolEvent :=
  .done step (action.type t)
    ("Duplicate repair support retrieval suppressed; ".toList ++
      "reuse the evidence already observed for this failure generation.".toList)

/-- A single action, from the retrieval policy of `execute_prepare_decision_impl` on. -/
def executeAction (action : PrepareAction P A) (s : Round P W) : Bool × Round P W :=
  match t.support action s with
  | .deferred => (false, s.append (deferredEvent t step action))
  | .duplicate => (false, s.append (duplicateEvent t step action))
  | .dispatched rest =>
    let s := s.setRest rest
    if t.maxToolActions ≤ s.toolActionCount then
      (true, s.transition .engineeringBlocked (budgetNote t))
    else
      let x := dispatchPrepare t step action s
      let s' := x.round.append x.event
      if x.event.success = false then s'.routeFailedEvent x.event x.terminal else (x.terminal, s')

/-- `execute_prepare_sequence`. -/
def executePrepareSequence (actions : List (PrepareAction P A)) (s : Round P W) :
    Bool × Round P W :=
  dispatchLoop t step ⟨some "sequence".toList, true, false⟩ actions s

/-- A path whose toolchain is not runnable. -/
def blockUnavailable (e : ToolEvent) (note : Text) (s : Round P W) : Bool × Round P W :=
  (true, ((s.append e).recordUnresolvedFailure e).transition .engineeringBlocked note)

/-- The event of a toolchain that is not runnable. -/
def toolchainEvent (summary : Text) (failures : List Text) : ToolEvent :=
  { ToolEvent.failure step "native_toolchain_preflight".toList summary
      (joined ['\n'] (failures.map ("- ".toList ++ ·))) (some .infra) with
    validationStatus := .inconclusive }

/-- The summary of an unrunnable toolchain in front of a case plan. -/
def casePlanUnavailable : Text :=
  "Selected OpenFOAM native toolchain is not runnable under the sanitized environment; ".toList ++
    "no candidate case files were written and CFD repair was not invoked.".toList

/-- The summary of an unrunnable toolchain in front of a repair plan. -/
def repairUnavailable : Text :=
  "Repair delta requires an unavailable native OpenFOAM toolchain; ".toList ++
    "no case mutation was committed and CFD repair was not recursively invoked.".toList

/-- The summary of an unrunnable toolchain in front of a strategy revision. -/
def strategyUnavailable : Text :=
  "Mesh-strategy revision requires an unavailable native OpenFOAM toolchain; ".toList ++
    "no strategy delta was committed.".toList

/-- A path whose actions the budget does not cover. -/
def blockUncovered (graph : Text) (total : ℕ) (s : Round P W) : Bool × Round P W :=
  (true, s.transition .engineeringBlocked
    ("Engineering deterministic action budget cannot cover atomic ".toList ++ graph ++
      " (".toList ++ (Nat.repr total).toList ++ " needed, ".toList ++
      (toString ((t.maxToolActions : ℤ) - s.toolActionCount)).toList ++ " remaining).".toList))

/-- The action types of `_case_plan_authoring_failure_count`. -/
def authoringFailureTypes : List Text :=
  ["typed_dictionary_serialize".toList, "block_mesh_serialize".toList,
    "case_bundle_preflight".toList, "authoring_semantic_conflict".toList, "case_build_graph".toList]

/-- `_record_case_plan_authoring_failure`. -/
def recordCasePlanAuthoringFailure (e : ToolEvent) (s : Round P W) : Bool × Round P W :=
  let s' := s.append e
  let failures := s'.currentRoundEvents.countP fun e =>
    !e.success && authoringFailureTypes.contains e.actionType
  if t.maxCasePlanAuthoringRetries ≤ failures then
    (true, s'.transition .engineeringBlocked
      ("Complete case-plan authoring repeatedly failed deterministic pre-commit checks (".toList ++
        (Nat.repr failures).toList ++ "/".toList ++
        (Nat.repr t.maxCasePlanAuthoringRetries).toList ++ ").".toList))
  else (false, s')

/-- `execute_case_plan`. -/
def executeCasePlan (plan : P) (p : Preparation P A W) (s : Round P W) : Bool × Round P W :=
  match p with
  | .refused r rest =>
    recordCasePlanAuthoringFailure t (r.event step)
      ((s.setRest rest).setPendingPlan none)
  | .compiled actions toolchain rest =>
    if t.nativeExecution && toolchain ≠ [] then
      blockUnavailable (toolchainEvent step casePlanUnavailable toolchain)
        ("OpenFOAM native toolchain preflight failed before case commit; source/fix the ".toList ++
          "OpenFOAM ThirdParty/shared-library environment and retry. ".toList ++ casePlanUnavailable)
        (s.setPendingPlan none)
    else
      let s := (s.setRest rest).setPendingPlan (some plan)
      if t.maxToolActions < s.toolActionCount + actions.length then
        blockUncovered t "case build graph".toList actions.length s
      else dispatchLoop t step ⟨some "execution plan".toList, true, true⟩ actions s

/-- What `execute_prepare_repair_plan` and `execute_strategy_revision` have in common. -/
def executeDelta (graph unavailable : Text) (p : Preparation P A W) (s : Round P W) :
    Bool × Round P W :=
  match p with
  | .refused r rest => (false, (s.setRest rest).append (r.event step))
  | .compiled actions toolchain rest =>
    if t.maxToolActions < s.toolActionCount + actions.length then
      blockUncovered t graph actions.length s
    else if t.nativeExecution && toolchain ≠ [] then
      blockUnavailable (toolchainEvent step unavailable toolchain) unavailable s
    else dispatchLoop t step ⟨none, false, true⟩ actions (s.setRest rest)

/-- `execute_prepare_repair_plan`. -/
def executePrepareRepairPlan : Preparation P A W → Round P W → Bool × Round P W :=
  executeDelta t step "repair graph".toList repairUnavailable

/-- What a strategy revision comes to: the plan is revised before any commit, or a delta is
compiled. -/
inductive StrategyPreparation (P A W : Type) where
  | revised (output : Text) (rest : W)
  | delta (p : Preparation P A W)

/-- `execute_strategy_revision`. -/
def executeStrategyRevision : StrategyPreparation P A W → Round P W → Bool × Round P W
  | .revised output rest, s =>
    (false, (s.setRest rest).append (.done step "revise_mesh_strategy".toList
      ("Pre-commit engineering strategy revised; ".toList ++
        "complete case authoring will retry from the updated frozen draft.".toList) output))
  | .delta p, s =>
    executeDelta t step "strategy graph".toList strategyUnavailable p s

/-- `execute_block_mesh_repair`, which runs no preflight. -/
def executeBlockMeshRepair (p : Preparation P A W) (s : Round P W) : Bool × Round P W :=
  match p with
  | .refused r rest => (false, (s.setRest rest).append (r.event step))
  | .compiled actions _ rest =>
    dispatchLoop t step ⟨none, false, true⟩ actions (s.setRest rest)

/-- The paths that dispatch tool events, with what they are given. -/
inductive DispatchPath (P A W : Type) where
  | action (action : PrepareAction P A)
  | sequence (actions : List (PrepareAction P A))
  | casePlan (plan : P) (p : Preparation P A W)
  | repairPlan (p : Preparation P A W)
  | strategyRevision (p : StrategyPreparation P A W)
  | blockMeshRepair (p : Preparation P A W)

/-- A path: whether the round ends, and the round behind it. -/
def DispatchPath.run (s : Round P W) : DispatchPath P A W → Bool × Round P W
  | action a => executeAction t step a s
  | sequence actions => executePrepareSequence t step actions s
  | casePlan plan p => executeCasePlan t step plan p s
  | repairPlan p => executePrepareRepairPlan t step p s
  | strategyRevision p => executeStrategyRevision t step p s
  | blockMeshRepair p => executeBlockMeshRepair t step p s

/-! ### Routed failures -/

/-- The events are handled as their categories ask: a failure of a category that stops ends the
round in `ENGINEERING_BLOCKED` and is recorded as unresolved, and only case failures are behind
a round that goes on. -/
structure Handled (events : List ToolEvent) (r : Bool × Round P W) : Prop where
  stops : ∀ e ∈ events, e.Stops →
    r.1 = true ∧ r.2.currentState = .engineeringBlocked ∧ r.2.Recorded e
  repairs : r.1 = false → ∀ e ∈ events, e.success = false → e.category = .case

/-- The events of a path are handled. -/
def Routed (path : DispatchPath P A W) (s : Round P W) : Prop :=
  Handled (s.newEvents (path.run t step s)) (path.run t step s)

/-- No action of a loop meets a failure that the loop loses: of the answers, in their order, the
first failed one is a case failure, or the loop routes it and there is room to record it; and the
budget does not run out in front of an action, where this would be an unrecorded event. -/
def Harmless (rule : LoopRule) : List (PrepareAction P A) → Round P W → Prop
  | [], _ => True
  | action :: actions, s =>
    if t.maxToolActions ≤ s.toolActionCount then
      ∀ what ∈ rule.stopped, s.Recorded (budgetEvent t step what action)
    else
      let x := dispatchPrepare t step action s
      if x.event.success = false then
        x.event.category.stops = true → rule.routes = true ∧ x.round.Admits x.event
      else x.terminal = true ∨ Harmless rule actions (x.round.append x.event)

/-- The loop of a covered delta loses no failure, and there is room for that of its preflight. -/
def DeltaHarmless (unavailable : Text) (actions : List (PrepareAction P A)) (toolchain : List Text)
    (rest : W) (s : Round P W) : Prop :=
  s.toolActionCount + actions.length ≤ t.maxToolActions →
    if t.nativeExecution && toolchain ≠ [] then
      s.Admits (toolchainEvent step unavailable toolchain)
    else Harmless t step ⟨none, false, true⟩ actions (s.setRest rest)

/-- No turn of the path loses a failure. -/
def DispatchPath.Harmless (s : Round P W) : DispatchPath P A W → Prop
  | action a =>
    match t.support a s with
    | .dispatched rest => Routing.Harmless t step ⟨none, true, false⟩ [a] (s.setRest rest)
    | _ => True
  | sequence actions => Routing.Harmless t step ⟨some "sequence".toList, true, false⟩ actions s
  | casePlan plan (.compiled actions toolchain rest) =>
    if t.nativeExecution && toolchain ≠ [] then
      s.Admits (toolchainEvent step casePlanUnavailable toolchain)
    else
      s.toolActionCount + actions.length ≤ t.maxToolActions →
        Routing.Harmless t step ⟨some "execution plan".toList, true, true⟩ actions
          ((s.setRest rest).setPendingPlan (some plan))
  | repairPlan (.compiled actions toolchain rest) =>
    DeltaHarmless t step repairUnavailable actions toolchain rest s
  | strategyRevision (.delta (.compiled actions toolchain rest)) =>
    DeltaHarmless t step strategyUnavailable actions toolchain rest s
  | blockMeshRepair (.compiled actions _ rest) =>
    Routing.Harmless t step ⟨none, false, true⟩ actions (s.setRest rest)
  | _ => True

end

/-! ### One dispatch -/

section
variable {P A W : Type} {t : Tools P A W} {step : ℕ} {s : Round P W} {e : ToolEvent}

theorem recorded_recordUnresolvedFailure :
    (s.recordUnresolvedFailure e).Recorded e ↔ s.Admits e := by
  have hself : e.RecordedAs e.record := ⟨rfl, rfl, rfl⟩
  unfold Round.recordUnresolvedFailure
  cases hprimary : s.primaryFailure with
  | none => exact iff_of_true (.inl ⟨_, rfl, hself⟩) (.inl hprimary)
  | some prior =>
    dsimp only
    split_ifs with hsame hroom
    · have hrecorded : s.Recorded e := .inl ⟨prior, hprimary, hsame⟩
      exact iff_of_true hrecorded (.inr (.inl hrecorded))
    · exact iff_of_true (.inr ⟨_, by simp, hself⟩) (.inr (.inr hroom))
    · constructor
      · exact fun hrecorded => .inr (.inl hrecorded)
      · rintro (hnone | hrecorded | hlength)
        · cases hprimary.symm.trans hnone
        · exact hrecorded
        · exact absurd hlength hroom

theorem events_recordUnresolvedFailure :
    (s.recordUnresolvedFailure e).engineeringEvents = s.engineeringEvents := by
  unfold Round.recordUnresolvedFailure
  split
  · rfl
  · split_ifs <;> rfl

theorem events_routeFailedEvent (terminal : Bool) :
    (s.routeFailedEvent e terminal).2.engineeringEvents = s.engineeringEvents := by
  unfold Round.routeFailedEvent
  dsimp only
  split_ifs
  · rfl
  · exact events_recordUnresolvedFailure
  · exact events_recordUnresolvedFailure

theorem events_resolveFailureAction (actionType : Text) :
    (s.resolveFailureAction actionType).engineeringEvents = s.engineeringEvents := by
  unfold Round.resolveFailureAction
  dsimp only
  split <;> rfl

/-- The dispatcher records no event itself. -/
theorem events_dispatchPrepare (action : PrepareAction P A) :
    (dispatchPrepare t step action s).round.engineeringEvents = s.engineeringEvents := by
  cases action with
  | finishPreview plan =>
    simp only [dispatchPrepare]
    split_ifs
    · simp only [acceptPreview]
      split_ifs <;> rfl
    · rfl
  | retrySolver => rfl
  | block b =>
    simp only [dispatchPrepare, dispatchBlock]
    split
    · rfl
    · split_ifs <;> rfl
  | tool a =>
    simp only [dispatchPrepare]
    split_ifs
    · exact events_resolveFailureAction _
    · rfl

/-- A failed event never ends the round by itself. -/
theorem terminal_of_failed {action : PrepareAction P A}
    (h : (dispatchPrepare t step action s).event.success = false) :
    (dispatchPrepare t step action s).terminal = false := by
  cases action with
  | finishPreview plan =>
    simp only [dispatchPrepare] at h ⊢
    split_ifs at h ⊢
    · cases h
    · rfl
  | retrySolver => rfl
  | block b =>
    simp only [dispatchPrepare, dispatchBlock] at h ⊢
    split at h
    · rfl
    · by_cases hmissing : b.engineeringChoiceMissing = true
      · rw [if_pos hmissing]
      · rw [if_neg hmissing] at h
        cases h
  | tool a => rfl

/-! ### Handled events -/

theorem handled_nil (r : Bool × Round P W) : Handled [] r := ⟨nofun, fun _ => nofun⟩

/-- Events without failures are handled. -/
theorem handled_singleton_of_success {r : Bool × Round P W} (h : e.success = true) :
    Handled [e] r := by
  constructor
  · rintro _ (_ | ⟨_, ⟨⟩⟩) ⟨hfailed, -⟩
    cases h.symm.trans hfailed
  · rintro - _ (_ | ⟨_, ⟨⟩⟩) hfailed
    cases h.symm.trans hfailed

theorem handled_cons_of_success {r : Bool × Round P W} {events : List ToolEvent}
    (h : e.success = true) : Handled (e :: events) r ↔ Handled events r := by
  constructor
  · exact fun hall => ⟨fun e' he' => hall.stops e' (.tail _ he'),
      fun hr e' he' => hall.repairs hr e' (.tail _ he')⟩
  · intro hall
    constructor
    · rintro e' (_ | ⟨_, he'⟩) hstops
      · cases h.symm.trans hstops.1
      · exact hall.stops e' he' hstops
    · rintro hr e' (_ | ⟨_, he'⟩) hfailed
      · cases h.symm.trans hfailed
      · exact hall.repairs hr e' he' hfailed

/-- A failed event is handled when it is a case failure, or ends the round as it should. -/
theorem handled_failure {r : Bool × Round P W} (h : e.success = false) :
    Handled [e] r ↔ (e.category.stops = true →
      r.1 = true ∧ r.2.currentState = .engineeringBlocked ∧ r.2.Recorded e) := by
  constructor
  · exact fun hall hstops => hall.stops e (.head _) ⟨h, hstops⟩
  · intro hall
    constructor
    · rintro _ (_ | ⟨_, ⟨⟩⟩) hstops
      exact hall hstops.2
    · rintro hr _ (_ | ⟨_, ⟨⟩⟩) -
      by_contra hcase
      have hstops : e.category.stops = true := by
        rw [← Bool.not_eq_false]
        exact fun hstops => hcase (FailureCategory.stops_eq_false_iff.1 hstops)
      cases hr.symm.trans (hall hstops).1

/-- A routed failure is handled when there is room to record it. -/
theorem handled_route (h : e.success = false) (terminal : Bool) :
    Handled [e] (s.routeFailedEvent e terminal) ↔ (e.category.stops = true → s.Admits e) := by
  rw [handled_failure h]
  refine forall_congr' fun hstops => ?_
  simp only [Round.routeFailedEvent, h, hstops, Bool.false_eq_true, if_false, if_true]
  rw [← recorded_recordUnresolvedFailure]
  exact ⟨fun hall => hall.2.2, fun hrecorded => ⟨trivial, rfl, hrecorded⟩⟩

/-! ### The loop and the paths -/

/-- The events of a loop are handled exactly when it meets no failure that it loses. -/
theorem dispatchLoop_handled (rule : LoopRule) (actions : List (PrepareAction P A))
    (s : Round P W) :
    ∃ events,
      (dispatchLoop t step rule actions s).2.engineeringEvents = s.engineeringEvents ++ events ∧
      (Handled events (dispatchLoop t step rule actions s) ↔ Harmless t step rule actions s) := by
  induction actions generalizing s with
  | nil => exact ⟨[], (List.append_nil _).symm, iff_of_true (handled_nil _) trivial⟩
  | cons action actions ih =>
    by_cases hbudget : t.maxToolActions ≤ s.toolActionCount
    · simp only [dispatchLoop, Harmless, if_pos hbudget]
      cases rule.stopped with
      | none => exact ⟨[], (List.append_nil _).symm, iff_of_true (handled_nil _) nofun⟩
      | some what =>
        refine ⟨[budgetEvent t step what action], rfl, ?_⟩
        rw [handled_failure rfl]
        constructor
        · intro hall what' hwhat
          obtain rfl := Option.some.inj hwhat
          exact (hall rfl).2.2
        · exact fun hrecorded _ => ⟨rfl, rfl, hrecorded what rfl⟩
    · have hlog (e : ToolEvent) :
          ((dispatchPrepare t step action s).round.append e).engineeringEvents =
            s.engineeringEvents ++ [e] :=
        congrArg (· ++ [e]) (events_dispatchPrepare action)
      simp only [dispatchLoop, Harmless, if_neg hbudget]
      by_cases hfailed : (dispatchPrepare t step action s).event.success = false
      · simp only [if_pos hfailed]
        refine ⟨[(dispatchPrepare t step action s).event], ?_, ?_⟩
        · split_ifs
          · rw [events_routeFailedEvent, hlog]
          · exact hlog _
        · cases hroutes : rule.routes with
          | true =>
            rw [if_pos rfl, handled_route hfailed]
            exact forall_congr' fun _ => (and_iff_right rfl).symm
          | false =>
            rw [if_neg Bool.false_ne_true, handled_failure hfailed]
            refine forall_congr' fun _ => iff_of_false ?_ nofun
            rintro ⟨hterminal, -⟩
            cases hterminal.symm.trans (terminal_of_failed hfailed)
      · simp only [if_neg hfailed]
        have hsuccess := Bool.eq_true_of_not_eq_false hfailed
        by_cases hterminal : (dispatchPrepare t step action s).terminal = true
        · refine ⟨[(dispatchPrepare t step action s).event], ?_, ?_⟩
          · rw [if_pos hterminal]
            split_ifs <;> exact hlog _
          · exact iff_of_true (handled_singleton_of_success hsuccess) (.inl hterminal)
        · obtain ⟨events, hnew, hhandled⟩ :=
            ih ((dispatchPrepare t step action s).round.append
              (dispatchPrepare t step action s).event)
          refine ⟨(dispatchPrepare t step action s).event :: events, ?_, ?_⟩
          · rw [if_neg hterminal, hnew, hlog, List.append_assoc]
            rfl
          · rw [if_neg hterminal, handled_cons_of_success hsuccess, hhandled,
              or_iff_right hterminal]

theorem newEvents_eq {new : List ToolEvent} {r : Bool × Round P W}
    (hnew : r.2.engineeringEvents = s.engineeringEvents ++ new) : s.newEvents r = new := by
  rw [Round.newEvents, hnew, List.drop_left]

/-- A loop from a round with the events of `s`. -/
theorem handled_dispatchLoop (rule : LoopRule) (actions : List (PrepareAction P A))
    {s s' : Round P W} (h : s'.engineeringEvents = s.engineeringEvents) :
    Handled (s.newEvents (dispatchLoop t step rule actions s'))
        (dispatchLoop t step rule actions s') ↔ Harmless t step rule actions s' := by
  obtain ⟨events, hnew, hhandled⟩ := dispatchLoop_handled rule actions s'
  rwa [newEvents_eq (hnew.trans (congrArg (· ++ events) h))]

/-- A single action is a loop over it. -/
theorem executeAction_dispatched {action : PrepareAction P A} {rest : W}
    (h : t.support action s = .dispatched rest) :
    executeAction t step action s =
      dispatchLoop t step ⟨none, true, false⟩ [action] (s.setRest rest) := by
  simp only [executeAction, h, dispatchLoop, Bool.false_eq_true, if_false, if_true]
  split_ifs with hbudget hfailed hterminal
  · rfl
  · rfl
  · rw [hterminal]
  · rw [Bool.eq_false_of_not_eq_true hterminal]

/-- An unrunnable toolchain is handled when there is room to record it. -/
theorem handled_blockUnavailable {s' : Round P W} (summary note : Text) (failures : List Text)
    (h : s'.engineeringEvents = s.engineeringEvents) :
    Handled (s.newEvents (blockUnavailable (toolchainEvent step summary failures) note s'))
        (blockUnavailable (toolchainEvent step summary failures) note s') ↔
      s'.Admits (toolchainEvent step summary failures) := by
  have hnew : (blockUnavailable (toolchainEvent step summary failures) note s').2.engineeringEvents =
      s.engineeringEvents ++ [toolchainEvent step summary failures] :=
    (events_recordUnresolvedFailure (s := s'.append _)).trans (congrArg (· ++ _) h)
  have hrecorded :=
    recorded_recordUnresolvedFailure (s := s'.append (toolchainEvent step summary failures))
      (e := toolchainEvent step summary failures)
  rw [newEvents_eq hnew, handled_failure rfl]
  exact ⟨fun hall => hrecorded.1 (hall rfl).2.2, fun hroom _ => ⟨rfl, rfl, hrecorded.2 hroom⟩⟩

/-- A path whose actions are not covered records no event. -/
theorem handled_blockUncovered {s' : Round P W} {graph : Text} {total : ℕ}
    (h : s'.engineeringEvents = s.engineeringEvents) :
    Handled (s.newEvents (blockUncovered t graph total s')) (blockUncovered t graph total s') := by
  have hnew : (blockUncovered t graph total s').2.engineeringEvents = s.engineeringEvents ++ [] :=
    h.trans (List.append_nil _).symm
  rw [newEvents_eq hnew]
  exact handled_nil _

/-- A path that records one case failure, or none, is handled. -/
theorem handled_append {r : Bool × Round P W}
    (h : r.2.engineeringEvents = s.engineeringEvents ++ [e])
    (hcase : e.success = false → e.category = .case) : Handled (s.newEvents r) r := by
  rw [newEvents_eq h]
  cases hsuccess : e.success with
  | true => exact handled_singleton_of_success hsuccess
  | false =>
    rw [handled_failure hsuccess, hcase hsuccess]
    exact nofun

theorem category_refusal (r : Refusal) : (r.event step).category = .case := by
  unfold Refusal.event ToolEvent.category ToolEvent.failure
  split_ifs <;> rfl

theorem handled_executeDelta (graph unavailable : Text) (actions : List (PrepareAction P A))
    (toolchain : List Text) (rest : W) :
    Handled (s.newEvents (executeDelta t step graph unavailable (.compiled actions toolchain rest) s))
        (executeDelta t step graph unavailable (.compiled actions toolchain rest) s) ↔
      DeltaHarmless t step unavailable actions toolchain rest s := by
  unfold DeltaHarmless executeDelta
  dsimp only
  by_cases hcovered : s.toolActionCount + actions.length ≤ t.maxToolActions
  · rw [if_neg (not_lt.2 hcovered), forall_prop_of_true hcovered]
    split_ifs
    · exact handled_blockUnavailable _ _ _ rfl
    · exact handled_dispatchLoop _ _ rfl
  · rw [if_pos (not_le.1 hcovered), forall_prop_of_false hcovered, iff_true]
    exact handled_blockUncovered rfl

end

section
variable {P A W : Type} (t : Tools P A W) (step : ℕ)

/-- **Failures are routed exactly on the harmless turns.** -/
theorem routed_iff (path : DispatchPath P A W) (s : Round P W) :
    Routed t step path s ↔ path.Harmless t step s := by
  unfold Routed
  cases path with
  | action a =>
    cases hsupport : t.support a s with
    | deferred =>
      simp only [DispatchPath.run, DispatchPath.Harmless, executeAction, hsupport, iff_true]
      exact handled_append (s := s) (r := (false, s.append (deferredEvent t step a))) rfl
        fun _ => rfl
    | duplicate =>
      simp only [DispatchPath.run, DispatchPath.Harmless, executeAction, hsupport, iff_true]
      exact handled_append (s := s) (r := (false, s.append (duplicateEvent t step a))) rfl nofun
    | dispatched rest =>
      simp only [DispatchPath.run, DispatchPath.Harmless, hsupport,
        executeAction_dispatched hsupport]
      exact handled_dispatchLoop _ _ rfl
  | sequence actions => exact handled_dispatchLoop _ _ rfl
  | casePlan plan p =>
    cases p with
    | refused r rest =>
      refine iff_of_true ?_ trivial
      simp only [DispatchPath.run, executeCasePlan, recordCasePlanAuthoringFailure]
      split_ifs <;> exact handled_append rfl fun _ => category_refusal r
    | compiled actions toolchain rest =>
      simp only [DispatchPath.run, DispatchPath.Harmless, executeCasePlan]
      split_ifs with hready hcovered
      · exact handled_blockUnavailable (s := s) _ _ _ rfl
      · exact iff_of_true (handled_blockUncovered rfl) fun h => absurd h (not_le.2 hcovered)
      · have hcount : s.toolActionCount + actions.length ≤ t.maxToolActions := not_lt.1 hcovered
        rw [forall_prop_of_true hcount]
        exact handled_dispatchLoop _ _ rfl
  | repairPlan p =>
    cases p with
    | refused r rest =>
      exact iff_of_true (handled_append rfl fun _ => category_refusal r) trivial
    | compiled actions toolchain rest => exact handled_executeDelta _ _ _ _ _
  | strategyRevision p =>
    rcases p with ⟨output, rest⟩ | ⟨r, rest⟩ | ⟨actions, toolchain, rest⟩
    · exact iff_of_true (handled_append rfl nofun) trivial
    · exact iff_of_true (handled_append rfl fun _ => category_refusal r) trivial
    · exact handled_executeDelta _ _ _ _ _
  | blockMeshRepair p =>
    cases p with
    | refused r rest => exact iff_of_true (handled_append rfl fun _ => category_refusal r) trivial
    | compiled actions toolchain rest => exact handled_dispatchLoop _ _ rfl

end

/-! ### A lost failure -/

/-- The answer to a mesh command where native execution is disabled. -/
def disabledEvent : ToolEvent :=
  { ToolEvent.failure 1 "run_mesh_command".toList
      "Native execution is disabled; blockMesh was not run.".toList [] (some .infra) with
    validationStatus := .inconclusive }

/-- Tools without native execution. -/
def disabledTools : Tools Unit Unit Unit where
  maxToolActions := 160
  maxCasePlanAuthoringRetries := 3
  nativeExecution := false
  requireSolveReadyGate := true
  actionType _ := "run_mesh_command".toList
  dispatchToolAction _ _ := ⟨disabledEvent, false, ()⟩
  checkPreview _ _ := ⟨[], [], ()⟩
  recoverableBlock _ _ := none
  support _ _ := .dispatched ()

/-- A repair plan hands an infrastructure failure to the next repair turn and records nothing,
where a sequence of the same action blocks the round. -/
theorem lost_failure :
    let plan := DispatchPath.repairPlan (.compiled [.tool ()] [] ())
    let start : Round Unit Unit := { currentState := .engineering, rest := () }
    (plan.run disabledTools 1 start).1 = false ∧
      (plan.run disabledTools 1 start).2.currentState = .engineering ∧
      (plan.run disabledTools 1 start).2.primaryFailure = none ∧
      ¬ Routed disabledTools 1 plan start := by
  refine ⟨rfl, rfl, rfl, fun h => ?_⟩
  have hstops : disabledEvent.Stops := by decide
  cases (h.stops disabledEvent (.head _) hstops).1

example :
    let r := (DispatchPath.sequence [.tool ()]).run disabledTools 1
      ({ currentState := .engineering, rest := () } : Round Unit Unit)
    r.1 = true ∧ r.2.currentState = .engineeringBlocked ∧ r.2.Recorded disabledEvent :=
  ⟨rfl, rfl, .inl ⟨_, rfl, rfl, rfl, rfl⟩⟩

end Routing
end Engineering
end OpenFoamAgent
