/-
# Human feedback

`CFDFeedbackReviewAgent.review` of `review/agent.py`, the operations of `workflow/state.py` on
feedback, and the parts of `revise_from_feedback` and of an accepted preview that touch it.

A feedback is appended to the state before the model is asked, and its status is written into the
appended object; so it stays whatever the model does. What the model answers is an argument. An
interrupt is no `Exception`: it leaves the state where the review had put it.
-/
import OpenFoamAgent.Contracts.Approval
import OpenFoamAgent.Engineering.RevisionMutation

namespace OpenFoamAgent
namespace Review

open Python Schemas Workspace Contracts Workflow
open OpenFoamAgent.Engineering (fourDigits)

/-! ### Records -/

/-- `HumanFeedback.scope`. -/
inductive FeedbackScope where
  | mesh | result | engineering
  deriving DecidableEq

/-- `HumanFeedback.status`. -/
inductive FeedbackStatus where
  | unresolved | revisionProposed | proposalRejected | revisionInProgress | awaitingRerun
  | awaitingReview | resolved
  deriving DecidableEq

/-- The payload of `_evidence_snapshot_digest`. -/
structure EvidenceSnapshot where
  plan : Option EngineeringPlan
  caseSeal : Option CaseSeal
  mesh : Option Document
  runtime : Option Document
  postprocess : Option Document
  deriving DecidableEq

/-- The pattern `^kind-[0-9]{4}$`. -/
def idMatches (kind id : Text) : Bool :=
  kind.isPrefixOf id && (id.drop kind.length).length == 4 &&
    (id.drop kind.length).all isAsciiDigit

/-- `HumanFeedback`. -/
structure HumanFeedback where
  feedbackId : Text
  runId : Text
  scope : FeedbackScope
  statement : Text
  submittedState : State
  status : FeedbackStatus := .unresolved
  evidenceSnapshotSha256 : Sha256 EvidenceSnapshot
  deriving DecidableEq

/-- The constraints of the fields of a feedback. -/
def HumanFeedback.valid (f : HumanFeedback) : Bool :=
  idMatches "hf-".toList f.feedbackId && (1 ≤ f.runId.length && f.runId.length ≤ 100) &&
    (1 ≤ f.statement.length && f.statement.length ≤ 8000)

/-- `FeedbackAssessment`; `findings` are its other fields. -/
structure FeedbackAssessment where
  findings : Document
  requiresCaseRevision : Bool
  requiresIntakeRevision : Bool
  intakeRevisionReason : Text
  /-- `An intake revision route requires an explicit reason.` -/
  reasoned : requiresIntakeRevision = true → strip intakeRevisionReason ≠ []
  /-- `A confirmed user-fact change must return to intake before case revision.` -/
  routed : requiresIntakeRevision = true → requiresCaseRevision = false

/-- `RevisionProposal`. -/
structure RevisionProposal where
  proposalId : Text
  feedbackIds : List Text
  findings : Document
  requiresCaseRevision : Bool
  requiresIntakeRevision : Bool
  intakeRevisionReason : Text
  baselinePlanSha256 : Sha256 EngineeringPlan
  baselineManifestSha256 : Sha256 (List CaseFileSeal)
  deriving DecidableEq

/-- `SimulationResult`, the fields that an acceptance reads. -/
structure SimulationResult where
  success : Bool
  completed : Bool
  returnCode : ℤ
  processSuccess : Bool
  terminationVerified : Bool
  outputsVerified : Option Bool
  deriving DecidableEq

/-- `CFDState`, the fields that the review reads or changes; `rest` is all the others. -/
structure ReviewState where
  runId : Text
  engineeringPlan : Option EngineeringPlan := none
  caseSeal : Option CaseSeal := none
  meshEvidence : Option Document := none
  runtimeReport : Option Document := none
  postprocessingReport : Option Document := none
  simulation : Option SimulationResult := none
  solveApproved : Bool := false
  executionApproval : Option ExecutionApproval := none
  humanFeedback : List HumanFeedback := []
  revisionProposals : List RevisionProposal := []
  activeRevisionProposal : Option RevisionProposal := none
  revisionHistory : List Document := []
  pendingRevisionArchivePath : Option Text := none
  currentState : State := .init
  history : List HistoryEntry := []
  rest : Document := []

/-- What becomes of the request to the model. -/
inductive Answer where
  | assessment (a : FeedbackAssessment)
  /-- An `Exception` of the prompt, the transport or the schema. -/
  | failed
  /-- A `KeyboardInterrupt` or another `BaseException`. -/
  | interrupted

/-- The exceptions of a review. -/
inductive ReviewError where
  /-- `Human feedback must not be blank.` -/
  | blank
  /-- `Human feedback is accepted only at MESH_READY, SOLVE_READY, or RESULT_REVIEW_REQUIRED.` -/
  | wrongState
  /-- `Human feedback requires an existing sealed engineering case.` -/
  | unsealed
  /-- A `ValidationError` of the feedback. -/
  | invalidFeedback
  | failed
  | interrupted
  deriving DecidableEq

namespace ReviewState

variable (s : ReviewState)

/-- `transition`. -/
def transition (newState : State) (note : Text) : ReviewState :=
  { s with
    history := s.history ++ [⟨s.currentState, newState, note⟩]
    currentState := newState }

/-! ### Reviews -/

/-- `_evidence_snapshot_digest`. -/
def evidenceSnapshotDigest : Sha256 EvidenceSnapshot :=
  ⟨⟨s.engineeringPlan, s.caseSeal, s.meshEvidence, s.runtimeReport, s.postprocessingReport⟩⟩

/-- The feedback of a statement. -/
def newFeedback (text : Text) : HumanFeedback where
  feedbackId := "hf-".toList ++ fourDigits (s.humanFeedback.length + 1)
  runId := s.runId
  scope := if s.currentState ∈ [.meshReady, .solveReady] then .mesh else .result
  statement := text
  submittedState := s.currentState
  evidenceSnapshotSha256 := s.evidenceSnapshotDigest

/-- The feedback is recorded. -/
def receive (feedback : HumanFeedback) : ReviewState :=
  { s with humanFeedback := s.humanFeedback ++ [feedback] }.transition .feedbackReceived
    ("Human feedback ".toList ++ feedback.feedbackId ++ " recorded for review.".toList)

/-- The proposal of an assessment. -/
def newProposal (feedback : HumanFeedback) (a : FeedbackAssessment) (plan : EngineeringPlan)
    (caseSeal : CaseSeal) : RevisionProposal where
  proposalId := "rp-".toList ++ fourDigits (s.revisionProposals.length + 1)
  feedbackIds := [feedback.feedbackId]
  findings := a.findings
  requiresCaseRevision := a.requiresCaseRevision
  requiresIntakeRevision := a.requiresIntakeRevision
  intakeRevisionReason := a.intakeRevisionReason
  baselinePlanSha256 := plan.digest
  baselineManifestSha256 := caseSeal.manifestSha256

/-- The end of a review: the status of the feedback, the active proposal and the transition. -/
def conclude (feedback : HumanFeedback) (status : FeedbackStatus)
    (proposal : Option RevisionProposal) (newState : State) (note : Text) : ReviewState :=
  { s.receive feedback with
    humanFeedback := s.humanFeedback ++ [{ feedback with status := status }]
    activeRevisionProposal := proposal }.transition newState note

/-- The review failed: the user is put back to the gate. -/
def giveUp (feedback : HumanFeedback) : ReviewState :=
  s.conclude feedback .unresolved none s.currentState
    ("Feedback ".toList ++ feedback.feedbackId ++
      " was recorded, but automated review failed; the sealed case remains unchanged.".toList)

/-- The route of a proposal. -/
def route (feedback : HumanFeedback) (proposal : RevisionProposal) : ReviewState :=
  let s' := { s with revisionProposals := s.revisionProposals ++ [proposal] }
  if proposal.requiresIntakeRevision then
    s'.conclude feedback .revisionProposed (some proposal) .engineeringReviewRequired
      ("Human feedback changes confirmed user requirements; revise/reconfirm intake before case " ++
        "engineering.").toList
  else if proposal.requiresCaseRevision then
    s'.conclude feedback .revisionProposed (some proposal) .revisionReady
      ("Revision proposal ".toList ++ proposal.proposalId ++
        " is ready; /confirm is required before modifying the sealed case.".toList)
  else
    s'.conclude feedback
      (if s.currentState = .resultReviewRequired then .awaitingReview else .unresolved) none
      s.currentState
      ("Feedback assessment ".toList ++ proposal.proposalId ++
        " found no justified case revision; the sealed case remains unchanged.".toList)

/-- `CFDFeedbackReviewAgent.review`: the state it leaves, and how it ends. -/
def review (statement : Text) (answer : Answer) : ReviewState × Except ReviewError Unit :=
  let text := strip statement
  if text = [] then (s, .error .blank)
  else if s.currentState ∉ feedbackStates then (s, .error .wrongState)
  else
    match s.engineeringPlan, s.caseSeal with
    | some plan, some caseSeal =>
      let feedback := s.newFeedback text
      if !feedback.valid then (s, .error .invalidFeedback)
      else
        match answer with
        | .interrupted => (s.receive feedback, .error .interrupted)
        | .failed => (s.giveUp feedback, .error .failed)
        | .assessment a =>
          let proposal := s.newProposal feedback a plan caseSeal
          if !idMatches "rp-".toList proposal.proposalId then (s.giveUp feedback, .error .failed)
          else (s.route feedback proposal, .ok ())
    | _, _ => (s, .error .unsealed)

/-! ### Decisions of the user -/

/-- The status is written into the feedback of these ids. -/
def mark (ids : List Text) (status : FeedbackStatus) (f : HumanFeedback) : HumanFeedback :=
  if f.feedbackId ∈ ids then { f with status := status } else f

/-- The state to which a rejection goes back. -/
def rejectionTarget (proposal : RevisionProposal) : State :=
  let linked := s.humanFeedback.filter (·.feedbackId ∈ proposal.feedbackIds)
  if linked.any (·.submittedState = .resultReviewRequired) then .resultReviewRequired
  else if linked.any (·.submittedState = .solveReady) then .solveReady
  else .meshReady

/-- `reject_revision`, where it returns. -/
def rejectRevision : Option ReviewState :=
  match s.activeRevisionProposal with
  | none => none
  | some proposal =>
    if s.currentState ≠ .revisionReady then none
    else
      some <| { s with
        humanFeedback := s.humanFeedback.map (mark proposal.feedbackIds .proposalRejected)
        activeRevisionProposal := none }.transition (s.rejectionTarget proposal)
          ("User rejected revision proposal ".toList ++ proposal.proposalId ++
            "; sealed case remains unchanged.".toList)

/-- `result_acceptance_blockers`. -/
def resultAcceptanceBlockers : List Text :=
  if s.currentState ≠ .resultReviewRequired then
    ["Result acceptance requires RESULT_REVIEW_REQUIRED.".toList]
  else
    match s.simulation with
    | none => ["No runtime result is available for acceptance.".toList]
    | some result =>
      let blockers :=
        (if !result.completed || !result.terminationVerified then
          ["Calculation completion/termination is not deterministically verified.".toList]
        else []) ++
        (if result.returnCode ≠ 0 ∨ result.processSuccess = false then
          ["Native solver execution did not exit cleanly.".toList]
        else []) ++
        (if result.outputsVerified ≠ some true then
          ["Required final result artifacts are not deterministically verified.".toList]
        else [])
      if !result.success && blockers.isEmpty then
        ["Runtime result is not eligible for acceptance.".toList]
      else blockers

/-- The feedback that an acceptance resolves. -/
def resolve (f : HumanFeedback) : HumanFeedback :=
  if f.status ∈ [.awaitingReview, .revisionProposed, .unresolved] then
    { f with status := .resolved }
  else f

/-- `accept_result`, where it returns. -/
def acceptResult : Option ReviewState :=
  if s.resultAcceptanceBlockers ≠ [] then none
  else
    some <| { s with
      humanFeedback := s.humanFeedback.map resolve
      activeRevisionProposal := none }.transition .complete
        "User accepted the reviewed CFD result.".toList

/-- A feedback whose revision has run. -/
def rerun (f : HumanFeedback) : HumanFeedback :=
  if f.status = .awaitingRerun then { f with status := .awaitingReview } else f

/-- `mark_feedback_awaiting_review`. -/
def markFeedbackAwaitingReview : ReviewState :=
  { s with humanFeedback := s.humanFeedback.map rerun }

/-- `approve_solve`, where it returns. -/
def approveSolve (limits : Option ResourceLimits) : Option ReviewState :=
  if s.currentState ∉ solveApprovalStates then none
  else
    match s.engineeringPlan, s.caseSeal with
    | some plan, some caseSeal =>
      some <| { s with
        executionApproval := some (.issue plan caseSeal limits)
        solveApproved := true }.transition .simulation
          "User approved solver execution for the sealed case.".toList
    | _, _ => none

/-! ### Revisions -/

/-- The start of `revise_from_feedback`, where it gets to the first turn. `intact` says that the
intake is confirmed, the preflight passes and the seal verifies. -/
def startRevision (intact : Bool) : Option ReviewState :=
  match s.activeRevisionProposal, s.engineeringPlan, s.caseSeal with
  | some proposal, some plan, some caseSeal =>
    if s.currentState ≠ .revisionReady then none
    else if proposal.requiresIntakeRevision then none
    else if plan.digest ≠ proposal.baselinePlanSha256 then none
    else if caseSeal.manifestSha256 ≠ proposal.baselineManifestSha256 then none
    else if !intact then none
    else
      some <| { s with
        humanFeedback := s.humanFeedback.map (mark proposal.feedbackIds .revisionInProgress)
        solveApproved := false }.transition .engineering
          ("User confirmed revision proposal ".toList ++ proposal.proposalId ++
            "; sealed case handed back to CFDEngineeringAgent.".toList)
  | _, _, _ => none

/-- A feedback in progress is proposed again. -/
def proposeAgain (ids : List Text) (f : HumanFeedback) : HumanFeedback :=
  if f.feedbackId ∈ ids ∧ f.status = .revisionInProgress then
    { f with status := .revisionProposed }
  else f

/-- `restore_unmutated_revision_ready`; `manifest` is that of the case. -/
def restoreUnmutatedRevisionReady (manifest : Sha256 (List CaseFileSeal))
    (proposal : RevisionProposal) : ReviewState :=
  match s.pendingRevisionArchivePath, s.engineeringPlan, s.caseSeal with
  | none, some plan, some _ =>
    if plan.digest ≠ proposal.baselinePlanSha256 then s
    else if manifest ≠ proposal.baselineManifestSha256 then s
    else
      { s with humanFeedback := s.humanFeedback.map (proposeAgain proposal.feedbackIds) }.transition
        .revisionReady
        ("Revision planning failed before case mutation; proposal ".toList ++
          proposal.proposalId ++ " remains pending and retryable.".toList)
  | _, _, _ => s

/-- The state in which a sealed case waits for the user. -/
def previewState (native solveReadyGate : Bool) : State :=
  if native && solveReadyGate then .solveReady else if native then .meshReady else .casePreviewReady

/-- The transitions behind a seal. -/
def presentPreview (native solveReadyGate : Bool) : ReviewState :=
  let s' :=
    if native && solveReadyGate then
      (s.transition .meshReady
          "Current case passed checkMesh and mesh evidence gates.".toList).transition
        .preSolveValidation
        ("Mesh-ready case entered deterministic pre-solve completeness " ++ "validation.").toList
    else s
  s'.transition (previewState native solveReadyGate)
    (if native && solveReadyGate then
      ("Agent case passed safety/integrity, checkMesh, and pre-solve completeness gates. Solver " ++
        "approval is required.").toList
    else if native then
      "Agent case passed safety/integrity gates and checkMesh. Solver approval is required.".toList
    else
      ("Agent case preview passed static safety/integrity gates; native tools were not " ++
        "executed.").toList)

/-- The end of a `FinishPreviewAction` that passes its gates: the case is sealed as `caseSeal` for
the plan. A proposal that requires a revision refuses the manifest that it started from. -/
def finishPreview (plan : EngineeringPlan) (caseSeal : CaseSeal) (record : Document)
    (native solveReadyGate : Bool) : Option ReviewState :=
  let s' : ReviewState := { s with engineeringPlan := some plan, caseSeal := some caseSeal }
  match s.activeRevisionProposal with
  | none => some (s'.presentPreview native solveReadyGate)
  | some proposal =>
    if proposal.requiresCaseRevision ∧
        caseSeal.manifestSha256 = proposal.baselineManifestSha256 then
      none
    else
      match s.engineeringPlan, s.caseSeal with
      | some _, some _ =>
        some <| { s' with
          revisionHistory := s.revisionHistory ++ [record]
          humanFeedback := s.humanFeedback.map (mark proposal.feedbackIds .awaitingRerun)
          activeRevisionProposal := none
          pendingRevisionArchivePath := none }.presentPreview native solveReadyGate
      | _, _ => some (s'.presentPreview native solveReadyGate)

end ReviewState
end Review
end OpenFoamAgent
