/-
# Workflow states

`State` of `workflow/states.py` and the history that `CFDState.transition`
writes.
-/
import OpenFoamAgent.Python.Text

namespace OpenFoamAgent
namespace Workflow

open Python

/-- `State`. -/
inductive State where
  | init | intakeAnalysis | intakeReviewRequired | needsClarification | engineering
  | casePreviewReady | meshReady | preSolveValidation | solveReady | engineeringReviewRequired
  | engineeringBlocked | simulation | runtimeRepair | postprocessing | executionDone
  | resultReviewRequired | feedbackReceived | revisionReady | complete | done | failed
  deriving DecidableEq

/-- `SOLVE_APPROVAL_STATES`. -/
def solveApprovalStates : List State := [.meshReady, .solveReady]

/-- `FEEDBACK_STATES`. -/
def feedbackStates : List State := [.meshReady, .solveReady, .resultReviewRequired]

/-- An entry of `CFDState.history`. -/
structure HistoryEntry where
  before : State
  after : State
  note : Text
  deriving DecidableEq

end Workflow
end OpenFoamAgent
