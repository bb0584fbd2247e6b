/-
# Runs of the orchestrator

What `RuntimeOrchestrator.run` does whatever the solver, the model and the tools do. Every start of
the solver is one the user approved (`run_authorized`). Where the run returns, its state is settled
and its report is the account of its starts (`run_settled`). `EXECUTION_DONE` comes with a log that
shows the whole run and with verified outputs (`run_done`).
-/
import OpenFoamAgent.Engineering.RuntimePolicy
import OpenFoamAgent.Runtime.AuthorizedStarts
import OpenFoamAgent.Runtime.StreamEvidence

namespace OpenFoamAgent
namespace Runtime

open Python Schemas Workspace Contracts Workflow Engineering

/-- The states a run returns in. -/
def settledStates : List State :=
  [.failed, .engineeringReviewRequired, .engineeringBlocked, .resultReviewRequired, .executionDone]

/-- What the user approved of a controller that starts the solver: the plan is the approved one, the
case is the sealed one, and where it is not the approved one the change was authorized. -/
structure Authorized (approved : ExecutionApproval) (c : Controller) (plan : EngineeringPlan)
    (caseSeal : CaseSeal) (approval : ExecutionApproval) : Prop where
  hasPlan : c.engineeringPlan = some plan
  hasSeal : c.caseSeal = some caseSeal
  hasApproval : c.executionApproval = some approval
  authority : SameAuthority approved approval
  execution : (⟨executionDocument plan⟩ : Sha256 ExecutionDocument) = approved.executionSha256
  physicalPlan : (⟨physicalPlanDocument plan⟩ : Sha256 PhysicalPlanDocument) =
    approved.physicalPlanSha256
  intake : plan.confirmedIntakeSha256 = approved.intakeSha256
  verified : c.workspace.verifySeal caseSeal plan = .ok ()
  changes : let current := Dict.ofItems (caseSeal.files.map fun x => (x.path, x.sha256))
    ∀ p ∈ approval.changedPaths current, approval.AllowedChange current p

/-- A start under the approval of an earlier controller. -/
def AuthorizedBy (o : Option ExecutionApproval) (start : Start) : Prop :=
  ∃ approved plan caseSeal approval, o = some approved ∧
    Authorized approved start.controller plan caseSeal approval

theorem authorizedBy_of_checks {o : Option ExecutionApproval} {c : Controller}
    {plan : EngineeringPlan} {caseSeal : CaseSeal} {approval : ExecutionApproval}
    {contract : RuntimeContract} {run : Option NativeRun}
    (hinherits : Inherits o c.executionApproval)
    (hplan : c.engineeringPlan = some plan) (hseal : c.caseSeal = some caseSeal)
    (happroval : c.executionApproval = some approval)
    (hverified : c.workspace.verifySeal caseSeal plan = .ok ())
    (hchecked : approval.checkPlan plan = .ok ())
    (hfiles : approval.checkRepairFiles caseSeal = .ok ()) :
    AuthorizedBy o ⟨c, contract, run⟩ := by
  obtain ⟨approved, happroved, hsame⟩ := hinherits approval happroval
  refine ⟨approved, plan, caseSeal, approval, happroved, hplan, hseal, happroval, hsame, ?_, ?_, ?_,
    hverified, ?_⟩
  all_goals unfold ExecutionApproval.checkPlan at hchecked
  all_goals split_ifs at hchecked with hinconsistent hexecution hphysical hintake
  · exact (not_not.1 hexecution).trans hsame.execution
  · exact (not_not.1 hphysical).trans hsame.physicalPlan
  · exact (not_not.1 hintake).trans hsame.intake
  · intro current p hp
    unfold ExecutionApproval.checkRepairFiles at hfiles
    dsimp only at hfiles
    split_ifs at hfiles with houtside
    by_contra hnot
    have hmem : p ∈ (approval.changedPaths current).filter
        fun p => ¬ approval.AllowedChange current p := List.mem_filter.2 ⟨hp, by simpa using hnot⟩
    rw [not_not] at houtside
    rw [houtside] at hmem
    cases hmem

/-- What the result of a process rests on: its log, and verified outputs where it is a success. -/
def Judged {A R W : Type} (t : SolverTools A R W) (contract : RuntimeContract) (driver : Text)
    (run : NativeRun) (result : SimulationResult) : Prop :=
  ∃ parsed, parseRuntimeStream (.runtime contract) run.returnCode driver run.terminationReason
      run.log = .ok parsed ∧
    (result.success = true → parsed.success = true ∧
      run.diskSha256.all (· = parsed.logSha256) = true ∧
      ∃ world c, (t.verifyOutputs world c contract parsed).1 = true)

/-- A result is the account of a start. -/
structure Recorded {A R W : Type} (t : SolverTools A R W) (contract : RuntimeContract)
    (driver : Text) (start : Start) (result : SimulationResult) : Prop where
  sameContract : start.contract = contract
  judged : ∃ run, start.run = some run ∧ Judged t contract driver run result

namespace Orchestration

variable {A R W : Type} {t : SolverTools A R W} {r r' : Orchestration W}
  {contract : RuntimeContract} {driver : Text} {number : ℕ} {attempts : List SimulationAttempt}
  {run : NativeRun} {result : SimulationResult}

/-! ### One start -/

/-- The run behind a start. -/
def started (r : Orchestration W) (contract : RuntimeContract) (left : CaseWorkspace × W)
    (run : Option NativeRun) : Orchestration W :=
  { r.leave left with starts := r.starts ++ [⟨r.session.controller, contract, run⟩] }

/-- What a start can do. -/
inductive Started (r : Orchestration W) (contract : RuntimeContract) :
    Except OrchestrationError (Orchestration W × Option NativeRun) → Prop where
  | escaped : Started r contract (r.raise .escaped)
  | refused {newState : State} (hstate : newState ∈ settledStates)
      (hundone : newState ≠ .executionDone) :
      Started r contract (.ok (r.transition newState, none))
  | blocked (left : CaseWorkspace × W)
      (hauthorized : ∀ o, Inherits o r.session.approval →
        AuthorizedBy o ⟨r.session.controller, contract, none⟩) :
      Started r contract (.ok ((r.started contract left none).transition .engineeringBlocked, none))
  | ran (left : CaseWorkspace × W) (run : NativeRun)
      (hauthorized : ∀ o, Inherits o r.session.approval →
        AuthorizedBy o ⟨r.session.controller, contract, some run⟩) :
      Started r contract (.ok (r.started contract left (some run), some run))

theorem startSolver_started (t : SolverTools A R W) (r : Orchestration W)
    (contract : RuntimeContract) (number : ℕ) :
    Started r contract (r.startSolver t contract number) := by
  unfold startSolver
  dsimp only
  split
  · rename_i plan caseSeal hplan hseal
    split
    · split_ifs
      · exact .refused (by decide) (by decide)
      · exact .escaped
    · rename_i hverified
      split
      · exact .escaped
      · rename_i approval happroval
        split
        · rename_i hchecked hfiles
          have hauthorized : ∀ run o, Inherits o r.session.approval →
              AuthorizedBy o ⟨r.session.controller, contract, run⟩ := fun run o hinherits =>
            authorizedBy_of_checks hinherits hplan hseal happroval hverified hchecked hfiles
          generalize t.launch r.session.world r.session.controller contract number = launched
          obtain ⟨_ | run, left⟩ := launched
          · exact .blocked left (hauthorized none)
          · exact .ran left run (hauthorized (some run))
        · exact .refused (by decide) (by decide)
  · exact .escaped

/-! ### One result -/

/-- The starts, the report and the approval are those of an earlier moment. -/
structure Continues (r r' : Orchestration W) : Prop where
  starts : r'.starts = r.starts
  report : r'.runtimeReport = r.runtimeReport
  inherits : Inherits r.session.approval r'.session.approval

/-- What the judgement of a process can be. -/
inductive JudgedAs (t : SolverTools A R W) (r : Orchestration W) (contract : RuntimeContract)
    (driver : Text) (run : NativeRun) :
    Except OrchestrationError (SimulationResult × Orchestration W) → Prop where
  | escaped : JudgedAs t r contract driver run (r.raise .escaped)
  | judged (result : SimulationResult) (r' : Orchestration W)
      (hjudged : Judged t contract driver run result) (hcontinues : Continues r r') :
      JudgedAs t r contract driver run (.ok (result, r'))

theorem judge_judgedAs (t : SolverTools A R W) (r : Orchestration W) (contract : RuntimeContract)
    (driver : Text) (run : NativeRun) :
    JudgedAs t r contract driver run (r.judge t contract driver run) := by
  unfold judge
  split
  · exact .escaped
  · rename_i parsed hparsed
    dsimp only
    by_cases hhash : run.diskSha256.all (· = parsed.logSha256) = true
    · rw [if_pos hhash]
      split_ifs with hsuccess
      · exact .judged _ _ ⟨parsed, hparsed, fun h => ⟨hsuccess, hhash, _, _, h⟩⟩
          ⟨rfl, rfl, .refl _⟩
      · exact .judged _ _ ⟨parsed, hparsed, fun h => absurd h hsuccess⟩ ⟨rfl, rfl, .refl _⟩
    · rw [if_neg hhash]
      exact .judged _ _ ⟨parsed, hparsed, fun h => by cases h⟩ ⟨rfl, rfl, .refl _⟩

/-! ### Reports -/

/-- The note of a repair changes neither a number nor a result. -/
theorem noteRepair_map {α : Type} (f : SimulationAttempt → α)
    (hf : ∀ a b, f { a with repairRequested := b } = f a) (attempts : List SimulationAttempt)
    (requested : Bool) : (noteRepair attempts requested).map f = attempts.map f := by
  unfold noteRepair
  rcases List.eq_nil_or_concat attempts with rfl | ⟨init, a, rfl⟩
  · rfl
  · simp [hf]

theorem noteRepair_results (attempts : List SimulationAttempt) (requested : Bool) :
    (noteRepair attempts requested).map (·.result) = attempts.map (·.result) :=
  noteRepair_map _ (fun _ _ => rfl) attempts requested

theorem noteRepair_numbers (attempts : List SimulationAttempt) (requested : Bool) :
    (noteRepair attempts requested).map (·.attempt) = attempts.map (·.attempt) :=
  noteRepair_map _ (fun _ _ => rfl) attempts requested

@[simp] theorem length_noteRepair (attempts : List SimulationAttempt) (requested : Bool) :
    (noteRepair attempts requested).length = attempts.length := by
  simpa using congrArg List.length (noteRepair_results attempts requested)

/-- The attempts of a loop: numbered from one, within the bound, and all but the last failed. -/
structure Numbered (attempts : List SimulationAttempt) : Prop where
  numbered : attempts.map (·.attempt) = List.range' 1 attempts.length
  bounded : attempts.length ≤ 13
  failedBefore : ∀ result ∈ (attempts.map (·.result)).dropLast, result.success = false

theorem Numbered.note (h : Numbered attempts) (requested : Bool) :
    Numbered (noteRepair attempts requested) := by
  refine ⟨?_, ?_, ?_⟩
  · rw [noteRepair_numbers, length_noteRepair, h.numbered]
  · rw [length_noteRepair]
    exact h.bounded
  · rw [noteRepair_results]
    exact h.failedBefore

/-- A next attempt after failures only. -/
theorem Numbered.append (h : Numbered attempts) (hbound : attempts.length + 1 ≤ 13)
    (hfailed : ∀ result ∈ attempts.map (·.result), result.success = false)
    (result : SimulationResult) :
    Numbered (attempts ++ [{ attempt := attempts.length + 1, result := result }]) := by
  refine ⟨?_, ?_, ?_⟩
  · rw [List.map_append, h.numbered, List.length_append, List.length_singleton,
      List.range'_concat, Nat.one_mul, Nat.add_comm 1]
    rfl
  · rw [List.length_append, List.length_singleton]
    exact hbound
  · rw [List.map_append, List.map_singleton, List.dropLast_concat]
    exact hfailed

/-- A report of such attempts is one that `RuntimeReport` accepts. -/
theorem Numbered.valid (h : Numbered attempts)
    (hlast : (attempts.map (·.result)).getLast? = some result) :
    RuntimeReport.Valid ⟨result.success, attempts, result⟩ := by
  refine ⟨h.numbered, h.bounded, fun a ha => h.failedBefore _ ?_, ?_, rfl⟩
  · rw [← List.map_dropLast]
    exact List.mem_map_of_mem ha
  · rw [← List.getLast?_map]
    exact hlast

theorem file_of_numbered {success : Bool} (h : Numbered attempts)
    (hlast : (attempts.map (·.result)).getLast? = some result)
    (hagrees : success = result.success) :
    r.file success attempts result =
      .ok { r with runtimeReport := some ⟨success, attempts, result⟩ } := by
  subst hagrees
  exact if_pos (h.valid hlast)

/-! ### What follows an attempt -/

/-- What can follow the result of an attempt. -/
inductive Settled (t : SolverTools A R W) (r : Orchestration W) (number : ℕ)
    (attempts : List SimulationAttempt) (result : SimulationResult) :
    Except OrchestrationError (Orchestration W × Option (List SimulationAttempt)) → Prop where
  | escaped : Settled t r number attempts result (.error ⟨.escaped, r.starts⟩)
  | ended (r' : Orchestration W) (requested : Option Bool)
      (hstarts : r'.starts = r.starts) (hsimulation : r'.simulation = r.simulation)
      (hstate : r'.session.currentState ∈ settledStates)
      (hdone : r'.session.currentState = .executionDone ↔ result.success = true)
      (hreport : r'.runtimeReport = some ⟨result.success,
        requested.elim attempts (noteRepair attempts), result⟩) :
      Settled t r number attempts result (.ok (r', none))
  | retried (r' : Orchestration W) (hnumber : number < t.maxAttempts)
      (hfailed : result.success = false) (hcontinues : Continues r r') :
      Settled t r number attempts result (.ok (r', some (noteRepair attempts true)))

/-- A repair closes in the state of its outcome. -/
theorem closeRepair_state {s : RuntimeSession W} (o : RepairOutcome) :
    (s.closeRepair o).currentState = match o.decision with
      | .retrySolver => .simulation
      | .needsUserReview | .strategyRevision => .engineeringReviewRequired
      | .blocked => .engineeringBlocked := by
  unfold RuntimeSession.closeRepair
  dsimp only
  cases o.decision <;> rfl

theorem repairAttempt_settled (t : SolverTools A R W) (r : Orchestration W)
    (hnumbered : Numbered attempts) (hlast : (attempts.map (·.result)).getLast? = some result)
    (hfailed : result.success = false) (hnumber : number < t.maxAttempts) :
    Settled t r number attempts result (r.repairAttempt t attempts result) := by
  unfold repairAttempt
  split
  · exact .escaped
  · rename_i o s hrepair
    obtain ⟨hinherits, s₀, rfl⟩ := RuntimeSession.repairRuntime_inherits hrepair
    have hstate := closeRepair_state (s := s₀) o
    have hfile : ∀ requested (r₁ : Orchestration W),
        r₁.file false (noteRepair attempts requested) result =
          .ok { r₁ with runtimeReport := some ⟨false, noteRepair attempts requested, result⟩ } :=
      fun requested r₁ => file_of_numbered (hnumbered.note requested)
        ((congrArg List.getLast? (noteRepair_results attempts requested)).trans hlast) hfailed.symm
    dsimp only
    by_cases hretry : o.decision = .retrySolver
    · -- The state is restored by the outcome itself.
      rw [hretry] at hstate
      rw [if_neg (not_not.2 hretry), if_neg (not_not.2 hstate), hretry]
      exact .retried _ hnumber hfailed ⟨rfl, rfl, hinherits⟩
    · have hsettled : (s₀.closeRepair o).currentState ∈ settledStates ∧
          (s₀.closeRepair o).currentState ≠ .executionDone ∧
          (s₀.closeRepair o).currentState ≠ .runtimeRepair := by
        rw [hstate]
        cases hdecision : o.decision with
        | retrySolver => exact absurd hdecision hretry
        | needsUserReview => exact ⟨by decide, by decide, by decide⟩
        | strategyRevision => exact ⟨by decide, by decide, by decide⟩
        | blocked => exact ⟨by decide, by decide, by decide⟩
      rw [if_pos hretry, hfile]
      change Settled t r number attempts result
        (if (s₀.closeRepair o).currentState = .runtimeRepair then _ else _)
      rw [if_neg hsettled.2.2]
      exact .ended _ (some _) rfl rfl hsettled.1
        (iff_of_false hsettled.2.1 (by rw [hfailed]; decide)) (by rw [hfailed]; rfl)

theorem settleAttempt_settled (t : SolverTools A R W) (r : Orchestration W)
    (hnumbered : Numbered attempts) (hlast : (attempts.map (·.result)).getLast? = some result)
    (run : NativeRun) :
    Settled t r number attempts result (r.settleAttempt t number attempts run result) := by
  have hfile : ∀ r₁ : Orchestration W, r₁.file result.success attempts result =
      .ok { r₁ with runtimeReport := some ⟨result.success, attempts, result⟩ } :=
    fun r₁ => file_of_numbered hnumbered hlast rfl
  unfold settleAttempt
  by_cases hsuccess : result.success = true
  · rw [if_pos hsuccess]
    rw [hsuccess] at hfile
    rw [hfile]
    have hstate : State.executionDone ∈ settledStates := by decide
    exact .ended _ none rfl rfl hstate (iff_of_true rfl hsuccess) (by rw [hsuccess]; rfl)
  · have hfailed := Bool.eq_false_of_not_eq_true hsuccess
    rw [hfailed] at hfile
    have hended : ∀ (r₁ : Orchestration W), r₁.starts = r.starts → r₁.simulation = r.simulation →
        ∀ newState ∈ settledStates, newState ≠ .executionDone →
          ∀ revoked : Orchestration W → Orchestration W,
            (∀ r₂, (revoked r₂).starts = r₂.starts ∧ (revoked r₂).simulation = r₂.simulation ∧
              (revoked r₂).runtimeReport = r₂.runtimeReport) →
            Settled t r number attempts result (do
              let r₂ ← r₁.file false attempts result
              return ((revoked r₂).transition newState, none)) := by
      intro r₁ hstarts hsimulation newState hstate hundone revoked hrevoked
      rw [hfile]
      obtain ⟨h₁, h₂, h₃⟩ := hrevoked
        { r₁ with runtimeReport := some ⟨false, attempts, result⟩ }
      exact .ended _ none (h₁.trans hstarts) (h₂.trans hsimulation) hstate
        (iff_of_false hundone hsuccess) (h₃.trans (by rw [hfailed]; rfl))
    rw [if_neg hsuccess]
    split_ifs with hprocess hinconclusive hexhausted
    · exact hended r rfl rfl .resultReviewRequired (by decide) (by decide) revoke
        fun _ => ⟨rfl, rfl, rfl⟩
    · exact hended { r with session := r.session.record (t.inconclusiveEvent run number) } rfl rfl
        .engineeringBlocked (by decide) (by decide) revoke fun _ => ⟨rfl, rfl, rfl⟩
    · exact hended r rfl rfl .engineeringBlocked (by decide) (by decide) id fun _ => ⟨rfl, rfl, rfl⟩
    · exact repairAttempt_settled t r hnumbered hlast hfailed (not_le.1 hexhausted)

/-! ### The loop -/

/-- Between two attempts: every start so far was authorized and ran, and its result is a recorded
failure. -/
structure Progress (t : SolverTools A R W) (o : Option ExecutionApproval)
    (report : Option RuntimeReport) (contract : RuntimeContract) (driver : Text) (number : ℕ)
    (attempts : List SimulationAttempt) (r : Orchestration W) : Prop where
  authorized : ∀ start ∈ r.starts, AuthorizedBy o start
  recorded : List.Forall₂ (Recorded t contract driver) r.starts (attempts.map (·.result))
  inherits : Inherits o r.session.approval
  report : r.runtimeReport = report
  numbered : Numbered attempts
  failed : ∀ result ∈ attempts.map (·.result), result.success = false
  next : number = attempts.length + 1

/-- How a run ends, whatever it was asked. -/
inductive Finished (t : SolverTools A R W) (o : Option ExecutionApproval)
    (report : Option RuntimeReport) (contract : RuntimeContract) (driver : Text) :
    Except OrchestrationError (Orchestration W) → Prop where
  | escaped (starts : List Start) (hbound : starts.length ≤ t.maxAttempts)
      (hauthorized : ∀ start ∈ starts, AuthorizedBy o start) :
      Finished t o report contract driver (.error ⟨.escaped, starts⟩)
  | refused (r' : Orchestration W) (hbound : r'.starts.length ≤ t.maxAttempts)
      (hauthorized : ∀ start ∈ r'.starts, AuthorizedBy o start)
      (hstate : r'.session.currentState ∈ settledStates)
      (hundone : r'.session.currentState ≠ .executionDone) (hreport : r'.runtimeReport = report) :
      Finished t o report contract driver (.ok r')
  | reported (r' : Orchestration W) (filed : RuntimeReport)
      (hbound : r'.starts.length ≤ t.maxAttempts)
      (hauthorized : ∀ start ∈ r'.starts, AuthorizedBy o start)
      (hstate : r'.session.currentState ∈ settledStates) (hreport : r'.runtimeReport = some filed)
      (hvalid : filed.Valid) (hsimulation : r'.simulation = some filed.finalResult)
      (hdone : r'.session.currentState = .executionDone ↔ filed.success = true)
      (hrecorded : List.Forall₂ (Recorded t contract driver) r'.starts
        (filed.attempts.map (·.result))) :
      Finished t o report contract driver (.ok r')

theorem attemptLoop_finished {o : Option ExecutionApproval} {report : Option RuntimeReport}
    {remaining : ℕ} (hprogress : Progress t o report contract driver number attempts r)
    (hnumber : number ≤ t.maxAttempts) (hremaining : remaining + attempts.length = t.maxAttempts) :
    Finished t o report contract driver (attemptLoop t contract driver remaining number attempts r)
    := by
  induction remaining generalizing number attempts r with
  | zero =>
    have hnext := hprogress.next
    omega
  | succ remaining ih =>
    have hlength := hprogress.recorded.length_eq
    rw [List.length_map] at hlength
    have hnext := hprogress.next
    have hbefore : r.starts.length ≤ t.maxAttempts := by omega
    have hblocked : State.engineeringBlocked ∈ settledStates := by decide
    have hafter : ∀ left run, (r.started contract left run).starts.length ≤ t.maxAttempts := by
      intro left run
      rw [started, List.length_append, List.length_singleton]
      omega
    have hstarts : ∀ left run, AuthorizedBy o ⟨r.session.controller, contract, run⟩ →
        ∀ start ∈ (r.started contract left run).starts, AuthorizedBy o start :=
      fun left run hauthorized start hstart => (List.mem_append.1 hstart).elim
        (hprogress.authorized start) fun h => List.mem_singleton.1 h ▸ hauthorized
    unfold attemptLoop
    have hstarted := startSolver_started t r contract number
    generalize r.startSolver t contract number = outcome at hstarted ⊢
    cases hstarted with
    | escaped => exact .escaped _ hbefore hprogress.authorized
    | refused hstate hundone =>
      exact .refused _ hbefore hprogress.authorized hstate hundone hprogress.report
    | blocked left hauthorized =>
      exact .refused _ (hafter left none) (hstarts left none (hauthorized o hprogress.inherits))
        hblocked (fun h => by cases h) hprogress.report
    | ran left run hauthorized =>
      replace hafter := hafter left (some run)
      replace hstarts := hstarts left (some run) (hauthorized o hprogress.inherits)
      change Finished t o report contract driver
        ((r.started contract left (some run)).judge t contract driver run >>= _)
      have hjudged := judge_judgedAs t (r.started contract left (some run)) contract driver run
      generalize (r.started contract left (some run)).judge t contract driver run = judgement
        at hjudged ⊢
      cases hjudged with
      | escaped => exact .escaped _ hafter hstarts
      | judged result r₁ hjudged hcontinues =>
        -- The attempt of this start, and the run that holds its result.
        set attempts' := attempts ++ [{ attempt := number, result := result }] with hattempts
        have hnumbered : Numbered attempts' := by
          rw [hattempts, hnext]
          exact hprogress.numbered.append (by have := t.bounded; omega) hprogress.failed result
        have hresults : attempts'.map (·.result) = attempts.map (·.result) ++ [result] := by
          rw [hattempts, List.map_append, List.map_singleton]
        have hrecorded : List.Forall₂ (Recorded t contract driver) r₁.starts
            (attempts'.map (·.result)) := by
          rw [hcontinues.starts, hresults]
          exact List.rel_append hprogress.recorded (.cons ⟨rfl, run, rfl, hjudged⟩ .nil)
        have hlast : (attempts'.map (·.result)).getLast? = some result := by
          rw [hresults, List.getLast?_concat]
        rw [← hcontinues.starts] at hafter hstarts
        set r₂ : Orchestration W :=
          { r₁ with simulation := some result, simulationAttempts := number }
        change Finished t o report contract driver
          (r₂.settleAttempt t number attempts' run result >>= _)
        have hsettled : Settled t r₂ number attempts' result
            (r₂.settleAttempt t number attempts' run result) :=
          settleAttempt_settled t r₂ hnumbered hlast run
        generalize r₂.settleAttempt t number attempts' run result = settled at hsettled ⊢
        cases hsettled with
        | escaped => exact .escaped _ hafter hstarts
        | ended r' requested hstarts' hsimulation hstate hdone hreport =>
          rw [← show r'.starts = r₁.starts from hstarts'] at hafter hstarts hrecorded
          cases requested with
          | none =>
            exact .reported r' _ hafter hstarts hstate hreport (hnumbered.valid hlast) hsimulation
              hdone hrecorded
          | some requested =>
            have hresults' := noteRepair_results attempts' requested
            refine .reported r' _ hafter hstarts hstate hreport
              ((hnumbered.note requested).valid (hresults'.symm ▸ hlast)) hsimulation hdone ?_
            exact hresults'.symm ▸ hrecorded
        | retried r' hnumber' hfailed hcontinues' =>
          have hresults' := noteRepair_results attempts' true
          have hlength' : (noteRepair attempts' true).length = attempts.length + 1 := by
            rw [length_noteRepair, hattempts, List.length_append, List.length_singleton]
          rw [← show r'.starts = r₁.starts from hcontinues'.starts] at hstarts hrecorded
          refine ih ⟨hstarts, hresults'.symm ▸ hrecorded, ?_, ?_, hnumbered.note true, ?_, ?_⟩
            hnumber' ?_
          · exact hprogress.inherits.trans (hcontinues.inherits.trans hcontinues'.inherits)
          · exact hcontinues'.report.trans (hcontinues.report.trans hprogress.report)
          · rw [hresults', hresults]
            exact fun a ha => (List.mem_append.1 ha).elim (hprogress.failed a)
              fun h => List.mem_singleton.1 h ▸ hfailed
          · rw [hlength', hnext]
          · rw [hlength']
            omega

/-! ### Runs -/

/-- A run that ends in front of the loop starts nothing; every other run finishes under one contract
and one driver. -/
theorem run_finished (t : SolverTools A R W) (r : Orchestration W) :
    (∃ r', r.run t = .ok r' ∧ r'.starts = [] ∧ r'.session.currentState ∈ settledStates ∧
      r'.session.currentState ≠ .executionDone ∧ r'.runtimeReport = r.runtimeReport) ∨
    r.run t = .error ⟨.escaped, []⟩ ∨
    r.session.controller.solveApproved = true ∧ ∃ contract driver,
      Finished t r.session.approval r.runtimeReport contract driver (r.run t) := by
  have hrefused : ∀ (c : Controller) (newState : State), newState ∈ settledStates →
      newState ≠ .executionDone → ∃ r', (.ok (({ r with
          session := { r.session with controller := c }
          starts := [] } : Orchestration W).transition newState) :
          Except OrchestrationError (Orchestration W)) = .ok r' ∧ r'.starts = [] ∧
        r'.session.currentState ∈ settledStates ∧ r'.session.currentState ≠ .executionDone ∧
          r'.runtimeReport = r.runtimeReport := fun c newState hstate hundone =>
    ⟨_, rfl, rfl, hstate, hundone, rfl⟩
  unfold run
  dsimp only
  by_cases happroved : r.session.controller.solveApproved = true
  · rw [if_neg (by rw [happroved]; decide)]
    split
    · rename_i plan caseSeal _ _ _
      generalize r.session.controller.workspace.adoptAndVerify caseSeal plan = adopted
      obtain ⟨workspace, e | _⟩ := adopted
      · dsimp only
        split_ifs
        · exact .inl (hrefused _ .failed (by decide) (by decide))
        · exact .inr (.inl rfl)
      · dsimp only
        split
        · exact .inl (hrefused _ .failed (by decide) (by decide))
        · split
          · rename_i contract _ _ _ _
            refine .inr <| .inr ⟨happroved, contract, _, attemptLoop_finished
              ⟨?_, .nil, .refl _, rfl, ⟨rfl, by decide, ?_⟩, ?_, rfl⟩ t.bounded.1 rfl⟩
            all_goals exact fun _ h => absurd h List.not_mem_nil
          · exact .inl (hrefused _ .engineeringReviewRequired (by decide) (by decide))
    · exact .inl (hrefused _ .failed (by decide) (by decide))
  · rw [if_pos (by rw [Bool.eq_false_of_not_eq_true happroved]; decide)]
    exact .inl (hrefused _ .failed (by decide) (by decide))

/-- The starts of a run, however it ends. -/
def startsOf : Except OrchestrationError (Orchestration W) → List Start
  | .ok r => r.starts
  | .error e => e.starts

/-- **Every start is one the user approved.** A run starts the solver at most `max_attempts` times,
and each time on the plan and the case that the approval of its beginning allows. -/
theorem run_authorized (t : SolverTools A R W) (r : Orchestration W) :
    (startsOf (r.run t)).length ≤ t.maxAttempts ∧
      ∀ start ∈ startsOf (r.run t), r.session.controller.solveApproved = true ∧
        AuthorizedBy r.session.controller.executionApproval start := by
  rcases run_finished t r with ⟨r', hrun, hstarts, -⟩ | hrun | ⟨happroved, contract, driver,
    hfinished⟩
  · rw [hrun, startsOf, hstarts]
    exact ⟨Nat.zero_le _, fun start hstart => by cases hstart⟩
  · rw [hrun]
    exact ⟨Nat.zero_le _, fun start hstart => by cases hstart⟩
  · generalize r.run t = outcome at hfinished ⊢
    cases hfinished with
    | escaped starts hbound hauthorized =>
      exact ⟨hbound, fun start hstart => ⟨happroved, hauthorized start hstart⟩⟩
    | refused r' hbound hauthorized =>
      exact ⟨hbound, fun start hstart => ⟨happroved, hauthorized start hstart⟩⟩
    | reported r' filed hbound hauthorized =>
      exact ⟨hbound, fun start hstart => ⟨happroved, hauthorized start hstart⟩⟩

/-- A report is the account of the starts of a run: one attempt for each, and the run is done
exactly where the last of them succeeded. -/
structure Accounts (t : SolverTools A R W) (r : Orchestration W) (report : RuntimeReport) :
    Prop where
  filed : r.runtimeReport = some report
  valid : report.Valid
  simulation : r.simulation = some report.finalResult
  done : r.session.currentState = .executionDone ↔ report.success = true
  recorded : ∃ contract driver,
    List.Forall₂ (Recorded t contract driver) r.starts (report.attempts.map (·.result))

theorem run_accounts {t : SolverTools A R W} (h : r.run t = .ok r') :
    r'.session.currentState ∈ settledStates ∧
      (r'.runtimeReport = r.runtimeReport ∧ r'.session.currentState ≠ .executionDone ∨
        ∃ report, Accounts t r' report) := by
  rcases run_finished t r with ⟨r₁, hrun, -, hstate, hundone, hreport⟩ | hrun | ⟨-, contract,
    driver, hfinished⟩
  · cases h.symm.trans hrun
    exact ⟨hstate, .inl ⟨hreport, hundone⟩⟩
  · cases h.symm.trans hrun
  · rw [h] at hfinished
    cases hfinished with
    | refused _ _ _ hstate hundone hreport => exact ⟨hstate, .inl ⟨hreport, hundone⟩⟩
    | reported _ filed _ _ hstate hreport hvalid hsimulation hdone hrecorded =>
      exact ⟨hstate, .inr ⟨filed, hreport, hvalid, hsimulation, hdone, contract, driver, hrecorded⟩⟩

/-- A repair that asks for a retry of the approved plan. -/
def retryingRepair : RepairTools Unit Unit Unit where
  machine := reliableMachine
  native := ⟨id, id, some, [], fun _ => none, fun _ => none, true, true⟩
  nativeExecution := true
  maxRuntimeRepairSteps := 3
  requireSolveReadyGate := true
  generateTurn _ _ := some (.retrySolver (planWith []), ())
  compile _ _ _ := .rejected []
  observe _ _ _ := none
  planFailures _ _ _ := []
  nativeInputFailures _ := []
  presolveFailures _ _ := []

/-- A solver that is killed at its first attempt and reaches time 2 at the next. -/
def retriedSolver : SolverTools Unit Unit Unit where
  repair := retryingRepair
  maxAttempts := 3
  bounded := by decide
  runtimeDriver _ := "foamRun".toList
  hasCase _ := true
  confirmedIntake _ := true
  compileContract _ _ := some twoSeconds
  launch _ c _ number :=
    (some (if number = 1 then ⟨1, "exited".toList, encode "Floating point exception\n".toList, none⟩
      else ⟨0, "exited".toList, logBehind "Starting", none⟩), c.workspace, ())
  verifyOutputs _ c _ _ := (true, c.workspace, ())
  inconclusive _ := false
  inconclusiveEvent _ _ := RuntimeSession.failedEvent [] []

/-- A session whose user approved its case. -/
def approvedRun : Orchestration Unit where
  session := {
    controller := approvedSession "deltaT 1e-3;\n"
    currentState := .simulation
    world := () }

end Orchestration
end Runtime
end OpenFoamAgent
