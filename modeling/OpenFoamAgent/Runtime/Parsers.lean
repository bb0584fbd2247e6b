/-
# The runtime log

`tools/parsers.py`: the accumulator that reads the output of a solver line by
line, and the verdict it gives at the end. A line is read as at most 65537 bytes;
a longer one is a fault.

`Units` stand for the finite floats, and the log stands for its own hash.
-/
import OpenFoamAgent.Library.Ascents
import OpenFoamAgent.Library.Dict
import OpenFoamAgent.Python.FloatArithmetic
import OpenFoamAgent.Python.Regex
import OpenFoamAgent.Schemas.Plan

namespace OpenFoamAgent
namespace Runtime

open Python Schemas

/-! ### The patterns -/

def signPattern : Pattern := .one fun c => c == '-' || c == '+'

/-- `_NUMBER`. -/
def numberPattern : Pattern :=
  .all [.optional signPattern,
    .or (.all [.plus .digit, .optional (.all [.exactly ".", .star .digit])])
      (.all [.exactly ".", .plus .digit]),
    .optional (.all [.one fun c => c == 'e' || c == 'E', .optional signPattern, .plus .digit])]

/-- `RESIDUAL_RE`. -/
def residualRe : Pattern :=
  .all [.word "Solving for ", .group "field" (.plus (.one fun c => c != ',')), .exactly ",", .spaces,
    .word "Initial residual = ", .group "initial" numberPattern, .exactly ",", .spaces,
    .word "Final residual = ", .group "final" numberPattern]

/-- `TIME_RE`. -/
def timeRe : Pattern :=
  .all [.atStart, .word "Time", .spaces, .exactly "=", .spaces, .group "time" numberPattern, .spaces,
    .optional (.group "unit" (.word "s")), .spaces, .atEnd]

/-- `COURANT_RE`. -/
def courantRe : Pattern :=
  .all [.word "Courant Number", .someSpace, .word "mean:", .spaces, .group "mean" numberPattern,
    .someSpace, .word "max:", .spaces, .group "max" numberPattern]

/-- `CONTINUITY_RE`. -/
def continuityRe : Pattern :=
  .all [.word "time step continuity errors", .spaces, .exactly ":", .spaces,
    .word "sum local", .spaces, .exactly "=", .spaces, .group "local" numberPattern,
    .exactly ",", .spaces, .word "global", .spaces, .exactly "=", .spaces,
    .group "global" numberPattern, .exactly ",", .spaces, .word "cumulative", .spaces,
    .exactly "=", .spaces, .group "cumulative" numberPattern]

/-- `END_RE`. -/
def endRe : Pattern := .all [.atStart, .exactly "End", .spaces, .atEnd]

/-- `FATAL_RE`. -/
def fatalRe : Pattern :=
  .all [.word "--> FOAM FATAL", .optional (.word " IO"), .word " ERROR:"]

/-- `NON_FINITE_RE`. -/
def nonFiniteRe : Pattern :=
  .or (.all [.notBehind Pattern.isLetter,
      .or (.word "nan") (.all [.optional signPattern, .word "inf", .optional (.word "inity")]),
      .notAhead Pattern.isLetter])
    (.or (.word "floating point exception") (.word "sigfpe"))

/-- `_finite_float`. -/
def finiteFloat (value : Text) : Option Units := (parseFloat value).bind Binary64.toUnits

/-- `_finite_float(match.group(name))`. -/
def finiteGroup (m : Cursor) (name : String) : Option Units := (m.group name).bind finiteFloat

/-! ### The contracts -/

/-- The `mode` of a contract. -/
inductive RunMode where
  | transient | steady | custom
  deriving DecidableEq

/-- `ResidualThreshold`. -/
structure ResidualThreshold where
  field : Text
  value : Binary64
  deriving DecidableEq

/-- `ExecutionBoundContract`. -/
structure ExecutionBoundContract where
  mode : RunMode
  startTime : Units := 0
  endTime : Option Units := none
  minimumSteps : ℕ := 1
  warnings : List Text := []
  deriving DecidableEq

/-- `ResultAcceptanceContract`. -/
structure ResultAcceptanceContract where
  residualThresholds : List ResidualThreshold := []
  consecutiveSamples : ℕ := 3
  criteriaComplete : Bool := false
  warnings : List Text := []
  deriving DecidableEq

/-- `RuntimeContract`. -/
structure RuntimeContract where
  executionBound : ExecutionBoundContract
  resultAcceptance : ResultAcceptanceContract := {}
  deriving DecidableEq

/-- `CompletionContract`, the older form of a contract. -/
structure CompletionContract where
  mode : RunMode
  startTime : Units := 0
  endTime : Option Units := none
  minimumSteps : ℕ := 1
  residualThresholds : List ResidualThreshold := []
  consecutiveSamples : ℕ := 3
  deriving DecidableEq

/-- What a log is read against. -/
inductive LogContract where
  | missing
  | runtime (contract : RuntimeContract)
  | completion (contract : CompletionContract)

/-- The time before the first step. -/
def LogContract.startTime : LogContract → Units
  | missing => 0
  | runtime contract => contract.executionBound.startTime
  | completion contract => contract.startTime

/-- The thresholds whose residuals are counted. -/
def LogContract.thresholds : LogContract → List ResidualThreshold
  | missing => []
  | runtime contract => contract.resultAcceptance.residualThresholds
  | completion contract => contract.residualThresholds

/-! ### The accumulator -/

/-- `ResidualSample`. -/
structure ResidualSample where
  time : Units
  field : Text
  initialResidual : Units
  finalResidual : Units
  deriving DecidableEq

/-- The exceptions of a reading. -/
inductive ReadError where
  /-- A residual sample of an empty field name. -/
  | validation
  /-- A transient completion contract without an end time. -/
  | typeError
  deriving DecidableEq

/-- `RuntimeLogAccumulator`. -/
structure RuntimeLogAccumulator where
  residuals : List ResidualSample := []
  residualCount : ℕ := 0
  currentTime : Option Units := none
  firstTime : Option Units := none
  progressSteps : ℕ := 0
  courantMax : Option Units := none
  continuityMax : Option Units := none
  endMarker : Bool := false
  invalid : Bool := false
  nonFinite : Bool := false
  fatalLines : List Text := []
  timeReversed : Bool := false
  lastResiduals : Dict Text ResidualSample := ∅
  consecutive : Dict Text ℕ := ∅
  hash : Bytes := []

namespace RuntimeLogAccumulator

variable (contract : LogContract)

/-- One more sample below the threshold, or none in a row. -/
def countThreshold (lastResiduals : Dict Text ResidualSample) (consecutive : Dict Text ℕ)
    (threshold : ResidualThreshold) : Dict Text ℕ :=
  let previous := (consecutive.get threshold.field).getD 0
  let below := (lastResiduals.get threshold.field).any (threshold.value.bounds ·.initialResidual)
  consecutive.insert threshold.field (if below then previous + 1 else 0)

/-- `_flush_step`. -/
def flushStep (a : RuntimeLogAccumulator) : RuntimeLogAccumulator :=
  match a.currentTime, contract with
  | none, _ => a
  | _, .missing => a
  | some _, contract =>
    { a with
      consecutive := contract.thresholds.foldl (countThreshold a.lastResiduals) a.consecutive
      lastResiduals := ∅ }

/-- A line of a fatal error, or one behind it. -/
def noteFatal (line : Text) (a : RuntimeLogAccumulator) : RuntimeLogAccumulator :=
  if a.fatalLines ≠ [] ∧ a.fatalLines.length < 8 then
    { a with fatalLines := a.fatalLines ++ [line.take 250] }
  else if a.fatalLines = [] ∧ (fatalRe.search line).isSome then
    { a with fatalLines := a.fatalLines ++ [line.take 250] }
  else a

/-- The banner of a solver that traps floating point exceptions. -/
def trappingBanner : String := "enabling floating point exception trapping"

/-- A line with a value that is not finite. -/
def noteNonFinite (line : Text) (a : RuntimeLogAccumulator) : RuntimeLogAccumulator :=
  if ¬ contains trappingBanner.toList (casefold line) ∧ (nonFiniteRe.search line).isSome then
    { a with nonFinite := true }
  else a

/-- A new value of `Time`. -/
def noteTime (value : Units) (a : RuntimeLogAccumulator) : RuntimeLogAccumulator :=
  if a.currentTime = some value then a
  else
    let a := a.flushStep contract
    let previous := a.currentTime.getD contract.startTime
    { a with
      firstTime := a.firstTime.or (some value)
      timeReversed := a.timeReversed || decide (value < previous)
      progressSteps := if previous < value then a.progressSteps + 1 else a.progressSteps
      currentTime := some value }

/-- A `Time` line. -/
def readTime (stripped : Text) (a : RuntimeLogAccumulator) : RuntimeLogAccumulator :=
  match timeRe.fullmatch stripped with
  | none => a
  | some m =>
    match finiteGroup m "time" with
    | none => { a with invalid := true }
    | some value => a.noteTime contract value

/-- A residual: the last 256 samples are kept, and one sample a field in each step. -/
def noteResidual (sample : ResidualSample) (a : RuntimeLogAccumulator) : RuntimeLogAccumulator :=
  let residuals := a.residuals ++ [sample]
  let a := { a with
    residuals := residuals.drop (residuals.length - 256)
    residualCount := a.residualCount + 1 }
  if 256 ≤ a.lastResiduals.keys.length ∧ sample.field ∉ a.lastResiduals then
    { a with invalid := true }
  else { a with lastResiduals := a.lastResiduals.insert sample.field sample }

/-- A residual line. -/
def readResidual (line : Text) (a : RuntimeLogAccumulator) :
    Except ReadError RuntimeLogAccumulator :=
  match residualRe.search line with
  | none => .ok a
  | some m =>
    match finiteGroup m "initial", finiteGroup m "final" with
    | some initial, some final =>
      if initial < 0 ∨ final < 0 then .ok { a with invalid := true }
      else
        let field := strip ((m.group "field").getD [])
        if field = [] then .error .validation
        else .ok (a.noteResidual ⟨a.currentTime.getD 0, field, initial, final⟩)
    | _, _ => .ok { a with invalid := true }

/-- A line of Courant numbers. -/
def readCourant (line : Text) (a : RuntimeLogAccumulator) : RuntimeLogAccumulator :=
  match courantRe.search line with
  | none => a
  | some m =>
    match finiteGroup m "max" with
    | none => { a with invalid := true }
    | some value =>
      if value < 0 then { a with invalid := true }
      else { a with courantMax := some (max value (a.courantMax.getD 0)) }

/-- A line of continuity errors. -/
def readContinuity (line : Text) (a : RuntimeLogAccumulator) : RuntimeLogAccumulator :=
  match continuityRe.search line with
  | none => a
  | some m =>
    match finiteGroup m "cumulative" with
    | none => { a with invalid := true }
    | some value => { a with continuityMax := some (max (value.natAbs : Units) (a.continuityMax.getD 0)) }

/-- The `End` line. -/
def readEnd (stripped : Text) (a : RuntimeLogAccumulator) : RuntimeLogAccumulator :=
  if (endRe.fullmatch stripped).isSome then { a with endMarker := true } else a

/-- `feed`. -/
def feed (a : RuntimeLogAccumulator) (raw : Bytes) : Except ReadError RuntimeLogAccumulator := do
  let a := { a with hash := a.hash ++ raw }
  if 65536 < raw.length then return { a with invalid := true }
  else
    let line := decodeReplace raw
    let stripped := strip line
    let a ← readResidual line (readTime contract stripped (noteNonFinite line (noteFatal line a)))
    return readEnd stripped (readContinuity line (readCourant line a))

end RuntimeLogAccumulator

/-! ### The verdict -/

/-- The entries of `evidence_failures`. -/
inductive EvidenceFailure where
  /-- `{runtime_driver} returned non-zero status {return_code}.` -/
  | status (runtimeDriver : Text) (returnCode : ℤ)
  /-- `Process termination reason: {termination_reason}.` -/
  | reason (terminationReason : Text)
  /-- `OpenFOAM End marker is missing.` -/
  | noEnd
  /-- `OpenFOAM reported a fatal error.` -/
  | fatal
  /-- `Runtime log contains non-finite/SIGFPE evidence.` -/
  | nonFinite
  /-- `Runtime log contains malformed, overlong, or reversed-time evidence.` -/
  | malformed
  /-- `Runtime log contains no positive Time progress evidence.` -/
  | noProgress
  /-- `Runtime contract is missing; process exit does not prove bounded execution completion.` -/
  | noContract
  /-- `Insufficient progress steps for the execution-bound contract.` -/
  | fewSteps
  /-- `Transient execution ended without a machine-verifiable end-time bound.` -/
  | noEndTime
  /-- `Requested execution end time {bound.end_time} was not reached.` -/
  | endTimeNotReached (endTime : Units)
  /-- `Steady/custom bounded execution did not end cleanly.` -/
  | notClean
  /-- `Insufficient progress steps for the completion contract.` -/
  | fewCompletionSteps
  /-- `Requested end time {contract.end_time} was not reached.` -/
  | completionNotReached (endTime : Units)
  /-- `Steady outer-iteration initial-residual convergence criterion was not met.` -/
  | notConverged
  /-- `Custom completion requires an implemented deterministic evaluator; a model claim is
  insufficient.` -/
  | customCompletion
  deriving DecidableEq

/-- The entries of `acceptance_warnings`. -/
inductive AcceptanceWarning where
  | contract (text : Text)
  /-- `Configured steady residual acceptance thresholds were not satisfied by the captured
  consecutive samples.` -/
  | thresholds
  /-- `Machine-compiled residual criteria were satisfied, but additional result-acceptance criteria
  remain advisory/unimplemented.` -/
  | advisory
  deriving DecidableEq

/-- `SimulationResult`. -/
structure SimulationResult where
  success : Bool
  completed : Bool
  returnCode : ℤ
  processSuccess : Bool
  progressed : Bool
  terminationVerified : Bool
  terminationReason : Text
  firstTime : Option Units
  lastTime : Option Units
  progressSteps : ℕ
  residuals : List ResidualSample
  residualSampleCount : ℕ
  residualsTruncated : Bool
  courantMax : Option Units
  continuityError : Option Units
  numericalQualityVerified : Bool
  acceptanceWarnings : List AcceptanceWarning
  fatalError : Option Text
  nonFiniteDetected : Bool
  endMarkerFound : Bool
  logSha256 : Digest
  evidenceFailures : List EvidenceFailure
  deriving DecidableEq

/-- A failure that is reported under a condition. -/
def failIf (condition : Prop) [Decidable condition] (failure : EvidenceFailure) :
    List EvidenceFailure :=
  if condition then [failure] else []

/-- `max(1e-10, abs(end_time) * 1e-9)`. -/
def tolerance (endTime : Units) : ℕ :=
  max (literalUnits 1 (-10)) (mulUnits endTime.natAbs (literalUnits 1 (-9)))

/-- `current_time >= end_time - tolerance`. -/
def reaches (endTime current : Units) : Bool :=
  (Binary64.ofExact (endTime - tolerance endTime)).isBelow current

namespace RuntimeLogAccumulator

variable (a : RuntimeLogAccumulator)

/-- The failures of the process and its log. -/
def processFailures (returnCode : ℤ) (runtimeDriver terminationReason : Text) :
    List EvidenceFailure :=
  failIf (returnCode ≠ 0) (.status runtimeDriver returnCode) ++
  failIf (terminationReason ≠ "exited".toList) (.reason terminationReason) ++
  failIf (a.endMarker = false) .noEnd ++
  failIf (a.fatalLines ≠ []) .fatal ++
  failIf (a.nonFinite = true) .nonFinite ++
  failIf (a.invalid = true ∨ a.timeReversed = true) .malformed

/-- Every threshold was met often enough in a row. -/
def converged (thresholds : List ResidualThreshold) (samples : ℕ) : Bool :=
  thresholds.all fun x => samples ≤ (a.consecutive.get x.field).getD 0

/-- `termination`, with the failures of an execution bound. -/
def boundTermination (bound : ExecutionBoundContract) (processSuccess : Bool) :
    Bool × List EvidenceFailure :=
  if a.progressSteps < bound.minimumSteps then (false, [.fewSteps])
  else
    match bound.mode, bound.endTime with
    | .transient, none => (false, [.noEndTime])
    | .transient, some endTime =>
      let termination := a.currentTime.any (reaches endTime)
      (termination, failIf (termination = false) (.endTimeNotReached endTime))
    | _, _ =>
      let termination := processSuccess && decide (0 < a.progressSteps) && a.endMarker
      (termination, failIf (termination = false) .notClean)

/-- `termination`, with the failures of a completion contract. -/
def completionTermination (contract : CompletionContract) :
    Except ReadError (Bool × List EvidenceFailure) :=
  if a.progressSteps < contract.minimumSteps then .ok (false, [.fewCompletionSteps])
  else
    match contract.mode, contract.endTime with
    | .transient, none => .error .typeError
    | .transient, some endTime =>
      let termination := a.currentTime.any (reaches endTime)
      .ok (termination, failIf (termination = false) (.completionNotReached endTime))
    | .steady, _ =>
      let termination := a.converged contract.residualThresholds contract.consecutiveSamples
      .ok (termination, failIf (termination = false) .notConverged)
    | .custom, _ => .ok (false, [.customCompletion])

/-- `acceptance_verified`, with the warnings. -/
def acceptance (bound : ExecutionBoundContract) (acceptance : ResultAcceptanceContract) :
    Bool × List AcceptanceWarning :=
  let warnings := (bound.warnings ++ acceptance.warnings).map .contract
  if acceptance.residualThresholds ≠ [] then
    let verified := a.converged acceptance.residualThresholds acceptance.consecutiveSamples
    (verified && acceptance.criteriaComplete,
      warnings ++ if verified = false then [.thresholds]
        else if acceptance.criteriaComplete = false then [.advisory] else [])
  else (acceptance.criteriaComplete, warnings)

/-- `termination`, its failures, `acceptance_verified` and `acceptance_warnings`. -/
def judge (contract : LogContract) (processSuccess : Bool) :
    Except ReadError ((Bool × List EvidenceFailure) × Bool × List AcceptanceWarning) :=
  match contract with
  | .missing => .ok ((false, [.noContract]), false, [])
  | .runtime contract =>
    .ok (a.boundTermination contract.executionBound processSuccess,
      a.acceptance contract.executionBound contract.resultAcceptance)
  | .completion contract =>
    (a.completionTermination contract).map fun t =>
      (t, contract.mode == .steady && t.1, [])

/-- `finish`. -/
def finish (contract : LogContract) (returnCode : ℤ) (runtimeDriver terminationReason : Text) :
    Except ReadError SimulationResult := do
  let a := a.flushStep contract
  let processFailures := a.processFailures returnCode runtimeDriver terminationReason
  let processSuccess := processFailures == []
  let progressed := decide (0 < a.progressSteps)
  let ((termination, judged), accepted, warnings) ← a.judge contract processSuccess
  let failures := processFailures ++ failIf (progressed = false) .noProgress ++ judged
  let completed := processSuccess && progressed && termination && failures == []
  let fatalError := a.fatalLines.flatten
  return {
    success := completed
    completed
    returnCode
    processSuccess
    progressed
    terminationVerified := termination
    terminationReason
    firstTime := a.firstTime
    lastTime := a.currentTime
    progressSteps := a.progressSteps
    residuals := a.residuals
    residualSampleCount := a.residualCount
    residualsTruncated := a.residuals.length < a.residualCount
    courantMax := a.courantMax
    continuityError := a.continuityMax
    numericalQualityVerified := accepted
    acceptanceWarnings := warnings
    fatalError := if fatalError = [] then none else some fatalError
    nonFiniteDetected := a.nonFinite
    endMarkerFound := a.endMarker
    logSha256 := ⟨a.hash⟩
    evidenceFailures := failures }

end RuntimeLogAccumulator

/-! ### The stream -/

/-- `stream.readline(limit)`: what is read of the next line. -/
def readline (limit : ℕ) (stream : Bytes) : Bytes :=
  (stream.takeWhile (· ≠ 10) ++ (stream.dropWhile (· ≠ 10)).take 1).take limit

/-- The results of `stream.readline(limit)` until the stream ends; each result holds a byte, so
the length of the stream is enough fuel. -/
def reads (limit : ℕ) : ℕ → Bytes → List Bytes
  | 0, _ => []
  | fuel + 1, stream =>
    let raw := readline limit stream
    if raw = [] then [] else raw :: reads limit fuel (stream.drop raw.length)

/-- `parse_runtime_stream`. -/
def parseRuntimeStream (contract : LogContract) (returnCode : ℤ)
    (runtimeDriver terminationReason : Text) (stream : Bytes) : Except ReadError SimulationResult := do
  let accumulator ← (reads 65537 stream.length stream).foldlM
    (RuntimeLogAccumulator.feed contract) {}
  accumulator.finish contract returnCode runtimeDriver terminationReason

end Runtime
end OpenFoamAgent
