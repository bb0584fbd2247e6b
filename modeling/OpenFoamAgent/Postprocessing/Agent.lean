/-
# The post-processing agent

`CFDPostProcessingAgent` of `postprocessing/agent.py`: the loop over the turns of the model, what
an action does, and the execution plans that `compile_postprocess_graph` of
`postprocessing/build_graph.py` checks.

The model, the references, the analyses and the report are arguments, and so is the process: what
it says, and the tree it leaves. Every start of `foamPostProcess` is kept with the case and the
events it was made with.
-/
import OpenFoamAgent.Postprocessing.PathRedaction
import OpenFoamAgent.Runtime.Orchestrator
import OpenFoamAgent.Tools.FoamSerializer
import OpenFoamAgent.Workspace.ConfigWrites

namespace OpenFoamAgent
namespace Postprocessing

open Python Schemas Workspace Workflow Tools

/-! ### Events -/

/-- `PostProcessingPolicy`: the bounds of the loop, of the processes and of an event. -/
structure PostProcessingPolicy extends EventPolicy where
  maxSteps : ℕ := 12
  maxNativeCommands : ℕ := 8
  positive : 1 ≤ maxSteps ∧ 1 ≤ maxNativeCommands := by decide

/-- What a run decides by in a `PostProcessingEvent`. An artifact is a path with a hash. -/
structure RunEvent where
  step : ℕ
  actionType : Text
  success : Bool
  outputExcerpt : Text := []
  nativeCommandExecuted : Bool := false
  artifact : Option (Text × Digest) := none
  fits : outputExcerpt.length ≤ 12000 := by decide

/-- An exception: one that `_dispatch` catches, or another one. -/
inductive Fault where
  | caught
  | escaped
  deriving DecidableEq

/-- `_event`. The mark of a cut output is not counted, and an output that does not fit its field is
a `ValidationError`. -/
def PostProcessingPolicy.event (policy : PostProcessingPolicy) (step : ℕ) (actionType : Text)
    (success : Bool) (output : Text) (native : Bool) : Except Fault RunEvent :=
  if h : (boundedOutput policy.toEventPolicy output).length ≤ 12000 then
    .ok { step, actionType, success, outputExcerpt := boundedOutput policy.toEventPolicy output,
          nativeCommandExecuted := native, fits := h }
  else .error .caught

/-- The events of the writes. -/
def writeType : Text := "write_postprocess_config".toList

/-- The events of the processes. -/
def runType : Text := "run_foam_postprocess".toList

/-- The digest that an event records for a path. -/
def RunEvent.configDigest (event : RunEvent) (path : Text) : Option Digest :=
  if event.actionType = writeType ∧ event.success then
    event.artifact.bind fun a => if a.1 = path then some a.2 else none
  else none

/-- `_latest_config_digest`. -/
def latestConfigDigest (events : List RunEvent) (path : Text) : Option Digest :=
  events.reverse.findSome? (·.configDigest path)

/-! ### Actions -/

/-- `PostProcessRunSpec`. -/
structure PostProcessRunSpec where
  dictionaryPath : Text
  latest : Bool := false
  useSolverContext : Bool := true
  region : Text := []
  deriving DecidableEq

/-- What a report is asked to say. -/
structure ReportRequest where
  limitations : List Text := []
  scientificConfidence : Text := "unknown".toList
  reviewReasons : List Text := []
  recommendedHumanChecks : List Text := []
  deriving DecidableEq

/-- An action of a turn, an execution plan apart. -/
inductive PostProcessingAction (A : Type) where
  | write (path content : Text)
  | run (spec : PostProcessRunSpec)
  /-- A search, a reading or an analysis. -/
  | observe (action : A)
  | finish (summary : Text) (bounded : summary.length ≤ 4000) (request : ReportRequest)
  | block (reason : Text)

/-- `PostProcessingExecutionPlanAction`. A force analysis is an action with the dictionary of its
reference scales. -/
structure PostProcessingExecutionPlan (A : Type) where
  configs : List (Text × Text) := []
  typedConfigs : List TypedFoamDictionaryFile := []
  runs : List PostProcessRunSpec := []
  forceAnalyses : List (Text × A) := []
  /-- The conservation checks, and then the quantities. -/
  analyses : List A := []
  request : ReportRequest := {}
  summary : Text
  bounded : summary.length ≤ 1500

/-- `PostProcessingTurn`. -/
inductive PostProcessingTurn (A : Type) where
  | action (a : PostProcessingAction A)
  | plan (p : PostProcessingExecutionPlan A)

/-! ### The graph of an execution plan -/

/-- The failures of a graph. -/
inductive GraphFailure where
  /-- `Unsafe post-processing config path: {path}` -/
  | unsafeConfig (path : Text)
  /-- `Conflicting post-processing config content for {path}.` -/
  | conflicting (path : Text)
  | serialization (path : Text) (e : FoamSerializationError)
  | bundle (e : CheckError)
  /-- The dictionary of a run or of an analysis lies elsewhere. -/
  | outside (path : Text)
  | missing (path : Text)
  deriving DecidableEq

/-- `path.startswith("postprocessConfig/") and ".." not in path` -/
def isConfigPath (path : Text) : Bool := isConfigText path && !decide ("..".toList <:+: path)

/-- The configurations in the order of a `dict`, and the failures. -/
abbrev Configs := List (Text × Text) × List GraphFailure

/-- `add` of `compile_postprocess_graph`. -/
def addConfig (g : Configs) (path content : Text) : Configs :=
  if ¬ isConfigPath path then (g.1, g.2 ++ [.unsafeConfig path])
  else
    match g.1.lookup path with
    | none => (g.1 ++ [(path, content)], g.2)
    | some content' => if content' = content then g else (g.1, g.2 ++ [.conflicting path])

/-- The configurations of a plan. -/
def collectConfigs {A : Type} (isWord : Char → Bool) (p : PostProcessingExecutionPlan A) :
    Configs :=
  p.typedConfigs.foldl (fun g item =>
    match serializeFoamDictionary isWord item with
    | .ok content => addConfig g item.path content
    | .error e => (g.1, g.2 ++ [.serialization item.path e]))
    (p.configs.foldl (fun g item => addConfig g item.1 item.2) ([], []))

/-- The check of the dictionary of a run or of an analysis. -/
def checkDictionary (w : CaseWorkspace) (configs : List (Text × Text)) (path : Text) :
    Except CheckError (List GraphFailure) :=
  if ¬ isConfigPath path then .ok [.outside path]
  else if path ∈ configs.map Prod.fst then .ok []
  else
    match w.resolveCasePath path true with
    | .ok _ => .ok []
    | .error (.missing _) => .ok [.missing path]
    | .error e => .error e

/-- `compile_postprocess_graph`: the configurations and the failures. -/
def compilePostprocessGraph {A : Type} (host : Host) (isWord : Char → Bool) (w : CaseWorkspace)
    (p : PostProcessingExecutionPlan A) : Except CheckError Configs := do
  let (configs, failures) := collectConfigs isWord p
  let bundle ← w.validateCandidateBundle host configs []
  let runs ← p.runs.mapM fun spec => checkDictionary w configs spec.dictionaryPath
  let analyses ← p.forceAnalyses.mapM fun a => checkDictionary w configs a.1
  return (configs,
    (failures ++ bundle.map GraphFailure.bundle ++ runs.flatten ++ analyses.flatten).eraseDups)

/-! ### The agent -/

/-- How a process ends that was started. -/
inductive ProcessOutcome where
  /-- With the output for its event. -/
  | returned (success : Bool) (output : Text)
  /-- An exception, also of its log. -/
  | raised (fault : Fault)

/-- A start of `foamPostProcess`: what it was made with, and the case it left. -/
structure PostProcessStart where
  spec : PostProcessRunSpec
  workspace : CaseWorkspace
  events : List RunEvent
  left : CaseWorkspace

/-- What the agent asks. -/
structure PostProcessTools (A R W : Type) where
  host : Host
  policy : PostProcessingPolicy := {}
  isWord : Char → Bool
  actionType : A → Text
  /-- `_generate_turn`, where it returns. -/
  generateTurn : ℕ → CaseWorkspace → List RunEvent → W →
    Option (PostProcessingTurn A) × W
  /-- A search, a reading or an analysis: its success and its output. -/
  observe : A → CaseWorkspace → W → Except Fault (Bool × Text) × W
  /-- `resolve_postprocess_context`, and `foam_post_process` with the policy of its runner: an
  exception before the process, or the process with the tree it leaves. -/
  foamPostProcess : PostProcessRunSpec → CaseWorkspace → W →
    Except Fault (ProcessOutcome × FileTree Text Bytes) × W
  /-- `_build_report`. -/
  buildReport : ReportRequest → CaseWorkspace → List RunEvent → W → Except Fault R
  /-- The report of a case whose seal is not verified. -/
  preflightReport : SealError → R
  /-- The joined failures of a graph fit the summary of an event. -/
  summarized : List GraphFailure → Bool

/-- What the agent works on. -/
structure PostProcessingSession (R W : Type) where
  workspace : CaseWorkspace
  world : W
  currentState : State
  events : List RunEvent := []
  report : Option R := none
  /-- `_precommitted_configs` -/
  precommitted : Dict Text Digest := ∅
  /-- The processes of `foamPostProcess` in the ledger of the runner. -/
  processes : ℕ := 0
  starts : List PostProcessStart := []

namespace PostProcessingSession

variable {A R W : Type} (t : PostProcessTools A R W) (plan : EngineeringPlan)
  (caseSeal : CaseSeal) (step : ℕ) (s : PostProcessingSession R W)

/-- `state.transition`. -/
def transition (newState : State) : PostProcessingSession R W := { s with currentState := newState }

/-- `state.postprocessing_events.append(event)` -/
def record (event : RunEvent) : PostProcessingSession R W :=
  { s with events := s.events ++ [event] }

/-- The report of a run that is over. -/
def file (report : R) : PostProcessingSession R W :=
  { s with report := some report }.transition .resultReviewRequired

/-- A write of a configuration: one that a plan has committed is not made again. -/
def write (path content : Text) :
    PostProcessingSession R W × Except Fault RunEvent :=
  let written (digest : Digest) : RunEvent :=
    { step, actionType := writeType, success := true, artifact := some (path, digest) }
  if s.precommitted.get path = some ⟨encode content⟩ then
    ({ s with precommitted := s.precommitted.erase path }, .ok (written ⟨encode content⟩))
  else
    match s.workspace.writePostprocessConfig t.host path content with
    | (w, .error _) => ({ s with workspace := w }, .error .caught)
    | (w, .ok digest) => ({ s with workspace := w }, .ok (written digest))

/-- A process: the checks of its budget, of its dictionary and of the seal come first. -/
def runFoamPostProcess (spec : PostProcessRunSpec) :
    PostProcessingSession R W × Except Fault RunEvent :=
  if t.policy.maxNativeCommands ≤ s.processes then
    (s, .ok { step, actionType := runType, success := false })
  else if ¬ isConfigText spec.dictionaryPath then (s, .error .caught)
  else
    match s.workspace.caseFileDigest spec.dictionaryPath,
        latestConfigDigest s.events spec.dictionaryPath with
    | .ok current, some expected =>
      if current ≠ expected then (s, .error .caught)
      else
        match s.workspace.verifySeal caseSeal plan with
        | .error _ => (s, .error .caught)
        | .ok () =>
          match t.foamPostProcess spec s.workspace s.world with
          | (.error fault, world) => ({ s with world }, .error fault)
          | (.ok (outcome, tree), world) =>
            let left : CaseWorkspace := { s.workspace with tree }
            let s' := { s with
              workspace := left
              world
              processes := s.processes + 1
              starts := s.starts ++ [⟨spec, s.workspace, s.events, left⟩] }
            match outcome with
            | .raised fault => (s', .error fault)
            | .returned success output => (s', t.policy.event step runType success output true)
    | _, _ => (s, .error .caught)

/-- The body of `_dispatch`: the event, and whether the run is over. -/
def perform : PostProcessingAction A →
    PostProcessingSession R W × Except Fault (RunEvent × Bool)
  | .write path content =>
    let (s', r) := s.write t step path content
    (s', r.map (·, false))
  | .run spec =>
    let (s', r) := s.runFoamPostProcess t plan caseSeal step spec
    (s', r.map (·, false))
  | .observe action =>
    match t.observe action s.workspace s.world with
    | (.error fault, world) => ({ s with world }, .error fault)
    | (.ok (success, output), world) =>
      ({ s with world },
        (t.policy.event step (t.actionType action) success output false).map (·, false))
  | .finish summary _ request =>
    match t.buildReport request s.workspace s.events s.world with
    | .error fault => (s, .error fault)
    | .ok report =>
      (s.file report,
        (t.policy.event step "finish_postprocessing".toList true summary false).map (·, true))
  | .block reason =>
    match t.buildReport { limitations := [reason] } s.workspace s.events s.world with
    | .error fault => (s, .error fault)
    | .ok report =>
      (s.file report,
        .ok ({ step, actionType := "block_postprocessing".toList, success := true }, true))

/-- The type of an action. -/
def typeOf : PostProcessingAction A → Text
  | .write .. => writeType
  | .run _ => runType
  | .observe action => t.actionType action
  | .finish .. => "finish_postprocessing".toList
  | .block _ => "block_postprocessing".toList

/-- `_dispatch`: an exception it catches is a failed event, another one leaves it. -/
def dispatch (action : PostProcessingAction A) :
    PostProcessingSession R W × Option (RunEvent × Bool) :=
  match s.perform t plan caseSeal step action with
  | (s', .ok result) => (s', some result)
  | (s', .error .caught) =>
    (s', some ({ step, actionType := typeOf t action, success := false }, false))
  | (s', .error .escaped) => (s', none)

/-- The actions of a plan, up to the first that fails: whether none did. -/
def dispatchAll : List (PostProcessingAction A) → PostProcessingSession R W →
    PostProcessingSession R W × Option Bool
  | [], s => (s, some true)
  | action :: actions, s =>
    match s.dispatch t plan caseSeal step action with
    | (s', none) => (s', none)
    | (s', some (event, _)) =>
      if event.success then dispatchAll actions (s'.record event)
      else (s'.record event, some false)

/-- The actions of a plan: the writes, the processes and the analyses. -/
def planActions (p : PostProcessingExecutionPlan A) (configs : List (Text × Text)) :
    List (PostProcessingAction A) :=
  configs.map (fun c => .write c.1 c.2) ++ p.runs.map .run ++
    p.forceAnalyses.map (fun a => .observe a.2) ++ p.analyses.map .observe

/-- `_execute_execution_plan`: whether the run is over, where it returns. -/
def executeExecutionPlan (p : PostProcessingExecutionPlan A) :
    PostProcessingSession R W × Option Bool :=
  match compilePostprocessGraph t.host t.isWord s.workspace p with
  | .error _ => (s, none)
  | .ok (_, failure :: failures) =>
    if t.summarized (failure :: failures) then
      (s.record { step, actionType := "postprocess_build_graph".toList, success := false },
        some false)
    else (s, none)
  | .ok (configs, []) =>
    match s.workspace.commitTextTransaction t.host configs [] with
    | (w, .error _) => ({ s with workspace := w }, none)
    | (w, .ok digests) =>
      let s := { s with workspace := w, precommitted := s.precommitted.update digests }
      match dispatchAll t plan caseSeal step (planActions p configs) s with
      | (s', none) => (s', none)
      | (s', some false) => (s', some false)
      | (s', some true) =>
        match t.buildReport p.request s'.workspace s'.events s'.world with
        | .error _ => (s', none)
        | .ok report =>
          let s' := s'.file report
          match t.policy.event step "execute_postprocessing_plan".toList true p.summary false with
          | .error _ => (s', none)
          | .ok event => (s'.record event, some true)

/-- `_finish_partial`: whether it returns. -/
def finishPartial (reason : Text) : PostProcessingSession R W × Bool :=
  match t.buildReport { limitations := [reason] } s.workspace s.events s.world with
  | .error _ => (s, false)
  | .ok report => (s.file report, true)

/-- `Post-processing agent/tool failure was isolated from the successful solve` -/
def isolatedText : Text :=
  "Post-processing agent/tool failure was isolated from the successful solve".toList

/-- `Post-processing action budget exhausted` -/
def exhaustedText : Text := "Post-processing action budget exhausted".toList

/-- One turn: `none` asks for the next one. -/
def turn : PostProcessingSession R W × Option Bool :=
  match t.generateTurn step s.workspace s.events s.world with
  | (none, world) =>
    let (s', returns) := { s with world }.finishPartial t isolatedText
    (s', some returns)
  | (some (.plan p), world) =>
    match { s with world }.executeExecutionPlan t plan caseSeal step p with
    | (s', none) =>
      let (s', returns) := s'.finishPartial t isolatedText
      (s', some returns)
    | (s', some true) => (s', some true)
    | (s', some false) => (s', none)
  | (some (.action a), world) =>
    match { s with world }.dispatch t plan caseSeal step a with
    | (s', none) =>
      let (s', returns) := s'.finishPartial t isolatedText
      (s', some returns)
    | (s', some (event, terminal)) =>
      (s'.record event, if terminal then some true else none)

/-- The loop over the turns. -/
def turns : ℕ → ℕ → PostProcessingSession R W → PostProcessingSession R W × Bool
  | 0, _, s => s.finishPartial t exhaustedText
  | remaining + 1, step, s =>
    match s.turn t plan caseSeal step with
    | (s', some returns) => (s', returns)
    | (s', none) => turns remaining (step + 1) s'

/-- `CFDPostProcessingAgent.run` of a case that was solved, with its plan and its seal: the session
it leaves, and whether it returns. -/
def run : PostProcessingSession R W × Bool :=
  match s.workspace.adoptAndVerify caseSeal plan with
  | (workspace, .error e) =>
    if e.isSafety then ({ s with workspace }.file (t.preflightReport e), true)
    else ({ s with workspace }, false)
  | (workspace, .ok ()) =>
    turns t plan caseSeal t.policy.maxSteps 1 ({ s with workspace }.transition .postprocessing)

end PostProcessingSession
end Postprocessing
end OpenFoamAgent
