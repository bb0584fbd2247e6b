/-
# Repair support requests

`execute_prepare_decision` of `engineering/phases/decision_controller.py`, as far as the
search and read requests of a repair episode go: retrieval that waits for a direct repair,
the requests that are answered as duplicates, the budget of actions, and the dispatch.

A request is recorded before the budget is looked at and before it is dispatched. So the
requests recorded are those that were refused or failed beside those that were executed
(`mem_requests_run`), and a request that is answered as a duplicate repeats an executed one
just where no refused request is repeated (`suppressed_iff`).

What a dispatch gives, and everything else that happens to the state in between, is given.
-/
import OpenFoamAgent.Library.Runs
import OpenFoamAgent.Python.Text

namespace OpenFoamAgent
namespace Engineering
namespace SupportRequests

open Python

/-! ### Requests -/

/-- `RepairEpisode`, with the generations that its earlier repairs name. -/
structure RepairEpisode where
  episodeId : Text
  currentFailure : Text
  currentImplicatedFiles : List Text := []
  previousRepairs : List (Option ℕ) := []
  validationGeneration : ℕ := 1
  deriving DecidableEq

/-- The actions that are neither repairs nor bundles. -/
inductive Action where
  | searchReferences (query scope rationale : Text)
  | readReference (reference : Text) (startLine lineCount : ℕ) (targetCaseFiles : List Text)
      (rationale : Text)
  | searchCapabilities (query rationale : Text)
  | gatherEvidence
  | other (type : Text)
  deriving DecidableEq

/-- `action.type`. -/
def Action.type : Action → Text
  | searchReferences .. => "search_references".toList
  | readReference .. => "read_reference".toList
  | searchCapabilities .. => "search_capabilities".toList
  | gatherEvidence => "gather_evidence".toList
  | other type => type

/-- The action asks for references or capabilities. -/
def Action.retrieves : Action → Bool
  | other _ => false
  | _ => true

/-- What a search or a read asks for. -/
inductive Detail where
  | search (scope query : Text)
  | read (reference : Text) (startLine lineCount : ℕ) (targetCaseFiles : List Text)
  deriving DecidableEq

/-- What identifies a request; the type of the action is that of the detail. -/
structure RequestKey where
  runId : Text
  episodeId : Text
  validationGeneration : ℕ
  detail : Detail
  deriving DecidableEq

/-- `EngineeringEvent`. -/
structure EngineeringEvent where
  actionType : Text
  success : Bool
  summary : Text
  deriving DecidableEq

/-- What the decisions read and write of the run and of the agent. -/
structure AgentState where
  runId : Text
  repairEpisode : Option RepairEpisode := none
  engineeringEvents : List EngineeringEvent := []
  engineeringRoundStartIndex : ℕ := 0
  /-- `_repair_support_requests` -/
  requests : List RequestKey := []
  deriving DecidableEq

/-- `_repair_support_request_key`. -/
def requestKey (s : AgentState) (action : Action) : Option RequestKey :=
  match s.repairEpisode with
  | none => none
  | some episode =>
    let key := RequestKey.mk s.runId episode.episodeId episode.validationGeneration
    match action with
    | .searchReferences query scope _ => some (key (.search scope (casefold (strip query))))
    | .readReference reference startLine lineCount targetCaseFiles _ =>
      some (key (.read reference startLine lineCount targetCaseFiles))
    | _ => none

/-- `_tool_action_count`: the events of the round. -/
def toolActionCount (s : AgentState) : ℕ :=
  (s.engineeringEvents.drop (min s.engineeringRoundStartIndex s.engineeringEvents.length)).length

/-! ### Decisions -/

section Decisions

/- `diagnostic_has_explicit_alternatives` of a failure, and `max_tool_actions`. -/
variable (alternatives : Text → Bool) (maxToolActions : ℕ)

/-- `repair_episode_requires_direct_attempt`. -/
def requiresDirectAttempt : Option RepairEpisode → Bool
  | none => false
  | some episode =>
    episode.currentImplicatedFiles.any (strip · ≠ []) && alternatives episode.currentFailure &&
      episode.previousRepairs.all (· ≠ some episode.validationGeneration)

/-- How a decision ends. -/
inductive Answer where
  /-- `Reference retrieval deferred: …` -/
  | deferred
  /-- `Duplicate repair support retrieval suppressed; …` -/
  | suppressed
  /-- `Engineering deterministic action budget exhausted …` -/
  | exhausted
  | dispatched (event : EngineeringEvent)
  /-- The dispatch raises. -/
  | raised
  deriving DecidableEq

/-- What comes after the duplicates: the budget, and the dispatch. -/
def attempt (s : AgentState) (dispatch : Option EngineeringEvent) : Answer :=
  if maxToolActions ≤ toolActionCount s then .exhausted
  else
    match dispatch with
    | none => .raised
    | some event => .dispatched event

/-- How `execute_prepare_decision` ends. -/
def answer (s : AgentState) (action : Action) (dispatch : Option EngineeringEvent) : Answer :=
  if action.retrieves ∧ requiresDirectAttempt alternatives s.repairEpisode then .deferred
  else
    match requestKey s action with
    | none => attempt maxToolActions s dispatch
    | some key => if key ∈ s.requests then .suppressed else attempt maxToolActions s dispatch

/-- The event of a deferral. -/
def deferredEvent (action : Action) : EngineeringEvent :=
  ⟨action.type, false, ("Reference retrieval deferred: the current native diagnostic already " ++
    "enumerates supported alternatives and implicated files are available; attempt one direct " ++
    "repair first.").toList⟩

/-- The event of a duplicate. -/
def suppressedEvent (action : Action) : EngineeringEvent :=
  ⟨action.type, true, ("Duplicate repair support retrieval suppressed; reuse the evidence " ++
    "already observed for this failure generation.").toList⟩

/-- One more event. -/
def AgentState.report (s : AgentState) (event : EngineeringEvent) : AgentState :=
  { s with engineeringEvents := s.engineeringEvents ++ [event] }

/-- The request is recorded. -/
def AgentState.note (s : AgentState) (action : Action) : AgentState :=
  { s with requests := (requestKey s action).toList ++ s.requests }

/-- The state after `execute_prepare_decision`. -/
def executePrepareDecision (s : AgentState) (action : Action)
    (dispatch : Option EngineeringEvent) : AgentState :=
  match answer alternatives maxToolActions s action dispatch with
  | .deferred => s.report (deferredEvent action)
  | .suppressed => s.report (suppressedEvent action)
  | .exhausted | .raised => s.note action
  | .dispatched event => (s.note action).report event

/-- What happens in a run. -/
inductive RunStep where
  /-- A decision, with the event that its dispatch gives, or none where it raises. -/
  | decide (action : Action) (dispatch : Option EngineeringEvent)
  /-- Anything else: the run, the episode, the events and the round may change. -/
  | change (runId : Text) (repairEpisode : Option RepairEpisode)
      (engineeringEvents : List EngineeringEvent) (engineeringRoundStartIndex : ℕ)

/-- One step of a run. -/
def step (s : AgentState) : RunStep → AgentState
  | .decide action dispatch => executePrepareDecision alternatives maxToolActions s action dispatch
  | .change runId repairEpisode engineeringEvents engineeringRoundStartIndex =>
    { s with runId, repairEpisode, engineeringEvents, engineeringRoundStartIndex }

/-- The state after some steps, with nothing recorded at first. -/
def run (s : AgentState) (steps : List RunStep) : AgentState :=
  Runs.run (step alternatives maxToolActions) { s with requests := [] } steps

/-- A step executes a request, and it succeeds. -/
def Executes (s : AgentState) (key : RequestKey) (r : RunStep) : Prop :=
  ∃ action dispatch, r = .decide action dispatch ∧ requestKey s action = some key ∧
    ∃ event, answer alternatives maxToolActions s action dispatch = .dispatched event ∧
      event.success = true

/-- A step records a request that the budget rejects, or that fails or raises. -/
def Refuses (s : AgentState) (key : RequestKey) (r : RunStep) : Prop :=
  ∃ action dispatch, r = .decide action dispatch ∧ requestKey s action = some key ∧
    (answer alternatives maxToolActions s action dispatch = .exhausted ∨
      answer alternatives maxToolActions s action dispatch = .raised ∨
      ∃ event, answer alternatives maxToolActions s action dispatch = .dispatched event ∧
        event.success = false)

/-- Every request that is answered as a duplicate was executed before, and succeeded. -/
def SuppressedSoundly (s : AgentState) (steps : List RunStep) : Prop :=
  ∀ before action dispatch after, steps = before ++ .decide action dispatch :: after →
    answer alternatives maxToolActions (run alternatives maxToolActions s before) action dispatch =
        .suppressed →
      ∃ key earlier r between, before = earlier ++ r :: between ∧
        requestKey (run alternatives maxToolActions s before) action = some key ∧
        Executes alternatives maxToolActions (run alternatives maxToolActions s earlier) key r

/-- No request that was refused is repeated, but where retrieval is deferred. -/
def RefusedNotRepeated (s : AgentState) (steps : List RunStep) : Prop :=
  ∀ earlier r between action dispatch after key,
    steps = (earlier ++ r :: between) ++ .decide action dispatch :: after →
    Refuses alternatives maxToolActions (run alternatives maxToolActions s earlier) key r →
    requestKey (run alternatives maxToolActions s (earlier ++ r :: between)) action = some key →
      requiresDirectAttempt alternatives
        (run alternatives maxToolActions s (earlier ++ r :: between)).repairEpisode = true

end Decisions

/-! ### What is recorded -/

variable {alternatives : Text → Bool} {maxToolActions : ℕ} {s : AgentState}

theorem retrieves_of_requestKey {action : Action} {key : RequestKey}
    (h : requestKey s action = some key) : action.retrieves = true := by
  unfold requestKey at h
  split at h
  · cases h
  · cases action with
    | other => cases h
    | _ => rfl

/-- The answers to a request of an episode. -/
theorem answer_of_key {action : Action} {dispatch : Option EngineeringEvent} {key : RequestKey}
    (h : requestKey s action = some key) :
    answer alternatives maxToolActions s action dispatch =
      if requiresDirectAttempt alternatives s.repairEpisode then .deferred
      else if key ∈ s.requests then .suppressed
      else attempt maxToolActions s dispatch := by
  unfold answer
  rw [h]
  simp only [retrieves_of_requestKey h, true_and]

/-- A request is suppressed only where it is recorded. -/
theorem exists_key_of_suppressed {action : Action} {dispatch : Option EngineeringEvent}
    (h : answer alternatives maxToolActions s action dispatch = .suppressed) :
    ∃ key ∈ s.requests, requestKey s action = some key ∧
      requiresDirectAttempt alternatives s.repairEpisode = false := by
  have hattempt : attempt maxToolActions s dispatch ≠ .suppressed := by
    unfold attempt
    intro hsuppressed
    split_ifs at hsuppressed
    cases dispatch with
    | none => cases hsuppressed
    | some event => cases hsuppressed
  rcases hkey : requestKey s action with _ | key
  · unfold answer at h
    rw [hkey] at h
    split_ifs at h
    exact absurd h hattempt
  · rw [answer_of_key hkey] at h
    split_ifs at h with hdirect hmem
    · exact ⟨key, hmem, rfl, Bool.not_eq_true _ ▸ hdirect⟩
    · exact absurd h hattempt

/-- A step records a request. -/
def Records (alternatives : Text → Bool) (maxToolActions : ℕ) (s : AgentState) (key : RequestKey)
    (r : RunStep) : Prop :=
  Executes alternatives maxToolActions s key r ∨ Refuses alternatives maxToolActions s key r

/-- **What a step records**: the requests that it executes or refuses. -/
theorem mem_requests_step {key : RequestKey} {r : RunStep} :
    key ∈ (step alternatives maxToolActions s r).requests ↔
      key ∈ s.requests ∨ Records alternatives maxToolActions s key r := by
  cases r with
  | change =>
    refine ⟨.inl, ?_⟩
    rintro (h | ⟨action, dispatch, hr, -⟩ | ⟨action, dispatch, hr, -⟩)
    · exact h
    · cases hr
    · cases hr
  | decide action dispatch =>
    have hexecutes : Executes alternatives maxToolActions s key (.decide action dispatch) ↔
        requestKey s action = some key ∧
          ∃ event, answer alternatives maxToolActions s action dispatch = .dispatched event ∧
            event.success = true := by
      simp [Executes]
    have hrefuses : Refuses alternatives maxToolActions s key (.decide action dispatch) ↔
        requestKey s action = some key ∧
          (answer alternatives maxToolActions s action dispatch = .exhausted ∨
            answer alternatives maxToolActions s action dispatch = .raised ∨
            ∃ event, answer alternatives maxToolActions s action dispatch = .dispatched event ∧
              event.success = false) := by
      simp [Refuses]
    rw [Records, hexecutes, hrefuses, step, executePrepareDecision]
    cases answer alternatives maxToolActions s action dispatch with
    | deferred => simp [AgentState.report]
    | suppressed => simp [AgentState.report]
    | exhausted => simp [AgentState.note, or_comm]
    | raised => simp [AgentState.note, or_comm]
    | dispatched event =>
      cases hsuccess : event.success with
      | false => simp [AgentState.note, AgentState.report, hsuccess, or_comm]
      | true => simp [AgentState.note, AgentState.report, hsuccess, or_comm]

/-- A step that records a request finds it unrecorded. -/
theorem Records.notMem {key : RequestKey} {r : RunStep}
    (h : Records alternatives maxToolActions s key r) : key ∉ s.requests := by
  obtain ⟨action, dispatch, hkey, hanswer⟩ : ∃ action dispatch, requestKey s action = some key ∧
      answer alternatives maxToolActions s action dispatch ≠ .suppressed ∧
      answer alternatives maxToolActions s action dispatch ≠ .deferred := by
    rcases h with ⟨action, dispatch, -, hkey, event, h, -⟩ |
      ⟨action, dispatch, -, hkey, h | h | ⟨event, h, -⟩⟩
    all_goals
      refine ⟨action, dispatch, hkey, ?_⟩
      rw [h]
      constructor
      · rintro ⟨⟩
      · rintro ⟨⟩
  rw [answer_of_key hkey] at hanswer
  intro hmem
  split_ifs at hanswer
  · exact hanswer.2 rfl
  · exact hanswer.1 rfl

theorem run_concat (s : AgentState) (steps : List RunStep) (r : RunStep) :
    run alternatives maxToolActions s (steps ++ [r]) =
      step alternatives maxToolActions (run alternatives maxToolActions s steps) r :=
  Runs.run_append _ _ _ _

/-- **What a run has recorded**: the requests that one of its steps executed or refused. -/
theorem mem_requests_run {key : RequestKey} {steps : List RunStep} :
    key ∈ (run alternatives maxToolActions s steps).requests ↔
      ∃ earlier r later, steps = earlier ++ r :: later ∧
        Records alternatives maxToolActions (run alternatives maxToolActions s earlier) key r := by
  induction steps using List.reverseRecOn with
  | nil =>
    refine ⟨fun h => absurd h List.not_mem_nil, ?_⟩
    rintro ⟨earlier, r, later, hnil, -⟩
    simp at hnil
  | append_singleton steps r ih =>
    rw [run_concat, mem_requests_step, ih]
    constructor
    · rintro (⟨earlier, r', later, rfl, hrecords⟩ | hrecords)
      · exact ⟨earlier, r', later ++ [r], by simp, hrecords⟩
      · exact ⟨steps, r, [], rfl, hrecords⟩
    · rintro ⟨earlier, r', later, heq, hrecords⟩
      rcases List.eq_nil_or_concat' later with rfl | ⟨later, last, rfl⟩
      · obtain ⟨rfl, hr⟩ := List.append_inj' heq rfl
        obtain rfl := (List.cons.inj hr).1
        exact .inr hrecords
      · rw [← List.cons_append, ← List.append_assoc] at heq
        obtain ⟨rfl, -⟩ := List.append_inj' heq rfl
        exact .inl ⟨earlier, r', later, rfl, hrecords⟩

/-- What was recorded stays so. -/
theorem mem_requests_mono {key : RequestKey} {steps later : List RunStep}
    (h : key ∈ (run alternatives maxToolActions s steps).requests) :
    key ∈ (run alternatives maxToolActions s (steps ++ later)).requests := by
  obtain ⟨earlier, r, between, rfl, hrecords⟩ := mem_requests_run.1 h
  exact mem_requests_run.2 ⟨earlier, r, between ++ later, by simp, hrecords⟩

/-- A request is recorded once. -/
theorem records_once {key : RequestKey} {earlier between : List RunStep} {r r' : RunStep}
    (h : Records alternatives maxToolActions (run alternatives maxToolActions s earlier) key r) :
    ¬ Records alternatives maxToolActions
      (run alternatives maxToolActions s (earlier ++ r :: between)) key r' := by
  refine fun h' => h'.notMem ?_
  rw [← List.singleton_append, ← List.append_assoc]
  refine mem_requests_mono ?_
  rw [run_concat]
  exact mem_requests_step.2 (.inr h)

/-- No step both executes and refuses a request. -/
theorem Executes.not_refuses {key : RequestKey} {r : RunStep}
    (h : Executes alternatives maxToolActions s key r) :
    ¬ Refuses alternatives maxToolActions s key r := by
  obtain ⟨action, dispatch, rfl, -, event, hevent, hsuccess⟩ := h
  rintro ⟨action', dispatch', hr, -, hanswer⟩
  cases hr
  rw [hevent] at hanswer
  rcases hanswer with h | h | ⟨event', h, hfailure⟩
  · cases h
  · cases h
  · cases h
    rw [hsuccess] at hfailure
    cases hfailure

/-! ### Duplicates -/

/-- **When duplicates are sound**: in every run, each request that is answered as a duplicate was
executed before and succeeded if and only if no request that the budget rejected, that failed or
that raised is repeated, but where retrieval is deferred. -/
theorem suppressed_iff (alternatives : Text → Bool) (maxToolActions : ℕ) (s : AgentState)
    (steps : List RunStep) :
    SuppressedSoundly alternatives maxToolActions s steps ↔
      RefusedNotRepeated alternatives maxToolActions s steps := by
  constructor
  · intro hsound earlier r between action dispatch after key hsteps hrefuses hkey
    by_contra hdirect
    have hmem : key ∈ (run alternatives maxToolActions s (earlier ++ r :: between)).requests :=
      mem_requests_run.2 ⟨earlier, r, between, rfl, .inr hrefuses⟩
    have hanswer : answer alternatives maxToolActions
        (run alternatives maxToolActions s (earlier ++ r :: between)) action dispatch =
          .suppressed := by
      rw [answer_of_key hkey, if_neg hdirect, if_pos hmem]
    obtain ⟨key', earlier', r', between', hsplit, hkey', hexecutes⟩ :=
      hsound _ action dispatch after hsteps hanswer
    obtain rfl := Option.some.inj (hkey.symm.trans hkey')
    -- the request was recorded by both steps, so they are one
    rcases List.append_eq_append_iff.1 hsplit with ⟨l, rfl, hl⟩ | ⟨l, rfl, hl⟩
    · cases l with
      | nil =>
        obtain ⟨rfl, -⟩ := List.cons.inj hl
        rw [List.append_nil] at hexecutes
        exact hexecutes.not_refuses hrefuses
      | cons x l =>
        obtain ⟨rfl, -⟩ := List.cons.inj hl
        exact records_once (.inr hrefuses) (.inl hexecutes)
    · cases l with
      | nil =>
        obtain ⟨rfl, -⟩ := List.cons.inj hl
        rw [List.append_nil] at hrefuses
        exact hexecutes.not_refuses hrefuses
      | cons x l =>
        obtain ⟨rfl, -⟩ := List.cons.inj hl
        exact records_once (.inl hexecutes) (.inr hrefuses)
  · intro hnot before action dispatch after hsteps hanswer
    obtain ⟨key, hmem, hkey, hdirect⟩ := exists_key_of_suppressed hanswer
    obtain ⟨earlier, r, between, rfl, hrecords⟩ := mem_requests_run.1 hmem
    rcases hrecords with hexecutes | hrefuses
    · exact ⟨key, earlier, r, between, rfl, hkey, hexecutes⟩
    · have hdeferred := hnot earlier r between action dispatch after key hsteps hrefuses hkey
      rw [hdirect] at hdeferred
      cases hdeferred

/-- An episode in which nothing is to be repaired directly. -/
def openEpisode : AgentState where
  runId := "run".toList
  repairEpisode := some ⟨"repair-0001".toList, [], [], [], 1⟩

/-- A read of a reference that is missing. -/
def missingRead : Action := .readReference "missing".toList 1 160 [] []

/-- What its dispatch gives. -/
def missingEvent : EngineeringEvent :=
  ⟨"read_reference".toList, false, "Tool action rejected: FileNotFoundError".toList⟩

/-- A failed read is answered as a duplicate when it is repeated. -/
theorem suppressed_after_failure :
    ¬ SuppressedSoundly (fun _ => false) 100 openEpisode
      [.decide missingRead (some missingEvent), .decide missingRead (some missingEvent)] := by
  intro hsound
  obtain ⟨key, earlier, r, between, hsplit, -, hexecutes⟩ :=
    hsound [.decide missingRead (some missingEvent)] missingRead (some missingEvent) [] rfl
      (by decide +kernel)
  obtain ⟨rfl, hrest⟩ : earlier = [] ∧ .decide missingRead (some missingEvent) = r := by
    cases earlier with
    | nil => exact ⟨rfl, (List.cons.inj hsplit).1⟩
    | cons x earlier => simp at hsplit
  obtain ⟨action, dispatch, hr, -, event, hanswer, hsuccess⟩ := hexecutes
  rw [← hrest] at hr
  cases hr
  have hfails : answer (fun _ => false) 100 (run (fun _ => false) 100 openEpisode []) missingRead
      (some missingEvent) = .dispatched missingEvent := by
    decide +kernel
  rw [hfails] at hanswer
  cases hanswer
  cases hsuccess

end SupportRequests
end Engineering
end OpenFoamAgent
