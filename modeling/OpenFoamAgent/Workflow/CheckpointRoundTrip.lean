/-
# Resuming a saved session

What `CheckpointStore.load` makes of a file that `CheckpointStore.save` wrote, for another agent on
the same root and perhaps another machine. The load succeeds exactly where nothing was in flight and
nothing has changed since (`Coherent`), and then it returns the saved session but for the approval
(`load_save_iff`). A session that was resumed stays as it is, however often it is saved and loaded
again (`interrupted_stable`).

The models of the state and of the fields read back what they wrote; that is assumed of them.
-/
import Mathlib.Logic.Relation
import OpenFoamAgent.Workflow.CheckpointStore
import OpenFoamAgent.Workspace.SealVerification

namespace OpenFoamAgent
namespace Workflow

open Python Schemas Workspace Contracts

/-! ### The case of a checkpoint -/

section
variable {w w₀ : CaseWorkspace} {inputs : List CaseFileSeal}

/-- The records of a path have its origin. -/
theorem mem_originPaths (h : w₀.executionFileSeals = .ok inputs) {l : Location}
    (hin : underExecutionInput l) (hfile : w₀.tree.isFile l) (origin : FileOrigin) :
    asPosix l ∈ originPaths inputs origin ↔ w₀.fileOrigin (asPosix l) = origin := by
  rw [originPaths, OrderedSet.mem_ofList]
  constructor
  · intro hmem
    obtain ⟨record, hrecord, hpath⟩ := List.mem_map.1 hmem
    obtain ⟨hrecord, horigin⟩ := List.mem_filter.1 hrecord
    obtain ⟨l', b, -, -, rfl⟩ := (CaseWorkspace.mem_executionFileSeals h).1 hrecord
    have hpath' : asPosix l' = asPosix l := hpath
    have horigin' : w₀.fileOrigin (asPosix l') = origin := of_decide_eq_true horigin
    rw [← hpath', horigin']
  · intro horigin
    obtain ⟨b, hb⟩ := Option.isSome_iff_exists.1 hfile
    refine List.mem_map.2 ⟨w₀.recordAt l b, List.mem_filter.2 ⟨?_, decide_eq_true horigin⟩, rfl⟩
    exact (CaseWorkspace.mem_executionFileSeals h).2 ⟨l, b, hin, hb, rfl⟩

/-- **The origins of the inputs are restored.** -/
theorem restoreOrigins_fileOrigin (w : CaseWorkspace) (h : w₀.executionFileSeals = .ok inputs)
    {l : Location} (hin : underExecutionInput l) (hfile : w₀.tree.isFile l) :
    (restoreOrigins w inputs).fileOrigin (asPosix l) = w₀.fileOrigin (asPosix l) := by
  have hasset := mem_originPaths h hin hfile .userAsset
  have hagent := mem_originPaths h hin hfile .agent
  unfold CaseWorkspace.fileOrigin restoreOrigins
  dsimp only
  change (if asPosix l ∈ originPaths inputs .userAsset then FileOrigin.userAsset
    else if asPosix l ∈ originPaths inputs .agent then .agent else .native) =
      w₀.fileOrigin (asPosix l)
  simp only [hasset, hagent]
  cases w₀.fileOrigin (asPosix l) <;> simp

/-- Whether a file can be recorded does not depend on its origin. -/
theorem sealFile_progress {w : CaseWorkspace} (w' : CaseWorkspace) {l : Location}
    {record : CaseFileSeal} (h : w.sealFile l = .ok record) :
    ∃ record', w'.sealFile l = .ok record' := by
  unfold CaseWorkspace.sealFile at h ⊢
  split at h
  · cases h
  · split_ifs at h with hlength
    rw [if_neg hlength]
    exact ⟨_, rfl⟩

/-- Whether a case can be recorded does not depend on the origins. -/
theorem executionFileSeals_progress (authored assets : OrderedSet Text)
    (h : w.executionFileSeals = .ok inputs) :
    ∃ files, CaseWorkspace.executionFileSeals
      { w with authoredPaths := authored, assetPaths := assets } = .ok files := by
  have hmap := CaseWorkspace.executionFileSeals_eq_ok h
  set w' : CaseWorkspace := { w with authoredPaths := authored, assetPaths := assets }
  obtain ⟨files, hfiles⟩ : ∃ files, w.executionInputs.mapM w'.sealFile = .ok files :=
    Traversal.mapM_progress fun l hl => by
      obtain ⟨record, -, hrecord⟩ := Traversal.exists_mem_of_mapM hmap hl
      exact sealFile_progress w' hrecord
  unfold CaseWorkspace.executionFileSeals at h
  split at h
  · cases h
  · rename_i hlink
    dsimp only at h
    split_ifs at h with hmany hlarge
    refine ⟨files, ?_⟩
    unfold CaseWorkspace.executionFileSeals
    rw [show w'.tree.keys.find? (fun l => underExecutionInput l && w'.tree.isLink l) = none from
      hlink]
    exact (if_neg hmany).trans ((if_neg hlarge).trans hfiles)

/-- **When the case is the one of a checkpoint.** -/
theorem checkInputs_restored_iff (hw₀ : w₀.Named) (hw : w.Named)
    (h : w₀.executionFileSeals = .ok inputs) :
    checkInputs (restoreOrigins w inputs) inputs = .ok () ↔
      (∃ files, w.executionFileSeals = .ok files) ∧
        ∀ l, underExecutionInput l → w.tree.fileAt l = w₀.tree.fileAt l := by
  rw [checkInputs_eq_ok]
  constructor
  · intro hrestored
    have hw' : (restoreOrigins w inputs).Named := hw
    have hsame := CaseWorkspace.sameInputs_of_records hw₀ hw' h hrestored fun _ => Iff.rfl
    exact ⟨executionFileSeals_progress (w := restoreOrigins w inputs) w.authoredPaths w.assetPaths
      hrestored, hsame.files⟩
  · rintro ⟨⟨files, hfiles⟩, hsame⟩
    obtain ⟨files', hfiles'⟩ := executionFileSeals_progress (originPaths inputs .agent)
      (originPaths inputs .userAsset) hfiles
    have hinputs : SameInputs w₀ (restoreOrigins w inputs) :=
      ⟨hsame, fun l hin hfile => restoreOrigins_fileOrigin w h hin hfile⟩
    have hrecords : files' = inputs := CaseWorkspace.records_of_sameInputs hinputs h hfiles'
    exact hfiles'.trans (congrArg _ hrecords)

/-- A seal is verified by the records of a case alone. -/
theorem verifySeal_of_records_eq {w w' : CaseWorkspace} (h : w.executionFileSeals = .ok inputs)
    (h' : w'.executionFileSeals = .ok inputs) (caseSeal : CaseSeal) (plan : EngineeringPlan) :
    w'.verifySeal caseSeal plan = w.verifySeal caseSeal plan := by
  unfold CaseWorkspace.verifySeal
  rw [h, h']

end

/-! ### The session that is resumed -/

/-- The records of the inputs at the time of a save. -/
def savedInputs (agent₀ : EngineeringAgent) : List CaseFileSeal :=
  agent₀.workspace.executionFileSeals.toOption.getD []

/-- The agent behind a load: the case has its origins, and a field that was saved its value. -/
def resumedAgent (agent₀ agent : EngineeringAgent) : EngineeringAgent :=
  { agent with
    workspace := restoreOrigins agent.workspace (savedInputs agent₀)
    fields := fun field => (agent₀.fields field).or (agent.fields field)
    resumePending := true }

/-- The events behind a load: the event of a completed action is among them. -/
def resumedEvents (host : ControllerHost) (saved : CFDState) : List Document :=
  match (saved.pendingAction.bind (·.event)).bind host.validateEvent with
  | none => saved.engineeringEvents
  | some event =>
    if event ∈ saved.engineeringEvents then saved.engineeringEvents
    else saved.engineeringEvents ++ [event]

/-- The state behind a load. -/
def resumedState (host : ControllerHost) (saved : CFDState) : CFDState :=
  revokeApproval { saved with
    engineeringEvents := resumedEvents host saved
    pendingAction := none }

/-- Nothing was in flight at a save, and nothing has changed since. -/
structure Coherent (host₀ : ControllerHost) (agent₀ : EngineeringAgent) (host : ControllerHost)
    (agent : EngineeringAgent) (saved : CFDState) : Prop where
  root : agent.root = agent₀.root
  environment : host.environment = host₀.environment
  meshGraph : host.meshGraph = host₀.meshGraph
  intake : saved.intakeConfirmed = true → saved.confirmedIntake = true
  /-- The case can be recorded, and its inputs are those of the save. -/
  inputs : (∃ files, agent.workspace.executionFileSeals = .ok files) ∧
    ∀ l, underExecutionInput l → agent.workspace.tree.fileAt l = agent₀.workspace.tree.fileAt l
  transaction : transactionActive host saved = false
  journal : host.restartJournal = false
  action : ∀ a ∈ saved.pendingAction, a.uncertain = false
  event : ∀ document, saved.pendingAction.bind (·.event) = some document →
    (host.validateEvent document).isSome
  processes : ∀ row ∈ saved.nativeProcessRecords, row.status.inFlight = false
  ledger : ∀ rows ∈ agent.runner, rows = saved.nativeProcessRecords
  /-- The seal was the one of the case. -/
  caseSeal : ∀ caseSeal ∈ saved.caseSeal, ∀ plan ∈ saved.engineeringPlan,
    agent₀.workspace.verifySeal caseSeal plan = .ok ()

section
variable {host₀ host : ControllerHost} {agent₀ agent agent' : EngineeringAgent} {s saved : CFDState}

theorem restoreFields_saved {fields : SnapshotField → Option Document}
    (hsaved : s.engineeringCheckpoint = fun field =>
      (agent₀.fields field).map (host₀.jsonable field))
    (hfields : ∀ field value, agent₀.fields field = some value →
      host.validateField field (host₀.jsonable field value) = some value)
    (names : List SnapshotField) :
    restoreFields host s names fields = .ok fun field =>
      if field ∈ names then (agent₀.fields field).or (fields field) else fields field := by
  induction names generalizing fields with
  | nil => rfl
  | cons name names ih =>
    rw [restoreFields, hsaved]
    dsimp only
    cases hname : agent₀.fields name with
    | none =>
      rw [Option.map_none]
      dsimp only
      rw [ih]
      congr 1
      funext field
      by_cases hfield : field = name
      · subst hfield
        simp [hname]
      · simp [hfield]
    | some value =>
      rw [Option.map_some]
      dsimp only
      rw [hfields name value hname]
      dsimp only
      rw [ih]
      congr 1
      funext field
      by_cases hfield : field = name
      · subst hfield
        simp [hname]
      · simp [hfield, Function.update_of_ne]

theorem openCheckpoint_envelope {payload : Payload} (hversion : payload.schemaVersion = 1)
    (hroot : payload.workspace = agent.root)
    (henvironment : payload.environmentSha256 = host.environment)
    (hgraph : host.meshGraph = payload.meshGraphSha256) :
    openCheckpoint host agent (.envelope payload ⟨payload⟩) = .ok payload := by
  rw [openCheckpoint, if_neg (not_not.2 rfl), if_neg (not_not.2 hversion),
    if_neg (not_not.2 hroot), if_neg (not_not.2 henvironment), if_neg (not_not.2 hgraph)]

theorem readState_of_validateState {payload : Payload}
    (hvalid : host.validateState payload.state = some s)
    (hintake : s.intakeConfirmed = true → s.confirmedIntake = true) :
    readState host payload = .ok s := by
  rw [readState, hvalid]
  dsimp only
  rw [if_neg]
  intro h
  obtain ⟨hconfirmed, hnot⟩ := Bool.and_eq_true_iff.1 h
  rw [hintake hconfirmed] at hnot
  cases hnot

theorem actionRefused_false_iff :
    actionRefused false s = false ↔ ∀ a ∈ s.pendingAction, a.uncertain = false := by
  unfold actionRefused
  cases s.pendingAction <;> simp

theorem checkRecords_false_iff {records : List Runtime.ProcessRow} {state : CFDState} :
    checkRecords host false agent s = .ok (records, state) ↔
      state = s ∧ records = s.nativeProcessRecords ∧
        (∀ row ∈ s.nativeProcessRecords, row.status.inFlight = false) ∧
        ∀ rows ∈ agent.runner, rows = s.nativeProcessRecords := by
  constructor
  · intro h
    obtain ⟨rfl, hidle, hsame, -⟩ := checkRecords_eq_ok h
    obtain rfl := hsame rfl
    refine ⟨rfl, rfl, hidle, fun rows hrows => ?_⟩
    unfold checkRecords at h
    rw [hrows] at h
    simp only [Bool.false_eq_true, if_false, Option.getD_some, Option.isSome_some, Bool.true_and]
      at h
    split_ifs at h with hflight hadvanced
    simpa using hadvanced
  · rintro ⟨rfl, rfl, hidle, hledger⟩
    have hrecords : agent.runner.getD state.nativeProcessRecords = state.nativeProcessRecords := by
      cases hrunner : agent.runner with
      | none => rfl
      | some rows => exact hledger rows hrunner
    unfold checkRecords
    simp only [Bool.false_eq_true, if_false, hrecords, ne_eq, not_true_eq_false, decide_false,
      Bool.and_false]
    rw [if_neg]
    simpa using hidle

theorem settlePending_iff {state : CFDState} :
    settlePending host s = .ok state ↔
      (∀ document, s.pendingAction.bind (·.event) = some document →
        (host.validateEvent document).isSome) ∧
      state = { s with engineeringEvents := resumedEvents host s, pendingAction := none } := by
  unfold settlePending resumedEvents
  cases s.pendingAction.bind (·.event) with
  | none =>
    simp only [Except.ok.injEq, Option.bind_none]
    exact ⟨fun h => ⟨fun _ h => (by cases h), h.symm⟩, fun h => h.2.symm⟩
  | some document =>
    dsimp only [Option.bind_some]
    cases hevent : host.validateEvent document with
    | none =>
      refine iff_of_false (fun h => by cases h) fun h => ?_
      have hsome := h.1 document rfl
      rw [hevent] at hsome
      cases hsome
    | some event =>
      dsimp only
      simp only [Except.ok.injEq]
      refine ⟨fun h => ⟨fun d hd => ?_, h.symm⟩, fun h => h.2.symm⟩
      obtain rfl := Option.some.inj hd
      rw [hevent]
      rfl

theorem checkSeal_iff {w : CaseWorkspace} :
    checkSeal w s = .ok () ↔ ∀ caseSeal ∈ s.caseSeal, ∀ plan ∈ s.engineeringPlan,
      w.verifySeal caseSeal plan = .ok () := by
  constructor
  · exact fun h caseSeal hseal plan hplan => checkSeal_eq_ok h hseal hplan
  · intro h
    unfold checkSeal
    split
    · rename_i caseSeal plan hseal hplan
      rw [h caseSeal hseal plan hplan]
    · rfl

/-- The state of which the fields are restored. -/
def settledState (host : ControllerHost) (saved : CFDState) : CFDState :=
  { saved with engineeringEvents := resumedEvents host saved, pendingAction := none }

/-- The steps of a load without reconciliation. -/
theorem load_false_iff {file : CheckpointFile} {state : CFDState} :
    load host agent file false = .ok (agent', state) ↔
      ∃ payload saved fields, openCheckpoint host agent file = .ok payload ∧
        readState host payload = .ok saved ∧
        checkInputs (restoreOrigins agent.workspace payload.inputs) payload.inputs = .ok () ∧
        checkQuiet host false saved = .ok () ∧
        ((∀ row ∈ saved.nativeProcessRecords, row.status.inFlight = false) ∧
          ∀ rows ∈ agent.runner, rows = saved.nativeProcessRecords) ∧
        (∀ document, saved.pendingAction.bind (·.event) = some document →
          (host.validateEvent document).isSome) ∧
        restoreFields host (settledState host saved) snapshotFields agent.fields = .ok fields ∧
        checkSeal (restoreOrigins agent.workspace payload.inputs) (settledState host saved) =
          .ok () ∧
        agent' = { agent with
          workspace := restoreOrigins agent.workspace payload.inputs
          fields := fields
          resumePending := true } ∧
        state = resumedState host saved := by
  have hrunner : ∀ records : List Runtime.ProcessRow, (∀ rows ∈ agent.runner, rows = records) →
      (agent.runner.map fun _ => records) = agent.runner := by
    intro records hrows
    cases hagent : agent.runner with
    | none => rfl
    | some rows => exact congrArg some (hrows rows hagent).symm
  unfold load
  constructor
  · intro h
    obtain ⟨payload, hopened, h⟩ := Traversal.bind_eq_ok.1 h
    obtain ⟨saved, hread, h⟩ := Traversal.bind_eq_ok.1 h
    obtain ⟨⟨⟩, hinputs, h⟩ := Traversal.bind_eq_ok.1 h
    obtain ⟨⟨⟩, hquiet, h⟩ := Traversal.bind_eq_ok.1 h
    obtain ⟨⟨records, settled⟩, hrecords, h⟩ := Traversal.bind_eq_ok.1 h
    obtain ⟨s, hpending, h⟩ := Traversal.bind_eq_ok.1 h
    obtain ⟨fields, hfields, h⟩ := Traversal.bind_eq_ok.1 h
    obtain ⟨⟨⟩, hseal, h⟩ := Traversal.bind_eq_ok.1 h
    cases h
    obtain ⟨rfl, rfl, hidle, hledger⟩ := checkRecords_false_iff.1 hrecords
    obtain ⟨hevent, rfl⟩ := settlePending_iff.1 hpending
    refine ⟨payload, settled, fields, hopened, hread, hinputs, hquiet, ⟨hidle, hledger⟩, hevent,
      hfields, hseal, ?_, rfl⟩
    rw [hrunner _ hledger]
  · rintro ⟨payload, saved, fields, hopened, hread, hinputs, hquiet, hprocesses, hevent, hfields,
      hseal, rfl, rfl⟩
    refine Traversal.bind_eq_ok.2 ⟨payload, hopened, Traversal.bind_eq_ok.2 ⟨saved, hread,
      Traversal.bind_eq_ok.2 ⟨⟨⟩, hinputs, Traversal.bind_eq_ok.2 ⟨⟨⟩, hquiet,
        Traversal.bind_eq_ok.2 ⟨(saved.nativeProcessRecords, saved),
          checkRecords_false_iff.2 ⟨rfl, rfl, hprocesses⟩, Traversal.bind_eq_ok.2
            ⟨settledState host saved, settlePending_iff.2 ⟨hevent, rfl⟩, Traversal.bind_eq_ok.2
              ⟨fields, hfields, Traversal.bind_eq_ok.2 ⟨⟨⟩, hseal, ?_⟩⟩⟩⟩⟩⟩⟩⟩
    rw [hrunner _ hprocesses.2]
    rfl

theorem save_eq_ok {file : CheckpointFile} {reason : Text}
    (h : save host₀ agent₀ s reason = .ok (file, saved)) :
    saved = capture host₀ agent₀ s ∧ ∃ inputs, agent₀.workspace.executionFileSeals = .ok inputs ∧
      savedInputs agent₀ = inputs ∧ ∃ payload : Payload, file = .envelope payload ⟨payload⟩ ∧
        payload.schemaVersion = 1 ∧ payload.workspace = agent₀.root ∧
        payload.environmentSha256 = host₀.environment ∧ payload.inputs = inputs ∧
        payload.meshGraphSha256 = host₀.meshGraph ∧ payload.state = host₀.dumpState saved := by
  unfold save at h
  split at h
  · cases h
  · rename_i inputs hinputs
    cases h
    exact ⟨rfl, inputs, hinputs, by rw [savedInputs, hinputs]; rfl, _, rfl, rfl, rfl, rfl, rfl, rfl,
      rfl⟩

theorem restoreFields_capture
    (hfields : ∀ field value, agent₀.fields field = some value →
      host.validateField field (host₀.jsonable field value) = some value) :
    restoreFields host (settledState host (capture host₀ agent₀ s)) snapshotFields agent.fields =
      .ok (resumedAgent agent₀ agent).fields := by
  rw [restoreFields_saved (s := settledState host (capture host₀ agent₀ s)) rfl hfields]
  congr 1
  funext field
  exact if_pos (by cases field <;> decide)

/-- The stored seal is verified on the restored case as on the saved one. -/
theorem verifySeal_restored {inputs : List CaseFileSeal} (hnamed₀ : agent₀.workspace.Named)
    (hnamed : agent.workspace.Named) (hinputs : agent₀.workspace.executionFileSeals = .ok inputs)
    (h : (∃ files, agent.workspace.executionFileSeals = .ok files) ∧ ∀ l, underExecutionInput l →
      agent.workspace.tree.fileAt l = agent₀.workspace.tree.fileAt l)
    (caseSeal : CaseSeal) (plan : EngineeringPlan) :
    (restoreOrigins agent.workspace inputs).verifySeal caseSeal plan =
      agent₀.workspace.verifySeal caseSeal plan :=
  verifySeal_of_records_eq hinputs
    (checkInputs_eq_ok.1 ((checkInputs_restored_iff hnamed₀ hnamed hinputs).2 h)) caseSeal plan

section
variable {file : CheckpointFile} {reason : Text} {state : CFDState}
variable (hsave : save host₀ agent₀ s reason = .ok (file, saved))
  (hread : host.validateState (host₀.dumpState saved) = some saved)
  (hfields : ∀ field value, agent₀.fields field = some value →
    host.validateField field (host₀.jsonable field value) = some value)
  (hnamed₀ : agent₀.workspace.Named) (hnamed : agent.workspace.Named)
include hsave hread hfields hnamed₀ hnamed

/-- A coherent session is resumed. -/
theorem load_of_coherent (h : Coherent host₀ agent₀ host agent saved) :
    load host agent file false = .ok (resumedAgent agent₀ agent, resumedState host saved) := by
  obtain ⟨hsaved, inputs, hinputs, hrecords, payload, rfl, hversion, hroot, henvironment,
    hpayload, hgraph, hstate⟩ := save_eq_ok hsave
  obtain ⟨htransaction, hjournal, haction⟩ := And.intro h.transaction
    (And.intro h.journal (actionRefused_false_iff.2 h.action))
  have hopened : openCheckpoint host agent (.envelope payload ⟨payload⟩) = .ok payload :=
    openCheckpoint_envelope hversion (hroot.trans h.root.symm)
      (henvironment.trans h.environment.symm) (h.meshGraph.trans hgraph.symm)
  have hseal : checkSeal (restoreOrigins agent.workspace inputs) (settledState host saved) =
      .ok () := by
    refine checkSeal_iff.2 fun caseSeal hcaseSeal plan hplan => ?_
    rw [verifySeal_restored hnamed₀ hnamed hinputs h.inputs]
    exact h.caseSeal caseSeal hcaseSeal plan hplan
  refine load_false_iff.2 ⟨payload, saved, (resumedAgent agent₀ agent).fields, hopened,
    readState_of_validateState (hstate ▸ hread) h.intake, ?_,
    checkQuiet_eq_ok.2 ⟨htransaction, hjournal, haction⟩, ⟨h.processes, h.ledger⟩, h.event, ?_, ?_,
    ?_, rfl⟩
  · rw [hpayload]
    exact (checkInputs_restored_iff hnamed₀ hnamed hinputs).2 h.inputs
  · rw [hsaved]
    exact restoreFields_capture hfields
  · rw [hpayload]
    exact hseal
  · rw [resumedAgent, hrecords, hpayload]

/-- A session that is resumed was coherent. -/
theorem coherent_of_load (h : load host agent file false = .ok (agent', state)) :
    Coherent host₀ agent₀ host agent saved ∧ agent' = resumedAgent agent₀ agent ∧
      state = resumedState host saved := by
  obtain ⟨hsaved, inputs, hinputs, hrecords, payload, rfl, -, hroot, henvironment, hpayload,
    hgraph, hstate⟩ := save_eq_ok hsave
  obtain ⟨payload', saved', fields, hopened, hread', hinputs', hquiet, hprocesses, hevent,
    hfields', hseal, rfl, rfl⟩ := load_false_iff.1 h
  obtain ⟨hfile, -, hroot', henvironment', hgraph'⟩ := openCheckpoint_eq_ok hopened
  cases hfile
  obtain ⟨hvalid, hintake⟩ := readState_eq_ok hread'
  rw [hstate, hread] at hvalid
  cases hvalid
  rw [hpayload] at hinputs' hseal
  obtain ⟨htransaction, hjournal, haction⟩ := checkQuiet_eq_ok.1 hquiet
  have hcase := (checkInputs_restored_iff hnamed₀ hnamed hinputs).1 hinputs'
  refine ⟨⟨hroot'.symm.trans hroot, henvironment'.symm.trans henvironment, hgraph'.trans hgraph,
    hintake, hcase, htransaction, hjournal, actionRefused_false_iff.1 haction, hevent,
    hprocesses.1, hprocesses.2, ?_⟩, ?_, rfl⟩
  · intro caseSeal hcaseSeal plan hplan
    rw [← verifySeal_restored hnamed₀ hnamed hinputs hcase]
    exact checkSeal_iff.1 hseal caseSeal hcaseSeal plan hplan
  · have hrestored : restoreFields host (settledState host saved) snapshotFields agent.fields =
        .ok (resumedAgent agent₀ agent).fields := by
      rw [hsaved]
      exact restoreFields_capture hfields
    obtain rfl := Except.ok.inj (hfields'.symm.trans hrestored)
    rw [resumedAgent, hrecords, hpayload]

end

end

/-- An agent with a draft, on a case whose origins it knows. -/
def solvingAgent : EngineeringAgent where
  root := "/runs/channel".toList
  workspace := CaseWorkspace.sealedCase
  runner := none
  fields field := if field = .draftAuthoringBrief then some "draft".toList else none

/-- The agent of a new process on the same root. -/
def newAgent : EngineeringAgent :=
  { solvingAgent with
    workspace := { CaseWorkspace.sealedCase with authoredPaths := .empty, assetPaths := .empty }
    fields := fun _ => none }

/-- An approved state in the run, with an action that is completed. -/
def solvingState : CFDState where
  solveApproved := true
  pendingAction := some
    { status := some "completed".toList, kind := some "runtime".toList,
      event := some "solved".toList }
  currentState := .simulation

/-- The state as the checkpoint of the run has it. -/
def solvedState : CFDState := capture vacantHost solvingAgent solvingState

/-- The session that is resumed, and its state as its own checkpoint has it. -/
def resumedSession : EngineeringAgent × CFDState :=
  (resumedAgent solvingAgent newAgent, resumedState vacantHost solvedState)

/-- A machine that reads the two states back. -/
def readingHost : ControllerHost :=
  { vacantHost with
    dumpState := fun s => if s.solveApproved then "approved".toList else []
    validateState := fun document =>
      some (if document = [] then capture vacantHost resumedSession.1 resumedSession.2
        else solvedState) }

theorem solving_saved : ∃ file,
    save readingHost solvingAgent solvingState "runtime".toList = .ok (file, solvedState) := by
  have hseals : (CaseWorkspace.sealedCase.executionFileSeals).isOk := by decide +kernel
  rw [save]
  dsimp only [solvingAgent]
  rcases hinputs : CaseWorkspace.sealedCase.executionFileSeals with e | inputs
  · rw [hinputs] at hseals
    cases hseals
  · exact ⟨_, rfl⟩

theorem solving_coherent :
    Coherent readingHost solvingAgent readingHost newAgent solvedState where
  root := rfl
  environment := rfl
  meshGraph := rfl
  intake h := by cases h
  inputs := by
    obtain ⟨inputs, hinputs⟩ :
        ∃ inputs, solvingAgent.workspace.executionFileSeals = .ok inputs := by
      obtain ⟨file, hsave⟩ := solving_saved
      obtain ⟨-, inputs, hinputs, -⟩ := save_eq_ok hsave
      exact ⟨inputs, hinputs⟩
    exact ⟨executionFileSeals_progress .empty .empty hinputs, fun _ _ => rfl⟩
  transaction := rfl
  journal := rfl
  action a ha := by
    cases ha
    decide
  event _ _ := rfl
  processes row hrow := by cases hrow
  ledger rows hrows := by cases hrows
  caseSeal caseSeal hseal := by cases hseal

theorem solvingAgent_fields (field : SnapshotField) (value : Document)
    (_ : solvingAgent.fields field = some value) :
    readingHost.validateField field (readingHost.jsonable field value) = some value := rfl

theorem solvingAgent_named : solvingAgent.workspace.Named ∧ newAgent.workspace.Named :=
  ⟨CaseWorkspace.named_of_keys (by decide +kernel), CaseWorkspace.named_of_keys (by decide +kernel)⟩

section
variable {host : ControllerHost} {agent agent' : EngineeringAgent} {s : CFDState}

/-- A field that an agent has is not lost. -/
theorem restoreFields_isSome {names : List SnapshotField}
    {fields fields' : SnapshotField → Option Document}
    (h : restoreFields host s names fields = .ok fields') (field : SnapshotField) :
    (fields' field).or (fields field) = fields' field := by
  suffices hkept : fields' field = none → fields field = none by
    cases hfield : fields' field with
    | none => rw [hkept hfield, Option.or_none]
    | some value => rfl
  induction names generalizing fields with
  | nil =>
    cases h
    exact id
  | cons name names ih =>
    rw [restoreFields] at h
    split at h
    · exact ih h
    · split at h
      · cases h
      · intro hnone
        have hupdated := ih h hnone
        by_cases hname : field = name
        · subst hname
          simp at hupdated
        · rwa [Function.update_of_ne hname] at hupdated

@[simp] theorem revokeApproval_confirmedIntake :
    (revokeApproval s).confirmedIntake = s.confirmedIntake := by
  unfold revokeApproval
  dsimp only
  split_ifs <;> rfl

@[simp] theorem revokeApproval_intakeConfirmed :
    (revokeApproval s).intakeConfirmed = s.intakeConfirmed := by
  unfold revokeApproval
  dsimp only
  split_ifs <;> rfl

/-- A state without an approval, outside a run and a repair, has nothing to revoke. -/
theorem revokeApproval_eq_self (hsolve : s.solveApproved = false)
    (happroval : s.executionApproval = none) (hsimulation : s.currentState ≠ .simulation)
    (hrepair : s.currentState ≠ .runtimeRepair) : revokeApproval s = s := by
  have hsame : { s with solveApproved := false, executionApproval := none } = s := by
    rw [← hsolve, ← happroval]
  unfold revokeApproval
  dsimp only
  rw [if_neg hsimulation, if_neg hrepair, hsame]

/-- What a load makes of the agent. -/
theorem load_agent {file : CheckpointFile} {reconcile : Bool} {state : CFDState}
    (h : load host agent file reconcile = .ok (agent', state)) :
    ∃ inputs, agent'.workspace = restoreOrigins agent.workspace inputs ∧
      agent'.workspace.executionFileSeals = .ok inputs ∧ agent'.resumePending = true ∧
      agent'.root = agent.root ∧ (state.intakeConfirmed = true → state.confirmedIntake = true) := by
  unfold load at h
  obtain ⟨payload, hopened, h⟩ := Traversal.bind_eq_ok.1 h
  obtain ⟨saved, hread, h⟩ := Traversal.bind_eq_ok.1 h
  obtain ⟨⟨⟩, hinputs, h⟩ := Traversal.bind_eq_ok.1 h
  obtain ⟨⟨⟩, hquiet, h⟩ := Traversal.bind_eq_ok.1 h
  obtain ⟨⟨records, settled⟩, hrecords, h⟩ := Traversal.bind_eq_ok.1 h
  obtain ⟨s, hpending, h⟩ := Traversal.bind_eq_ok.1 h
  obtain ⟨fields, hfields, h⟩ := Traversal.bind_eq_ok.1 h
  obtain ⟨⟨⟩, hseal, h⟩ := Traversal.bind_eq_ok.1 h
  cases h
  obtain ⟨rfl, -⟩ := checkRecords_eq_ok hrecords
  obtain ⟨events, rfl⟩ := settlePending_eq_ok hpending
  refine ⟨payload.inputs, rfl, checkInputs_eq_ok.1 hinputs, rfl, rfl, ?_⟩
  rw [revokeApproval_confirmedIntake, revokeApproval_intakeConfirmed]
  exact (readState_eq_ok hread).2

/-- A session is saved, and a new process that starts as `agent` did loads it. The ledger of the
processes is on the disk. -/
def Interrupted (host : ControllerHost) (agent : EngineeringAgent)
    (before after : EngineeringAgent × CFDState) : Prop :=
  ∃ reason file saved, save host before.1 before.2 reason = .ok (file, saved) ∧
    load host { agent with runner := before.1.runner } file false = .ok after

theorem capture_capture : capture host agent (capture host agent s) = capture host agent s := by
  cases hrunner : agent.runner <;> simp [capture, hrunner]

section
variable {file : CheckpointFile} {reconcile : Bool} {state : CFDState}
variable (h : load host agent file reconcile = .ok (agent', state))
include h

/-- The agent that a load leaves is the one that a new process makes of its own checkpoint. -/
theorem resumedAgent_self :
    resumedAgent agent' { agent with runner := agent'.runner } = agent' := by
  obtain ⟨inputs, hworkspace, hinputs, hpending, hroot, -⟩ := load_agent h
  obtain ⟨payload, saved, records, s, hl⟩ := load_eq_ok h
  have hfields : (fun field => (agent'.fields field).or (agent.fields field)) = agent'.fields :=
    funext (restoreFields_isSome hl.fields)
  have hrecords : savedInputs agent' = inputs := by
    rw [savedInputs, hinputs]
    rfl
  rw [resumedAgent]
  dsimp only
  rw [hfields, hrecords, ← hworkspace, ← hpending, ← hroot]

/-- Nothing is in flight in a session that was loaded. -/
theorem coherent_capture
    (htransaction : transactionActive host (capture host agent' state) = false) :
    Coherent host agent' host { agent with runner := agent'.runner }
      (capture host agent' state) := by
  have hresumed := resumed_of_load h
  obtain ⟨inputs, hworkspace, hinputs, -, hroot, hintake⟩ := load_agent h
  have hpending : (capture host agent' state).pendingAction = none := hresumed.pending
  have hrecords :
      (capture host agent' state).nativeProcessRecords = state.nativeProcessRecords := by
    cases hrunner : agent'.runner with
    | none => simp [capture, hrunner]
    | some rows =>
      rw [← hresumed.ledger rows hrunner]
      simp [capture, hrunner]
  constructor
  · exact hroot.symm
  · rfl
  · rfl
  · exact hintake
  · rw [hworkspace] at hinputs ⊢
    exact ⟨executionFileSeals_progress (w := restoreOrigins agent.workspace inputs)
      agent.workspace.authoredPaths agent.workspace.assetPaths hinputs, fun _ _ => rfl⟩
  · exact htransaction
  · exact hresumed.journal
  · rw [hpending]
    exact fun a ha => by cases ha
  · rw [hpending]
    exact fun _ hevent => by cases hevent
  · rw [hrecords]
    exact hresumed.quiet
  · rw [hrecords]
    exact hresumed.ledger
  · exact hresumed.caseSeal

/-- A session that was loaded has nothing left to settle or to revoke. -/
theorem resumedState_capture :
    resumedState host (capture host agent' state) = capture host agent' state := by
  have hresumed := resumed_of_load h
  have hpending : (capture host agent' state).pendingAction = none := hresumed.pending
  have hevents : resumedEvents host (capture host agent' state) =
      (capture host agent' state).engineeringEvents := by
    rw [resumedEvents, hpending]
    rfl
  rw [resumedState, hevents, ← hpending]
  exact revokeApproval_eq_self hresumed.approval.1 hresumed.approval.2 hresumed.current.1
    hresumed.current.2

end

/-- **Interruptions do not add up.** A session that was loaded, with no transaction open, is saved
and loaded by a new process any number of times, and it stays as it is but for the fields that the
first of the checkpoints put into the state. -/
theorem interrupted_stable {file : CheckpointFile} {reconcile : Bool} {state : CFDState}
    (h : load host agent file reconcile = .ok (agent', state))
    (hread : host.validateState (host.dumpState (capture host agent' state)) =
      some (capture host agent' state))
    (hfields : ∀ field value, agent'.fields field = some value →
      host.validateField field (host.jsonable field value) = some value)
    (hnamed : agent.workspace.Named)
    (htransaction : transactionActive host (capture host agent' state) = false)
    {session : EngineeringAgent × CFDState}
    (hrun : Relation.ReflTransGen (Interrupted host agent) (agent', state) session) :
    (session = (agent', state) ∨ session = (agent', capture host agent' state)) ∧
      Interrupted host agent session (agent', capture host agent' state) := by
  obtain ⟨inputs, hworkspace, hinputs, -⟩ := load_agent h
  have hnamed' : agent'.workspace.Named := by
    rw [hworkspace]
    exact hnamed
  -- Both sessions are saved as the same state, so one load serves them.
  have hload : ∀ s reason file saved, capture host agent' s = capture host agent' state →
      save host agent' s reason = .ok (file, saved) →
        load host { agent with runner := agent'.runner } file false =
          .ok (agent', capture host agent' state) := by
    intro s reason file saved hs hsave
    obtain rfl : saved = capture host agent' state := (save_eq_ok hsave).1.trans hs
    have hloaded := load_of_coherent hsave hread hfields hnamed' (by exact hnamed)
      (coherent_capture h htransaction)
    rwa [resumedAgent_self h, resumedState_capture h] at hloaded
  have hsaved : ∀ s, ∃ file saved, save host agent' s "interrupted".toList = .ok (file, saved) := by
    intro s
    rw [save, hinputs]
    exact ⟨_, _, rfl⟩
  have hnext : ∀ s, capture host agent' s = capture host agent' state →
      Interrupted host agent (agent', s) (agent', capture host agent' state) := by
    intro s hs
    obtain ⟨file, saved, hsave⟩ := hsaved s
    exact ⟨_, file, saved, hsave, hload s _ file saved hs hsave⟩
  have hreached : session = (agent', state) ∨ session = (agent', capture host agent' state) := by
    induction hrun with
    | refl => exact .inl rfl
    | tail _ hstep ih =>
      obtain ⟨reason, file, saved, hsave, hafter⟩ := hstep
      refine .inr ?_
      obtain rfl | rfl := ih
      · exact Except.ok.inj (hafter.symm.trans (hload _ _ _ _ rfl hsave))
      · exact Except.ok.inj (hafter.symm.trans (hload _ _ _ _ capture_capture hsave))
  refine ⟨hreached, ?_⟩
  obtain rfl | rfl := hreached
  · exact hnext _ rfl
  · exact hnext _ capture_capture

end

/-- The session that a process took up again is the one that the next process takes up. -/
theorem interrupted_stable_solving :
    Interrupted readingHost newAgent
      (resumedSession.1, capture readingHost resumedSession.1 resumedSession.2)
      (resumedSession.1, capture readingHost resumedSession.1 resumedSession.2) := by
  obtain ⟨file, hsave⟩ := solving_saved
  have hload : load readingHost newAgent file false = .ok resumedSession :=
    load_of_coherent hsave rfl solvingAgent_fields solvingAgent_named.1 solvingAgent_named.2
      solving_coherent
  have hfirst := (interrupted_stable hload rfl (fun _ _ _ => rfl) solvingAgent_named.2 rfl .refl).2
  exact (interrupted_stable hload rfl (fun _ _ _ => rfl) solvingAgent_named.2 rfl
    (.single hfirst)).2

end Workflow
end OpenFoamAgent
