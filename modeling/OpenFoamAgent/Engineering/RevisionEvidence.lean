/-
# The results of a revised case

`begin_confirmed_revision_mutation` archives the results of the baseline and clears what the state
says of them. `engineering/phases/decision_controller.py` calls it in front of the dispatch of every
write, patch, delete, mesh command and native command of a revision, and
`engineering/phases/repair_controller.py` in front of the transaction of a repair. So it runs before
an edit that is then refused, and before a transaction that then raises, and nothing puts the
results back.

`Step` is one action of a revision and `Run` a run of them, with any interruption of an archive.
`results_kept` says of which runs the results are withdrawn only where a change is committed.
-/
import OpenFoamAgent.Engineering.DeltaAtomicity
import OpenFoamAgent.Engineering.RevisionMutation
import OpenFoamAgent.Workspace.RefusedWrites

namespace OpenFoamAgent

open Python Schemas

namespace Workspace

/-! ### The case without its results -/

/-- The place is that of a result of the case, or below one. -/
def IsResult (l : Location) : Prop := ∃ name, l.head? = some name ∧ isOutput name

/-- The case once a candidate is moved to the archive. -/
def Candidate.withdraw (w : CaseWorkspace) : Candidate → CaseWorkspace
  | .output name => { w with tree := w.tree.dropTop name }
  | .log _ => w

namespace RunRoot

/-- The case that an archive leaves behind. -/
def archivedCase (r : RunRoot) : CaseWorkspace := r.candidates.foldl Candidate.withdraw r.case

variable {r s : RunRoot} {revisionId : Text}

theorem mkdir_onlyHistory (ls : List Location) (r : RunRoot) :
    (mkdir ls r).Crashes (fun s => OnlyHistory r s) (fun s _ => OnlyHistory r s) r :=
  (mkdir_opened ls r).mono (fun _ h => h.1.toOnlyHistory) fun _ _ h => h.1.toOnlyHistory

theorem copyInput_onlyHistory (item : CaseFileSeal) (r : RunRoot) :
    (copyInput revisionId item r).Crashes (fun s => OnlyHistory r s)
      (fun s _ => OnlyHistory r s) r := by
  unfold copyInput
  split
  · exact .raised _
  · refine Steps.Crashes.andThen (mkdir_onlyHistory _ r) fun s _ hs => ?_
    refine Steps.Crashes.andThen ((copySteps_written _ _ s).mono
      (fun _ h => hs.trans h.toOnlyHistory) fun _ _ h => hs.trans h.1.toOnlyHistory)
      fun s _ hs => ?_
    unfold checkCopy
    split
    · exact .raised _
    · split_ifs
      · exact .raised _
      · exact .returned hs

theorem copyInputs_onlyHistory (items : List CaseFileSeal) (r : RunRoot) :
    (copyInputs revisionId items r).Crashes (fun s => OnlyHistory r s)
      (fun s _ => OnlyHistory r s) r := by
  induction items generalizing r with
  | nil => exact .returned ⟨rfl, rfl⟩
  | cons item items ih =>
    exact Steps.Crashes.andThen (copyInput_onlyHistory item r) fun s _ hs =>
      (ih s).mono (fun _ h => hs.trans h) fun _ _ h => hs.trans h

theorem moveCandidates_case (cs : List Candidate) (r : RunRoot) :
    (moveCandidates revisionId cs r).Crashes (fun _ => True)
      (fun s _ => s.case = cs.foldl Candidate.withdraw r.case) r := by
  induction cs generalizing r with
  | nil => exact .returned rfl
  | cons c cs ih =>
    refine Steps.Crashes.andThen ((mkdir_onlyHistory _ r).mono (fun _ _ => trivial)
      fun _ _ h => h) fun s _ hs => .after trivial ?_
    have hmoved : (s.moved revisionId c).case = c.withdraw r.case := by
      cases c with
      | output name => show ({ s.case with tree := _ } : CaseWorkspace) = _; rw [hs.case]; rfl
      | log name => exact hs.case
    refine (ih _).mono (fun _ h => h) fun _ _ h => ?_
    rw [h, hmoved, List.foldl_cons]

/-- An archive that returns has moved every result, and nothing else of the case. -/
theorem archiveRevisionOutputs_case {path : Text}
    (h : (r.archiveRevisionOutputs revisionId).result = .ok path) :
    ((r.archiveRevisionOutputs revisionId).last r).case = r.archivedCase := by
  have hcrashes : (r.archiveRevisionOutputs revisionId).Crashes (fun _ => True)
      (fun s _ => s.case = r.archivedCase) r := by
    unfold archiveRevisionOutputs
    split_ifs
    · exact .raised _
    · exact .raised _
    · refine Steps.Crashes.andThen ((mkdir_onlyHistory _ r).mono (fun _ _ => trivial)
        fun _ _ h => h) fun s _ hs => ?_
      split
      · exact .raised _
      · refine Steps.Crashes.andThen ((copyInputs_onlyHistory _ s).mono (fun _ _ => trivial)
          fun _ _ h => hs.trans h) fun s _ hs => ?_
        refine Steps.Crashes.andThen (moveCandidates_case _ s) fun t _ ht => ?_
        refine .returned ?_
        rw [ht, candidates_of_onlyHistory hs, hs.case, archivedCase]
  exact hcrashes.returns path h

/-- The archive can be made. -/
structure Archivable (r : RunRoot) (revisionId : Text) : Prop where
  safe : safeRevisionId revisionId
  new : r.history.hasTop revisionId = false
  sealable : ∃ files, r.case.executionFileSeals = .ok files

theorem archivable_iff :
    r.Archivable revisionId ↔ ∃ path, (r.archiveRevisionOutputs revisionId).result = .ok path := by
  rw [archiveRevisionOutputs_returns_iff]
  exact ⟨fun h => ⟨h.safe, h.new, h.sealable⟩, fun h => ⟨h.1, h.2.1, h.2.2⟩⟩

/-- An archive that cannot be made moves nothing. -/
theorem archiveRevisionOutputs_refused (h : ¬ r.Archivable revisionId) :
    OnlyHistory r ((r.archiveRevisionOutputs revisionId).last r) := by
  have hcrashes : (r.archiveRevisionOutputs revisionId).Crashes (fun s => OnlyHistory r s)
      (fun _ _ => True) r := by
    unfold archiveRevisionOutputs
    split_ifs with hsafe hnew
    · exact .raised _
    · exact .raised _
    · refine Steps.Crashes.andThen (mkdir_onlyHistory _ r) fun s _ hs => ?_
      rw [hs.case]
      split
      · exact .raised _
      · rename_i files hfiles
        exact absurd ⟨by simpa using hsafe, by simpa using hnew, files, hfiles⟩ h
  exact hcrashes.last ⟨rfl, rfl⟩

theorem fileAt_withdraw {cs : List Candidate} {w : CaseWorkspace} {l : Location}
    (hcs : ∀ name, .output name ∈ cs → isOutput name) (hl : ¬ IsResult l) :
    (cs.foldl Candidate.withdraw w).tree.fileAt l = w.tree.fileAt l := by
  induction cs generalizing w with
  | nil => rfl
  | cons c cs ih =>
    rw [List.foldl_cons, ih fun name hmem => hcs name (List.mem_cons_of_mem _ hmem)]
    cases c with
    | output name =>
      refine FileTree.fileAt_dropTop _ fun hhead => hl ⟨name, hhead, hcs name List.mem_cons_self⟩
    | log name => rfl

theorem fileAt_archivedCase {l : Location} (hl : ¬ IsResult l) :
    r.archivedCase.tree.fileAt l = r.case.tree.fileAt l :=
  fileAt_withdraw (fun _ => isOutput_of_mem_candidates) hl

end RunRoot

namespace CaseWorkspace

variable {host : Host} {w : CaseWorkspace} {p content : Text}

/-- The checks of `delete` pass and the host does not refuse to take the file away. -/
structure GetsDeleted (host : Host) (w : CaseWorkspace) (p : Text) : Prop where
  named : (normalizedText p).isOk
  resolves : (w.resolveCasePath (stripBy (· == '/') p) true).isOk
  notAsset : stripBy (· == '/') p ∉ w.assetPaths
  unlinked : (w.tree.unlink (host.fails .unlink p) (locate p)).isOk

theorem delete_of_getsDeleted (h : w.GetsDeleted host p) :
    (w.delete host p).1.tree.fileAt (locate p) = none := by
  obtain ⟨hnamed, hresolves, hasset, hunlink⟩ := h
  unfold delete
  rcases hn : normalizedText p with e | n
  · rw [hn] at hnamed
    cases hnamed
  · dsimp only
    rw [normalizedText_eq_ok hn]
    rcases hpath : w.resolveCasePath (stripBy (· == '/') p) true with e | path
    · rw [hpath] at hresolves
      cases hresolves
    · obtain ⟨rfl, -⟩ := resolveCasePath_eq_ok hpath
      dsimp only
      rw [if_neg hasset, locate_stripBy]
      rcases htree : w.tree.unlink (host.fails .unlink p) (locate p) with e | tree
      · rw [htree] at hunlink
        cases hunlink
      · have hroot : [] ∉ (FileTree.parents (locate p)).reverse := by
          simpa using FileTree.nil_notMem_parents (locate p)
        have hdirs := FileTree.SameOutside.removeEmptyDirectories (S := ∅)
          (fun d => host.fails (.rmdir d) p) tree hroot
        refine (hdirs.files _ (Set.notMem_empty _)).trans ?_
        unfold FileTree.unlink at htree
        split_ifs at htree
        cases htree
        exact FileTree.fileAt_erase_self _ _

/-- The transaction of these texts passes its checks and none of its steps fails. -/
structure GetsCommitted (host : Host) (w : CaseWorkspace) (changes : List (Text × Text)) :
    Prop where
  checked : w.commitPreflight host changes [] = .ok []
  resolves : ((touchedPaths host changes []).mapM w.snapshot).isOk
  performed : (w.commitForward host changes []).2.isOk

theorem commitTextTransaction_of_getsCommitted {changes : List (Text × Text)}
    (h : w.GetsCommitted host changes) : (w.commitTextTransaction host changes []).2.isOk := by
  unfold commitTextTransaction
  rw [h.checked]
  dsimp only
  rcases hsnapshots : (touchedPaths host changes []).mapM w.snapshot with e | snapshots
  · have hresolves := h.resolves
    rw [hsnapshots] at hresolves
    cases hresolves
  · dsimp only
    unfold commitOrRollback
    rcases hforward : w.commitForward host changes [] with ⟨w', e | digests⟩
    · have hperformed := h.performed
      rw [hforward] at hperformed
      cases hperformed
    · rfl

end CaseWorkspace
end Workspace

namespace Engineering

open Workspace Contracts

/-! ### A revision -/

/-- What the state holds of the solved case. -/
structure Evidence where
  simulation : Option Document
  runtimeReport : Option Document
  simulationAttempts : ℕ
  lastRuntimeLogExcerpt : Option Text
  postprocessingEvents : List Document
  forceCoefficientAnalysis : Option Document
  postprocessingReport : Option Document

def RevisionState.evidence (state : RevisionState) : Evidence where
  simulation := state.simulation
  runtimeReport := state.runtimeReport
  simulationAttempts := state.simulationAttempts
  lastRuntimeLogExcerpt := state.lastRuntimeLogExcerpt
  postprocessingEvents := state.postprocessingEvents
  forceCoefficientAnalysis := state.forceCoefficientAnalysis
  postprocessingReport := state.postprocessingReport

/-- A confirmed revision: the directories of the run, the state and the controller. -/
structure Revising where
  root : RunRoot
  state : RevisionState
  controller : Controller
  proposed : state.activeRevisionProposal.isSome

/-- The controller with the state and the case that it shares with the revision. -/
def Controller.on (c : Controller) (state : RevisionState) (w : CaseWorkspace) : Controller :=
  { c with
    workspace := w
    engineeringPlan := state.engineeringPlan
    caseSeal := state.caseSeal }

/-- The actions of a revision. -/
inductive Action where
  /-- A write, a patch or a delete. -/
  | edit (a : CaseAction)
  /-- A mesh or native command, by what it makes of the run. -/
  | native (command : RunRoot → RunRoot)
  /-- `repair_case_plan`, compiled. -/
  | repair (delta : Delta)
  /-- Any other action. -/
  | other

namespace Revising

variable (s : Revising)

def agent : Controller := s.controller.on s.state s.root.case

/-- The mutation of the revision in this state. -/
def mutated : Mutated := beginConfirmedRevisionMutation s.root s.state

/-- The case that an action meets behind the mutation. -/
def metCase : CaseWorkspace :=
  match s.state.pendingRevisionArchivePath with
  | none => s.root.archivedCase
  | some _ => s.root.case

end Revising

/-- Beside the plan and the seal of the state, the action changes nothing but the case. -/
structure Beside (root : RunRoot) (state : RevisionState) (s : Revising) : Prop where
  state : s.state = { state with
    engineeringPlan := s.state.engineeringPlan
    caseSeal := s.state.caseSeal }
  logs : s.root.logs = root.logs
  history : s.root.history = root.history

/-- Every result of the case and every log is where it was. -/
structure KeepsResults (r r' : RunRoot) : Prop where
  outputs : ∀ l b, IsResult l → r.case.tree.fileAt l = some b → r'.case.tree.fileAt l = some b
  logs : ∀ l b, r.logs.fileAt l = some b → r'.logs.fileAt l = some b

namespace Action

/-- The controller comes to `_begin_confirmed_revision_mutation`. -/
def Begins (c : Controller) : Action → Prop
  | edit _ | native _ => c.toolActionCount < c.policy.maxToolActions
  | repair delta =>
    ¬ Gated (Call.executor .prepareRepair) c (Call.compiled delta .prepareRepair) delta.writes ∧
      delta.changedFiles.items ≠ []
  | other => False

/-- What the action does: `_dispatch_prepare`, or `execute_prepare_repair_plan`, whose gates do not
depend on the case. -/
def Performs (m : Machine) (c : Controller) (root : RunRoot) (state : RevisionState)
    (s : Revising) : Action → Prop
  | edit a => Beside root state s ∧ s.agent = (c.on state root.case).edit m .prepare a
  | native command => s.root = command root ∧ s.state = state
  | repair delta => Beside root state s ∧
      s.agent = ((c.on state root.case).executePrepareRepairPlan m delta).1
  | other => KeepsResults root s.root ∧ s.state.evidence = state.evidence ∧
      s.state.pendingRevisionArchivePath = state.pendingRevisionArchivePath

/-- What is done where the controller does not come to the mutation: without a budget, nothing. -/
def Passes (m : Machine) (s s' : Revising) : Action → Prop
  | edit _ | native _ => s'.root = s.root ∧ s'.state = s.state
  | act => act.Performs m s.controller s.root s.state s'

end Action

/-- One action of a revision, with the state in which its archive was interrupted, if it was. -/
inductive Step (m : Machine) (s : Revising) : Action → Option RunRoot → Revising → Prop where
  | passed {act : Action} {s' : Revising} (hbegins : ¬ act.Begins s.agent)
      (h : act.Passes m s s') : Step m s act none s'
  | interrupted {act : Action} {r : RunRoot} {s' : Revising} (hbegins : act.Begins s.agent)
      (hpending : s.state.pendingRevisionArchivePath = none)
      (hr : r ∈ (s.root.archiveRevisionOutputs s.state.revisionId).states)
      (hroot : s'.root = r) (hstate : s'.state = s.state) : Step m s act (some r) s'
  | raised {act : Action} {e : ArchiveError} {s' : Revising} (hbegins : act.Begins s.agent)
      (he : s.mutated.result = .error e) (hroot : s'.root = s.mutated.root)
      (hstate : s'.state = s.mutated.state) : Step m s act none s'
  | performed {act : Action} {s' : Revising} (hbegins : act.Begins s.agent)
      (hok : s.mutated.result = .ok ())
      (h : act.Performs m s.controller s.mutated.root s.mutated.state s') : Step m s act none s'

/-- The step changed a file of the case that is no result, or the plan. -/
def Committed (s s' : Revising) : Prop :=
  (∃ l, ¬ IsResult l ∧ s'.root.case.tree.fileAt l ≠ s.root.case.tree.fileAt l) ∨
    s'.state.engineeringPlan ≠ s.state.engineeringPlan

/-- The reports and the results are what they were. -/
structure Intact (s s' : Revising) : Prop where
  evidence : s'.state.evidence = s.state.evidence
  results : KeepsResults s.root s'.root

/-- A run of actions that are all `ok`, and whether one of them has committed a change. -/
inductive Run (m : Machine) (ok : Revising → Action → Option RunRoot → Prop) (s : Revising) :
    Bool → Revising → Prop where
  | start : Run m ok s false s
  | quiet {b : Bool} {t t' : Revising} {act : Action} {fault : Option RunRoot}
      (h : Run m ok s b t) (hok : ok t act fault) (hstep : Step m t act fault t')
      (hquiet : ¬ Committed t t') : Run m ok s b t'
  | commits {b : Bool} {t t' : Revising} {act : Action} {fault : Option RunRoot}
      (h : Run m ok s b t) (hok : ok t act fault) (hstep : Step m t act fault t')
      (hcommits : Committed t t') : Run m ok s true t'

/-! ### Actions that change the case -/

/-- The edit is made, and changes the file of its path. -/
def CaseAction.Alters (m : Machine) (c : Controller) : CaseAction → Prop
  | .write p content => ¬ c.Precommitted p content ∧ c.workspace.GetsWritten m.host p content ∧
      c.workspace.tree.fileAt (locate p) ≠ some (encode content)
  | .patch p old new => ∃ content, c.workspace.patchedContent p old new = some content ∧
      c.workspace.GetsWritten m.host p content ∧
      c.workspace.tree.fileAt (locate p) ≠ some (encode content)
  | .delete p => p ∉ c.precommittedDrops ∧ c.workspace.GetsDeleted m.host p

/-- The action changes a file of the case that is no result. -/
def Action.Alters (m : Machine) (c : Controller) : Action → Prop
  | .edit a => c.refusal a = none ∧ (isMeshAffectingPath a.path).isOk ∧ ¬ IsResult (locate a.path) ∧
      a.Alters m c
  | .native command => ∀ r : RunRoot, r.case = c.workspace →
      ∃ l, ¬ IsResult l ∧ (command r).case.tree.fileAt l ≠ c.workspace.tree.fileAt l
  | .repair delta => PlainDelta (Call.compiled delta .prepareRepair) ∧
      c.workspace.GetsCommitted m.host delta.changedFiles.items ∧
      ∃ x ∈ delta.changedFiles.items, ¬ IsResult (locate x.1) ∧
        c.workspace.tree.fileAt (locate x.1) ≠ some (encode x.2)
  | .other => False

/-- The action does not come to the mutation, or its archive moves nothing, or it meets a seal that
verifies and changes the case. -/
def Sound (m : Machine) (s : Revising) (act : Action) (fault : Option RunRoot) : Prop :=
  act.Begins s.agent →
    match fault with
    | some r => r.case = s.root.case ∧ r.logs = s.root.logs
    | none =>
      (s.state.pendingRevisionArchivePath = none → s.root.Archivable s.state.revisionId) →
        (s.state.pendingRevisionArchivePath = none →
          s.state.verifyStoredSeal s.root.case = .ok ()) ∧
        act.Alters m (s.controller.on s.state s.metCase)

/-! ### What an action leaves -/

variable {m : Machine} {c : Controller} {s s' : Revising} {act : Action}
  {fault : Option RunRoot}

/-- An edit that the guards let through is performed on the case. -/
theorem edit_workspace {a : CaseAction} (hrefusal : c.refusal a = none)
    (hnamed : (isMeshAffectingPath a.path).isOk) :
    (c.edit m .prepare a).workspace = (c.perform m a).1.workspace := by
  have hedit : (c.edit m .prepare a).workspace = (c.dispatch m .prepare a).1.workspace := by
    unfold Controller.edit
    generalize c.dispatch m .prepare a = d
    obtain ⟨c', _ | event⟩ := d <;> rfl
  have hsettle : ∀ b, ((c.perform m a).1.settle m .prepare b).1.workspace =
      (c.perform m a).1.workspace := fun b =>
    congrArg Controller.Holdings.workspace (Controller.settle_frame m _ .prepare b).1
  have hd := Controller.dispatched m c .prepare a
  rw [hedit]
  generalize c.dispatch m .prepare a = d at hd ⊢
  obtain ⟨c', report⟩ := d
  dsimp only at hd ⊢
  cases hd with
  | unauthorized hpolicy => exact absurd (fun h => (by cases h)) hpolicy
  | refused _ hrefusal' => rw [hrefusal] at hrefusal'; cases hrefusal'
  | unnamed _ _ hnamed' => exact absurd hnamed hnamed'
  | notPerformed => rfl
  | notSettled meshAffecting => exact hsettle meshAffecting
  | done meshAffecting => exact hsettle meshAffecting

theorem afterMutation_workspace {α : Type} (c : Controller) (o : Outcome α) :
    (c.afterMutation o).1.workspace = o.1 := by
  obtain ⟨w, e | a⟩ := o <;> rfl

/-- An edit that alters the case does so at its own path. -/
theorem perform_alters {a : CaseAction} (h : a.Alters m c) :
    (c.perform m a).1.workspace.tree.fileAt (locate a.path) ≠
      c.workspace.tree.fileAt (locate a.path) := by
  have hwritten : ∀ {p content : Text}, c.workspace.GetsWritten m.host p content →
      c.workspace.tree.fileAt (locate p) ≠ some (encode content) →
      (c.workspace.writeText m.host p content).1.tree.fileAt (locate p) ≠
        c.workspace.tree.fileAt (locate p) := by
    intro p content hwritten hdiffers
    rw [(CaseWorkspace.writeText_of_getsWritten hwritten).1]
    exact hdiffers.symm
  cases a with
  | write p content =>
    obtain ⟨hregistry, hgets, hdiffers⟩ := h
    show (c.performWrite m p content).1.workspace.tree.fileAt (locate p) ≠ _
    unfold Controller.performWrite
    rw [if_neg hregistry, afterMutation_workspace]
    exact hwritten hgets hdiffers
  | patch p old new =>
    obtain ⟨content, hcontent, hgets, hdiffers⟩ := h
    show (c.afterMutation (c.workspace.patchTextOnce m.host p old new)).1.workspace.tree.fileAt
      (locate p) ≠ _
    have heq := CaseWorkspace.patchTextOnce_eq m.host c.workspace p old new
    rw [hcontent] at heq
    rw [afterMutation_workspace, heq]
    exact hwritten hgets hdiffers
  | delete p =>
    obtain ⟨hregistry, hgets⟩ := h
    show (c.performDelete m p).1.workspace.tree.fileAt (locate p) ≠ _
    unfold Controller.performDelete
    rw [if_neg hregistry, afterMutation_workspace, CaseWorkspace.delete_of_getsDeleted hgets]
    have hresolves := hgets.resolves
    rcases hpath : c.workspace.resolveCasePath (stripBy (· == '/') p) true with e | path
    · rw [hpath] at hresolves
      cases hresolves
    · obtain ⟨rfl, -, -, hfile⟩ := CaseWorkspace.resolveCasePath_eq_ok hpath
      have hfile := hfile rfl
      rw [CaseWorkspace.locate_stripBy] at hfile
      intro hnone
      have hfile : (c.workspace.tree.fileAt (locate p)).isSome := hfile
      rw [show c.workspace.tree.fileAt (locate p) = none from hnone.symm] at hfile
      cases hfile

/-- A repair that commits its delta leaves it in the case, however its audit ends. -/
theorem executePrepareRepairPlan_inPlace {delta : Delta}
    (hgated : ¬ Gated (Call.executor .prepareRepair) c (Call.compiled delta .prepareRepair)
      delta.writes)
    (hplain : PlainDelta (Call.compiled delta .prepareRepair))
    (hcommits : c.workspace.GetsCommitted m.host delta.changedFiles.items) :
    InPlace (c.executePrepareRepairPlan m delta).1.workspace
      (Call.compiled delta .prepareRepair) := by
  have hexecute : c.executePrepareRepairPlan m delta =
      c.execute m (Call.executor .prepareRepair) (Call.compiled delta .prepareRepair)
        delta.writes := rfl
  have hok := CaseWorkspace.commitTextTransaction_of_getsCommitted hcommits
  rw [hexecute, execute_of_not_gated hgated]
  rcases hcommit : c.commit m (Call.compiled delta .prepareRepair).changedFiles.items
      (Call.compiled delta .prepareRepair).dropPaths with ⟨c', e | ⟨⟩⟩
  · exfalso
    unfold Controller.commit at hcommit
    rcases htransaction : c.workspace.commitTextTransaction m.host delta.changedFiles.items []
      with ⟨w, e | committed⟩
    · rw [htransaction] at hok
      cases hok
    · dsimp only [Call.compiled] at hcommit
      rw [htransaction] at hcommit
      cases hcommit
  · exact dispatchEdits_inPlace (fun a ha => .inl ha) (commit_inPlace hplain hcommit).1

theorem KeepsResults.refl (r : RunRoot) : KeepsResults r r := ⟨fun _ _ _ => id, fun _ _ => id⟩

theorem KeepsResults.trans {r r' r'' : RunRoot} (h : KeepsResults r r') (h' : KeepsResults r' r'') :
    KeepsResults r r'' :=
  ⟨fun l b hl hb => h'.outputs l b hl (h.outputs l b hl hb),
    fun l b hb => h'.logs l b (h.logs l b hb)⟩

theorem KeepsResults.of_onlyHistory {r r' : RunRoot} (hcase : r'.case = r.case)
    (hlogs : r'.logs = r.logs) : KeepsResults r r' :=
  ⟨fun _ _ _ hb => hcase ▸ hb, fun _ _ hb => hlogs ▸ hb⟩

theorem Intact.trans {s'' : Revising} (h : Intact s s') (h' : Intact s' s'') : Intact s s'' :=
  ⟨h'.evidence.trans h.evidence, h.results.trans h'.results⟩

/-- A transaction of nothing changes no file, whether it raises or not. -/
theorem commit_nil (m : Machine) (c : Controller) :
    (c.commit m [] []).1.workspace.tree = c.workspace.tree := by
  have hpaths : CaseWorkspace.touchedPaths m.host [] [] = [] :=
    List.perm_nil.1 (m.host.arrange_perm [])
  have htransaction : (c.workspace.commitTextTransaction m.host [] []).1.tree =
      c.workspace.tree := by
    unfold CaseWorkspace.commitTextTransaction
    rcases hpreflight : c.workspace.commitPreflight m.host [] [] with e | drops
    · rfl
    · have hdrops : drops = [] := by
        unfold CaseWorkspace.commitPreflight at hpreflight
        split at hpreflight
        · cases hpreflight
        · cases hpreflight
        · exact (Except.ok.inj hpreflight).symm
      subst hdrops
      dsimp only
      rw [hpaths]
      have hforward : (c.workspace.commitForward m.host [] []).1 = c.workspace := by
        unfold CaseWorkspace.commitForward CaseWorkspace.commitWrites
        dsimp only
        unfold CaseWorkspace.commitDrops
        dsimp only
        rcases c.workspace.assertTotalSize with e | ⟨⟩ <;> rfl
      show (c.workspace.commitOrRollback m.host [] [] []).1.tree = c.workspace.tree
      unfold CaseWorkspace.commitOrRollback
      generalize c.workspace.commitForward m.host [] [] = o at hforward ⊢
      obtain ⟨w, e | digests⟩ := o
      · obtain rfl : w = c.workspace := hforward
        rfl
      · exact congrArg CaseWorkspace.tree hforward
  unfold Controller.commit
  generalize c.workspace.commitTextTransaction m.host [] [] = o at htransaction ⊢
  obtain ⟨w, e | committed⟩ := o <;> exact htransaction

/-- An action that does not come to the mutation leaves the results alone. -/
theorem Action.Passes.intact (hbegins : ¬ act.Begins s.agent) (h : act.Passes m s s') :
    Intact s s' := by
  cases act with
  | edit a =>
    obtain ⟨hroot, hstate⟩ := h
    exact ⟨by rw [hstate], by rw [hroot]; exact .refl _⟩
  | native command =>
    obtain ⟨hroot, hstate⟩ := h
    exact ⟨by rw [hstate], by rw [hroot]; exact .refl _⟩
  | other =>
    obtain ⟨hkeeps, hevidence, -⟩ := h
    exact ⟨hevidence, hkeeps⟩
  | repair delta =>
    obtain ⟨hbeside, hagent⟩ := h
    have htree : s'.root.case.tree = s.root.case.tree := by
      have hcase : s'.root.case = (s.agent.executePrepareRepairPlan m delta).1.workspace :=
        congrArg Controller.workspace hagent
      have hexecute : s.agent.executePrepareRepairPlan m delta =
          s.agent.execute m (Call.executor .prepareRepair) (Call.compiled delta .prepareRepair)
            delta.writes := rfl
      rw [hcase, hexecute]
      by_cases hgated : Gated (Call.executor .prepareRepair) s.agent
          (Call.compiled delta .prepareRepair) delta.writes
      · rw [execute_of_gated hgated]
        rfl
      · have hnil : delta.changedFiles.items = [] := by
          by_contra hne
          exact hbegins ⟨hgated, hne⟩
        have hwrites : delta.writes = [] := by rw [Delta.writes, hnil, List.map_nil]
        have hcommit := commit_nil m s.agent
        rw [execute_of_not_gated hgated]
        have hchanges : (Call.compiled delta .prepareRepair).changedFiles.items = [] := hnil
        have hdrops : (Call.compiled delta .prepareRepair).dropPaths = [] := rfl
        rw [hchanges, hdrops, hwrites]
        generalize s.agent.commit m [] [] = r at hcommit ⊢
        obtain ⟨c', e | ⟨⟩⟩ := r <;> exact hcommit
    refine ⟨by rw [hbeside.state]; rfl, fun l b _ hb => ?_, fun l b hb => ?_⟩
    · rw [htree]
      exact hb
    · rw [hbeside.logs]
      exact hb

/-- What the mutation can do: it clears the reports behind an archive that stands already, or the
archive raises, or the seal does not verify behind it, or the results are withdrawn. -/
theorem mutated_cases (s : Revising) :
    (s.state.pendingRevisionArchivePath.isSome ∧
        s.mutated = ⟨s.root, s.state.dropEvidence, .ok ()⟩) ∨
      s.state.pendingRevisionArchivePath = none ∧
        ((∃ e, (s.root.archiveRevisionOutputs s.state.revisionId).result = .error e ∧
            s.mutated =
              ⟨(s.root.archiveRevisionOutputs s.state.revisionId).last s.root, s.state, .error e⟩) ∨
          ∃ path, (s.root.archiveRevisionOutputs s.state.revisionId).result = .ok path ∧
            ((∃ e, s.state.verifyStoredSeal s.root.case = .error e ∧
                s.mutated.result = .error (.sealing e)) ∨
              s.state.verifyStoredSeal s.root.case = .ok () ∧
                s.mutated = ⟨(s.root.archiveRevisionOutputs s.state.revisionId).last s.root,
                  (s.state.archivedAt path).dropEvidence, .ok ()⟩)) := by
  obtain ⟨proposal, hproposal⟩ := Option.isSome_iff_exists.1 s.proposed
  unfold Revising.mutated beginConfirmedRevisionMutation
  rw [hproposal]
  rcases hpending : s.state.pendingRevisionArchivePath with _ | path
  · refine .inr ⟨rfl, ?_⟩
    dsimp only
    rcases harchive : (s.root.archiveRevisionOutputs s.state.revisionId).result with e | path
    · exact .inl ⟨e, rfl, rfl⟩
    · refine .inr ⟨path, rfl, ?_⟩
      have hverified : (s.state.archivedAt path).verifyStoredSeal
          ((s.root.archiveRevisionOutputs s.state.revisionId).last s.root).case =
            s.state.verifyStoredSeal s.root.case :=
        verifyStoredSeal_archived harchive (s.state.archivedAt path)
      dsimp only
      rw [hverified]
      rcases s.state.verifyStoredSeal s.root.case with e | ⟨⟩
      · exact .inl ⟨e, rfl, rfl⟩
      · exact .inr ⟨rfl, rfl⟩
  · exact .inl ⟨rfl, rfl⟩

/-- The archive takes results only. -/
theorem fileAt_metCase (s : Revising) {l : Location} (hl : ¬ IsResult l) :
    s.metCase.tree.fileAt l = s.root.case.tree.fileAt l := by
  unfold Revising.metCase
  split
  · exact RunRoot.fileAt_archivedCase hl
  · rfl

/-- What the mutation leaves where it returns. -/
theorem mutated_of_ok (h : s.mutated.result = .ok ()) :
    (s.state.pendingRevisionArchivePath = none → s.root.Archivable s.state.revisionId) ∧
      s.mutated.root.case = s.metCase ∧
      ∃ path, s.mutated.state =
        { s.state.dropEvidence with pendingRevisionArchivePath := path } := by
  unfold Revising.metCase
  rcases mutated_cases s with
    ⟨hsome, heq⟩ | ⟨hnone, ⟨e, -, heq⟩ | ⟨path, hpath, ⟨e, -, he⟩ | ⟨-, heq⟩⟩⟩
  · obtain ⟨path, hpending⟩ := Option.isSome_iff_exists.1 hsome
    rw [heq, hpending]
    exact ⟨fun hnone => (by cases hnone), rfl, s.state.pendingRevisionArchivePath, rfl⟩
  · rw [heq] at h
    cases h
  · rw [he] at h
    cases h
  · rw [heq, hnone]
    exact ⟨fun _ => RunRoot.archivable_iff.2 ⟨path, hpath⟩,
      RunRoot.archiveRevisionOutputs_case hpath, some path, rfl⟩

/-- The controller meets the case without its results. -/
theorem on_mutated (h : s.mutated.result = .ok ()) (c : Controller) :
    c.on s.mutated.state s.mutated.root.case = c.on s.state s.metCase := by
  obtain ⟨-, hcase, path, hstate⟩ := mutated_of_ok h
  rw [hcase, hstate]
  rfl

/-- A mutation that raises has moved nothing, unless its seal does not verify. -/
theorem mutated_of_error {e : ArchiveError} (h : s.mutated.result = .error e) :
    s.state.pendingRevisionArchivePath = none ∧
      ((s.root.OnlyHistory s.mutated.root ∧ s.mutated.state = s.state) ∨
        s.root.Archivable s.state.revisionId ∧ s.state.verifyStoredSeal s.root.case ≠ .ok ()) := by
  rcases mutated_cases s with
    ⟨-, heq⟩ | ⟨hnone, ⟨e, he, heq⟩ | ⟨path, hpath, ⟨e, he, -⟩ | ⟨-, heq⟩⟩⟩
  · rw [heq] at h
    cases h
  · refine ⟨hnone, .inl ?_⟩
    rw [heq]
    refine ⟨RunRoot.archiveRevisionOutputs_refused fun harchivable => ?_, rfl⟩
    obtain ⟨path, hpath⟩ := RunRoot.archivable_iff.1 harchivable
    rw [he] at hpath
    cases hpath
  · refine ⟨hnone, .inr ⟨RunRoot.archivable_iff.2 ⟨path, hpath⟩, ?_⟩⟩
    rw [he]
    intro hok
    cases hok
  · rw [heq] at h
    cases h

/-- An action that alters the case commits a change, where it is performed. -/
theorem Action.Performs.committed {root : RunRoot} {state : RevisionState}
    (hbegins : act.Begins (c.on state root.case)) (h : act.Performs m c root state s')
    (halters : act.Alters m (c.on state root.case)) :
    ∃ l, ¬ IsResult l ∧ s'.root.case.tree.fileAt l ≠ root.case.tree.fileAt l := by
  cases act with
  | edit a =>
    obtain ⟨-, hagent⟩ := h
    obtain ⟨hrefusal, hnamed, hresult, halters⟩ := halters
    have hcase : s'.root.case = ((c.on state root.case).edit m .prepare a).workspace :=
      congrArg Controller.workspace hagent
    refine ⟨_, hresult, ?_⟩
    rw [hcase, edit_workspace hrefusal hnamed]
    exact perform_alters halters
  | native command =>
    obtain ⟨hroot, -⟩ := h
    rw [hroot]
    exact halters root rfl
  | repair delta =>
    obtain ⟨-, hagent⟩ := h
    obtain ⟨hplain, hcommits, x, hx, hresult, hdiffers⟩ := halters
    have hcase : s'.root.case =
        ((c.on state root.case).executePrepareRepairPlan m delta).1.workspace :=
      congrArg Controller.workspace hagent
    refine ⟨_, hresult, ?_⟩
    rw [hcase, (executePrepareRepairPlan_inPlace hbegins.1 hplain hcommits).files x hx]
    exact hdiffers.symm
  | other => cases halters

/-- **A sound step commits a change or leaves the results as they are.** -/
theorem Step.committed_or_intact (h : Step m s act fault s') (hsound : Sound m s act fault) :
    Committed s s' ∨ Intact s s' := by
  cases h with
  | passed hbegins h => exact .inr (h.intact hbegins)
  | interrupted hbegins hpending hr hroot hstate =>
    obtain ⟨hcase, hlogs⟩ := hsound hbegins
    subst hroot
    exact .inr ⟨by rw [hstate], .of_onlyHistory hcase hlogs⟩
  | raised hbegins he hroot hstate =>
    obtain ⟨hpending, ⟨hhistory, hsame⟩ | ⟨harchivable, hunverified⟩⟩ := mutated_of_error he
    · rw [← hroot] at hhistory
      exact .inr ⟨by rw [hstate, hsame], .of_onlyHistory hhistory.case hhistory.logs⟩
    · exact absurd ((hsound hbegins fun _ => harchivable).1 hpending) hunverified
  | performed hbegins hok h =>
    obtain ⟨harchivable, hcase, -⟩ := mutated_of_ok hok
    obtain ⟨-, halters⟩ := hsound hbegins harchivable
    have hagent := on_mutated hok s.controller
    rw [← hagent] at halters
    obtain ⟨l, hresult, hdiffers⟩ := h.committed (hagent ▸ hbegins) halters
    rw [hcase, fileAt_metCase s hresult] at hdiffers
    exact .inl (.inl ⟨l, hresult, hdiffers⟩)

/-- **Results are withdrawn for a change only.** -/
theorem results_kept (m : Machine) (s t : Revising) (changed : Bool)
    (h : Run m (Sound m) s changed t) : changed = true ∨ Intact s t := by
  induction h with
  | start => exact .inr ⟨rfl, .refl _⟩
  | quiet _ hok hstep hquiet ih =>
    refine ih.imp_right fun hintact => hintact.trans ?_
    exact (hstep.committed_or_intact hok).resolve_left hquiet
  | commits => exact .inl rfl

/-! ### A refused write -/

/-- The solved case under a confirmed revision, with a report. -/
def solvedRevising : Revising where
  root := solvedRun
  state := { revisedState with simulation := some "converged".toList }
  controller := { workspace := solvedRun.case }
  proposed := rfl

theorem mutated_solvedRevising : solvedRevising.mutated.result = .ok () := by
  refine (beginConfirmedRevisionMutation_returns_iff rfl rfl).2
    ⟨by decide, by decide, ⟨solvedSeals, executionFileSeals_solvedRun⟩, ?_⟩
  exact CaseWorkspace.verifySeal_of_records executionFileSeals_solvedRun rfl

theorem mutated_state_solvedRevising :
    solvedRevising.mutated.state.activeRevisionProposal.isSome ∧
      solvedRevising.mutated.state.simulation = none := by
  obtain ⟨-, -, path, hstate⟩ := mutated_of_ok mutated_solvedRevising
  rw [hstate]
  exact ⟨rfl, rfl⟩

/-- The controller of `solvedRevising` behind an edit. -/
def editedController (a : CaseAction) : Controller :=
  (solvedRevising.controller.on solvedRevising.state solvedRevising.metCase).edit quietMachine
    .prepare a

theorem exists_step_edit {a : CaseAction} (hnamed : (editedController a).workspace.Named)
    (hrooted : (editedController a).workspace.tree.Rooted) :
    ∃ t, Step quietMachine solvedRevising (.edit a) none t ∧
      t.root.case = (editedController a).workspace ∧
      t.state.engineeringPlan = (editedController a).engineeringPlan ∧
      t.state.simulation = none := by
  obtain ⟨hproposal, hsimulation⟩ := mutated_state_solvedRevising
  let t : Revising := {
    root := { solvedRevising.mutated.root with
      case := (editedController a).workspace
      named := hnamed
      rooted := hrooted }
    state := { solvedRevising.mutated.state with
      engineeringPlan := (editedController a).engineeringPlan
      caseSeal := (editedController a).caseSeal }
    controller := editedController a
    proposed := hproposal }
  have hbegins : (Action.edit a).Begins solvedRevising.agent :=
    show 0 < solvedRevising.agent.policy.maxToolActions by decide
  refine ⟨t, .performed hbegins mutated_solvedRevising ⟨⟨rfl, rfl, rfl⟩, ?_⟩, rfl, rfl, hsimulation⟩
  rw [on_mutated mutated_solvedRevising]
  rfl

/-- A write of the reserved directory. -/
def reservedWrite : CaseAction := .write "postprocessConfig/a".toList []

/-- A write of an input. -/
def controlWrite : CaseAction := .write "system/controlDict".toList "deltaT 2;".toList

/-- A write below `postprocessConfig/` is refused, and the results are gone. -/
theorem refused_write_withdraws :
    ∃ t, Run quietMachine (fun _ _ _ => True) solvedRevising false t ∧
      ¬ Intact solvedRevising t := by
  have hsame : (editedController reservedWrite).workspace = solvedRevising.metCase ∧
      (editedController reservedWrite).engineeringPlan = solvedRevising.state.engineeringPlan := by
    have hbody : (solvedRevising.controller.on solvedRevising.state
        solvedRevising.metCase).dispatchBody quietMachine .prepare reservedWrite =
          (solvedRevising.controller.on solvedRevising.state solvedRevising.metCase,
            .ok (reservedWrite.failed .postprocessReserved)) :=
      Controller.dispatchBody_of_refusal (fun h => (by cases h)) rfl
    unfold editedController Controller.edit Controller.dispatch
    rw [hbody]
    exact ⟨rfl, rfl⟩
  obtain ⟨t, hstep, hcase, hplan, hsimulation⟩ := exists_step_edit (a := reservedWrite)
    (by rw [hsame.1]; exact CaseWorkspace.named_of_keys (by decide +kernel))
    (by rw [hsame.1]; exact ⟨by decide +kernel, by decide +kernel⟩)
  refine ⟨t, .quiet .start trivial hstep ?_, fun h => ?_⟩
  · rintro (⟨l, hresult, hdiffers⟩ | hdiffers)
    · rw [hcase, hsame.1, fileAt_metCase _ hresult] at hdiffers
      exact hdiffers rfl
    · rw [hplan, hsame.2] at hdiffers
      exact hdiffers rfl
  · have hkept := congrArg Evidence.simulation h.evidence
    change t.state.simulation = some "converged".toList at hkept
    rw [hsimulation] at hkept
    cases hkept

theorem controlWrite_alters : (Action.edit controlWrite).Alters quietMachine
    (solvedRevising.controller.on solvedRevising.state solvedRevising.metCase) := by
  refine ⟨rfl, by decide +kernel, ?_, by decide +kernel, ⟨?_, ?_⟩, ?_⟩
  · rintro ⟨name, hname, houtput⟩
    have hinput : ∀ name ∈ (locate controlWrite.path).head?, isOutput name = false := by
      decide +kernel
    rw [hinput name hname] at houtput
    cases houtput
  · decide +kernel
  · decide +kernel
  · decide +kernel

/-- The edit of an input is sound: with it the results are withdrawn for a change. -/
theorem results_kept_edited :
    ∃ t, Run quietMachine (Sound quietMachine) solvedRevising true t ∧
      (true = true ∨ Intact solvedRevising t) := by
  obtain ⟨t, hstep, hcase, -, -⟩ := exists_step_edit (a := controlWrite)
    (CaseWorkspace.named_of_keys (by decide +kernel)) ⟨by decide +kernel, by decide +kernel⟩
  have hsound : Sound quietMachine solvedRevising (.edit controlWrite) none := fun _ _ =>
    ⟨fun _ => CaseWorkspace.verifySeal_of_records executionFileSeals_solvedRun rfl,
      controlWrite_alters⟩
  have hcommitted : Committed solvedRevising t := by
    refine .inl ⟨locate controlWrite.path, controlWrite_alters.2.2.1, ?_⟩
    rw [hcase]
    decide +kernel
  have hrun : Run quietMachine (Sound quietMachine) solvedRevising true t :=
    .commits .start hsound hstep hcommitted
  exact ⟨t, hrun, results_kept quietMachine solvedRevising t true hrun⟩

end Engineering
end OpenFoamAgent
