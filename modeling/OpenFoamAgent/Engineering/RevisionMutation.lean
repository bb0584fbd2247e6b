/-
# The mutation of a confirmed revision

`begin_confirmed_revision_mutation` and `restore_unmutated_revision_ready` of
`engineering/phases/lifecycle_controller.py`. When the archive of a revision raises, the proposal
stays pending and the case is put back to `REVISION_READY`, for a retry.

The retry computes the same archive id. `pendingRevision_retried_iff` says from which of the states
in which the archive may raise it succeeds: from those in which nothing stands under that id yet.
Behind the first directory of the archive every retry is refused.
-/
import OpenFoamAgent.Workflow.State
import OpenFoamAgent.Workspace.RevisionArchive

namespace OpenFoamAgent
namespace Engineering

open Python Schemas Workspace Workflow

/-! ### States -/

/-- `HumanFeedback`, the fields that are read here. -/
structure HumanFeedback where
  feedbackId : Text
  status : Text
  deriving DecidableEq

/-- `RevisionProposal`, the fields that are read here. -/
structure RevisionProposal where
  proposalId : Text
  feedbackIds : List Text
  baselinePlanSha256 : Sha256 EngineeringPlan
  baselineManifestSha256 : Sha256 (List CaseFileSeal)

/-- `CFDState`, the fields that the two functions read or change. -/
structure RevisionState where
  activeRevisionProposal : Option RevisionProposal := none
  revisionHistory : List Document := []
  pendingRevisionArchivePath : Option Text := none
  engineeringPlan : Option EngineeringPlan := none
  caseSeal : Option CaseSeal := none
  humanFeedback : List HumanFeedback := []
  revisionDecisionComplete : Bool := false
  revisionTargetCaseFiles : List Text := []
  pendingRevisionPlan : Option EngineeringPlan := none
  simulation : Option Document := none
  runtimeReport : Option Document := none
  simulationAttempts : ℕ := 0
  lastRuntimeLogExcerpt : Option Text := none
  postprocessingEvents : List Document := []
  forceCoefficientAnalysis : Option Document := none
  postprocessingReport : Option Document := none
  currentState : State := .engineering
  history : List HistoryEntry := []

/-- `f"{n:04d}"`, for a number without a sign. -/
def fourDigits (n : ℕ) : Text := (Nat.toDigits 10 n).leftpad 4 '0'

namespace RevisionState

variable (state : RevisionState)

/-- `f"rev-{len(state.revision_history) + 1:04d}"` -/
def revisionId : Text := "rev-".toList ++ fourDigits (state.revisionHistory.length + 1)

/-- Prior numerical evidence is dropped. -/
def dropEvidence : RevisionState :=
  { state with
    simulation := none
    runtimeReport := none
    simulationAttempts := 0
    lastRuntimeLogExcerpt := none
    postprocessingEvents := []
    forceCoefficientAnalysis := none
    postprocessingReport := none }

/-- `safety.verify_seal(state.engineering_plan, state.case_seal)`, where the state has both. -/
def verifyStoredSeal (w : CaseWorkspace) : Except SealError Unit :=
  match state.engineeringPlan, state.caseSeal with
  | some plan, some caseSeal => w.verifySeal caseSeal plan
  | _, _ => .ok ()

/-- The archive of the revision stands. -/
def archivedAt (path : Text) : RevisionState :=
  { state with pendingRevisionArchivePath := some path }

/-- `transition`. -/
def transition (newState : State) (note : Text) : RevisionState :=
  { state with
    history := state.history ++ [⟨state.currentState, newState, note⟩]
    currentState := newState }

end RevisionState

/-- What a mutation leaves behind, and how it ended. -/
structure Mutated where
  root : RunRoot
  state : RevisionState
  result : Except ArchiveError Unit

/-- `begin_confirmed_revision_mutation`. -/
def beginConfirmedRevisionMutation (r : RunRoot) (state : RevisionState) : Mutated :=
  match state.activeRevisionProposal, state.pendingRevisionArchivePath with
  | none, _ => ⟨r, state, .ok ()⟩
  | some _, some _ => ⟨r, state.dropEvidence, .ok ()⟩
  | some _, none =>
    let archive := r.archiveRevisionOutputs state.revisionId
    match archive.result with
    | .error e => ⟨archive.last r, state, .error e⟩
    | .ok path =>
      match (state.archivedAt path).verifyStoredSeal (archive.last r).case with
      | .error e => ⟨archive.last r, state.archivedAt path, .error (.sealing e)⟩
      | .ok () => ⟨archive.last r, (state.archivedAt path).dropEvidence, .ok ()⟩

/-- The loop over the feedback: what was in progress is proposed again. -/
def proposedAgain (proposal : RevisionProposal) (feedback : HumanFeedback) : HumanFeedback :=
  if feedback.feedbackId ∈ proposal.feedbackIds ∧ feedback.status = "revision_in_progress".toList then
    { feedback with status := "revision_proposed".toList }
  else feedback

/-- `restore_unmutated_revision_ready`. -/
def restoreUnmutatedRevisionReady (w : CaseWorkspace) (state : RevisionState)
    (proposal : RevisionProposal) : Except SealError RevisionState :=
  match state.pendingRevisionArchivePath, state.engineeringPlan, state.caseSeal with
  | none, some plan, some _ =>
    if plan.digest ≠ proposal.baselinePlanSha256 then .ok state
    else
      match w.manifestDigest with
      | .error e => .error e
      | .ok manifest =>
        if manifest ≠ proposal.baselineManifestSha256 then .ok state
        else
          .ok <| { state with
            humanFeedback := state.humanFeedback.map (proposedAgain proposal)
            revisionDecisionComplete := false
            revisionTargetCaseFiles := []
            pendingRevisionPlan := none }.transition .revisionReady
              ("Revision planning failed before case mutation; proposal ".toList ++
                proposal.proposalId ++ " remains pending and retryable.".toList)
  | _, _, _ => .ok state

/-! ### The id of the archive -/

/-- A pattern of `k` characters of a class. -/
theorem run_replicate_one (accepts : Char → Bool) (k : ℕ) (s : Cursor) :
    ((Pattern.all (.replicate k (.one accepts))).run s).any (·.ahead = []) =
      (s.ahead.length == k && s.ahead.all accepts) := by
  induction k generalizing s with
  | zero => rcases hs : s.ahead with _ | ⟨c, cs⟩ <;> simp [Pattern.all, Pattern.run, hs]
  | succ k ih =>
    have hall : Pattern.all (.replicate (k + 1) (.one accepts)) =
        .seq (.one accepts) (.all (.replicate k (.one accepts))) := rfl
    rw [hall, Pattern.run, Pattern.run]
    rcases hs : s.ahead with _ | ⟨c, cs⟩
    · rfl
    · dsimp only
      by_cases hc : accepts c
      · rw [if_pos hc, List.flatMap_singleton, ih]
        simp [hc]
      · rw [if_neg hc]
        simp [hc]

theorem length_fourDigits (n : ℕ) : (fourDigits n).length = max 4 (Nat.toDigits 10 n).length :=
  List.length_leftpad ..

/-- The id is of the expected form up to the revision 9999. -/
theorem safeRevisionId_iff (state : RevisionState) :
    safeRevisionId state.revisionId ↔ state.revisionHistory.length < 9999 := by
  have hdigits : (fourDigits (state.revisionHistory.length + 1)).all isAsciiDigit := by
    refine List.all_eq_true.2 fun c hc => ?_
    unfold fourDigits List.leftpad at hc
    rcases List.mem_append.1 hc with hc | hc
    · rw [(List.mem_replicate.1 hc).2]
      rfl
    · exact Nat.isDigit_of_mem_toDigits (by decide) le_rfl hc
  have hrun : (Pattern.exactly "rev-").run { ahead := state.revisionId } =
      [{ behind := some '-', ahead := fourDigits (state.revisionHistory.length + 1) }] := rfl
  unfold safeRevisionId Pattern.fullmatch
  rw [List.find?_isSome, ← List.any_eq_true, Pattern.run, hrun, List.flatMap_singleton,
    run_replicate_one]
  dsimp only
  rw [hdigits, Bool.and_true, beq_iff_eq, length_fourDigits, max_eq_left_iff,
    Nat.length_toDigits_le_iff (by decide) (by decide)]
  omega

/-! ### Retries -/

/-- Every file of the run stands at its place, or in the archive. -/
structure Preserved (revisionId : Text) (r s : RunRoot) : Prop where
  case : ∀ l b, r.case.tree.fileAt l = some b →
    s.case.tree.fileAt l = some b ∨
      s.history.fileAt (RunRoot.outputsPlace revisionId ++ l) = some b
  logs : ∀ l b, r.logs.fileAt l = some b →
    s.logs.fileAt l = some b ∨ s.history.fileAt (RunRoot.logsPlace revisionId ++ l) = some b
  history : ∀ l b, r.history.fileAt l = some b → s.history.fileAt l = some b

variable {r s : RunRoot} {state : RevisionState} {revisionId : Text}

theorem hasTop_of_mem_states (h : s ∈ (r.archiveRevisionOutputs revisionId).states) :
    s.history.hasTop revisionId := by
  have hstarted := ((r.archiveRevisionOutputs_crashes revisionId).interrupted s h).started
  refine List.any_eq_true.2 ⟨[revisionId], ?_, by simp⟩
  exact AList.mem_keys.1 (AList.lookup_isSome.1 (by rw [hstarted]; rfl))

/-- An archive that made its first step found no other of its id. -/
theorem hasTop_eq_false_of_mem_states (h : s ∈ (r.archiveRevisionOutputs revisionId).states) :
    r.history.hasTop revisionId = false := by
  unfold RunRoot.archiveRevisionOutputs at h
  split_ifs at h with _ hnew
  · cases h
  · cases h
  · exact Bool.not_eq_true _ ▸ hnew

theorem preserved_of_mem_states (h : s ∈ (r.archiveRevisionOutputs revisionId).states) :
    Preserved revisionId r s := by
  have hkept := ((r.archiveRevisionOutputs_crashes revisionId).interrupted s h).toKept
  have hnew := RunRoot.lookup_of_hasTop_eq_false (hasTop_eq_false_of_mem_states h)
  refine ⟨fun l b hb => hkept.outputs.fileAt hb, fun l b hb => hkept.logs.fileAt hb, ?_⟩
  intro l b hb
  have hhead : l.head? ≠ some revisionId := by
    intro hhead
    obtain ⟨rest, rfl⟩ := List.head?_eq_some_iff.1 hhead
    rw [FileTree.fileAt, hnew] at hb
    cases hb
  rw [FileTree.fileAt, hkept.earlier l hhead, ← FileTree.fileAt, hb]

/-- **A retry behind the first step is refused.** -/
theorem beginConfirmedRevisionMutation_of_mem_states
    (h : s ∈ (r.archiveRevisionOutputs state.revisionId).states)
    (hid : safeRevisionId state.revisionId) (hproposal : state.activeRevisionProposal.isSome)
    (hpending : state.pendingRevisionArchivePath = none) :
    (beginConfirmedRevisionMutation s state).result = .error (.alreadyExists state.revisionId) := by
  obtain ⟨proposal, hproposal⟩ := Option.isSome_iff_exists.1 hproposal
  have hrefused : s.archiveRevisionOutputs state.revisionId =
      .raised (.alreadyExists state.revisionId) := by
    unfold RunRoot.archiveRevisionOutputs
    rw [hid, hasTop_of_mem_states h]
    rfl
  unfold beginConfirmedRevisionMutation
  rw [hproposal, hpending]
  dsimp only
  rw [hrefused]
  rfl

/-- A seal verifies behind the archive exactly as it did in front of it. -/
theorem verifyStoredSeal_archived {path : Text}
    (h : (r.archiveRevisionOutputs revisionId).result = .ok path) (state : RevisionState) :
    state.verifyStoredSeal ((r.archiveRevisionOutputs revisionId).last r).case =
      state.verifyStoredSeal r.case := by
  unfold RevisionState.verifyStoredSeal
  split
  · exact (RunRoot.archiveRevisionOutputs_archived h).verifies _ _
  · rfl

/-- When a retry returns. -/
theorem beginConfirmedRevisionMutation_returns_iff
    (hproposal : state.activeRevisionProposal.isSome)
    (hpending : state.pendingRevisionArchivePath = none) :
    (beginConfirmedRevisionMutation s state).result = .ok () ↔
      state.revisionHistory.length < 9999 ∧ s.history.hasTop state.revisionId = false ∧
        (∃ files, s.case.executionFileSeals = .ok files) ∧
        state.verifyStoredSeal s.case = .ok () := by
  obtain ⟨proposal, hproposal⟩ := Option.isSome_iff_exists.1 hproposal
  have hreturns := RunRoot.archiveRevisionOutputs_returns_iff s state.revisionId
  rw [← safeRevisionId_iff, ← and_assoc, ← and_assoc, and_assoc (a := safeRevisionId _ = true),
    ← hreturns]
  unfold beginConfirmedRevisionMutation
  rw [hproposal, hpending]
  dsimp only
  rcases hresult : (s.archiveRevisionOutputs state.revisionId).result with e | path
  · exact iff_of_false nofun fun h => by simpa using h.1
  · have hsame : (state.archivedAt path).verifyStoredSeal
        ((s.archiveRevisionOutputs state.revisionId).last s).case =
        state.verifyStoredSeal s.case := verifyStoredSeal_archived hresult (state.archivedAt path)
    dsimp only
    rw [hsame]
    rcases state.verifyStoredSeal s.case with e | ⟨⟨⟩⟩
    · exact iff_of_false nofun fun h => nomatch h.2
    · exact iff_of_true rfl ⟨⟨path, rfl⟩, rfl⟩

/-- **A pending revision can be retried exactly while its archive has not been begun.** Nothing is
lost in any state in which the archive may raise. A retry from there returns exactly when no archive
of the id exists, the id has four digits, the inputs can be sealed, and the stored seal verifies.
The archive that returns holds the sealed inputs, and the case no earlier results. -/
theorem pendingRevision_retried_iff (r : RunRoot) (state : RevisionState)
    (hproposal : state.activeRevisionProposal.isSome)
    (hpending : state.pendingRevisionArchivePath = none) :
    (∀ s, s = r ∨ s ∈ (r.archiveRevisionOutputs state.revisionId).states →
      (Preserved state.revisionId r s ∧
          (beginConfirmedRevisionMutation s state).result = .ok () ↔
        state.revisionHistory.length < 9999 ∧ s.history.hasTop state.revisionId = false ∧
          (∃ files, s.case.executionFileSeals = .ok files) ∧
          state.verifyStoredSeal s.case = .ok ())) ∧
    ∀ path, (r.archiveRevisionOutputs state.revisionId).result = .ok path →
      RunRoot.Archived state.revisionId r
        ((r.archiveRevisionOutputs state.revisionId).last r) := by
  refine ⟨fun s hs => ?_, fun path hpath => RunRoot.archiveRevisionOutputs_archived hpath⟩
  have hpreserved : Preserved state.revisionId r s := by
    rcases hs with rfl | hs
    · exact ⟨fun _ _ => .inl, fun _ _ => .inl, fun _ _ => id⟩
    · exact preserved_of_mem_states hs
  rw [and_iff_right hpreserved]
  exact beginConfirmedRevisionMutation_returns_iff hproposal hpending

/-! ### A run -/

/-- A solved case with one input, one time directory and one log. -/
def solvedRun : RunRoot where
  case := {
    tree := (∅ : FileTree Text Bytes)
      |>.insert ["system".toList] .directory
      |>.insert ["system".toList, "controlDict".toList] (.file (encode "deltaT 1;".toList))
      |>.insert ["1".toList] .directory
      |>.insert ["1".toList, "p".toList] (.file (encode "0".toList))
    authoredPaths := .ofList ["system/controlDict".toList]
    assetPaths := .ofList [] }
  logs := (∅ : FileTree Text Bytes).insert ["solver.log".toList] (.file (encode "End".toList))
  history := ∅
  named := CaseWorkspace.named_of_keys (by decide +kernel)
  rooted := ⟨by decide +kernel, by decide +kernel⟩

/-- The record of its input. -/
def solvedSeals : List CaseFileSeal :=
  [⟨"system/controlDict".toList, ⟨encode "deltaT 1;".toList⟩, 9, .agent⟩]

def revisedPlan : EngineeringPlan := planRequiring ["system/controlDict"]

def confirmedProposal : RevisionProposal :=
  ⟨"rp-0001".toList, ["hf-0001".toList], revisedPlan.digest, sealManifestDigest solvedSeals⟩

/-- A state with a confirmed proposal for the case. -/
def revisedState : RevisionState where
  activeRevisionProposal := some confirmedProposal
  engineeringPlan := some revisedPlan
  caseSeal := some ⟨revisedPlan.digest, sealManifestDigest solvedSeals, solvedSeals⟩
  humanFeedback := [⟨"hf-0001".toList, "revision_in_progress".toList⟩]

theorem executionFileSeals_solvedRun :
    solvedRun.case.executionFileSeals = .ok solvedSeals := by decide +kernel

/-- The first call returns, when nothing interrupts it, and the archive is what it should be. -/
theorem pendingRevision_retried_iff_solved :
    (beginConfirmedRevisionMutation solvedRun revisedState).result = .ok () ∧
      ∃ path, (solvedRun.archiveRevisionOutputs revisedState.revisionId).result = .ok path ∧
        RunRoot.Archived revisedState.revisionId solvedRun
          ((solvedRun.archiveRevisionOutputs revisedState.revisionId).last solvedRun) := by
  obtain ⟨hretried, harchived⟩ := pendingRevision_retried_iff solvedRun revisedState rfl rfl
  obtain ⟨path, hpath⟩ := (RunRoot.archiveRevisionOutputs_returns_iff solvedRun revisedState.revisionId).2
    ⟨(safeRevisionId_iff _).2 (by decide), by decide, solvedSeals, executionFileSeals_solvedRun⟩
  refine ⟨((hretried solvedRun (.inl rfl)).2 ⟨by decide, by decide, ⟨solvedSeals, ?_⟩, ?_⟩).2,
    path, hpath, harchived path hpath⟩
  · exact executionFileSeals_solvedRun
  · exact CaseWorkspace.verifySeal_of_records executionFileSeals_solvedRun rfl

/-- Wherever the archive of this run raises behind its first step, the proposal is offered again,
and the retry is refused. -/
theorem retry_refused :
    (solvedRun.archiveRevisionOutputs revisedState.revisionId).states ≠ [] ∧
      ∀ s ∈ (solvedRun.archiveRevisionOutputs revisedState.revisionId).states,
        (∃ offered, restoreUnmutatedRevisionReady s.case revisedState confirmedProposal =
            .ok offered ∧ offered.currentState = .revisionReady) ∧
          (beginConfirmedRevisionMutation s revisedState).result =
            .error (.alreadyExists "rev-0001".toList) := by
  refine ⟨List.ne_nil_of_length_pos (by decide +kernel), fun s hs => ⟨?_, ?_⟩⟩
  · have hseals : s.case.executionFileSeals = .ok solvedSeals :=
      ((RunRoot.archiveRevisionOutputs_crashes _ _).interrupted s hs).seals.trans
        executionFileSeals_solvedRun
    have hmanifest : s.case.manifestDigest = .ok (sealManifestDigest solvedSeals) := by
      rw [CaseWorkspace.manifestDigest, hseals]
      rfl
    have hplan : ¬ revisedPlan.digest ≠ confirmedProposal.baselinePlanSha256 := not_not.2 rfl
    have hbaseline : ¬ sealManifestDigest solvedSeals ≠ confirmedProposal.baselineManifestSha256 :=
      not_not.2 rfl
    unfold restoreUnmutatedRevisionReady
    dsimp only [revisedState]
    rw [if_neg hplan, hmanifest]
    dsimp only
    rw [if_neg hbaseline]
    exact ⟨_, rfl, rfl⟩
  · exact beginConfirmedRevisionMutation_of_mem_states hs ((safeRevisionId_iff _).2 (by decide))
      rfl rfl

end Engineering
end OpenFoamAgent
