/-
# The archive of a revision

`CaseWorkspace.archive_revision_outputs` of `tools/workspace.py`: the sealed inputs of the case are
copied below `revision-history/rev-NNNN/`, and then the time directories, the post-processing
directories and the logs are moved there, one after the other. Nothing is rolled back.

The archive is computed as its steps, so that a state in which it may raise is one of the list.
`Archiving` holds in all of them: a file that stood in the case or among the logs stands there or
in the archive, and the inputs of the case are untouched. A copied file is written piece by piece.
-/
import OpenFoamAgent.Library.TreeSteps
import OpenFoamAgent.Python.Regex
import OpenFoamAgent.Workspace.Frames
import OpenFoamAgent.Workspace.SealVerification

namespace OpenFoamAgent
namespace Workspace

open Python Schemas FileTree

/-! ### The directories of a run -/

/-- `root`: the case, `logs/` and `revision-history/`. -/
structure RunRoot where
  case : CaseWorkspace
  logs : FileTree Text Bytes
  history : FileTree Text Bytes
  named : case.Named
  rooted : case.tree.Rooted

/-- The exceptions of the archive. -/
inductive ArchiveError where
  /-- `Unsafe revision archive id: {revision_id!r}` -/
  | unsafeId (revisionId : Text)
  /-- `Revision archive already exists: {revision_id}` -/
  | alreadyExists (revisionId : Text)
  | check (e : CheckError)
  | sealing (e : SealError)
  /-- `Revision baseline snapshot mismatch while copying sealed input: {path}` -/
  | snapshotMismatch (path : Text)
  | os (e : FsError)
  deriving DecidableEq

/-- `_TIME_DIR`. -/
def timeDir : Pattern :=
  .all [.atStart,
    .or (.seq (.plus .digit) (.optional (.seq (.exactly ".") (.star .digit))))
      (.seq (.exactly ".") (.plus .digit)),
    .optional (.all [.one fun c => c ∈ ['e', 'E'], .optional (.one fun c => c ∈ ['-', '+']),
      .plus .digit]),
    .atEnd]

/-- `_TIME_DIR.fullmatch(name)` -/
def isTimeDir (name : Text) : Bool := (timeDir.fullmatch name).isSome

/-- `re.fullmatch(r"rev-[0-9]{4}", revision_id)` -/
def safeRevisionId (revisionId : Text) : Bool :=
  ((Pattern.seq (.exactly "rev-")
    (.all (.replicate 4 (.one isAsciiDigit)))).fullmatch revisionId).isSome

/-- `item.name in {"postProcessing", "postprocessConfig"}` -/
def postprocessingTopLevel : List Text := ["postProcessing".toList, "postprocessConfig".toList]

/-- A directory of the case whose name says that it holds results. -/
def isOutput (name : Text) : Bool :=
  name != "0".toList && (isTimeDir name || name ∈ postprocessingTopLevel)

/-- The name of a node of the root. -/
def topName : Location → Option Text
  | [name] => some name
  | _ => none

/-- What is moved: a directory of the case, or an item of the logs. -/
inductive Candidate where
  | output (name : Text)
  | log (name : Text)
  deriving DecidableEq

namespace RunRoot

/-- The candidates, in the order in which the directories list their items. -/
def candidates (r : RunRoot) : List Candidate :=
  ((r.case.tree.keys.filterMap topName).filter fun name =>
      r.case.tree.isDirectory [name] && isOutput name).map .output ++
    ((r.logs.keys.filterMap topName).filter fun name => !r.logs.isLink [name]).map .log

variable (revisionId : Text)

/-- `archive_root / "baseline_inputs" / item.path` -/
def baselinePlace (l : Location) : Location := revisionId :: "baseline_inputs".toList :: l

/-- `archive_root / "case_outputs"` -/
def outputsPlace : Location := [revisionId, "case_outputs".toList]

/-- `archive_root / "logs"` -/
def logsPlace : Location := [revisionId, "logs".toList]

/-- `mkdir(exist_ok=True)` of directories of the history, from the outermost on. -/
def mkdir (ls : List Location) (r : RunRoot) : Steps RunRoot ArchiveError (FileTree Text Bytes) :=
  makeDirectorySteps (fun history => { r with history }) .os ls r.history

/-- `shutil.copy2(source, destination)`: what has been written grows up to the content. -/
def copySteps (destination : Location) (content : Bytes) (r : RunRoot) :
    Steps RunRoot ArchiveError (FileTree Text Bytes) :=
  if r.history.isDirectory destination then .raised (.os .isDirectory)
  else writeSteps (fun history => { r with history }) destination content r.history

/-- The comparison of a copied file with its record. -/
def checkCopy (item : CaseFileSeal) (destination : Location) (r : RunRoot) :
    Steps RunRoot ArchiveError Unit :=
  match r.history.fileAt destination with
  | none => .raised (.os .notFound)
  | some content =>
    if (⟨content⟩ : Digest) ≠ item.sha256 ∨ content.length ≠ item.sizeBytes then
      .raised (.snapshotMismatch item.path)
    else .returned ()

/-- The copy of one sealed input. -/
def copyInput (item : CaseFileSeal) (r : RunRoot) : Steps RunRoot ArchiveError Unit :=
  match r.case.resolveCasePath item.path true with
  | .error e => .raised (.check e)
  | .ok source =>
    let destination := baselinePlace revisionId (locate item.path)
    (mkdir (parents destination) r).andThen r fun r _ =>
      (copySteps destination ((r.case.tree.fileAt source).getD []) r).andThen r fun r _ =>
        checkCopy item destination r

/-- The loop over the sealed inputs. -/
def copyInputs : List CaseFileSeal → RunRoot → Steps RunRoot ArchiveError Unit
  | [], _ => .returned ()
  | item :: items, r =>
    (copyInput revisionId item r).andThen r fun r _ => copyInputs items r

/-- `shutil.move(source, destination)`: a new place of the archive. -/
def moved (r : RunRoot) : Candidate → RunRoot
  | .output name =>
    { r with
      case := { r.case with tree := r.case.tree.dropTop name }
      history := r.history.graft r.case.tree name (outputsPlace revisionId ++ [name])
      named := by
        intro l hl
        by_cases hhead : l.head? = some name
        · rw [isFile, fileAt, lookup_dropTop, if_pos hhead] at hl
          cases hl
        · rw [isFile, fileAt_dropTop _ hhead] at hl
          exact r.named l hl
      rooted := r.rooted.dropTop name }
  | .log name =>
    { r with
      logs := r.logs.dropTop name
      history := r.history.graft r.logs name (logsPlace revisionId ++ [name]) }

/-- The directory a candidate is moved to. -/
def Candidate.place : Candidate → Location
  | .output _ => outputsPlace revisionId
  | .log _ => logsPlace revisionId

/-- The loop over the candidates. -/
def moveCandidates : List Candidate → RunRoot → Steps RunRoot ArchiveError Unit
  | [], _ => .returned ()
  | c :: cs, r =>
    (mkdir [[revisionId], Candidate.place revisionId c] r).andThen r fun r _ =>
      (moveCandidates cs (r.moved revisionId c)).after (r.moved revisionId c)

/-- The part of `archive_revision_outputs` behind its two checks. The directory of the logs is never
moved, so making it again changes nothing. -/
def fillArchive (r : RunRoot) : Steps RunRoot ArchiveError Text :=
  (mkdir [[revisionId], baselinePlace revisionId []] r).andThen r fun r _ =>
    match r.case.executionFileSeals with
    | .error e => .raised (.sealing e)
    | .ok items =>
      (copyInputs revisionId items r).andThen r fun r _ =>
        (moveCandidates revisionId r.candidates r).andThen r fun _ _ =>
          .returned ("revision-history/".toList ++ revisionId)

/-- `archive_revision_outputs`. -/
def archiveRevisionOutputs (r : RunRoot) (revisionId : Text) : Steps RunRoot ArchiveError Text :=
  if !safeRevisionId revisionId then .raised (.unsafeId revisionId)
  else if r.history.hasTop revisionId then .raised (.alreadyExists revisionId)
  else fillArchive revisionId r

/-! ### What a step may do -/

variable {revisionId} {r₀ r s : RunRoot}

/-- Only the history has changed. -/
structure OnlyHistory (r s : RunRoot) : Prop where
  case : s.case = r.case
  logs : s.logs = r.logs

/-- Of the directories `ls` of the history, some were made. -/
structure Opened (ls : List Location) (r s : RunRoot) : Prop extends OnlyHistory r s where
  history : FileTree.Opened ls r.history s.history

theorem mkdir_opened (ls : List Location) (r : RunRoot) :
    (mkdir ls r).Crashes
      (fun s => Opened ls r s ∧ ∀ l, ls.head? = some l → s.history.lookup l = some .directory)
      (fun s _ => Opened ls r s ∧ ∀ l ∈ ls, s.history.lookup l = some .directory) r := by
  refine (makeDirectorySteps_opened (fun history => { r with history }) ArchiveError.os ls
    r.history).mono ?_ ?_
  · rintro s ⟨history, rfl, hopened, hhead⟩
    exact ⟨⟨⟨rfl, rfl⟩, hopened⟩, hhead⟩
  · rintro s history ⟨rfl, hopened, hall⟩
    exact ⟨⟨⟨rfl, rfl⟩, hopened⟩, hall⟩

/-- One file of the history was written, with a part of the content. -/
structure Written (destination : Location) (content : Bytes) (r s : RunRoot) : Prop
    extends OnlyHistory r s where
  file : ∃ written, written <+: content ∧ s.history.lookup destination = some (.file written)
  other : ∀ l, l ≠ destination → s.history.lookup l = r.history.lookup l

theorem copySteps_written (destination : Location) (content : Bytes) (r : RunRoot) :
    (copySteps destination content r).Crashes (Written destination content r)
      (fun s _ => Written destination content r s ∧
        s.history.lookup destination = some (.file content)) r := by
  have hwritten : ∀ written, written <+: content → Written destination content r
      { r with history := r.history.insert destination (.file written) } := fun written h =>
    ⟨⟨rfl, rfl⟩, ⟨written, h, AList.lookup_insert _⟩, fun l hl => AList.lookup_insert_ne hl⟩
  unfold copySteps
  split_ifs
  · exact .raised _
  · refine (writeSteps_written _ destination content r.history r).mono ?_ ?_
    · rintro s ⟨written, hbelow, rfl⟩
      exact hwritten written hbelow
    · rintro s t ⟨rfl, rfl⟩
      exact ⟨hwritten content (List.prefix_refl _), AList.lookup_insert _⟩

/-! ### What holds wherever the archive may raise -/

/-- The seals of a case do not depend on a directory that holds no input. -/
theorem executionFileSeals_dropTop (w : CaseWorkspace) {name : Text}
    (h : name ∉ executionInputTopLevel) :
    { w with tree := w.tree.dropTop name }.executionFileSeals = w.executionFileSeals := by
  have hhead : ∀ l, underExecutionInput l → l.head? ≠ some name := by
    rintro l hl heq
    obtain ⟨rest, rfl⟩ := List.head?_eq_some_iff.1 heq
    rcases rest with _ | ⟨b, rest⟩
    · cases hl
    · exact h (of_decide_eq_true hl)
  have hfile : ∀ l, underExecutionInput l → (w.tree.dropTop name).fileAt l = w.tree.fileAt l :=
    fun l hl => fileAt_dropTop _ (hhead l hl)
  have hlink : ∀ l, underExecutionInput l → (w.tree.dropTop name).isLink l = w.tree.isLink l :=
    fun l hl => by rw [isLink, lookup_dropTop, if_neg (hhead l hl), isLink]
  have hinputs : CaseWorkspace.executionInputs { w with tree := w.tree.dropTop name } =
      w.executionInputs := by
    unfold CaseWorkspace.executionInputs
    rw [keys_dropTop, List.filter_filter]
    congr 1
    refine List.filter_congr fun l _ => ?_
    by_cases hl : underExecutionInput l
    · simp [hl, hhead l hl, isFile, hfile l hl]
    · simp [hl]
  have hfind : ((w.tree.dropTop name).keys.find? fun l =>
        underExecutionInput l && (w.tree.dropTop name).isLink l) =
      w.tree.keys.find? fun l => underExecutionInput l && w.tree.isLink l := by
    rw [keys_dropTop, List.find?_filter]
    congr 1
    funext l
    by_cases hl : underExecutionInput l
    · simp [hl, hhead l hl, hlink l hl]
    · simp [hl]
  have hmap : ∀ l ∈ w.executionInputs,
      CaseWorkspace.sealFile { w with tree := w.tree.dropTop name } l = w.sealFile l := by
    intro l hl
    unfold CaseWorkspace.sealFile
    rw [hfile l (CaseWorkspace.mem_executionInputs.1 hl).1]
    rfl
  have hsizes : (w.executionInputs.map fun l => (((w.tree.dropTop name).fileAt l).getD []).length) =
      w.executionInputs.map fun l => ((w.tree.fileAt l).getD []).length :=
    List.map_congr_left fun l hl => by rw [hfile l (CaseWorkspace.mem_executionInputs.1 hl).1]
  unfold CaseWorkspace.executionFileSeals
  rw [hfind, hinputs]
  dsimp only
  rw [hsizes, Traversal.mapM_congr hmap]

/-- A directory that is moved holds no input. -/
theorem notMem_of_isOutput {name : Text} (h : isOutput name) : name ∉ executionInputTopLevel := by
  have hinputs : ∀ top ∈ executionInputTopLevel, isOutput top = false := by decide +kernel
  intro hmem
  rw [hinputs name hmem] at h
  cases h

/-- Nothing of the case, of its logs and of the earlier archives is lost, and its inputs are what
they were. -/
structure Kept (revisionId : Text) (r₀ r : RunRoot) : Prop where
  outputs : Relocated (outputsPlace revisionId) r₀.case.tree r.case.tree r.history
  logs : Relocated (logsPlace revisionId) r₀.logs r.logs r.history
  earlier : ∀ l, l.head? ≠ some revisionId → r.history.lookup l = r₀.history.lookup l
  seals : r.case.executionFileSeals = r₀.case.executionFileSeals

/-- The archive has been begun. -/
structure Archiving (revisionId : Text) (r₀ r : RunRoot) : Prop extends Kept revisionId r₀ r where
  started : r.history.lookup [revisionId] = some .directory

theorem Kept.refl (revisionId : Text) (r : RunRoot) : Kept revisionId r r :=
  ⟨.refl _ _ _, .refl _ _ _, fun _ _ => rfl, rfl⟩

/-- A step in the history that takes nothing of the moved files away. -/
theorem Kept.onlyHistory (h : Kept revisionId r₀ r) (hs : OnlyHistory r s)
    (hplaces : ∀ place ∈ [outputsPlace revisionId, logsPlace revisionId], ∀ l n,
      r.history.lookup (place ++ l) = some n → s.history.lookup (place ++ l) = some n)
    (hearlier : ∀ l, l.head? ≠ some revisionId → s.history.lookup l = r.history.lookup l) :
    Kept revisionId r₀ s where
  outputs := by
    rw [hs.case]
    exact h.outputs.mono (hplaces _ List.mem_cons_self)
  logs := by
    rw [hs.logs]
    exact h.logs.mono (hplaces _ (List.mem_cons_of_mem _ List.mem_cons_self))
  earlier l hl := (hearlier l hl).trans (h.earlier l hl)
  seals := by rw [hs.case, h.seals]

theorem Kept.opened (h : Kept revisionId r₀ r) {ls : List Location} (hs : Opened ls r s)
    (hls : ∀ l ∈ ls, l.head? = some revisionId) : Kept revisionId r₀ s :=
  h.onlyHistory hs.toOnlyHistory (fun _ _ _ _ hn => hs.history.lookup hn) fun l hl =>
    hs.history.of_notMem fun hmem => hl (hls l hmem)

theorem Archiving.written (h : Archiving revisionId r₀ r) {l : Location} {content : Bytes}
    (hs : Written (baselinePlace revisionId l) content r s) : Archiving revisionId r₀ s := by
  refine ⟨h.toKept.onlyHistory hs.toOnlyHistory ?_ fun k hk => hs.other k ?_, ?_⟩
  · intro place hplace k n hn
    rw [hs.other _ ?_]
    · exact hn
    · rintro heq
      simp only [List.mem_cons, List.not_mem_nil, or_false] at hplace
      rcases hplace with rfl | rfl
      · simp [baselinePlace, outputsPlace] at heq
      · simp [baselinePlace, logsPlace] at heq
  · rintro rfl
    exact hk rfl
  · rw [hs.other _ (by simp [baselinePlace])]
    exact h.started

theorem head_parents {l k : Location} (h : k ∈ parents (revisionId :: l)) :
    k.head? = some revisionId := by
  unfold parents at h
  rcases l with _ | ⟨a, l⟩
  · cases h
  · rw [List.dropLast_cons_cons, List.inits_cons, List.tail_cons] at h
    obtain ⟨rest, -, rfl⟩ := List.mem_map.1 h
    rfl

/-- Directories of the archive are made. -/
theorem Kept.mkdir (h : Kept revisionId r₀ r) {ls : List Location}
    (hls : ∀ l ∈ [revisionId] :: ls, l.head? = some revisionId) :
    (mkdir ([revisionId] :: ls) r).Crashes (Archiving revisionId r₀)
      (fun s _ => Archiving revisionId r₀ s) r :=
  (mkdir_opened _ r).mono (fun _ hs => ⟨h.opened hs.1 hls, hs.2 _ rfl⟩)
    fun _ _ hs => ⟨h.opened hs.1 hls, hs.2 _ List.mem_cons_self⟩

theorem Archiving.copyInput (h : Archiving revisionId r₀ r) (item : CaseFileSeal) :
    (copyInput revisionId item r).Crashes (Archiving revisionId r₀)
      (fun s _ => Archiving revisionId r₀ s) r := by
  unfold RunRoot.copyInput
  split
  · exact .raised _
  · have hparents : parents (baselinePlace revisionId (locate item.path)) =
        [revisionId] :: (parents (baselinePlace revisionId (locate item.path))).tail := by
      unfold parents baselinePlace
      rcases locate item.path with _ | ⟨a, l⟩
      · rfl
      · rfl
    have hheads : ∀ l ∈ [revisionId] ::
        (parents (baselinePlace revisionId (locate item.path))).tail,
        l.head? = some revisionId := fun l hl => head_parents (hparents.symm ▸ hl)
    dsimp only
    rw [hparents]
    refine (h.toKept.mkdir hheads).andThen fun s _ hs => ?_
    refine Steps.Crashes.andThen ((copySteps_written _ _ s).mono (fun _ h' => hs.written h')
      fun _ _ h' => hs.written h'.1) fun s _ hs => ?_
    unfold checkCopy
    split
    · exact .raised _
    · split_ifs
      · exact .raised _
      · exact .returned hs

theorem Archiving.copyInputs (h : Archiving revisionId r₀ r) (items : List CaseFileSeal) :
    (copyInputs revisionId items r).Crashes (Archiving revisionId r₀)
      (fun s _ => Archiving revisionId r₀ s) r := by
  induction items generalizing r with
  | nil => exact .returned h
  | cons item items ih => exact (h.copyInput item).andThen fun s _ hs => ih hs

theorem Archiving.moved (h : Archiving revisionId r₀ r) {c : Candidate}
    (hc : ∀ name, c = .output name → isOutput name) :
    Archiving revisionId r₀ (r.moved revisionId c) := by
  -- a graft at a place of the archive touches nothing outside of it
  have hother : ∀ (t : FileTree Text Bytes) (name : Text) (place l : Location),
      ¬ place <+: l → (r.history.graft t name (place ++ [name])).lookup l = r.history.lookup l :=
    fun t name place l hl => lookup_graft_of_not_prefix _ _ _ fun hbelow =>
      hl ((List.prefix_append _ _).trans hbelow)
  have hearlier : ∀ {place l : Location}, place.head? = some revisionId →
      l.head? ≠ some revisionId → ¬ place <+: l := by
    rintro place l hplace hl ⟨rest, rfl⟩
    rcases place with _ | ⟨a, place⟩
    · cases hplace
    · exact hl hplace
  cases c with
  | output name =>
    refine ⟨⟨h.outputs.move name, ?_, fun l hl => ?_, ?_⟩, ?_⟩
    · refine h.logs.mono fun l n hn => ?_
      exact (hother _ _ _ _ (by simp [outputsPlace, logsPlace])).trans hn
    · exact (hother _ _ _ _ (hearlier rfl hl)).trans (h.earlier l hl)
    · exact (executionFileSeals_dropTop _ (notMem_of_isOutput (hc name rfl))).trans h.seals
    · exact (hother _ _ _ _ (by simp [outputsPlace])).trans h.started
  | log name =>
    refine ⟨⟨?_, h.logs.move name, fun l hl => ?_, h.seals⟩, ?_⟩
    · refine h.outputs.mono fun l n hn => ?_
      exact (hother _ _ _ _ (by simp [outputsPlace, logsPlace])).trans hn
    · exact (hother _ _ _ _ (hearlier rfl hl)).trans (h.earlier l hl)
    · exact (hother _ _ _ _ (by simp [logsPlace])).trans h.started

theorem Archiving.moveCandidates (h : Archiving revisionId r₀ r) {cs : List Candidate}
    (hcs : ∀ name, .output name ∈ cs → isOutput name) :
    (moveCandidates revisionId cs r).Crashes (Archiving revisionId r₀)
      (fun s _ => Archiving revisionId r₀ s) r := by
  induction cs generalizing r with
  | nil => exact .returned h
  | cons c cs ih =>
    refine Steps.Crashes.andThen (h.toKept.mkdir fun l hl => ?_) fun s _ hs => ?_
    · rcases List.mem_cons.1 hl with rfl | hl
      · rfl
      · obtain rfl := List.mem_singleton.1 hl
        cases c <;> rfl
    · have hmoved := hs.moved fun name heq => hcs name (heq ▸ List.mem_cons_self)
      exact .after hmoved (ih hmoved fun name hmem => hcs name (List.mem_cons_of_mem _ hmem))

theorem isOutput_of_mem_candidates {name : Text} (h : .output name ∈ r.candidates) :
    isOutput name := by
  rcases List.mem_append.1 h with h | h
  · obtain ⟨name', hmem, heq⟩ := List.mem_map.1 h
    cases heq
    exact (Bool.and_eq_true_iff.1 (List.mem_filter.1 hmem).2).2
  · obtain ⟨_, -, ⟨⟩⟩ := List.mem_map.1 h

/-- **Nothing is lost wherever the archive may raise.** -/
theorem archiveRevisionOutputs_crashes (r : RunRoot) (revisionId : Text) :
    (archiveRevisionOutputs r revisionId).Crashes (Archiving revisionId r)
      (fun s _ => Archiving revisionId r s) r := by
  unfold archiveRevisionOutputs
  split_ifs
  · exact .raised _
  · exact .raised _
  · refine Steps.Crashes.andThen ((Kept.refl revisionId r).mkdir ?_) fun s _ hs => ?_
    · intro l hl
      rcases List.mem_cons.1 hl with rfl | hl
      · rfl
      · rw [List.mem_singleton.1 hl]
        rfl
    · split
      · exact .raised _
      · refine (hs.copyInputs _).andThen fun s _ hs => ?_
        refine Steps.Crashes.andThen (hs.moveCandidates fun _ => isOutput_of_mem_candidates)
          fun s _ hs => ?_
        exact .returned hs

/-! ### What the archive holds when it returns -/

/-- What stands in the archive while the inputs are copied: a directory where the case has one, and
a file where the case has an input. -/
def Mirrors (w : CaseWorkspace) (l : Location) (n : Node Text Bytes) : Prop :=
  (l = [] ∧ n = .directory) ∨ ∃ l', l = "baseline_inputs".toList :: l' ∧
    (n = .directory ∧ w.tree.isDirectory l' ∨
      ∃ b, n = .file b ∧ underExecutionInput l' ∧ w.tree.isFile l')

/-- The state between two copies. -/
structure Copying (revisionId : Text) (r₀ r : RunRoot) : Prop extends OnlyHistory r₀ r where
  mirrors : ∀ l n, r.history.lookup (revisionId :: l) = some n → Mirrors r₀.case l n

/-- The copy of the file at `l` is in the archive. -/
def HasCopy (revisionId : Text) (r₀ r : RunRoot) (l : Location) : Prop :=
  r.history.fileAt (baselinePlace revisionId l) = r₀.case.tree.fileAt l

theorem OnlyHistory.trans {u : RunRoot} (h : OnlyHistory r s) (h' : OnlyHistory s u) :
    OnlyHistory r u := ⟨h'.case.trans h.case, h'.logs.trans h.logs⟩

theorem Copying.opened (h : Copying revisionId r₀ r) {ls : List Location} (hs : Opened ls r s)
    (hls : ∀ l, revisionId :: l ∈ ls → Mirrors r₀.case l .directory) :
    Copying revisionId r₀ s where
  toOnlyHistory := h.toOnlyHistory.trans hs.toOnlyHistory
  mirrors l n hn := by
    rcases hs.history (revisionId :: l) with heq | ⟨hmem, -, hdir⟩
    · exact h.mirrors l n (heq ▸ hn)
    · rw [hdir] at hn
      cases hn
      exact hls l hmem

/-- The directories above a file of the case are directories of the case. -/
theorem mirrors_parents (w : CaseWorkspace) (hw : w.tree.Rooted) {l k : Location} {b : Bytes}
    (hb : w.tree.fileAt l = some b) (hk : revisionId :: k ∈ parents (baselinePlace revisionId l)) :
    Mirrors w k .directory := by
  have hl : l ≠ [] := by
    rintro rfl
    exact hw.root (Rooted.mem_keys_of_fileAt hb)
  obtain ⟨l', name, rfl⟩ := List.eq_nil_or_concat l |>.resolve_left hl
  unfold parents baselinePlace at hk
  have hdrop : (revisionId :: "baseline_inputs".toList :: (l' ++ [name])).dropLast =
      revisionId :: "baseline_inputs".toList :: l' := by
    rw [← List.cons_append, ← List.cons_append, List.dropLast_concat]
  rw [List.concat_eq_append, hdrop, List.inits_cons, List.tail_cons] at hk
  obtain ⟨k', hk', heq⟩ := List.mem_map.1 hk
  obtain rfl := (List.cons.inj heq).2
  rcases k' with _ | ⟨a, k⟩
  · exact .inl ⟨rfl, rfl⟩
  · obtain ⟨rfl, hbelow⟩ := List.cons_prefix_cons.1 ((List.mem_inits _ _).1 hk')
    refine .inr ⟨k, rfl, .inl ⟨rfl, ?_⟩⟩
    rw [List.concat_eq_append] at hb
    refine hw.isDirectory_of_prefix (Rooted.mem_keys_of_fileAt hb)
      (hbelow.trans (List.prefix_append _ _)) ?_
    rintro rfl
    have hlength := hbelow.length_le
    simp at hlength

theorem mkdir_completes {ls : List Location} (hnodup : ls.Nodup)
    (h : ∀ l ∈ ls, ∀ n, r.history.lookup l = some n → n = .directory) :
    (mkdir ls r).Completes
      (fun s _ => Opened ls r s ∧ ∀ l ∈ ls, s.history.lookup l = some .directory) r := by
  obtain ⟨history, hresult⟩ := (makeDirectorySteps_returns_iff _ _ ls hnodup r.history).2 h
  exact ⟨history, hresult, (mkdir_opened ls r).returns history hresult⟩

/-- A directory of the archive that the copies may need is no file. -/
theorem Copying.directory (h : Copying revisionId r₀ r) {l : Location} {n : Node Text Bytes}
    (hl : Mirrors r₀.case l .directory) (hn : r.history.lookup (revisionId :: l) = some n) :
    n = .directory := by
  rcases h.mirrors l n hn with ⟨-, hdir⟩ | ⟨l', rfl, ⟨hdir, -⟩ | ⟨b, rfl, hin, hfile⟩⟩
  · exact hdir
  · exact hdir
  · rcases hl with ⟨hnil, -⟩ | ⟨k, heq, ⟨-, hdir⟩ | ⟨_, ⟨⟩, -⟩⟩
    · cases hnil
    · obtain rfl := (List.cons.inj heq).2
      have hne := CaseWorkspace.ne_nil_of_underExecutionInput hin
      rw [Rooted.isDirectory_eq_lookup hne] at hdir
      rw [isFile, fileAt, hdir] at hfile
      cases hfile

/-- A sealed file is found again under the path of its record. -/
theorem resolveCasePath_of_mem {files : List CaseFileSeal} (w : CaseWorkspace) (hw : w.Named)
    (hrooted : w.tree.Rooted) (h : w.executionFileSeals = .ok files) {item : CaseFileSeal}
    (hitem : item ∈ files) :
    ∃ b, w.resolveCasePath item.path true = .ok (locate item.path) ∧
      underExecutionInput (locate item.path) ∧ w.tree.fileAt (locate item.path) = some b ∧
      item.sha256 = ⟨b⟩ ∧ item.sizeBytes = b.length := by
  obtain ⟨l, hl, hseal⟩ :=
    Traversal.ok_of_mem_mapM (CaseWorkspace.executionFileSeals_eq_ok h) hitem
  obtain ⟨hin, hfile⟩ := CaseWorkspace.mem_executionInputs.1 hl
  obtain ⟨b, hb⟩ := Option.isSome_iff_exists.1 hfile
  have hrecord := CaseWorkspace.sealFile_eq_recordAt hseal
  rw [hb, Option.getD_some] at hrecord
  have hplace : locate (asPosix l) = l :=
    locate_asPosix (CaseWorkspace.ne_nil_of_underExecutionInput hin) (hw l hfile)
  have hpath : item.path = asPosix l := by rw [hrecord]; rfl
  have hrelative : ∃ relative, validateRelative (asPosix l) = .ok relative := by
    unfold CaseWorkspace.sealFile at hseal
    split at hseal
    · cases hseal
    · rename_i relative hrelative
      exact ⟨relative, hrelative⟩
  obtain ⟨relative, hrelative⟩ := hrelative
  obtain rfl : relative = l := (validateRelative_eq_ok hrelative).1.trans hplace
  rw [hpath, hplace]
  refine ⟨b, ?_, hin, hb, by rw [hrecord]; rfl, by rw [hrecord]; rfl⟩
  unfold CaseWorkspace.resolveCasePath
  rw [hrelative]
  dsimp only
  rw [if_neg (hrooted.not_linkOnPath hb), if_neg (by simp [hfile])]

/-- The place of a copy is no directory. -/
theorem Copying.not_isDirectory (h : Copying revisionId r₀ r) {l : Location} {b : Bytes}
    (hin : underExecutionInput l) (hb : r₀.case.tree.fileAt l = some b) :
    ¬ r.history.isDirectory (baselinePlace revisionId l) := by
  rw [baselinePlace, Rooted.isDirectory_eq_lookup (List.cons_ne_nil _ _)]
  intro hdir
  rcases h.mirrors _ _ hdir with ⟨hnil, -⟩ | ⟨l', heq, ⟨-, hdir'⟩ | ⟨_, ⟨⟩, -⟩⟩
  · cases hnil
  · obtain rfl := (List.cons.inj heq).2
    rw [Rooted.isDirectory_eq_lookup (CaseWorkspace.ne_nil_of_underExecutionInput hin)] at hdir'
    rw [fileAt, hdir'] at hb
    cases hb

theorem copySteps_completes {destination : Location} (content : Bytes)
    (h : ¬ r.history.isDirectory destination) :
    (copySteps destination content r).Completes (fun s _ => Written destination content r s ∧
      s.history.lookup destination = some (.file content)) r := by
  have hresult : (copySteps destination content r).result =
      .ok (r.history.insert destination (.file content)) := by
    unfold copySteps
    rw [if_neg h]
    rfl
  exact ⟨_, hresult, (copySteps_written _ _ _).returns _ hresult⟩

theorem copyInput_completes {files : List CaseFileSeal}
    (h : r₀.case.executionFileSeals = .ok files) (hr : Copying revisionId r₀ r)
    {item : CaseFileSeal} (hitem : item ∈ files) :
    (copyInput revisionId item r).Completes
      (fun s _ => Copying revisionId r₀ s ∧ HasCopy revisionId r₀ s (locate item.path) ∧
        ∀ l, HasCopy revisionId r₀ r l → HasCopy revisionId r₀ s l) r := by
  obtain ⟨b, hresolve, hin, hb, hdigest, hsize⟩ :=
    resolveCasePath_of_mem r₀.case r₀.named r₀.rooted h hitem
  have hparents : ∀ k, revisionId :: k ∈ parents (baselinePlace revisionId (locate item.path)) →
      Mirrors r₀.case k .directory := fun _ => mirrors_parents _ r₀.rooted hb
  have hfile : r₀.case.tree.isFile (locate item.path) := by rw [isFile, hb]; rfl
  unfold copyInput
  rw [hr.case, hresolve]
  refine Steps.Completes.andThen (mkdir_completes (nodup_parents _) fun l hl n hn => ?_)
    fun s _ hs => ?_
  · obtain ⟨k, rfl⟩ := List.head?_eq_some_iff.1 (head_parents hl)
    exact hr.directory (hparents k hl) hn
  have hcopying := hr.opened hs.1 hparents
  have hcontent : (s.case.tree.fileAt (locate item.path)).getD [] = b := by
    rw [hcopying.case, hb, Option.getD_some]
  rw [hcontent]
  refine (copySteps_completes b (hcopying.not_isDirectory hin hb)).andThen fun u _ hu => ?_
  have hcopy : u.history.fileAt (baselinePlace revisionId (locate item.path)) = some b := by
    rw [fileAt, hu.2]
  unfold checkCopy
  rw [hcopy]
  dsimp only
  rw [if_neg (by simp [hdigest, hsize])]
  refine .returned ⟨⟨hcopying.toOnlyHistory.trans hu.1.toOnlyHistory, fun l n hn => ?_⟩,
    hcopy.trans hb.symm, fun l hl => ?_⟩
  · by_cases heq : revisionId :: l = baselinePlace revisionId (locate item.path)
    · rw [heq, hu.2] at hn
      cases hn
      exact .inr ⟨_, (List.cons.inj heq).2, .inr ⟨b, rfl, hin, hfile⟩⟩
    · rw [hu.1.other _ heq] at hn
      exact hcopying.mirrors l n hn
  · by_cases heq : l = locate item.path
    · rw [heq]
      exact hcopy.trans hb.symm
    · have hne : baselinePlace revisionId l ≠ baselinePlace revisionId (locate item.path) :=
        fun heq' => heq (List.cons.inj (List.cons.inj heq').2).2
      unfold HasCopy at hl ⊢
      rw [fileAt, hu.1.other _ hne]
      rcases hs.1.history (baselinePlace revisionId l) with hsame | ⟨-, hnone, hdir⟩
      · rw [hsame]
        exact hl
      · rw [hdir]
        rw [fileAt, hnone] at hl
        exact hl

theorem copyInputs_completes {files items : List CaseFileSeal}
    (h : r₀.case.executionFileSeals = .ok files) (hr : Copying revisionId r₀ r)
    (hitems : ∀ item ∈ items, item ∈ files) :
    (copyInputs revisionId items r).Completes
      (fun s _ => Copying revisionId r₀ s ∧
        (∀ item ∈ items, HasCopy revisionId r₀ s (locate item.path)) ∧
        ∀ l, HasCopy revisionId r₀ r l → HasCopy revisionId r₀ s l) r := by
  induction items generalizing r with
  | nil => exact .returned ⟨hr, nofun, fun _ hl => hl⟩
  | cons item items ih =>
    obtain ⟨hitem, hitems⟩ := List.forall_mem_cons.1 hitems
    refine (copyInput_completes h hr hitem).andThen fun s _ hs => ?_
    refine (ih hs.1 hitems).mono fun u _ hu => ⟨hu.1, ?_, fun l hl => hu.2.2 l (hs.2.2 l hl)⟩
    rintro other hother
    rcases List.mem_cons.1 hother with rfl | hother
    · exact hu.2.2 _ hs.2.1
    · exact hu.2.1 other hother

/-- The directories that candidates are moved to are no files. -/
def ReadyToMove (revisionId : Text) (r : RunRoot) : Prop :=
  ∀ l ∈ [[revisionId], outputsPlace revisionId, logsPlace revisionId],
    ∀ n, r.history.lookup l = some n → n = .directory

theorem place_mem (revisionId : Text) (c : Candidate) :
    Candidate.place revisionId c ∈ [[revisionId], outputsPlace revisionId, logsPlace revisionId] :=
  by cases c <;> simp [Candidate.place]

/-- What a move leaves as it was. -/
theorem lookup_moved (r : RunRoot) {c : Candidate} {l : Location}
    (hl : ∀ name, ¬ Candidate.place revisionId c ++ [name] <+: l) :
    (r.moved revisionId c).history.lookup l = r.history.lookup l := by
  cases c with
  | output name => exact lookup_graft_of_not_prefix _ _ _ (hl name)
  | log name => exact lookup_graft_of_not_prefix _ _ _ (hl name)

theorem moveCandidates_completes (cs : List Candidate) (hr : ReadyToMove revisionId r) :
    (moveCandidates revisionId cs r).Completes
      (fun s _ =>
        (∀ l, s.history.lookup (baselinePlace revisionId l) =
          r.history.lookup (baselinePlace revisionId l)) ∧
        (∀ l, r.case.tree.lookup l = none → s.case.tree.lookup l = none) ∧
        ∀ name, .output name ∈ cs → s.case.tree.lookup [name] = none) r := by
  induction cs generalizing r with
  | nil => exact .returned ⟨fun _ => rfl, fun _ hl => hl, nofun⟩
  | cons c cs ih =>
    have hopen : ∀ l ∈ [[revisionId], Candidate.place revisionId c], ∀ n,
        r.history.lookup l = some n → n = .directory := by
      refine List.forall_mem_cons.2 ⟨hr _ List.mem_cons_self, List.forall_mem_cons.2 ⟨?_, nofun⟩⟩
      exact hr _ (place_mem revisionId c)
    have hnodup : [[revisionId], Candidate.place revisionId c].Nodup := by
      cases c <;> simp [Candidate.place, outputsPlace, logsPlace]
    refine (mkdir_completes hnodup hopen).andThen fun s _ hs => .after ?_
    have hready : ReadyToMove revisionId (s.moved revisionId c) := by
      intro l hl n hn
      rw [lookup_moved s] at hn
      · rcases hs.1.history l with heq | ⟨-, -, hdir⟩
        · exact hr l hl n (heq ▸ hn)
        · exact (Option.some.inj (hdir.symm.trans hn)).symm
      · rintro name hbelow
        have hlength := hbelow.length_le
        have hplace : (Candidate.place revisionId c).length = 2 := by cases c <;> rfl
        rw [List.length_append, hplace] at hlength
        have hshort : ∀ l ∈ [[revisionId], outputsPlace revisionId, logsPlace revisionId],
            l.length < 3 := by
          simp [outputsPlace, logsPlace]
        exact absurd (hshort l hl) (not_lt.2 hlength)
    have hgone : ∀ l, r.case.tree.lookup l = none →
        (s.moved revisionId c).case.tree.lookup l = none := by
      intro l hl
      rw [← hs.1.case] at hl
      cases c with
      | output name =>
        refine (lookup_dropTop _ _ _).trans ?_
        rw [hl, ite_self]
      | log name => exact hl
    refine (ih hready).mono fun u _ hu =>
      ⟨fun l => ?_, fun l hl => hu.2.1 l (hgone l hl), fun name hname => ?_⟩
    · rw [hu.1, lookup_moved s, hs.1.history.of_notMem]
      · cases c <;> simp [baselinePlace, Candidate.place, outputsPlace, logsPlace]
      · cases c <;> simp [baselinePlace, Candidate.place, outputsPlace, logsPlace]
    · rcases List.mem_cons.1 hname with rfl | hname
      · exact hu.2.1 _ ((lookup_dropTop _ _ _).trans (if_pos rfl))
      · exact hu.2.2 name hname

/-- The archive is complete, and the case holds no earlier results. -/
structure Archived (revisionId : Text) (r₀ r : RunRoot) : Prop where
  baseline : ∀ l b, r.history.fileAt (baselinePlace revisionId l) = some b ↔
    underExecutionInput l ∧ r₀.case.tree.fileAt l = some b
  outputs : ∀ name, r.case.tree.isDirectory [name] → isOutput name = false
  verifies : ∀ caseSeal plan,
    r.case.verifySeal caseSeal plan = r₀.case.verifySeal caseSeal plan

theorem candidates_of_onlyHistory (h : OnlyHistory r s) : s.candidates = r.candidates := by
  unfold candidates
  rw [h.case, h.logs]

theorem lookup_of_hasTop_eq_false {t : FileTree Text Bytes} (h : t.hasTop revisionId = false)
    (l : Location) : t.lookup (revisionId :: l) = none := by
  rw [AList.lookup_eq_none]
  intro hmem
  have htop : t.hasTop revisionId := List.any_eq_true.2 ⟨_, AList.mem_keys.1 hmem, by simp⟩
  rw [h] at htop
  cases htop

/-- The first two directories of a new archive. -/
theorem mkdir_new (hnew : r.history.hasTop revisionId = false) :
    (mkdir [[revisionId], baselinePlace revisionId []] r).Completes
      (fun s _ => Copying revisionId r s) r := by
  have hnone := lookup_of_hasTop_eq_false hnew
  refine (mkdir_completes (by simp [baselinePlace]) fun l hl n hn => ?_).mono fun s _ hs => ?_
  · rcases List.mem_cons.1 hl with rfl | hl
    · exact absurd (hn.symm.trans (hnone [])) nofun
    · obtain rfl := List.mem_singleton.1 hl
      exact absurd (hn.symm.trans (hnone _)) nofun
  · have hcopying : Copying revisionId r r :=
      ⟨⟨rfl, rfl⟩, fun l n hn => absurd (hn.symm.trans (hnone l)) nofun⟩
    refine hcopying.opened hs.1 fun l hl => ?_
    rcases List.mem_cons.1 hl with heq | hl
    · exact .inl ⟨(List.cons.inj heq).2, rfl⟩
    · exact .inr ⟨[], (List.cons.inj (List.mem_singleton.1 hl)).2, .inl ⟨rfl, rfl⟩⟩

theorem Copying.readyToMove (h : Copying revisionId r₀ r) : ReadyToMove revisionId r := by
  have hnone : ∀ name, name ≠ "baseline_inputs".toList →
      ∀ n, r.history.lookup [revisionId, name] = some n → n = .directory := by
    intro name hname n hn
    rcases h.mirrors _ _ hn with ⟨hnil, -⟩ | ⟨l', heq, -⟩
    · cases hnil
    · exact absurd (List.cons.inj heq).1 hname
  refine List.forall_mem_cons.2 ⟨fun n hn => ?_, List.forall_mem_cons.2
    ⟨hnone _ (by decide), List.forall_mem_cons.2 ⟨hnone _ (by decide), nofun⟩⟩⟩
  rcases h.mirrors _ _ hn with ⟨-, hdir⟩ | ⟨l', heq, -⟩
  · exact hdir
  · cases heq

/-- When every input has its copy, the archive holds the inputs and nothing else. -/
theorem Copying.baseline {files : List CaseFileSeal}
    (h : r₀.case.executionFileSeals = .ok files) (hr : Copying revisionId r₀ r)
    (hcopies : ∀ item ∈ files, HasCopy revisionId r₀ r (locate item.path)) (l : Location)
    (b : Bytes) : r.history.fileAt (baselinePlace revisionId l) = some b ↔
      underExecutionInput l ∧ r₀.case.tree.fileAt l = some b := by
  have hcopy : ∀ l b, underExecutionInput l → r₀.case.tree.fileAt l = some b →
      HasCopy revisionId r₀ r l := by
    intro l b hin hb
    obtain ⟨item, hitem, hpath, -⟩ := CaseWorkspace.exists_mem_executionFileSeals h hin hb
    have hplace : locate item.path = l := by
      rw [hpath]
      exact locate_asPosix (CaseWorkspace.ne_nil_of_underExecutionInput hin)
        (r₀.named l (by rw [isFile, hb]; rfl))
    exact hplace ▸ hcopies item hitem
  constructor
  · intro hb
    have hnode : r.history.lookup (baselinePlace revisionId l) = some (.file b) := by
      unfold fileAt at hb
      split at hb
      · rename_i hlookup
        rw [hlookup, Option.some.inj hb]
      · cases hb
    rcases hr.mirrors _ _ hnode with ⟨hnil, -⟩ | ⟨l', heq, ⟨⟨⟩, -⟩ | ⟨b', ⟨⟩, hin, hfile⟩⟩
    · cases hnil
    · obtain rfl := (List.cons.inj heq).2
      obtain ⟨b', hb'⟩ := Option.isSome_iff_exists.1 hfile
      exact ⟨hin, (hcopy l b' hin hb').symm.trans hb⟩
  · rintro ⟨hin, hb⟩
    exact (hcopy l b hin hb).trans hb

theorem fillArchive_completes {files : List CaseFileSeal} (h : r.case.executionFileSeals = .ok files)
    (hnew : r.history.hasTop revisionId = false) :
    (fillArchive revisionId r).Completes
      (fun s _ =>
        (∀ l b, s.history.fileAt (baselinePlace revisionId l) = some b ↔
          underExecutionInput l ∧ r.case.tree.fileAt l = some b) ∧
        ∀ name, .output name ∈ r.candidates → s.case.tree.lookup [name] = none) r := by
  refine (mkdir_new hnew).andThen fun s _ hs => ?_
  rw [hs.case, h]
  refine (copyInputs_completes h hs fun _ hitem => hitem).andThen fun s _ hs => ?_
  refine (moveCandidates_completes s.candidates hs.1.readyToMove).andThen fun u _ hu =>
    .returned ⟨fun l b => ?_, fun name hname => ?_⟩
  · rw [fileAt, hu.1, ← fileAt]
    exact hs.1.baseline h hs.2.1 l b
  · exact hu.2.2 name (candidates_of_onlyHistory hs.1.toOnlyHistory ▸ hname)

/-- The archive that raises no refusal returns exactly when the inputs can be sealed. -/
theorem archiveRevisionOutputs_returns_iff (r : RunRoot) (revisionId : Text) :
    (∃ path, (archiveRevisionOutputs r revisionId).result = .ok path) ↔
      safeRevisionId revisionId ∧ r.history.hasTop revisionId = false ∧
        ∃ files, r.case.executionFileSeals = .ok files := by
  unfold archiveRevisionOutputs
  split_ifs with hsafe hnew
  · exact iff_of_false nofun fun h => by simp [h.1] at hsafe
  · exact iff_of_false nofun fun h => by simp [h.2.1] at hnew
  · rw [Bool.not_eq_true] at hnew
    rw [and_iff_right (by simpa using hsafe), and_iff_right hnew]
    constructor
    · rintro ⟨path, hpath⟩
      rcases hseals : r.case.executionFileSeals with e | files
      · have herror : (fillArchive revisionId r).result = .error (.sealing e) := by
          refine (mkdir_new hnew).andThen_error fun s _ hs => ?_
          rw [hs.case, hseals]
          rfl
        rw [herror] at hpath
        cases hpath
      · exact ⟨files, rfl⟩
    · rintro ⟨files, hfiles⟩
      obtain ⟨path, hpath, -⟩ := fillArchive_completes hfiles hnew
      exact ⟨path, hpath⟩

/-- **What the archive has done when it returns.** -/
theorem archiveRevisionOutputs_archived {path : Text}
    (h : (archiveRevisionOutputs r revisionId).result = .ok path) :
    Archived revisionId r ((archiveRevisionOutputs r revisionId).last r) := by
  have hkept := (archiveRevisionOutputs_crashes r revisionId).returns path h
  obtain ⟨hsafe, hnew, files, hfiles⟩ := (archiveRevisionOutputs_returns_iff r revisionId).1 ⟨path, h⟩
  have heq : archiveRevisionOutputs r revisionId = fillArchive revisionId r := by
    unfold archiveRevisionOutputs
    rw [hsafe, hnew]
    rfl
  obtain ⟨-, -, hbaseline, hgone⟩ := fillArchive_completes hfiles hnew
  rw [heq] at hkept ⊢
  refine ⟨hbaseline, fun name hdir => ?_, fun caseSeal plan => ?_⟩
  · rw [Rooted.isDirectory_eq_lookup (List.cons_ne_nil _ _)] at hdir
    rcases hkept.outputs [name] with hsame | ⟨hnone, -⟩
    · refine Bool.eq_false_iff.2 fun houtput => ?_
      have hold := hdir
      rw [hsame] at hold
      have hmem : name ∈ r.case.tree.keys.filterMap topName :=
        List.mem_filterMap.2 ⟨[name], Rooted.mem_keys_of_isDirectory (List.cons_ne_nil _ _)
          ((Rooted.isDirectory_eq_lookup (List.cons_ne_nil _ _)).2 hold), rfl⟩
      have hcandidate : .output name ∈ r.candidates := by
        refine List.mem_append_left _ (List.mem_map.2 ⟨name, List.mem_filter.2 ⟨hmem, ?_⟩, rfl⟩)
        rw [(Rooted.isDirectory_eq_lookup (List.cons_ne_nil _ _)).2 hold, houtput]
        rfl
      rw [hgone name hcandidate] at hdir
      cases hdir
    · rw [hnone] at hdir
      cases hdir
  · unfold CaseWorkspace.verifySeal
    rw [hkept.seals]

end RunRoot
end Workspace
end OpenFoamAgent
