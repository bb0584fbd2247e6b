/-
# Observed syntax evidence

`observed_syntax` and `implementation_evidence_pack` of `contracts/evidence.py`. The first
gathers what the evidence records hold of the texts of references, under the identifier of
the reference; the second selects what a plan binds to its files.

Both keep all of it (`observedSyntax_exact`, `evidence_complete`): the content of an entry
is the join of the bodies in the order in which they were first observed, and the range of
a window cuts its body out of that content. What tells two bodies apart, and two
references, is a hash, so this is for texts without collisions.
-/
import Mathlib.Algebra.Order.Ring.Int
import OpenFoamAgent.Library.Items
import OpenFoamAgent.Library.Repetitions
import OpenFoamAgent.Library.Traversal
import OpenFoamAgent.Python.Json

namespace OpenFoamAgent
namespace Contracts

open Python Repetitions

/-- The exceptions of the two functions. -/
inductive EvidenceError where
  | type
  | unobserved (path : Text) (missing : List Text)
  | undeclared (path : Text)
  | budget
  deriving DecidableEq

/-! ### Payloads -/

mutual

/-- `_walk`. -/
def walk : Json → List (List (Text × Json))
  | .dict entries => entries :: walkEntries entries
  | .list items => walkItems items
  | .null => []
  | .bool _ => []
  | .number _ => []
  | .str _ => []

/-- `_walk`, over the elements of a list. -/
def walkItems : List Json → List (List (Text × Json))
  | [] => []
  | item :: items => walk item ++ walkItems items

/-- `_walk`, over the values of an object. -/
def walkEntries : List (Text × Json) → List (List (Text × Json))
  | [] => []
  | entry :: entries => walk entry.2 ++ walkEntries entries

end

/-- `EngineeringEvidenceRecord`. -/
structure EvidenceRecord where
  recordId : Text
  payload : Json

/-- An object of a payload that says what was read of a reference. -/
structure Sighting where
  recordId : Text
  reference : Text
  body : Text
  targets : Option Json

/-- `item.get("content") or item.get("content_excerpt")`. -/
def bodyOf (item : List (Text × Json)) : Json :=
  match Json.lookup item "content" with
  | some content =>
    if content.truthy then content else (Json.lookup item "content_excerpt").getD .null
  | none => (Json.lookup item "content_excerpt").getD .null

/-- The objects that the loop does not skip. -/
def sighting (recordId : Text) (item : List (Text × Json)) : Option Sighting :=
  match Json.lookup item "reference", bodyOf item with
  | some (.str reference), .str body =>
    if strip body = [] then none
    else some ⟨recordId, reference, body, Json.lookup item "target_case_files"⟩
  | _, _ => none

/-- What a store says of references, in the order of the walk. -/
def sightings (store : List EvidenceRecord) : List Sighting :=
  store.flatMap fun record => (walk record.payload).filterMap (sighting record.recordId)

/-- The keys that a value gives as elements of `target_case_files`; a key that is no text is
none of a path. -/
def targetKey : Json → Except EvidenceError (Option Text)
  | .str t => .ok (some t)
  | .list _ => .error .type
  | .dict _ => .error .type
  | _ => .ok none

/-- The elements of `item.get("target_case_files", [])`. -/
def targetTexts : Option Json → Except EvidenceError (List Text)
  | none => .ok []
  | some (.list items) => items.filterMapM targetKey
  | some (.str t) => .ok (t.map fun c => [c])
  | some (.dict entries) => .ok (entries.map Prod.fst)
  | some _ => .error .type

/-! ### `observed_syntax` -/

/-- A window while the walk goes on. -/
structure Window where
  recordId : Text
  content : Text
  excerptSha256 : Text

/-- An entry of `available` while the walk goes on. -/
structure SyntaxEntry where
  evidenceId : Text
  source : Text
  recordId : Text
  openfoamVersion : Text
  observedWindows : List Window

/-- A window with its range in the content of its record. -/
structure ObservedWindow where
  recordId : Text
  excerptSha256 : Text
  startChar : ℕ
  endChar : ℕ
  deriving DecidableEq

/-- An entry of `available`. -/
structure SyntaxRecord where
  evidenceId : Text
  source : Text
  recordId : Text
  isExcerpt : Bool
  openfoamVersion : Text
  observedWindows : List ObservedWindow
  content : Text
  excerptSha256 : Text
  deriving DecidableEq

def separator : Text := "\n// --- separate observed read window ---\n".toList

/-- `text[start:end]`. -/
def cutOut (text : Text) (start stop : ℕ) : Text := (text.take stop).drop start

/-- The windows with their ranges, from an offset on. -/
def ranges : ℕ → List Window → List ObservedWindow
  | _, [] => []
  | offset, w :: ws =>
    ⟨w.recordId, w.excerptSha256, offset, offset + w.content.length⟩ ::
      ranges (offset + w.content.length + separator.length) ws

/-- `windows.append(w)`, if none has its hash. -/
def addWindow (windows : List Window) (w : Window) : List Window :=
  if windows.any (·.excerptSha256 = w.excerptSha256) then windows else windows ++ [w]

/-- `lists.get(key, [])`. -/
def listAt (lists : List (Text × List Text)) (key : Text) : List Text :=
  ((lists.find? (·.1 = key)).map Prod.snd).getD []

section
variable (sha256 : Text → Text) (version : Text)

/-- `canonical_engineering_evidence_id("openfoam_reference", reference)`. -/
def referenceEvidenceId (reference : Text) : Text :=
  "ev_ref_".toList ++ (sha256 ("openfoam_reference\x00".toList ++ reference)).take 20

/-- The window of a sighting. -/
def Sighting.window (s : Sighting) : Window := ⟨s.recordId, s.body, sha256 s.body⟩

/-- The entry that a sighting adds its window to. -/
def entryFor (available : List SyntaxEntry) (s : Sighting) : SyntaxEntry :=
  (available.find? (·.evidenceId = referenceEvidenceId sha256 s.reference)).getD
    ⟨referenceEvidenceId sha256 s.reference, s.reference, s.recordId, version, []⟩

/-- What a sighting does to `available`. -/
def addSighting (available : List SyntaxEntry) (s : Sighting) : List SyntaxEntry :=
  let entry := entryFor sha256 version available s
  putItem SyntaxEntry.evidenceId
    { entry with observedWindows := addWindow entry.observedWindows (s.window sha256) } available

/-- `targets.setdefault(target, []).append(eid)`. -/
def addTarget (eid : Text) (targets : List (Text × List Text)) (target : Text) :
    List (Text × List Text) :=
  putItem Prod.fst (target, listAt targets target ++ [eid]) targets

/-- One turn of the loop. -/
def observeSighting (s : List SyntaxEntry × List (Text × List Text)) (x : Sighting) :
    Except EvidenceError (List SyntaxEntry × List (Text × List Text)) := do
  let targets ← targetTexts x.targets
  return (addSighting sha256 version s.1 x,
    targets.foldl (addTarget (referenceEvidenceId sha256 x.reference)) s.2)

/-- The entry with its content and its ranges. -/
def SyntaxEntry.finish (entry : SyntaxEntry) : SyntaxRecord :=
  let content := List.intercalate separator (entry.observedWindows.map Window.content)
  { evidenceId := entry.evidenceId
    source := entry.source
    recordId := entry.recordId
    isExcerpt := true
    openfoamVersion := entry.openfoamVersion
    observedWindows := ranges 0 entry.observedWindows
    content := content
    excerptSha256 := sha256 content }

/-- `observed_syntax`. -/
def observedSyntax (store : List EvidenceRecord) :
    Except EvidenceError (List SyntaxRecord × List (Text × List Text)) := do
  let s ← (sightings store).foldlM (observeSighting sha256 version) ([], [])
  return (s.1.map (SyntaxEntry.finish sha256), s.2)

end

/-! ### `implementation_evidence_pack` -/

/-- `ImplementationEvidenceBinding`. -/
structure EvidenceBinding where
  path : Text
  evidenceIds : List Text

/-- What is read of a plan. -/
structure EvidencePlan where
  requiredCaseFiles : List Text
  implementationEvidenceBindings : List EvidenceBinding
  openfoamVersion : Text

inductive CoverageStatus where
  | explicit | missing
  deriving DecidableEq

/-- An element of `file_coverage`. -/
structure FileCoverage where
  path : Text
  evidenceIds : List Text
  status : CoverageStatus
  deriving DecidableEq

/-- The result of `implementation_evidence_pack`. -/
structure EvidencePack where
  records : List SyntaxRecord
  fileCoverage : List FileCoverage
  complete : Bool

/-- `bindings`. -/
def bindingsOf (plan : EvidencePlan) (targets : List (Text × List Text)) :
    List (Text × List Text) :=
  (plan.implementationEvidenceBindings.filter (·.evidenceIds ≠ [])).foldl
    (fun bindings x => putItem Prod.fst (x.path, x.evidenceIds) bindings)
    ((targets.filter (·.1 ∈ plan.requiredCaseFiles)).map fun e => (e.1, noteAll [] e.2))

/-- `available.get(eid)`. -/
def recordOf (available : List SyntaxRecord) (eid : Text) : Option SyntaxRecord :=
  available.find? (·.evidenceId = eid)

/-- One turn of the loop over the required files. -/
def coverFile (available : List SyntaxRecord) (bindings : List (Text × List Text))
    (s : List SyntaxRecord × List FileCoverage) (path : Text) :
    Except EvidenceError (List SyntaxRecord × List FileCoverage) :=
  let ids := listAt bindings path
  let missing := ids.filter fun eid => (recordOf available eid).isNone
  if missing ≠ [] then .error (.unobserved path missing)
  else .ok ((ids.filterMap (recordOf available)).foldl
      (fun selected record => putItem SyntaxRecord.evidenceId record selected) s.1,
    s.2 ++ [⟨path, ids, if ids = [] then .missing else .explicit⟩])

/-- `implementation_evidence_pack`. -/
def implementationEvidencePack (sha256 : Text → Text) (store : List EvidenceRecord)
    (plan : EvidencePlan) (maxChars : Option ℤ) : Except EvidenceError EvidencePack := do
  let (available, targets) ← observedSyntax sha256 plan.openfoamVersion store
  let bindings := bindingsOf plan targets
  let (selected, coverage) ← plan.requiredCaseFiles.foldlM (coverFile available bindings) ([], [])
  match bindings.find? (·.1 ∉ plan.requiredCaseFiles) with
  | some undeclared => throw (.undeclared undeclared.1)
  | none =>
    if maxChars.any (· < ((selected.map (·.content.length)).sum : ℤ)) then throw .budget
    return ⟨selected, coverage, coverage.all (·.status = .explicit)⟩

/-! ### Windows -/

section
variable {sha256 : Text → Text} {version : Text}

/-- Dropping a window of a known hash drops a body that is there. -/
theorem addWindows {sightings : List Sighting}
    (hinj : ∀ s ∈ sightings, ∀ t ∈ sightings, sha256 s.body = sha256 t.body → s.body = t.body) :
    (∀ w ∈ (sightings.map (Sighting.window sha256)).foldl addWindow [],
        w.excerptSha256 = sha256 w.content) ∧
      ((sightings.map (Sighting.window sha256)).foldl addWindow []).map Window.content =
        noteAll [] (sightings.map Sighting.body) := by
  induction sightings using List.reverseRecOn with
  | nil => exact ⟨by simp, rfl⟩
  | append_singleton xs x ih =>
    obtain ⟨hhash, hcontent⟩ := ih fun s hs t ht =>
      hinj s (List.mem_append_left _ hs) t (List.mem_append_left _ ht)
    rw [List.map_append, List.map_append, List.map_singleton, List.map_singleton,
      List.foldl_concat, noteAll_concat, note, ← hcontent, addWindow]
    generalize hws : (xs.map (Sighting.window sha256)).foldl addWindow [] = ws at hhash hcontent ⊢
    have hknown : ws.any (·.excerptSha256 = (x.window sha256).excerptSha256) =
        decide (x.body ∈ ws.map Window.content) := by
      rw [Bool.eq_iff_iff, List.any_eq_true, decide_eq_true_iff, List.mem_map]
      constructor
      · rintro ⟨w, hw, heq⟩
        have hbody : w.content ∈ xs.map Sighting.body := by
          have := List.mem_map_of_mem (f := Window.content) hw
          rw [hcontent, mem_noteAll] at this
          exact this.resolve_left List.not_mem_nil
        obtain ⟨s, hs, hsame⟩ := List.mem_map.1 hbody
        refine ⟨w, hw, ?_⟩
        rw [← hsame]
        refine hinj s (List.mem_append_left _ hs) x (List.mem_append_right _ List.mem_cons_self) ?_
        rw [hsame, ← hhash w hw]
        exact of_decide_eq_true heq
      · rintro ⟨w, hw, heq⟩
        exact ⟨w, hw, decide_eq_true (by rw [hhash w hw, heq]; rfl)⟩
    rw [hknown]
    by_cases hin : x.body ∈ ws.map Window.content
    · rw [decide_eq_true hin, if_pos rfl, if_pos hin]
      exact ⟨hhash, rfl⟩
    · rw [decide_eq_false hin, if_neg Bool.false_ne_true, if_neg hin, List.map_append]
      refine ⟨fun w hw => ?_, rfl⟩
      rcases List.mem_append.1 hw with hw | hw
      · exact hhash w hw
      · rw [List.mem_singleton.1 hw]
        rfl

/-- The ranges cut the bodies out of their join. -/
theorem cutOut_ranges (before : Text) (ws : List Window) :
    List.Forall₂ (fun (r : ObservedWindow) (w : Window) => r.recordId = w.recordId ∧
        r.excerptSha256 = w.excerptSha256 ∧
        cutOut (before ++ List.intercalate separator (ws.map Window.content))
          r.startChar r.endChar = w.content)
      (ranges before.length ws) ws := by
  induction ws generalizing before with
  | nil => exact .nil
  | cons w ws ih =>
    have hfirst : ∀ after : Text,
        cutOut (before ++ (w.content ++ after)) before.length (before.length + w.content.length) =
          w.content := by
      intro after
      rw [cutOut, ← List.append_assoc, ← List.length_append, List.take_left, List.drop_left]
    cases ws with
    | nil =>
      refine .cons ⟨rfl, rfl, ?_⟩ .nil
      simpa using hfirst []
    | cons v ws =>
      have hjoin : before ++ List.intercalate separator ((w :: v :: ws).map Window.content) =
          (before ++ w.content ++ separator) ++
            List.intercalate separator ((v :: ws).map Window.content) := by
        simp [List.intercalate_cons_cons, List.append_assoc]
      have hoffset : (before ++ w.content ++ separator).length =
          before.length + w.content.length + separator.length := by
        rw [List.length_append, List.length_append]
      have hrest := ih (before ++ w.content ++ separator)
      rw [hoffset] at hrest
      rw [hjoin]
      refine .cons ⟨rfl, rfl, ?_⟩ hrest
      rw [List.append_assoc, List.append_assoc]
      exact hfirst _

/-! ### Entries -/

variable (sha256 version) in
theorem entryFor_evidenceId (available : List SyntaxEntry) (s : Sighting) :
    (entryFor sha256 version available s).evidenceId = referenceEvidenceId sha256 s.reference := by
  rw [entryFor]
  cases h : available.find? (·.evidenceId = referenceEvidenceId sha256 s.reference) with
  | none => rfl
  | some entry => simpa using List.find?_some h

variable (sha256 version) in
/-- The entry of an identifier after a walk. -/
theorem find?_addSightings (sightings : List Sighting) (eid : Text) :
    (sightings.foldl (addSighting sha256 version) []).find? (·.evidenceId = eid) =
      (sightings.find? fun s => referenceEvidenceId sha256 s.reference = eid).map fun first =>
        ⟨eid, first.reference, first.recordId, version,
          ((sightings.filter fun s => referenceEvidenceId sha256 s.reference = eid).map
            (Sighting.window sha256)).foldl addWindow []⟩ := by
  induction sightings using List.reverseRecOn with
  | nil => rfl
  | append_singleton xs x ih =>
    rw [List.foldl_concat, addSighting, find?_putItem, entryFor_evidenceId, List.find?_append, List.filter_append]
    by_cases heid : eid = referenceEvidenceId sha256 x.reference
    · subst heid
      rw [if_pos rfl, List.filter_cons_of_pos (by simp), List.filter_nil, List.map_append,
        List.map_singleton, List.foldl_concat, entryFor, ih]
      cases hfind : xs.find? fun s =>
          referenceEvidenceId sha256 s.reference = referenceEvidenceId sha256 x.reference with
      | some first => rfl
      | none =>
        have hnil : xs.filter (fun s =>
            referenceEvidenceId sha256 s.reference = referenceEvidenceId sha256 x.reference) = [] :=
          List.filter_eq_nil_iff.2 (List.find?_eq_none.1 hfind)
        simp [hnil]
    · rw [if_neg heid, ih, List.filter_cons_of_neg (by simpa using Ne.symm heid), List.filter_nil,
        List.append_nil, List.find?_cons_of_neg (by simpa using Ne.symm heid), List.find?_nil,
        Option.or_none]

theorem nodup_addSightings (sightings : List Sighting) :
    ((sightings.foldl (addSighting sha256 version) []).map SyntaxEntry.evidenceId).Nodup := by
  induction sightings using List.reverseRecOn with
  | nil => exact List.nodup_nil
  | append_singleton xs x ih =>
    rw [List.foldl_concat]
    exact nodup_putItem ih

end

/-! ### Targets -/

theorem listAt_cons (item : Text × List Text) (lists : List (Text × List Text)) (key : Text) :
    listAt (item :: lists) key = if item.1 = key then item.2 else listAt lists key := by
  rw [listAt, List.find?_cons]
  by_cases h : item.1 = key
  · rw [if_pos h, decide_eq_true h]
    rfl
  · rw [if_neg h, decide_eq_false h]
    rfl

theorem listAt_put (lists : List (Text × List Text)) (item : Text × List Text) (key : Text) :
    listAt (putItem Prod.fst item lists) key = if key = item.1 then item.2 else listAt lists key := by
  rw [listAt, find?_putItem]
  split_ifs <;> rfl

/-- The identifiers under a target after some more pairs. -/
theorem listAt_addTargets (eid : Text) (names : List Text) (targets : List (Text × List Text))
    (key : Text) : listAt (names.foldl (addTarget eid) targets) key =
      listAt targets key ++ (names.filter (· = key)).map fun _ => eid := by
  induction names generalizing targets with
  | nil => simp
  | cons name names ih =>
    rw [List.foldl_cons, ih, addTarget, listAt_put]
    by_cases h : key = name
    · subst h
      rw [if_pos rfl, List.filter_cons_of_pos (by simp)]
      simp
    · rw [if_neg h, List.filter_cons_of_neg (by simpa using Ne.symm h)]

/-- The files that a sighting is for. -/
def Sighting.targetFiles (s : Sighting) : List Text := (targetTexts s.targets).toOption.getD []

/-- The targets of every sighting can be read. -/
def Listed (store : List EvidenceRecord) : Prop :=
  ∀ s ∈ sightings store, ∃ names, targetTexts s.targets = .ok names

/-- The identifiers that the sightings of a store give for a file. -/
def targetIds (sha256 : Text → Text) (sightings : List Sighting) (path : Text) : List Text :=
  sightings.flatMap fun s => (s.targetFiles.filter (· = path)).map fun _ =>
    referenceEvidenceId sha256 s.reference

section
variable {sha256 : Text → Text} {version : Text}

variable (sha256 version) in
theorem observe_sightings {xs : List Sighting}
    (hlisted : ∀ s ∈ xs, ∃ names, targetTexts s.targets = .ok names) :
    ∃ targets, xs.foldlM (observeSighting sha256 version) ([], []) =
        .ok (xs.foldl (addSighting sha256 version) [], targets) ∧
      ∀ path, listAt targets path = targetIds sha256 xs path := by
  induction xs using List.reverseRecOn with
  | nil => exact ⟨[], rfl, fun _ => rfl⟩
  | append_singleton xs x ih =>
    obtain ⟨targets, hfold, htargets⟩ := ih fun s hs => hlisted s (List.mem_append_left _ hs)
    obtain ⟨names, hnames⟩ := hlisted x (List.mem_append_right _ List.mem_cons_self)
    have hfiles : x.targetFiles = names := by rw [Sighting.targetFiles, hnames]; rfl
    refine ⟨names.foldl (addTarget (referenceEvidenceId sha256 x.reference)) targets, ?_,
      fun path => ?_⟩
    · rw [List.foldlM_append, hfold, List.foldl_concat]
      simp [observeSighting, hnames, bind, Except.bind, pure, Except.pure]
    · rw [listAt_addTargets, htargets, targetIds, targetIds, List.flatMap_append]
      simp [hfiles]

/-! ### What is observed -/

variable (sha256) in
/-- The hash tells the texts of a store apart. -/
structure Collisionless (store : List EvidenceRecord) : Prop where
  body : ∀ s ∈ sightings store, ∀ t ∈ sightings store,
    sha256 s.body = sha256 t.body → s.body = t.body
  reference : ∀ s ∈ sightings store, ∀ t ∈ sightings store,
    referenceEvidenceId sha256 s.reference = referenceEvidenceId sha256 t.reference →
      s.reference = t.reference

/-- The bodies of a reference, each once, in the order in which they were first observed. -/
def observedBodies (store : List EvidenceRecord) (reference : Text) : List Text :=
  noteAll [] (((sightings store).filter (·.reference = reference)).map Sighting.body)

variable (sha256) in
/-- A record holds what a store says of a reference. -/
structure SyntaxRecord.Holds (store : List EvidenceRecord) (reference : Text)
    (record : SyntaxRecord) : Prop where
  evidenceId : record.evidenceId = referenceEvidenceId sha256 reference
  source : record.source = reference
  content : record.content = List.intercalate separator (observedBodies store reference)
  excerptSha256 : record.excerptSha256 = sha256 record.content
  windows : List.Forall₂ (fun (r : ObservedWindow) body => r.excerptSha256 = sha256 body ∧
    cutOut record.content r.startChar r.endChar = body) record.observedWindows
      (observedBodies store reference)

/-- The record that the sightings of an identifier make. -/
theorem holds_finish {store : List EvidenceRecord} (hsha : Collisionless sha256 store)
    {first : Sighting} (hfirst : first ∈ sightings store) :
    (SyntaxEntry.finish sha256 ⟨referenceEvidenceId sha256 first.reference, first.reference,
      first.recordId, version, (((sightings store).filter fun s =>
        referenceEvidenceId sha256 s.reference =
          referenceEvidenceId sha256 first.reference).map
            (Sighting.window sha256)).foldl addWindow []⟩).Holds sha256 store first.reference := by
  have hfilter : ((sightings store).filter fun s => referenceEvidenceId sha256 s.reference =
      referenceEvidenceId sha256 first.reference) =
        (sightings store).filter (·.reference = first.reference) := by
    refine List.filter_congr fun s hs => decide_eq_decide.2 ⟨fun h => ?_, fun h => by rw [h]⟩
    exact hsha.reference s hs first hfirst h
  rw [hfilter]
  have hbody : ∀ s ∈ (sightings store).filter (·.reference = first.reference),
      ∀ t ∈ (sightings store).filter (·.reference = first.reference),
        sha256 s.body = sha256 t.body → s.body = t.body :=
    fun s hs t ht => hsha.body s (List.mem_filter.1 hs).1 t (List.mem_filter.1 ht).1
  obtain ⟨hhash, hcontent⟩ := addWindows hbody
  generalize (((sightings store).filter (·.reference = first.reference)).map
    (Sighting.window sha256)).foldl addWindow [] = ws at hhash hcontent ⊢
  have hranges := cutOut_ranges [] ws
  have hwindows : List.Forall₂ (fun (r : ObservedWindow) body => r.excerptSha256 = sha256 body ∧
      cutOut (List.intercalate separator (ws.map Window.content)) r.startChar r.endChar = body)
        (ranges 0 ws) (ws.map Window.content) := by
    rw [List.forall₂_map_right_iff, List.forall₂_iff_zip]
    rw [List.forall₂_iff_zip] at hranges
    refine ⟨hranges.1, @fun r w hmem => ?_⟩
    obtain ⟨-, hsame, hcut⟩ := hranges.2 hmem
    exact ⟨by rw [hsame, hhash w (List.of_mem_zip hmem).2], hcut⟩
  have hbodies : ws.map Window.content = observedBodies store first.reference := hcontent
  rw [hbodies] at hwindows
  refine ⟨rfl, rfl, ?_, rfl, ?_⟩
  · rw [← hbodies]
    rfl
  · rw [SyntaxEntry.finish, hbodies]
    exact hwindows

variable (version) in
/-- **`observed_syntax` keeps every window.** -/
theorem observedSyntax_exact {store : List EvidenceRecord} (hlisted : Listed store)
    (hsha : Collisionless sha256 store) :
    ∃ available targets, observedSyntax sha256 version store = .ok (available, targets) ∧
      (available.map SyntaxRecord.evidenceId).Nodup ∧
      (∀ s ∈ sightings store, ∃ record ∈ available, record.Holds sha256 store s.reference) ∧
      (∀ record ∈ available, ∃ s ∈ sightings store, record.Holds sha256 store s.reference) ∧
      ∀ path, listAt targets path = targetIds sha256 (sightings store) path := by
  obtain ⟨targets, hfold, htargets⟩ :=
    observe_sightings sha256 version hlisted
  refine ⟨((sightings store).foldl (addSighting sha256 version) []).map (SyntaxEntry.finish sha256),
    targets, ?_, ?_, fun s hs => ?_, fun record hrecord => ?_, htargets⟩
  · rw [observedSyntax, hfold]
    rfl
  · rw [List.map_map]
    exact nodup_addSightings (sightings store)
  · cases hfind : (sightings store).find? fun t =>
        referenceEvidenceId sha256 t.reference = referenceEvidenceId sha256 s.reference with
    | none => simpa using List.find?_eq_none.1 hfind s hs
    | some first =>
      have hentry := find?_addSightings sha256 version (sightings store)
        (referenceEvidenceId sha256 s.reference)
      have hmem := List.mem_of_find?_eq_some hfind
      have href : first.reference = s.reference :=
        hsha.reference first hmem s hs (by simpa using List.find?_some hfind)
      rw [hfind, ← href, Option.map_some] at hentry
      refine ⟨_, List.mem_map_of_mem (List.mem_of_find?_eq_some hentry), ?_⟩
      rw [← href]
      exact holds_finish hsha hmem
  · obtain ⟨entry, hentry, rfl⟩ := List.mem_map.1 hrecord
    have hfind := find?_addSightings sha256 version (sightings store)
      entry.evidenceId
    cases hfirst : (sightings store).find? fun s =>
        referenceEvidenceId sha256 s.reference = entry.evidenceId with
    | none =>
      rw [hfirst] at hfind
      exact absurd (decide_eq_true rfl) (List.find?_eq_none.1 hfind entry hentry)
    | some first =>
      rw [hfirst, Option.map_some] at hfind
      have hmem := List.mem_of_find?_eq_some hfirst
      have hid : referenceEvidenceId sha256 first.reference = entry.evidenceId := by
        simpa using List.find?_some hfirst
      have hsame := List.inj_on_of_nodup_map (nodup_addSightings (sightings store)) hentry
        (List.mem_of_find?_eq_some hfind) rfl
      refine ⟨first, hmem, ?_⟩
      rw [hsame, ← hid]
      exact holds_finish hsha hmem

end

/-! ### Packs -/

/-- The identifiers that are bound to a file: those of the plan, or else those of the store. -/
def boundIds (plan : EvidencePlan) (ids : List Text) (path : Text) : List Text :=
  match (plan.implementationEvidenceBindings.filter fun b =>
      b.path = path ∧ b.evidenceIds ≠ []).getLast? with
  | some b => b.evidenceIds
  | none => noteAll [] ids

theorem listAt_putBindings (bindings : List EvidenceBinding) (lists : List (Text × List Text))
    (path : Text) :
    listAt (bindings.foldl (fun b x => putItem Prod.fst (x.path, x.evidenceIds) b) lists) path =
      match (bindings.filter (·.path = path)).getLast? with
      | some b => b.evidenceIds
      | none => listAt lists path := by
  induction bindings using List.reverseRecOn with
  | nil => rfl
  | append_singleton bindings x ih =>
    rw [List.foldl_concat, listAt_put, ih, List.filter_append]
    by_cases h : path = x.path
    · rw [if_pos h, List.filter_cons_of_pos (by simp [h]), List.filter_nil,
        List.getLast?_concat]
    · rw [if_neg h, List.filter_cons_of_neg (by simpa using Ne.symm h), List.filter_nil,
        List.append_nil]

/-- The bindings of a required file. -/
theorem listAt_bindingsOf {plan : EvidencePlan} {path : Text}
    (hpath : path ∈ plan.requiredCaseFiles) (targets : List (Text × List Text)) :
    listAt (bindingsOf plan targets) path = boundIds plan (listAt targets path) path := by
  have hlist : ∀ lists : List (Text × List Text),
      listAt ((lists.filter (·.1 ∈ plan.requiredCaseFiles)).map fun e => (e.1, noteAll [] e.2)) path =
        noteAll [] (listAt lists path) := by
    intro lists
    induction lists with
    | nil => rfl
    | cons item lists ih =>
      rw [listAt_cons]
      by_cases hitem : item.1 = path
      · rw [List.filter_cons_of_pos (by simpa [hitem] using hpath), List.map_cons, listAt_cons,
          if_pos hitem, if_pos hitem]
      · rw [if_neg hitem, ← ih]
        by_cases hrequired : item.1 ∈ plan.requiredCaseFiles
        · rw [List.filter_cons_of_pos (by simpa using hrequired), List.map_cons, listAt_cons,
            if_neg hitem]
        · rw [List.filter_cons_of_neg (by simpa using hrequired)]
  have hsame : (fun b : EvidenceBinding => decide (b.path = path) && decide (b.evidenceIds ≠ [])) =
      fun b => decide (b.path = path ∧ b.evidenceIds ≠ []) :=
    funext fun b => (Bool.decide_and _ _).symm
  rw [bindingsOf, listAt_putBindings, hlist, List.filter_filter, boundIds, hsame]

/-- What putting some records into a selection selects. -/
theorem putRecords (records selected : List SyntaxRecord) :
    (∀ record ∈ records.foldl (fun s r => putItem SyntaxRecord.evidenceId r s) selected,
        record ∈ selected ∨ record ∈ records) ∧
      ∀ eid, eid ∈ (records.foldl (fun s r => putItem SyntaxRecord.evidenceId r s) selected).map
          SyntaxRecord.evidenceId ↔
        eid ∈ selected.map SyntaxRecord.evidenceId ∨ eid ∈ records.map SyntaxRecord.evidenceId := by
  induction records using List.reverseRecOn with
  | nil => simp
  | append_singleton records r ih =>
    obtain ⟨hrecords, hids⟩ := ih
    rw [List.foldl_concat]
    refine ⟨fun record hrecord => ?_, fun eid => ?_⟩
    · rcases mem_putItem.1 hrecord with rfl | ⟨hrecord, -⟩
      · exact .inr (List.mem_append_right _ List.mem_cons_self)
      · exact (hrecords record hrecord).imp_right (List.mem_append_left _)
    · rw [map_putItem, List.map_append, List.mem_append, ← or_assoc, ← hids]
      split_ifs with hr
      · simp only [List.map_singleton, List.mem_singleton]
        exact ⟨.inl, fun h => h.elim id fun h => h ▸ hr⟩
      · rw [List.mem_append, List.map_singleton]

/-- One turn of the loop over the required files. -/
theorem coverFile_eq_ok {available : List SyntaxRecord} {bindings : List (Text × List Text)}
    {s s' : List SyntaxRecord × List FileCoverage} {path : Text}
    (h : coverFile available bindings s path = .ok s') :
    (∀ record ∈ s'.1, record ∈ s.1 ∨ record ∈ available) ∧
      (∀ eid, eid ∈ s'.1.map SyntaxRecord.evidenceId ↔
        eid ∈ s.1.map SyntaxRecord.evidenceId ∨ eid ∈ listAt bindings path) ∧
      s'.2 = s.2 ++ [⟨path, listAt bindings path,
        if listAt bindings path = [] then .missing else .explicit⟩] := by
  rw [coverFile] at h
  by_cases hmissing : ((listAt bindings path).filter fun eid =>
      (recordOf available eid).isNone) ≠ []
  · rw [if_pos hmissing] at h
    cases h
  rw [if_neg hmissing] at h
  obtain rfl := Except.ok.inj h
  rw [ne_eq, not_not, List.filter_eq_nil_iff] at hmissing
  obtain ⟨hrecords, hids⟩ := putRecords ((listAt bindings path).filterMap (recordOf available)) s.1
  refine ⟨fun record hrecord => ?_, fun eid => ?_, rfl⟩
  · refine (hrecords record hrecord).imp_right fun hmem => ?_
    obtain ⟨eid, -, hfind⟩ := List.mem_filterMap.1 hmem
    exact List.mem_of_find?_eq_some hfind
  · rw [hids]
    refine or_congr_right ⟨fun hmem => ?_, fun hmem => ?_⟩
    · obtain ⟨record, hrecord, rfl⟩ := List.mem_map.1 hmem
      obtain ⟨eid, heid, hfind⟩ := List.mem_filterMap.1 hrecord
      have hsame : record.evidenceId = eid := by simpa using List.find?_some hfind
      exact hsame ▸ heid
    · cases hfind : recordOf available eid with
      | none => exact absurd (by rw [hfind]; rfl) (hmissing eid hmem)
      | some record =>
        have hsame : record.evidenceId = eid := by simpa using List.find?_some hfind
        exact List.mem_map.2 ⟨record, List.mem_filterMap.2 ⟨eid, hmem, hfind⟩, hsame⟩

/-- The loop over the required files. -/
theorem coverFiles_eq_ok {available : List SyntaxRecord} {bindings : List (Text × List Text)}
    {paths : List Text} {s : List SyntaxRecord × List FileCoverage}
    (h : paths.foldlM (coverFile available bindings) ([], []) = .ok s) :
    (∀ record ∈ s.1, record ∈ available) ∧
      (∀ eid, eid ∈ s.1.map SyntaxRecord.evidenceId ↔ ∃ path ∈ paths, eid ∈ listAt bindings path) ∧
      s.2 = paths.map fun path => ⟨path, listAt bindings path,
        if listAt bindings path = [] then .missing else .explicit⟩ := by
  refine Traversal.foldlM_induct
    (P := fun done s => (∀ record ∈ s.1, record ∈ available) ∧
      (∀ eid, eid ∈ s.1.map SyntaxRecord.evidenceId ↔ ∃ path ∈ done, eid ∈ listAt bindings path) ∧
      s.2 = done.map fun path => ⟨path, listAt bindings path,
        if listAt bindings path = [] then .missing else .explicit⟩) h
    ⟨by simp, by simp, rfl⟩ fun done path _ t t' hdone hstep => ?_
  obtain ⟨hrecords, hids, hcoverage⟩ := hdone
  obtain ⟨hrecords', hids', hcoverage'⟩ := coverFile_eq_ok hstep
  refine ⟨fun record hrecord => (hrecords' record hrecord).elim (hrecords record) id,
    fun eid => ?_, ?_⟩
  · rw [hids', hids]
    simp [or_and_right, exists_or]
  · rw [hcoverage', hcoverage, List.map_append, List.map_singleton]

/-- What a pack is made of. -/
theorem implementationEvidencePack_eq_ok {sha256 : Text → Text} {store : List EvidenceRecord}
    {plan : EvidencePlan} {maxChars : Option ℤ} {available : List SyntaxRecord}
    {targets : List (Text × List Text)} {pack : EvidencePack}
    (hobserved : observedSyntax sha256 plan.openfoamVersion store = .ok (available, targets))
    (h : implementationEvidencePack sha256 store plan maxChars = .ok pack) :
    plan.requiredCaseFiles.foldlM (coverFile available (bindingsOf plan targets)) ([], []) =
      .ok (pack.records, pack.fileCoverage) := by
  rw [implementationEvidencePack, hobserved] at h
  obtain ⟨s, hcover, h⟩ := Traversal.bind_eq_ok.1 h
  obtain rfl := Except.ok.inj hcover
  obtain ⟨s, hcover, h⟩ := Traversal.bind_eq_ok.1 h
  cases hundeclared : (bindingsOf plan targets).find? (·.1 ∉ plan.requiredCaseFiles) with
  | some undeclared =>
    dsimp only at h
    rw [hundeclared] at h
    cases h
  | none =>
    dsimp only at h
    rw [hundeclared] at h
    obtain ⟨-, h⟩ := Traversal.guard_eq_ok.1 h
    obtain rfl := Except.ok.inj h
    exact hcover

/-- What is observed is kept, and a pack that is returned leaves nothing out of it. -/
def KeepsAll (sha256 : Text → Text) (store : List EvidenceRecord) (plan : EvidencePlan)
    (maxChars : Option ℤ) : Prop :=
  ∃ available targets, observedSyntax sha256 plan.openfoamVersion store =
      .ok (available, targets) ∧
    (available.map SyntaxRecord.evidenceId).Nodup ∧
    (∀ s ∈ sightings store, ∃ record ∈ available, record.Holds sha256 store s.reference) ∧
    (∀ record ∈ available, ∃ s ∈ sightings store, record.Holds sha256 store s.reference) ∧
    ((∃ e, implementationEvidencePack sha256 store plan maxChars = .error e) ∨
      ∃ pack, implementationEvidencePack sha256 store plan maxChars = .ok pack ∧
        (∀ record ∈ pack.records, record ∈ available) ∧
        ∀ path ∈ plan.requiredCaseFiles,
          (∃ coverage ∈ pack.fileCoverage, coverage.path = path ∧ coverage.evidenceIds =
            boundIds plan (targetIds sha256 (sightings store) path) path) ∧
          ∀ eid ∈ boundIds plan (targetIds sha256 (sightings store) path) path,
            ∃ s ∈ sightings store, referenceEvidenceId sha256 s.reference = eid ∧
              ∃ record ∈ pack.records, record.Holds sha256 store s.reference)

/-- **A pack leaves nothing out.** -/
theorem evidence_complete {sha256 : Text → Text} {store : List EvidenceRecord}
    (hlisted : Listed store) (hsha : Collisionless sha256 store) (plan : EvidencePlan)
    (maxChars : Option ℤ) : KeepsAll sha256 store plan maxChars := by
  obtain ⟨available, targets, hobserved, hnodup, hsound, hheld, htargets⟩ :=
    observedSyntax_exact plan.openfoamVersion hlisted hsha
  refine ⟨available, targets, hobserved, hnodup, hsound, hheld, ?_⟩
  cases hpack : implementationEvidencePack sha256 store plan maxChars with
  | error e => exact .inl ⟨e, rfl⟩
  | ok pack =>
    refine .inr ⟨pack, rfl, ?_⟩
    obtain ⟨hrecords, hids, hcoverage⟩ :=
      coverFiles_eq_ok (implementationEvidencePack_eq_ok hobserved hpack)
    refine ⟨hrecords, fun path hpath => ?_⟩
    have hbound := listAt_bindingsOf hpath targets
    rw [htargets] at hbound
    rw [← hbound]
    refine ⟨?_, fun eid heid => ?_⟩
    · dsimp only at hcoverage
      rw [hcoverage]
      exact ⟨_, List.mem_map_of_mem hpath, rfl, rfl⟩
    · obtain ⟨record, hrecord, rfl⟩ := List.mem_map.1 ((hids eid).2 ⟨path, hpath, heid⟩)
      obtain ⟨s, hs, hholds⟩ := hheld record (hrecords record hrecord)
      exact ⟨s, hs, hholds.evidenceId.symm, record, hrecord, hholds⟩

/-! ### Two windows of one file -/

/-- Two readings of a tutorial file, and one of them again. -/
def controlDictStore : List EvidenceRecord :=
  let reading := fun body targets => Json.object
    [("reference", .str "tutorials:controlDict".toList), ("content", .str body),
      ("target_case_files", Json.ofTexts targets)]
  [⟨"evrec_1".toList, reading "application icoFoam;\n".toList ["system/controlDict".toList]⟩,
    ⟨"evrec_2".toList, .object [("reads", .list
      [reading "endTime 1;\n".toList [], reading "application icoFoam;\n".toList []])]⟩]

/-- The digests of the texts of the store. -/
def controlDictDigest (text : Text) : Text :=
  (([("openfoam_reference\x00tutorials:controlDict",
        "b2e60785caa7c17806088f030962d4a4261c7b51005fd667504bb457d06db7fa"),
      ("application icoFoam;\n",
        "c6852c3c24ab75d7d0dfe023a7c4efdc4a4b633d01c9682d52c29223a5cc6ef4"),
      ("endTime 1;\n", "d81313de8ef77dca4b959aee5760d720546565c4d9a6466cd01d9e9a67541a45")].find?
    fun e => e.1.toList = text).map fun e => e.2.toList).getD
      "87b34ae567c70a1bef219698ec274a55b48e9efcb8b63880cd57796426545775".toList

theorem listed_controlDict : Listed controlDictStore := by
  intro s hs
  cases h : targetTexts s.targets with
  | ok names => exact ⟨names, rfl⟩
  | error e =>
    have hall : ∀ s ∈ sightings controlDictStore, (targetTexts s.targets).isOk := by decide +kernel
    have := hall s hs
    rw [h] at this
    cases this

theorem evidence_complete_controlDict : KeepsAll controlDictDigest controlDictStore
    ⟨["system/controlDict".toList], [], "13".toList⟩ (some 16000) :=
  evidence_complete listed_controlDict ⟨by decide +kernel, by decide +kernel⟩ _ _

end Contracts
end OpenFoamAgent
