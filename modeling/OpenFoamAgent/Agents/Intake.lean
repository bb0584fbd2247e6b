/-
# Intake provenance

`validate_intake_provenance` of `agents/intake.py` with the quantities of
`contracts/quantities.py`: what a model says of a request is held against the
turns and the file names of the user. A fact of the user needs its evidence at one
place of the input, an explicit assignment a fact that carries it, and
every number of the active turns a fact of the user that holds it.

A fact whose evidence does not say what it claims becomes a derived one first.
-/
import Mathlib.Data.List.Sort
import OpenFoamAgent.Contracts.Requirements
import OpenFoamAgent.Library.Traversal
import OpenFoamAgent.Python.RegexLines

namespace OpenFoamAgent
namespace Agents

open Python Contracts

/-! ### The specification -/

inductive FactSource where
  | user | derived
  deriving DecidableEq

inductive FactCategory where
  | context | classification | objective | domain | geometry | scale | material | property
  | physics | temporal | motion | boundary | output | fidelity | assumption
  deriving DecidableEq

inductive SourceKind where
  | conversationTurn | geometryFileName | additionalFileName
  deriving DecidableEq

/-- `UserEvidenceLocator`. -/
structure UserEvidenceLocator where
  sourceKind : SourceKind
  sourceIndex : ℕ
  sourceSha256 : Text
  startChar : ℕ
  endChar : ℕ
  deriving DecidableEq

/-- `PhysicalQuantity`, as far as a conversion reads it. -/
structure PhysicalQuantity where
  value : Binary64
  unit : Text
  dimensions : List ℤ
  deriving DecidableEq

structure IntakeFact where
  id : Text
  category : FactCategory
  value : Text
  unit : Option Text := none
  quantity : Option PhysicalQuantity := none
  source : FactSource
  evidence : Option Text := none
  evidenceLocator : Option UserEvidenceLocator := none
  reason : Option Text := none
  dependsOn : List Text := []
  deriving DecidableEq

/-- `SemanticAmbiguity`, as far as the validation reads it. -/
structure SemanticAmbiguity where
  selected : Option Text
  userEvidence : Option Text
  deriving DecidableEq

inductive IntakeStatus where
  | needsUserInput | readyForReview
  deriving DecidableEq

structure CFDIntakeSpec where
  facts : List IntakeFact
  ambiguities : List SemanticAmbiguity := []
  requirementHistory : List RequirementHistory := []
  status : IntakeStatus
  deriving DecidableEq

/-- `CFDIntakeSpec.fact`. -/
def CFDIntakeSpec.fact (spec : CFDIntakeSpec) (id : Text) : Option IntakeFact :=
  spec.facts.find? fun fact => fact.id = id

structure UserRequest where
  prompt : Text
  conversationTurns : List Text := []
  geometryFiles : List Text := []
  additionalFiles : List Text := []

/-- `[request.prompt, *request.conversation_turns]`. -/
def UserRequest.turns (request : UserRequest) : List Text :=
  request.prompt :: request.conversationTurns

/-- The errors of `validate_intake_provenance`. -/
inductive IntakeError where
  /-- An assertion, or a locator of an empty span. -/
  | malformed
  | notASpan
  | ambiguousSpan
  | foreignLocator (id : Text)
  | stillActive (target : Text)
  | noMatchingFact (target : Text)
  | notTheLatest (target : Text)
  | unsupportedUnit (unit : Text)
  | unitDimensions
  | factUnit
  | factValue
  | selectionEvidence
  | missingNumbers (tokens : List Text)
  | missingFacts
  | noObjective
  | unsupportedClassification
  deriving DecidableEq

/-! ### Source attribution -/

/-- `_CLASSIFICATION_DIRECT_CUES`. -/
def classificationDirectCues : List (Text × List Text) :=
  [("internal_flow", ["internal_flow", "internal flow", "internal-flow", "내부유동", "내부 유동",
      "channel flow", "pipe flow", "duct flow"]),
    ("external_flow", ["external_flow", "external flow", "external-flow", "외부유동", "외부 유동",
      "freestream", "free stream"]),
    ("heat_transfer", ["heat_transfer", "heat transfer", "열전달", "열 전달"]),
    ("multiphase", ["multiphase", "multi-phase", "다상", "다상유동", "다상 유동"]),
    ("species_transport", ["species_transport", "species transport", "species", "종수송",
      "종 수송"]),
    ("custom", ["custom", "사용자 정의"])].map fun row =>
      (row.1.toList, row.2.map String.toList)

/-- `_TEMPORAL_DIRECT_CUES`. -/
def temporalDirectCues : List Text :=
  ["steady", "transient", "unsteady", "time-dependent", "time dependent", "정상상태", "정상 상태",
    "비정상", "시간의존", "시간 의존"].map String.toList

/-- The evidence says what the fact claims, where the claim is critical for the review. -/
def supported (fact : IntakeFact) (evidence : Text) : Bool :=
  let evidence := casefold evidence
  if fact.id = "classification.problem_type".toList ∨ fact.category = .classification then
    ((classificationDirectCues.lookup (casefold fact.value)).getD []).any fun cue =>
      contains (casefold cue) evidence
  else if fact.id = "temporal.behavior".toList ∨ fact.category = .temporal then
    temporalDirectCues.any fun cue => contains (casefold cue) evidence
  else true

/-- The fact is to be demoted. -/
def unsupported (fact : IntakeFact) : Bool :=
  fact.source = .user && match fact.evidence with
    | some (c :: cs) => !supported fact (c :: cs)
    | _ => false

def demotionReason : Text :=
  ("The value is a routing/physics interpretation inferred from the request; " ++
    "the user did not explicitly state this normalized classification.").toList

/-- One turn of the last loop of `_normalize_review_critical_source_attribution`. -/
def demote (summary : Bool) (fact : IntakeFact) : IntakeFact :=
  { fact with
    source := .derived
    evidence := none
    evidenceLocator := none
    reason := some demotionReason
    dependsOn :=
      if summary ∧ fact.id ≠ "request.summary".toList then ["request.summary".toList] else [] }

/-- `_normalize_review_critical_source_attribution`. -/
def normalizeSourceAttribution (spec : CFDIntakeSpec) : CFDIntakeSpec :=
  let summary := (spec.fact "request.summary".toList).isSome
  { spec with facts := spec.facts.map fun fact => if unsupported fact then demote summary fact else fact }

/-! ### Evidence -/

/-- An input of the user. -/
structure EvidenceSource where
  kind : SourceKind
  index : ℕ
  text : Text
  deriving DecidableEq

/-- `_file_name`. -/
def fileName (path : Text) : Text :=
  ((path.map fun c => if c = '\\' then '/' else c).reverse.takeWhile (· ≠ '/')).reverse

/-- `_user_evidence_sources`. -/
def userEvidenceSources (request : UserRequest) : List EvidenceSource :=
  (request.turns.zipIdx.map fun p => ⟨.conversationTurn, p.2, p.1⟩) ++
    (request.geometryFiles.zipIdx.map fun p => ⟨.geometryFileName, p.2, fileName p.1⟩) ++
    request.additionalFiles.zipIdx.map fun p => ⟨.additionalFileName, p.2, fileName p.1⟩

/-- The positions at which `find`, each time from the next character on, finds a text. -/
def positions (evidence text : Text) : List ℕ :=
  (List.range (text.length + 1)).filter fun p => evidence.isPrefixOf (text.drop p)

section
variable (sha256 : Text → Text)

/-- The locator of an occurrence. -/
def locatorAt (evidence : Text) (source : EvidenceSource) (position : ℕ) : UserEvidenceLocator :=
  ⟨source.kind, source.index, sha256 source.text, position, position + evidence.length⟩

/-- `_issue_user_evidence_locator`. -/
def issueUserEvidenceLocator (evidence : Text) (sources : List EvidenceSource) :
    Except IntakeError UserEvidenceLocator :=
  if evidence = [] ∧ sources ≠ [] then .error .malformed
  else
    match sources.flatMap fun source => (positions evidence source.text).map
        (locatorAt sha256 evidence source) with
    | [] => .error .notASpan
    | [locator] => .ok locator
    | _ => .error .ambiguousSpan

/-- One turn of the first loop of `validate_intake_provenance`. -/
def locateFact (sources : List EvidenceSource) (fact : IntakeFact) :
    Except IntakeError IntakeFact := do
  if fact.source = .user then
    match fact.evidence with
    | none => throw .malformed
    | some evidence =>
      let locator ← issueUserEvidenceLocator sha256 evidence sources
      if fact.evidenceLocator.any (· ≠ locator) then throw (.foreignLocator fact.id)
      return { fact with evidenceLocator := some locator }
  else return fact

end

/-! ### Numbers and units -/

/-- The pattern of `_finite_numbers`. -/
def finiteNumberPattern : Pattern :=
  .group "0" (.all [.notBehind fun c => isAsciiWord c || c == '.', Runtime.numberPattern,
    .notAhead fun c => isAsciiWord c || c == '.' || c == '차'])

/-- The token of a match with its value, if that is finite. -/
def finiteToken (groups : List (String × Text)) : Option (Text × Binary64) :=
  let token := ((groups.find? fun g => g.1 = "0").map Prod.snd).getD []
  match parseFloat token with
  | some value => if value.isFinite then some (token, value) else none
  | none => none

/-- `_finite_numbers`. -/
def finiteNumbers (text : Text) : List (Text × Binary64) :=
  ((finiteNumberPattern.findAll text).map Cursor.groups).filterMap finiteToken

/-- `UNITS`: scale, offset and SI dimensions. -/
def units : List (Text × Binary64 × Binary64 × List ℤ) :=
  let one := nearestBinary64 false 1 0
  [("1", one, 0, [0, 0, 0, 0, 0, 0, 0]),
    ("kg", one, 0, [1, 0, 0, 0, 0, 0, 0]),
    ("kg/s", one, 0, [1, 0, -1, 0, 0, 0, 0]),
    ("m3", one, 0, [0, 3, 0, 0, 0, 0, 0]),
    ("m3/s", one, 0, [0, 3, -1, 0, 0, 0, 0]),
    ("J", one, 0, [1, 2, -2, 0, 0, 0, 0]),
    ("J/m3", one, 0, [1, -1, -2, 0, 0, 0, 0]),
    ("W/m2", one, 0, [1, 0, -3, 0, 0, 0, 0]),
    ("m", one, 0, [0, 1, 0, 0, 0, 0, 0]),
    ("mm", nearestBinary64 false 1 (-3), 0, [0, 1, 0, 0, 0, 0, 0]),
    ("s", one, 0, [0, 0, 1, 0, 0, 0, 0]),
    ("K", one, 0, [0, 0, 0, 1, 0, 0, 0]),
    ("degC", one, nearestBinary64 false 27315 (-2), [0, 0, 0, 1, 0, 0, 0]),
    ("Pa", one, 0, [1, -1, -2, 0, 0, 0, 0]),
    ("bar", nearestBinary64 false 100000 0, 0, [1, -1, -2, 0, 0, 0, 0]),
    ("m/s", one, 0, [0, 1, -1, 0, 0, 0, 0]),
    ("m2/s", one, 0, [0, 2, -1, 0, 0, 0, 0]),
    ("kg/m3", one, 0, [1, -3, 0, 0, 0, 0, 0]),
    ("W", one, 0, [1, 2, -3, 0, 0, 0, 0]),
    ("W/m3", one, 0, [1, -1, -3, 0, 0, 0, 0])].map fun row => (row.1.toList, row.2)

/-- `si_value`. -/
def siValue (quantity : PhysicalQuantity) : Except IntakeError Binary64 :=
  match units.lookup quantity.unit with
  | none => .error (.unsupportedUnit quantity.unit)
  | some (scale, offset, dimensions) =>
    if quantity.dimensions ≠ dimensions then .error .unitDimensions
    else .ok (quantity.value * scale + offset)

/-- `sorted(UNITS, key=len, reverse=True)`. -/
def unitsByLength : List Text :=
  (units.map Prod.fst).insertionSort fun a b => b.length ≤ a.length

/-- The pattern of `_verified_unit_source`. -/
def unitPattern : Pattern :=
  .all [.group "value" Runtime.numberPattern, .spaces,
    .group "unit" (unitsByLength.foldr (fun unit p => .or (.exactly (String.ofList unit)) p)
      (.one fun _ => false)),
    .notAhead fun c => isAsciiLetter c || isAsciiDigit c || c == '/']

/-- The numbers with a unit in a text. -/
def unitPairs (evidence : Text) : List (Text × Text) :=
  (unitPattern.findAll evidence).map fun m => (groupText m "value", groupText m "unit")

/-- `float(token)`, for a token of a pattern. -/
def floatOf (token : Text) : Binary64 := (parseFloat token).getD .nan

/-- The tolerance of a conversion: `rel_tol=1e-10, abs_tol=1e-12`. -/
def closeConversion : Binary64 → Binary64 → Bool :=
  Binary64.isClose (nearestBinary64 false 1 (-10)) (nearestBinary64 false 1 (-12))

/-- The tolerance of a stated number: `rel_tol=1e-12, abs_tol=1e-12`. -/
def closeNumber : Binary64 → Binary64 → Bool :=
  Binary64.isClose (nearestBinary64 false 1 (-12)) (nearestBinary64 false 1 (-12))

/-- `_verified_unit_source`. -/
def verifiedUnitSource (fact : IntakeFact) (evidence : Text) :
    Except IntakeError (List (Text × Binary64)) :=
  match fact.quantity, unitPairs evidence with
  | some quantity, [(value, unit)] =>
    match units.lookup unit with
    | none => .error .malformed
    | some (scale, offset, dimensions) =>
      if dimensions ≠ quantity.dimensions then .ok []
      else
        match siValue quantity with
        | .error e => .error e
        | .ok si =>
          if !closeConversion (floatOf value * scale + offset) si then .ok []
          else if fact.unit.any (· ≠ quantity.unit) then .error .factUnit
          else if !(finiteNumbers fact.value).any (fun n => closeConversion n.2 quantity.value) then
            .error .factValue
          else .ok [(value, floatOf value)]
  | _, _ => .ok []

/-- A conversion is exact for its unit, and a number right behind a number is no unit. -/
example :
    finiteNumbers "2 m, x3, 1e400 and -.5e1.".toList = [("2".toList, nearestBinary64 false 2 0)] ∧
      unitPairs "20 degC and 3 kg/m3x".toList = [("20".toList, "degC".toList)] ∧
      closeNumber (nearestBinary64 false 1 (-13)) (nearestBinary64 false 2 (-13)) = true := by
  decide +kernel

/-! ### The validation -/

def reynoldsTarget : Text := "operating.reynolds_number".toList

/-- The fact that stands for a target. -/
def targetFact (spec : CFDIntakeSpec) (key : Text) : Option IntakeFact :=
  match spec.fact key with
  | some fact => some fact
  | none =>
    if key = reynoldsTarget then
      match spec.facts.filter fun fact => ".reynolds_number".toList.isSuffixOf fact.id with
      | [fact] => some fact
      | _ => none
    else none

/-- One turn of the loop over the live assignments. -/
def checkAssignment (spec : CFDIntakeSpec) (assignment : Text × Occurrence) :
    Except IntakeError Unit :=
  match targetFact spec assignment.1 with
  | none => .error (.noMatchingFact assignment.1)
  | some fact =>
    if fact.source ≠ .user then .error (.noMatchingFact assignment.1)
    else
      let values := finiteNumbers fact.value
      if values ≠ [] ∧ !values.any fun n => closeNumber n.2 (floatOf assignment.2.value) then
        if fact.quantity = none then .error (.notTheLatest assignment.1)
        else do
          let converted ← verifiedUnitSource fact assignment.2.evidence
          if converted = [] then throw (.notTheLatest assignment.1)
      else .ok ()

/-- `"\n".join(texts)`. -/
def joinLines (texts : List Text) : Text := List.intercalate ['\n'] texts

/-- `" ".join(part for part in (fact.value, fact.unit or "") if part)`. -/
def factText (fact : IntakeFact) : Text :=
  List.intercalate [' '] ([fact.value, fact.unit.getD []].filter (· ≠ []))

/-- The numbers of a fact that its evidence converts. -/
def convertedNumbers (fact : IntakeFact) : Except IntakeError (List (Text × Binary64)) :=
  if fact.source = .user ∧ fact.quantity ≠ none then
    verifiedUnitSource fact (fact.evidence.getD [])
  else .ok []

/-- The numbers that the facts of the user represent. -/
def representedNumbers (facts : List IntakeFact) : Except IntakeError (List (Text × Binary64)) := do
  let stated := (facts.filter fun fact => fact.category ≠ .context ∧ fact.source = .user).map factText
  let converted ← facts.mapM convertedNumbers
  return finiteNumbers (joinLines stated) ++ converted.flatten

/-- The last block of `validate_intake_provenance`. -/
def checkReady (spec : CFDIntakeSpec) : Except IntakeError Unit :=
  if spec.status ≠ .readyForReview then .ok ()
  else
    match spec.fact "request.summary".toList, spec.fact "classification.problem_type".toList with
    | some _, some classification =>
      if !spec.facts.any fun fact => fact.category = .objective then .error .noObjective
      else if classificationDirectCues.any fun row => row.1 = classification.value then .ok ()
      else .error .unsupportedClassification
    | _, _ => .error .missingFacts

/-- The selection of an ambiguity is found in an input. -/
def checkAmbiguity (sources : List EvidenceSource) (ambiguity : SemanticAmbiguity) :
    Except IntakeError Unit :=
  match ambiguity.selected, ambiguity.userEvidence with
  | some _, some evidence =>
    if sources.any fun source => contains evidence source.text then .ok ()
    else .error .selectionEvidence
  | some _, none => .error .malformed
  | none, _ => .ok ()

/-- The numbers of the active turns that no number represents. -/
def missingNumbers (supplied represented : List (Text × Binary64)) : List Text :=
  (supplied.filter fun n => !represented.any fun m => closeNumber n.2 m.2).map Prod.fst

/-- `validate_intake_provenance`: the specification as it leaves it. The order of the live
assignments decides only which error is raised. -/
def validateIntakeProvenance (unicode : UnicodeTables) (sha256 : Text → Text)
    (spec : CFDIntakeSpec) (request : UserRequest) : Except IntakeError CFDIntakeSpec := do
  let spec := normalizeSourceAttribution spec
  let sources := userEvidenceSources request
  let facts ← spec.facts.mapM (locateFact sha256 sources)
  let requirements := readTurns unicode request.turns
  let spec := { spec with facts, requirementHistory := requirements.history }
  (cancelledTargets unicode request.turns).forM fun target =>
    if (spec.fact target).isSome then throw (.stillActive target) else pure ()
  requirements.occurrences.items.forM (checkAssignment spec)
  facts.forM fun fact => match fact.quantity with
    | some quantity => do
      let _ ← siValue quantity
    | none => pure ()
  spec.ambiguities.forM (checkAmbiguity sources)
  let supplied := finiteNumbers (joinLines (activeTexts unicode request.turns))
  let represented ← representedNumbers facts
  if missingNumbers supplied represented ≠ [] then
    throw (.missingNumbers (missingNumbers supplied represented))
  checkReady spec
  return spec

end Agents
end OpenFoamAgent
