/-
# Engineering plans and case seals

The records of `schemas/engineering.py` and `contracts/models.py` that the
controllers compare: `EngineeringPlan` with its confirmed-fact bindings and its
execution specification, and the case seals.

A field whose content no modelled function looks into is a `Document`, the
canonical JSON text of that part of the record.
-/
import OpenFoamAgent.Python.Codec

namespace OpenFoamAgent
namespace Schemas

open Python

/-- The canonical JSON text of a part of a record. -/
abbrev Document := Text

/-- The SHA-256 digest of a value's canonical bytes. The model takes the hash to be free of
collisions: a digest stands for the value it was computed from. -/
structure Sha256 (α : Type) where
  preimage : α
  deriving DecidableEq

/-- `hashlib.sha256(data).hexdigest()` of a file's content. -/
abbrev Digest := Sha256 Bytes

/-- `CaseContentAssertion`. -/
structure CaseContentAssertion where
  path : Text
  entryPath : Option Text := none
  expectedValue : Text := []
  anchor : Text := []
  contains : List Text := []
  deriving DecidableEq

/-- `NumericEvidenceTerm`. -/
structure NumericEvidenceTerm where
  path : Text
  entryPath : Option Text := none
  anchor : Text := []
  numberIndex : ℕ := 0
  occurrence : ℕ := 0
  multiplier : Document := "1.0".toList
  excerpt : Text := []
  valueToken : Text := []
  deriving DecidableEq

/-- `NumericRelationAssertion`. -/
structure NumericRelationAssertion where
  numerator : List NumericEvidenceTerm := []
  denominator : List NumericEvidenceTerm := []
  relativeTolerance : Document := "1e-06".toList
  deriving DecidableEq

/-- `ConfirmedFactBinding`. -/
structure ConfirmedFactBinding where
  factId : Text
  caseFiles : List Text := []
  planFields : List Text := []
  caseAssertions : List CaseContentAssertion := []
  numericRelation : Option NumericRelationAssertion := none
  explanation : Text := []
  deriving DecidableEq

/-- `ExecutionScope`: the root case (`name` is `none`) or a named region. -/
structure ExecutionScope where
  name : Option Text := none
  solverModule : Option Text := none
  solverProviderId : Option Text := none
  deriving DecidableEq

/-- `OpenFOAMExecutionSpec`. The mirrors of the scopes in the older wire format are
functions of the scopes and are not stored. -/
structure ExecutionSpec where
  driver : Text
  driverProviderId : Text
  scopes : List ExecutionScope
  arguments : List Text := []
  parallel : Document := []
  deriving DecidableEq

/-- `RegionCaseLayout`. -/
structure RegionCaseLayout where
  region : Text := []
  solverModule : Option Text := none
  requiredFields : List Text := []
  deriving DecidableEq

/-- `RegionInterface`. -/
structure RegionInterface where
  region : Text
  patch : Text
  neighbourRegion : Text
  neighbourPatch : Text
  fields : List Text := []
  deriving DecidableEq

/-- `CompletionContract`. -/
structure CompletionContract where
  requiredResultFields : List Text := []
  criteria : Document := []
  deriving DecidableEq

/-- `temporal_behavior`. -/
inductive TemporalBehavior where
  | steady | transient | custom
  deriving DecidableEq

/-- `motion_kind`. -/
inductive MotionKind where
  | static | rigidBody | prescribedDeformation | freeBody | twoWayFsi | custom
  deriving DecidableEq

/-- `mesh_motion_requirement`. -/
inductive MeshMotion where
  | static | moving | deforming | topologyChange | custom
  deriving DecidableEq

/-- `EngineeringPlan`. -/
structure EngineeringPlan where
  caseName : Text
  solver : Text
  solverProviderId : Text
  execution : Option ExecutionSpec := none
  regionLayouts : List RegionCaseLayout := []
  interfaces : List RegionInterface := []
  completion : Option CompletionContract := none
  quantitiesOfInterest : Document := []
  conservationChecks : Document := []
  implementationEvidenceBindings : Document := []
  openfoamVersion : Text
  problemInterpretation : Text
  temporalBehavior : TemporalBehavior
  motionKind : MotionKind
  meshMotionRequirement : MeshMotion
  meshStrategy : Text
  decisions : Document := []
  assumptions : List Text := []
  engineeringDefaults : Document := []
  planConflicts : List Text := []
  confirmedFactIds : List Text := []
  confirmedFactBindings : List ConfirmedFactBinding := []
  evidence : Document := []
  requiredCaseFiles : List Text := []
  postprocessStrategy : List Text := []
  confirmedIntakeSha256 : Text
  deriving DecidableEq

/-- `EngineeringPlan.digest`. The keys it leaves out hold their defaults, so the digested
JSON determines the plan. -/
def EngineeringPlan.digest (plan : EngineeringPlan) : Sha256 EngineeringPlan := ⟨plan⟩

/-- `CaseFileSeal.origin`. -/
inductive FileOrigin where
  | agent | native | userAsset
  deriving DecidableEq

/-- `CaseFileSeal`. -/
structure CaseFileSeal where
  path : Text
  sha256 : Digest
  sizeBytes : ℕ
  origin : FileOrigin
  deriving DecidableEq

/-- `CaseSeal`. -/
structure CaseSeal where
  planSha256 : Sha256 EngineeringPlan
  manifestSha256 : Sha256 (List CaseFileSeal)
  files : List CaseFileSeal
  deriving DecidableEq

end Schemas
end OpenFoamAgent
