/-
# Conservation checks on saved fields

`ConservationCheck` of `contracts/models.py` and `analyze_conservation` of
`postprocessing/conservation.py`: for every region of a check and every two
consecutive saved times the change of the stored quantity, the mean outward
flux and the mean source are to balance, and so are the fluxes of the two sides
of an interface at every saved time. The arithmetic is that of binary64 numbers.

What `postprocessing/native_fields.py` reads from the files of a case is an
argument (`SavedFields`): the patches and cell volumes of a mesh, the values of
a field, and whether the files read before are still the same.
-/
import OpenFoamAgent.Engineering.ExecutionScopes
import OpenFoamAgent.Library.Dict
import OpenFoamAgent.Python.FloatArithmetic

namespace OpenFoamAgent
namespace Postprocessing

open Python Schemas Engineering

/-! ### The contract -/

/-- `resolution_state`. -/
inductive ResolutionState where
  | intent | resolved
  deriving DecidableEq

/-- `ConservationCheck.kind`. -/
inductive BalanceKind where
  | mass | energy | volume
  deriving DecidableEq

/-- `RegionBalance`. Its validator makes the two modes say whether a density field is named. -/
structure RegionBalance where
  region : Text := []
  fluxField : Text
  storageDensityField : Option Text := none
  sourceDensityField : Option Text := none
  deriving DecidableEq

/-- `ConservationCheck`. The tolerances are finite and not negative, in units of `2 ^ -1074`. -/
structure ConservationCheck where
  id : Text
  kind : BalanceKind
  resolutionState : ResolutionState := .intent
  regions : List RegionBalance := []
  timeNames : List Text := []
  absoluteTolerance : ℕ := 0
  relativeTolerance : ℕ := literalUnits 5 (-2)
  checkInterfaces : Bool := true
  deriving DecidableEq

/-- The exceptions of `validate_balance`. -/
inductive BalanceError where
  /-- `Field observation requires literal finite time directory names.` -/
  | timeNames
  /-- `Field observation times must be strictly increasing and unique.` -/
  | timeOrder
  /-- `Resolved conservation check requires at least one region.` -/
  | noRegions
  /-- `Conservation region names must be unique.` -/
  | regionNames
  deriving DecidableEq

/-- An exponent, or nothing. -/
def isExponent : Text → Bool
  | [] => true
  | c :: cs =>
    (c == 'e' || c == 'E') && (splitSign cs).2 ≠ [] && (splitSign cs).2.all isAsciiDigit

/-- `(?:[0-9]+(?:\.[0-9]*)?|\.[0-9]+)(?:[eE][+-]?[0-9]+)?` -/
def isTimeName (t : Text) : Bool :=
  match t.span isAsciiDigit with
  | ([], '.' :: cs) => (cs.span isAsciiDigit).1 ≠ [] && isExponent (cs.span isAsciiDigit).2
  | ([], _) => false
  | (_, '.' :: cs) => isExponent (cs.dropWhile isAsciiDigit)
  | (_, rest) => isExponent rest

/-- The number of a time name, where it is finite. -/
def timeUnits (name : Text) : Option Units := (parseFloat name).bind Binary64.toUnits

/-- `validate_balance`, with the `NativeFieldReduction` it builds to check the time names. -/
def ConservationCheck.validateBalance (check : ConservationCheck) : Except BalanceError Unit :=
  if check.resolutionState ≠ .resolved then .ok ()
  else if check.timeNames.any fun t => !isTimeName t || (timeUnits t).isNone then .error .timeNames
  else if ¬ (check.timeNames.filterMap timeUnits).Pairwise (· < ·) then .error .timeOrder
  else if check.regions = [] then .error .noRegions
  else if ¬ (check.regions.map (·.region)).Nodup then .error .regionNames
  else .ok ()

/-! ### Evidence -/

/-- A file that was read. -/
structure SourceRecord where
  path : Text
  sha256 : Digest
  sizeBytes : ℕ
  deriving DecidableEq

abbrev Evidence := List SourceRecord

/-- What `read_mesh` returns, as far as the check uses it. -/
structure RegionMesh where
  patches : List Text
  nodup : patches.Nodup
  volumes : List Binary64

/-- The exceptions of the analysis. -/
inductive AnalysisError where
  | scope (e : ScopeError)
  /-- `Conservation references an undeclared region.` -/
  | undeclaredRegion
  /-- An exception of `native_fields.py`. -/
  | evidence (message : Text)
  /-- `could not convert string to float` -/
  | timeName (name : Text)
  /-- `float division by zero` -/
  | zeroDivision
  /-- `Nonfinite conservation arithmetic.` -/
  | nonfinite
  /-- `A requested interface check must include both adjacent regions.` -/
  | oneSided
  /-- `Declared interface patch is absent in native evidence.` -/
  | absentPatch
  deriving DecidableEq

/-- The saved fields of a case, as `native_fields.py` reads them. A read adds what it read to the
evidence. -/
structure SavedFields where
  /-- `read_mesh(workspace, region, evidence)` -/
  readMesh : Text → Evidence → Except AnalysisError (RegionMesh × Evidence)
  /-- The internal values of `read_field(workspace, time, region, name, mesh, evidence, …)` for a
  volume field. -/
  readVolumes : Text → Text → Text → RegionMesh → List ℤ → Evidence →
    Except AnalysisError (List Binary64 × Evidence)
  /-- `read_field` for a surface field, and `patch_values` of it on every patch. -/
  readFluxes : Text → Text → Text → RegionMesh → List ℤ → Evidence →
    Except AnalysisError ((Text → List Binary64) × Evidence)
  /-- `check_sources_current(workspace, sources)` -/
  sourcesCurrent : Evidence → Bool

/-! ### The analysis -/

/-- `RATE_DIM`. -/
def rateDimensions : BalanceKind → List ℤ
  | .mass => [1, 0, -1, 0, 0, 0, 0]
  | .energy => [1, 2, -3, 0, 0, 0, 0]
  | .volume => [0, 3, -1, 0, 0, 0, 0]

/-- The dimensions of a density whose rate has the dimensions. -/
def storageDimensions (rate : List ℤ) : List ℤ := (rate.modify 1 (· - 3)).modify 2 (· + 1)

def sourceDimensions (rate : List ℤ) : List ℤ := rate.modify 1 (· - 3)

/-- One entry of `samples`. -/
structure Sample where
  time : Binary64
  storage : Binary64
  source : Binary64
  outwardFlux : Binary64
  absoluteFlux : Binary64
  patches : List (Text × Binary64)
  deriving DecidableEq

/-- One entry of `intervals`. -/
structure BalanceInterval where
  region : Text
  start : Binary64
  stop : Binary64
  storageRate : Binary64
  outwardFlux : Binary64
  sourceRate : Binary64
  residual : Binary64
  tolerance : Binary64
  passed : Bool
  deriving DecidableEq

/-- One entry of `interfaces`. -/
structure InterfaceRow where
  pair : (Text × Text) × Text × Text
  time : Binary64
  residual : Binary64
  tolerance : Binary64
  passed : Bool
  deriving DecidableEq

/-- The analysis of one check. -/
structure Analysis where
  id : Text
  kind : BalanceKind
  /-- `conservation_verified` -/
  verified : Bool
  sources : Evidence
  intervals : List BalanceInterval
  interfaces : List InterfaceRow
  /-- `equation_contract` -/
  contract : ConservationCheck
  deriving DecidableEq

/-- A finite tolerance. -/
def tolerance (units : ℕ) : Binary64 := .finite false units

/-- `sum(v * vol for v, vol in zip(values, mesh.volumes))` of a density field, 0 without one. -/
def integrate (saved : SavedFields) (name region : Text) (mesh : RegionMesh)
    (dimensions : List ℤ) (field : Option Text) (evidence : Evidence) :
    Except AnalysisError (Binary64 × Evidence) :=
  match field with
  | none => .ok (0, evidence)
  | some field => do
    let (values, evidence) ← saved.readVolumes name region field mesh dimensions evidence
    return (Binary64.sum (List.zipWith (· * ·) values mesh.volumes), evidence)

/-- The sample of a region at a time. -/
def readSample (saved : SavedFields) (kind : BalanceKind) (region : RegionBalance)
    (mesh : RegionMesh) (name : Text) (evidence : Evidence) :
    Except AnalysisError (Sample × Evidence) := do
  let rate := rateDimensions kind
  let (fluxes, evidence) ← saved.readFluxes name region.region region.fluxField mesh rate evidence
  let patches := mesh.patches.map fun patch => (patch, Binary64.sum (fluxes patch))
  let absoluteFlux := mesh.patches.foldl
    (fun total patch => total + Binary64.sum ((fluxes patch).map Binary64.abs)) 0
  let (storage, evidence) ← integrate saved name region.region mesh (storageDimensions rate)
    region.storageDensityField evidence
  let (source, evidence) ← integrate saved name region.region mesh (sourceDimensions rate)
    region.sourceDensityField evidence
  match parseFloat name with
  | none => .error (.timeName name)
  | some time =>
    return (⟨time, storage, source, Binary64.sum (patches.map Prod.snd), absoluteFlux, patches⟩,
      evidence)

/-- The samples of a region. -/
def readSamples (saved : SavedFields) (kind : BalanceKind) (region : RegionBalance)
    (mesh : RegionMesh) : List Text → Evidence → Except AnalysisError (List Sample × Evidence)
  | [], evidence => .ok ([], evidence)
  | name :: names, evidence => do
    let (sample, evidence) ← readSample saved kind region mesh name evidence
    let (samples, evidence) ← readSamples saved kind region mesh names evidence
    return (sample :: samples, evidence)

/-- The balance between two samples. -/
def balanceInterval (check : ConservationCheck) (region : Text) (a b : Sample) :
    Except AnalysisError BalanceInterval :=
  match (b.storage - a.storage).div (b.time - a.time) with
  | none => .error .zeroDivision
  | some change =>
    let flux := (a.outwardFlux + b.outwardFlux).half
    let source := (a.source + b.source).half
    let residual := change + flux - source
    let scale := change.abs + (a.absoluteFlux + b.absoluteFlux).half +
      (a.source.abs + b.source.abs).half
    let allowed := tolerance check.absoluteTolerance + tolerance check.relativeTolerance * scale
    if [change, flux, source, residual, scale, allowed].any fun x => !x.isFinite then
      .error .nonfinite
    else .ok ⟨region, a.time, b.time, change, flux, source, residual, allowed,
      residual.abs.le allowed⟩

/-- The intervals between consecutive samples. -/
def balanceIntervals (check : ConservationCheck) (region : Text) (samples : List Sample) :
    Except AnalysisError (List BalanceInterval) :=
  (samples.zip samples.tail).mapM fun pair => balanceInterval check region pair.1 pair.2

/-- The loop over the regions: their samples, and all intervals. -/
def balanceRegions (saved : SavedFields) (check : ConservationCheck) :
    List RegionBalance → Evidence →
      Except AnalysisError (List (Text × List Sample) × List BalanceInterval × Evidence)
  | [], evidence => .ok ([], [], evidence)
  | region :: regions, evidence => do
    let (mesh, evidence) ← saved.readMesh region.region evidence
    let (samples, evidence) ← readSamples saved check.kind region mesh check.timeNames evidence
    let intervals ← balanceIntervals check region.region samples
    let (observed, rest, evidence) ← balanceRegions saved check regions evidence
    return ((region.region, samples) :: observed, intervals ++ rest, evidence)

/-- `tuple(sorted(((a, interface.patch), (b, interface.neighbour_patch))))` -/
def interfaceKey (interface : RegionInterface) : (Text × Text) × Text × Text :=
  let left := (interface.region, interface.patch)
  let right := (interface.neighbourRegion, interface.neighbourPatch)
  if left.1 < right.1 ∨ (left.1 = right.1 ∧ left.2 ≤ right.2) then (left, right) else (right, left)

/-- The two sides of an interface at one time. -/
def interfaceRow (check : ConservationCheck) (interface : RegionInterface) (x y : Sample) :
    Except AnalysisError InterfaceRow :=
  match x.patches.lookup interface.patch, y.patches.lookup interface.neighbourPatch with
  | some q₁, some q₂ =>
    let residual := q₁ + q₂
    let allowed := tolerance check.absoluteTolerance +
      tolerance check.relativeTolerance * (q₁.abs + q₂.abs)
    .ok ⟨interfaceKey interface, x.time, residual, allowed, residual.abs.le allowed⟩
  | _, _ => .error .absentPatch

/-- One turn of the loop over the interfaces, on the pairs met and the rows made so far. -/
def interfaceStep (check : ConservationCheck) (observations : Dict Text (List Sample))
    (state : List ((Text × Text) × Text × Text) × List InterfaceRow)
    (interface : RegionInterface) :
    Except AnalysisError (List ((Text × Text) × Text × Text) × List InterfaceRow) :=
  match observations.get interface.region, observations.get interface.neighbourRegion with
  | none, none => .ok state
  | some xs, some ys =>
    if state.1.contains (interfaceKey interface) then .ok state
    else do
      let rows ← (xs.zip ys).mapM fun pair => interfaceRow check interface pair.1 pair.2
      return (interfaceKey interface :: state.1, state.2 ++ rows)
  | _, _ => .error .oneSided

/-- `analyze_conservation`. -/
def analyzeConservation (saved : SavedFields) (check : ConservationCheck) (plan : EngineeringPlan) :
    Except AnalysisError Analysis := do
  let layouts ← (declaredScopes plan).mapError .scope
  if check.regions.any fun r => !(layouts.map fun s => s.name.getD []).contains r.region then
    .error .undeclaredRegion
  else do
    let (observed, intervals, evidence) ← balanceRegions saved check check.regions []
    let (_, interfaces) ←
      if check.checkInterfaces then
        plan.interfaces.foldlM (interfaceStep check (.ofItems observed)) ([], [])
      else .ok ([], [])
    if saved.sourcesCurrent evidence then
      return ⟨check.id, check.kind, intervals.all (·.passed) && interfaces.all (·.passed), evidence,
        intervals, interfaces, check⟩
    else .error (.evidence "Physical analysis source changed".toList)

end Postprocessing
end OpenFoamAgent
