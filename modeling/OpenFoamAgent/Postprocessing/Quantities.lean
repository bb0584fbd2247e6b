/-
# Scalar quantities over time

`postprocessing/quantities.py`: the rows of a scalar table become a series of times and
values (`cleanSeries`), a window of it is cut out with interpolated ends (`window`), and
statistics of the piecewise linear function through the nodes of the window are taken
(`timeStatistics`).

The samples of a table are binary64 numbers. From there on the arithmetic is that of a
field with an order, in which nothing is rounded and no number is infinite.
-/
import Mathlib.Algebra.Order.Field.Basic
import Mathlib.Data.List.Sort
import OpenFoamAgent.Python.FloatArithmetic

namespace OpenFoamAgent
namespace Postprocessing

open Python

/-- The exceptions of the analysis of a quantity. -/
inductive QuantityError where
  /-- `Requested scalar column is missing.` -/
  | missingColumn
  /-- `Non-finite scalar sample; refusing to silently discard it.` -/
  | nonFinite
  /-- `Requested time lies outside observed data; extrapolation is forbidden.` -/
  | outside
  /-- `No scalar samples.` -/
  | noSamples
  /-- `Invalid analysis time interval.` -/
  | interval
  /-- `Time statistics require a positive observed interval.` -/
  | noInterval
  /-- `Time samples must be strictly increasing after restart reconciliation.` -/
  | notIncreasing
  /-- `Insufficient retained samples for the declared quantity.` -/
  | retained
  /-- `Difference/balance requires a second scalar source with the same declared units.` -/
  | noOther
  /-- `Insufficient second-source samples.` -/
  | otherRetained
  /-- `Declared time window has insufficient observed samples.` -/
  | windowSamples
  /-- `stats[op]` of a window without statistics. -/
  | noStatistics
  deriving DecidableEq

/-! ### The rows of a table -/

/-- A row: the time and the value of a sample. -/
def readSeriesRow (timeColumn valueColumn : ℕ) (row : List Binary64) :
    Except QuantityError (Units × Units) :=
  match row[timeColumn]?, row[valueColumn]? with
  | some t, some y =>
    match t.toUnits, y.toUnits with
    | some t, some y => .ok (t, y)
    | _, _ => .error .nonFinite
  | _, _ => .error .missingColumn

/-- The state of the loop of `clean_series`. -/
structure Cleaning where
  retained : List (Units × Units) := []
  duplicateTimes : ℕ := 0
  restartSegments : ℕ := 0
  deriving DecidableEq

/-- One sample more. -/
def Cleaning.note (c : Cleaning) (sample : Units × Units) : Cleaning :=
  match c.retained.getLast? with
  | some last =>
    if sample.1 ≤ last.1 then
      { retained := c.retained.rdropWhile (fun old => sample.1 ≤ old.1) ++ [sample]
        duplicateTimes := if sample.1 = last.1 then c.duplicateTimes + 1 else c.duplicateTimes
        restartSegments :=
          if sample.1 = last.1 then c.restartSegments else c.restartSegments + 1 }
    else { c with retained := c.retained ++ [sample] }
  | none => { c with retained := c.retained ++ [sample] }

/-- `clean_series`. -/
def cleanSeries (timeColumn valueColumn : ℕ) (rows : List (List Binary64)) :
    Except QuantityError Cleaning :=
  rows.foldlM (fun c row => (readSeriesRow timeColumn valueColumn row).map c.note) {}

/-! ### Windows -/

section
variable {K : Type} [Field K] [LinearOrder K]

/-- Times with their values. -/
abbrev Series (K : Type) := List (K × K)

/-- `bisect.bisect_left(series, time, key=lambda row: row[0])` of a sorted series. -/
def bisectLeft (series : Series K) (time : K) : ℕ := series.findIdx fun row => time ≤ row.1

/-- `interpolate`. -/
def interpolate (series : Series K) (time : K) : Except QuantityError K :=
  let index := bisectLeft series time
  match series[index]? with
  | none => .error .outside
  | some (t₁, y₁) =>
    if t₁ = time then .ok y₁
    else if index = 0 then .error .outside
    else
      match series[index - 1]? with
      | none => .error .outside
      | some (t₀, y₀) => .ok (y₀ + (y₁ - y₀) * (time - t₀) / (t₁ - t₀))

/-- `window`. -/
def window (series : Series K) (start stop : Option K) : Except QuantityError (Series K) := do
  match series.head?, series.getLast? with
  | some head, some last =>
    let start := start.getD head.1
    let stop := stop.getD last.1
    if stop < start then throw .interval
    let first ← interpolate series start
    let final ← interpolate series stop
    return (start, first) :: (series.filter (fun row => start < row.1 ∧ row.1 < stop) ++
      if start < stop then [(stop, final)] else [])
  | _, _ => throw .noSamples

/-! ### Statistics -/

/-- `metrics` of `time_statistics`. -/
structure TimeStatistics (K : Type) where
  duration : K
  integral : K
  timeMean : K
  rms : K
  fluctuationRms : K
  uniformTimeSpacing : Bool
  deriving DecidableEq

/-- The sums of the loop of `time_statistics`. -/
structure TimeSums (K : Type) where
  integral : K
  square : K
  deltas : List K
  deriving DecidableEq

/-- One segment more. -/
def TimeSums.add (sums : TimeSums K) (segment : (K × K) × (K × K)) :
    Except QuantityError (TimeSums K) :=
  let dt := segment.2.1 - segment.1.1
  let y₀ := segment.1.2
  let y₁ := segment.2.2
  if dt ≤ 0 then .error .notIncreasing
  else .ok {
    integral := sums.integral + dt * (y₀ + y₁) / 2
    square := sums.square + dt * (y₀ * y₀ + y₀ * y₁ + y₁ * y₁) / 3
    deltas := sums.deltas ++ [dt] }

/-- The loop of `time_statistics`. -/
def timeSums (series : Series K) : Except QuantityError (TimeSums K) :=
  (series.zip series.tail).foldlM TimeSums.add ⟨0, 0, []⟩

/-- `math.isclose(a, b, rel_tol=1e-6, abs_tol=1e-12)`. -/
def isClose (a b : K) : Bool :=
  |a - b| ≤ max (max |a| |b| / 10 ^ 6) (1 / 10 ^ 12)

/-- The mean square deviation whose root is reported. -/
def variance (integral square duration : K) : K :=
  let mean := integral / duration
  square / duration - mean * mean

/-- `time_statistics`; `sqrt` is that of `math`. -/
def timeStatistics (sqrt : K → K) (series : Series K) : Except QuantityError (TimeStatistics K) := do
  match series with
  | first :: second :: rest =>
    let last := (second :: rest).getLastD second
    if last.1 ≤ first.1 then throw .noInterval
    let duration := last.1 - first.1
    let sums ← timeSums series
    return {
      duration
      integral := sums.integral
      timeMean := sums.integral / duration
      rms := sqrt (max 0 (sums.square / duration))
      fluctuationRms := sqrt (max 0 (variance sums.integral sums.square duration))
      uniformTimeSpacing := sums.deltas.all fun dt => isClose dt (sums.deltas.headD dt) }
  | _ => throw .noInterval

/-! ### The analysis -/

/-- `sorted({t for t,y in a} | {t for t,y in b})`. -/
def timesOf (a b : Series K) : List K :=
  (a.map Prod.fst ++ b.map Prod.fst).dedup.insertionSort (· ≤ ·)

/-- The difference of two windows at the times of both. -/
def differenceOf (a b : Series K) : Except QuantityError (Series K) :=
  (timesOf a b).mapM fun t => do
    let x ← interpolate a t
    let y ← interpolate b t
    return (t, x - y)

end

end Postprocessing
end OpenFoamAgent
