/-
# Finite floats

`float` arithmetic on finite numbers. A finite binary64 number is its signed
count of units `2 ^ -1074`, so that comparisons are those of `ℤ`; the two zeros
are one number.
-/
import OpenFoamAgent.Python.Float

namespace OpenFoamAgent
namespace Python

/-- A finite binary64 number, in units of `2 ^ -1074`. -/
abbrev Units := ℤ

/-- The number of a finite value. -/
def Binary64.toUnits : Binary64 → Option Units
  | .finite negative units => some (if negative then -(units : ℤ) else units)
  | _ => none

/-- `x <= y` for a finite number `x`. -/
def Binary64.bounds (y : Binary64) (x : Units) : Bool :=
  match y with
  | .finite negative units => x ≤ if negative then -(units : ℤ) else units
  | .infinite negative => !negative
  | .nan => false

/-- The number of units of a decimal literal. -/
def literalUnits (mantissa : ℕ) (exponent : ℤ) : ℕ :=
  match nearestBinary64 false mantissa exponent with
  | .finite _ units => units
  | _ => 0

/-- The product of two magnitudes. -/
def mulUnits (m n : ℕ) : ℕ := roundUnits (m * n) (2 ^ 1074)

/-- The binary64 value nearest to an exact sum or difference. -/
def Binary64.ofExact (n : ℤ) : Binary64 :=
  let units := roundUnits n.natAbs 1
  if units < overflowUnits then .finite (decide (n < 0)) units else .infinite (decide (n < 0))

/-- `x >= y` for a finite number `x`. -/
def Binary64.isBelow (y : Binary64) (x : Units) : Bool :=
  match y with
  | .finite negative units => (if negative then -(units : ℤ) else units) ≤ x
  | .infinite negative => negative
  | .nan => false

/-! ### Operations -/

namespace Binary64

instance : Zero Binary64 := ⟨.finite false 0⟩

/-- A magnitude that may have overflowed, with its sign. -/
def ofUnits (negative : Bool) (units : ℕ) : Binary64 :=
  if units < overflowUnits then .finite negative units else .infinite negative

/-- `abs(x)`. -/
def abs : Binary64 → Binary64
  | finite _ units => finite false units
  | infinite _ => infinite false
  | nan => nan

/-- `-x`. -/
def neg : Binary64 → Binary64
  | finite negative units => finite (!negative) units
  | infinite negative => infinite !negative
  | nan => nan

/-- `x + y`. A sum of zero is negative when both numbers are. -/
def add : Binary64 → Binary64 → Binary64
  | finite s m, finite t n =>
    let exact : ℤ := (if s then -(m : ℤ) else m) + if t then -(n : ℤ) else n
    if exact = 0 then finite (s && t) 0
    else ofUnits (decide (exact < 0)) (roundUnits exact.natAbs 1)
  | infinite s, infinite t => if s = t then infinite s else nan
  | infinite s, finite _ _ => infinite s
  | finite _ _, infinite t => infinite t
  | _, _ => nan

/-- `x * y`. -/
def mul : Binary64 → Binary64 → Binary64
  | finite s m, finite t n => ofUnits (s ^^ t) (mulUnits m n)
  | infinite s, infinite t => infinite (s ^^ t)
  | infinite s, finite t n => if n = 0 then nan else infinite (s ^^ t)
  | finite s m, infinite t => if m = 0 then nan else infinite (s ^^ t)
  | _, _ => nan

/-- `x / y`, `none` for the `ZeroDivisionError`. -/
def div : Binary64 → Binary64 → Option Binary64
  | _, finite _ 0 => none
  | finite s m, finite t n => some (ofUnits (s ^^ t) (roundUnits (m * 2 ^ 1074) n))
  | infinite s, finite t _ => some (infinite (s ^^ t))
  | finite s _, infinite t => some (finite (s ^^ t) 0)
  | _, _ => some nan

instance : Add Binary64 := ⟨add⟩
instance : Sub Binary64 := ⟨fun x y => add x (neg y)⟩
instance : Mul Binary64 := ⟨mul⟩

/-- `x / 2`. -/
def half (x : Binary64) : Binary64 := (x.div (finite false (2 ^ 1075))).getD nan

/-- `math.isfinite(x)`. -/
def isFinite : Binary64 → Bool
  | finite _ _ => true
  | _ => false

/-- `x <= y`. -/
def le : Binary64 → Binary64 → Bool
  | finite s m, y => y.bounds (if s then -(m : ℤ) else m)
  | infinite true, y => y != nan
  | infinite false, y => y == infinite false
  | nan, _ => false

/-- `x == 0.0`. -/
def isZero : Binary64 → Bool
  | finite _ 0 => true
  | _ => false

/-- One step of `sum`: the total and the compensation for its rounding. -/
def sumStep (state : Binary64 × Binary64) (x : Binary64) : Binary64 × Binary64 :=
  let (total, compensation) := state
  let t := total + x
  if x.abs.le total.abs then (t, compensation + ((total - t) + x))
  else (t, compensation + ((x - t) + total))

/-- `sum(values)` of floats, compensated. -/
def sum : List Binary64 → Binary64
  | [] => 0
  | x :: xs =>
    let (total, compensation) := xs.foldl sumStep (0 + x, 0)
    if !compensation.isZero && compensation.isFinite then total + compensation else total

/-- `math.isclose(x, y, rel_tol=relative, abs_tol=absolute)`. -/
def isClose (relative absolute x y : Binary64) : Bool :=
  (x.le y && y.le x) ||
    (x.isFinite && y.isFinite &&
      ((y - x).abs.le (relative * y).abs || (y - x).abs.le (relative * x).abs ||
        (y - x).abs.le absolute))

end Binary64

/-- `0.1 + 0.2` is not `0.3`, and `1e-9 * 2.0` is `2e-9`. -/
example :
    Binary64.ofExact (literalUnits 1 (-1) + literalUnits 2 (-1)) =
      .finite false (literalUnits 3 (-1) + 2 ^ 1020) ∧
    mulUnits (literalUnits 1 (-9)) (literalUnits 2 0) = literalUnits 2 (-9) := by
  decide +kernel

/-- `sum([0.1] * 10)` is `1.0`. -/
example : Binary64.sum (List.replicate 10 (.finite false (literalUnits 1 (-1)))) =
    .finite false (2 ^ 1074) := by
  decide +kernel

end Python
end OpenFoamAgent
