import Mathlib

/-!
# Binary floating point

Numbers of a binary format as the rationals they stand for: `BigFloat` for arbitrary precision and `Float64` for the
double format, with roundings to the nearest number and to the even one of two.
-/

namespace BinFloat

def pow2 (e : Int) : Rat := if 0 ≤ e then ((2 ^ e.toNat : Nat) : Rat) else 1 / ((2 ^ (-e).toNat : Nat) : Rat)

variable (x : Rat)

/-- The nearest integer, the even one of two. -/
def roundEven : Int :=
  let below := x.floor
  let rest := x - below
  if rest < 1 / 2 ∨ rest = 1 / 2 ∧ below % 2 = 0 then below else below + 1

def leadingBit : Int :=
  let e := (x.num.natAbs.log2 : Int) - x.den.log2
  if |x| < pow2 e then e - 1 else e

def roundAt (e : Int) (x : Rat) : Rat := roundEven (x / pow2 e) * pow2 e

/-- `big.Float` of the package `math/big`, with its precision in bits; operations round to the nearest even number of the
result's precision. -/
structure BigFloat where
  prec : Nat
  val : Rat

namespace BigFloat

def rounded (prec : Nat) (x : Rat) : BigFloat := ⟨prec, if x = 0 then 0 else roundAt (leadingBit x - prec + 1) x⟩

def bitLen (x : Int) : Nat := if x = 0 then 0 else x.natAbs.log2 + 1

/-- `SetInt` of a new number. -/
def setInt (x : Int) : BigFloat := ⟨max (bitLen x) 64, x⟩

/-- `SetInt64` of a new number. -/
def setInt64 (x : Int) : BigFloat := ⟨64, x⟩

/-- `SetFloat64` of a new number, for the float one. -/
def setFloat64One : BigFloat := ⟨53, 1⟩

def mul (x y : BigFloat) : BigFloat := rounded (max x.prec y.prec) (x.val * y.val)

/-- `Quo`, for a nonzero divisor. -/
def quo (x y : BigFloat) : BigFloat := rounded (max x.prec y.prec) (x.val / y.val)

/-- `Int`, which cuts the fraction off. -/
def int (x : BigFloat) : Int := x.val.num.tdiv x.val.den

end BigFloat

/-- `float64`, without the sign of zero. -/
inductive Float64 where
  | finite (val : Rat)
  | inf (neg : Bool)
deriving DecidableEq

/-- The rounding of a `float64` as if there were no largest one: 53 bits, fewer near zero. -/
def round64 : Rat := if x = 0 then 0 else roundAt (max (leadingBit x - 52) (-1074)) x

def Float64.ofRat : Float64 :=
  if pow2 1024 ≤ |round64 x| then .inf (decide (x < 0)) else .finite (round64 x)

def Float64.scale (c : Nat) : Float64 → Float64
  | .finite x => .ofRat (x * c)
  | .inf neg => .inf neg

/-- The nearest integer, of two the one further from zero. -/
def roundAway : Int := if 0 ≤ x then (x + 1 / 2).floor else -(1 / 2 - x).floor

def Float64.round : Float64 → Float64
  | .finite x => .finite (roundAway x)
  | .inf neg => .inf neg

/-- `int64` of a float, with the value that the processor gives out of range. -/
def Float64.toInt64 : Float64 → Int
  | .finite x =>
    let n := x.num.tdiv x.den
    if -2 ^ 63 ≤ n ∧ n < 2 ^ 63 then n else -2 ^ 63
  | .inf _ => -2 ^ 63

end BinFloat
