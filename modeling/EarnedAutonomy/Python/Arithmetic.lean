import EarnedAutonomy.Lib.FloatText
import EarnedAutonomy.Python.Value

/-!
# Floating-point arithmetic

The trust statistics compute with floats.  `Arithmetic` has the operations they
use, so that their definitions can be read both over binary64, which is what
the code runs on, and over exact numbers.

The instance on `Dyadic` is binary64 in the range of the statistics, where
nothing overflows: every operation rounds its exact result to the nearest
value, ties to even.
-/

namespace EarnedAutonomy

open FloatText

/-- The operations on floats that the statistics use. -/
class Arithmetic (F : Type) where
  ofNat : Nat → F
  /-- `a / b` of two integers. -/
  ratio : Nat → Nat → F
  /-- The literal `digits * 10 ^ (-places)`. -/
  decimal (digits places : Nat) : F
  add : F → F → F
  sub : F → F → F
  mul : F → F → F
  div : F → F → F
  sqrt : F → F
  le : F → F → Bool
  lt : F → F → Bool
  toFloat : F → PyFloat
  /-- `f"{x:.3f}"` -/
  fixed3 : F → String

namespace Double

/-- A number as a fraction with a power of two below. -/
def fraction : Dyadic → Int × Nat
  | .zero => (0, 1)
  | .ofOdd n k _ => (n * 2 ^ (-k).toNat, 2 ^ k.toNat)

/-- The binary64 value nearest to a fraction. -/
def nearest (a : Int) (b : Nat) : Dyadic :=
  if a < 0 then -toDouble a.natAbs b else toDouble a.natAbs b

/-- The binary64 value nearest to a number. -/
def round (d : Dyadic) : Dyadic := nearest (fraction d).1 (fraction d).2

def div (x y : Dyadic) : Dyadic :=
  let (a, b) := fraction x
  let (c, d) := fraction y
  nearest (a * d * c.sign) (b * c.natAbs)

/-- The integer square root, one binary digit after the other. -/
def floorSqrt (n : Nat) : Nat → Nat → Nat
  | 0, root => root
  | bit + 1, root =>
      let next := root + 2 ^ bit
      floorSqrt n bit (if next * next ≤ n then next else root)

/-- The square root, from 64 binary places and a sticky digit. -/
def sqrt (x : Dyadic) : Dyadic :=
  let (a, b) := fraction x
  let scaled := a.natAbs * b * 4 ^ 64
  let root := floorSqrt scaled (bitLength scaled) 0
  let sticky := if root * root = scaled then 0 else 1
  nearest (2 * root + sticky) (2 * b * 2 ^ 64)

/-- `f"{x:.3f}"`, from the exact value, ties to even. -/
def fixed3 (x : Dyadic) : String :=
  let (a, b) := fraction x
  let thousandths := roundDiv (a.natAbs * 1000) b
  let digits (n : Nat) : String := String.ofList (Nat.toDigits 10 n)
  let rest := digits (1000 + thousandths % 1000)
  (if a < 0 then "-" else "") ++ digits (thousandths / 1000) ++ "." ++
    String.ofList (rest.toList.drop 1)

end Double

instance : Arithmetic Dyadic where
  ofNat n := toDouble n 1
  ratio a b := toDouble a b
  decimal digits places := toDouble digits (10 ^ places)
  add x y := Double.round (x + y)
  sub x y := Double.round (x - y)
  mul x y := Double.round (x * y)
  div := Double.div
  sqrt := Double.sqrt
  le x y := x ≤ y
  lt x y := x < y
  toFloat := .fin
  fixed3 := Double.fixed3

end EarnedAutonomy
