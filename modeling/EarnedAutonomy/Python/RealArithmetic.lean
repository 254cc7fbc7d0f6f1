import EarnedAutonomy.Python.Arithmetic
import Mathlib.Analysis.Real.Sqrt

/-!
# Exact arithmetic

The statistics over the reals, where no operation rounds.  Only what leaves the
statistics as a float or a text is cut, after 64 binary places.
-/

namespace EarnedAutonomy

/-- The binary64 value next to the first 64 binary places of a number. -/
noncomputable def Double.ofReal (x : ℝ) : Dyadic :=
  Double.nearest ⌊x * ((2 : Nat) : ℝ) ^ 64⌋ (2 ^ 64)

open Classical in
noncomputable instance : Arithmetic ℝ where
  ofNat n := n
  ratio a b := a / b
  decimal digits places := digits / 10 ^ places
  add := (· + ·)
  sub := (· - ·)
  mul := (· * ·)
  div := (· / ·)
  sqrt := Real.sqrt
  le x y := decide (x ≤ y)
  lt x y := decide (x < y)
  toFloat x := .fin (Double.ofReal x)
  fixed3 x := Double.fixed3 (Double.ofReal x)

namespace Arithmetic

@[simp] theorem ofNat_real (n : Nat) : (Arithmetic.ofNat n : ℝ) = n := rfl

@[simp] theorem ratio_real (a b : Nat) : (ratio a b : ℝ) = a / b := rfl

@[simp] theorem decimal_real (digits places : Nat) :
    (decimal digits places : ℝ) = digits / 10 ^ places := rfl

@[simp] theorem add_real (x y : ℝ) : add x y = x + y := rfl

@[simp] theorem sub_real (x y : ℝ) : sub x y = x - y := rfl

@[simp] theorem mul_real (x y : ℝ) : mul x y = x * y := rfl

@[simp] theorem div_real (x y : ℝ) : div x y = x / y := rfl

@[simp] theorem sqrt_real (x : ℝ) : sqrt x = √x := rfl

@[simp] theorem le_real {x y : ℝ} : le x y = true ↔ x ≤ y := decide_eq_true_iff

@[simp] theorem lt_real {x y : ℝ} : lt x y = true ↔ x < y := decide_eq_true_iff

end Arithmetic

end EarnedAutonomy
