import EarnedAutonomy.Lib.CanonicalJson
import Mathlib.Algebra.Group.Int.Defs
import Mathlib.Algebra.Group.Nat.Defs

/-!
# Shortest decimal texts of binary fractions

A binary64 value is written with the fewest decimal digits that read back to
it.  Finite values are `Dyadic` numbers here.

* `readFloat` reads a decimal text and rounds it to the nearest binary64 value,
  ties to even.
* `layout` places the point or the exponent in a string of digits.
* `floatChars` tries one digit, two digits and so on up to 17 and takes the
  first text that `readFloat` reads back as the value.  17 digits always
  suffice for a binary64 value.  A number that is not one has no such text
  and gets `exactText`, which `readFloat` does not read.

Because the choice checks itself against the reader, two values never share a
text (`floatChars_injective`).
-/

namespace FloatText

open CanonicalJson

/-! ## Reading -/

/-- The quotient rounded to the nearest integer, ties to even. -/
def roundDiv (a b : Nat) : Nat :=
  if 2 * (a % b) < b then a / b
  else if b < 2 * (a % b) then a / b + 1
  else if a / b % 2 = 0 then a / b
  else a / b + 1

/-- The number of binary digits. -/
def bitLength (n : Nat) : Nat := if n = 0 then 0 else Nat.log2 n + 1

/-- The binary64 value nearest to `a / b`: 53 significant bits, fewer below the
smallest normal exponent. -/
def toDouble (a b : Nat) : Dyadic :=
  let num (s : Int) : Nat := a * 2 ^ (-s).toNat
  let den (s : Int) : Nat := b * 2 ^ s.toNat
  let s0 : Int := (bitLength a : Int) - bitLength b - 53
  let s1 : Int := if num s0 / den s0 < 2 ^ 53 then s0 else s0 + 1
  let s : Int := max s1 (-1074)
  Dyadic.ofIntWithPrec (roundDiv (num s) (den s)) (-s)

/-- The exponent part of a decimal text. -/
def readExponent : List Char → Option Int
  | [] => some 0
  | 'e' :: '-' :: ds =>
      if ds.all Char.isDigit then some (-(Nat.ofDigitChars 10 ds 0 : Int)) else none
  | 'e' :: '+' :: ds =>
      if ds.all Char.isDigit then some (Nat.ofDigitChars 10 ds 0 : Int) else none
  | _ => none

/-- An unsigned decimal text. -/
def readMagnitude (r : List Char) : Option Dyadic :=
  let whole := r.takeWhile Char.isDigit
  let r := r.dropWhile Char.isDigit
  let fraction := if r.head? = some '.' then r.tail.takeWhile Char.isDigit else []
  let r := if r.head? = some '.' then r.tail.dropWhile Char.isDigit else r
  (readExponent r).map fun e =>
    let digits := Nat.ofDigitChars 10 (whole ++ fraction) 0
    let q : Int := e - fraction.length
    if digits = 0 then 0 else toDouble (digits * 10 ^ q.toNat) (10 ^ (-q).toNat)

/-- A decimal text as a binary64 value. -/
def readFloat : List Char → Option Dyadic
  | '-' :: r => (readMagnitude r).map fun d => -d
  | r => readMagnitude r

/-! ## Writing -/

/-- `digits * 10 ^ q` as a text: with a point while the point is near the
digits, with an exponent of at least two digits otherwise. -/
def layout (digits : Nat) (q : Int) : List Char :=
  let all := Nat.toDigits 10 digits
  let point : Int := all.length + q
  let ds := (all.reverse.dropWhile (· = '0')).reverse
  if -4 < point ∧ point ≤ 16 then
    if point ≤ 0 then '0' :: '.' :: (List.replicate (-point).toNat '0' ++ ds)
    else if (ds.length : Int) ≤ point then
      ds ++ List.replicate (point - ds.length).toNat '0' ++ ['.', '0']
    else ds.take point.toNat ++ '.' :: ds.drop point.toNat
  else
    let exponent := Nat.toDigits 10 (point - 1).natAbs
    ds.take 1 ++ (if ds.length ≤ 1 then [] else '.' :: ds.drop 1) ++
      'e' :: (if point - 1 < 0 then '-' else '+') ::
        ((if exponent.length < 2 then ['0'] else []) ++ exponent)

/-- The decimal exponent of the leading digit of `a / b`. -/
def leadingExponent (a b : Nat) : Int :=
  let e : Int := ((Nat.toDigits 10 a).length : Int) - (Nat.toDigits 10 b).length
  if b * 10 ^ e.toNat ≤ a * 10 ^ (-e).toNat then e else e - 1

/-- Decimal numbers close to `a / b` with `p` digits, the nearest first. -/
def decimalsNear (a b p : Nat) : List (Nat × Int) :=
  let q : Int := leadingExponent a b - (p - 1)
  let num := a * 10 ^ (-q).toNat
  let den := b * 10 ^ q.toNat
  let nearest := roundDiv num den
  [(nearest, q), (if nearest = num / den then nearest + 1 else nearest - 1, q)]

/-- A text a finite float can have: the characters of a number, with a point or
one exponent mark. -/
def isFloatText (t : List Char) : Bool :=
  t.all isNumberChar && (t.contains '.' || t.contains 'e') && t.count 'e' ≤ 1

/-- The odd part and the exponent, for a number without a decimal text. -/
def exactText (n k : Int) : List Char := intChars n ++ 'e' :: 'e' :: intChars k

/-- The shortest text that reads back. -/
def floatChars : Dyadic → List Char
  | .zero => ['0', '.', '0']
  | .ofOdd n k h =>
      let a := n.natAbs * 2 ^ (-k).toNat
      let b := 2 ^ k.toNat
      let sign := if n < 0 then ['-'] else []
      let texts := (List.range 17).flatMap fun p =>
        (decimalsNear a b (p + 1)).map fun d => sign ++ layout d.1 d.2
      (texts.find? fun t => isFloatText t && readFloat t = some (.ofOdd n k h)).getD
        (exactText n k)

example : floatChars (Dyadic.ofIntWithPrec 3602879701896397 54) = ['0', '.', '2'] := by decide

/-! ## The text determines the value -/

/-- Either the text was accepted for the value or it is the exact one. -/
theorem floatChars_cases (d : Dyadic) :
    (isFloatText (floatChars d) = true ∧ readFloat (floatChars d) = some d) ∨
      ∃ n k h, d = .ofOdd n k h ∧ floatChars d = exactText n k := by
  cases d with
  | zero => exact Or.inl (by decide)
  | ofOdd n k h =>
    simp only [floatChars]
    cases hfind : List.find? _ _ with
    | none => exact Or.inr ⟨n, k, h, rfl, rfl⟩
    | some t =>
      have ht := List.find?_some hfind
      simp only [Bool.and_eq_true, decide_eq_true_eq] at ht
      exact Or.inl ht

private theorem ne_e_of_mem_intChars {n : Int} {c : Char} (h : c ∈ intChars n) : c ≠ 'e' := by
  rintro rfl
  rcases isDigit_or_sign_of_mem_intChars h with h | h
  · exact absurd h (by decide)
  · exact absurd h (by decide)

private theorem count_exactText (n k : Int) : 2 ≤ (exactText n k).count 'e' := by
  simp only [exactText, List.count_append, List.count_cons_self]
  omega

private theorem exactText_injective {n k n' k' : Int} (h : exactText n k = exactText n' k') :
    n = n' ∧ k = k' := by
  have htake : ∀ n k : Int, (exactText n k).takeWhile (· != 'e') = intChars n := by
    intro n k
    rw [exactText, List.takeWhile_append_of_pos fun c hc => by
      simpa using ne_e_of_mem_intChars hc]
    simp
  have hn : n = n' := intChars_injective (by rw [← htake n k, h, htake])
  subst hn
  have hk := List.append_cancel_left h
  simp only [List.cons.injEq, true_and] at hk
  exact ⟨rfl, intChars_injective hk⟩

private theorem not_isFloatText_exactText (n k : Int) : isFloatText (exactText n k) = false := by
  have hcount := count_exactText n k
  rw [Bool.eq_false_iff]
  intro h
  simp only [isFloatText, Bool.and_eq_true, decide_eq_true_eq] at h
  omega

/-- Two values never share a text. -/
theorem floatChars_injective {d d' : Dyadic} (h : floatChars d = floatChars d') : d = d' := by
  rcases floatChars_cases d with ⟨hd, hread⟩ | ⟨n, k, hn, rfl, htext⟩
  · rcases floatChars_cases d' with ⟨_, hread'⟩ | ⟨n', k', hn', _, htext'⟩
    · rw [← h, hread] at hread'
      exact Option.some.inj hread'
    · rw [h, htext', not_isFloatText_exactText] at hd
      cases hd
  · rcases floatChars_cases d' with ⟨hd', _⟩ | ⟨n', k', hn', rfl, htext'⟩
    · rw [← h, htext, not_isFloatText_exactText] at hd'
      cases hd'
    · rw [htext, htext'] at h
      obtain ⟨rfl, rfl⟩ := exactText_injective h
      rfl

theorem isNumberChar_of_mem_floatChars {d : Dyadic} {c : Char} (h : c ∈ floatChars d) :
    isNumberChar c = true := by
  rcases floatChars_cases d with ⟨hd, _⟩ | ⟨n, k, hn, rfl, htext⟩
  · simp only [isFloatText, Bool.and_eq_true, List.all_eq_true] at hd
    exact hd.1.1 c h
  · rw [htext, exactText, List.mem_append, List.mem_cons, List.mem_cons] at h
    have hint : ∀ m : Int, c ∈ intChars m → isNumberChar c = true :=
      fun m => (intLexeme m).numeric c
    rcases h with h | rfl | rfl | h
    · exact hint n h
    · decide
    · decide
    · exact hint k h

/-- The text of a float is never that of an integer. -/
theorem exists_mark_floatChars (d : Dyadic) : ∃ c ∈ floatChars d, c = '.' ∨ c = 'e' := by
  rcases floatChars_cases d with ⟨hd, _⟩ | ⟨n, k, hn, rfl, htext⟩
  · simp only [isFloatText, Bool.and_eq_true, Bool.or_eq_true, List.contains_iff_mem] at hd
    rcases hd.1.2 with h | h
    · exact ⟨'.', h, Or.inl rfl⟩
    · exact ⟨'e', h, Or.inr rfl⟩
  · refine ⟨'e', ?_, Or.inr rfl⟩
    rw [htext, exactText]
    simp

/-- The lexeme of a finite float. -/
def floatLexeme (d : Dyadic) : Lexeme where
  chars := floatChars d
  nonempty := by
    obtain ⟨c, hc, _⟩ := exists_mark_floatChars d
    exact List.ne_nil_of_mem hc
  numeric := fun _ => isNumberChar_of_mem_floatChars

end FloatText
