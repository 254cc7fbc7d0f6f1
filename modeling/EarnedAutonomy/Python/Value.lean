import EarnedAutonomy.Lib.Dict

/-!
# Python values

The control plane reads free-form values: event metadata, rule conditions,
action contexts.  This file models the part of Python those values live in.

* Identifiers, keys and signatures of the source are plain `String`s, so they
  are valid Unicode.  Free text is a `PyStr`, which can also hold lone
  surrogates: Python accepts them in a `str` and refuses them only when the text
  is encoded.  An identifier with a lone surrogate is outside the model.
* A finite float is its exact value.  A `nan` carries the identity of its
  object, because containers compare elements by identity first.
* `PyVal.eq` is `==`, `PyVal.lt` is `<` and `PyVal.le` is `<=`, which raise a
  `TypeError` across types.  Booleans, integers and floats compare as numbers.
-/

namespace EarnedAutonomy

/-- The exceptions the modelled code can raise. -/
inductive PyError where
  | typeError
  | valueError
  | overflowError
  | unicodeEncodeError
  | osError
  | authenticationError (message : String)
  | controlPlaneError (message : String)
  | separationOfDutiesError (message : String)
  | replayError (message : String)
  /-- An exception of a downstream action. -/
  | actionError (message : String)
  deriving DecidableEq

/-- A sequence returns exactly if both parts return. -/
theorem bind_eq_ok_iff {α β : Type} {x : Except PyError α} {f : α → Except PyError β} {b : β} :
    (x >>= f) = .ok b ↔ ∃ a, x = .ok a ∧ f a = .ok b := by
  cases x with
  | ok a => simp [bind, Except.bind]
  | error err => simp [bind, Except.bind]

theorem seq_eq_ok_iff {x y : Except PyError Unit} :
    (do x; y) = .ok () ↔ x = .ok () ∧ y = .ok () := by
  rw [bind_eq_ok_iff]
  constructor
  · rintro ⟨⟨⟩, hx, hy⟩
    exact ⟨hx, hy⟩
  · rintro ⟨hx, hy⟩
    exact ⟨(), hx, hy⟩

/-! ## Text -/

/-- The code points that UTF-8 cannot encode. -/
def isSurrogate (point : Nat) : Bool := 0xD800 ≤ point && point < 0xE000

/-- A text with at least one surrogate, as its code points. -/
structure LoneText where
  points : List Nat
  surrogate : points.any isSurrogate = true
  deriving DecidableEq

/-- A `str`. -/
inductive PyStr where
  | utf8 (text : String)
  | lone (text : LoneText)
  deriving DecidableEq

namespace PyStr

instance : Coe String PyStr := ⟨.utf8⟩

instance : Inhabited PyStr := ⟨.utf8 ""⟩

/-- The code points of a text. -/
def points : PyStr → List Nat
  | .utf8 s => s.toList.map Char.toNat
  | .lone t => t.points

/-- The text with the given code points. -/
def ofPoints (ps : List Nat) : PyStr :=
  if h : ps.any isSurrogate = true then .lone ⟨ps, h⟩
  else .utf8 (String.ofList (ps.map Char.ofNat))

/-- `a + b` -/
def append : PyStr → PyStr → PyStr
  | .utf8 s, .utf8 t => .utf8 (s ++ t)
  | a, b => ofPoints (a.points ++ b.points)

instance : Append PyStr := ⟨append⟩

/-- `sep.join(texts)` -/
def join (sep : PyStr) : List PyStr → PyStr
  | [] => .utf8 ""
  | [t] => t
  | t :: ts => t ++ sep ++ join sep ts

/-- `a < b`, by code points. -/
def lt : PyStr → PyStr → Bool
  | .utf8 s, .utf8 t => s < t
  | a, b => a.points < b.points

/-- `a <= b`, by code points. -/
def le (a b : PyStr) : Bool := a.lt b || a = b

/-- `bool(text)` -/
def truthy (t : PyStr) : Bool := t ≠ .utf8 ""

/-- The points occur in the other list without a gap. -/
def occursIn (needle : List Nat) : List Nat → Bool
  | [] => needle.isEmpty
  | p :: ps => needle.isPrefixOf (p :: ps) || occursIn needle ps

/-- `needle in haystack` -/
def isInfix (needle haystack : PyStr) : Bool := occursIn needle.points haystack.points

end PyStr

/-! ## Numbers -/

/-- A `float`. -/
inductive PyFloat where
  | fin (value : Dyadic)
  | negZero
  | inf
  | negInf
  | nan (object : Nat)
  deriving DecidableEq

namespace PyFloat

/-- The float nearest to `n * 2 ^ (-prec)`, for a literal that is exact. -/
def exact (n : Int) (prec : Int) : PyFloat := .fin (Dyadic.ofIntWithPrec n prec)

/-- The exact value of a finite float. -/
def value? : PyFloat → Option Dyadic
  | .fin d => some d
  | .negZero => some 0
  | _ => none

/-- `a == b` -/
def eq (a b : PyFloat) : Bool :=
  match a.value?, b.value? with
  | some x, some y => x = y
  | none, none =>
      match a, b with
      | .inf, .inf => true
      | .negInf, .negInf => true
      | _, _ => false
  | _, _ => false

/-- `a < b` -/
def lt (a b : PyFloat) : Bool :=
  match a, b with
  | .nan _, _ => false
  | _, .nan _ => false
  | .negInf, b => b ≠ .negInf
  | _, .negInf => false
  | .inf, _ => false
  | _, .inf => true
  | a, b =>
      match a.value?, b.value? with
      | some x, some y => x < y
      | _, _ => false

/-- `a <= b` -/
def le (a b : PyFloat) : Bool := a.lt b || a.eq b

/-- `bool(x)` -/
def truthy (a : PyFloat) : Bool := a.value? ≠ some 0

/-- `max(a, b)`, which keeps its first argument unless the second is larger. -/
def max (a b : PyFloat) : PyFloat := if a.lt b then b else a

end PyFloat

/-! ## Values -/

/-- A key of a `dict` that JSON can write. -/
inductive PyKey where
  | str (s : PyStr)
  | int (n : Int)
  | bool (b : Bool)
  | float (f : PyFloat)
  | none
  deriving DecidableEq

/-- A value built from what JSON can write.  The entries of a `dict` are in
insertion order. -/
inductive PyVal where
  | none
  | bool (b : Bool)
  | int (n : Int)
  | float (f : PyFloat)
  | str (s : PyStr)
  | list (items : List PyVal)
  | tuple (items : List PyVal)
  | dict (entries : List (PyKey × PyVal))

namespace PyKey

instance : Coe String PyKey := ⟨fun s => .str s⟩

/-- The number a numeric key stands for. -/
def number? : PyKey → Option PyFloat
  | .int n => some (.exact n 0)
  | .bool b => some (.exact (if b then 1 else 0) 0)
  | .float f => some f
  | _ => Option.none

/-- The two keys are one key of a `dict`. -/
def same (a b : PyKey) : Bool :=
  a = b ||
    match a.number?, b.number? with
    | some x, some y => x.eq y
    | _, _ => false

/-- `a < b`, where both can be compared. -/
def lt? (a b : PyKey) : Option Bool :=
  match a, b with
  | .str s, .str t => some (s.lt t)
  | a, b =>
      match a.number?, b.number? with
      | some x, some y => some (x.lt y)
      | _, _ => Option.none

end PyKey

namespace PyVal

instance : Inhabited PyVal := ⟨.none⟩

/-- Text as a value. -/
def text (s : String) : PyVal := .str (.utf8 s)

/-- An optional text, with `None` for its absence. -/
def optText : Option String → PyVal
  | some s => text s
  | Option.none => .none

/-- The number a numeric value stands for. -/
def number? : PyVal → Option PyFloat
  | .int n => some (.exact n 0)
  | .bool b => some (.exact (if b then 1 else 0) 0)
  | .float f => some f
  | _ => Option.none

/-- `bool(v)` -/
def truthy : PyVal → Bool
  | .none => false
  | .bool b => b
  | .int n => n ≠ 0
  | .float f => f.truthy
  | .str s => s.truthy
  | .list xs => !xs.isEmpty
  | .tuple xs => !xs.isEmpty
  | .dict d => !d.isEmpty

/-- `v is True` -/
def isTrue : PyVal → Bool
  | .bool b => b
  | _ => false

/-- The value under a key of a `dict`. -/
def lookup : List (PyKey × PyVal) → PyKey → Option PyVal
  | [], _ => Option.none
  | (k, v) :: rest, key => if k.same key then some v else lookup rest key

/-- Both are one `nan` object.  Any other value equals itself. -/
def identical : PyVal → PyVal → Bool
  | .float (.nan i), .float (.nan j) => i = j
  | _, _ => false

mutual

/-- `a == b` -/
def eq : PyVal → PyVal → Bool
  | .none, b =>
      match b with
      | .none => true
      | _ => false
  | .bool x, b => ((PyVal.bool x).number?.bind fun m => b.number?.map m.eq).getD false
  | .int x, b => ((PyVal.int x).number?.bind fun m => b.number?.map m.eq).getD false
  | .float x, b => (b.number?.map x.eq).getD false
  | .str s, b =>
      match b with
      | .str t => s = t
      | _ => false
  | .list xs, b =>
      match b with
      | .list ys => eqItems xs ys
      | _ => false
  | .tuple xs, b =>
      match b with
      | .tuple ys => eqItems xs ys
      | _ => false
  | .dict d, b =>
      match b with
      | .dict d' => d.length = d'.length && eqEntries d d'
      | _ => false

/-- The items are pairwise the same object or equal. -/
def eqItems : List PyVal → List PyVal → Bool
  | [], [] => true
  | x :: xs, y :: ys => (identical x y || eq x y) && eqItems xs ys
  | _, _ => false

/-- Every entry has a counterpart in the other `dict`. -/
def eqEntries : List (PyKey × PyVal) → List (PyKey × PyVal) → Bool
  | [], _ => true
  | (k, v) :: rest, d =>
      (match lookup d k with
      | some w => identical v w || eq v w
      | Option.none => false) && eqEntries rest d

end

mutual

/-- `a < b` -/
def lt : PyVal → PyVal → Except PyError Bool
  | .str s, b =>
      match b with
      | .str t => .ok (s.lt t)
      | _ => .error .typeError
  | .list xs, b =>
      match b with
      | .list ys => ltItems xs ys
      | _ => .error .typeError
  | .tuple xs, b =>
      match b with
      | .tuple ys => ltItems xs ys
      | _ => .error .typeError
  | a, b =>
      match a.number?, b.number? with
      | some x, some y => .ok (x.lt y)
      | _, _ => .error .typeError

/-- Sequences compare at the first place where they differ. -/
def ltItems : List PyVal → List PyVal → Except PyError Bool
  | _, [] => .ok false
  | [], _ :: _ => .ok true
  | x :: xs, y :: ys => if identical x y || eq x y then ltItems xs ys else lt x y

end

mutual

/-- `a <= b` -/
def le : PyVal → PyVal → Except PyError Bool
  | .str s, b =>
      match b with
      | .str t => .ok (s.le t)
      | _ => .error .typeError
  | .list xs, b =>
      match b with
      | .list ys => leItems xs ys
      | _ => .error .typeError
  | .tuple xs, b =>
      match b with
      | .tuple ys => leItems xs ys
      | _ => .error .typeError
  | a, b =>
      match a.number?, b.number? with
      | some x, some y => .ok (x.le y)
      | _, _ => .error .typeError

/-- Sequences compare at the first place where they differ. -/
def leItems : List PyVal → List PyVal → Except PyError Bool
  | [], _ => .ok true
  | _ :: _, [] => .ok false
  | x :: xs, y :: ys => if identical x y || eq x y then leItems xs ys else le x y

end

/-- `v in items` for a list or tuple. -/
def isIn (v : PyVal) (items : List PyVal) : Bool := items.any fun x => identical x v || eq x v

/-- `s in container` for a text `s`. -/
def containsText (container : PyVal) (s : PyStr) : Except PyError Bool :=
  match container with
  | .str t => .ok (s.isInfix t)
  | .list xs => .ok (isIn (.str s) xs)
  | .tuple xs => .ok (isIn (.str s) xs)
  | .dict d => .ok (lookup d (.str s)).isSome
  | _ => .error .typeError

end PyVal

/-- A `Dict[str, Any]`. -/
abbrev Mapping := OrderedDict.Dict PyStr PyVal

/-- A mapping as a value. -/
def Mapping.toVal (m : Mapping) : PyVal := .dict (m.map fun e => (.str e.1, e.2))

/-- A list of texts as a value. -/
def textsToVal (ts : List String) : PyVal := .list (ts.map PyVal.text)

end EarnedAutonomy
