import EarnedAutonomy.Lib.FloatText
import EarnedAutonomy.Python.Value
import Mathlib.Data.List.Sort

/-!
# Python values as JSON

Two encodings of `crypto/canonical.py` and of the JSON columns of
`storage/sql.py`.

* `canonicalBytes` is the text every signature and hash is computed over:
  sorted keys, no white space, no `nan`, UTF-8.  It raises on what it cannot
  encode.  `canon` is the JSON tree that is written.
* `jsonColumn` is what a value has become after a JSON column wrote and read
  it: tuples are lists and every key is a text.

`canon_eq_of_canon_dict_eq` is how a signature binds a field: two dicts with one
canonical text agree on the text of every key.
-/

namespace EarnedAutonomy

open CanonicalJson FloatText

/-- UTF-8 bytes, kept as the text they encode. -/
abbrev Bytes := String

/-! ## Texts of scalars -/

/-- The `str` of an integer. -/
def intText (n : Int) : String := String.ofList (intChars n)

/-- `float.__repr__` -/
def floatText : PyFloat → String
  | .fin d => String.ofList (floatChars d)
  | .negZero => "-0.0"
  | .inf => "Infinity"
  | .negInf => "-Infinity"
  | .nan _ => "NaN"

/-- What `json.dumps` writes for a key. -/
def keyText : PyKey → PyStr
  | .str s => s
  | .int n => .utf8 (intText n)
  | .bool true => .utf8 "true"
  | .bool false => .utf8 "false"
  | .float f => .utf8 (floatText f)
  | .none => .utf8 "null"

/-! ## The canonical encoding -/

/-- The text of an encodable `str`. -/
def PyStr.toText : PyStr → String
  | .utf8 s => s
  | .lone _ => ""

/-- The text can be encoded as UTF-8. -/
def PyStr.isUtf8 : PyStr → Bool
  | .utf8 _ => true
  | .lone _ => false

private theorem negZero_numeric :
    ∀ c ∈ ['-', '0', '.', '0'], isNumberChar c = true := by
  apply List.all_eq_true.mp
  decide

/-- The number a finite float is written as. -/
def floatJson : PyFloat → Json
  | .fin d => .num (floatLexeme d)
  | .negZero => .num ⟨['-', '0', '.', '0'], by decide, negZero_numeric⟩
  | _ => .null

/-- `a` is written before `b`. -/
def keyLe (a b : PyKey × Json) : Prop := b.1.lt? a.1 ≠ some true

instance : DecidableRel keyLe := fun a b =>
  inferInstanceAs (Decidable (b.1.lt? a.1 ≠ some true))

mutual

/-- The JSON tree of a value, with the keys of every object sorted. -/
def canon : PyVal → Json
  | .none => .null
  | .bool b => .bool b
  | .int n => .num (intLexeme n)
  | .float f => floatJson f
  | .str s => .str s.toText
  | .list xs => .arr (canonItems xs)
  | .tuple xs => .arr (canonItems xs)
  | .dict d =>
      .obj (((canonEntries d).insertionSort keyLe).map fun e => ((keyText e.1).toText, e.2))

def canonItems : List PyVal → List Json
  | [] => []
  | x :: xs => canon x :: canonItems xs

def canonEntries : List (PyKey × PyVal) → List (PyKey × Json)
  | [] => []
  | (k, v) :: rest => (k, canon v) :: canonEntries rest

end

/-- A finite float. -/
def PyFloat.isFinite (f : PyFloat) : Bool := f.value?.isSome

/-- The keys can be sorted and written: sorting compares every two neighbours,
so keys of one kind only, and no key is `nan` or infinite. -/
def keysSerializable (ks : List PyKey) : Except PyError Unit :=
  if ks.any fun k => ks.any fun l => k ≠ l && (k.lt? l).isNone then .error .typeError
  else if ks.all fun k => match k with
      | .float f => f.isFinite
      | _ => true
    then .ok () else .error .valueError

mutual

/-- What `json.dumps(..., sort_keys=True, allow_nan=False)` can write. -/
def serializable : PyVal → Except PyError Unit
  | .float f => if f.isFinite then .ok () else .error .valueError
  | .list xs => serializableItems xs
  | .tuple xs => serializableItems xs
  | .dict d => do
      keysSerializable (d.map Prod.fst)
      serializableEntries d
  | _ => .ok ()

def serializableItems : List PyVal → Except PyError Unit
  | [] => .ok ()
  | x :: xs => do
      serializable x
      serializableItems xs

def serializableEntries : List (PyKey × PyVal) → Except PyError Unit
  | [] => .ok ()
  | (_, v) :: rest => do
      serializable v
      serializableEntries rest

end

mutual

/-- Every text in the value can be encoded as UTF-8. -/
def isUtf8 : PyVal → Bool
  | .str s => s.isUtf8
  | .list xs => isUtf8Items xs
  | .tuple xs => isUtf8Items xs
  | .dict d => isUtf8Entries d
  | _ => true

def isUtf8Items : List PyVal → Bool
  | [] => true
  | x :: xs => isUtf8 x && isUtf8Items xs

def isUtf8Entries : List (PyKey × PyVal) → Bool
  | [] => true
  | (k, v) :: rest => (keyText k).isUtf8 && isUtf8 v && isUtf8Entries rest

end

/-- `canonical_bytes` -/
def canonicalBytes (v : PyVal) : Except PyError Bytes := do
  serializable v
  if isUtf8 v then return String.ofList (render (canon v)) else throw .unicodeEncodeError

/-! ## JSON columns -/

/-- `json.loads` reads an escaped high surrogate with an escaped low one after
it as one character. -/
def combineSurrogates : List Nat → List Nat
  | hi :: lo :: ps =>
      if 0xD800 ≤ hi ∧ hi < 0xDC00 ∧ 0xDC00 ≤ lo ∧ lo < 0xE000 then
        (0x10000 + (hi - 0xD800) * 0x400 + (lo - 0xDC00)) :: combineSurrogates ps
      else hi :: combineSurrogates (lo :: ps)
  | ps => ps

/-- A text after a JSON column. -/
def columnText : PyStr → PyStr
  | .utf8 s => .utf8 s
  | .lone t => .ofPoints (combineSurrogates t.points)

/-- A float after a JSON column: every `nan` is the one of the JSON reader. -/
def columnFloat : PyFloat → PyFloat
  | .nan _ => .nan 0
  | f => f

mutual

/-- A value after a JSON column. -/
def jsonColumn : PyVal → PyVal
  | .float f => .float (columnFloat f)
  | .str s => .str (columnText s)
  | .list xs => .list (columnItems xs)
  | .tuple xs => .list (columnItems xs)
  | .dict d => .dict (columnEntries d [])
  | v => v

def columnItems : List PyVal → List PyVal
  | [] => []
  | x :: xs => jsonColumn x :: columnItems xs

/-- Members with one text are read as one entry, with the last value. -/
def columnEntries : List (PyKey × PyVal) → OrderedDict.Dict PyKey PyVal →
    OrderedDict.Dict PyKey PyVal
  | [], acc => acc
  | (k, v) :: rest, acc =>
      columnEntries rest (OrderedDict.Dict.set acc (.str (columnText (keyText k))) (jsonColumn v))

end

/-- A mapping after a JSON column. -/
def columnMapping (m : Mapping) : Mapping :=
  m.foldl (fun acc e => OrderedDict.Dict.set acc (columnText e.1) (jsonColumn e.2)) []

/-! ## What a canonical text determines -/

/-- The encoding succeeds exactly on what can be written and encoded. -/
theorem canonicalBytes_eq_ok_iff {v : PyVal} {b : Bytes} :
    canonicalBytes v = .ok b ↔
      serializable v = .ok () ∧ isUtf8 v = true ∧ b = String.ofList (render (canon v)) := by
  unfold canonicalBytes
  cases hs : serializable v with
  | error e => simp [bind, Except.bind]
  | ok u =>
    by_cases hu : isUtf8 v = true
    · simp [bind, Except.bind, hu, pure, Except.pure, eq_comm]
    · simp [bind, Except.bind, hu, throw, throwThe, MonadExceptOf.throw]

/-- One text, one tree. -/
theorem canon_eq_of_canonicalBytes {v w : PyVal} {b : Bytes} (hv : canonicalBytes v = .ok b)
    (hw : canonicalBytes w = .ok b) : canon v = canon w := by
  obtain ⟨_, _, hb⟩ := canonicalBytes_eq_ok_iff.mp hv
  obtain ⟨_, _, hb'⟩ := canonicalBytes_eq_ok_iff.mp hw
  rw [hb, String.ofList_inj] at hb'
  exact render_injective hb'

theorem canonEntries_eq_map (d : List (PyKey × PyVal)) :
    canonEntries d = d.map fun e => (e.1, canon e.2) := by
  induction d with
  | nil => rfl
  | cons e rest ih => simp [canonEntries, ih]

/-- An object has a member for each entry of its dict. -/
private theorem mem_canon_dict {d : List (PyKey × PyVal)} {k : PyKey} {v : PyVal}
    (h : (k, v) ∈ d) :
    ((keyText k).toText, canon v) ∈
      ((canonEntries d).insertionSort keyLe).map fun e => ((keyText e.1).toText, e.2) := by
  refine List.mem_map.mpr ⟨(k, canon v), ?_, rfl⟩
  rw [List.mem_insertionSort, canonEntries_eq_map]
  exact List.mem_map.mpr ⟨(k, v), h, rfl⟩

/-- Two dicts with one tree agree under every key, as far as the tree tells,
when no two keys of a dict have one text. -/
theorem canon_eq_of_canon_dict_eq {d d' : List (PyKey × PyVal)}
    (h : canon (.dict d) = canon (.dict d'))
    (hkeys : (d'.map fun e => (keyText e.1).toText).Nodup) {k : PyKey} {v v' : PyVal}
    (hv : (k, v) ∈ d) (hv' : (k, v') ∈ d') : canon v = canon v' := by
  simp only [canon, Json.obj.injEq] at h
  have hmem := mem_canon_dict hv
  rw [h, List.mem_map] at hmem
  obtain ⟨⟨l, j⟩, hl, hpair⟩ := hmem
  rw [List.mem_insertionSort, canonEntries_eq_map, List.mem_map] at hl
  obtain ⟨⟨k'', w⟩, hw, hlj⟩ := hl
  simp only [Prod.mk.injEq] at hlj hpair
  obtain ⟨rfl, rfl⟩ := hlj
  have hsame := List.inj_on_of_nodup_map hkeys hw hv' hpair.1
  cases hsame
  exact hpair.2.symm

/-- Two dicts with one tree have the same texts for keys. -/
theorem keyTexts_perm_of_canon_eq {d d' : List (PyKey × PyVal)}
    (h : canon (.dict d) = canon (.dict d')) :
    (d.map fun e => (keyText e.1).toText).Perm (d'.map fun e => (keyText e.1).toText) := by
  have hsorted (d : List (PyKey × PyVal)) :
      (((canonEntries d).insertionSort keyLe).map fun e => (keyText e.1).toText).Perm
        (d.map fun e => (keyText e.1).toText) := by
    refine ((List.perm_insertionSort _ _).map _).trans ?_
    rw [canonEntries_eq_map, List.map_map]
    exact .refl _
  simp only [canon, Json.obj.injEq] at h
  have hkeys := congrArg (List.map Prod.fst) h
  rw [List.map_map, List.map_map] at hkeys
  refine (hsorted d).symm.trans ?_
  rw [show (canonEntries d |>.insertionSort keyLe).map (fun e => (keyText e.1).toText) = _
    from hkeys]
  exact hsorted d'

/-- A text is determined by its tree. -/
theorem eq_of_canon_text {s t : String} (h : canon (.text s) = canon (.text t)) : s = t := by
  simpa [PyVal.text, canon, PyStr.toText] using h

theorem eq_of_canon_bool {a b : Bool} (h : canon (.bool a) = canon (.bool b)) : a = b := by
  simpa [canon] using h

theorem eq_of_canon_int {m n : Int} (h : canon (.int m) = canon (.int n)) : m = n := by
  simp only [canon, Json.num.injEq] at h
  exact intChars_injective (congrArg Lexeme.chars h)

theorem eq_of_canon_optText {s t : Option String}
    (h : canon (.optText s) = canon (.optText t)) : s = t := by
  cases s <;> cases t
  · rfl
  · simp [PyVal.optText, PyVal.text, canon] at h
  · simp [PyVal.optText, PyVal.text, canon] at h
  · exact congrArg some (eq_of_canon_text h)

end EarnedAutonomy
