import EarnedAutonomy.Lib.KeySort
import EarnedAutonomy.Python.Encoding
import Mathlib.Algebra.Order.Ring.Unbundled.Rat
import Mathlib.Data.Prod.Lex
import Mathlib.Data.String.Basic

/-!
# Values in JSON storage

A value that was signed or hashed in memory is read back from a JSON column or
from a file.  This module says when its canonical text is still the same.

* `wellFormed` is what every Python value is: no key stands twice in a `dict`.
* `fileValue` is a value after `json.dumps(.., sort_keys=True)` and
  `json.loads`, `jsonColumn` one after a JSON column.
* `textOrdered` says that the keys of every `dict` have the order of their
  texts.  Text keys do, numbers need not: 2 comes before 10, and `"10"` before
  `"2"`.

`canon_jsonColumn_iff` is the result: storage keeps the canonical text of an
encodable value exactly if the value is text-ordered.  `canon_fileValue` says
that a file and a column leave the same canonical text.
-/

namespace EarnedAutonomy

open CanonicalJson FloatText KeySort

/-! ## Well-formed and encodable values -/

/-- No key stands twice. -/
def keysDistinct (ks : List PyKey) : Bool := ks.Pairwise fun k l => k.same l = false

/-- A key whose value is smaller has the smaller text. -/
def keysTextOrdered (ks : List PyKey) : Bool :=
  ks.all fun k => ks.all fun l => k.lt? l ≠ some true || (keyText k).lt (keyText l)

mutual

/-- No key of a `dict` stands twice, at any depth. -/
def wellFormed : PyVal → Bool
  | .list xs => wellFormedItems xs
  | .tuple xs => wellFormedItems xs
  | .dict d => keysDistinct (d.map Prod.fst) && wellFormedEntries d
  | _ => true

def wellFormedItems : List PyVal → Bool
  | [] => true
  | x :: xs => wellFormed x && wellFormedItems xs

def wellFormedEntries : List (PyKey × PyVal) → Bool
  | [] => true
  | (_, v) :: rest => wellFormed v && wellFormedEntries rest

end

mutual

/-- The keys of every `dict` have the order of their texts, at any depth. -/
def textOrdered : PyVal → Bool
  | .list xs => textOrderedItems xs
  | .tuple xs => textOrderedItems xs
  | .dict d => keysTextOrdered (d.map Prod.fst) && textOrderedEntries d
  | _ => true

def textOrderedItems : List PyVal → Bool
  | [] => true
  | x :: xs => textOrdered x && textOrderedItems xs

def textOrderedEntries : List (PyKey × PyVal) → Bool
  | [] => true
  | (_, v) :: rest => textOrdered v && textOrderedEntries rest

end

/-- `a` is written before `b` in a file. -/
def entryLe (a b : PyKey × PyVal) : Prop := b.1.lt? a.1 ≠ some true

instance : DecidableRel entryLe := fun a b =>
  inferInstanceAs (Decidable (b.1.lt? a.1 ≠ some true))

mutual

/-- A value as it is written with `sort_keys=True`. -/
def sortKeys : PyVal → PyVal
  | .list xs => .list (sortItems xs)
  | .tuple xs => .tuple (sortItems xs)
  | .dict d => .dict ((sortEntries d).insertionSort entryLe)
  | v => v

def sortItems : List PyVal → List PyVal
  | [] => []
  | x :: xs => sortKeys x :: sortItems xs

def sortEntries : List (PyKey × PyVal) → List (PyKey × PyVal)
  | [] => []
  | (k, v) :: rest => (k, sortKeys v) :: sortEntries rest

end

/-- A value after `json.dumps(.., sort_keys=True)` and `json.loads`. -/
def fileValue (v : PyVal) : PyVal := jsonColumn (sortKeys v)

/-- The value has a canonical text. -/
structure PyVal.Encodable (v : PyVal) : Prop where
  serializable : serializable v = .ok ()
  isUtf8 : isUtf8 v = true

theorem encodable_iff {v : PyVal} : v.Encodable ↔ ∃ b, canonicalBytes v = .ok b := by
  constructor
  · rintro ⟨hs, hu⟩
    exact ⟨_, canonicalBytes_eq_ok_iff.mpr ⟨hs, hu, rfl⟩⟩
  · rintro ⟨b, hb⟩
    have hok := canonicalBytes_eq_ok_iff.mp hb
    exact ⟨hok.1, hok.2.1⟩

theorem PyVal.Encodable.canonicalBytes_eq {v : PyVal} (h : v.Encodable) :
    canonicalBytes v = .ok (String.ofList (render (canon v))) :=
  canonicalBytes_eq_ok_iff.mpr ⟨h.serializable, h.isUtf8, rfl⟩

/-! ## The keys of a dict -/

/-- What keys are sorted by: the number of a numeric key, the text of a text. -/
def PyKey.rank : PyKey → Lex (ℚ × String)
  | .str s => toLex (0, s.toText)
  | k => toLex (((k.number?.bind PyFloat.value?).getD 0).toRat, "")

/-- The keys can be sorted and written as UTF-8, and none stands twice. -/
structure SortableKeys (ks : List PyKey) : Prop where
  serializable : keysSerializable ks = .ok ()
  isUtf8 : ∀ k ∈ ks, (keyText k).isUtf8 = true
  distinct : ks.Pairwise fun k l => k.same l = false

section

variable {ks : List PyKey} {k l : PyKey}

theorem comparable_of_keysSerializable (h : keysSerializable ks = .ok ()) (hk : k ∈ ks)
    (hl : l ∈ ks) : k = l ∨ (k.lt? l).isSome := by
  unfold keysSerializable at h
  split at h
  · cases h
  · rename_i hany
    by_contra hnot
    rw [not_or, Bool.not_eq_true, Option.isSome_eq_false_iff] at hnot
    apply hany
    simp only [List.any_eq_true]
    exact ⟨k, hk, l, hl, by simp [hnot.1, hnot.2]⟩

theorem isFinite_of_keysSerializable (h : keysSerializable ks = .ok ()) {f : PyFloat}
    (hf : .float f ∈ ks) : f.isFinite = true := by
  unfold keysSerializable at h
  split at h
  · cases h
  · split at h
    · rename_i hall
      exact List.all_eq_true.mp hall _ hf
    · cases h

/-- What a key of a sortable `dict` can be. -/
inductive KeyKind : PyKey → Prop where
  | text (s : String) : KeyKind (.str (.utf8 s))
  | number {k : PyKey} {x : PyFloat} {d : Dyadic} (hk : k.number? = some x)
      (hx : x.value? = some d) : KeyKind k
  | none : KeyKind .none

theorem SortableKeys.kind (h : SortableKeys ks) (hk : k ∈ ks) : KeyKind k := by
  cases k with
  | str s =>
    cases s with
    | utf8 s => exact .text s
    | lone t => cases h.isUtf8 _ hk
  | int n => exact .number rfl rfl
  | bool b => exact .number rfl rfl
  | float f =>
    obtain ⟨d, hd⟩ := Option.isSome_iff_exists.mp (isFinite_of_keysSerializable h.serializable hk)
    exact .number rfl hd
  | none => exact .none

theorem lt?_of_values {x y : PyFloat} {d d' : Dyadic} (hk : k.number? = some x)
    (hl : l.number? = some y) (hx : x.value? = some d) (hy : y.value? = some d') :
    k.lt? l = some (decide (d < d')) := by
  have hlt : x.lt y = decide (d < d') := by
    cases x <;> cases hx <;> cases y <;> cases hy <;> rfl
  rw [← hlt]
  unfold PyKey.lt?
  split
  · cases hk
  · rw [hk, hl]

theorem same_of_values {x y : PyFloat} {d d' : Dyadic} (hk : k.number? = some x)
    (hl : l.number? = some y) (hx : x.value? = some d) (hy : y.value? = some d') (h : d = d') :
    k.same l = true := by
  have heq : x.eq y = true := by
    unfold PyFloat.eq
    rw [hx, hy]
    exact decide_eq_true h
  simp [PyKey.same, hk, hl, heq]

theorem rank_of_value {x : PyFloat} {d : Dyadic} (hk : k.number? = some x)
    (hx : x.value? = some d) : k.rank = toLex (d.toRat, "") := by
  cases k with
  | str s => cases hk
  | _ => simp [PyKey.rank, hk, hx]

/-- Two keys of one `dict` are of one kind. -/
theorem SortableKeys.kinds (h : SortableKeys ks) (hk : k ∈ ks) (hl : l ∈ ks) :
    (∃ s t, k = .str (.utf8 s) ∧ l = .str (.utf8 t)) ∨
      (∃ x y d d', k.number? = some x ∧ l.number? = some y ∧ x.value? = some d ∧
        y.value? = some d') ∨ k = .none ∧ l = .none := by
  have hcomparable := comparable_of_keysSerializable h.serializable hk hl
  cases h.kind hk with
  | text s =>
    cases h.kind hl with
    | text t => exact Or.inl ⟨s, t, rfl, rfl⟩
    | number hl' _ => cases l <;> simp_all [PyKey.lt?, PyKey.number?]
    | none => simp [PyKey.lt?, PyKey.number?] at hcomparable
  | number hk' hx =>
    cases h.kind hl with
    | text t => cases k <;> simp_all [PyKey.lt?, PyKey.number?]
    | number hl' hy => exact Or.inr (Or.inl ⟨_, _, _, _, hk', hl', hx, hy⟩)
    | none => cases k <;> simp_all [PyKey.lt?, PyKey.number?]
  | none =>
    cases h.kind hl with
    | text t => simp [PyKey.lt?, PyKey.number?] at hcomparable
    | number hl' _ => cases l <;> simp_all [PyKey.lt?, PyKey.number?]
    | none => exact Or.inr (Or.inr ⟨rfl, rfl⟩)

/-- Keys are compared as their ranks are. -/
theorem SortableKeys.lt?_iff (h : SortableKeys ks) (hk : k ∈ ks) (hl : l ∈ ks) :
    k.lt? l = some true ↔ k.rank < l.rank := by
  rcases h.kinds hk hl with ⟨s, t, rfl, rfl⟩ | ⟨x, y, d, d', hk', hl', hx, hy⟩ | ⟨rfl, rfl⟩
  · have hlt : (PyKey.str (.utf8 s)).lt? (.str (.utf8 t)) = some (decide (s < t)) := rfl
    rw [hlt]
    simp [PyKey.rank, PyStr.toText, Prod.Lex.toLex_lt_toLex]
  · rw [lt?_of_values hk' hl' hx hy, rank_of_value hk' hx, rank_of_value hl' hy]
    simp [Prod.Lex.toLex_lt_toLex, Dyadic.toRat_lt_toRat_iff]
  · simp [PyKey.lt?, PyKey.number?]

/-- Two keys of one rank are one key. -/
theorem SortableKeys.same_of_rank (h : SortableKeys ks) (hk : k ∈ ks) (hl : l ∈ ks)
    (hrank : k.rank = l.rank) : k.same l = true := by
  rcases h.kinds hk hl with ⟨s, t, rfl, rfl⟩ | ⟨x, y, d, d', hk', hl', hx, hy⟩ | ⟨rfl, rfl⟩
  · have hst : s = t := by simpa [PyKey.rank, PyStr.toText] using hrank
    simp [PyKey.same, hst]
  · rw [rank_of_value hk' hx, rank_of_value hl' hy] at hrank
    have hd : d.toRat = d'.toRat := congrArg Prod.fst hrank
    refine same_of_values hk' hl' hx hy ?_
    exact Dyadic.toRat_inj.mp hd
  · rfl

/-! ### No two keys of a dict share a text -/

private theorem intText_ne_of_mem {n : Int} {t : String} {c : Char} (hc : c ∈ t.toList)
    (hdigit : c.isDigit = false) (hsign : c ≠ '-') : intText n ≠ t := by
  rintro rfl
  rw [intText, String.toList_ofList] at hc
  rcases isDigit_or_sign_of_mem_intChars hc with h | h
  · rw [hdigit] at h
    cases h
  · exact hsign h

private theorem floatText_eq (f : PyFloat) (h : f.isFinite = true) :
    (∃ d, f = .fin d ∧ floatText f = String.ofList (floatChars d)) ∨
      f = .negZero ∧ floatText f = "-0.0" := by
  cases f with
  | fin d => exact Or.inl ⟨d, rfl, rfl⟩
  | negZero => exact Or.inr ⟨rfl, rfl⟩
  | _ => cases h

/-- The text of a finite float has a character no other key's text has. -/
private theorem exists_mark_floatText {f : PyFloat} (h : f.isFinite = true) :
    ∃ c ∈ (floatText f).toList, c = '.' ∨ c = 'e' := by
  rcases floatText_eq f h with ⟨d, rfl, htext⟩ | ⟨rfl, htext⟩
  · rw [htext, String.toList_ofList]
    exact exists_mark_floatChars d
  · exact ⟨'.', by rw [htext]; decide, Or.inl rfl⟩

theorem intText_ne_floatText (n : Int) {f : PyFloat} (h : f.isFinite = true) :
    intText n ≠ floatText f := by
  obtain ⟨c, hc, rfl | rfl⟩ := exists_mark_floatText h
  · exact intText_ne_of_mem hc (by decide) (by decide)
  · exact intText_ne_of_mem hc (by decide) (by decide)

private theorem floatText_ne_of_mem {f : PyFloat} (h : f.isFinite = true) {t : String} {c : Char}
    (hc : c ∈ t.toList) (hnumber : isNumberChar c = false) : floatText f ≠ t := by
  rintro rfl
  have hchar : isNumberChar c = true := by
    rcases floatText_eq f h with ⟨d, rfl, htext⟩ | ⟨rfl, htext⟩
    · rw [htext, String.toList_ofList] at hc
      exact isNumberChar_of_mem_floatChars hc
    · rw [htext] at hc
      have hall : "-0.0".toList.all isNumberChar = true := by decide
      exact List.all_eq_true.mp hall c hc
  rw [hnumber] at hchar
  cases hchar

/-- Zero has two floats and two texts. -/
private theorem floatChars_ne_negZero (d : Dyadic) : floatChars d ≠ "-0.0".toList := by
  intro h
  rcases floatChars_cases d with ⟨_, hread⟩ | ⟨n, k, hodd, rfl, htext⟩
  · rw [h] at hread
    have hzero : readFloat "-0.0".toList = some 0 := by decide
    rw [hzero] at hread
    cases hread
    exact absurd h (by decide)
  · rw [h] at htext
    have hcount := congrArg (List.count 'e') htext
    simp only [exactText, List.count_append, List.count_cons_self] at hcount
    have hnone : List.count 'e' "-0.0".toList = 0 := by decide
    omega

theorem eq_of_floatText {f g : PyFloat} (hf : f.isFinite = true) (hg : g.isFinite = true)
    (h : floatText f = floatText g) : f = g := by
  rcases floatText_eq f hf with ⟨d, rfl, hd⟩ | ⟨rfl, hd⟩
  · rcases floatText_eq g hg with ⟨d', rfl, hd'⟩ | ⟨rfl, hd'⟩
    · rw [hd, hd', String.ofList_inj] at h
      rw [floatChars_injective h]
    · rw [hd, hd'] at h
      have hlist := congrArg String.toList h
      rw [String.toList_ofList] at hlist
      exact absurd hlist (floatChars_ne_negZero d)
  · rcases floatText_eq g hg with ⟨d', rfl, hd'⟩ | ⟨rfl, hd'⟩
    · rw [hd, hd'] at h
      have hlist := congrArg String.toList h.symm
      rw [String.toList_ofList] at hlist
      exact absurd hlist (floatChars_ne_negZero d')
    · rfl

private theorem same_self (k : PyKey) : k.same k = true := by simp [PyKey.same]

/-- Two keys of one `dict` that are written alike are one key. -/
theorem SortableKeys.same_of_keyText (h : SortableKeys ks) (hk : k ∈ ks) (hl : l ∈ ks)
    (htext : keyText k = keyText l) : k.same l = true := by
  have finite {f : PyFloat} (hf : .float f ∈ ks) : f.isFinite = true :=
    isFinite_of_keysSerializable h.serializable hf
  rcases h.kinds hk hl with ⟨s, t, rfl, rfl⟩ | ⟨x, y, d, d', hk', hl', _, _⟩ | ⟨rfl, rfl⟩
  · rw [show s = t by simpa [keyText] using htext]
    exact same_self _
  · cases k with
    | str s => cases hk'
    | none => cases hk'
    | int m =>
      cases l with
      | str s => cases hl'
      | none => cases hl'
      | int n =>
        have hmn : intText m = intText n := by simpa [keyText] using htext
        rw [intText, intText, String.ofList_inj] at hmn
        rw [intChars_injective hmn]
        exact same_self _
      | bool b =>
        cases b <;> simp only [keyText, PyStr.utf8.injEq] at htext
        · exact absurd htext (intText_ne_of_mem (c := 'f') (by decide) (by decide) (by decide))
        · exact absurd htext (intText_ne_of_mem (c := 't') (by decide) (by decide) (by decide))
      | float f =>
        simp only [keyText, PyStr.utf8.injEq] at htext
        exact absurd htext (intText_ne_floatText m (finite hl))
    | bool b =>
      cases l with
      | str s => cases hl'
      | none => cases hl'
      | int n =>
        cases b <;> simp only [keyText, PyStr.utf8.injEq] at htext
        · exact absurd htext.symm
            (intText_ne_of_mem (c := 'f') (by decide) (by decide) (by decide))
        · exact absurd htext.symm
            (intText_ne_of_mem (c := 't') (by decide) (by decide) (by decide))
      | bool b' =>
        cases b <;> cases b' <;> first | exact same_self _ | exact absurd htext (by decide)
      | float f =>
        cases b <;> simp only [keyText, PyStr.utf8.injEq] at htext
        · exact absurd htext.symm (floatText_ne_of_mem (finite hl) (c := 'f') (by decide)
            (by decide))
        · exact absurd htext.symm (floatText_ne_of_mem (finite hl) (c := 't') (by decide)
            (by decide))
    | float f =>
      cases l with
      | str s => cases hl'
      | none => cases hl'
      | int n =>
        simp only [keyText, PyStr.utf8.injEq] at htext
        exact absurd htext.symm (intText_ne_floatText n (finite hk))
      | bool b =>
        cases b <;> simp only [keyText, PyStr.utf8.injEq] at htext
        · exact absurd htext (floatText_ne_of_mem (finite hk) (c := 'f') (by decide) (by decide))
        · exact absurd htext (floatText_ne_of_mem (finite hk) (c := 't') (by decide) (by decide))
      | float g =>
        simp only [keyText, PyStr.utf8.injEq] at htext
        rw [eq_of_floatText (finite hk) (finite hl) htext]
        exact same_self _
  · rfl

/-! ### Sorting by value and by text -/

/-- The text of a key that can be encoded. -/
abbrev PyKey.text (k : PyKey) : String := (keyText k).toText

theorem SortableKeys.keyText_eq (h : SortableKeys ks) (hk : k ∈ ks) :
    keyText k = .utf8 k.text := by
  have hutf := h.isUtf8 k hk
  unfold PyKey.text
  cases hkt : keyText k with
  | utf8 s => rfl
  | lone t =>
    rw [hkt] at hutf
    cases hutf

theorem SortableKeys.nodup_rank (h : SortableKeys ks) : (ks.map PyKey.rank).Nodup := by
  refine List.pairwise_map.mpr (h.distinct.imp_of_mem fun hk hl hdistinct hrank => ?_)
  rw [h.same_of_rank hk hl hrank] at hdistinct
  cases hdistinct

theorem SortableKeys.nodup_text (h : SortableKeys ks) : (ks.map PyKey.text).Nodup := by
  refine List.pairwise_map.mpr (h.distinct.imp_of_mem fun hk hl hdistinct htext => ?_)
  have hkeys := (h.keyText_eq hk).trans ((congrArg PyStr.utf8 htext).trans (h.keyText_eq hl).symm)
  rw [h.same_of_keyText hk hl hkeys] at hdistinct
  cases hdistinct

/-- The entries of a `dict` are sorted by the ranks of their keys. -/
theorem SortableKeys.comparesBy (h : SortableKeys ks) {es : List (PyKey × Json)}
    (hes : es.map Prod.fst = ks) : ComparesBy keyLe (fun e => e.1.rank) es := by
  intro a ha b hb
  have hmem {e : PyKey × Json} (he : e ∈ es) : e.1 ∈ ks := hes ▸ List.mem_map_of_mem he
  rw [keyLe, ne_eq, h.lt?_iff (hmem hb) (hmem ha), not_lt]

/-- A member of an object with an encodable text key. -/
def textMember (e : PyKey × Json) : String × Json := (e.1.text, e.2)

/-- What storage makes of an entry. -/
private def storedEntry (e : PyKey × PyVal) : PyKey × PyVal := (.str (keyText e.1), jsonColumn e.2)

theorem columnText_eq {t : PyStr} (h : t.isUtf8 = true) : columnText t = t := by
  cases t with
  | utf8 s => rfl
  | lone u => cases h

private theorem columnEntries_eq_append (d : List (PyKey × PyVal)) (acc : List (PyKey × PyVal))
    (hkeys : ∀ k ∈ d.map Prod.fst, columnText (keyText k) = keyText k)
    (hnodup : (acc.map Prod.fst ++ d.map fun e => PyKey.str (keyText e.1)).Nodup) :
    columnEntries d acc = acc ++ d.map storedEntry := by
  induction d generalizing acc with
  | nil => simp [columnEntries]
  | cons e rest ih =>
    obtain ⟨k, v⟩ := e
    have htext : columnText (keyText k) = keyText k := hkeys k (by simp)
    have hfresh : PyKey.str (keyText k) ∉ acc.map Prod.fst := by
      intro hmem
      exact (List.nodup_append.mp hnodup).2.2 _ hmem _ List.mem_cons_self rfl
    rw [columnEntries, htext, OrderedDict.Dict.set_eq_append hfresh, ih]
    · simp [storedEntry]
    · exact fun l hl => hkeys l (List.mem_cons_of_mem _ hl)
    · simpa using hnodup

/-- Storage keeps the entries of a `dict`, under the texts of their keys. -/
theorem SortableKeys.columnEntries_eq {d : List (PyKey × PyVal)}
    (h : SortableKeys (d.map Prod.fst)) :
    columnEntries d [] = d.map fun e => (.str (keyText e.1), jsonColumn e.2) := by
  rw [columnEntries_eq_append d [] (fun k hk => columnText_eq (h.isUtf8 k hk)) ?_, List.nil_append]
  · rfl
  · have hkeys : (d.map fun e => PyKey.str (keyText e.1)) =
        ((d.map Prod.fst).map PyKey.text).map fun t => PyKey.str (.utf8 t) := by
      rw [List.map_map, List.map_map]
      refine List.map_congr_left fun e he => ?_
      simp only [Function.comp_apply]
      rw [h.keyText_eq (List.mem_map_of_mem he)]
    rw [List.map_nil, List.nil_append, hkeys]
    exact h.nodup_text.map fun s t hst => by simpa using hst

/-! ## One dict -/

/-- The members of a stored `dict`, sorted by their texts. -/
private def storedMembers (d : List (PyKey × PyVal)) : List (String × Json) :=
  ((d.map fun e => (PyKey.str (keyText e.1), canon (jsonColumn e.2))).insertionSort keyLe).map
    textMember

/-- The members of a `dict`, sorted by the values of the keys. -/
private def members (d : List (PyKey × PyVal)) : List (String × Json) :=
  ((canonEntries d).insertionSort keyLe).map textMember

private theorem canon_dict (d : List (PyKey × PyVal)) : canon (.dict d) = .obj (members d) := rfl

variable {d : List (PyKey × PyVal)}

private theorem SortableKeys.canon_jsonColumn_dict (h : SortableKeys (d.map Prod.fst)) :
    canon (jsonColumn (.dict d)) = .obj (storedMembers d) := by
  rw [jsonColumn, h.columnEntries_eq, canon_dict, members, storedMembers, canonEntries_eq_map,
    List.map_map]
  rfl

private theorem SortableKeys.perm_storedMembers (d : List (PyKey × PyVal)) :
    (storedMembers d).Perm (d.map fun e => (e.1.text, canon (jsonColumn e.2))) := by
  have hperm := List.perm_insertionSort keyLe
    (d.map fun e => (PyKey.str (keyText e.1), canon (jsonColumn e.2)))
  have hmap := hperm.map textMember
  rwa [List.map_map] at hmap

private theorem SortableKeys.perm_members (d : List (PyKey × PyVal)) :
    (members d).Perm (d.map fun e => (e.1.text, canon e.2)) := by
  have hmap := (List.perm_insertionSort keyLe (canonEntries d)).map textMember
  have hkeys : (canonEntries d).map textMember = d.map fun e => (e.1.text, canon e.2) := by
    rw [canonEntries_eq_map, List.map_map]
    rfl
  rwa [hkeys] at hmap

private theorem SortableKeys.text_mem (h : SortableKeys (d.map Prod.fst)) :
    ComparesBy keyLe (fun e => e.1.text)
      (d.map fun e => (PyKey.str (keyText e.1), canon (jsonColumn e.2))) := by
  intro a ha b hb
  have hutf {e : PyKey × Json}
      (he : e ∈ d.map fun e => (PyKey.str (keyText e.1), canon (jsonColumn e.2))) :
      e.1 = .str (.utf8 e.1.text) := by
    obtain ⟨e', he', rfl⟩ := List.mem_map.mp he
    exact congrArg PyKey.str (h.keyText_eq (List.mem_map_of_mem he'))
  have hlt : b.1.lt? a.1 = some (decide (b.1.text < a.1.text)) := by
    rw [hutf ha, hutf hb]
    rfl
  rw [keyLe, hlt]
  simp only [ne_eq, Option.some.injEq, decide_eq_true_eq, not_lt]

/-- The members of a stored `dict` ascend by text. -/
private theorem SortableKeys.pairwise_storedMembers (h : SortableKeys (d.map Prod.fst)) :
    (storedMembers d).Pairwise fun a b => a.1 < b.1 := by
  refine List.pairwise_map.mpr (pairwise_insertionSort h.text_mem ?_)
  have hnodup := h.nodup_text
  rw [List.map_map] at hnodup ⊢
  exact hnodup

/-- The entries of a `dict` ascend by the ranks of the keys. -/
private theorem SortableKeys.pairwise_entries (h : SortableKeys (d.map Prod.fst)) :
    ((canonEntries d).insertionSort keyLe).Pairwise fun a b => a.1.rank < b.1.rank := by
  have hkeys : (canonEntries d).map Prod.fst = d.map Prod.fst := by
    rw [canonEntries_eq_map, List.map_map]
    rfl
  refine pairwise_insertionSort (h.comparesBy hkeys) ?_
  have hnodup := h.nodup_rank
  rw [← hkeys, List.map_map] at hnodup
  exact hnodup

private theorem mem_sorted_iff {e : PyKey × Json} :
    e ∈ (canonEntries d).insertionSort keyLe ↔ ∃ v, (e.1, v) ∈ d ∧ canon v = e.2 := by
  rw [List.mem_insertionSort, canonEntries_eq_map, List.mem_map]
  constructor
  · rintro ⟨⟨k, v⟩, hmem, rfl⟩
    exact ⟨v, hmem, rfl⟩
  · rintro ⟨v, hmem, hv⟩
    exact ⟨(e.1, v), hmem, Prod.ext rfl hv⟩

/-- Storage keeps the text of a `dict` exactly if the keys have the order of their
texts and it keeps the text of every value. -/
private theorem SortableKeys.stored_eq_iff (h : SortableKeys (d.map Prod.fst)) :
    canon (jsonColumn (.dict d)) = canon (.dict d) ↔
      keysTextOrdered (d.map Prod.fst) = true ∧ ∀ e ∈ d, canon (jsonColumn e.2) = canon e.2 := by
  rw [h.canon_jsonColumn_dict, canon_dict, Json.obj.injEq]
  constructor
  · intro heq
    have hbytext : ((canonEntries d).insertionSort keyLe).Pairwise
        fun a b => a.1.text < b.1.text := by
      have hmembers := h.pairwise_storedMembers
      rw [heq] at hmembers
      exact List.pairwise_map (f := textMember).mp hmembers
    refine ⟨?_, fun e he => ?_⟩
    · simp only [keysTextOrdered, List.all_eq_true, Bool.or_eq_true, decide_eq_true_eq, ne_eq,
        ← imp_iff_not_or]
      intro k hk l hl hlt
      have hrank := (h.lt?_iff hk hl).mp hlt
      obtain ⟨⟨k, v⟩, hv, rfl⟩ := List.mem_map.mp hk
      obtain ⟨⟨l, v'⟩, hv', rfl⟩ := List.mem_map.mp hl
      have htext : PyKey.text k < PyKey.text l := by
        refine rel_of_pairwise (a := (k, canon v)) (b := (l, canon v'))
          (hbytext.imp₂ (fun _ _ ht hr => ⟨hr, ht⟩) h.pairwise_entries)
          (mem_sorted_iff.mpr ⟨v, hv, rfl⟩) (mem_sorted_iff.mpr ⟨v', hv', rfl⟩) ?_
          (not_lt_of_gt hrank)
        intro hpair
        rw [show k = l from congrArg Prod.fst hpair] at hrank
        exact lt_irrefl _ hrank
      rw [h.keyText_eq hk, h.keyText_eq hl]
      exact decide_eq_true htext
    · -- the member of the value is there under the text of its key
      have hmem : (e.1.text, canon (jsonColumn e.2)) ∈ members d := by
        rw [← heq]
        exact (SortableKeys.perm_storedMembers d).mem_iff.mpr (List.mem_map_of_mem he)
      obtain ⟨e', he', hpair⟩ := List.mem_map.mp ((SortableKeys.perm_members d).mem_iff.mp hmem)
      simp only [Prod.mk.injEq] at hpair
      have hnodup : (d.map fun e => e.1.text).Nodup := by
        have := h.nodup_text
        rwa [List.map_map] at this
      obtain rfl : e' = e := List.inj_on_of_nodup_map hnodup he' he hpair.1
      exact hpair.2.symm
  · rintro ⟨hkeys, hvalues⟩
    refine eq_of_perm_of_pairwise ?_ h.pairwise_storedMembers ?_
    · have hsame : (d.map fun e => (e.1.text, canon (jsonColumn e.2))) =
          d.map fun e => (e.1.text, canon e.2) :=
        List.map_congr_left fun e he => Prod.ext rfl (hvalues e he)
      exact (SortableKeys.perm_storedMembers d).trans (hsame ▸ (SortableKeys.perm_members d).symm)
    · refine List.pairwise_map.mpr (h.pairwise_entries.imp_of_mem fun ha hb hrank => ?_)
      obtain ⟨v, hv, _⟩ := mem_sorted_iff.mp ha
      obtain ⟨v', hv', _⟩ := mem_sorted_iff.mp hb
      have hk := List.mem_map_of_mem (f := Prod.fst) hv
      have hl := List.mem_map_of_mem (f := Prod.fst) hv'
      have hlt := (h.lt?_iff hk hl).mpr hrank
      simp only [keysTextOrdered, List.all_eq_true, Bool.or_eq_true, decide_eq_true_eq, ne_eq,
        ← imp_iff_not_or] at hkeys
      have htext := hkeys _ hk _ hl hlt
      rw [h.keyText_eq hk, h.keyText_eq hl] at htext
      exact of_decide_eq_true htext

end

/-! ## Any value -/

/-- A value that can be encoded, with no key twice. -/
structure PyVal.Storable (v : PyVal) : Prop extends PyVal.Encodable v where
  wellFormed : wellFormed v = true

/-- Induction over a value, its items and the values of its entries. -/
theorem PyVal.induction {motive : PyVal → Prop} (none : motive .none)
    (bool : ∀ b, motive (.bool b)) (int : ∀ n, motive (.int n)) (float : ∀ f, motive (.float f))
    (str : ∀ s, motive (.str s)) (list : ∀ xs, (∀ x ∈ xs, motive x) → motive (.list xs))
    (tuple : ∀ xs, (∀ x ∈ xs, motive x) → motive (.tuple xs))
    (dict : ∀ d, (∀ e ∈ d, motive e.2) → motive (.dict d)) (v : PyVal) : motive v := by
  refine PyVal.rec (motive_1 := motive) (motive_2 := fun xs => ∀ x ∈ xs, motive x)
    (motive_3 := fun d => ∀ e ∈ d, motive e.2) (motive_4 := fun e => motive e.2)
    none bool int float str list tuple dict ?_ ?_ ?_ ?_ ?_ v
  · simp
  · intro x xs hx hxs
    exact List.forall_mem_cons.mpr ⟨hx, hxs⟩
  · simp
  · intro e d he hd
    exact List.forall_mem_cons.mpr ⟨he, hd⟩
  · exact fun _ _ hv => hv

/-! ### The parts of a value -/

theorem canonItems_eq_map (xs : List PyVal) : canonItems xs = xs.map canon := by
  induction xs with
  | nil => rfl
  | cons x xs ih => simp [canonItems, ih]

theorem columnItems_eq_map (xs : List PyVal) : columnItems xs = xs.map jsonColumn := by
  induction xs with
  | nil => rfl
  | cons x xs ih => simp [columnItems, ih]

theorem sortItems_eq_map (xs : List PyVal) : sortItems xs = xs.map sortKeys := by
  induction xs with
  | nil => rfl
  | cons x xs ih => simp [sortItems, ih]

theorem sortEntries_eq_map (d : List (PyKey × PyVal)) :
    sortEntries d = d.map fun e => (e.1, sortKeys e.2) := by
  induction d with
  | nil => rfl
  | cons e rest ih => simp [sortEntries, ih]

theorem wellFormedItems_iff {xs : List PyVal} :
    wellFormedItems xs = true ↔ ∀ x ∈ xs, wellFormed x = true := by
  induction xs with
  | nil => simp [wellFormedItems]
  | cons x xs ih => simp [wellFormedItems, ih]

theorem wellFormedEntries_iff {d : List (PyKey × PyVal)} :
    wellFormedEntries d = true ↔ ∀ e ∈ d, wellFormed e.2 = true := by
  induction d with
  | nil => simp [wellFormedEntries]
  | cons e rest ih => simp only [wellFormedEntries, Bool.and_eq_true, ih, List.forall_mem_cons]

theorem textOrderedItems_iff {xs : List PyVal} :
    textOrderedItems xs = true ↔ ∀ x ∈ xs, textOrdered x = true := by
  induction xs with
  | nil => simp [textOrderedItems]
  | cons x xs ih => simp [textOrderedItems, ih]

theorem textOrderedEntries_iff {d : List (PyKey × PyVal)} :
    textOrderedEntries d = true ↔ ∀ e ∈ d, textOrdered e.2 = true := by
  induction d with
  | nil => simp [textOrderedEntries]
  | cons e rest ih => simp only [textOrderedEntries, Bool.and_eq_true, ih, List.forall_mem_cons]

/-- Items can be stored if each of them can. -/
private theorem storable_items {xs : List PyVal} :
    (serializableItems xs = .ok () ∧ isUtf8Items xs = true) ∧ wellFormedItems xs = true ↔
      ∀ x ∈ xs, x.Storable := by
  induction xs with
  | nil => simp [serializableItems, isUtf8Items, wellFormedItems]
  | cons x xs ih =>
    rw [List.forall_mem_cons, ← ih, serializableItems, seq_eq_ok_iff, isUtf8Items, wellFormedItems,
      Bool.and_eq_true, Bool.and_eq_true]
    constructor
    · rintro ⟨⟨⟨hs, hss⟩, hu, hus⟩, hw, hws⟩
      exact ⟨⟨⟨hs, hu⟩, hw⟩, ⟨hss, hus⟩, hws⟩
    · rintro ⟨⟨⟨hs, hu⟩, hw⟩, ⟨hss, hus⟩, hws⟩
      exact ⟨⟨⟨hs, hss⟩, hu, hus⟩, hw, hws⟩

theorem storable_list_iff {xs : List PyVal} :
    (PyVal.list xs).Storable ↔ ∀ x ∈ xs, x.Storable := by
  rw [← storable_items]
  exact ⟨fun h => ⟨⟨h.serializable, h.isUtf8⟩, h.wellFormed⟩, fun h => ⟨⟨h.1.1, h.1.2⟩, h.2⟩⟩

theorem storable_tuple_iff {xs : List PyVal} :
    (PyVal.tuple xs).Storable ↔ ∀ x ∈ xs, x.Storable := by
  rw [← storable_items]
  exact ⟨fun h => ⟨⟨h.serializable, h.isUtf8⟩, h.wellFormed⟩, fun h => ⟨⟨h.1.1, h.1.2⟩, h.2⟩⟩

/-- The entries can be stored if the texts of their keys and their values can. -/
private theorem storable_entries {d : List (PyKey × PyVal)} :
    (serializableEntries d = .ok () ∧ isUtf8Entries d = true) ∧ wellFormedEntries d = true ↔
      (∀ k ∈ d.map Prod.fst, (keyText k).isUtf8 = true) ∧ ∀ e ∈ d, e.2.Storable := by
  induction d with
  | nil => simp [serializableEntries, isUtf8Entries, wellFormedEntries]
  | cons e rest ih =>
    rw [List.map_cons, List.forall_mem_cons, List.forall_mem_cons, serializableEntries,
      seq_eq_ok_iff, isUtf8Entries, wellFormedEntries, Bool.and_eq_true, Bool.and_eq_true,
      Bool.and_eq_true]
    constructor
    · rintro ⟨⟨⟨hs, hss⟩, ⟨hk, hu⟩, hus⟩, hw, hws⟩
      obtain ⟨hkeys, hvalues⟩ := ih.mp ⟨⟨hss, hus⟩, hws⟩
      exact ⟨⟨hk, hkeys⟩, ⟨⟨hs, hu⟩, hw⟩, hvalues⟩
    · rintro ⟨⟨hk, hkeys⟩, ⟨⟨hs, hu⟩, hw⟩, hvalues⟩
      obtain ⟨⟨hss, hus⟩, hws⟩ := ih.mpr ⟨hkeys, hvalues⟩
      exact ⟨⟨⟨hs, hss⟩, ⟨hk, hu⟩, hus⟩, hw, hws⟩

/-- A `dict` can be stored if its keys can and its values can. -/
theorem storable_dict_iff {d : List (PyKey × PyVal)} :
    (PyVal.dict d).Storable ↔ SortableKeys (d.map Prod.fst) ∧ ∀ e ∈ d, e.2.Storable := by
  constructor
  · rintro ⟨⟨hs, hu⟩, hw⟩
    obtain ⟨hkeys, hss⟩ := seq_eq_ok_iff.mp hs
    rw [wellFormed, Bool.and_eq_true] at hw
    obtain ⟨hutf, hvalues⟩ := storable_entries.mp ⟨⟨hss, hu⟩, hw.2⟩
    exact ⟨⟨hkeys, hutf, of_decide_eq_true hw.1⟩, hvalues⟩
  · rintro ⟨hkeys, hvalues⟩
    obtain ⟨⟨hss, hus⟩, hws⟩ := storable_entries.mpr ⟨hkeys.isUtf8, hvalues⟩
    refine ⟨⟨seq_eq_ok_iff.mpr ⟨hkeys.serializable, hss⟩, hus⟩, ?_⟩
    rw [wellFormed, Bool.and_eq_true]
    exact ⟨decide_eq_true hkeys.distinct, hws⟩

private theorem columnFloat_eq {f : PyFloat} (h : f.isFinite = true) : columnFloat f = f := by
  cases f with
  | nan i => cases h
  | _ => rfl

private theorem isFinite_of_storable {f : PyFloat} (h : (PyVal.float f).Storable) :
    f.isFinite = true := by
  have hs := h.serializable
  rw [serializable] at hs
  split at hs
  · assumption
  · cases hs

/-! ### Through storage -/

/-- Storage keeps the canonical text of a value exactly if the value is
text-ordered. -/
theorem canon_jsonColumn_iff {v : PyVal} (h : v.Storable) :
    canon (jsonColumn v) = canon v ↔ textOrdered v = true := by
  have items {xs : List PyVal}
      (ih : ∀ x ∈ xs, x.Storable → (canon (jsonColumn x) = canon x ↔ textOrdered x = true))
      (hxs : ∀ x ∈ xs, x.Storable) :
      canonItems (columnItems xs) = canonItems xs ↔ textOrderedItems xs = true := by
    rw [canonItems_eq_map, canonItems_eq_map, columnItems_eq_map, List.map_map,
      List.map_inj_left, textOrderedItems_iff]
    exact forall₂_congr fun x hx => ih x hx (hxs x hx)
  induction v using PyVal.induction with
  | none => simp [jsonColumn, textOrdered]
  | bool b => simp [jsonColumn, textOrdered]
  | int n => simp [jsonColumn, textOrdered]
  | float f => simp [jsonColumn, textOrdered, columnFloat_eq (isFinite_of_storable h)]
  | str t => simp [jsonColumn, textOrdered, columnText_eq h.isUtf8]
  | list xs ih =>
    simp only [jsonColumn, canon, Json.arr.injEq, textOrdered]
    exact items ih (storable_list_iff.mp h)
  | tuple xs ih =>
    simp only [jsonColumn, canon, Json.arr.injEq, textOrdered]
    exact items ih (storable_tuple_iff.mp h)
  | dict d ih =>
    obtain ⟨hkeys, hvalues⟩ := storable_dict_iff.mp h
    rw [hkeys.stored_eq_iff, textOrdered, Bool.and_eq_true, textOrderedEntries_iff]
    exact and_congr_right fun _ => forall₂_congr fun e he => ih e he (hvalues e he)

/-- Text keys can always be sorted. -/
theorem sortableKeys_texts {texts : List String} (h : texts.Nodup) :
    SortableKeys (texts.map fun t => PyKey.str (.utf8 t)) := by
  refine ⟨?_, ?_, ?_⟩
  · unfold keysSerializable
    rw [if_neg, if_pos]
    · simp
    · simp [PyKey.lt?]
  · intro k hk
    obtain ⟨t, _, rfl⟩ := List.mem_map.mp hk
    rfl
  · exact List.pairwise_map.mpr (h.imp fun hne => by simp [PyKey.same, PyKey.number?, hne])

theorem SortableKeys.stored {ks : List PyKey} (h : SortableKeys ks) :
    SortableKeys (ks.map fun k => PyKey.str (keyText k)) := by
  have hkeys : (ks.map fun k => PyKey.str (keyText k)) =
      (ks.map PyKey.text).map fun t => PyKey.str (.utf8 t) := by
    rw [List.map_map]
    exact List.map_congr_left fun k hk => congrArg PyKey.str (h.keyText_eq hk)
  rw [hkeys]
  exact sortableKeys_texts h.nodup_text

/-- What storage leaves can be stored again. -/
theorem storable_jsonColumn {v : PyVal} (h : v.Storable) : (jsonColumn v).Storable := by
  induction v using PyVal.induction with
  | none => exact h
  | bool b => exact h
  | int n => exact h
  | float f => rwa [jsonColumn, columnFloat_eq (isFinite_of_storable h)]
  | str t => rwa [jsonColumn, columnText_eq h.isUtf8]
  | list xs ih =>
    rw [jsonColumn, storable_list_iff, columnItems_eq_map, List.forall_mem_map]
    exact fun x hx => ih x hx (storable_list_iff.mp h x hx)
  | tuple xs ih =>
    rw [jsonColumn, storable_list_iff, columnItems_eq_map, List.forall_mem_map]
    exact fun x hx => ih x hx (storable_tuple_iff.mp h x hx)
  | dict d ih =>
    obtain ⟨hkeys, hvalues⟩ := storable_dict_iff.mp h
    rw [jsonColumn, hkeys.columnEntries_eq, storable_dict_iff]
    constructor
    · have hstored := hkeys.stored
      rw [List.map_map] at hstored ⊢
      exact hstored
    · rw [List.forall_mem_map]
      exact fun e he => ih e he (hvalues e he)

/-- The keys of the entries after sorting are the keys before. -/
theorem perm_sortedEntries (d : List (PyKey × PyVal)) :
    ((sortEntries d).insertionSort entryLe).Perm (d.map fun e => (e.1, sortKeys e.2)) := by
  rw [sortEntries_eq_map]
  exact List.perm_insertionSort _ _

theorem same_comm (k l : PyKey) : k.same l = l.same k := by
  have heq (x y : PyFloat) : x.eq y = y.eq x := by
    unfold PyFloat.eq
    cases x <;> cases y <;> simp [PyFloat.value?, eq_comm]
  unfold PyKey.same
  cases k.number? <;> cases l.number? <;> simp [eq_comm, heq]

theorem SortableKeys.perm {ks ls : List PyKey} (h : SortableKeys ks) (hperm : ls.Perm ks) :
    SortableKeys ls := by
  refine ⟨?_, fun k hk => h.isUtf8 k (hperm.mem_iff.mp hk), ?_⟩
  · rw [← h.serializable]
    unfold keysSerializable
    have hany : (ls.any fun k => ls.any fun l => k ≠ l && (k.lt? l).isNone) =
        ks.any fun k => ks.any fun l => k ≠ l && (k.lt? l).isNone := by
      rw [hperm.any_eq]
      exact congrArg ks.any (funext fun k => hperm.any_eq)
    rw [hany, hperm.all_eq]
  · refine (hperm.pairwise_iff fun hkl => ?_).mpr h.distinct
    rwa [same_comm]

theorem storable_sortKeys {v : PyVal} (h : v.Storable) : (sortKeys v).Storable := by
  induction v using PyVal.induction with
  | none => exact h
  | bool b => exact h
  | int n => exact h
  | float f => exact h
  | str t => exact h
  | list xs ih =>
    rw [sortKeys, storable_list_iff, sortItems_eq_map, List.forall_mem_map]
    exact fun x hx => ih x hx (storable_list_iff.mp h x hx)
  | tuple xs ih =>
    rw [sortKeys, storable_tuple_iff, sortItems_eq_map, List.forall_mem_map]
    exact fun x hx => ih x hx (storable_tuple_iff.mp h x hx)
  | dict d ih =>
    obtain ⟨hkeys, hvalues⟩ := storable_dict_iff.mp h
    have hperm := perm_sortedEntries d
    rw [sortKeys, storable_dict_iff]
    constructor
    · refine hkeys.perm ((hperm.map Prod.fst).trans ?_)
      rw [List.map_map]
      exact List.Perm.refl _
    · intro e he
      obtain ⟨e', he', rfl⟩ := List.mem_map.mp (hperm.mem_iff.mp he)
      exact ih e' he' (hvalues e' he')

/-- A file and a column leave one canonical text. -/
theorem canon_fileValue {v : PyVal} (h : v.Storable) :
    canon (fileValue v) = canon (jsonColumn v) := by
  unfold fileValue
  have items {xs : List PyVal}
      (ih : ∀ x ∈ xs, x.Storable → canon (jsonColumn (sortKeys x)) = canon (jsonColumn x))
      (hxs : ∀ x ∈ xs, x.Storable) :
      canonItems (columnItems (sortItems xs)) = canonItems (columnItems xs) := by
    rw [canonItems_eq_map, canonItems_eq_map, columnItems_eq_map, columnItems_eq_map,
      sortItems_eq_map, List.map_map, List.map_map, List.map_map]
    exact List.map_congr_left fun x hx => ih x hx (hxs x hx)
  induction v using PyVal.induction with
  | none => rfl
  | bool b => rfl
  | int n => rfl
  | float f => rfl
  | str t => rfl
  | list xs ih =>
    simp only [sortKeys, jsonColumn, canon, Json.arr.injEq]
    exact items ih (storable_list_iff.mp h)
  | tuple xs ih =>
    simp only [sortKeys, jsonColumn, canon, Json.arr.injEq]
    exact items ih (storable_tuple_iff.mp h)
  | dict d ih =>
    obtain ⟨hkeys, hvalues⟩ := storable_dict_iff.mp h
    have hsorted := (storable_dict_iff.mp (storable_sortKeys h)).1
    rw [sortKeys, hsorted.canon_jsonColumn_dict, hkeys.canon_jsonColumn_dict, storedMembers,
      storedMembers, insertionSort_perm_eq hkeys.text_mem]
    · have hnodup := hkeys.nodup_text
      rw [List.map_map] at hnodup ⊢
      exact hnodup
    · refine ((perm_sortedEntries d).map _).trans ?_
      rw [List.map_map]
      refine List.Perm.of_eq (List.map_congr_left fun e he => ?_)
      exact Prod.ext rfl (ih e he (hvalues e he))

theorem storable_fileValue {v : PyVal} (h : v.Storable) : (fileValue v).Storable :=
  storable_jsonColumn (storable_sortKeys h)

/-! ## JSON values -/

mutual

/-- A JSON value with text keys, none of them twice. -/
def jsonValue : PyVal → Bool
  | .list xs => jsonItems xs
  | .tuple _ => false
  | .dict d => keysDistinct (d.map Prod.fst) && jsonEntries d
  | _ => true

def jsonItems : List PyVal → Bool
  | [] => true
  | x :: xs => jsonValue x && jsonItems xs

def jsonEntries : List (PyKey × PyVal) → Bool
  | [] => true
  | (.str _, v) :: rest => jsonValue v && jsonEntries rest
  | _ => false

end

theorem jsonItems_iff {xs : List PyVal} : jsonItems xs = true ↔ ∀ x ∈ xs, jsonValue x = true := by
  induction xs with
  | nil => simp [jsonItems]
  | cons x xs ih => simp [jsonItems, ih]

theorem jsonEntries_iff {d : List (PyKey × PyVal)} :
    jsonEntries d = true ↔ ∀ e ∈ d, (∃ t, e.1 = .str t) ∧ jsonValue e.2 = true := by
  induction d with
  | nil => simp [jsonEntries]
  | cons e rest ih =>
    obtain ⟨k, v⟩ := e
    cases k with
    | str t => simp [jsonEntries, ih]
    | _ => simp [jsonEntries]

/-- Text keys have the order of their texts. -/
theorem textOrdered_of_jsonValue {v : PyVal} (h : jsonValue v = true) :
    wellFormed v = true ∧ textOrdered v = true := by
  induction v using PyVal.induction with
  | tuple xs ih => cases h
  | list xs ih =>
    have hitems := jsonItems_iff.mp h
    exact ⟨wellFormedItems_iff.mpr fun x hx => (ih x hx (hitems x hx)).1,
      textOrderedItems_iff.mpr fun x hx => (ih x hx (hitems x hx)).2⟩
  | dict d ih =>
    rw [jsonValue, Bool.and_eq_true] at h
    have hentries := jsonEntries_iff.mp h.2
    rw [wellFormed, textOrdered, Bool.and_eq_true, Bool.and_eq_true]
    refine ⟨⟨h.1, wellFormedEntries_iff.mpr fun e he => (ih e he (hentries e he).2).1⟩, ?_,
      textOrderedEntries_iff.mpr fun e he => (ih e he (hentries e he).2).2⟩
    have texts {k : PyKey} (hk : k ∈ d.map Prod.fst) : ∃ t, k = .str t := by
      obtain ⟨e, he, rfl⟩ := List.mem_map.mp hk
      exact (hentries e he).1
    simp only [keysTextOrdered, List.all_eq_true, Bool.or_eq_true, decide_eq_true_eq, ne_eq,
      ← imp_iff_not_or]
    intro k hk l hl hlt
    obtain ⟨s, rfl⟩ := texts hk
    obtain ⟨t, rfl⟩ := texts hl
    exact Option.some.inj hlt
  | _ => exact ⟨rfl, rfl⟩

/-! ## Values that a JSON text gives back -/

mutual

/-- A JSON value with text keys, none of them twice, without what JSON has no text for:
a `nan`, and two surrogates that are read as one character. -/
def jsonStable : PyVal → Bool
  | .float f => columnFloat f = f
  | .str t => columnText t = t
  | .list xs => stableItems xs
  | .tuple _ => false
  | .dict d => keysDistinct (d.map Prod.fst) && stableEntries d
  | _ => true

def stableItems : List PyVal → Bool
  | [] => true
  | x :: xs => jsonStable x && stableItems xs

def stableEntries : List (PyKey × PyVal) → Bool
  | [] => true
  | (.str t, v) :: rest => columnText t = t && jsonStable v && stableEntries rest
  | _ => false

end

theorem stableItems_iff {xs : List PyVal} :
    stableItems xs = true ↔ ∀ x ∈ xs, jsonStable x = true := by
  induction xs with
  | nil => simp [stableItems]
  | cons x xs ih => simp [stableItems, ih]

theorem stableEntries_iff {d : List (PyKey × PyVal)} :
    stableEntries d = true ↔
      ∀ e ∈ d, (∃ t, e.1 = .str t ∧ columnText t = t) ∧ jsonStable e.2 = true := by
  induction d with
  | nil => simp [stableEntries]
  | cons e rest ih =>
    obtain ⟨k, v⟩ := e
    cases k with
    | str t => simp [stableEntries, ih, and_assoc]
    | _ => simp [stableEntries]

/-- A JSON column returns the JSON stored. -/
theorem jsonColumn_eq_self {v : PyVal} (h : jsonStable v = true) : jsonColumn v = v := by
  have items {xs : List PyVal} (ih : ∀ x ∈ xs, jsonStable x = true → jsonColumn x = x)
      (hxs : stableItems xs = true) : columnItems xs = xs := by
    rw [columnItems_eq_map]
    have hitems := stableItems_iff.mp hxs
    exact (List.map_congr_left fun x hx => ih x hx (hitems x hx)).trans (List.map_id xs)
  induction v using PyVal.induction with
  | float f => exact congrArg PyVal.float (of_decide_eq_true h)
  | str t => exact congrArg PyVal.str (of_decide_eq_true h)
  | tuple xs ih => cases h
  | list xs ih => exact congrArg PyVal.list (items ih h)
  | dict d ih =>
    rw [jsonStable, Bool.and_eq_true] at h
    have hentries := stableEntries_iff.mp h.2
    have hkey {e : PyKey × PyVal} (he : e ∈ d) : PyKey.str (keyText e.1) = e.1 := by
      obtain ⟨t, ht, _⟩ := (hentries e he).1
      rw [ht, keyText]
    rw [jsonColumn, columnEntries_eq_append d [] ?_ ?_, List.nil_append]
    · refine congrArg PyVal.dict ((List.map_congr_left fun e he => ?_).trans (List.map_id d))
      exact Prod.ext (hkey he) (ih e he (hentries e he).2)
    · intro k hk
      obtain ⟨e, he, rfl⟩ := List.mem_map.mp hk
      obtain ⟨t, ht, hstable⟩ := (hentries e he).1
      rw [ht]
      exact hstable
    · rw [List.map_nil, List.nil_append, List.map_congr_left fun e he => hkey he]
      have hdistinct : (d.map Prod.fst).Pairwise fun k l => k.same l = false :=
        of_decide_eq_true h.1
      exact hdistinct.imp fun hkl heq => by simp [heq, same_self] at hkl
  | _ => rfl

/-- Among them is every JSON value that can be encoded for a signature. -/
theorem jsonStable_of_encodable {v : PyVal} (h : jsonValue v = true) (henc : v.Encodable) :
    jsonStable v = true := by
  have hstorable : v.Storable := ⟨henc, (textOrdered_of_jsonValue h).1⟩
  clear henc
  induction v using PyVal.induction with
  | float f => exact decide_eq_true (columnFloat_eq (isFinite_of_storable hstorable))
  | str t => exact decide_eq_true (columnText_eq hstorable.isUtf8)
  | tuple xs ih => cases h
  | list xs ih =>
    have hitems := jsonItems_iff.mp h
    exact stableItems_iff.mpr fun x hx =>
      ih x hx (hitems x hx) (storable_list_iff.mp hstorable x hx)
  | dict d ih =>
    rw [jsonValue, Bool.and_eq_true] at h
    have hentries := jsonEntries_iff.mp h.2
    obtain ⟨hkeys, hvalues⟩ := storable_dict_iff.mp hstorable
    rw [jsonStable, Bool.and_eq_true]
    refine ⟨h.1, stableEntries_iff.mpr fun e he => ?_⟩
    refine ⟨?_, ih e he (hentries e he).2 (hvalues e he)⟩
    obtain ⟨t, ht⟩ := (hentries e he).1
    have hutf := hkeys.isUtf8 e.1 (List.mem_map_of_mem he)
    rw [ht] at hutf
    exact ⟨t, ht, columnText_eq hutf⟩
  | _ => rfl

end EarnedAutonomy
