import EarnedAutonomy.Python.Encodable

/-!
# The order of keys

A canonical text does not show in which order the keys of a `dict` were inserted.  This
module says that it shows everything else of a JSON value, and that no comparison sees
the order.

* `Alike` are two JSON values that differ in the order of keys alone, at any depth.
  `alike_of_canonicalBytes`: so are two values with one canonical text.
* `eq_sortKeys_left` and its like: `==`, `<` and `in` do not depend on the order.
-/

namespace EarnedAutonomy

open CanonicalJson FloatText KeySort

/-- A text that can be encoded is determined by its UTF-8. -/
theorem PyStr.eq_of_toText {s t : PyStr} (hs : s.isUtf8 = true) (ht : t.isUtf8 = true)
    (h : s.toText = t.toText) : s = t := by
  cases s with
  | lone s => cases hs
  | utf8 s =>
    cases t with
    | lone t => cases ht
    | utf8 t => exact congrArg PyStr.utf8 h

namespace PyVal

/-- The same JSON value, up to the order of keys. -/
structure Alike (v w : PyVal) : Prop where
  left : jsonValue v = true
  right : jsonValue w = true
  sorted : sortKeys v = sortKeys w

theorem Alike.refl {v : PyVal} (h : jsonValue v = true) : v.Alike v := ⟨h, h, rfl⟩

theorem Alike.symm {v w : PyVal} (h : v.Alike w) : w.Alike v := ⟨h.right, h.left, h.sorted.symm⟩

/-! ## Lookups -/

variable {d d' : List (PyKey × PyVal)}

theorem jsonValue_dict_iff : jsonValue (.dict d) = true ↔
    (d.map Prod.fst).Pairwise (fun k l => k.same l = false) ∧
      ∀ e ∈ d, (∃ t, e.1 = .str t) ∧ jsonValue e.2 = true := by
  rw [jsonValue, Bool.and_eq_true, jsonEntries_iff, keysDistinct, decide_eq_true_eq]

theorem same_str_iff {k : PyKey} {t : PyStr} : k.same (.str t) = true ↔ k = .str t := by
  cases k <;> simp [PyKey.same, PyKey.number?]

theorem str_same_iff {k : PyKey} {t : PyStr} : (PyKey.str t).same k = true ↔ k = .str t := by
  cases k <;> simp [PyKey.same, PyKey.number?, eq_comm]

/-- A lookup finds the entry under the key, wherever it stands. -/
theorem lookup_eq_some_iff (h : jsonValue (.dict d) = true) {key : PyKey} {v : PyVal} :
    lookup d key = some v ↔ ∃ t, key = .str t ∧ (.str t, v) ∈ d := by
  obtain ⟨hdistinct, htexts⟩ := jsonValue_dict_iff.mp h
  clear h
  induction d with
  | nil => simp [lookup]
  | cons e rest ih =>
    obtain ⟨k, w⟩ := e
    obtain ⟨⟨⟨t, ht⟩, _⟩, hrest⟩ := List.forall_mem_cons.mp htexts
    obtain rfl : k = .str t := ht
    rw [List.map_cons, List.pairwise_cons] at hdistinct
    rw [lookup]
    by_cases hkey : key = .str t
    · subst hkey
      rw [if_pos (str_same_iff.mpr rfl)]
      constructor
      · intro hv
        cases hv
        exact ⟨t, rfl, List.mem_cons_self⟩
      · rintro ⟨_, ⟨⟩, hmem⟩
        rcases List.mem_cons.mp hmem with heq | hmem
        · cases heq
          rfl
        · have hne := hdistinct.1 _ (List.mem_map_of_mem hmem)
          rw [str_same_iff.mpr rfl] at hne
          cases hne
    · rw [if_neg fun hsame => hkey (str_same_iff.mp hsame), ih hdistinct.2 hrest]
      constructor
      · rintro ⟨s, rfl, hmem⟩
        exact ⟨s, rfl, List.mem_cons_of_mem _ hmem⟩
      · rintro ⟨s, rfl, hmem⟩
        rcases List.mem_cons.mp hmem with heq | hmem
        · cases heq
          exact absurd rfl hkey
        · exact ⟨s, rfl, hmem⟩

/-- The entries of a `dict` with its keys sorted. -/
def sortedEntries (d : List (PyKey × PyVal)) : List (PyKey × PyVal) :=
  (sortEntries d).insertionSort entryLe

theorem sortKeys_dict : sortKeys (.dict d) = .dict (sortedEntries d) := rfl

theorem jsonValue_sortKeys {v : PyVal} (h : jsonValue v = true) :
    jsonValue (sortKeys v) = true := by
  induction v using PyVal.induction with
  | tuple xs ih => cases h
  | list xs ih =>
    have hitems := jsonItems_iff.mp h
    rw [sortKeys, sortItems_eq_map, jsonValue, jsonItems_iff, List.forall_mem_map]
    exact fun x hx => ih x hx (hitems x hx)
  | dict d ih =>
    obtain ⟨hdistinct, htexts⟩ := jsonValue_dict_iff.mp h
    have hperm := perm_sortedEntries d
    rw [sortKeys_dict, jsonValue_dict_iff]
    constructor
    · refine ((hperm.map Prod.fst).pairwise_iff fun {k l} hkl => ?_).mpr ?_
      · rwa [same_comm]
      · rw [List.map_map]
        exact hdistinct
    · intro e he
      obtain ⟨e', he', rfl⟩ := List.mem_map.mp (hperm.mem_iff.mp he)
      exact ⟨(htexts e' he').1, ih e' he' (htexts e' he').2⟩
  | _ => exact h

theorem lookup_sortedEntries (h : jsonValue (.dict d) = true) (key : PyKey) :
    lookup (sortedEntries d) key = (lookup d key).map sortKeys := by
  have hsorted := jsonValue_sortKeys h
  rw [sortKeys_dict] at hsorted
  refine Option.ext fun v => ?_
  rw [lookup_eq_some_iff hsorted, Option.map_eq_some_iff]
  constructor
  · rintro ⟨t, rfl, hmem⟩
    obtain ⟨⟨k, w⟩, hw, heq⟩ := List.mem_map.mp ((perm_sortedEntries d).mem_iff.mp hmem)
    cases heq
    exact ⟨w, (lookup_eq_some_iff h).mpr ⟨t, rfl, hw⟩, rfl⟩
  · rintro ⟨w, hw, rfl⟩
    obtain ⟨t, rfl, hmem⟩ := (lookup_eq_some_iff h).mp hw
    exact ⟨t, rfl, (perm_sortedEntries d).mem_iff.mpr (List.mem_map.mpr ⟨_, hmem, rfl⟩)⟩

/-! ## Comparisons -/

theorem identical_sortKeys_left (v x : PyVal) : identical (sortKeys v) x = identical v x := by
  cases v <;> rfl

theorem identical_sortKeys_right (x v : PyVal) : identical x (sortKeys v) = identical x v := by
  cases v <;> first | rfl | (cases x <;> first | rfl | (rename_i f; cases f <;> rfl))

theorem eqItems_map_left {f : PyVal → PyVal} {xs : List PyVal}
    (h : ∀ x ∈ xs, ∀ y, (identical (f x) y || eq (f x) y) = (identical x y || eq x y))
    (ys : List PyVal) : eqItems (xs.map f) ys = eqItems xs ys := by
  induction xs generalizing ys with
  | nil => rfl
  | cons x xs ih =>
    obtain ⟨hx, hxs⟩ := List.forall_mem_cons.mp h
    cases ys with
    | nil => rfl
    | cons y ys => rw [List.map_cons, eqItems, eqItems, hx, ih hxs]

theorem eqItems_map_right {f : PyVal → PyVal} {ys : List PyVal}
    (h : ∀ y ∈ ys, ∀ x, (identical x (f y) || eq x (f y)) = (identical x y || eq x y))
    (xs : List PyVal) : eqItems xs (ys.map f) = eqItems xs ys := by
  induction ys generalizing xs with
  | nil => rfl
  | cons y ys ih =>
    obtain ⟨hy, hys⟩ := List.forall_mem_cons.mp h
    cases xs with
    | nil => rfl
    | cons x xs => rw [List.map_cons, eqItems, eqItems, hy, ih hys]

/-- The entry has a counterpart in the `dict`. -/
def hasCounterpart (d : List (PyKey × PyVal)) (e : PyKey × PyVal) : Bool :=
  match lookup d e.1 with
  | some w => identical e.2 w || eq e.2 w
  | Option.none => false

theorem eqEntries_eq_all (d d' : List (PyKey × PyVal)) :
    eqEntries d d' = d.all (hasCounterpart d') := by
  induction d with
  | nil => rfl
  | cons e rest ih =>
    rw [eqEntries, ih, List.all_cons]
    rfl

/-- `==` does not see the order of keys on its left. -/
theorem eq_sortKeys_left (v x : PyVal) : eq (sortKeys v) x = eq v x := by
  induction v using PyVal.induction generalizing x with
  | list xs ih =>
    have hitems (ys : List PyVal) : eqItems (xs.map sortKeys) ys = eqItems xs ys :=
      eqItems_map_left (fun x hx y => by rw [identical_sortKeys_left, ih x hx]) ys
    rw [sortKeys, sortItems_eq_map]
    cases x <;> first | rfl | exact hitems _
  | tuple xs ih =>
    have hitems (ys : List PyVal) : eqItems (xs.map sortKeys) ys = eqItems xs ys :=
      eqItems_map_left (fun x hx y => by rw [identical_sortKeys_left, ih x hx]) ys
    rw [sortKeys, sortItems_eq_map]
    cases x <;> first | rfl | exact hitems _
  | dict d ih =>
    cases x with
    | dict d' =>
      have hperm : (sortedEntries d).Perm _ := perm_sortedEntries d
      rw [sortKeys_dict, eq, eq, eqEntries_eq_all, eqEntries_eq_all, hperm.length_eq, hperm.all_eq,
        List.length_map, List.all_map]
      congr 1
      rw [Bool.eq_iff_iff, List.all_eq_true, List.all_eq_true]
      refine forall₂_congr fun e he => ?_
      have hsame : hasCounterpart d' (e.1, sortKeys e.2) = hasCounterpart d' e := by
        unfold hasCounterpart
        dsimp only
        split
        · rw [identical_sortKeys_left, ih e he]
        · rfl
      rw [Function.comp_apply, hsame]
    | _ => rfl
  | _ => rfl

/-- `==` does not see the order of keys on its right. -/
theorem eq_sortKeys_right {v : PyVal} (h : jsonValue v = true) (x : PyVal) :
    eq x (sortKeys v) = eq x v := by
  induction v using PyVal.induction generalizing x with
  | tuple xs ih => cases h
  | list ys ih =>
    have hys := jsonItems_iff.mp h
    have hitems (xs : List PyVal) : eqItems xs (ys.map sortKeys) = eqItems xs ys :=
      eqItems_map_right (fun y hy x => by rw [identical_sortKeys_right, ih y hy (hys y hy)]) xs
    rw [sortKeys, sortItems_eq_map]
    cases x <;> first | rfl | exact hitems _
  | dict d' ih =>
    cases x with
    | dict d =>
      have hperm : (sortedEntries d').Perm _ := perm_sortedEntries d'
      rw [sortKeys_dict, eq, eq, eqEntries_eq_all, eqEntries_eq_all, hperm.length_eq,
        List.length_map]
      congr 1
      rw [Bool.eq_iff_iff, List.all_eq_true, List.all_eq_true]
      refine forall₂_congr fun e _ => ?_
      have hsame : hasCounterpart (sortedEntries d') e = hasCounterpart d' e := by
        unfold hasCounterpart
        rw [lookup_sortedEntries h]
        cases hlookup : lookup d' e.1 with
        | none => rfl
        | some w =>
          obtain ⟨t, _, hmem⟩ := (lookup_eq_some_iff h).mp hlookup
          have hw := ((jsonValue_dict_iff.mp h).2 _ hmem).2
          show (identical e.2 (sortKeys w) || eq e.2 (sortKeys w)) = _
          rw [identical_sortKeys_right, ih _ hmem hw]
      rw [hsame]
    | _ => rfl
  | _ => rfl

theorem ltItems_map_left {f : PyVal → PyVal} {xs : List PyVal}
    (h : ∀ x ∈ xs, ∀ y, (identical (f x) y || eq (f x) y) = (identical x y || eq x y) ∧
      lt (f x) y = lt x y)
    (ys : List PyVal) : ltItems (xs.map f) ys = ltItems xs ys := by
  induction xs generalizing ys with
  | nil => rfl
  | cons x xs ih =>
    obtain ⟨hx, hxs⟩ := List.forall_mem_cons.mp h
    cases ys with
    | nil => rfl
    | cons y ys => rw [List.map_cons, ltItems, ltItems, (hx y).1, (hx y).2, ih hxs]

theorem ltItems_map_right {f : PyVal → PyVal} {ys : List PyVal}
    (h : ∀ y ∈ ys, ∀ x, (identical x (f y) || eq x (f y)) = (identical x y || eq x y) ∧
      lt x (f y) = lt x y)
    (xs : List PyVal) : ltItems xs (ys.map f) = ltItems xs ys := by
  induction ys generalizing xs with
  | nil => rfl
  | cons y ys ih =>
    obtain ⟨hy, hys⟩ := List.forall_mem_cons.mp h
    cases xs with
    | nil => rfl
    | cons x xs => rw [List.map_cons, ltItems, ltItems, (hy x).1, (hy x).2, ih hys]

/-- `<` does not see the order of keys on its left. -/
theorem lt_sortKeys_left (v x : PyVal) : lt (sortKeys v) x = lt v x := by
  induction v using PyVal.induction generalizing x with
  | list xs ih =>
    have hitems (ys : List PyVal) : ltItems (xs.map sortKeys) ys = ltItems xs ys :=
      ltItems_map_left
        (fun x hx y => ⟨by rw [identical_sortKeys_left, eq_sortKeys_left], ih x hx y⟩) ys
    rw [sortKeys, sortItems_eq_map]
    cases x <;> first | rfl | exact hitems _
  | tuple xs ih =>
    have hitems (ys : List PyVal) : ltItems (xs.map sortKeys) ys = ltItems xs ys :=
      ltItems_map_left
        (fun x hx y => ⟨by rw [identical_sortKeys_left, eq_sortKeys_left], ih x hx y⟩) ys
    rw [sortKeys, sortItems_eq_map]
    cases x <;> first | rfl | exact hitems _
  | dict d ih => cases x <;> rfl
  | _ => rfl

/-- `<` does not see the order of keys on its right. -/
theorem lt_sortKeys_right {v : PyVal} (h : jsonValue v = true) (x : PyVal) :
    lt x (sortKeys v) = lt x v := by
  induction v using PyVal.induction generalizing x with
  | tuple xs ih => cases h
  | list ys ih =>
    have hys := jsonItems_iff.mp h
    have hitems (xs : List PyVal) : ltItems xs (ys.map sortKeys) = ltItems xs ys :=
      ltItems_map_right (fun y hy x =>
        ⟨by rw [identical_sortKeys_right, eq_sortKeys_right (hys y hy)], ih y hy (hys y hy) x⟩) xs
    rw [sortKeys, sortItems_eq_map]
    cases x <;> first | rfl | exact hitems _
  | dict d ih => cases x <;> rfl
  | _ => rfl

theorem isIn_sortKeys {v : PyVal} (h : jsonValue v = true) (items : List PyVal) :
    isIn (sortKeys v) items = isIn v items := by
  unfold isIn
  congr 1
  funext x
  rw [identical_sortKeys_right, eq_sortKeys_right h]

theorem truthy_sortKeys (v : PyVal) : truthy (sortKeys v) = truthy v := by
  cases v with
  | list xs => rw [sortKeys, sortItems_eq_map, truthy, truthy, List.isEmpty_map]
  | tuple xs => rw [sortKeys, sortItems_eq_map, truthy, truthy, List.isEmpty_map]
  | dict d =>
    have hperm : (sortedEntries d).Perm _ := perm_sortedEntries d
    rw [sortKeys_dict, truthy, truthy, hperm.isEmpty_eq, List.isEmpty_map]
  | _ => rfl

theorem isTrue_sortKeys (v : PyVal) : isTrue (sortKeys v) = isTrue v := by
  cases v <;> rfl

theorem containsText_sortKeys {v : PyVal} (h : jsonValue v = true) (s : PyStr) :
    containsText (sortKeys v) s = containsText v s := by
  cases v with
  | tuple xs => cases h
  | list xs =>
    rw [sortKeys, sortItems_eq_map, containsText, containsText, isIn, isIn, List.any_map]
    congr 2
    funext x
    rw [Function.comp_apply, identical_sortKeys_left, eq_sortKeys_left]
  | dict d =>
    rw [sortKeys_dict, containsText, containsText, lookup_sortedEntries h, Option.isSome_map]
  | _ => rfl

/-! ## Alike values -/

section

variable {v w : PyVal}

/-- What does not see the order of keys treats alike values alike. -/
theorem Alike.congr {β : Type} {f : PyVal → β} (h : v.Alike w)
    (hf : ∀ v, jsonValue v = true → f (sortKeys v) = f v) : f v = f w := by
  rw [← hf v h.left, h.sorted, hf w h.right]

/-- Alike lists have alike items. -/
theorem Alike.items {xs ys : List PyVal} (h : (list xs).Alike (list ys)) :
    List.Forall₂ Alike xs ys := by
  obtain ⟨hxs, hys, hsorted⟩ := h
  rw [sortKeys, sortKeys, sortItems_eq_map, sortItems_eq_map, list.injEq] at hsorted
  rw [jsonValue, jsonItems_iff] at hxs hys
  have hitems : List.Forall₂ (fun x y => sortKeys x = sortKeys y) xs ys := by
    rw [← List.forall₂_map_right_iff (f := sortKeys), ← List.forall₂_map_left_iff (f := sortKeys),
      List.forall₂_eq_eq_eq]
    exact hsorted
  obtain ⟨hlength, hzip⟩ := List.forall₂_iff_zip.mp hitems
  refine List.forall₂_iff_zip.mpr ⟨hlength, fun {x y} hmem => ?_⟩
  obtain ⟨hx, hy⟩ := List.of_mem_zip hmem
  exact ⟨hxs x hx, hys y hy, hzip hmem⟩

/-- Alike `dict`s have alike values under every key. -/
theorem Alike.lookup {d d' : List (PyKey × PyVal)} (h : (dict d).Alike (dict d')) (key : PyKey) :
    Option.Rel Alike (lookup d key) (lookup d' key) := by
  have hsorted := h.sorted
  rw [sortKeys_dict, sortKeys_dict, dict.injEq] at hsorted
  have hlookup := congrArg (PyVal.lookup · key) hsorted
  rw [lookup_sortedEntries h.left, lookup_sortedEntries h.right] at hlookup
  cases hv : PyVal.lookup d key with
  | none =>
    rw [hv, Option.map_none, eq_comm, Option.map_eq_none_iff] at hlookup
    rw [hlookup]
    exact .none
  | some v =>
    rw [hv, Option.map_some, eq_comm, Option.map_eq_some_iff] at hlookup
    obtain ⟨w, hw, hvw⟩ := hlookup
    rw [hw]
    obtain ⟨_, _, hmem⟩ := (lookup_eq_some_iff h.left).mp hv
    obtain ⟨_, _, hmem'⟩ := (lookup_eq_some_iff h.right).mp hw
    exact .some ⟨((jsonValue_dict_iff.mp h.left).2 _ hmem).2,
      ((jsonValue_dict_iff.mp h.right).2 _ hmem').2, hvw.symm⟩

/-! ### Scalars are alike to themselves alone -/

theorem eq_of_alike_str {s t : PyStr} (h : (str s).Alike (str t)) : s = t := by
  have hsorted : str s = str t := h.sorted
  rwa [str.injEq] at hsorted

theorem eq_of_alike_text {s t : String} (h : (text s).Alike (text t)) : s = t := by
  have htext : PyStr.utf8 s = .utf8 t := eq_of_alike_str h
  rwa [PyStr.utf8.injEq] at htext

theorem eq_of_alike_bool {a b : Bool} (h : (bool a).Alike (bool b)) : a = b := by
  have hsorted : bool a = bool b := h.sorted
  rwa [bool.injEq] at hsorted

theorem eq_of_alike_int {m n : Int} (h : (int m).Alike (int n)) : m = n := by
  have hsorted : int m = int n := h.sorted
  rwa [int.injEq] at hsorted

theorem eq_of_alike_float {f g : PyFloat} (h : (float f).Alike (float g)) : f = g := by
  have hsorted : float f = float g := h.sorted
  rwa [float.injEq] at hsorted

theorem eq_of_alike_optText {s t : Option String} (h : (optText s).Alike (optText t)) :
    s = t := by
  have hsorted := h.sorted
  cases s with
  | none =>
    cases t with
    | none => rfl
    | some t => cases hsorted
  | some s =>
    cases t with
    | none => cases hsorted
    | some t => exact congrArg some (eq_of_alike_text h)

end

/-! ## One canonical text -/

/-- Equal images of two lists stay equal under what the image determines. -/
theorem map_eq_map_of_map_eq {α β γ : Type} {f : α → β} {g : α → γ} {xs ys : List α}
    (h : ∀ x ∈ xs, ∀ y ∈ ys, f x = f y → g x = g y) (heq : xs.map f = ys.map f) :
    xs.map g = ys.map g := by
  induction xs generalizing ys with
  | nil =>
    rw [List.map_nil, eq_comm, List.map_eq_nil_iff] at heq
    rw [heq]
  | cons x xs ih =>
    cases ys with
    | nil => cases heq
    | cons y ys =>
      rw [List.map_cons, List.map_cons, List.cons.injEq] at heq
      rw [List.map_cons, List.map_cons, h x List.mem_cons_self y List.mem_cons_self heq.1]
      congr 1
      apply ih _ heq.2
      intro x' hx' y' hy'
      exact h x' (List.mem_cons_of_mem _ hx') y' (List.mem_cons_of_mem _ hy')

/-- The members of an object are the sorted entries of its `dict`. -/
theorem canon_dict_eq (d : List (PyKey × PyVal)) :
    canon (.dict d) =
      .obj ((d.insertionSort entryLe).map fun e => ((keyText e.1).toText, canon e.2)) := by
  have hsort := List.map_insertionSort (r := entryLe) (s := keyLe)
    (fun e : PyKey × PyVal => (e.1, canon e.2)) d fun _ _ _ _ => Iff.rfl
  rw [canon, canonEntries_eq_map, ← hsort, List.map_map]
  rfl

theorem sortedEntries_eq (d : List (PyKey × PyVal)) :
    sortedEntries d = (d.insertionSort entryLe).map fun e => (e.1, sortKeys e.2) := by
  rw [sortedEntries, sortEntries_eq_map]
  exact (List.map_insertionSort (r := entryLe) (s := entryLe)
    (fun e : PyKey × PyVal => (e.1, sortKeys e.2)) d fun _ _ _ _ => Iff.rfl).symm

/-- A finite float is a number, with its text. -/
theorem exists_floatJson_eq {f : PyFloat} (h : f.isFinite = true) :
    ∃ n : Lexeme, floatJson f = .num n ∧ floatText f = String.ofList n.chars := by
  cases f with
  | fin d => exact ⟨_, rfl, rfl⟩
  | negZero => exact ⟨_, rfl, rfl⟩
  | _ => cases h

/-- A number with a point or an exponent is that float and nothing else. -/
theorem eq_float_of_canon_eq {f : PyFloat} {w : PyVal} (hf : f.isFinite = true)
    (henc : w.Encodable) (h : canon (.float f) = canon w) : w = .float f := by
  obtain ⟨n, hn, htext⟩ := exists_floatJson_eq hf
  rw [canon, hn] at h
  cases w with
  | int m =>
    rw [canon, Json.num.injEq] at h
    rw [h] at htext
    exact absurd htext.symm (intText_ne_floatText m hf)
  | float g =>
    obtain ⟨n', hn', htext'⟩ := exists_floatJson_eq (encodable_float.mp henc)
    rw [canon, hn', Json.num.injEq] at h
    rw [h, ← htext'] at htext
    rw [eq_of_floatText hf (encodable_float.mp henc) htext]
  | _ => simp only [canon, reduceCtorEq] at h

/-- What a tree tells of a value: everything but the order of its keys. -/
theorem sortKeys_eq_of_canon_eq {v w : PyVal} (hv : jsonValue v = true) (hw : jsonValue w = true)
    (henc : v.Encodable) (henc' : w.Encodable) (h : canon v = canon w) :
    sortKeys v = sortKeys w := by
  induction v using PyVal.induction generalizing w with
  | tuple xs ih => cases hv
  | float f => rw [eq_float_of_canon_eq (encodable_float.mp henc) henc' h]
  | none =>
    cases w with
    | none => rfl
    | float f => cases eq_float_of_canon_eq (encodable_float.mp henc') henc h.symm
    | _ => simp only [canon, reduceCtorEq] at h
  | bool b =>
    cases w with
    | bool b' => rw [eq_of_canon_bool h]
    | float f => cases eq_float_of_canon_eq (encodable_float.mp henc') henc h.symm
    | _ => simp only [canon, reduceCtorEq] at h
  | int m =>
    cases w with
    | int n => rw [eq_of_canon_int h]
    | float f => cases eq_float_of_canon_eq (encodable_float.mp henc') henc h.symm
    | _ => simp only [canon, reduceCtorEq] at h
  | str s =>
    cases w with
    | str t =>
      rw [canon, canon, Json.str.injEq] at h
      rw [PyStr.eq_of_toText (encodable_str.mp henc) (encodable_str.mp henc') h]
    | float f => cases eq_float_of_canon_eq (encodable_float.mp henc') henc h.symm
    | _ => simp only [canon, reduceCtorEq] at h
  | list xs ih =>
    cases w with
    | list ys =>
      rw [canon, canon, Json.arr.injEq, canonItems_eq_map, canonItems_eq_map] at h
      rw [sortKeys, sortKeys, sortItems_eq_map, sortItems_eq_map]
      congr 1
      refine map_eq_map_of_map_eq (fun x hx y hy hxy => ?_) h
      exact ih x hx (jsonItems_iff.mp hv x hx) (jsonItems_iff.mp hw y hy)
        (encodable_list.mp henc x hx) (encodable_list.mp henc' y hy) hxy
    | tuple ys => cases hw
    | float f => cases eq_float_of_canon_eq (encodable_float.mp henc') henc h.symm
    | _ => simp only [canon, reduceCtorEq] at h
  | dict d ih =>
    cases w with
    | dict d' =>
      obtain ⟨_, hkeys, hvalues⟩ := encodable_dict.mp henc
      obtain ⟨_, hkeys', hvalues'⟩ := encodable_dict.mp henc'
      obtain ⟨_, hjson⟩ := jsonValue_dict_iff.mp hv
      obtain ⟨_, hjson'⟩ := jsonValue_dict_iff.mp hw
      rw [canon_dict_eq, canon_dict_eq, Json.obj.injEq] at h
      rw [sortKeys_dict, sortKeys_dict, sortedEntries_eq, sortedEntries_eq]
      congr 1
      refine map_eq_map_of_map_eq (fun e he e' he' hee => ?_) h
      rw [List.mem_insertionSort] at he he'
      rw [Prod.mk.injEq] at hee ⊢
      obtain ⟨⟨s, hs⟩, hvalue⟩ := hjson e he
      obtain ⟨⟨t, ht⟩, hvalue'⟩ := hjson' e' he'
      have hutf := hkeys e he
      have hutf' := hkeys' e' he'
      rw [hs] at hutf hee ⊢
      rw [ht] at hutf' hee ⊢
      constructor
      · exact congrArg PyKey.str (PyStr.eq_of_toText hutf hutf' hee.1)
      · exact ih e he hvalue hvalue' (hvalues e he) (hvalues' e' he') hee.2
    | float f => cases eq_float_of_canon_eq (encodable_float.mp henc') henc h.symm
    | _ => simp only [canon, reduceCtorEq] at h

/-- Two JSON values with one canonical text differ in the order of keys alone. -/
theorem alike_of_canonicalBytes {v w : PyVal} {b : Bytes} (hv : jsonValue v = true)
    (hw : jsonValue w = true) (hb : canonicalBytes v = .ok b) (hb' : canonicalBytes w = .ok b) :
    v.Alike w := by
  refine ⟨hv, hw, sortKeys_eq_of_canon_eq hv hw ?_ ?_ (canon_eq_of_canonicalBytes hb hb')⟩
  · exact encodable_iff.mpr ⟨b, hb⟩
  · exact encodable_iff.mpr ⟨b, hb'⟩

/-! ## Mappings -/

theorem lookup_toVal (m : Mapping) (key : PyStr) :
    lookup (m.map fun e => (PyKey.str e.1, e.2)) (.str key) = OrderedDict.Dict.get? m key := by
  induction m with
  | nil => rfl
  | cons e rest ih =>
    obtain ⟨k, v⟩ := e
    rw [List.map_cons, lookup, OrderedDict.Dict.get?_cons, ih]
    simp only [same_str_iff, PyKey.str.injEq]

end PyVal

namespace Mapping

open OrderedDict

/-- The two mappings hold alike values under every key. -/
def Same (m m' : Mapping) : Prop :=
  ∀ key, Option.Rel PyVal.Alike (Dict.get? m key) (Dict.get? m' key)

variable {m m' : Mapping}

theorem same_of_alike (h : m.toVal.Alike m'.toVal) : m.Same m' := by
  intro key
  have hlookup := h.lookup (.str key)
  rwa [PyVal.lookup_toVal, PyVal.lookup_toVal] at hlookup

/-- A default goes where a key is missing, and it is missing in both. -/
theorem Same.setdefault (h : m.Same m') {v : PyVal} (hv : jsonValue v = true) (key : PyStr) :
    Same (Dict.setdefault m key v) (Dict.setdefault m' key v) := by
  intro k
  rw [Dict.get?_setdefault, Dict.get?_setdefault]
  split
  · have hkey := h key
    generalize Dict.get? m key = x at hkey
    generalize Dict.get? m' key = y at hkey
    cases hkey with
    | none => exact .some (.refl hv)
    | some hxy => exact .some hxy
  · exact h k

/-- The values that are read, with a default where there is none. -/
theorem Same.getD (h : m.Same m') {v : PyVal} (hv : jsonValue v = true) (key : PyStr) :
    ((Dict.get? m key).getD v).Alike ((Dict.get? m' key).getD v) := by
  have hkey := h key
  generalize Dict.get? m key = x at hkey
  generalize Dict.get? m' key = y at hkey
  cases hkey with
  | none => exact .refl hv
  | some hxy => exact hxy

end Mapping

end EarnedAutonomy
