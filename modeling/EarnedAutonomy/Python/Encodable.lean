import EarnedAutonomy.Python.JsonStorage

/-!
# Which values can be encoded

`PyVal.Encodable`, from the parts of a value.  The simp lemmas take the dictionary
of a record apart into conditions on its fields: a text has to be UTF-8, a float
finite, and everything else that a record holds can be encoded anyway.
-/

namespace EarnedAutonomy

variable {d : List (PyKey × PyVal)} {xs : List PyVal} {m : Mapping}

/-! ## Scalars -/

@[simp] theorem encodable_none : PyVal.none.Encodable := ⟨rfl, rfl⟩

@[simp] theorem encodable_bool (b : Bool) : (PyVal.bool b).Encodable := ⟨rfl, rfl⟩

@[simp] theorem encodable_int (n : Int) : (PyVal.int n).Encodable := ⟨rfl, rfl⟩

@[simp] theorem encodable_text (s : String) : (PyVal.text s).Encodable := ⟨rfl, rfl⟩

@[simp] theorem encodable_optText (s : Option String) : (PyVal.optText s).Encodable := by
  cases s <;> exact ⟨rfl, rfl⟩

@[simp] theorem encodable_str {s : PyStr} : (PyVal.str s).Encodable ↔ s.isUtf8 = true :=
  ⟨fun h => h.isUtf8, fun h => ⟨rfl, h⟩⟩

@[simp] theorem encodable_float {f : PyFloat} : (PyVal.float f).Encodable ↔ f.isFinite = true := by
  constructor
  · intro h
    have hs := h.serializable
    rw [serializable] at hs
    split at hs
    · assumption
    · cases hs
  · intro h
    refine ⟨?_, rfl⟩
    rw [serializable, if_pos h]

/-! ## Lists -/

@[simp] theorem encodable_list : (PyVal.list xs).Encodable ↔ ∀ x ∈ xs, x.Encodable := by
  have items : serializableItems xs = .ok () ∧ isUtf8Items xs = true ↔ ∀ x ∈ xs, x.Encodable := by
    induction xs with
    | nil => simp [serializableItems, isUtf8Items]
    | cons x xs ih =>
      rw [List.forall_mem_cons, ← ih, serializableItems, seq_eq_ok_iff, isUtf8Items,
        Bool.and_eq_true]
      constructor
      · rintro ⟨⟨hs, hss⟩, hu, hus⟩
        exact ⟨⟨hs, hu⟩, hss, hus⟩
      · rintro ⟨⟨hs, hu⟩, hss, hus⟩
        exact ⟨⟨hs, hss⟩, hu, hus⟩
  rw [← items]
  exact ⟨fun h => ⟨h.serializable, h.isUtf8⟩, fun h => ⟨h.1, h.2⟩⟩

@[simp] theorem encodable_textsToVal (ts : List String) : (textsToVal ts).Encodable := by
  unfold textsToVal
  simp

/-! ## Dictionaries -/

/-- A `dict` can be encoded if its keys can and its values can. -/
theorem encodable_dict : (PyVal.dict d).Encodable ↔
    keysSerializable (d.map Prod.fst) = .ok () ∧ (∀ e ∈ d, (keyText e.1).isUtf8 = true) ∧
      ∀ e ∈ d, e.2.Encodable := by
  have entries : serializableEntries d = .ok () ∧ isUtf8Entries d = true ↔
      (∀ e ∈ d, (keyText e.1).isUtf8 = true) ∧ ∀ e ∈ d, e.2.Encodable := by
    induction d with
    | nil => simp [serializableEntries, isUtf8Entries]
    | cons e rest ih =>
      rw [List.forall_mem_cons, List.forall_mem_cons, serializableEntries, seq_eq_ok_iff,
        isUtf8Entries, Bool.and_eq_true, Bool.and_eq_true]
      constructor
      · rintro ⟨⟨hs, hss⟩, ⟨hk, hu⟩, hus⟩
        obtain ⟨hkeys, hvalues⟩ := ih.mp ⟨hss, hus⟩
        exact ⟨⟨hk, hkeys⟩, ⟨hs, hu⟩, hvalues⟩
      · rintro ⟨⟨hk, hkeys⟩, ⟨hs, hu⟩, hvalues⟩
        obtain ⟨hss, hus⟩ := ih.mpr ⟨hkeys, hvalues⟩
        exact ⟨⟨hs, hss⟩, ⟨hk, hu⟩, hus⟩
  constructor
  · rintro ⟨hs, hu⟩
    obtain ⟨hkeys, hss⟩ := seq_eq_ok_iff.mp hs
    exact ⟨hkeys, entries.mp ⟨hss, hu⟩⟩
  · rintro ⟨hkeys, hvalues⟩
    obtain ⟨hss, hus⟩ := entries.mpr hvalues
    exact ⟨seq_eq_ok_iff.mpr ⟨hkeys, hss⟩, hus⟩

/-- Texts can always be sorted. -/
theorem keysSerializable_of_texts {ks : List PyKey} (h : ∀ k ∈ ks, ∃ t, k = .str t) :
    keysSerializable ks = .ok () := by
  have hcompare : ks.any (fun k => ks.any fun l => k ≠ l && (k.lt? l).isNone) = false := by
    simp only [List.any_eq_false]
    intro k hk hany
    rw [List.any_eq_true] at hany
    obtain ⟨l, hl, hkl⟩ := hany
    obtain ⟨s, rfl⟩ := h k hk
    obtain ⟨t, rfl⟩ := h l hl
    simp [PyKey.lt?] at hkl
  unfold keysSerializable
  rw [hcompare]
  split
  · contradiction
  · rw [if_pos]
    rw [List.all_eq_true]
    intro k hk
    obtain ⟨s, rfl⟩ := h k hk
    rfl

/-- The keys are texts of the source. -/
def textKeys (d : List (PyKey × PyVal)) : Bool :=
  d.all fun e => match e.1 with
    | .str (.utf8 _) => true
    | _ => false

theorem encodable_of_textKeys (h : textKeys d = true) :
    (PyVal.dict d).Encodable ↔ ∀ e ∈ d, e.2.Encodable := by
  have text {e : PyKey × PyVal} (he : e ∈ d) : ∃ s, e.1 = .str (.utf8 s) := by
    have hkey := List.all_eq_true.mp h e he
    split at hkey
    · rename_i s hs
      exact ⟨s, hs⟩
    · cases hkey
  rw [encodable_dict]
  constructor
  · exact fun h => h.2.2
  · intro hvalues
    refine ⟨keysSerializable_of_texts fun k hk => ?_, fun e he => ?_, hvalues⟩
    · obtain ⟨e, he, rfl⟩ := List.mem_map.mp hk
      obtain ⟨s, hs⟩ := text he
      exact ⟨_, hs⟩
    · obtain ⟨s, hs⟩ := text he
      rw [hs]
      rfl

@[simp] theorem encodable_mapping :
    m.toVal.Encodable ↔ ∀ e ∈ m, e.1.isUtf8 = true ∧ e.2.Encodable := by
  unfold Mapping.toVal
  rw [encodable_dict]
  constructor
  · rintro ⟨_, hkeys, hvalues⟩ e he
    have hmem : ((.str e.1, e.2) : PyKey × PyVal) ∈ m.map fun e => (PyKey.str e.1, e.2) :=
      List.mem_map_of_mem he
    exact ⟨hkeys _ hmem, hvalues _ hmem⟩
  · intro h
    refine ⟨keysSerializable_of_texts fun k hk => ?_, fun e he => ?_, fun e he => ?_⟩
    · rw [List.map_map] at hk
      obtain ⟨e, _, rfl⟩ := List.mem_map.mp hk
      exact ⟨e.1, rfl⟩
    · obtain ⟨e', he', rfl⟩ := List.mem_map.mp he
      exact (h e' he').1
    · obtain ⟨e', he', rfl⟩ := List.mem_map.mp he
      exact (h e' he').2

end EarnedAutonomy
