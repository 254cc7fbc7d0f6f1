import Mathlib.Data.List.Forall2
import Mathlib.Data.Option.Basic

/-!
# Insertion-ordered dictionaries

A `Dict` is the list of its entries in the order their keys were first set.
Setting a key that is present replaces the value in place, so the order of the
keys is the order of first insertion.  The lemmas say what a lookup finds
after an update, and which entries a lookup or an update can be about.

Two dictionaries `Agree` if they have the same keys in the same order and related
values.  Lookups, updates and searches keep this.
-/

namespace OrderedDict

/-- One pair for each key, in the order the keys were first set. -/
abbrev Dict (K V : Type) := List (K × V)

namespace Dict

variable {K V : Type} [DecidableEq K]

/-- The value under `key`, if any. -/
def get? : Dict K V → K → Option V
  | [], _ => none
  | (k, v) :: rest, key => if k = key then some v else get? rest key

/-- Store `value` under `key`: in place when the key is present, else at the
end. -/
def set : Dict K V → K → V → Dict K V
  | [], key, value => [(key, value)]
  | (k, v) :: rest, key, value =>
      if k = key then (k, value) :: rest else (k, v) :: set rest key value

/-- Store `value` under `key` unless the key is present. -/
def setdefault (d : Dict K V) (key : K) (value : V) : Dict K V :=
  if (get? d key).isSome then d else set d key value

/-- Set every entry of `d'`. -/
def update (d d' : Dict K V) : Dict K V := d'.foldl (fun acc e => set acc e.1 e.2) d

@[simp] theorem get?_nil (key : K) : get? ([] : Dict K V) key = none := rfl

@[simp] theorem get?_cons (k : K) (v : V) (rest : Dict K V) (key : K) :
    get? ((k, v) :: rest) key = if k = key then some v else get? rest key := rfl

/-- A lookup after a set finds the new value under the key that was set, and
the old one under every other key. -/
theorem get?_set (d : Dict K V) (key : K) (value : V) (k : K) :
    get? (set d key value) k = if key = k then some value else get? d k := by
  induction d with
  | nil => simp [set]
  | cons e rest ih =>
    obtain ⟨k', v'⟩ := e
    by_cases hk : k' = key
    · subst hk
      simp only [set, if_true, get?_cons]
      split <;> rfl
    · simp only [set, hk, if_false, get?_cons, ih]
      by_cases hkk : key = k
      · subst hkk
        simp [hk]
      · simp [hkk]

@[simp] theorem get?_set_self (d : Dict K V) (key : K) (value : V) :
    get? (set d key value) key = some value := by
  simp [get?_set]

theorem get?_set_ne (d : Dict K V) {key k : K} (value : V) (h : key ≠ k) :
    get? (set d key value) k = get? d k := by
  simp [get?_set, h]

theorem get?_setdefault (d : Dict K V) (key : K) (value : V) (k : K) :
    get? (setdefault d key value) k =
      if key = k then some ((get? d key).getD value) else get? d k := by
  unfold setdefault
  by_cases hk : key = k
  · subst hk
    cases hd : get? d key with
    | none => simp
    | some v => simp [hd]
  · cases hd : get? d key with
    | none => simp [get?_set, hk]
    | some v => simp [hk]

/-- A lookup finds an entry of the list. -/
theorem mem_of_get? {d : Dict K V} {key : K} {v : V} (h : get? d key = some v) :
    (key, v) ∈ d := by
  induction d with
  | nil => simp at h
  | cons e rest ih =>
    obtain ⟨k', v'⟩ := e
    rw [get?_cons] at h
    split at h
    · rename_i hk
      subst hk
      cases h
      exact List.mem_cons_self
    · exact List.mem_cons_of_mem _ (ih h)

/-- Every entry after a set is the new one or an old one under another key. -/
theorem mem_set {d : Dict K V} {key : K} {value : V} {e : K × V}
    (hd : (d.map Prod.fst).Nodup) (h : e ∈ set d key value) :
    e = (key, value) ∨ e ∈ d ∧ e.1 ≠ key := by
  induction d with
  | nil => exact Or.inl (by simpa [set] using h)
  | cons x rest ih =>
    obtain ⟨k', v'⟩ := x
    have hcons : k' ∉ rest.map Prod.fst ∧ (rest.map Prod.fst).Nodup := by
      simpa using List.nodup_cons.mp hd
    by_cases hk : k' = key
    · subst hk
      simp only [set, if_true] at h
      rcases List.mem_cons.mp h with rfl | h
      · exact Or.inl rfl
      · refine Or.inr ⟨List.mem_cons_of_mem _ h, fun he => ?_⟩
        exact hcons.1 (he ▸ List.mem_map.mpr ⟨e, h, rfl⟩)
    · simp only [set, hk, if_false] at h
      rcases List.mem_cons.mp h with rfl | h
      · exact Or.inr ⟨List.mem_cons_self, hk⟩
      · rcases ih hcons.2 h with h | ⟨h, hne⟩
        · exact Or.inl h
        · exact Or.inr ⟨List.mem_cons_of_mem _ h, hne⟩

/-- A set leaves the keys as they were, with the new key at the end if it was
not there. -/
theorem map_fst_set (d : Dict K V) (key : K) (value : V) :
    (set d key value).map Prod.fst =
      if key ∈ d.map Prod.fst then d.map Prod.fst else d.map Prod.fst ++ [key] := by
  induction d with
  | nil => simp [set]
  | cons x rest ih =>
    obtain ⟨k', v'⟩ := x
    by_cases hk : k' = key
    · subst hk
      simp [set]
    · have hk' : ¬ key = k' := fun h => hk h.symm
      simp only [set, hk, if_false, List.map_cons, ih, List.mem_cons, hk', false_or]
      split <;> rfl

theorem get?_eq_none_iff {d : Dict K V} {key : K} :
    get? d key = none ↔ key ∉ d.map Prod.fst := by
  induction d with
  | nil => simp
  | cons x rest ih =>
    rw [get?_cons, List.map_cons, List.mem_cons, not_or]
    split
    · rename_i h
      simp [h]
    · rename_i h
      rw [ih]
      simp [Ne.symm h]

/-- A new key goes to the end. -/
theorem set_eq_append {d : Dict K V} {key : K} (hkey : key ∉ d.map Prod.fst) (value : V) :
    set d key value = d ++ [(key, value)] := by
  induction d with
  | nil => rfl
  | cons x rest ih =>
    obtain ⟨k', v'⟩ := x
    have hne : ¬ k' = key := fun h => hkey (by simp [h])
    have hrest : key ∉ rest.map Prod.fst := fun h => hkey (List.mem_cons_of_mem _ h)
    rw [set, if_neg hne, ih hrest, List.cons_append]

/-- A key that is there keeps its place. -/
theorem set_eq_map {d : Dict K V} (hd : (d.map Prod.fst).Nodup) {key : K}
    (hkey : key ∈ d.map Prod.fst) (value : V) :
    set d key value = d.map fun e => if e.1 = key then (key, value) else e := by
  induction d with
  | nil => cases hkey
  | cons x rest ih =>
    obtain ⟨k', v'⟩ := x
    have hcons : k' ∉ rest.map Prod.fst ∧ (rest.map Prod.fst).Nodup := by
      simpa using List.nodup_cons.mp hd
    by_cases hk : k' = key
    · subst hk
      rw [set, if_pos rfl, List.map_cons, if_pos rfl]
      have hrest : ∀ e ∈ rest, (if e.1 = k' then (k', value) else e) = e := by
        intro e he
        apply if_neg
        intro heq
        exact hcons.1 (heq ▸ List.mem_map.mpr ⟨e, he, rfl⟩)
      rw [List.map_congr_left hrest, List.map_id']
    · have hrest : key ∈ rest.map Prod.fst := by
        rcases List.mem_cons.mp hkey with h | h
        · exact absurd h.symm hk
        · exact h
      rw [set, if_neg hk, List.map_cons, if_neg hk, ih hcons.2 hrest]

theorem nodup_set {d : Dict K V} (hd : (d.map Prod.fst).Nodup) (key : K) (value : V) :
    ((set d key value).map Prod.fst).Nodup := by
  rw [map_fst_set]
  split
  · exact hd
  · rename_i hmem
    refine List.nodup_append.mpr ⟨hd, by simp, ?_⟩
    intro a ha b hb hab
    rw [List.mem_singleton.mp hb] at hab
    exact hmem (hab ▸ ha)

/-- With distinct keys a lookup finds exactly the entries of the list. -/
theorem get?_eq_some_iff {d : Dict K V} (hd : (d.map Prod.fst).Nodup) {key : K} {v : V} :
    get? d key = some v ↔ (key, v) ∈ d := by
  refine ⟨mem_of_get?, fun h => ?_⟩
  induction d with
  | nil => simp at h
  | cons x rest ih =>
    obtain ⟨k', v'⟩ := x
    have hcons : k' ∉ rest.map Prod.fst ∧ (rest.map Prod.fst).Nodup := by
      simpa using List.nodup_cons.mp hd
    rw [get?_cons]
    rcases List.mem_cons.mp h with h | h
    · cases h
      simp
    · have hne : k' ≠ key := fun he => hcons.1 (he ▸ List.mem_map.mpr ⟨(key, v), h, rfl⟩)
      rw [if_neg hne]
      exact ih hcons.2 h

/-- A filter of the entries by a test on key and value. -/
theorem get?_filter {d : Dict K V} (hd : (d.map Prod.fst).Nodup) (p : K × V → Bool) (key : K) :
    get? (d.filter p) key = (get? d key).filter fun v => p (key, v) := by
  have hf : ((d.filter p).map Prod.fst).Nodup :=
    List.Nodup.sublist (List.Sublist.map Prod.fst List.filter_sublist) hd
  refine Option.ext fun v => ?_
  rw [get?_eq_some_iff hf, List.mem_filter, Option.filter_eq_some_iff, get?_eq_some_iff hd]

/-- With distinct keys the order of the entries does not matter to a lookup. -/
theorem get?_perm {d d' : Dict K V} (hd : (d.map Prod.fst).Nodup) (h : d'.Perm d) (key : K) :
    get? d' key = get? d key := by
  have hd' : (d'.map Prod.fst).Nodup := (h.map Prod.fst).nodup_iff.mpr hd
  refine Option.ext fun v => ?_
  rw [get?_eq_some_iff hd', get?_eq_some_iff hd, h.mem_iff]

/-! ## Entry by entry -/

section

variable {W : Type} {R : V → W → Prop} {d : Dict K V} {d' : Dict K W}

/-- The same keys in the same order, with related values. -/
def Agree (R : V → W → Prop) (d : Dict K V) (d' : Dict K W) : Prop :=
  List.Forall₂ (fun e e' => e.1 = e'.1 ∧ R e.2 e'.2) d d'

theorem Agree.get? (h : Agree R d d') (key : K) : Option.Rel R (get? d key) (get? d' key) := by
  induction h with
  | nil => exact Option.Rel.none
  | @cons e e' rest rest' he _ ih =>
    obtain ⟨k, v⟩ := e
    obtain ⟨k', v'⟩ := e'
    obtain ⟨rfl, hv⟩ := he
    rw [get?_cons, get?_cons]
    split
    · exact Option.Rel.some hv
    · exact ih

theorem Agree.set (h : Agree R d d') {v : V} {w : W} (hv : R v w) (key : K) :
    Agree R (set d key v) (set d' key w) := by
  induction h with
  | nil => exact List.Forall₂.cons ⟨rfl, hv⟩ List.Forall₂.nil
  | @cons e e' rest rest' he hrest ih =>
    obtain ⟨k, x⟩ := e
    obtain ⟨k', x'⟩ := e'
    obtain ⟨rfl, hx⟩ := he
    rw [Dict.set, Dict.set]
    split
    · exact List.Forall₂.cons ⟨rfl, hv⟩ hrest
    · exact List.Forall₂.cons ⟨rfl, hx⟩ ih

omit [DecidableEq K] in
theorem Agree.values (h : Agree R d d') : List.Forall₂ R (d.map Prod.snd) (d'.map Prod.snd) := by
  induction h with
  | nil => exact List.Forall₂.nil
  | cons he _ ih => exact List.Forall₂.cons he.2 ih

end

end Dict

end OrderedDict
