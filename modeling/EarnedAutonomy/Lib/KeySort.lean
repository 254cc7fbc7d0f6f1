import Mathlib.Data.List.Sort

/-!
# Sorting by a key

A program sorts the entries of a table with a comparison that is an order only
on the entries at hand: it may fail to be transitive on others, or be undefined
there.  `ComparesBy` says that on the members of a list the comparison is the
order of a key.  Then the sorted list is determined by the members alone.

* `pairwise_insertionSort`: with distinct keys the sorted list ascends strictly.
* `insertionSort_eq`: it is the only list of these members that does.
* `insertionSort_perm_eq`: so the order before the sort does not matter.
* `rel_of_pairwise`: two members of an ascending list stand in the order of their
  keys.
-/

namespace KeySort

variable {α κ : Type} [LinearOrder κ] {r : α → α → Prop} [DecidableRel r] {key : α → κ}
variable {l l' : List α}

/-- On the members of the list the relation compares keys. -/
def ComparesBy (r : α → α → Prop) (key : α → κ) (l : List α) : Prop :=
  ∀ a ∈ l, ∀ b ∈ l, (r a b ↔ key a ≤ key b)

omit [DecidableRel r] in
theorem ComparesBy.of_subset (h : ComparesBy r key l) (hsub : l' ⊆ l) : ComparesBy r key l' :=
  fun a ha b hb => h a (hsub ha) b (hsub hb)

/-- Sorting by the relation is sorting by the key. -/
theorem insertionSort_eq_byKey (h : ComparesBy r key l) :
    l.insertionSort r = l.insertionSort fun a b => key a ≤ key b := by
  have hmap := List.map_insertionSort r (fun a b => key a ≤ key b) id l h
  simpa using hmap

/-- With distinct keys the sorted list ascends strictly. -/
theorem pairwise_insertionSort (h : ComparesBy r key l) (hnodup : (l.map key).Nodup) :
    (l.insertionSort r).Pairwise fun a b => key a < key b := by
  rw [insertionSort_eq_byKey h]
  let byKey : α → α → Prop := fun a b => key a ≤ key b
  have : Std.Total byKey := ⟨fun a b => le_total (key a) (key b)⟩
  have : IsTrans α byKey := ⟨fun _ _ _ hab hbc => le_trans hab hbc⟩
  have hsorted : (l.insertionSort byKey).Pairwise byKey := List.pairwise_insertionSort byKey l
  have hperm : (l.insertionSort byKey).Perm l := List.perm_insertionSort byKey l
  have hkeys : ((l.insertionSort byKey).map key).Nodup := (hperm.map key).nodup_iff.mpr hnodup
  have hne : (l.insertionSort byKey).Pairwise fun a b => key a ≠ key b :=
    List.pairwise_map.mp hkeys
  exact hsorted.imp₂ (fun _ _ hle hne => lt_of_le_of_ne hle hne) hne

/-- A list that ascends strictly is the only ascending one of its members. -/
theorem eq_of_perm_of_pairwise (hperm : l.Perm l') (hl : l.Pairwise fun a b => key a < key b)
    (hl' : l'.Pairwise fun a b => key a < key b) : l = l' := by
  refine hperm.eq_of_pairwise (fun a b _ _ hab hba => ?_) hl hl'
  exact absurd hba (not_lt_of_gt hab)

/-- The sorted list is the ascending list of the same members. -/
theorem insertionSort_eq (h : ComparesBy r key l) (hperm : l'.Perm l)
    (hl' : l'.Pairwise fun a b => key a < key b) : l.insertionSort r = l' := by
  have hkeys : (l'.map key).Nodup := List.pairwise_map.mpr (hl'.imp fun hlt => ne_of_lt hlt)
  have hnodup : (l.map key).Nodup := (hperm.map key).nodup_iff.mp hkeys
  exact eq_of_perm_of_pairwise ((List.perm_insertionSort r l).trans hperm.symm)
    (pairwise_insertionSort h hnodup) hl'

/-- The order before the sort does not matter. -/
theorem insertionSort_perm_eq (h : ComparesBy r key l) (hnodup : (l.map key).Nodup)
    (hperm : l'.Perm l) : l'.insertionSort r = l.insertionSort r := by
  have hcompares : ComparesBy r key l' := h.of_subset hperm.subset
  refine insertionSort_eq hcompares ?_ (pairwise_insertionSort h hnodup)
  exact (List.perm_insertionSort r l).trans hperm.symm

omit [LinearOrder κ] [DecidableRel r] in
/-- Two members of a list that ascends in two orders stand in both alike. -/
theorem rel_of_pairwise {s : α → α → Prop} (hl : l.Pairwise fun a b => r a b ∧ s a b)
    {a b : α} (ha : a ∈ l) (hb : b ∈ l) (hab : a ≠ b) (hnot : ¬ r b a) : s a b := by
  induction hl with
  | nil => cases ha
  | @cons x rest hx _ ih =>
    rcases List.mem_cons.mp ha with rfl | ha'
    · exact (hx b ((List.mem_cons.mp hb).resolve_left fun h => hab h.symm)).2
    · rcases List.mem_cons.mp hb with rfl | hb'
      · exact absurd (hx a ha').1 hnot
      · exact ih ha' hb'

end KeySort
