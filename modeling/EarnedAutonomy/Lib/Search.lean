import Mathlib.Data.List.Perm.Basic
import Mathlib.Data.List.Forall2

/-!
# First-match searches

A search goes through a list and stops at the first element that passes a test.  What
is done with the element it stops at can depend on the order of the list.

* `find?_perm_iff`: it does not exactly if all elements at which the search can stop
  are treated alike.
* `find?_skip_eq`: a search that skips elements ends the same unless it would have
  stopped at one of them.
* `find?_eq_of_forall₂`: a list where some elements were made to fail the test is
  searched like the first one without them.
* `lt_find?_iff`: in a list that descends by a key the search finds the largest key.
-/

namespace Search

variable {α β : Type} {p : α → Bool} {l : List α}

/-- In some order the search stops at this element. -/
theorem exists_perm_find? {a : α} (ha : a ∈ l) (hp : p a = true) :
    ∃ l' : List α, l'.Perm l ∧ l'.find? p = some a := by
  obtain ⟨front, back, rfl⟩ := List.append_of_mem ha
  refine ⟨a :: (front ++ back), List.perm_middle.symm, ?_⟩
  rw [List.find?_cons_of_pos hp]

/-- The result of a search is treated alike in every order exactly if the elements at
which it can stop are. -/
theorem find?_perm_iff {f : Option α → β} :
    (∀ l' : List α, l'.Perm l → f (l'.find? p) = f (l.find? p)) ↔
      ∀ a ∈ l, ∀ b ∈ l, p a = true → p b = true → f (some a) = f (some b) := by
  constructor
  · intro h a ha b hb hpa hpb
    obtain ⟨la, hla, hfa⟩ := exists_perm_find? ha hpa
    obtain ⟨lb, hlb, hfb⟩ := exists_perm_find? hb hpb
    rw [← hfa, ← hfb, h la hla, h lb hlb]
  · intro h l' hl'
    cases hfind : l.find? p with
    | none =>
      have hnone : l'.find? p = none := by
        rw [List.find?_eq_none] at hfind ⊢
        exact fun a ha => hfind a (hl'.mem_iff.mp ha)
      rw [hnone]
    | some b =>
      have hpb := List.find?_some hfind
      have hb := List.mem_of_find?_eq_some hfind
      cases hfind' : l'.find? p with
      | none =>
        rw [List.find?_eq_none] at hfind'
        exact absurd hpb (hfind' b (hl'.mem_iff.mpr hb))
      | some a =>
        have ha := hl'.mem_iff.mp (List.mem_of_find?_eq_some hfind')
        exact h a ha b hb (List.find?_some hfind') hpb

/-- A search that also skips some elements ends the same where it would not have stopped at
one of them. -/
theorem find?_skip_eq {skip : α → Bool} (h : ∀ a, l.find? p = some a → skip a = false) :
    l.find? (fun a => p a && !skip a) = l.find? p := by
  induction l with
  | nil => rfl
  | cons x rest ih =>
    cases hp : p x with
    | true =>
      rw [List.find?_cons_of_pos hp] at h ⊢
      apply List.find?_cons_of_pos
      rw [hp, h x rfl]
      rfl
    | false =>
      have hx : ¬ p x = true := by
        rw [hp]
        exact Bool.false_ne_true
      have hskip : ¬ (p x && !skip x) = true := by
        rw [hp, Bool.false_and]
        exact Bool.false_ne_true
      rw [List.find?_cons_of_neg hx] at h ⊢
      exact (List.find?_cons_of_neg (p := fun a => p a && !skip a) hskip).trans (ih h)

/-- Where elements were replaced by ones that fail the test, the search goes past them. -/
theorem find?_eq_of_forall₂ {q : α → Bool} {l' : List α}
    (h : List.Forall₂ (fun a b => p b = q a ∧ (q a = true → b = a)) l l') :
    l'.find? p = l.find? q := by
  induction h with
  | nil => rfl
  | @cons a b rest rest' hab _ ih =>
    obtain ⟨htest, hsame⟩ := hab
    cases hq : q a with
    | true =>
      rw [hsame hq] at htest ⊢
      rw [List.find?_cons_of_pos hq, List.find?_cons_of_pos (htest.trans hq)]
    | false =>
      have hp : ¬ p b = true := by
        rw [htest, hq]
        exact Bool.false_ne_true
      rw [List.find?_cons_of_neg hp, ih,
        List.find?_cons_of_neg (by rw [hq]; exact Bool.false_ne_true)]

/-- In a list that descends by a key, the key that a search finds exceeds a number exactly
when some element that passes does. -/
theorem lt_find?_iff {key : α → Nat} (hl : l.Pairwise fun a b => key b ≤ key a) (n : Nat) :
    n < ((l.find? p).map key).getD 0 ↔ ∃ a ∈ l, p a = true ∧ n < key a := by
  induction hl with
  | nil => simp
  | @cons a l hfirst _ ih =>
    cases ha : p a with
    | true =>
      rw [List.find?_cons_of_pos ha]
      constructor
      · intro h
        exact ⟨a, List.mem_cons_self, ha, h⟩
      · rintro ⟨b, hb, _, h⟩
        rcases List.mem_cons.mp hb with rfl | hrest
        · exact h
        · exact Nat.lt_of_lt_of_le h (hfirst b hrest)
    | false =>
      rw [List.find?_cons_of_neg (by simp [ha]), ih]
      simp [ha]

end Search
