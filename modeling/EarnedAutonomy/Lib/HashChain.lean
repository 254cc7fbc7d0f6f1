import Mathlib.Data.List.Nodup
import Mathlib.Data.Set.Function

/-!
# Hash chains

Records that are numbered from 0, name the hash of the record before them, carry
a hash of their own content and are signed.  `Scheme` says where a record keeps
these, and `Valid` is what a verifier checks, record by record.

* `valid_append` and `Valid.of_prefix`: a chain is checked piece by piece, so the
  beginning of a valid chain is valid.
* `Sealed.content_eq`: with a hash that is injective on the contents at hand, two
  records with one hash have one content.  `injOn_contents` is one way to know that.
* `Valid.agree_at`: a valid list in which every hash is one of a valid chain has,
  at each place, the content the chain has there.
* `Valid.agree_below`: two valid chains that have one hash at a place have the
  same contents up to that place.  The induction goes back along the links.
-/

namespace HashChain

/-- Where a record keeps its number, its link, its hash and what it is hashed
over.  The content fixes the number and the link. -/
structure Scheme (R H K : Type) where
  sequence : R → Nat
  previous : R → Option H
  hash : R → Option H
  content : R → Option K
  digest : K → H
  signed : R → Bool
  covers : ∀ r s k, content r = some k → content s = some k →
    sequence r = sequence s ∧ previous r = previous s

namespace Scheme

variable {R H K : Type} (c : Scheme R H K)

/-- The record carries the hash of its content and a signature. -/
structure Sealed (r : R) : Prop where
  hash : ∃ k, c.content r = some k ∧ c.hash r = some (c.digest k)
  signed : c.signed r = true

/-- The records are numbered from `n` on, the first is linked to `previous` and
every other one to the record before it, and all are sealed. -/
def Valid : Nat → Option H → List R → Prop
  | _, _, [] => True
  | n, previous, r :: rest =>
      c.sequence r = n ∧ c.previous r = previous ∧ c.Sealed r ∧ Valid (n + 1) (c.hash r) rest

/-- The hash of the last record, or what came before the first. -/
def lastHash (previous : Option H) (l : List R) : Option H :=
  match l.getLast? with
  | some r => c.hash r
  | none => previous

@[simp] theorem lastHash_nil (previous : Option H) : c.lastHash previous [] = previous := rfl

@[simp] theorem lastHash_concat (previous : Option H) (l : List R) (r : R) :
    c.lastHash previous (l ++ [r]) = c.hash r := by
  simp [lastHash]

theorem lastHash_cons (previous : Option H) (r : R) (l : List R) :
    c.lastHash previous (r :: l) = c.lastHash (c.hash r) l := by
  unfold lastHash
  cases l with
  | nil => rfl
  | cons s l => simp [List.getLast?_cons]

variable {c} {n : Nat} {previous : Option H} {l l' : List R}

/-- A chain is checked piece by piece. -/
theorem valid_append : c.Valid n previous (l ++ l') ↔
    c.Valid n previous l ∧ c.Valid (n + l.length) (c.lastHash previous l) l' := by
  induction l generalizing n previous with
  | nil => simp [Valid]
  | cons r l ih =>
    simp only [List.cons_append, Valid, ih, lastHash_cons, List.length_cons, and_assoc]
    have hlength : n + 1 + l.length = n + (l.length + 1) := by omega
    rw [hlength]

/-- The beginning of a valid chain is valid. -/
theorem Valid.of_prefix (h : c.Valid n previous l) (hfront : l' <+: l) :
    c.Valid n previous l' := by
  obtain ⟨rest, rfl⟩ := hfront
  exact (valid_append.mp h).1

/-- One more record, numbered, linked and sealed. -/
theorem valid_concat {r : R} : c.Valid n previous (l ++ [r]) ↔ c.Valid n previous l ∧
    c.sequence r = n + l.length ∧ c.previous r = c.lastHash previous l ∧ c.Sealed r := by
  rw [valid_append]
  simp [Valid]

/-- The record at a place of a valid chain. -/
theorem Valid.getElem? (h : c.Valid n previous l) {i : Nat} {r : R} (hi : l[i]? = some r) :
    c.sequence r = n + i ∧ c.Sealed r := by
  induction l generalizing n previous i with
  | nil => cases hi
  | cons s l ih =>
    obtain ⟨hsequence, _, hsealed, hrest⟩ := h
    cases i with
    | zero =>
      obtain rfl := Option.some.inj hi
      exact ⟨hsequence, hsealed⟩
    | succ i =>
      obtain ⟨hr, hs⟩ := ih hrest hi
      exact ⟨by omega, hs⟩

/-- Every record of a valid chain is sealed. -/
theorem Valid.sealed (h : c.Valid n previous l) {r : R} (hr : r ∈ l) : c.Sealed r := by
  obtain ⟨i, hi⟩ := List.mem_iff_getElem?.mp hr
  exact (h.getElem? hi).2

/-- The record after another is linked to it. -/
theorem Valid.link (h : c.Valid n previous l) {i : Nat} {r s : R} (hi : l[i]? = some r)
    (hnext : l[i + 1]? = some s) : c.previous s = c.hash r := by
  induction l generalizing n previous i with
  | nil => cases hi
  | cons x l ih =>
    obtain ⟨_, _, _, hrest⟩ := h
    cases i with
    | zero =>
      obtain rfl := Option.some.inj hi
      cases l with
      | nil => cases hnext
      | cons y l =>
        obtain rfl := Option.some.inj hnext
        exact hrest.2.1
    | succ i => exact ih hrest hi hnext

/-! ## Two chains -/

/-- The contents of the records of a list. -/
def contents (c : Scheme R H K) (l : List R) : Set K := {k | ∃ r ∈ l, c.content r = some k}

theorem contents_mono (c : Scheme R H K) {l l' : List R} (h : l ⊆ l') :
    c.contents l ⊆ c.contents l' := fun _ ⟨r, hr, hk⟩ => ⟨r, h hr, hk⟩

/-- The digest tells the contents of sealed records with hashes of their own apart. -/
theorem injOn_contents (hsealed : ∀ r ∈ l, c.Sealed r) (hdistinct : (l.map c.hash).Nodup) :
    Set.InjOn c.digest (c.contents l) := by
  have hhash {r : R} {k : K} (hr : r ∈ l) (hk : c.content r = some k) :
      c.hash r = some (c.digest k) := by
    obtain ⟨k', hk', hr'⟩ := (hsealed r hr).hash
    rw [hk] at hk'
    rw [hr', Option.some.inj hk']
  rintro k ⟨r, hr, hk⟩ k' ⟨s, hs, hk'⟩ hdigest
  have hsame : c.hash r = c.hash s := by rw [hhash hr hk, hhash hs hk', hdigest]
  rw [List.inj_on_of_nodup_map hdistinct hr hs hsame, hk'] at hk
  exact (Option.some.inj hk).symm

variable {m : Nat} {previous' : Option H}

/-- Two sealed records with one hash have one content, and so one number and one
link. -/
theorem Sealed.content_eq {r s : R} (hr : c.Sealed r) (hs : c.Sealed s) (hrl : r ∈ l)
    (hsl : s ∈ l') (hinj : Set.InjOn c.digest (c.contents l ∪ c.contents l'))
    (hhash : c.hash r = c.hash s) :
    (∃ k, c.content r = some k ∧ c.content s = some k) ∧ c.sequence r = c.sequence s ∧
      c.previous r = c.previous s := by
  obtain ⟨k, hk, hrk⟩ := hr.hash
  obtain ⟨k', hk', hsk⟩ := hs.hash
  have hdigest : c.digest k = c.digest k' := by
    rw [hrk, hsk] at hhash
    exact Option.some.inj hhash
  have hsame : k = k' := hinj (Or.inl ⟨r, hrl, hk⟩) (Or.inr ⟨s, hsl, hk'⟩) hdigest
  subst hsame
  exact ⟨⟨k, hk, hk'⟩, c.covers r s k hk hk'⟩

/-- If every hash of a valid list is one of a valid chain, the list has at every
place the content the chain has there. -/
theorem Valid.agree_at (h : c.Valid n previous l) (h' : c.Valid n previous' l')
    (hinj : Set.InjOn c.digest (c.contents l ∪ c.contents l'))
    (hknown : ∀ r ∈ l, ∃ s ∈ l', c.hash r = c.hash s) {i : Nat} {r : R}
    (hi : l[i]? = some r) :
    ∃ s, l'[i]? = some s ∧ c.hash r = c.hash s ∧
      ∃ k, c.content r = some k ∧ c.content s = some k := by
  have hr := List.mem_of_getElem? hi
  obtain ⟨s, hs, hhash⟩ := hknown r hr
  obtain ⟨j, hj⟩ := List.mem_iff_getElem?.mp hs
  obtain ⟨hri, hrsealed⟩ := h.getElem? hi
  obtain ⟨hsj, hssealed⟩ := h'.getElem? hj
  obtain ⟨hcontent, hsequence, _⟩ := hrsealed.content_eq hssealed hr hs hinj hhash
  -- the number of the record tells its place in the chain
  have hij : i = j := by omega
  exact ⟨s, hij ▸ hj, hhash, hcontent⟩

/-- Two valid chains with one hash at a place agree up to that place. -/
theorem Valid.agree_below (h : c.Valid n previous l) (h' : c.Valid n previous' l')
    (hinj : Set.InjOn c.digest (c.contents l ∪ c.contents l')) {j : Nat} {r s : R}
    (hr : l[j]? = some r) (hs : l'[j]? = some s) (hhash : c.hash r = c.hash s) {i : Nat}
    (hi : i ≤ j) :
    ∃ r' s', l[i]? = some r' ∧ l'[i]? = some s' ∧ c.hash r' = c.hash s' ∧
      ∃ k, c.content r' = some k ∧ c.content s' = some k := by
  have same {j : Nat} {r s : R} (hr : l[j]? = some r) (hs : l'[j]? = some s)
      (hhash : c.hash r = c.hash s) :=
    (h.getElem? hr).2.content_eq (h'.getElem? hs).2 (List.mem_of_getElem? hr)
      (List.mem_of_getElem? hs) hinj hhash
  induction j generalizing r s with
  | zero =>
    obtain rfl : i = 0 := by omega
    exact ⟨r, s, hr, hs, hhash, (same hr hs hhash).1⟩
  | succ j ih =>
    rcases Nat.lt_or_ge j i with hlt | hle
    · obtain rfl : i = j + 1 := by omega
      exact ⟨r, s, hr, hs, hhash, (same hr hs hhash).1⟩
    · -- the two records are linked to records with one hash
      have hlast : j < l.length := Nat.lt_of_succ_lt (List.getElem?_eq_some_iff.mp hr).1
      have hlast' : j < l'.length := Nat.lt_of_succ_lt (List.getElem?_eq_some_iff.mp hs).1
      have hlink := h.link (List.getElem?_eq_getElem hlast) hr
      have hlink' := h'.link (List.getElem?_eq_getElem hlast') hs
      have hbefore : c.hash l[j] = c.hash l'[j] := by
        rw [← hlink, ← hlink']
        exact (same hr hs hhash).2.2
      exact ih (List.getElem?_eq_getElem hlast) (List.getElem?_eq_getElem hlast') hbefore hle

end Scheme

end HashChain
