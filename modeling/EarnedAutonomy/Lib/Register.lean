import Mathlib.Data.List.Infix
import Mathlib.Data.List.Nodup

/-!
# A cell that is read and written back

Threads share a cell.  A thread reads it once and later writes back what it
makes of the value it has read, and others can write in between.

* `WellFormed` are the logs of such a cell, `current` is the value it has.
* `current_eq_sequence`: when no write falls between a thread's read and its
  write (`Undisturbed`), the cell holds what the threads make of it one after
  the other.
* `undisturbed_iff`: a measure that every thread raises by one counts the
  writes exactly if no write was disturbed.  Otherwise it stays behind.
-/

namespace Atomic.Register

variable {V : Type}

/-- An access of a thread to the cell. -/
inductive Access (V : Type) where
  | read (thread : Nat) (value : V)
  | write (thread : Nat) (value : V)

/-- The value after an access. -/
def afterAccess (v : V) : Access V → V
  | .read _ _ => v
  | .write _ v' => v'

/-- The value of the cell. -/
def current (v₀ : V) (log : List (Access V)) : V := log.foldl afterAccess v₀

def writer? : Access V → Option Nat
  | .read _ _ => none
  | .write i _ => some i

/-- The threads that have written, in order. -/
def writers (log : List (Access V)) : List Nat := log.filterMap writer?

/-- A thread reads once, and writes once what it makes of what it has read. -/
inductive WellFormed (step : Nat → V → Option V) (v₀ : V) : List (Access V) → Prop where
  | nil : WellFormed step v₀ []
  | read {log : List (Access V)} (h : WellFormed step v₀ log) {i : Nat}
      (hi : ∀ v, .read i v ∉ log) : WellFormed step v₀ (log ++ [.read i (current v₀ log)])
  | write {log : List (Access V)} (h : WellFormed step v₀ log) {i : Nat} {v v' : V}
      (hread : .read i v ∈ log) (hi : i ∉ writers log) (hstep : step i v = some v') :
      WellFormed step v₀ (log ++ [.write i v'])

/-- No write falls between a thread's read and its write. -/
def Undisturbed (log : List (Access V)) : Prop :=
  ∀ front mid back i v v', log = front ++ .read i v :: (mid ++ .write i v' :: back) →
    writers mid = []

/-- What the threads make of a value, one after the other. -/
def sequence (step : Nat → V → Option V) (v : V) (order : List Nat) : V :=
  order.foldl (fun v i => (step i v).getD v) v

@[simp] theorem current_append (v₀ : V) (log log' : List (Access V)) :
    current v₀ (log ++ log') = current (current v₀ log) log' := List.foldl_append

@[simp] theorem writers_append (log log' : List (Access V)) :
    writers (log ++ log') = writers log ++ writers log' := List.filterMap_append

@[simp] theorem writers_read (i : Nat) (v : V) (log : List (Access V)) :
    writers (.read i v :: log) = writers log := rfl

@[simp] theorem writers_write (i : Nat) (v : V) (log : List (Access V)) :
    writers (.write i v :: log) = i :: writers log := rfl

@[simp] theorem writers_nil : writers ([] : List (Access V)) = [] := rfl

@[simp] theorem current_read (v₀ v : V) (i : Nat) (log : List (Access V)) :
    current v₀ (.read i v :: log) = current v₀ log := rfl

@[simp] theorem current_write (v₀ v : V) (i : Nat) (log : List (Access V)) :
    current v₀ (.write i v :: log) = current v log := rfl

@[simp] theorem current_nil (v₀ : V) : current v₀ [] = v₀ := rfl

/-- Without a write the value stays. -/
theorem current_of_writers_nil {log : List (Access V)} (h : writers log = []) (v₀ : V) :
    current v₀ log = v₀ := by
  induction log with
  | nil => rfl
  | cons a log ih =>
    cases a with
    | read i v => exact ih h
    | write i v => cases h

/-- A place in a list with one more at its end is the end or a place before. -/
theorem concat_eq_append_cons {α : Type} {l front back : List α} {x y : α}
    (h : l ++ [x] = front ++ y :: back) :
    (back = [] ∧ l = front ∧ x = y) ∨ ∃ rest, back = rest ++ [x] ∧ l = front ++ y :: rest := by
  rcases List.eq_nil_or_concat back with rfl | ⟨rest, z, rfl⟩
  · obtain ⟨hl, hx⟩ := List.append_inj' h rfl
    exact Or.inl ⟨rfl, hl, by simpa using hx⟩
  · rw [List.concat_eq_append, ← List.cons_append, ← List.append_assoc] at h
    obtain ⟨hl, hx⟩ := List.append_inj' h rfl
    have hxz : x = z := by simpa using hx
    exact Or.inr ⟨rest, by rw [hxz, List.concat_eq_append], hl⟩

theorem Undisturbed.of_append {log tail : List (Access V)} (h : Undisturbed (log ++ tail)) :
    Undisturbed log := by
  intro front mid back i v v' hlog
  refine h front mid (back ++ tail) i v v' ?_
  rw [hlog]
  simp

namespace WellFormed

variable {step : Nat → V → Option V} {v₀ : V} {log : List (Access V)}

/-- A thread has read what the cell held. -/
theorem read_value (h : WellFormed step v₀ log) {front back : List (Access V)} {i : Nat} {v : V}
    (hlog : log = front ++ .read i v :: back) : v = current v₀ front := by
  induction h generalizing back with
  | nil => simp at hlog
  | read h hi ih =>
    rcases concat_eq_append_cons hlog with ⟨rfl, rfl, hx⟩ | ⟨rest, rfl, hl⟩
    · cases hx
      rfl
    · exact ih hl
  | write h hread hi hstep ih =>
    rcases concat_eq_append_cons hlog with ⟨rfl, rfl, hx⟩ | ⟨rest, rfl, hl⟩
    · cases hx
    · exact ih hl

/-- A thread reads once. -/
theorem read_unique (h : WellFormed step v₀ log) {front front' back back' : List (Access V)}
    {i : Nat} {v v' : V} (hlog : log = front ++ .read i v :: back)
    (hlog' : log = front' ++ .read i v' :: back') : front = front' ∧ v = v' ∧ back = back' := by
  induction h generalizing back back' with
  | nil => simp at hlog
  | @read log h j hi ih =>
    rcases concat_eq_append_cons hlog with ⟨rfl, rfl, hx⟩ | ⟨rest, rfl, hl⟩ <;>
      rcases concat_eq_append_cons hlog' with ⟨rfl, hfront, hx'⟩ | ⟨rest', rfl, hl'⟩
    · cases hx
      cases hx'
      exact ⟨hfront, rfl, rfl⟩
    · cases hx
      exact absurd (hl' ▸ by simp) (hi v')
    · cases hx'
      exact absurd (hl ▸ by simp) (hi v)
    · obtain ⟨hfront, hv, rfl⟩ := ih hl hl'
      exact ⟨hfront, hv, rfl⟩
  | write h hread hi hstep ih =>
    rcases concat_eq_append_cons hlog with ⟨rfl, rfl, hx⟩ | ⟨rest, rfl, hl⟩
    · cases hx
    · rcases concat_eq_append_cons hlog' with ⟨rfl, hfront, hx'⟩ | ⟨rest', rfl, hl'⟩
      · cases hx'
      · obtain ⟨hfront, hv, rfl⟩ := ih hl hl'
        exact ⟨hfront, hv, rfl⟩

theorem nodup_writers (h : WellFormed step v₀ log) : (writers log).Nodup := by
  induction h with
  | nil => exact List.nodup_nil
  | read h hi ih => simpa using ih
  | write h hread hi hstep ih =>
    rw [writers_append, writers_write, writers_nil, ← List.concat_eq_append]
    exact List.Nodup.concat hi ih

/-- What every step keeps holds of the value and of every value that was read. -/
theorem invariant {I : V → Prop} (h : WellFormed step v₀ log) (h₀ : I v₀)
    (hstep : ∀ i v v', step i v = some v' → I v → I v') :
    I (current v₀ log) ∧ ∀ i v, .read i v ∈ log → I v := by
  induction h with
  | nil => exact ⟨h₀, fun _ _ h => nomatch h⟩
  | read h hi ih =>
    refine ⟨by simpa using ih.1, fun j v hv => ?_⟩
    rcases List.mem_append.mp hv with hv | hv
    · exact ih.2 j v hv
    · cases List.mem_singleton.mp hv
      exact ih.1
  | write h hread hi hs ih =>
    refine ⟨by simpa using hstep _ _ _ hs (ih.2 _ _ hread), fun j v hv => ?_⟩
    rcases List.mem_append.mp hv with hv | hv
    · exact ih.2 j v hv
    · cases List.mem_singleton.mp hv

/-! ## Undisturbed writes -/

/-- Undisturbed writes leave what the threads make of the cell one after the other. -/
theorem current_eq_sequence (h : WellFormed step v₀ log) (hun : Undisturbed log) :
    current v₀ log = sequence step v₀ (writers log) := by
  induction h with
  | nil => rfl
  | read h hi ih => simpa using ih hun.of_append
  | @write log h i v v' hread hi hstep ih =>
    obtain ⟨front, mid, hlog⟩ := List.append_of_mem hread
    have hvalue : v = current v₀ front := h.read_value hlog
    have hmid : writers mid = [] := hun front mid [] i v v' (by rw [hlog]; simp)
    have hcurrent : current v₀ log = v := by
      rw [hlog, current_append, current_read, current_of_writers_nil hmid, hvalue]
    have hbefore : sequence step v₀ (writers log) = v := (ih hun.of_append).symm.trans hcurrent
    rw [writers_append, writers_write, writers_nil, sequence, List.foldl_append]
    change _ = (step i (sequence step v₀ (writers log))).getD _
    rw [hbefore, hstep]
    simp

section

variable {μ : V → Int} (hμ : ∀ i v v', step i v = some v' → μ v' = μ v + 1)

include hμ

/-- The measure is at most the number of writes, at every place of the log. -/
theorem measure_le (h : WellFormed step v₀ log) {front : List (Access V)}
    (hfront : front <+: log) : μ (current v₀ front) ≤ μ v₀ + (writers front).length := by
  induction h generalizing front with
  | nil =>
    rw [List.prefix_nil.mp hfront]
    simp
  | read h hi ih =>
    rcases List.prefix_concat_iff.mp hfront with rfl | hbefore
    · simpa using ih List.prefix_rfl
    · exact ih hbefore
  | @write log h i v v' hread hi hstep ih =>
    rcases List.prefix_concat_iff.mp hfront with rfl | hbefore
    · obtain ⟨before, mid, hlog⟩ := List.append_of_mem hread
      have hvalue : v = current v₀ before := h.read_value hlog
      have hle := ih (hlog ▸ List.prefix_append before (.read i v :: mid))
      have hraised := hμ i v v' hstep
      rw [← hvalue] at hle
      simp only [current_append, current_write, current_nil, writers_append, writers_write,
        writers_nil, List.length_append, List.length_singleton, hlog, writers_read]
      omega
    · exact ih hbefore

/-- The measure has counted every write exactly if none was disturbed. -/
theorem undisturbed_iff (h : WellFormed step v₀ log) :
    Undisturbed log ↔ μ (current v₀ log) = μ v₀ + (writers log).length := by
  induction h with
  | nil => simp [Undisturbed]
  | @read log h i hi ih =>
    rw [current_append, current_read, current_nil, writers_append, writers_read, writers_nil,
      List.append_nil, ← ih]
    refine ⟨Undisturbed.of_append, fun hun front mid back j v v' hlog => ?_⟩
    have hlog := hlog.trans (List.append_assoc front (.read j v :: mid) _).symm
    rcases concat_eq_append_cons hlog with ⟨_, _, hx⟩ | ⟨rest, _, hl⟩
    · cases hx
    · exact hun front mid rest j v v' (by rw [hl]; simp)
  | @write log h i v v' hread hi hstep ih =>
    obtain ⟨front, mid, hlog⟩ := List.append_of_mem hread
    have hvalue : v = current v₀ front := h.read_value hlog
    have hle := h.measure_le hμ (hlog ▸ List.prefix_append front (.read i v :: mid))
    have hraised := hμ i v v' hstep
    have hwriters : writers log = writers front ++ writers mid := by simp [hlog]
    rw [← hvalue] at hle
    simp only [current_append, current_write, current_nil, writers_append, writers_write,
      writers_nil, List.length_append, List.length_singleton]
    have hcurrent (hmid : writers mid = []) : current v₀ log = v := by
      rw [hlog, current_append, current_read, current_of_writers_nil hmid, hvalue]
    have hlength : (writers log).length = (writers front).length + (writers mid).length := by
      rw [hwriters, List.length_append]
    constructor
    · intro hun
      have hmid : writers mid = [] := hun front mid [] i v v' (by rw [hlog]; simp)
      have hcount := ih.mp hun.of_append
      rw [hcurrent hmid] at hcount
      omega
    · intro hcount
      have hmid : writers mid = [] := by
        refine List.length_eq_zero_iff.mp ?_
        omega
      have hun : Undisturbed log := by
        rw [ih, hcurrent hmid]
        omega
      intro front' mid' back' j u u' hsplit
      have hsplit := hsplit.trans (List.append_assoc front' (.read j u :: mid') _).symm
      rcases concat_eq_append_cons hsplit with ⟨_, hl, hx⟩ | ⟨rest, _, hl⟩
      · -- the last write is the one of this thread, and its read is the only one
        cases hx
        rw [← (h.read_unique hlog hl).2.2]
        exact hmid
      · exact hun front' mid' rest j u u' (by rw [hl]; simp)

end

end WellFormed

end Atomic.Register
