/-!
# Programs over atomic calls

A service whose state sits behind an interface (a table, a lock-protected
map, a clock) is a program that makes one call of that interface after the
other and computes on the answers.  `Prog` is such a program: a finished
value, a raised error, or one call with the rest of the program as a function
of the answer.  What a call does is left to a `Handler`, so one program can be
run alone (`Prog.run`) or one call at a time between the calls of other
programs (`Lib.Interleave`).

Three groups of lemmas follow the definitions.

* `run_bind` and its companions run a program over its pieces.
* `Uses` bounds the calls a program can make at all.  `run_preserves` and
  `run_frame` turn such a bound into a fact about every run: what no permitted
  call touches, no run touches.
* `embed` reads a program over a small interface as a program over a larger
  one, and `run_embed` says that it then works on its component only.
-/

namespace Atomic

/-- A program that makes calls `op : Op` with answers in `Res op`, and ends
with a value in `α` or with a raised error in `ε`. -/
inductive Prog (ε : Type) {Op : Type} (Res : Op → Type) (α : Type) where
  | done (value : α)
  | raise (error : ε)
  | call (op : Op) (next : Res op → Prog ε Res α)

/-- What each call answers and how it changes the state. -/
abbrev Handler {Op : Type} (Res : Op → Type) (σ : Type) :=
  (op : Op) → σ → Res op × σ

namespace Prog

variable {ε Op α β σ τ : Type} {Res : Op → Type}

/-- Run `p`, then `f` on its value.  A raised error skips `f`. -/
def bind : Prog ε Res α → (α → Prog ε Res β) → Prog ε Res β
  | .done a, f => f a
  | .raise e, _ => .raise e
  | .call op next, f => .call op fun r => (next r).bind f

instance : Monad (Prog ε Res) where
  pure := .done
  bind := .bind

/-- One call, and its answer as the value. -/
def perform (op : Op) : Prog ε Res (Res op) := .call op .done

/-- A pure computation that may fail, as a program without calls. -/
def ofExcept : Except ε α → Prog ε Res α
  | .ok a => .done a
  | .error e => .raise e

/-- Run the whole program with nothing in between. -/
def run (h : Handler Res σ) : Prog ε Res α → σ → Except ε α × σ
  | .done a, s => (.ok a, s)
  | .raise e, s => (.error e, s)
  | .call op next, s => (next (h op s).1).run h (h op s).2

/-! ## Running a program over its pieces -/

@[simp] theorem pure_eq_done (a : α) : (pure a : Prog ε Res α) = .done a := rfl

@[simp] theorem done_bind (a : α) (f : α → Prog ε Res β) :
    (Prog.done a >>= f) = f a := rfl

@[simp] theorem raise_bind (e : ε) (f : α → Prog ε Res β) :
    (Prog.raise e >>= f) = .raise e := rfl

@[simp] theorem call_bind (op : Op) (next : Res op → Prog ε Res α)
    (f : α → Prog ε Res β) :
    (Prog.call op next >>= f) = .call op fun r => next r >>= f := rfl

@[simp] theorem perform_bind (op : Op) (f : Res op → Prog ε Res β) :
    ((perform op : Prog ε Res (Res op)) >>= f) = .call op f := rfl

@[simp] theorem ofExcept_ok (a : α) :
    (ofExcept (.ok a) : Prog ε Res α) = .done a := rfl

@[simp] theorem ofExcept_error (e : ε) :
    (ofExcept (.error e) : Prog ε Res α) = .raise e := rfl

variable (h : Handler Res σ)

@[simp] theorem run_done (a : α) (s : σ) :
    (Prog.done a : Prog ε Res α).run h s = (.ok a, s) := rfl

@[simp] theorem run_raise (e : ε) (s : σ) :
    (Prog.raise e : Prog ε Res α).run h s = (.error e, s) := rfl

@[simp] theorem run_call (op : Op) (next : Res op → Prog ε Res α) (s : σ) :
    (Prog.call op next).run h s = (next (h op s).1).run h (h op s).2 := rfl

/-- A sequence runs its first part and hands the value and the state on.  An
error of the first part ends the run in the state it was raised in. -/
theorem run_bind (p : Prog ε Res α) (f : α → Prog ε Res β) (s : σ) :
    (p >>= f).run h s =
      match p.run h s with
      | (.ok a, s') => (f a).run h s'
      | (.error e, s') => (.error e, s') := by
  induction p generalizing s with
  | done a => rfl
  | raise e => rfl
  | call op next ih => exact ih _ _

/-- A sequence that returns has a first part that returned. -/
theorem run_bind_ok {p : Prog ε Res α} {f : α → Prog ε Res β} {s s' : σ} {b : β}
    (hrun : (p >>= f).run h s = (.ok b, s')) :
    ∃ a t, p.run h s = (.ok a, t) ∧ (f a).run h t = (.ok b, s') := by
  rw [run_bind] at hrun
  split at hrun
  · rename_i a t hp
    exact ⟨a, t, hp, hrun⟩
  · cases hrun

/-! ## What a program can call -/

/-- Every call of `p`, on every way through it, is permitted by `A`. -/
def Uses (A : Op → Prop) : Prog ε Res α → Prop
  | .done _ => True
  | .raise _ => True
  | .call op next => A op ∧ ∀ r, (next r).Uses A

variable {A : Op → Prop}

@[simp] theorem uses_done (a : α) : (Prog.done a : Prog ε Res α).Uses A := trivial

@[simp] theorem uses_raise (e : ε) : (Prog.raise e : Prog ε Res α).Uses A := trivial

@[simp] theorem uses_call (op : Op) (next : Res op → Prog ε Res α) :
    (Prog.call op next).Uses A ↔ A op ∧ ∀ r, (next r).Uses A := Iff.rfl

theorem uses_bind {p : Prog ε Res α} {f : α → Prog ε Res β} (hp : p.Uses A)
    (hf : ∀ a, (f a).Uses A) : (p >>= f).Uses A := by
  induction p with
  | done a => exact hf a
  | raise e => trivial
  | call op next ih => exact ⟨hp.1, fun r => ih r (hp.2 r)⟩

@[simp] theorem uses_perform (op : Op) :
    (perform op : Prog ε Res (Res op)).Uses A ↔ A op := by
  simp [perform]

/-- One call, and then the rest. -/
theorem uses_call_bind {op : Op} {f : Res op → Prog ε Res β} (hop : A op)
    (hf : ∀ r, (f r).Uses A) : ((perform op : Prog ε Res (Res op)) >>= f).Uses A := ⟨hop, hf⟩

@[simp] theorem uses_ofExcept (x : Except ε α) :
    (ofExcept x : Prog ε Res α).Uses A := by
  cases x <;> trivial

/-- A weaker bound permits every program a stronger one does. -/
theorem Uses.mono {B : Op → Prop} (hAB : ∀ op, A op → B op) {p : Prog ε Res α}
    (hp : p.Uses A) : p.Uses B := by
  induction p with
  | done a => trivial
  | raise e => trivial
  | call op next ih => exact ⟨hAB op hp.1, fun r => ih r (hp.2 r)⟩

theorem uses_true (p : Prog ε Res α) : p.Uses fun _ => True := by
  induction p with
  | done a => trivial
  | raise e => trivial
  | call op next ih => exact ⟨trivial, ih⟩

/-- An invariant of every permitted call is an invariant of the run. -/
theorem run_preserves {I : σ → Prop} (hI : ∀ op, A op → ∀ s, I s → I (h op s).2)
    {p : Prog ε Res α} (hp : p.Uses A) {s : σ} (hs : I s) : I (p.run h s).2 := by
  induction p generalizing s with
  | done a => exact hs
  | raise e => exact hs
  | call op next ih => exact ih _ (hp.2 _) (hI op hp.1 s hs)

/-- What no permitted call changes, the run does not change. -/
theorem run_frame (f : σ → τ) (hf : ∀ op, A op → ∀ s, f (h op s).2 = f s)
    {p : Prog ε Res α} (hp : p.Uses A) (s : σ) : f (p.run h s).2 = f s :=
  run_preserves h (I := fun t => f t = f s)
    (fun op hop t ht => (hf op hop t).trans ht) hp rfl

/-! ## Reading a program over a larger interface -/

/-- The same program over the calls `inj op`, whose answers `back` reads as
answers of `op`. -/
def embed {Op' : Type} {Res' : Op' → Type} (inj : Op → Op')
    (back : ∀ op, Res' (inj op) → Res op) : Prog ε Res α → Prog ε Res' α
  | .done a => .done a
  | .raise e => .raise e
  | .call op next => .call (inj op) fun r => (next (back op r)).embed inj back

theorem uses_embed {Op' : Type} {Res' : Op' → Type} {inj : Op → Op'}
    {back : ∀ op, Res' (inj op) → Res op} {A' : Op' → Prop}
    (hA : ∀ op, A op → A' (inj op)) {p : Prog ε Res α} (hp : p.Uses A) :
    (p.embed inj back).Uses A' := by
  induction p with
  | done a => trivial
  | raise e => trivial
  | call op next ih => exact ⟨hA op hp.1, fun r => ih _ (hp.2 _)⟩

/-- A program that works on the component `get` of a larger state runs there
as it runs alone, and the rest of the state is put back unchanged. -/
theorem run_embed {Op' : Type} {Res' : Op' → Type} {inj : Op → Op'}
    {back : ∀ op, Res' (inj op) → Res op} (h' : Handler Res' τ)
    (get : τ → σ) (put : σ → τ → τ)
    (hget : ∀ s t, get (put s t) = s)
    (hput : ∀ s s' t, put s (put s' t) = put s t)
    (hself : ∀ t, put (get t) t = t)
    (hans : ∀ op t, back op (h' (inj op) t).1 = (h op (get t)).1)
    (hstate : ∀ op t, (h' (inj op) t).2 = put (h op (get t)).2 t)
    (p : Prog ε Res α) (t : τ) :
    (p.embed inj back).run h' t =
      ((p.run h (get t)).1, put (p.run h (get t)).2 t) := by
  induction p generalizing t with
  | done a => simp [embed, hself]
  | raise e => simp [embed, hself]
  | call op next ih =>
    simp only [embed, run_call]
    rw [ih, hans, hstate, hget, hput]

end Prog

end Atomic
