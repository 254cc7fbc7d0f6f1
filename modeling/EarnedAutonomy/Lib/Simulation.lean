/-!
# Two implementations of one interface

An implementation is a step function: an operation and a state give an answer and the
next state.  Two implementations that are told apart by no answer can stand in for
each other.

* `answers` are the answers to a list of operations.
* `Protocol` is what the callers keep to, with a state of its own.  `Protocol.each`
  asks the same of every operation.
* `Simulates` is a relation between the states of two implementations that every
  allowed operation keeps, with the same answer on both sides.
* `Simulates.answers_eq`: then they answer every admitted list alike.
-/

namespace Simulation

variable {Op A γ σ τ : Type}

/-- The answers to a list of operations. -/
def answers (step : Op → σ → A × σ) : σ → List Op → List A
  | _, [] => []
  | s, op :: ops => (step op s).1 :: answers step (step op s).2 ops

/-- Which operations may come next, and what that depends on. -/
structure Protocol (γ Op : Type) where
  allowed : γ → Op → Prop
  next : γ → Op → γ

/-- Every operation of the list is allowed when it comes. -/
def Protocol.Admits (p : Protocol γ Op) : γ → List Op → Prop
  | _, [] => True
  | g, op :: ops => p.allowed g op ∧ p.Admits (p.next g op) ops

/-- Each operation is allowed on its own, at any time. -/
def Protocol.each (p : Op → Prop) : Protocol Unit Op := ⟨fun _ => p, fun g _ => g⟩

theorem Protocol.admits_each {p : Op → Prop} {ops : List Op} (h : ∀ op ∈ ops, p op) :
    (Protocol.each p).Admits () ops := by
  induction ops with
  | nil => trivial
  | cons op ops ih =>
    obtain ⟨hop, hrest⟩ := List.forall_mem_cons.mp h
    exact ⟨hop, ih hrest⟩

/-- The relation holds as long as the callers keep to the protocol, and as long as it
holds no answer tells the implementations apart. -/
structure Simulates (p : Protocol γ Op) (step : Op → σ → A × σ) (step' : Op → τ → A × τ)
    (R : γ → σ → τ → Prop) : Prop where
  answer : ∀ {g s t op}, R g s t → p.allowed g op → (step op s).1 = (step' op t).1
  keeps : ∀ {g s t op}, R g s t → p.allowed g op → R (p.next g op) (step op s).2 (step' op t).2

theorem Simulates.answers_eq {p : Protocol γ Op} {step : Op → σ → A × σ}
    {step' : Op → τ → A × τ} {R : γ → σ → τ → Prop} (h : Simulates p step step' R) {g : γ} {s : σ}
    {t : τ} (hR : R g s t) {ops : List Op} (hops : p.Admits g ops) :
    answers step s ops = answers step' t ops := by
  induction ops generalizing g s t with
  | nil => rfl
  | cons op ops ih =>
    obtain ⟨hallowed, hrest⟩ := hops
    show (step op s).1 :: _ = (step' op t).1 :: _
    rw [h.answer hR hallowed, ih (h.keeps hR hallowed) hrest]

end Simulation
