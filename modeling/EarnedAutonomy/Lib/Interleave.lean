import EarnedAutonomy.Lib.Prog
import Mathlib.Logic.Relation

/-!
# Interleavings of programs over one shared state

A `Service` runs many requests at once against one state.  A request is a
`Prog`, each of its calls is atomic, and between two calls of one request any
number of calls of the others can happen.  `Pool` is the state of such a
deployment: the shared state, the started requests with what is left of their
programs, and the log of every call that was made.  The list of requests only
grows, so the index of a request names it for good.

* `Service.move` is one move: a request starts, or one request makes its next
  call.
* `Service.Leads G` is reachability by moves that the guard `G` permits in the
  state they are made in.
* `Service.schedule` executes a list of moves, for concrete runs.

Two lemmas take a run apart.  `Leads.log_induction` is induction over the
calls alone: what holds of the state and the log and survives every call holds
in every run, however the requests are interleaved.  `Leads.follows` says that
the calls of one request, picked out of the log, are a path through its
program, so what a finished request saw is read off the program.
-/

namespace Atomic

/-- One request of a service, with what is left of its program. -/
structure Thread (ε ι : Type) {Op : Type} (Res : Op → Type) (α : Type) where
  request : ι
  body : Prog ε Res α

/-- One call: the index of the request that made it and what it was answered. -/
structure Entry {Op : Type} (Res : Op → Type) where
  thread : Nat
  op : Op
  answer : Res op

/-- A shared state, every request started on it so far and every call made. -/
structure Pool (ε ι : Type) {Op : Type} (Res : Op → Type) (α σ : Type) where
  state : σ
  threads : List (Thread ε ι Res α)
  log : List (Entry Res)

/-- One move of a deployment. -/
inductive Move (ι : Type) where
  | start (request : ι)
  | advance (i : Nat)

/-- The program of each request and what its calls do. -/
structure Service (ε ι : Type) {Op : Type} (Res : Op → Type) (α σ : Type) where
  body : ι → Prog ε Res α
  handler : ι → Handler Res σ

/-! ## Paths through a program -/

namespace Prog

variable {ε Op α β σ : Type} {Res : Op → Type}

/-- The calls, with these answers, lead from one program to what is left. -/
inductive Follows : Prog ε Res α → List ((op : Op) × Res op) → Prog ε Res α → Prop where
  | refl (p : Prog ε Res α) : Follows p [] p
  | step {op : Op} {next : Res op → Prog ε Res α} {a : Res op}
      {calls : List ((op : Op) × Res op)} {q : Prog ε Res α} :
      Follows (next a) calls q → Follows (.call op next) (⟨op, a⟩ :: calls) q

theorem Follows.snoc {p q : Prog ε Res α} {calls : List ((op : Op) × Res op)} {op : Op}
    {next : Res op → Prog ε Res α} (h : Follows p calls q) (hq : q = .call op next)
    (a : Res op) : Follows p (calls ++ [⟨op, a⟩]) (next a) := by
  induction h with
  | refl p =>
    subst hq
    exact .step (.refl _)
  | step _ ih => exact .step (ih hq)

/-- A program that makes no call has no path but the empty one. -/
@[simp] theorem follows_done_iff {v : α} {calls : List ((op : Op) × Res op)}
    {q : Prog ε Res α} : Follows (.done v) calls q ↔ calls = [] ∧ q = .done v := by
  constructor
  · intro h
    cases h
    exact ⟨rfl, rfl⟩
  · rintro ⟨rfl, rfl⟩
    exact .refl _

@[simp] theorem follows_raise_iff {e : ε} {calls : List ((op : Op) × Res op)}
    {q : Prog ε Res α} : Follows (.raise e) calls q ↔ calls = [] ∧ q = .raise e := by
  constructor
  · intro h
    cases h
    exact ⟨rfl, rfl⟩
  · rintro ⟨rfl, rfl⟩
    exact .refl _

/-- A path through a call has not begun or goes through one answer. -/
theorem follows_call_iff {op : Op} {next : Res op → Prog ε Res α}
    {calls : List ((op : Op) × Res op)} {q : Prog ε Res α} :
    Follows (.call op next) calls q ↔
      calls = [] ∧ q = .call op next ∨
        ∃ a rest, calls = ⟨op, a⟩ :: rest ∧ Follows (next a) rest q := by
  constructor
  · intro h
    cases h with
    | refl => exact Or.inl ⟨rfl, rfl⟩
    | step h => exact Or.inr ⟨_, _, rfl, h⟩
  · rintro (⟨rfl, rfl⟩ | ⟨a, rest, rfl, h⟩)
    · exact .refl _
    · exact .step h

/-- A path to a finished value goes through every call. -/
theorem follows_call_done_iff {op : Op} {next : Res op → Prog ε Res α}
    {calls : List ((op : Op) × Res op)} {v : α} :
    Follows (.call op next) calls (.done v) ↔
      ∃ a rest, calls = ⟨op, a⟩ :: rest ∧ Follows (next a) rest (.done v) := by
  simp [follows_call_iff]

/-- So does a path to any result, a value or an error. -/
theorem follows_call_result_iff {op : Op} {next : Res op → Prog ε Res α}
    {calls : List ((op : Op) × Res op)} {x : Except ε α} :
    Follows (.call op next) calls (ofExcept x) ↔
      ∃ a rest, calls = ⟨op, a⟩ :: rest ∧ Follows (next a) rest (ofExcept x) := by
  cases x <;> simp [follows_call_iff]

theorem follows_done_result_iff {v : α} {calls : List ((op : Op) × Res op)} {x : Except ε α} :
    Follows (.done v : Prog ε Res α) calls (ofExcept x) ↔ calls = [] ∧ x = .ok v := by
  cases x <;> simp

/-- A path through a sequence ends in its first part, or goes through a value of
it into the second. -/
theorem follows_bind_iff {p : Prog ε Res α} {f : α → Prog ε Res β}
    {calls : List ((op : Op) × Res op)} {q : Prog ε Res β} :
    Follows (p >>= f) calls q ↔
      (∃ p', Follows p calls p' ∧ q = (p' >>= f)) ∨
        ∃ a front back, calls = front ++ back ∧ Follows p front (.done a) ∧
          Follows (f a) back q := by
  constructor
  · intro h
    induction p generalizing calls with
    | done a => exact Or.inr ⟨a, [], calls, rfl, .refl _, h⟩
    | raise e =>
      obtain ⟨rfl, rfl⟩ := follows_raise_iff.mp h
      exact Or.inl ⟨_, .refl _, rfl⟩
    | call op next ih =>
      rw [call_bind] at h
      rcases follows_call_iff.mp h with ⟨rfl, rfl⟩ | ⟨r, rest, rfl, hnext⟩
      · exact Or.inl ⟨_, .refl _, rfl⟩
      · rcases ih r hnext with ⟨p', hp', rfl⟩ | ⟨a, front, back, rfl, hfront, hback⟩
        · exact Or.inl ⟨p', .step hp', rfl⟩
        · exact Or.inr ⟨a, _, back, rfl, .step hfront, hback⟩
  · rintro (⟨p', hp', rfl⟩ | ⟨a, front, back, rfl, hfront, hback⟩)
    · induction hp' with
      | refl p => exact .refl _
      | step _ ih => exact .step ih
    · generalize hd : Prog.done a = d at hfront
      induction hfront with
      | refl p =>
        subst hd
        exact hback
      | step _ ih => exact .step (ih hd)

/-- A path to a value of a sequence goes through a value of its first part. -/
theorem follows_bind_done_iff {p : Prog ε Res α} {f : α → Prog ε Res β}
    {calls : List ((op : Op) × Res op)} {b : β} :
    Follows (p >>= f) calls (.done b) ↔ ∃ a front back, calls = front ++ back ∧
      Follows p front (.done a) ∧ Follows (f a) back (.done b) := by
  rw [follows_bind_iff]
  refine or_iff_right_of_imp ?_
  rintro ⟨p', hp', hq⟩
  cases p' with
  | done a => exact ⟨a, calls, [], (List.append_nil _).symm, hp', by rw [hq]; exact .refl _⟩
  | raise e => cases hq
  | call op next => cases hq

/-- A pure computation that did not raise makes no call. -/
theorem follows_ofExcept_done_iff {x : Except ε α} {calls : List ((op : Op) × Res op)} {a : α} :
    Follows (ofExcept x) calls (.done a) ↔ calls = [] ∧ x = .ok a := by
  cases x with
  | ok b => simp [eq_comm]
  | error e => simp

theorem follows_ofExcept_bind_done_iff {x : Except ε α} {f : α → Prog ε Res β}
    {calls : List ((op : Op) × Res op)} {b : β} :
    Follows (ofExcept x >>= f) calls (.done b) ↔
      ∃ a, x = .ok a ∧ Follows (f a) calls (.done b) := by
  cases x with
  | ok a => simp
  | error e => simp

/-- A path through a program that is read over a larger interface is a path
through the program. -/
theorem Follows.of_embed {Op' : Type} {Res' : Op' → Type} {inj : Op → Op'}
    {back : ∀ op, Res' (inj op) → Res op} {p : Prog ε Res α}
    {calls : List ((op : Op') × Res' op)} {q : Prog ε Res' α}
    (h : Follows (p.embed inj back) calls q) :
    ∃ (cs : List ((op : Op) × Res' (inj op))) (p' : Prog ε Res α),
      calls = cs.map (fun c => ⟨inj c.1, c.2⟩) ∧
      Follows p (cs.map fun c => ⟨c.1, back c.1 c.2⟩) p' ∧ q = p'.embed inj back := by
  induction p generalizing calls with
  | done b =>
    obtain ⟨rfl, rfl⟩ := follows_done_iff.mp h
    exact ⟨[], _, rfl, .refl _, rfl⟩
  | raise e =>
    obtain ⟨rfl, rfl⟩ := follows_raise_iff.mp h
    exact ⟨[], _, rfl, .refl _, rfl⟩
  | call op next ih =>
    rcases follows_call_iff.mp h with ⟨rfl, rfl⟩ | ⟨r, rest, rfl, hnext⟩
    · exact ⟨[], _, rfl, .refl _, rfl⟩
    · obtain ⟨cs, p', rfl, hcs, rfl⟩ := ih _ hnext
      exact ⟨⟨op, r⟩ :: cs, p', rfl, .step hcs, rfl⟩

/-- The calls, with their answers, tell what is left. -/
theorem Follows.unique {p q q' : Prog ε Res α} {calls : List ((op : Op) × Res op)}
    (h : Follows p calls q) (h' : Follows p calls q') : q = q' := by
  induction h with
  | refl p =>
    cases h'
    rfl
  | step _ ih =>
    cases h' with
    | step h' => exact ih h'

/-! ### Paths that a handler takes -/

/-- The handler gives these answers, one after the other. -/
def Answers (h : Handler Res σ) : σ → List ((op : Op) × Res op) → σ → Prop
  | s, [], s' => s' = s
  | s, ⟨op, a⟩ :: rest, s' => (h op s).1 = a ∧ Answers h (h op s).2 rest s'

/-- The calls of a run, with their answers. -/
def trace (h : Handler Res σ) : Prog ε Res α → σ → List ((op : Op) × Res op)
  | .done _, _ => []
  | .raise _, _ => []
  | .call op next, s => ⟨op, (h op s).1⟩ :: (next (h op s).1).trace h (h op s).2

/-- The calls of a run are a path to its result. -/
theorem follows_trace (h : Handler Res σ) (p : Prog ε Res α) (s : σ) :
    Follows p (p.trace h s) (ofExcept (p.run h s).1) := by
  induction p generalizing s with
  | done a => exact .refl _
  | raise e => exact .refl _
  | call op next ih => exact .step (ih _ _)

/-- The calls of a run were answered by the handler. -/
theorem answers_trace (h : Handler Res σ) (p : Prog ε Res α) (s : σ) :
    Answers h s (p.trace h s) (p.run h s).2 := by
  induction p generalizing s with
  | done a => rfl
  | raise e => rfl
  | call op next ih => exact ⟨rfl, ih _ _⟩

/-- What the calls keep, answering them keeps. -/
theorem Answers.invariant {I : σ → Prop} {h : Handler Res σ} {s s' : σ}
    {calls : List ((op : Op) × Res op)} (ha : Answers h s calls s')
    (hI : ∀ c ∈ calls, ∀ t, I t → I (h c.1 t).2) (hs : I s) : I s' := by
  induction calls generalizing s with
  | nil =>
    cases ha
    exact hs
  | cons c rest ih =>
    exact ih ha.2 (fun d hd => hI d (List.mem_cons_of_mem _ hd)) (hI c List.mem_cons_self s hs)

theorem answers_append {h : Handler Res σ} {s s' : σ} {front back : List ((op : Op) × Res op)} :
    Answers h s (front ++ back) s' ↔ ∃ t, Answers h s front t ∧ Answers h t back s' := by
  induction front generalizing s with
  | nil => simp [Answers]
  | cons c front ih => simp [Answers, ih, and_assoc]

/-- A path through a program and a pure step on its value is a path through
the program. -/
theorem Follows.of_map {p : Prog ε Res α} {f : α → β} {calls : List ((op : Op) × Res op)}
    {q : Prog ε Res β} (h : Follows (p >>= fun a => .done (f a)) calls q) :
    ∃ p', Follows p calls p' ∧ q = (p' >>= fun a => .done (f a)) := by
  induction p generalizing calls with
  | done a =>
    obtain ⟨rfl, rfl⟩ := follows_done_iff.mp h
    exact ⟨_, .refl _, rfl⟩
  | raise e =>
    obtain ⟨rfl, rfl⟩ := follows_raise_iff.mp h
    exact ⟨_, .refl _, rfl⟩
  | call op next ih =>
    rw [call_bind] at h
    rcases follows_call_iff.mp h with ⟨rfl, rfl⟩ | ⟨a, rest, rfl, hnext⟩
    · exact ⟨_, .refl _, rfl⟩
    · obtain ⟨p', hp', hq⟩ := ih a hnext
      exact ⟨p', .step hp', hq⟩

theorem Follows.of_map_done {p : Prog ε Res α} {f : α → β}
    {calls : List ((op : Op) × Res op)} {b : β}
    (h : Follows (p >>= fun a => .done (f a)) calls (.done b)) :
    ∃ a, Follows p calls (.done a) ∧ b = f a := by
  obtain ⟨p', hp', hb⟩ := h.of_map
  cases p' with
  | done a => exact ⟨a, hp', Prog.done.inj hb⟩
  | raise e => cases hb
  | call op next => cases hb

/-- The calls of a path are calls the program can make. -/
theorem Follows.uses_calls {A : Op → Prop} {p q : Prog ε Res α}
    {calls : List ((op : Op) × Res op)} (h : Follows p calls q) (hp : p.Uses A) :
    ∀ c ∈ calls, A c.1 := by
  induction h with
  | refl p => simp
  | step _ ih =>
    intro c hc
    rcases List.mem_cons.mp hc with rfl | hc
    · exact hp.1
    · exact ih (hp.2 _) c hc

/-- A call that the first part of a sequence cannot make was made by the second. -/
theorem Follows.mem_of_bind {A : Op → Prop} {p : Prog ε Res α} {f : α → Prog ε Res β}
    {calls : List ((op : Op) × Res op)} {q : Prog ε Res β} (h : Follows (p >>= f) calls q)
    (hp : p.Uses A) {c : (op : Op) × Res op} (hc : c ∈ calls) (hA : ¬ A c.1) :
    ∃ a front back, calls = front ++ back ∧ Follows p front (.done a) ∧
      Follows (f a) back q ∧ c ∈ back := by
  rcases follows_bind_iff.mp h with ⟨p', hp', _⟩ | ⟨a, front, back, rfl, hfront, hback⟩
  · exact absurd (hp'.uses_calls hp c hc) hA
  · refine ⟨a, front, back, rfl, hfront, hback, ?_⟩
    rcases List.mem_append.mp hc with hc | hc
    · exact absurd (hfront.uses_calls hp c hc) hA
    · exact hc

/-- The next call of what is left is one the program can make. -/
theorem Follows.permits {A : Op → Prop} {p : Prog ε Res α} {calls : List ((op : Op) × Res op)}
    {op : Op} {next : Res op → Prog ε Res α} (h : Follows p calls (.call op next))
    (hp : p.Uses A) : A op := by
  generalize hq : Prog.call op next = q at h
  induction h with
  | refl p =>
    subst hq
    exact hp.1
  | step _ ih => exact ih (hp.2 _) hq

end Prog

namespace Service

variable {ε ι Op α σ : Type} {Res : Op → Type}
variable (S : Service ε ι Res α σ)

/-- One move.  A request that is finished or was never started makes no call. -/
def move (p : Pool ε ι Res α σ) : Move ι → Pool ε ι Res α σ
  | .start r => ⟨p.state, p.threads ++ [⟨r, S.body r⟩], p.log⟩
  | .advance i =>
      match p.threads[i]? with
      | some ⟨r, .call op next⟩ =>
          ⟨(S.handler r op p.state).2,
            p.threads.set i ⟨r, next (S.handler r op p.state).1⟩,
            p.log ++ [⟨i, op, (S.handler r op p.state).1⟩]⟩
      | _ => p

/-- The pool after a list of moves. -/
def schedule (p : Pool ε ι Res α σ) (moves : List (Move ι)) : Pool ε ι Res α σ :=
  moves.foldl S.move p

/-- A state on which no request has been started. -/
def fresh (s : σ) : Pool ε ι Res α σ := ⟨s, [], []⟩

/-- The ways a request's move can go: it changes nothing, or the request made
its next call. -/
theorem move_advance_cases (p : Pool ε ι Res α σ) (i : Nat) :
    S.move p (.advance i) = p ∨
      ∃ r op next, p.threads[i]? = some ⟨r, .call op next⟩ ∧
        S.move p (.advance i) =
          ⟨(S.handler r op p.state).2,
            p.threads.set i ⟨r, next (S.handler r op p.state).1⟩,
            p.log ++ [⟨i, op, (S.handler r op p.state).1⟩]⟩ := by
  simp only [move]
  cases hi : p.threads[i]? with
  | none => exact Or.inl rfl
  | some t =>
    obtain ⟨r, body⟩ := t
    cases body with
    | call op next => exact Or.inr ⟨r, op, next, rfl, rfl⟩
    | done a => exact Or.inl rfl
    | raise e => exact Or.inl rfl

/-! ## Reachability under a guard -/

variable (G : Pool ε ι Res α σ → Move ι → Prop)

/-- One permitted move leads from `p` to `q`. -/
def Step (p q : Pool ε ι Res α σ) : Prop := ∃ m, G p m ∧ q = S.move p m

/-- Permitted moves lead from `p` to `q`. -/
def Leads : Pool ε ι Res α σ → Pool ε ι Res α σ → Prop :=
  Relation.ReflTransGen (S.Step G)

variable {S G}

/-- Every move is permitted. -/
abbrev Unguarded : Pool ε ι Res α σ → Move ι → Prop := fun _ _ => True

/-- What every permitted move from a reached pool keeps, every permitted run
keeps.  A move of the run has what came before it and what comes after it. -/
theorem Leads.invariant {I : Pool ε ι Res α σ → Prop} {p q : Pool ε ι Res α σ}
    (hpq : S.Leads G p q)
    (hI : ∀ r m, S.Leads G p r → S.Leads G (S.move r m) q → I r → G r m → I (S.move r m))
    (hp : I p) : I q := by
  induction hpq with
  | refl => exact hp
  | tail hpr hstep ih =>
    obtain ⟨m, hm, rfl⟩ := hstep
    refine hI _ m hpr .refl (ih fun r m' hr hrq => hI r m' hr ?_) hm
    exact hrq.tail ⟨m, hm, rfl⟩

/-- Every move of a list is permitted in the state it is made in. -/
def Permits (S : Service ε ι Res α σ) (G : Pool ε ι Res α σ → Move ι → Prop) :
    Pool ε ι Res α σ → List (Move ι) → Prop
  | _, [] => True
  | p, m :: ms => G p m ∧ Permits S G (S.move p m) ms

instance instDecidablePermits [∀ p m, Decidable (G p m)] :
    (p : Pool ε ι Res α σ) → (moves : List (Move ι)) → Decidable (Permits S G p moves)
  | _, [] => inferInstanceAs (Decidable True)
  | p, m :: ms =>
    have : Decidable (Permits S G (S.move p m) ms) := instDecidablePermits (S.move p m) ms
    inferInstanceAs (Decidable (G p m ∧ Permits S G (S.move p m) ms))

/-- A list of permitted moves is a permitted run. -/
theorem leads_schedule {p : Pool ε ι Res α σ} {moves : List (Move ι)}
    (hm : Permits S G p moves) : S.Leads G p (S.schedule p moves) := by
  induction moves generalizing p with
  | nil => exact Relation.ReflTransGen.refl
  | cons m ms ih =>
    exact Relation.ReflTransGen.head ⟨m, hm.1, rfl⟩ (ih hm.2)

theorem leads_unguarded (p : Pool ε ι Res α σ) (moves : List (Move ι)) :
    S.Leads Unguarded p (S.schedule p moves) := by
  refine leads_schedule ?_
  induction moves generalizing p with
  | nil => trivial
  | cons m ms ih => exact ⟨trivial, ih _⟩

/-- A run that one guard permits is a run under any weaker one. -/
theorem Leads.mono {G' : Pool ε ι Res α σ → Move ι → Prop} (hG : ∀ p m, G p m → G' p m)
    {p q : Pool ε ι Res α σ} (hpq : S.Leads G p q) : S.Leads G' p q := by
  refine Relation.ReflTransGen.mono (fun u v h => ?_) p q hpq
  obtain ⟨m, hm, hv⟩ := h
  exact ⟨m, hG u m hm, hv⟩

theorem Leads.trans {p q r : Pool ε ι Res α σ} (hpq : S.Leads G p q) (hqr : S.Leads G q r) :
    S.Leads G p r := Relation.ReflTransGen.trans hpq hqr

theorem Leads.move {p q : Pool ε ι Res α σ} (hpq : S.Leads G p q) {m : Move ι}
    (hm : G q m) : S.Leads G p (S.move q m) :=
  Relation.ReflTransGen.tail hpq ⟨m, hm, rfl⟩

/-! ## Requests keep their place -/

/-- A move keeps every started request at its index. -/
theorem getElem?_move {p : Pool ε ι Res α σ} {i : Nat} {t : Thread ε ι Res α}
    (hi : p.threads[i]? = some t) (m : Move ι) :
    ∃ t', (S.move p m).threads[i]? = some t' ∧ t'.request = t.request := by
  have hlt : i < p.threads.length := (List.getElem?_eq_some_iff.mp hi).1
  cases m with
  | start r =>
    refine ⟨t, ?_, rfl⟩
    simp only [Service.move]
    rw [List.getElem?_append_left hlt, hi]
  | advance j =>
    rcases S.move_advance_cases p j with h | ⟨r, op, next, hj, h⟩
    · exact ⟨t, by rw [h, hi], rfl⟩
    · rw [h]
      by_cases hij : j = i
      · subst hij
        rw [hi] at hj
        cases hj
        exact ⟨_, List.getElem?_set_self hlt, rfl⟩
      · exact ⟨t, by rw [List.getElem?_set_ne hij, hi], rfl⟩

theorem Leads.getElem? {p q : Pool ε ι Res α σ} (hpq : S.Leads G p q) {i : Nat}
    {t : Thread ε ι Res α} (hi : p.threads[i]? = some t) :
    ∃ t', q.threads[i]? = some t' ∧ t'.request = t.request := by
  refine hpq.invariant (I := fun q => ∃ t', q.threads[i]? = some t' ∧ t'.request = t.request)
    (fun r m _ _ hr _ => ?_) ⟨t, hi, rfl⟩
  obtain ⟨t', ht', hreq⟩ := hr
  obtain ⟨u, hu, hureq⟩ := getElem?_move (S := S) ht' m
  exact ⟨u, hu, hureq.trans hreq⟩

/-- The request of a thread. -/
def request? (p : Pool ε ι Res α σ) (i : Nat) : Option ι := (p.threads[i]?).map Thread.request

theorem request?_eq_some_iff {p : Pool ε ι Res α σ} {i : Nat} {r : ι} :
    request? p i = some r ↔ ∃ body, p.threads[i]? = some ⟨r, body⟩ := by
  simp only [request?, Option.map_eq_some_iff]
  constructor
  · rintro ⟨⟨r', body⟩, h, rfl⟩
    exact ⟨body, h⟩
  · rintro ⟨body, h⟩
    exact ⟨_, h, rfl⟩

theorem exists_request?_iff {p : Pool ε ι Res α σ} {i : Nat} :
    (∃ r, request? p i = some r) ↔ i < p.threads.length := by
  constructor
  · rintro ⟨r, hr⟩
    obtain ⟨body, hbody⟩ := request?_eq_some_iff.mp hr
    exact (List.getElem?_eq_some_iff.mp hbody).1
  · intro h
    rw [request?, List.getElem?_eq_getElem h]
    exact ⟨_, rfl⟩

/-- The call a request is about to make. -/
def nextCall? (p : Pool ε ι Res α σ) (i : Nat) : Option Op :=
  match p.threads[i]? with
  | some ⟨_, .call op _⟩ => some op
  | _ => none

theorem nextCall?_eq_some_iff {p : Pool ε ι Res α σ} {i : Nat} {op : Op} :
    nextCall? p i = some op ↔ ∃ r next, p.threads[i]? = some ⟨r, .call op next⟩ := by
  unfold nextCall?
  split
  · rename_i r op' next hi
    constructor
    · intro h
      cases h
      exact ⟨r, next, hi⟩
    · rintro ⟨r', next', h⟩
      rw [hi] at h
      cases h
      rfl
  · rename_i hi
    simp only [reduceCtorEq, false_iff, not_exists]
    intro r next h
    exact hi r op next h

/-- A move of a request changes no request. -/
theorem request?_advance (p : Pool ε ι Res α σ) (i j : Nat) :
    request? (S.move p (.advance j)) i = request? p i := by
  rcases S.move_advance_cases p j with h | ⟨r, op, next, hj, h⟩
  · rw [h]
  · rw [h]
    by_cases hji : j = i
    · subst hji
      have hlt := (List.getElem?_eq_some_iff.mp hj).1
      simp only [request?, List.getElem?_set_self hlt, hj, Option.map_some]
    · simp [request?, List.getElem?_set_ne hji]

/-- A request was there before a start or is the one that was started. -/
theorem request?_start {p : Pool ε ι Res α σ} {i : Nat} {r r' : ι}
    (h : request? (S.move p (.start r)) i = some r') :
    request? p i = some r' ∨ i = p.threads.length ∧ r' = r := by
  simp only [request?, Service.move] at h ⊢
  rcases Nat.lt_or_ge i p.threads.length with hlt | hge
  · rw [List.getElem?_append_left hlt] at h
    exact Or.inl h
  · obtain ⟨t, ht, rfl⟩ := Option.map_eq_some_iff.mp h
    obtain ⟨hlen, hget⟩ := List.getElem?_eq_some_iff.mp ht
    rw [List.length_append, List.length_singleton] at hlen
    have hi : i = p.threads.length := by omega
    subst hi
    rw [List.getElem_concat_length rfl] at hget
    exact Or.inr ⟨rfl, by rw [← hget]⟩

/-- A request whose program is over keeps it. -/
theorem getElem?_move_of_over {p : Pool ε ι Res α σ} {i : Nat} {t : Thread ε ι Res α}
    (hi : p.threads[i]? = some t) (hover : ∀ op next, t.body ≠ .call op next) (m : Move ι) :
    (S.move p m).threads[i]? = some t := by
  have hlt : i < p.threads.length := (List.getElem?_eq_some_iff.mp hi).1
  cases m with
  | start r' =>
    simp only [Service.move]
    rw [List.getElem?_append_left hlt, hi]
  | advance j =>
    rcases S.move_advance_cases p j with h | ⟨r', op, next, hj, h⟩
    · rw [h, hi]
    · rw [h]
      by_cases hij : j = i
      · subst hij
        rw [hi] at hj
        cases hj
        exact absurd rfl (hover op next)
      · rw [List.getElem?_set_ne hij, hi]

/-- A finished request stays finished with its result. -/
theorem Leads.getElem?_of_done {p q : Pool ε ι Res α σ} (hpq : S.Leads G p q)
    {i : Nat} {r : ι} {a : α} (hi : p.threads[i]? = some ⟨r, .done a⟩) :
    q.threads[i]? = some ⟨r, .done a⟩ :=
  hpq.invariant (I := fun q => q.threads[i]? = some ⟨r, .done a⟩)
    (fun _ m _ _ h _ => getElem?_move_of_over h (fun _ _ hc => by cases hc) m) hi

/-! ## The log -/

/-- A property of the state and the log that every call of every request keeps
holds in every run. -/
theorem Leads.log_induction {I : σ → List (Entry Res) → Prop} {p q : Pool ε ι Res α σ}
    (hpq : S.Leads G p q)
    (hcall : ∀ (u : Pool ε ι Res α σ) (i : Nat) (r : ι) (op : Op) (next : Res op → Prog ε Res α),
      S.Leads G p u → S.Leads G (S.move u (.advance i)) q →
        u.threads[i]? = some ⟨r, .call op next⟩ → G u (.advance i) →
        I u.state u.log → I (S.handler r op u.state).2
          (u.log ++ [⟨i, op, (S.handler r op u.state).1⟩]))
    (hp : I p.state p.log) : I q.state q.log := by
  refine hpq.invariant (I := fun q => I q.state q.log) (fun u m hu hq hI hG => ?_) hp
  cases m with
  | start r => exact hI
  | advance i =>
    rcases S.move_advance_cases u i with h | ⟨r, op, next, hi, h⟩
    · rw [h]
      exact hI
    · rw [h]
      exact hcall u i r op next hu hq hi hG hI

/-- The log only grows. -/
theorem Leads.log_grows {p q : Pool ε ι Res α σ} (hpq : S.Leads G p q) :
    ∃ later, q.log = p.log ++ later := by
  refine hpq.log_induction (I := fun _ log => ∃ later, log = p.log ++ later)
    (fun u i r op next _ _ _ _ h => ?_) ⟨[], (List.append_nil _).symm⟩
  obtain ⟨later, hlater⟩ := h
  exact ⟨_, by rw [hlater, List.append_assoc]⟩

/-- The calls of one request, in order. -/
def calls (log : List (Entry Res)) (i : Nat) : List ((op : Op) × Res op) :=
  log.filterMap fun e => if e.thread = i then some ⟨e.op, e.answer⟩ else none

@[simp] theorem calls_append (log log' : List (Entry Res)) (i : Nat) :
    calls (log ++ log') i = calls log i ++ calls log' i := by
  simp [calls]

theorem calls_snoc (log : List (Entry Res)) (i j : Nat) (op : Op) (a : Res op) :
    calls (log ++ [⟨i, op, a⟩]) j = if i = j then calls log j ++ [⟨op, a⟩] else calls log j := by
  by_cases hij : i = j <;> simp [calls, hij]

theorem mem_calls_iff {log : List (Entry Res)} {i : Nat} {op : Op} {a : Res op} :
    ⟨op, a⟩ ∈ calls log i ↔ ⟨i, op, a⟩ ∈ log := by
  simp only [calls, List.mem_filterMap]
  constructor
  · rintro ⟨⟨j, op', a'⟩, hmem, heq⟩
    split at heq
    · rename_i hj
      cases heq
      subst hj
      exact hmem
    · cases heq
  · intro hmem
    exact ⟨_, hmem, by simp⟩

/-- A request only makes further calls. -/
theorem Leads.calls_prefix {p q : Pool ε ι Res α σ} (hpq : S.Leads G p q) (i : Nat) :
    calls p.log i <+: calls q.log i := by
  obtain ⟨later, hlog⟩ := hpq.log_grows
  rw [hlog, calls_append]
  exact List.prefix_append _ _

/-- Counting among the calls of one request. -/
theorem countP_calls (log : List (Entry Res)) (i : Nat) (q : (op : Op) × Res op → Bool) :
    (calls log i).countP q = log.countP fun e => e.thread = i && q ⟨e.op, e.answer⟩ := by
  induction log with
  | nil => rfl
  | cons e log ih =>
    by_cases hi : e.thread = i
    · simp only [calls, List.filterMap_cons, hi, if_true, List.countP_cons, decide_true,
        Bool.true_and] at ih ⊢
      rw [ih]
    · simp only [calls, List.filterMap_cons, hi, if_false, List.countP_cons, decide_false,
        Bool.false_and, Bool.false_eq_true, Nat.add_zero] at ih ⊢
      exact ih

/-- What happens at most once does not happen in two requests. -/
theorem thread_eq_of_countP_le_one {log : List (Entry Res)} {q : Entry Res → Bool}
    (h : log.countP q ≤ 1) {e e' : Entry Res} (he : e ∈ log) (he' : e' ∈ log)
    (hq : q e = true) (hq' : q e' = true) : e = e' := by
  induction log with
  | nil => simp at he
  | cons x log ih =>
    rw [List.countP_cons] at h
    have hnone : ∀ y ∈ log, q y = true → 1 ≤ log.countP q :=
      fun y hy hqy => List.countP_pos_iff.mpr ⟨y, hy, hqy⟩
    rcases List.mem_cons.mp he with hx | hlog
    · rcases List.mem_cons.mp he' with hx' | hlog'
      · rw [hx, hx']
      · have := hnone e' hlog' hq'
        rw [← hx, hq, if_pos rfl] at h
        omega
    · rcases List.mem_cons.mp he' with hx' | hlog'
      · have := hnone e hlog hq
        rw [← hx', hq', if_pos rfl] at h
        omega
      · exact ih (by omega) hlog hlog'

/-- Every request is where its calls have led it, and only started requests
have made calls. -/
def Faithful (S : Service ε ι Res α σ) (p : Pool ε ι Res α σ) : Prop :=
  (∀ i t, p.threads[i]? = some t → Prog.Follows (S.body t.request) (calls p.log i) t.body) ∧
    ∀ e ∈ p.log, e.thread < p.threads.length

theorem faithful_fresh (s : σ) : Faithful S (fresh s) :=
  ⟨fun i t h => by simp [fresh] at h, fun e h => by simp [fresh] at h⟩

private theorem calls_eq_nil_of_le {log : List (Entry Res)} {n i : Nat}
    (hlog : ∀ e ∈ log, e.thread < n) (hi : n ≤ i) : calls log i = [] := by
  rw [calls, List.filterMap_eq_nil_iff]
  intro e he
  have := hlog e he
  rw [if_neg (by omega)]

theorem Faithful.move {p : Pool ε ι Res α σ} (hp : Faithful S p) (m : Move ι) :
    Faithful S (S.move p m) := by
  obtain ⟨hthreads, hlog⟩ := hp
  cases m with
  | start r =>
    simp only [Service.move]
    refine ⟨fun i t hi => ?_, fun e he => ?_⟩
    · rcases Nat.lt_or_ge i p.threads.length with hlt | hge
      · rw [List.getElem?_append_left hlt] at hi
        exact hthreads i t hi
      · rw [List.getElem?_append_right hge] at hi
        have ht : t = ⟨r, S.body r⟩ := by
          have := List.mem_of_getElem? hi
          simpa using this
        subst ht
        rw [calls_eq_nil_of_le hlog hge]
        exact .refl _
    · rw [List.length_append]
      exact Nat.lt_of_lt_of_le (hlog e he) (Nat.le_add_right _ _)
  | advance j =>
    rcases S.move_advance_cases p j with h | ⟨r, op, next, hj, h⟩
    · rw [h]
      exact ⟨hthreads, hlog⟩
    · rw [h]
      have hlt : j < p.threads.length := (List.getElem?_eq_some_iff.mp hj).1
      refine ⟨fun i t hi => ?_, fun e he => ?_⟩
      · by_cases hij : j = i
        · subst hij
          simp only [List.getElem?_set_self hlt, Option.some.injEq] at hi
          subst hi
          simpa only [calls_snoc, if_true] using (hthreads j _ hj).snoc rfl _
        · simp only [List.getElem?_set_ne hij] at hi
          simpa only [calls_snoc, if_neg hij] using hthreads i t hi
      · rw [List.length_set]
        rcases List.mem_append.mp he with he | he
        · exact hlog e he
        · rw [List.mem_singleton.mp he]
          exact hlt

/-- In every run each request is where its calls have led it. -/
theorem Leads.faithful {s : σ} {p : Pool ε ι Res α σ} (hp : S.Leads G (fresh s) p) :
    Faithful S p :=
  hp.invariant (fun _ m _ _ h _ => h.move m) (faithful_fresh s)

/-- The calls of a request are a path through its program. -/
theorem Leads.follows {s : σ} {p : Pool ε ι Res α σ} (hp : S.Leads G (fresh s) p) {i : Nat}
    {r : ι} {body : Prog ε Res α} (hi : p.threads[i]? = some ⟨r, body⟩) :
    Prog.Follows (S.body r) (calls p.log i) body :=
  hp.faithful.1 i _ hi

/-- Who made a call was started. -/
theorem Leads.exists_thread {s : σ} {p : Pool ε ι Res α σ} (hp : S.Leads G (fresh s) p)
    {e : Entry Res} (he : e ∈ p.log) : ∃ t, p.threads[e.thread]? = some t :=
  ⟨_, List.getElem?_eq_getElem (hp.faithful.2 e he)⟩

/-- A request that is not started has made no call. -/
theorem Leads.calls_eq_nil {s : σ} {p : Pool ε ι Res α σ} (hp : S.Leads G (fresh s) p) {i : Nat}
    (hi : p.threads.length ≤ i) : calls p.log i = [] :=
  calls_eq_nil_of_le hp.faithful.2 hi

end Service

end Atomic
