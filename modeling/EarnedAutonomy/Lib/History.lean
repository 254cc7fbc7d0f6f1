import EarnedAutonomy.Lib.Interleave

/-!
# Runs of whole requests

The sequential reading of a `Service`: one request after the other, each run to
its end.  A `Turn` keeps the state before a request, its calls, its result and
the state after it.

* `Ensures` is a postcondition of one program, with a rule for each way to
  build a program, and `Makes` says that its run makes a call of some kind.
  `EnsuresUnless` is a postcondition up to calls that are answered badly.
* `Runs` is a list of turns from one state to another.  `Runs.getElem?` takes
  out one turn with the run before it, `Runs.split` cuts a run in two.
* `history` serves a list of requests, for concrete runs.
* `Runs.leads` reads a run as an interleaving in which every request runs
  alone, so that what holds of all interleavings holds of runs.
-/

namespace Atomic

namespace Prog

variable {ε Op α β σ : Type} {Res : Op → Type} (h : Handler Res σ)

/-! ## Postconditions -/

/-- The run of `p` from `s` ends in a result and a state with `Q`. -/
def Ensures (p : Prog ε Res α) (s : σ) (Q : Except ε α → σ → Prop) : Prop :=
  Q (p.run h s).1 (p.run h s).2

variable {h} {s : σ} {Q : Except ε β → σ → Prop}

@[simp] theorem ensures_done {b : β} : (Prog.done b).Ensures h s Q ↔ Q (.ok b) s := Iff.rfl

@[simp] theorem ensures_raise {e : ε} : (Prog.raise e).Ensures h s Q ↔ Q (.error e) s := Iff.rfl

@[simp] theorem ensures_call {op : Op} {next : Res op → Prog ε Res β} :
    (Prog.call op next).Ensures h s Q ↔ (next (h op s).1).Ensures h (h op s).2 Q := Iff.rfl

@[simp] theorem ensures_perform {op : Op} {Q : Except ε (Res op) → σ → Prop} :
    (perform op).Ensures h s Q ↔ Q (.ok (h op s).1) (h op s).2 := Iff.rfl

/-- A sequence ensures what its second part ensures from where the first part
ends, and what an error of the first part ensures. -/
theorem ensures_bind {p : Prog ε Res α} {f : α → Prog ε Res β} :
    (p >>= f).Ensures h s Q ↔ p.Ensures h s fun r s' =>
      match r with
      | .ok a => (f a).Ensures h s' Q
      | .error e => Q (.error e) s' := by
  unfold Ensures
  rw [run_bind]
  cases p.run h s with
  | mk r s' => cases r <;> rfl

/-- A sequence whose first part is known to return goes on from there. -/
theorem ensures_bind_ok {p : Prog ε Res α} {f : α → Prog ε Res β} {a : α} {s' : σ}
    (hp : p.run h s = (.ok a, s')) : (p >>= f).Ensures h s Q ↔ (f a).Ensures h s' Q := by
  rw [ensures_bind]
  unfold Ensures
  rw [hp]

/-- A sequence whose first part is known to raise ends there. -/
theorem ensures_bind_error {p : Prog ε Res α} {f : α → Prog ε Res β} {e : ε} {s' : σ}
    (hp : p.run h s = (.error e, s')) : (p >>= f).Ensures h s Q ↔ Q (.error e) s' := by
  rw [ensures_bind]
  unfold Ensures
  rw [hp]

@[simp] theorem ensures_ofExcept {x : Except ε β} :
    (ofExcept x).Ensures h s Q ↔ Q x s := by
  cases x <;> rfl

theorem Ensures.mono {p : Prog ε Res β} {Q' : Except ε β → σ → Prop}
    (hp : p.Ensures h s Q) (hQ : ∀ r s', Q r s' → Q' r s') : p.Ensures h s Q' :=
  hQ _ _ hp

theorem Ensures.and {p : Prog ε Res β} {Q' : Except ε β → σ → Prop} (hp : p.Ensures h s Q)
    (hp' : p.Ensures h s Q') : p.Ensures h s fun r s' => Q r s' ∧ Q' r s' := ⟨hp, hp'⟩

/-- A program keeps an invariant of its calls. -/
theorem ensures_of_uses {I : σ → Prop} {A : Op → Prop} {p : Prog ε Res β}
    (hp : p.Uses A) (hI : ∀ op, A op → ∀ s, I s → I (h op s).2) (hs : I s) :
    p.Ensures h s fun _ s' => I s' :=
  run_preserves h hI hp hs

/-- Two parts that keep an invariant keep it in sequence. -/
theorem ensures_bind_of_keeps {I : σ → Prop} {p : Prog ε Res α} {f : α → Prog ε Res β}
    (hp : p.Ensures h s fun _ s' => I s')
    (hf : ∀ a s', I s' → (f a).Ensures h s' fun _ s'' => I s'') :
    (p >>= f).Ensures h s fun _ s' => I s' := by
  rw [ensures_bind]
  refine hp.mono fun r s' hs' => ?_
  cases r with
  | ok a => exact hf a s' hs'
  | error e => exact hs'

/-! ## Calls that a run makes -/

variable (h) in
/-- The run of `p` from `s` makes a call of this kind. -/
def Makes (C : Op → Prop) (p : Prog ε Res α) (s : σ) : Prop := ∃ c ∈ p.trace h s, C c.1

variable {C : Op → Prop}

@[simp] theorem makes_done {a : α} : ¬ (Prog.done a : Prog ε Res α).Makes h C s :=
  fun ⟨_, hc, _⟩ => nomatch hc

@[simp] theorem makes_raise {e : ε} : ¬ (Prog.raise e : Prog ε Res α).Makes h C s :=
  fun ⟨_, hc, _⟩ => nomatch hc

@[simp] theorem makes_call {op : Op} {next : Res op → Prog ε Res α} :
    (Prog.call op next).Makes h C s ↔ C op ∨ (next (h op s).1).Makes h C (h op s).2 := by
  simp [Makes, trace]

/-- A program makes no call that it cannot make. -/
theorem not_makes_of_uses {A : Op → Prop} {p : Prog ε Res α} (hp : p.Uses A)
    (hA : ∀ op, A op → ¬ C op) : ¬ p.Makes h C s :=
  fun ⟨c, hc, hC⟩ => hA c.1 ((follows_trace h p s).uses_calls hp c hc) hC

/-- A sequence makes the calls of its first part, and those of its second part from where
the first one returns. -/
theorem makes_bind {p : Prog ε Res α} {f : α → Prog ε Res β} :
    (p >>= f).Makes h C s ↔
      p.Makes h C s ∨ ∃ a s', p.run h s = (.ok a, s') ∧ (f a).Makes h C s' := by
  induction p generalizing s with
  | done a =>
    constructor
    · exact fun hf => Or.inr ⟨a, s, rfl, hf⟩
    · rintro (hp | ⟨_, _, heq, hf⟩)
      · exact absurd hp makes_done
      · cases heq
        exact hf
  | raise e => simp
  | call op next ih => rw [call_bind, makes_call, makes_call, ih, or_assoc, run_call]

/-! ## Postconditions up to an answer -/

variable (h) in
/-- A call of the run is answered in `B`, or the run ends in a result and a state with `Q`. -/
def EnsuresUnless (B : (op : Op) × Res op → Prop) (p : Prog ε Res α) (s : σ)
    (Q : Except ε α → σ → Prop) : Prop :=
  (∃ c ∈ p.trace h s, B c) ∨ p.Ensures h s Q

variable {B : (op : Op) × Res op → Prop}

theorem EnsuresUnless.mono {p : Prog ε Res β} {Q' : Except ε β → σ → Prop}
    (hp : p.EnsuresUnless h B s Q) (hQ : ∀ r s', Q r s' → Q' r s') :
    p.EnsuresUnless h B s Q' := hp.imp id fun hend => hend.mono hQ

@[simp] theorem ensuresUnless_done {b : β} :
    (Prog.done b).EnsuresUnless h B s Q ↔ Q (.ok b) s := by
  simp [EnsuresUnless, trace]

@[simp] theorem ensuresUnless_raise {e : ε} :
    (Prog.raise e).EnsuresUnless h B s Q ↔ Q (.error e) s := by
  simp [EnsuresUnless, trace]

@[simp] theorem ensuresUnless_call {op : Op} {next : Res op → Prog ε Res β} :
    (Prog.call op next).EnsuresUnless h B s Q ↔
      B ⟨op, (h op s).1⟩ ∨ (next (h op s).1).EnsuresUnless h B (h op s).2 Q := by
  simp [EnsuresUnless, trace, or_assoc]

/-- A sequence goes on where its first part ends, unless a call is answered in `B`. -/
theorem ensuresUnless_bind {p : Prog ε Res α} {f : α → Prog ε Res β} :
    (p >>= f).EnsuresUnless h B s Q ↔ p.EnsuresUnless h B s fun r s' =>
      match r with
      | .ok a => (f a).EnsuresUnless h B s' Q
      | .error e => Q (.error e) s' := by
  induction p generalizing s with
  | done a => rw [done_bind, ensuresUnless_done]
  | raise e => rw [raise_bind, ensuresUnless_raise, ensuresUnless_raise]
  | call op next ih => rw [call_bind, ensuresUnless_call, ensuresUnless_call, ih]

/-- The sequence of a part that is known to return goes on from there. -/
theorem ensuresUnless_bind_ok {p : Prog ε Res α} {f : α → Prog ε Res β} {a : α} {s' : σ}
    (hp : p.run h s = (.ok a, s')) (hf : (f a).EnsuresUnless h B s' Q) :
    (p >>= f).EnsuresUnless h B s Q := by
  refine ensuresUnless_bind.mpr (Or.inr ?_)
  unfold Ensures
  rw [hp]
  exact hf

end Prog

/-! ## Turns and runs -/

/-- One request with the state before it, the calls it made, its result and the
state after it. -/
structure Turn (ε ι : Type) {Op : Type} (Res : Op → Type) (α σ : Type) where
  before : σ
  request : ι
  calls : List ((op : Op) × Res op)
  result : Except ε α
  after : σ

namespace Service

variable {ε ι Op α σ : Type} {Res : Op → Type} (S : Service ε ι Res α σ)

/-- Serve one request from a state. -/
def serve (s : σ) (r : ι) : Turn ε ι Res α σ where
  before := s
  request := r
  calls := (S.body r).trace (S.handler r) s
  result := ((S.body r).run (S.handler r) s).1
  after := ((S.body r).run (S.handler r) s).2

/-- The calls of a turn are a path to its result. -/
theorem follows_serve (s : σ) (r : ι) :
    Prog.Follows (S.body r) (S.serve s r).calls (Prog.ofExcept (S.serve s r).result) :=
  Prog.follows_trace _ _ _

theorem answers_serve (s : σ) (r : ι) :
    Prog.Answers (S.handler r) s (S.serve s r).calls (S.serve s r).after :=
  Prog.answers_trace _ _ _

/-- A postcondition of the body holds of the turn. -/
theorem of_ensures {y : Turn ε ι Res α σ} (hy : y = S.serve y.before y.request)
    {Q : Except ε α → σ → Prop} (h : (S.body y.request).Ensures (S.handler y.request) y.before Q) :
    Q y.result y.after := by
  have hresult := congrArg Turn.result hy
  have hafter := congrArg Turn.after hy
  rw [hresult, hafter]
  exact h

theorem of_ensuresUnless {y : Turn ε ι Res α σ} (hy : y = S.serve y.before y.request)
    {B : (op : Op) × Res op → Prop} {Q : Except ε α → σ → Prop}
    (h : (S.body y.request).EnsuresUnless (S.handler y.request) B y.before Q) :
    (∃ c ∈ y.calls, B c) ∨ Q y.result y.after := by
  have hcalls := congrArg Turn.calls hy
  rw [hcalls]
  exact h.imp id (S.of_ensures hy)

/-- The turns lead from `s₀` to a state. -/
inductive Runs (s₀ : σ) : List (Turn ε ι Res α σ) → σ → Prop where
  | nil : Runs s₀ [] s₀
  | snoc {turns : List (Turn ε ι Res α σ)} {s : σ} (h : Runs s₀ turns s) (r : ι) :
      Runs s₀ (turns ++ [S.serve s r]) (S.serve s r).after

variable {S} {s₀ s s' : σ} {turns turns' : List (Turn ε ι Res α σ)}

theorem Runs.append (h : S.Runs s₀ turns s) (h' : S.Runs s turns' s') :
    S.Runs s₀ (turns ++ turns') s' := by
  induction h' with
  | nil => rwa [List.append_nil]
  | snoc _ r ih =>
    rw [← List.append_assoc]
    exact ih.snoc r

/-- Serve requests one after the other. -/
def history (S : Service ε ι Res α σ) : σ → List ι → List (Turn ε ι Res α σ)
  | _, [] => []
  | s, r :: rs => S.serve s r :: S.history (S.serve s r).after rs

/-- The state after a list of requests. -/
def final (S : Service ε ι Res α σ) : σ → List ι → σ
  | s, [] => s
  | s, r :: rs => S.final (S.serve s r).after rs

theorem runs_history (s : σ) (rs : List ι) : S.Runs s (S.history s rs) (S.final s rs) := by
  induction rs generalizing s with
  | nil => exact .nil
  | cons r rs ih => exact (Runs.nil.snoc r).append (ih _)

/-- The turns of a history are about its requests, one after the other. -/
theorem getElem?_history {s : σ} {rs : List ι} {i : Nat} {x : Turn ε ι Res α σ}
    (h : (S.history s rs)[i]? = some x) : rs[i]? = some x.request := by
  induction rs generalizing s i with
  | nil => cases h
  | cons r rs ih =>
    cases i with
    | zero =>
      obtain rfl := Option.some.inj h
      rfl
    | succ i => exact ih h

theorem request_mem_of_mem_history {s : σ} {rs : List ι} {x : Turn ε ι Res α σ}
    (h : x ∈ S.history s rs) : x.request ∈ rs := by
  obtain ⟨i, hi⟩ := List.mem_iff_getElem?.mp h
  exact List.mem_of_getElem? (getElem?_history hi)

theorem getElem?_history_append (s : σ) (first : List ι) (r : ι) (rest : List ι) :
    (S.history s (first ++ r :: rest))[first.length]? = some (S.serve (S.final s first) r) := by
  induction first generalizing s with
  | nil => rfl
  | cons r' first ih => exact ih _

theorem forall_mem_history_nil {s : σ} {p : Turn ε ι Res α σ → Prop} :
    ∀ x ∈ S.history s [], p x := fun _ h => nomatch h

theorem forall_mem_history_cons {s : σ} {r : ι} {rs : List ι} {p : Turn ε ι Res α σ → Prop}
    (hr : p (S.serve s r)) (hrs : ∀ x ∈ S.history (S.serve s r).after rs, p x) :
    ∀ x ∈ S.history s (r :: rs), p x := List.forall_mem_cons.mpr ⟨hr, hrs⟩

/-- What every turn keeps, every run keeps. -/
theorem Runs.invariant {I : σ → Prop} (h : S.Runs s₀ turns s) (h₀ : I s₀)
    (hturn : ∀ x ∈ turns, x = S.serve x.before x.request → I x.before → I x.after) : I s := by
  induction h with
  | nil => exact h₀
  | snoc h r ih =>
    refine hturn _ (List.mem_append_right _ List.mem_cons_self) rfl (ih fun x hx => ?_)
    exact hturn x (List.mem_append_left _ hx)

/-- A run splits at every place. -/
theorem Runs.split (h : S.Runs s₀ (turns ++ turns') s) :
    ∃ t, S.Runs s₀ turns t ∧ S.Runs t turns' s := by
  generalize hall : turns ++ turns' = all at h
  induction h generalizing turns' with
  | nil =>
    obtain ⟨rfl, rfl⟩ := List.append_eq_nil_iff.mp hall
    exact ⟨s₀, .nil, .nil⟩
  | @snoc init t h r ih =>
    rcases List.eq_nil_or_concat turns' with rfl | ⟨rest, x, rfl⟩
    · rw [List.append_nil] at hall
      subst hall
      exact ⟨_, h.snoc r, .nil⟩
    · rw [List.concat_eq_append, ← List.append_assoc] at hall
      obtain ⟨rfl, hx⟩ := List.append_inj' hall rfl
      obtain ⟨u, hu, hrest⟩ := ih rfl
      refine ⟨u, hu, ?_⟩
      rw [List.cons.injEq] at hx
      rw [List.concat_eq_append, hx.1]
      exact hrest.snoc r

theorem Runs.eq_of_nil (h : S.Runs s₀ [] s) : s = s₀ := by
  generalize hnil : ([] : List (Turn ε ι Res α σ)) = turns at h
  cases h with
  | nil => rfl
  | snoc h r => exact absurd hnil.symm (by simp)

theorem Runs.eq_of_singleton {x : Turn ε ι Res α σ} (h : S.Runs s₀ [x] s) :
    x = S.serve s₀ x.request ∧ s = x.after := by
  generalize hone : [x] = turns at h
  cases h with
  | nil => cases hone
  | @snoc init t hinit r =>
    have hlen : init = [] := by
      have := congrArg List.length hone
      simpa using this.symm
    subst hlen
    have hx : x = S.serve t r := by simpa using hone
    subst hx
    rw [hinit.eq_of_nil]
    exact ⟨rfl, rfl⟩

/-- One turn of a run, with the run before it and the run after it. -/
theorem Runs.getElem? (h : S.Runs s₀ turns s) {i : Nat} {x : Turn ε ι Res α σ}
    (hi : turns[i]? = some x) : S.Runs s₀ (turns.take i) x.before ∧
      x = S.serve x.before x.request ∧ S.Runs x.after (turns.drop (i + 1)) s := by
  obtain ⟨hlt, rfl⟩ := List.getElem?_eq_some_iff.mp hi
  have hsplit : turns.take i ++ ([turns[i]] ++ turns.drop (i + 1)) = turns := by
    simp
  rw [← hsplit] at h
  obtain ⟨t, ht, hrest⟩ := h.split
  obtain ⟨u, hu, hafter⟩ := hrest.split
  obtain ⟨hx, rfl⟩ := hu.eq_of_singleton
  have hbefore : turns[i].before = t := by rw [hx]; rfl
  rw [hbefore]
  exact ⟨ht, hx, hafter⟩

/-- The calls of a turn of a run are a path to its result. -/
theorem Runs.follows (h : S.Runs s₀ turns s) {i : Nat} {x : Turn ε ι Res α σ}
    (hi : turns[i]? = some x) :
    Prog.Follows (S.body x.request) x.calls (Prog.ofExcept x.result) := by
  rw [(h.getElem? hi).2.1]
  exact S.follows_serve _ _

/-- The calls of a turn of a run were answered in the state before it. -/
theorem Runs.answers (h : S.Runs s₀ turns s) {i : Nat} {x : Turn ε ι Res α σ}
    (hi : turns[i]? = some x) :
    Prog.Answers (S.handler x.request) x.before x.calls x.after := by
  rw [(h.getElem? hi).2.1]
  exact S.answers_serve _ _

/-- The run from one turn to a later one. -/
theorem Runs.between (h : S.Runs s₀ turns s) {i j : Nat} {x y : Turn ε ι Res α σ} (hij : i < j)
    (hi : turns[i]? = some x) (hj : turns[j]? = some y) :
    ∃ turns', S.Runs x.after turns' y.before := by
  have htake : (turns.take j)[i]? = some x := by
    rw [List.getElem?_take_of_lt hij]
    exact hi
  exact ⟨_, ((h.getElem? hj).1.getElem? htake).2.2⟩

/-- What every call keeps, every run keeps. -/
theorem Runs.invariant_of_calls {I : σ → Prop} (h : S.Runs s₀ turns s) (h₀ : I s₀)
    (hcall : ∀ r op s, I s → I (S.handler r op s).2) : I s := by
  refine h.invariant h₀ fun x _ hserve hbefore => ?_
  rw [hserve]
  exact Prog.run_preserves _ (fun op _ s hs => hcall x.request op s hs) (Prog.uses_true _) hbefore

/-- What holds at the start and survives the turns before one holds before it. -/
theorem Runs.invariant_upto {I : σ → Prop} (h : S.Runs s₀ turns s) {i : Nat}
    {x : Turn ε ι Res α σ} (hi : turns[i]? = some x) (h₀ : I s₀)
    (hturn : ∀ m y, m < i → turns[m]? = some y → y = S.serve y.before y.request →
      I y.before → I y.after) : I x.before := by
  refine (h.getElem? hi).1.invariant h₀ fun y hy => ?_
  obtain ⟨m, hm⟩ := List.mem_iff_getElem?.mp hy
  have hlt := (List.getElem?_eq_some_iff.mp hm).1
  rw [List.length_take] at hlt
  have hmi : m < i := by omega
  rw [List.getElem?_take_of_lt hmi] at hm
  exact hturn m y hmi hm

/-- What holds after a turn and survives the later ones holds from then on. -/
theorem Runs.invariant_after {I : σ → Prop} (h : S.Runs s₀ turns s) {i : Nat}
    {x : Turn ε ι Res α σ} (hi : turns[i]? = some x) (hx : I x.after)
    (hturn : ∀ m y, i < m → turns[m]? = some y → y = S.serve y.before y.request →
      I y.before → I y.after) : I s := by
  refine (h.getElem? hi).2.2.invariant hx fun y hy => ?_
  obtain ⟨n, hn⟩ := List.mem_iff_getElem?.mp hy
  rw [List.getElem?_drop] at hn
  exact hturn _ y (by omega) hn

/-- What holds after a turn and survives those between holds before a later one. -/
theorem Runs.invariant_between {I : σ → Prop} (h : S.Runs s₀ turns s) {i j : Nat}
    {x y : Turn ε ι Res α σ} (hij : i < j) (hi : turns[i]? = some x) (hj : turns[j]? = some y)
    (hx : I x.after) (hturn : ∀ m z, i < m → m < j → turns[m]? = some z →
      z = S.serve z.before z.request → I z.before → I z.after) : I y.before := by
  have htake : (turns.take j)[i]? = some x := by
    rw [List.getElem?_take_of_lt hij]
    exact hi
  refine (h.getElem? hj).1.invariant_after htake hx fun m z hm hz => ?_
  have hlt := (List.getElem?_eq_some_iff.mp hz).1
  rw [List.length_take] at hlt
  have hmj : m < j := by omega
  rw [List.getElem?_take_of_lt hmj] at hz
  exact hturn m z hm hmj hz

end Service

/-! ## Runs as interleavings -/

/-- The request of a turn, when it is over. -/
def Turn.thread {ε ι Op α σ : Type} {Res : Op → Type} (x : Turn ε ι Res α σ) :
    Thread ε ι Res α := ⟨x.request, Prog.ofExcept x.result⟩

namespace Service

variable {ε ι Op α σ : Type} {Res : Op → Type} {S : Service ε ι Res α σ}

private theorem calls_map (cs : List ((op : Op) × Res op)) (n i : Nat) :
    calls (cs.map fun c => (⟨n, c.1, c.2⟩ : Entry Res)) i = if n = i then cs else [] := by
  simp only [calls, List.filterMap_map, Function.comp_def]
  split
  · exact List.filterMap_some
  · exact List.filterMap_eq_nil_iff.mpr fun _ _ => rfl

private theorem set_getElem?_self {α : Type} {l : List α} {n : Nat} {a : α}
    (h : l[n]? = some a) : l.set n a = l := by
  obtain ⟨hlt, rfl⟩ := List.getElem?_eq_some_iff.mp h
  exact List.set_getElem_self hlt

/-- A request that is left alone runs to its end. -/
theorem exists_leads_to_end {p : Pool ε ι Res α σ} {n : Nat} {r : ι} {body : Prog ε Res α}
    (hn : p.threads[n]? = some ⟨r, body⟩) :
    ∃ q, S.Leads Unguarded p q ∧ q.state = (body.run (S.handler r) p.state).2 ∧
      q.threads = p.threads.set n ⟨r, Prog.ofExcept (body.run (S.handler r) p.state).1⟩ ∧
      q.log = p.log ++ (body.trace (S.handler r) p.state).map fun c => ⟨n, c.1, c.2⟩ := by
  induction body generalizing p with
  | done a =>
    exact ⟨p, Relation.ReflTransGen.refl, rfl, (set_getElem?_self hn).symm,
      (List.append_nil _).symm⟩
  | raise e =>
    exact ⟨p, Relation.ReflTransGen.refl, rfl, (set_getElem?_self hn).symm,
      (List.append_nil _).symm⟩
  | call op next ih =>
    have hlt := (List.getElem?_eq_some_iff.mp hn).1
    have hmove : S.move p (.advance n) = ⟨(S.handler r op p.state).2,
        p.threads.set n ⟨r, next (S.handler r op p.state).1⟩,
        p.log ++ [⟨n, op, (S.handler r op p.state).1⟩]⟩ := by
      simp only [Service.move, hn]
    have hthread : (S.move p (.advance n)).threads[n]? =
        some ⟨r, next (S.handler r op p.state).1⟩ := by
      rw [hmove]
      exact List.getElem?_set_self hlt
    obtain ⟨q, hq, hstate, hthreads, hlog⟩ := ih _ hthread
    rw [hmove] at hstate hthreads hlog
    refine ⟨q, Relation.ReflTransGen.head ⟨_, trivial, rfl⟩ hq, hstate, ?_, ?_⟩
    · rw [hthreads]
      exact List.set_set _
    · rw [hlog, List.append_assoc]
      rfl

/-- A run is an interleaving that leaves every request alone until it is over. -/
theorem Runs.leads {s₀ s s' : σ} {turns : List (Turn ε ι Res α σ)} {p : Pool ε ι Res α σ}
    (h : S.Runs s turns s') (hp : S.Leads Unguarded (fresh s₀) p) (hs : p.state = s) :
    ∃ q, S.Leads Unguarded p q ∧ q.state = s' ∧
      q.threads = p.threads ++ turns.map Turn.thread ∧
      ∀ i x, turns[i]? = some x → calls q.log (p.threads.length + i) = x.calls := by
  induction h with
  | nil => exact ⟨p, Relation.ReflTransGen.refl, hs, (List.append_nil _).symm, by simp⟩
  | @snoc turns t h r ih =>
    obtain ⟨q, hq, rfl, hthreads, hcalls⟩ := ih
    have hlen : q.threads.length = p.threads.length + turns.length := by simp [hthreads]
    let u := S.move q (.start r)
    have hu : u.threads[q.threads.length]? = some ⟨r, S.body r⟩ :=
      List.getElem?_concat_length
    obtain ⟨v, hv, hstate, hvthreads, hvlog⟩ := exists_leads_to_end (S := S) hu
    refine ⟨v, hq.trans (Relation.ReflTransGen.head ⟨_, trivial, rfl⟩ hv), hstate, ?_, ?_⟩
    · rw [hvthreads, List.map_append, ← List.append_assoc, ← hthreads]
      simp only [u, Service.move]
      rw [List.set_append_right _ _ (Nat.le_refl _), Nat.sub_self]
      rfl
    · intro i x hi
      rw [hvlog, calls_append, calls_map, hlen]
      change calls q.log _ ++ _ = _
      rcases Nat.lt_trichotomy i turns.length with hlt | rfl | hgt
      · rw [List.getElem?_append_left hlt] at hi
        rw [hcalls i x hi, if_neg (by omega), List.append_nil]
      · rw [List.getElem?_concat_length, Option.some.injEq] at hi
        subst hi
        rw [if_pos rfl, (hp.trans hq).calls_eq_nil (by omega), List.nil_append]
        rfl
      · have := (List.getElem?_eq_some_iff.mp hi).1
        rw [List.length_append, List.length_singleton] at this
        omega

end Service

end Atomic
