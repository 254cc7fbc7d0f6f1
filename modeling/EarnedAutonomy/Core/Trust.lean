import EarnedAutonomy.Core.Models
import EarnedAutonomy.Python.Arithmetic

/-!
# Trust statistics

`core/trust.py` and the `TrustStats` of `core/models.py`: the history of
decisions and incidents for each agent, workflow and authority class, and the
lower bound on the clean-approval rate that is computed from it.

`DelegationMemory` lives in the process.  The times it stamps its entries with
are arguments here, one for a fresh entry and one for the update.
-/

namespace EarnedAutonomy

open OrderedDict

/-! ## The statistics of one key -/

section

variable {F : Type} [Arithmetic F]

open Arithmetic

/-- `wilson_lower_bound`, with `z = 1.96` -/
def wilsonLowerBound (successes n : Nat) : F :=
  if n = 0 then ofNat 0
  else
    let z : F := decimal 196 2
    let phat : F := ratio successes n
    let denom := add (ofNat 1) (div (mul z z) (ofNat n))
    let centre := add phat (div (mul z z) (ofNat (2 * n)))
    let margin := mul z (sqrt (div (add (mul phat (sub (ofNat 1) phat))
      (div (mul z z) (ofNat (4 * n)))) (ofNat n)))
    let bound := div (sub centre margin) denom
    if lt (ofNat 0) bound then bound else ofNat 0

end

/-- What is known about one agent in one workflow and authority class. -/
structure TrustStats where
  agentId : String
  workflowId : String
  authorityClass : AuthorityClass
  cleanApprovals : Nat := 0
  modifiedApprovals : Nat := 0
  rejections : Nat := 0
  escalations : Nat := 0
  evidenceRequests : Nat := 0
  incidents : Nat := 0
  samplesReviewed : Nat := 0
  decidedEventIds : List String := []
  lastUpdated : String
  deriving DecidableEq

namespace TrustStats

def totalDecisions (s : TrustStats) : Nat :=
  s.cleanApprovals + s.modifiedApprovals + s.rejections + s.escalations + s.evidenceRequests

section

variable {F : Type} [Arithmetic F]

open Arithmetic

/-- A share of the decisions, 0 before the first one. -/
def rate (s : TrustStats) (count : Nat) : F :=
  if s.totalDecisions = 0 then ofNat 0 else ratio count s.totalDecisions

def cleanApprovalRate (s : TrustStats) : F := s.rate s.cleanApprovals

def cleanApprovalLowerBound (s : TrustStats) : F :=
  wilsonLowerBound s.cleanApprovals s.totalDecisions

def editRate (s : TrustStats) : F := s.rate s.modifiedApprovals

def rejectionRate (s : TrustStats) : F := s.rate s.rejections

/-- The denominator is at least 1 by then. -/
def incidentRate (s : TrustStats) : F := s.rate s.incidents

variable (F) in
def toDict (s : TrustStats) : PyVal :=
  .dict [
    ("agent_id", .text s.agentId),
    ("workflow_id", .text s.workflowId),
    ("authority_class", .text s.authorityClass.value),
    ("clean_approvals", .int s.cleanApprovals),
    ("modified_approvals", .int s.modifiedApprovals),
    ("rejections", .int s.rejections),
    ("escalations", .int s.escalations),
    ("evidence_requests", .int s.evidenceRequests),
    ("incidents", .int s.incidents),
    ("samples_reviewed", .int s.samplesReviewed),
    ("total_decisions", .int s.totalDecisions),
    ("clean_approval_rate", .float (toFloat (s.cleanApprovalRate : F))),
    ("clean_approval_lower_bound", .float (toFloat (s.cleanApprovalLowerBound : F))),
    ("edit_rate", .float (toFloat (s.editRate : F))),
    ("rejection_rate", .float (toFloat (s.rejectionRate : F))),
    ("incident_rate", .float (toFloat (s.incidentRate : F))),
    ("last_updated", .text s.lastUpdated)]

end

/-- Count one decision under its outcome. -/
def count (s : TrustStats) : ApprovalOutcome → TrustStats
  | .approved => { s with cleanApprovals := s.cleanApprovals + 1 }
  | .convertedToDelegationRule => { s with cleanApprovals := s.cleanApprovals + 1 }
  | .modifiedAndApproved => { s with modifiedApprovals := s.modifiedApprovals + 1 }
  | .rejected => { s with rejections := s.rejections + 1 }
  | .escalated => { s with escalations := s.escalations + 1 }
  | .moreEvidenceRequested => { s with evidenceRequests := s.evidenceRequests + 1 }

/-- One more event is decided. -/
def decide (s : TrustStats) (eventId : String) (outcome : ApprovalOutcome) (now : String) :
    TrustStats :=
  { s.count outcome with
    decidedEventIds := s.decidedEventIds ++ [eventId]
    lastUpdated := now }

@[simp] theorem totalDecisions_decide (s : TrustStats) (eventId : String)
    (outcome : ApprovalOutcome) (now : String) :
    (s.decide eventId outcome now).totalDecisions = s.totalDecisions + 1 := by
  cases outcome <;> simp only [decide, count, totalDecisions] <;> omega

@[simp] theorem incidents_decide (s : TrustStats) (eventId : String)
    (outcome : ApprovalOutcome) (now : String) :
    (s.decide eventId outcome now).incidents = s.incidents := by
  cases outcome <;> rfl

@[simp] theorem decidedEventIds_decide (s : TrustStats) (eventId : String)
    (outcome : ApprovalOutcome) (now : String) :
    (s.decide eventId outcome now).decidedEventIds = s.decidedEventIds ++ [eventId] := rfl

end TrustStats

/-- The counters that decisions and incidents move. -/
inductive TrustCounter where
  | cleanApprovals
  | modifiedApprovals
  | rejections
  | escalations
  | evidenceRequests
  | incidents
  deriving DecidableEq

def TrustStats.counter (s : TrustStats) : TrustCounter → Nat
  | .cleanApprovals => s.cleanApprovals
  | .modifiedApprovals => s.modifiedApprovals
  | .rejections => s.rejections
  | .escalations => s.escalations
  | .evidenceRequests => s.evidenceRequests
  | .incidents => s.incidents

/-- The counter that a decision moves. -/
def ApprovalOutcome.counter : ApprovalOutcome → TrustCounter
  | .approved => .cleanApprovals
  | .convertedToDelegationRule => .cleanApprovals
  | .modifiedAndApproved => .modifiedApprovals
  | .rejected => .rejections
  | .escalated => .escalations
  | .moreEvidenceRequested => .evidenceRequests

@[simp] theorem TrustStats.counter_decide (s : TrustStats) (eventId : String)
    (outcome : ApprovalOutcome) (now : String) (c : TrustCounter) :
    (s.decide eventId outcome now).counter c =
      s.counter c + if outcome.counter = c then 1 else 0 := by
  cases outcome <;> cases c <;> rfl

/-! ## Delegation memory -/

/-- The key of the statistics. -/
abbrev StatsKey := String × String × String

/-- `DelegationMemory` -/
structure DelegationMemory where
  stats : Dict StatsKey TrustStats := []

namespace DelegationMemory

def key (agentId workflowId : String) (authorityClass : AuthorityClass) : StatsKey :=
  (agentId, workflowId, authorityClass.value)

/-- The entry of a key, if there is one. -/
def find? (m : DelegationMemory) (agentId workflowId : String)
    (authorityClass : AuthorityClass) : Option TrustStats :=
  Dict.get? m.stats (key agentId workflowId authorityClass)

/-- Store an entry. -/
def put (m : DelegationMemory) (agentId workflowId : String) (authorityClass : AuthorityClass)
    (s : TrustStats) : DelegationMemory :=
  ⟨Dict.set m.stats (key agentId workflowId authorityClass) s⟩

theorem find?_put (m : DelegationMemory) (a w : String) (c : AuthorityClass) (s : TrustStats)
    (a' w' : String) (c' : AuthorityClass) :
    (m.put a w c s).find? a' w' c' =
      if a = a' ∧ w = w' ∧ c = c' then some s else m.find? a' w' c' := by
  have hkey : key a w c = key a' w' c' ↔ a = a' ∧ w = w' ∧ c = c' := by
    simp only [key, Prod.mk.injEq]
    refine and_congr_right fun _ => and_congr_right fun _ => ?_
    exact ⟨AuthorityClass.value_injective, congrArg _⟩
  simp only [find?, put, Dict.get?_set, hkey]

/-- `get`: the entry of a key, which is stored when it is new. -/
def get (m : DelegationMemory) (agentId workflowId : String) (authorityClass : AuthorityClass)
    (now : String) : TrustStats × DelegationMemory :=
  match m.find? agentId workflowId authorityClass with
  | some s => (s, m)
  | none =>
      let s : TrustStats := {
        agentId := agentId
        workflowId := workflowId
        authorityClass := authorityClass
        lastUpdated := now }
      (s, m.put agentId workflowId authorityClass s)

/-- `apply_decision` -/
def applyDecision (m : DelegationMemory) (agentId workflowId : String)
    (authorityClass : AuthorityClass) (decision : ApprovalDecision) (created now : String) :
    Except PyError TrustStats × DelegationMemory :=
  let (s, m) := m.get agentId workflowId authorityClass created
  if decision.eventId ∈ s.decidedEventIds then
    (.error (.replayError ("event " ++ decision.eventId ++
      " already has a terminal decision; refusing to double-count")), m)
  else
    let s := s.decide decision.eventId decision.outcome now
    (.ok s, m.put agentId workflowId authorityClass s)

/-- `record_incident` -/
def recordIncident (m : DelegationMemory) (agentId workflowId : String)
    (authorityClass : AuthorityClass) (created now : String) : TrustStats × DelegationMemory :=
  let (s, m) := m.get agentId workflowId authorityClass created
  let s := { s with incidents := s.incidents + 1, lastUpdated := now }
  (s, m.put agentId workflowId authorityClass s)

/-! ## What each operation leaves -/

/-- The entry a `get` answers with is the one it leaves. -/
@[simp] theorem find?_get (m : DelegationMemory) (a w : String) (c : AuthorityClass)
    (now : String) : (m.get a w c now).2.find? a w c = some (m.get a w c now).1 := by
  unfold get
  cases h : m.find? a w c with
  | some s => exact h
  | none => simp [find?_put]

/-- A `get` adds at most an empty entry under its key. -/
theorem find?_get_ne (m : DelegationMemory) (a w : String) (c : AuthorityClass) (now : String)
    {a' w' : String} {c' : AuthorityClass} (h : ¬ (a = a' ∧ w = w' ∧ c = c')) :
    (m.get a w c now).2.find? a' w' c' = m.find? a' w' c' := by
  unfold get
  cases m.find? a w c with
  | some s => rfl
  | none => simp [find?_put, h]

/-- A counter of a key, 0 where there is no entry. -/
def counter (m : DelegationMemory) (k : StatsKey) (c : TrustCounter) : Nat :=
  ((Dict.get? m.stats k).map fun s => s.counter c).getD 0

/-- The events that are decided under a key. -/
def decided (m : DelegationMemory) (k : StatsKey) : List String :=
  ((Dict.get? m.stats k).map TrustStats.decidedEventIds).getD []

variable (m : DelegationMemory) (a w : String) (cl : AuthorityClass) (now : String)

theorem counter_put (s : TrustStats) (k : StatsKey) (c : TrustCounter) :
    (m.put a w cl s).counter k c = if key a w cl = k then s.counter c else m.counter k c := by
  simp only [counter, put, Dict.get?_set]
  split <;> rfl

theorem decided_put (s : TrustStats) (k : StatsKey) :
    (m.put a w cl s).decided k = if key a w cl = k then s.decidedEventIds else m.decided k := by
  simp only [decided, put, Dict.get?_set]
  split <;> rfl

/-- A `get` answers with what is counted. -/
theorem counter_get_fst (c : TrustCounter) :
    (m.get a w cl now).1.counter c = m.counter (key a w cl) c := by
  unfold get find? counter
  cases Dict.get? m.stats (key a w cl) with
  | some s => rfl
  | none => cases c <;> rfl

/-- It counts nothing. -/
@[simp] theorem counter_get_snd (k : StatsKey) (c : TrustCounter) :
    (m.get a w cl now).2.counter k c = m.counter k c := by
  have hanswer := counter_get_fst m a w cl now c
  unfold get find? at hanswer ⊢
  cases hfound : Dict.get? m.stats (key a w cl) with
  | some s => rfl
  | none =>
    rw [hfound] at hanswer
    dsimp only at hanswer ⊢
    rw [counter_put, hanswer]
    split
    · rename_i hkey
      rw [hkey]
    · rfl

theorem decided_get_fst :
    (m.get a w cl now).1.decidedEventIds = m.decided (key a w cl) := by
  unfold get find? decided
  cases Dict.get? m.stats (key a w cl) with
  | some s => rfl
  | none => rfl

@[simp] theorem decided_get_snd (k : StatsKey) :
    (m.get a w cl now).2.decided k = m.decided k := by
  have hanswer := decided_get_fst m a w cl now
  unfold get find? at hanswer ⊢
  cases hfound : Dict.get? m.stats (key a w cl) with
  | some s => rfl
  | none =>
    rw [hfound] at hanswer
    dsimp only at hanswer ⊢
    rw [decided_put, hanswer]
    split
    · rename_i hkey
      rw [hkey]
    · rfl

theorem counter_recordIncident (created : String) (k : StatsKey) (c : TrustCounter) :
    (m.recordIncident a w cl created now).2.counter k c =
      m.counter k c + if key a w cl = k ∧ c = .incidents then 1 else 0 := by
  unfold recordIncident
  dsimp only
  rw [counter_put, counter_get_snd]
  by_cases hkey : key a w cl = k
  · subst hkey
    rw [if_pos rfl, ← counter_get_fst m a w cl created c]
    cases c <;> simp [TrustStats.counter]
  · rw [if_neg hkey, if_neg fun h => hkey h.1]
    rfl

@[simp] theorem decided_recordIncident (created : String) (k : StatsKey) :
    (m.recordIncident a w cl created now).2.decided k = m.decided k := by
  unfold recordIncident
  dsimp only
  rw [decided_put, decided_get_snd, decided_get_fst]
  split
  · rename_i hkey
    rw [hkey]
  · rfl

/-- What one decision does to a memory, and the memory after it. -/
theorem applyDecision_cases (d : ApprovalDecision) (created : String) :
    (d.eventId ∈ m.decided (key a w cl) ∧ ∃ err,
        m.applyDecision a w cl d created now = (.error err, (m.get a w cl created).2)) ∨
      d.eventId ∉ m.decided (key a w cl) ∧ ∃ s,
        s = (m.get a w cl created).1.decide d.eventId d.outcome now ∧
        m.applyDecision a w cl d created now =
          (.ok s, (m.get a w cl created).2.put a w cl s) := by
  rw [← m.decided_get_fst a w cl created]
  unfold applyDecision
  dsimp only
  split
  · rename_i hdecided
    exact Or.inl ⟨hdecided, _, rfl⟩
  · rename_i hdecided
    exact Or.inr ⟨hdecided, _, rfl, rfl⟩

end DelegationMemory

end EarnedAutonomy
