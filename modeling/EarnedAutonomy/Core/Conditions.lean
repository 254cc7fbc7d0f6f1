import EarnedAutonomy.Core.Models

/-!
# Guards of delegation rules

The named predicates of `core/conditions.py`.  A rule grants autonomy only if
none of the guards it lists fires.  A name without a predicate counts as fired.
-/

namespace EarnedAutonomy

open OrderedDict

/-- `event.confidence < 0.7` -/
def lowConfidenceThreshold : PyFloat := .exact 3152519739159347 52

/-- The agent names approved workflows and this is none of them.  The entry is
read from the metadata of the event. -/
def outsideKnownWorkflow (e : WorkflowEvent) : Except PyError Bool := do
  let approved := (Dict.get? e.metadata "_approved_workflows").getD (.list [])
  if approved.truthy then
    return !(← approved.containsText e.workflowId)
  else return false

/-- `GUARDS` -/
def guard? (name : String) : Option (WorkflowEvent → Except PyError Bool) :=
  if name = "missing_source_evidence" then some fun e => .ok e.evidence.isEmpty
  else if name = "low_confidence" then
    some fun e => .ok (e.confidence.lt lowConfidenceThreshold)
  else if name = "outside_known_workflow" then some outsideKnownWorkflow
  else if name = "external_effect" then some fun e => .ok (e.meta? "external_effect").isTrue
  else if name = "irreversible" then some fun e => .ok (e.meta? "irreversible").isTrue
  else if name = "anomaly_detected" then some fun e => .ok (e.meta? "anomaly").isTrue
  else if name = "policy_boundary_matched" then
    some fun e => .ok (e.meta? "_policy_boundary_matched").isTrue
  else none

/-- The names that fired, in the order they are listed. -/
def evaluateGuards (predicates : List String) (e : WorkflowEvent) :
    Except PyError (List String) :=
  match predicates with
  | [] => .ok []
  | name :: rest => do
      let fired ← match guard? name with
        | none => pure [name ++ ":unknown_guard_fail_closed"]
        | some fn => do
            if ← fn e then pure [name] else pure []
      return fired ++ (← evaluateGuards rest e)

end EarnedAutonomy
