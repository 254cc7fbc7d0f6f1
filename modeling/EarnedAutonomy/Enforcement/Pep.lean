import EarnedAutonomy.Core.World

/-!
# The policy enforcement point

`enforcement/pep.py`: the action runs only after the presented token was
verified against it.  The outcome of the action, a value or an exception, is an
argument.
-/

namespace EarnedAutonomy

open Atomic

structure ExecutionResult where
  allowed : Bool
  reason : PyStr
  tokenId : Option String
  output : PyVal := .none

variable {P : Primitives}

/-- `PolicyEnforcementPoint.execute`, without an event sink. -/
def CapabilityService.execute (svc : CapabilityService P) (token : Option CapabilityToken)
    (action : CapabilityService.Action) (outcome : Except String PyVal) :
    CpProg ExecutionResult :=
  match token with
  | none => return ⟨false, "no capability token presented", none, .none⟩
  | some t => do
      let result ← liftCap (svc.verifyForAction t action)
      if !result.ok then return ⟨false, result.reason, result.tokenId, .none⟩
      else
        call (.invoke ⟨t, action.agentId, action.workflowId, action.authorityClass⟩)
        match outcome with
        | .ok output => return ⟨true, "executed under valid capability", result.tokenId, output⟩
        | .error message => .raise (.actionError message)

end EarnedAutonomy
