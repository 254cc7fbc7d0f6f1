import EarnedAutonomy.Core.StoreSteps

/-!
# Separation of duties

No active delegation rule of a consequential class was approved by the owner of
its agent.  `approve_delegation_rule` looks the owner up when it is called, so
the invariant holds as long as an agent that was not registered then is not
registered later by the person who approved the rule
(`duties_stay_separated`).  `owner_approves_before_registering` is a run in
which it is.
-/

namespace EarnedAutonomy

open Atomic Service Store LawfulStore

section

variable {P : Primitives} {F : Type} {S C L : Type} [Store S]

/-- No active rule of a consequential class was approved by its agent's owner. -/
def DutiesSeparated (s : S) : Prop :=
  ∀ r, getRule r.ruleId s = some r → r.active = true →
    requiresSeparationOfDuties r.authorityClass = true →
    ∀ agent, getAgent r.agentId s = some agent → r.createdBy ≠ some agent.ownerId

/-- The agent that a command registers, and its owner.  Outside strict mode a
proposal registers an agent it does not know. -/
def ControlPlane.registration? (cp : ControlPlane P F) (s : S) :
    Command → Option (String × String)
  | .registerAgent agent =>
      if cp.config.strictMode && !present agent.publicKeyHex then none
      else some (agent.agentId, agent.ownerId)
  | .proposeEvent e =>
      if cp.config.strictMode || (getAgent e.agentId s).isSome then none
      else some (e.agentId, e.humanOwnerId)
  | _ => none

/-- The command registers no agent under another owner than it has. -/
def ControlPlane.KeepsOwners (cp : ControlPlane P F) (s : S) (cmd : Command) : Prop :=
  ∀ agentId ownerId, cp.registration? s cmd = some (agentId, ownerId) →
    ∀ agent, getAgent agentId s = some agent → agent.ownerId = ownerId

/-- The command registers no unknown agent whose owner has approved an active
rule of a consequential class for it. -/
def ControlPlane.RegistersNoApprover (cp : ControlPlane P F) (s : S) (cmd : Command) : Prop :=
  ∀ agentId ownerId, cp.registration? s cmd = some (agentId, ownerId) →
    getAgent agentId s = none →
    ∀ r, getRule r.ruleId s = some r → r.agentId = agentId → r.active = true →
      requiresSeparationOfDuties r.authorityClass = true → r.createdBy ≠ some ownerId

end

/-! ## The invariant of the store -/

namespace StoreView

/-- `DutiesSeparated`, of the contents of a store. -/
private def Separated (v : StoreView) : Prop :=
  ∀ r, v.rules r.ruleId = some r → r.active = true →
    requiresSeparationOfDuties r.authorityClass = true →
    ∀ agent, v.agents r.agentId = some agent → r.createdBy ≠ some agent.ownerId

private theorem Separated.setAgent {v : StoreView} (h : v.Separated) {agent : AgentIdentity}
    (hagent : ∀ r, v.rules r.ruleId = some r → r.agentId = agent.agentId → r.active = true →
      requiresSeparationOfDuties r.authorityClass = true → r.createdBy ≠ some agent.ownerId) :
    (v.setAgent agent).Separated := by
  intro r hr hactive hclass g hg
  rw [agents_setAgent] at hg
  split at hg
  · rename_i hid
    cases hg
    exact hagent r hr hid hactive hclass
  · exact h r hr hactive hclass g hg

private theorem Separated.setRule {v : StoreView} (h : v.Separated) {rule : DelegationRule}
    (hrule : rule.active = true → requiresSeparationOfDuties rule.authorityClass = true →
      ∀ agent, v.agents rule.agentId = some agent → rule.createdBy ≠ some agent.ownerId) :
    (v.setRule rule).Separated := by
  intro r hr hactive hclass g hg
  rw [rules_setRule] at hr
  split at hr
  · cases hr
    exact hrule hactive hclass g hg
  · exact h r hr hactive hclass g hg

end StoreView

section

variable {P : Primitives} {F : Type} {cp : ControlPlane P F} {cmd : Command}
variable {S C L : Type} [Store S] [LawfulStore S]

/-- The commands that register agents leave the rules. -/
private theorem rules_of_registration {s : S} {p : String × String}
    (hcmd : cp.registration? s cmd = some p) {u u' : StoreView}
    (h : StoreStep S cp cmd u u') : u'.rules = u.rules := by
  cases h with
  | approve _ | revoke _ | lower _ _ | close _ => cases hcmd
  | register _ | autoRegister _ _ | claim | storeEvent _ => rfl

/-- An agent that is registered stays registered. -/
private theorem StoreStep.agents_isSome {u u' : StoreView} (h : StoreStep S cp cmd u u')
    {i : String} (hi : (u.agents i).isSome) : (u'.agents i).isSome := by
  have hset : ∀ agent, ((u.setAgent agent).agents i).isSome := by
    intro agent
    rw [StoreView.agents_setAgent]
    split
    · rfl
    · exact hi
  cases h with
  | register _ | autoRegister _ _ | lower _ _ => exact hset _
  | claim | storeEvent _ | approve _ | revoke _ | close _ => exact hi

/-- A registration under the owner an agent has, or of an agent for which its
owner has approved nothing, keeps the duties separated. -/
private theorem separated_of_registration {s : S} {agentId ownerId : String}
    (hreg : cp.registration? s cmd = some (agentId, ownerId)) (howner : cp.KeepsOwners s cmd)
    (hsafe : cp.RegistersNoApprover s cmd) (hs : (view s).Separated) {u : StoreView}
    (hu : u.Separated) (hrules : u.rules = (view s).rules) {agent : AgentIdentity}
    (hid : agent.agentId = agentId) (hown : agent.ownerId = ownerId) :
    (u.setAgent agent).Separated := by
  refine hu.setAgent fun r hr hagent hactive hclass => ?_
  rw [hrules] at hr
  rw [hid] at hagent
  rw [hown]
  cases hfound : getAgent agentId s with
  | none =>
    rw [← getRule_eq] at hr
    exact hsafe agentId ownerId hreg hfound r hr hagent hactive hclass
  | some old =>
    rw [← howner agentId ownerId hreg old hfound]
    rw [getAgent_eq, ← hagent] at hfound
    exact hs r hr hactive hclass old hfound

/-- A command that registers within these limits keeps the duties separated. -/
private theorem separated_of_storeSteps {s : S} {v' : StoreView}
    (h : StoreSteps S cp cmd (view s) v') (howner : cp.KeepsOwners s cmd)
    (hsafe : cp.RegistersNoApprover s cmd) (hs : (view s).Separated) (hkeyed : (view s).Keyed) :
    v'.Separated ∧ v'.Keyed := by
  have hinv := h.invariant (I := fun u => u.Separated ∧ u.Keyed ∧
      ((cp.registration? s cmd).isSome → u.rules = (view s).rules) ∧
      ∀ i, ((view s).agents i).isSome → (u.agents i).isSome)
    (fun u u' hstep hu => ?_) ⟨hs, hkeyed, fun _ => rfl, fun _ h => h⟩
  · exact ⟨hinv.1, hinv.2.1⟩
  obtain ⟨hsep, hkey, hrules, hknown⟩ := hu
  refine ⟨?_, hstep.keyed hkey, fun hreg => ?_, fun i hi => hstep.agents_isSome (hknown i hi)⟩
  · cases hstep with
    | register hpresent =>
      rename_i agent
      have hreg : cp.registration? s (.registerAgent agent) =
          some (agent.agentId, agent.ownerId) := by
        simpa [ControlPlane.registration?] using hpresent
      exact separated_of_registration hreg howner hsafe hs hsep (hrules (by rw [hreg]; rfl))
        (agentId_kept agent) (ownerId_kept agent)
    | autoRegister hstrict hunknown =>
      rename_i e now
      have hnone : getAgent e.agentId s = none := by
        rw [getAgent_eq, ← Option.not_isSome_iff_eq_none]
        intro hsome
        have := hknown _ hsome
        rw [hunknown] at this
        cases this
      have hreg : cp.registration? s (.proposeEvent e) = some (e.agentId, e.humanOwnerId) := by
        simp [ControlPlane.registration?, hstrict, hnone]
      exact separated_of_registration hreg howner hsafe hs hsep (hrules (by rw [hreg]; rfl))
        (agentId_kept _) (ownerId_kept _)
    | claim => exact hsep
    | storeEvent _ => exact hsep
    | approve hduties =>
      rename_i rule approverId role
      obtain ⟨hagent, _, hclass⟩ := ruleScope_kept (S := S)
        { rule with createdBy := some approverId }
      refine hsep.setRule fun _ hsod agent hfound => ?_
      rw [hclass] at hsod
      rw [hagent] at hfound
      rw [createdBy_kept]
      simpa using hduties hsod agent hfound
    | revoke hinactive =>
      refine hsep.setRule fun hactive => ?_
      rw [hinactive] at hactive
      cases hactive
    | lower hold hnew =>
      rename_i a w c reason actorId old new
      refine hsep.setAgent fun r hr hagent hactive hclass => ?_
      rw [hnew.ownerId]
      refine hsep r hr hactive hclass old ?_
      rw [hagent, hnew.agentId, hkey _ _ hold]
      exact hold
    | close hinactive =>
      refine hsep.setRule fun hactive => ?_
      rw [hinactive] at hactive
      cases hactive
  · obtain ⟨p, hp⟩ := Option.isSome_iff_exists.mp hreg
    exact (rules_of_registration hp hstep).trans (hrules hreg)

variable [CapabilityStateStore C] [AuditLog L] [Arithmetic F]

/-- In every run that registers no agent under a new owner, and none by the one
who approved a rule for it before, duties stay separated. -/
theorem duties_stay_separated {o : Oracle}
    {turns : List (Turn PyError (Nat × Command) Res (Answer F) (World S C L))} {w : World S C L}
    (h : (cp.system o).Runs (World.initial S C L) turns w)
    (howner : ∀ x ∈ turns, cp.KeepsOwners x.before.store x.request.2)
    (hsafe : ∀ x ∈ turns, cp.RegistersNoApprover x.before.store x.request.2) :
    DutiesSeparated w.store := by
  have hinv := h.invariant (I := fun w => (view w.store).Separated ∧ (view w.store).Keyed)
    (by
      have hempty : view (World.initial S C L).store = .empty := view_empty
      rw [hempty]
      exact ⟨fun _ hr => (nomatch hr), StoreView.keyed_empty⟩)
    (fun x hx hserve hbefore => ?_)
  · intro r hr hactive hclass agent hagent
    rw [getRule_eq] at hr
    rw [getAgent_eq] at hagent
    exact hinv.1 r hr hactive hclass agent hagent
  · exact separated_of_storeSteps (storeSteps_of_serve hserve) (howner x hx) (hsafe x hx)
      hbefore.1 hbefore.2

end

/-! ### Two runs -/

/-- Register the agent, then let a second person approve a rule for it. -/
def secondPersonDemo : List (Nat × Command) :=
  [(0, .registerAgent demoAgent),
    (0, .approveDelegationRule (demoRule .deleteData .executeWithApproval) "approver" none)]

theorem second_person_approves :
    let w : SqlWorld := demoSystem.final (World.initial _ _ _) secondPersonDemo
    (getRule "rule_1" w.store).map DelegationRule.active = some true ∧
      DutiesSeparated w.store := by
  refine ⟨rfl, duties_stay_separated (runs_history _ _) ?_ ?_⟩
  · refine forall_mem_history_cons ?_ (forall_mem_history_cons ?_ forall_mem_history_nil)
    · exact fun _ _ _ _ hagent => by cases hagent
    · exact fun _ _ hreg => by cases hreg
  · refine forall_mem_history_cons ?_ (forall_mem_history_cons ?_ forall_mem_history_nil)
    · exact fun _ _ _ _ _ hrule => by cases hrule
    · exact fun _ _ hreg => by cases hreg

/-- Let the owner approve the rule, then register the agent. -/
def ownerFirstDemo : List (Nat × Command) :=
  [(0, .approveDelegationRule (demoRule .deleteData .executeWithApproval) "owner" none),
    (0, .registerAgent demoAgent)]

/-- The owner check is skipped while the agent is unknown, and the rule is in
force when the agent is registered. -/
theorem owner_approves_before_registering :
    let turns := demoSystem.history (World.initial _ _ _) ownerFirstDemo
    let w : SqlWorld := demoSystem.final (World.initial _ _ _) ownerFirstDemo
    demoSystem.Runs (World.initial _ _ _) turns w ∧
      (∀ x ∈ turns, demoPlane.KeepsOwners x.before.store x.request.2) ∧
      ¬ DutiesSeparated w.store := by
  refine ⟨runs_history _ _, ?_, fun h => ?_⟩
  · refine forall_mem_history_cons ?_ (forall_mem_history_cons ?_ forall_mem_history_nil)
    · exact fun _ _ hreg => nomatch hreg
    · exact fun _ _ _ _ hagent => nomatch hagent
  · exact h { demoRule .deleteData .executeWithApproval with createdBy := some "owner" } rfl rfl
      rfl demoAgent rfl rfl

end EarnedAutonomy
