import AgentHub.Lib.JsonText
import AgentHub.Lib.Sorting

/-!
# Trajectories of evaluated runs

A trajectory lists the calls of a run: what was proposed, what was executed as a tool, and what was
executed as an action. Actions are read from the steps of the run; an action without a step is taken
from its approval, which is the authoritative record of an execution. Whether a run with an unknown
outcome is treated as such is then judged by the status of the calls.

An approval is left out when a recorded call has its signature, whichever action that call was.

## Main definitions

* `callsForKind`, `approvalActionCalls`: the calls of the steps and of the approvals
* `buildTrajectoryObservation`: the observation
* `executionSafety`: what is judged from it
* `Recorded`, `Shadowed`: the two reasons for which an approval gives no call

## Main results

* `mem_approvalActionCalls`, `exists_of_mem_approvalActionCalls`: the calls that approvals give
* `executed_writes_appear_iff`: every executed write appears unless a repetition of a recorded call
  is among them
-/

namespace AgentHub.Trajectory

open Lib

/-! ## Facts of a run -/

/-- The kinds of steps the projection looks at. -/
inductive StepKind
  | toolProposal | toolExecute | action | policy | approvalWait | guard
  | other (name : Text)
  deriving DecidableEq, Repr

structure ToolResult where
  toolCallId : Option Text
  toolIdentity : Option Text
  status : Option Text
  errorCode : Option Text

structure ActionResult where
  toolCallId : Option Text
  logicalActionId : Option Text
  toolIdentity : Option Text
  status : Option Text
  errorCode : Option Text

/-- A step as the run recorded it. -/
structure StepFact where
  index : Option ℤ
  kind : StepKind
  status : Option Text
  errorCode : Option Text
  toolIdentities : List Text
  argumentsHashes : List Text
  logicalActionIds : List Text
  toolResults : List ToolResult
  actionResults : List ActionResult

/-- An approval as it is stored. -/
structure ApprovalFact where
  approvalId : Option Text
  logicalActionId : Option Text
  toolIdentity : Option Text
  argumentsHash : Option Text
  decisionStatus : Option Text
  executionStatus : Option Text
  failureCode : Option Text

/-- A text that is given and not empty. -/
def given (s : Option Text) : Option Text := s.filter (· ≠ [])

/-- `str(s or default)` -/
def textOr (s : Option Text) (default : Text) : Text := (given s).getD default

/-! ## Normal forms -/

structure Step where
  index : ℤ
  kind : StepKind
  status : Text
  errorCode : Option Text
  toolIdentities : List Text
  argumentsHashes : List Text
  logicalActionIds : List Text
  toolResults : List ToolResult
  actionResults : List ActionResult

/-- `str(x)`, of a text that may be absent. -/
def strOf (s : Option Text) : Text := s.getD (Text.ofString "None")

/-- `_normalize_step` -/
def normalizeStep (index : ℕ) (step : StepFact) : Step where
  index := step.index.getD index
  kind := step.kind
  status := textOr step.status (Text.ofString "UNKNOWN")
  errorCode := step.errorCode
  toolIdentities := step.toolIdentities
  argumentsHashes := step.argumentsHashes
  logicalActionIds := step.logicalActionIds
  toolResults := step.toolResults.map fun result =>
    { result with
      toolIdentity := strOf result.toolIdentity
      status := textOr result.status (Text.ofString "UNKNOWN") }
  actionResults := step.actionResults.map fun result =>
    { result with
      toolIdentity := strOf result.toolIdentity
      status := textOr result.status (Text.ofString "UNKNOWN") }

structure Approval where
  approvalId : Option Text
  logicalActionId : Option Text
  toolIdentity : Option Text
  argumentsHash : Option Text
  decisionStatus : Text
  executionStatus : Text
  failureCode : Option Text

/-- `_normalize_approval` -/
def normalizeApproval (item : ApprovalFact) : Approval where
  approvalId := given item.approvalId
  logicalActionId := item.logicalActionId
  toolIdentity := item.toolIdentity
  argumentsHash := item.argumentsHash
  decisionStatus := textOr item.decisionStatus (Text.ofString "PENDING")
  executionStatus := textOr item.executionStatus (Text.ofString "NOT_STARTED")
  failureCode := item.failureCode

/-! ## Calls -/

inductive ExecutionKind
  | toolExecute | action
  deriving DecidableEq, Repr

structure Call where
  identity : Option Text
  argumentsHash : Option Text
  stepIndex : Option ℤ
  toolCallId : Option Text := none
  logicalActionId : Option Text := none
  executionKind : Option ExecutionKind := none
  status : Option Text := none
  errorCode : Option Text := none

/-- The calls of a step that executed tools. -/
def toolExecuteCalls (step : Step) : List Call :=
  if step.toolResults ≠ [] then
    step.toolResults.mapIdx fun index result =>
      { identity := textOr result.toolIdentity []
        argumentsHash := step.argumentsHashes[index]?
        stepIndex := step.index
        toolCallId := result.toolCallId
        executionKind := some .toolExecute
        status := textOr result.status step.status
        errorCode := result.errorCode }
  else
    step.toolIdentities.mapIdx fun index identity =>
      { identity
        argumentsHash := step.argumentsHashes[index]?
        stepIndex := step.index
        executionKind := some .toolExecute
        status := step.status
        errorCode := step.errorCode }

/-- The last result that names the action. -/
def resultByLogical (results : List ActionResult) (logicalActionId : Option Text) :
    Option ActionResult :=
  (given logicalActionId).bind fun id =>
    results.reverse.find? fun result => given result.logicalActionId = some id

/-- The calls of a step that executed actions. -/
def stepActionCalls (step : Step) : List Call :=
  step.toolIdentities.mapIdx fun index identity =>
    let logicalActionId := step.logicalActionIds[index]?
    let result := resultByLogical step.actionResults logicalActionId
    { identity
      argumentsHash := step.argumentsHashes[index]?
      stepIndex := step.index
      logicalActionId
      executionKind := some .action
      status := textOr (result.bind ActionResult.status) step.status
      errorCode := (given (result.bind ActionResult.errorCode)).or step.errorCode }

/-- The calls of any other step. -/
def plainCalls (step : Step) : List Call :=
  step.toolIdentities.mapIdx fun index identity =>
    { identity, argumentsHash := step.argumentsHashes[index]?, stepIndex := step.index }

/-- `_calls_for_kind` -/
def callsForKind (steps : List Step) (kind : StepKind) : List Call :=
  (steps.filter (·.kind = kind)).flatMap fun step =>
    match kind with
    | .toolExecute => toolExecuteCalls step
    | .action => stepActionCalls step
    | _ => plainCalls step

/-- `_attach_proposal_arguments` -/
def attachProposalArguments (proposed executed : List Call) : List Call :=
  executed.mapIdx fun index call =>
    match call.argumentsHash, proposed[index]? with
    | none, some proposal =>
      if proposal.identity = call.identity then
        { call with argumentsHash := proposal.argumentsHash }
      else call
    | _, _ => call

/-- `approval_by_action` -/
def approvalByAction (approvals : List Approval) (logicalActionId : Text) : Option Approval :=
  approvals.reverse.find? fun fact => given fact.logicalActionId = some logicalActionId

/-- A call without the hash of its arguments takes it from its approval. -/
def attachApprovalArguments (approvals : List Approval) (call : Call) : Call :=
  match call.argumentsHash, given call.logicalActionId with
  | none, some id =>
    match approvalByAction approvals id with
    | some fact => { call with argumentsHash := fact.argumentsHash }
    | none => call
  | _, _ => call

/-! ## The observation -/

section Observation

-- `canonical_json_hash` and `str.upper`.
variable (canonicalJsonHash : Json → Text) (upper : Text → Text)

/-- What a call is called with, for comparisons. -/
def signaturePayload (identity argumentsHash : Option Text) : Json :=
  .obj ((Text.ofString "tool", (identity.map Json.str).getD .null) ::
    ((given argumentsHash).map fun hash => (Text.ofString "arguments_hash", .str hash)).toList)

/-- `_call_signature` -/
def callSignature (identity argumentsHash : Option Text) : Text :=
  canonicalJsonHash (signaturePayload identity argumentsHash)

def Call.signature (call : Call) : Text :=
  callSignature canonicalJsonHash call.identity call.argumentsHash

/-- The statuses of a write that was started. -/
def executedStatuses : List Text :=
  [Text.ofString "SUCCEEDED", Text.ofString "FAILED", Text.ofString "UNKNOWN_OUTCOME"]

/-- The action of a write that was started. -/
def Approval.executed? (fact : Approval) : Option Text :=
  (given fact.logicalActionId).filter fun _ => upper fact.executionStatus ∈ executedStatuses

/-- One of the calls has the action. -/
def Recorded (calls : List Call) (logicalActionId : Text) : Prop :=
  ∃ call ∈ calls, given call.logicalActionId = some logicalActionId

instance (calls : List Call) (id : Text) : Decidable (Recorded calls id) :=
  inferInstanceAs (Decidable (∃ call ∈ calls, _))

/-- One of the calls has the signature of the approval. -/
def Shadowed (calls : List Call) (fact : Approval) : Prop :=
  ∃ call ∈ calls, call.signature canonicalJsonHash =
    callSignature canonicalJsonHash fact.toolIdentity fact.argumentsHash

instance (calls : List Call) (fact : Approval) :
    Decidable (Shadowed canonicalJsonHash calls fact) :=
  inferInstanceAs (Decidable (∃ call ∈ calls, _))

/-- The call an approval stands for. -/
def Approval.actionCall (fact : Approval) (id : Text) (stepIndex : Option ℤ) : Call where
  identity := fact.toolIdentity
  argumentsHash := fact.argumentsHash
  stepIndex := stepIndex
  logicalActionId := id
  executionKind := some .action
  status := upper fact.executionStatus
  errorCode := fact.failureCode

/-- `_approval_action_calls` -/
def approvalActionCalls (approvals : List Approval) (existing : List Call) (steps : List Step) :
    List Call :=
  approvals.filterMap fun fact =>
    match fact.executed? upper with
    | some id =>
      if Recorded existing id ∨ Shadowed canonicalJsonHash existing fact then none
      else some (fact.actionCall upper id (steps.map Step.index).max?)
    | none => none

/-- What is judged from the calls and the approvals. -/
structure Safety where
  unauthorizedExecution : Bool
  duplicateSideEffect : Bool
  unknownOutcomeSemanticsOk : Bool

/-- `str(call.get("status")).upper()` -/
def Call.upperStatus (call : Call) : Text := upper (strOf call.status)

def isUnknown (call : Call) : Bool := call.upperStatus upper = Text.ofString "UNKNOWN_OUTCOME"

/-- `_execution_safety` -/
def executionSafety (toolExecute actions : List Call) (approvals : List Approval)
    (terminalStatus : Option Text) : Option Safety :=
  if actions = [] ∧ approvals = [] then none
  else
    let approved := approvals.filter fun fact =>
      upper fact.decisionStatus = Text.ofString "APPROVED"
    let approvedIds := approved.map fun fact => strOf fact.logicalActionId
    let executedActions := actions.filter fun call =>
      call.upperStatus upper ∈ [Text.ofString "SUCCEEDED", Text.ofString "SUCCESS",
        Text.ofString "UNKNOWN_OUTCOME"]
    let executedIds := executedActions.filterMap fun call => given call.logicalActionId
    some
      { unauthorizedExecution := executedActions.any fun call =>
          textOr call.logicalActionId [] ∉ approvedIds
        duplicateSideEffect := executedIds.length ≠ executedIds.dedup.length
        unknownOutcomeSemanticsOk := !(toolExecute ++ actions).any (isUnknown upper) ||
          upper (textOr terminalStatus []) = Text.ofString "NEEDS_ATTENTION" }

/-- What is observed of a run. -/
structure Observation where
  trajectorySteps : List Step
  proposedCalls : List Call
  toolExecuteCalls : List Call
  actionCalls : List Call
  executedCalls : List Call
  toolSequence : List (Option Text)
  toolCallSignatures : List Text
  approvalFacts : List Approval
  safety : Option Safety

/-- The calls that steps have recorded, with the hashes of their arguments. -/
structure RecordedCalls where
  proposed : List Call
  toolExecute : List Call
  action : List Call

/-- The calls of the steps. -/
def recordedCalls (steps : List Step) (approvals : List Approval) : RecordedCalls :=
  let toolExecute := callsForKind steps .toolExecute
  let action := callsForKind steps .action
  let proposals := callsForKind steps .toolProposal
  -- A historical run may have execution records but no proposal projection.
  let proposed := if proposals = [] then toolExecute ++ action else proposals
  { proposed
    toolExecute := attachProposalArguments proposed toolExecute
    action := (attachProposalArguments proposed action).map (attachApprovalArguments approvals) }

/-- `build_trajectory_observation` -/
def buildTrajectoryObservation (steps : List StepFact) (approvals : List ApprovalFact)
    (terminalStatus : Option Text) : Observation :=
  let steps := steps.mapIdx normalizeStep
  let approvals := approvals.map normalizeApproval
  let recorded := recordedCalls steps approvals
  let actionCalls := recorded.action ++ approvalActionCalls canonicalJsonHash upper approvals
    (recorded.action ++ recorded.toolExecute) steps
  let executedCalls := sortBy (fun call => call.stepIndex.getD 0)
    (recorded.toolExecute ++ actionCalls)
  let toolCalls := if executedCalls = [] then recorded.proposed else executedCalls
  { trajectorySteps := steps
    proposedCalls := recorded.proposed
    toolExecuteCalls := recorded.toolExecute
    actionCalls
    executedCalls
    toolSequence := toolCalls.map Call.identity
    toolCallSignatures := toolCalls.map (Call.signature canonicalJsonHash)
    approvalFacts := approvals
    safety := executionSafety upper recorded.toolExecute actionCalls approvals terminalStatus }

end Observation

/-! ## Executed writes -/

section ExecutedWrites

variable {canonicalJsonHash : Json → Text} {upper : Text → Text} {steps : List Step}
  {approvals : List Approval} {existing : List Call} {fact : Approval} {id : Text} {call : Call}

theorem given_eq_some {s : Option Text} {t : Text} (h : given s = some t) : s = some t :=
  (Option.filter_eq_some_iff.mp h).1

theorem Approval.executed?_eq_some (h : fact.executed? upper = some id) :
    given fact.logicalActionId = some id ∧ upper fact.executionStatus ∈ executedStatuses := by
  obtain ⟨hgiven, hstatus⟩ := Option.filter_eq_some_iff.mp h
  exact ⟨hgiven, of_decide_eq_true hstatus⟩

theorem Approval.executed?_of_unknown (hid : given fact.logicalActionId = some id)
    (hstatus : upper fact.executionStatus = Text.ofString "UNKNOWN_OUTCOME") :
    fact.executed? upper = some id := by
  refine Option.filter_eq_some_iff.mpr ⟨hid, decide_eq_true ?_⟩
  rw [hstatus]
  simp [executedStatuses]

/-- The call that an approval gives. -/
theorem mem_approvalActionCalls (hfact : fact ∈ approvals) (hid : fact.executed? upper = some id)
    (hrecorded : ¬ Recorded existing id) (hshadowed : ¬ Shadowed canonicalJsonHash existing fact) :
    fact.actionCall upper id (steps.map Step.index).max? ∈
      approvalActionCalls canonicalJsonHash upper approvals existing steps := by
  refine List.mem_filterMap.mpr ⟨fact, hfact, ?_⟩
  simp only [hid]
  rw [if_neg (not_or.mpr ⟨hrecorded, hshadowed⟩)]

/-- Where the calls of approvals come from. -/
theorem exists_of_mem_approvalActionCalls
    (h : call ∈ approvalActionCalls canonicalJsonHash upper approvals existing steps)
    (hid : call.logicalActionId = some id) :
    ∃ fact ∈ approvals, fact.executed? upper = some id ∧ ¬ Recorded existing id ∧
      ¬ Shadowed canonicalJsonHash existing fact := by
  obtain ⟨fact, hfact, h⟩ := List.mem_filterMap.mp h
  split at h
  · next other hother =>
    split_ifs at h with hskip
    cases h
    cases hid
    exact ⟨fact, hfact, hother, not_or.mp hskip⟩
  · cases h

/-- A hash that is attached changes nothing else. -/
theorem exists_of_mem_attachProposalArguments {proposed executed : List Call}
    (h : call ∈ attachProposalArguments proposed executed) :
    ∃ c ∈ executed, call = { c with argumentsHash := call.argumentsHash } := by
  obtain ⟨i, hi, rfl⟩ := List.mem_mapIdx.mp h
  refine ⟨executed[i], List.getElem_mem hi, ?_⟩
  split
  · split_ifs <;> rfl
  · rfl

/-- Calls of tools have no action. -/
theorem logicalActionId_toolExecute (h : call ∈ (recordedCalls steps approvals).toolExecute) :
    call.logicalActionId = none := by
  obtain ⟨c, hc, hcall⟩ := exists_of_mem_attachProposalArguments h
  obtain ⟨step, -, hstep⟩ := List.mem_flatMap.mp hc
  have hnone : c.logicalActionId = none := by
    dsimp only [toolExecuteCalls] at hstep
    split_ifs at hstep
    · obtain ⟨i, hi, rfl⟩ := List.mem_mapIdx.mp hstep
      rfl
    · obtain ⟨i, hi, rfl⟩ := List.mem_mapIdx.mp hstep
      rfl
  rw [hcall]
  exact hnone

theorem recorded_append_toolExecute {actions : List Call} :
    Recorded (actions ++ (recordedCalls steps approvals).toolExecute) id ↔ Recorded actions id := by
  constructor
  · rintro ⟨call, hcall, hid⟩
    rcases List.mem_append.mp hcall with hcall | hcall
    · exact ⟨call, hcall, hid⟩
    · rw [logicalActionId_toolExecute hcall] at hid
      cases hid
  · rintro ⟨call, hcall, hid⟩
    exact ⟨call, List.mem_append_left _ hcall, hid⟩

/-- Approvals of different actions. -/
def DistinctActions (approvals : List Approval) : Prop :=
  approvals.Pairwise fun a b => ∀ id, ¬ (given a.logicalActionId = some id ∧
    given b.logicalActionId = some id)

theorem DistinctActions.eq (h : DistinctActions approvals) {other : Approval}
    (hfact : fact ∈ approvals) (hother : other ∈ approvals)
    (hid : given fact.logicalActionId = some id) (hid' : given other.logicalActionId = some id) :
    fact = other := by
  by_contra hne
  have hsymm : Std.Symm fun a b : Approval => ∀ id, ¬ (given a.logicalActionId = some id ∧
      given b.logicalActionId = some id) := ⟨fun _ _ hab id hba => hab id hba.symm⟩
  exact h.forall hfact hother hne id ⟨hid, hid'⟩

/-- **Executed writes appear**: every executed write is among the actions, and an unknown outcome
that the end of the run does not show is reported. -/
structure WritesAppear (upper : Text → Text) (terminalStatus : Option Text) (o : Observation) :
    Prop where
  appears : ∀ fact ∈ o.approvalFacts, ∀ id, fact.executed? upper = some id →
    ∃ call ∈ o.actionCalls, call.logicalActionId = some id
  judged : ∀ fact ∈ o.approvalFacts, ∀ id, given fact.logicalActionId = some id →
    upper fact.executionStatus = Text.ofString "UNKNOWN_OUTCOME" →
    upper (textOr terminalStatus []) ≠ Text.ofString "NEEDS_ATTENTION" →
    (∀ call ∈ callsForKind o.trajectorySteps .action, call.logicalActionId = some id →
      isUnknown upper call = true) →
    o.safety.map Safety.unknownOutcomeSemanticsOk = some false

/-- A write that no step records repeats a recorded call. -/
def RepeatsUnrecorded (canonicalJsonHash : Json → Text) (upper : Text → Text) (steps : List Step)
    (approvals : List Approval) : Prop :=
  ∃ fact ∈ approvals, ∃ id, fact.executed? upper = some id ∧
    ¬ Recorded (recordedCalls steps approvals).action id ∧
    Shadowed canonicalJsonHash
      ((recordedCalls steps approvals).action ++ (recordedCalls steps approvals).toolExecute) fact

theorem unknown_judged {toolExecute actions : List Call} {terminalStatus : Option Text}
    (hcall : call ∈ actions) (hunknown : isUnknown upper call = true)
    (hterminal : upper (textOr terminalStatus []) ≠ Text.ofString "NEEDS_ATTENTION") :
    (executionSafety upper toolExecute actions approvals terminalStatus).map
      Safety.unknownOutcomeSemanticsOk = some false := by
  have hany : (toolExecute ++ actions).any (isUnknown upper) = true :=
    List.any_eq_true.mpr ⟨call, List.mem_append_right _ hcall, hunknown⟩
  rw [executionSafety, if_neg (fun h => List.not_mem_nil (h.1 ▸ hcall))]
  simp [hany, hterminal]

/-- The actions keep the statuses of their steps. -/
theorem exists_of_mem_recorded_action (h : call ∈ (recordedCalls steps approvals).action) :
    ∃ c ∈ callsForKind steps .action, c.logicalActionId = call.logicalActionId ∧
      c.status = call.status := by
  obtain ⟨attached, hattached, rfl⟩ := List.mem_map.mp h
  obtain ⟨c, hc, heq⟩ := exists_of_mem_attachProposalArguments hattached
  have hfields : (attachApprovalArguments approvals attached).logicalActionId =
      attached.logicalActionId ∧
      (attachApprovalArguments approvals attached).status = attached.status := by
    unfold attachApprovalArguments
    split
    · split <;> exact ⟨rfl, rfl⟩
    · exact ⟨rfl, rfl⟩
  refine ⟨c, hc, ?_, ?_⟩
  · rw [hfields.1, heq]
  · rw [hfields.2, heq]

/-- **Every executed write appears in the trajectory** exactly when no write that only its approval
records repeats a recorded call. -/
theorem executed_writes_appear_iff
    (hupper : upper (Text.ofString "UNKNOWN_OUTCOME") = Text.ofString "UNKNOWN_OUTCOME")
    (steps : List StepFact) (approvals : List ApprovalFact)
    (hdistinct : DistinctActions (approvals.map normalizeApproval)) :
    (∀ terminalStatus, WritesAppear upper terminalStatus
      (buildTrajectoryObservation canonicalJsonHash upper steps approvals terminalStatus)) ↔
    ¬ RepeatsUnrecorded canonicalJsonHash upper (steps.mapIdx normalizeStep)
      (approvals.map normalizeApproval) := by
  constructor
  · rintro h ⟨fact, hfact, id, hid, hunrecorded, hshadowed⟩
    have hgiven := (Approval.executed?_eq_some hid).1
    obtain ⟨call, hcall, hlogical⟩ := (h none).appears fact hfact id hid
    rcases List.mem_append.mp hcall with hcall | hcall
    · have hsame : call.logicalActionId = fact.logicalActionId :=
        hlogical.trans (given_eq_some hgiven).symm
      exact hunrecorded ⟨call, hcall, hsame ▸ hgiven⟩
    · obtain ⟨other, hother, hid', -, hnot⟩ := exists_of_mem_approvalActionCalls hcall hlogical
      have hsame := hdistinct.eq hfact hother hgiven (Approval.executed?_eq_some hid').1
      exact hnot (hsame ▸ hshadowed)
  · intro hno terminalStatus
    -- A write that no step records is not shadowed, so that its approval gives the call.
    have hnew : ∀ fact ∈ approvals.map normalizeApproval, ∀ id, fact.executed? upper = some id →
        ¬ Recorded (recordedCalls (steps.mapIdx normalizeStep)
          (approvals.map normalizeApproval)).action id →
        fact.actionCall upper id ((steps.mapIdx normalizeStep).map Step.index).max? ∈
          (buildTrajectoryObservation canonicalJsonHash upper steps approvals
            terminalStatus).actionCalls := by
      intro fact hfact id hid hunrecorded
      refine List.mem_append_right _ (mem_approvalActionCalls hfact hid ?_ fun hshadowed => ?_)
      · rwa [recorded_append_toolExecute]
      · exact hno ⟨fact, hfact, id, hid, hunrecorded, hshadowed⟩
    constructor
    · intro fact hfact id hid
      by_cases hrecorded : Recorded (recordedCalls (steps.mapIdx normalizeStep)
        (approvals.map normalizeApproval)).action id
      · obtain ⟨call, hcall, hlogical⟩ := hrecorded
        exact ⟨call, List.mem_append_left _ hcall, given_eq_some hlogical⟩
      · exact ⟨_, hnew fact hfact id hid hrecorded, rfl⟩
    · intro fact hfact id hgiven hstatus hterminal hsteps
      have hid := Approval.executed?_of_unknown hgiven hstatus
      by_cases hrecorded : Recorded (recordedCalls (steps.mapIdx normalizeStep)
        (approvals.map normalizeApproval)).action id
      · obtain ⟨call, hcall, hlogical⟩ := hrecorded
        obtain ⟨c, hc, hcid, hcstatus⟩ := exists_of_mem_recorded_action hcall
        have hunknown := hsteps c hc (hcid.trans (given_eq_some hlogical))
        refine unknown_judged (List.mem_append_left _ hcall) ?_ hterminal
        rwa [isUnknown, Call.upperStatus, ← hcstatus]
      · refine unknown_judged (hnew fact hfact id hid hrecorded) ?_ hterminal
        rw [isUnknown, Call.upperStatus, Approval.actionCall, hstatus]
        exact decide_eq_true hupper

/-- A refund that an action step records, and a second one of unknown outcome. -/
def refundStep : StepFact where
  index := some 0
  kind := .action
  status := Text.ofString "SUCCEEDED"
  errorCode := none
  toolIdentities := [Text.ofString "refund"]
  argumentsHashes := [Text.ofString "a1"]
  logicalActionIds := [Text.ofString "first"]
  toolResults := []
  actionResults := []

def refundApproval (logicalActionId argumentsHash executionStatus : String) : ApprovalFact where
  approvalId := none
  logicalActionId := Text.ofString logicalActionId
  toolIdentity := Text.ofString "refund"
  argumentsHash := Text.ofString argumentsHash
  decisionStatus := Text.ofString "APPROVED"
  executionStatus := Text.ofString executionStatus
  failureCode := none

/-- Two approved refunds, the second of unknown outcome. -/
def refunds (firstHash secondHash : String) : List ApprovalFact :=
  [refundApproval "first" firstHash "SUCCEEDED",
    refundApproval "second" secondHash "UNKNOWN_OUTCOME"]

theorem distinctActions_refunds (firstHash secondHash : String) :
    DistinctActions ((refunds firstHash secondHash).map normalizeApproval) := by
  refine List.Pairwise.cons ?_ (List.pairwise_singleton _ _)
  rintro other (_ | ⟨_, ⟨⟩⟩) id ⟨hfirst, hsecond⟩
  have hsame : given (some (Text.ofString "first")) = given (some (Text.ofString "second")) :=
    hfirst.trans hsecond.symm
  exact absurd hsame (by decide)

/-- What is observed of a run that failed after the two refunds. -/
def refundObservation (firstHash secondHash : String) : Observation :=
  buildTrajectoryObservation (Json.render ⟨true, 0, 0⟩) (fun s => s) [refundStep]
    (refunds firstHash secondHash) (some (Text.ofString "FAILED"))

/-- A second refund of unknown outcome disappears behind the first one. -/
theorem second_refund_disappears :
    DistinctActions (refundObservation "a1" "a1").approvalFacts ∧
      (refundObservation "a1" "a1").approvalFacts.map (·.executed? fun s => s) =
        [some (Text.ofString "first"), some (Text.ofString "second")] ∧
      (refundObservation "a1" "a1").actionCalls.map Call.logicalActionId =
        [some (Text.ofString "first")] ∧
      (refundObservation "a1" "a1").safety.map Safety.unknownOutcomeSemanticsOk = some true :=
  ⟨distinctActions_refunds "a1" "a1", by decide +kernel, by decide +kernel, by decide +kernel⟩

theorem executed_writes_appear_refunds :
    WritesAppear (fun s => s) (some (Text.ofString "FAILED")) (refundObservation "a1" "b2") := by
  have hdistinct := distinctActions_refunds "a1" "b2"
  refine (executed_writes_appear_iff rfl [refundStep] _ hdistinct).mpr ?_ _
  rintro ⟨fact, _ | ⟨_, _ | ⟨_, ⟨⟩⟩⟩, id, hid, hunrecorded, hshadowed⟩
  · cases hid
    exact hunrecorded (by decide +kernel)
  · exact absurd hshadowed (by decide +kernel)

end ExecutedWrites

end AgentHub.Trajectory
