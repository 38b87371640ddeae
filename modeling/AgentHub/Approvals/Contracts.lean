import Mathlib.Tactic.Common

/-!
# Approvals: statuses, rows and the writes of the approval service

The decision and the execution of an approval are two state machines on one row. The tables
`transitionDecision` and `transitionExecution` declare the allowed changes; the writers of the
approval service do not call them and carry guards of their own.

## Main definitions

* `transitionDecision`, `transitionExecution`: the declared transitions
* `Approval`: the row
* `decide`, `claimExecution`, `completeExecution`, `cancelPending`: the writes of the service,
  each on the row it has locked or conditionally updated
* `expire`, `markUnknown`: what a reconciliation pass does to a row it has read

## Main results

* `Conforms`: a change of a row that the tables allow
* `decide_conforms`, `claimExecution_conforms`, `cancelPending_conforms`: writes that conform
* `completeExecution_conforms_iff`: completing conforms unless an unclaimed action succeeds
-/

namespace AgentHub.Approvals

inductive ApprovalDecisionStatus
  | pending | approved | denied | expired | cancelled
  deriving DecidableEq, Repr

inductive ApprovalExecutionStatus
  | notStarted | claimed | succeeded | failed | unknownOutcome
  deriving DecidableEq, Repr

def ApprovalDecisionStatus.value : ApprovalDecisionStatus → String
  | .pending => "PENDING"
  | .approved => "APPROVED"
  | .denied => "DENIED"
  | .expired => "EXPIRED"
  | .cancelled => "CANCELLED"

def ApprovalExecutionStatus.value : ApprovalExecutionStatus → String
  | .notStarted => "NOT_STARTED"
  | .claimed => "CLAIMED"
  | .succeeded => "SUCCEEDED"
  | .failed => "FAILED"
  | .unknownOutcome => "UNKNOWN_OUTCOME"

/-- `transition_decision` -/
def transitionDecision (current target : ApprovalDecisionStatus) :
    Except String ApprovalDecisionStatus :=
  match current, target with
  | .pending, .approved | .pending, .denied | .pending, .expired | .pending, .cancelled =>
    .ok target
  | _, _ => .error ("illegal decision transition: " ++ current.value ++ " -> " ++ target.value)

/-- `transition_execution` -/
def transitionExecution (current target : ApprovalExecutionStatus) :
    Except String ApprovalExecutionStatus :=
  match current, target with
  | .notStarted, .claimed | .notStarted, .failed | .notStarted, .unknownOutcome
  | .claimed, .succeeded | .claimed, .failed | .claimed, .unknownOutcome => .ok target
  | _, _ => .error ("illegal execution transition: " ++ current.value ++ " -> " ++ target.value)

/-- `SUCCEEDED`, `FAILED` or `UNKNOWN_OUTCOME`: the execution has an outcome. -/
def ApprovalExecutionStatus.hasOutcome : ApprovalExecutionStatus → Bool
  | .succeeded | .failed | .unknownOutcome => true
  | _ => false

/-- `CLAIMED` or `UNKNOWN_OUTCOME`: the action may have been, or be, in execution. -/
def ApprovalExecutionStatus.isUncertain : ApprovalExecutionStatus → Bool
  | .claimed | .unknownOutcome => true
  | _ => false

/-- The columns of `approvals` that decisions and executions read and write. -/
structure Approval where
  id : ℕ
  requestedBy : ℕ
  expiresAt : Option ℕ
  decisionStatus : ApprovalDecisionStatus
  decidedBy : Option ℕ
  decidedAt : Option ℕ
  executionStatus : ApprovalExecutionStatus
  executionAttemptCount : ℕ
  claimedAt : Option ℕ
  executedAt : Option ℕ
  safeResult : Option String
  failureCode : Option String
  safeFailureMessage : Option String
  deriving DecidableEq, Repr

/-! ## The writes of the approval service -/

/-- Who decides: the user, the `approve_action` permission, and an `OWNER` or `ADMIN` role. -/
structure Decider where
  userId : ℕ
  mayApprove : Bool
  isAdmin : Bool
  deriving DecidableEq, Repr

/-- `expires_at` has passed. -/
def Approval.isExpired (a : Approval) (now : ℕ) : Bool :=
  match a.expiresAt with
  | some expiresAt => expiresAt ≤ now
  | none => false

/-- What an expired decision writes. -/
def expire (now : ℕ) (a : Approval) : Approval :=
  { a with decisionStatus := .expired, decidedAt := some now }

/-- `decide`, on the locked row: the row after it and whether it was written (a write also sets
`resume_pending` on the run). -/
def decide (decider : Decider) (decision : ApprovalDecisionStatus) (now : ℕ) (a : Approval) :
    Except String (Approval × Bool) :=
  if decider.mayApprove = false then .error "FORBIDDEN"
  else if decision ≠ .approved ∧ decision ≠ .denied then .error "INVALID_APPROVAL_DECISION"
  else if a.decisionStatus ≠ .pending then .ok (a, false)
  else if a.isExpired now then .ok (expire now a, true)
  else if decision = .approved ∧ a.requestedBy = decider.userId ∧ decider.isAdmin = false then
    .error "SELF_APPROVAL_FORBIDDEN"
  else
    .ok ({ a with
      decisionStatus := decision
      decidedBy := some decider.userId
      decidedAt := some now }, true)

/-- `claim_execution`: one conditional update; `none` when no row was claimed. -/
def claimExecution (now : ℕ) (a : Approval) : Option Approval :=
  if a.decisionStatus = .approved ∧ a.executionStatus = .notStarted then
    some { a with
      executionStatus := .claimed
      claimedAt := some now
      executionAttemptCount := a.executionAttemptCount + 1 }
  else none

/-- The outcome passed to `complete_execution`. -/
structure ExecutionOutcome where
  status : ApprovalExecutionStatus
  safeResult : Option String
  failureCode : Option String
  safeFailureMessage : Option String
  deriving DecidableEq, Repr

/-- `complete_execution`, on the locked row. -/
def completeExecution (outcome : ExecutionOutcome) (now : ℕ) (a : Approval) :
    Except String Approval :=
  if outcome.status.hasOutcome = false then .error "INVALID_EXECUTION_STATUS"
  else if a.executionStatus.hasOutcome then .ok a
  else
    .ok { a with
      executionStatus := outcome.status
      safeResult := outcome.safeResult
      failureCode := outcome.failureCode
      safeFailureMessage := outcome.safeFailureMessage
      executedAt := some now }

/-- `cancel_pending_for_run`, on one row of the run. -/
def cancelPending (userId now : ℕ) (a : Approval) : Approval :=
  if a.decisionStatus = .pending then
    { a with
      decisionStatus := .cancelled
      decidedBy := some userId
      decidedAt := some now }
  else a

/-- A claimed execution that a reconciliation pass gives up on. -/
def markUnknown (a : Approval) : Approval :=
  { a with executionStatus := .unknownOutcome, failureCode := some "ACTION_OUTCOME_UNKNOWN" }

/-! ## Conformance -/

/-- The decision changes as `transition_decision` allows, or not at all. -/
def DecisionConforms (current target : ApprovalDecisionStatus) : Prop :=
  target = current ∨ transitionDecision current target = .ok target

/-- The execution changes as `transition_execution` allows, or not at all. -/
def ExecutionConforms (current target : ApprovalExecutionStatus) : Prop :=
  target = current ∨ transitionExecution current target = .ok target

instance (current target : ApprovalDecisionStatus) : Decidable (DecisionConforms current target) :=
  inferInstanceAs (Decidable (_ ∨ _))

instance (current target : ApprovalExecutionStatus) :
    Decidable (ExecutionConforms current target) :=
  inferInstanceAs (Decidable (_ ∨ _))

/-- **A conforming change of an approval**: the same approval, with both statuses unchanged or
moved along their tables. -/
structure Conforms (a b : Approval) : Prop where
  id : b.id = a.id
  decision : DecisionConforms a.decisionStatus b.decisionStatus
  execution : ExecutionConforms a.executionStatus b.executionStatus

section Conforms

variable {a b : Approval} {now : ℕ}

theorem Conforms.refl (a : Approval) : Conforms a a := ⟨rfl, Or.inl rfl, Or.inl rfl⟩

/-- Every decision but `PENDING` is final. -/
theorem decisionConforms_final {current target : ApprovalDecisionStatus}
    (h : DecisionConforms current target) (hc : current ≠ .pending) : target = current := by
  rcases h with h | h
  · exact h
  · cases current <;> simp_all [transitionDecision]

/-- `SUCCEEDED`, `FAILED` and `UNKNOWN_OUTCOME` are final. -/
theorem executionConforms_final {current target : ApprovalExecutionStatus}
    (h : ExecutionConforms current target) (hc : current.hasOutcome) : target = current := by
  rcases h with h | h
  · exact h
  · cases current <;> simp_all [transitionExecution, ApprovalExecutionStatus.hasOutcome]

variable {decision : ApprovalDecisionStatus}

theorem decide_conforms {decider : Decider} {written : Bool}
    (h : decide decider decision now a = .ok (b, written)) : Conforms a b := by
  unfold decide at h
  split_ifs at h with h₁ h₂ h₃ h₄ h₅
  · obtain ⟨rfl, -⟩ := Prod.mk.inj (Except.ok.inj h)
    exact Conforms.refl _
  · obtain ⟨rfl, -⟩ := Prod.mk.inj (Except.ok.inj h)
    have hp := not_not.mp h₃
    exact ⟨rfl, Or.inr (by rw [hp]; rfl), Or.inl rfl⟩
  · obtain ⟨rfl, -⟩ := Prod.mk.inj (Except.ok.inj h)
    have hp := not_not.mp h₃
    refine ⟨rfl, Or.inr ?_, Or.inl rfl⟩
    rw [hp]
    rcases Decidable.not_and_iff_not_or_not.mp h₂ with hd | hd
    · rw [not_not.mp hd]
      rfl
    · rw [not_not.mp hd]
      rfl

/-- A decision leaves the execution alone. -/
theorem decide_executionStatus {decider : Decider} {written : Bool}
    (h : decide decider decision now a = .ok (b, written)) :
    b.executionStatus = a.executionStatus := by
  unfold decide at h
  split_ifs at h
  · rw [← (Prod.mk.inj (Except.ok.inj h)).1]
  · rw [← (Prod.mk.inj (Except.ok.inj h)).1]
    rfl
  · rw [← (Prod.mk.inj (Except.ok.inj h)).1]

/-- A claim needs an approved action whose execution was not started. -/
theorem claimExecution_eq_some (h : claimExecution now a = some b) :
    a.decisionStatus = .approved ∧ a.executionStatus = .notStarted ∧
      b.decisionStatus = .approved ∧ b.executionStatus = .claimed := by
  unfold claimExecution at h
  split_ifs at h with hg
  obtain rfl := Option.some.inj h
  exact ⟨hg.1, hg.2, hg.1, rfl⟩

theorem claimExecution_conforms (h : claimExecution now a = some b) : Conforms a b := by
  unfold claimExecution at h
  split_ifs at h with hc
  obtain rfl := Option.some.inj h
  exact ⟨rfl, Or.inl rfl, Or.inr (by rw [hc.2]; rfl)⟩

@[simp] theorem cancelPending_executionStatus (userId now : ℕ) (a : Approval) :
    (cancelPending userId now a).executionStatus = a.executionStatus := by
  unfold cancelPending
  split_ifs <;> rfl

theorem cancelPending_conforms (userId now : ℕ) (a : Approval) :
    Conforms a (cancelPending userId now a) := by
  unfold cancelPending
  split_ifs with hp
  · exact ⟨rfl, Or.inr (by rw [hp]; rfl), Or.inl rfl⟩
  · exact Conforms.refl a

/-- **Completing an execution** conforms unless it reports success for an action that was never
claimed: the tables have no transition from `NOT_STARTED` to `SUCCEEDED`. -/
theorem completeExecution_conforms_iff {outcome : ExecutionOutcome}
    (h : completeExecution outcome now a = .ok b) :
    Conforms a b ↔ ¬ (a.executionStatus = .notStarted ∧ outcome.status = .succeeded) := by
  unfold completeExecution at h
  split_ifs at h with hout hdone
  · obtain rfl := Except.ok.inj h
    refine ⟨fun _ hn => ?_, fun _ => Conforms.refl a⟩
    simp [hn.1, ApprovalExecutionStatus.hasOutcome] at hdone
  · obtain rfl := Except.ok.inj h
    constructor
    · rintro ⟨-, -, hexec⟩ ⟨hn, hs⟩
      simp [ExecutionConforms, transitionExecution, hn, hs] at hexec
    · intro hne
      refine ⟨rfl, Or.inl rfl, Or.inr ?_⟩
      cases ha : a.executionStatus <;> cases ho : outcome.status <;>
        simp_all [transitionExecution, ApprovalExecutionStatus.hasOutcome]

end Conforms

end AgentHub.Approvals
