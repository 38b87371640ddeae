import AgentHub.Approvals.Contracts
import AgentHub.Lib.Table
import AgentHub.Run.Row

/-!
# A reconciliation pass

A pass locks the run, reads its approvals without locking them, changes both in memory and
writes back the columns it changed. `reconcile` is the change in memory; `writeBack` puts the
changed columns of an approval over the row as it is by then.

## Main definitions

* `applyReconciliationTransition`: the transition of the run, and the claimed executions it
  gives up on
* `reconcile`: the whole pass in memory
* `writeBack`: the columns a pass changed, written over the current row

## Main results

* `reconcile_approvals`: what a pass does to each approval it has read
-/

namespace AgentHub.Approvals

open Lib AgentHub.Run

/-- `RUN_CHECKPOINT_MISSING_AFTER_SECONDS` in microseconds. -/
def runCheckpointMissingAfter : ℕ := 900 * 1000000

/-- `_run_is_stale` -/
def runIsStale (run : AgentRun) (now : Instant) : Bool :=
  match run.startedAt with
  | some startedAt => startedAt + runCheckpointMissingAfter ≤ now
  | none => false

/-- The owner of the run holds a lease that has not expired. -/
def hasLiveOwner (run : AgentRun) (now : Instant) : Bool :=
  run.executionOwner.isSome && live run.executionLeaseExpiresAt now

/-- The run is moved to `NEEDS_ATTENTION` with a failure code. -/
def needAttention (code : String) (run : AgentRun) : AgentRun :=
  { run with status := .needsAttention, failureCode := some code }

/-- The first step of `_apply_reconciliation_transition`: an owner whose lease has expired is
fenced. -/
def fenceExpiredOwner (run : AgentRun) : AgentRun :=
  if run.executionOwner.isSome then
    { needAttention "RUN_EXECUTION_LEASE_EXPIRED" run with
      eventLogComplete := false
      executionOwner := none
      executionLeaseExpiresAt := none }
  else run

/-- The last steps of `_apply_reconciliation_transition`, on a run without an owner. -/
def recoverStatus (pending all : List Approval) (checkpointExists stale : Bool)
    (run : AgentRun) : AgentRun :=
  let run :=
    if run.status = .running ∧ pending ≠ [] then
      if checkpointExists then { run with status := .waitingApproval }
      else needAttention "APPROVAL_CHECKPOINT_MISSING" run
    else run
  let run :=
    if run.status = .running ∧ stale ∧ checkpointExists = false then
      needAttention "RUN_CHECKPOINT_MISSING" run
    else run
  let run :=
    if run.status = .waitingApproval ∧ checkpointExists = false then
      needAttention "APPROVAL_CHECKPOINT_MISSING" run
    else run
  let run :=
    if run.status = .cancelRequested then
      if all.any (·.executionStatus.isUncertain) then
        needAttention "ACTION_RECONCILIATION_REQUIRED" run
      else { run with status := .cancelled, failureCode := none }
    else run
  if run.status = .waitingApproval ∧ checkpointExists ∧ pending = [] ∧
      all.any (fun a => a.decisionStatus ≠ .pending ∧
        (run.waitingApprovalId = none ∨ run.waitingApprovalId = some a.id)) then
    { run with resumePending := true }
  else run

/-- The pass gives up on the claimed executions of the run. -/
def givesUp (run : AgentRun) (all : List Approval) (stale : Bool) : Bool :=
  (stale || run.executionOwner.isSome) && all.any (·.executionStatus = .claimed)

/-- `_apply_reconciliation_transition` -/
def applyReconciliationTransition (pending : List Approval) (checkpointExists : Bool)
    (approvals : List Approval) (stale : Bool) (now : Instant) (run : AgentRun) :
    AgentRun × List Approval :=
  let all := if approvals = [] then pending else approvals
  if hasLiveOwner run now then (run, approvals)
  else
    let fenced := fenceExpiredOwner run
    if givesUp run all stale then
      ({ needAttention "ACTION_RECONCILIATION_REQUIRED" fenced with
          resumePending := false
          eventLogComplete := false },
        approvals.map fun a => if a.executionStatus = .claimed then markUnknown a else a)
    else
      let recovered := recoverStatus pending all checkpointExists stale fenced
      (if recovered.status ≠ run.status then { recovered with eventLogComplete := false }
        else recovered, approvals)

/-- A pending approval whose time has passed expires. -/
def expireIfDue (now : Instant) (a : Approval) : Approval :=
  if a.decisionStatus = .pending ∧ a.isExpired now then expire now a else a

/-- What a pass reads besides the run: the approvals, whether a checkpoint exists, and two
readings of the clock. -/
structure PassInput where
  approvals : List Approval
  checkpointExists : Bool
  now : Instant
  transitionNow : Instant
  deriving DecidableEq, Repr

/-- A run that ended without a completion time gets one. -/
def stampCompletion (now : Instant) (run : AgentRun) : AgentRun :=
  if (run.status = .needsAttention ∨ run.status = .cancelled) ∧ run.completedAt = none then
    { run with completedAt := some now }
  else run

/-- A pass of `reconcile_run` or `reconcile_candidates`, in memory. -/
def reconcile (input : PassInput) (run : AgentRun) : AgentRun × List Approval :=
  let approvals := input.approvals.map (expireIfDue input.now)
  let pending := approvals.filter fun a => a.decisionStatus = .pending
  let (reconciled, written) := applyReconciliationTransition pending input.checkpointExists
    approvals (runIsStale run input.now) input.transitionNow run
  (stampCompletion input.now reconciled, written)

/-- The columns that the pass changed between the row it read and the row it leaves, written
over the current row. -/
def writeBack (read left current : Approval) : Approval :=
  { current with
    decisionStatus :=
      if left.decisionStatus = read.decisionStatus then current.decisionStatus
      else left.decisionStatus
    decidedAt := if left.decidedAt = read.decidedAt then current.decidedAt else left.decidedAt
    executionStatus :=
      if left.executionStatus = read.executionStatus then current.executionStatus
      else left.executionStatus
    failureCode :=
      if left.failureCode = read.failureCode then current.failureCode else left.failureCode }

/-! ## What the transition does to the run -/

section Run

variable {pending all approvals : List Approval} {checkpointExists stale : Bool} {now : Instant}
  {run : AgentRun}

@[simp] theorem stampCompletion_status (now : Instant) (run : AgentRun) :
    (stampCompletion now run).status = run.status := by
  unfold stampCompletion
  split_ifs <;> rfl

@[simp] theorem stampCompletion_executionOwner (now : Instant) (run : AgentRun) :
    (stampCompletion now run).executionOwner = run.executionOwner := by
  unfold stampCompletion
  split_ifs <;> rfl

theorem recoverStatus_executionOwner (pending all : List Approval) (checkpointExists stale : Bool)
    (run : AgentRun) :
    (recoverStatus pending all checkpointExists stale run).executionOwner =
      run.executionOwner := by
  unfold recoverStatus needAttention
  simp only [apply_ite AgentRun.executionOwner, ite_self]

/-- **The ways a transition can go**: a live owner is left alone; claimed executions are given
up; an expired owner is fenced; or the status of a free run is recovered. -/
inductive TransitionEffect (pending : List Approval) (checkpointExists : Bool)
    (approvals : List Approval) (stale : Bool) (now : Instant) (run : AgentRun) :
    AgentRun × List Approval → Prop
  | live (h : hasLiveOwner run now) :
      TransitionEffect pending checkpointExists approvals stale now run (run, approvals)
  | gaveUp {run' : AgentRun} (hlive : ¬ hasLiveOwner run now)
      (hup : givesUp run (if approvals = [] then pending else approvals) stale)
      (hst : run'.status = .needsAttention) (howner : run'.executionOwner = none) :
      TransitionEffect pending checkpointExists approvals stale now run
        (run', approvals.map fun a => if a.executionStatus = .claimed then markUnknown a else a)
  | fenced {run' : AgentRun}
      (hup : ¬ givesUp run (if approvals = [] then pending else approvals) stale)
      (hst : run'.status = .needsAttention) (howner : run'.executionOwner = none) :
      TransitionEffect pending checkpointExists approvals stale now run (run', approvals)
  | recovered {run' : AgentRun} (all : List Approval)
      (hup : ¬ givesUp run (if approvals = [] then pending else approvals) stale)
      (hfree : run.executionOwner = none) (howner : run'.executionOwner = none)
      (hst : run'.status = (recoverStatus pending all checkpointExists stale run).status) :
      TransitionEffect pending checkpointExists approvals stale now run (run', approvals)

theorem applyReconciliationTransition_effect (pending : List Approval) (checkpointExists : Bool)
    (approvals : List Approval) (stale : Bool) (now : Instant) (run : AgentRun) :
    TransitionEffect pending checkpointExists approvals stale now run
      (applyReconciliationTransition pending checkpointExists approvals stale now run) := by
  unfold applyReconciliationTransition
  simp only
  by_cases hlive : hasLiveOwner run now
  · rw [if_pos hlive]
    exact .live hlive
  · rw [if_neg hlive]
    have hfence : (fenceExpiredOwner run).executionOwner = none := by
      unfold fenceExpiredOwner
      cases howner : run.executionOwner <;> simp [howner]
    by_cases hup : givesUp run (if approvals = [] then pending else approvals) stale
    · rw [if_pos hup]
      exact .gaveUp hlive hup rfl hfence
    · rw [if_neg hup]
      cases howner : run.executionOwner with
      | none =>
        refine .recovered (if approvals = [] then pending else approvals) hup howner ?_ ?_
        · simp only [apply_ite AgentRun.executionOwner, ite_self, recoverStatus_executionOwner]
          exact hfence
        · simp only [apply_ite AgentRun.status, ite_self]
          rw [show fenceExpiredOwner run = run by simp [fenceExpiredOwner, howner]]
      | some t =>
        refine .fenced hup ?_ ?_
        · have hst : (fenceExpiredOwner run).status = .needsAttention := by
            simp [fenceExpiredOwner, howner, needAttention]
          simp [apply_ite AgentRun.status, recoverStatus, hst]
        · simp only [apply_ite AgentRun.executionOwner, ite_self, recoverStatus_executionOwner]
          exact hfence

end Run

/-! ## What a pass does to the approvals -/

section Approvals

variable {input : PassInput} {run : AgentRun} {a : Approval}

/-- The pass leaves an approval it read as it was, expired, given up, or both. -/
def reconciledApproval (gaveUp : Bool) (now : Instant) (a : Approval) : Approval :=
  let due := expireIfDue now a
  if gaveUp ∧ due.executionStatus = .claimed then markUnknown due else due

@[simp] theorem expireIfDue_id (now : Instant) (a : Approval) : (expireIfDue now a).id = a.id := by
  unfold expireIfDue
  split_ifs <;> rfl

@[simp] theorem expireIfDue_executionStatus (now : Instant) (a : Approval) :
    (expireIfDue now a).executionStatus = a.executionStatus := by
  unfold expireIfDue
  split_ifs <;> rfl

@[simp] theorem reconciledApproval_id (gaveUp : Bool) (now : Instant) (a : Approval) :
    (reconciledApproval gaveUp now a).id = a.id := by
  unfold reconciledApproval
  simp only
  split_ifs
  · exact expireIfDue_id now a
  · exact expireIfDue_id now a

theorem reconciledApproval_executionStatus (gaveUp : Bool) (now : Instant) (a : Approval) :
    (reconciledApproval gaveUp now a).executionStatus =
      if gaveUp ∧ a.executionStatus = .claimed then .unknownOutcome else a.executionStatus := by
  unfold reconciledApproval
  simp only [expireIfDue_executionStatus]
  split_ifs
  · rfl
  · exact expireIfDue_executionStatus now a

theorem reconciledApproval_decisionStatus (gaveUp : Bool) (now : Instant) (a : Approval) :
    (reconciledApproval gaveUp now a).decisionStatus =
      if a.decisionStatus = .pending ∧ a.isExpired now then .expired else a.decisionStatus := by
  unfold reconciledApproval expireIfDue
  simp only
  split_ifs <;> rfl

/-- The pass gives up on the claimed executions it has read: the run has no live owner, and is
stale or has an expired one. -/
def passGivesUp (input : PassInput) (run : AgentRun) : Bool :=
  !hasLiveOwner run input.transitionNow &&
    (runIsStale run input.now || run.executionOwner.isSome) &&
    input.approvals.any (·.executionStatus = .claimed)

theorem passGivesUp_iff (input : PassInput) (run : AgentRun) :
    passGivesUp input run ↔ ¬ hasLiveOwner run input.transitionNow ∧
      givesUp run (if input.approvals.map (expireIfDue input.now) = [] then
          (input.approvals.map (expireIfDue input.now)).filter
            fun a => a.decisionStatus = .pending
        else input.approvals.map (expireIfDue input.now)) (runIsStale run input.now) := by
  have hall : (if input.approvals.map (expireIfDue input.now) = [] then
      (input.approvals.map (expireIfDue input.now)).filter fun a => a.decisionStatus = .pending
      else input.approvals.map (expireIfDue input.now)) =
        input.approvals.map (expireIfDue input.now) := by
    split_ifs with hnil
    · rw [hnil]
      rfl
    · rfl
  rw [hall]
  simp [passGivesUp, givesUp, List.any_map, and_assoc]

/-- **The approvals after a pass**, and that giving up on one leaves the run in
`NEEDS_ATTENTION`. -/
theorem reconcile_approvals (input : PassInput) (run : AgentRun) :
    (reconcile input run).2 =
        input.approvals.map (reconciledApproval (passGivesUp input run) input.now) ∧
      (passGivesUp input run → (reconcile input run).1.status = .needsAttention) := by
  have hkept : ∀ g : Bool, g = false → input.approvals.map (expireIfDue input.now) =
      input.approvals.map (reconciledApproval g input.now) := by
    rintro _ rfl
    simp [reconciledApproval]
  have hiff := passGivesUp_iff input run
  unfold reconcile
  simp only [stampCompletion_status]
  generalize hout : applyReconciliationTransition _ input.checkpointExists
    (input.approvals.map (expireIfDue input.now)) (runIsStale run input.now)
    input.transitionNow run = out
  have heff := applyReconciliationTransition_effect ((input.approvals.map
    (expireIfDue input.now)).filter fun a => a.decisionStatus = .pending) input.checkpointExists
    (input.approvals.map (expireIfDue input.now)) (runIsStale run input.now) input.transitionNow
    run
  rw [hout] at heff
  cases heff with
  | live h =>
    have hno : passGivesUp input run = false := by simp [passGivesUp, h]
    exact ⟨hkept _ hno, by simp [hno]⟩
  | gaveUp hlive hup hst howner =>
    have hyes := hiff.mpr ⟨hlive, hup⟩
    refine ⟨?_, fun _ => hst⟩
    rw [List.map_map, hyes]
    simp [reconciledApproval]
  | fenced hup hst howner =>
    have hno : passGivesUp input run = false := by
      rw [← Bool.not_eq_true]
      exact fun hyes => hup (hiff.mp hyes).2
    exact ⟨hkept _ hno, fun _ => hst⟩
  | recovered all hup hfree howner hst =>
    have hno : passGivesUp input run = false := by
      rw [← Bool.not_eq_true]
      exact fun hyes => hup (hiff.mp hyes).2
    exact ⟨hkept _ hno, by simp [hno]⟩

/-- A row found among those a pass has read is found, reconciled, among those it leaves. -/
theorem find_reconciledApproval {approvals : List Approval} {gaveUp : Bool} {now : Instant}
    {i : ℕ} : Table.find (·.id) (approvals.map (reconciledApproval gaveUp now)) i =
      (Table.find (·.id) approvals i).map (reconciledApproval gaveUp now) := by
  simp only [Table.find, List.find?_map, Function.comp_def, reconciledApproval_id]

end Approvals

end AgentHub.Approvals
