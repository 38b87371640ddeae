import Mathlib.Data.Option.Basic
import Mathlib.Tactic.Common

/-!
# The run row and its transactions

Every transaction here locks the row of one run, or is one conditional `UPDATE` of it, so it is a
function of the row. Instants are microseconds and are read from a clock that the transaction
does not control. An execution owner is a token of one lease; `None` is no owner.

## Main definitions

* `RunStatus`, `AgentRun`: the row
* `claimLease`, `renewLease`, `leaseLost`, `leaseInterrupted`, `releaseLease`: the writes of
  `run_execution_lease`
* `completeRun`, `markWaiting`, `waitingResult`: the writes of the runtime service

## Main results

* `completeRun_ok`: a committed completion writes the effective outcome
-/

namespace AgentHub.Run

/-- The statuses of a run. -/
inductive RunStatus
  | running | waitingApproval | succeeded | failed | needsAttention | cancelRequested | cancelled
  deriving DecidableEq, Repr

abbrev Token := ℕ
abbrev Instant := ℕ

/-- The columns of `agent_runs` that the lifecycle reads and writes. -/
structure AgentRun where
  status : RunStatus
  inputText : String
  finalOutput : Option String
  failureCode : Option String
  eventLogComplete : Bool
  resumePending : Bool
  waitingApprovalId : Option ℕ
  executionOwner : Option Token
  executionLeaseExpiresAt : Option Instant
  startedAt : Option Instant
  completedAt : Option Instant
  modelStepCount : ℕ
  toolCallCount : ℕ
  threadTurnId : Option ℕ
  threadHistoryTranscript : Option String
  threadHistoryEvidenceRegistry : Option String
  deriving DecidableEq, Repr

/-- A run as it is created. -/
def newRun (inputText : String) (startedAt : Instant) : AgentRun where
  status := .running
  inputText := inputText
  finalOutput := none
  failureCode := none
  eventLogComplete := false
  resumePending := false
  waitingApprovalId := none
  executionOwner := none
  executionLeaseExpiresAt := none
  startedAt := some startedAt
  completedAt := none
  modelStepCount := 0
  toolCallCount := 0
  threadTurnId := none
  threadHistoryTranscript := none
  threadHistoryEvidenceRegistry := none

/-- `RUNNING` or `CANCEL_REQUESTED`: a graph of the run may be executing. -/
def RunStatus.inExecution : RunStatus → Bool
  | .running | .cancelRequested => true
  | _ => false

/-- The statuses from which no graph is started or resumed. -/
def RunStatus.isDone : RunStatus → Bool
  | .succeeded | .failed | .cancelled | .needsAttention => true
  | _ => false

/-! ## The execution lease -/

/-- `LEASE_SECONDS` in microseconds. -/
def leaseDuration : ℕ := 180 * 1000000

/-- `_live` -/
def live (expiry : Option Instant) (now : Instant) : Bool :=
  match expiry with
  | some expiry => now < expiry
  | none => false

/-- The claim of `run_execution_lease`: a free run is owned, an expired owner is fenced, and a
live owner or a status outside `allowed` is left alone. The second component says whether the
token owns the run now. -/
def claimLease (allowed : RunStatus → Bool) (token : Token) (now : Instant) (run : AgentRun) :
    AgentRun × Bool :=
  if allowed run.status then
    match run.executionOwner with
    | some _ =>
      if live run.executionLeaseExpiresAt now then (run, false)
      else
        ({ run with
          status := .needsAttention
          eventLogComplete := false
          failureCode := some "RUN_EXECUTION_LEASE_EXPIRED"
          completedAt := some now
          executionOwner := none
          executionLeaseExpiresAt := none }, false)
    | none =>
      ({ run with
        executionOwner := some token
        executionLeaseExpiresAt := some (now + leaseDuration) }, true)
  else (run, false)

/-- One renewal of `renew`: whether a row was updated. The database compares the expiry with its
own clock, `dbNow`. -/
def renewLease (token : Token) (dbNow now : Instant) (run : AgentRun) : AgentRun × Bool :=
  if run.executionOwner = some token ∧ live run.executionLeaseExpiresAt dbNow then
    ({ run with executionLeaseExpiresAt := some (now + leaseDuration) }, true)
  else (run, false)

/-- A row fenced to `NEEDS_ATTENTION` with a failure code. -/
def fenced (code : String) (now : Instant) (run : AgentRun) : AgentRun :=
  { run with
    status := .needsAttention
    eventLogComplete := false
    failureCode := some code
    completedAt := some now }

/-- The write of a renewal that lost the lease. It does not look at the status. -/
def leaseLost (token : Token) (now : Instant) (run : AgentRun) : AgentRun :=
  if run.executionOwner = some token then fenced "RUN_EXECUTION_LEASE_LOST" now run else run

/-- The write of a lease left by an exception. -/
def leaseInterrupted (token : Token) (now : Instant) (run : AgentRun) : AgentRun :=
  if run.executionOwner = some token ∧ run.status.inExecution then
    fenced "RUN_EXECUTION_INTERRUPTED" now run
  else run

/-- The release: ownership is cleared and an unfinished graph is fenced in one update. -/
def releaseLease (token : Token) (now : Instant) (run : AgentRun) : AgentRun :=
  if run.executionOwner = some token then
    let released := { run with executionOwner := none, executionLeaseExpiresAt := none }
    if run.status.inExecution then fenced "RUN_EXECUTION_INTERRUPTED" now released else released
  else run

/-! ## Completion -/

/-- What `build_turn_transcript` makes of the messages of a turn: the contents of its first and
last message, its number of tool calls, its payload, and its evidence registry when that could
be built. -/
structure BuiltTranscript where
  firstContent : String
  lastContent : String
  toolCalls : ℕ
  payload : String
  evidence : Option String
  deriving DecidableEq, Repr

/-- The arguments of `_complete_run`. A turn transcript that was given but could not be built is
`some none`. -/
structure CompletionArgs where
  status : RunStatus
  finalOutput : Option String
  failureCode : Option String
  modelStepCount : ℕ
  toolCallCount : ℕ
  turnTranscript : Option (Option BuiltTranscript)
  deriving DecidableEq, Repr

/-- What `_complete_run` reads of other tables: an approval of the run that is `CLAIMED` or
`UNKNOWN_OUTCOME`, and a model attempt of unknown outcome. -/
structure CompletionEvidence where
  claimedAction : Bool
  budgetUnknown : Bool
  deriving DecidableEq, Repr

/-- `value or default` on an optional text. -/
def orText (value : Option String) (default : String) : String :=
  match value with
  | none | some "" => default
  | some text => text

/-- `_is_uncertain_action_failure` -/
def isUncertainActionFailure (failureCode : Option String) : Bool :=
  failureCode = some "UNKNOWN_OUTCOME" || failureCode = some "ACTION_OUTCOME_UNKNOWN" ||
    failureCode = some "ACTION_RECONCILIATION_REQUIRED"

/-- The status, output and failure code a completion commits. -/
def effectiveOutcome (args : CompletionArgs) (evidence : CompletionEvidence) (run : AgentRun) :
    RunStatus × Option String × Option String :=
  if args.status = .needsAttention ∨ isUncertainActionFailure args.failureCode ∨
      evidence.claimedAction then
    (.needsAttention, none, some (orText args.failureCode "ACTION_RECONCILIATION_REQUIRED"))
  else if evidence.budgetUnknown then
    (.needsAttention, args.finalOutput, some "RUN_BUDGET_RECONCILIATION_REQUIRED")
  else
    match run.status with
    | .cancelled | .needsAttention => (run.status, run.finalOutput, run.failureCode)
    -- the second test for an uncertain outcome in this branch of the source never holds
    | .cancelRequested => (.cancelled, none, none)
    | _ => (args.status, args.finalOutput, args.failureCode)

/-- The transcript columns of a completed turn: a transcript that does not match the run is not
stored, and one that differs from the stored transcript raises. -/
def storeTranscript (args : CompletionArgs) (run : AgentRun) : Except String AgentRun :=
  match args.turnTranscript with
  | some (some built) =>
    if run.status = .succeeded ∧ run.threadTurnId.isSome ∧ built.firstContent = run.inputText ∧
        some built.lastContent = run.finalOutput ∧ built.toolCalls = run.toolCallCount then
      if run.threadHistoryTranscript.isSome ∧ run.threadHistoryTranscript ≠ some built.payload then
        .error "AGENT_HISTORY_SNAPSHOT_INVALID"
      else
        let stored := { run with threadHistoryTranscript := some built.payload }
        match built.evidence with
        | none => .ok stored
        | some evidence =>
          if run.threadHistoryEvidenceRegistry.isSome ∧
              run.threadHistoryEvidenceRegistry ≠ some evidence then
            .error "AGENT_HISTORY_SNAPSHOT_INVALID"
          else .ok { stored with threadHistoryEvidenceRegistry := some evidence }
    else .ok run
  | _ => .ok run

/-- `_complete_run`: the committed row, or the error that rolls the transaction back. -/
def completeRun (args : CompletionArgs) (evidence : CompletionEvidence) (now : Instant)
    (run : AgentRun) : Except String AgentRun := do
  let (status, output, failure) := effectiveOutcome args evidence run
  let completed ← storeTranscript args
    { run with
      status := status
      eventLogComplete := false
      resumePending := false
      waitingApprovalId := none
      finalOutput := output
      failureCode := failure
      modelStepCount := max args.modelStepCount run.modelStepCount
      toolCallCount := max args.toolCallCount run.toolCallCount }
  pure { completed with completedAt := some now }

/-! ## Cancellation, waiting and resuming -/

/-- `_mark_waiting` -/
def markWaiting (run : AgentRun) : AgentRun :=
  if run.status = .running then
    { run with status := .waitingApproval, eventLogComplete := false }
  else run

/-- The row written by `_waiting_result`; `decided` says whether the approval waited for has been
decided while the graph reached its interrupt. -/
def waitingResult (modelStepCount toolCallCount : ℕ) (waitingApprovalId : Option ℕ)
    (decided : Bool) (run : AgentRun) : AgentRun :=
  { run with
    modelStepCount := modelStepCount
    toolCallCount := toolCallCount
    status := if run.status = .running then .waitingApproval else run.status
    eventLogComplete := false
    waitingApprovalId := waitingApprovalId
    resumePending := decided }

/-! ## Status moves -/

section Moves

variable {run run' : AgentRun} {token : Token} {now dbNow : Instant}
  {args : CompletionArgs} {evidence : CompletionEvidence}

/-- The transcript columns are all that `storeTranscript` writes. -/
theorem storeTranscript_ok (h : storeTranscript args run = .ok run') :
    run'.executionOwner = run.executionOwner ∧ run'.status = run.status ∧
      run'.finalOutput = run.finalOutput := by
  unfold storeTranscript at h
  split at h
  · split_ifs at h
    · split at h
      · obtain rfl := Except.ok.inj h
        exact ⟨rfl, rfl, rfl⟩
      · split_ifs at h
        obtain rfl := Except.ok.inj h
        exact ⟨rfl, rfl, rfl⟩
    · obtain rfl := Except.ok.inj h
      exact ⟨rfl, rfl, rfl⟩
  · obtain rfl := Except.ok.inj h
    exact ⟨rfl, rfl, rfl⟩

/-- A committed completion writes the effective outcome and keeps the owner. -/
theorem completeRun_ok (h : completeRun args evidence now run = .ok run') :
    run'.executionOwner = run.executionOwner ∧
      run'.status = (effectiveOutcome args evidence run).1 ∧
      run'.finalOutput = (effectiveOutcome args evidence run).2.1 := by
  unfold completeRun at h
  simp only [bind, Except.bind, pure, Except.pure] at h
  split at h
  · simp at h
  · rename_i completed hstore
    obtain rfl := Except.ok.inj h
    exact storeTranscript_ok hstore

/-- A completion that does not ask for success does not leave one, also where it finds one. -/
theorem effectiveOutcome_ne_succeeded (hargs : args.status ≠ .succeeded) (run : AgentRun) :
    (effectiveOutcome args evidence run).1 ≠ .succeeded := by
  unfold effectiveOutcome
  split_ifs
  · simp
  · simp
  · cases hs : run.status <;> simp [hargs]

end Moves

end AgentHub.Run
