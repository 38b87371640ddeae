import AgentHub.Approvals.Reconciliation
import AgentHub.Lib.System

/-!
# Interleavings on one approval

The operations of the approval service, reconciliation passes and any number of graph workers on
the row of one approval, under READ COMMITTED: a statement sees committed rows, a conditional
update or a locked row is one step, and a pass writes the columns it changed over whatever the
row has become since it was read. A pass holds the lock of the run from its read to its commit,
and `decide` takes that lock first; the other operations do not.

A worker is one run of `action_execute` over the approval: it loads the row, claims the
execution, checks the permissions of the run's actor again, invokes the action runtime and
reports the outcome. It may stop at any point.

## Main definitions

* `Pass`: a pass between its read and its commit
* `Worker`: a worker and where it stands
* `ApprovalState`, `ApprovalEvent`, `approvalSystem`: all interleavings

## Main results

* `pass_left`: what a pass in progress is going to write
* `PassInvariant`: what stays true of the row while a pass is in progress
* `writeBack_decisionStatus`, `writeBack_executionStatus`: what its commit writes
-/

namespace AgentHub.Approvals

open Lib AgentHub.Run

/-- A pass that has read the run, the approvals and the clock, and the row it read of this
approval. -/
structure Pass where
  run : AgentRun
  input : PassInput
  read : Approval
  deriving DecidableEq, Repr

/-- The row of this approval as the pass leaves it in memory. -/
def Pass.left (p : Pass) : Approval :=
  (Table.find (·.id) (reconcile p.input p.run).2 p.read.id).getD p.read

/-- Where a run of `action_execute` stands on this approval. -/
inductive WorkerPc
  | loading | checked | claimed | invoked | ended
  deriving DecidableEq, Repr

structure Worker where
  id : ℕ
  pc : WorkerPc
  deriving DecidableEq, Repr

/-- The row, the pass in progress, the workers, and the row as it was at each invocation of the
action runtime. -/
structure ApprovalState where
  approval : Approval
  pass : Option Pass
  workers : List Worker
  invocations : List Approval
  deriving DecidableEq, Repr

/-- The state with a worker elsewhere. -/
def ApprovalState.setPc (s : ApprovalState) (worker : ℕ) (pc : WorkerPc) : ApprovalState :=
  { s with workers := Table.modify (·.id) s.workers worker fun w => { w with pc := pc } }

/-- The worker stands at `pc`. -/
def ApprovalState.at (s : ApprovalState) (worker : ℕ) (pc : WorkerPc) : Prop :=
  Table.find (·.id) s.workers worker = some ⟨worker, pc⟩

instance (s : ApprovalState) (worker : ℕ) (pc : WorkerPc) : Decidable (s.at worker pc) :=
  inferInstanceAs (Decidable (_ = _))

inductive ApprovalEvent
  | decide (decider : Decider) (decision : ApprovalDecisionStatus) (now : ℕ)
  | claim (now : ℕ)
  | complete (outcome : ExecutionOutcome) (now : ℕ)
  | cancelPending (userId now : ℕ)
  | beginPass (run : AgentRun) (before after : List Approval) (checkpointExists : Bool)
      (now transitionNow : Instant)
  | commitPass
  | abortPass
  | spawn (worker : ℕ)
  | load (worker : ℕ)
  | claimAction (worker now : ℕ)
  | stop (worker : ℕ)
  | invoke (worker : ℕ)
  | report (worker : ℕ) (outcome : ExecutionOutcome) (now : ℕ)
  deriving DecidableEq, Repr

/-- The row after an operation that may raise. -/
def ApprovalState.write (s : ApprovalState) (r : Except String Approval) : Option ApprovalState :=
  match r with
  | .ok b => some { s with approval := b }
  | .error _ => none

/-- One step. -/
def approvalStep (s : ApprovalState) : ApprovalEvent → Option ApprovalState
  | .decide decider decision now =>
    -- waits for the lock of the run
    if s.pass = none then s.write ((decide decider decision now s.approval).map (·.1)) else none
  | .claim now => (claimExecution now s.approval).map fun b => { s with approval := b }
  | .complete outcome now => s.write (completeExecution outcome now s.approval)
  | .cancelPending userId now =>
    some { s with approval := cancelPending userId now s.approval }
  | .beginPass run before after checkpointExists now transitionNow =>
    if s.pass = none ∧ Table.find (·.id) before s.approval.id = none then
      let input : PassInput :=
        ⟨before ++ s.approval :: after, checkpointExists, now, transitionNow⟩
      some { s with pass := some ⟨run, input, s.approval⟩ }
    else none
  | .commitPass =>
    s.pass.map fun p => { s with approval := writeBack p.read p.left s.approval, pass := none }
  | .abortPass => some { s with pass := none }
  | .spawn worker =>
    if Table.find (·.id) s.workers worker = none then
      some { s with workers := s.workers ++ [⟨worker, .loading⟩] }
    else none
  | .load worker =>
    if s.at worker .loading then
      some (s.setPc worker (if s.approval.executionStatus.hasOutcome then .ended else .checked))
    else none
  | .claimAction worker now =>
    if s.at worker .checked then
      match claimExecution now s.approval with
      | some b => some { s.setPc worker .claimed with approval := b }
      | none => some (s.setPc worker .ended)
    else none
  | .stop worker => some (s.setPc worker .ended)
  | .invoke worker =>
    if s.at worker .claimed then
      some { s.setPc worker .invoked with invocations := s.invocations ++ [s.approval] }
    else none
  | .report worker outcome now =>
    if s.at worker .invoked then
      (s.setPc worker .ended).write (completeExecution outcome now s.approval)
    else none

/-- All interleavings on an approval that was just requested. -/
def approvalSystem : System ApprovalState ApprovalEvent where
  init s := s.approval.decisionStatus = .pending ∧ s.approval.executionStatus = .notStarted ∧
    s.pass = none ∧ s.workers = [] ∧ s.invocations = []
  step := approvalStep

/-! ## What a step does to the row -/

/-- The events that can leave the row alone. -/
def ApprovalEvent.mayIdle : ApprovalEvent → Bool
  | .abortPass | .spawn _ | .load _ | .claimAction _ _ | .stop _ | .invoke _ => true
  | _ => false

/-- Everything a step can do to the row and the pass: an operation of the service on the row, the
beginning or the end of a pass, or nothing. -/
inductive RowStep (s t : ApprovalState) : ApprovalEvent → Prop
  | decided {decider : Decider} {decision : ApprovalDecisionStatus} {now : ℕ} {written : Bool}
      (hpass : s.pass = none) (hpass' : t.pass = s.pass)
      (h : decide decider decision now s.approval = .ok (t.approval, written)) :
      RowStep s t (.decide decider decision now)
  | claimed {e : ApprovalEvent} {now : ℕ} (hpass : t.pass = s.pass)
      (h : claimExecution now s.approval = some t.approval)
      (he : e = .claim now ∨ ∃ worker, e = .claimAction worker now) : RowStep s t e
  | completed {e : ApprovalEvent} {outcome : ExecutionOutcome} {now : ℕ} (hpass : t.pass = s.pass)
      (h : completeExecution outcome now s.approval = .ok t.approval)
      (he : e = .complete outcome now ∨ ∃ worker, e = .report worker outcome now) :
      RowStep s t e
  | cancelled {userId now : ℕ} (hpass : t.pass = s.pass)
      (h : t.approval = cancelPending userId now s.approval) :
      RowStep s t (.cancelPending userId now)
  | began {run : AgentRun} {before after : List Approval} {checkpointExists : Bool}
      {now transitionNow : Instant} (hrow : t.approval = s.approval)
      (hnew : Table.find (·.id) before s.approval.id = none)
      (h : t.pass = some ⟨run, ⟨before ++ s.approval :: after, checkpointExists, now,
        transitionNow⟩, s.approval⟩) :
      RowStep s t (.beginPass run before after checkpointExists now transitionNow)
  | committed {p : Pass} (h : s.pass = some p) (hpass : t.pass = none)
      (hrow : t.approval = writeBack p.read p.left s.approval) : RowStep s t .commitPass
  | idle {e : ApprovalEvent} (hrow : t.approval = s.approval)
      (hpass : t.pass = s.pass ∨ t.pass = none) (he : e.mayIdle) : RowStep s t e

variable {s t : ApprovalState}

theorem write_eq_some {r : Except String Approval} (h : s.write r = some t) :
    r = .ok t.approval ∧ t = { s with approval := t.approval } := by
  unfold ApprovalState.write at h
  split at h
  · obtain rfl := Option.some.inj h
    exact ⟨rfl, rfl⟩
  · simp at h

theorem approvalStep_row {e : ApprovalEvent} (h : approvalStep s e = some t) : RowStep s t e := by
  cases e with
  | decide decider decision now =>
    simp only [approvalStep] at h
    split_ifs at h with hpass
    obtain ⟨hr, ht⟩ := write_eq_some h
    cases hd : decide decider decision now s.approval with
    | error m => simp [hd, Except.map] at hr
    | ok r =>
      obtain ⟨b, written⟩ := r
      simp only [hd, Except.map, Except.ok.injEq] at hr
      subst hr
      exact .decided hpass (by rw [ht]) hd
  | claim now =>
    obtain ⟨b, hb, rfl⟩ := Option.map_eq_some_iff.mp h
    exact .claimed rfl hb (Or.inl rfl)
  | complete outcome now =>
    obtain ⟨hr, ht⟩ := write_eq_some h
    exact .completed (by rw [ht]) hr (Or.inl rfl)
  | cancelPending userId now =>
    obtain rfl := Option.some.inj h
    exact .cancelled rfl rfl
  | beginPass run before after checkpointExists now transitionNow =>
    simp only [approvalStep] at h
    split_ifs at h with hg
    obtain rfl := Option.some.inj h
    exact .began rfl hg.2 rfl
  | commitPass =>
    obtain ⟨p, hp, rfl⟩ := Option.map_eq_some_iff.mp h
    exact .committed hp rfl rfl
  | abortPass =>
    obtain rfl := Option.some.inj h
    exact .idle rfl (Or.inr rfl) rfl
  | claimAction worker now =>
    simp only [approvalStep] at h
    split_ifs at h
    split at h
    · rename_i b hb
      obtain rfl := Option.some.inj h
      exact .claimed rfl hb (Or.inr ⟨worker, rfl⟩)
    · obtain rfl := Option.some.inj h
      exact .idle rfl (Or.inl rfl) rfl
  | report worker outcome now =>
    simp only [approvalStep] at h
    split_ifs at h
    obtain ⟨hr, ht⟩ := write_eq_some h
    refine .completed ?_ hr (Or.inr ⟨worker, rfl⟩)
    rw [ht]
    rfl
  | stop worker =>
    obtain rfl := Option.some.inj h
    exact .idle rfl (Or.inl rfl) rfl
  | load worker =>
    simp only [approvalStep] at h
    by_cases hat : s.at worker .loading
    · rw [if_pos hat] at h
      obtain rfl := Option.some.inj h
      exact .idle rfl (Or.inl rfl) rfl
    · simp [hat] at h
  | spawn worker | invoke worker =>
    simp only [approvalStep] at h
    split_ifs at h
    obtain rfl := Option.some.inj h
    exact .idle rfl (Or.inl rfl) rfl

/-! ## A pass in progress -/

/-- What a pass in progress has read, and what can have become of it since: a pending decision
can only have been cancelled, because deciding waits for the pass, and a claimed execution can
only have been completed. -/
structure PassInvariant (s : ApprovalState) : Prop where
  read : ∀ p, s.pass = some p → Table.find (·.id) p.input.approvals p.read.id = some p.read
  decision : ∀ p, s.pass = some p → p.read.decisionStatus = .pending →
    s.approval.decisionStatus = .pending ∨ s.approval.decisionStatus = .cancelled
  execution : ∀ p, s.pass = some p → p.read.executionStatus = .claimed →
    s.approval.executionStatus = .claimed ∨ s.approval.executionStatus.hasOutcome

/-- A pass leaves the row as it read it, expired, given up, or both. -/
theorem pass_left {p : Pass} (h : PassInvariant s) (hp : s.pass = some p) :
    p.left = reconciledApproval (passGivesUp p.input p.run) p.input.now p.read := by
  unfold Pass.left
  rw [(reconcile_approvals p.input p.run).1, find_reconciledApproval, h.read p hp]
  rfl

section Commit

variable {s : ApprovalState} {p : Pass}

/-- The decision a pass commits. -/
theorem writeBack_decisionStatus (h : PassInvariant s) (hp : s.pass = some p) :
    (writeBack p.read p.left s.approval).decisionStatus =
      if p.read.decisionStatus = .pending ∧ p.read.isExpired p.input.now then .expired
      else s.approval.decisionStatus := by
  unfold writeBack
  rw [pass_left h hp, reconciledApproval_decisionStatus]
  by_cases hdue : p.read.decisionStatus = .pending ∧ p.read.isExpired p.input.now
  · simp [hdue]
  · simp [hdue]

/-- The execution a pass commits. -/
theorem writeBack_executionStatus (h : PassInvariant s) (hp : s.pass = some p) :
    (writeBack p.read p.left s.approval).executionStatus =
      if passGivesUp p.input p.run ∧ p.read.executionStatus = .claimed then .unknownOutcome
      else s.approval.executionStatus := by
  unfold writeBack
  rw [pass_left h hp, reconciledApproval_executionStatus]
  by_cases hup : passGivesUp p.input p.run ∧ p.read.executionStatus = .claimed
  · simp [hup]
  · simp [hup]

end Commit

/-- A completion leaves an outcome. -/
theorem completeExecution_hasOutcome {a b : Approval} {outcome : ExecutionOutcome} {now : ℕ}
    (h : completeExecution outcome now a = .ok b) :
    b.executionStatus.hasOutcome ∧ b.decisionStatus = a.decisionStatus := by
  unfold completeExecution at h
  split_ifs at h with h₁ h₂
  · obtain rfl := Except.ok.inj h
    exact ⟨h₂, rfl⟩
  · obtain rfl := Except.ok.inj h
    exact ⟨by simpa using h₁, rfl⟩

theorem passInvariant_step {e : ApprovalEvent} (h : PassInvariant s)
    (hs : approvalSystem.step s e = some t) : PassInvariant t := by
  have hnone : t.pass = none → PassInvariant t := fun hn =>
    ⟨fun p hp => by simp [hn] at hp, fun p hp => by simp [hn] at hp,
      fun p hp => by simp [hn] at hp⟩
  cases approvalStep_row hs with
  | decided hpass hpass' hd => exact hnone (hpass'.trans hpass)
  | committed hp hpass hrow => exact hnone hpass
  | claimed hpass hc he =>
    unfold claimExecution at hc
    split_ifs at hc with hg
    have hrow := Option.some.inj hc
    refine ⟨fun p hp => h.read p (hpass ▸ hp), fun p hp hd => ?_, fun p hp hx => ?_⟩
    · rw [← hrow]
      exact h.decision p (hpass ▸ hp) hd
    · left
      rw [← hrow]
  | completed hpass hc he =>
    obtain ⟨hout, hdec⟩ := completeExecution_hasOutcome hc
    refine ⟨fun p hp => h.read p (hpass ▸ hp), fun p hp hd => ?_, fun p hp hx => Or.inr hout⟩
    rw [hdec]
    exact h.decision p (hpass ▸ hp) hd
  | cancelled hpass hrow =>
    refine ⟨fun p hp => h.read p (hpass ▸ hp), fun p hp hd => ?_, fun p hp hx => ?_⟩
    · rw [hrow]
      unfold cancelPending
      split_ifs
      · exact Or.inr rfl
      · exact h.decision p (hpass ▸ hp) hd
    · rw [hrow, cancelPending_executionStatus]
      exact h.execution p (hpass ▸ hp) hx
  | began hrow hnew hp' =>
    refine ⟨fun p hp => ?_, fun p hp hd => ?_, fun p hp hx => ?_⟩
    · obtain rfl := Option.some.inj (hp'.symm.trans hp)
      unfold Table.find at *
      rw [List.find?_append, hnew]
      simp
    · obtain rfl := Option.some.inj (hp'.symm.trans hp)
      rw [hrow]
      exact Or.inl hd
    · obtain rfl := Option.some.inj (hp'.symm.trans hp)
      rw [hrow]
      exact Or.inl hx
  | idle hrow hpass he =>
    rcases hpass with hpass | hpass
    · refine ⟨fun p hp => h.read p (hpass ▸ hp), fun p hp hd => ?_, fun p hp hx => ?_⟩
      · rw [hrow]
        exact h.decision p (hpass ▸ hp) hd
      · rw [hrow]
        exact h.execution p (hpass ▸ hp) hx
    · exact hnone hpass

theorem passInvariant_init (h : approvalSystem.init s) : PassInvariant s := by
  have hpass := h.2.2.1
  exact ⟨fun p hp => by simp [hpass] at hp, fun p hp => by simp [hpass] at hp,
    fun p hp => by simp [hpass] at hp⟩

/-! ## An approval to run -/

/-- An approval that was just requested. -/
def requestedApproval : Approval where
  id := 1
  requestedBy := 7
  expiresAt := none
  decisionStatus := .pending
  decidedBy := none
  decidedAt := none
  executionStatus := .notStarted
  executionAttemptCount := 0
  claimedAt := none
  executedAt := none
  safeResult := none
  failureCode := none
  safeFailureMessage := none

/-- No pass, no worker. -/
def requestedState : ApprovalState := ⟨requestedApproval, none, [], []⟩

/-- The run of the approval, under a lease that expires at 60. -/
def leasedRun : AgentRun :=
  { newRun "mail it" 0 with executionOwner := some 1, executionLeaseExpiresAt := some 60 }

end AgentHub.Approvals
