import AgentHub.Lib.System
import AgentHub.Run.Row

/-!
# The stream producer of a run

One producer runs the graph of a run under its lease, completes the run and emits the terminal
event. Cancellation or an exception may reach it at any await; it then starts a failing
completion behind `asyncio.shield`, which commits on its own even when the producer is cancelled
again. Beside it run the renewal of the lease, whose loss is a write of its own, and the abort of
a stream nobody watches, which starts one more failing completion once the producer has ended.

`_complete_run` keeps a row that is `CANCELLED` or `NEEDS_ATTENTION`, but not one that is
`SUCCEEDED`, and the write of a lost lease does not look at the status.

## Main definitions

* `ProducerState`, `ProducerEvent`, `producer`: the producer, its shielded completions, the
  renewal and the abort, step by step
* `Overwrites`: the steps that rewrite a finished run

## Main results

* `succeeded_stays_iff`: a run of the system keeps a success just when none of its steps overwrites
* `succeeded_not_final`: the successful run that ends as failed
-/

namespace AgentHub.Run

open Lib

/-! ## The parties -/

/-- Where the producer stands. -/
inductive ProducerPc
  /-- The graph is running. -/
  | body
  /-- Between `_mark_waiting` and `_waiting_result`. -/
  | parking
  /-- In the `_complete_run` at the end of `_produce_stream_body`. -/
  | completing (args : CompletionArgs)
  /-- Emitting and queueing the terminal event. -/
  | emitting
  /-- Awaiting the shielded completion of the cancellation path, or of the exception path. -/
  | closing (cancelled : Bool)
  /-- Emitting `RUN_FAILED` on the exception path. -/
  | reporting
  /-- In the `except` branch of the lease, for a cancellation or for another exception. -/
  | leaving (cancelled : Bool)
  /-- In the `finally` branch of the lease, stopping the renewal. -/
  | finishing
  /-- In the update that releases the lease. -/
  | releasing
  | done
  deriving DecidableEq, Repr

/-- Where the renewal of the lease stands: sleeping, writing that the lease is lost, or ended. -/
inductive RenewalPc
  | running | losing | stopped
  deriving DecidableEq, Repr

/-- Where `abort_if_active` stands: not called, waiting for the producer it cancelled, or done. -/
inductive AbortPc
  | idle | waiting | done
  deriving DecidableEq, Repr

/-- The row, the lease token, and the parties. `shielded` holds the failure codes of the failing
completions that have been started and have not ended. -/
structure ProducerState where
  run : AgentRun
  token : Token
  producer : ProducerPc
  shielded : List String
  renewal : RenewalPc
  lost : Bool
  abort : AbortPc
  deriving DecidableEq, Repr

/-- The arguments of a failing completion of the producer or of the abort. The step counts come
from the graph, if it has been built. -/
def failingCompletion (failureCode : String) (modelStepCount toolCallCount : ℕ) :
    CompletionArgs where
  status := .failed
  finalOutput := none
  failureCode := some failureCode
  modelStepCount := modelStepCount
  toolCallCount := toolCallCount
  turnTranscript := none

/-- The steps of the parties. -/
inductive ProducerEvent
  | markWaiting
  | park (modelStepCount toolCallCount : ℕ) (waitingApprovalId : Option ℕ) (decided : Bool)
  | finishBody (args : CompletionArgs)
  | commitCompletion (evidence : CompletionEvidence) (now : Instant)
  | emit
  | raise
  | cancel
  | commitShielded (index modelStepCount toolCallCount : ℕ) (evidence : CompletionEvidence)
      (now : Instant)
  | failShielded (index : ℕ)
  | closed (raised : Bool)
  | report
  | leave (now : Instant)
  | skipLeave
  | stopRenewal
  | release (now : Instant)
  | failRelease
  | renew (dbNow now : Instant)
  | failRenew
  | writeLost (now : Instant)
  | failWriteLost
  | abort
  | abortComplete
  deriving DecidableEq, Repr

/-! ## Steps -/

/-- The producer starts a failing completion and awaits it. -/
def ProducerState.closeWith (s : ProducerState) (failureCode : String) (cancelled : Bool) :
    ProducerState :=
  { s with producer := .closing cancelled, shielded := s.shielded ++ [failureCode] }

/-- An exception that is not a cancellation, at an await of the producer. -/
def raiseStep (s : ProducerState) : Option ProducerState :=
  match s.producer with
  | .completing _ | .emitting => some (s.closeWith "AGENT_STREAM_PRODUCER_FAILED" false)
  | _ => none

/-- A cancellation delivered at an await of the producer. In the `finally` branch of the lease it
is suppressed while the renewal is awaited. -/
def cancelStep (s : ProducerState) : Option ProducerState :=
  match s.producer with
  | .body | .parking | .completing _ | .emitting =>
    some (s.closeWith "AGENT_STREAM_CANCELLED" true)
  | .closing _ | .reporting => some { s with producer := .leaving true }
  | .leaving _ => some { s with producer := .finishing }
  | .releasing => some { s with producer := .done }
  | .finishing | .done => none

/-- One step of one party. -/
def producerStep (s : ProducerState) : ProducerEvent → Option ProducerState
  | .markWaiting =>
    if s.producer = .body then
      some { s with run := Run.markWaiting s.run, producer := .parking }
    else none
  | .park modelStepCount toolCallCount waitingApprovalId decided =>
    if s.producer = .parking then
      some { s with
        run := waitingResult modelStepCount toolCallCount waitingApprovalId decided s.run
        producer := .finishing }
    else none
  | .finishBody args =>
    if (s.producer = .body ∨ s.producer = .parking) ∧ args.status.isDone then
      some { s with producer := .completing args }
    else none
  | .commitCompletion evidence now =>
    match s.producer with
    | .completing args =>
      match completeRun args evidence now s.run with
      | .ok run => some { s with run := run, producer := .emitting }
      | .error _ => none
    | _ => none
  | .emit => if s.producer = .emitting then some { s with producer := .finishing } else none
  | .raise => raiseStep s
  | .cancel => cancelStep s
  | .commitShielded index modelStepCount toolCallCount evidence now =>
    match s.shielded[index]? with
    | some code =>
      match completeRun (failingCompletion code modelStepCount toolCallCount) evidence now
          s.run with
      | .ok run => some { s with run := run, shielded := s.shielded.eraseIdx index }
      | .error _ => none
    | none => none
  | .failShielded index => some { s with shielded := s.shielded.eraseIdx index }
  | .closed raised =>
    match s.producer with
    | .closing true => some { s with producer := .leaving (!raised) }
    | .closing false => some { s with producer := .reporting }
    | _ => none
  | .report => if s.producer = .reporting then some { s with producer := .finishing } else none
  | .leave now =>
    match s.producer with
    | .leaving cancelled =>
      if cancelled ∧ s.lost then none
      else some { s with run := leaseInterrupted s.token now s.run, producer := .finishing }
    | _ => none
  | .skipLeave =>
    match s.producer with
    | .leaving _ => some { s with producer := .finishing }
    | _ => none
  | .stopRenewal =>
    if s.producer = .finishing then some { s with producer := .releasing, renewal := .stopped }
    else none
  | .release now =>
    if s.producer = .releasing then
      some { s with run := releaseLease s.token now s.run, producer := .done }
    else none
  | .failRelease => if s.producer = .releasing then some { s with producer := .done } else none
  | .renew dbNow now =>
    if s.renewal = .running then
      if (renewLease s.token dbNow now s.run).2 then
        some { s with run := (renewLease s.token dbNow now s.run).1 }
      else some { s with renewal := .losing, lost := true }
    else none
  | .failRenew =>
    if s.renewal = .running then some { s with renewal := .losing, lost := true } else none
  | .writeLost now =>
    if s.renewal = .losing then
      some { s with run := leaseLost s.token now s.run, renewal := .stopped }
    else none
  | .failWriteLost => if s.renewal = .losing then some { s with renewal := .stopped } else none
  | .abort =>
    if s.abort = .idle ∧ s.producer ≠ .done then some { s with abort := .waiting } else none
  | .abortComplete =>
    if s.abort = .waiting ∧ s.producer = .done then
      some { s with abort := .done, shielded := s.shielded ++ ["AGENT_STREAM_CANCELLED"] }
    else none

/-- A producer that has just claimed a run in execution, and everything beside it. -/
def producer : System ProducerState ProducerEvent where
  init s := s.run.status.inExecution ∧ s.run.executionOwner = some s.token ∧
    s.producer = .body ∧ s.shielded = [] ∧ s.renewal = .running ∧ s.lost = false ∧
    s.abort = .idle
  step := producerStep

/-! ## What keeps a success -/

/-- The steps that rewrite a run that succeeded: a failing completion that commits, and the write
of a lost lease whose token still owns the run. -/
def Overwrites (s : ProducerState) : ProducerEvent → Prop
  | .commitShielded .. => True
  | .writeLost _ => s.run.executionOwner = some s.token
  | _ => False

/-- The producer has left the part of its body before and in the completion. -/
def ProducerPc.pastCompletion : ProducerPc → Bool
  | .body | .parking | .completing _ => false
  | _ => true

/-- A run succeeds only by the completion of its producer. -/
def SucceededByProducer (s : ProducerState) : Prop :=
  s.run.status = .succeeded → s.producer.pastCompletion

/-- The run succeeded with a given output. -/
def SucceededWith (output : String) (s : ProducerState) : Prop :=
  s.run.status = .succeeded ∧ s.run.finalOutput = some output

/-- A write that neither makes nor unmakes a success. -/
structure KeepsSuccess (run run' : AgentRun) : Prop where
  status : run'.status = .succeeded ↔ run.status = .succeeded
  output : run.status = .succeeded → run'.finalOutput = run.finalOutput

section Steps

variable {s t : ProducerState} {e : ProducerEvent} {run : AgentRun} {token : Token}
  {now : Instant}

theorem KeepsSuccess.refl (run : AgentRun) : KeepsSuccess run run := ⟨Iff.rfl, fun _ => rfl⟩

/-- A write that changes a status in execution to another one that is no success. -/
theorem keepsSuccess_of_inExecution {run run' : AgentRun} (h : run.status.inExecution)
    (h' : run'.status ≠ .succeeded) : KeepsSuccess run run' := by
  have hne : run.status ≠ .succeeded := by
    intro hs
    simp [hs, RunStatus.inExecution] at h
  exact ⟨⟨fun hs => absurd hs h', fun hs => absurd hs hne⟩, fun hs => absurd hs hne⟩

theorem keepsSuccess_renewLease (dbNow : Instant) :
    KeepsSuccess run (renewLease token dbNow now run).1 := by
  unfold renewLease
  split_ifs
  · exact ⟨Iff.rfl, fun _ => rfl⟩
  · exact KeepsSuccess.refl run

theorem keepsSuccess_leaseInterrupted : KeepsSuccess run (leaseInterrupted token now run) := by
  unfold leaseInterrupted
  split_ifs with h
  · exact keepsSuccess_of_inExecution h.2 (by simp [fenced])
  · exact KeepsSuccess.refl run

theorem keepsSuccess_releaseLease : KeepsSuccess run (releaseLease token now run) := by
  unfold releaseLease
  by_cases howner : run.executionOwner = some token
  · rw [if_pos howner]
    by_cases hex : run.status.inExecution
    · simp only [hex, if_true]
      exact keepsSuccess_of_inExecution hex (by simp [fenced])
    · simp only [hex, Bool.false_eq_true, if_false]
      exact ⟨Iff.rfl, fun _ => rfl⟩
  · rw [if_neg howner]
    exact KeepsSuccess.refl run

theorem keepsSuccess_markWaiting : KeepsSuccess run (markWaiting run) := by
  unfold markWaiting
  split_ifs with h
  · exact keepsSuccess_of_inExecution (by rw [h]; rfl) (by simp)
  · exact KeepsSuccess.refl run

theorem keepsSuccess_waitingResult (modelStepCount toolCallCount : ℕ)
    (waitingApprovalId : Option ℕ) (decided : Bool) :
    KeepsSuccess run
      (waitingResult modelStepCount toolCallCount waitingApprovalId decided run) := by
  unfold waitingResult
  by_cases h : run.status = .running
  · exact keepsSuccess_of_inExecution (by rw [h]; rfl) (by simp [h])
  · exact ⟨by simp [h], fun _ => rfl⟩

/-- A failing completion never leaves a success, also where it finds one. -/
theorem not_succeeded_of_failingCompletion {code : String} {steps calls : ℕ}
    {evidence : CompletionEvidence} {run' : AgentRun}
    (h : completeRun (failingCompletion code steps calls) evidence now run = .ok run') :
    run'.status ≠ .succeeded := by
  obtain ⟨-, hstatus, -⟩ := completeRun_ok h
  rw [hstatus]
  exact effectiveOutcome_ne_succeeded (by simp [failingCompletion]) run

/-- **Everything a step does to a success**: it overwrites the run, it keeps what there is, or it
is the completion of the producer. -/
theorem producerStep_effect (h : producerStep s e = some t) :
    Overwrites s e ∧ t.run.status ≠ .succeeded ∨
    ¬ Overwrites s e ∧ KeepsSuccess s.run t.run ∧
      (s.producer.pastCompletion → t.producer.pastCompletion) ∨
    ¬ Overwrites s e ∧ s.producer.pastCompletion = false ∧ t.producer.pastCompletion := by
  cases e with
  | commitShielded index steps calls evidence now =>
    left
    refine ⟨trivial, ?_⟩
    simp only [producerStep] at h
    split at h
    · split at h
      · rename_i hc
        obtain rfl := Option.some.inj h
        exact not_succeeded_of_failingCompletion hc
      · simp at h
    · simp at h
  | writeLost now =>
    simp only [producerStep] at h
    split_ifs at h
    obtain rfl := Option.some.inj h
    by_cases howner : s.run.executionOwner = some s.token
    · left
      exact ⟨howner, by simp [leaseLost, howner, fenced]⟩
    · right
      left
      refine ⟨howner, ?_, id⟩
      simp only [leaseLost, if_neg howner]
      exact KeepsSuccess.refl s.run
  | commitCompletion evidence now =>
    simp only [producerStep] at h
    split at h
    · rename_i args hpc
      split at h
      · obtain rfl := Option.some.inj h
        exact Or.inr (Or.inr ⟨id, by simp [hpc, ProducerPc.pastCompletion], rfl⟩)
      · simp at h
    · simp at h
  | markWaiting =>
    simp only [producerStep] at h
    split_ifs at h with hpc
    obtain rfl := Option.some.inj h
    exact Or.inr (Or.inl ⟨id, keepsSuccess_markWaiting, by simp [hpc, ProducerPc.pastCompletion]⟩)
  | park steps calls waitingApprovalId decided =>
    simp only [producerStep] at h
    split_ifs at h with hpc
    obtain rfl := Option.some.inj h
    exact Or.inr (Or.inl ⟨id, keepsSuccess_waitingResult _ _ _ _, fun _ => rfl⟩)
  | finishBody args =>
    simp only [producerStep] at h
    split_ifs at h with hpc
    obtain rfl := Option.some.inj h
    refine Or.inr (Or.inl ⟨id, KeepsSuccess.refl _, ?_⟩)
    rcases hpc.1 with hpc | hpc <;> simp [hpc, ProducerPc.pastCompletion]
  | leave now =>
    simp only [producerStep] at h
    split at h
    · split_ifs at h
      obtain rfl := Option.some.inj h
      exact Or.inr (Or.inl ⟨id, keepsSuccess_leaseInterrupted, fun _ => rfl⟩)
    · simp at h
  | release now =>
    simp only [producerStep] at h
    split_ifs at h
    obtain rfl := Option.some.inj h
    exact Or.inr (Or.inl ⟨id, keepsSuccess_releaseLease, fun _ => rfl⟩)
  | renew dbNow now =>
    simp only [producerStep] at h
    split_ifs at h
    · obtain rfl := Option.some.inj h
      exact Or.inr (Or.inl ⟨id, keepsSuccess_renewLease dbNow, id⟩)
    · obtain rfl := Option.some.inj h
      exact Or.inr (Or.inl ⟨id, KeepsSuccess.refl _, id⟩)
  | raise =>
    simp only [producerStep, raiseStep] at h
    split at h
    · obtain rfl := Option.some.inj h
      exact Or.inr (Or.inl ⟨id, KeepsSuccess.refl _, fun _ => rfl⟩)
    · obtain rfl := Option.some.inj h
      exact Or.inr (Or.inl ⟨id, KeepsSuccess.refl _, fun _ => rfl⟩)
    · simp at h
  | cancel =>
    simp only [producerStep, cancelStep] at h
    split at h <;>
      first
      | (simp at h; done)
      | (obtain rfl := Option.some.inj h
         exact Or.inr (Or.inl ⟨id, KeepsSuccess.refl _, fun _ => rfl⟩))
  | closed raised =>
    simp only [producerStep] at h
    split at h
    · obtain rfl := Option.some.inj h
      exact Or.inr (Or.inl ⟨id, KeepsSuccess.refl _, fun _ => rfl⟩)
    · obtain rfl := Option.some.inj h
      exact Or.inr (Or.inl ⟨id, KeepsSuccess.refl _, fun _ => rfl⟩)
    · simp at h
  | skipLeave =>
    simp only [producerStep] at h
    split at h
    · obtain rfl := Option.some.inj h
      exact Or.inr (Or.inl ⟨id, KeepsSuccess.refl _, fun _ => rfl⟩)
    · simp at h
  | failShielded index =>
    obtain rfl := Option.some.inj h
    exact Or.inr (Or.inl ⟨id, KeepsSuccess.refl _, id⟩)
  | emit | report | stopRenewal | failRelease =>
    simp only [producerStep] at h
    split_ifs at h
    obtain rfl := Option.some.inj h
    exact Or.inr (Or.inl ⟨id, KeepsSuccess.refl _, fun _ => rfl⟩)
  | failRenew | failWriteLost | abort | abortComplete =>
    simp only [producerStep] at h
    split_ifs at h
    obtain rfl := Option.some.inj h
    exact Or.inr (Or.inl ⟨id, KeepsSuccess.refl _, id⟩)

theorem succeededByProducer_step (hs : SucceededByProducer s)
    (h : producer.step s e = some t) : SucceededByProducer t := by
  intro hsucc
  rcases producerStep_effect h with ⟨-, hne⟩ | ⟨-, hkeep, hpast⟩ | ⟨-, -, hpast⟩
  · exact absurd hsucc hne
  · exact hpast (hs (hkeep.status.mp hsucc))
  · exact hpast

theorem succeededByProducer_of_reachable (h : producer.Reachable s) : SucceededByProducer s := by
  refine h.invariant (fun s h₀ hsucc => ?_) fun _ _ _ => succeededByProducer_step
  have hex := h₀.1
  simp [hsucc, RunStatus.inExecution] at hex

/-- A step from a successful run keeps it just when it does not overwrite. -/
theorem succeededWith_step {output : String} (hs : SucceededByProducer s)
    (hsucc : SucceededWith output s) (h : producer.step s e = some t) :
    SucceededWith output t ↔ ¬ Overwrites s e := by
  rcases producerStep_effect h with ⟨hover, hne⟩ | ⟨hover, hkeep, -⟩ | ⟨-, hnot, -⟩
  · exact ⟨fun ht => absurd ht.1 hne, fun hnot => absurd hover hnot⟩
  · refine ⟨fun _ => hover, fun _ => ⟨hkeep.status.mpr hsucc.1, ?_⟩⟩
    rw [hkeep.output hsucc.1, hsucc.2]
  · have hpast := hs hsucc.1
    simp [hnot] at hpast

end Steps

/-! ## Finality of a success -/

/-- **When a success is final.** From a reachable state in which the run has succeeded with an
output, a run of the producer, its abort, its renewal and its release keeps status and output in
every state it passes through just when none of its steps is a failing completion that commits
or the write of a lost lease whose token still owns the run. -/
theorem succeeded_stays_iff {s t : ProducerState} {output : String} {es : List ProducerEvent}
    (h : producer.Reachable s) (hs : SucceededWith output s) (hr : producer.run s es = some t) :
    (∀ pre post u, es = pre ++ post → producer.run s pre = some u → SucceededWith output u) ↔
      producer.Within (fun u e => ¬ Overwrites u e) s es := by
  refine (System.within_iff (fun _ _ _ => succeededByProducer_step) ?_
    (succeededByProducer_of_reachable h) hs hr).symm
  exact fun u e v hu hsucc hv => succeededWith_step hu hsucc hv

/-- A new run that its producer has just claimed. -/
def claimedRun : ProducerState :=
  ⟨(claimLease RunStatus.inExecution 1 0 (newRun "question" 0)).1, 1, .body, [], .running, false,
    .idle⟩

/-- The producer commits its answer. -/
def successEvents : List ProducerEvent :=
  [.finishBody ⟨.succeeded, some "answer", none, 1, 0, none⟩, .commitCompletion ⟨false, false⟩ 1]

/-- It is cancelled before the terminal event is out, and its failing completion commits. -/
def cancelEvents : List ProducerEvent := [.cancel, .commitShielded 0 1 0 ⟨false, false⟩ 2]

/-- It emits the terminal event and releases the lease. -/
def releaseEvents : List ProducerEvent := [.emit, .stopRenewal, .release 2]

/-- **A success is not final**: a cancellation that reaches the producer between its completion
and the end of its terminal event turns the run into a failed one without output. -/
theorem succeeded_not_final : ¬ ∀ s es t output, producer.Reachable s →
    SucceededWith output s → producer.run s es = some t → SucceededWith output t := by
  intro hfinal
  obtain ⟨s, hs⟩ : ∃ s, producer.run claimedRun successEvents = some s :=
    Option.isSome_iff_exists.mp (by decide)
  obtain ⟨t, ht⟩ : ∃ t, producer.run s cancelEvents = some t := by
    have hrun : (producer.run claimedRun (successEvents ++ cancelEvents)).isSome := by decide
    rw [System.run_append, hs] at hrun
    exact Option.isSome_iff_exists.mp hrun
  have hsucc : (producer.run claimedRun successEvents).map
      (fun s => (s.run.status, s.run.finalOutput)) = some (.succeeded, some "answer") := by decide
  have hfailed : (producer.run claimedRun (successEvents ++ cancelEvents)).map
      (fun s => (s.run.status, s.run.finalOutput)) = some (.failed, none) := by decide
  rw [hs, Option.map_some] at hsucc
  rw [System.run_append, hs, Option.bind_some, ht, Option.map_some] at hfailed
  obtain ⟨hst, hout⟩ := Prod.mk.inj (Option.some.inj hsucc)
  obtain ⟨hst', -⟩ := Prod.mk.inj (Option.some.inj hfailed)
  have hinit : producer.init claimedRun := ⟨rfl, rfl, rfl, rfl, rfl, rfl, rfl⟩
  have := (hfinal s cancelEvents t "answer" ((System.reachable_init hinit).run hs) ⟨hst, hout⟩
    ht).1
  simp [hst'] at this

/-- A producer that is left alone keeps its success. -/
theorem succeeded_stays_released : ∃ s t, producer.run claimedRun successEvents = some s ∧
    SucceededWith "answer" s ∧ producer.run s releaseEvents = some t ∧
    SucceededWith "answer" t := by
  obtain ⟨s, hs⟩ : ∃ s, producer.run claimedRun successEvents = some s :=
    Option.isSome_iff_exists.mp (by decide)
  obtain ⟨t, ht⟩ : ∃ t, producer.run s releaseEvents = some t := by
    have hrun : (producer.run claimedRun (successEvents ++ releaseEvents)).isSome := by decide
    rw [System.run_append, hs] at hrun
    exact Option.isSome_iff_exists.mp hrun
  have hsucc : (producer.run claimedRun successEvents).map
      (fun s => (s.run.status, s.run.finalOutput)) = some (.succeeded, some "answer") := by decide
  rw [hs, Option.map_some] at hsucc
  have hwith : SucceededWith "answer" s := Prod.mk.inj (Option.some.inj hsucc)
  have hinit : producer.init claimedRun := ⟨rfl, rfl, rfl, rfl, rfl, rfl, rfl⟩
  refine ⟨s, t, hs, hwith, ht, ?_⟩
  refine (succeeded_stays_iff ((System.reachable_init hinit).run hs) hwith ht).mpr ?_
    releaseEvents [] t rfl ht
  exact ⟨id, fun _ _ => ⟨id, fun _ _ => ⟨id, fun _ _ => trivial⟩⟩⟩

end AgentHub.Run
