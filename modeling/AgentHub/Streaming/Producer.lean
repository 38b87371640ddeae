import AgentHub.Lib.Cursor
import AgentHub.Run.Row
import Mathlib.Data.List.ReduceOption
import Mathlib.Data.List.Sort
import Mathlib.Order.Nat

/-!
# The producer of a run's events

One task executes the graph of a run. It emits events in sequence: an event other than a message
delta is inserted into `agent_run_events` before anything else sees it, and only then put into the
queue that feeds the hub. At the end it commits the status of the run and emits the terminal event
of that status, in this order. All this happens under the execution lease of the run, whose renewal
may write the status of the row at any moment.

## Main definitions

* `AgentEvent`, `shouldPersist`, `readAfter`: events and the durable log
* `Producer`, `produce`: the producer, with the queue it feeds

## Main results

* `Move`, `move_of_produce`: what a step does to the log and to the events under way
* `Recorded`: the log is ordered and holds every event under way that is to be persisted
-/

namespace AgentHub.Streaming

open Lib Run

inductive AgentEventType
  | runStarted | messageStarted | contextBudget | messageDelta | messageCompleted
  | retrievalStarted | retrievalCompleted | rerankCompleted
  | toolRequested | toolStarted | toolCompleted | toolFailed
  | approvalRequired | approvalResolved | runCancelRequested | usage
  | runCompleted | runFailed | runCancelled
  deriving DecidableEq, Repr

/-- An event of the run; its sequence number starts at one. -/
structure AgentEvent (P : Type) where
  sequence : ℕ
  type : AgentEventType
  payload : P
  sequence_pos : 0 < sequence
  deriving DecidableEq, Repr

variable {P : Type}

/-- `should_persist`: every event but a message delta. -/
def shouldPersist (event : AgentEvent P) : Bool :=
  event.type ≠ .messageDelta

/-- `read_after`: the rows after a sequence number, in order, at most `limit` of them. -/
def readAfter (log : List (AgentEvent P)) (afterSequence : ℕ) (limit : ℕ := 500) :
    List (AgentEvent P) :=
  ((log.filter fun row => afterSequence < row.sequence).insertionSort
    fun a b => a.sequence ≤ b.sequence).take limit

/-- `STREAM_FOLLOW_STOP_STATUSES` -/
def isFollowStop (status : RunStatus) : Bool :=
  status.isDone || status = .waitingApproval

/-- The capacity of the queue between the producer and the hub. -/
def sourceMaxsize : ℕ := 256

/-! ## The producer -/

/-- Where the producer is. -/
inductive ProducerPhase (P : Type)
  /-- About to claim the lease. -/
  | claiming
  /-- The graph is executing. -/
  | running
  /-- An event is recorded and waits for a place in the queue; the terminal event is the last. -/
  | putting (event : AgentEvent P) (last : Bool)
  /-- `_complete_run` has committed this status; its terminal event comes next. -/
  | completed (status : RunStatus)
  /-- An exception has left the body. -/
  | failing
  /-- The handler of the exception has tried to complete the run; its event comes next. -/
  | failed
  /-- The task is cancelled; its handler completes the run and emits nothing. -/
  | cancelled
  /-- The `finally` blocks: the queue is closed, the lease is released, and the queue is closed
  once more. -/
  | closing
  | leaving
  | left
  | finished
  deriving DecidableEq, Repr

/-- The producer, with what it writes: the row and the events of the run in the database, and the
queue of the hub, where `none` ends the stream. The token is that of its lease. -/
structure Producer (P : Type) where
  run : AgentRun
  token : Token
  log : List (AgentEvent P)
  sequence : ℕ
  phase : ProducerPhase P
  source : List (Option (AgentEvent P))
  deriving DecidableEq, Repr

/-- A call of `_complete_run`. -/
structure Completion where
  args : CompletionArgs
  evidence : CompletionEvidence
  now : Instant
  deriving DecidableEq, Repr

/-- What the producer may do. An event is accepted if its envelope is valid and its insert, where it
is to be persisted, succeeds; a completion of `none` says that its transaction fails. A `row` is
committed by another transaction, at any moment: a request to cancel, a decision, another claim. -/
inductive ProducerStep (P : Type)
  | row (run : AgentRun)
  | claim (now : Instant)
  | renew (dbNow now : Instant)
  | lose (now : Instant)
  | emit (type : AgentEventType) (payload : P) (accepted : Bool)
  | put
  | suspend (modelStepCount toolCallCount : ℕ) (waitingApprovalId : Option ℕ) (decided : Bool)
  | complete (completion : Completion)
  | terminal (payload : P) (accepted : Bool)
  | raise
  | fail (completion : Option Completion)
  | report (payload : P) (accepted : Bool)
  | cancel
  | abandon (completion : Option Completion)
  | close
  | interrupt (now : Instant)
  | release (now : Instant)
  deriving DecidableEq, Repr

/-- The event that ends a run with this status. -/
def terminalType : RunStatus → AgentEventType
  | .cancelled => .runCancelled
  | .succeeded => .runCompleted
  | _ => .runFailed

/-- The lease is held, and renewed. -/
def ProducerPhase.hasLease : ProducerPhase P → Bool
  | claiming | left | finished => false
  | _ => true

namespace Producer

variable (p : Producer P)

/-- The event `emit` builds: the next of the sequence. -/
def nextEvent (type : AgentEventType) (payload : P) : AgentEvent P :=
  ⟨p.sequence + 1, type, payload, Nat.succ_pos _⟩

/-- `arecord`: the insert of an event that is to be persisted. -/
def arecord (event : AgentEvent P) : Producer P :=
  if shouldPersist event then { p with log := p.log ++ [event] } else p

/-- `emit`, with `arecord` as its `before_publish`: the number is used up even if this raises. The
result says whether the event may be published. -/
def emit (event : AgentEvent P) (accepted : Bool) : Producer P × Bool :=
  let p := { p with sequence := event.sequence }
  if accepted then (p.arecord event, true) else (p, false)

/-- The row is completed, unless that raises. -/
def commit (completion : Option Completion) : Producer P :=
  let committed := completion.bind fun c => (completeRun c.args c.evidence c.now p.run).toOption
  { p with run := committed.getD p.run }

/-- `_close_event_queue`: a full queue loses its oldest entry to the end marker. -/
def closeEventQueue : Producer P :=
  if p.source.length < sourceMaxsize then { p with source := p.source ++ [none] }
  else { p with source := p.source.tail ++ [none] }

/-- A step of the producer, where it is possible. -/
def produce : ProducerStep P → Option (Producer P)
  | .row run => some { p with run := run }
  | .claim now =>
    match p.phase with
    | .claiming =>
      match claimLease RunStatus.inExecution p.token now p.run with
      | (run, true) => some { p with run := run, phase := .running }
      | (run, false) => some { p with run := run, phase := .left }
    | _ => none
  -- the renewal is a task of its own while the lease is held
  | .renew dbNow now =>
    if p.phase.hasLease then some { p with run := (renewLease p.token dbNow now p.run).1 } else none
  | .lose now =>
    if p.phase.hasLease then some { p with run := leaseLost p.token now p.run } else none
  | .emit type payload accepted =>
    match p.phase with
    | .running =>
      let event := p.nextEvent type payload
      match p.emit event accepted with
      | (p, true) => some { p with phase := .putting event false }
      | (p, false) => some p
    | _ => none
  | .put =>
    match p.phase with
    | .putting event last =>
      if p.source.length < sourceMaxsize then
        some { p with
          source := p.source ++ [some event]
          phase := if last then .closing else .running }
      else none
    | _ => none
  | .suspend modelStepCount toolCallCount waitingApprovalId decided =>
    match p.phase with
    | .running =>
      let run := waitingResult modelStepCount toolCallCount waitingApprovalId decided
        (markWaiting p.run)
      some { p with run := run, phase := .closing }
    | _ => none
  | .complete completion =>
    match p.phase with
    | .running =>
      match completeRun completion.args completion.evidence completion.now p.run with
      | .ok run => some { p with run := run, phase := .completed run.status }
      | .error _ => some { p with phase := .failing }
    | _ => none
  | .terminal payload accepted =>
    match p.phase with
    | .completed status =>
      let event := p.nextEvent (terminalType status) payload
      match p.emit event accepted with
      | (p, true) => some { p with phase := .putting event true }
      | (p, false) => some { p with phase := .failing }
    | _ => none
  | .raise =>
    match p.phase with
    | .running | .completed _ => some { p with phase := .failing }
    -- a transaction of the lease fails
    | .claiming | .leaving => some { p with phase := .left }
    | _ => none
  | .fail completion =>
    match p.phase with
    | .failing => some { p.commit completion with phase := .failed }
    | _ => none
  | .report payload accepted =>
    match p.phase with
    | .failed =>
      let event := p.nextEvent .runFailed payload
      match p.emit event accepted with
      | (p, true) =>
        -- `put_nowait`: a full queue does not get the event
        if p.source.length < sourceMaxsize then
          some { p with source := p.source ++ [some event], phase := .closing }
        else some { p with phase := .closing }
      | (p, false) => some { p with phase := .closing }
    | _ => none
  | .cancel =>
    match p.phase with
    | .running | .putting _ _ | .completed _ => some { p with phase := .cancelled }
    | .failing | .failed => some { p with phase := .closing }
    | .claiming | .leaving => some { p with phase := .left }
    | _ => none
  | .abandon completion =>
    match p.phase with
    | .cancelled => some { p.commit completion with phase := .closing }
    | _ => none
  | .close =>
    match p.phase with
    | .closing => some { p.closeEventQueue with phase := .leaving }
    | .left => some { p.closeEventQueue with phase := .finished }
    | _ => none
  -- where an exception leaves the lease, the row is fenced before the release
  | .interrupt now =>
    match p.phase with
    | .leaving => some { p with run := leaseInterrupted p.token now p.run }
    | _ => none
  | .release now =>
    match p.phase with
    | .leaving => some { p with run := releaseLease p.token now p.run, phase := .left }
    | _ => none

end Producer

/-! ## What a step does -/

/-- The events of a queue, without its end markers. -/
def events (queue : List (Option (AgentEvent P))) : List (AgentEvent P) := queue.reduceOption

@[simp] theorem events_nil : events ([] : List (Option (AgentEvent P))) = [] := rfl

@[simp] theorem events_some (event : AgentEvent P) (queue : List (Option (AgentEvent P))) :
    events (some event :: queue) = event :: events queue := rfl

@[simp] theorem events_none (queue : List (Option (AgentEvent P))) :
    events (none :: queue) = events queue := rfl

@[simp] theorem events_append (q r : List (Option (AgentEvent P))) :
    events (q ++ r) = events q ++ events r := List.reduceOption_append q r

namespace ProducerPhase

/-- The event that waits for a place in the queue. -/
def waiting : ProducerPhase P → List (AgentEvent P)
  | putting event _ => [event]
  | _ => []

/-- Every event recorded has been put into the queue, or will be. -/
def feeds : ProducerPhase P → Bool
  | claiming | running | putting _ _ | completed _ | failing | failed => true
  | _ => false

/-- No further event is recorded. -/
def isSettled : ProducerPhase P → Bool
  | putting _ last => last
  | cancelled | closing | leaving | left | finished => true
  | _ => false

/-- The queue may have been closed. -/
def hasClosed : ProducerPhase P → Bool
  | leaving | left | finished => true
  | _ => false

theorem isSettled_of_hasClosed {phase : ProducerPhase P} (h : phase.hasClosed) :
    phase.isSettled := by
  cases phase <;> first | rfl | cases h

end ProducerPhase

namespace Producer

variable {p q r : Producer P} {action : ProducerStep P} {event : AgentEvent P} {accepted : Bool}

/-- The events on their way to the hub. -/
def feed (p : Producer P) : List (AgentEvent P) := events p.source ++ p.phase.waiting

/-- **What a step does** to the log and to the events on their way. -/
inductive Move (p : Producer P) (step : ProducerStep P) (q : Producer P) : Prop
  /-- Nothing. -/
  | idle (log : q.log = p.log) (feed : q.feed = p.feed) (feeds : q.phase.feeds → p.phase.feeds)
  /-- A new event is recorded, if it is to be, and is on its way. -/
  | publish (event : AgentEvent P) (sequence : event.sequence = p.sequence + 1)
    (settled : p.phase.isSettled = false) (feeds : p.phase.feeds)
    (log : q.log = p.log ++ [event].filter shouldPersist) (feed : q.feed = p.feed ++ [event])
    (known : event.sequence = q.sequence)
  /-- A new event is recorded and never put into the queue; it is the last one. -/
  | withhold (event : AgentEvent P) (sequence : event.sequence = p.sequence + 1)
    (settled : p.phase.isSettled = false) (log : q.log = p.log ++ [event])
    (persists : shouldPersist event) (feed : q.feed = p.feed) (feeds : q.phase.feeds = false)
    (known : event.sequence = q.sequence)
  /-- The event that waits is given up. -/
  | withdraw (event : AgentEvent P) (log : q.log = p.log) (feed : p.feed = q.feed ++ [event])
    (feeds : q.phase.feeds = false)
  /-- The close loses the oldest event of the full queue. -/
  | drop (event : AgentEvent P) (close : step = .close)
    (full : sourceMaxsize ≤ p.source.length) (head : p.source.head? = some (some event))
    (log : q.log = p.log) (feed : p.feed = event :: q.feed) (feeds : q.phase.feeds = false)

/-- Neither the log nor the queue changes. -/
theorem Move.quiet (hlog : q.log = p.log) (hsource : q.source = p.source)
    (hwaiting : q.phase.waiting = p.phase.waiting) (hfeeds : q.phase.feeds → p.phase.feeds) :
    Move p action q :=
  .idle hlog (by rw [feed, feed, hsource, hwaiting]) hfeeds

theorem emit_fst {published : Bool} (h : p.emit event accepted = (q, published)) :
    q.sequence = event.sequence ∧ q.phase = p.phase ∧ q.source = p.source ∧
      q.log = p.log ++ (if published then [event].filter shouldPersist else []) := by
  unfold emit arecord at h
  dsimp only at h
  split at h
  · obtain ⟨rfl, rfl⟩ := Prod.mk.inj h
    split <;> simp_all
  · obtain ⟨rfl, rfl⟩ := Prod.mk.inj h
    simp

/-- An event that is published is recorded, if it is to be, and on its way. -/
theorem move_of_emit (hemit : p.emit event accepted = (r, true))
    (hevent : event.sequence = p.sequence + 1) (hsettled : p.phase.isSettled = false)
    (hfeeds : p.phase.feeds) (hsequence : q.sequence = r.sequence) (hlog : q.log = r.log)
    (hfeed : q.feed = p.feed ++ [event]) : Move p action q := by
  obtain ⟨hcount, -, -, hrecorded⟩ := emit_fst hemit
  exact .publish event hevent hsettled hfeeds (hlog.trans hrecorded) hfeed
    (hcount.symm.trans hsequence.symm)

/-- An event whose record fails is lost. -/
theorem move_of_unrecorded (hemit : p.emit event accepted = (r, false)) (hlog : q.log = r.log)
    (hsource : q.source = r.source) (hwaiting : q.phase.waiting = p.phase.waiting)
    (hfeeds : q.phase.feeds → p.phase.feeds) : Move p action q := by
  obtain ⟨-, -, hkept, hrecorded⟩ := emit_fst hemit
  exact .quiet (hlog.trans (by simpa using hrecorded)) (hsource.trans hkept) hwaiting hfeeds

theorem log_closeEventQueue (p : Producer P) : p.closeEventQueue.log = p.log := by
  unfold closeEventQueue
  split <;> rfl

/-- The close of the queue loses at most its oldest entry. -/
theorem move_of_close (hlog : q.log = p.log)
    (hsource : q.source = p.closeEventQueue.source) (hwaiting : p.phase.waiting = [])
    (hwaiting' : q.phase.waiting = []) (hfeeds : q.phase.feeds = false) : Move p .close q := by
  have hfeed : q.feed = events p.closeEventQueue.source := by simp [feed, hsource, hwaiting']
  have hfeed' : p.feed = events p.source := by simp [feed, hwaiting]
  by_cases hfull : p.source.length < sourceMaxsize
  · refine .idle hlog ?_ (by rw [hfeeds]; nofun)
    simp [hfeed, hfeed', closeEventQueue, hfull]
  · have hclosed : events p.closeEventQueue.source = events p.source.tail := by
      simp [closeEventQueue, hfull]
    cases hhead : p.source with
    | nil => simp [hhead, sourceMaxsize] at hfull
    | cons entry rest =>
      rw [hhead, List.tail_cons] at hclosed
      cases entry with
      | none =>
        refine .idle hlog ?_ (by rw [hfeeds]; nofun)
        rw [hfeed, hfeed', hclosed, hhead, events_none]
      | some event =>
        refine .drop event rfl (Nat.le_of_not_lt hfull) (by rw [hhead]; rfl) hlog ?_ hfeeds
        rw [hfeed, hfeed', hclosed, hhead, events_some]

section Produced

variable (h : p.produce action = some q)

include h

/-- **Every step of the producer is a move.** -/
theorem move_of_produce : Move p action q := by
  cases action with
  | emit type payload accepted =>
    simp only [produce] at h
    split at h
    · next hphase =>
      split at h
      · next r hemit =>
        obtain rfl := Option.some.inj h
        refine move_of_emit hemit rfl (by rw [hphase]; rfl) (by rw [hphase]; rfl) rfl rfl ?_
        simp [feed, (emit_fst hemit).2.2.1, hphase, ProducerPhase.waiting]
      · next r hemit =>
        obtain rfl := Option.some.inj h
        have hkept := (emit_fst hemit).2.1
        exact move_of_unrecorded hemit rfl rfl (by rw [hkept]) (by rw [hkept]; exact id)
    · cases h
  | put =>
    simp only [produce] at h
    split at h
    · next event last hphase =>
      split at h
      · obtain rfl := Option.some.inj h
        refine .idle rfl ?_ (by simp [hphase, ProducerPhase.feeds])
        cases last <;> simp [feed, hphase, ProducerPhase.waiting]
      · cases h
    · cases h
  | terminal payload accepted =>
    simp only [produce] at h
    split at h
    · next status hphase =>
      split at h
      · next r hemit =>
        obtain rfl := Option.some.inj h
        refine move_of_emit hemit rfl (by rw [hphase]; rfl) (by rw [hphase]; rfl) rfl rfl ?_
        simp [feed, (emit_fst hemit).2.2.1, hphase, ProducerPhase.waiting]
      · next r hemit =>
        obtain rfl := Option.some.inj h
        exact move_of_unrecorded hemit rfl rfl (by rw [hphase]; rfl) (by rw [hphase]; exact id)
    · cases h
  | report payload accepted =>
    simp only [produce] at h
    split at h
    · next hphase =>
      split at h
      · next r hemit =>
        split at h
        · obtain rfl := Option.some.inj h
          refine move_of_emit hemit rfl (by rw [hphase]; rfl) (by rw [hphase]; rfl) rfl rfl ?_
          simp [feed, (emit_fst hemit).2.2.1, hphase, ProducerPhase.waiting]
        · obtain rfl := Option.some.inj h
          obtain ⟨hsequence, -, hsource, hlog⟩ := emit_fst hemit
          refine .withhold (p.nextEvent .runFailed payload) rfl (by rw [hphase]; rfl) hlog rfl ?_
            rfl hsequence.symm
          simp [feed, hsource, hphase, ProducerPhase.waiting]
      · next r hemit =>
        obtain rfl := Option.some.inj h
        exact move_of_unrecorded hemit rfl rfl (by rw [hphase]; rfl) nofun
    · cases h
  | cancel =>
    cases hphase : p.phase with
    | putting event last =>
      simp only [produce, hphase, Option.some.injEq] at h
      subst h
      exact .withdraw event rfl (by simp [feed, hphase, ProducerPhase.waiting]) rfl
    | _ =>
      refine .quiet ?_ ?_ ?_ ?_ <;>
        grind [produce, ProducerPhase.waiting, ProducerPhase.feeds]
  | close =>
    simp only [produce] at h
    split at h
    · next hphase =>
      obtain rfl := Option.some.inj h
      exact move_of_close (log_closeEventQueue p) rfl (by rw [hphase]; rfl) rfl rfl
    · next hphase =>
      obtain rfl := Option.some.inj h
      exact move_of_close (log_closeEventQueue p) rfl (by rw [hphase]; rfl) rfl rfl
    · cases h
  | _ =>
    -- the other steps write the row and change the phase only
    refine .quiet ?_ ?_ ?_ ?_ <;>
      grind [produce, commit, ProducerPhase.waiting, ProducerPhase.feeds]

theorem sequence_le_of_produce : p.sequence ≤ q.sequence := by
  cases action <;> grind [produce, emit, arecord, commit, closeEventQueue, nextEvent]

/-- A producer that records no further event stays so. -/
theorem isSettled_of_produce (hp : p.phase.isSettled) : q.phase.isSettled ∧ q.log = p.log := by
  cases action <;> grind [produce, emit, arecord, commit, closeEventQueue, ProducerPhase.isSettled]

theorem hasClosed_of_produce (hp : p.phase.hasClosed) : q.phase.hasClosed := by
  cases action <;> grind [produce, emit, arecord, commit, closeEventQueue, ProducerPhase.hasClosed]

end Produced

/-! ## The record -/

/-- The event is recorded if it is to be, and no other event has its number. -/
structure Known (p : Producer P) (event : AgentEvent P) : Prop where
  bounded : event.sequence ≤ p.sequence
  recorded : shouldPersist event → event ∈ p.log
  unrecorded : shouldPersist event = false → ∀ row ∈ p.log, row.sequence ≠ event.sequence

/-- **The record is in order**, and so are the events on their way, which are known; only a closed
queue has an end marker. -/
structure Recorded (p : Producer P) : Prop where
  ordered : Ordered AgentEvent.sequence p.log
  feed : Ordered AgentEvent.sequence p.feed
  bounded : ∀ row ∈ p.log, row.sequence ≤ p.sequence
  persisted : ∀ row ∈ p.log, shouldPersist row
  known : ∀ event ∈ p.feed, p.Known event
  closed : none ∈ p.source → p.phase.hasClosed

/-- How the record grows in a step: by at most one event, with the next number. -/
theorem log_of_produce (h : p.produce action = some q) :
    q.log = p.log ∨ ∃ event, q.log = p.log ++ [event] ∧ event.sequence = p.sequence + 1 ∧
      event.sequence = q.sequence ∧ shouldPersist event ∧ p.phase.isSettled = false := by
  cases move_of_produce h with
  | idle log _ _ | withdraw _ log _ _ | drop _ _ _ _ log _ _ => exact .inl log
  | publish event sequence settled _ log _ known =>
    cases hpersist : shouldPersist event with
    | false => exact .inl (by simpa [hpersist] using log)
    | true => exact .inr ⟨event, by simpa [hpersist] using log, sequence, known, hpersist, settled⟩
  | withhold event sequence settled log persists _ _ known =>
    exact .inr ⟨event, log, sequence, known, persists, settled⟩

/-- What is known stays known. -/
theorem Known.step (hknown : p.Known event) (h : p.produce action = some q) : q.Known event := by
  have hle := sequence_le_of_produce h
  obtain ⟨hbounded, hrecorded, hunrecorded⟩ := hknown
  rcases log_of_produce h with hlog | ⟨row, hlog, hrow, -⟩
  · exact ⟨hbounded.trans hle, hlog ▸ hrecorded, hlog ▸ hunrecorded⟩
  · refine ⟨hbounded.trans hle, fun hp => ?_, fun hp => ?_⟩
    · rw [hlog]
      exact List.mem_append_left _ (hrecorded hp)
    · rw [hlog]
      rintro row' hrow'
      rcases List.mem_append.mp hrow' with hold | hnew
      · exact hunrecorded hp row' hold
      · rw [List.mem_singleton.mp hnew]
        omega

theorem Recorded.log_step (hp : p.Recorded) (h : p.produce action = some q) :
    Ordered AgentEvent.sequence q.log ∧
      ∀ row ∈ q.log, row.sequence ≤ q.sequence ∧ shouldPersist row := by
  have hle := sequence_le_of_produce h
  have hold : ∀ row ∈ p.log, row.sequence ≤ q.sequence ∧ shouldPersist row := fun row hrow =>
    ⟨(hp.bounded row hrow).trans hle, hp.persisted row hrow⟩
  rcases log_of_produce h with hlog | ⟨event, hlog, hevent, hknown, hpersist, -⟩
  · rw [hlog]
    exact ⟨hp.ordered, hold⟩
  · rw [hlog]
    refine ⟨hp.ordered.append_singleton fun row hrow => ?_, fun row hrow => ?_⟩
    · have := hp.bounded row hrow
      omega
    · rcases List.mem_append.mp hrow with hrow | hnew
      · exact hold row hrow
      · rw [List.mem_singleton.mp hnew]
        exact ⟨hknown.le, hpersist⟩

/-- A new event is known. -/
theorem Recorded.known_new (hp : p.Recorded)
    (hsequence : event.sequence = p.sequence + 1) (hknown : event.sequence = q.sequence)
    (hlog : q.log = p.log ++ [event].filter shouldPersist) : q.Known event := by
  refine ⟨hknown.le, fun hpersist => ?_, fun hpersist row hrow => ?_⟩
  · rw [hlog]
    simp [hpersist]
  · have hold : row ∈ p.log := by simpa [hlog, hpersist] using hrow
    have := hp.bounded row hold
    omega

/-- **Every step keeps the record.** -/
theorem Recorded.step (hp : p.Recorded) (h : p.produce action = some q) : q.Recorded := by
  obtain ⟨hordered, hrows⟩ := hp.log_step h
  have hold : ∀ event ∈ p.feed, q.Known event := fun event hevent =>
    (hp.known event hevent).step h
  refine ⟨hordered, ?_, fun row hrow => (hrows row hrow).1, fun row hrow => (hrows row hrow).2,
    ?_, ?_⟩
  · cases move_of_produce h with
    | idle _ feed _ | withhold _ _ _ _ _ feed _ _ =>
      rw [feed]
      exact hp.feed
    | publish event sequence _ _ _ feed _ =>
      rw [feed]
      refine hp.feed.append_singleton fun e he => ?_
      have := (hp.known e he).bounded
      omega
    | withdraw event _ feed _ => exact hp.feed.sublist (feed ▸ List.sublist_append_left _ _)
    | drop event _ _ _ _ feed _ => exact hp.feed.sublist (feed ▸ List.sublist_cons_self _ _)
  · cases move_of_produce h with
    | idle _ feed _ | withhold _ _ _ _ _ feed _ _ => rwa [feed]
    | publish event sequence _ _ log feed known =>
      rw [feed]
      intro e he
      rcases List.mem_append.mp he with he | he
      · exact hold e he
      · rw [List.mem_singleton.mp he]
        exact hp.known_new sequence known log
    | withdraw event _ feed _ =>
      rw [feed] at hold
      exact fun e he => hold e (List.mem_append_left _ he)
    | drop event _ _ _ _ feed _ =>
      rw [feed] at hold
      exact fun e he => hold e (List.mem_cons_of_mem _ he)
  · have hclosed := hp.closed
    cases action <;> grind [produce, emit, arecord, commit, closeEventQueue, ProducerPhase.hasClosed]

end Producer

end AgentHub.Streaming
