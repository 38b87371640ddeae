import AgentHub.Lib.System
import AgentHub.Streaming.Producer

/-!
# The hub and a client of the stream

The pump of the hub moves the events of the producer into the bounded queue of a subscriber. A
client has the hub from `open_stream`, which may be that of a run in execution. It subscribes at some
moment, reads the live subscription to its end and then goes on with `attach_stream`, which replays
the durable log, follows the hub where the process owns the run, and otherwise reads the log again
and again until the run has stopped publishing. A follower in another process starts with
`attach_stream` and never finds a hub.

Each query of the client is a step of its own, and so is what it does with the answer.

## Main definitions

* `Hub`, `broadcast`, `finish`, `pump`: the hub with the subscription of the client
* `Client`, `Client.advance`: the client
* `streams`: the system of the producer, the pump and the client
-/

namespace AgentHub.Streaming

open Lib Run

variable {P : Type}

/-- `_SUBSCRIBER_QUEUE_MAXSIZE` -/
def subscriberQueueMaxsize : ℕ := 512

/-- The hub, with the queue of the one subscriber that is followed; `none` ends it. -/
structure Hub (P : Type) where
  closed : Bool := false
  subscribed : Bool := false
  queue : List (Option (AgentEvent P)) := []
  deriving DecidableEq, Repr

namespace Hub

variable (hub : Hub P)

/-- `_broadcast`: a subscriber whose queue is full is dropped, and loses its oldest entry to the
end marker. -/
def broadcast (event : Option (AgentEvent P)) : Hub P :=
  if hub.subscribed then
    if hub.queue.length < subscriberQueueMaxsize then { hub with queue := hub.queue ++ [event] }
    else { hub with subscribed := false, queue := hub.queue.tail ++ [none] }
  else hub

/-- `_finish` -/
def finish : Hub P :=
  { ({ hub with closed := true } : Hub P).broadcast none with subscribed := false }

/-- `subscribe`, up to its first wait. -/
def subscribe : Hub P := { hub with subscribed := true, queue := [] }

/-- The subscriber leaves. -/
def unsubscribe : Hub P := { hub with subscribed := false, queue := [] }

end Hub

/-! ## The client -/

/-- What `attach_stream` does after a replay: it looks for the hub, goes on with the live event
that showed a gap, asks whether the hub is closed, asks for the status, or returns. -/
inductive Resume (P : Type)
  | lookup
  | gap (event : AgentEvent P)
  | drained
  | polled
  | last
  deriving DecidableEq, Repr

inductive ClientPhase (P : Type)
  /-- About to subscribe to the hub of `open_stream`. -/
  | opening
  /-- Reading a live subscription, before `attach_stream`. -/
  | live
  /-- In a replay, about to read a page. -/
  | reading (resume : Resume P)
  /-- In a replay, with what is left of a page; a page that came empty ends the replay. -/
  | fetched (page : List (AgentEvent P)) (resume : Resume P)
  /-- Reading the subscription of `attach_stream`. -/
  | following
  /-- About to read the status. -/
  | checking
  | returned
  deriving DecidableEq, Repr

/-- The client: what it has received, and its cursor. A remote one is in another process. -/
structure Client (P : Type) where
  remote : Bool
  phase : ClientPhase P
  cursor : ℕ
  seen : List (AgentEvent P) := []
  deriving DecidableEq, Repr

namespace Client

variable (client : Client P)

/-- The event is handed out. -/
def deliver (event : AgentEvent P) : Client P :=
  { client with cursor := event.sequence, seen := client.seen ++ [event] }

/-- A replay has ended. -/
def resume (hub : Hub P) : Resume P → Client P × Hub P
  | .lookup =>
    if client.remote || hub.closed then ({ client with phase := .checking }, hub)
    else ({ client with phase := .following }, hub.subscribe)
  | .gap event =>
    if event.sequence ≤ client.cursor then ({ client with phase := .following }, hub)
    else ({ client.deliver event with phase := .following }, hub)
  | .drained =>
    ({ client with phase := if hub.closed then .returned else .checking }, hub)
  | .polled => ({ client with phase := .checking }, hub)
  | .last => ({ client with phase := .returned }, hub)

/-- A step of the client, unless it waits for its queue or has returned. -/
def advance (p : Producer P) (hub : Hub P) : Option (Client P × Hub P) :=
  match client.phase with
  | .opening =>
    if hub.closed then some ({ client with phase := .reading .lookup }, hub)
    else some ({ client with phase := .live }, hub.subscribe)
  | .live =>
    match hub.queue with
    | [] => none
    | some event :: queue =>
      some ({ client with
        cursor := max client.cursor event.sequence
        seen := client.seen ++ [event] }, { hub with queue := queue })
    | none :: _ => some ({ client with phase := .reading .lookup }, hub.unsubscribe)
  | .reading resume =>
    some ({ client with phase := .fetched (readAfter p.log client.cursor) resume }, hub)
  | .fetched [] resume => some (client.resume hub resume)
  | .fetched (event :: page) resume =>
    some ({ client.deliver event with
      phase := if page.isEmpty then .reading resume else .fetched page resume }, hub)
  | .following =>
    match hub.queue with
    | [] => none
    | some event :: queue =>
      let hub := { hub with queue := queue }
      if client.cursor + 1 < event.sequence then
        some ({ client with phase := .reading (.gap event) }, hub)
      else if event.sequence ≤ client.cursor then some (client, hub)
      else some (client.deliver event, hub)
    | none :: _ => some ({ client with phase := .reading .drained }, hub.unsubscribe)
  | .checking =>
    some ({ client with
      phase := .reading (if isFollowStop p.run.status then .last else .polled) }, hub)
  | .returned => none

end Client

/-! ## The system -/

structure State (P : Type) where
  producer : Producer P
  hub : Hub P
  client : Client P
  deriving DecidableEq, Repr

inductive Event (P : Type)
  | produce (step : ProducerStep P)
  | pump
  | client
  deriving DecidableEq, Repr

/-- `_run_pump`: one event, or the end marker. -/
def pump (s : State P) : Option (State P) :=
  if s.hub.closed then none
  else
    match s.producer.source with
    | [] => none
    | some event :: source =>
      some { s with
        producer := { s.producer with source := source }
        hub := s.hub.broadcast (some event) }
    | none :: source =>
      some { s with producer := { s.producer with source := source }, hub := s.hub.finish }

def step (s : State P) : Event P → Option (State P)
  | .produce e => (s.producer.produce e).map fun p => { s with producer := p }
  | .pump => pump s
  | .client =>
    (s.client.advance s.producer s.hub).map fun (client, hub) =>
      { s with client := client, hub := hub }

/-- The producer before its first step. -/
def Producer.start (run : AgentRun) (token : Token) (log : List (AgentEvent P)) (sequence : ℕ) :
    Producer P :=
  { run, token, log, sequence, phase := .claiming, source := [] }

/-- A new run and its hub, with a client that is to subscribe, now or later. -/
def opened (run : AgentRun) (token : Token) : State P where
  producer := .start run token [] 0
  hub := {}
  client := { remote := false, phase := .opening, cursor := 0 }

end AgentHub.Streaming
