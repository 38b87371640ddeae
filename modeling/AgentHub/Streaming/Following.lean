import AgentHub.Streaming.Attach

/-!
# What a client of the stream has received

A client of `attach_stream` is caught up if the events of the log after its start are those it has
received and those after its cursor. A live subscription has its events in three places: received,
in the queue of the client, and on their way from the producer. It has lost nothing if they are the
beginning of the log, in order. Where it ends, the client is caught up.

## Main definitions

* `Tracked`, `Caught`: the cursor and what was received, against the durable log
* `Unlost`, `Live`: a live subscription has lost nothing so far
* `Sound`: the invariant of the system

## Main results

* `Caught.deliver_first`, `Caught.deliver_delta`, `Caught.append`: the client stays caught up
* `Unlost.publish`, `Unlost.withdraw`, …: what may happen to the events of a live subscription
* `Unlost.caught`: a subscription that ends leaves the client caught up
-/

namespace AgentHub.Streaming

open Lib Run

variable {P : Type} {log : List (AgentEvent P)} {client : Client P} {event : AgentEvent P}

/-- A page of the log is the beginning of what is after the cursor. -/
theorem readAfter_eq (h : Ordered AgentEvent.sequence log) (cursor : ℕ) :
    readAfter log cursor = (later AgentEvent.sequence cursor log).take 500 := by
  have hsorted : (log.filter fun row => cursor < row.sequence).Pairwise
      fun a b => a.sequence ≤ b.sequence :=
    (h.later (c := cursor)).imp fun hab => hab.le
  unfold readAfter
  rw [hsorted.insertionSort_eq]
  rfl

theorem readAfter_first (h : Ordered AgentEvent.sequence log) (cursor : ℕ) :
    readAfter log cursor <+: later AgentEvent.sequence cursor log := by
  rw [readAfter_eq h]
  exact List.take_prefix _ _

theorem later_of_readAfter (h : Ordered AgentEvent.sequence log) {cursor : ℕ}
    (hread : readAfter log cursor = []) : later AgentEvent.sequence cursor log = [] := by
  rw [readAfter_eq h] at hread
  simpa using hread

/-! ## The cursor -/

/-- The cursor and the events received, of a client that started at `base`. -/
structure Tracked (base sequence : ℕ) (client : Client P) : Prop where
  base_le : base ≤ client.cursor
  cursor_le : client.cursor = base ∨ client.cursor ≤ sequence
  ordered : Ordered AgentEvent.sequence client.seen
  seen : ∀ event ∈ client.seen, base < event.sequence ∧ event.sequence ≤ client.cursor

/-- **Nothing is lost**: the events of the log after `base` are those received and those after
the cursor. -/
def Caught (base : ℕ) (log : List (AgentEvent P)) (client : Client P) : Prop :=
  later AgentEvent.sequence base log =
    client.seen.filter shouldPersist ++ later AgentEvent.sequence client.cursor log

section Cursor

variable {base sequence : ℕ}

theorem Tracked.congr (h : Tracked base sequence client) {other : Client P}
    (hcursor : other.cursor = client.cursor) (hseen : other.seen = client.seen) :
    Tracked base sequence other := by
  refine ⟨?_, ?_, ?_, ?_⟩
  · rw [hcursor]; exact h.base_le
  · rw [hcursor]; exact h.cursor_le
  · rw [hseen]; exact h.ordered
  · rw [hcursor, hseen]; exact h.seen

theorem Tracked.deliver (h : Tracked base sequence client) (hlt : client.cursor < event.sequence)
    (hle : event.sequence ≤ sequence) : Tracked base sequence (client.deliver event) := by
  have hbase := h.base_le
  refine ⟨hbase.trans hlt.le, .inr hle, ?_, fun x hx => ?_⟩
  · exact h.ordered.append_singleton fun x hx => (h.seen x hx).2.trans_lt hlt
  · rcases List.mem_append.mp hx with hx | hx
    · exact ⟨(h.seen x hx).1, (h.seen x hx).2.trans hlt.le⟩
    · rw [List.mem_singleton.mp hx]
      exact ⟨hbase.trans_lt hlt, le_rfl⟩

/-- The first event after the cursor is received. -/
theorem Caught.deliver_first (h : Caught base log client)
    (hlog : Ordered AgentEvent.sequence log) (hpersist : shouldPersist event)
    {rest : List (AgentEvent P)}
    (hfirst : later AgentEvent.sequence client.cursor log = event :: rest) :
    Caught base log (client.deliver event) := by
  unfold Caught at h ⊢
  rw [h, hfirst]
  simp [Client.deliver, hpersist, hlog.later_eq_cons hfirst]

/-- A live event is received that is not in the log, and skips no event of it. -/
theorem Caught.deliver_delta (h : Caught base log client) (hpersist : shouldPersist event = false)
    (hskip : ∀ row ∈ log, client.cursor < row.sequence ↔ event.sequence < row.sequence) :
    Caught base log (client.deliver event) := by
  unfold Caught at h ⊢
  rw [h, later_congr hskip]
  simp [Client.deliver, hpersist]

/-- A new event of the log is after the cursor just when it is after the start. -/
theorem Caught.append (h : Caught base log client) (htracked : Tracked base sequence client)
    (hnew : sequence < event.sequence) : Caught base (log ++ [event]) client := by
  have hsame : later AgentEvent.sequence base [event] =
      later AgentEvent.sequence client.cursor [event] := by
    refine later_congr fun row hrow => ?_
    rw [List.mem_singleton.mp hrow]
    have := htracked.base_le
    rcases htracked.cursor_le with hcursor | hcursor <;> omega
  unfold Caught at h ⊢
  rw [later_append, later_append, h, hsame, List.append_assoc]

end Cursor

/-! ## The invariant -/

/-- The events that a live subscription is still to bring. -/
def State.pending (s : State P) : List (AgentEvent P) :=
  events s.hub.queue ++ if s.hub.subscribed then s.producer.feed else []

/-- The log begins with the events received and pending, in order, and the rest is ahead of the
cursor. -/
structure Unlost (log : List (AgentEvent P)) (client : Client P)
    (pending rest : List (AgentEvent P)) : Prop where
  split : log = (client.seen ++ pending).filter shouldPersist ++ rest
  ordered : Ordered AgentEvent.sequence (client.seen ++ pending ++ rest)
  ahead : ∀ event ∈ pending ++ rest, client.cursor < event.sequence

/-- **A live subscription has lost nothing**: what it is to bring continues what it has brought,
and there is nothing else while the client is subscribed and the producer feeds the queue. -/
def Live (s : State P) : Prop :=
  s.client.cursor ≤ s.producer.sequence ∧
    ∃ rest, Unlost s.producer.log s.client s.pending rest ∧
      (s.hub.subscribed → s.producer.phase.feeds → rest = [])

/-- What holds during a replay, by what comes after it. -/
def Resume.Holds (s : State P) : Resume P → Prop
  | gap event => s.producer.Known event
  | _ => True

/-- What holds when a page has come empty. -/
def Resume.Ends (s : State P) : Resume P → Prop
  | gap event => ∀ row ∈ s.producer.log, s.client.cursor < row.sequence →
      event.sequence < row.sequence
  | drained => s.hub.closed → later AgentEvent.sequence s.client.cursor s.producer.log = []
  | last => later AgentEvent.sequence s.client.cursor s.producer.log = [] ∧
      s.producer.phase.isSettled
  | _ => True

/-- What holds of the client before it subscribes, and in `attach_stream`. -/
def ClientPhase.Holds (s : State P) : ClientPhase P → Prop
  | opening => s.client.seen = [] ∧ s.client.cursor = 0
  | live | following | checking => True
  | reading resume => resume.Holds s
  | fetched page resume => resume.Holds s ∧
      page <+: later AgentEvent.sequence s.client.cursor s.producer.log ∧
      (page = [] → resume.Ends s)
  | returned => later AgentEvent.sequence s.client.cursor s.producer.log = [] ∧
      s.producer.phase.isSettled

/-- **The invariant** of a client that started at `base`. -/
structure Sound (base : ℕ) (s : State P) : Prop where
  recorded : s.producer.Recorded
  closed : s.hub.closed → s.producer.phase.hasClosed
  queued : ∀ event ∈ events s.hub.queue, s.producer.Known event
  tracked : Tracked base s.producer.sequence s.client
  live : s.client.phase = .live → Live s
  caught : s.client.phase ≠ .live → Caught base s.producer.log s.client
  holds : s.client.phase.Holds s

/-! ## A live subscription -/

section Live

variable {pending rest more : List (AgentEvent P)}

/-- A new event that is pending. -/
theorem Unlost.publish (h : Unlost log client pending [])
    (hnew : ∀ e ∈ client.seen ++ pending, e.sequence < event.sequence)
    (hcursor : client.cursor < event.sequence) :
    Unlost (log ++ [event].filter shouldPersist) client (pending ++ [event]) [] := by
  refine ⟨by simp [h.split], ?_, fun e he => ?_⟩
  · have hordered : Ordered AgentEvent.sequence (client.seen ++ pending) := by
      simpa using h.ordered
    simpa using hordered.append_singleton hnew
  · rw [List.append_nil] at he
    rcases List.mem_append.mp he with he | he
    · exact h.ahead e (by simpa using he)
    · rwa [List.mem_singleton.mp he]

/-- A new event of the log that is not pending. -/
theorem Unlost.withhold (h : Unlost log client pending rest)
    (hnew : ∀ e ∈ client.seen ++ pending ++ rest, e.sequence < event.sequence)
    (hcursor : client.cursor < event.sequence) :
    Unlost (log ++ [event]) client pending (rest ++ [event]) := by
  refine ⟨by simp [h.split], ?_, fun e he => ?_⟩
  · rw [← List.append_assoc]
    exact h.ordered.append_singleton hnew
  · rw [← List.append_assoc] at he
    rcases List.mem_append.mp he with he | he
    · exact h.ahead e he
    · rwa [List.mem_singleton.mp he]

/-- The last events are no longer pending. -/
theorem Unlost.withdraw (h : Unlost log client (pending ++ more) rest) :
    Unlost log client pending (more.filter shouldPersist ++ rest) := by
  have hsub : (client.seen ++ pending ++ (more.filter shouldPersist ++ rest)).Sublist
      (client.seen ++ (pending ++ more) ++ rest) := by
    simp only [List.append_assoc, List.append_sublist_append_left]
    exact List.Sublist.append List.filter_sublist (List.Sublist.refl rest)
  refine ⟨by simp [h.split], h.ordered.sublist hsub, fun e he => h.ahead e ?_⟩
  simp only [List.mem_append, List.mem_filter] at he ⊢
  tauto

/-- A message delta is dropped. -/
theorem Unlost.drop (h : Unlost log client (pending ++ event :: more) rest)
    (hpersist : shouldPersist event = false) : Unlost log client (pending ++ more) rest := by
  have hsub : (client.seen ++ (pending ++ more) ++ rest).Sublist
      (client.seen ++ (pending ++ event :: more) ++ rest) := by
    simp
  refine ⟨by simp [h.split, hpersist], h.ordered.sublist hsub, fun e he => h.ahead e ?_⟩
  simp only [List.mem_append, List.mem_cons] at he ⊢
  tauto

theorem Unlost.drop_head (h : Unlost log client (event :: more) rest)
    (hpersist : shouldPersist event = false) : Unlost log client more rest := by
  rw [← List.nil_append (event :: more)] at h
  exact h.drop hpersist

/-- The client has received the event. -/
theorem Unlost.receive (h : Unlost log client (event :: pending) rest) {received : Client P}
    (hseen : received.seen = client.seen ++ [event]) (hcursor : received.cursor = event.sequence) :
    Unlost log received pending rest := by
  refine ⟨by simp [h.split, hseen], by simpa [hseen] using h.ordered, fun e he => ?_⟩
  have hordered : Ordered AgentEvent.sequence (event :: (pending ++ rest)) :=
    h.ordered.sublist (by simp)
  rw [hcursor]
  exact (List.pairwise_cons.mp hordered).1 e he

/-- **The end of the subscription**: everything else is after the cursor. -/
theorem Unlost.caught {base sequence : ℕ} (h : Unlost log client pending rest)
    (htracked : Tracked base sequence client) : Caught base log client := by
  have hahead : ∀ e ∈ pending.filter shouldPersist ++ rest, client.cursor < e.sequence := by
    intro e he
    refine h.ahead e ?_
    simp only [List.mem_append, List.mem_filter] at he ⊢
    tauto
  have hsplit : log = client.seen.filter shouldPersist ++ (pending.filter shouldPersist ++ rest) := by
    rw [h.split, List.filter_append, List.append_assoc]
  have hseen : ∀ e ∈ client.seen.filter shouldPersist,
      base < e.sequence ∧ e.sequence ≤ client.cursor := fun e he =>
    htracked.seen e (List.mem_of_mem_filter he)
  have hall : later AgentEvent.sequence base log = log := by
    unfold later
    rw [List.filter_eq_self, hsplit]
    intro e he
    rcases List.mem_append.mp he with he | he
    · simpa using (hseen e he).1
    · simpa using htracked.base_le.trans_lt (hahead e he)
  unfold Caught
  rw [hall, hsplit, later_of_split (fun e he => (hseen e he).2) hahead]

end Live

end AgentHub.Streaming
