import AgentHub.Lib.Checks
import AgentHub.Streaming.Following

/-!
# The steps of the stream

Five kinds of steps may lose an event of the log: a subscription after the hub has taken it from the
producer, a broadcast or a close that drops it from a full queue, the close of the hub while a client
drains the log, and a last read before the producer has recorded its last event. Every other step
keeps the invariant.

## Main definitions

* `loses`: the steps that may lose an event

## Main results

* `Sound.produce`, `Sound.pump`, `Sound.advance`: the steps of each party
* `Sound.step`: every step that loses no event keeps the invariant
-/

namespace AgentHub.Streaming

open Lib Run

variable {P : Type}

/-! ## The steps that lose an event -/

/-- The oldest entry of the queue is an event of the log. -/
def headPersists (queue : List (Option (AgentEvent P))) : Bool :=
  queue.head?.any fun entry => entry.any shouldPersist

/-- The client is subscribed, before `attach_stream`. -/
def State.isLive (s : State P) : Bool :=
  match s.client.phase with
  | .live => s.hub.subscribed
  | _ => false

/-- The client subscribes when an event of the log is no longer on its way, and later events may
still come over the subscription. -/
def subscribesLate (s : State P) : Bool :=
  match s.client.phase with
  | .opening =>
    !s.hub.closed && (s.producer.phase.feeds || !s.producer.feed.isEmpty) &&
      decide ((s.producer.feed.filter shouldPersist).length < s.producer.log.length)
  | _ => false

/-- A broadcast finds the queue of the live client full, with an event of the log to lose. -/
def dropsFromQueue (s : State P) : Bool :=
  s.isLive && decide (subscriberQueueMaxsize ≤ s.hub.queue.length) && headPersists s.hub.queue

/-- A close finds the queue of the producer full, with an event of the log to lose. -/
def dropsFromSource (s : State P) : Bool :=
  s.isLive && decide (sourceMaxsize ≤ s.producer.source.length) &&
    headPersists s.producer.source

/-- The hub closes while the empty page that ends the replay after a subscription is on its way
to the client. -/
def closesInDrain (s : State P) : Bool :=
  match s.client.phase, s.producer.source with
  | .fetched [] .drained, none :: _ => true
  | _, _ => false

/-- The last read of the client finds nothing, and the producer may still record an event. -/
def stopsEarly (s : State P) : Bool :=
  match s.client.phase with
  | .reading .last =>
    (readAfter s.producer.log s.client.cursor).isEmpty && !s.producer.phase.isSettled
  | _ => false

/-- The steps that may lose an event of the log. -/
def loses (s : State P) : Event P → Bool
  | .produce .close => dropsFromSource s
  | .produce _ => false
  | .pump => dropsFromQueue s || closesInDrain s
  | .client => subscribesLate s || stopsEarly s

/-! ## The steps keep the invariant -/

section Steps

variable {base : ℕ} {s t : State P}
  {rest : List (AgentEvent P)} {e : ProducerStep P} {q p : Producer P}
  {entry : Option (AgentEvent P)} {source : List (Option (AgentEvent P))} {hub : Hub P}
  {resume : Resume P} {client : Client P}

/-- Everything the live client has received or is to receive is numbered already. -/
theorem Sound.bounded (h : Sound base s) (hcursor : s.client.cursor ≤ s.producer.sequence)
    (hrest : Unlost s.producer.log s.client s.pending rest) :
    ∀ e ∈ s.client.seen ++ s.pending ++ rest, e.sequence ≤ s.producer.sequence := by
  intro e he
  rcases List.mem_append.mp he with he | he
  · rcases List.mem_append.mp he with he | he
    · exact (h.tracked.seen e he).2.trans hcursor
    · rcases List.mem_append.mp he with he | he
      · exact (h.queued e he).bounded
      · split at he
        · exact (h.recorded.known e he).bounded
        · cases he
  · refine h.recorded.bounded e ?_
    rw [hrest.split]
    exact List.mem_append_right _ he

/-- A step of the producer loses nothing for the live client. -/
theorem Sound.live_produce (h : Sound base s) (hstep : s.producer.produce e = some q)
    (hlive : s.client.phase = .live) (hkept : loses s (.produce e) = false) :
    Live { s with producer := q } := by
  obtain ⟨hcursor, rest, hrest, hall⟩ := h.live hlive
  have hbounded := h.bounded hcursor hrest
  have hle := Producer.sequence_le_of_produce hstep
  refine ⟨hcursor.trans hle, ?_⟩
  cases hsub : s.hub.subscribed with
  | false =>
    have hpending : ({ s with producer := q } : State P).pending = s.pending := by
      simp [State.pending, hsub]
    rw [hpending]
    rcases Producer.log_of_produce hstep with hlog | ⟨event, hlog, hevent, -⟩
    · exact ⟨rest, by simpa [hlog] using hrest, nofun⟩
    · refine ⟨rest ++ [event], ?_, nofun⟩
      dsimp only
      rw [hlog]
      exact hrest.withhold (fun x hx => by have := hbounded x hx; omega) (by omega)
  | true =>
    have hpending : s.pending = events s.hub.queue ++ s.producer.feed := by
      simp [State.pending, hsub]
    have hpending' : ({ s with producer := q } : State P).pending =
        events s.hub.queue ++ q.feed := by
      simp [State.pending, hsub]
    rw [hpending] at hrest hbounded
    rw [hpending']
    cases Producer.move_of_produce hstep with
    | idle log feed feeds =>
      exact ⟨rest, by rw [log, feed]; exact hrest, fun _ hq => hall hsub (feeds hq)⟩
    | publish event sequence settled feeds log feed known =>
      obtain rfl := hall hsub feeds
      rw [List.append_nil] at hbounded
      refine ⟨[], ?_, fun _ _ => rfl⟩
      dsimp only
      rw [log, feed, ← List.append_assoc]
      exact hrest.publish (fun x hx => by have := hbounded x hx; omega) (by omega)
    | withhold event sequence settled log persists feed feeds known =>
      refine ⟨rest ++ [event], ?_, fun _ hq => absurd hq (by simp [feeds])⟩
      dsimp only
      rw [log, feed]
      exact hrest.withhold (fun x hx => by have := hbounded x hx; omega) (by omega)
    | withdraw event log feed feeds =>
      rw [feed, ← List.append_assoc] at hrest
      exact ⟨_, by rw [log]; exact hrest.withdraw, fun _ hq => absurd hq (by simp [feeds])⟩
    | drop event close full head log feed feeds =>
      subst close
      have hpersist : shouldPersist event = false := by
        simpa [loses, dropsFromSource, State.isLive, hlive, hsub, full, headPersists, head]
          using hkept
      rw [feed] at hrest
      refine ⟨rest, ?_, fun _ hq => absurd hq (by simp [feeds])⟩
      dsimp only
      rw [log]
      exact hrest.drop hpersist

/-- A step of the producer keeps what holds of the client in `attach_stream`. -/
theorem Sound.holds_produce (h : Sound base s) (hstep : s.producer.produce e = some q) :
    s.client.phase.Holds { s with producer := q } := by
  have hholds := h.holds
  have hsettled : s.producer.phase.isSettled → q.phase.isSettled ∧ q.log = s.producer.log :=
    Producer.isSettled_of_produce hstep
  have hprefix : later AgentEvent.sequence s.client.cursor s.producer.log <+:
      later AgentEvent.sequence s.client.cursor q.log := by
    rcases Producer.log_of_produce hstep with hlog | ⟨event, hlog, -⟩
    · simp only [hlog, List.prefix_refl]
    · rw [hlog, later_append]
      exact List.prefix_append _ _
  have hresume : ∀ resume : Resume P, resume.Holds s →
      resume.Holds { s with producer := q } := by
    rintro (_ | event | _ | _ | _) hr
    case gap => exact Producer.Known.step hr hstep
    all_goals trivial
  cases hphase : s.client.phase with
  | opening => rwa [hphase] at hholds
  | live | following | checking => trivial
  | reading resume =>
    rw [hphase] at hholds
    exact hresume resume hholds
  | fetched page resume =>
    rw [hphase] at hholds
    obtain ⟨hr, hpage, hempty⟩ := hholds
    refine ⟨hresume resume hr, hpage.trans hprefix, fun hnil => ?_⟩
    have hends := hempty hnil
    cases resume with
    | lookup | polled => trivial
    | gap event =>
      intro row hrow hcursor
      rcases Producer.log_of_produce hstep with hlog | ⟨new, hlog, hnew, -⟩
      · exact hends row (hlog ▸ hrow) hcursor
      · rcases List.mem_append.mp (hlog ▸ hrow) with hrow | hrow
        · exact hends row hrow hcursor
        · rw [List.mem_singleton.mp hrow]
          have : event.sequence ≤ s.producer.sequence := Producer.Known.bounded hr
          omega
    | drained =>
      intro hclosed
      have hlog := (hsettled (ProducerPhase.isSettled_of_hasClosed (h.closed hclosed))).2
      dsimp only
      rw [hlog]
      exact hends hclosed
    | last =>
      obtain ⟨hq, hlog⟩ := hsettled hends.2
      exact ⟨by dsimp only; rw [hlog]; exact hends.1, hq⟩
  | returned =>
    rw [hphase] at hholds
    obtain ⟨hq, hlog⟩ := hsettled hholds.2
    exact ⟨by dsimp only; rw [hlog]; exact hholds.1, hq⟩

/-- **A step of the producer keeps the invariant.** -/
theorem Sound.produce (h : Sound base s) (hstep : s.producer.produce e = some q)
    (hkept : loses s (.produce e) = false) :
    Sound base { s with producer := q } where
  recorded := h.recorded.step hstep
  closed hclosed := Producer.hasClosed_of_produce hstep (h.closed hclosed)
  queued event hevent := (h.queued event hevent).step hstep
  tracked :=
    { h.tracked with
      cursor_le := h.tracked.cursor_le.imp_right fun hle =>
        hle.trans (Producer.sequence_le_of_produce hstep) }
  live hlive := h.live_produce hstep hlive hkept
  caught hlive := by
    dsimp only
    rcases Producer.log_of_produce hstep with hlog | ⟨event, hlog, hevent, -⟩
    · rw [hlog]
      exact h.caught hlive
    · rw [hlog]
      exact (h.caught hlive).append h.tracked (by omega)
  holds := h.holds_produce hstep

/-- Nothing the producer knows of an event is about its queue. -/
theorem Known.taken {event : AgentEvent P} (h : p.Known event) :
    ({ p with source := source } : Producer P).Known event :=
  ⟨h.bounded, h.recorded, h.unrecorded⟩

/-- The pump has taken the oldest entry of the producer's queue. -/
theorem Recorded.taken (h : p.Recorded) (hsource : p.source = entry :: source) :
    ({ p with source := source } : Producer P).Recorded := by
  have hsub : ({ p with source := source } : Producer P).feed.Sublist p.feed := by
    unfold Producer.feed
    rw [hsource]
    refine List.Sublist.append ?_ (List.Sublist.refl _)
    cases entry with
    | none => exact List.Sublist.refl _
    | some event => exact List.sublist_cons_self _ _
  exact
    { ordered := h.ordered
      feed := h.feed.sublist hsub
      bounded := h.bounded
      persisted := h.persisted
      known := fun event hevent => Known.taken (h.known event (hsub.subset hevent))
      closed := fun hnone => h.closed (hsource ▸ List.mem_cons_of_mem _ hnone) }

theorem closed_broadcast (hub : Hub P) (event : Option (AgentEvent P)) :
    (hub.broadcast event).closed = hub.closed := by
  unfold Hub.broadcast
  split <;> [split; skip] <;> rfl

theorem queue_finish (hub : Hub P) : hub.finish.queue = (hub.broadcast none).queue := by
  unfold Hub.finish Hub.broadcast
  dsimp only
  split <;> [split; skip] <;> rfl

theorem mem_events_broadcast {event : Option (AgentEvent P)} {e : AgentEvent P}
    (h : e ∈ events (hub.broadcast event).queue) : e ∈ events hub.queue ∨ event = some e := by
  unfold Hub.broadcast at h
  split at h
  · split at h
    · cases event with
      | none => exact .inl (by simpa using h)
      | some event => simpa [eq_comm] using h
    · refine .inl ?_
      cases hqueue : hub.queue with
      | nil => simp [hqueue] at h
      | cons entry queue =>
        rw [hqueue] at h
        cases entry with
        | none => simpa using h
        | some first =>
          rw [events_some]
          exact List.mem_cons_of_mem _ (by simpa using h)
  · exact .inl h

/-- A full queue gives up an entry that is no event of the log. -/
theorem Unlost.evict {log more : List (AgentEvent P)} {queue : List (Option (AgentEvent P))}
    (h : Unlost log client (events queue ++ more) rest) (hhead : headPersists queue = false) :
    ∃ rest, Unlost log client (events (queue.tail ++ [none])) rest := by
  cases queue with
  | nil => exact ⟨_, (by simpa using h.withdraw)⟩
  | cons entry queue =>
    rw [List.tail_cons, events_append, events_none, events_nil, List.append_nil]
    cases entry with
    | none => exact ⟨_, h.withdraw⟩
    | some event =>
      have hevent : shouldPersist event = false := by simpa [headPersists] using hhead
      exact ⟨_, Unlost.withdraw (h.drop_head hevent)⟩

/-- A broadcast loses nothing for the live client, unless it drops an event of the log. -/
theorem live_broadcast (hcursor : s.client.cursor ≤ s.producer.sequence)
    (hsource : s.producer.source = entry :: source)
    (hrest : Unlost s.producer.log s.client s.pending rest)
    (hall : s.hub.subscribed → s.producer.phase.feeds → rest = [])
    (hkept : s.hub.subscribed → subscriberQueueMaxsize ≤ s.hub.queue.length →
      headPersists s.hub.queue = false)
    (hsubscribed : hub.subscribed → (s.hub.broadcast entry).subscribed)
    (hqueue : hub.queue = (s.hub.broadcast entry).queue) :
    Live { s with producer := { s.producer with source := source }, hub := hub } := by
  refine ⟨hcursor, ?_⟩
  have hfeed : s.producer.feed = events [entry] ++
      ({ s.producer with source := source } : Producer P).feed := by
    unfold Producer.feed
    rw [hsource, ← List.append_assoc, ← events_append]
    rfl
  have hoff : (s.hub.broadcast entry).subscribed = false → hub.subscribed = false := by
    intro hbroadcast
    by_contra h
    rw [hsubscribed (Bool.not_eq_false _ ▸ h)] at hbroadcast
    cases hbroadcast
  cases hsub : s.hub.subscribed with
  | false =>
    have hbroadcast : s.hub.broadcast entry = s.hub := by simp [Hub.broadcast, hsub]
    rw [hbroadcast] at hoff hqueue
    have hnot := hoff hsub
    refine ⟨rest, ?_, fun h => absurd h (by simp [hnot])⟩
    simpa [State.pending, hsub, hnot, hqueue] using hrest
  | true =>
    have hpending : s.pending = events s.hub.queue ++ s.producer.feed := by
      simp [State.pending, hsub]
    rw [hpending] at hrest
    by_cases hfull : s.hub.queue.length < subscriberQueueMaxsize
    · have hbroadcast : (s.hub.broadcast entry).queue = s.hub.queue ++ [entry] := by
        simp [Hub.broadcast, hsub, hfull]
      rw [hfeed, ← List.append_assoc, ← events_append, ← hbroadcast, ← hqueue] at hrest
      cases hsub' : hub.subscribed with
      | true =>
        exact ⟨rest, by simpa [State.pending, hsub'] using hrest, fun _ => hall hsub⟩
      | false =>
        exact ⟨_, by simpa [State.pending, hsub'] using hrest.withdraw, nofun⟩
    · have hbroadcast : s.hub.broadcast entry =
          { s.hub with subscribed := false, queue := s.hub.queue.tail ++ [none] } := by
        simp [Hub.broadcast, hsub, hfull]
      rw [hbroadcast] at hoff hqueue
      have hnot := hoff rfl
      obtain ⟨rest, hrest⟩ := hrest.evict (hkept hsub (not_lt.mp hfull))
      refine ⟨rest, ?_, fun h => absurd h (by simp [hnot])⟩
      simpa [State.pending, hnot, hqueue] using hrest

/-- A step of the pump keeps what holds of the client in `attach_stream`. -/
theorem holds_pump (h : s.client.phase.Holds s)
    (hclosed : s.client.phase = .fetched [] .drained → hub.closed → s.hub.closed) :
    s.client.phase.Holds
      { s with producer := { s.producer with source := source }, hub := hub } := by
  have hresume : ∀ resume : Resume P, resume.Holds s → resume.Holds
      { s with producer := { s.producer with source := source }, hub := hub } := by
    rintro (_ | event | _ | _ | _) hr
    case gap => exact Known.taken hr
    all_goals exact hr
  cases hphase : s.client.phase with
  | opening => rwa [hphase] at h
  | live | following | checking => trivial
  | reading resume =>
    rw [hphase] at h
    exact hresume resume h
  | fetched page resume =>
    rw [hphase] at h
    obtain ⟨hr, hpage, hempty⟩ := h
    refine ⟨hresume resume hr, hpage, fun hnil => ?_⟩
    have hends := hempty hnil
    cases resume with
    | drained =>
      rw [hphase, hnil] at hclosed
      exact fun hhub => hends (hclosed rfl hhub)
    | _ => exact hends
  | returned =>
    rw [hphase] at h
    exact h

/-- **A step of the pump keeps the invariant.** -/
theorem Sound.pump (h : Sound base s) (hstep : pump s = some t)
    (hkept : loses s .pump = false) : Sound base t := by
  have hdrop : s.client.phase = .live → s.hub.subscribed →
      subscriberQueueMaxsize ≤ s.hub.queue.length → headPersists s.hub.queue = false := by
    intro hlive hsub hfull
    have hkept := (Bool.or_eq_false_iff.mp hkept).1
    simpa [dropsFromQueue, State.isLive, hlive, hsub, hfull] using hkept
  unfold Streaming.pump at hstep
  split at hstep
  · cases hstep
  · next hopen =>
    split at hstep
    · cases hstep
    · next event source hsource =>
      obtain rfl := Option.some.inj hstep
      refine ⟨Recorded.taken h.recorded hsource, ?_, fun e he => ?_, h.tracked, fun hlive => ?_,
        h.caught, ?_⟩
      · rw [closed_broadcast]
        exact h.closed
      · apply Known.taken
        rcases mem_events_broadcast he with he | he
        · exact h.queued e he
        · obtain rfl := Option.some.inj he
          exact h.recorded.known event (by simp [Producer.feed, hsource])
      · obtain ⟨hcursor, rest, hrest, hall⟩ := h.live hlive
        exact live_broadcast hcursor hsource hrest hall (hdrop hlive) id rfl
      · refine holds_pump h.holds fun _ hclosed => ?_
        rwa [closed_broadcast] at hclosed
    · next source hsource =>
      obtain rfl := Option.some.inj hstep
      refine ⟨Recorded.taken h.recorded hsource, fun _ => ?_, fun e he => ?_, h.tracked,
        fun hlive => ?_, h.caught, ?_⟩
      · exact h.recorded.closed (by simp [hsource])
      · apply Known.taken
        rcases mem_events_broadcast he with he | he
        · exact h.queued e he
        · cases he
      · obtain ⟨hcursor, rest, hrest, hall⟩ := h.live hlive
        refine live_broadcast hcursor hsource hrest hall (hdrop hlive) ?_ (queue_finish s.hub)
        intro hsub
        cases hsub
      · refine holds_pump h.holds fun hphase _ => ?_
        have hkept := (Bool.or_eq_false_iff.mp hkept).2
        simp [closesInDrain, hphase, hsource] at hkept

/-- The client goes on in `attach_stream`, with no new event in its queue. -/
theorem Sound.of_client (h : Sound base s)
    (hclosed : hub.closed = s.hub.closed)
    (hqueue : ∀ e ∈ events hub.queue, e ∈ events s.hub.queue)
    (htracked : Tracked base s.producer.sequence client) (hlive : client.phase ≠ .live)
    (hcaught : Caught base s.producer.log client)
    (hholds : client.phase.Holds { s with client := client, hub := hub }) :
    Sound base { s with client := client, hub := hub } where
  recorded := h.recorded
  closed hhub := h.closed (hclosed ▸ hhub)
  queued e he := h.queued e (hqueue e he)
  tracked := htracked
  live hphase := absurd hphase hlive
  caught _ := hcaught
  holds := hholds

/-- What is recorded is on its way, where as much is. -/
theorem Recorded.log_eq (h : p.Recorded)
    (hlength : p.log.length ≤ (p.feed.filter shouldPersist).length) :
    p.log = p.feed.filter shouldPersist := by
  have hordered : Ordered AgentEvent.sequence (p.feed.filter shouldPersist) :=
    h.feed.sublist List.filter_sublist
  have hsub : p.feed.filter shouldPersist ⊆ p.log := by
    intro event hevent
    obtain ⟨hmem, hpersist⟩ := List.mem_filter.mp hevent
    exact (h.known event hmem).recorded hpersist
  have hnodup : (p.feed.filter shouldPersist).Nodup :=
    hordered.imp fun {a b} hlt heq => (heq ▸ hlt).ne rfl
  have hperm := (List.subperm_of_subset hnodup hsub).perm_of_length_le hlength
  exact hperm.symm.eq_of_pairwise (fun a b _ _ hab hba => absurd hab hba.asymm) h.ordered hordered

variable (h : Sound base s)

include h

/-- The client subscribes, to a hub that still has every event for it. -/
theorem Sound.client_opening (hphase : s.client.phase = .opening)
    (hkept : subscribesLate s = false)
    (hstep : s.client.advance s.producer s.hub = some (client, hub)) :
    Sound base { s with client := client, hub := hub } := by
  have hcaught := h.caught (by rw [hphase]; nofun)
  have hholds := h.holds
  rw [hphase] at hholds
  obtain ⟨hseen, hcursor⟩ := hholds
  unfold Client.advance at hstep
  rw [hphase] at hstep
  dsimp only at hstep
  split at hstep
  · obtain ⟨rfl, rfl⟩ := some_pair_inj hstep
    exact h.of_client rfl (fun _ => id) (h.tracked.congr rfl rfl) nofun hcaught trivial
  · next hopen =>
    obtain ⟨rfl, rfl⟩ := some_pair_inj hstep
    refine ⟨h.recorded, h.closed, nofun, h.tracked.congr rfl rfl, fun _ => ?_,
      fun hlive => absurd rfl hlive, trivial⟩
    have hahead : ∀ event : AgentEvent P, s.client.cursor < event.sequence := fun event =>
      hcursor ▸ event.sequence_pos
    refine ⟨by rw [hcursor]; exact Nat.zero_le _, ?_⟩
    have hpending : ({ s with client := { s.client with phase := .live }, hub := s.hub.subscribe } :
        State P).pending = s.producer.feed := by
      simp [State.pending, Hub.subscribe]
    rw [hpending]
    by_cases hlength : s.producer.log.length ≤ (s.producer.feed.filter shouldPersist).length
    · refine ⟨[], ⟨?_, ?_, fun event _ => hahead event⟩, fun _ _ => rfl⟩
      · simpa [hseen] using Recorded.log_eq h.recorded hlength
      · simpa [hseen] using h.recorded.feed
    · -- nothing more comes over the subscription, and the log is replayed
      have hnone : s.producer.phase.feeds = false ∧ s.producer.feed = [] := by
        simpa [subscribesLate, hphase, hopen, not_le.mp hlength] using hkept
      refine ⟨s.producer.log, ⟨?_, ?_, fun event _ => hahead event⟩, fun _ hfeeds => ?_⟩
      · simp [hseen, hnone.2]
      · simpa [hseen, hnone.2] using h.recorded.ordered
      · exact absurd hfeeds (by simp [hnone.1])

/-- The live client takes an entry of its queue. -/
theorem Sound.client_live (hphase : s.client.phase = .live)
    (hstep : s.client.advance s.producer s.hub = some (client, hub)) :
    Sound base { s with client := client, hub := hub } := by
  obtain ⟨hcursor, rest, hrest, hall⟩ := h.live hphase
  unfold Client.advance at hstep
  rw [hphase] at hstep
  dsimp only at hstep
  split at hstep
  · cases hstep
  · next event queue hqueue =>
    obtain ⟨rfl, rfl⟩ := some_pair_inj hstep
    have hpending : s.pending = event ::
        ({ s with hub := { s.hub with queue := queue } } : State P).pending := by
      simp [State.pending, hqueue]
    have hmem : event ∈ events s.hub.queue := by simp [hqueue]
    have hknown := h.queued event hmem
    rw [hpending] at hrest
    have hlt : s.client.cursor < event.sequence := hrest.ahead event (by simp)
    have hmax : max s.client.cursor event.sequence = event.sequence := max_eq_right hlt.le
    have htracked := h.tracked.deliver hlt hknown.bounded
    refine ⟨h.recorded, h.closed, fun e he => h.queued e ?_, ?_, fun _ => ?_, fun hlive => ?_, ?_⟩
    · rw [hqueue]
      exact List.mem_cons_of_mem _ he
    · exact htracked.congr hmax rfl
    · refine ⟨?_, rest, ?_, hall⟩
      · exact max_le hcursor hknown.bounded
      · exact hrest.receive rfl hmax
    · exact absurd rfl hlive
    · trivial
  · next queue hqueue =>
    obtain ⟨rfl, rfl⟩ := some_pair_inj hstep
    exact h.of_client rfl nofun (h.tracked.congr rfl rfl) nofun (hrest.caught h.tracked) trivial

/-- A replay has ended: what `attach_stream` does next. -/
theorem Sound.client_resume (hphase : s.client.phase = .fetched [] resume) :
    Sound base
      { s with client := (s.client.resume s.hub resume).1
               hub := (s.client.resume s.hub resume).2 } := by
  have hholds := h.holds
  rw [hphase] at hholds
  obtain ⟨hresume, -, hends⟩ := hholds
  have hends := hends rfl
  have hcaught := h.caught (by rw [hphase]; nofun)
  have htracked : ∀ phase, Tracked base s.producer.sequence { s.client with phase := phase } :=
    fun phase => h.tracked.congr rfl rfl
  unfold Client.resume
  cases resume with
  | lookup =>
    dsimp only
    split
    · exact h.of_client rfl (fun _ => id) (htracked _) nofun hcaught trivial
    · exact h.of_client rfl nofun (htracked _) nofun hcaught trivial
  | gap event =>
    have hknown : s.producer.Known event := hresume
    dsimp only
    split
    · exact h.of_client rfl (fun _ => id) (htracked _) nofun hcaught trivial
    · next hcursor =>
      rw [not_le] at hcursor
      refine h.of_client rfl (fun _ => id)
        ((h.tracked.deliver hcursor hknown.bounded).congr rfl rfl) nofun ?_ trivial
      -- an event of the log would have been replayed
      have hpersist : shouldPersist event = false := by
        cases hpersist : shouldPersist event with
        | false => rfl
        | true => exact absurd (hends event (hknown.recorded hpersist) hcursor) (lt_irrefl _)
      exact hcaught.deliver_delta hpersist fun row hrow =>
        ⟨hends row hrow, hcursor.trans⟩
  | drained =>
    refine h.of_client rfl (fun _ => id) (htracked _) ?_ hcaught ?_
    · dsimp only
      split <;> nofun
    · dsimp only
      split
      · next hclosed =>
        exact ⟨hends hclosed, ProducerPhase.isSettled_of_hasClosed (h.closed hclosed)⟩
      · trivial
  | polled => exact h.of_client rfl (fun _ => id) (htracked _) nofun hcaught trivial
  | last => exact h.of_client rfl (fun _ => id) (htracked _) nofun hcaught hends

/-- The client takes an event of the page. -/
theorem Sound.client_fetched {event : AgentEvent P} {page : List (AgentEvent P)}
    (hphase : s.client.phase = .fetched (event :: page) resume) :
    Sound base
      { s with
        client :=
          { s.client.deliver event with
            phase := if page.isEmpty then .reading resume else .fetched page resume } } := by
  have hholds := h.holds
  rw [hphase] at hholds
  obtain ⟨hresume, ⟨rest, hrest⟩, -⟩ := hholds
  have hcaught := h.caught (by rw [hphase]; nofun)
  have hfirst : later AgentEvent.sequence s.client.cursor s.producer.log =
      event :: (page ++ rest) := hrest.symm
  obtain ⟨hmem, hlt⟩ := mem_later.mp (hfirst ▸ List.mem_cons_self)
  have htracked := h.tracked.deliver hlt (h.recorded.bounded event hmem)
  refine h.of_client rfl (fun _ => id) (htracked.congr rfl rfl) ?_
    (hcaught.deliver_first h.recorded.ordered (h.recorded.persisted event hmem) hfirst) ?_
  · dsimp only
    split <;> nofun
  · have hr : ∀ client, resume.Holds { s with client := client } := by
      intro client
      cases resume <;> exact hresume
    dsimp only
    split
    · exact hr _
    · next hpage =>
      refine ⟨hr _, ⟨rest, ?_⟩, fun hnil => absurd hnil (by simpa using hpage)⟩
      exact (h.recorded.ordered.later_eq_cons hfirst).symm

/-- The client has read a page. -/
theorem Sound.client_reading (hphase : s.client.phase = .reading resume)
    (hkept : stopsEarly s = false) :
    Sound base
      { s with client :=
        { s.client with phase := .fetched (readAfter s.producer.log s.client.cursor) resume } } := by
  have hresume : resume.Holds s := by
    have hholds := h.holds
    rwa [hphase] at hholds
  have hcaught := h.caught (by rw [hphase]; nofun)
  refine h.of_client rfl (fun _ => id) (h.tracked.congr rfl rfl) nofun hcaught
    ⟨?_, readAfter_first h.recorded.ordered _, fun hread => ?_⟩
  · cases resume <;> exact hresume
  · have hnone := later_of_readAfter h.recorded.ordered hread
    cases resume with
    | lookup | polled => trivial
    | gap event =>
      intro row hrow hcursor
      exact absurd hcursor (not_lt.mpr (later_eq_nil.mp hnone row hrow))
    | drained => exact fun _ => hnone
    | last =>
      have hsettled : s.producer.phase.isSettled := by
        simpa [stopsEarly, hphase, hread] using hkept
      exact ⟨hnone, hsettled⟩

/-- The client takes an entry of the queue of `attach_stream`. -/
theorem Sound.client_following (hphase : s.client.phase = .following)
    (hstep : s.client.advance s.producer s.hub = some (client, hub)) :
    Sound base { s with client := client, hub := hub } := by
  have hlive : s.client.phase ≠ .live := by
    rw [hphase]
    nofun
  have hholds : ∀ t : State P, s.client.phase.Holds t := fun t => by
    rw [hphase]
    trivial
  have hcaught := h.caught hlive
  unfold Client.advance at hstep
  rw [hphase] at hstep
  dsimp only at hstep
  split at hstep
  · cases hstep
  · next event queue hqueue =>
    have hknown := h.queued event (by simp [hqueue])
    have hsub : ∀ e ∈ events queue, e ∈ events s.hub.queue := by
      intro e he
      rw [hqueue]
      exact List.mem_cons_of_mem _ he
    split at hstep
    · obtain ⟨rfl, rfl⟩ := some_pair_inj hstep
      exact h.of_client rfl hsub (h.tracked.congr rfl rfl) nofun hcaught hknown
    · next hgap =>
      split at hstep
      · obtain ⟨rfl, rfl⟩ := some_pair_inj hstep
        exact h.of_client rfl hsub h.tracked hlive hcaught (hholds _)
      · next hnew =>
        obtain ⟨rfl, rfl⟩ := some_pair_inj hstep
        have hnext : event.sequence = s.client.cursor + 1 := by omega
        refine h.of_client rfl hsub (h.tracked.deliver (by omega) hknown.bounded) hlive ?_
          (hholds _)
        -- there is no number between the cursor and the event
        cases hpersist : shouldPersist event with
        | true =>
          exact hcaught.deliver_first h.recorded.ordered hpersist
            (h.recorded.ordered.later_succ (hknown.recorded hpersist) hnext)
        | false =>
          refine hcaught.deliver_delta hpersist fun row hrow => ?_
          have := hknown.unrecorded hpersist row hrow
          omega
  · obtain ⟨rfl, rfl⟩ := some_pair_inj hstep
    exact h.of_client rfl nofun (h.tracked.congr rfl rfl) nofun hcaught trivial

/-- **A step of the client keeps the invariant.** -/
theorem Sound.advance (hstep : s.client.advance s.producer s.hub = some (client, hub))
    (hkept : loses s .client = false) : Sound base { s with client := client, hub := hub } := by
  obtain ⟨hlate, hkept⟩ := Bool.or_eq_false_iff.mp hkept
  cases hphase : s.client.phase with
  | opening => exact h.client_opening hphase hlate hstep
  | live => exact h.client_live hphase hstep
  | following => exact h.client_following hphase hstep
  | reading resume =>
    simp only [Client.advance, hphase, Option.some.injEq, Prod.mk.injEq] at hstep
    obtain ⟨rfl, rfl⟩ := hstep
    exact h.client_reading hphase hkept
  | fetched page resume =>
    cases page with
    | nil =>
      simp only [Client.advance, hphase, Option.some.injEq] at hstep
      have := h.client_resume hphase
      rwa [hstep] at this
    | cons event page =>
      simp only [Client.advance, hphase, Option.some.injEq, Prod.mk.injEq] at hstep
      obtain ⟨rfl, rfl⟩ := hstep
      exact h.client_fetched hphase
  | checking =>
    simp only [Client.advance, hphase, Option.some.injEq, Prod.mk.injEq] at hstep
    obtain ⟨rfl, rfl⟩ := hstep
    refine h.of_client rfl (fun _ => id) (h.tracked.congr rfl rfl) nofun
      (h.caught (by rw [hphase]; nofun)) ?_
    dsimp only
    split <;> trivial
  | returned => simp [Client.advance, hphase] at hstep

/-- **Every step that loses no event keeps the invariant.** -/
theorem Sound.step {e : Event P} (hstep : step s e = some t) (hkept : loses s e = false) :
    Sound base t := by
  cases e with
  | produce e =>
    obtain ⟨q, hq, rfl⟩ := Option.map_eq_some_iff.mp hstep
    exact h.produce hq hkept
  | pump => exact h.pump hstep hkept
  | client =>
    obtain ⟨⟨client, hub⟩, hadvance, rfl⟩ := Option.map_eq_some_iff.mp hstep
    exact h.advance hadvance hkept

end Steps

end AgentHub.Streaming
