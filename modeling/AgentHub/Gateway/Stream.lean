import AgentHub.Transcript.Messages

/-!
# The stream of the model gateway

`_stream` tries the profiles of a chain in order, each up to `max_attempts` times. Within an
attempt it holds back the events of the adapter until a message or a tool call begins; from then on
the answer is visible and the attempt cannot be taken back. What the adapter does, what the budget
answers and where the consumer stops are given by an environment.

## Main definitions

* `Environment`: the adapter, the budget and the consumer
* `Progress`, `consume`, `runAttempt`: one attempt
* `streamAttempts`, `streamChain`, `stream`: the retries of one profile, and the chain

## Main results

* `consume_spec`: what an attempt has yielded and held back is what the adapter has sent
* `stream_one_attempt`: the events come from the last attempt only
-/

namespace AgentHub.Gateway

open Lib Transcript

/-! ## Events and errors -/

/-- The part of a response that decides whether it is usable. -/
structure ModelResponse (A : Type) where
  content : Text
  toolCalls : List (ModelToolCall A)
  finishReason : Option Text

structure ModelToolCallDelta where
  index : ℕ
  name : Option Text
  argumentsDelta : Text
  providerToolCallId : Option Text

/-- An event of the stream: its type, with the one payload it carries. -/
inductive ModelStreamEvent (A U : Type)
  | messageDelta (delta : Text)
  | toolCallDelta (delta : ModelToolCallDelta)
  | usage (usage : U)
  | completed (response : ModelResponse A)

inductive ModelGatewayErrorCode
  | modelTimeout | modelRateLimited | modelAuthFailed | modelProviderUnavailable
  | modelBadResponse | modelCapabilityMismatch | modelProfileDisabled | modelStreamInterrupted
  | modelTargetForbidden | agentVersionModelBindingInvalid
  deriving DecidableEq, Repr

structure ModelGatewayError where
  code : ModelGatewayErrorCode
  retryable : Bool := false
  deriving DecidableEq, Repr

/-- What may be raised while the stream runs: the classes its handlers tell apart. A cancellation
stands for the closing of the generator as well. -/
inductive Raised
  | timeout
  | gateway (error : ModelGatewayError)
  | budget (code : String)
  | exception
  | cancelled
  deriving DecidableEq, Repr

/-- What leaves the stream. -/
inductive StreamError
  | gateway (error : ModelGatewayError)
  | budget (code : String)
  | cancelled
  deriving DecidableEq, Repr

/-- The handlers around the loops: an exception of another class is a bad response. -/
def Raised.leaving : Raised → StreamError
  | gateway error => .gateway error
  | budget code => .budget code
  | cancelled => .cancelled
  | timeout | exception => .gateway { code := .modelBadResponse }

section Stream

variable {A U : Type}

def ModelStreamEvent.response? : ModelStreamEvent A U → Option (ModelResponse A)
  | .completed response => some response
  | _ => none

/-- The event makes the answer visible. -/
def ModelStreamEvent.isDelta : ModelStreamEvent A U → Bool
  | .messageDelta _ | .toolCallDelta _ => true
  | _ => false

/-- A response that `_validate_usable_response` passes: an answer, or a refusal of the provider. -/
def isUsable (response : ModelResponse A) : Bool :=
  strip CodePoint.isSpace response.content ≠ [] || response.toolCalls.length ≠ 0 ||
    response.finishReason = some (Text.ofString "content_filter") ||
    response.finishReason = some (Text.ofString "refusal")

/-! ## The environment -/

/-- What the adapter does in one attempt: the events it sends, and what it then raises, if
anything. -/
structure Attempt (A U : Type) where
  events : List (ModelStreamEvent A U)
  raised : Option Raised

/-- The environment of one stream, by the indices of the profile and of the attempt. -/
structure Environment (A U : Type) where
  /-- The number of profiles, or what the resolution of the chain raises. -/
  chain : Except Raised ℕ
  maxAttempts : ℕ
  /-- What the lookup of the credential raises. -/
  credential : ℕ → Option Raised
  /-- Whether the attempt holds a reservation of the budget. -/
  reserveAttempt : ℕ → ℕ → Except Raised Bool
  /-- What marking the outcome of a reservation as unknown raises. -/
  markUnknownOutcome : ℕ → ℕ → Option Raised
  attempt : ℕ → ℕ → Attempt A U
  /-- What is thrown into the generator while the consumer has the event of this number: the
  consumer closes it, or the deadline strikes. -/
  stop : Option (ℕ × Raised)

/-! ## One attempt -/

/-- The variables of one attempt. -/
structure Progress (A U : Type) where
  buffered : List (ModelStreamEvent A U) := []
  yielded : List (ModelStreamEvent A U) := []
  visible : Bool := false
  finalResponse : Option (ModelResponse A) := none

/-- The treatment of an event that is not refused. -/
def Progress.push (g : Progress A U) (event : ModelStreamEvent A U) : Progress A U :=
  let g := { g with finalResponse := event.response?.or g.finalResponse }
  if event.isDelta then
    { g with visible := true, yielded := g.yielded ++ g.buffered ++ [event], buffered := [] }
  else if g.visible then { g with yielded := g.yielded ++ [event] }
  else { g with buffered := g.buffered ++ [event] }

def badResponse : ModelGatewayError := { code := .modelBadResponse }

/-- The loop over the events of the adapter, up to a response that is not usable or to a stop at
one of the events that are yielded. -/
def consume (stop : Option (ℕ × Raised)) (g : Progress A U) :
    List (ModelStreamEvent A U) → Progress A U × Option Raised
  | [] => (g, none)
  | event :: events =>
    if event.response?.any fun response => !isUsable response then
      ({ g with finalResponse := event.response? }, some (.gateway badResponse))
    else
      let pushed := g.push event
      match stop with
      | some (n, thrown) =>
        if n < pushed.yielded.length then
          ({ pushed with yielded := pushed.yielded.take (n + 1) }, some thrown)
        else consume stop pushed events
      | none => consume stop pushed events

/-- The body of the attempt, up to its end or to what it raises. -/
def runAttempt (stop : Option (ℕ × Raised)) (attempt : Attempt A U) :
    Progress A U × Option Raised :=
  match consume stop {} attempt.events with
  | (g, some raised) => (g, some raised)
  | (g, none) =>
    match attempt.raised with
    | some raised => (g, some raised)
    | none => (g, if g.finalResponse.isNone then some (.gateway badResponse) else none)

/-- How the loop over the profiles goes on: the stream ends, or the next profile is tried. -/
inductive Next
  | leave (outcome : Except StreamError Unit)
  | fallback (lastError : Option ModelGatewayError)

variable (env : Environment A U)

/-- The handlers of the attempt; an error on the right is retried on the same profile. -/
def settle (profile attempt : ℕ) (reserved : Bool) (g : Progress A U) (raised : Raised) :
    Next ⊕ ModelGatewayError :=
  if raised = .cancelled then .inl (.leave (.error .cancelled))
  else
    match (if reserved && g.finalResponse.isNone then env.markUnknownOutcome profile attempt
      else none) with
    | some raised => .inl (.leave (.error raised.leaving))
    | none =>
      if g.visible then .inl (.leave (.error (.gateway { code := .modelStreamInterrupted })))
      else
        match raised with
        | .timeout =>
          if attempt + 1 ≥ env.maxAttempts then
            .inl (.fallback (some { code := .modelTimeout, retryable := true }))
          else .inr { code := .modelTimeout, retryable := true }
        | .gateway error =>
          if error.retryable = false ∨ attempt + 1 ≥ env.maxAttempts then
            .inl (.fallback (some error))
          else .inr error
        | _ => .inl (.fallback (some badResponse))

/-- The end of an attempt that raised nothing: the events held back are yielded. -/
def finish (g : Progress A U) : List (ModelStreamEvent A U) × Except StreamError Unit :=
  let events := g.yielded ++ g.buffered
  match env.stop with
  | some (n, thrown) =>
    if n < events.length then (events.take (n + 1), .error thrown.leaving) else (events, .ok ())
  | none => (events, .ok ())

/-! ## The loops -/

/-- What the stream does, in order. -/
inductive Action (A U : Type)
  | start (profile attempt : ℕ)
  | yield (event : ModelStreamEvent A U)

/-- The attempts on one profile. -/
def streamAttempts (profile : ℕ) :
    (remaining attempt : ℕ) → Option ModelGatewayError → List (Action A U) × Next
  | 0, _, lastError => ([], .fallback lastError)
  | remaining + 1, attempt, _ =>
    match env.reserveAttempt profile attempt with
    | .error raised => ([], .leave (.error raised.leaving))
    | .ok reserved =>
      match runAttempt env.stop (env.attempt profile attempt) with
      | (g, none) =>
        (.start profile attempt :: (finish env g).1.map .yield, .leave (finish env g).2)
      | (g, some raised) =>
        let actions := .start profile attempt :: g.yielded.map .yield
        match settle env profile attempt reserved g raised with
        | .inl next => (actions, next)
        | .inr lastError =>
          let rest := streamAttempts profile remaining (attempt + 1) (some lastError)
          (actions ++ rest.1, rest.2)

/-- The profiles of the chain. -/
def streamChain : (remaining profile : ℕ) → Option ModelGatewayError →
    List (Action A U) × Except StreamError Unit
  | 0, _, lastError =>
    ([], .error (.gateway (lastError.getD { code := .modelProviderUnavailable })))
  | remaining + 1, profile, lastError =>
    match env.credential profile with
    | some raised => ([], .error raised.leaving)
    | none =>
      match streamAttempts env profile env.maxAttempts 0 lastError with
      | (actions, .leave outcome) => (actions, outcome)
      | (actions, .fallback lastError) =>
        let rest := streamChain remaining (profile + 1) lastError
        (actions ++ rest.1, rest.2)

/-- `_stream`: what it does, and how it ends. -/
def stream : List (Action A U) × Except StreamError Unit :=
  match env.chain with
  | .error raised => ([], .error raised.leaving)
  | .ok profiles => streamChain env profiles 0 none

/-! ## One attempt yields what the adapter sends -/

section Attempts

variable {env : Environment A U} {g g' : Progress A U} {sent events : List (ModelStreamEvent A U)}
  {stop : Option (ℕ × Raised)}

/-- The attempt has treated the events `sent`: it yields nothing before the answer is visible, and
holds nothing back afterwards. -/
structure Held (g : Progress A U) (sent : List (ModelStreamEvent A U)) : Prop where
  split : g.yielded ++ g.buffered = sent
  hidden : g.visible = false → g.yielded = []
  released : g.visible = true → g.buffered = []
  response : ∀ r, g.finalResponse = some r → isUsable r ∧ .completed r ∈ sent

theorem Held.push (h : Held g sent) {event : ModelStreamEvent A U}
    (husable : event.response?.any (fun response => !isUsable response) = false) :
    Held (g.push event) (sent ++ [event]) := by
  have hresponse : ∀ r, event.response?.or g.finalResponse = some r →
      isUsable r ∧ .completed r ∈ sent ++ [event] := by
    intro r hr
    cases event with
    | completed response =>
      obtain rfl : response = r := by simpa [ModelStreamEvent.response?] using hr
      exact ⟨by simpa [ModelStreamEvent.response?] using husable, by simp⟩
    | _ =>
      obtain ⟨hr, hmem⟩ := h.response r (by simpa [ModelStreamEvent.response?] using hr)
      exact ⟨hr, List.mem_append_left _ hmem⟩
  obtain ⟨rfl, hhidden, hreleased, -⟩ := h
  unfold Progress.push
  dsimp only
  split
  · exact ⟨by simp, nofun, fun _ => rfl, hresponse⟩
  · split
    · next hvisible =>
      refine ⟨by simp [hreleased hvisible], fun h => ?_, hreleased, hresponse⟩
      rw [h] at hvisible
      cases hvisible
    · next hvisible =>
      exact ⟨by simp, hhidden, fun h => absurd h hvisible, hresponse⟩

theorem held_nil : Held ({} : Progress A U) [] where
  split := rfl
  hidden _ := rfl
  released _ := rfl
  response _ h := nomatch h

/-- **The loop over the events of the adapter** has treated all of them, or has yielded some first
of them, and none while the answer is not visible. -/
theorem consume_spec (h : Held g sent) {raised : Option Raised}
    (hconsume : consume stop g events = (g', raised)) :
    (raised = none → Held g' (sent ++ events)) ∧
      g'.yielded <+: sent ++ events ∧ (g'.visible = false → g'.yielded = []) := by
  induction events generalizing g sent with
  | nil =>
    obtain ⟨rfl, rfl⟩ := Prod.mk.inj hconsume
    rw [List.append_nil]
    exact ⟨fun _ => h, ⟨g.buffered, h.split⟩, h.hidden⟩
  | cons event events ih =>
    have hfirst : g.yielded <+: sent ++ event :: events :=
      ⟨g.buffered ++ event :: events, by rw [← List.append_assoc, h.split]⟩
    unfold consume at hconsume
    split at hconsume
    · obtain ⟨rfl, rfl⟩ := Prod.mk.inj hconsume
      exact ⟨nofun, hfirst, h.hidden⟩
    · next husable =>
      have hpushed := h.push (by simpa using husable)
      have hrest : consume stop (g.push event) events = (g', raised) →
          (raised = none → Held g' (sent ++ event :: events)) ∧
            g'.yielded <+: sent ++ event :: events ∧ (g'.visible = false → g'.yielded = []) :=
        fun hconsume => by simpa using ih hpushed hconsume
      dsimp only at hconsume
      split at hconsume
      · next n thrown =>
        split at hconsume
        · next hstop =>
          obtain ⟨rfl, rfl⟩ := Prod.mk.inj hconsume
          refine ⟨nofun, ( List.take_prefix _ _).trans ?_, fun hvisible => ?_⟩
          · rw [List.append_cons, ← hpushed.split, List.append_assoc]
            exact List.prefix_append _ _
          · rw [hpushed.hidden hvisible] at hstop
            exact absurd hstop (Nat.not_lt_zero n)
        · exact hrest hconsume
      · exact hrest hconsume

/-- **An attempt that raises nothing** has treated every event of the adapter, a usable response
among them. -/
theorem runAttempt_completed {attempt : Attempt A U}
    (h : runAttempt stop attempt = (g, none)) :
    g.yielded ++ g.buffered = attempt.events ∧
      ∃ r, isUsable r ∧ .completed r ∈ attempt.events := by
  unfold runAttempt at h
  split at h
  · cases h
  · next g' hconsume =>
    split at h
    · cases h
    · obtain ⟨rfl, hnone⟩ := Prod.mk.inj h
      have hheld := (consume_spec held_nil hconsume).1 rfl
      rw [List.nil_append] at hheld
      refine ⟨hheld.split, ?_⟩
      cases hresponse : g'.finalResponse with
      | none => simp [hresponse] at hnone
      | some r => exact ⟨r, hheld.response r hresponse⟩

/-- **An attempt that raises** has yielded some first events of the adapter, and none while the
answer is not visible. -/
theorem runAttempt_raised {attempt : Attempt A U} {raised : Raised}
    (h : runAttempt stop attempt = (g, some raised)) :
    g.yielded <+: attempt.events ∧ (g.visible = false → g.yielded = []) := by
  unfold runAttempt at h
  split at h
  · next g' raised' hconsume =>
    obtain ⟨rfl, -⟩ := Prod.mk.inj h
    simpa using (consume_spec held_nil hconsume).2
  · next g' hconsume =>
    have hspec := (consume_spec held_nil hconsume).2
    rw [List.nil_append] at hspec
    split at h <;> (obtain ⟨rfl, -⟩ := Prod.mk.inj h; exact hspec)

/-- The events held back are yielded, up to a stop. -/
theorem finish_spec (env : Environment A U) (g : Progress A U) :
    (finish env g).1 <+: g.yielded ++ g.buffered ∧
    ((finish env g).2 = .ok () → (finish env g).1 = g.yielded ++ g.buffered) := by
  unfold finish
  dsimp only
  split
  · split
    · exact ⟨ List.take_prefix _ _, nofun⟩
    · exact ⟨List.prefix_refl _, fun _ => rfl⟩
  · exact ⟨List.prefix_refl _, fun _ => rfl⟩

/-- Another attempt or profile is tried only while the answer is not visible. -/
theorem visible_of_settle {profile attempt : ℕ} {reserved : Bool} {raised : Raised}
    (h : ∀ outcome, settle env profile attempt reserved g raised ≠ .inl (.leave outcome)) :
    g.visible = false := by
  cases hvisible : g.visible with
  | false => rfl
  | true =>
    unfold settle at h
    rw [hvisible] at h
    split at h
    · exact absurd rfl (h _)
    · split at h <;> exact absurd rfl (h _)

/-- An attempt that raises does not end the stream normally. -/
theorem settle_ne_ok (env : Environment A U) (profile attempt : ℕ) (reserved : Bool)
    (g : Progress A U) (raised : Raised) :
    settle env profile attempt reserved g raised ≠ .inl (.leave (.ok ())) := by
  unfold settle
  grind

end Attempts

/-! ## The events come from the last attempt -/

section Streams

variable {env : Environment A U} {limit : ℕ} {t : List (Action A U)}

/-- The attempts that are started. -/
def started : List (Action A U) → List (ℕ × ℕ) :=
  List.filterMap fun
    | .start profile attempt => some (profile, attempt)
    | .yield _ => none

/-- The events that are yielded. -/
def yielded : List (Action A U) → List (ModelStreamEvent A U) :=
  List.filterMap fun
    | .start _ _ => none
    | .yield event => some event

/-- The events the adapter sends in the last of the attempts. -/
def lastEvents (env : Environment A U) (starts : List (ℕ × ℕ)) : List (ModelStreamEvent A U) :=
  match starts.getLast? with
  | some (profile, attempt) => (env.attempt profile attempt).events
  | none => []

/-- The events are the whole answer of the last attempt, and a usable response is among them. -/
def IsWhole (env : Environment A U) (starts : List (ℕ × ℕ))
    (events : List (ModelStreamEvent A U)) : Prop :=
  events = lastEvents env starts ∧ ∃ r, isUsable r ∧ .completed r ∈ events

/-- **What a part of the stream has done**: it has started at most `limit` attempts and then
yielded first events of the last one; nothing if the loops go on, all if it ended normally. -/
def Streams (env : Environment A U) (limit : ℕ) (t : List (Action A U))
    (outcome : Option (Except StreamError Unit)) : Prop :=
  ∃ starts events, t = starts.map (fun s => .start s.1 s.2) ++ events.map .yield ∧
    starts.length ≤ limit ∧ events <+: lastEvents env starts ∧
    (outcome = none → events = []) ∧ (outcome = some (.ok ()) → IsWhole env starts events)

variable {outcome : Option (Except StreamError Unit)}

theorem streams_nil (h : outcome ≠ some (.ok ())) : Streams env limit [] outcome :=
  ⟨[], [], rfl, Nat.zero_le _, List.nil_prefix, fun _ => rfl, fun ho => absurd ho h⟩

theorem Streams.mono {more : ℕ} (h : Streams env limit t outcome) (hle : limit ≤ more) :
    Streams env more t outcome := by
  obtain ⟨starts, events, hshape, hlength, hrest⟩ := h
  exact ⟨starts, events, hshape, hlength.trans hle, hrest⟩

theorem lastEvents_append_cons (starts later : List (ℕ × ℕ)) (s : ℕ × ℕ) :
    lastEvents env (starts ++ s :: later) = lastEvents env (s :: later) := by
  unfold lastEvents
  rw [List.getLast?_append_cons]

/-- The loops go on after a part that has yielded nothing. -/
theorem Streams.append {more : ℕ} {u : List (Action A U)} (ht : Streams env limit t none)
    (hu : Streams env more u outcome) : Streams env (limit + more) (t ++ u) outcome := by
  obtain ⟨starts, events, rfl, hlength, -, hnone, -⟩ := ht
  obtain rfl := hnone rfl
  obtain ⟨later, events, rfl, hlater, hevents, hempty, hwhole⟩ := hu
  have hcount : (starts ++ later).length ≤ limit + more := by
    rw [List.length_append]
    omega
  refine ⟨starts ++ later, events, by simp, hcount, ?_, hempty, fun ho => ?_⟩
  · cases later with
    | nil =>
      rw [List.prefix_nil.mp hevents]
      exact List.nil_prefix
    | cons s later => rwa [lastEvents_append_cons]
  · obtain ⟨hall, r, hr, hmem⟩ := hwhole ho
    refine ⟨?_, r, hr, hmem⟩
    cases later with
    | nil =>
      rw [hall] at hmem
      cases hmem
    | cons s later => rwa [lastEvents_append_cons]

/-- How the part of the stream on one profile has ended, if it has. -/
def Next.outcome? : Next → Option (Except StreamError Unit)
  | .leave outcome => some outcome
  | .fallback _ => none

/-- An attempt that raises has yielded events only if the stream is left. -/
theorem streams_of_raised {profile attempt : ℕ} {g : Progress A U} {raised : Raised}
    (hrun : runAttempt env.stop (env.attempt profile attempt) = (g, some raised))
    (reserved : Bool) :
    Streams env 1 (.start profile attempt :: g.yielded.map .yield)
      ((settle env profile attempt reserved g raised).elim Next.outcome? fun _ => none) := by
  obtain ⟨hfirst, hhidden⟩ := runAttempt_raised hrun
  refine ⟨[(profile, attempt)], g.yielded, rfl, le_rfl, hfirst, fun hnone => ?_, fun hok => ?_⟩
  · have hsettle : ∀ outcome,
        settle env profile attempt reserved g raised ≠ .inl (.leave outcome) := by
      intro outcome h
      rw [h] at hnone
      cases hnone
    exact hhidden (visible_of_settle hsettle)
  · have hsettle := settle_ne_ok env profile attempt reserved g raised
    generalize settle env profile attempt reserved g raised = next at hok hsettle
    rcases next with (_ | _) | _
    · obtain rfl := Option.some.inj hok
      exact absurd rfl hsettle
    · cases hok
    · cases hok

/-- **The attempts on one profile.** -/
theorem streams_streamAttempts (env : Environment A U) (profile remaining attempt : ℕ)
    (lastError : Option ModelGatewayError) :
    Streams env remaining (streamAttempts env profile remaining attempt lastError).1
      (streamAttempts env profile remaining attempt lastError).2.outcome? := by
  induction remaining generalizing attempt lastError with
  | zero => exact streams_nil nofun
  | succ remaining ih =>
    unfold streamAttempts
    split
    · exact streams_nil (by simp [Next.outcome?])
    · next reserved hreserved =>
      split
      · next g hrun =>
        obtain ⟨hsplit, hresponse⟩ := runAttempt_completed hrun
        obtain ⟨hfirst, hwhole⟩ := finish_spec env g
        rw [hsplit] at hfirst hwhole
        refine ⟨[(profile, attempt)], (finish env g).1, rfl, by simp, hfirst, nofun, fun ho => ?_⟩
        have hall := hwhole (Option.some.inj ho)
        exact ⟨hall, by rw [hall]; exact hresponse⟩
      · next g raised hrun =>
        dsimp only
        have hpart := streams_of_raised hrun reserved
        split
        · next next hsettle =>
          rw [hsettle] at hpart
          exact hpart.mono (Nat.le_add_left 1 remaining)
        · next error hsettle =>
          rw [hsettle] at hpart
          rw [Nat.add_comm]
          exact hpart.append (ih (attempt + 1) (some error))

/-- **The profiles of the chain.** -/
theorem streams_streamChain (remaining profile : ℕ) (lastError : Option ModelGatewayError) :
    Streams env (remaining * env.maxAttempts) (streamChain env remaining profile lastError).1
      (some (streamChain env remaining profile lastError).2) := by
  induction remaining generalizing profile lastError with
  | zero => exact streams_nil nofun
  | succ remaining ih =>
    unfold streamChain
    split
    · exact streams_nil nofun
    · have hprofile := streams_streamAttempts env profile env.maxAttempts 0 lastError
      rw [Nat.succ_mul, Nat.add_comm]
      split
      · next actions outcome hattempts =>
        rw [hattempts] at hprofile
        exact hprofile.mono (Nat.le_add_right _ _)
      · next actions error hattempts =>
        rw [hattempts] at hprofile
        exact hprofile.append (ih (profile + 1) error)

/-- The number of profiles of the chain; none if it cannot be resolved. -/
def Environment.profiles (env : Environment A U) : ℕ :=
  env.chain.toOption.getD 0

theorem streams_stream (env : Environment A U) :
    Streams env (env.profiles * env.maxAttempts) (stream env).1 (some (stream env).2) := by
  unfold stream Environment.profiles
  split
  · exact streams_nil nofun
  · next profiles hchain =>
    rw [hchain]
    exact streams_streamChain profiles 0 none

theorem started_shape (starts : List (ℕ × ℕ)) (events : List (ModelStreamEvent A U)) :
    started (starts.map (fun s => .start s.1 s.2) ++ events.map .yield) = starts := by
  simp [started]

theorem yielded_shape (starts : List (ℕ × ℕ)) (events : List (ModelStreamEvent A U)) :
    yielded (starts.map (fun s => .start s.1 s.2) ++ events.map .yield) = events := by
  simp [yielded]

/-- What follows an event of such a trace are events. -/
theorem started_eq_nil_of_shape {starts : List (ℕ × ℕ)} {events : List (ModelStreamEvent A U)}
    {before after : List (Action A U)} {event : ModelStreamEvent A U}
    (h : starts.map (fun s => .start s.1 s.2) ++ events.map .yield =
      before ++ .yield event :: after) : started after = [] := by
  induction starts generalizing before with
  | nil =>
    have hafter : ∀ action ∈ after, ∃ e ∈ events, .yield e = action := by
      intro action haction
      rw [← List.mem_map, ← List.nil_append (events.map _)]
      exact h ▸ List.mem_append_right _ (List.mem_cons_of_mem _ haction)
    rw [started, List.filterMap_eq_nil_iff]
    intro action haction
    obtain ⟨e, -, rfl⟩ := hafter action haction
    rfl
  | cons s starts ih =>
    cases before with
    | nil => cases h
    | cons action before =>
      rw [List.map_cons, List.cons_append, List.cons_append] at h
      exact ih (List.cons.inj h).2

/-- **A streamed answer comes from one attempt.** The events are first events of the last attempt
started; all of them, with a usable response, if the stream ends normally. Once one is yielded no
attempt is started, and there are at most `max_attempts` attempts for each profile. -/
theorem stream_one_attempt (env : Environment A U) :
    yielded (stream env).1 <+: lastEvents env (started (stream env).1) ∧
      ((stream env).2 = .ok () →
        IsWhole env (started (stream env).1) (yielded (stream env).1)) ∧
      (∀ before event after, (stream env).1 = before ++ .yield event :: after →
        started after = []) ∧
      (started (stream env).1).length ≤ env.profiles * env.maxAttempts := by
  obtain ⟨starts, events, hshape, hlength, hfirst, -, hwhole⟩ := streams_stream env
  rw [hshape, started_shape, yielded_shape]
  exact ⟨hfirst, fun hok => hwhole (congrArg some hok),
    fun before event after h => started_eq_nil_of_shape h, hlength⟩

end Streams

end Stream

end AgentHub.Gateway
