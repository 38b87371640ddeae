import AgentHub.Lib.Checks
import AgentHub.Lib.System
import AgentHub.Lib.Text

/-!
# The summary job

A thread summary is made by a job that may be dispatched to the provider once. Its transitions are
pure functions of the persisted state; each names the lease token it acts under, except the
recovery of an expired lease. An attempt that is refused leaves the job as it was.

## Main definitions

* `SummaryState`, `claim`, `commitDispatchIntent`, …: the job and its transitions
* `Transition`, `apply`: the transitions as one type
* `jobs`: the system of all attempts on one job, with the transitions that have succeeded

## Main results

* `Recorded`: what the state of a job says about the transitions that have succeeded
* `dispatch_at_most_once`: one dispatch, no publication without a valid stored response, final
  statuses, and no authority for the tokens of a recovered lease
-/

namespace AgentHub.Summary

open Lib
open scoped List

inductive SummaryJobStatus
  | queued | claimed | dispatchIntent | responseStored | validated | published | failed | stale
  | unknownOutcome
  deriving DecidableEq, Repr

/-- `SummaryState`, with the defaults of a new job. -/
structure SummaryState where
  status : SummaryJobStatus := .queued
  leaseToken : Option Text := none
  budgetReserved : Bool := false
  responseRef : Option Text := none
  revisionRef : Option Text := none
  deriving DecidableEq

/-! ## Transitions -/

/-- `_valid_token` -/
def validToken (value : Text) : Bool := value ≠ [] && value = strip CodePoint.isSpace value

/-- A reference that is absent or empty is no reference. -/
def isPresent (reference : Option Text) : Bool := reference.any (· ≠ [])

/-- `_require_owner` -/
def requireOwner (state : SummaryState) (leaseToken : Text) (status : SummaryJobStatus) :
    Except String Unit :=
  raiseIf (state.status ≠ status ∨ validToken leaseToken = false ∨
    state.leaseToken ≠ some leaseToken) "The job state or execution lease is invalid."

def claim (state : SummaryState) (leaseToken : Text) : Except String SummaryState := do
  raiseIf (state.status ≠ .queued ∨ validToken leaseToken = false)
    "Only a queued job may be claimed."
  return { state with status := .claimed, leaseToken := some leaseToken }

def commitDispatchIntent (state : SummaryState) (leaseToken : Text) :
    Except String SummaryState := do
  requireOwner state leaseToken .claimed
  return { state with status := .dispatchIntent, budgetReserved := true }

def failBeforeDispatch (state : SummaryState) (leaseToken : Text) :
    Except String SummaryState := do
  requireOwner state leaseToken .claimed
  raiseIf (state.budgetReserved ∨ isPresent state.responseRef)
    "Dispatch evidence forbids a pre-dispatch failure."
  return { state with status := .failed }

def storeResponse (state : SummaryState) (leaseToken responseRef : Text) :
    Except String SummaryState := do
  requireOwner state leaseToken .dispatchIntent
  raiseIf (state.budgetReserved = false ∨ responseRef = [])
    "A response requires a reserved dispatch and reference."
  return { state with status := .responseStored, responseRef := some responseRef }

def validateResponse (state : SummaryState) (leaseToken : Text) (valid : Bool) :
    Except String SummaryState := do
  requireOwner state leaseToken .responseStored
  raiseIf (isPresent state.responseRef = false)
    "The provider response must be stored before validation."
  return { state with status := if valid then .validated else .failed }

def publish (state : SummaryState) (leaseToken revisionRef : Text) (bindingsCurrent : Bool) :
    Except String SummaryState := do
  requireOwner state leaseToken .validated
  if bindingsCurrent then
    raiseIf (revisionRef = []) "Publication requires an immutable revision reference."
    return { state with status := .published, revisionRef := some revisionRef }
  else
    return { state with status := .stale }

/-- `recover_expired_lease`: the caller has established under lock that the lease has expired. -/
def recoverExpiredLease (state : SummaryState) : Except String SummaryState :=
  match state.status with
  | .claimed => do
    raiseIf (state.budgetReserved ∨ isPresent state.responseRef)
      "Claimed state has inconsistent dispatch evidence."
    return { state with status := .queued, leaseToken := none }
  | .dispatchIntent => .ok { state with status := .unknownOutcome, leaseToken := none }
  | .responseStored | .validated => .ok { state with leaseToken := none }
  | _ => .error "The job is not recoverable through lease expiry."

def claimRecovery (state : SummaryState) (leaseToken : Text) : Except String SummaryState := do
  raiseIf ((state.status ≠ .responseStored ∧ state.status ≠ .validated) ∨
    state.leaseToken ≠ none ∨ validToken leaseToken = false)
    "Only saved response or validation can be recovered."
  return { state with leaseToken := some leaseToken }

/-! ## What a transition that succeeds has found -/

section Inversion

variable {state next : SummaryState} {leaseToken : Text} {status : SummaryJobStatus}

/-- The caller of a transition holds the lease of the job. -/
def Owns (state : SummaryState) (leaseToken : Text) (status : SummaryJobStatus) : Prop :=
  state.status = status ∧ validToken leaseToken ∧ state.leaseToken = some leaseToken

theorem requireOwner_eq_ok {u : Unit} :
    requireOwner state leaseToken status = .ok u ↔ Owns state leaseToken status := by
  simp [requireOwner, Owns]

theorem claim_eq_ok : claim state leaseToken = .ok next ↔
    (state.status = .queued ∧ validToken leaseToken) ∧
      { state with status := .claimed, leaseToken := some leaseToken } = next := by
  simp [claim, bind_eq_ok]

theorem commitDispatchIntent_eq_ok : commitDispatchIntent state leaseToken = .ok next ↔
    Owns state leaseToken .claimed ∧
      { state with status := .dispatchIntent, budgetReserved := true } = next := by
  simp [commitDispatchIntent, bind_eq_ok, requireOwner_eq_ok]

theorem failBeforeDispatch_eq_ok : failBeforeDispatch state leaseToken = .ok next ↔
    Owns state leaseToken .claimed ∧
      (state.budgetReserved = false ∧ isPresent state.responseRef = false) ∧
      { state with status := .failed } = next := by
  simp [failBeforeDispatch, bind_eq_ok, requireOwner_eq_ok]

theorem storeResponse_eq_ok {responseRef : Text} :
    storeResponse state leaseToken responseRef = .ok next ↔
      Owns state leaseToken .dispatchIntent ∧ (state.budgetReserved ∧ responseRef ≠ []) ∧
      { state with status := .responseStored, responseRef := some responseRef } = next := by
  simp [storeResponse, bind_eq_ok, requireOwner_eq_ok]

theorem validateResponse_eq_ok {valid : Bool} :
    validateResponse state leaseToken valid = .ok next ↔
      Owns state leaseToken .responseStored ∧ isPresent state.responseRef ∧
      { state with status := if valid then .validated else .failed } = next := by
  simp [validateResponse, bind_eq_ok, requireOwner_eq_ok]

theorem publish_eq_ok {revisionRef : Text} {bindingsCurrent : Bool} :
    publish state leaseToken revisionRef bindingsCurrent = .ok next ↔
      Owns state leaseToken .validated ∧
      (bindingsCurrent = true ∧ revisionRef ≠ [] ∧
          { state with status := .published, revisionRef := some revisionRef } = next ∨
        bindingsCurrent = false ∧ { state with status := .stale } = next) := by
  cases bindingsCurrent <;>
    simp [publish, bind_eq_ok, requireOwner_eq_ok]

theorem claimRecovery_eq_ok : claimRecovery state leaseToken = .ok next ↔
    ((state.status = .responseStored ∨ state.status = .validated) ∧ state.leaseToken = none ∧
      validToken leaseToken) ∧ { state with leaseToken := some leaseToken } = next := by
  simp [claimRecovery, bind_eq_ok]
  tauto

/-- A recovery takes the lease away. Only a claimed job is queued again; a dispatched one has an
unknown outcome. -/
theorem recoverExpiredLease_eq_ok : recoverExpiredLease state = .ok next ↔
    (state.status = .claimed ∧ state.budgetReserved = false ∧
        isPresent state.responseRef = false ∧
        { state with status := .queued, leaseToken := none } = next) ∨
      (state.status = .dispatchIntent ∧
        { state with status := .unknownOutcome, leaseToken := none } = next) ∨
      ((state.status = .responseStored ∨ state.status = .validated) ∧
        { state with leaseToken := none } = next) := by
  rcases hstatus : state.status <;>
    simp [recoverExpiredLease, hstatus, bind_eq_ok, and_assoc]

end Inversion

/-! ## The attempts on one job -/

inductive Transition
  | claim (leaseToken : Text)
  | commitDispatchIntent (leaseToken : Text)
  | failBeforeDispatch (leaseToken : Text)
  | storeResponse (leaseToken responseRef : Text)
  | validateResponse (leaseToken : Text) (valid : Bool)
  | publish (leaseToken revisionRef : Text) (bindingsCurrent : Bool)
  | recoverExpiredLease
  | claimRecovery (leaseToken : Text)
  deriving DecidableEq

namespace Transition

/-- The token a transition is presented with. -/
def token? : Transition → Option Text
  | claim t | commitDispatchIntent t | failBeforeDispatch t | storeResponse t _
  | validateResponse t _ | publish t _ _ | claimRecovery t => some t
  | recoverExpiredLease => none

/-- The token a claim asks the lease for. -/
def claimed? : Transition → Option Text
  | claim t | claimRecovery t => some t
  | _ => none

def isDispatch : Transition → Bool
  | commitDispatchIntent _ => true
  | _ => false

end Transition

def apply (state : SummaryState) : Transition → Except String SummaryState
  | .claim t => claim state t
  | .commitDispatchIntent t => commitDispatchIntent state t
  | .failBeforeDispatch t => failBeforeDispatch state t
  | .storeResponse t r => storeResponse state t r
  | .validateResponse t valid => validateResponse state t valid
  | .publish t r bindingsCurrent => publish state t r bindingsCurrent
  | .recoverExpiredLease => recoverExpiredLease state
  | .claimRecovery t => claimRecovery state t

/-- A job and the transitions that have succeeded on it, in order. -/
structure Job where
  state : SummaryState
  done : List Transition

/-- The attempts of all callers on one job; an attempt that is refused changes nothing. -/
def jobs : System Job Transition where
  init j := j = ⟨{}, []⟩
  step j e :=
    some (match apply j.state e with
      | .ok next => ⟨next, j.done ++ [e]⟩
      | .error _ => j)

variable {j k : Job} {e : Transition} {next state : SummaryState} {es : List Transition}

/-- **One attempt** is refused, or recorded. -/
theorem jobs_step (h : jobs.step j e = some k) :
    k = j ∨ ∃ next, apply j.state e = .ok next ∧ k = ⟨next, j.done ++ [e]⟩ := by
  simp only [jobs, Option.some.injEq] at h
  cases happly : apply j.state e with
  | error message => exact .inl (by rw [happly] at h; exact h.symm)
  | ok next => exact .inr ⟨next, rfl, by rw [happly] at h; exact h.symm⟩

/-- What the state of a job says about the transitions that have succeeded on it. -/
structure Recorded (j : Job) : Prop where
  dispatches : j.done.countP Transition.isDispatch = if j.state.budgetReserved then 1 else 0
  undispatched : j.state.status = .queued ∨ j.state.status = .claimed →
    j.state.budgetReserved = false
  stored : j.state.status = .responseStored → ∃ t r, [.storeResponse t r] <+ j.done
  validated : j.state.status = .validated →
    ∃ t r u, [.storeResponse t r, .validateResponse u true] <+ j.done
  published : j.state.status = .published →
    ∃ t r u v w, [.storeResponse t r, .validateResponse u true, .publish v w true] <+ j.done

theorem recorded_init : Recorded ⟨{}, []⟩ where
  dispatches := rfl
  undispatched _ := rfl
  stored h := nomatch h
  validated h := nomatch h
  published h := nomatch h

/-- A transition other than the dispatch keeps the reservation, and so the count. -/
theorem Recorded.dispatches_append (h : Recorded j) (he : e.isDispatch = false)
    (hnext : next.budgetReserved = j.state.budgetReserved) :
    (j.done ++ [e]).countP Transition.isDispatch = if next.budgetReserved then 1 else 0 := by
  rw [List.countP_append, h.dispatches, hnext, List.countP_singleton, he]
  rfl

/-- A transition that only moves the lease keeps the record. -/
theorem Recorded.lease (h : Recorded j) (he : e.isDispatch = false) (lease : Option Text) :
    Recorded ⟨{ j.state with leaseToken := lease }, j.done ++ [e]⟩ where
  dispatches := h.dispatches_append he rfl
  undispatched := h.undispatched
  stored hs := by
    obtain ⟨t, r, hdone⟩ := h.stored hs
    exact ⟨t, r, hdone.trans (List.sublist_append_left _ _)⟩
  validated hs := by
    obtain ⟨t, r, u, hdone⟩ := h.validated hs
    exact ⟨t, r, u, hdone.trans (List.sublist_append_left _ _)⟩
  published hs := by
    obtain ⟨t, r, u, v, w, hdone⟩ := h.published hs
    exact ⟨t, r, u, v, w, hdone.trans (List.sublist_append_left _ _)⟩

/-- **A transition that succeeds** is recorded by the state it leads to. -/
theorem Recorded.step (h : Recorded j) (happly : apply j.state e = .ok next) :
    Recorded ⟨next, j.done ++ [e]⟩ := by
  cases e with
  | claim t =>
    obtain ⟨⟨hstatus, -⟩, rfl⟩ := claim_eq_ok.mp happly
    exact ⟨h.dispatches_append rfl rfl, fun _ => h.undispatched (.inl hstatus), nofun, nofun,
      nofun⟩
  | commitDispatchIntent t =>
    obtain ⟨⟨hstatus, -⟩, rfl⟩ := commitDispatchIntent_eq_ok.mp happly
    refine ⟨?_, nofun, nofun, nofun, nofun⟩
    rw [List.countP_append, h.dispatches, h.undispatched (.inr hstatus)]
    rfl
  | failBeforeDispatch t =>
    obtain ⟨-, -, rfl⟩ := failBeforeDispatch_eq_ok.mp happly
    exact ⟨h.dispatches_append rfl rfl, nofun, nofun, nofun, nofun⟩
  | storeResponse t r =>
    obtain ⟨-, -, rfl⟩ := storeResponse_eq_ok.mp happly
    exact ⟨h.dispatches_append rfl rfl, nofun, fun _ => ⟨t, r, List.sublist_append_right _ _⟩,
      nofun, nofun⟩
  | validateResponse t valid =>
    obtain ⟨⟨hstatus, -⟩, -, rfl⟩ := validateResponse_eq_ok.mp happly
    obtain ⟨u, r, hstored⟩ := h.stored hstatus
    cases valid with
    | false => exact ⟨h.dispatches_append rfl rfl, nofun, nofun, nofun, nofun⟩
    | true =>
      exact ⟨h.dispatches_append rfl rfl, nofun, nofun,
        fun _ => ⟨u, r, t, hstored.append (.refl _)⟩, nofun⟩
  | publish t w bindingsCurrent =>
    obtain ⟨⟨hstatus, -⟩, ⟨rfl, -, rfl⟩ | ⟨rfl, rfl⟩⟩ := publish_eq_ok.mp happly
    · obtain ⟨u, r, v, hvalidated⟩ := h.validated hstatus
      exact ⟨h.dispatches_append rfl rfl, nofun, nofun, nofun,
        fun _ => ⟨u, r, v, t, w, hvalidated.append (.refl _)⟩⟩
    · exact ⟨h.dispatches_append rfl rfl, nofun, nofun, nofun, nofun⟩
  | recoverExpiredLease =>
    obtain ⟨-, hbudget, -, rfl⟩ | ⟨-, rfl⟩ | ⟨-, rfl⟩ :=
      recoverExpiredLease_eq_ok.mp happly
    · exact ⟨h.dispatches_append rfl rfl, fun _ => hbudget, nofun, nofun, nofun⟩
    · exact ⟨h.dispatches_append rfl rfl, nofun, nofun, nofun, nofun⟩
    · exact h.lease rfl none
  | claimRecovery t =>
    obtain ⟨-, rfl⟩ := claimRecovery_eq_ok.mp happly
    exact h.lease rfl (some t)

/-- The record is kept by every run of attempts. -/
theorem Recorded.run (h : Recorded j) (hrun : jobs.run j es = some k) : Recorded k := by
  refine System.run_invariant (fun j e k h hk => ?_) h hrun
  obtain rfl | ⟨next, happly, rfl⟩ := jobs_step hk
  · exact h
  · exact h.step happly

/-! ## Final statuses -/

/-- `PUBLISHED`, `FAILED`, `STALE` and `UNKNOWN_OUTCOME`. -/
def SummaryJobStatus.isFinal : SummaryJobStatus → Bool
  | .published | .failed | .stale | .unknownOutcome => true
  | _ => false

/-- Nothing succeeds on a job with a final status. -/
theorem not_isFinal_of_apply (happly : apply state e = .ok next) :
    state.status.isFinal = false := by
  cases e with
  | claim t => rw [(claim_eq_ok.mp happly).1.1]; rfl
  | commitDispatchIntent t => rw [(commitDispatchIntent_eq_ok.mp happly).1.1]; rfl
  | failBeforeDispatch t => rw [(failBeforeDispatch_eq_ok.mp happly).1.1]; rfl
  | storeResponse t r => rw [(storeResponse_eq_ok.mp happly).1.1]; rfl
  | validateResponse t valid => rw [(validateResponse_eq_ok.mp happly).1.1]; rfl
  | publish t r bindingsCurrent => rw [(publish_eq_ok.mp happly).1.1]; rfl
  | recoverExpiredLease =>
    obtain ⟨hs, -⟩ | ⟨hs, -⟩ | ⟨hs | hs, -⟩ := recoverExpiredLease_eq_ok.mp happly <;>
      rw [hs] <;> rfl
  | claimRecovery t =>
    obtain ⟨⟨hs | hs, -⟩, -⟩ := claimRecovery_eq_ok.mp happly <;> rw [hs] <;> rfl

/-- A job with a final status stays as it is. -/
theorem run_of_isFinal (h : j.state.status.isFinal) (hrun : jobs.run j es = some k) : k = j := by
  refine System.run_invariant (I := fun k => k = j) (fun k e l hk hl => ?_) rfl hrun
  obtain rfl | ⟨next, happly, -⟩ := jobs_step hl
  · exact hk
  · rw [hk] at happly
    exact absurd h (by simp [not_isFinal_of_apply happly])

/-! ## Leases -/

/-- None of the tokens `ts` holds the lease. -/
def Expired (ts : List Text) (state : SummaryState) : Prop :=
  ∀ t ∈ ts, state.leaseToken ≠ some t

/-- After a transition the lease is free, or as it was, or with the token just claimed. -/
theorem leaseToken_of_apply (happly : apply state e = .ok next) : next.leaseToken = none ∨
      next.leaseToken = state.leaseToken ∨ ∃ t, e.claimed? = some t ∧ next.leaseToken = some t := by
  cases e with
  | claim t =>
    obtain ⟨-, rfl⟩ := claim_eq_ok.mp happly
    exact .inr (.inr ⟨t, rfl, rfl⟩)
  | commitDispatchIntent t =>
    obtain ⟨-, rfl⟩ := commitDispatchIntent_eq_ok.mp happly
    exact .inr (.inl rfl)
  | failBeforeDispatch t =>
    obtain ⟨-, -, rfl⟩ := failBeforeDispatch_eq_ok.mp happly
    exact .inr (.inl rfl)
  | storeResponse t r =>
    obtain ⟨-, -, rfl⟩ := storeResponse_eq_ok.mp happly
    exact .inr (.inl rfl)
  | validateResponse t valid =>
    obtain ⟨-, -, rfl⟩ := validateResponse_eq_ok.mp happly
    exact .inr (.inl rfl)
  | publish t r bindingsCurrent =>
    obtain ⟨-, ⟨-, -, rfl⟩ | ⟨-, rfl⟩⟩ := publish_eq_ok.mp happly <;> exact .inr (.inl rfl)
  | recoverExpiredLease =>
    obtain ⟨-, -, -, rfl⟩ | ⟨-, rfl⟩ | ⟨-, rfl⟩ := recoverExpiredLease_eq_ok.mp happly <;>
      exact .inl rfl
  | claimRecovery t =>
    obtain ⟨-, rfl⟩ := claimRecovery_eq_ok.mp happly
    exact .inr (.inr ⟨t, rfl, rfl⟩)

/-- A transition other than a claim succeeds only under the token that holds the lease. -/
theorem leaseToken_of_token {t : Text} (happly : apply state e = .ok next)
    (htoken : e.token? = some t) (hclaimed : e.claimed? = none) : state.leaseToken = some t := by
  cases e with
  | claim u => cases hclaimed
  | claimRecovery u => cases hclaimed
  | recoverExpiredLease => cases htoken
  | commitDispatchIntent u => cases htoken; exact (commitDispatchIntent_eq_ok.mp happly).1.2.2
  | failBeforeDispatch u => cases htoken; exact (failBeforeDispatch_eq_ok.mp happly).1.2.2
  | storeResponse u r => cases htoken; exact (storeResponse_eq_ok.mp happly).1.2.2
  | validateResponse u valid => cases htoken; exact (validateResponse_eq_ok.mp happly).1.2.2
  | publish u r bindingsCurrent => cases htoken; exact (publish_eq_ok.mp happly).1.2.2

/-- Tokens without the lease do not get it while none of them is claimed. -/
theorem Expired.run {ts : List Text} (h : Expired ts j.state)
    (hclaims : ∀ t ∈ es.filterMap Transition.claimed?, t ∉ ts) (hrun : jobs.run j es = some k) :
    Expired ts k.state := by
  induction es generalizing j with
  | nil =>
    obtain rfl : j = k := by simpa using hrun
    exact h
  | cons e es ih =>
    obtain ⟨l, hl, hrun⟩ := Option.bind_eq_some_iff.mp hrun
    refine ih ?_ (fun t ht => hclaims t ?_) hrun
    · obtain rfl | ⟨next, happly, rfl⟩ := jobs_step hl
      · exact h
      · intro t ht
        obtain hnone | hsame | ⟨u, hu, hlease⟩ := leaseToken_of_apply happly
        · simp [hnone]
        · exact hsame ▸ h t ht
        · rintro hlt
          obtain rfl : u = t := Option.some.inj (hlease.symm.trans hlt)
          exact hclaims u (List.mem_filterMap.mpr ⟨e, List.mem_cons_self, hu⟩) ht
    · obtain ⟨f, hf, hft⟩ := List.mem_filterMap.mp ht
      exact List.mem_filterMap.mpr ⟨f, List.mem_cons_of_mem _ hf, hft⟩

/-- **The single dispatch of a job.** However the callers interleave their attempts, if every
claim asks with a token of its own: the dispatch is committed at most once, and the budget is
reserved just when it was; a published job has had a response stored, then found valid, then
published; a final status stays; and once a lease was recovered, nothing presented with a token
claimed before succeeds any more. -/
theorem dispatch_at_most_once {es : List Transition}
    (hfresh : (es.filterMap Transition.claimed?).Nodup) {j : Job}
    (hrun : jobs.run ⟨{}, []⟩ es = some j) :
    j.done.countP Transition.isDispatch ≤ 1 ∧
      (j.state.budgetReserved ↔ ∃ t, .commitDispatchIntent t ∈ j.done) ∧
      (j.state.status = .published → ∃ t r u v w,
        [.storeResponse t r, .validateResponse u true, .publish v w true] <+ j.done) ∧
      (j.state.status.isFinal → ∀ fs k, jobs.run j fs = some k → k = j) ∧
      ∀ pre mid e post u v next, es = pre ++ .recoverExpiredLease :: (mid ++ e :: post) →
        jobs.run ⟨{}, []⟩ pre = some u → recoverExpiredLease u.state = .ok next →
        jobs.run ⟨{}, []⟩ (pre ++ .recoverExpiredLease :: mid) = some v →
        ∀ t ∈ pre.filterMap Transition.claimed?, e.token? = some t →
          ∃ message, apply v.state e = .error message := by
  have hrecorded : Recorded j := recorded_init.run hrun
  refine ⟨?_, ?_, hrecorded.published, fun hfinal fs k hk => run_of_isFinal hfinal hk, ?_⟩
  · rw [hrecorded.dispatches]
    split <;> simp
  · have hcount := hrecorded.dispatches
    have hpos : 0 < j.done.countP Transition.isDispatch ↔
        ∃ t, .commitDispatchIntent t ∈ j.done := by
      rw [List.countP_pos_iff]
      refine ⟨fun ⟨e, he, hdispatch⟩ => ?_, fun ⟨t, ht⟩ => ⟨_, ht, rfl⟩⟩
      cases e <;> first | exact ⟨_, he⟩ | cases hdispatch
    rw [← hpos, hcount]
    cases j.state.budgetReserved <;> simp
  · rintro pre mid e post u v next rfl hu hrecover hv t ht htoken
    rw [List.filterMap_append, List.filterMap_cons_none rfl, List.nodup_append] at hfresh
    have hlate : ∀ f ∈ mid ++ e :: post, ∀ s, f.claimed? = some s →
        s ∉ pre.filterMap Transition.claimed? := fun f hf s hs hpre =>
      hfresh.2.2 s hpre s (List.mem_filterMap.mpr ⟨f, hf, hs⟩) rfl
    -- the recovery frees the lease, and the later claims ask with other tokens
    rw [System.run_append, hu, Option.bind_some, System.run_cons] at hv
    obtain ⟨w, hw, hv⟩ := Option.bind_eq_some_iff.mp hv
    have hfreed : Expired (pre.filterMap Transition.claimed?) w.state := by
      obtain rfl : ⟨next, u.done ++ [.recoverExpiredLease]⟩ = w := by
        simpa [jobs, apply, hrecover] using hw
      intro s _
      obtain ⟨-, -, -, rfl⟩ | ⟨-, rfl⟩ | ⟨-, rfl⟩ := recoverExpiredLease_eq_ok.mp hrecover <;>
        exact nofun
    have hexpired := hfreed.run (fun s hs => by
      obtain ⟨f, hf, hfs⟩ := List.mem_filterMap.mp hs
      exact hlate f (List.mem_append_left _ hf) s hfs) hv
    cases happly : apply v.state e with
    | error message => exact ⟨message, rfl⟩
    | ok after =>
      refine absurd (leaseToken_of_token happly htoken ?_) (hexpired t ht)
      cases hclaimed : e.claimed? with
      | none => rfl
      | some s =>
        have hs : s = t := by
          cases e <;> simp_all [Transition.token?, Transition.claimed?]
        exact absurd (hs ▸ ht) (hlate e (by simp) s hclaimed)

/-- A job whose first worker disappears after the response was stored; another one publishes. -/
def sampleAttempts : List Transition :=
  let first : Text := [.scalar 'a']
  let second : Text := [.scalar 'b']
  [.claim first, .commitDispatchIntent first, .storeResponse first [.scalar 'r'],
    .recoverExpiredLease, .claimRecovery second, .validateResponse first true,
    .validateResponse second true, .publish second [.scalar 's'] true]

theorem dispatch_at_most_once_sample :
    ∃ j, jobs.run ⟨{}, []⟩ sampleAttempts = some j ∧ j.state.status = .published ∧
      j.done.countP Transition.isDispatch ≤ 1 := by
  have hfresh : (sampleAttempts.filterMap Transition.claimed?).Nodup := by decide
  exact ⟨_, rfl, by decide, (dispatch_at_most_once hfresh rfl).1⟩

end AgentHub.Summary
