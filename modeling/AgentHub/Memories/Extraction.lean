import AgentHub.Lib.System
import Mathlib.Logic.Function.Basic

/-!
# Extraction of memories

One run's extraction job and any number of deliveries of its task. A delivery takes the advisory
lock of the run, claims the job, may send one request to the model, stores the parsed candidates
and records them. The lock belongs to a database session: when the session is lost the delivery
goes on without it. The reconciler settles jobs that nobody owns.

Each database transaction is one step. What is read from other tables, the model's answer and the
points where an exception is raised are chosen by the environment, that is, by the event.

## Main definitions

* `claimExtraction`, `persistCandidates`, `finishExtraction`, `failureBookkeeping`,
  `reconcileJob`: the transactions on the row of the job
* `Delivery`, `State`: where each delivery is, the row, the lock, and what has been sent and
  recorded so far
* `extraction`: the system of all interleavings

## Main results

* `kept_step`: no step writes a settled row, or a payload that is stored
-/

namespace AgentHub.Memories

open Lib

variable {C : Type}

/-! ## The row of the job -/

/-- `_ExtractionPhase`. -/
inductive ExtractionPhase
  | preparing
  | modelCallPossible
  | responseReceived
  | candidatesReady
  deriving DecidableEq, Repr

inductive JobStatus
  | pending
  | running
  | completed
  | skipped
  | failed
  deriving DecidableEq, Repr

inductive FailureCode
  | agentRunForbidden
  | extractionFailed
  | extractionOutcomeUnknown
  | extractionResponseProcessingFailed
  | extractionResponsePersistenceFailed
  | extractionRecordingPending
  | extractionDispatchPending
  deriving DecidableEq, Repr

/-- The row of the job, with candidates of type `C`. -/
structure MemoryExtractionJob (C : Type) where
  status : JobStatus
  candidatePayload : Option (List C)
  failureCode : Option FailureCode
  deriving DecidableEq, Repr

namespace MemoryExtractionJob

/-- The row the completion of a run inserts. -/
def dispatched : MemoryExtractionJob C := ⟨.pending, none, none⟩

/-- The row is declared unknown. -/
def unknown (job : MemoryExtractionJob C) : MemoryExtractionJob C :=
  { job with status := .failed, failureCode := some .extractionOutcomeUnknown }

/-- The status is one of those no later step may leave. -/
def Settled (job : MemoryExtractionJob C) : Prop :=
  job.status = .completed ∨ job.status = .skipped ∨ job.status = .failed

/-- The job has been declared unknown. -/
def Unknown (job : MemoryExtractionJob C) : Prop :=
  job.status = .failed ∧ job.failureCode = some .extractionOutcomeUnknown

end MemoryExtractionJob

/-- `_claim_extraction`: the job it returns, and the row it leaves. -/
def claimExtraction :
    Option (MemoryExtractionJob C) → Option (MemoryExtractionJob C) × Option (MemoryExtractionJob C)
  | none =>
    let job := ⟨.running, none, none⟩
    (some job, some job)
  | some job =>
    match job.status with
    | .completed | .skipped => (none, some job)
    | .running =>
      match job.candidatePayload with
      | none => (none, some job.unknown)
      | some _ => (some job, some job)
    | .failed => (none, some job)
    | .pending =>
      let job := { job with status := .running, failureCode := none }
      (some job, some job)

/-- `_finish_extraction`: only a row that is still running is updated. -/
def finishExtraction (status : JobStatus) (failureCode : Option FailureCode)
    (row : Option (MemoryExtractionJob C)) : Option (MemoryExtractionJob C) :=
  row.map fun job =>
    if job.status = .running then { job with status := status, failureCode := failureCode } else job

/-- The update that stores the candidates, with whether it found its row. -/
def persistCandidates (candidates : List C) :
    Option (MemoryExtractionJob C) → Bool × Option (MemoryExtractionJob C)
  | none => (false, none)
  | some job =>
    if job.status = .running ∧ job.candidatePayload.isNone then
      (true, some { job with candidatePayload := some candidates })
    else (false, some job)

/-- What the handler of exceptions makes of the row it reads and the phase it was raised in. -/
def failureBookkeeping (phase : ExtractionPhase) (row : Option (MemoryExtractionJob C)) :
    JobStatus × FailureCode :=
  if (row.bind (·.candidatePayload)).isSome then (.running, .extractionRecordingPending)
  else
    (.failed,
      match phase with
      | .preparing => .extractionFailed
      | .modelCallPossible => .extractionOutcomeUnknown
      | .responseReceived => .extractionResponseProcessingFailed
      | .candidatesReady => .extractionResponsePersistenceFailed)

/-- What `_reconcile_memory_jobs` does to a row whose lock it has taken. -/
def reconcileJob (row : Option (MemoryExtractionJob C)) : Option (MemoryExtractionJob C) :=
  row.map fun job =>
    match job.status with
    | .pending => { job with failureCode := some .extractionDispatchPending }
    | .running =>
      if job.candidatePayload.isNone then job.unknown
      else { job with failureCode := some .extractionRecordingPending }
    | _ => job

/-! ## Deliveries -/

/-- The next thing a delivery of the task does. -/
inductive Point (C : Type)
  | absent
  | acquiring
  | claiming
  /-- Reads the run, its version and the rights of its user. -/
  | preparing
  /-- Reads the row again. -/
  | reading
  /-- Admits the request, authorises its user once more and enters the gateway. -/
  | authorizing
  /-- The request may have been sent. -/
  | waiting
  | received (candidates : List C)
  | persisting (candidates : List C)
  /-- Authorises and records the candidates. -/
  | recording (candidates : List C)
  | finishing (status : JobStatus) (failureCode : Option FailureCode)
  /-- Returns from the body, which the handler of exceptions still covers. -/
  | returning
  /-- In the handler of exceptions. -/
  | failing
  | settling (status : JobStatus) (failureCode : FailureCode)
  /-- Past the handler. -/
  | leaving
  | done
  deriving DecidableEq, Repr

/-- A delivery: its next step and its variable `phase`. -/
structure Delivery (C : Type) where
  point : Point C
  phase : ExtractionPhase
  deriving DecidableEq, Repr

/-- The database, the deliveries and what they have done so far. -/
structure State (C : Type) where
  job : Option (MemoryExtractionJob C)
  /-- The delivery whose session holds the advisory lock. -/
  owner : Option ℕ
  deliveries : ℕ → Delivery C
  /-- The calls of the model gateway, each with the delivery that made it. -/
  calls : List ℕ
  /-- The candidates handed to the memory store, call by call. -/
  recorded : List (List C)

inductive Event (C : Type)
  /-- The completion of the run inserts the job, unless it is there. -/
  | dispatch
  /-- A pass of the reconciler that finds the row stale. -/
  | reconcile
  | deliver (i : ℕ)
  /-- The next transaction or call of a delivery. -/
  | proceed (i : ℕ)
  /-- The row appears between the look-up of a claim and its insertion. -/
  | conflict (i : ℕ)
  /-- What was read says that nothing is to be extracted, or that the user may not. -/
  | skip (i : ℕ) (forbidden : Bool)
  /-- The model's answer arrives; these are the candidates it parses to. -/
  | respond (i : ℕ) (candidates : List C)
  | raise (i : ℕ)
  /-- The owning session is lost; the delivery does not notice. -/
  | loseOwnership (i : ℕ)
  | crash (i : ℕ)

namespace State

/-- Nothing has happened. -/
def initial : State C := ⟨none, none, fun _ => ⟨.absent, .preparing⟩, [], []⟩

/-- The payload that is stored. -/
def payload (s : State C) : Option (List C) := s.job.bind (·.candidatePayload)

/-- Delivery `i` goes on at `point`, in the same phase. -/
def goOn (s : State C) (i : ℕ) (point : Point C) : State C :=
  { s with deliveries := Function.update s.deliveries i ⟨point, (s.deliveries i).phase⟩ }

/-- Delivery `i` goes on at `point`, in the phase `phase`. -/
def enter (s : State C) (i : ℕ) (phase : ExtractionPhase) (point : Point C) : State C :=
  { s with deliveries := Function.update s.deliveries i ⟨point, phase⟩ }

/-- The session of delivery `i` is over, and with it the lock. -/
def release (s : State C) (i : ℕ) : State C :=
  { s with owner := if s.owner = some i then none else s.owner }

/-- Delivery `i` is over. -/
def stop (s : State C) (i : ℕ) : State C := (s.goOn i .done).release i

/-- The claim of delivery `i`. -/
def claim (s : State C) (i : ℕ) : State C :=
  match claimExtraction s.job with
  | (none, row) => { s with job := row }.goOn i .returning
  | (some _, row) => { s with job := row }.goOn i .preparing

/-- `_extract_owned_memories` reads the row again before it sends anything. -/
def read (s : State C) (i : ℕ) : State C :=
  match s.job with
  | none => s.goOn i .returning
  | some job =>
    if job.status = .running then
      match job.candidatePayload with
      | none => s.goOn i .authorizing
      | some candidates => s.goOn i (.recording candidates)
    else s.goOn i .returning

/-- The candidates of delivery `i` are stored, if the row still waits for them. -/
def persist (s : State C) (i : ℕ) (candidates : List C) : State C :=
  match persistCandidates candidates s.job with
  | (true, row) => { s with job := row }.goOn i (.recording candidates)
  | (false, row) => { s with job := row }.goOn i .returning

/-- The candidates are recorded; without candidates the store is not called. -/
def record (s : State C) (i : ℕ) (candidates : List C) : State C :=
  if candidates.isEmpty then s.goOn i (.finishing .completed none)
  else { s with recorded := s.recorded ++ [candidates] }.goOn i (.finishing .completed none)

/-- The next transaction or call of delivery `i`. -/
def proceed (s : State C) (i : ℕ) : Option (State C) :=
  match (s.deliveries i).point with
  | .acquiring =>
    if s.owner.isNone then some ({ s with owner := some i }.goOn i .claiming) else some (s.stop i)
  | .claiming => some (s.claim i)
  | .preparing => some (s.goOn i .reading)
  | .reading => some (s.read i)
  | .authorizing => some ({ s with calls := s.calls ++ [i] }.enter i .modelCallPossible .waiting)
  | .received candidates => some (s.enter i .candidatesReady (.persisting candidates))
  | .persisting candidates => some (s.persist i candidates)
  | .recording candidates => some (s.record i candidates)
  | .finishing status code =>
    some ({ s with job := finishExtraction status code s.job }.goOn i .returning)
  | .failing =>
    let outcome := failureBookkeeping (s.deliveries i).phase s.job
    some (s.goOn i (.settling outcome.1 outcome.2))
  | .settling status code =>
    some ({ s with job := finishExtraction status (some code) s.job }.goOn i .leaving)
  | .returning | .leaving => some (s.stop i)
  | .absent | .waiting | .done => none

/-- A check of delivery `i` ends the extraction. -/
def skip (s : State C) (i : ℕ) (forbidden : Bool) : Option (State C) :=
  let code := if forbidden then some FailureCode.agentRunForbidden else none
  match (s.deliveries i).point with
  | .preparing => some (s.goOn i (.finishing .skipped code))
  | .authorizing => if forbidden then some (s.goOn i (.finishing .skipped code)) else none
  | .recording candidates =>
    if forbidden ∧ ¬ candidates.isEmpty then some (s.goOn i (.finishing .skipped code)) else none
  | _ => none

/-- An exception in delivery `i`. The handler catches what the body raises; what the handler
itself raises is dropped. -/
def raise (s : State C) (i : ℕ) : Option (State C) :=
  match (s.deliveries i).point with
  | .claiming | .preparing | .reading | .authorizing | .waiting | .received _ | .persisting _
  | .recording _ | .finishing _ _ | .returning => some (s.goOn i .failing)
  | .failing | .settling _ _ => some (s.goOn i .leaving)
  | .acquiring | .leaving => some (s.stop i)
  | .absent | .done => none

def step (s : State C) : Event C → Option (State C)
  | .dispatch => some { s with job := s.job.or (some .dispatched) }
  | .reconcile => some { s with job := if s.owner.isNone then reconcileJob s.job else s.job }
  | .deliver i =>
    match (s.deliveries i).point with
    | .absent => some (s.goOn i .acquiring)
    | _ => none
  | .proceed i => s.proceed i
  | .conflict i =>
    match (s.deliveries i).point, s.job with
    | .claiming, some _ => some (s.goOn i .returning)
    | _, _ => none
  | .skip i forbidden => s.skip i forbidden
  | .respond i candidates =>
    match (s.deliveries i).point with
    | .waiting => some (s.enter i .responseReceived (.received candidates))
    | _ => none
  | .raise i => s.raise i
  | .loseOwnership i => some (s.release i)
  | .crash i => some (s.stop i)

end State

/-- All interleavings of deliveries, reconciler passes and crashes. -/
def extraction : System (State C) (Event C) where
  init s := s = .initial
  step := State.step

/-! ## Transactions on the row -/

/-- A transaction keeps a settled row as it is, and a stored payload. -/
structure Kept (row row' : Option (MemoryExtractionJob C)) : Prop where
  settled : ∀ job, row = some job → job.Settled → row' = some job
  payload : ∀ cs, row.bind (·.candidatePayload) = some cs → row'.bind (·.candidatePayload) = some cs

namespace Kept

variable {row row' row'' : Option (MemoryExtractionJob C)}

theorem refl (row : Option (MemoryExtractionJob C)) : Kept row row :=
  ⟨fun _ h _ => h, fun _ h => h⟩

theorem trans (h : Kept row row') (h' : Kept row' row'') : Kept row row'' :=
  ⟨fun job hr hs => h'.settled job (h.settled job hr hs) hs,
    fun cs hr => h'.payload cs (h.payload cs hr)⟩

/-- A transaction that only works on rows that are not settled. -/
theorem of_some {job job' : MemoryExtractionJob C} (hs : ¬ job.Settled)
    (hp : ∀ cs, job.candidatePayload = some cs → job'.candidatePayload = some cs) :
    Kept (some job) (some job') :=
  ⟨fun _ h h' => absurd (Option.some.inj h ▸ h') hs, hp⟩

theorem of_none : Kept none row := ⟨nofun, nofun⟩

end Kept

theorem kept_dispatch (row : Option (MemoryExtractionJob C)) :
    Kept row (row.or (some .dispatched)) := by
  cases row with
  | none => exact .of_none
  | some job => exact .refl _

theorem kept_claimExtraction (row : Option (MemoryExtractionJob C)) :
    Kept row (claimExtraction row).2 := by
  cases row with
  | none => exact .of_none
  | some job =>
    obtain ⟨status, payload, code⟩ := job
    cases status with
    | running =>
      cases payload with
      | none => exact .of_some (by simp [MemoryExtractionJob.Settled]) nofun
      | some candidates => exact .refl _
    | pending => exact .of_some (by simp [MemoryExtractionJob.Settled]) fun _ h => h
    | completed => exact .refl _
    | skipped => exact .refl _
    | failed => exact .refl _

theorem kept_finishExtraction (status : JobStatus) (code : Option FailureCode)
    (row : Option (MemoryExtractionJob C)) : Kept row (finishExtraction status code row) := by
  cases row with
  | none => exact .of_none
  | some job =>
    simp only [finishExtraction, Option.map_some]
    split
    next h => exact .of_some (by simp [MemoryExtractionJob.Settled, h]) fun _ h => h
    next => exact .refl _

theorem kept_persistCandidates (candidates : List C) (row : Option (MemoryExtractionJob C)) :
    Kept row (persistCandidates candidates row).2 := by
  cases row with
  | none => exact .of_none
  | some job =>
    simp only [persistCandidates]
    split
    next h =>
      refine .of_some (by simp [MemoryExtractionJob.Settled, h.1]) fun cs hcs => ?_
      simp [hcs] at h
    next => exact .refl _

theorem kept_reconcileJob (row : Option (MemoryExtractionJob C)) : Kept row (reconcileJob row) := by
  cases row with
  | none => exact .of_none
  | some job =>
    obtain ⟨status, payload, code⟩ := job
    cases status with
    | running =>
      cases payload with
      | none => exact .of_some (by simp [MemoryExtractionJob.Settled]) nofun
      | some candidates =>
        exact .of_some (by simp [MemoryExtractionJob.Settled]) fun _ h => h
    | pending => exact .of_some (by simp [MemoryExtractionJob.Settled]) fun _ h => h
    | completed => exact .refl _
    | skipped => exact .refl _
    | failed => exact .refl _

theorem finishExtraction_payload (status : JobStatus) (code : Option FailureCode)
    (row : Option (MemoryExtractionJob C)) :
    (finishExtraction status code row).bind (·.candidatePayload) =
      row.bind (·.candidatePayload) := by
  cases row with
  | none => rfl
  | some job =>
    simp only [finishExtraction, Option.map_some, Option.bind_some]
    split <;> rfl

theorem reconcileJob_payload (row : Option (MemoryExtractionJob C)) :
    (reconcileJob row).bind (·.candidatePayload) = row.bind (·.candidatePayload) := by
  cases row with
  | none => rfl
  | some job =>
    simp only [reconcileJob, Option.map_some, Option.bind_some]
    split
    · rfl
    · split <;> rfl
    · rfl

theorem kept_claim (s : State C) (i : ℕ) : Kept s.job (s.claim i).job := by
  have h := kept_claimExtraction s.job
  unfold State.claim
  cases hc : claimExtraction s.job with
  | mk claimed row =>
    rw [hc] at h
    cases claimed <;> exact h

theorem kept_persist (s : State C) (i : ℕ) (candidates : List C) :
    Kept s.job (s.persist i candidates).job := by
  have h := kept_persistCandidates candidates s.job
  unfold State.persist
  cases hc : persistCandidates candidates s.job with
  | mk found row =>
    rw [hc] at h
    cases found <;> exact h

theorem read_job (s : State C) (i : ℕ) : (s.read i).job = s.job := by
  unfold State.read
  repeat' split
  all_goals rfl

theorem record_job (s : State C) (i : ℕ) (candidates : List C) :
    (s.record i candidates).job = s.job := by
  unfold State.record
  split <;> rfl

/-- **What a transaction may do to the row**, whoever makes it. -/
theorem kept_step {s t : State C} {e : Event C} (h : s.step e = some t) : Kept s.job t.job := by
  cases e with
  | dispatch =>
    obtain rfl := Option.some.inj h
    exact kept_dispatch s.job
  | reconcile =>
    obtain rfl := Option.some.inj h
    show Kept s.job (if s.owner.isNone then reconcileJob s.job else s.job)
    split
    · exact kept_reconcileJob s.job
    · exact .refl _
  | deliver i =>
    simp only [State.step] at h
    split at h <;> cases h
    exact .refl _
  | proceed i =>
    simp only [State.step, State.proceed] at h
    split at h
    case h_1 => split at h <;> (cases h; exact .refl _)
    case h_2 => cases h; exact kept_claim s i
    case h_4 => cases h; rw [read_job]; exact .refl _
    case h_7 candidates _ => cases h; exact kept_persist s i candidates
    case h_8 candidates _ => cases h; rw [record_job]; exact .refl _
    case h_9 status code _ => cases h; exact kept_finishExtraction status code s.job
    case h_11 status code _ => cases h; exact kept_finishExtraction status (some code) s.job
    all_goals cases h
    all_goals exact .refl _
  | conflict i =>
    simp only [State.step] at h
    split at h <;> cases h
    exact .refl _
  | skip i forbidden =>
    simp only [State.step, State.skip] at h
    repeat' split at h
    all_goals cases h
    all_goals exact .refl _
  | respond i candidates =>
    simp only [State.step] at h
    split at h <;> cases h
    exact .refl _
  | raise i =>
    simp only [State.step, State.raise] at h
    split at h <;> cases h
    all_goals exact .refl _
  | loseOwnership i => cases h; exact .refl _
  | crash i => cases h; exact .refl _

end AgentHub.Memories
