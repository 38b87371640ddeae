import AgentHub.Lib.Json
import AgentHub.Lib.Sorting

/-!
# Ingestion of the revisions of a document

Every revision of a document owns one ingestion job, and a job is named by the number of its
revision. A worker claims a job under a lease, moves it through its stages, and finalizes it when
the index has acknowledged the revision; a job that is given up is released or failed, and the
reconciler requeues jobs whose lease has expired. Each operation is one transaction. It reads the
clock when it starts, so that its reading may be behind the clock when it takes effect.

## Main definitions

* `Job`, `Entry`, `Document`: the rows of one document
* `updateWhere`: an `UPDATE … WHERE` on one row, with the number of rows it changed
* `claimIngestionJob`, `finalizeIngestionReady`, `reconcileIngestionJobs`, …: the operations
-/

namespace AgentHub.Knowledge

open Lib

/-! ## Rows -/

inductive IngestionJobStatus
  | pending | processing | succeeded | failed
  deriving DecidableEq, Repr

inductive IngestionStage
  | parsing | chunking | embedding | indexing
  deriving DecidableEq, Repr

inductive RevisionIngestionStatus
  | pending | processing | ready | failed
  deriving DecidableEq, Repr

inductive RevisionLifecycleStatus
  | active | retired | deleted
  deriving DecidableEq, Repr

/-- `IngestionJob`, with the defaults of a new row. -/
structure Job where
  status : IngestionJobStatus := .pending
  stage : IngestionStage := .parsing
  leaseToken : Option Text := none
  leaseExpiresAt : Option ℤ := none
  attemptCount : ℕ := 0
  nextAttemptAt : Option ℤ := none
  lastErrorCode : Option Text := none
  safeErrorMessage : Option Text := none
  createdAt : ℤ
  updatedAt : ℤ
  deriving DecidableEq

/-- A revision and its job. -/
structure Entry where
  lifecycle : RevisionLifecycleStatus := .active
  ingestion : RevisionIngestionStatus := .pending
  job : Job
  deriving DecidableEq

structure ChunkCandidate where
  chunkId : Text
  ordinal : ℕ
  normalizedContentHash : Text
  text : Text
  locator : Json

/-- `DocumentChunk`, of one document. -/
structure DocumentChunk extends ChunkCandidate where
  revisionNumber : ℕ

/-- The revisions of a document by their numbers, and its chunks. -/
structure Document where
  rows : List (ℕ × Entry)
  nodup : (rows.map Prod.fst).Nodup
  chunks : List DocumentChunk := []

namespace Document

def get? (d : Document) (number : ℕ) : Option Entry := d.rows.lookup number

/-- The rows with a function applied to each. -/
def mapRows (d : Document) (f : ℕ → Entry → Entry) : Document where
  rows := d.rows.map fun row => (row.1, f row.1 row.2)
  nodup := by
    rw [List.map_map]
    exact d.nodup
  chunks := d.chunks

/-- The rows with a function applied to one. -/
def modify (d : Document) (number : ℕ) (f : Entry → Entry) : Document :=
  d.mapRows fun n entry => if n = number then f entry else entry

@[simp] theorem get?_mapRows (d : Document) (f : ℕ → Entry → Entry) (n : ℕ) :
    (d.mapRows f).get? n = (d.get? n).map (f n) := by
  unfold get? mapRows
  dsimp only
  induction d.rows with
  | nil => rfl
  | cons row rows ih =>
    rw [List.map_cons, List.lookup_cons, List.lookup_cons]
    by_cases h : n = row.1
    · subst h
      simp
    · have hbeq : (n == row.1) = false := by simpa using h
      rw [hbeq]
      exact ih

theorem get?_modify (d : Document) (number : ℕ) (f : Entry → Entry) (n : ℕ) :
    (d.modify number f).get? n =
      (d.get? n).map fun entry => if n = number then f entry else entry :=
  d.get?_mapRows _ n

theorem mem_rows_iff {d : Document} {n : ℕ} {entry : Entry} :
    (n, entry) ∈ d.rows ↔ d.get? n = some entry :=
  (Table.lookup_eq_some_iff d.nodup).symm

end Document

/-- `UPDATE … WHERE`, of one row: whether a row was changed. -/
def updateWhere (d : Document) (number : ℕ) (p : Entry → Bool) (f : Entry → Entry) :
    Bool × Document :=
  match d.get? number with
  | some entry => if p entry then (true, d.modify number f) else (false, d)
  | none => (false, d)

/-! ## Operations under a lease -/

/-- `_lease_is_valid`, which the updates under a lease repeat in their conditions. -/
def leaseIsValid (job : Job) (leaseToken : Text) (now : ℤ) : Bool :=
  job.status = .processing && job.leaseToken = some leaseToken &&
    job.leaseExpiresAt.any (now < ·)

section Lease

variable (d : Document) (number : ℕ) (leaseToken : Text) (now : ℤ)

/-- `renew_ingestion_lease` -/
def renewIngestionLease (leaseSeconds : ℕ) : Bool × Document :=
  updateWhere d number (leaseIsValid ·.job leaseToken now) fun entry =>
    { entry with
      job := { entry.job with leaseExpiresAt := some (now + leaseSeconds), updatedAt := now } }

/-- `advance_ingestion_stage` -/
def advanceIngestionStage (expectedStage nextStage : IngestionStage) : Bool × Document :=
  updateWhere d number
    (fun entry => leaseIsValid entry.job leaseToken now && entry.job.stage = expectedStage)
    fun entry => { entry with job := { entry.job with stage := nextStage, updatedAt := now } }

/-- The rows of chunks with the candidates in place of the rows of their ids. -/
def upsertChunks (rows : List DocumentChunk) (chunks : List ChunkCandidate) :
    List DocumentChunk :=
  chunks.foldl (fun rows chunk =>
    let row : DocumentChunk := { chunk with revisionNumber := number }
    if chunk.chunkId ∈ rows.map (·.chunkId) then
      rows.map fun old => if old.chunkId = chunk.chunkId then row else old
    else rows ++ [row]) rows

/-- `persist_chunks_and_advance` -/
def persistChunksAndAdvance (chunks : List ChunkCandidate) : Bool × Document :=
  let (changed, next) := updateWhere d number
    (fun entry => leaseIsValid entry.job leaseToken now && entry.job.stage = .chunking)
    fun entry => { entry with job := { entry.job with stage := .embedding, updatedAt := now } }
  if changed then (true, { next with chunks := upsertChunks number next.chunks chunks })
  else (false, d)

/-- The newest of the revisions that are ready is served, and the others are retired. -/
def serveNewest : Document :=
  let revisions := sortBy (fun row : ℕ × Entry => OrderDual.toDual row.1) d.rows
  match (revisions.filter (·.2.ingestion = .ready)).head? with
  | some activeRevision =>
    d.mapRows fun n entry =>
      if entry.ingestion = .ready then
        { entry with lifecycle := if n = activeRevision.1 then .active else .retired }
      else entry
  | none => d

/-- A job that is done. -/
def Job.succeed (job : Job) : Job :=
  { job with
    status := .succeeded
    leaseToken := none
    leaseExpiresAt := none
    nextAttemptAt := none
    lastErrorCode := none
    safeErrorMessage := none
    updatedAt := now }

/-- `finalize_ingestion_ready` -/
def finalizeIngestionReady : Bool × Document :=
  match d.get? number with
  | some entry =>
    if leaseIsValid entry.job leaseToken now && entry.job.stage = .indexing then
      let ready := d.modify number fun entry => { entry with ingestion := .ready }
      (true, (serveNewest ready).modify number fun entry =>
        { entry with job := entry.job.succeed now })
    else (false, d)
  | none => (false, d)

/-- `release_ingestion_for_retry` -/
def releaseIngestionForRetry (attemptCount retryBaseSeconds : ℕ) (errorCode safeMessage : Text) :
    Bool × Document :=
  updateWhere d number (leaseIsValid ·.job leaseToken now) fun entry =>
    { entry with
      job :=
        { entry.job with
          status := .pending
          leaseToken := none
          leaseExpiresAt := none
          nextAttemptAt := some (now + retryBaseSeconds * 2 ^ (attemptCount - 1))
          lastErrorCode := errorCode
          safeErrorMessage := safeMessage
          updatedAt := now } }

/-- A job that is given up, with its revision. -/
def Entry.fail (entry : Entry) (errorCode safeMessage : Text) : Entry :=
  { entry with
    ingestion := .failed
    job :=
      { entry.job with
        status := .failed
        leaseToken := none
        leaseExpiresAt := none
        lastErrorCode := errorCode
        safeErrorMessage := safeMessage
        updatedAt := now } }

/-- `fail_ingestion_job` -/
def failIngestionJob (errorCode safeMessage : Text) : Bool × Document :=
  updateWhere d number (leaseIsValid ·.job leaseToken now) (·.fail now errorCode safeMessage)

end Lease

/-! ## Claims and reconciliation -/

/-- `next_attempt_at IS NULL OR next_attempt_at <= now` -/
def isDue (job : Job) (now : ℤ) : Bool := job.nextAttemptAt.all (· ≤ now)

/-- A job whose lease has expired. -/
def isStale (job : Job) (now : ℤ) : Bool :=
  job.status = .processing && job.leaseExpiresAt.any (· ≤ now)

def isClaimable (job : Job) (now : ℤ) : Bool :=
  job.status = .pending && isDue job now || isStale job now

/-- `claim_ingestion_job`, up to the commit -/
def claimIngestionJob (d : Document) (number : ℕ) (leaseToken : Text) (now : ℤ)
    (leaseSeconds : ℕ) : Bool × Document :=
  updateWhere d number (isClaimable ·.job now) fun entry =>
    { entry with
      ingestion := .processing
      job :=
        { entry.job with
          status := .processing
          leaseToken := leaseToken
          leaseExpiresAt := some (now + leaseSeconds)
          attemptCount := entry.job.attemptCount + 1
          nextAttemptAt := none
          updatedAt := now } }

/-- The settings the reconciler reads. -/
structure ReconciliationSettings where
  enqueueGraceSeconds : ℕ
  maxAttempts : ℕ

/-- `due_pending` or `stale_processing` -/
def isReconcilable (settings : ReconciliationSettings) (job : Job) (now : ℤ) : Bool :=
  job.status = .pending && job.createdAt ≤ now - settings.enqueueGraceSeconds && isDue job now ||
    isStale job now

/-- What the reconciler makes of a job. -/
def reconcileEntry (settings : ReconciliationSettings) (now : ℤ) (entry : Entry) : Entry :=
  if entry.job.attemptCount ≥ settings.maxAttempts then
    entry.fail now (Text.ofString "MAX_ATTEMPTS_EXCEEDED")
      (Text.ofString "The ingestion job exceeded its retry limit.")
  else
    { entry with
      job :=
        { entry.job with
          status := .pending
          leaseToken := none
          leaseExpiresAt := none
          nextAttemptAt := some now
          updatedAt := now } }

/-- `reconcile_ingestion_jobs`, of the jobs that are in the batch: it is limited, it holds the jobs
of other documents, and it skips the rows that are locked. -/
def reconcileIngestionJobs (settings : ReconciliationSettings) (d : Document) (batch : List ℕ)
    (now : ℤ) : Document :=
  d.mapRows fun n entry =>
    if n ∈ batch ∧ isReconcilable settings entry.job now then reconcileEntry settings now entry
    else entry

end AgentHub.Knowledge
