import AgentHub.Knowledge.Leases

/-!
# Manual retries of failed ingestions

`retry_document_ingestion` reads the latest revision and its job without locking them, checks that
both have failed, and resets them. At the commit only the columns are written that differ from what
was read, whatever the rows contain by then: another retry may have been committed in between, and
a worker may have claimed the job again or have finished it.

## Main definitions

* `RetryRequest`: what a request has read
* `Job.reset`: the columns that are written at the commit
* `retries`: the operations on the jobs of a document together with any number of requests
* `commitsOnFailed`: a request is committed while the job is still failed

## Main results

* `lease_kept_apply`: no other operation takes a lease that has not expired
* `retry_keeps_ingestion`: runs in which requests are committed on failed jobs
* `late_retry_undoes_ingestion`: a request that is committed late
-/

namespace AgentHub.Knowledge

open Lib

/-! ## Requests -/

/-- What a request has read. -/
structure RetryRequest where
  number : ℕ
  ingestion : RevisionIngestionStatus
  job : Option Job := none
  deriving DecidableEq

/-- A column that is set to its default, written when the value that was read differs. -/
def written {α : Type} [DecidableEq α] (read current default : α) : α :=
  if read = default then current else default

/-- The columns of the job that are written at the commit. -/
def Job.reset (read current : Job) (now : ℤ) : Job :=
  { current with
    status := .pending
    attemptCount := written read.attemptCount current.attemptCount 0
    leaseToken := written read.leaseToken current.leaseToken none
    leaseExpiresAt := written read.leaseExpiresAt current.leaseExpiresAt none
    nextAttemptAt := written read.nextAttemptAt current.nextAttemptAt none
    updatedAt := now }

/-- The check of `retry_document_ingestion`: the job to reset. -/
def RetryRequest.checked (request : RetryRequest) : Option Job :=
  request.job.filter fun job => request.ingestion = .failed && job.status = .failed

/-- The latest revision. -/
def Document.latest (d : Document) : Option (ℕ × Entry) :=
  (sortBy (fun row : ℕ × Entry => OrderDual.toDual row.1) d.rows).head?

/-- The job of the revision is read. -/
def RetryRequest.readJob (request : RetryRequest) (d : Document) : RetryRequest :=
  { request with job := (d.get? request.number).map Entry.job }

/-- The commit of a request; a request that is refused writes nothing. -/
def RetryRequest.commit (request : RetryRequest) (d : Document) (now : ℤ) : Document :=
  match request.checked with
  | some read =>
    d.modify request.number fun entry =>
      { entry with ingestion := .pending, job := read.reset entry.job now }
  | none => d

/-! ## The system -/

structure RetryState extends State where
  requests : List RetryRequest := []

inductive RetryEvent
  | lease (event : Event)
  | readRevision
  | readJob (request : ℕ)
  | commit (request : ℕ) (now : ℤ)

/-- The operations on the jobs of a document, and the statements of concurrent requests. -/
def retries : System RetryState RetryEvent where
  init s := leases.init s.toState ∧ s.requests = []
  step s
    | .lease event => (leases.step s.toState event).map fun t => { s with toState := t }
    | .readRevision =>
      s.document.latest.map fun row =>
        { s with requests := s.requests ++ [{ number := row.1, ingestion := row.2.ingestion }] }
    | .readJob i =>
      s.requests[i]?.map fun request =>
        { s with requests := s.requests.set i (request.readJob s.document) }
    | .commit i now =>
      s.requests[i]?.map fun request =>
        { s with
          document := request.commit s.document now
          requests := s.requests.eraseIdx i }

/-! ## What is kept -/

/-- The worker with the token holds an unexpired lease. -/
def Job.HoldsLease (job : Job) (token : Text) (clock : ℤ) : Prop :=
  job.status = .processing ∧ job.leaseToken = some token ∧
    ∃ expires, job.leaseExpiresAt = some expires ∧ clock < expires

/-- The worker itself gives the lease up. -/
def LeaseOperation.endsLease : LeaseOperation → Bool
  | finalize | release _ _ _ _ | fail _ _ => true
  | _ => false

/-- The operation gives up the lease of the job. -/
def Operation.EndsLease (operation : Operation) (number : ℕ) (token : Text) : Prop :=
  ∃ now op, operation = .present number token now op ∧ op.endsLease = true

/-- Finished ingestions stay finished. -/
def KeepsFinished (d next : Document) : Prop :=
  Rowwise (fun _ before after => before.job.status = .succeeded → before.ingestion = .ready →
    after.job.status = .succeeded ∧ after.ingestion = .ready) d next

/-- The leases that have not expired stay with the workers that hold them, unless they give them
up. -/
def KeepsLeases (s : RetryState) (event : RetryEvent) (next : Document) : Prop :=
  Rowwise (fun n before after => ∀ token, before.job.HoldsLease token s.clock →
    (∀ operation, event = .lease (.perform operation) → ¬ operation.EndsLease n token) →
    after.job.status = .processing ∧ after.job.leaseToken = some token) s.document next

/-- **A request is committed while the job it resets is still failed.** -/
def commitsOnFailed (s : RetryState) : RetryEvent → Bool
  | .commit i _ => s.requests[i]?.all fun request => request.checked.isNone ||
      (s.document.get? request.number).all (·.job.status = .failed)
  | _ => true

section Kept

variable {d : Document} {s t : RetryState} {event : RetryEvent} {clock : ℤ}
  {job : Job} {token : Text} {now : ℤ} {request : RetryRequest}

theorem not_isStale_of_holdsLease (h : job.HoldsLease token clock) (hnow : now ≤ clock) :
    isStale job now = false := by
  obtain ⟨hstatus, -, expires, hexpires, hlt⟩ := h
  simp only [isStale, hstatus, hexpires, Option.any_some, decide_true, Bool.true_and,
    decide_eq_false_iff_not, not_le]
  omega

theorem not_isClaimable_of_holdsLease (h : job.HoldsLease token clock) (hnow : now ≤ clock) :
    isClaimable job now = false := by
  rw [isClaimable, not_isStale_of_holdsLease h hnow, h.1]
  rfl

theorem not_isReconcilable_of_holdsLease {settings : ReconciliationSettings}
    (h : job.HoldsLease token clock) (hnow : now ≤ clock) :
    isReconcilable settings job now = false := by
  rw [isReconcilable, not_isStale_of_holdsLease h hnow, h.1]
  rfl

theorem token_of_holdsLease {token' : Text} (h : job.HoldsLease token' clock)
    (hvalid : leaseIsValid job token now = true) : token' = token := by
  simp only [leaseIsValid, Bool.and_eq_true, decide_eq_true_eq] at hvalid
  exact Option.some.inj (h.2.1.symm.trans hvalid.1.2)

/-- **No operation takes a lease that has not expired**, unless its worker gives it up. -/
theorem lease_kept_apply (operation : Operation) (hnow : operation.now ≤ clock) :
    Rowwise (fun n before after => ∀ token, before.job.HoldsLease token clock →
      ¬ operation.EndsLease n token →
      after.job.status = .processing ∧ after.job.leaseToken = some token)
      d (operation.apply d) := by
  have hrefl : ∀ (n : ℕ) (entry : Entry) token, entry.job.HoldsLease token clock →
      ¬ operation.EndsLease n token →
      entry.job.status = .processing ∧ entry.job.leaseToken = some token :=
    fun _ _ _ h _ => ⟨h.1, h.2.1⟩
  cases operation with
  | claim number token now leaseSeconds =>
    refine rowwise_updateWhere hrefl fun entry hp token' h _ => ?_
    have hnot : isClaimable entry.job now = false := not_isClaimable_of_holdsLease h hnow
    rw [hnot] at hp
    cases hp
  | reconcile settings batch now =>
    refine rowwise_mapRows fun n entry _ token' h hends => ?_
    have hnot : isReconcilable settings entry.job now = false :=
      not_isReconcilable_of_holdsLease h hnow
    rw [if_neg fun hp => Bool.false_ne_true (hnot.symm.trans hp.2)]
    exact hrefl n entry token' h hends
  | present number token now operation =>
    by_cases hfinalize : operation = .finalize
    · subst hfinalize
      rcases finalize_cases d number token now with hsame | ⟨entry, hentry, hvalid, hstage⟩
      · simp only [Operation.apply, LeaseOperation.apply, hsame]
        exact rowwise_refl hrefl
      obtain ⟨newest, -, hget⟩ := finalize_get? hentry hvalid hstage
      intro n
      simp only [Operation.apply, LeaseOperation.apply, hget]
      cases hn : d.get? n with
      | none => exact .none
      | some before =>
        refine .some fun token' h hends => ?_
        split_ifs with hnumber
        · subst hnumber
          obtain rfl : before = entry := Option.some.inj (hn.symm.trans hentry)
          obtain rfl := token_of_holdsLease h hvalid
          exact absurd ⟨now, .finalize, rfl, rfl⟩ hends
        · rw [Entry.serve_job]
          exact hrefl n before token' h hends
    · obtain ⟨p, hp, hget⟩ := exists_updateWhere d number token now hfinalize
      have hrows : Rowwise (fun n before after => ∀ token', before.job.HoldsLease token' clock →
          ¬ (Operation.present number token now operation).EndsLease n token' →
          after.job.status = .processing ∧ after.job.leaseToken = some token')
          d (updateWhere d number p (operation.effect now)).2 := by
        refine rowwise_updateWhere hrefl fun entry hentry token' h hends => ?_
        obtain rfl := token_of_holdsLease h (hp entry hentry)
        cases operation with
        | renew => exact ⟨h.1, h.2.1⟩
        | advance => exact ⟨h.1, h.2.1⟩
        | persist => exact ⟨h.1, h.2.1⟩
        | finalize => exact absurd rfl hfinalize
        | release => exact absurd ⟨now, _, rfl, rfl⟩ hends
        | fail => exact absurd ⟨now, _, rfl, rfl⟩ hends
      exact fun n => hget n ▸ hrows n

/-- A commit on a job that has failed takes nothing from anyone. -/
theorem commit_kept (now : ℤ)
    (h : request.checked.isSome = true → ∀ entry, d.get? request.number = some entry →
      entry.job.status = .failed) :
    Rowwise (fun _ before after => after = before ∨ before.job.status = .failed) d
      (request.commit d now) := by
  unfold RetryRequest.commit
  split
  · next read hread =>
    refine rowwise_mapRows fun n entry hentry => ?_
    split_ifs with hn
    · subst hn
      exact .inr (h (by rw [hread]; rfl) entry hentry)
    · exact .inl rfl
  · exact rowwise_refl fun _ _ => .inl rfl

theorem commitsOnFailed_commit {i : ℕ} (h : commitsOnFailed s (.commit i now) = true)
    (hrequest : s.requests[i]? = some request) (hchecked : request.checked.isSome = true)
    (entry : Entry) (hentry : s.document.get? request.number = some entry) :
    entry.job.status = .failed := by
  rw [commitsOnFailed, hrequest, Option.all_some, Bool.or_eq_true, hentry, Option.all_some,
    decide_eq_true_eq] at h
  refine h.resolve_left fun hnone => ?_
  rw [Option.isNone_iff_eq_none.mp hnone] at hchecked
  cases hchecked

/-- The requests do not touch the rows before their commits. -/
theorem retry_step_cases (h : retries.step s event = some t) :
    (t.document = s.document) ∨
      (∃ operation, event = .lease (.perform operation) ∧ operation.now ≤ s.clock ∧
        t.document = operation.apply s.document) ∨
      ∃ i now request, event = .commit i now ∧ s.requests[i]? = some request ∧
        t.document = request.commit s.document now := by
  cases event with
  | lease event =>
    obtain ⟨next, hnext, rfl⟩ := Option.map_eq_some_iff.mp h
    rcases step_cases hnext with ⟨hdocument, -⟩ | ⟨operation, rfl, hnow, hdocument, -⟩
    · exact .inl hdocument
    · exact .inr (.inl ⟨operation, rfl, hnow, hdocument⟩)
  | readRevision =>
    obtain ⟨row, -, rfl⟩ := Option.map_eq_some_iff.mp h
    exact .inl rfl
  | readJob i =>
    obtain ⟨request, -, rfl⟩ := Option.map_eq_some_iff.mp h
    exact .inl rfl
  | commit i now =>
    obtain ⟨request, hrequest, rfl⟩ := Option.map_eq_some_iff.mp h
    exact .inr (.inr ⟨i, now, request, rfl, hrequest, rfl⟩)

/-- One step that meets the condition. -/
theorem keeps_step (hok : commitsOnFailed s event = true) (h : retries.step s event = some t) :
    KeepsFinished s.document t.document ∧ KeepsLeases s event t.document := by
  rcases retry_step_cases h with hsame | ⟨operation, rfl, hnow, hdocument⟩ |
    ⟨i, now, request, rfl, hrequest, hdocument⟩
  · rw [hsame]
    exact ⟨rowwise_refl fun _ _ hsucceeded hready => ⟨hsucceeded, hready⟩,
      rowwise_refl fun _ _ _ hholds _ => ⟨hholds.1, hholds.2.1⟩⟩
  · rw [hdocument]
    refine ⟨(kept_apply s.document operation).imp fun n before after hkept hsucceeded hready => ?_,
      (lease_kept_apply operation hnow).imp fun n before after hkept token hholds hends =>
        hkept token hholds (hends operation rfl)⟩
    obtain ⟨hjob, hingestion⟩ := hkept hsucceeded
    exact ⟨hjob ▸ hsucceeded, hingestion ▸ hready⟩
  · rw [hdocument]
    have hkept := commit_kept now (commitsOnFailed_commit hok hrequest)
    refine ⟨hkept.imp fun n before after hmoved hsucceeded hready => ?_,
      hkept.imp fun n before after hmoved token hholds _ => ?_⟩
    · rcases hmoved with rfl | hfailed
      · exact ⟨hsucceeded, hready⟩
      · rw [hfailed] at hsucceeded
        cases hsucceeded
    · rcases hmoved with rfl | hfailed
      · exact ⟨hholds.1, hholds.2.1⟩
      · cases hfailed.symm.trans hholds.1

/-- **A manual retry never undoes live or finished ingestion** in the runs in which it is committed
on a failed job. -/
theorem retry_keeps_ingestion {es : List RetryEvent}
    (hes : retries.Within (commitsOnFailed · · = true) s es) :
    ∀ pre event post u v, es = pre ++ event :: post → retries.run s pre = some u →
      retries.step u event = some v →
      KeepsFinished u.document v.document ∧ KeepsLeases u event v.document := by
  rintro pre event post u v rfl hu hv
  exact keeps_step (hes.append hu).2.1 hv

/-- The statuses of a job and of its revision. -/
def RetryState.statuses (s : RetryState) (n : ℕ) :
    Option (IngestionJobStatus × RevisionIngestionStatus) :=
  (s.document.get? n).map fun entry => (entry.job.status, entry.ingestion)

def retryable : RetryState := { toState := uploaded }

/-- The second revision fails, two requests read it, and the second of them is committed. -/
def twoRequests : List RetryEvent :=
  [.lease (.perform (.claim 2 (Text.ofString "a") 7 60)),
    .lease (presented 2 "a" 8 (.fail (Text.ofString "PARSE_FAILED") (Text.ofString "Unreadable."))),
    .readRevision, .readRevision, .readJob 0, .readJob 1, .commit 1 9]

/-- **A late retry** resets an ingestion that has finished, and takes the lease of a worker. -/
theorem late_retry_undoes_ingestion :
    retries.init retryable ∧
    ((retries.run retryable (twoRequests ++ (ingest 2 "b" 9).map .lease)).bind (·.statuses 2) =
        some (.succeeded, .ready) ∧
      (retries.run retryable (twoRequests ++ (ingest 2 "b" 9).map .lease ++ [.commit 0 10])).bind
        (·.statuses 2) = some (.pending, .pending)) ∧
    ((retries.run retryable (twoRequests ++
        [.lease (.perform (.claim 2 (Text.ofString "b") 9 60))])).bind (·.statuses 2) =
        some (.processing, .processing) ∧
      (retries.run retryable (twoRequests ++
        [.lease (.perform (.claim 2 (Text.ofString "b") 9 60)), .commit 0 10])).bind
        (·.statuses 2) = some (.pending, .pending)) := by
  refine ⟨⟨init_uploaded, rfl⟩, ⟨?_, ?_⟩, ?_, ?_⟩
  all_goals decide +kernel

/-- One of two requests is committed on the failed job, and a worker finishes. -/
theorem retry_keeps_ingestion_timely :
    retries.Within (commitsOnFailed · · = true) retryable
        (twoRequests ++ (ingest 2 "b" 9).map .lease) ∧
      ∀ pre event post u v, twoRequests ++ (ingest 2 "b" 9).map .lease = pre ++ event :: post →
        retries.run retryable pre = some u → retries.step u event = some v →
        KeepsFinished u.document v.document ∧ KeepsLeases u event v.document := by
  have hes : retries.Within (commitsOnFailed · · = true) retryable
      (twoRequests ++ (ingest 2 "b" 9).map .lease) := by
    decide +kernel
  exact ⟨hes, retry_keeps_ingestion hes⟩

end Kept

end AgentHub.Knowledge
