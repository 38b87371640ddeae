import AgentHub.Knowledge.Ingestion
import AgentHub.Lib.System

/-!
# Leases of ingestion jobs

The operations on the jobs of one document in any interleaving. A lease token is drawn when a job is
claimed and is never drawn again; whoever presents a token that the job no longer carries, or one
that has expired, changes nothing. A job that has succeeded is final, its revision is ready, and of
the revisions that are ready the one with the highest number is served.

## Main definitions

* `Operation`, `Operation.apply`: the operations as one type
* `leases`: the system of all interleavings, with the tokens drawn so far and the clock
* `Entry.Reworked`: what an operation other than the finalization may do to a revision
* `Consistent`: the invariant of the rows

## Main results

* `consistent_apply`: every operation keeps the invariant
* `Superseded.run`: a token that is superseded stays superseded
* `leases_fence_and_newest_is_served`: the guarantees over whole runs
-/

namespace AgentHub.Knowledge

open Lib

/-! ## Operations -/

/-- An operation that presents a lease token. -/
inductive LeaseOperation
  | renew (leaseSeconds : ℕ)
  | advance (expectedStage nextStage : IngestionStage)
  | persist (chunks : List ChunkCandidate)
  | finalize
  | release (attemptCount retryBaseSeconds : ℕ) (errorCode safeMessage : Text)
  | fail (errorCode safeMessage : Text)

/-- An operation with the time it has read. -/
inductive Operation
  | claim (number : ℕ) (leaseToken : Text) (now : ℤ) (leaseSeconds : ℕ)
  | present (number : ℕ) (leaseToken : Text) (now : ℤ) (operation : LeaseOperation)
  | reconcile (settings : ReconciliationSettings) (batch : List ℕ) (now : ℤ)

def LeaseOperation.apply (d : Document) (number : ℕ) (leaseToken : Text) (now : ℤ) :
    LeaseOperation → Bool × Document
  | renew leaseSeconds => renewIngestionLease d number leaseToken now leaseSeconds
  | advance expectedStage nextStage =>
    advanceIngestionStage d number leaseToken now expectedStage nextStage
  | persist chunks => persistChunksAndAdvance d number leaseToken now chunks
  | finalize => finalizeIngestionReady d number leaseToken now
  | release attemptCount retryBaseSeconds errorCode safeMessage =>
    releaseIngestionForRetry d number leaseToken now attemptCount retryBaseSeconds errorCode
      safeMessage
  | fail errorCode safeMessage => failIngestionJob d number leaseToken now errorCode safeMessage

namespace Operation

def apply (d : Document) : Operation → Document
  | claim number leaseToken now leaseSeconds =>
    (claimIngestionJob d number leaseToken now leaseSeconds).2
  | present number leaseToken now operation => (operation.apply d number leaseToken now).2
  | reconcile settings batch now => reconcileIngestionJobs settings d batch now

/-- The time the operation has read. -/
def now : Operation → ℤ
  | claim _ _ now _ | present _ _ now _ | reconcile _ _ now => now

/-- The token the operation draws. -/
def draws : Operation → Option Text
  | claim _ leaseToken _ _ => some leaseToken
  | _ => none

end Operation

/-! ## The system -/

structure State where
  document : Document
  /-- The tokens drawn so far. -/
  drawn : List Text := []
  clock : ℤ

inductive Event
  | tick (seconds : ℕ)
  | perform (operation : Operation)

/-- A revision as it is uploaded. -/
def Entry.IsNew (entry : Entry) : Prop :=
  ∃ createdAt, entry = { job := { createdAt, updatedAt := createdAt } }

/-- **The interleavings**: the clock does not go back, an operation has read it before, and tokens
are drawn once. -/
def leases : System State Event where
  init s := s.drawn = [] ∧ ∀ n entry, s.document.get? n = some entry → entry.IsNew
  step s
    | .tick seconds => some { s with clock := s.clock + seconds }
    | .perform operation =>
      if operation.now ≤ s.clock ∧ ∀ token ∈ operation.draws, token ∉ s.drawn then
        some { s with
          document := operation.apply s.document
          drawn := operation.draws.toList ++ s.drawn }
      else none

/-! ## What an operation does to a row -/

/-- A job that is not at its end. -/
def Job.IsOpen (job : Job) : Prop := job.status = .pending ∨ job.status = .processing

/-- **What an operation other than the finalization may do to a revision**: nothing, or move a job
that is open without finishing it. -/
def Entry.Reworked (entry next : Entry) : Prop :=
  next = entry ∨ entry.job.IsOpen ∧ next.job.status ≠ .succeeded ∧
    (next.ingestion = entry.ingestion ∨ next.ingestion ≠ .ready)

/-- The rows of two documents are related one by one. -/
def Rowwise (R : ℕ → Entry → Entry → Prop) (d next : Document) : Prop :=
  ∀ n, Option.Rel (R n) (d.get? n) (next.get? n)

variable {d next : Document} {number n : ℕ} {entry : Entry} {token : Text} {now : ℤ}

section Rows

variable {R : ℕ → Entry → Entry → Prop} {p : Entry → Bool} {f : Entry → Entry}

theorem rowwise_mapRows {g : ℕ → Entry → Entry}
    (h : ∀ n entry, d.get? n = some entry → R n entry (g n entry)) : Rowwise R d (d.mapRows g) := by
  intro n
  rw [Document.get?_mapRows]
  cases hentry : d.get? n with
  | none => exact .none
  | some entry => exact .some (h n entry hentry)

theorem rowwise_refl (h : ∀ n entry, R n entry entry) : Rowwise R d d := by
  intro n
  cases d.get? n with
  | none => exact .none
  | some entry => exact .some (h n entry)

theorem Rowwise.imp {S : ℕ → Entry → Entry → Prop} (h : Rowwise R d next)
    (himp : ∀ n before after, R n before after → S n before after) : Rowwise S d next := by
  intro n
  have hrel := h n
  generalize d.get? n = before, next.get? n = after at hrel
  cases hrel with
  | none => exact .none
  | some hR => exact .some (himp n _ _ hR)

/-- A row of the document before. -/
theorem Rowwise.exists_before {after : Entry} (h : Rowwise R d next)
    (hn : next.get? n = some after) :
    ∃ before, d.get? n = some before ∧ R n before after := by
  have hrel := h n
  rw [hn] at hrel
  cases hd : d.get? n with
  | none =>
    rw [hd] at hrel
    cases hrel
  | some before =>
    rw [hd] at hrel
    cases hrel with
    | some hR => exact ⟨before, rfl, hR⟩

/-- A row of the document after. -/
theorem Rowwise.exists_after {before : Entry} (h : Rowwise R d next) (hn : d.get? n = some before) :
    ∃ after, next.get? n = some after ∧ R n before after := by
  have hrel := h n
  rw [hn] at hrel
  cases hd : next.get? n with
  | none =>
    rw [hd] at hrel
    cases hrel
  | some after =>
    rw [hd] at hrel
    cases hrel with
    | some hR => exact ⟨after, rfl, hR⟩

/-- An update changes the one row that meets its condition. -/
theorem rowwise_updateWhere (hrefl : ∀ n entry, R n entry entry)
    (h : ∀ entry, p entry = true → R number entry (f entry)) :
    Rowwise R d (updateWhere d number p f).2 := by
  unfold updateWhere
  split
  · next entry hentry =>
    split_ifs with hp
    · refine rowwise_mapRows fun n other hother => ?_
      split_ifs with hn
      · subst hn
        rw [hentry] at hother
        cases hother
        exact h entry hp
      · exact hrefl n other
    · exact rowwise_refl hrefl
  · exact rowwise_refl hrefl

/-- An update whose condition the row does not meet changes nothing. -/
theorem updateWhere_of_not (h : ∀ entry, d.get? number = some entry → p entry = false) :
    updateWhere d number p f = (false, d) := by
  unfold updateWhere
  split
  · next entry hentry => rw [if_neg (by rw [h entry hentry]; exact Bool.false_ne_true)]
  · rfl

end Rows

section Operations

variable {job : Job}

theorem processing_of_leaseIsValid (h : leaseIsValid job token now = true) :
    job.status = .processing := by
  simp only [leaseIsValid, Bool.and_eq_true, decide_eq_true_eq] at h
  exact h.1.1

theorem isOpen_of_isStale (h : isStale job now = true) : job.IsOpen := by
  simp only [isStale, Bool.and_eq_true, decide_eq_true_eq] at h
  exact .inr h.1

theorem isOpen_of_isClaimable (h : isClaimable job now = true) : job.IsOpen := by
  simp only [isClaimable, Bool.or_eq_true, Bool.and_eq_true, decide_eq_true_eq] at h
  rcases h with ⟨h, -⟩ | h
  · exact .inl h
  · exact isOpen_of_isStale h

theorem isOpen_of_isReconcilable {settings : ReconciliationSettings}
    (h : isReconcilable settings job now = true) : job.IsOpen := by
  simp only [isReconcilable, Bool.or_eq_true, Bool.and_eq_true, decide_eq_true_eq] at h
  rcases h with ⟨⟨h, -⟩, -⟩ | h
  · exact .inl h
  · exact isOpen_of_isStale h

/-- What an operation under a lease does to the row, beside the finalization. -/
def LeaseOperation.effect (now : ℤ) : LeaseOperation → Entry → Entry
  | renew leaseSeconds, entry =>
    { entry with
      job := { entry.job with leaseExpiresAt := some (now + leaseSeconds), updatedAt := now } }
  | advance _ nextStage, entry =>
    { entry with job := { entry.job with stage := nextStage, updatedAt := now } }
  | persist _, entry =>
    { entry with job := { entry.job with stage := .embedding, updatedAt := now } }
  | finalize, entry => entry
  | release attemptCount retryBaseSeconds errorCode safeMessage, entry =>
    { entry with
      job :=
        { entry.job with
          status := .pending
          leaseToken := none
          leaseExpiresAt := none
          nextAttemptAt := some (now + retryBaseSeconds * 2 ^ (attemptCount - 1))
          lastErrorCode := errorCode
          safeErrorMessage := safeMessage
          updatedAt := now } }
  | fail errorCode safeMessage, entry => entry.fail now errorCode safeMessage

theorem updateWhere_false {p : Entry → Bool} {f : Entry → Entry}
    (h : (updateWhere d number p f).1 = false) : (updateWhere d number p f).2 = d := by
  unfold updateWhere at h ⊢
  split at h
  · split_ifs at h ⊢
    rfl
  · rfl

/-- **An operation under a lease is a conditional update** of the row it names. -/
theorem exists_updateWhere (d : Document) (number : ℕ) (token : Text) (now : ℤ)
    {operation : LeaseOperation} (h : operation ≠ .finalize) :
    ∃ p : Entry → Bool, (∀ entry, p entry = true → leaseIsValid entry.job token now = true) ∧
      ∀ n, (operation.apply d number token now).2.get? n =
        (updateWhere d number p (operation.effect now)).2.get? n := by
  cases operation with
  | renew => exact ⟨_, fun _ hp => hp, fun _ => rfl⟩
  | advance => exact ⟨_, fun _ hp => (Bool.and_eq_true_iff.mp hp).1, fun _ => rfl⟩
  | persist chunks =>
    refine ⟨fun entry => leaseIsValid entry.job token now && entry.job.stage = .chunking,
      fun _ hp => (Bool.and_eq_true_iff.mp hp).1, fun n => ?_⟩
    simp only [LeaseOperation.apply, persistChunksAndAdvance]
    split_ifs with hchanged
    · rfl
    · exact congrArg (·.get? n) (updateWhere_false (Bool.eq_false_iff.mpr hchanged)).symm
  | finalize => exact absurd rfl h
  | release => exact ⟨_, fun _ hp => hp, fun _ => rfl⟩
  | fail => exact ⟨_, fun _ hp => hp, fun _ => rfl⟩

/-- An operation is refused without a valid lease. -/
theorem apply_of_invalid (operation : LeaseOperation)
    (h : ∀ entry, d.get? number = some entry → leaseIsValid entry.job token now = false) :
    operation.apply d number token now = (false, d) := by
  cases operation with
  | renew => exact updateWhere_of_not h
  | advance => exact updateWhere_of_not fun entry hentry => by rw [h entry hentry]; rfl
  | persist =>
    simp only [LeaseOperation.apply, persistChunksAndAdvance]
    rw [updateWhere_of_not fun entry hentry => by rw [h entry hentry]; rfl]
    rfl
  | finalize =>
    simp only [LeaseOperation.apply, finalizeIngestionReady]
    split
    · next entry hentry =>
      rw [h entry hentry]
      rfl
    · rfl
  | release => exact updateWhere_of_not h
  | fail => exact updateWhere_of_not h

/-- What an operation does to the rows, if it is not the finalization. -/
theorem reworked_apply {operation : Operation}
    (h : ∀ number token now, operation ≠ .present number token now .finalize) :
    Rowwise (fun _ => Entry.Reworked) d (operation.apply d) := by
  have hrefl : ∀ (_ : ℕ) entry, Entry.Reworked entry entry := fun _ _ => .inl rfl
  cases operation with
  | claim number token now leaseSeconds =>
    exact rowwise_updateWhere hrefl fun entry hp =>
      .inr ⟨isOpen_of_isClaimable hp, nofun, .inr nofun⟩
  | reconcile settings batch now =>
    refine rowwise_mapRows fun n entry _ => ?_
    split_ifs with hp
    · refine .inr ⟨isOpen_of_isReconcilable hp.2, ?_⟩
      unfold reconcileEntry
      split_ifs
      · exact ⟨nofun, .inr nofun⟩
      · exact ⟨nofun, .inl rfl⟩
    · exact .inl rfl
  | present number token now operation =>
    have hne : operation ≠ .finalize := fun hfinalize => h number token now (by rw [hfinalize])
    obtain ⟨p, hp, hget⟩ := exists_updateWhere d number token now hne
    have hrows : Rowwise (fun _ => Entry.Reworked) d
        (updateWhere d number p (operation.effect now)).2 := by
      refine rowwise_updateWhere hrefl fun entry hentry => ?_
      have hprocessing := processing_of_leaseIsValid (hp entry hentry)
      refine .inr ⟨.inr hprocessing, ?_, ?_⟩
      · cases operation <;> simp [LeaseOperation.effect, Entry.fail, hprocessing]
      · cases operation <;> simp [LeaseOperation.effect, Entry.fail]
    exact fun n => hget n ▸ hrows n

end Operations

/-! ## The finalization -/

section Finalization

variable {newest : ℕ}

/-- A revision that is ready. -/
def Document.IsReady (d : Document) (n : ℕ) : Prop :=
  ∃ entry, d.get? n = some entry ∧ entry.ingestion = .ready

/-- The newest revision that is ready. -/
def IsNewest (d : Document) (newest : ℕ) : Prop :=
  d.IsReady newest ∧ ∀ n, d.IsReady n → n ≤ newest

theorem IsNewest.eq {m : ℕ} (hn : IsNewest d n) (hm : IsNewest d m) : n = m :=
  le_antisymm (hm.2 n hn.1) (hn.2 m hm.1)

theorem isNewest_congr {next : Document} (h : ∀ n, next.IsReady n ↔ d.IsReady n) :
    IsNewest next n ↔ IsNewest d n := by
  simp only [IsNewest, h]

/-- What serving the newest revision makes of a row. -/
def Entry.serve (newest n : ℕ) (entry : Entry) : Entry :=
  if entry.ingestion = .ready then
    { entry with lifecycle := if n = newest then .active else .retired }
  else entry

@[simp] theorem Entry.serve_ingestion (newest n : ℕ) (entry : Entry) :
    (entry.serve newest n).ingestion = entry.ingestion := by
  unfold Entry.serve
  split_ifs <;> rfl

@[simp] theorem Entry.serve_job (newest n : ℕ) (entry : Entry) :
    (entry.serve newest n).job = entry.job := by
  unfold Entry.serve
  split_ifs <;> rfl

/-- Where a revision is ready, the newest one is served. -/
theorem exists_serveNewest (hentry : d.get? n = some entry) (hready : entry.ingestion = .ready) :
    ∃ newest, IsNewest d newest ∧ serveNewest d = d.mapRows (Entry.serve newest) := by
  set ready := (sortBy (fun row : ℕ × Entry => OrderDual.toDual row.1) d.rows).filter
    (·.2.ingestion = .ready) with hdef
  have hmem : ∀ m e, (m, e) ∈ ready ↔ d.get? m = some e ∧ e.ingestion = .ready := by
    intro m e
    rw [hdef, List.mem_filter, (sortBy_perm _ d.rows).mem_iff, Document.mem_rows_iff,
      decide_eq_true_eq]
  have hsorted : ready.Pairwise fun a b => b.1 ≤ a.1 :=
    ((pairwise_sortBy (fun row : ℕ × Entry => OrderDual.toDual row.1) d.rows).filter _).imp
      OrderDual.toDual_le_toDual.mp
  cases hready' : ready with
  | nil =>
    have := (hmem n entry).mpr ⟨hentry, hready⟩
    rw [hready'] at this
    cases this
  | cons row rest =>
    obtain ⟨newest, active⟩ := row
    rw [hready'] at hmem hsorted
    refine ⟨newest, ⟨⟨active, (hmem newest active).mp List.mem_cons_self⟩, ?_⟩, ?_⟩
    · rintro m ⟨e, hm, he⟩
      rcases List.mem_cons.mp ((hmem m e).mpr ⟨hm, he⟩) with hhead | htail
      · exact (Prod.mk.inj hhead).1.le
      · exact List.rel_of_pairwise_cons hsorted htail
    · unfold serveNewest
      simp only [← hdef, hready', List.head?_cons]
      rfl

/-- A finalization changes nothing, or it acts under a valid lease. -/
theorem finalize_cases (d : Document) (number : ℕ) (token : Text) (now : ℤ) :
    (finalizeIngestionReady d number token now).2 = d ∨
      ∃ entry, d.get? number = some entry ∧ leaseIsValid entry.job token now = true ∧
        entry.job.stage = .indexing := by
  unfold finalizeIngestionReady
  split
  · next entry hentry =>
    split_ifs with hp
    · rw [Bool.and_eq_true, decide_eq_true_eq] at hp
      exact .inr ⟨entry, hentry, hp⟩
    · exact .inl rfl
  · exact .inl rfl

/-- **A finalization under a valid lease.** -/
theorem finalize_get? (hentry : d.get? number = some entry)
    (hvalid : leaseIsValid entry.job token now = true) (hstage : entry.job.stage = .indexing) :
    ∃ newest, IsNewest (d.modify number fun entry => { entry with ingestion := .ready }) newest ∧
      ∀ n, (finalizeIngestionReady d number token now).2.get? n = (d.get? n).map fun entry =>
        if n = number then
          { Entry.serve newest n { entry with ingestion := .ready } with
            job := entry.job.succeed now }
        else Entry.serve newest n entry := by
  set marked := d.modify number fun entry => { entry with ingestion := .ready } with hmarked
  have hnumber : marked.get? number = some { entry with ingestion := .ready } := by
    rw [hmarked, Document.get?_modify, hentry, Option.map_some, if_pos rfl]
  obtain ⟨newest, hnewest, hserve⟩ := exists_serveNewest hnumber rfl
  refine ⟨newest, hnewest, fun n => ?_⟩
  have hfinalize : (finalizeIngestionReady d number token now).2 =
      (serveNewest marked).modify number
        fun entry => { entry with job := entry.job.succeed now } := by
    simp [finalizeIngestionReady, hentry, hvalid, hstage, hmarked]
  rw [hfinalize, Document.get?_modify, hserve, Document.get?_mapRows, hmarked,
    Document.get?_modify, Option.map_map, Option.map_map]
  congr 1
  funext e
  dsimp only [Function.comp]
  split_ifs with hn
  · unfold Entry.serve
    split_ifs <;> rfl
  · rfl

end Finalization

/-! ## The invariant -/

/-- **The rows are consistent**: the jobs that have succeeded are those of the revisions that are
ready, and of these the one with the highest number is active. -/
structure Consistent (d : Document) : Prop where
  succeeded_iff : ∀ n entry, d.get? n = some entry →
    (entry.job.status = .succeeded ↔ entry.ingestion = .ready)
  served : ∀ n entry, d.get? n = some entry → entry.ingestion = .ready →
    (entry.lifecycle = .active ↔ IsNewest d n)

section Invariant

/-- A revision that is ready is left as it is. -/
theorem Entry.Reworked.eq_of_ready {before after : Entry} (h : before.Reworked after)
    (hconsistent : before.job.status = .succeeded ↔ before.ingestion = .ready)
    (hready : before.ingestion = .ready ∨ after.ingestion = .ready) : after = before := by
  rcases h with rfl | ⟨hopen, -, hingestion⟩
  · rfl
  · have hbefore : before.ingestion = .ready := by
      rcases hready with hready | hready
      · exact hready
      · exact (hingestion.resolve_right (not_not.mpr hready)) ▸ hready
    have hsucceeded := hconsistent.mpr hbefore
    rcases hopen with hopen | hopen
    · rw [hopen] at hsucceeded
      cases hsucceeded
    · rw [hopen] at hsucceeded
      cases hsucceeded

theorem consistent_of_reworked (h : Consistent d)
    (hrows : Rowwise (fun _ => Entry.Reworked) d next) : Consistent next := by
  -- The revisions that are ready are the same, row by row.
  have hsame : ∀ n entry, entry.ingestion = .ready →
      (d.get? n = some entry ↔ next.get? n = some entry) := by
    intro n entry hready
    constructor
    · intro hentry
      obtain ⟨after, hafter, hmoved⟩ := hrows.exists_after hentry
      rw [hafter, hmoved.eq_of_ready (h.succeeded_iff n entry hentry) (.inl hready)]
    · intro hentry
      obtain ⟨before, hbefore, hmoved⟩ := hrows.exists_before hentry
      rw [hbefore, hmoved.eq_of_ready (h.succeeded_iff n before hbefore) (.inr hready)]
  have hready : ∀ n, next.IsReady n ↔ d.IsReady n := fun n =>
    exists_congr fun entry => ⟨fun h => ⟨(hsame n entry h.2).mpr h.1, h.2⟩,
      fun h => ⟨(hsame n entry h.2).mp h.1, h.2⟩⟩
  constructor
  · intro n after hafter
    obtain ⟨before, hbefore, hmoved⟩ := hrows.exists_before hafter
    have hiff := h.succeeded_iff n before hbefore
    by_cases hready : after.ingestion = .ready
    · rw [hmoved.eq_of_ready hiff (.inr hready)]
      exact hiff
    · refine iff_of_false (fun hsucceeded => ?_) hready
      rcases hmoved with rfl | ⟨-, hnot, -⟩
      · exact hready (hiff.mp hsucceeded)
      · exact hnot hsucceeded
  · intro n entry hentry hentryReady
    rw [isNewest_congr hready]
    exact h.served n entry ((hsame n entry hentryReady).mpr hentry) hentryReady

/-- The finalization keeps the invariant. -/
theorem consistent_finalize (h : Consistent d) :
    Consistent (finalizeIngestionReady d number token now).2 := by
  rcases finalize_cases d number token now with hsame | ⟨entry, hentry, hvalid, hstage⟩
  · rw [hsame]
    exact h
  obtain ⟨newest, hnewest, hget⟩ := finalize_get? hentry hvalid hstage
  generalize (finalizeIngestionReady d number token now).2 = next at hget
  have hready : ∀ n, next.IsReady n ↔
      (d.modify number fun entry => { entry with ingestion := .ready }).IsReady n := by
    intro n
    unfold Document.IsReady
    rw [hget, Document.get?_modify]
    cases d.get? n with
    | none => simp
    | some e => by_cases hn : n = number <;> simp [hn]
  have hnext : IsNewest next newest := (isNewest_congr hready).mpr hnewest
  have hactive : ∀ n entry, entry.ingestion = .ready →
      ((Entry.serve newest n entry).lifecycle = .active ↔ IsNewest next n) := by
    intro n entry hentry
    by_cases hn : n = newest
    · subst hn
      simp [Entry.serve, hentry, hnext]
    · have hnot : ¬ IsNewest next n := fun hn' => hn (hn'.eq hnext)
      simp [Entry.serve, hentry, hn, hnot]
  constructor
  · intro n after hafter
    rw [hget] at hafter
    obtain ⟨before, hbefore, rfl⟩ := Option.map_eq_some_iff.mp hafter
    split_ifs
    · simp [Job.succeed]
    · simpa using h.succeeded_iff n before hbefore
  · intro n after hafter hafterReady
    rw [hget] at hafter
    obtain ⟨before, hbefore, rfl⟩ := Option.map_eq_some_iff.mp hafter
    split_ifs at hafterReady ⊢
    · exact hactive n { before with ingestion := .ready } rfl
    · exact hactive n before (by simpa using hafterReady)

/-- **Every operation keeps the rows consistent.** -/
theorem consistent_apply (h : Consistent d) (operation : Operation) :
    Consistent (operation.apply d) := by
  by_cases hfinalize : ∃ number token now, operation = .present number token now .finalize
  · obtain ⟨number, token, now, rfl⟩ := hfinalize
    exact consistent_finalize h
  · push Not at hfinalize
    exact consistent_of_reworked h (reworked_apply hfinalize)

/-- A job that has succeeded is left as it is. -/
theorem kept_apply (d : Document) (operation : Operation) :
    Rowwise (fun _ before after => before.job.status = .succeeded →
      after.job = before.job ∧ after.ingestion = before.ingestion) d (operation.apply d) := by
  by_cases hfinalize : ∃ number token now, operation = .present number token now .finalize
  · obtain ⟨number, token, now, rfl⟩ := hfinalize
    rcases finalize_cases d number token now with hsame | ⟨entry, hentry, hvalid, hstage⟩
    · simp only [Operation.apply, LeaseOperation.apply, hsame]
      exact rowwise_refl fun _ _ _ => ⟨rfl, rfl⟩
    obtain ⟨newest, -, hget⟩ := finalize_get? hentry hvalid hstage
    intro n
    simp only [Operation.apply, LeaseOperation.apply, hget]
    cases hn : d.get? n with
    | none => exact .none
    | some before =>
      refine .some fun hsucceeded => ?_
      split_ifs with hnumber
      · subst hnumber
        obtain rfl : before = entry := Option.some.inj (hn.symm.trans hentry)
        rw [processing_of_leaseIsValid hvalid] at hsucceeded
        cases hsucceeded
      · exact ⟨Entry.serve_job newest n before, Entry.serve_ingestion newest n before⟩
  · push Not at hfinalize
    refine (reworked_apply hfinalize).imp fun n before after hmoved hsucceeded => ?_
    rcases hmoved with rfl | ⟨hopen | hopen, -⟩
    · exact ⟨rfl, rfl⟩
    · rw [hopen] at hsucceeded
      cases hsucceeded
    · rw [hopen] at hsucceeded
      cases hsucceeded

/-- A job has the token it had, none, or the one that is drawn. -/
theorem token_apply (d : Document) (operation : Operation) :
    Rowwise (fun _ before after => after.job.leaseToken = before.job.leaseToken ∨
      after.job.leaseToken = none ∨ after.job.leaseToken = operation.draws)
      d (operation.apply d) := by
  cases operation with
  | claim number token now leaseSeconds =>
    exact rowwise_updateWhere (fun _ _ => .inl rfl) fun _ _ => .inr (.inr rfl)
  | reconcile settings batch now =>
    refine rowwise_mapRows fun n entry _ => ?_
    split_ifs
    · unfold reconcileEntry
      split_ifs
      · exact .inr (.inl rfl)
      · exact .inr (.inl rfl)
    · exact .inl rfl
  | present number token now operation =>
    by_cases hfinalize : operation = .finalize
    · subst hfinalize
      rcases finalize_cases d number token now with hsame | ⟨entry, hentry, hvalid, hstage⟩
      · simp only [Operation.apply, LeaseOperation.apply, hsame]
        exact rowwise_refl fun _ _ => .inl rfl
      obtain ⟨newest, -, hget⟩ := finalize_get? hentry hvalid hstage
      intro n
      simp only [Operation.apply, LeaseOperation.apply, hget]
      cases hn : d.get? n with
      | none => exact .none
      | some before =>
        refine .some ?_
        split_ifs
        · exact .inr (.inl rfl)
        · exact .inl (by rw [Entry.serve_job])
    · obtain ⟨p, hp, hget⟩ := exists_updateWhere d number token now hfinalize
      have hrows : Rowwise (fun _ before after => after.job.leaseToken = before.job.leaseToken ∨
          after.job.leaseToken = none ∨ after.job.leaseToken =
            (Operation.present number token now operation).draws)
          d (updateWhere d number p (operation.effect now)).2 := by
        refine rowwise_updateWhere (fun _ _ => .inl rfl) fun entry hentry => ?_
        cases operation <;> simp [LeaseOperation.effect, Entry.fail]
      exact fun n => hget n ▸ hrows n

end Invariant

/-! ## Runs -/

section Runs

variable {s t : State} {event : Event} {es : List Event}

/-- The steps of the system. -/
theorem step_cases (h : leases.step s event = some t) :
    (t.document = s.document ∧ t.drawn = s.drawn) ∨
      ∃ operation : Operation, event = .perform operation ∧ operation.now ≤ s.clock ∧
        t.document = operation.apply s.document ∧ t.drawn = operation.draws.toList ++ s.drawn ∧
        ∀ drawn ∈ operation.draws, drawn ∉ s.drawn := by
  cases event with
  | tick seconds =>
    cases h
    exact .inl ⟨rfl, rfl⟩
  | perform operation =>
    simp only [leases] at h
    split_ifs at h with henabled
    cases h
    exact .inr ⟨operation, rfl, henabled.1, rfl, rfl, henabled.2⟩

/-- **A token that was drawn and that the job does not carry.** -/
def Superseded (s : State) (number : ℕ) (token : Text) : Prop :=
  token ∈ s.drawn ∧ ∀ entry, s.document.get? number = some entry →
    entry.job.leaseToken ≠ some token

theorem Superseded.step (h : Superseded s number token) (hstep : leases.step s event = some t) :
    Superseded t number token := by
  rcases step_cases hstep with ⟨hdocument, hdrawn⟩ | ⟨operation, -, -, hdocument, hdrawn, hfresh⟩
  · unfold Superseded
    rw [hdocument, hdrawn]
    exact h
  · refine ⟨hdrawn ▸ List.mem_append_right _ h.1, fun after hafter => ?_⟩
    rw [hdocument] at hafter
    obtain ⟨before, hbefore, htoken⟩ := (token_apply s.document operation).exists_before hafter
    rcases htoken with htoken | htoken | htoken
    · rw [htoken]
      exact h.2 before hbefore
    · rw [htoken]
      exact nofun
    · intro hsame
      exact hfresh token (htoken.symm.trans hsame) h.1

theorem Superseded.run (h : Superseded s number token) (hrun : leases.run s es = some t) :
    Superseded t number token :=
  System.run_invariant (I := (Superseded · number token)) (fun _ _ _ h hstep => h.step hstep) h hrun

theorem consistent_step (h : Consistent s.document) (hstep : leases.step s event = some t) :
    Consistent t.document := by
  rcases step_cases hstep with ⟨hdocument, -⟩ | ⟨operation, -, -, hdocument, -⟩
  · rw [hdocument]
    exact h
  · rw [hdocument]
    exact consistent_apply h operation

theorem consistent_init (h : leases.init s) : Consistent s.document := by
  constructor
  · intro n entry hentry
    obtain ⟨createdAt, rfl⟩ := h.2 n entry hentry
    exact iff_of_false nofun nofun
  · intro n entry hentry hready
    obtain ⟨createdAt, rfl⟩ := h.2 n entry hentry
    cases hready

theorem consistent_of_reachable (h : leases.Reachable s) : Consistent s.document :=
  h.invariant (fun _ => consistent_init) fun _ _ _ h hstep => consistent_step h hstep

/-- The job of a revision has succeeded, and is this one. -/
def HasSucceeded (job : Job) (n : ℕ) (s : State) : Prop :=
  job.status = .succeeded ∧ ∃ entry, s.document.get? n = some entry ∧ entry.job = job

theorem HasSucceeded.step {job : Job} (h : HasSucceeded job n s)
    (hstep : leases.step s event = some t) : HasSucceeded job n t := by
  rcases step_cases hstep with ⟨hdocument, -⟩ | ⟨operation, -, -, hdocument, -⟩
  · unfold HasSucceeded
    rw [hdocument]
    exact h
  · obtain ⟨hsucceeded, before, hbefore, rfl⟩ := h
    obtain ⟨after, hafter, hkept⟩ := (kept_apply s.document operation).exists_after hbefore
    exact ⟨hsucceeded, after, hdocument ▸ hafter, (hkept hsucceeded).1⟩

/-- A revision that is served. -/
def Document.IsActive (d : Document) (n : ℕ) : Prop :=
  ∃ entry, d.get? n = some entry ∧ entry.lifecycle = .active

/-- The one revision that is ready and active is the newest. -/
theorem Consistent.exists_served {d : Document} (h : Consistent d) (hready : d.IsReady n) :
    ∃ newest, IsNewest d newest ∧ d.IsActive newest ∧
      ∀ m, d.IsReady m → d.IsActive m → m = newest := by
  obtain ⟨entry, hentry, hentryReady⟩ := hready
  obtain ⟨newest, hnewest, -⟩ := exists_serveNewest hentry hentryReady
  obtain ⟨served, hserved, hservedReady⟩ := hnewest.1
  refine ⟨newest, hnewest, ⟨served, hserved, ?_⟩, ?_⟩
  · exact (h.served newest served hserved hservedReady).mpr hnewest
  · rintro m ⟨e, he, heReady⟩ ⟨e', he', hactive⟩
    obtain rfl : e = e' := Option.some.inj (he.symm.trans he')
    exact ((h.served m e he heReady).mp hactive).eq hnewest

/-- **Leases fence, and the newest ready revision is served.** -/
theorem leases_fence_and_newest_is_served (hs : leases.Reachable s)
    (hrun : leases.run s es = some t) :
    (∀ number token, Superseded s number token → ∀ now (operation : LeaseOperation),
      operation.apply t.document number token now = (false, t.document)) ∧
    (∀ number token now, (∀ entry, t.document.get? number = some entry →
        entry.job.leaseExpiresAt.all (· ≤ now) = true) → ∀ operation : LeaseOperation,
      operation.apply t.document number token now = (false, t.document)) ∧
    (∀ n entry, t.document.get? n = some entry →
      (entry.job.status = .succeeded ↔ entry.ingestion = .ready)) ∧
    (∀ n entry, s.document.get? n = some entry → entry.job.status = .succeeded →
      ∃ after, t.document.get? n = some after ∧ after.job = entry.job ∧
        after.ingestion = .ready) ∧
    ((∃ n, t.document.IsReady n) →
      ∃ newest, IsNewest t.document newest ∧ t.document.IsActive newest ∧
        ∀ m, t.document.IsReady m → t.document.IsActive m → m = newest) := by
  have hconsistent := consistent_of_reachable (hs.run hrun)
  refine ⟨fun number token h now operation => ?_, fun number token now h operation => ?_,
    hconsistent.succeeded_iff, fun n entry hentry hsucceeded => ?_, ?_⟩
  · refine apply_of_invalid operation fun entry hentry => Bool.eq_false_iff.mpr fun hvalid => ?_
    simp only [leaseIsValid, Bool.and_eq_true, decide_eq_true_eq] at hvalid
    exact (h.run hrun).2 entry hentry hvalid.1.2
  · refine apply_of_invalid operation fun entry hentry => Bool.eq_false_iff.mpr fun hvalid => ?_
    have hexpired := h entry hentry
    simp only [leaseIsValid, Bool.and_eq_true] at hvalid
    revert hexpired
    obtain ⟨-, hvalid⟩ := hvalid
    cases hexpires : entry.job.leaseExpiresAt with
    | none =>
      rw [hexpires] at hvalid
      cases hvalid
    | some expires =>
      rw [hexpires] at hvalid
      simp only [Option.any_some, Option.all_some, decide_eq_true_eq] at hvalid ⊢
      omega
  · have hkept : HasSucceeded entry.job n t :=
      System.run_invariant (fun _ _ _ h hstep => h.step hstep) ⟨hsucceeded, entry, hentry, rfl⟩ hrun
    obtain ⟨-, after, hafter, hjob⟩ := hkept
    exact ⟨after, hafter, hjob, (hconsistent.succeeded_iff n after hafter).mp (hjob ▸ hsucceeded)⟩
  · rintro ⟨n, hready⟩
    exact hconsistent.exists_served hready

/-- A document with two new revisions. -/
def uploaded : State where
  document :=
    { rows := [(1, { job := { createdAt := 0, updatedAt := 0 } }),
        (2, { job := { createdAt := 5, updatedAt := 5 } })]
      nodup := by decide }
  clock := 10

theorem init_uploaded : leases.init uploaded := by
  refine ⟨rfl, fun n entry hentry => ?_⟩
  rcases List.mem_cons.mp (Document.mem_rows_iff.mpr hentry) with h | h
  · cases h
    exact ⟨0, rfl⟩
  · cases List.mem_singleton.mp h
    exact ⟨5, rfl⟩

/-- An operation on a revision under a lease. -/
def presented (number : ℕ) (token : String) (now : ℤ) (operation : LeaseOperation) : Event :=
  .perform (.present number (Text.ofString token) now operation)

/-- A revision is taken through its stages. -/
def ingest (number : ℕ) (token : String) (now : ℤ) : List Event :=
  [.perform (.claim number (Text.ofString token) now 60),
    presented number token now (.advance .parsing .chunking),
    presented number token now (.persist []),
    presented number token now (.advance .embedding .indexing),
    presented number token now .finalize]

theorem leases_fence_and_newest_is_served_uploaded :
    ∃ t, leases.run uploaded (ingest 2 "b" 7 ++ ingest 1 "a" 8) = some t ∧ t.document.IsReady 1 ∧
      ∃ newest, IsNewest t.document newest ∧ t.document.IsActive newest ∧
        ∀ m, t.document.IsReady m → t.document.IsActive m → m = newest := by
  have hinit : leases.Reachable uploaded := System.reachable_init init_uploaded
  have hready : (leases.run uploaded (ingest 2 "b" 7 ++ ingest 1 "a" 8)).bind
      (fun t => (t.document.get? 1).map Entry.ingestion) = some .ready := by decide +kernel
  obtain ⟨t, hrun, hentry⟩ := Option.bind_eq_some_iff.mp hready
  have hentry := Option.map_eq_some_iff.mp hentry
  exact ⟨t, hrun, hentry, (leases_fence_and_newest_is_served hinit hrun).2.2.2.2 ⟨1, hentry⟩⟩

end Runs

end AgentHub.Knowledge
