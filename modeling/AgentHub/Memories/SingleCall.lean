import AgentHub.Memories.Extraction

/-!
# One call of the model for each run

The job starts to run once, and the delivery that made it run, its claimant, is the only one that
can find it without a payload: everyone else who claims it then either settles it as unknown or
finds the payload. So only the claimant calls the model, and only its answer can be stored.

## Main definitions

* `Delivery.Follows`: what a delivery may rely on, given the claimant
* `ConsistentWith`: the invariant of the system with its claimant

## Main results

* `consistent_step`: every step keeps the invariant, for some claimant
* `extraction_sends_once`: the guarantees over whole runs
-/

namespace AgentHub.Memories

open Lib

variable {C : Type} {claimant : Option ℕ} {s t : State C} {i : ℕ}

/-! ## The invariant -/

/-- What delivery `i` may rely on at its next step: whether the payload is stored, whether it is
the claimant, and which calls have been made. -/
def Delivery.Follows (d : Delivery C) (claimant : Option ℕ) (payload : Option (List C))
    (calls : List ℕ) (i : ℕ) : Prop :=
  match d.point with
  | .absent | .acquiring | .claiming => d.phase = .preparing
  | .preparing | .reading =>
    d.phase = .preparing ∧ (payload.isSome ∨ claimant = some i ∧ calls = [])
  | .authorizing => d.phase = .preparing ∧ claimant = some i ∧ calls = []
  | .waiting => calls = [i] ∧ payload = none
  | .received _ => d.phase = .responseReceived ∧ calls = [i] ∧ payload = none
  | .persisting _ => d.phase = .candidatesReady ∧ calls = [i] ∧ payload = none
  | .recording candidates => d.phase ≠ .modelCallPossible ∧ payload = some candidates
  | .finishing status code =>
    d.phase ≠ .modelCallPossible ∧ status ≠ .pending ∧ code ≠ some .extractionOutcomeUnknown
  | .returning => d.phase ≠ .modelCallPossible
  | .failing => d.phase = .modelCallPossible → calls = [i] ∧ payload = none
  | .settling status code =>
    status ≠ .pending ∧ (code = .extractionOutcomeUnknown → calls = [i] ∧ payload = none)
  | .leaving | .done => True

/-- The invariant, with the delivery that has made the job run. -/
structure ConsistentWith (claimant : Option ℕ) (s : State C) : Prop where
  follows : ∀ i, (s.deliveries i).Follows claimant s.payload s.calls i
  called : s.calls = [] ∨ ∃ k, claimant = some k ∧ s.calls = [k]
  claimed : claimant ≠ none → ∃ job, s.job = some job ∧ job.status ≠ .pending
  answered : s.calls = [] → s.payload = none
  recordedFrom : ∀ cs ∈ s.recorded, s.payload = some cs
  unknown : ∀ job, s.job = some job → job.Unknown → job.candidatePayload = none

theorem consistentWith_initial : ConsistentWith (C := C) none .initial where
  follows _ := rfl
  called := .inl rfl
  claimed h := absurd rfl h
  answered _ := rfl
  recordedFrom := nofun
  unknown := nofun

variable {claimant' : Option ℕ} {payload payload' : Option (List C)} {calls calls' : List ℕ}
  {job : MemoryExtractionJob C}

/-- What a delivery relies on is not touched by the others: they claim a job nobody has claimed,
store an answer to their own call, or make the first call as the claimant. -/
theorem Delivery.Follows.frame {d : Delivery C} {j : ℕ} (h : d.Follows claimant payload calls j)
    (hij : j ≠ i) (hclaimant : claimant' = claimant ∨ claimant = none)
    (hpayload : payload' = payload ∨ payload = none ∧ calls = [i])
    (hcalls : calls' = calls ∨ claimant = some i ∧ calls = []) :
    d.Follows claimant' payload' calls' j := by
  have called (hc : calls = [j] ∧ payload = none) : calls' = [j] ∧ payload' = none := by
    obtain ⟨rfl, rfl⟩ := hc
    grind
  have claimed (hc : claimant = some j ∧ calls = []) : claimant' = some j ∧ calls' = [] := by
    obtain ⟨rfl, rfl⟩ := hc
    grind
  have stored (hp : payload.isSome) : payload' = payload := by grind
  obtain ⟨point, phase⟩ := d
  cases point with
  | preparing | reading =>
    exact ⟨h.1, h.2.imp (fun hp => (stored hp).symm ▸ hp) claimed⟩
  | authorizing => exact ⟨h.1, claimed h.2⟩
  | waiting => exact called h
  | received _ | persisting _ => exact ⟨h.1, called h.2⟩
  | recording candidates => exact ⟨h.1, (stored (by rw [h.2]; rfl)).trans h.2⟩
  | failing => exact fun hp => called (h hp)
  | settling status code => exact ⟨h.1, fun hc => called (h.2 hc)⟩
  | _ => exact h

/-- Delivery `i` has moved to `d`; the others still have what they rely on. -/
theorem follows_update {deliveries : ℕ → Delivery C} {d : Delivery C}
    (h : ∀ j, (deliveries j).Follows claimant payload calls j)
    (hd : d.Follows claimant' payload' calls' i)
    (hclaimant : claimant' = claimant ∨ claimant = none)
    (hpayload : payload' = payload ∨ payload = none ∧ calls = [i])
    (hcalls : calls' = calls ∨ claimant = some i ∧ calls = []) (j : ℕ) :
    (Function.update deliveries i d j).Follows claimant' payload' calls' j := by
  by_cases hij : j = i
  · subst hij
    rwa [Function.update_self]
  · rw [Function.update_of_ne hij]
    exact (h j).frame hij hclaimant hpayload hcalls

namespace ConsistentWith

/-! ### Steps of one delivery -/

variable (h : ConsistentWith claimant s)

include h

theorem enter {phase : ExtractionPhase} {point : Point C}
    (hd : Delivery.Follows ⟨point, phase⟩ claimant s.payload s.calls i) :
    ConsistentWith claimant (s.enter i phase point) :=
  { h with follows := follows_update h.follows hd (.inl rfl) (.inl rfl) (.inl rfl) }

theorem goOn {point : Point C}
    (hd : Delivery.Follows ⟨point, (s.deliveries i).phase⟩ claimant s.payload s.calls i) :
    ConsistentWith claimant (s.goOn i point) := h.enter hd

theorem release : ConsistentWith claimant (s.release i) :=
  { h with }

theorem stop : ConsistentWith claimant (s.stop i) := by
  have hdone : ConsistentWith claimant (s.goOn i .done) := h.goOn trivial
  exact hdone.release

variable {row : Option (MemoryExtractionJob C)} {job : MemoryExtractionJob C} {candidates : List C}

/-- A transaction that leaves the payload alone. -/
theorem setJob (hpayload : row.bind (·.candidatePayload) = s.payload)
    (hclaimed : ∀ job, s.job = some job → job.status ≠ .pending →
      ∃ job', row = some job' ∧ job'.status ≠ .pending)
    (hunknown : ∀ job, row = some job → job.Unknown → job.candidatePayload = none) :
    ConsistentWith claimant { s with job := row } where
  follows j := by simpa only [State.payload, hpayload] using h.follows j
  called := h.called
  claimed hc := by
    obtain ⟨job, hjob, hstatus⟩ := h.claimed hc
    exact hclaimed job hjob hstatus
  answered hc := hpayload.trans (h.answered hc)
  recordedFrom cs hcs := hpayload.trans (h.recordedFrom cs hcs)
  unknown := hunknown

theorem unchanged (hrow : s.job = row) :
    ConsistentWith claimant { s with job := row } := hrow ▸ h

theorem dispatch : ConsistentWith claimant { s with job := s.job.or (some .dispatched) } := by
  refine h.setJob ?_ (fun job hjob hstatus => ⟨job, by rw [hjob]; rfl, hstatus⟩) ?_
  · simp only [State.payload]
    cases s.job <;> rfl
  · intro job hjob hunknown
    cases hrow : s.job with
    | none =>
      rw [hrow] at hjob
      cases hjob
      rfl
    | some job' =>
      rw [hrow] at hjob
      cases hjob
      exact h.unknown job hrow hunknown

theorem reconcile : ConsistentWith claimant { s with job := reconcileJob s.job } := by
  refine h.setJob (reconcileJob_payload s.job) ?_ ?_
  · rintro ⟨status, payload, code⟩ hjob hstatus
    rw [hjob]
    cases status with
    | pending => exact absurd rfl hstatus
    | running => cases payload <;> exact ⟨_, rfl, by simp [MemoryExtractionJob.unknown]⟩
    | completed | skipped | failed => exact ⟨_, rfl, by simp⟩
  · rintro job hjob hunknown
    cases hrow : s.job with
    | none => simp [hrow, reconcileJob] at hjob
    | some job' =>
      obtain ⟨status, payload, code⟩ := job'
      rw [hrow] at hjob
      cases status with
      | pending => cases hjob; simp [MemoryExtractionJob.Unknown] at hunknown
      | running =>
        cases payload <;> cases hjob
        · rfl
        · simp [MemoryExtractionJob.Unknown] at hunknown
      | completed | skipped | failed => cases hjob; exact h.unknown _ hrow hunknown

theorem finish {status : JobStatus} {code : Option FailureCode} (hstatus : status ≠ .pending)
    (hcode : code = some .extractionOutcomeUnknown → s.payload = none) :
    ConsistentWith claimant { s with job := finishExtraction status code s.job } := by
  refine h.setJob (finishExtraction_payload status code s.job) ?_ ?_
  · intro job hjob hpending
    refine ⟨_, by rw [hjob, finishExtraction, Option.map_some], ?_⟩
    split <;> assumption
  · intro job hjob hunknown
    obtain ⟨job', hrow, rfl⟩ := Option.map_eq_some_iff.mp hjob
    split at hunknown
    next hrunning =>
      have hpayload := hcode (by simpa [hrunning] using hunknown.2)
      simpa [hrunning, State.payload, hrow] using hpayload
    next hrunning =>
      simpa [hrunning] using h.unknown job' hrow hunknown

/-- The job starts to run: nobody has claimed it, so nobody has called the model. -/
theorem start (hjob : ∀ job, s.job = some job → job.status = .pending)
    (hpayload : job.candidatePayload = s.payload) (hstatus : job.status = .running)
    (hphase : (s.deliveries i).phase = .preparing) :
    ConsistentWith (some i) ({ s with job := some job }.goOn i .preparing) := by
  have hclaimant : claimant = none := by
    by_contra hne
    obtain ⟨job', hrow, hpending⟩ := h.claimed hne
    exact hpending (hjob job' hrow)
  subst hclaimant
  have hcalls : s.calls = [] := by
    rcases h.called with hc | ⟨k, hk, _⟩
    · exact hc
    · cases hk
  refine ⟨?_, .inl hcalls, fun _ => ⟨job, rfl, by simp [hstatus]⟩, fun hc => ?_, ?_, ?_⟩
  · exact follows_update h.follows ⟨hphase, .inr ⟨rfl, hcalls⟩⟩ (.inr rfl) (.inl hpayload)
      (.inl rfl)
  · exact hpayload.trans (h.answered hc)
  · exact fun cs hcs => hpayload.trans (h.recordedFrom cs hcs)
  · rintro job' hrow hunknown
    cases hrow
    simp [MemoryExtractionJob.Unknown, hstatus] at hunknown

/-- The claimant calls the model. -/
theorem call (hclaimant : claimant = some i) (hcalls : s.calls = []) :
    ConsistentWith claimant
      ({ s with calls := s.calls ++ [i] }.enter i .modelCallPossible .waiting) := by
  have hcall : s.calls ++ [i] = [i] := by rw [hcalls, List.nil_append]
  refine ⟨?_, .inr ⟨i, hclaimant, hcall⟩, h.claimed, fun hc => ?_, h.recordedFrom, h.unknown⟩
  · exact follows_update h.follows ⟨hcall, h.answered hcalls⟩ (.inl rfl) (.inl rfl)
      (.inr ⟨hclaimant, hcalls⟩)
  · exact absurd (hcall.symm.trans hc) nofun

/-- The answer to the call is stored. -/
theorem store (hstatus : job.status = .running)
    (hphase : (s.deliveries i).phase = .candidatesReady) (hcalls : s.calls = [i])
    (hpayload : s.payload = none) :
    ConsistentWith claimant
      ({ s with job := some { job with candidatePayload := some candidates } }.goOn i
        (.recording candidates)) := by
  refine ⟨?_, h.called, fun _ => ⟨_, rfl, by simp [hstatus]⟩, fun hc => ?_, fun cs hcs => ?_, ?_⟩
  · exact follows_update h.follows ⟨by simp [hphase], rfl⟩ (.inl rfl) (.inr ⟨hpayload, hcalls⟩)
      (.inl rfl)
  · exact absurd (hcalls.symm.trans hc) nofun
  · exact absurd (hpayload.symm.trans (h.recordedFrom cs hcs)) nofun
  · rintro job' hrow hunknown
    cases hrow
    simp [MemoryExtractionJob.Unknown, hstatus] at hunknown

/-! ### Steps that depend on the row -/

theorem claim (hphase : (s.deliveries i).phase = .preparing) :
    ∃ claimant', ConsistentWith claimant' (s.claim i) := by
  have idle : (s.deliveries i).phase ≠ .modelCallPossible := by simp [hphase]
  unfold State.claim
  cases hrow : s.job with
  | none =>
    have hpayload : s.payload = none := by rw [State.payload, hrow]; rfl
    exact ⟨some i, h.start (by simp [hrow]) hpayload.symm rfl hphase⟩
  | some job =>
    obtain ⟨status, payload, code⟩ := job
    have hpayload : s.payload = payload := by rw [State.payload, hrow]; rfl
    cases status with
    | pending =>
      refine ⟨some i, h.start ?_ hpayload.symm rfl hphase⟩
      intro job hjob
      rw [hrow] at hjob
      cases hjob
      rfl
    | running =>
      cases payload with
      | none =>
        have hunknown : ConsistentWith claimant
            { s with job := some (MemoryExtractionJob.unknown ⟨.running, none, code⟩) } :=
          h.setJob hpayload.symm (fun _ _ _ => ⟨_, rfl, by simp [MemoryExtractionJob.unknown]⟩)
            fun _ hjob _ => by cases hjob; rfl
        exact ⟨claimant, hunknown.goOn idle⟩
      | some candidates =>
        exact ⟨claimant, (h.unchanged hrow).goOn ⟨hphase, .inl rfl⟩⟩
    | completed | skipped | failed => exact ⟨claimant, (h.unchanged hrow).goOn idle⟩

theorem read (hphase : (s.deliveries i).phase = .preparing)
    (hstored : s.payload.isSome ∨ claimant = some i ∧ s.calls = []) :
    ConsistentWith claimant (s.read i) := by
  have idle : (s.deliveries i).phase ≠ .modelCallPossible := by simp [hphase]
  unfold State.read
  split
  next => exact h.goOn idle
  next job hrow =>
    have hpayload : s.payload = job.candidatePayload := by rw [State.payload, hrow]; rfl
    split
    next =>
      split
      next hnone =>
        rcases hstored with hsome | hclaimant
        · rw [hpayload, hnone] at hsome
          cases hsome
        · exact h.goOn ⟨hphase, hclaimant⟩
      next candidates hsome => exact h.goOn ⟨idle, hpayload.trans hsome⟩
    next => exact h.goOn idle

theorem persist (hphase : (s.deliveries i).phase = .candidatesReady) (hcalls : s.calls = [i])
    (hpayload : s.payload = none) : ConsistentWith claimant (s.persist i candidates) := by
  have idle : (s.deliveries i).phase ≠ .modelCallPossible := by simp [hphase]
  unfold State.persist
  cases hrow : s.job with
  | none => exact (h.unchanged hrow).goOn idle
  | some job =>
    by_cases hrunning : job.status = .running ∧ job.candidatePayload.isNone
    · simp only [persistCandidates, if_pos hrunning]
      exact h.store hrunning.1 hphase hcalls hpayload
    · simp only [persistCandidates, if_neg hrunning]
      exact (h.unchanged hrow).goOn idle

theorem record (hphase : (s.deliveries i).phase ≠ .modelCallPossible)
    (hpayload : s.payload = some candidates) : ConsistentWith claimant (s.record i candidates) := by
  unfold State.record
  split
  · exact h.goOn ⟨hphase, nofun, nofun⟩
  · have hrecorded : ConsistentWith claimant { s with recorded := s.recorded ++ [candidates] } :=
      { h with
        recordedFrom := fun cs hcs => by
          rcases List.mem_append.mp hcs with hold | hnew
          · exact h.recordedFrom cs hold
          · rw [List.mem_singleton.mp hnew]
            exact hpayload }
    exact hrecorded.goOn ⟨hphase, nofun, nofun⟩

/-- What the handler writes as unknown is the call of its own delivery. -/
theorem handle
    (hcalled : (s.deliveries i).phase = .modelCallPossible → s.calls = [i] ∧ s.payload = none) :
    ConsistentWith claimant
      (s.goOn i (.settling (failureBookkeeping (s.deliveries i).phase s.job).1
        (failureBookkeeping (s.deliveries i).phase s.job).2)) := by
  refine h.goOn ?_
  unfold failureBookkeeping
  split
  · exact ⟨nofun, nofun⟩
  · refine ⟨nofun, fun hcode => hcalled ?_⟩
    revert hcode
    cases (s.deliveries i).phase <;> simp

end ConsistentWith

/-! ## Steps and runs -/

theorem consistent_proceed (h : ConsistentWith claimant s) (hstep : s.proceed i = some t) :
    ∃ claimant', ConsistentWith claimant' t := by
  have hi := h.follows i
  unfold State.proceed at hstep
  cases hd : s.deliveries i with
  | mk point phase =>
    have hphase : (s.deliveries i).phase = phase := by rw [hd]
    rw [hd] at hi hstep
    cases point with
    | absent | waiting | done => cases hstep
    | acquiring =>
      simp only at hstep
      split at hstep <;> cases hstep
      · have howned : ConsistentWith claimant { s with owner := some i } := { h with }
        exact ⟨_, howned.goOn (hphase.trans hi)⟩
      · exact ⟨_, h.stop⟩
    | claiming => cases hstep; exact h.claim (hphase.trans hi)
    | preparing => cases hstep; exact ⟨_, h.goOn ⟨hphase.trans hi.1, hi.2⟩⟩
    | reading => cases hstep; exact ⟨_, h.read (hphase.trans hi.1) hi.2⟩
    | authorizing => cases hstep; exact ⟨_, h.call hi.2.1 hi.2.2⟩
    | received candidates => cases hstep; exact ⟨_, h.enter ⟨rfl, hi.2⟩⟩
    | persisting candidates =>
      cases hstep
      exact ⟨_, h.persist (hphase.trans hi.1) hi.2.1 hi.2.2⟩
    | recording candidates => cases hstep; exact ⟨_, h.record (hphase.trans_ne hi.1) hi.2⟩
    | finishing status code =>
      cases hstep
      exact ⟨_, (h.finish hi.2.1 fun hc => absurd hc hi.2.2).goOn (hphase.trans_ne hi.1)⟩
    | returning | leaving => cases hstep; exact ⟨_, h.stop⟩
    | failing =>
      cases hstep
      have := h.handle (i := i) (by rw [hphase]; exact hi)
      rw [hphase] at this
      exact ⟨_, this⟩
    | settling status code =>
      cases hstep
      exact ⟨_, (h.finish hi.1 fun hc => (hi.2 (Option.some.inj hc)).2).goOn trivial⟩

theorem consistent_skip {forbidden : Bool} (h : ConsistentWith claimant s)
    (hstep : s.skip i forbidden = some t) : ConsistentWith claimant t := by
  have hi := h.follows i
  have hcode : (if forbidden then some FailureCode.agentRunForbidden else none) ≠
      some .extractionOutcomeUnknown := by cases forbidden <;> simp
  unfold State.skip at hstep
  cases hd : s.deliveries i with
  | mk point phase =>
    have hphase : (s.deliveries i).phase = phase := by rw [hd]
    rw [hd] at hi hstep
    cases point with
    | preparing =>
      cases hstep
      exact h.goOn ⟨(hphase.trans hi.1).trans_ne nofun, nofun, hcode⟩
    | authorizing =>
      simp only at hstep
      split at hstep <;> cases hstep
      next => exact h.goOn ⟨(hphase.trans hi.1).trans_ne nofun, nofun, nofun⟩
    | recording candidates =>
      simp only at hstep
      split at hstep <;> cases hstep
      next => exact h.goOn ⟨hphase.trans_ne hi.1, nofun, hcode⟩
    | _ => cases hstep

theorem consistent_raise (h : ConsistentWith claimant s) (hstep : s.raise i = some t) :
    ConsistentWith claimant t := by
  have hi := h.follows i
  unfold State.raise at hstep
  cases hd : s.deliveries i with
  | mk point phase =>
    have hphase : (s.deliveries i).phase = phase := by rw [hd]
    rw [hd] at hi hstep
    cases point with
    | absent | done => cases hstep
    | acquiring | leaving => cases hstep; exact h.stop
    | failing | settling _ _ => cases hstep; exact h.goOn trivial
    | waiting => cases hstep; exact h.goOn fun _ => hi
    | _ =>
      -- at the other points the delivery is not in the phase of the call
      cases hstep
      exact h.goOn fun hp => by simp_all [Delivery.Follows]

/-- **Every step keeps the invariant**, for the same claimant or, when the job starts to run, for
the delivery that claims it. -/
theorem consistent_step {e : Event C} (h : ∃ claimant, ConsistentWith claimant s)
    (hstep : s.step e = some t) : ∃ claimant, ConsistentWith claimant t := by
  obtain ⟨claimant, h⟩ := h
  cases e with
  | dispatch => cases hstep; exact ⟨_, h.dispatch⟩
  | reconcile =>
    simp only [State.step] at hstep
    split at hstep <;> cases hstep
    · exact ⟨_, h.reconcile⟩
    · exact ⟨_, h⟩
  | deliver i =>
    have hi := h.follows i
    cases hd : s.deliveries i with
    | mk point phase =>
      have hphase : (s.deliveries i).phase = phase := by rw [hd]
      rw [State.step, hd] at hstep
      rw [hd] at hi
      cases point with
      | absent => cases hstep; exact ⟨_, h.goOn (hphase.trans hi)⟩
      | _ => cases hstep
  | proceed i => exact consistent_proceed h hstep
  | conflict i =>
    have hi := h.follows i
    simp only [State.step] at hstep
    split at hstep <;> cases hstep
    next hpoint _ =>
      rw [Delivery.Follows, hpoint] at hi
      exact ⟨_, h.goOn (Eq.trans_ne hi (by simp))⟩
  | skip i forbidden => exact ⟨_, consistent_skip h hstep⟩
  | respond i candidates =>
    have hi := h.follows i
    simp only [State.step] at hstep
    split at hstep <;> cases hstep
    next hpoint =>
      rw [Delivery.Follows, hpoint] at hi
      exact ⟨_, h.enter ⟨rfl, hi⟩⟩
  | raise i => exact ⟨_, consistent_raise h hstep⟩
  | loseOwnership i => cases hstep; exact ⟨_, h.release⟩
  | crash i => cases hstep; exact ⟨_, h.stop⟩

theorem consistent_run {es : List (Event C)} (hs : extraction.run .initial es = some s) :
    ∃ claimant, ConsistentWith claimant s :=
  System.run_invariant (I := fun s => ∃ claimant, ConsistentWith claimant s)
    (fun _ _ _ h hstep => consistent_step h hstep) ⟨none, consistentWith_initial⟩ hs

theorem kept_run {es : List (Event C)} (hr : extraction.run s es = some t) : Kept s.job t.job :=
  System.run_relation (I := fun _ => True) (R := fun s t : State C => Kept s.job t.job)
    (fun s => .refl s.job) (fun _ _ _ h h' => h.trans h')
    (fun _ _ _ _ hstep => ⟨trivial, kept_step hstep⟩) trivial hr

theorem ConsistentWith.calls_length_le (h : ConsistentWith claimant s) : s.calls.length ≤ 1 := by
  rcases h.called with hc | ⟨k, -, hc⟩ <;> simp [hc]

/-- A job that was declared unknown has no payload, so nothing has been recorded. -/
theorem ConsistentWith.recorded_eq_nil (h : ConsistentWith claimant s) (hjob : s.job = some job)
    (hunknown : job.Unknown) : s.recorded = [] := by
  have hpayload : s.payload = none := by
    rw [State.payload, hjob]
    exact h.unknown job hjob hunknown
  refine List.eq_nil_iff_forall_not_mem.mpr fun cs hcs => ?_
  exact absurd (hpayload.symm.trans (h.recordedFrom cs hcs)) nofun

theorem MemoryExtractionJob.Unknown.settled (h : job.Unknown) :
    job.Settled := .inr (.inr h.1)

/-- **Memory extraction calls the model at most once for each run.** In every interleaving of
deliveries, reconciler passes, exceptions, lost sessions and crashes: at most one call is made; a
job that is completed, skipped or failed is not written again; what is recorded is the payload
that is stored, which is never replaced; and once the job is declared unknown, whatever arrives
later neither writes the row nor records anything. -/
theorem extraction_sends_once {es fs : List (Event C)} {s t : State C}
    (hs : extraction.run .initial es = some s) (ht : extraction.run s fs = some t) :
    t.calls.length ≤ 1 ∧
      (∀ job, s.job = some job → job.Settled → t.job = some job) ∧
      (∀ cs ∈ t.recorded, t.payload = some cs) ∧
      (∀ cs, s.payload = some cs → t.payload = some cs) ∧
      ∀ job, s.job = some job → job.Unknown → t.job = some job ∧ t.recorded = s.recorded := by
  obtain ⟨claimant, hc⟩ := consistent_run hs
  have hst : extraction.run .initial (es ++ fs) = some t := by
    rw [System.run_append, hs, Option.bind_some, ht]
  obtain ⟨claimant', hc'⟩ := consistent_run hst
  have hkept := kept_run ht
  refine ⟨hc'.calls_length_le, hkept.settled, hc'.recordedFrom, hkept.payload, ?_⟩
  intro job hjob hunknown
  have hjob' := hkept.settled job hjob hunknown.settled
  exact ⟨hjob', (hc'.recorded_eq_nil hjob' hunknown).trans (hc.recorded_eq_nil hjob hunknown).symm⟩

/-- A delivery loses its session while it waits for the answer, and the reconciler settles the
job. -/
def unansweredCall : List (Event ℕ) :=
  [.dispatch, .deliver 0, .proceed 0, .proceed 0, .proceed 0, .proceed 0, .proceed 0,
    .loseOwnership 0, .reconcile]

/-- The answer comes late. -/
def lateAnswer : List (Event ℕ) := [.respond 0 [7], .proceed 0, .proceed 0, .proceed 0]

theorem extraction_sends_once_late_answer :
    ∃ s t : State ℕ,
      extraction.run .initial unansweredCall = some s ∧ extraction.run s lateAnswer = some t ∧
      s.job = some ⟨.failed, none, some .extractionOutcomeUnknown⟩ ∧ t.calls = [0] ∧
      t.job = s.job ∧ t.recorded = s.recorded := by
  have hjob : (extraction.run .initial unansweredCall).map (·.job) =
      some (some ⟨.failed, none, some .extractionOutcomeUnknown⟩) := by decide
  have hcalls : ((extraction.run .initial unansweredCall).bind (extraction.run · lateAnswer)).map
      (·.calls) = some [0] := by decide
  obtain ⟨s, hs, hjob⟩ := Option.map_eq_some_iff.mp hjob
  rw [hs] at hcalls
  obtain ⟨t, ht, hcalls⟩ := Option.map_eq_some_iff.mp hcalls
  obtain ⟨-, -, -, -, hunknown⟩ := extraction_sends_once hs ht
  obtain ⟨hrow, hrecorded⟩ := hunknown _ hjob ⟨rfl, rfl⟩
  exact ⟨s, t, hs, ht, hjob, hcalls, hrow.trans hjob.symm, hrecorded⟩

end AgentHub.Memories
