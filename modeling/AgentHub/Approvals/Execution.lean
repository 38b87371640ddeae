import AgentHub.Approvals.Interleaving

/-!
# Executions of one approved action

Whatever the interleaving, the action runtime is invoked at most once for an approval, and only
while its decision is `APPROVED`: the one successful claim is what every invocation rests on.
A worker that has claimed does not look at the row again before it invokes the runtime, so the
invocation can come after a reconciliation pass has given the execution up.

## Main definitions

* `WorkerStep`: what a step does to the workers and the invocations
* `AtMostOnce`: the invariant that ties invocations to the claim
* `LeavesClaimants`: a step that does not write `UNKNOWN_OUTCOME` under a worker about to invoke

## Main results

* `atMostOnce_step`: every step keeps the invariant
* `action_invoked_at_most_once`: at most one invocation, of an approved action; none after
  `UNKNOWN_OUTCOME` in the runs that leave claimants alone
* `action_invoked_after_unknown`: an invocation after `UNKNOWN_OUTCOME`
-/

namespace AgentHub.Approvals

open Lib AgentHub.Run

/-! ## What a step does to the workers -/

/-- A worker has claimed the execution and not yet invoked the action runtime. -/
def ApprovalState.Claimant (s : ApprovalState) : Prop := ∃ w ∈ s.workers, w.pc = .claimed

instance (s : ApprovalState) : Decidable s.Claimant :=
  inferInstanceAs (Decidable (∃ w ∈ s.workers, _))

/-- A worker claims, a worker that has claimed invokes, or no worker comes to either point. -/
inductive WorkerStep (s t : ApprovalState) : ApprovalEvent → Prop
  | claimed {worker now : ℕ} (hclaim : claimExecution now s.approval = some t.approval)
      (hw : t.workers = (s.setPc worker .claimed).workers) (hi : t.invocations = s.invocations) :
      WorkerStep s t (.claimAction worker now)
  | invoked {worker : ℕ} (hat : s.at worker .claimed) (hrow : t.approval = s.approval)
      (hw : t.workers = (s.setPc worker .invoked).workers)
      (hi : t.invocations = s.invocations ++ [s.approval]) : WorkerStep s t (.invoke worker)
  | other {e : ApprovalEvent} (hi : t.invocations = s.invocations)
      (hw : ∀ w ∈ t.workers, w.pc = .claimed ∨ w.pc = .invoked → w ∈ s.workers)
      (hreport : ∀ worker outcome now, e = .report worker outcome now → s.at worker .invoked) :
      WorkerStep s t e

variable {s t : ApprovalState} {e : ApprovalEvent}

theorem mem_setPc {worker : ℕ} {pc : WorkerPc} {w : Worker} :
    w ∈ (s.setPc worker pc).workers ↔
      ∃ v ∈ s.workers, (if v.id = worker then { v with pc := pc } else v) = w :=
  Table.mem_modify

/-- A worker that stands where nobody was just sent was there before. -/
theorem mem_of_mem_setPc {worker : ℕ} {pc : WorkerPc} {w : Worker}
    (h : w ∈ (s.setPc worker pc).workers) (hpc : w.pc ≠ pc) : w ∈ s.workers ∧ w.id ≠ worker := by
  obtain ⟨v, hv, hvw⟩ := mem_setPc.mp h
  split_ifs at hvw with hid
  · rw [← hvw] at hpc
    exact absurd rfl hpc
  · rw [← hvw]
    exact ⟨hv, hid⟩

theorem approvalStep_workers (h : approvalStep s e = some t) : WorkerStep s t e := by
  have hset : ∀ worker pc, pc ≠ .claimed → pc ≠ .invoked →
      ∀ w ∈ (s.setPc worker pc).workers, w.pc = .claimed ∨ w.pc = .invoked → w ∈ s.workers := by
    intro worker pc hc hi w hw hpc
    refine (mem_of_mem_setPc hw fun heq => ?_).1
    rcases hpc with hpc | hpc
    · exact hc (heq.symm.trans hpc)
    · exact hi (heq.symm.trans hpc)
  cases e with
  | decide decider decision now =>
    simp only [approvalStep] at h
    split_ifs at h
    rw [(write_eq_some h).2]
    exact .other rfl (fun w hw _ => hw) (by simp)
  | claim now =>
    obtain ⟨b, hb, rfl⟩ := Option.map_eq_some_iff.mp h
    exact .other rfl (fun w hw _ => hw) (by simp)
  | complete outcome now =>
    rw [(write_eq_some h).2]
    exact .other rfl (fun w hw _ => hw) (by simp)
  | cancelPending userId now =>
    obtain rfl := Option.some.inj h
    exact .other rfl (fun w hw _ => hw) (by simp)
  | beginPass run before after checkpointExists now transitionNow =>
    simp only [approvalStep] at h
    split_ifs at h
    obtain rfl := Option.some.inj h
    exact .other rfl (fun w hw _ => hw) (by simp)
  | commitPass =>
    obtain ⟨p, hp, rfl⟩ := Option.map_eq_some_iff.mp h
    exact .other rfl (fun w hw _ => hw) (by simp)
  | abortPass =>
    obtain rfl := Option.some.inj h
    exact .other rfl (fun w hw _ => hw) (by simp)
  | spawn worker =>
    simp only [approvalStep] at h
    split_ifs at h
    obtain rfl := Option.some.inj h
    refine .other rfl (fun w hw hpc => ?_) (by simp)
    rcases List.mem_append.mp hw with hw | hw
    · exact hw
    · rw [List.mem_singleton.mp hw] at hpc
      simp at hpc
  | load worker =>
    simp only [approvalStep] at h
    by_cases hat : s.at worker .loading
    · rw [if_pos hat] at h
      obtain rfl := Option.some.inj h
      refine .other rfl (hset worker _ ?_ ?_) (by simp)
      · split_ifs <;> simp
      · split_ifs <;> simp
    · simp [hat] at h
  | claimAction worker now =>
    simp only [approvalStep] at h
    split_ifs at h
    split at h
    · rename_i b hb
      obtain rfl := Option.some.inj h
      exact .claimed hb rfl rfl
    · obtain rfl := Option.some.inj h
      exact .other rfl (hset worker _ (by simp) (by simp)) (by simp)
  | stop worker =>
    obtain rfl := Option.some.inj h
    exact .other rfl (hset worker _ (by simp) (by simp)) (by simp)
  | invoke worker =>
    simp only [approvalStep] at h
    split_ifs at h with hat
    obtain rfl := Option.some.inj h
    exact .invoked hat rfl rfl rfl
  | report worker outcome now =>
    simp only [approvalStep] at h
    split_ifs at h with hat
    rw [(write_eq_some h).2]
    refine .other rfl (hset worker _ (by simp) (by simp)) ?_
    intro worker' outcome' now' he
    obtain ⟨rfl, -, -⟩ := ApprovalEvent.report.inj he
    exact hat

/-! ## What a step keeps of the row -/

section Row

/-- An approved decision stays: a pass that overwrites a decision has read it as pending, and
since then it can only have been cancelled. -/
theorem approved_stays (h : PassInvariant s) (hs : approvalSystem.step s e = some t)
    (hd : s.approval.decisionStatus = .approved) : t.approval.decisionStatus = .approved := by
  cases approvalStep_row hs with
  | decided hpass hpass' hdec =>
    rw [decisionConforms_final (decide_conforms hdec).decision (by simp [hd]), hd]
  | claimed hpass hc he => exact (claimExecution_eq_some hc).2.2.1
  | completed hpass hc he => rw [(completeExecution_hasOutcome hc).2, hd]
  | cancelled hpass hrow =>
    rw [hrow]
    simp [cancelPending, hd]
  | began hrow hnew hp' => rw [hrow, hd]
  | committed hp hpass hrow =>
    rename_i p
    rw [hrow, writeBack_decisionStatus h hp, if_neg, hd]
    rintro ⟨hread, -⟩
    rcases h.decision p hp hread with hnow | hnow
    · simp [hd] at hnow
    · simp [hd] at hnow
  | idle hrow hpass he => rw [hrow, hd]

/-- What becomes of the execution in one step: nothing, the one claim, or an outcome. -/
theorem execution_moves (h : PassInvariant s) (hs : approvalSystem.step s e = some t) :
    t.approval.executionStatus = s.approval.executionStatus ∨
      (s.approval.executionStatus = .notStarted ∧ t.approval.executionStatus = .claimed) ∨
      (t.approval.executionStatus.hasOutcome ∧
        (s.approval.executionStatus = .unknownOutcome →
          t.approval.executionStatus = .unknownOutcome)) := by
  cases approvalStep_row hs with
  | decided hpass hpass' hd => exact Or.inl (decide_executionStatus hd)
  | claimed hpass hc he =>
    have hclaim := claimExecution_eq_some hc
    exact Or.inr (Or.inl ⟨hclaim.2.1, hclaim.2.2.2⟩)
  | completed hpass hc he =>
    refine Or.inr (Or.inr ⟨(completeExecution_hasOutcome hc).1, fun hu => ?_⟩)
    unfold completeExecution at hc
    split_ifs at hc with hvalid hout
    · rw [← Except.ok.inj hc, hu]
    · simp [hu, ApprovalExecutionStatus.hasOutcome] at hout
  | cancelled hpass hrow => exact Or.inl (by rw [hrow, cancelPending_executionStatus])
  | began hrow hnew hp' => exact Or.inl (by rw [hrow])
  | committed hp hpass hrow =>
    rename_i p
    rw [hrow, writeBack_executionStatus h hp]
    by_cases hup : passGivesUp p.input p.run ∧ p.read.executionStatus = .claimed
    · rw [if_pos hup]
      exact Or.inr (Or.inr ⟨rfl, fun _ => rfl⟩)
    · rw [if_neg hup]
      exact Or.inl rfl
  | idle hrow hpass he => exact Or.inl (by rw [hrow])

end Row

/-! ## At most once -/

/-- **Every invocation rests on the one claim.** A claimant is alone and comes before any
invocation; while the execution is not started there is neither. -/
structure AtMostOnce (s : ApprovalState) : Prop where
  once : s.invocations.length ≤ 1
  single : ∀ v ∈ s.workers, ∀ w ∈ s.workers, v.pc = .claimed → w.pc = .claimed → v.id = w.id
  spent : s.Claimant → s.invocations = []
  fresh : s.approval.executionStatus = .notStarted → s.invocations = [] ∧ ¬ s.Claimant
  approved : s.Claimant → s.approval.decisionStatus = .approved
  invoked : ∀ w ∈ s.workers, w.pc = .invoked → s.invocations ≠ []
  invocations : ∀ a ∈ s.invocations, a.decisionStatus = .approved

theorem atMostOnce_init (h : approvalSystem.init s) : AtMostOnce s := by
  obtain ⟨-, -, -, hw, hi⟩ := h
  have hno : ¬ s.Claimant := by
    rintro ⟨w, hmem, -⟩
    simp [hw] at hmem
  exact ⟨by simp [hi], by simp [hw], fun _ => hi, fun _ => ⟨hi, hno⟩, fun hc => absurd hc hno,
    by simp [hw], by simp [hi]⟩

/-- **Every step keeps at most one invocation.** -/
theorem atMostOnce_step (hp : PassInvariant s) (h : AtMostOnce s)
    (hs : approvalSystem.step s e = some t) : AtMostOnce t := by
  cases approvalStep_workers hs with
  | claimed hclaim hw hi =>
    rename_i worker now
    obtain ⟨-, hfresh, hdec, hexec⟩ := claimExecution_eq_some hclaim
    obtain ⟨hnone, hno⟩ := h.fresh hfresh
    -- nobody else can be a claimant, because the execution was not started
    have hself : ∀ w ∈ t.workers, w.pc = .claimed → w.id = worker := by
      intro w hmem hpc
      rw [hw] at hmem
      obtain ⟨v, hv, rfl⟩ := mem_setPc.mp hmem
      split_ifs at hpc ⊢ with hid
      · exact hid
      · exact absurd ⟨v, hv, hpc⟩ hno
    refine ⟨by simp [hi, hnone], ?_, fun _ => hi.trans hnone, fun hn => ?_, fun _ => hdec, ?_,
      by simp [hi, hnone]⟩
    · intro v hv w hw' hvc hwc
      rw [hself v hv hvc, hself w hw' hwc]
    · simp [hexec] at hn
    · intro w hmem hpc
      rw [hw] at hmem
      rw [hi]
      exact h.invoked w (mem_of_mem_setPc hmem (by simp [hpc])).1 hpc
  | invoked hat hrow hw hi =>
    rename_i worker
    have hmem := Table.mem_of_find hat
    have hclaimant : s.Claimant := ⟨_, hmem, rfl⟩
    have hnone := h.spent hclaimant
    have hno : ¬ t.Claimant := by
      rintro ⟨w, hwt, hpc⟩
      rw [hw] at hwt
      obtain ⟨hws, hid⟩ := mem_of_mem_setPc hwt (by simp [hpc])
      exact hid (h.single w hws _ hmem hpc rfl)
    refine ⟨by simp [hi, hnone], ?_, fun hc => absurd hc hno, fun hn => ?_,
      fun hc => absurd hc hno, by simp [hi], ?_⟩
    · intro v hv w hwt hvc hwc
      exact absurd ⟨v, hv, hvc⟩ hno
    · rw [hrow] at hn
      exact absurd hclaimant (h.fresh hn).2
    · rw [hi, hnone]
      simpa using h.approved hclaimant
  | other hi hw hreport =>
    have hback : t.Claimant → s.Claimant := by
      rintro ⟨w, hmem, hpc⟩
      exact ⟨w, hw w hmem (Or.inl hpc), hpc⟩
    refine ⟨hi ▸ h.once, ?_, fun hc => hi.trans (h.spent (hback hc)), fun hn => ?_, ?_, ?_,
      hi ▸ h.invocations⟩
    · intro v hv w hwt hvc hwc
      exact h.single v (hw v hv (Or.inl hvc)) w (hw w hwt (Or.inl hwc)) hvc hwc
    · -- an execution that is not started after the step was not started before it
      have hbefore : s.approval.executionStatus = .notStarted := by
        rcases execution_moves hp hs with hx | ⟨-, hx⟩ | ⟨hx, -⟩
        · exact hx.symm.trans hn
        · simp [hn] at hx
        · simp [hn, ApprovalExecutionStatus.hasOutcome] at hx
      exact ⟨hi.trans (h.fresh hbefore).1, fun hc => (h.fresh hbefore).2 (hback hc)⟩
    · intro hc
      exact approved_stays hp hs (h.approved (hback hc))
    · intro w hmem hpc
      rw [hi]
      exact h.invoked w (hw w hmem (Or.inr hpc)) hpc

/-! ## No invocation after an unknown outcome -/

/-- **The step leaves claimants alone**: it does not write `UNKNOWN_OUTCOME` while a worker that
has claimed is about to invoke the runtime, be it a pass that gives the execution up or a
completion from elsewhere. -/
def LeavesClaimants (s : ApprovalState) : ApprovalEvent → Prop
  | .commitPass => ∀ p, s.pass = some p →
    passGivesUp p.input p.run ∧ p.read.executionStatus = .claimed → ¬ s.Claimant
  | .complete outcome _ => outcome.status = .unknownOutcome → ¬ s.Claimant
  | _ => True

instance (s : ApprovalState) (e : ApprovalEvent) : Decidable (LeavesClaimants s e) :=
  match e with
  | .commitPass => inferInstanceAs (Decidable (∀ p ∈ s.pass, _))
  | .complete _ _ => inferInstanceAs (Decidable (_ → _))
  | .decide _ _ _ | .claim _ | .cancelPending _ _ | .beginPass _ _ _ _ _ _ | .abortPass
  | .spawn _ | .load _ | .claimAction _ _ | .stop _ | .invoke _ | .report _ _ _ => isTrue trivial

/-- An execution of unknown outcome has no claimant. -/
def UnknownSettled (s : ApprovalState) : Prop :=
  s.approval.executionStatus = .unknownOutcome → ¬ s.Claimant

/-- What makes the outcome unknown leaves no claimant behind. -/
theorem unknownSettled_becomes (hp : PassInvariant s) (h : AtMostOnce s)
    (hok : LeavesClaimants s e) (hs : approvalSystem.step s e = some t)
    (hbefore : s.approval.executionStatus ≠ .unknownOutcome)
    (hafter : t.approval.executionStatus = .unknownOutcome) : ¬ s.Claimant := by
  cases approvalStep_row hs with
  | decided hpass hpass' hd => exact absurd ((decide_executionStatus hd).symm.trans hafter) hbefore
  | claimed hpass hc he => simp [(claimExecution_eq_some hc).2.2.2] at hafter
  | completed hpass hc he =>
    rename_i outcome now
    rcases he with rfl | ⟨worker, rfl⟩
    · refine hok ?_
      unfold completeExecution at hc
      split_ifs at hc
      · exact absurd ((Except.ok.inj hc) ▸ hafter) hbefore
      · rw [← Except.ok.inj hc] at hafter
        exact hafter
    · -- the worker that reports has invoked, so nobody is left to invoke
      intro hclaimant
      have hstep : approvalStep s (.report worker outcome now) = some t := hs
      cases approvalStep_workers hstep with
      | other hi hw hreport =>
        have hat := hreport worker outcome now rfl
        exact h.invoked _ (Table.mem_of_find hat) rfl (h.spent hclaimant)
  | cancelled hpass hrow =>
    rw [hrow, cancelPending_executionStatus] at hafter
    exact absurd hafter hbefore
  | began hrow hnew hp' => exact absurd (hrow ▸ hafter) hbefore
  | committed hpass hpass' hrow =>
    rename_i p
    refine hok p hpass ?_
    rw [hrow, writeBack_executionStatus hp hpass] at hafter
    by_contra hup
    rw [if_neg hup] at hafter
    exact hbefore hafter
  | idle hrow hpass he => exact absurd (hrow ▸ hafter) hbefore

theorem unknownSettled_step (hp : PassInvariant s) (h : AtMostOnce s) (hu : UnknownSettled s)
    (hok : LeavesClaimants s e) (hs : approvalSystem.step s e = some t) : UnknownSettled t := by
  rintro hafter ⟨w, hmem, hpc⟩
  have hno : ¬ s.Claimant := by
    by_cases hbefore : s.approval.executionStatus = .unknownOutcome
    · exact hu hbefore
    · exact unknownSettled_becomes hp h hok hs hbefore hafter
  cases approvalStep_workers hs with
  | claimed hclaim hw hi => simp [(claimExecution_eq_some hclaim).2.2.2] at hafter
  | invoked hat hrow hw hi => exact hno ⟨_, Table.mem_of_find hat, rfl⟩
  | other hi hw hreport => exact hno ⟨w, hw w hmem (Or.inl hpc), hpc⟩

/-- With no claimant, an unknown outcome stays and nothing is invoked. -/
theorem unknown_step (hp : PassInvariant s) (hu : UnknownSettled s)
    (hunknown : s.approval.executionStatus = .unknownOutcome)
    (hs : approvalSystem.step s e = some t) :
    t.approval.executionStatus = .unknownOutcome ∧ t.invocations = s.invocations := by
  constructor
  · rcases execution_moves hp hs with hx | ⟨hx, -⟩ | ⟨-, hx⟩
    · exact hx.trans hunknown
    · simp [hunknown] at hx
    · exact hx hunknown
  · cases approvalStep_workers hs with
    | claimed hclaim hw hi => exact hi
    | invoked hat hrow hw hi => exact absurd ⟨_, Table.mem_of_find hat, rfl⟩ (hu hunknown)
    | other hi hw hreport => exact hi

/-! ## Runs -/

/-- What holds in every reachable state. -/
def Executions (s : ApprovalState) : Prop := PassInvariant s ∧ AtMostOnce s

theorem executions_step (s : ApprovalState) (e : ApprovalEvent) (t : ApprovalState)
    (h : Executions s) (hs : approvalSystem.step s e = some t) : Executions t :=
  ⟨passInvariant_step h.1 hs, atMostOnce_step h.1 h.2 hs⟩

/-- After an unknown outcome, a run that leaves claimants alone invokes nothing. -/
theorem invocations_of_unknown {u v : ApprovalState} {es : List ApprovalEvent} (h : Executions u)
    (hu : UnknownSettled u) (hunknown : u.approval.executionStatus = .unknownOutcome)
    (hw : approvalSystem.Within LeavesClaimants u es) (hr : approvalSystem.run u es = some v) :
    v.invocations = u.invocations := by
  refine (System.within_invariant (I := fun v => Executions v ∧ UnknownSettled v ∧
    v.approval.executionStatus = .unknownOutcome ∧ v.invocations = u.invocations) ?_
    ⟨h, hu, hunknown, rfl⟩ hw hr).2.2.2
  rintro v e w ⟨hv, hset, hx, hi⟩ hok hs
  obtain ⟨hx', hi'⟩ := unknown_step hv.1 hset hx hs
  exact ⟨executions_step v e w hv hs, unknownSettled_step hv.1 hv.2 hset hok hs, hx', hi'.trans hi⟩

/-- **Approved actions run at most once.** In every run the action runtime is invoked at most
once, with the decision `APPROVED` at that moment; and in every run whose steps leave claimants
alone nothing is invoked after the execution status has become `UNKNOWN_OUTCOME`. -/
theorem action_invoked_at_most_once {s t : ApprovalState} {es : List ApprovalEvent}
    (h : approvalSystem.init s) (hr : approvalSystem.run s es = some t) :
    t.invocations.length ≤ 1 ∧ (∀ a ∈ t.invocations, a.decisionStatus = .approved) ∧
      (approvalSystem.Within LeavesClaimants s es →
        ∀ pre mid post u v, es = pre ++ (mid ++ post) → approvalSystem.run s pre = some u →
          approvalSystem.run u mid = some v → u.approval.executionStatus = .unknownOutcome →
          v.invocations = u.invocations) := by
  have hinit : Executions s := ⟨passInvariant_init h, atMostOnce_init h⟩
  have hfinal := System.run_invariant executions_step hinit hr
  refine ⟨hfinal.2.once, hfinal.2.invocations, ?_⟩
  rintro hw pre mid post u v rfl hu hv hunknown
  have hsettled : Executions u ∧ UnknownSettled u :=
    System.within_invariant
      (fun a e b ha hok hs => ⟨executions_step a e b ha.1 hs,
        unknownSettled_step ha.1.1 ha.1.2 ha.2 hok hs⟩)
      (I := fun a => Executions a ∧ UnknownSettled a)
      ⟨hinit, fun hx => by simp [h.2.1] at hx⟩ (hw.append hu).1 hu
  exact invocations_of_unknown hsettled.1 hsettled.2 hunknown ((hw.append hu).2.append hv).1 hv

/-- A worker claims the approved action. -/
def workerClaims : List ApprovalEvent :=
  [.decide ⟨8, true, false⟩ .approved 10, .spawn 1, .load 1, .claimAction 1 20]

/-- A pass finds the lease of the run expired and gives the execution up. -/
def passGivesItUp : List ApprovalEvent := [.beginPass leasedRun [] [] true 70 71, .commitPass]

/-- A worker that invokes before the pass comes is the only one to invoke. -/
theorem action_invoked_beforePass : ∃ t,
    approvalSystem.run requestedState (workerClaims ++ (.invoke 1 :: passGivesItUp)) = some t ∧
      t.invocations.length ≤ 1 ∧
      ∀ pre mid post u v, workerClaims ++ (.invoke 1 :: passGivesItUp) = pre ++ (mid ++ post) →
        approvalSystem.run requestedState pre = some u → approvalSystem.run u mid = some v →
        u.approval.executionStatus = .unknownOutcome → v.invocations = u.invocations := by
  obtain ⟨t, ht⟩ := Option.isSome_iff_exists.mp (by decide : (approvalSystem.run requestedState
    (workerClaims ++ (.invoke 1 :: passGivesItUp))).isSome)
  obtain ⟨honce, -, hafter⟩ := action_invoked_at_most_once ⟨rfl, rfl, rfl, rfl, rfl⟩ ht
  exact ⟨t, ht, honce, hafter (by decide)⟩

/-- **An action runs after its outcome was given up**: the pass commits `UNKNOWN_OUTCOME`
between the claim of the worker and its call of the action runtime. -/
theorem action_invoked_after_unknown : ∃ s u v, approvalSystem.init s ∧
    approvalSystem.run s (workerClaims ++ passGivesItUp) = some u ∧
    u.approval.executionStatus = .unknownOutcome ∧ u.invocations = [] ∧
    approvalSystem.step u (.invoke 1) = some v ∧ v.invocations = [u.approval] := by
  obtain ⟨u, hu, hstate⟩ := Option.map_eq_some_iff.mp (by decide :
    (approvalSystem.run requestedState (workerClaims ++ passGivesItUp)).map
      (fun u => (u.approval.executionStatus, u.invocations,
        (approvalStep u (.invoke 1)).map fun v => (v.invocations == [u.approval]))) =
      some (.unknownOutcome, [], some true))
  obtain ⟨hunknown, hrest⟩ := Prod.mk.inj hstate
  obtain ⟨hnone, hnext⟩ := Prod.mk.inj hrest
  obtain ⟨v, hv, hinv⟩ := Option.map_eq_some_iff.mp hnext
  exact ⟨requestedState, u, v, ⟨rfl, rfl, rfl, rfl, rfl⟩, hu, hunknown, hnone, hv,
    by simpa using hinv⟩

end AgentHub.Approvals
