import AgentHub.Approvals.Interleaving

/-!
# Conformance of one approval under interleaving

The tables `transition_decision` and `transition_execution` say which changes of an approval are
legal; the writers do not call them. Every writer that holds the row or updates it conditionally
keeps to the tables, with one exception in `complete_execution`; a reconciliation pass keeps to
them only where nobody wrote between its unlocked read and its commit.

## Main definitions

* `KeepsTables`: when a step keeps to the tables, from the state before it

## Main results

* `approvalStep_conforms_iff`: `KeepsTables` is exact for one step
* `approval_conforms_iff`: and for every run, where it also makes outcomes and decisions final
* `approval_overwritten`: a pass overwrites a committed success
-/

namespace AgentHub.Approvals

open Lib AgentHub.Run

/-- **When a step keeps to the tables.** A completion must not report success for an execution
that was never claimed. A pass that expires a decision it read as pending must find it still
pending, and a pass that gives up on an execution it read as claimed must not find it
completed. -/
def KeepsTables (s : ApprovalState) : ApprovalEvent → Prop
  | .complete outcome _ | .report _ outcome _ =>
    ¬ (s.approval.executionStatus = .notStarted ∧ outcome.status = .succeeded)
  | .commitPass => ∀ p, s.pass = some p →
    (p.read.decisionStatus = .pending ∧ p.read.isExpired p.input.now →
      s.approval.decisionStatus = .pending) ∧
    (passGivesUp p.input p.run ∧ p.read.executionStatus = .claimed →
      s.approval.executionStatus ≠ .succeeded ∧ s.approval.executionStatus ≠ .failed)
  | _ => True

instance (s : ApprovalState) (e : ApprovalEvent) : Decidable (KeepsTables s e) :=
  match e with
  | .complete _ _ | .report _ _ _ => inferInstanceAs (Decidable (¬ _))
  | .commitPass => inferInstanceAs (Decidable (∀ p ∈ s.pass, _))
  | .decide _ _ _ | .claim _ | .cancelPending _ _ | .beginPass _ _ _ _ _ _ | .abortPass
  | .spawn _ | .load _ | .claimAction _ _ | .stop _ | .invoke _ => isTrue trivial

section Commit

variable {s : ApprovalState} {p : Pass}

/-- The decision a pass commits conforms unless it was due and has been cancelled since. -/
theorem commit_decision_iff (h : PassInvariant s) (hp : s.pass = some p) :
    DecisionConforms s.approval.decisionStatus
        (writeBack p.read p.left s.approval).decisionStatus ↔
      (p.read.decisionStatus = .pending ∧ p.read.isExpired p.input.now →
        s.approval.decisionStatus = .pending) := by
  rw [writeBack_decisionStatus h hp]
  by_cases hdue : p.read.decisionStatus = .pending ∧ p.read.isExpired p.input.now
  · rw [if_pos hdue, imp_iff_right hdue]
    rcases h.decision p hp hdue.1 with hnow | hnow
    · rw [hnow]
      exact iff_of_true (Or.inr rfl) rfl
    · rw [hnow]
      exact iff_of_false (by simp [DecisionConforms, transitionDecision]) (by simp)
  · rw [if_neg hdue]
    exact iff_of_true (Or.inl rfl) fun hd => absurd hd hdue

/-- The execution a pass commits conforms unless it was given up and has been completed since. -/
theorem commit_execution_iff (h : PassInvariant s) (hp : s.pass = some p) :
    ExecutionConforms s.approval.executionStatus
        (writeBack p.read p.left s.approval).executionStatus ↔
      (passGivesUp p.input p.run ∧ p.read.executionStatus = .claimed →
        s.approval.executionStatus ≠ .succeeded ∧ s.approval.executionStatus ≠ .failed) := by
  rw [writeBack_executionStatus h hp]
  by_cases hup : passGivesUp p.input p.run ∧ p.read.executionStatus = .claimed
  · rw [if_pos hup, imp_iff_right hup]
    -- a claimed execution can only have become one with an outcome
    rcases h.execution p hp hup.2 with hnow | hnow
    · rw [hnow]
      exact iff_of_true (Or.inr rfl) (by simp)
    · revert hnow
      cases s.approval.executionStatus <;>
        simp [ExecutionConforms, transitionExecution, ApprovalExecutionStatus.hasOutcome]
  · rw [if_neg hup]
    exact iff_of_true (Or.inl rfl) fun hu => absurd hu hup

end Commit

/-- **One step** changes the approval along the tables exactly when it meets `KeepsTables`. -/
theorem approvalStep_conforms_iff {s t : ApprovalState} {e : ApprovalEvent} (h : PassInvariant s)
    (hs : approvalSystem.step s e = some t) :
    Conforms s.approval t.approval ↔ KeepsTables s e := by
  cases approvalStep_row hs with
  | decided hpass hpass' hd => exact iff_of_true (decide_conforms hd) trivial
  | claimed hpass hc he =>
    rcases he with rfl | ⟨worker, rfl⟩
    · exact iff_of_true (claimExecution_conforms hc) trivial
    · exact iff_of_true (claimExecution_conforms hc) trivial
  | completed hpass hc he =>
    rcases he with rfl | ⟨worker, rfl⟩
    · exact completeExecution_conforms_iff hc
    · exact completeExecution_conforms_iff hc
  | cancelled hpass hrow =>
    rw [hrow]
    exact iff_of_true (cancelPending_conforms _ _ _) trivial
  | began hrow hnew hp' =>
    rw [hrow]
    exact iff_of_true (Conforms.refl _) trivial
  | committed hp hpass hrow =>
    rename_i p
    have hcond : KeepsTables s .commitPass ↔ _ :=
      ⟨fun hk => hk p hp, fun hk q hq => Option.some.inj (hp.symm.trans hq) ▸ hk⟩
    rw [hcond, hrow, ← commit_decision_iff h hp, ← commit_execution_iff h hp]
    exact ⟨fun hconf => ⟨hconf.decision, hconf.execution⟩, fun hk => ⟨rfl, hk.1, hk.2⟩⟩
  | idle hrow hpass he =>
    rw [hrow]
    refine iff_of_true (Conforms.refl _) ?_
    cases e with
    | complete | commitPass | report => simp [ApprovalEvent.mayIdle] at he
    | _ => trivial

/-- **Decisions and outcomes are final** along every run that keeps to the tables. -/
theorem final_of_keepsTables {u v : ApprovalState} {es : List ApprovalEvent}
    (h : PassInvariant u) (hw : approvalSystem.Within KeepsTables u es)
    (hr : approvalSystem.run u es = some v) :
    (u.approval.decisionStatus ≠ .pending →
        v.approval.decisionStatus = u.approval.decisionStatus) ∧
      (u.approval.executionStatus.hasOutcome →
        v.approval.executionStatus = u.approval.executionStatus) := by
  refine (System.within_invariant (I := fun v => PassInvariant v ∧
    (u.approval.decisionStatus ≠ .pending →
      v.approval.decisionStatus = u.approval.decisionStatus) ∧
    (u.approval.executionStatus.hasOutcome →
      v.approval.executionStatus = u.approval.executionStatus)) ?_
    ⟨h, fun _ => rfl, fun _ => rfl⟩ hw hr).2
  rintro v e w ⟨hv, hdec, hexec⟩ hok hs
  have hconf := (approvalStep_conforms_iff hv hs).mpr hok
  refine ⟨passInvariant_step hv hs, fun hd => ?_, fun ho => ?_⟩
  · rw [decisionConforms_final hconf.decision (by rwa [hdec hd]), hdec hd]
  · rw [executionConforms_final hconf.execution (by rwa [hexec ho]), hexec ho]

/-- **Conformance of an approval.** In every run, all changes of the approval follow the tables
exactly when every step meets `KeepsTables`; and then every decision but `PENDING` and every
outcome of the execution is final. -/
theorem approval_conforms_iff {s t : ApprovalState} {es : List ApprovalEvent}
    (h : approvalSystem.init s) (hr : approvalSystem.run s es = some t) :
    (approvalSystem.Within KeepsTables s es ↔
      ∀ pre e post u v, es = pre ++ e :: post → approvalSystem.run s pre = some u →
        approvalSystem.step u e = some v → Conforms u.approval v.approval) ∧
    (approvalSystem.Within KeepsTables s es →
      ∀ pre mid post u v, es = pre ++ (mid ++ post) → approvalSystem.run s pre = some u →
        approvalSystem.run u mid = some v →
        (u.approval.decisionStatus ≠ .pending →
          v.approval.decisionStatus = u.approval.decisionStatus) ∧
        (u.approval.executionStatus.hasOutcome →
          v.approval.executionStatus = u.approval.executionStatus)) := by
  have hstep : ∀ u e v, PassInvariant u → approvalSystem.step u e = some v → PassInvariant v :=
    fun u e v hu hv => passInvariant_step hu hv
  have hexact : ∀ u e v, PassInvariant u → approvalSystem.step u e = some v →
      (Conforms u.approval v.approval ↔ KeepsTables u e) :=
    fun u e v hu hv => approvalStep_conforms_iff hu hv
  refine ⟨System.within_iff_steps (R := fun u v => Conforms u.approval v.approval) hstep hexact
    (passInvariant_init h) hr, ?_⟩
  rintro hw pre mid post u v rfl hu hv
  -- cut the run at `u`, where the invariant still holds, and again at `v`
  have hmid := ((hw.append hu).2.append hv).1
  exact final_of_keepsTables (System.run_invariant hstep (passInvariant_init h) hu) hmid hv

/-! ## A pass over a completed execution -/

/-- The action succeeded. -/
def succeededOutcome : ExecutionOutcome := ⟨.succeeded, some "sent", none, none⟩

/-- The action is approved and claimed. A pass then reads the row, when the lease of the run has
expired. -/
def claimedThenRead : List ApprovalEvent :=
  [.decide ⟨8, true, false⟩ .approved 10, .claim 20, .beginPass leasedRun [] [] true 70 71]

/-- **A pass overwrites a committed success**: between its read and its commit the action
completes, and the commit writes `UNKNOWN_OUTCOME` over `SUCCEEDED`. -/
theorem approval_overwritten :
    ∃ s u v, approvalSystem.init s ∧
      approvalSystem.run s (claimedThenRead ++ [.complete succeededOutcome 72]) = some u ∧
      approvalSystem.step u .commitPass = some v ∧
      u.approval.executionStatus = .succeeded ∧ v.approval.executionStatus = .unknownOutcome ∧
      ¬ Conforms u.approval v.approval := by
  obtain ⟨u, hu, hsucc⟩ := Option.map_eq_some_iff.mp (by decide :
    (approvalSystem.run requestedState
      (claimedThenRead ++ [.complete succeededOutcome 72])).map
        (fun u => (u.approval.executionStatus,
          (approvalStep u .commitPass).map (·.approval.executionStatus))) =
      some (.succeeded, some .unknownOutcome))
  obtain ⟨hsucc, hnext⟩ := Prod.mk.inj hsucc
  obtain ⟨v, hv, hunknown⟩ := Option.map_eq_some_iff.mp hnext
  refine ⟨requestedState, u, v, ⟨rfl, rfl, rfl, rfl, rfl⟩, hu, hv, hsucc, hunknown, ?_⟩
  intro hconf
  have hexec := hconf.execution
  rw [hsucc, hunknown] at hexec
  exact absurd hexec (by decide)

/-- Where the pass commits before the completion, every change follows the tables. -/
theorem approval_conforms_passFirst :
    ∃ t, approvalSystem.run requestedState
        (claimedThenRead ++ [.commitPass, .complete succeededOutcome 72]) = some t ∧
      ∀ pre e post u v,
        claimedThenRead ++ [.commitPass, .complete succeededOutcome 72] = pre ++ e :: post →
        approvalSystem.run requestedState pre = some u → approvalSystem.step u e = some v →
        Conforms u.approval v.approval := by
  obtain ⟨t, ht⟩ := Option.isSome_iff_exists.mp (by decide :
    (approvalSystem.run requestedState
      (claimedThenRead ++ [.commitPass, .complete succeededOutcome 72])).isSome)
  refine ⟨t, ht, (approval_conforms_iff ⟨rfl, rfl, rfl, rfl, rfl⟩ ht).1.mp ?_⟩
  decide

end AgentHub.Approvals
