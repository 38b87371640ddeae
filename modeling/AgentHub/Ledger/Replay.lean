import AgentHub.Ledger.Conservation

/-!
# Replay of run budget calls

A call that has been committed once is done: repeating it later finds its work, or is refused,
and writes nothing. So repetitions may be inserted anywhere into a history without changing its
final rows or what its own calls return.

## Main definitions

* `Kept a b`: what every later row `b` of an attempt keeps of the row `a`
* `Done rows call`: the work of a call stands in the rows
* `Repeats rows₀ fs`: the inserted transactions of `fs` repeat calls that succeeded before them

## Main results

* `ledger_replay_safe`: repetitions are invisible; settlement is final and evidence is immutable
-/

namespace AgentHub.Ledger

open Lib

/-- What a later row keeps of an attempt: the reservation, a settlement with its evidence, and
that its outcome was reported. -/
structure Kept (a b : RunBudgetAttempt) : Prop where
  reservation : b.reservation = a.reservation
  settled : a.status = .settled → b = a
  reported : b.status = .reserved → a.status = .reserved

theorem Kept.refl (a : RunBudgetAttempt) : Kept a a := ⟨rfl, fun _ => rfl, id⟩

theorem Kept.trans {a b c : RunBudgetAttempt} (h₁ : Kept a b) (h₂ : Kept b c) : Kept a c where
  reservation := h₂.reservation.trans h₁.reservation
  settled hs := by
    obtain rfl := h₁.settled hs
    exact h₂.settled hs
  reported hs := h₁.reported (h₂.reported hs)

/-- Later rows keep the account and, of every attempt, what is `Kept`. -/
structure Continues (rows rows' : LedgerRows) : Prop where
  account : rows.account.isSome → rows'.account.isSome
  attempt : ∀ identity a, findAttempt rows.attempts identity = some a →
    ∃ b, findAttempt rows'.attempts identity = some b ∧ Kept a b

theorem Continues.refl (rows : LedgerRows) : Continues rows rows :=
  ⟨id, fun _ a ha => ⟨a, ha, Kept.refl a⟩⟩

theorem Continues.trans (rows₁ rows₂ rows₃ : LedgerRows) (h₁ : Continues rows₁ rows₂)
    (h₂ : Continues rows₂ rows₃) : Continues rows₁ rows₃ where
  account h := h₂.account (h₁.account h)
  attempt identity a ha := by
    obtain ⟨b, hb, hab⟩ := h₁.attempt identity a ha
    obtain ⟨c, hc, hbc⟩ := h₂.attempt identity b hb
    exact ⟨c, hc, hab.trans hbc⟩

/-! ## Writes continue the rows -/

variable {rows rows' : LedgerRows} {env : Environment} {call : LedgerCall}

section Writes

theorem findAttempt_replaceAttempt (attempts : List RunBudgetAttempt) (b : RunBudgetAttempt)
    (identity : String) :
    findAttempt (replaceAttempt attempts b) identity =
      (findAttempt attempts identity).map fun c =>
        if c.attemptIdentity = b.attemptIdentity then b else c :=
  Table.find_modify (fun _ _ => rfl) identity

/-- Replacing the row of `a` by a row that keeps it continues the rows. -/
theorem continues_replace {a b : RunBudgetAttempt} {account : Option RunBudgetAccount}
    (hc : Conserved rows) (ha : a ∈ rows.attempts) (hk : Kept a b)
    (hacc : rows.account.isSome → account.isSome) :
    Continues rows { rows with
      account := account, attempts := replaceAttempt rows.attempts b } := by
  have hab : b.attemptIdentity = a.attemptIdentity := congrArg (·.2.1) hk.reservation
  refine ⟨hacc, fun identity c hf => ?_⟩
  rw [findAttempt_replaceAttempt, hf, Option.map_some]
  refine ⟨_, rfl, ?_⟩
  split_ifs with hid
  · -- identities are distinct: the row replaced is `a`
    obtain rfl := List.inj_on_of_nodup_map hc.identities (mem_of_findAttempt hf) ha
      (hid.trans hab)
    exact hk
  · exact Kept.refl c

/-- Every call continues the rows. -/
theorem Effect.continues {reply : Except RunBudgetError LedgerReply}
    (he : Effect rows env call reply rows') (hc : Conserved rows) : Continues rows rows' := by
  cases he with
  | refused | openedAlready | heldAlready | markedAlready | billedAlready =>
    exact Continues.refl rows
  | opened hl ha => exact ⟨fun _ => rfl, fun _ a hf => ⟨a, hf, Kept.refl a⟩⟩
  | held hm hb ha hcur hn hf =>
    exact ⟨fun _ => rfl, fun _ a hf => ⟨a, Table.find_append_of_some hf, Kept.refl a⟩⟩
  | marked hf hs =>
    exact continues_replace hc (mem_of_findAttempt hf)
      ⟨rfl, fun h => by simp [hs] at h, fun _ => hs⟩ id
  | billed hm hev ha hcur hf hs hfit =>
    exact continues_replace hc (mem_of_findAttempt hf)
      ⟨rfl, fun h => absurd h hs, fun h => by simp [settledAttempt] at h⟩ fun _ => rfl

theorem continues_run {ts : List Transaction} (hc : Conserved rows)
    (hr : ledger.run rows ts = some rows') : Continues rows rows' := by
  refine System.run_relation (I := Conserved) Continues.refl Continues.trans ?_ hc hr
  rintro r t _ hc ⟨⟩
  refine ⟨conserved_afterTransaction hc t, ?_⟩
  rw [afterTransaction_eq hc]
  split_ifs
  · exact (perform_effect hc t.env t.call).continues hc
  · exact Continues.refl r

end Writes

/-! ## Calls that are done -/

/-- The work of a call stands in the rows. -/
def Done (rows : LedgerRows) : LedgerCall → Prop
  | .createAccount _ => rows.account.isSome
  | .reserve args => (findAttempt rows.attempts args.attemptIdentity).isSome
  | .markUnknownOutcome identity =>
    ∃ a, findAttempt rows.attempts identity = some a ∧ a.status ≠ .reserved
  | .settle args =>
    ∃ a, findAttempt rows.attempts args.attemptIdentity = some a ∧ a.status = .settled

section Done

theorem findAttempt_replaced {attempts : List RunBudgetAttempt} {a b : RunBudgetAttempt}
    {identity : String} (hf : findAttempt attempts identity = some a)
    (hab : b.attemptIdentity = a.attemptIdentity) :
    findAttempt (replaceAttempt attempts b) identity = some b := by
  rw [findAttempt_replaceAttempt, hf, Option.map_some, if_pos hab.symm]

/-- A call that succeeds is done. -/
theorem Effect.done {reply : LedgerReply} (he : Effect rows env call (.ok reply) rows') :
    Done rows' call := by
  cases he with
  | opened => rfl
  | openedAlready ha => simp [Done, ha]
  | held hm hb ha hc hn hf =>
    exact Option.isSome_of_eq_some (Table.find_append_new hn)
  | heldAlready ha hf => simp [Done, hf]
  | marked hf hs => exact ⟨_, findAttempt_replaced hf rfl, by simp⟩
  | markedAlready hf hs => exact ⟨_, hf, by simp [hs]⟩
  | billed hm hev ha hc hf hs hfit => exact ⟨_, findAttempt_replaced hf rfl, rfl⟩
  | billedAlready ha hf hs => exact ⟨_, hf, hs⟩

/-- What is done stays done. -/
theorem Done.continues (h : Done rows call) (hk : Continues rows rows') : Done rows' call := by
  cases call with
  | createAccount args => exact hk.account h
  | reserve args =>
    obtain ⟨a, ha⟩ := Option.isSome_iff_exists.mp h
    obtain ⟨b, hb, -⟩ := hk.attempt _ a ha
    exact Option.isSome_of_eq_some hb
  | markUnknownOutcome identity =>
    obtain ⟨a, ha, hs⟩ := h
    obtain ⟨b, hb, hab⟩ := hk.attempt _ a ha
    exact ⟨b, hb, fun hst => hs (hab.reported hst)⟩
  | settle args =>
    obtain ⟨a, ha, hs⟩ := h
    obtain ⟨b, hb, hab⟩ := hk.attempt _ a ha
    exact ⟨b, hb, by rw [hab.settled hs, hs]⟩

/-- **A call that is done writes nothing.** -/
theorem Effect.idle {reply : Except RunBudgetError LedgerReply}
    (he : Effect rows env call reply rows') (h : Done rows call) : rows' = rows := by
  cases he with
  | refused | openedAlready | heldAlready | markedAlready | billedAlready => rfl
  | opened hl ha => simp [Done, ha] at h
  | held hm hb ha hc hn hf => simp [Done, hn] at h
  | marked hf hs =>
    obtain ⟨a, ha, hst⟩ := h
    rw [Option.some.inj (ha.symm.trans hf)] at hst
    exact absurd hs hst
  | billed hm hev ha hc hf hs hfit =>
    obtain ⟨a, ha, hst⟩ := h
    rw [Option.some.inj (ha.symm.trans hf)] at hst
    exact absurd hst hs

end Done

/-! ## Repetitions -/

/-- Every inserted transaction repeats the call of an original one before it that was committed
and succeeded; its identifier, its clock and whether its caller commits are its own. -/
def Repeats (rows₀ : LedgerRows) (fs : List (Transaction ⊕ Transaction)) : Prop :=
  ∀ pre t post, fs = pre ++ .inr t :: post → ∃ pre₁ u pre₂ rows reply,
    pre = pre₁ ++ .inl u :: pre₂ ∧ u.call = t.call ∧ u.commit = true ∧
    ledger.run rows₀ (System.originals pre₁) = some rows ∧ outcome rows u = .ok reply

theorem idleInserts_of_repeats {rows₀ : LedgerRows} {fs : List (Transaction ⊕ Transaction)}
    (h₀ : ledger.init rows₀) (h : Repeats rows₀ fs) : ledger.IdleInserts rows₀ fs := by
  intro pre t post hfs rows' hrun
  obtain ⟨pre₁, u, pre₂, rows, reply, rfl, hcall, hcommit, hrows, hreply⟩ := h pre t post hfs
  have hc := conserved_of_reachable ⟨rows₀, _, h₀, hrows⟩
  have hc' := conserved_of_reachable ⟨rows₀, _, h₀, hrun⟩
  -- the original call is done in the rows it leaves, and still done where it is repeated
  have heff := perform_effect hc u.env u.call
  have hdone : Done (afterTransaction rows u) t.call := by
    rw [afterTransaction_eq hc, if_pos hcommit, ← hcall]
    rw [show (perform u.env u.call rows).1 = .ok reply from hreply] at heff
    exact heff.done
  have hlater : ledger.run (afterTransaction rows u) (System.originals pre₂) = some rows' := by
    rw [System.originals_append, System.originals_inl, System.run_append, hrows] at hrun
    exact hrun
  have hdone' := hdone.continues (continues_run (conserved_afterTransaction hc u) hlater)
  change some (afterTransaction rows' t) = some rows'
  rw [afterTransaction_eq hc', (perform_effect hc' t.env t.call).idle hdone', ite_self]

/-- **Replay safety.** Inserting repetitions of calls that succeeded earlier changes neither the
final rows nor what the original calls return. Along every history from a reachable state the
reservation of an attempt is unchanged, `SETTLED` is absorbing, and settlement evidence once
written stays. -/
theorem ledger_replay_safe :
    (∀ rows₀ fs, ledger.init rows₀ → Repeats rows₀ fs →
      ledger.run rows₀ (System.merged fs) = ledger.run rows₀ (System.originals fs) ∧
      ledger.replies outcome rows₀ fs =
        ledger.replies outcome rows₀ ((System.originals fs).map .inl)) ∧
    (∀ rows ts rows', ledger.Reachable rows → ledger.run rows ts = some rows' →
      ∀ identity a, findAttempt rows.attempts identity = some a →
        ∃ b, findAttempt rows'.attempts identity = some b ∧ b.reservation = a.reservation ∧
          (a.status = .settled → b.status = .settled) ∧
          (a.settlementAmount.isSome → b.settlement = a.settlement)) := by
  refine ⟨fun rows₀ fs h₀ h => System.run_merged outcome (idleInserts_of_repeats h₀ h),
    fun rows ts rows' h hr identity a hf => ?_⟩
  have hc := conserved_of_reachable h
  obtain ⟨b, hb, hab⟩ := (continues_run hc hr).attempt identity a hf
  refine ⟨b, hb, hab.reservation, fun hs => by rw [hab.settled hs, hs], fun hsome => ?_⟩
  -- an attempt with a settlement amount is settled
  have hs : a.status = .settled := by
    by_contra hne
    obtain ⟨-, -, hshape⟩ := hc.checks a (mem_of_findAttempt hf)
    simp [(hshape.2 hne).1] at hsome
  rw [hab.settled hs]

/-- A reservation with an identifier and a clock of its own. -/
def reserveAgain (env : Environment) : Transaction :=
  ⟨.reserve ⟨"a", .mainModel, .finite false 1 0, "USD", .conservativeMaximum⟩, env, true⟩

/-- An account, a hold, and its reservation once more. -/
def reservedTwice : List (Transaction ⊕ Transaction) :=
  [.inl ⟨.createAccount ⟨"USD", .finite false 2 0⟩, ⟨0, 0⟩, true⟩,
   .inl (reserveAgain ⟨1, 1⟩), .inr (reserveAgain ⟨2, 2⟩)]

theorem ledger_replay_safe_reservedTwice :
    ledger.run ⟨true, none, []⟩ (System.merged reservedTwice) =
      ledger.run ⟨true, none, []⟩ (System.originals reservedTwice) := by
  refine (ledger_replay_safe.1 ⟨true, none, []⟩ reservedTwice ⟨rfl, rfl⟩ ?_).1
  intro pre t post h
  rcases pre with _ | ⟨f₁, _ | ⟨f₂, _ | ⟨f₃, pre⟩⟩⟩ <;> simp [reservedTwice] at h
  obtain ⟨rfl, rfl, rfl, rfl⟩ := h
  exact ⟨[_], reserveAgain ⟨1, 1⟩, [], _, _, rfl, rfl, rfl, rfl, rfl⟩

end AgentHub.Ledger
