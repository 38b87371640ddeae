import AgentHub.Ledger.Conservation

/-!
# The limit of the run budget

A bill may exceed its hold, so the committed total of an account can pass its limit. It does not
while every bill stays within its hold, and above the limit no new hold is granted.

## Main definitions

* `SettlesWithinHold`: a transaction that bills no attempt for more than its hold
* `WithinLimit`, `LimitReached`: the committed total against the limit

## Main results

* `ledger_never_overspends`: the bound along every history of bills within their holds, and no
  new hold in a history above the limit
-/

namespace AgentHub.Ledger

open Lib

/-- The transaction settles no attempt for more than its hold. -/
def SettlesWithinHold (rows : LedgerRows) (t : Transaction) : Prop :=
  ∀ args amount a, t.call = .settle args → validateAmount args.amount "amount" true = .ok amount →
    findAttempt rows.attempts args.attemptIdentity = some a → amount ≤ a.reservedAmount

/-- The holds and the bills of the run together fit the limit. -/
def WithinLimit (rows : LedgerRows) : Prop :=
  ∀ account, rows.account = some account →
    account.reservedAmount + account.settledAmount ≤ account.limitAmount

/-- The holds and the bills of the run together use up the limit. -/
def LimitReached (rows : LedgerRows) : Prop :=
  ∃ account, rows.account = some account ∧
    account.limitAmount ≤ account.reservedAmount + account.settledAmount

section Limits

variable {rows rows' : LedgerRows} {env : Environment}
  {t : Transaction} {reply : Except RunBudgetError LedgerReply}

/-- A call whose bill fits its hold moves money between the two totals, or adds a hold that was
checked against the limit. -/
theorem Effect.withinLimit (he : Effect rows t.env t.call reply rows') (hc : Conserved rows)
    (hl : WithinLimit rows) (hw : SettlesWithinHold rows t) : WithinLimit rows' := by
  obtain ⟨call, env, commit⟩ := t
  cases he with
  | refused | openedAlready | heldAlready | markedAlready | billedAlready => exact hl
  | opened hv ha =>
    rintro _ ⟨⟩
    simp
  | held hm hb ha hcur hn hf =>
    rintro _ ⟨⟩
    dsimp only [newAttempt]
    omega
  | marked hf hs => exact hl
  | @billed args amount account a hm hev ha hcur hf hs hfit =>
    rintro _ ⟨⟩
    have hle := hw args amount a rfl hm hf
    have hheld := reservedAmount_le hc ha (mem_of_findAttempt hf) hs
    have hlim := hl account ha
    dsimp only
    omega

/-- A reservation of a new identity that does not fit is refused. -/
theorem Effect.refused_of_over {args : ReserveArgs} {account : RunBudgetAccount} {amount : ℕ}
    (he : Effect rows env (.reserve args) reply rows') (ha : rows.account = some account)
    (hm : validateAmount args.amount "amount" false = .ok amount)
    (hn : findAttempt rows.attempts args.attemptIdentity = none)
    (hover : account.limitAmount < account.reservedAmount + account.settledAmount + amount) :
    ∃ e, reply = .error e := by
  cases he with
  | refused => exact ⟨_, rfl⟩
  | heldAlready ha' hf => simp [hn] at hf
  | held hm' hb ha' hc hn' hf =>
    obtain rfl := Except.ok.inj (hm.symm.trans hm')
    obtain rfl := Option.some.inj (ha.symm.trans ha')
    omega

/-- With the limit used up a call adds no attempt row. -/
theorem Effect.identities_of_limitReached {call : LedgerCall}
    (he : Effect rows env call reply rows') (hl : LimitReached rows) :
    rows'.attempts.map (·.attemptIdentity) = rows.attempts.map (·.attemptIdentity) := by
  obtain ⟨account, ha, hle⟩ := hl
  cases he with
  | refused | openedAlready | heldAlready | markedAlready | billedAlready => rfl
  | opened => rfl
  | held hm hb ha' hc hn hf =>
    -- the hold is positive, so it would not have fitted
    obtain rfl := Option.some.inj (ha.symm.trans ha')
    have hpos := (validateAmount_ok hm).2 rfl
    omega
  | marked hf hs => exact replaceAttempt_identities _ _
  | billed hm hev ha' hc hf hs hfit => exact replaceAttempt_identities _ _

theorem withinLimit_step (hc : Conserved rows) (hl : WithinLimit rows)
    (hw : SettlesWithinHold rows t) : WithinLimit (afterTransaction rows t) := by
  rw [afterTransaction_eq hc]
  split_ifs
  · exact (perform_effect hc t.env t.call).withinLimit hc hl hw
  · exact hl

theorem identities_step (hc : Conserved rows) (hl : LimitReached rows) :
    (afterTransaction rows t).attempts.map (·.attemptIdentity) =
      rows.attempts.map (·.attemptIdentity) := by
  rw [afterTransaction_eq hc]
  split_ifs
  · exact (perform_effect hc t.env t.call).identities_of_limitReached hl
  · rfl

/-- **The ledger never overspends.** Along every history in which each bill stays within the hold
of its attempt, holds and bills together fit the limit. In every reachable state, whatever the
bills were, a reservation of a new identity that would pass the limit is refused; so a history
that stays at or above the limit adds no attempt. -/
theorem ledger_never_overspends :
    (∀ rows₀ ts rows, ledger.init rows₀ → ledger.Within SettlesWithinHold rows₀ ts →
      ledger.run rows₀ ts = some rows → WithinLimit rows) ∧
    (∀ rows account args amount, ledger.Reachable rows → rows.account = some account →
      validateAmount args.amount "amount" false = .ok amount →
      findAttempt rows.attempts args.attemptIdentity = none →
      account.limitAmount < account.reservedAmount + account.settledAmount + amount →
      ∀ env, ∃ e, (perform env (.reserve args) rows).1 = .error e) ∧
    (∀ rows ts rows', ledger.Reachable rows → ledger.Within (fun r _ => LimitReached r) rows ts →
      ledger.run rows ts = some rows' →
      rows'.attempts.map (·.attemptIdentity) = rows.attempts.map (·.attemptIdentity)) := by
  refine ⟨fun rows₀ ts rows h₀ hw hr => ?_, fun rows account args amount h ha hm hn hover env => ?_,
    fun rows ts rows' h hw hr => ?_⟩
  · have hinit : Conserved rows₀ ∧ WithinLimit rows₀ :=
      ⟨conserved_init h₀, fun account ha => by simp [h₀.1] at ha⟩
    refine (System.within_invariant (I := fun r => Conserved r ∧ WithinLimit r) ?_ hinit hw hr).2
    rintro r t _ ⟨hc, hl⟩ hok ⟨⟩
    exact ⟨conserved_afterTransaction hc t, withinLimit_step hc hl hok⟩
  · have hc := conserved_of_reachable h
    exact (perform_effect hc env (.reserve args)).refused_of_over ha hm hn hover
  · refine (System.within_invariant (I := fun r => Conserved r ∧
      r.attempts.map (·.attemptIdentity) = rows.attempts.map (·.attemptIdentity)) ?_
      ⟨conserved_of_reachable h, rfl⟩ hw hr).2
    rintro r t _ ⟨hc, hid⟩ hok ⟨⟩
    exact ⟨conserved_afterTransaction hc t, (identities_step hc hok).trans hid⟩

/-- After the bill above the limit, the smallest reservation of a new identity is refused. -/
theorem ledger_never_overspends_overbilled :
    ∃ rows, ledger.run ⟨true, none, []⟩ overbilled = some rows ∧
      ∀ env, ∃ e, (perform env (.reserve
        ⟨"b", .retry, .finite false 1 (-8), "USD", .conservativeMaximum⟩) rows).1 = .error e := by
  have hinit : ledger.init ⟨true, none, []⟩ := ⟨rfl, rfl⟩
  have hrun : ledger.run ⟨true, none, []⟩ overbilled =
    some (overbilled.foldl afterTransaction ⟨true, none, []⟩) := rfl
  refine ⟨_, hrun, ?_⟩
  exact ledger_never_overspends.2.1 _ ⟨"USD", 200000000, 0, 300000000⟩ _ 1
    ((System.reachable_init hinit).run hrun) (by decide) (by decide) (by decide) (by decide)

end Limits

end AgentHub.Ledger
