import AgentHub.Ledger.Operations
import Mathlib.Algebra.Order.BigOperators.Group.List

/-!
# Conservation of the run budget

In every reachable state the account totals are explained by the attempt rows, so the guards
that compare them never fire, and an operation that raises has written nothing.

## Main definitions

* `Conserved`: the invariant of the rows of one run
* `Effect rows env call reply rows'`: everything a call can do to conserved rows

## Main results

* `perform_effect`: every call on conserved rows has one of the effects
* `conserved_of_reachable`: every reachable state is conserved
* `ledger_conservation`: the totals are explained, the invariant error is never raised, and a
  call that raises leaves the rows as they were
-/

namespace AgentHub.Ledger

open Lib

/-! ## Sums over the attempt rows -/

variable {a b : RunBudgetAttempt} {rows : LedgerRows} {account : RunBudgetAccount}

section Attempts

variable {attempts : List RunBudgetAttempt} {identity : String}

theorem mem_of_findAttempt (h : findAttempt attempts identity = some a) : a ∈ attempts :=
  Table.mem_of_find h

theorem replaceAttempt_identities (attempts : List RunBudgetAttempt) (a : RunBudgetAttempt) :
    (replaceAttempt attempts a).map (·.attemptIdentity) = attempts.map (·.attemptIdentity) :=
  Table.keys_modify fun _ _ _ => rfl

theorem mem_replaceAttempt (h : b ∈ replaceAttempt attempts a) : b = a ∨ b ∈ attempts := by
  obtain ⟨c, hc, rfl⟩ := Table.mem_modify.mp h
  split_ifs
  · exact Or.inl rfl
  · exact Or.inr hc

/-- **Replacing a row** moves a sum over the rows by the difference of the two rows. -/
theorem sum_replaceAttempt (f : RunBudgetAttempt → ℕ)
    (hnd : (attempts.map (·.attemptIdentity)).Nodup) (ha : a ∈ attempts)
    (hab : b.attemptIdentity = a.attemptIdentity) :
    ((replaceAttempt attempts b).map f).sum + f a = (attempts.map f).sum + f b := by
  unfold replaceAttempt
  rw [hab]
  exact Table.sum_modify f hnd ha

theorem held_le_heldTotal (ha : a ∈ attempts) : a.held ≤ heldTotal attempts :=
  List.le_sum_of_mem (List.mem_map_of_mem ha)

theorem heldTotal_append (attempts : List RunBudgetAttempt) (a : RunBudgetAttempt) :
    heldTotal (attempts ++ [a]) = heldTotal attempts + a.held := by
  simp [heldTotal]

theorem settledTotal_append (attempts : List RunBudgetAttempt) (a : RunBudgetAttempt) :
    settledTotal (attempts ++ [a]) = settledTotal attempts + a.billed := by
  simp [settledTotal]

end Attempts

/-! ## The invariant -/

/-- **Conservation**: the account totals are those of the attempt rows and the holds fit the
limit; the attempt rows have distinct identities, the account's currency, and pass the checks
of the schema. -/
structure Conserved (rows : LedgerRows) : Prop where
  empty : rows.account = none → rows.attempts = []
  reserved : ∀ account, rows.account = some account →
    account.reservedAmount = heldTotal rows.attempts
  settled : ∀ account, rows.account = some account →
    account.settledAmount = settledTotal rows.attempts
  bounded : ∀ account, rows.account = some account →
    account.reservedAmount ≤ account.limitAmount
  currency : ∀ account, rows.account = some account →
    ∀ a ∈ rows.attempts, a.currency = account.currency
  checks : ∀ a ∈ rows.attempts, AttemptChecks a
  identities : (rows.attempts.map (·.attemptIdentity)).Nodup

theorem conserved_init {rows : LedgerRows} (h : ledger.init rows) : Conserved rows where
  empty _ := h.2
  reserved account ha := by simp [h.1] at ha
  settled account ha := by simp [h.1] at ha
  bounded account ha := by simp [h.1] at ha
  currency account ha := by simp [h.1] at ha
  checks a ha := by simp [h.2] at ha
  identities := by simp [h.2]

/-- The errors of the guards that compare the account with its attempts, and of the schema. -/
def RunBudgetError.isGuard : RunBudgetError → Bool
  | .ledger .accountInvariant _ => true
  | .database _ => true
  | _ => false

/-- The rows after a new hold. -/
def LedgerRows.hold (rows : LedgerRows) (account : RunBudgetAccount) (a : RunBudgetAttempt) :
    LedgerRows :=
  { rows with
    account := some { account with reservedAmount := account.reservedAmount + a.reservedAmount }
    attempts := rows.attempts ++ [a] }

/-- The rows after an attempt is marked. -/
def LedgerRows.mark (rows : LedgerRows) (a : RunBudgetAttempt) : LedgerRows :=
  { rows with attempts := replaceAttempt rows.attempts { a with status := .unknownOutcome } }

/-- The rows after the attempt `a` is settled as `b`. -/
def LedgerRows.bill (rows : LedgerRows) (account : RunBudgetAccount) (a b : RunBudgetAttempt)
    (amount : ℕ) : LedgerRows :=
  { rows with
    account := some { account with
      reservedAmount := account.reservedAmount - a.reservedAmount
      settledAmount := account.settledAmount + amount }
    attempts := replaceAttempt rows.attempts b }

/-- **Everything a call can do** to conserved rows: be refused, do its work for the first time,
or find it done. -/
inductive Effect (rows : LedgerRows) (env : Environment) :
    LedgerCall → Except RunBudgetError LedgerReply → LedgerRows → Prop
  | refused {call : LedgerCall} {e : RunBudgetError} (he : e.isGuard = false) :
      Effect rows env call (.error e) rows
  | opened {args : CreateAccountArgs} {limit : ℕ}
      (hl : validateAmount args.limitAmount "limit_amount" false = .ok limit)
      (ha : rows.account = none) :
      Effect rows env (.createAccount args) (.ok (.account ⟨args.currency, limit, 0, 0⟩ true))
        { rows with account := some ⟨args.currency, limit, 0, 0⟩ }
  | openedAlready {args : CreateAccountArgs} {account : RunBudgetAccount}
      (ha : rows.account = some account) :
      Effect rows env (.createAccount args) (.ok (.account (accountSnapshot account) false)) rows
  | held {args : ReserveArgs} {amount : ℕ} {account : RunBudgetAccount}
      (hm : validateAmount args.amount "amount" false = .ok amount)
      (hb : args.reservationBasis = .conservativeMaximum)
      (ha : rows.account = some account) (hc : account.currency = args.currency)
      (hn : findAttempt rows.attempts args.attemptIdentity = none)
      (hf : account.reservedAmount + amount + account.settledAmount ≤ account.limitAmount) :
      Effect rows env (.reserve args)
        (.ok (.reservation ⟨accountSnapshot { account with
          reservedAmount := account.reservedAmount + amount }, newAttempt args amount env, true⟩))
        (rows.hold account (newAttempt args amount env))
  | heldAlready {args : ReserveArgs} {account : RunBudgetAccount} {a : RunBudgetAttempt}
      (ha : rows.account = some account)
      (hf : findAttempt rows.attempts args.attemptIdentity = some a) :
      Effect rows env (.reserve args)
        (.ok (.reservation ⟨accountSnapshot account, a, false⟩)) rows
  | marked {identity : String} {a : RunBudgetAttempt}
      (hf : findAttempt rows.attempts identity = some a) (hs : a.status = .reserved) :
      Effect rows env (.markUnknownOutcome identity)
        (.ok (.attempt { a with status := .unknownOutcome })) (rows.mark a)
  | markedAlready {identity : String} {a : RunBudgetAttempt}
      (hf : findAttempt rows.attempts identity = some a) (hs : a.status = .unknownOutcome) :
      Effect rows env (.markUnknownOutcome identity) (.ok (.attempt a)) rows
  | billed {args : SettleArgs} {amount : ℕ} {account : RunBudgetAccount} {a : RunBudgetAttempt}
      (hm : validateAmount args.amount "amount" true = .ok amount)
      (he : args.evidence = .providerBill) (ha : rows.account = some account)
      (hc : a.currency = args.currency)
      (hf : findAttempt rows.attempts args.attemptIdentity = some a) (hs : a.status ≠ .settled)
      (hfit : account.settledAmount + amount ≤ maxAmount) :
      Effect rows env (.settle args)
        (.ok (.settlement ⟨accountSnapshot { account with
          reservedAmount := account.reservedAmount - a.reservedAmount
          settledAmount := account.settledAmount + amount },
          settledAttempt a amount args env, true⟩))
        (rows.bill account a (settledAttempt a amount args env) amount)
  | billedAlready {args : SettleArgs} {account : RunBudgetAccount} {a : RunBudgetAttempt}
      (ha : rows.account = some account)
      (hf : findAttempt rows.attempts args.attemptIdentity = some a) (hs : a.status = .settled) :
      Effect rows env (.settle args)
        (.ok (.settlement ⟨accountSnapshot account, a, false⟩)) rows

/-! ## The guards pass on conserved rows -/

section Guards

theorem lockAccount_some (h : Conserved rows) (ha : rows.account = some account) :
    lockAccount rows = (.ok account, rows) := by
  unfold lockAccount
  rw [Tx.read_bind, id, ha]
  simp only
  rw [Tx.guard_bind_of_not (by simp [h.reserved account ha, h.settled account ha])]
  rfl

theorem lockAccount_none (ha : rows.account = none) :
    lockAccount rows =
      (.error (.ledger .accountNotFound "The Run budget account was not found."), rows) := by
  unfold lockAccount
  rw [Tx.read_bind, id, ha]
  rfl

theorem lockAttempt_some {identity : String} (hf : findAttempt rows.attempts identity = some a) :
    lockAttempt identity rows = (.ok a, rows) := by
  unfold lockAttempt
  rw [Tx.read_bind, id, hf]
  rfl

theorem lockAttempt_none {identity : String} (hf : findAttempt rows.attempts identity = none) :
    lockAttempt identity rows =
      (.error (.ledger .attemptNotFound "The Run budget attempt was not found."), rows) := by
  unfold lockAttempt
  rw [Tx.read_bind, id, hf]
  rfl

/-- A charged hold is part of what the account retains. -/
theorem reservedAmount_le (h : Conserved rows) (ha : rows.account = some account)
    (hm : a ∈ rows.attempts) (hs : a.status ≠ .settled) :
    a.reservedAmount ≤ account.reservedAmount := by
  have hheld : a.held = a.reservedAmount := by
    cases hst : a.status <;> simp_all [RunBudgetAttempt.held, RunBudgetAttemptStatus.isHeld]
  rw [h.reserved account ha, ← hheld]
  exact held_le_heldTotal hm

theorem flushNewAttempt_newAttempt {args : ReserveArgs} {amount : ℕ} {env : Environment}
    (ha : rows.account = some account) (hc : account.currency = args.currency)
    (hb : args.reservationBasis = .conservativeMaximum) (hpos : 0 < amount)
    (hn : findAttempt rows.attempts args.attemptIdentity = none) :
    flushNewAttempt (newAttempt args amount env) rows =
      (.ok (), { rows with attempts := rows.attempts ++ [newAttempt args amount env] }) := by
  have hg : guardAttemptInsert rows (newAttempt args amount env) = .ok () := by
    simp [guardAttemptInsert, AttemptChecks, SettlementShape, newAttempt, ha, hc, hb, hpos, hn]
  unfold flushNewAttempt
  rw [Tx.read_bind, id, hg, Tx.check_bind_ok]
  rfl

theorem flushAttempt_ok {b : RunBudgetAttempt} (hg : guardAttemptUpdate rows a b = .ok ()) :
    flushAttempt a b rows = (.ok (), { rows with attempts := replaceAttempt rows.attempts b }) := by
  unfold flushAttempt
  rw [Tx.read_bind, id, hg, Tx.check_bind_ok]
  rfl

theorem flushAccount_ok {old new : RunBudgetAccount}
    (hg : guardAccountUpdate old new rows.attempts = .ok ()) :
    flushAccount old new rows = (.ok (), { rows with account := some new }) := by
  unfold flushAccount
  rw [Tx.read_bind, id, hg, Tx.check_bind_ok]
  rfl

end Guards

/-! ## Every call has one of the effects

`Yields` reads an operation's result as the reply of its call; `yields_check` and `yields_guard`
discharge a check that refuses, so that an operation's proof follows its accepting path. -/

section Effects

variable {env : Environment} {call : LedgerCall} {α β : Type}

/-- The computation's result and rows, read as a reply through `f`, are an effect of `call`. -/
def Yields (rows : LedgerRows) (env : Environment) (call : LedgerCall) (f : α → LedgerReply)
    (p : Except RunBudgetError α × LedgerRows) : Prop :=
  Effect rows env call (p.1.map f) p.2

variable {f : α → LedgerReply} {e : RunBudgetError} {field value : String}

theorem yields_check {r : Except RunBudgetError β} {k : β → LedgerM α}
    (hr : ∀ e, r = .error e → e.isGuard = false)
    (hk : ∀ b, r = .ok b → Yields rows env call f (k b rows)) :
    Yields rows env call f ((Tx.check r >>= k) rows) := by
  cases hb : r with
  | error e =>
    rw [Tx.check_bind_error]
    exact Effect.refused (hr e hb)
  | ok b =>
    rw [Tx.check_bind_ok]
    exact hk b hb

theorem yields_guard {b : Prop} [Decidable b] {k : PUnit → LedgerM α} (he : e.isGuard = false)
    (hk : ¬ b → Yields rows env call f (k ⟨⟩ rows)) :
    Yields rows env call f ((Tx.guard b e >>= k) rows) := by
  by_cases hb : b
  · rw [Tx.guard_bind_of hb]
    exact Effect.refused he
  · rw [Tx.guard_bind_of_not hb]
    exact hk hb

theorem yields_lockAccount {k : RunBudgetAccount → LedgerM α} (h : Conserved rows)
    (hk : ∀ account, rows.account = some account → Yields rows env call f (k account rows)) :
    Yields rows env call f ((lockAccount >>= k) rows) := by
  cases ha : rows.account with
  | none =>
    rw [Tx.bind_error (lockAccount_none ha)]
    exact Effect.refused rfl
  | some account =>
    rw [Tx.bind_ok (lockAccount_some h ha)]
    exact hk account ha

theorem yields_lockAttempt {identity : String} {k : RunBudgetAttempt → LedgerM α}
    (hk : ∀ a, findAttempt rows.attempts identity = some a → Yields rows env call f (k a rows)) :
    Yields rows env call f ((lockAttempt identity >>= k) rows) := by
  cases hf : findAttempt rows.attempts identity with
  | none =>
    rw [Tx.bind_error (lockAttempt_none hf)]
    exact Effect.refused rfl
  | some a =>
    rw [Tx.bind_ok (lockAttempt_some hf)]
    exact hk a hf

theorem isGuard_of_validateAmount {value : Decimal} {allowZero : Bool}
    (h : validateAmount value field allowZero = .error e) : e.isGuard = false := by
  cases value <;> simp only [validateAmount] at h
  · split_ifs at h <;> obtain rfl := Except.error.inj h <;> rfl
  · obtain rfl := Except.error.inj h
    rfl
  · obtain rfl := Except.error.inj h
    rfl

theorem isGuard_of_validateBoundedText {maximum : ℕ}
    (h : validateBoundedText value field maximum = .error e) : e.isGuard = false := by
  unfold validateBoundedText at h
  split_ifs at h <;> obtain rfl := Except.error.inj h <;> rfl

theorem isGuard_of_validateCurrency (h : validateCurrency value = .error e) :
    e.isGuard = false := by
  unfold validateCurrency at h
  split_ifs at h
  obtain rfl := Except.error.inj h
  rfl

theorem createAccount_yields (rows : LedgerRows) (env : Environment) (args : CreateAccountArgs) :
    Yields rows env (.createAccount args) (fun r => .account r.1 r.2)
      (createAccount args rows) := by
  unfold createAccount
  refine yields_check (fun e => isGuard_of_validateCurrency) fun _ _ => ?_
  refine yields_check (fun e => isGuard_of_validateAmount) fun limit hl => ?_
  rw [Tx.read_bind]
  refine yields_guard rfl fun _ => ?_
  rw [Tx.read_bind, Tx.write_bind, Tx.read_bind]
  cases ha : rows.account with
  | none =>
    simp only [Option.getD_none]
    rw [Tx.guard_bind_of_not (by simp)]
    exact Effect.opened hl ha
  | some account =>
    have hsame : { rows with account := some account } = rows := by rw [← ha]
    simp only [Option.getD_some, hsame]
    exact yields_guard rfl fun _ => Effect.openedAlready ha

theorem reserve_yields (h : Conserved rows) (env : Environment) (args : ReserveArgs) :
    Yields rows env (.reserve args) .reservation (reserve args env rows) := by
  unfold reserve
  refine yields_check (fun e => isGuard_of_validateBoundedText) fun _ _ => ?_
  refine yields_check (fun e => isGuard_of_validateAmount) fun amount hm => ?_
  refine yields_check (fun e => isGuard_of_validateCurrency) fun _ _ => ?_
  refine yields_guard rfl fun hb => ?_
  refine yields_lockAccount h fun account ha => ?_
  refine yields_guard rfl fun hc => ?_
  rw [Tx.read_bind]
  have hb := not_not.mp hb
  have hc := not_not.mp hc
  cases hf : findAttempt rows.attempts args.attemptIdentity with
  | some a =>
    refine yields_check (fun e he => ?_) fun _ _ => Effect.heldAlready ha hf
    unfold assertMatchingReservation at he
    split_ifs at he
    obtain rfl := Except.error.inj he
    rfl
  | none =>
    refine yields_guard rfl fun hfit => ?_
    have hpos := (validateAmount_ok hm).2 rfl
    rw [Tx.bind_ok (flushNewAttempt_newAttempt ha hc hb hpos hf), Tx.bind_ok (flushAccount_ok ?_)]
    · exact Effect.held hm hb ha hc hf (not_lt.mp hfit)
    · -- the totals the guard recomputes are those of the extended rows
      have hr := h.reserved account ha
      have hs := h.settled account ha
      have hheld : (newAttempt args amount env).held = amount := rfl
      have hbilled : (newAttempt args amount env).billed = 0 := rfl
      simp only [guardAccountUpdate, heldTotal_append, settledTotal_append, hheld, hbilled, hr, hs]
      rw [if_neg (by simp), if_neg (by omega), if_neg (by simp), if_neg (by omega)]

/-- Marking a reserved attempt passes the guards of the schema. -/
theorem guardAttemptUpdate_mark (h : Conserved rows) (ha : rows.account = some account)
    (hm : a ∈ rows.attempts) (hs : a.status = .reserved) :
    guardAttemptUpdate rows a { a with status := .unknownOutcome } = .ok () := by
  obtain ⟨hpos, hbasis, hshape⟩ := h.checks a hm
  obtain ⟨h₁, h₂, h₃, h₄, h₅, h₆⟩ := hshape.2 (by simp [hs])
  simp [guardAttemptUpdate, RunBudgetAttempt.reservation, RunBudgetAttempt.settlement,
    statusMayBecome, AttemptChecks, SettlementShape, ha, h.currency account ha a hm, hs, hpos,
    hbasis, h₁, h₂, h₃, h₄, h₅, h₆]

/-- Settling a charged attempt by a bill passes the guards of the schema. -/
theorem guardAttemptUpdate_settled {args : SettleArgs} (amount : ℕ) (env : Environment)
    (h : Conserved rows) (ha : rows.account = some account) (hm : a ∈ rows.attempts)
    (hs : a.status ≠ .settled) (he : args.evidence = .providerBill)
    (hc : a.currency = args.currency) :
    guardAttemptUpdate rows a (settledAttempt a amount args env) = .ok () := by
  obtain ⟨hpos, hbasis, hshape⟩ := h.checks a hm
  obtain ⟨h₁, -⟩ := hshape.2 hs
  have hmay : statusMayBecome a.status .settled = true := by
    cases hst : a.status <;> simp_all [statusMayBecome]
  simp [guardAttemptUpdate, settledAttempt, RunBudgetAttempt.reservation, AttemptChecks,
    SettlementShape, ha, ← h.currency account ha a hm, hc, hmay, hpos, hbasis, he, h₁]

theorem markUnknownOutcome_yields (h : Conserved rows) (env : Environment) (identity : String) :
    Yields rows env (.markUnknownOutcome identity) .attempt (markUnknownOutcome identity rows) := by
  unfold markUnknownOutcome
  refine yields_check (fun e => isGuard_of_validateBoundedText) fun _ _ => ?_
  refine yields_lockAccount h fun account ha => ?_
  refine yields_lockAttempt fun a hf => ?_
  have hm := mem_of_findAttempt hf
  cases hs : a.status with
  | settled =>
    simp only [Tx.raise_bind]
    exact Effect.refused rfl
  | reserved =>
    have hle := reservedAmount_le h ha hm (by simp [hs])
    have hflush := flushAttempt_ok (guardAttemptUpdate_mark h ha hm hs)
    simp only
    rw [Tx.bind_ok (a := { a with status := .unknownOutcome }) (t := rows.mark a)
      (by rw [Tx.bind_ok hflush]; rfl)]
    rw [Tx.guard_bind_of_not (not_lt.mpr hle)]
    exact Effect.marked hf hs
  | unknownOutcome =>
    have hle := reservedAmount_le h ha hm (by simp [hs])
    simp only [Tx.pure_bind]
    rw [Tx.guard_bind_of_not (not_lt.mpr hle)]
    exact Effect.markedAlready hf hs

/-- The totals a settlement moves are those of the attempt rows it leaves. -/
theorem totals_settled (amount : ℕ) (env : Environment) (args : SettleArgs) (h : Conserved rows)
    (ha : rows.account = some account) (hm : a ∈ rows.attempts) (hs : a.status ≠ .settled) :
    account.reservedAmount - a.reservedAmount =
        heldTotal (replaceAttempt rows.attempts (settledAttempt a amount args env)) ∧
      account.settledAmount + amount =
        settledTotal (replaceAttempt rows.attempts (settledAttempt a amount args env)) := by
  have hr := h.reserved account ha
  have hst := h.settled account ha
  have haheld : a.held = a.reservedAmount := by
    cases hst : a.status <;> simp_all [RunBudgetAttempt.held, RunBudgetAttemptStatus.isHeld]
  have habill : a.billed = 0 := by simp [RunBudgetAttempt.billed, hs]
  have hbheld : (settledAttempt a amount args env).held = 0 := rfl
  have hbbill : (settledAttempt a amount args env).billed = amount := rfl
  have h₁ := sum_replaceAttempt RunBudgetAttempt.held
    (b := settledAttempt a amount args env) h.identities hm rfl
  have h₂ := sum_replaceAttempt RunBudgetAttempt.billed
    (b := settledAttempt a amount args env) h.identities hm rfl
  unfold heldTotal settledTotal at *
  omega

theorem settle_yields (h : Conserved rows) (env : Environment) (args : SettleArgs) :
    Yields rows env (.settle args) .settlement (settle args env rows) := by
  unfold settle
  refine yields_check (fun e => isGuard_of_validateBoundedText) fun _ _ => ?_
  refine yields_check (fun e => isGuard_of_validateAmount) fun amount hm => ?_
  refine yields_check (fun e => isGuard_of_validateCurrency) fun _ _ => ?_
  refine yields_guard rfl fun he => ?_
  refine yields_check (fun e => isGuard_of_validateBoundedText) fun _ _ => ?_
  refine yields_lockAccount h fun account ha => ?_
  refine yields_lockAttempt fun a hf => ?_
  refine yields_guard rfl fun hc => ?_
  have he := not_not.mp he
  obtain ⟨-, hc⟩ := not_or.mp hc
  have hc := not_not.mp hc
  have hmem := mem_of_findAttempt hf
  by_cases hs : a.status = .settled
  · rw [if_pos hs]
    refine yields_check (fun e he => ?_) fun _ _ => Effect.billedAlready ha hf hs
    unfold assertMatchingSettlement at he
    split_ifs at he
    obtain rfl := Except.error.inj he
    rfl
  · rw [if_neg hs]
    have hle := reservedAmount_le h ha hmem hs
    rw [Tx.guard_bind_of_not (not_lt.mpr hle)]
    refine yields_guard rfl fun hfit => ?_
    obtain ⟨-, hfit⟩ := not_or.mp hfit
    have hflush := flushAttempt_ok
      (guardAttemptUpdate_settled amount env h ha hmem hs he hc)
    rw [Tx.bind_ok hflush, Tx.bind_ok (flushAccount_ok ?_)]
    · exact Effect.billed hm he ha hc hf hs (not_lt.mp hfit)
    · obtain ⟨h₁, h₂⟩ := totals_settled amount env args h ha hmem hs
      have hb := h.bounded account ha
      simp only [guardAccountUpdate]
      rw [if_neg (by simp), if_neg (by omega), if_neg (by simp [h₁, h₂]), if_neg (by omega)]

/-- **Every call on conserved rows** has one of the effects. -/
theorem perform_effect (h : Conserved rows) (env : Environment) (call : LedgerCall) :
    Effect rows env call (perform env call rows).1 (perform env call rows).2 := by
  cases call with
  | createAccount args =>
    have hy := createAccount_yields rows env args
    simpa only [perform, Tx.bind_pure_apply, Yields] using hy
  | reserve args =>
    have hy := reserve_yields h env args
    simpa only [perform, Tx.bind_pure_apply, Yields] using hy
  | markUnknownOutcome identity =>
    have hy := markUnknownOutcome_yields h env identity
    simpa only [perform, Tx.bind_pure_apply, Yields] using hy
  | settle args =>
    have hy := settle_yields h env args
    simpa only [perform, Tx.bind_pure_apply, Yields] using hy

end Effects

/-! ## The effects keep the invariant -/

section Preservation

variable {rows' : LedgerRows}

theorem Conserved.hold (h : Conserved rows) (ha : rows.account = some account)
    (hst : a.status = .reserved) (hc : a.currency = account.currency) (hck : AttemptChecks a)
    (hn : findAttempt rows.attempts a.attemptIdentity = none)
    (hf : account.reservedAmount + a.reservedAmount + account.settledAmount ≤
      account.limitAmount) : Conserved (rows.hold account a) := by
  have hheld : a.held = a.reservedAmount := by simp [RunBudgetAttempt.held, hst,
    RunBudgetAttemptStatus.isHeld]
  have hbilled : a.billed = 0 := by simp [RunBudgetAttempt.billed, hst]
  constructor
  · intro hnone
    simp [LedgerRows.hold] at hnone
  · rintro _ ⟨⟩
    rw [LedgerRows.hold, heldTotal_append, hheld, h.reserved account ha]
  · rintro _ ⟨⟩
    rw [LedgerRows.hold, settledTotal_append, hbilled, h.settled account ha]
    rfl
  · rintro _ ⟨⟩
    dsimp only
    omega
  · rintro _ ⟨⟩ c hcm
    rcases List.mem_append.mp hcm with hcm | hcm
    · exact h.currency account ha c hcm
    · rw [List.mem_singleton.mp hcm]
      exact hc
  · intro c hcm
    rcases List.mem_append.mp hcm with hcm | hcm
    · exact h.checks c hcm
    · rw [List.mem_singleton.mp hcm]
      exact hck
  · exact Table.nodup_append h.identities hn

/-- Replacing an attempt row, with the account that the replaced row explains. -/
theorem Conserved.replace {account' : RunBudgetAccount} (h : Conserved rows)
    (ha : rows.account = some account) (hb : AttemptChecks b) (hcb : b.currency = account.currency)
    (hc : account'.currency = account.currency)
    (hr : account'.reservedAmount = heldTotal (replaceAttempt rows.attempts b))
    (hs : account'.settledAmount = settledTotal (replaceAttempt rows.attempts b))
    (hl : account'.reservedAmount ≤ account'.limitAmount) :
    Conserved { rows with
      account := some account', attempts := replaceAttempt rows.attempts b } where
  empty hnone := by simp at hnone
  reserved := by
    rintro _ ⟨⟩
    exact hr
  settled := by
    rintro _ ⟨⟩
    exact hs
  bounded := by
    rintro _ ⟨⟩
    exact hl
  currency := by
    rintro _ ⟨⟩ c hcm
    rcases mem_replaceAttempt hcm with rfl | hcm
    · exact hcb.trans hc.symm
    · exact (h.currency account ha c hcm).trans hc.symm
  checks c hcm := by
    rcases mem_replaceAttempt hcm with rfl | hcm
    · exact hb
    · exact h.checks c hcm
  identities := by
    dsimp only
    rw [replaceAttempt_identities]
    exact h.identities

theorem Conserved.mark (h : Conserved rows) (ha : rows.account = some account)
    (hm : a ∈ rows.attempts) (hs : a.status = .reserved) : Conserved (rows.mark a) := by
  obtain ⟨hpos, hbasis, hshape⟩ := h.checks a hm
  have hck : AttemptChecks { a with status := .unknownOutcome } :=
    ⟨hpos, hbasis, fun hst => by simp at hst, fun _ => hshape.2 (by simp [hs])⟩
  have h₁ := sum_replaceAttempt RunBudgetAttempt.held
    (b := { a with status := .unknownOutcome }) h.identities hm rfl
  have h₂ := sum_replaceAttempt RunBudgetAttempt.billed
    (b := { a with status := .unknownOutcome }) h.identities hm rfl
  -- Marking moves an attempt between the two charged states: both sums stay.
  have hheld : RunBudgetAttempt.held { a with status := .unknownOutcome } = a.held := by
    simp [RunBudgetAttempt.held, RunBudgetAttemptStatus.isHeld, hs]
  have hbill : RunBudgetAttempt.billed { a with status := .unknownOutcome } = a.billed := by
    simp [RunBudgetAttempt.billed, hs]
  have hr := h.reserved account ha
  have hst := h.settled account ha
  have hkept := h.replace ha hck (h.currency account ha a hm) rfl
    (by unfold heldTotal at *; omega) (by unfold settledTotal at *; omega) (h.bounded account ha)
  rwa [← ha] at hkept

theorem Conserved.bill {amount : ℕ} {env : Environment} {args : SettleArgs} (h : Conserved rows)
    (ha : rows.account = some account) (hm : a ∈ rows.attempts) (hs : a.status ≠ .settled)
    (he : args.evidence = .providerBill) (hc : a.currency = args.currency) :
    Conserved (rows.bill account a (settledAttempt a amount args env) amount) := by
  obtain ⟨hpos, hbasis, -⟩ := h.checks a hm
  obtain ⟨h₁, h₂⟩ := totals_settled amount env args h ha hm hs
  have hck : AttemptChecks (settledAttempt a amount args env) := by
    refine ⟨hpos, hbasis, fun _ => ?_, fun hst => absurd rfl hst⟩
    simp [settledAttempt, he, hc]
  have hb := h.bounded account ha
  exact h.replace ha hck (h.currency account ha a hm) rfl h₁ h₂
    (by dsimp only; omega)

/-- A call on conserved rows leaves conserved rows. -/
theorem Effect.conserved {env : Environment} {call : LedgerCall}
    {reply : Except RunBudgetError LedgerReply} (he : Effect rows env call reply rows')
    (h : Conserved rows) : Conserved rows' := by
  cases he with
  | refused | openedAlready | heldAlready | markedAlready | billedAlready => exact h
  | opened hl ha =>
    have hnil := h.empty ha
    constructor <;> simp [hnil, heldTotal, settledTotal]
  | held hm hb ha hc hn hf =>
    have hpos : 0 < _ := (validateAmount_ok hm).2 rfl
    refine h.hold ha rfl hc.symm ⟨hpos, hb, ?_⟩ hn hf
    exact ⟨fun hst => by simp [newAttempt] at hst, fun _ => ⟨rfl, rfl, rfl, rfl, rfl, rfl⟩⟩
  | @marked identity a hf hs =>
    have hm := mem_of_findAttempt hf
    cases ha : rows.account with
    | none => simp [h.empty ha] at hm
    | some account => exact h.mark ha hm hs
  | billed hm he ha hc hf hs hfit => exact h.bill ha (mem_of_findAttempt hf) hs he hc

theorem totalsAgree_of_conserved (h : Conserved rows) : totalsAgree rows = true := by
  unfold totalsAgree
  cases ha : rows.account with
  | none => simpa using h.empty ha
  | some account => simp [h.reserved account ha, h.settled account ha]

end Preservation

/-! ## Every reachable state -/

section Reachable

/-- On conserved rows the deferred trigger passes: a transaction is its call, or nothing. -/
theorem afterTransaction_eq (h : Conserved rows) (t : Transaction) :
    afterTransaction rows t = if t.commit then (perform t.env t.call rows).2 else rows := by
  have hw : totalsAgree (perform t.env t.call rows).2 = true :=
    totalsAgree_of_conserved ((perform_effect h t.env t.call).conserved h)
  simp [afterTransaction, hw]

theorem conserved_afterTransaction (h : Conserved rows) (t : Transaction) :
    Conserved (afterTransaction rows t) := by
  rw [afterTransaction_eq h]
  split_ifs
  · exact (perform_effect h t.env t.call).conserved h
  · exact h

theorem conserved_step {rows' : LedgerRows} {t : Transaction} (h : Conserved rows)
    (hs : ledger.step rows t = some rows') : Conserved rows' := by
  obtain rfl := Option.some.inj hs
  exact conserved_afterTransaction h t

/-- **Conservation** holds in every reachable state. -/
theorem conserved_of_reachable (h : ledger.Reachable rows) : Conserved rows :=
  h.invariant (fun _ => conserved_init) fun _ _ _ => conserved_step

theorem Effect.rows_of_error {rows' : LedgerRows} {env : Environment} {call : LedgerCall}
    {e : RunBudgetError} (h : Effect rows env call (.error e) rows') :
    e.isGuard = false ∧ rows' = rows := by
  cases h with
  | refused he => exact ⟨he, rfl⟩

/-- **Ledger conservation.** In every reachable state the reserved total is the sum of the holds
of the attempts in state `RESERVED` or `UNKNOWN_OUTCOME`, the settled total is the sum of the
settlement amounts of the `SETTLED` attempts and the holds fit the limit; no call raises the
account-invariant error, and a call that raises has changed no row, whether or not its caller
rolls back. -/
theorem ledger_conservation (h : ledger.Reachable rows) :
    (∀ account, rows.account = some account →
      account.reservedAmount = heldTotal rows.attempts ∧
      account.settledAmount = settledTotal rows.attempts ∧
      account.reservedAmount ≤ account.limitAmount) ∧
    (rows.account = none → rows.attempts = []) ∧
    ∀ env call,
      (∀ message, (perform env call rows).1 ≠ .error (.ledger .accountInvariant message)) ∧
      ∀ e, (perform env call rows).1 = .error e → (perform env call rows).2 = rows := by
  have hc := conserved_of_reachable h
  refine ⟨fun account ha => ?_, hc.empty, fun env call => ⟨fun message hm => ?_, fun e he => ?_⟩⟩
  · exact ⟨hc.reserved account ha, hc.settled account ha, hc.bounded account ha⟩
  · have heff := perform_effect hc env call
    rw [hm] at heff
    exact absurd heff.rows_of_error.1 (by simp [RunBudgetError.isGuard])
  · have heff := perform_effect hc env call
    rw [he] at heff
    exact heff.rows_of_error.2

/-- An account, a hold of half the limit, and a bill of more than the limit. -/
def overbilled : List Transaction :=
  [⟨.createAccount ⟨"USD", .finite false 2 0⟩, ⟨0, 0⟩, true⟩,
   ⟨.reserve ⟨"a", .mainModel, .finite false 1 0, "USD", .conservativeMaximum⟩, ⟨1, 1⟩, true⟩,
   ⟨.settle ⟨"a", .finite false 3 0, "USD", .providerBill, "bill"⟩, ⟨2, 2⟩, true⟩]

theorem ledger_conservation_overbilled :
    ∃ rows, ledger.run ⟨true, none, []⟩ overbilled = some rows ∧
      rows.account = some ⟨"USD", 200000000, 0, 300000000⟩ ∧
      (300000000 : ℕ) = settledTotal rows.attempts := by
  have hinit : ledger.init ⟨true, none, []⟩ := ⟨rfl, rfl⟩
  have hrun : ledger.run ⟨true, none, []⟩ overbilled =
    some (overbilled.foldl afterTransaction ⟨true, none, []⟩) := rfl
  have haccount : (overbilled.foldl afterTransaction ⟨true, none, []⟩).account =
    some ⟨"USD", 200000000, 0, 300000000⟩ := by decide
  refine ⟨_, hrun, haccount, ?_⟩
  exact ((ledger_conservation ((System.reachable_init hinit).run hrun)).1 _ haccount).2.1

end Reachable

end AgentHub.Ledger
