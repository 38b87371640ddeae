import AgentHub.Ledger.Rows
import AgentHub.Lib.System

/-!
# The run budget ledger: operations

`create_account`, `reserve`, `mark_unknown_outcome` and `settle` on the rows of one run. Every
operation runs in a transaction of its caller, behind the row lock of the account, so the
operations on one run are taken one after the other; the caller commits or rolls back, also
after an error it caught. An operation reads a fresh identifier and the clock.

## Main definitions

* `createAccount`, `reserve`, `markUnknownOutcome`, `settle`: the public operations
* `LedgerCall`, `perform`: the operations as data
* `Transaction`, `ledger`: one call with its environment and the caller's decision; the system
  of all sequences of transactions
-/

namespace AgentHub.Ledger

open Lib

/-- What an operation reads from its environment: `uuid4()` and the clock. -/
structure Environment where
  freshId : ℕ
  now : ℕ
  deriving DecidableEq, Repr

/-! ## Snapshots and results -/

/-- A point-in-time view of the account within the caller's transaction. -/
structure RunBudgetAccountSnapshot where
  currency : String
  limitAmount : ℕ
  reservedAmount : ℕ
  settledAmount : ℕ
  deriving DecidableEq, Repr

def accountSnapshot (account : RunBudgetAccount) : RunBudgetAccountSnapshot where
  currency := account.currency
  limitAmount := account.limitAmount
  reservedAmount := account.reservedAmount
  settledAmount := account.settledAmount

/-- Result of an idempotent reserve operation. -/
structure RunBudgetReservation where
  account : RunBudgetAccountSnapshot
  attempt : RunBudgetAttempt
  created : Bool
  deriving DecidableEq, Repr

/-- Result of an idempotent evidence-backed settlement. -/
structure RunBudgetSettlement where
  account : RunBudgetAccountSnapshot
  attempt : RunBudgetAttempt
  created : Bool
  deriving DecidableEq, Repr

/-! ## Locks -/

/-- The account row, locked, once its totals are explained by the attempt rows. -/
def lockAccount : LedgerM RunBudgetAccount := do
  let rows ← Tx.read id
  match rows.account with
  | none => Tx.raise (.ledger .accountNotFound "The Run budget account was not found.")
  | some account =>
    Tx.guard ((account.reservedAmount, account.settledAmount) ≠
        (heldTotal rows.attempts, settledTotal rows.attempts))
      (.ledger .accountInvariant "The account totals differ from retained attempt evidence.")
    pure account

/-- The attempt row of an identity, locked. -/
def lockAttempt (identity : String) : LedgerM RunBudgetAttempt := do
  let rows ← Tx.read id
  match findAttempt rows.attempts identity with
  | none => Tx.raise (.ledger .attemptNotFound "The Run budget attempt was not found.")
  | some attempt => pure attempt

/-! ## Operations -/

structure CreateAccountArgs where
  currency : String
  limitAmount : Decimal
  deriving DecidableEq, Repr

/-- Create the account of the run; repeating the same content is idempotent. -/
def createAccount (args : CreateAccountArgs) : LedgerM (RunBudgetAccountSnapshot × Bool) := do
  Tx.check (validateCurrency args.currency)
  let normalizedLimit ← Tx.check (validateAmount args.limitAmount "limit_amount" false)
  let runExists ← Tx.read (·.runExists)
  Tx.guard (runExists = false)
    (.ledger .runNotFound "The Run does not exist inside the supplied Workspace.")
  -- INSERT .. ON CONFLICT DO NOTHING, then the row as it is now
  let inserted ← Tx.read fun rows => rows.account.isNone
  Tx.write fun rows =>
    { rows with account := some (rows.account.getD ⟨args.currency, normalizedLimit, 0, 0⟩) }
  let account ← Tx.read (·.account)
  match account with
  | none =>
    Tx.raise (.ledger .accountUnavailable
      "The Run budget account could not be observed after creation.")
  | some account =>
    Tx.guard (account.currency ≠ args.currency ∨ account.limitAmount ≠ normalizedLimit)
      (.ledger .accountConflict "The Run already has a different fixed budget account.")
    pure (accountSnapshot account, inserted)

structure ReserveArgs where
  attemptIdentity : String
  attemptKind : RunBudgetAttemptKind
  amount : Decimal
  currency : String
  reservationBasis : RunBudgetReservationBasis
  deriving DecidableEq, Repr

/-- `_assert_matching_reservation` -/
def assertMatchingReservation (attempt : RunBudgetAttempt) (amount : ℕ) (args : ReserveArgs) :
    Except RunBudgetError Unit :=
  if attempt.reservedAmount ≠ amount ∨ attempt.currency ≠ args.currency ∨
      attempt.attemptKind ≠ args.attemptKind ∨
      attempt.reservationBasis ≠ args.reservationBasis then
    .error (.ledger .attemptConflict
      "The attempt identity was reused with different reservation content.")
  else .ok ()

/-- The attempt row `reserve` inserts. -/
def newAttempt (args : ReserveArgs) (amount : ℕ) (env : Environment) : RunBudgetAttempt where
  id := env.freshId
  attemptIdentity := args.attemptIdentity
  attemptKind := args.attemptKind
  reservedAmount := amount
  currency := args.currency
  reservationBasis := args.reservationBasis
  status := .reserved
  settlementAmount := none
  settlementCurrency := none
  settlementEvidenceKind := none
  settlementEvidenceIdentity := none
  settlementIsEstimate := none
  settledAt := none
  createdAt := env.now

/-- Hold the worst-case amount before one provider attempt. -/
def reserve (args : ReserveArgs) (env : Environment) : LedgerM RunBudgetReservation := do
  Tx.check (validateAttemptIdentity args.attemptIdentity)
  let amount ← Tx.check (validateAmount args.amount "amount" false)
  Tx.check (validateCurrency args.currency)
  Tx.guard (args.reservationBasis ≠ .conservativeMaximum)
    (.ledger .conservativeMaximumRequired
      "A dispatch reservation requires a conservative maximum basis.")
  let account ← lockAccount
  Tx.guard (account.currency ≠ args.currency)
    (.ledger .currencyMismatch "The reservation currency differs from the Run account currency.")
  let existing ← Tx.read fun rows => findAttempt rows.attempts args.attemptIdentity
  match existing with
  | some existing =>
    Tx.check (assertMatchingReservation existing amount args)
    pure ⟨accountSnapshot account, existing, false⟩
  | none =>
    let newReserved := account.reservedAmount + amount
    Tx.guard (account.limitAmount < newReserved + account.settledAmount)
      (.ledger .insufficientFunds "The Run account cannot fund the full requested reservation.")
    let attempt := newAttempt args amount env
    let updated := { account with reservedAmount := newReserved }
    -- The account guard compares its totals with the attempt rows: the attempt goes first.
    flushNewAttempt attempt
    flushAccount account updated
    pure ⟨accountSnapshot updated, attempt, true⟩

/-- Mark the outcome of an attempt unknown without releasing its hold. -/
def markUnknownOutcome (attemptIdentity : String) : LedgerM RunBudgetAttempt := do
  Tx.check (validateAttemptIdentity attemptIdentity)
  let account ← lockAccount
  let attempt ← lockAttempt attemptIdentity
  let attempt ← (match attempt.status with
    | .settled =>
      Tx.raise (.ledger .attemptStateConflict
        "A settled attempt cannot be changed back to an unknown outcome.")
    | .reserved => do
      let marked := { attempt with status := .unknownOutcome }
      flushAttempt attempt marked
      pure marked
    | .unknownOutcome => pure attempt : LedgerM RunBudgetAttempt)
  -- Checked after the flush: the status is already written when this raises.
  Tx.guard (account.reservedAmount < attempt.reservedAmount)
    (.ledger .accountInvariant
      "The account does not retain the full unknown-outcome reservation.")
  pure attempt

structure SettleArgs where
  attemptIdentity : String
  amount : Decimal
  currency : String
  evidence : RunBudgetSettlementEvidence
  evidenceIdentity : String
  deriving DecidableEq, Repr

/-- `_assert_matching_settlement` -/
def assertMatchingSettlement (attempt : RunBudgetAttempt) (amount : ℕ) (args : SettleArgs) :
    Except RunBudgetError Unit :=
  if attempt.settlementAmount ≠ some amount ∨ attempt.settlementCurrency ≠ some args.currency ∨
      attempt.settlementEvidenceKind ≠ some args.evidence ∨
      attempt.settlementEvidenceIdentity ≠ some args.evidenceIdentity ∨
      attempt.settlementIsEstimate ≠ some (decide (args.evidence ≠ .providerBill)) then
    .error (.ledger .settlementConflict
      "The attempt was already settled with different evidence or amount.")
  else .ok ()

/-- The attempt row `settle` leaves. -/
def settledAttempt (attempt : RunBudgetAttempt) (amount : ℕ) (args : SettleArgs)
    (env : Environment) : RunBudgetAttempt :=
  { attempt with
    status := .settled
    settlementAmount := some amount
    settlementCurrency := some args.currency
    settlementEvidenceKind := some args.evidence
    settlementEvidenceIdentity := some args.evidenceIdentity
    settlementIsEstimate := some false
    settledAt := some env.now }

/-- Post a provider bill as the final settlement of an attempt. -/
def settle (args : SettleArgs) (env : Environment) : LedgerM RunBudgetSettlement := do
  Tx.check (validateAttemptIdentity args.attemptIdentity)
  let amount ← Tx.check (validateAmount args.amount "amount" true)
  Tx.check (validateCurrency args.currency)
  Tx.guard (args.evidence ≠ .providerBill)
    (.ledger .finalSettlementRequiresProviderBill
      "Only a verified provider bill can finalize and release a reservation.")
  Tx.check (validateEvidenceIdentity args.evidenceIdentity)
  let account ← lockAccount
  let attempt ← lockAttempt args.attemptIdentity
  Tx.guard (account.currency ≠ args.currency ∨ attempt.currency ≠ args.currency)
    (.ledger .currencyMismatch
      "The settlement currency differs from the attempt account currency.")
  if attempt.status = .settled then
    Tx.check (assertMatchingSettlement attempt amount args)
    pure ⟨accountSnapshot account, attempt, false⟩
  else
    Tx.guard (account.reservedAmount < attempt.reservedAmount)
      (.ledger .accountInvariant
        "The account does not retain the attempt's original reservation.")
    let newReserved := account.reservedAmount - attempt.reservedAmount
    let newSettled := account.settledAmount + amount
    Tx.guard (maxAmount < newReserved ∨ maxAmount < newSettled)
      (.ledger .amountPrecisionExceeded
        "The settlement cannot fit NUMERIC(20, 8); no ledger change was posted.")
    let updated := { account with reservedAmount := newReserved, settledAmount := newSettled }
    let final := settledAttempt attempt amount args env
    flushAttempt attempt final
    flushAccount account updated
    pure ⟨accountSnapshot updated, final, true⟩

/-! ## Sequences of transactions -/

/-- A call of a public operation, with its arguments. -/
inductive LedgerCall
  | createAccount (args : CreateAccountArgs)
  | reserve (args : ReserveArgs)
  | markUnknownOutcome (attemptIdentity : String)
  | settle (args : SettleArgs)
  deriving DecidableEq, Repr

/-- What a call returns. -/
inductive LedgerReply
  | account (snapshot : RunBudgetAccountSnapshot) (inserted : Bool)
  | reservation (result : RunBudgetReservation)
  | attempt (snapshot : RunBudgetAttempt)
  | settlement (result : RunBudgetSettlement)
  deriving DecidableEq, Repr

/-- The operation of a call. -/
def perform (env : Environment) : LedgerCall → LedgerM LedgerReply
  | .createAccount args => do
    let (snapshot, inserted) ← createAccount args
    pure (.account snapshot inserted)
  | .reserve args => do
    let result ← reserve args env
    pure (.reservation result)
  | .markUnknownOutcome attemptIdentity => do
    let snapshot ← markUnknownOutcome attemptIdentity
    pure (.attempt snapshot)
  | .settle args => do
    let result ← settle args env
    pure (.settlement result)

/-- One call in its own transaction, and whether the caller commits it. -/
structure Transaction where
  call : LedgerCall
  env : Environment
  commit : Bool
  deriving DecidableEq, Repr

/-- What the call of a transaction returns or raises. -/
def outcome (rows : LedgerRows) (t : Transaction) : Except RunBudgetError LedgerReply :=
  (perform t.env t.call rows).1

/-- The totals of the account are those of the attempt rows; attempt rows need an account. -/
def totalsAgree (rows : LedgerRows) : Bool :=
  match rows.account with
  | some account => (account.reservedAmount, account.settledAmount) =
      (heldTotal rows.attempts, settledTotal rows.attempts)
  | none => rows.attempts = []

/-- The rows after a transaction. The deferred trigger `run_budget_verify_account_totals` runs
at the commit of a transaction that wrote an attempt row. -/
def afterTransaction (rows : LedgerRows) (t : Transaction) : LedgerRows :=
  let written := (perform t.env t.call rows).2
  if t.commit = true ∧ (written.attempts = rows.attempts ∨ totalsAgree written) then written
  else rows

/-- The ledger of one run: no account and no attempt to begin with, then any transactions. -/
def ledger : System LedgerRows Transaction where
  init rows := rows.account = none ∧ rows.attempts = []
  step rows t := some (afterTransaction rows t)

end AgentHub.Ledger
