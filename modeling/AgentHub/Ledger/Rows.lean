import AgentHub.Lib.Table
import AgentHub.Lib.Text
import AgentHub.Lib.Tx
import Mathlib.Data.Nat.Digits.Defs

/-!
# The run budget ledger: rows, validation and database guards

The persistent state of the budget of one run: its account row, if any, and its attempt rows.
Amounts are `NUMERIC(20, 8)`, so they are counted in units of `10 ^ -8`. A write of a row passes
the triggers and check constraints of the schema, which raise on their own.

## Main definitions

* `RunBudgetAccount`, `RunBudgetAttempt`, `LedgerRows`: the rows of one run
* `validateAmount`, `validateCurrency`, `validateBoundedText`: argument validation
* `heldTotal`, `settledTotal`: what the attempt rows explain of the account totals
* `flushNewAttempt`, `flushAttempt`, `flushAccount`: writes, with the guards of the schema
-/

namespace AgentHub.Ledger

open Lib

/-- The provider-call class sharing the run account. -/
inductive RunBudgetAttemptKind
  | mainModel | retry | fallback | summary | auxiliary
  deriving DecidableEq, Repr

/-- Declared basis for a prospective dispatch reservation. -/
inductive RunBudgetReservationBasis
  | estimate | conservativeMaximum
  deriving DecidableEq, Repr

/-- Durable accounting state, independent of provider execution state. -/
inductive RunBudgetAttemptStatus
  | reserved | unknownOutcome | settled
  deriving DecidableEq, Repr

/-- Evidence retained for reconciliation. -/
inductive RunBudgetSettlementEvidence
  | responseEstimate | conservativeCharge | providerBill
  deriving DecidableEq, Repr

/-- The codes of `RunBudgetLedgerError`. -/
inductive RunBudgetErrorCode
  | runNotFound | accountUnavailable | accountConflict | accountNotFound | accountInvariant
  | conservativeMaximumRequired | currencyMismatch | insufficientFunds
  | attemptConflict | attemptNotFound | attemptStateConflict
  | finalSettlementRequiresProviderBill | settlementConflict | amountPrecisionExceeded
  deriving DecidableEq, Repr

/-- What a ledger operation raises: a ledger error, a `ValueError` of argument validation, or an
exception of the database. -/
inductive RunBudgetError
  | ledger (code : RunBudgetErrorCode) (message : String)
  | value (message : String)
  | database (message : String)
  deriving DecidableEq, Repr

/-- One fixed-currency account shared by every attempt of the run. -/
structure RunBudgetAccount where
  currency : String
  limitAmount : ℕ
  reservedAmount : ℕ
  settledAmount : ℕ
  deriving DecidableEq, Repr

/-- A reservation identity with its settlement evidence. -/
structure RunBudgetAttempt where
  id : ℕ
  attemptIdentity : String
  attemptKind : RunBudgetAttemptKind
  reservedAmount : ℕ
  currency : String
  reservationBasis : RunBudgetReservationBasis
  status : RunBudgetAttemptStatus
  settlementAmount : Option ℕ
  settlementCurrency : Option String
  settlementEvidenceKind : Option RunBudgetSettlementEvidence
  settlementEvidenceIdentity : Option String
  settlementIsEstimate : Option Bool
  settledAt : Option ℕ
  createdAt : ℕ
  deriving DecidableEq, Repr

/-- The rows of one run: whether the run exists, its account and its attempts. -/
structure LedgerRows where
  runExists : Bool
  account : Option RunBudgetAccount
  attempts : List RunBudgetAttempt
  deriving DecidableEq, Repr

abbrev LedgerM := Tx LedgerRows RunBudgetError

/-! ## Argument validation -/

def amountPrecision : ℕ := 20
def amountScale : ℕ := 8
/-- `MAX_AMOUNT`, `999999999999.99999999`, in units of `10 ^ -8`. -/
def maxAmount : ℕ := 99999999999999999999
def maxAttemptIdentityLength : ℕ := 128
def maxEvidenceIdentityLength : ℕ := 256

/-- A `Decimal` argument: its sign, coefficient and exponent as `as_tuple` gives them. -/
inductive Decimal
  | finite (signed : Bool) (coefficient : ℕ) (exponent : ℤ)
  | infinity (signed : Bool)
  | nan
  deriving DecidableEq, Repr

/-- `coefficient * 10 ^ exponent` is more than `MAX_AMOUNT`; one of the two powers is `1`. -/
def exceedsMaxAmount (coefficient : ℕ) (exponent : ℤ) : Bool :=
  maxAmount * 10 ^ (-(exponent + amountScale)).toNat <
    coefficient * 10 ^ (exponent + amountScale).toNat

def integerDigits (coefficient : ℕ) (exponent : ℤ) : ℤ :=
  if 0 ≤ exponent then (Nat.digits 10 coefficient).length + exponent
  else max ((Nat.digits 10 coefficient).length + exponent) 0

/-- `_validate_amount`: the amount in units of `10 ^ -8`. -/
def validateAmount (value : Decimal) (field : String) (allowZero : Bool) :
    Except RunBudgetError ℕ :=
  match value with
  | .finite signed coefficient exponent =>
    if signed || (coefficient == 0 && !allowZero) then
      .error (.value (field ++ " must be " ++ if allowZero then "non-negative" else "positive"))
    else if exceedsMaxAmount coefficient exponent then
      .error (.value (field ++ " exceeds NUMERIC(20, 8)"))
    else if exponent < -(amountScale : ℤ) then
      .error (.value (field ++ " cannot have more than 8 decimal places"))
    else if coefficient ≠ 0 ∧
        (amountPrecision : ℤ) - amountScale < integerDigits coefficient exponent then
      .error (.value (field ++ " exceeds NUMERIC(20, 8)"))
    else .ok (coefficient * 10 ^ (exponent + amountScale).toNat)
  | _ => .error (.value (field ++ " must be finite"))

def validateCurrency (value : String) : Except RunBudgetError Unit :=
  if value.toList.length ≠ 3 ∨ value.toList.any (fun c => !('A' ≤ c && c ≤ 'Z')) then
    .error (.value "currency must be exactly three uppercase ASCII letters")
  else .ok ()

def validateBoundedText (value field : String) (maximum : ℕ) : Except RunBudgetError Unit :=
  if value.toList = [] ∨ value.toList ≠ strip (fun c => isSpaceCode c.toNat) value.toList then
    .error (.value (field ++ " must be non-empty without surrounding whitespace"))
  else if maximum < value.toList.length then
    .error (.value (field ++ " exceeds " ++ toString maximum ++ " characters"))
  else if value.toList.any (fun c => c.toNat == 0) then
    .error (.value (field ++ " cannot contain NUL"))
  else .ok ()

def validateAttemptIdentity (value : String) : Except RunBudgetError Unit :=
  validateBoundedText value "attempt_identity" maxAttemptIdentityLength

def validateEvidenceIdentity (value : String) : Except RunBudgetError Unit :=
  validateBoundedText value "evidence_identity" maxEvidenceIdentityLength

/-- A validated amount fits `NUMERIC(20, 8)`, and is positive where zero is not allowed. -/
theorem validateAmount_ok {value : Decimal} {field : String} {allowZero : Bool} {n : ℕ}
    (h : validateAmount value field allowZero = .ok n) :
    n ≤ maxAmount ∧ (allowZero = false → 0 < n) := by
  cases value with
  | infinity _ => simp [validateAmount] at h
  | nan => simp [validateAmount] at h
  | finite signed coefficient exponent =>
    simp only [validateAmount] at h
    split_ifs at h with hsign hmax hscale hdigits
    obtain rfl := Except.ok.inj h
    constructor
    · have hle : ¬ (exceedsMaxAmount coefficient exponent = true) := hmax
      have hexp : (-(exponent + amountScale)).toNat = 0 := by omega
      simp only [exceedsMaxAmount, hexp, pow_zero, mul_one, decide_eq_true_eq, not_lt] at hle
      exact hle
    · intro hz
      subst hz
      have hc : coefficient ≠ 0 := by
        rintro rfl
        simp at hsign
      exact Nat.mul_pos (Nat.pos_of_ne_zero hc) (by positivity)

/-! ## What the attempt rows explain -/

/-- The statuses whose hold is still charged to the account. -/
def RunBudgetAttemptStatus.isHeld : RunBudgetAttemptStatus → Bool
  | .reserved | .unknownOutcome => true
  | .settled => false

/-- The hold of an attempt, while it is charged. -/
def RunBudgetAttempt.held (a : RunBudgetAttempt) : ℕ :=
  if a.status.isHeld then a.reservedAmount else 0

/-- The settlement amount of a settled attempt; `SUM` skips a null. -/
def RunBudgetAttempt.billed (a : RunBudgetAttempt) : ℕ :=
  if a.status = .settled then a.settlementAmount.getD 0 else 0

/-- The sum of the holds of the attempts in state `RESERVED` or `UNKNOWN_OUTCOME`. -/
def heldTotal (attempts : List RunBudgetAttempt) : ℕ := (attempts.map RunBudgetAttempt.held).sum

/-- The sum of the settlement amounts of the `SETTLED` attempts. -/
def settledTotal (attempts : List RunBudgetAttempt) : ℕ :=
  (attempts.map RunBudgetAttempt.billed).sum

/-- The attempt row with an identity. -/
def findAttempt (attempts : List RunBudgetAttempt) (identity : String) :
    Option RunBudgetAttempt :=
  Table.find (·.attemptIdentity) attempts identity

/-- The attempt rows with the row of `a`'s identity replaced. -/
def replaceAttempt (attempts : List RunBudgetAttempt) (a : RunBudgetAttempt) :
    List RunBudgetAttempt :=
  Table.modify (·.attemptIdentity) attempts a.attemptIdentity fun _ => a

/-! ## Guards of the schema -/

/-- The columns of a settlement are null together, and only a settled attempt has them. -/
def SettlementShape (a : RunBudgetAttempt) : Prop :=
  (a.status = .settled → a.settlementAmount.isSome ∧ a.settlementCurrency = some a.currency ∧
    a.settlementEvidenceKind = some .providerBill ∧ a.settlementEvidenceIdentity.isSome ∧
    a.settlementIsEstimate = some false ∧ a.settledAt.isSome) ∧
  (a.status ≠ .settled → a.settlementAmount = none ∧ a.settlementCurrency = none ∧
    a.settlementEvidenceKind = none ∧ a.settlementEvidenceIdentity = none ∧
    a.settlementIsEstimate = none ∧ a.settledAt = none)

instance (a : RunBudgetAttempt) : Decidable (SettlementShape a) :=
  inferInstanceAs (Decidable (_ ∧ _))

/-- The check constraints of an attempt row. -/
def AttemptChecks (a : RunBudgetAttempt) : Prop :=
  0 < a.reservedAmount ∧ a.reservationBasis = .conservativeMaximum ∧ SettlementShape a

instance (a : RunBudgetAttempt) : Decidable (AttemptChecks a) :=
  inferInstanceAs (Decidable (_ ∧ _ ∧ _))

/-- `run_budget_guard_attempt_evidence` on an insert, with the unique and check constraints. -/
def guardAttemptInsert (rows : LedgerRows) (a : RunBudgetAttempt) : Except RunBudgetError Unit :=
  if rows.account.map (·.currency) ≠ some a.currency then
    .error (.database "Run budget attempt currency must match its account currency")
  else if a.status ≠ .reserved ∨ ¬ SettlementShape a then
    .error (.database "Run budget attempts must start reserved")
  else if ¬ AttemptChecks a then .error (.database "ck_run_budget_attempts")
  else if (findAttempt rows.attempts a.attemptIdentity).isSome then
    .error (.database "uq_run_budget_attempts_identity")
  else .ok ()

/-- The columns of an attempt row that no update changes. -/
def RunBudgetAttempt.reservation (a : RunBudgetAttempt) :
    ℕ × String × RunBudgetAttemptKind × ℕ × String × RunBudgetReservationBasis × ℕ :=
  (a.id, a.attemptIdentity, a.attemptKind, a.reservedAmount, a.currency, a.reservationBasis,
    a.createdAt)

/-- The settlement columns of an attempt row. -/
def RunBudgetAttempt.settlement (a : RunBudgetAttempt) :
    Option ℕ × Option String × Option RunBudgetSettlementEvidence × Option String × Option Bool ×
      Option ℕ :=
  (a.settlementAmount, a.settlementCurrency, a.settlementEvidenceKind,
    a.settlementEvidenceIdentity, a.settlementIsEstimate, a.settledAt)

/-- The transitions of an attempt's status the schema allows. -/
def statusMayBecome : RunBudgetAttemptStatus → RunBudgetAttemptStatus → Bool
  | .reserved, _ => true
  | .unknownOutcome, .unknownOutcome => true
  | .unknownOutcome, .settled => true
  | .settled, .settled => true
  | _, _ => false

/-- `run_budget_guard_attempt_evidence` on an update, with the check constraints. -/
def guardAttemptUpdate (rows : LedgerRows) (old new : RunBudgetAttempt) :
    Except RunBudgetError Unit :=
  if rows.account.map (·.currency) ≠ some new.currency then
    .error (.database "Run budget attempt currency must match its account currency")
  else if new.reservation ≠ old.reservation then
    .error (.database "Run budget attempt identity is immutable")
  else if new.settlementCurrency.isSome ∧ new.settlementCurrency ≠ some new.currency then
    .error (.database "Run budget settlement currency must match the attempt currency")
  else if old.status = .settled ∧ new.status ≠ .settled then
    .error (.database "Settled Run budget attempts are terminal")
  else if statusMayBecome old.status new.status = false then
    .error (.database "Run budget attempt transition is invalid")
  else if old.settlementAmount.isSome ∧ new.settlement ≠ old.settlement then
    .error (.database "Run budget settlement evidence is immutable")
  else if ¬ AttemptChecks new then .error (.database "ck_run_budget_attempts")
  else .ok ()

/-- `run_budget_guard_account_identity` on an update, with the bounds check of the row. -/
def guardAccountUpdate (old new : RunBudgetAccount) (attempts : List RunBudgetAttempt) :
    Except RunBudgetError Unit :=
  if (new.currency, new.limitAmount) ≠ (old.currency, old.limitAmount) then
    .error (.database "Run budget account identity is immutable")
  else if old.reservedAmount < new.reservedAmount ∧
      new.limitAmount < new.reservedAmount + new.settledAmount then
    .error (.database "Run budget cannot add an over-limit reservation")
  else if (new.reservedAmount, new.settledAmount) ≠ (old.reservedAmount, old.settledAmount) ∧
      (new.reservedAmount, new.settledAmount) ≠ (heldTotal attempts, settledTotal attempts) then
    .error (.database "Run budget account totals do not match retained attempts")
  else if new.limitAmount < new.reservedAmount then
    .error (.database "ck_run_budget_accounts_reserved_bounds")
  else .ok ()

/-! ## Writes -/

/-- Insert an attempt row. -/
def flushNewAttempt (a : RunBudgetAttempt) : LedgerM Unit := do
  let rows ← Tx.read id
  Tx.check (guardAttemptInsert rows a)
  Tx.write fun rows => { rows with attempts := rows.attempts ++ [a] }

/-- Update the attempt row `old` to `new`. -/
def flushAttempt (old new : RunBudgetAttempt) : LedgerM Unit := do
  let rows ← Tx.read id
  Tx.check (guardAttemptUpdate rows old new)
  Tx.write fun rows => { rows with attempts := replaceAttempt rows.attempts new }

/-- Update the account row `old` to `new`. -/
def flushAccount (old new : RunBudgetAccount) : LedgerM Unit := do
  let rows ← Tx.read id
  Tx.check (guardAccountUpdate old new rows.attempts)
  Tx.write fun rows => { rows with account := some new }

end AgentHub.Ledger
