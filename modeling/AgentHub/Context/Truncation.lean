import AgentHub.Context.Projection
import AgentHub.Lib.JsonSize
import AgentHub.Lib.Search
import Mathlib.Algebra.Order.Floor.Ring
import Mathlib.Algebra.Order.Round
import Mathlib.Data.Rat.Floor

/-!
# The longest text that fits

A string that does not fit its budget is cut where its JSON text still fits, and a bisection finds
the place. The estimator that comes with the application counts five eighths of a token for a wide
character and a quarter for another one, so that a longer prefix never counts less: its text has
the text of the shorter one inside, escapes included.

## Main definitions

* `languageAware`, `approxTokens`: the estimator, over the rationals and in whole numbers

## Main results

* `approxTokens_eq`: the two forms of the estimator agree
* `languageAware_quote_mono`: a longer prefix does not count less
* `stringPrefixLength_greatest`: the search finds the longest prefix that fits
-/

namespace AgentHub.Truncation

open Lib Context

/-! ## The estimator -/

section Estimator

variable (isWide : CodePoint → Bool)

/-- The number of wide characters, `W` or `F` in `unicodedata.east_asian_width`. -/
def wideChars (text : Text) : ℕ := (text.filter isWide).length

def otherChars (text : Text) : ℕ := text.length - wideChars isWide text

/-- `ApproxTokenEstimator.estimate`, over the rationals. -/
def languageAware : TokenEstimator := fun text =>
  ⌈((5 * wideChars isWide text + 2 * otherChars isWide text : ℕ) : ℚ) / 8⌉

/-- `ApproxTokenEstimator.estimate`: five eighths of a token for a wide character, a quarter for
another one, rounded up. -/
def approxTokens (text : Text) : ℤ :=
  let wide := (text.filter isWide).length
  ((5 * wide + 2 * (text.length - wide) + 7) / 8 : ℕ)

/-- Eighths of a token. -/
def eighths (c : CodePoint) : ℕ := if isWide c then 5 else 2

theorem sizeBy_eighths (text : Text) :
    sizeBy (eighths isWide) text = 5 * wideChars isWide text + 2 * otherChars isWide text := by
  have hle : wideChars isWide text ≤ text.length := List.length_filter_le ..
  have hsum : sizeBy (eighths isWide) text = 2 * text.length + 3 * wideChars isWide text := by
    induction text with
    | nil => rfl
    | cons c text ih =>
      have ih := ih (List.length_filter_le ..)
      cases hc : isWide c <;> simp [eighths, wideChars, hc, ih] <;> omega
  rw [hsum, otherChars]
  omega

/-- The estimate counts the eighths. -/
theorem languageAware_eq (text : Text) :
    languageAware isWide text = ⌈((sizeBy (eighths isWide) text : ℕ) : ℚ) / 8⌉ := by
  rw [sizeBy_eighths]
  rfl

/-- **The two forms of the estimator agree.** -/
theorem approxTokens_eq (text : Text) :
    approxTokens isWide text = languageAware isWide text := by
  have hceil (n : ℕ) : ⌈(n : ℚ) / 8⌉ = ((n + 7) / 8 : ℕ) := by
    obtain ⟨k, hk⟩ : ∃ k, k = (n + 7) / 8 := ⟨_, rfl⟩
    have hbelow : ((8 * k : ℕ) : ℚ) < (n + 8 : ℕ) := Nat.cast_lt.mpr (by omega)
    have habove : (n : ℚ) ≤ (8 * k : ℕ) := Nat.cast_le.mpr (by omega)
    push_cast at hbelow habove
    rw [← hk, Int.ceil_eq_iff, Int.cast_natCast]
    constructor
    · rw [lt_div_iff₀ (by norm_num)]
      linarith
    · rw [div_le_iff₀ (by norm_num)]
      linarith
  exact (hceil _).symm

theorem languageAware_nonneg (text : Text) : 0 ≤ languageAware isWide text :=
  Int.ceil_nonneg (by positivity)

/-- A text that measures no more does not count more. -/
theorem languageAware_mono {s t : Text}
    (h : sizeBy (eighths isWide) s ≤ sizeBy (eighths isWide) t) :
    languageAware isWide s ≤ languageAware isWide t := by
  rw [languageAware_eq, languageAware_eq]
  refine Int.ceil_le_ceil ?_
  gcongr

/-- **A longer prefix does not count less**: the text of the shorter one is inside. -/
theorem languageAware_quote_mono (value : Text) {m n : ℕ} (h : m ≤ n) :
    languageAware isWide (quote (value.take m)) ≤ languageAware isWide (quote (value.take n)) :=
  languageAware_mono isWide (noLonger_quote (List.take_prefix_take_left h)).size_le

end Estimator

/-! ## The search -/

/-- Where every prefix has an estimate, the loop is a search over the prefixes that fit. -/
theorem searchPrefix_eq {policy : ContextBudgetPolicy} {value : Text} {budget : ℤ}
    {estimate : ℕ → ℕ}
    (h : ∀ n, jsonEstimate policy (.str (value.take n)) = .ok (estimate n)) (low high : ℕ) :
    searchPrefix policy value budget low high =
      .ok (searchLargest (fun n => (estimate n : ℤ) ≤ budget) low high) := by
  fun_induction searchLargest (fun n => (estimate n : ℤ) ≤ budget) low high with
  | case1 low high hlt middle hfits ih =>
    rw [searchPrefix, dif_pos hlt]
    simp only [h, ok_bind]
    rw [if_pos (of_decide_eq_true hfits)]
    exact ih
  | case2 low high hlt middle hlong ih =>
    rw [searchPrefix, dif_pos hlt]
    simp only [h, ok_bind]
    rw [if_neg fun hfits => hlong (decide_eq_true hfits)]
    exact ih
  | case3 low high hlt => rw [searchPrefix, dif_neg hlt]

/-! ## The longest prefix that fits -/

/-- The JSON text of a string. -/
theorem jsonDumps_str (s : Text) : jsonDumps (.str s) = .ok (quote s) := rfl

/-- A prefix of the string has a JSON text whose estimate is within the budget. -/
def PrefixFits (isWide : CodePoint → Bool) (value : Text) (budget : ℤ) (n : ℕ) : Prop :=
  ∃ text, jsonDumps (.str (value.take n)) = .ok text ∧ languageAware isWide text ≤ budget

theorem prefixFits_iff {isWide : CodePoint → Bool} {value : Text} {budget : ℤ} {n : ℕ} :
    PrefixFits isWide value budget n ↔ languageAware isWide (quote (value.take n)) ≤ budget := by
  simp [PrefixFits, jsonDumps_str]

/-- **The search finds the longest prefix that fits**, or returns zero where none does. -/
theorem stringPrefixLength_greatest (isWide : CodePoint → Bool) (policy : ContextBudgetPolicy)
    (value : Text) (budget : ℤ) :
    ∃ n, stringPrefixLength { policy with estimator := languageAware isWide } value budget =
        .ok n ∧
      (IsGreatest {n | n ≤ value.length ∧ PrefixFits isWide value budget n} n ∨
        n = 0 ∧ ∀ m ≤ value.length, ¬ PrefixFits isWide value budget m) := by
  obtain ⟨estimate, hestimate⟩ : ∃ estimate : ℕ → ℕ, ∀ n,
      (estimate n : ℤ) = languageAware isWide (quote (value.take n)) :=
    ⟨fun n => (languageAware isWide (quote (value.take n))).toNat,
      fun n => Int.toNat_of_nonneg (languageAware_nonneg isWide _)⟩
  have hread (n : ℕ) : jsonEstimate { policy with estimator := languageAware isWide }
      (.str (value.take n)) = .ok (estimate n) := by
    have hnonneg := languageAware_nonneg isWide (quote (value.take n))
    rw [jsonEstimate, jsonDumps_str, ok_bind, checkedEstimate,
      raiseIf_eq_ok (u := ()) |>.mpr (not_lt.mpr hnonneg), ok_bind]
    change Except.ok (languageAware isWide (quote (value.take n))).toNat = _
    rw [← hestimate, Int.toNat_natCast]
  have hdown (m n : ℕ) (hmn : m ≤ n) (hn : decide ((estimate n : ℤ) ≤ budget) = true) :
      decide ((estimate m : ℤ) ≤ budget) = true := by
    rw [decide_eq_true_eq, hestimate] at hn ⊢
    exact (languageAware_quote_mono isWide value hmn).trans hn
  refine ⟨_, searchPrefix_eq hread 0 value.length, ?_⟩
  simpa [prefixFits_iff, ← hestimate] using searchLargest_zero hdown value.length

end AgentHub.Truncation
