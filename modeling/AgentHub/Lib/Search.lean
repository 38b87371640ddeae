import Mathlib.Order.Bounds.Basic
import Mathlib.Tactic.Common

/-!
# Searching for the largest number

A bisection between two bounds for the largest number that passes a test. Where every number below
one that passes also passes, it finds it; where none passes it returns the lower bound.

## Main definitions

* `searchLargest`: the loop
* `searchBest`: a loop that remembers the last number that passed

## Main results

* `searchLargest_spec`: what the loop returns between two bounds
* `searchLargest_zero`: the largest number that passes, or zero
* `searchBest_spec`, `searchBest_zero`: the same for the other loop
-/

namespace Lib

/-- The loop of a bisection. -/
def searchLargest (passes : ℕ → Bool) (low high : ℕ) : ℕ :=
  if low < high then
    let middle := (low + high + 1) / 2
    if passes middle then searchLargest passes middle high
    else searchLargest passes low (middle - 1)
  else low
  termination_by high - low

/-- The loop of a bisection of the numbers from `low` to before `stop`, which remembers the best one
that passed. -/
def searchBest (passes : ℕ → Bool) (low stop best : ℕ) : ℕ :=
  if low < stop then
    let middle := (low + stop - 1) / 2
    if passes middle then searchBest passes (middle + 1) stop middle
    else searchBest passes low middle best
  else best
  termination_by stop - low

variable {passes : ℕ → Bool} (hdown : ∀ m n, m ≤ n → passes n = true → passes m = true)

include hdown

/-- **What the loop returns**: a number between the bounds, above which none passes. -/
theorem searchLargest_spec {low high : ℕ} (hle : low ≤ high) :
    low ≤ searchLargest passes low high ∧ searchLargest passes low high ≤ high ∧
      (searchLargest passes low high = low ∨ passes (searchLargest passes low high) = true) ∧
      ∀ m, searchLargest passes low high < m → m ≤ high → passes m = false := by
  fun_induction searchLargest passes low high with
  | case1 low high hlt middle hpasses ih =>
    have hmiddle : low < middle ∧ middle ≤ high := by omega
    obtain ⟨hlow, hhigh, hfound, habove⟩ := ih hmiddle.2
    refine ⟨by omega, hhigh, .inr ?_, habove⟩
    rcases hfound with heq | hfound
    · rwa [heq]
    · exact hfound
  | case2 low high hlt middle hfails ih =>
    have hmiddle : low < middle ∧ middle ≤ high := by omega
    obtain ⟨hlow, hhigh, hfound, habove⟩ := ih (by omega)
    refine ⟨hlow, by omega, hfound, fun m hm hmhigh => ?_⟩
    -- beyond the middle nothing passes, because the middle does not
    rcases Nat.lt_or_ge m middle with hbelow | hbeyond
    · exact habove m hm (by omega)
    · exact Bool.eq_false_iff.mpr fun hm => hfails (hdown middle m hbeyond hm)
  | case3 low high hlt => exact ⟨le_rfl, hle, .inl rfl, fun m hm hmhigh => by omega⟩

/-- **The largest number that passes**, or zero where none does. -/
theorem searchLargest_zero (high : ℕ) :
    IsGreatest {n | n ≤ high ∧ passes n = true} (searchLargest passes 0 high) ∨
      searchLargest passes 0 high = 0 ∧ ∀ m ≤ high, passes m = false := by
  obtain ⟨-, hhigh, hfound, habove⟩ := searchLargest_spec hdown (Nat.zero_le high)
  by_cases hpasses : passes (searchLargest passes 0 high) = true
  · refine .inl ⟨⟨hhigh, hpasses⟩, fun m hm => ?_⟩
    by_contra hlt
    exact absurd hm.2 (by simp [habove m (not_le.mp hlt) hm.1])
  · have hzero := hfound.resolve_right hpasses
    refine .inr ⟨hzero, fun m _ => Bool.eq_false_iff.mpr fun hm => hpasses ?_⟩
    exact hdown _ m (by omega) hm

/-- **What the other loop returns**: the best number so far, or one in between that passes, above
which none does. -/
theorem searchBest_spec (low stop best : ℕ) :
    (searchBest passes low stop best = best ∧ ∀ m, low ≤ m → m < stop → passes m = false) ∨
      (low ≤ searchBest passes low stop best ∧ searchBest passes low stop best < stop ∧
        passes (searchBest passes low stop best) = true ∧
        ∀ m, searchBest passes low stop best < m → m < stop → passes m = false) := by
  fun_induction searchBest passes low stop best with
  | case1 low stop best hlt middle hpasses ih =>
    have hmiddle : low ≤ middle ∧ middle < stop := by omega
    refine .inr ?_
    rcases ih with ⟨heq, habove⟩ | ⟨hlow, hstop, hfound, habove⟩
    · rw [heq]
      exact ⟨hmiddle.1, hmiddle.2, hpasses, fun m hm hmstop => habove m hm hmstop⟩
    · exact ⟨by omega, hstop, hfound, habove⟩
  | case2 low stop best hlt middle hfails ih =>
    have hmiddle : low ≤ middle ∧ middle < stop := by omega
    -- beyond the middle nothing passes, because the middle does not
    have hbeyond (m : ℕ) (hm : middle ≤ m) : passes m = false :=
      Bool.eq_false_iff.mpr fun hpasses => hfails (hdown middle m hm hpasses)
    rcases ih with ⟨heq, hnone⟩ | ⟨hlow, hstop, hfound, habove⟩
    · refine .inl ⟨heq, fun m hm _ => ?_⟩
      rcases Nat.lt_or_ge m middle with hbelow | hm'
      · exact hnone m hm hbelow
      · exact hbeyond m hm'
    · refine .inr ⟨hlow, by omega, hfound, fun m hm _ => ?_⟩
      rcases Nat.lt_or_ge m middle with hbelow | hm'
      · exact habove m hm hbelow
      · exact hbeyond m hm'
  | case3 low stop best hlt => exact .inl ⟨rfl, fun m hm hmstop => by omega⟩

/-- **The largest number that passes**, or zero where none does. -/
theorem searchBest_zero (high : ℕ) :
    IsGreatest {n | n ≤ high ∧ passes n = true} (searchBest passes 0 (high + 1) 0) ∨
      searchBest passes 0 (high + 1) 0 = 0 ∧ ∀ m ≤ high, passes m = false := by
  rcases searchBest_spec hdown 0 (high + 1) 0 with ⟨heq, hnone⟩ | ⟨-, hstop, hfound, habove⟩
  · exact .inr ⟨heq, fun m hm => hnone m (Nat.zero_le m) (Nat.lt_succ_of_le hm)⟩
  · refine .inl ⟨⟨Nat.le_of_lt_succ hstop, hfound⟩, fun m hm => ?_⟩
    by_contra hlt
    exact absurd hm.2 (by simp [habove m (not_le.mp hlt) (Nat.lt_succ_of_le hm.1)])

end Lib
