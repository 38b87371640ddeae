import Mathlib.Algebra.Order.Field.Rat
import Mathlib.Algebra.Order.Floor.Ring
import Mathlib.Data.Rat.Floor
import Mathlib.Tactic.FieldSimp
import Mathlib.Tactic.Linarith
import Mathlib.Tactic.Positivity

/-!
# Rounding to decimal places

A rational number rounded to a number of decimal places, where a tie goes to the even neighbour.

## Main definitions

* `roundToEven`: the nearest integer
* `quantize`: the nearest number with the given decimal places

## Main results

* `abs_quantize_sub_le`: the error is at most half of the last place
-/

namespace Lib

/-- The nearest integer, or the even one of two. -/
def roundToEven (x : ℚ) : ℤ :=
  let below := ⌊x⌋
  if x - below < 1 / 2 then below
  else if 1 / 2 < x - below then below + 1
  else if below % 2 = 0 then below
  else below + 1

/-- The nearest number with `places` decimal places. -/
def quantize (places : ℕ) (x : ℚ) : ℚ := roundToEven (x * 10 ^ places) / 10 ^ places

theorem abs_roundToEven_sub_le (x : ℚ) : |(roundToEven x : ℚ) - x| ≤ 1 / 2 := by
  have hbelow := Int.floor_le x
  have habove := Int.lt_floor_add_one x
  rw [roundToEven, abs_le]
  split_ifs with hlow hhigh heven
  · constructor <;> linarith
  · push_cast
    constructor <;> linarith
  · constructor <;> linarith
  · push_cast
    constructor <;> linarith

/-- **The error is at most half of the last place.** -/
theorem abs_quantize_sub_le (places : ℕ) (x : ℚ) :
    |quantize places x - x| ≤ 1 / 2 / 10 ^ places := by
  have hpos : (0 : ℚ) < 10 ^ places := by positivity
  have hscaled : quantize places x - x =
      ((roundToEven (x * 10 ^ places) : ℚ) - x * 10 ^ places) / 10 ^ places := by
    rw [quantize]
    field_simp
  rw [hscaled, abs_div, abs_of_pos hpos]
  exact div_le_div_of_nonneg_right (abs_roundToEven_sub_le _) hpos.le

end Lib
