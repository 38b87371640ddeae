import Mathlib.Data.Nat.Size
import Mathlib.Data.Nat.Digits.Lemmas
import Mathlib.Data.Nat.Log
import Mathlib.Tactic.Ring
import Mathlib.Tactic.Positivity

/-!
# Binary64 numbers and their decimal forms

A finite binary64 number is a sign and a magnitude, counted in units of `2 ^ -1074`; the
magnitudes are the numbers of at most 53 significant bits below `2 ^ 2098`. A decimal is read as
the nearest such number, ties to even, and a number is written as the shortest decimal that is
read back as it.

## Main definitions

* `Representable`, `Binary64`: the numbers
* `roundScaled`, `Binary64.ofDecimal`: reading a decimal
* `shortest`: the shortest decimal of a magnitude

## Main results

* `roundScaled_congr`: rounding depends on the value alone
* `roundScaled_of_representable`: a representable value is its own rounding
* `ofDecimal_shortest`: the shortest decimal is read back
-/

namespace Lib

/-! ## Rounding -/

/-- `a / d` to the nearest natural number, ties to even. -/
def roundHalfEven (a d : ℕ) : ℕ :=
  if 2 * (a % d) < d then a / d
  else if d < 2 * (a % d) then a / d + 1
  else if a / d % 2 = 0 then a / d
  else a / d + 1

/-- `a / d` to the nearest number of at most 53 significant bits, ties to even. -/
def roundScaled (a d : ℕ) : ℕ :=
  let unit := 2 ^ ((a / d).size - 53)
  roundHalfEven a (d * unit) * unit

/-- Magnitudes are counted in units of `2 ^ -1074`. -/
def unitExponent : ℕ := 1074

/-- The bound of the magnitudes: `2 ^ 1024` in units. -/
def scaledBound : ℕ := 2 ^ 2098

/-- A magnitude of at most 53 significant bits within the exponent range. -/
def Representable (n : ℕ) : Prop := n < scaledBound ∧ 2 ^ (n.size - 53) ∣ n

instance (n : ℕ) : Decidable (Representable n) := inferInstanceAs (Decidable (_ ∧ _))

section Rounding

variable {a b c d e : ℕ}

theorem roundHalfEven_mul_left (hc : 0 < c) (a d : ℕ) :
    roundHalfEven (c * a) (c * d) = roundHalfEven a d := by
  have hlt : ∀ x y, c * x < c * y ↔ x < y := fun x y => Nat.mul_lt_mul_left hc
  unfold roundHalfEven
  rw [Nat.mul_div_mul_left _ _ hc, Nat.mul_mod_mul_left]
  rw [show 2 * (c * (a % d)) = c * (2 * (a % d)) by ring]
  simp only [hlt]

/-- **Rounding depends on the value alone.** -/
theorem roundHalfEven_congr (hd : 0 < d) (he : 0 < e) (h : a * e = b * d) :
    roundHalfEven a d = roundHalfEven b e := by
  calc roundHalfEven a d = roundHalfEven (e * a) (e * d) := (roundHalfEven_mul_left he a d).symm
    _ = roundHalfEven (d * b) (d * e) := by rw [mul_comm e a, h, mul_comm b d, mul_comm e d]
    _ = roundHalfEven b e := roundHalfEven_mul_left hd b e

theorem roundHalfEven_of_dvd (hd : 0 < d) (h : d ∣ a) : roundHalfEven a d = a / d := by
  unfold roundHalfEven
  rw [Nat.mod_eq_zero_of_dvd h, mul_zero, if_pos hd]

theorem roundHalfEven_le (a d : ℕ) : roundHalfEven a d ≤ a / d + 1 := by
  unfold roundHalfEven
  split_ifs <;> omega

theorem div_congr (hd : 0 < d) (he : 0 < e) (h : a * e = b * d) : a / d = b / e := by
  rw [← Nat.mul_div_mul_left a d he, ← Nat.mul_div_mul_left b e hd, mul_comm e a, h,
    mul_comm b d, mul_comm e d]

/-- **Rounding depends on the value alone.** -/
theorem roundScaled_congr (hd : 0 < d) (he : 0 < e) (h : a * e = b * d) :
    roundScaled a d = roundScaled b e := by
  unfold roundScaled
  simp only [div_congr hd he h]
  congr 1
  refine roundHalfEven_congr (by positivity) (by positivity) ?_
  rw [← mul_assoc, h]
  ring

/-- **A representable value is its own rounding.** -/
theorem roundScaled_of_representable {n : ℕ} (h : Representable n) : roundScaled n 1 = n := by
  unfold roundScaled
  simp only [Nat.div_one, one_mul]
  rw [roundHalfEven_of_dvd (by positivity) h.2, Nat.div_mul_cancel h.2]

/-- A rounding within the exponent range is representable. -/
theorem representable_roundScaled (h : roundScaled a d < scaledBound) :
    Representable (roundScaled a d) := by
  refine ⟨h, ?_⟩
  unfold roundScaled
  simp only
  generalize hp : (a / d).size - 53 = p
  generalize hm : roundHalfEven a (d * 2 ^ p) = m
  have hsize : a / d < 2 ^ (53 + p) := Nat.size_le.mp (by omega)
  have hle : m ≤ 2 ^ 53 := by
    have hfloor : a / (d * 2 ^ p) < 2 ^ 53 := by
      rw [← Nat.div_div_eq_div_mul]
      exact Nat.div_lt_of_lt_mul (by rwa [← pow_add, add_comm p])
    rw [← hm]
    exact (roundHalfEven_le a _).trans hfloor
  rcases hle.lt_or_eq with hlt | rfl
  · -- at most 53 bits before the unit, so the unit alone is divisor enough
    have hbits : (m * 2 ^ p).size ≤ 53 + p := by
      rw [Nat.size_le, pow_add]
      exact Nat.mul_lt_mul_of_pos_right hlt (by positivity)
    exact (Nat.pow_dvd_pow 2 (by omega)).trans (Nat.dvd_mul_left _ m)
  · rw [← pow_add, Nat.size_pow]
    exact Nat.pow_dvd_pow 2 (by omega)

end Rounding

/-! ## Numbers -/

/-- A binary64 number: a sign and a magnitude in units of `2 ^ -1074`, an infinity, or not a
number. -/
inductive Binary64
  | finite (negative : Bool) (scaled : {n : ℕ // Representable n})
  | infinite (negative : Bool)
  | nan
  deriving DecidableEq

namespace Binary64

def isFinite : Binary64 → Bool
  | finite _ _ => true
  | _ => false

/-- The number nearest to `± digits * 10 ^ exponent`. -/
def ofDecimal (negative : Bool) (digits : ℕ) (exponent : ℤ) : Binary64 :=
  let n := roundScaled (digits * 10 ^ exponent.toNat * 2 ^ unitExponent) (10 ^ (-exponent).toNat)
  if h : n < scaledBound then finite negative ⟨n, representable_roundScaled h⟩
  else infinite negative

/-- Two decimals of one value are read as one number. -/
theorem ofDecimal_congr (negative : Bool) {d d' : ℕ} {k k' : ℤ}
    (h : d * 10 ^ k.toNat * 10 ^ (-k').toNat = d' * 10 ^ k'.toNat * 10 ^ (-k).toNat) :
    ofDecimal negative d k = ofDecimal negative d' k' := by
  have hround : roundScaled (d * 10 ^ k.toNat * 2 ^ unitExponent) (10 ^ (-k).toNat) =
      roundScaled (d' * 10 ^ k'.toNat * 2 ^ unitExponent) (10 ^ (-k').toNat) := by
    refine roundScaled_congr (by positivity) (by positivity) ?_
    rw [mul_right_comm, h]
    ring
  simp only [ofDecimal, hround]

/-- Zeros at the end of the digits move into the exponent. -/
theorem ofDecimal_mul_pow (negative : Bool) (d j : ℕ) (k : ℤ) :
    ofDecimal negative (d * 10 ^ j) k = ofDecimal negative d (k + j) := by
  refine ofDecimal_congr negative ?_
  have hexp : j + k.toNat + (-(k + j)).toNat = (k + j).toNat + (-k).toNat := by omega
  calc d * 10 ^ j * 10 ^ k.toNat * 10 ^ (-(k + j)).toNat
      = d * 10 ^ (j + k.toNat + (-(k + j)).toNat) := by rw [pow_add, pow_add]; ring
    _ = d * 10 ^ (k + j).toNat * 10 ^ (-k).toNat := by rw [hexp, pow_add]; ring

end Binary64

/-! ## Shortest decimals -/

/-- The decimal exponent of a positive magnitude. Every positive magnitude is at least
`10 ^ -324`. -/
def decimalExponent (n : ℕ) : ℤ := (Nat.log 10 (n * 10 ^ 324 / 2 ^ unitExponent) : ℤ) - 324

/-- The decimal is read as the magnitude `n`. -/
def readsAs (n digits : ℕ) (exponent : ℤ) : Bool :=
  roundScaled (digits * 10 ^ exponent.toNat * 2 ^ unitExponent) (10 ^ (-exponent).toNat) = n

/-- The natural number nearest to `num / den` among the two around it that `reads` accepts. -/
def nearestReading (reads : ℕ → Bool) (num den : ℕ) : Option ℕ :=
  match reads (num / den), reads (num / den + 1) with
  | true, true => some (roundHalfEven num den)
  | true, false => some (num / den)
  | false, true => some (num / den + 1)
  | false, false => none

/-- The decimal of `count` digits nearest to `n` among those that are read as `n`. -/
def shortestOf (n count : ℕ) : Option (ℕ × ℤ) :=
  let exponent := decimalExponent n - count + 1
  (nearestReading (readsAs n · exponent) (n * 10 ^ (-exponent).toNat)
    (2 ^ unitExponent * 10 ^ exponent.toNat)).map (·, exponent)

/-- **The shortest decimal** that is read as the magnitude `n`. Seventeen digits always do; the
exact expansion closes the search. -/
def shortest (n : ℕ) : ℕ × ℤ :=
  if n = 0 then (0, 0)
  else ((List.range 17).findSome? fun i => shortestOf n (i + 1)).getD
    (n * 5 ^ unitExponent, -unitExponent)

theorem roundHalfEven_eq_or (a d : ℕ) :
    roundHalfEven a d = a / d ∨ roundHalfEven a d = a / d + 1 := by
  unfold roundHalfEven
  split_ifs <;> simp

theorem reads_of_nearestReading {reads : ℕ → Bool} {num den d : ℕ}
    (h : nearestReading reads num den = some d) : reads d := by
  unfold nearestReading at h
  split at h
  · rename_i hbelow habove
    obtain rfl := Option.some.inj h
    rcases roundHalfEven_eq_or num den with heq | heq
    · rw [heq]
      exact hbelow
    · rw [heq]
      exact habove
  · rename_i hbelow _
    obtain rfl := Option.some.inj h
    exact hbelow
  · rename_i _ habove
    obtain rfl := Option.some.inj h
    exact habove
  · simp at h

/-- The exact expansion of a magnitude. -/
theorem readsAs_exact {n : ℕ} (h : Representable n) :
    readsAs n (n * 5 ^ unitExponent) (-unitExponent) := by
  have hneg : (-(unitExponent : ℤ)).toNat = 0 := by omega
  have hpos : (-(-(unitExponent : ℤ))).toNat = unitExponent := by omega
  have hround : roundScaled (n * 5 ^ unitExponent * 10 ^ 0 * 2 ^ unitExponent)
      (10 ^ unitExponent) = roundScaled n 1 := by
    refine roundScaled_congr (by positivity) Nat.one_pos ?_
    rw [pow_zero, mul_one, mul_one, mul_assoc, ← Nat.mul_pow]
  simp only [readsAs, decide_eq_true_eq, hneg, hpos]
  rw [hround, roundScaled_of_representable h]

theorem readsAs_shortest {n : ℕ} (h : Representable n) :
    readsAs n (shortest n).1 (shortest n).2 := by
  unfold shortest
  by_cases hn : n = 0
  · subst hn
    simp [readsAs, roundScaled, roundHalfEven]
  · rw [if_neg hn]
    cases hfind : (List.range 17).findSome? fun i => shortestOf n (i + 1) with
    | none => exact readsAs_exact h
    | some r =>
      obtain ⟨i, -, hi⟩ := List.exists_of_findSome?_eq_some hfind
      obtain ⟨d, hd, rfl⟩ := Option.map_eq_some_iff.mp hi
      exact reads_of_nearestReading hd

/-- **The shortest decimal is read back.** -/
theorem ofDecimal_shortest (negative : Bool) (n : {n : ℕ // Representable n}) :
    Binary64.ofDecimal negative (shortest n).1 (shortest n).2 = .finite negative n := by
  have hread := readsAs_shortest n.2
  simp only [readsAs, decide_eq_true_eq] at hread
  simp only [Binary64.ofDecimal, hread, n.2.1, dif_pos]

end Lib
