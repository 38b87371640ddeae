import AgentHub.Lib.Binary64
import AgentHub.Lib.Text
import Mathlib.Tactic.FinCases

/-!
# Decimal numerals

The numerals of JSON texts: a sign, a whole part without superfluous zeros, a fraction and an
exponent. Integers and binary64 numbers are written as numerals, the latter in the shortest form
that is read back, with an exponent when the point is far from the digits.

## Main definitions

* `decimalDigits`, `digitsValue`: digits of a number and back
* `Numeral`, `Numeral.render`, `scanNumeral`: numerals and their texts
* `Numeral.ofInt`, `Numeral.ofMagnitude`: the numerals of integers and binary64 numbers

## Main results

* `scanNumeral_render`: a numeral is scanned back from its text
* `toInt_ofInt`, `toBinary64_ofMagnitude`: numerals denote the numbers they were made from
-/

namespace Lib

/-! ## Digits -/

abbrev Digit := Fin 10

/-- The code point of a digit. -/
def digitPoint (d : Digit) : CodePoint := .scalar (Char.ofNat (48 + d))

theorem digit_lt (c : Char) (h : 48 ≤ c.toNat ∧ c.toNat < 58) : c.toNat - 48 < 10 := by omega

/-- The digit of a code point. -/
def digit? : CodePoint → Option Digit
  | .scalar c => if h : 48 ≤ c.toNat ∧ c.toNat < 58 then some ⟨c.toNat - 48, digit_lt c h⟩ else none
  | .surrogate _ => none

@[simp] theorem digit?_digitPoint (d : Digit) : digit? (digitPoint d) = some d := by
  revert d
  decide

/-- The value of digits, the most significant first. -/
def digitsValue (ds : List Digit) : ℕ := Nat.ofDigits 10 (ds.map Fin.val).reverse

/-- The decimal digits of a number, the most significant first. -/
def decimalDigits (n : ℕ) : List Digit :=
  if n = 0 then [0] else ((Nat.digits 10 n).map (Fin.ofNat 10)).reverse

theorem digitsValue_append (a b : List Digit) :
    digitsValue (a ++ b) = digitsValue a * 10 ^ b.length + digitsValue b := by
  simp [digitsValue, Nat.ofDigits_append]
  ring

@[simp] theorem digitsValue_nil : digitsValue [] = 0 := rfl

@[simp] theorem digitsValue_replicate_zero (n : ℕ) : digitsValue (List.replicate n 0) = 0 := by
  simp [digitsValue, Nat.ofDigits_replicate_zero]

theorem digitsValue_zero_cons (ds : List Digit) : digitsValue (0 :: ds) = digitsValue ds := by
  rw [show (0 : Digit) :: ds = [0] ++ ds from rfl, digitsValue_append]
  simp [digitsValue]

/-- Zeros at the end multiply by a power of ten. -/
theorem digitsValue_append_zeros (ds : List Digit) (n : ℕ) :
    digitsValue (ds ++ List.replicate n 0) = digitsValue ds * 10 ^ n := by
  rw [digitsValue_append, digitsValue_replicate_zero, List.length_replicate, add_zero]

theorem digitsValue_decimalDigits (n : ℕ) : digitsValue (decimalDigits n) = n := by
  unfold decimalDigits
  split_ifs with hn
  · rw [hn]
    rfl
  · have hval : ((Nat.digits 10 n).map (Fin.ofNat 10)).map Fin.val = Nat.digits 10 n := by
      rw [List.map_map]
      refine (List.map_congr_left fun d hd => ?_).trans (List.map_id _)
      exact Nat.mod_eq_of_lt (Nat.digits_lt_base (by norm_num) hd)
    rw [digitsValue, List.map_reverse, List.reverse_reverse, hval, Nat.ofDigits_digits]

/-- The digits of a positive number do not start with zero. -/
theorem decimalDigits_eq_cons {n : ℕ} (hn : n ≠ 0) :
    ∃ d ds, decimalDigits n = d :: ds ∧ d ≠ 0 := by
  have hne : Nat.digits 10 n ≠ [] := Nat.digits_ne_nil_iff_ne_zero.mpr hn
  obtain ⟨init, last, hlast⟩ := (List.eq_nil_or_concat _).resolve_left hne
  rw [List.concat_eq_append] at hlast
  refine ⟨Fin.ofNat 10 last, (init.map (Fin.ofNat 10)).reverse, ?_, ?_⟩
  · rw [decimalDigits, if_neg hn, hlast]
    simp
  · have hzero : last ≠ 0 := by
      have := Nat.getLast_digit_ne_zero 10 hn
      simpa [hlast] using this
    have hlt : last < 10 := Nat.digits_lt_base (m := n) (by norm_num) (by rw [hlast]; simp)
    rw [Ne, Fin.ext_iff]
    simpa [Nat.mod_eq_of_lt hlt] using hzero

theorem decimalDigits_ne_nil (n : ℕ) : decimalDigits n ≠ [] := by
  by_cases hn : n = 0
  · rw [hn]
    simp [decimalDigits]
  · obtain ⟨d, ds, hds, -⟩ := decimalDigits_eq_cons hn
    simp [hds]

/-- The decimal digits of a number as a text. -/
def decimalText (n : ℕ) : Text := (decimalDigits n).map digitPoint

theorem decimalText_injective : Function.Injective decimalText := by
  intro m n h
  have hpoint : Function.Injective digitPoint := fun d e hde =>
    Option.some.inj (by rw [← digit?_digitPoint d, hde, digit?_digitPoint])
  rw [← digitsValue_decimalDigits m, List.map_injective_iff.mpr hpoint h,
    digitsValue_decimalDigits]

/-! ## Numerals -/

/-- A decimal numeral. An empty fraction is none; an exponent has a sign and digits. -/
structure Numeral where
  negative : Bool
  whole : List Digit
  fraction : List Digit
  exponent : Option (Bool × List Digit)
  deriving DecidableEq, Repr

namespace Numeral

/-- The parts a text can show: a whole part that is zero or does not start with it, and an
exponent with digits. -/
structure WellFormed (n : Numeral) : Prop where
  whole : n.whole = [0] ∨ ∃ d ds, n.whole = d :: ds ∧ d ≠ 0
  exponent : ∀ negative ds, n.exponent = some (negative, ds) → ds ≠ []

def fractionText : List Digit → Text
  | [] => []
  | ds => .scalar '.' :: ds.map digitPoint

def exponentText : Option (Bool × List Digit) → Text
  | none => []
  | some (negative, ds) =>
    .scalar 'e' :: .scalar (if negative then '-' else '+') :: ds.map digitPoint

/-- The text of a numeral. -/
def render (n : Numeral) : Text :=
  (if n.negative then [.scalar '-'] else []) ++ n.whole.map digitPoint ++
    fractionText n.fraction ++ exponentText n.exponent

/-- The numeral has neither a fraction nor an exponent. -/
def isInteger (n : Numeral) : Bool := n.fraction.isEmpty && n.exponent.isNone

def toInt (n : Numeral) : ℤ := if n.negative then -digitsValue n.whole else digitsValue n.whole

/-- The exponent as a number. -/
def scale : Option (Bool × List Digit) → ℤ
  | none => 0
  | some (true, ds) => -digitsValue ds
  | some (false, ds) => digitsValue ds

def toBinary64 (n : Numeral) : Binary64 :=
  .ofDecimal n.negative (digitsValue (n.whole ++ n.fraction))
    (scale n.exponent - n.fraction.length)

end Numeral

/-! ## Scanning -/

/-- The digits at the front of a text, and what follows them. -/
def spanDigits : Text → List Digit × Text
  | [] => ([], [])
  | c :: s =>
    match digit? c with
    | some d => (d :: (spanDigits s).1, (spanDigits s).2)
    | none => ([], c :: s)

def scanSign : Text → Bool × Text
  | .scalar '-' :: s => (true, s)
  | s => (false, s)

/-- `0`, or digits that do not start with it. -/
def scanWhole : Text → Option (List Digit × Text)
  | [] => none
  | c :: s =>
    match digit? c with
    | none => none
    | some d => if d = 0 then some ([0], s) else some (d :: (spanDigits s).1, (spanDigits s).2)

/-- A point and digits; otherwise nothing is read. -/
def scanFraction : Text → List Digit × Text
  | .scalar '.' :: s => if (spanDigits s).1 = [] then ([], .scalar '.' :: s) else spanDigits s
  | s => ([], s)

/-- A sign that may be left out. -/
def scanExponentSign : Text → Bool × Text
  | .scalar '-' :: s => (true, s)
  | .scalar '+' :: s => (false, s)
  | s => (false, s)

/-- `e`, a sign that may be left out, and digits; otherwise nothing is read. -/
def scanExponent (s : Text) : Option (Bool × List Digit) × Text :=
  match s with
  | .scalar c :: t =>
    if c = 'e' ∨ c = 'E' then
      let (negative, t) := scanExponentSign t
      if (spanDigits t).1 = [] then (none, s)
      else (some (negative, (spanDigits t).1), (spanDigits t).2)
    else (none, s)
  | _ => (none, s)

/-- The numeral at the front of a text. -/
def scanNumeral (s : Text) : Option (Numeral × Text) :=
  let (negative, s) := scanSign s
  (scanWhole s).map fun (whole, s) =>
    let (fraction, s) := scanFraction s
    let (exponent, s) := scanExponent s
    (⟨negative, whole, fraction, exponent⟩, s)

/-- A numeral ends before the text: it does not go on with a digit, a point or an exponent. -/
def EndsNumeral : Text → Prop
  | [] => True
  | c :: _ => digit? c = none ∧ c ≠ .scalar '.' ∧ c ≠ .scalar 'e' ∧ c ≠ .scalar 'E'

section Scanning

variable {rest : Text}

/-- The text does not start with a digit. -/
def NoDigit (s : Text) : Prop := ∀ c t, s = c :: t → digit? c = none

theorem EndsNumeral.noDigit (h : EndsNumeral rest) : NoDigit rest := by
  rintro c s rfl
  exact h.1

theorem spanDigits_render (ds : List Digit) (h : NoDigit rest) :
    spanDigits (ds.map digitPoint ++ rest) = (ds, rest) := by
  induction ds with
  | nil =>
    cases rest with
    | nil => rfl
    | cons c s => simp [spanDigits, h c s rfl]
  | cons d ds ih => simp [spanDigits, ih]

theorem scanSign_digitPoint (d : Digit) (s : Text) :
    scanSign (digitPoint d :: s) = (false, digitPoint d :: s) := by
  fin_cases d <;> rfl

theorem scanExponentSign_render (negative : Bool) (s : Text) :
    scanExponentSign (.scalar (if negative then '-' else '+') :: s) = (negative, s) := by
  cases negative <;> rfl

theorem scanWhole_render {ds : List Digit} (hds : ds = [0] ∨ ∃ d es, ds = d :: es ∧ d ≠ 0)
    (h : NoDigit rest) : scanWhole (ds.map digitPoint ++ rest) = some (ds, rest) := by
  rcases hds with rfl | ⟨d, es, rfl, hd⟩
  · rfl
  · simp [scanWhole, hd, spanDigits_render es h]

theorem scanFraction_render (ds : List Digit) (h : NoDigit rest)
    (hpoint : ∀ s, rest ≠ .scalar '.' :: s) :
    scanFraction (Numeral.fractionText ds ++ rest) = (ds, rest) := by
  cases ds with
  | nil =>
    rw [Numeral.fractionText, List.nil_append]
    unfold scanFraction
    split
    · rename_i s
      exact absurd rfl (hpoint s)
    · rfl
  | cons d ds =>
    have hspan := spanDigits_render (d :: ds) h
    simp only [Numeral.fractionText, List.cons_append, scanFraction]
    rw [hspan]
    simp

theorem scanExponent_render {e : Option (Bool × List Digit)}
    (he : ∀ negative ds, e = some (negative, ds) → ds ≠ []) (h : EndsNumeral rest) :
    scanExponent (Numeral.exponentText e ++ rest) = (e, rest) := by
  cases e with
  | none =>
    rw [Numeral.exponentText, List.nil_append]
    unfold scanExponent
    split
    · rename_i c t
      have hc : ¬ (c = 'e' ∨ c = 'E') := by
        rintro (rfl | rfl)
        · exact h.2.2.1 rfl
        · exact h.2.2.2 rfl
      rw [if_neg hc]
    · rfl
  | some r =>
    obtain ⟨negative, ds⟩ := r
    have hspan := spanDigits_render ds h.noDigit
    simp [Numeral.exponentText, scanExponent, scanExponentSign_render, hspan, he negative ds rfl]

/-- An exponent starts with a letter. -/
theorem exponentText_append (e : Option (Bool × List Digit)) (h : EndsNumeral rest) :
    NoDigit (Numeral.exponentText e ++ rest) ∧
      ∀ s, Numeral.exponentText e ++ rest ≠ .scalar '.' :: s := by
  cases e with
  | none =>
    refine ⟨h.noDigit, ?_⟩
    rintro s rfl
    exact h.2.1 rfl
  | some r =>
    constructor
    · intro c t hc
      simp only [Numeral.exponentText, List.cons_append, List.cons.injEq] at hc
      rw [← hc.1]
      rfl
    · simp [Numeral.exponentText]

/-- A fraction starts with a point. -/
theorem noDigit_fractionText_append (ds : List Digit) (h : NoDigit rest) :
    NoDigit (Numeral.fractionText ds ++ rest) := by
  cases ds with
  | nil => exact h
  | cons d ds =>
    intro c t hc
    simp only [Numeral.fractionText, List.cons_append, List.cons.injEq] at hc
    rw [← hc.1]
    rfl

/-- **A numeral is scanned back from its text.** -/
theorem scanNumeral_render {n : Numeral} (hn : n.WellFormed) (h : EndsNumeral rest) :
    scanNumeral (n.render ++ rest) = some (n, rest) := by
  obtain ⟨negative, whole, fraction, exponent⟩ := n
  obtain ⟨hdigit, hpoint⟩ := exponentText_append exponent h
  have hsign : scanSign ((if negative then [.scalar '-'] else []) ++ (whole.map digitPoint ++
      (Numeral.fractionText fraction ++ (Numeral.exponentText exponent ++ rest)))) =
      (negative, whole.map digitPoint ++
        (Numeral.fractionText fraction ++ (Numeral.exponentText exponent ++ rest))) := by
    cases negative with
    | true => rfl
    | false =>
      -- without a sign the text starts with a digit of the whole part
      obtain ⟨d, ds, hds⟩ : ∃ d ds, whole = d :: ds := by
        rcases hn.whole with h₀ | ⟨d, ds, h₀, -⟩
        · exact ⟨0, [], h₀⟩
        · exact ⟨d, ds, h₀⟩
      simpa [hds] using scanSign_digitPoint d _
  unfold scanNumeral Numeral.render
  simp only [List.append_assoc]
  rw [hsign]
  simp only [scanWhole_render hn.whole (noDigit_fractionText_append fraction hdigit),
    Option.map_some, scanFraction_render fraction hdigit hpoint,
    scanExponent_render hn.exponent h]

end Scanning

/-! ## Numerals of integers -/

/-- The numeral of an integer. -/
def Numeral.ofInt (i : ℤ) : Numeral := ⟨i < 0, decimalDigits i.natAbs, [], none⟩

theorem wellFormed_ofInt (i : ℤ) : (Numeral.ofInt i).WellFormed := by
  refine ⟨?_, by simp [Numeral.ofInt]⟩
  by_cases hi : i.natAbs = 0
  · exact Or.inl (by simp [Numeral.ofInt, hi, decimalDigits])
  · exact Or.inr (decimalDigits_eq_cons hi)

/-- **The numeral of an integer denotes it.** -/
theorem toInt_ofInt (i : ℤ) : (Numeral.ofInt i).toInt = i := by
  unfold Numeral.toInt Numeral.ofInt
  rw [digitsValue_decimalDigits]
  by_cases hi : i < 0
  · simp only [hi, decide_true, if_true]
    omega
  · simp only [hi, decide_false, Bool.false_eq_true, if_false]
    omega

/-! ## Numerals of binary64 numbers -/

/-- At least two digits. -/
def exponentDigits (n : ℕ) : List Digit := if n < 10 then [0, Fin.ofNat 10 n] else decimalDigits n

/-- **The numeral of `± digits * 10 ^ exponent`**, without the zeros at the end of the digits.
The exponent is written when the point stands more than 16 digits after the first digit or more
than three zeros before it. -/
def Numeral.ofDecimal (negative : Bool) (digits : ℕ) (exponent : ℤ) : Numeral :=
  let ds := decimalDigits digits
  let point : ℤ := ds.length + exponent
  let ds := ds.rdropWhile (· = 0)
  if point ≤ -4 ∨ 16 < point then
    ⟨negative, [ds.headD 0], ds.tail, some (point - 1 < 0, exponentDigits (point - 1).natAbs)⟩
  else if point ≤ 0 then ⟨negative, [0], List.replicate (-point).toNat 0 ++ ds, none⟩
  else if point < ds.length then ⟨negative, ds.take point.toNat, ds.drop point.toNat, none⟩
  else ⟨negative, ds ++ List.replicate (point - ds.length).toNat 0, [0], none⟩

/-- The numeral of a finite binary64 number. -/
def Numeral.ofMagnitude (negative : Bool) (n : ℕ) : Numeral :=
  Numeral.ofDecimal negative (shortest n).1 (shortest n).2

section Decimal

/-- Digits are those that are left without zeros at the end, and the zeros. -/
theorem eq_rdropWhile_append_zeros (ds : List Digit) :
    ∃ n, ds = ds.rdropWhile (· = 0) ++ List.replicate n 0 := by
  induction ds using List.reverseRecOn with
  | nil => exact ⟨0, by simp⟩
  | append_singleton ds d ih =>
    obtain ⟨n, hn⟩ := ih
    by_cases hd : d = 0
    · refine ⟨n + 1, ?_⟩
      rw [List.rdropWhile_concat_pos _ _ _ (by simpa using hd), List.replicate_succ',
        ← List.append_assoc, ← hn, hd]
    · exact ⟨0, by rw [List.rdropWhile_concat_neg _ _ _ (by simpa using hd)]; simp⟩

theorem exponentDigits_ne_nil (n : ℕ) : exponentDigits n ≠ [] := by
  unfold exponentDigits
  split_ifs
  · simp
  · exact decimalDigits_ne_nil n

theorem digitsValue_exponentDigits (n : ℕ) : digitsValue (exponentDigits n) = n := by
  unfold exponentDigits
  split_ifs with hn
  · simp [digitsValue, Nat.ofDigits_cons, Nat.mod_eq_of_lt hn]
  · exact digitsValue_decimalDigits n

theorem scale_exponentDigits (i : ℤ) :
    Numeral.scale (some (i < 0, exponentDigits i.natAbs)) = i := by
  by_cases hi : i < 0
  · simp only [hi, decide_true, Numeral.scale, digitsValue_exponentDigits]
    omega
  · simp only [hi, decide_false, Numeral.scale, digitsValue_exponentDigits]
    omega

variable {negative : Bool} {digits : ℕ} {exponent : ℤ}

/-- **A numeral denotes the decimal it was made from.** -/
theorem toBinary64_ofDecimal (hzero : digits = 0 → exponent = 0) :
    (Numeral.ofDecimal negative digits exponent).toBinary64 =
      Binary64.ofDecimal negative digits exponent := by
  obtain ⟨zeros, hzeros⟩ := eq_rdropWhile_append_zeros (decimalDigits digits)
  have hvalue := digitsValue_decimalDigits digits
  have hpositive : digits = 0 → (decimalDigits digits).length + exponent = 1 := by
    intro h
    rw [h, hzero h]
    rfl
  unfold Numeral.ofDecimal
  simp only
  generalize hds : (decimalDigits digits).rdropWhile (· = 0) = ds at *
  generalize hpoint : ((decimalDigits digits).length : ℤ) + exponent = point at *
  -- without its last zeros the decimal has the digits `ds` and the exponent `point - ds.length`
  have hlen : point - ds.length = exponent + zeros := by
    rw [← hpoint, hzeros]
    simp
    ring
  have htarget : Binary64.ofDecimal negative digits exponent =
      Binary64.ofDecimal negative (digitsValue ds) (point - ds.length) := by
    rw [hlen, ← Binary64.ofDecimal_mul_pow, ← digitsValue_append_zeros, ← hzeros, hvalue]
  rw [htarget]
  split_ifs with hexp hsmall hshort
  · -- the exponent is written, and there is a first digit
    obtain ⟨d, es, rfl⟩ : ∃ d es, ds = d :: es := by
      refine List.exists_cons_of_ne_nil fun hnil => ?_
      have hdigits : digits = 0 := by
        rw [← hvalue, hzeros, hnil, digitsValue_append_zeros]
        simp
      have := hpositive hdigits
      omega
    simp only [Numeral.toBinary64, scale_exponentDigits, List.headD_cons, List.tail_cons,
      List.singleton_append, List.length_cons]
    refine congrArg (Binary64.ofDecimal negative _) ?_
    push_cast
    ring
  · simp only [Numeral.toBinary64, Numeral.scale, List.singleton_append, digitsValue_zero_cons,
      List.length_append, List.length_replicate]
    rw [digitsValue_append, digitsValue_replicate_zero, zero_mul, zero_add]
    refine congrArg (Binary64.ofDecimal negative _) ?_
    push_cast
    omega
  · simp only [Numeral.toBinary64, Numeral.scale, List.take_append_drop, List.length_drop]
    refine congrArg (Binary64.ofDecimal negative _) ?_
    omega
  · simp only [Numeral.toBinary64, Numeral.scale, List.append_assoc, List.length_singleton]
    rw [show List.replicate (point - ds.length).toNat (0 : Digit) ++ [0] =
      List.replicate ((point - ds.length).toNat + 1) 0 from List.replicate_succ'.symm,
      digitsValue_append_zeros, Binary64.ofDecimal_mul_pow]
    refine congrArg (Binary64.ofDecimal negative _) ?_
    push_cast
    omega

/-- The digits without their last zeros do not start with zero. -/
theorem rdropWhile_eq_nil_or (digits : ℕ) :
    digits = 0 ∨ ∃ d es, (decimalDigits digits).rdropWhile (· = 0) = d :: es ∧ d ≠ 0 := by
  by_cases h : digits = 0
  · exact Or.inl h
  · obtain ⟨d, es, hds, hd⟩ := decimalDigits_eq_cons h
    obtain ⟨zeros, hzeros⟩ := eq_rdropWhile_append_zeros (decimalDigits digits)
    refine Or.inr ?_
    generalize (decimalDigits digits).rdropWhile (· = 0) = ds at *
    cases ds with
    | nil =>
      -- all zeros, but the first digit is not zero
      rw [hds, List.nil_append] at hzeros
      have := List.eq_of_mem_replicate (hzeros ▸ List.mem_cons_self : d ∈ List.replicate zeros 0)
      exact absurd this hd
    | cons e fs =>
      rw [hds, List.cons_append] at hzeros
      exact ⟨e, fs, rfl, (List.cons.inj hzeros).1 ▸ hd⟩

/-- The numeral of a decimal can be shown, and is not taken for an integer. -/
theorem wellFormed_ofDecimal (hzero : digits = 0 → exponent = 0) :
    (Numeral.ofDecimal negative digits exponent).WellFormed ∧
      (Numeral.ofDecimal negative digits exponent).isInteger = false := by
  rcases rdropWhile_eq_nil_or digits with rfl | ⟨d, es, hds, hd⟩
  · have hnumeral : Numeral.ofDecimal negative 0 0 = ⟨negative, [0], [0], none⟩ := rfl
    rw [hzero rfl, hnumeral]
    exact ⟨⟨Or.inl rfl, by simp⟩, rfl⟩
  · unfold Numeral.ofDecimal
    simp only [hds]
    generalize ((decimalDigits digits).length : ℤ) + exponent = point
    split_ifs with hexp hsmall hshort
    · refine ⟨⟨Or.inr ⟨d, [], rfl, hd⟩, ?_⟩, by simp [Numeral.isInteger]⟩
      intro negative ds hs
      obtain ⟨-, rfl⟩ := Prod.mk.inj (Option.some.inj hs)
      exact exponentDigits_ne_nil _
    · exact ⟨⟨Or.inl rfl, by simp⟩, by simp [Numeral.isInteger]⟩
    · obtain ⟨n, hn⟩ : ∃ n, point.toNat = n + 1 := ⟨point.toNat - 1, by omega⟩
      refine ⟨⟨Or.inr ⟨d, es.take n, by simp [hn], hd⟩, by simp⟩, ?_⟩
      simp only [List.length_cons] at hshort
      simp [Numeral.isInteger, hn]
      omega
    · exact ⟨⟨Or.inr ⟨d, _, rfl, hd⟩, by simp⟩, by simp [Numeral.isInteger]⟩

end Decimal

/-- A shortest decimal without digits is zero. -/
theorem shortest_eq_zero {n : ℕ} (h : Representable n) (hzero : (shortest n).1 = 0) :
    (shortest n).2 = 0 := by
  have hread := readsAs_shortest h
  rw [hzero] at hread
  have hn : n = 0 := by simpa [readsAs, roundScaled, roundHalfEven, eq_comm] using hread
  simp [shortest, hn]

/-- **The numeral of a binary64 number denotes it**, and is not taken for an integer. -/
theorem toBinary64_ofMagnitude (negative : Bool) (n : {n : ℕ // Representable n}) :
    (Numeral.ofMagnitude negative n).toBinary64 = .finite negative n := by
  unfold Numeral.ofMagnitude
  rw [toBinary64_ofDecimal (shortest_eq_zero n.2), ofDecimal_shortest]

theorem wellFormed_ofMagnitude (negative : Bool) {n : ℕ} (h : Representable n) :
    (Numeral.ofMagnitude negative n).WellFormed ∧
      (Numeral.ofMagnitude negative n).isInteger = false :=
  wellFormed_ofDecimal (shortest_eq_zero h)

end Lib
