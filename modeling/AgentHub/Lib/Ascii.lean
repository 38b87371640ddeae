import AgentHub.Lib.Text

/-!
# ASCII characters

Classes of ASCII characters, and lower case.

## Main definitions

* `isDigit`, `isHexDigit`: digits
* `lower`: a text with its ASCII letters in lower case

## Main results

* `code_lowerChar`: the number of a character in lower case
* `lowerChar_eq_iff`: characters that are no letters
-/

namespace Lib.Ascii

def isDigit (c : CodePoint) : Bool := 48 ≤ c.code && c.code ≤ 57

def isHexDigit (c : CodePoint) : Bool :=
  isDigit c || (97 ≤ c.code && c.code ≤ 102) || (65 ≤ c.code && c.code ≤ 70)

/-- `str.lower`, of an ASCII character. -/
def lowerChar (c : CodePoint) : CodePoint :=
  if 65 ≤ c.code ∧ c.code ≤ 90 then .ofCode (c.code + 32) else c

def lower (t : Text) : Text := t.map lowerChar

theorem code_lowerChar (c : CodePoint) :
    (lowerChar c).code = if 65 ≤ c.code ∧ c.code ≤ 90 then c.code + 32 else c.code := by
  rw [lowerChar]
  split
  · next h =>
    have hvalid : (c.code + 32).isValidChar := .inl (by omega)
    rw [CodePoint.ofCode, if_pos hvalid, CodePoint.code]
    rw [Char.ofNat, dif_pos hvalid]
    rfl
  · rfl

/-- Character classes that do not tell the cases of a letter apart. -/
theorem isDigit_lowerChar (c : CodePoint) : isDigit (lowerChar c) = isDigit c := by
  have hcode := code_lowerChar c
  rw [Bool.eq_iff_iff]
  simp only [isDigit, Bool.and_eq_true, decide_eq_true_eq]
  split at hcode <;> omega

theorem isHexDigit_lowerChar (c : CodePoint) : isHexDigit (lowerChar c) = isHexDigit c := by
  have hcode := code_lowerChar c
  rw [Bool.eq_iff_iff]
  simp only [isHexDigit, isDigit, Bool.or_eq_true, Bool.and_eq_true, decide_eq_true_eq]
  split at hcode <;> omega

/-- A character that is no letter is only reached from itself. -/
theorem lowerChar_eq_iff {c d : CodePoint}
    (hd : d.code < 65 ∨ 90 < d.code ∧ d.code < 97 ∨ 122 < d.code) : lowerChar c = d ↔ c = d := by
  have hcode := code_lowerChar c
  rw [← CodePoint.code_injective.eq_iff, ← CodePoint.code_injective.eq_iff]
  split at hcode <;> omega

end Lib.Ascii
