import Mathlib.Data.List.DropRight
import Mathlib.Tactic.Common

/-!
# Text as a sequence of code points

A text is a sequence of Unicode code points, lone surrogates included; only a text without
surrogates has a UTF-8 form. Whitespace is the set the interpreter's `str.isspace` and
`str.strip` use; it is a set of code points, so the same predicate serves every representation
of text.

## Main definitions

* `CodePoint`, `Text`: code points and sequences of them
* `Text.utf8Encode`: the UTF-8 codec
* `isSpaceCode`: the whitespace code points
* `strip`: a sequence without its leading and trailing elements of a kind
-/

namespace Lib

/-- The whitespace code points: the separators, the line and paragraph ends, and the ASCII
control characters that count as white. -/
def isSpaceCode (n : ℕ) : Bool :=
  (0x09 ≤ n && n ≤ 0x0D) || (0x1C ≤ n && n ≤ 0x20) || n == 0x85 || n == 0xA0 || n == 0x1680 ||
    (0x2000 ≤ n && n ≤ 0x200A) || n == 0x2028 || n == 0x2029 || n == 0x202F || n == 0x205F ||
    n == 0x3000

/-- `l` without the elements of `p` at its two ends. -/
def strip {α : Type*} (p : α → Bool) (l : List α) : List α := (l.dropWhile p).rdropWhile p

/-- A list whose ends do not belong to `p` stays as it is. -/
theorem strip_of_ends {α : Type*} {p : α → Bool} {a b : α} (ha : p a = false) (hb : p b = false)
    (l : List α) : strip p (a :: (l ++ [b])) = a :: (l ++ [b]) := by
  rw [strip, List.dropWhile_cons_of_neg (by simp [ha]), ← List.cons_append,
    List.rdropWhile_concat_neg _ _ _ (by simp [hb])]

theorem strip_eq_nil_iff {α : Type*} {p : α → Bool} {l : List α} :
    strip p l = [] ↔ ∀ a ∈ l, p a = true := by
  rw [strip, List.rdropWhile_eq_nil_iff]
  refine ⟨fun h => ?_, fun h a ha => h a (List.dropWhile_suffix p |>.subset ha)⟩
  cases hdrop : l.dropWhile p with
  | nil => exact List.dropWhile_eq_nil_iff.mp hdrop
  | cons a m =>
    have hhead := List.head?_dropWhile_not p l
    rw [hdrop] at hhead h
    exact absurd (h a List.mem_cons_self) (by simp [show p a = false from hhead])

/-- A code point: a Unicode scalar value or a lone surrogate, counted from `U+D800`. -/
inductive CodePoint
  | scalar (c : Char)
  | surrogate (n : Fin 2048)
  deriving DecidableEq, Repr

namespace CodePoint

/-- The number of a code point. -/
def code : CodePoint → ℕ
  | scalar c => c.toNat
  | surrogate n => 0xD800 + n

/-- The code point with a given number, which must be below `0x110000`. -/
def ofCode (n : ℕ) : CodePoint :=
  if n.isValidChar then scalar (Char.ofNat n) else surrogate (Fin.ofNat 2048 (n - 0xD800))

def isSurrogate : CodePoint → Bool
  | scalar _ => false
  | surrogate _ => true

def isSpace (c : CodePoint) : Bool := isSpaceCode c.code

theorem ofCode_code (c : CodePoint) : ofCode c.code = c := by
  cases c with
  | scalar c =>
    have hvalid : c.toNat.isValidChar := c.valid
    simp [ofCode, code, hvalid]
  | surrogate n =>
    have hn : ¬ (0xD800 + (n : ℕ)).isValidChar := by
      have := n.isLt
      simp only [Nat.isValidChar]
      omega
    simp [ofCode, code, hn]

theorem code_injective : Function.Injective code :=
  Function.LeftInverse.injective ofCode_code

end CodePoint

/-- A text. -/
abbrev Text := List CodePoint

namespace Text

/-- Texts are compared by their code points. -/
instance lawfulBEq : LawfulBEq Text := inferInstanceAs (LawfulBEq (List CodePoint))

instance lawfulBEq_triple : LawfulBEq (Text × Text × Text) := inferInstance

def ofString (s : String) : Text := s.toList.map .scalar

theorem ofString_injective : Function.Injective ofString := by
  intro s t h
  have hscalar : Function.Injective CodePoint.scalar := fun _ _ h => CodePoint.scalar.inj h
  exact String.toList_injective (List.map_injective_iff.mpr hscalar h)

@[simp] theorem ofString_inj {s t : String} : ofString s = ofString t ↔ s = t :=
  ofString_injective.eq_iff

theorem ofString_append (s t : String) : ofString (s ++ t) = ofString s ++ ofString t := by
  rw [ofString, String.toList_append, List.map_append]
  rfl

/-- The text of a literal, without a detour through its bytes. -/
theorem ofString_ofList (cs : List Char) : ofString (String.ofList cs) = cs.map .scalar := by
  rw [ofString, String.toList_ofList]

/-- The numbers of the code points, by which texts are ordered. -/
def codes (t : Text) : List ℕ := t.map CodePoint.code

theorem codes_injective : Function.Injective codes :=
  List.map_injective_iff.mpr CodePoint.code_injective

/-- No surrogate occurs, so that the text can be encoded. -/
def encodable (s : Text) : Bool := s.all fun c => !c.isSurrogate

/-- The scalar values of a text, where it has no surrogate. -/
def chars? : Text → Option (List Char)
  | [] => some []
  | .scalar c :: t => (chars? t).map (c :: ·)
  | .surrogate _ :: _ => none

/-- The UTF-8 form of a text; `none` is an encoding error. -/
def utf8Encode (t : Text) : Option (List UInt8) :=
  t.chars?.map fun cs => cs.flatMap String.utf8EncodeChar

end Text

end Lib
