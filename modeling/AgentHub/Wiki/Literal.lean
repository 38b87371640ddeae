import AgentHub.Lib.Ascii
import AgentHub.Wiki.Organize

/-!
# Reading escaped text

The texts of a page are escaped for HTML and then for Markdown. A reader of the page sees what the
inline rules of CommonMark make of them: a backslash before ASCII punctuation stands for that
character, an entity or numeric character reference for its character, and everything else for
itself.

HTML escapes an apostrophe with a numeric reference. The number sign of that reference is then
escaped for Markdown, which breaks the reference: the reader sees its characters.

## Main definitions

* `Entities`: the named references a reader knows
* `decode`: what a reader sees
* `shown`: what a reader sees of one escaped character

## Main results

* `decode_eq`: a piece that is read as a whole
* `decode_literal`: what a reader sees of an escaped text
* `literal_reads_back_iff`: texts that are read back
-/

namespace AgentHub.Wiki

open Lib

/-! ## The inline rules -/

/-- Named character references, without the ampersand and the semicolon. -/
structure Entities where
  named : Text → Option Text
  amp : named (Text.ofString "amp") = some (Text.ofString "&")
  lt : named (Text.ofString "lt") = some (Text.ofString "<")
  gt : named (Text.ofString "gt") = some (Text.ofString ">")
  quot : named (Text.ofString "quot") = some (Text.ofString "\"")

def isAsciiPunctuation (c : CodePoint) : Bool :=
  33 ≤ c.code && c.code ≤ 47 || 58 ≤ c.code && c.code ≤ 64 || 91 ≤ c.code && c.code ≤ 96 ||
    123 ≤ c.code && c.code ≤ 126

def isAsciiAlphanumeric (c : CodePoint) : Bool :=
  Ascii.isDigit c || 65 ≤ c.code && c.code ≤ 90 || 97 ≤ c.code && c.code ≤ 122

/-- The value of a hexadecimal digit. -/
def hexValue? (c : CodePoint) : Option ℕ :=
  if Ascii.isDigit c then some (c.code - 48)
  else if 97 ≤ c.code ∧ c.code ≤ 102 then some (c.code - 87)
  else if 65 ≤ c.code ∧ c.code ≤ 70 then some (c.code - 55)
  else none

/-- The character of a number; a number that has none is shown as the replacement character. -/
def numbered? (n : ℕ) : Text :=
  if n = 0 ∨ ¬ n.isValidChar then [.ofCode 0xFFFD] else [.ofCode n]

/-- What stands before a semicolon, of characters of a class, and what follows it. -/
def upToSemicolon (p : CodePoint → Bool) (rest : Text) : Option (Text × Text) :=
  match rest.dropWhile p with
  | semicolon :: after => if semicolon = .scalar ';' then some (rest.takeWhile p, after) else none
  | [] => none

/-- A numeric reference, after its number sign. -/
def readNumber (rest : Text) : Option (Text × Text) :=
  match rest with
  | x :: digits =>
    if x = .scalar 'x' ∨ x = .scalar 'X' then
      match upToSemicolon (fun c => (hexValue? c).isSome) digits with
      | some (number, after) =>
        if 1 ≤ number.length ∧ number.length ≤ 6 then
          some (numbered? (number.foldl (fun n c => 16 * n + (hexValue? c).getD 0) 0), after)
        else none
      | none => none
    else
      match upToSemicolon Ascii.isDigit rest with
      | some (number, after) =>
        if 1 ≤ number.length ∧ number.length ≤ 7 then
          some (numbered? (number.foldl (fun n c => 10 * n + (c.code - 48)) 0), after)
        else none
      | none => none
  | [] => none

/-- A character reference, after its ampersand. -/
def readReference (entities : Entities) (rest : Text) : Option (Text × Text) :=
  match rest with
  | c :: number =>
    if c = .scalar '#' then readNumber number
    else
      match upToSemicolon isAsciiAlphanumeric rest with
      | some (name, after) => (entities.named name).map fun value => (value, after)
      | none => none
  | [] => none

/-- What stands after a backslash. -/
def readBackslash : Text → Text × Text
  | c :: after => if isAsciiPunctuation c then ([c], after) else ([.scalar '\\'], c :: after)
  | [] => ([.scalar '\\'], [])

/-- The first piece of a text as it is read, and what is left. -/
def decodeStep (entities : Entities) : Text → Option (Text × Text)
  | [] => none
  | c :: rest =>
    if c = .scalar '\\' then some (readBackslash rest)
    else if c = .scalar '&' then some ((readReference entities rest).getD ([c], rest))
    else some ([c], rest)

/-- Reading at most a number of pieces. -/
def decodeFrom (entities : Entities) : ℕ → Text → Text
  | 0, _ => []
  | fuel + 1, t =>
    match decodeStep entities t with
    | none => []
    | some (value, rest) => value ++ decodeFrom entities fuel rest

/-- What a reader sees of a line. Every piece has a character, so the pieces do not run out. -/
def decode (entities : Entities) (t : Text) : Text := decodeFrom entities t.length t

/-! ## Reading pieces -/

section Pieces

variable {entities : Entities} {t rest value : Text}

theorem length_upToSemicolon {p : CodePoint → Bool} {name after : Text}
    (h : upToSemicolon p rest = some (name, after)) : after.length < rest.length := by
  have hle := (List.dropWhile_sublist p (l := rest)).length_le
  rw [upToSemicolon] at h
  split at h
  · next semicolon after' hdrop =>
    split at h
    · cases h
      rw [hdrop, List.length_cons] at hle
      omega
    · cases h
  · cases h

theorem length_readNumber (h : readNumber t = some (value, rest)) : rest.length < t.length := by
  match t with
  | [] => cases h
  | x :: digits =>
    rw [readNumber] at h
    split at h
    · split at h
      · next number after hread =>
        split at h
        · cases h
          exact (length_upToSemicolon hread).trans (Nat.lt_succ_self _)
        · cases h
      · cases h
    · split at h
      · next number after hread =>
        split at h
        · cases h
          exact length_upToSemicolon hread
        · cases h
      · cases h

theorem length_readReference (h : readReference entities t = some (value, rest)) :
    rest.length < t.length := by
  match t with
  | [] => cases h
  | c :: number =>
    rw [readReference] at h
    split at h
    · exact (length_readNumber h).trans (Nat.lt_succ_self _)
    · split at h
      · next name after hread =>
        obtain ⟨value, -, heq⟩ := Option.map_eq_some_iff.mp h
        cases heq
        exact length_upToSemicolon hread
      · cases h

theorem length_readBackslash (t : Text) : (readBackslash t).2.length ≤ t.length := by
  match t with
  | [] => exact le_rfl
  | c :: after =>
    rw [readBackslash]
    split
    · exact Nat.le_succ _
    · exact le_rfl

/-- Every piece has a character. -/
theorem length_decodeStep (h : decodeStep entities t = some (value, rest)) :
    rest.length < t.length := by
  match t with
  | [] => cases h
  | c :: after =>
    rw [decodeStep] at h
    rw [List.length_cons]
    split at h
    · have hle := length_readBackslash after
      rw [Option.some_inj.mp h] at hle
      exact Nat.lt_succ_of_le hle
    split at h
    · cases href : readReference entities after with
      | none =>
        rw [href] at h
        cases h
        omega
      | some reference =>
        rw [href] at h
        cases h
        exact (length_readReference href).trans (Nat.lt_succ_self _)
    · cases h
      omega

/-- More pieces than characters change nothing. -/
theorem decodeFrom_congr {n m : ℕ} (hn : t.length ≤ n) (hm : t.length ≤ m) :
    decodeFrom entities n t = decodeFrom entities m t := by
  induction n generalizing m t with
  | zero =>
    obtain rfl : t = [] := List.length_eq_zero_iff.mp (Nat.le_zero.mp hn)
    cases m <;> rfl
  | succ n ih =>
    cases m with
    | zero =>
      obtain rfl : t = [] := List.length_eq_zero_iff.mp (Nat.le_zero.mp hm)
      rfl
    | succ m =>
      rw [decodeFrom, decodeFrom]
      cases hstep : decodeStep entities t with
      | none => rfl
      | some piece =>
        have hlt := length_decodeStep hstep
        dsimp only
        rw [ih (by omega) (show piece.2.length ≤ m by omega)]

/-- **A piece that is read as a whole.** -/
theorem decode_eq (h : decodeStep entities t = some (value, rest)) :
    decode entities t = value ++ decode entities rest := by
  have hlt := length_decodeStep h
  obtain ⟨n, hn⟩ : ∃ n, t.length = n + 1 := ⟨t.length - 1, by omega⟩
  rw [decode, hn, decodeFrom, h]
  dsimp only
  rw [decodeFrom_congr (show rest.length ≤ n by omega) le_rfl, decode]

theorem decode_plain {c : CodePoint} (hbackslash : c ≠ .scalar '\\') (hamp : c ≠ .scalar '&') :
    decode entities (c :: t) = c :: decode entities t := by
  have hstep : decodeStep entities (c :: t) = some ([c], t) := by
    rw [decodeStep, if_neg hbackslash, if_neg hamp]
  exact decode_eq hstep

theorem decode_escaped {c : CodePoint} (h : isAsciiPunctuation c = true) :
    decode entities (.scalar '\\' :: c :: t) = c :: decode entities t := by
  have hstep : decodeStep entities (.scalar '\\' :: c :: t) = some ([c], t) := by
    rw [decodeStep, if_pos rfl, readBackslash, if_pos h]
  exact decode_eq hstep

/-- A named reference. -/
theorem decode_named (name : Text) (hname : name.all isAsciiAlphanumeric = true) (hne : name ≠ [])
    (hvalue : entities.named name = some value) :
    decode entities (.scalar '&' :: (name ++ .scalar ';' :: t)) = value ++ decode entities t := by
  have hread : upToSemicolon isAsciiAlphanumeric (name ++ .scalar ';' :: t) = some (name, t) := by
    have hall := List.all_eq_true.mp hname
    rw [upToSemicolon, List.dropWhile_append_of_pos hall, List.takeWhile_append_of_pos hall]
    simp [show isAsciiAlphanumeric (.scalar ';') = false from by decide]
  have href : readReference entities (name ++ .scalar ';' :: t) = some (value, t) := by
    cases name with
    | nil => exact absurd rfl hne
    | cons c name =>
      have hc : c ≠ .scalar '#' := by
        rintro rfl
        simp [show isAsciiAlphanumeric (.scalar '#') = false from by decide] at hname
      rw [List.cons_append] at hread ⊢
      rw [readReference, if_neg hc, hread]
      simp [hvalue]
  have hstep : decodeStep entities (.scalar '&' :: (name ++ .scalar ';' :: t)) =
      some (value, t) := by
    rw [decodeStep, if_neg (by decide), if_pos rfl, href]
    rfl
  exact decode_eq hstep

/-- An ampersand before a backslash stands for itself. -/
theorem decode_amp_backslash :
    decode entities (.scalar '&' :: .scalar '\\' :: t) =
      .scalar '&' :: decode entities (.scalar '\\' :: t) := by
  have href : readReference entities (.scalar '\\' :: t) = none := by
    rw [readReference, if_neg (by decide), upToSemicolon]
    simp [show isAsciiAlphanumeric (.scalar '\\') = false from by decide]
  have hstep : decodeStep entities (.scalar '&' :: .scalar '\\' :: t) =
      some ([.scalar '&'], .scalar '\\' :: t) := by
    rw [decodeStep, if_neg (by decide), if_pos rfl, href]
    rfl
  exact decode_eq hstep

end Pieces

/-! ## Escaped texts -/

/-- What a reader sees of one escaped character. -/
def shown (c : CodePoint) : Text :=
  if c = .scalar '\x27' then Text.ofString "&#x27;" else [c]

theorem isAsciiPunctuation_of_special {c : CodePoint} (h : c ∈ markdownSpecial) :
    isAsciiPunctuation c = true := by
  have hall : ∀ c ∈ markdownSpecial, isAsciiPunctuation c = true := by decide
  exact hall c h

theorem literal_cons (c : CodePoint) (v : Text) : literal (c :: v) = literal [c] ++ literal v := by
  simp [literal]

/-- **One escaped character**, with what follows it. -/
theorem decode_literal_append (entities : Entities) (c : CodePoint) (t : Text) :
    decode entities (literal [c] ++ t) = shown c ++ decode entities t := by
  by_cases hamp : c = .scalar '&'
  · subst hamp
    exact decode_named (Text.ofString "amp") (by decide) (by decide) entities.amp
  by_cases hlt : c = .scalar '<'
  · subst hlt
    exact decode_named (Text.ofString "lt") (by decide) (by decide) entities.lt
  by_cases hgt : c = .scalar '>'
  · subst hgt
    exact decode_named (Text.ofString "gt") (by decide) (by decide) entities.gt
  by_cases hquot : c = .scalar '"'
  · subst hquot
    exact decode_named (Text.ofString "quot") (by decide) (by decide) entities.quot
  by_cases hapostrophe : c = .scalar '\x27'
  · -- the number sign of the reference is escaped, which takes the reference apart
    subst hapostrophe
    have hliteral : literal [.scalar '\x27'] = .scalar '&' :: .scalar '\\' :: .scalar '#' ::
        .scalar 'x' :: .scalar '2' :: .scalar '7' :: .scalar ';' :: [] := by decide
    rw [hliteral]
    simp only [List.cons_append, List.nil_append]
    rw [decode_amp_backslash, decode_escaped (by decide), decode_plain (by decide) (by decide),
      decode_plain (by decide) (by decide), decode_plain (by decide) (by decide),
      decode_plain (by decide) (by decide)]
    rfl
  have hescape : htmlEscape c = [c] := by simp [htmlEscape, hamp, hlt, hgt, hquot, hapostrophe]
  have hshown : shown c = [c] := if_neg hapostrophe
  rw [hshown]
  by_cases hspecial : c ∈ markdownSpecial
  · have hliteral : literal [c] = [.scalar '\\', c] := by simp [literal, hescape, hspecial]
    rw [hliteral]
    exact decode_escaped (isAsciiPunctuation_of_special hspecial)
  · have hliteral : literal [c] = [c] := by simp [literal, hescape, hspecial]
    rw [hliteral]
    refine decode_plain (fun hbackslash => hspecial ?_) hamp
    rw [hbackslash]
    decide

/-- **What a reader sees of an escaped text.** -/
theorem decode_literal (entities : Entities) (v : Text) :
    decode entities (literal v) = v.flatMap shown := by
  induction v with
  | nil => rfl
  | cons c v ih => rw [literal_cons, decode_literal_append, ih, List.flatMap_cons]

/-- **A text is read back** where it has no apostrophe. -/
theorem literal_reads_back_iff (entities : Entities) (v : Text) :
    decode entities (literal v) = v ↔ CodePoint.scalar '\x27' ∉ v := by
  rw [decode_literal]
  constructor
  · -- an apostrophe is shown as six characters
    intro heq hmem
    have hlength : ∀ w : Text, w.length ≤ (w.flatMap shown).length ∧
        (CodePoint.scalar '\x27' ∈ w → w.length < (w.flatMap shown).length) := by
      intro w
      induction w with
      | nil => simp
      | cons c w ih =>
        rw [List.flatMap_cons, List.length_append, List.length_cons]
        by_cases hc : c = .scalar '\x27'
        · have hsix : (shown c).length = 6 := by rw [hc]; rfl
          omega
        · have hone : (shown c).length = 1 := by rw [shown, if_neg hc]; rfl
          refine ⟨by omega, fun hmem => ?_⟩
          have hlt := ih.2 ((List.mem_cons.mp hmem).resolve_left (Ne.symm hc))
          omega
    exact absurd ((hlength v).2 hmem) (by rw [heq]; exact lt_irrefl _)
  · intro hnone
    induction v with
    | nil => rfl
    | cons c v ih =>
      rw [List.mem_cons, not_or] at hnone
      rw [List.flatMap_cons, ih hnone.2, shown, if_neg (Ne.symm hnone.1)]
      rfl

/-- A reader that knows the references of HTML escaping. -/
def basicEntities : Entities where
  named name :=
    if name = Text.ofString "amp" then some (Text.ofString "&")
    else if name = Text.ofString "lt" then some (Text.ofString "<")
    else if name = Text.ofString "gt" then some (Text.ofString ">")
    else if name = Text.ofString "quot" then some (Text.ofString "\"")
    else none
  amp := by decide
  lt := by decide
  gt := by decide
  quot := by decide

/-- A contraction is shown with a character reference. -/
theorem literal_shows_reference :
    literal (Text.ofString "don\x27t") = Text.ofString "don&\\#x27;t" ∧
      decode basicEntities (literal (Text.ofString "don\x27t")) = Text.ofString "don&#x27;t" ∧
      decode basicEntities (literal (Text.ofString "don\x27t")) ≠ Text.ofString "don\x27t" := by
  decide +kernel

end AgentHub.Wiki
