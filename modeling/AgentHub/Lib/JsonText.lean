import AgentHub.Lib.Json

/-!
# JSON texts

Writing and reading JSON texts as the interpreter's `json` module does with `ensure_ascii` off:
the writer escapes quotes, backslashes and control characters and may sort the members; the
reader hands each object and each non-finite constant to hooks, which may refuse it.

## Main definitions

* `Style`, `Json.render`, `Json.dumps`: writing
* `Loader`, `parseValue`, `loads`: reading
* `Recoding`: another way to write the code points of strings

## Main results

* `scanString_quote`: a string is read back from its text
* `Recoding.parseValue_text`: a value is read back from its recoded text, whatever follows
* `Recoding.loads_text`, `loads_render`: reading what was written
* `Json.dumps_eq_some`: what `json.dumps` writes
* `Json.render_injective`: a value is determined by its text
-/

namespace Lib

/-! ## Strings -/

/-- The code point of a hexadecimal digit below 16. -/
def hexPoint (d : ℕ) : CodePoint :=
  .scalar (if d < 10 then Char.ofNat (48 + d) else Char.ofNat (87 + d))

/-- The value of a hexadecimal digit, in either case. -/
def hexDigit? : CodePoint → Option ℕ
  | .scalar c =>
    if 48 ≤ c.toNat ∧ c.toNat < 58 then some (c.toNat - 48)
    else if 97 ≤ c.toNat ∧ c.toNat < 103 then some (c.toNat - 87)
    else if 65 ≤ c.toNat ∧ c.toNat < 71 then some (c.toNat - 55)
    else none
  | .surrogate _ => none

/-- The two-letter escapes: the code point and the letter after the backslash. -/
def shortEscapes : List (CodePoint × CodePoint) :=
  [(.scalar '"', .scalar '"'), (.scalar '\\', .scalar '\\'), (.scalar '\n', .scalar 'n'),
    (.scalar '\r', .scalar 'r'), (.scalar '\t', .scalar 't'),
    (.scalar (Char.ofNat 8), .scalar 'b'), (.scalar (Char.ofNat 12), .scalar 'f')]

/-- A code point inside a string. -/
def escape (c : CodePoint) : Text :=
  match shortEscapes.lookup c with
  | some letter => [.scalar '\\', letter]
  | none =>
    if c.code < 0x20 then
      [.scalar '\\', .scalar 'u', .scalar '0', .scalar '0', hexPoint (c.code / 16),
        hexPoint (c.code % 16)]
    else [c]

/-- A string with its quotes. -/
def quote (s : Text) : Text := .scalar '"' :: (s.flatMap escape ++ [.scalar '"'])

/-- The letters a backslash may stand before, and what they denote. -/
def escapeLetters : List (CodePoint × CodePoint) :=
  (.scalar '/', .scalar '/') :: shortEscapes.map Prod.swap

/-- Four hexadecimal digits. -/
def scanHex4 : Text → Option (ℕ × Text)
  | a :: b :: c :: d :: s => do
    let a ← hexDigit? a
    let b ← hexDigit? b
    let c ← hexDigit? c
    let d ← hexDigit? d
    some (4096 * a + 256 * b + 16 * c + d, s)
  | _ => none

/-- A low surrogate written as an escape. -/
def scanLowSurrogate (s : Text) : Option (ℕ × Text) :=
  match s with
  | .scalar '\\' :: .scalar 'u' :: s =>
    (scanHex4 s).filter fun r => 0xDC00 ≤ r.1 ∧ r.1 < 0xE000
  | _ => none

/-- After `\u`: a code unit, joined with the low surrogate after it if it is a high one. -/
def scanUnicode (s : Text) : Option (CodePoint × Text) :=
  (scanHex4 s).map fun (unit, s) =>
    if 0xD800 ≤ unit ∧ unit < 0xDC00 then
      match scanLowSurrogate s with
      | some (low, s) => (.ofCode (0x10000 + (unit - 0xD800) * 0x400 + (low - 0xDC00)), s)
      | none => (.ofCode unit, s)
    else (.ofCode unit, s)

/-- After a backslash. -/
def scanEscape : Text → Option (CodePoint × Text)
  | [] => none
  | c :: s => if c = .scalar 'u' then scanUnicode s else (escapeLetters.lookup c).map (·, s)

/-- One code point inside a string; control characters must be escaped. -/
def scanPoint : Text → Option (CodePoint × Text)
  | [] => none
  | c :: s =>
    if c = .scalar '\\' then scanEscape s
    else if c.code < 0x20 then none
    else some (c, s)

/-- A string up to its closing quote. Every code point takes one unit of fuel. -/
def scanString : ℕ → Text → Option (Text × Text)
  | 0, _ => none
  | _ + 1, [] => none
  | n + 1, c :: s =>
    if c = .scalar '"' then some ([], s)
    else
      (scanPoint (c :: s)).bind fun (x, s) => (scanString n s).map fun (xs, s) => (x :: xs, s)

section Strings

variable {rest : Text}

theorem hexDigit?_hexPoint {d : ℕ} (h : d < 16) : hexDigit? (hexPoint d) = some d := by
  revert d
  decide

/-- A control character is read back from its escape. -/
theorem scanUnicode_control {n : ℕ} (h : n < 0x20) :
    scanUnicode (.scalar '0' :: .scalar '0' :: hexPoint (n / 16) :: hexPoint (n % 16) :: rest) =
      some (.ofCode n, rest) := by
  have hzero : hexDigit? (.scalar '0') = some 0 := by decide
  have hhex : scanHex4 (.scalar '0' :: .scalar '0' :: hexPoint (n / 16) :: hexPoint (n % 16) ::
      rest) = some (4096 * 0 + 256 * 0 + 16 * (n / 16) + n % 16, rest) := by
    rw [scanHex4, hzero, hexDigit?_hexPoint (by omega), hexDigit?_hexPoint (by omega)]
    rfl
  have hvalue : 4096 * 0 + 256 * 0 + 16 * (n / 16) + n % 16 = n := by omega
  have hsmall : ¬ (0xD800 ≤ n ∧ n < 0xDC00) := by omega
  rw [scanUnicode, hhex, Option.map_some, hvalue]
  simp only [if_neg hsmall]

theorem escapeLetters_lookup {c letter : CodePoint} (h : shortEscapes.lookup c = some letter) :
    letter ≠ .scalar 'u' ∧ escapeLetters.lookup letter = some c := by
  have hall : ∀ kv ∈ shortEscapes, kv.2 ≠ .scalar 'u' ∧ escapeLetters.lookup kv.2 = some kv.1 := by
    decide
  have hmem : (c, letter) ∈ shortEscapes := by
    obtain ⟨l₁, l₂, hl, -⟩ := List.lookup_eq_some_iff.mp h
    rw [hl]
    simp
  exact hall _ hmem

/-- **A code point is read back from inside a string.** -/
theorem scanPoint_escape (c : CodePoint) (rest : Text) :
    scanPoint (escape c ++ rest) = some (c, rest) := by
  unfold escape
  cases hc : shortEscapes.lookup c with
  | some letter =>
    obtain ⟨hu, hletter⟩ := escapeLetters_lookup hc
    simp [scanPoint, scanEscape, hu, hletter]
  | none =>
    have hback : c ≠ .scalar '\\' := by
      rintro rfl
      exact absurd hc (by decide)
    by_cases hcontrol : c.code < 0x20
    · simp [hcontrol, scanPoint, scanEscape, scanUnicode_control hcontrol, CodePoint.ofCode_code]
    · simp [hcontrol, scanPoint, hback]

/-- What stands for a code point does not start with a quote. -/
theorem escape_eq_cons (c : CodePoint) : ∃ x s, escape c = x :: s ∧ x ≠ .scalar '"' := by
  unfold escape
  cases hc : shortEscapes.lookup c with
  | some letter => exact ⟨_, _, rfl, by decide⟩
  | none =>
    have hquote : c ≠ .scalar '"' := by
      rintro rfl
      exact absurd hc (by decide)
    by_cases hcontrol : c.code < 0x20
    · simp [hcontrol]
    · simp [hcontrol, hquote]

/-- **A string is read back from its text.** -/
theorem scanString_quote (s : Text) {n : ℕ} (hn : s.length < n) :
    scanString n (s.flatMap escape ++ .scalar '"' :: rest) = some (s, rest) := by
  induction s generalizing n with
  | nil =>
    obtain ⟨m, rfl⟩ := Nat.exists_eq_add_of_lt hn
    simp [scanString]
  | cons c s ih =>
    obtain ⟨m, rfl⟩ : ∃ m, n = m + 1 := ⟨n - 1, by simp at hn; omega⟩
    obtain ⟨x, t, hx, hquote⟩ := escape_eq_cons c
    have hpoint := scanPoint_escape c (s.flatMap escape ++ .scalar '"' :: rest)
    rw [List.flatMap_cons, List.append_assoc]
    rw [hx, List.cons_append] at hpoint ⊢
    rw [scanString, if_neg hquote, hpoint, Option.bind_some]
    simp only [ih (by simpa using hn : s.length < m), Option.map_some]

end Strings

/-! ## Writing -/

/-- How a text is laid out: whether members are sorted, and the blanks after the two
separators. -/
structure Style where
  sortKeys : Bool
  itemGap : ℕ
  keyGap : ℕ
  deriving DecidableEq, Repr

/-- A separator and its blanks. -/
def separator (c : Char) (gap : ℕ) : Text := .scalar c :: List.replicate gap (.scalar ' ')

namespace Json

mutual

/-- The text of a value, with the members of objects as they stand. -/
def render (st : Style) : Json → Text
  | .null => Text.ofString "null"
  | .bool true => Text.ofString "true"
  | .bool false => Text.ofString "false"
  | .int i => (Numeral.ofInt i).render
  | .float (.finite negative n) => (Numeral.ofMagnitude negative n).render
  | .float (.infinite false) => Text.ofString "Infinity"
  | .float (.infinite true) => Text.ofString "-Infinity"
  | .float .nan => Text.ofString "NaN"
  | .str s => quote s
  | .arr [] => Text.ofString "[]"
  | .arr (x :: xs) => .scalar '[' :: (x.render st ++ (renderElements st xs ++ [.scalar ']']))
  | .obj [] => [.scalar '\x7b', .scalar '\x7d']
  | .obj ((k, v) :: kvs) =>
    .scalar '\x7b' :: (quote k ++ (separator ':' st.keyGap ++
      (v.render st ++ (renderMembers st kvs ++ [.scalar '\x7d']))))

/-- The elements after the first. -/
def renderElements (st : Style) : List Json → Text
  | [] => []
  | x :: xs => separator ',' st.itemGap ++ (x.render st ++ renderElements st xs)

/-- The members after the first. -/
def renderMembers (st : Style) : List (Text × Json) → Text
  | [] => []
  | (k, v) :: kvs =>
    separator ',' st.itemGap ++ (quote k ++ (separator ':' st.keyGap ++
      (v.render st ++ renderMembers st kvs)))

end

/-- `sys.get_int_max_str_digits()` -/
def maxIntDigits : ℕ := 4300

/-- What `json.dumps` writes without `allow_nan`: finite numbers, and integers within the limit
of the conversion to text. -/
def writable (_ : ℕ) : Json → Bool
  | .int i => (decimalDigits i.natAbs).length ≤ maxIntDigits
  | .float x => x.isFinite
  | _ => true

/-- `json.dumps`; `none` is a `ValueError`. -/
def dumps (st : Style) (j : Json) : Option Text :=
  if j.allAt writable 0 then some ((if st.sortKeys then j.sorted else j).render st) else none

end Json

/-! ## Code points outside strings -/

/-- A code point that JSON texts have outside strings: printable, in ASCII and no backslash. -/
def isPlain (c : CodePoint) : Bool :=
  !c.isSurrogate && decide (c.code < 0x7f) && decide (c ≠ .scalar '\\')

theorem isPlain_numeral (n : Numeral) : n.render.all isPlain = true := by
  have hdigit : ∀ d : Digit, isPlain (digitPoint d) = true := by decide
  have hdot : isPlain (.scalar '.') = true := by decide
  have hexp : isPlain (.scalar 'e') = true := by decide
  have hminus : isPlain (.scalar '-') = true := by decide
  have hsign : ∀ negative : Bool, isPlain (.scalar (if negative then '-' else '+')) = true := by
    decide
  have hfraction : (Numeral.fractionText n.fraction).all isPlain = true := by
    unfold Numeral.fractionText
    split <;> simp [hdot, hdigit]
  have hexponent : (Numeral.exponentText n.exponent).all isPlain = true := by
    unfold Numeral.exponentText
    split <;> simp [hexp, hsign, hdigit]
  rw [Numeral.render]
  split_ifs
  · simp [hminus, hdigit, List.all_append, hfraction, hexponent]
  · simp [hdigit, List.all_append, hfraction, hexponent]

theorem isPlain_separator {c : Char} (hc : isPlain (.scalar c) = true) (gap : ℕ) :
    (separator c gap).all isPlain = true := by
  have hblank : isPlain (.scalar ' ') = true := by decide
  simp [separator, hc, hblank]

/-! ## Reading -/

/-- The constants outside JSON. -/
inductive Constant
  | nan | infinity | negInfinity
  deriving DecidableEq, Repr

/-- The hooks of a reader. -/
structure Loader (ε : Type) where
  objectPairsHook : List (Text × Json) → Except ε (List (Text × Json))
  parseConstant : Constant → Except ε Json

/-- A text that is not JSON, or an exception of a hook. -/
inductive LoadError (ε : Type)
  | invalid
  | raised (e : ε)
  deriving DecidableEq, Repr

def isJsonSpace (c : CodePoint) : Bool :=
  c = .scalar ' ' || c = .scalar '\t' || c = .scalar '\n' || c = .scalar '\r'

def skipSpace (s : Text) : Text := s.dropWhile isJsonSpace

/-- What follows `word` at the front of a text. -/
def expect : Text → Text → Option Text
  | [], s => some s
  | _ :: _, [] => none
  | c :: word, d :: s => if c = d then expect word s else none

def literals : List (Text × Json) :=
  [(Text.ofString "null", .null), (Text.ofString "true", .bool true),
    (Text.ofString "false", .bool false)]

def constants : List (Text × Constant) :=
  [(Text.ofString "NaN", .nan), (Text.ofString "Infinity", .infinity),
    (Text.ofString "-Infinity", .negInfinity)]

/-- The first word of a table at the front of a text. -/
def scanWord {α : Type} (words : List (Text × α)) (s : Text) : Option (α × Text) :=
  words.findSome? fun (word, x) => (expect word s).map (x, ·)

section Loader

variable {ε : Type} (L : Loader ε)

/-- A hook's answer. -/
def fromHook {α : Type} (r : Except ε α) (rest : Text) : Except (LoadError ε) (α × Text) :=
  match r with
  | .ok a => .ok (a, rest)
  | .error e => .error (.raised e)

def parseNumber (s : Text) : Except (LoadError ε) (Json × Text) :=
  match scanNumeral s with
  | none => .error .invalid
  | some (n, rest) =>
    if n.isInteger then
      if n.whole.length ≤ Json.maxIntDigits then .ok (.int n.toInt, rest) else .error .invalid
    else .ok (.float n.toBinary64, rest)

/-- A literal, a constant or a number. -/
def parseAtom (s : Text) : Except (LoadError ε) (Json × Text) :=
  match scanWord literals s with
  | some (j, rest) => .ok (j, rest)
  | none =>
    match scanWord constants s with
    | some (c, rest) => fromHook (L.parseConstant c) rest
    | none => parseNumber s

/-- A string after its opening quote. -/
def parseString (s : Text) : Except (LoadError ε) (Text × Text) :=
  match scanString (s.length + 1) s with
  | some r => .ok r
  | none => .error .invalid

mutual

/-- **A value at the front of a text.** Every value, element and member takes one unit of fuel;
twice the length of the text is enough. -/
def parseValue : ℕ → Text → Except (LoadError ε) (Json × Text)
  | 0, _ => .error .invalid
  | _ + 1, [] => .error .invalid
  | n + 1, c :: s =>
    if c = .scalar '"' then (parseString s).map fun (t, rest) => (.str t, rest)
    else if c = .scalar '[' then
      match skipSpace s with
      | .scalar ']' :: rest => .ok (.arr [], rest)
      | s => (parseElements n s).map fun (xs, rest) => (.arr xs, rest)
    else if c = .scalar '\x7b' then
      match skipSpace s with
      | .scalar '\x7d' :: rest =>
        (fromHook (L.objectPairsHook []) rest).map fun (kvs, rest) => (.obj kvs, rest)
      | s =>
        (parseMembers n s).bind fun (kvs, rest) =>
          (fromHook (L.objectPairsHook kvs) rest).map fun (kvs, rest) => (.obj kvs, rest)
    else parseAtom L (c :: s)

/-- The elements of an array up to its closing bracket. -/
def parseElements : ℕ → Text → Except (LoadError ε) (List Json × Text)
  | 0, _ => .error .invalid
  | n + 1, s =>
    (parseValue n s).bind fun (x, s) =>
      match skipSpace s with
      | .scalar ']' :: rest => .ok ([x], rest)
      | .scalar ',' :: s => (parseElements n (skipSpace s)).map fun (xs, rest) => (x :: xs, rest)
      | _ => .error .invalid

/-- The members of an object up to its closing brace. -/
def parseMembers : ℕ → Text → Except (LoadError ε) (List (Text × Json) × Text)
  | 0, _ => .error .invalid
  | n + 1, .scalar '"' :: s =>
    (parseString s).bind fun (k, s) =>
      match skipSpace s with
      | .scalar ':' :: s =>
        (parseValue n (skipSpace s)).bind fun (v, s) =>
          match skipSpace s with
          | .scalar '\x7d' :: rest => .ok ([(k, v)], rest)
          | .scalar ',' :: s =>
            (parseMembers n (skipSpace s)).map fun (kvs, rest) => ((k, v) :: kvs, rest)
          | _ => .error .invalid
      | _ => .error .invalid
  | _ + 1, _ => .error .invalid

end

/-- **`json.loads`** on a text: one value between blanks, and no byte order mark. -/
def loads (s : Text) : Except (LoadError ε) Json :=
  match s with
  | .scalar '\uFEFF' :: _ => .error .invalid
  | s =>
    (parseValue L (2 * s.length) (skipSpace s)).bind fun (j, rest) =>
      if skipSpace rest = [] then .ok j else .error .invalid

end Loader

/-! ## Reading what was written -/

section RoundTrip

variable {rest : Text}

/-- The code points that can follow a value inside an array, inside an object or at the end. -/
theorem endsNumeral_of_closing {c : Char} (h : c = ',' ∨ c = ']' ∨ c = '\x7d') (s : Text) :
    EndsNumeral (.scalar c :: s) := by
  rcases h with rfl | rfl | rfl
  · exact ⟨rfl, by decide, by decide, by decide⟩
  · exact ⟨rfl, by decide, by decide, by decide⟩
  · exact ⟨rfl, by decide, by decide, by decide⟩

variable {c : CodePoint} {n : Numeral}

/-- Blanks are skipped, and nothing else. -/
theorem skipSpace_blanks (n : ℕ) {s : Text} (hc : isJsonSpace c = false) :
    skipSpace (List.replicate n (.scalar ' ') ++ c :: s) = c :: s := by
  induction n with
  | zero => simp [skipSpace, hc]
  | succ n ih =>
    have hblank : isJsonSpace (.scalar ' ') = true := by decide
    rw [List.replicate_succ, List.cons_append, skipSpace, List.dropWhile_cons_of_pos hblank]
    exact ih

theorem skipSpace_cons {s : Text} (hc : isJsonSpace c = false) :
    skipSpace (c :: s) = c :: s := skipSpace_blanks 0 hc

/-- A numeral starts with a digit or with a sign and a digit. -/
theorem render_numeral (h : n.WellFormed) :
    ∃ d s, n.render = (if n.negative then [.scalar '-'] else []) ++ digitPoint d :: s := by
  unfold Numeral.render
  obtain ⟨d, ds, hds⟩ : ∃ d ds, n.whole = d :: ds := by
    rcases h.whole with hw | ⟨d, ds, hw, -⟩
    · exact ⟨0, [], hw⟩
    · exact ⟨d, ds, hw⟩
  exact ⟨d, ds.map digitPoint ++ Numeral.fractionText n.fraction ++
    Numeral.exponentText n.exponent, by simp [hds]⟩

/-- No word starts like a numeral. -/
theorem scanWord_numeral (h : n.WellFormed) (rest : Text) :
    scanWord literals (n.render ++ rest) = none ∧
      scanWord constants (n.render ++ rest) = none := by
  obtain ⟨d, s, hs⟩ := render_numeral h
  rw [hs]
  have hd : ∀ d : Digit, .scalar 'n' ≠ digitPoint d ∧ .scalar 't' ≠ digitPoint d ∧
      .scalar 'f' ≠ digitPoint d ∧ .scalar 'N' ≠ digitPoint d ∧ .scalar 'I' ≠ digitPoint d ∧
      .scalar '-' ≠ digitPoint d := by decide
  obtain ⟨h₁, h₂, h₃, h₄, h₅, h₆⟩ := hd d
  cases n.negative with
  | true =>
    simp [scanWord, literals, constants, expect, Text.ofString, h₅]
  | false =>
    simp [scanWord, literals, constants, expect, Text.ofString, h₁, h₂, h₃, h₄, h₅, h₆]

/-- What a value does not start with: a blank, a closing bracket or a byte order mark. -/
def startsValue (c : CodePoint) : Bool :=
  !isJsonSpace c && c ≠ .scalar ']' && c ≠ .scalar '\uFEFF'

theorem startsValue_iff :
    startsValue c ↔ isJsonSpace c = false ∧ c ≠ .scalar ']' ∧ c ≠ .scalar '\uFEFF' := by
  simp [startsValue, and_assoc]

theorem render_eq_cons (st : Style) (j : Json) :
    ∃ c s, j.render st = c :: s ∧ startsValue c ∧ isPlain c := by
  have hnumeral : ∀ n : Numeral, n.WellFormed →
      ∃ c s, n.render = c :: s ∧ startsValue c ∧ isPlain c := by
    intro n hn
    obtain ⟨d, s, hs⟩ := render_numeral hn
    have hd : ∀ d : Digit, startsValue (digitPoint d) ∧ isPlain (digitPoint d) := by decide
    rw [hs]
    cases n.negative with
    | true => exact ⟨_, _, rfl, by decide⟩
    | false => exact ⟨_, _, rfl, hd d⟩
  cases j with
  | null => exact ⟨_, _, rfl, by decide⟩
  | bool b => cases b <;> exact ⟨_, _, rfl, by decide⟩
  | int i => exact hnumeral _ (wellFormed_ofInt i)
  | float x =>
    cases x with
    | finite negative n => exact hnumeral _ (wellFormed_ofMagnitude negative n.2).1
    | infinite negative => cases negative <;> exact ⟨_, _, rfl, by decide⟩
    | nan => exact ⟨_, _, rfl, by decide⟩
  | str s => exact ⟨_, _, rfl, by decide⟩
  | arr xs => cases xs <;> exact ⟨_, _, rfl, by decide⟩
  | obj kvs =>
    cases kvs with
    | nil => exact ⟨_, _, rfl, by decide⟩
    | cons kv kvs => exact ⟨_, _, rfl, by decide⟩

variable {ε : Type} {L : Loader ε} {st : Style}

/-- A number is read back from its numeral. -/
theorem parseAtom_numeral (h : n.WellFormed) (hrest : EndsNumeral rest) :
    parseAtom L (n.render ++ rest) =
      if n.isInteger then
        if n.whole.length ≤ Json.maxIntDigits then .ok (.int n.toInt, rest)
        else .error .invalid
      else .ok (.float n.toBinary64, rest) := by
  obtain ⟨hlit, hconst⟩ := scanWord_numeral h rest
  rw [parseAtom, hlit]
  simp only [hconst, parseNumber, scanNumeral_render h hrest]

/-- Everything but strings, arrays and objects is an atom. -/
theorem parseValue_numeral {a : Numeral} (ha : a.WellFormed) (n : ℕ) :
    parseValue L (n + 1) (a.render ++ rest) = parseAtom L (a.render ++ rest) := by
  obtain ⟨d, s, hs⟩ := render_numeral ha
  have hd : ∀ d : Digit, digitPoint d ≠ .scalar '"' ∧ digitPoint d ≠ .scalar '[' ∧
      digitPoint d ≠ .scalar '\x7b' := by decide
  rw [hs]
  cases a.negative with
  | true => simp [parseValue]
  | false => simp [parseValue, hd d]

/-- Every value and every key has a code point of its own. -/
theorem nodes_le_length (st : Style) (j : Json) : j.nodes ≤ (j.render st).length := by
  have hone : ∀ j : Json, 1 ≤ (j.render st).length := by
    intro j
    obtain ⟨c, s, hs, -, -⟩ := render_eq_cons st j
    simp [hs]
  induction j using Json.ind with
  | arr xs ih =>
    cases xs with
    | nil => exact hone _
    | cons x xs =>
      have hrest : Json.nodesOfList xs ≤ (Json.renderElements st xs).length := by
        replace ih : ∀ y ∈ xs, y.nodes ≤ (y.render st).length :=
          fun y hy => ih y (List.mem_cons_of_mem x hy)
        induction xs with
        | nil => simp [Json.nodesOfList]
        | cons y ys ihys =>
          have hy := ih y (by simp)
          have hys := ihys fun z hz => ih z (List.mem_cons_of_mem y hz)
          simp only [Json.nodesOfList, Json.renderElements, List.length_append]
          omega
      have hx := ih x (by simp)
      simp only [Json.nodes, Json.nodesOfList, Json.render, List.length_cons, List.length_append]
      omega
  | obj kvs ih =>
    cases kvs with
    | nil => exact hone _
    | cons kv kvs =>
      obtain ⟨k, v⟩ := kv
      have hrest : Json.nodesOfMembers kvs ≤ (Json.renderMembers st kvs).length := by
        replace ih : ∀ kv ∈ kvs, kv.2.nodes ≤ (kv.2.render st).length :=
          fun kv hkv => ih kv (List.mem_cons_of_mem _ hkv)
        induction kvs with
        | nil => simp [Json.nodesOfMembers]
        | cons kv kvs ihkvs =>
          obtain ⟨l, w⟩ := kv
          have hw := ih (l, w) (by simp)
          have hkvs := ihkvs fun z hz => ih z (List.mem_cons_of_mem _ hz)
          simp only [Json.nodesOfMembers, Json.renderMembers, separator, List.length_append,
            List.length_cons] at hw ⊢
          omega
      have hv := ih (k, v) (by simp)
      simp only [Json.nodes, Json.nodesOfMembers, Json.render, separator, List.length_cons,
        List.length_append] at hv ⊢
      omega
  | _ => exact hone _

/-- What can be written and is read back: numbers within their limits and distinct keys. -/
def Json.readable (d : ℕ) (j : Json) : Bool := j.writable d && j.distinctKeys d

/-- The members of objects have the property `q`. -/
def Json.objectsHave (q : List (Text × Json) → Bool) (_ : ℕ) : Json → Bool
  | .obj kvs => q kvs
  | _ => true

end RoundTrip

/-! ## Recoded texts -/

/-- A way to write the code points of a text: those outside strings are left as they are, and
strings are read back from what stands for them, up to `decode`. -/
structure Recoding where
  encode : CodePoint → Text
  decode : Text → Text
  encode_plain : ∀ {c}, isPlain c → encode c = [c]
  encode_ne_nil : ∀ c, encode c ≠ []
  scanString_encode : ∀ (s rest : Text) {n : ℕ}, s.length < n →
    scanString n ((s.flatMap escape).flatMap encode ++ .scalar '"' :: rest) =
      some (decode s, rest)

namespace Recoding

variable (R : Recoding)

/-- The recoded text. -/
def text (s : Text) : Text := s.flatMap R.encode

@[simp] theorem text_nil : R.text [] = [] := rfl

@[simp] theorem text_append (s t : Text) : R.text (s ++ t) = R.text s ++ R.text t :=
  List.flatMap_append

theorem text_cons {c : CodePoint} (hc : isPlain c) (s : Text) :
    R.text (c :: s) = c :: R.text s := by
  rw [text, List.flatMap_cons, R.encode_plain hc]
  rfl

/-- A text without strings is left as it is. -/
theorem text_of_plain {s : Text} (hs : s.all isPlain) : R.text s = s := by
  induction s with
  | nil => rfl
  | cons c s ih =>
    obtain ⟨hc, hs⟩ : isPlain c ∧ s.all isPlain := by simpa using hs
    rw [R.text_cons hc, ih hs]

theorem text_quote (s : Text) :
    R.text (quote s) = .scalar '"' :: (R.text (s.flatMap escape) ++ [.scalar '"']) := by
  have hmark : isPlain (.scalar '"') := by decide
  rw [quote, R.text_cons hmark, text_append, R.text_cons hmark, text_nil]

theorem length_le_text (s : Text) : s.length ≤ (R.text s).length := by
  induction s with
  | nil => exact le_rfl
  | cons c s ih =>
    have hc := List.length_pos_iff.mpr (R.encode_ne_nil c)
    rw [text, List.flatMap_cons, List.length_append, List.length_cons]
    change s.length ≤ (s.flatMap R.encode).length at ih
    omega

theorem text_render (st : Style) (j : Json) :
    ∃ c s, R.text (j.render st) = c :: s ∧ startsValue c := by
  obtain ⟨c, s, hs, hc, hplain⟩ := render_eq_cons st j
  exact ⟨c, R.text s, by rw [hs, R.text_cons hplain], hc⟩

theorem skipSpace_text_render (st : Style) (j : Json) (gap : ℕ) (rest : Text) :
    skipSpace (List.replicate gap (.scalar ' ') ++ (R.text (j.render st) ++ rest)) =
      R.text (j.render st) ++ rest := by
  obtain ⟨c, s, hs, hc⟩ := R.text_render st j
  rw [hs, List.cons_append]
  exact skipSpace_blanks gap (startsValue_iff.mp hc).1

variable {R} {rest : Text} {ε : Type} {L : Loader ε} {st : Style}

theorem parseString_text (s : Text) :
    (parseString (R.text (s.flatMap escape) ++ .scalar '"' :: rest) : Except (LoadError ε) _) =
      .ok (R.decode s, rest) := by
  have hescape : s.length ≤ (s.flatMap escape).length := by
    induction s with
    | nil => exact le_rfl
    | cons c s ih =>
      obtain ⟨x, t, hx, -⟩ := escape_eq_cons c
      rw [List.flatMap_cons, hx]
      simp only [List.length_append, List.length_cons]
      omega
  have hlen : s.length < (R.text (s.flatMap escape) ++ .scalar '"' :: rest).length + 1 := by
    have htext := R.length_le_text (s.flatMap escape)
    rw [List.length_append]
    omega
  rw [parseString]
  unfold text at hlen ⊢
  rw [R.scanString_encode s rest hlen]

/-- The elements after the first are read back, and the closing bracket. -/
theorem parseElements_text {x : Json} {xs : List Json}
    (hparse : ∀ y ∈ x :: xs, ∀ n rest, 2 * y.nodes ≤ n → EndsNumeral rest →
      parseValue L n (R.text (y.render st) ++ rest) = .ok (y.mapStrings R.decode, rest)) {n : ℕ}
    (hn : 2 * Json.nodesOfList (x :: xs) + 1 ≤ n) (rest : Text) :
    parseElements L n (R.text (x.render st) ++ (R.text (Json.renderElements st xs) ++
      .scalar ']' :: rest)) = .ok ((x :: xs).map (Json.mapStrings R.decode), rest) := by
  induction xs generalizing x n with
  | nil =>
    obtain ⟨m, rfl⟩ : ∃ m, n = m + 1 := ⟨n - 1, by omega⟩
    have hx := hparse x (by simp) m (.scalar ']' :: rest)
      (by simp only [Json.nodesOfList] at hn; omega) (endsNumeral_of_closing (by simp) _)
    have hskip : skipSpace (.scalar ']' :: rest) = .scalar ']' :: rest := skipSpace_cons (by decide)
    rw [Json.renderElements, text_nil, List.nil_append, parseElements, hx]
    simp only [Except.bind, hskip, List.map_cons, List.map_nil]
  | cons y ys ih =>
    obtain ⟨m, rfl⟩ : ∃ m, n = m + 1 := ⟨n - 1, by omega⟩
    have hpos := x.nodes_pos
    simp only [Json.nodesOfList] at hn
    have hrest : R.text (Json.renderElements st (y :: ys)) ++ .scalar ']' :: rest =
        .scalar ',' :: (List.replicate st.itemGap (.scalar ' ') ++ (R.text (y.render st) ++
          (R.text (Json.renderElements st ys) ++ .scalar ']' :: rest))) := by
      rw [Json.renderElements, text_append, text_append,
        R.text_of_plain (isPlain_separator (by decide) _)]
      simp only [separator, List.cons_append, List.append_assoc]
    have hx := hparse x (by simp) m (R.text (Json.renderElements st (y :: ys)) ++
      .scalar ']' :: rest) (by omega) (hrest ▸ endsNumeral_of_closing (Or.inl rfl) _)
    have hys := ih (x := y) (fun z hz => hparse z (List.mem_cons_of_mem x hz)) (n := m)
      (by simp only [Json.nodesOfList]; omega)
    rw [parseElements, hx, hrest]
    simp only [Except.bind, skipSpace_cons (show isJsonSpace (.scalar ',') = false by decide),
      skipSpace_text_render, hys, Except.map, List.map_cons]

variable {v j : Json} {q : List (Text × Json) → Bool}

/-- The members after the first are read back, and the closing brace. -/
theorem parseMembers_text {k : Text} {kvs : List (Text × Json)}
    (hparse : ∀ kv ∈ (k, v) :: kvs, ∀ n rest, 2 * kv.2.nodes ≤ n → EndsNumeral rest →
      parseValue L n (R.text (kv.2.render st) ++ rest) = .ok (kv.2.mapStrings R.decode, rest))
    {n : ℕ} (hn : 2 * Json.nodesOfMembers ((k, v) :: kvs) + 1 ≤ n) (rest : Text) :
    parseMembers L n (R.text (quote k) ++ (separator ':' st.keyGap ++
      (R.text (v.render st) ++ (R.text (Json.renderMembers st kvs) ++ .scalar '\x7d' :: rest)))) =
      .ok (((k, v) :: kvs).map fun kv => (R.decode kv.1, kv.2.mapStrings R.decode), rest) := by
  have hkey : ∀ (k : Text) (v : Json) (tail : Text),
      R.text (quote k) ++ (separator ':' st.keyGap ++ (R.text (v.render st) ++ tail)) =
        .scalar '"' :: (R.text (k.flatMap escape) ++ .scalar '"' :: .scalar ':' ::
          (List.replicate st.keyGap (.scalar ' ') ++ (R.text (v.render st) ++ tail))) := by
    intro k v tail
    simp [text_quote, separator]
  have hcolon : ∀ s : Text, skipSpace (.scalar ':' :: s) = .scalar ':' :: s :=
    fun s => skipSpace_cons (by decide)
  induction kvs generalizing k v n with
  | nil =>
    obtain ⟨m, rfl⟩ : ∃ m, n = m + 1 := ⟨n - 1, by omega⟩
    simp only [Json.nodesOfMembers] at hn
    have hv := hparse (k, v) (by simp) m (.scalar '\x7d' :: rest) (by dsimp only; omega)
      (endsNumeral_of_closing (by simp) _)
    have hskip : skipSpace (.scalar '\x7d' :: rest) = .scalar '\x7d' :: rest :=
      skipSpace_cons (by decide)
    rw [Json.renderMembers, text_nil, List.nil_append, hkey, parseMembers, parseString_text]
    simp only [Except.bind, hcolon, skipSpace_text_render, hv, hskip, List.map_cons, List.map_nil]
  | cons lw kvs ih =>
    obtain ⟨l, w⟩ := lw
    obtain ⟨m, rfl⟩ : ∃ m, n = m + 1 := ⟨n - 1, by omega⟩
    have hpos := v.nodes_pos
    simp only [Json.nodesOfMembers] at hn
    have hrest : R.text (Json.renderMembers st ((l, w) :: kvs)) ++ .scalar '\x7d' :: rest =
        .scalar ',' :: (List.replicate st.itemGap (.scalar ' ') ++ (R.text (quote l) ++
          (separator ':' st.keyGap ++ (R.text (w.render st) ++
            (R.text (Json.renderMembers st kvs) ++ .scalar '\x7d' :: rest))))) := by
      rw [Json.renderMembers]
      simp only [text_append, R.text_of_plain (isPlain_separator (c := ',') (by decide) _),
        R.text_of_plain (isPlain_separator (c := ':') (by decide) _)]
      simp only [separator, List.cons_append, List.append_assoc]
    have hv := hparse (k, v) (by simp) m (R.text (Json.renderMembers st ((l, w) :: kvs)) ++
      .scalar '\x7d' :: rest) (by dsimp only; omega)
      (hrest ▸ endsNumeral_of_closing (Or.inl rfl) _)
    have hkvs := ih (k := l) (v := w) (fun z hz => hparse z (List.mem_cons_of_mem _ hz)) (n := m)
      (by simp only [Json.nodesOfMembers]; omega)
    have hquote : ∀ tail : Text, skipSpace (List.replicate st.itemGap (.scalar ' ') ++
        (R.text (quote l) ++ tail)) = R.text (quote l) ++ tail := by
      intro tail
      rw [text_quote]
      exact skipSpace_blanks st.itemGap (by decide)
    rw [hkey, parseMembers, parseString_text]
    simp only [Except.bind, hcolon, skipSpace_text_render, hv]
    rw [hrest]
    simp only [skipSpace_cons (show isJsonSpace (.scalar ',') = false by decide), hquote, hkvs,
      Except.map, List.map_cons]

/-- An array is read where its elements are. -/
theorem parseValue_text_arr {x : Json} {xs ys : List Json} {n : ℕ}
    (h : parseElements L n (R.text (x.render st) ++ (R.text (Json.renderElements st xs) ++
      .scalar ']' :: rest)) = .ok (ys, rest)) :
    parseValue L (n + 1) (R.text ((Json.arr (x :: xs)).render st) ++ rest) =
      .ok (.arr ys, rest) := by
  obtain ⟨c, s, hs, hc⟩ := R.text_render st x
  obtain ⟨hspace, hclose, -⟩ := startsValue_iff.mp hc
  have htext : R.text ((Json.arr (x :: xs)).render st) ++ rest = .scalar '[' ::
      (R.text (x.render st) ++ (R.text (Json.renderElements st xs) ++ .scalar ']' :: rest)) := by
    rw [Json.render, R.text_cons (by decide), text_append, text_append, R.text_cons (by decide),
      text_nil]
    simp only [List.cons_append, List.append_assoc, List.nil_append]
  rw [htext, parseValue, if_neg (by decide), if_pos rfl]
  rw [hs, List.cons_append] at h ⊢
  rw [skipSpace_cons hspace]
  split
  · rename_i heq
    exact absurd (List.cons.inj heq).1 hclose
  · rw [h]
    rfl

/-- An object is read where its members are and the hook accepts them. -/
theorem parseValue_text_obj {k : Text} {kvs lvs : List (Text × Json)} {n : ℕ}
    (h : parseMembers L n (R.text (quote k) ++ (separator ':' st.keyGap ++ (R.text (v.render st) ++
      (R.text (Json.renderMembers st kvs) ++ .scalar '\x7d' :: rest)))) = .ok (lvs, rest))
    (hhook : L.objectPairsHook lvs = .ok lvs) :
    parseValue L (n + 1) (R.text ((Json.obj ((k, v) :: kvs)).render st) ++ rest) =
      .ok (.obj lvs, rest) := by
  have htext : R.text ((Json.obj ((k, v) :: kvs)).render st) ++ rest = .scalar '\x7b' ::
      (R.text (quote k) ++ (separator ':' st.keyGap ++
        (R.text (v.render st) ++ (R.text (Json.renderMembers st kvs) ++
          .scalar '\x7d' :: rest)))) := by
    rw [Json.render, R.text_cons (by decide)]
    simp only [text_append, R.text_of_plain (isPlain_separator (c := ':') (by decide) _),
      R.text_cons (show isPlain (.scalar '\x7d') by decide), text_nil, List.cons_append,
      List.append_assoc, List.nil_append]
  rw [htext, parseValue, if_neg (by decide), if_neg (by decide), if_pos rfl]
  rw [text_quote, List.cons_append] at h ⊢
  rw [skipSpace_cons (by decide)]
  split
  · rename_i heq
    exact absurd (List.cons.inj heq).1 (by decide)
  · simp only [h, Except.bind, hhook, fromHook, Except.map]

/-- **A value is read back from its recoded text**, whatever follows it. -/
theorem parseValue_text (st : Style) (hhook : ∀ kvs, q kvs → L.objectPairsHook kvs = .ok kvs)
    {d : ℕ} (hj : j.allAt Json.writable d)
    (hq : (j.mapStrings R.decode).allAt (Json.objectsHave q) d) (n : ℕ) (rest : Text)
    (hn : 2 * j.nodes ≤ n) (hrest : EndsNumeral rest) :
    parseValue L n (R.text (j.render st) ++ rest) = .ok (j.mapStrings R.decode, rest) := by
  have hword (s : String) (hs : (Text.ofString s).all isPlain) :
      R.text (Text.ofString s) = Text.ofString s := R.text_of_plain hs
  induction j using Json.ind generalizing d n rest with
  | null =>
    obtain ⟨m, rfl⟩ : ∃ m, n = m + 1 := ⟨n - 1, by simp only [Json.nodes] at hn; omega⟩
    rw [Json.render, hword "null" (by decide)]
    simp [Text.ofString, parseValue, parseAtom, scanWord, literals, expect, Json.mapStrings]
  | bool b =>
    obtain ⟨m, rfl⟩ : ∃ m, n = m + 1 := ⟨n - 1, by simp only [Json.nodes] at hn; omega⟩
    cases b with
    | false =>
      rw [Json.render, hword "false" (by decide)]
      simp [Text.ofString, parseValue, parseAtom, scanWord, literals, expect, Json.mapStrings]
    | true =>
      rw [Json.render, hword "true" (by decide)]
      simp [Text.ofString, parseValue, parseAtom, scanWord, literals, expect, Json.mapStrings]
  | int i =>
    obtain ⟨m, rfl⟩ : ∃ m, n = m + 1 := ⟨n - 1, by simp only [Json.nodes] at hn; omega⟩
    have hlimit : (Numeral.ofInt i).whole.length ≤ Json.maxIntDigits := by
      simpa [Json.allAt, Json.writable, Numeral.ofInt] using hj
    have hint : (Numeral.ofInt i).isInteger = true := rfl
    rw [Json.render, R.text_of_plain (isPlain_numeral _), parseValue_numeral (wellFormed_ofInt i),
      parseAtom_numeral (wellFormed_ofInt i) hrest, if_pos hint, if_pos hlimit, toInt_ofInt]
    rfl
  | float x =>
    obtain ⟨m, rfl⟩ : ∃ m, n = m + 1 := ⟨n - 1, by simp only [Json.nodes] at hn; omega⟩
    cases x with
    | finite negative a =>
      obtain ⟨hwf, hint⟩ := wellFormed_ofMagnitude negative a.2
      rw [Json.render, R.text_of_plain (isPlain_numeral _), parseValue_numeral hwf,
        parseAtom_numeral hwf hrest, hint, toBinary64_ofMagnitude]
      rfl
    | infinite negative => simp [Json.allAt, Json.writable, Binary64.isFinite] at hj
    | nan => simp [Json.allAt, Json.writable, Binary64.isFinite] at hj
  | str s =>
    obtain ⟨m, rfl⟩ : ∃ m, n = m + 1 := ⟨n - 1, by simp only [Json.nodes] at hn; omega⟩
    rw [Json.render, text_quote, List.cons_append, List.append_assoc, parseValue, if_pos rfl,
      List.singleton_append, parseString_text]
    rfl
  | arr xs ih =>
    obtain ⟨m, rfl⟩ : ∃ m, n = m + 1 := ⟨n - 1, by simp only [Json.nodes] at hn; omega⟩
    have hxs := (Json.allAt_arr.mp hj).2
    rw [Json.mapStrings_arr] at hq ⊢
    have hqs := (Json.allAt_arr.mp hq).2
    cases xs with
    | nil =>
      have hskip : skipSpace (.scalar ']' :: rest) = .scalar ']' :: rest :=
        skipSpace_cons (by decide)
      rw [Json.render, hword "[]" (by decide)]
      simp [Text.ofString, parseValue, hskip]
    | cons x xs =>
      refine parseValue_text_arr (parseElements_text (fun y hy n rest =>
        ih y hy (hxs y hy) (hqs _ (List.mem_map_of_mem hy)) n rest) ?_ rest)
      simp only [Json.nodes] at hn
      omega
  | obj kvs ih =>
    obtain ⟨m, rfl⟩ : ∃ m, n = m + 1 := ⟨n - 1, by simp only [Json.nodes] at hn; omega⟩
    have hkvs := (Json.allAt_obj.mp hj).2
    rw [Json.mapStrings_obj] at hq ⊢
    obtain ⟨hself, hqs⟩ := Json.allAt_obj.mp hq
    cases kvs with
    | nil =>
      have hskip : skipSpace (.scalar '\x7d' :: rest) = .scalar '\x7d' :: rest :=
        skipSpace_cons (by decide)
      rw [Json.render, R.text_of_plain (by decide)]
      simp [parseValue, hskip, hhook [] hself, fromHook, Except.map]
    | cons kv kvs =>
      obtain ⟨k, v⟩ := kv
      refine parseValue_text_obj (parseMembers_text (fun z hz n rest =>
        ih z hz (hkvs z hz) (hqs _ (List.mem_map_of_mem hz)) n rest) ?_ rest) (hhook _ hself)
      simp only [Json.nodes] at hn
      omega

/-- **Reading a recoded text**: the value comes back with its strings decoded, where the hook
accepts the members of its objects. -/
theorem loads_text (hhook : ∀ kvs, q kvs → L.objectPairsHook kvs = .ok kvs)
    (hj : j.allAt Json.writable 0) (hq : (j.mapStrings R.decode).allAt (Json.objectsHave q) 0) :
    loads L (R.text (j.render st)) = .ok (j.mapStrings R.decode) := by
  have hlen := (nodes_le_length st j).trans (R.length_le_text _)
  have hparse := R.parseValue_text st hhook hj hq (2 * (R.text (j.render st)).length) []
    (by omega) trivial
  have hskip := R.skipSpace_text_render st j 0 []
  rw [List.append_nil] at hparse hskip
  rw [List.replicate_zero, List.nil_append] at hskip
  unfold loads
  split
  · rename_i heq
    obtain ⟨c, s, hs, hc⟩ := R.text_render st j
    rw [hs] at heq
    exact absurd (List.cons.inj heq).1 (startsValue_iff.mp hc).2.2
  · rw [hskip, hparse]
    rfl

end Recoding

/-- Code points as they are. -/
def plainRecoding : Recoding where
  encode c := [c]
  decode s := s
  encode_plain _ := rfl
  encode_ne_nil c := List.cons_ne_nil c []
  scanString_encode s rest n hn := by
    rw [List.flatMap_singleton']
    exact scanString_quote s hn

/-- **Reading what was written**: the value comes back, where the hook accepts distinct keys. -/
theorem loads_render {ε : Type} {L : Loader ε} {st : Style}
    (hhook : ∀ kvs : List (Text × Json), (kvs.map Prod.fst).Nodup →
      L.objectPairsHook kvs = .ok kvs) {j : Json} (hj : j.allAt Json.readable 0) :
    loads L (j.render st) = .ok j := by
  have hself : j.mapStrings plainRecoding.decode = j :=
    Json.mapStrings_eq_self (d := 0) (Json.allAt_mono (fun d i _ => by
      cases i <;> simp [Json.stringsHave, plainRecoding]) hj)
  have htext : plainRecoding.text (j.render st) = j.render st := List.flatMap_singleton' _
  have hdistinct : (j.mapStrings plainRecoding.decode).allAt
      (Json.objectsHave fun kvs => (kvs.map Prod.fst).Nodup) 0 := by
    rw [hself]
    refine Json.allAt_mono (fun d i hi => ?_) hj
    have hkeys := (Bool.and_eq_true _ _ ▸ hi : i.writable d = true ∧ i.distinctKeys d = true).2
    cases i <;> exact hkeys
  have hread : loads L (plainRecoding.text (j.render st)) =
      .ok (j.mapStrings plainRecoding.decode) := plainRecoding.loads_text
    (fun kvs hkvs => hhook kvs (of_decide_eq_true hkvs))
    (Json.allAt_mono (fun d i hi => (Bool.and_eq_true _ _ ▸ hi :
      i.writable d = true ∧ i.distinctKeys d = true).1) hj) hdistinct
  rwa [hself, htext] at hread

namespace Json

theorem dumps_eq_some {st : Style} {j : Json} {s : Text} :
    j.dumps st = some s ↔
      j.allAt writable 0 ∧ s = (if st.sortKeys then j.sorted else j).render st := by
  unfold dumps
  by_cases h : j.allAt writable 0
  · rw [if_pos h, Option.some.injEq, eq_comm]
    exact (and_iff_right h).symm
  · rw [if_neg h]
    simp [h]

theorem allAt_writable_sorted {j : Json} {d : ℕ} :
    j.sorted.allAt writable d ↔ j.allAt writable d :=
  allAt_sorted (fun _ _ => rfl) fun _ _ => rfl

/-- A reader that takes members as they are. -/
def plainLoader : Loader Unit := ⟨.ok, fun _ => .error ()⟩

/-- A value is determined by its text. -/
theorem render_injective {st : Style} {j k : Json} (hj : j.allAt readable 0)
    (hk : k.allAt readable 0) (h : j.render st = k.render st) : j = k := by
  have hread {j : Json} (hj : j.allAt readable 0) : loads plainLoader (j.render st) = .ok j :=
    loads_render (fun _ _ => rfl) hj
  have hjk := hread hj
  rw [h, hread hk] at hjk
  exact (Except.ok.inj hjk).symm

end Json

end Lib
