import AgentHub.Lib.Ascii
import AgentHub.Lib.Splitting

/-!
# Host names of providers

The host of a provider URL is an IP address, which is printed in its canonical form, or a name,
which is encoded for the domain name system. The C resolver also reads addresses that are not
dotted quads: one to four numbers, each decimal, octal or hexadecimal. Names of that form are meant
to be refused, by two tests on the characters of the whole name.

## Main definitions

* `HostTools`: what the standard library does with addresses and names
* `normalizeHost`: the canonical host
* `cNumber`, `LegacyNumeric`: what the C resolver reads as an IPv4 address

## Main results

* `normalizeHost_eq_some`: the hosts that are accepted
* `legacy_numeric_rejected_iff`: an accepted name is not numeric unless a number after the first is
  hexadecimal
-/

namespace AgentHub.Egress

open Lib Lib.Ascii

/-! ## Characters -/

def dot : CodePoint := .scalar '.'

def colon : CodePoint := .scalar ':'

def percent : CodePoint := .scalar '%'

/-- `[a-z0-9]` -/
def isAlphanumeric (c : CodePoint) : Bool := isDigit c || (97 ≤ c.code && c.code ≤ 122)

/-- The labels of a host. -/
def labelsOf (t : Text) : List Text := t.splitOn dot

/-- `_ASCII_LABEL` -/
def asciiLabel (label : Text) : Bool :=
  1 ≤ label.length && label.length ≤ 63 &&
    label.all (fun c => isAlphanumeric c || c = .scalar '-') &&
    label.head?.all isAlphanumeric && label.getLast?.all isAlphanumeric

/-- Only digits and dots, as in a dotted quad. -/
def digitsAndDots (t : Text) : Bool := t.all fun c => isDigit c || c = dot

/-! ## The standard library -/

/-- Addresses without a scope, and the encoding of international names. -/
structure HostTools where
  Address : Type
  /-- `ipaddress.ip_address` -/
  ipAddress : Text → Option Address
  /-- `address.ipv4_mapped`, of an IPv6 address -/
  ipv4Mapped : Address → Option Address
  str : Address → Text
  /-- `encode("idna").decode("ascii")` -/
  idna : Text → Option Text
  /-- An IPv4 address is read from digits and dots, an IPv6 address has colons. -/
  form_of_ipAddress : ∀ t a, ipAddress t = some a → digitsAndDots t = true ∨ colon ∈ t
  ipAddress_str : ∀ a, ipAddress (str a) = some a
  lower_str : ∀ a, lower (str a) = str a

/-! ## Normalising a host -/

section Code

variable (tools : HostTools)

/-- The host without the dot that may end it. -/
def dropFinalDot (rawHost : Text) : Text :=
  if rawHost.getLast? = some dot then rawHost.dropLast else rawHost

/-- `mapped or address` -/
def canonicalAddress (address : tools.Address) : tools.Address :=
  (tools.ipv4Mapped address).getD address

/-- The branch of `_normalize_host` for a name. -/
def normalizeName (candidate : Text) : Option Text :=
  if colon ∈ candidate then none
  else
    match tools.idna candidate with
    | none => none
    | some encoded =>
      let asciiHost := lower encoded
      if asciiHost.length > 253 then none
      else if (labelsOf asciiHost).any fun label => !asciiLabel label then none
      else if digitsAndDots asciiHost then none
      else if asciiHost.take 2 = [.scalar '0', .scalar 'x'] ∧
          (asciiHost.drop 2).all (fun c => isHexDigit c || c = dot) then none
      else some asciiHost

/-- `_normalize_host`, where `none` is a `ValueError`. -/
def normalizeHost (rawHost : Text) : Option Text :=
  if rawHost = [] ∨ [dot, dot] <:+ rawHost ∨ rawHost = [dot] then none
  else
    let candidate := dropFinalDot rawHost
    if candidate = [] ∨ percent ∈ candidate then none
    else
      match tools.ipAddress candidate with
      | some address => some (lower (tools.str (canonicalAddress tools address)))
      | none => normalizeName tools candidate

end Code

/-! ## Numbers of the C resolver -/

/-- A decimal number. -/
def isDecimal (label : Text) : Bool :=
  label ≠ [] && label.all isDigit && label.head? ≠ some (.scalar '0')

/-- An octal number. -/
def isOctal (label : Text) : Bool :=
  label.head? = some (.scalar '0') && label.all fun c => 48 ≤ c.code && c.code ≤ 55

/-- A hexadecimal number. -/
def isHexadecimal : Text → Bool
  | zero :: x :: digits =>
    zero = .scalar '0' && (x = .scalar 'x' || x = .scalar 'X') && digits ≠ [] &&
      digits.all isHexDigit
  | _ => false

def cNumber (label : Text) : Bool := isDecimal label || isOctal label || isHexadecimal label

/-- The C resolver reads the host as an IPv4 address. -/
def LegacyNumeric (host : Text) : Prop :=
  (labelsOf host).length ≤ 4 ∧ ∀ label ∈ labelsOf host, cNumber label = true

/-- A number after the first is hexadecimal. -/
def HexAfterFirst (host : Text) : Prop := ∃ label ∈ (labelsOf host).tail, isHexadecimal label = true

instance (host : Text) : Decidable (LegacyNumeric host) :=
  inferInstanceAs (Decidable (_ ∧ _))

instance (host : Text) : Decidable (HexAfterFirst host) :=
  inferInstanceAs (Decidable (∃ _ ∈ _, _))

/-! ## Lower case -/

theorem octal_lowerChar (c : CodePoint) :
    (48 ≤ (lowerChar c).code && (lowerChar c).code ≤ 55) = (48 ≤ c.code && c.code ≤ 55) := by
  have hcode := code_lowerChar c
  rw [Bool.eq_iff_iff]
  simp only [Bool.and_eq_true, decide_eq_true_eq]
  split at hcode <;> omega

theorem lowerChar_eq_x (c : CodePoint) :
    lowerChar c = .scalar 'x' ↔ c = .scalar 'x' ∨ c = .scalar 'X' := by
  have hcode := code_lowerChar c
  have hx : (CodePoint.scalar 'x').code = 120 := rfl
  have hX : (CodePoint.scalar 'X').code = 88 := rfl
  simp only [← CodePoint.code_injective.eq_iff, hx, hX]
  split at hcode <;> omega

theorem lowerChar_ne_X (c : CodePoint) : lowerChar c ≠ .scalar 'X' := by
  have hcode := code_lowerChar c
  have hX : (CodePoint.scalar 'X').code = 88 := rfl
  rw [← CodePoint.code_injective.ne_iff, hX]
  split at hcode <;> omega

theorem labelsOf_lower (t : Text) : labelsOf (lower t) = (labelsOf t).map lower :=
  splitOn_map (fun _ => lowerChar_eq_iff (.inl (by decide))) t

theorem isHexadecimal_lower (label : Text) : isHexadecimal (lower label) = isHexadecimal label := by
  match label with
  | [] | [_] => rfl
  | zero :: x :: digits =>
    have hzero : lowerChar zero = .scalar '0' ↔ zero = .scalar '0' :=
      lowerChar_eq_iff (.inl (by decide))
    have hall : (digits.map lowerChar).all isHexDigit = digits.all isHexDigit := by
      rw [List.all_map]
      exact congrArg (digits.all ·) (funext isHexDigit_lowerChar)
    rw [lower, List.map_cons, List.map_cons, isHexadecimal, isHexadecimal, hall]
    simp [hzero, lowerChar_eq_x, lowerChar_ne_X]

theorem cNumber_lower (label : Text) : cNumber (lower label) = cNumber label := by
  have hdigits : (lower label).all isDigit = label.all isDigit := by
    rw [lower, List.all_map]
    exact congrArg (label.all ·) (funext isDigit_lowerChar)
  have hoctal : ((lower label).all fun c => 48 ≤ c.code && c.code ≤ 55) =
      label.all fun c => 48 ≤ c.code && c.code ≤ 55 := by
    rw [lower, List.all_map]
    exact congrArg (label.all ·) (funext octal_lowerChar)
  have hhead : (lower label).head? = some (.scalar '0') ↔ label.head? = some (.scalar '0') := by
    cases label with
    | nil => simp [lower]
    | cons c label => simp [lower, lowerChar_eq_iff (d := .scalar '0') (.inl (by decide))]
  have hnil : lower label = [] ↔ label = [] := List.map_eq_nil_iff
  simp only [cNumber, isDecimal, isOctal, hdigits, hoctal, hhead, hnil, isHexadecimal_lower, ne_eq]

theorem legacyNumeric_lower (t : Text) : LegacyNumeric (lower t) ↔ LegacyNumeric t := by
  simp [LegacyNumeric, labelsOf_lower, cNumber_lower]

/-! ## Accepted hosts -/

/-- A name that passes the tests. -/
structure IsName (host : Text) : Prop where
  length : host.length ≤ 253
  labels : ∀ label ∈ labelsOf host, asciiLabel label = true
  digits : digitsAndDots host = false
  hexadecimal : ¬ (host.take 2 = [.scalar '0', .scalar 'x'] ∧
    (host.drop 2).all (fun c => isHexDigit c || c = dot) = true)

section Accepted

variable {tools : HostTools} {rawHost candidate host : Text}

theorem normalizeName_eq_some : normalizeName tools candidate = some host ↔
    colon ∉ candidate ∧ ∃ encoded, tools.idna candidate = some encoded ∧ host = lower encoded ∧
      IsName host := by
  rw [normalizeName]
  by_cases hcolon : colon ∈ candidate
  · simp [hcolon]
  rw [if_neg hcolon]
  cases tools.idna candidate with
  | none => simp
  | some encoded =>
    dsimp only
    split_ifs with hlength hlabels hdigits hhex
    · simp only [Option.some.injEq, false_iff]
      rintro ⟨-, _, rfl, rfl, hname⟩
      exact absurd hname.length (not_le.mpr hlength)
    · simp only [Option.some.injEq, false_iff]
      rintro ⟨-, _, rfl, rfl, hname⟩
      obtain ⟨label, hlabel, hbad⟩ := List.any_eq_true.mp hlabels
      simp [hname.labels label hlabel] at hbad
    · simp only [Option.some.injEq, false_iff]
      rintro ⟨-, _, rfl, rfl, hname⟩
      exact absurd hdigits (by simp [hname.digits])
    · simp only [Option.some.injEq, false_iff]
      rintro ⟨-, _, rfl, rfl, hname⟩
      exact hname.hexadecimal hhex
    · simp only [Option.some.injEq]
      constructor
      · rintro rfl
        refine ⟨hcolon, encoded, rfl, rfl, not_lt.mp hlength, fun label hlabel => ?_,
          by simpa using hdigits, hhex⟩
        by_contra hbad
        exact hlabels (List.any_eq_true.mpr ⟨label, hlabel, by simpa using hbad⟩)
      · rintro ⟨-, _, rfl, rfl, -⟩
        rfl

/-- **The hosts that are accepted**: addresses and names. -/
theorem normalizeHost_eq_some : normalizeHost tools rawHost = some host ↔
    ¬ (rawHost = [] ∨ [dot, dot] <:+ rawHost ∨ rawHost = [dot]) ∧
    ¬ (dropFinalDot rawHost = [] ∨ percent ∈ dropFinalDot rawHost) ∧
    ((∃ address, tools.ipAddress (dropFinalDot rawHost) = some address ∧
        host = tools.str (canonicalAddress tools address)) ∨
      tools.ipAddress (dropFinalDot rawHost) = none ∧
        normalizeName tools (dropFinalDot rawHost) = some host) := by
  rw [normalizeHost]
  by_cases hraw : rawHost = [] ∨ [dot, dot] <:+ rawHost ∨ rawHost = [dot]
  · simp [hraw]
  by_cases hcandidate : dropFinalDot rawHost = [] ∨ percent ∈ dropFinalDot rawHost
  · simp [hraw, hcandidate]
  simp only [hraw, hcandidate, if_false, not_false_eq_true, true_and]
  cases tools.ipAddress (dropFinalDot rawHost) with
  | none => simp
  | some address => simp [tools.lower_str, eq_comm]

end Accepted

namespace IsName

variable {host : Text} (h : IsName host)
include h

theorem chars {c : CodePoint} (hc : c ∈ host) :
    isAlphanumeric c = true ∨ c = .scalar '-' ∨ c = dot := by
  by_cases hdot : c = dot
  · exact .inr (.inr hdot)
  · obtain ⟨label, hlabel, hmem⟩ := mem_of_splitOn hc hdot
    have hok := h.labels label hlabel
    simp only [asciiLabel, Bool.and_eq_true, List.all_eq_true, Bool.or_eq_true,
      decide_eq_true_eq] at hok
    exact (hok.1.1.2 c hmem).imp_right .inl

theorem notMem {c : CodePoint} (hc : ¬ (isAlphanumeric c = true ∨ c = .scalar '-' ∨ c = dot)) :
    c ∉ host := fun hmem => hc (h.chars hmem)

theorem colon_notMem : colon ∉ host := h.notMem (by decide)

/-- A name is not the text of an address. -/
theorem ipAddress_eq_none (tools : HostTools) : tools.ipAddress host = none := by
  cases haddress : tools.ipAddress host with
  | none => rfl
  | some address =>
    rcases tools.form_of_ipAddress host address haddress with hdigits | hcolon
    · exact absurd hdigits (by simp [h.digits])
    · exact absurd hcolon h.colon_notMem

/-- **What the tests miss**: a numeric name that passes them has a hexadecimal number after the
first. -/
theorem hexAfterFirst (hnumeric : LegacyNumeric host) : HexAfterFirst host := by
  by_contra hnone
  have hdecimal {label : Text} (hc : cNumber label = true) (hhex : isHexadecimal label = false) :
      label.all isDigit = true := by
    simp only [cNumber, hhex, Bool.or_false, Bool.or_eq_true, isDecimal, isOctal,
      Bool.and_eq_true, List.all_eq_true, decide_eq_true_eq] at hc
    refine List.all_eq_true.mpr fun c hmem => ?_
    rcases hc with hc | hc
    · exact hc.1.2 c hmem
    · have hoctal := hc.2 c hmem
      simp only [isDigit, Bool.and_eq_true, decide_eq_true_eq]
      omega
  cases hlabels : labelsOf host with
  | nil => exact List.splitOn_ne_nil _ _ hlabels
  | cons first rest =>
    have hall := hnumeric.2
    rw [hlabels, List.forall_mem_cons] at hall
    rw [HexAfterFirst, hlabels, List.tail_cons] at hnone
    have hrest : ∀ label ∈ rest, label.all isDigit = true := fun label hlabel =>
      hdecimal (hall.2 label hlabel)
        (Bool.not_eq_true _ ▸ fun hhex => hnone ⟨label, hlabel, hhex⟩)
    have htail : (rest.flatMap (dot :: ·)).all (fun c => isDigit c || c = dot) = true := by
      refine List.all_eq_true.mpr fun c hc => ?_
      obtain ⟨label, hlabel, hmem⟩ := List.mem_flatMap.mp hc
      rcases List.mem_cons.mp hmem with rfl | hmem
      · simp
      · simp [List.all_eq_true.mp (hrest label hlabel) c hmem]
    have hhost : host = first ++ rest.flatMap (dot :: ·) := eq_of_splitOn hlabels
    cases hhex : isHexadecimal first with
    | false =>
      -- all labels are made of digits
      refine absurd h.digits ?_
      have hfirst := hdecimal hall.1 hhex
      rw [digitsAndDots, hhost, List.all_append, htail, Bool.and_true, Bool.not_eq_false]
      exact List.all_eq_true.mpr fun c hc => by simp [List.all_eq_true.mp hfirst c hc]
    | true =>
      -- the first label is hexadecimal, and the digits of the others are hexadecimal digits
      obtain ⟨zero, x, digits, rfl⟩ : ∃ zero x digits, first = zero :: x :: digits := by
        rcases first with _ | ⟨zero, _ | ⟨x, digits⟩⟩
        · cases hhex
        · cases hhex
        · exact ⟨zero, x, digits, rfl⟩
      · simp only [isHexadecimal, Bool.and_eq_true, Bool.or_eq_true, decide_eq_true_eq] at hhex
        obtain ⟨⟨⟨rfl, hx⟩, -⟩, hdigits⟩ := hhex
        have hx : x = .scalar 'x' := by
          refine hx.resolve_right fun hX => ?_
          have hmem : x ∈ host := by rw [hhost]; simp
          exact h.notMem (by decide) (hX ▸ hmem)
        refine h.hexadecimal ⟨by simp [hhost, hx], ?_⟩
        have hdrop : host.drop 2 = digits ++ rest.flatMap (dot :: ·) := by rw [hhost]; rfl
        rw [hdrop, List.all_append, Bool.and_eq_true]
        refine ⟨List.all_eq_true.mpr fun c hc => ?_, List.all_eq_true.mpr fun c hc => ?_⟩
        · simp [List.all_eq_true.mp hdigits c hc]
        · have hdigit := List.all_eq_true.mp htail c hc
          simp only [Bool.or_eq_true] at hdigit ⊢
          exact hdigit.imp_left fun hd => by simp [isHexDigit, hd]

end IsName

/-! ## Names that are read as addresses -/

/-- **No legacy numeric address passes as a name**, unless a number after the first is
hexadecimal. -/
theorem legacy_numeric_rejected_iff (tools : HostTools) {rawHost host : Text}
    (h : normalizeHost tools rawHost = some host) :
    ((∃ address, host = tools.str address) ∨ ¬ LegacyNumeric host) ↔
      ((tools.ipAddress (dropFinalDot rawHost)).isSome = true ∨
        ∀ encoded, tools.idna (dropFinalDot rawHost) = some encoded →
          ¬ (LegacyNumeric encoded ∧ HexAfterFirst encoded)) := by
  obtain ⟨-, -, ⟨address, haddress, rfl⟩ | ⟨hnone, hname⟩⟩ := normalizeHost_eq_some.mp h
  · exact iff_of_true (.inl ⟨_, rfl⟩) (.inl (by simp [haddress]))
  obtain ⟨-, encoded, hencoded, rfl, hname⟩ := normalizeName_eq_some.mp hname
  have hnot : ¬ ∃ address, lower encoded = tools.str address := by
    rintro ⟨address, heq⟩
    have hread := tools.ipAddress_str address
    rw [← heq, hname.ipAddress_eq_none] at hread
    cases hread
  have hhex : LegacyNumeric encoded → HexAfterFirst encoded := by
    intro hnumeric
    obtain ⟨label, hlabel, hlower⟩ :=
      hname.hexAfterFirst ((legacyNumeric_lower encoded).mpr hnumeric)
    rw [labelsOf_lower, ← List.map_tail] at hlabel
    obtain ⟨origin, horigin, rfl⟩ := List.mem_map.mp hlabel
    exact ⟨origin, horigin, isHexadecimal_lower origin ▸ hlower⟩
  simp only [hnot, false_or, hnone, Option.isSome_none, Bool.false_eq_true, hencoded,
    Option.some.injEq, forall_eq', legacyNumeric_lower]
  exact ⟨fun hnumeric hboth => hnumeric hboth.1,
    fun hboth hnumeric => hboth ⟨hnumeric, hhex hnumeric⟩⟩

/-! ## A library that knows the loopback addresses -/

/-- The printed loopback addresses. -/
def loopbackText : Bool → Text
  | false => Text.ofString "127.0.0.1"
  | true => Text.ofString "::1"

/-- An encoding of ASCII names. -/
def asciiIdna (t : Text) : Option Text :=
  if t.all (fun c => c.code < 128) &&
      (labelsOf t).all (fun label => 1 ≤ label.length && label.length ≤ 63) then some t
  else none

/-- The two loopback addresses, and names of ASCII characters. -/
def localTools : HostTools where
  Address := Bool
  ipAddress t :=
    if t = loopbackText false then some false
    else if t = loopbackText true then some true
    else none
  ipv4Mapped _ := none
  str := loopbackText
  idna := asciiIdna
  form_of_ipAddress t a h := by
    split_ifs at h with hfour hsix
    · rw [hfour]
      exact .inl (by decide)
    · rw [hsix]
      exact .inr (by decide)
  ipAddress_str a := by cases a <;> decide
  lower_str a := by cases a <;> decide

/-- `127.0x1` is accepted as a name, and read as the loopback address. -/
theorem legacy_numeric_accepted :
    normalizeHost localTools (Text.ofString "127.0x1") = some (Text.ofString "127.0x1") ∧
      LegacyNumeric (Text.ofString "127.0x1") ∧
      ¬ ∃ address, Text.ofString "127.0x1" = localTools.str address := by
  refine ⟨by decide +kernel, by decide +kernel, ?_⟩
  rintro ⟨address, heq⟩
  cases address with
  | false => exact absurd heq (by decide)
  | true => exact absurd heq (by decide)

/-- Names that are refused, and one that is not. -/
theorem legacy_numeric_rejected_iff_openai :
    normalizeHost localTools (Text.ofString "API.openai.com.") =
      some (Text.ofString "api.openai.com") ∧
    ((∃ address, Text.ofString "api.openai.com" = localTools.str address) ∨
      ¬ LegacyNumeric (Text.ofString "api.openai.com")) ∧
    normalizeHost localTools (Text.ofString "127.1") = none ∧
    normalizeHost localTools (Text.ofString "0x7f.1") = none := by
  have hok : normalizeHost localTools (Text.ofString "API.openai.com.") =
      some (Text.ofString "api.openai.com") := by decide +kernel
  refine ⟨hok, ?_, by decide +kernel, by decide +kernel⟩
  refine (legacy_numeric_rejected_iff localTools hok).mpr (.inr fun encoded hencoded => ?_)
  have henc : localTools.idna (dropFinalDot (Text.ofString "API.openai.com.")) =
      some (Text.ofString "API.openai.com") := by decide +kernel
  rw [henc, Option.some_inj] at hencoded
  subst hencoded
  decide +kernel

end AgentHub.Egress
