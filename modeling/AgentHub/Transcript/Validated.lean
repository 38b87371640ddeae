import AgentHub.Transcript.Bounds

/-!
# Validated turns

What a turn that passed its validation looks like, and that it passes again: validated messages,
with their arguments reordered or not, are given back as they are.

## Main definitions

* `CallOk`, `MessageOk`: tool calls and messages that passed

## Main results

* `validateTurnMessages_ok`: every validated message has passed
-/

namespace AgentHub.Transcript

open Lib

/-! ## What the checks say -/

section Checks

variable {A : Type}

/-- A constructed message has the fields it was constructed from. -/
theorem new_eq_ok {role : Role} {content name id : Option Text} {calls : List (ModelToolCall A)}
    {m : ModelMessage A} :
    ModelMessage.new role content name id calls = .ok m ↔
      m.role = role ∧ m.content = content ∧ m.name = name ∧ m.toolCallId = id ∧
        m.toolCalls = calls := by
  unfold ModelMessage.new
  constructor
  · intro h
    split_ifs at h
    obtain rfl := Except.ok.inj h
    exact ⟨rfl, rfl, rfl, rfl, rfl⟩
  · rintro ⟨rfl, rfl, rfl, rfl, rfl⟩
    exact dif_pos m.fits

theorem requireText_eq_ok {textFault : Text → Option String} {value : Json} {path : String}
    {s : Text} :
    requireText textFault value path = .ok s ↔ value = .str s ∧ textFault s = none := by
  cases value with
  | str t =>
    simp only [requireText, bind_eq_ok, fault_eq_ok, Except.ok.injEq, exists_const, Json.str.injEq]
    constructor
    · rintro ⟨h, rfl⟩
      exact ⟨rfl, h⟩
    · rintro ⟨rfl, h⟩
      exact ⟨h, rfl⟩
  | _ => simp [requireText]

theorem ofOption_eq_str {x : Option Text} {s : Text} : ofOption x = .str s ↔ x = some s := by
  cases x <;> simp [ofOption]

theorem validateContent_eq_ok {content : Json} {path : String} {allowNone requireNonblank : Bool}
    {u : Unit} : validateContent content path allowNone requireNonblank = .ok u ↔
      contentFault allowNone requireNonblank content = none := fault_eq_ok

end Checks

section Printable

variable {isPrintable : CodePoint → Bool}

theorem validateMessageName_eq_ok {name : Option Text} {u : Unit} :
    validateMessageName isPrintable name = .ok u ↔
      ∀ s, name = some s → nameFault isPrintable s = none := by
  cases name with
  | none => simp [validateMessageName]
  | some s => simp [validateMessageName, requireName, bind_eq_ok, requireText_eq_ok]

variable (isPrintable) in
/-- A tool call that passed. -/
structure CallOk (c : ModelToolCall JsonObject) : Prop where
  name : nameFault isPrintable c.name = none
  id : ∃ id, c.providerToolCallId = some id ∧ protocolIdFault isPrintable id = none
  arguments : ArgumentsOk c.arguments

variable (isPrintable) in
/-- What has passed of the content, the calls and the identifier of a message. -/
def FieldsOk (m : ModelMessage JsonObject) : Prop :=
  match m.role with
  | .system => False
  | .user => contentFault false true (ofOption m.content) = none ∧ m.toolCalls = []
  | .tool =>
    contentFault false false (ofOption m.content) = none ∧ m.toolCalls = [] ∧
      ∃ id, m.toolCallId = some id ∧ protocolIdFault isPrintable id = none
  | .assistant =>
    -- the final message has no calls and may not be blank; the others are the opposite
    contentFault (m.toolCalls.isEmpty = false) m.toolCalls.isEmpty (ofOption m.content) = none ∧
      m.toolCalls.length ≤ maxToolCallsPerAssistant ∧ ∀ c ∈ m.toolCalls, CallOk isPrintable c

variable (isPrintable) in
/-- A message that passed. -/
structure MessageOk (m : ModelMessage JsonObject) : Prop where
  name : ∀ s, m.name = some s → nameFault isPrintable s = none
  fields : FieldsOk isPrintable m

/-! ## Tool calls -/

theorem validateToolCall_eq_ok {call : ModelToolCall Arguments} {c : ModelToolCall JsonObject}
    {id : Text} : validateToolCall isPrintable call = .ok (c, id) ↔
      nameFault isPrintable call.name = none ∧ call.providerToolCallId = some id ∧
        protocolIdFault isPrintable id = none ∧
        ∃ a, normalizeArguments call.arguments = .ok a ∧ c = ⟨call.name, a, some id⟩ := by
  simp only [validateToolCall, requireName, requireProtocolId, bind_eq_ok, requireText_eq_ok,
    ofOption_eq_str, Except.ok.injEq, Prod.mk.injEq, Json.str.injEq]
  constructor
  · rintro ⟨_, ⟨rfl, hname⟩, _, ⟨hid, hfault⟩, a, ha, rfl, rfl⟩
    exact ⟨hname, hid, hfault, a, ha, rfl⟩
  · rintro ⟨hname, hid, hfault, a, ha, rfl⟩
    exact ⟨_, ⟨rfl, hname⟩, id, ⟨hid, hfault⟩, a, ha, rfl, rfl⟩

section Again

-- another form of the arguments, such as with their keys in order
variable {f : JsonObject → JsonObject} (hf : ∀ a, ArgumentsOk a → ArgumentsOk (f a))
  {calls : List (ModelToolCall Arguments)} {seen seen' : List Text}
  {names : List (Text × Text)} {out : List (ModelMessage JsonObject)} {total : ℕ}
  {messages : List (ModelMessage Arguments)}

/-- **The loop over the calls** in one statement: a call that passed, and the rest. -/
theorem validateCalls_cons {call : ModelToolCall Arguments}
    {out : List (ModelToolCall JsonObject)} :
    validateCalls isPrintable (call :: calls) seen = .ok (out, names, seen') ↔
      ∃ c id rest restNames, validateToolCall isPrintable call = .ok (c, id) ∧ id ∉ seen ∧
        validateCalls isPrintable calls (id :: seen) = .ok (rest, restNames, seen') ∧
        out = c :: rest ∧ names = (id, c.name) :: restNames := by
  simp only [validateCalls, bind_eq_ok, raiseIf_eq_ok]
  constructor
  · rintro ⟨⟨c, id⟩, hc, -, hseen, ⟨rest, restNames, s⟩, hrest, heq⟩
    obtain ⟨rfl, rfl, rfl⟩ := by simpa using heq
    exact ⟨c, id, rest, restNames, hc, hseen, hrest, rfl, rfl⟩
  · rintro ⟨c, id, rest, restNames, hc, hseen, hrest, rfl, rfl⟩
    exact ⟨(c, id), hc, (), hseen, (rest, restNames, seen'), hrest, rfl⟩

/-- **Validated calls have passed.** -/
theorem validateCalls_ok {out : List (ModelToolCall JsonObject)}
    (h : validateCalls isPrintable calls seen = .ok (out, names, seen')) :
    out.length = calls.length ∧ ∀ c ∈ out, CallOk isPrintable c := by
  induction calls generalizing seen out names with
  | nil =>
    obtain ⟨rfl, -, -⟩ := by simpa [validateCalls] using h
    simp
  | cons call calls ih =>
    obtain ⟨c, id, rest, restNames, hc, -, hrest, rfl, rfl⟩ := validateCalls_cons.mp h
    obtain ⟨hname, hid, hfault, a, ha, rfl⟩ := validateToolCall_eq_ok.mp hc
    obtain ⟨hlength, hok⟩ := ih hrest
    refine ⟨by simp [hlength], ?_⟩
    rintro c (- | ⟨-, hc⟩)
    · exact ⟨hname, ⟨id, rfl, hfault⟩, normalizeArguments_ok ha⟩
    · exact hok c hc

/-! ## Results -/

theorem validateToolResult_eq_ok {A : Type} {m : ModelMessage A} {id : Text} :
    validateToolResult isPrintable m = .ok id ↔
      m.toolCalls = [] ∧ (∀ s, m.name = some s → nameFault isPrintable s = none) ∧
        contentFault false false (ofOption m.content) = none ∧ m.toolCallId = some id ∧
        protocolIdFault isPrintable id = none := by
  simp only [validateToolResult, bind_eq_ok, raiseIf_eq_ok, validateMessageName_eq_ok,
    validateContent_eq_ok, requireProtocolId, requireText_eq_ok, ofOption_eq_str, exists_const]
  simp

/-- **Validated results** have passed, one for each message. -/
theorem validateResults_ok {A : Type} {results : List (ModelMessage A)} {ids : List Text}
    (h : validateResults isPrintable names results = .ok (out, ids)) :
    out.length = results.length ∧ ∀ m ∈ out, MessageOk isPrintable m := by
  induction results generalizing out ids with
  | nil =>
    obtain ⟨rfl, -⟩ := by simpa [validateResults] using h
    simp
  | cons result results ih =>
    simp only [validateResults, bind_eq_ok, raiseIf_eq_ok, validateToolResult_eq_ok,
      new_eq_ok] at h
    obtain ⟨-, -, id, ⟨-, hname, hcontent, -, hid⟩, -, -, m, ⟨hrole, hc, hn, htool, hcalls⟩,
      ⟨rest, rids⟩, hrest, heq⟩ := h
    obtain ⟨rfl, -⟩ := ok_pair_inj heq
    obtain ⟨hlength, hok⟩ := ih hrest
    refine ⟨by simp [hlength], ?_⟩
    rintro r (- | ⟨-, hr⟩)
    · refine ⟨by rwa [hn], ?_⟩
      simp only [FieldsOk, hrole, hc, hcalls, htool]
      exact ⟨hcontent, trivial, id, rfl, hid⟩
    · exact hok r hr

/-! ## Groups -/

theorem validateAssistantCall_eq_ok {A : Type} {m : ModelMessage A} {u : Unit} :
    validateAssistantCall isPrintable m total = .ok u ↔
      m.role = .assistant ∧ m.toolCallId = none ∧
        (∀ s, m.name = some s → nameFault isPrintable s = none) ∧
        contentFault true false (ofOption m.content) = none ∧ m.toolCalls ≠ [] ∧
        m.toolCalls.length ≤ maxToolCallsPerAssistant ∧
        total + m.toolCalls.length ≤ maxTotalToolCalls := by
  simp only [validateAssistantCall, validateAssistantContent, bind_eq_ok, raiseIf_eq_ok,
    validateMessageName_eq_ok, validateContent_eq_ok, exists_const]
  constructor
  · rintro ⟨-, hrole, hid, hname, hcontent, hcalls, hlength, htotal⟩
    exact ⟨by simpa using hrole, by simpa using hid, hname, hcontent, by simpa using hcalls,
      by omega, by omega⟩
  · rintro ⟨hrole, hid, hname, hcontent, hcalls, hlength, htotal⟩
    exact ⟨by simp [hrole], by simpa using hrole, by simpa using hid, hname, hcontent,
      by simpa using hcalls, by omega, by omega⟩

/-- **The loop over the groups** in one statement: a group that passed, and the rest. -/
theorem validateGroups_cons {assistant : ModelMessage Arguments}
    {rest : List (ModelMessage Arguments)} :
    validateGroups isPrintable (assistant :: rest) seen total = .ok out ↔
      ∃ calls names seen' m results ids tail,
        validateAssistantCall isPrintable assistant total = .ok () ∧
        validateCalls isPrintable assistant.toolCalls seen = .ok (calls, names, seen') ∧
        ModelMessage.new .assistant assistant.content assistant.name none calls = .ok m ∧
        assistant.toolCalls.length ≤ rest.length ∧
        validateResults isPrintable names (rest.take assistant.toolCalls.length) =
          .ok (results, ids) ∧
        matchResults ids (names.map Prod.fst) = .ok () ∧
        validateGroups isPrintable (rest.drop assistant.toolCalls.length) seen'
          (total + assistant.toolCalls.length) = .ok tail ∧
        out = m :: results ++ tail := by
  rw [validateGroups]
  simp only [bind_eq_ok, raiseIf_eq_ok, Except.ok.injEq, not_lt]
  constructor
  · rintro ⟨⟨⟩, hassistant, ⟨calls, names, seen'⟩, hcalls, m, hm, -, hlength, ⟨results, ids⟩,
      hresults, ⟨⟩, hmatch, tail, htail, rfl⟩
    exact ⟨calls, names, seen', m, results, ids, tail, hassistant, hcalls, hm, hlength, hresults,
      hmatch, htail, rfl⟩
  · rintro ⟨calls, names, seen', m, results, ids, tail, hassistant, hcalls, hm, hlength, hresults,
      hmatch, htail, rfl⟩
    exact ⟨(), hassistant, (calls, names, seen'), hcalls, m, hm, (), hlength, (results, ids),
      hresults, (), hmatch, tail, htail, rfl⟩

theorem validateGroups_ok (h : validateGroups isPrintable messages seen total = .ok out) :
    out.length = messages.length ∧ ∀ m ∈ out, MessageOk isPrintable m := by
  induction hn : messages.length using Nat.strong_induction_on
    generalizing messages seen total out with
  | _ n ih =>
  cases messages with
  | nil =>
    obtain rfl : out = [] := by simpa [validateGroups] using h.symm
    exact ⟨hn, by simp⟩
  | cons assistant rest =>
    obtain ⟨calls, names, seen', m, results, ids, tail, hassistant, hcalls, hm, hlength, hresults,
      -, htail, rfl⟩ := validateGroups_cons.mp h
    obtain ⟨-, -, hname, hcontent, hne, hmax, -⟩ := validateAssistantCall_eq_ok.mp hassistant
    obtain ⟨hrole, hc, hnm, -, hm⟩ := new_eq_ok.mp hm
    obtain ⟨hcallsLength, hcallsOk⟩ := validateCalls_ok hcalls
    obtain ⟨hresultsLength, hresultsOk⟩ := validateResults_ok hresults
    obtain ⟨htailLength, htailOk⟩ := ih _ (by simp at hn ⊢; omega) htail rfl
    rw [List.length_take] at hresultsLength
    rw [List.length_drop] at htailLength
    refine ⟨by simp at hn ⊢; omega, ?_⟩
    -- the assistant message, its results, and the groups after them
    have hself : MessageOk isPrintable m := by
      have hempty : calls.isEmpty = false := by
        cases calls with
        | nil => exact absurd (List.length_eq_zero_iff.mp hcallsLength.symm) hne
        | cons => rfl
      refine ⟨by rwa [hnm], ?_⟩
      simp only [FieldsOk, hrole, hc, hm, hempty]
      exact ⟨hcontent, by omega, hcallsOk⟩
    intro r hr
    rcases List.mem_append.mp hr with hr | hr
    · rcases List.mem_cons.mp hr with rfl | hr
      · exact hself
      · exact hresultsOk r hr
    · exact htailOk r hr

/-! ## Turns -/

/-- A turn is a user message, the groups and a final message. -/
theorem validateTurnMessages_eq_ok {first final : ModelMessage Arguments}
    {middle : List (ModelMessage Arguments)} :
    validateTurnMessages isPrintable (first :: (middle ++ [final])) = .ok out ↔
      ∃ user groups last, middle.length + 2 ≤ maxMessages ∧ first.role = .user ∧
        validateUserMessage isPrintable first = .ok () ∧
        ModelMessage.new .user first.content first.name none [] = .ok user ∧
        final.role = .assistant ∧ validateFinalAssistant isPrintable final = .ok () ∧
        validateGroups isPrintable middle [] 0 = .ok groups ∧
        ModelMessage.new .assistant final.content final.name none [] = .ok last ∧
        out = user :: groups ++ [last] := by
  obtain ⟨second, others, hmiddle⟩ : ∃ second others, middle ++ [final] = second :: others :=
    List.exists_cons_of_ne_nil (by simp)
  have hlast : (second :: others).getLast (by simp) = final := by
    simp [← hmiddle]
  have hdrop : (second :: others).dropLast = middle := by
    simp [← hmiddle]
  have hlen : (second :: others).length = middle.length + 1 := by
    simp [← hmiddle]
  rw [hmiddle, validateTurnMessages]
  simp only [hlast, hdrop, bind_eq_ok, raiseIf_eq_ok, Except.ok.injEq, not_not, not_lt,
    List.length_cons (a := first), hlen]
  constructor
  · rintro ⟨-, hlength, -, hfirst, ⟨⟩, huser, user, hu, -, hfinal, ⟨⟩, hassistant, groups,
      hgroups, last, hl, rfl⟩
    exact ⟨user, groups, last, hlength, hfirst, huser, hu, hfinal, hassistant, hgroups, hl, rfl⟩
  · rintro ⟨user, groups, last, hlength, hfirst, huser, hu, hfinal, hassistant, hgroups, hl, rfl⟩
    exact ⟨(), hlength, (), hfirst, (), huser, user, hu, (), hfinal, (), hassistant, groups,
      hgroups, last, hl, rfl⟩

/-- A turn that passed has at least two messages. -/
theorem validateTurnMessages_shape (h : validateTurnMessages isPrintable messages = .ok out) :
    ∃ first middle final, messages = first :: (middle ++ [final]) := by
  match messages, h with
  | first :: second :: others, _ =>
    exact ⟨first, (second :: others).dropLast, (second :: others).getLast (by simp), by
      rw [List.dropLast_append_getLast]⟩

theorem validateUserMessage_eq_ok {A : Type} {m : ModelMessage A} {u : Unit} :
    validateUserMessage isPrintable m = .ok u ↔
      m.toolCalls = [] ∧ m.toolCallId = none ∧
        (∀ s, m.name = some s → nameFault isPrintable s = none) ∧
        contentFault false true (ofOption m.content) = none := by
  simp only [validateUserMessage, bind_eq_ok, raiseIf_eq_ok, validateMessageName_eq_ok,
    validateContent_eq_ok, exists_const]
  simp [and_assoc]

theorem validateFinalAssistant_eq_ok {A : Type} {m : ModelMessage A} {u : Unit} :
    validateFinalAssistant isPrintable m = .ok u ↔
      m.toolCalls = [] ∧ m.toolCallId = none ∧
        (∀ s, m.name = some s → nameFault isPrintable s = none) ∧
        contentFault false true (ofOption m.content) = none := by
  simp only [validateFinalAssistant, bind_eq_ok, raiseIf_eq_ok, validateMessageName_eq_ok,
    validateContent_eq_ok, exists_const]
  simp

/-- **Every message of a validated turn has passed**, and there are not too many. -/
theorem validateTurnMessages_ok (h : validateTurnMessages isPrintable messages = .ok out) :
    out.length ≤ maxMessages ∧ ∀ m ∈ out, MessageOk isPrintable m := by
  obtain ⟨first, middle, final, rfl⟩ := validateTurnMessages_shape h
  obtain ⟨user, groups, last, hlength, hfirst, huser, hu, hfinal, hassistant, hgroups, hl, rfl⟩ :=
    validateTurnMessages_eq_ok.mp h
  obtain ⟨-, -, huname, hucontent⟩ := validateUserMessage_eq_ok.mp huser
  obtain ⟨-, -, hlname, hlcontent⟩ := validateFinalAssistant_eq_ok.mp hassistant
  obtain ⟨hurole, huc, hun, -, hucalls⟩ := new_eq_ok.mp hu
  obtain ⟨hlrole, hlc, hln, -, hlcalls⟩ := new_eq_ok.mp hl
  obtain ⟨hglength, hgok⟩ := validateGroups_ok hgroups
  refine ⟨by simp; omega, ?_⟩
  intro m hm
  simp only [List.cons_append, List.mem_cons, List.mem_append, List.not_mem_nil, or_false] at hm
  rcases hm with rfl | hm | rfl
  · refine ⟨by rwa [hun], ?_⟩
    simp only [FieldsOk, hurole, huc]
    exact ⟨hucontent, hucalls⟩
  · exact hgok m hm
  · refine ⟨by rwa [hln], ?_⟩
    simp only [FieldsOk, hlrole, hlc, hlcalls]
    exact ⟨hlcontent, by simp, by simp⟩

end Again

end Printable

end AgentHub.Transcript
