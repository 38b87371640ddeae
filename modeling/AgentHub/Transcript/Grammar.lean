import AgentHub.Transcript.Validated

/-!
# The grammar of a turn

The validation scans a turn with an index: it reads an assistant message, looks ahead as many
messages as there are calls, and keeps the last message for the end. What it accepts is a
language: a user message, groups of an assistant message with calls and one result per call, and
a final assistant message, with no call identifier twice.

## Main definitions

* `WithinLimits`: the bounds of a turn and of its fields
* `IsGroup`, `Groups`, `CompleteTurn`: the language
* `Normalizes`: a message and its form with copied arguments

## Main results

* `validateTurnMessages_iff`: a turn passes exactly if it is within the limits and complete
-/

namespace AgentHub.Transcript

open Lib

section Language

variable {A : Type}

/-- The identifiers of the calls, in order. -/
def callIds (messages : List (ModelMessage A)) : List (Option Text) :=
  messages.flatMap fun m => m.toolCalls.map (·.providerToolCallId)

/-- An assistant message with calls, and the results of its calls in any order. -/
structure IsGroup (assistant : ModelMessage A) (results : List (ModelMessage A)) : Prop where
  assistant_role : assistant.role = .assistant
  calls_ne_nil : assistant.toolCalls ≠ []
  result_role : ∀ result ∈ results, result.role = .tool ∧ result.toolCalls = []
  perm : (results.map (·.toolCallId)).Perm (assistant.toolCalls.map (·.providerToolCallId))
  -- a result that has a name has the name of its call
  name_eq : ∀ result ∈ results, ∀ call ∈ assistant.toolCalls,
    call.providerToolCallId = result.toolCallId → ∀ name, result.name = some name → name = call.name

/-- Groups one after the other. -/
inductive Groups : List (ModelMessage A) → Prop
  | nil : Groups []
  | group {assistant : ModelMessage A} {results rest : List (ModelMessage A)}
      (h : IsGroup assistant results) (hrest : Groups rest) :
      Groups (assistant :: (results ++ rest))

/-- The turn `user :: middle ++ [final]` is complete. -/
structure CompleteTurn (user : ModelMessage A) (middle : List (ModelMessage A))
    (final : ModelMessage A) : Prop where
  user_role : user.role = .user
  user_calls : user.toolCalls = []
  groups : Groups middle
  final_role : final.role = .assistant
  final_calls : final.toolCalls = []
  nodup : (callIds middle).Nodup

theorem ModelMessage.exists_toolCallId (m : ModelMessage A) (h : m.role = .tool) :
    ∃ id, m.toolCallId = some id := by
  have hfits := m.fits
  rw [h] at hfits
  cases hid : m.toolCallId with
  | none =>
    rw [hid] at hfits
    exact absurd hfits (by decide)
  | some id => exact ⟨id, rfl⟩

theorem ModelMessage.toolCallId_eq_none (m : ModelMessage A) (h : m.role ≠ .tool) :
    m.toolCallId = none := by
  have hfits := m.fits
  cases hrole : m.role <;> simp_all [fitsRole]

variable {assistant : ModelMessage A} {results : List (ModelMessage A)}

theorem groups_cons_iff {rest : List (ModelMessage A)} :
    Groups (assistant :: rest) ↔ ∃ results after, rest = results ++ after ∧
      IsGroup assistant results ∧ Groups after := by
  constructor
  · rintro (- | ⟨h, hrest⟩)
    exact ⟨_, _, rfl, h, hrest⟩
  · rintro ⟨results, after, rfl, h, hrest⟩
    exact .group h hrest

/-- There are as many results as calls. -/
theorem IsGroup.length_eq (h : IsGroup assistant results) :
    results.length = assistant.toolCalls.length := by
  simpa using h.perm.length_eq

theorem IsGroup.exists_ids (h : IsGroup assistant results) :
    ∃ ids : List Text, results.map (·.toolCallId) = ids.map some := by
  refine ⟨results.map fun m => m.toolCallId.getD [], ?_⟩
  rw [List.map_map]
  refine List.map_congr_left fun m hm => ?_
  obtain ⟨id, hid⟩ := m.exists_toolCallId (h.result_role m hm).1
  rw [Function.comp_apply, hid]
  rfl

theorem forall₂_append_left {α β : Type} {R : α → β → Prop} {l m : List α} {out : List β}
    (h : List.Forall₂ R (l ++ m) out) :
    ∃ out₁ out₂, out = out₁ ++ out₂ ∧ List.Forall₂ R l out₁ ∧ List.Forall₂ R m out₂ :=
  ⟨_, _, (List.take_append_drop l.length out).symm, (List.forall₂_take_append _ _ _ h.flip).flip,
    (List.forall₂_drop_append _ _ _ h.flip).flip⟩

theorem callIds_cons (m : ModelMessage A) (ms : List (ModelMessage A)) :
    callIds (m :: ms) = m.toolCalls.map (·.providerToolCallId) ++ callIds ms := rfl

theorem callIds_append (ms ns : List (ModelMessage A)) :
    callIds (ms ++ ns) = callIds ms ++ callIds ns := List.flatMap_append

/-- Results call nothing. -/
theorem IsGroup.callIds_results (h : IsGroup assistant results) : callIds results = [] :=
  List.flatMap_eq_nil_iff.mpr fun result hresult => by rw [(h.result_role result hresult).2]; rfl

end Language

section Printable

variable (isPrintable : CodePoint → Bool)

/-- A call within the limits. -/
structure CallWithinLimits (call : ModelToolCall Arguments) : Prop where
  name : nameFault isPrintable call.name = none
  id : ∃ id, call.providerToolCallId = some id ∧ protocolIdFault isPrintable id = none
  arguments : ∃ arguments, normalizeArguments call.arguments = .ok arguments

/-- The limits of the content of a message: only a message with calls may have none, and only a
message with calls and a result may be blank. -/
def ContentWithinLimits (m : ModelMessage Arguments) : Prop :=
  match m.role with
  | .system => True
  | .user => contentFault false true (ofOption m.content) = none
  | .tool => contentFault false false (ofOption m.content) = none
  | .assistant =>
    contentFault (m.toolCalls.isEmpty = false) m.toolCalls.isEmpty (ofOption m.content) = none

/-- A message within the limits of its fields. -/
structure MessageWithinLimits (m : ModelMessage Arguments) : Prop where
  name : ∀ name, m.name = some name → nameFault isPrintable name = none
  content : ContentWithinLimits m
  toolCallId : ∀ id, m.toolCallId = some id → protocolIdFault isPrintable id = none
  callCount : m.toolCalls.length ≤ maxToolCallsPerAssistant
  calls : ∀ call ∈ m.toolCalls, CallWithinLimits isPrintable call

/-- The number of calls of a turn. -/
def totalCalls (messages : List (ModelMessage Arguments)) : ℕ :=
  (messages.map fun m => m.toolCalls.length).sum

/-- Messages within the limits of a turn. -/
structure WithinLimits (messages : List (ModelMessage Arguments)) : Prop where
  messageCount : messages.length ≤ maxMessages
  callCount : totalCalls messages ≤ maxTotalToolCalls
  fields : ∀ m ∈ messages, MessageWithinLimits isPrintable m

end Printable

/-- A call and its form with copied arguments. -/
structure CallNormalizes (call : ModelToolCall Arguments) (c : ModelToolCall JsonObject) :
    Prop where
  name : c.name = call.name
  id : c.providerToolCallId = call.providerToolCallId
  arguments : normalizeArguments call.arguments = .ok c.arguments

/-- A message and its form with copied arguments. -/
structure Normalizes (m : ModelMessage Arguments) (m' : ModelMessage JsonObject) : Prop where
  role : m'.role = m.role
  content : m'.content = m.content
  name : m'.name = m.name
  toolCallId : m'.toolCallId = m.toolCallId
  calls : List.Forall₂ CallNormalizes m.toolCalls m'.toolCalls

/-! ## Calls -/

section Loops

variable {isPrintable : CodePoint → Bool}

/-- The identifier of a call that has one. -/
def ModelToolCall.callId (call : ModelToolCall Arguments) : Text :=
  call.providerToolCallId.getD []

theorem validateToolCall_iff {call : ModelToolCall Arguments} {c : ModelToolCall JsonObject}
    {id : Text} : validateToolCall isPrintable call = .ok (c, id) ↔
      CallWithinLimits isPrintable call ∧ CallNormalizes call c ∧
        call.providerToolCallId = some id := by
  rw [validateToolCall_eq_ok]
  constructor
  · rintro ⟨hname, hid, hfault, a, ha, rfl⟩
    exact ⟨⟨hname, ⟨id, hid, hfault⟩, a, ha⟩, ⟨rfl, hid.symm, ha⟩, hid⟩
  · rintro ⟨⟨hname, ⟨_, hid', hfault⟩, -⟩, ⟨hcname, hcid, ha⟩, hid⟩
    obtain rfl := Option.some.inj (hid.symm.trans hid')
    refine ⟨hname, hid, hfault, c.arguments, ha, ?_⟩
    cases c
    simp_all

variable {calls : List (ModelToolCall Arguments)} {seen ids : List Text}
  {names : List (Text × Text)} {m assistant user final : ModelMessage Arguments}
  {m' : ModelMessage JsonObject} {results rest middle : List (ModelMessage Arguments)}
  {out : List (ModelMessage JsonObject)}

theorem forall_mem_notMem_cons {id : Text} : (∀ call ∈ calls, call.callId ∉ id :: seen) ↔
      id ∉ calls.map (·.callId) ∧ ∀ call ∈ calls, call.callId ∉ seen := by
  simp only [List.mem_cons, not_or, List.mem_map, not_exists, not_and, ← forall_and]

/-- **The loop over the calls of a message** accepts calls within the limits whose identifiers
are new and distinct. -/
theorem validateCalls_iff {seen' : List Text} {out : List (ModelToolCall JsonObject)} :
    validateCalls isPrintable calls seen = .ok (out, names, seen') ↔
      (∀ call ∈ calls, CallWithinLimits isPrintable call) ∧
        List.Forall₂ CallNormalizes calls out ∧
        (calls.map (·.callId)).Nodup ∧ (∀ call ∈ calls, call.callId ∉ seen) ∧
        names = calls.map (fun call => (call.callId, call.name)) ∧
        seen' = (calls.map (·.callId)).reverse ++ seen := by
  induction calls generalizing seen out names with
  | nil =>
    simp [validateCalls, eq_comm]
  | cons call calls ih =>
    rw [validateCalls_cons]
    constructor
    · rintro ⟨c, id, rest, restNames, hc, hseen, hrest, rfl, rfl⟩
      obtain ⟨hlimits, hnormal, hid⟩ := validateToolCall_iff.mp hc
      obtain ⟨hcalls, hout, hnodup, hnew, rfl, rfl⟩ := ih.mp hrest
      obtain rfl : call.callId = id := by rw [ModelToolCall.callId, hid]; rfl
      obtain ⟨hfresh, hnew⟩ := forall_mem_notMem_cons.mp hnew
      exact ⟨List.forall_mem_cons.mpr ⟨hlimits, hcalls⟩, .cons hnormal hout,
        List.nodup_cons.mpr ⟨hfresh, hnodup⟩, List.forall_mem_cons.mpr ⟨hseen, hnew⟩,
        by rw [hnormal.name]; rfl, by simp⟩
    · rintro ⟨hlimits, hout, hnodup, hnew, rfl, rfl⟩
      obtain ⟨hlimit, hlimits⟩ := List.forall_mem_cons.mp hlimits
      obtain ⟨hfresh, hnodup⟩ := List.nodup_cons.mp hnodup
      obtain ⟨hseen, hnew⟩ := List.forall_mem_cons.mp hnew
      cases hout with
      | @cons _ c _ rest hnormal hout =>
      have hid : call.providerToolCallId = some call.callId := by
        obtain ⟨id, hid, -⟩ := hlimit.id
        rw [ModelToolCall.callId, hid]
        rfl
      refine ⟨c, call.callId, rest, _, validateToolCall_iff.mpr ⟨hlimit, hnormal, hid⟩, hseen,
        ih.mpr ⟨hlimits, hout, hnodup, forall_mem_notMem_cons.mpr ⟨hfresh, hnew⟩, rfl, ?_⟩, rfl, ?_⟩
      · simp
      · rw [hnormal.name]
        rfl

/-! ## Results -/

variable (isPrintable) in
/-- A result that passes, given the names of the calls by identifier. -/
structure ResultPasses (names : List (Text × Text)) (result : ModelMessage Arguments) : Prop where
  role : result.role = .tool
  calls : result.toolCalls = []
  limits : MessageWithinLimits isPrintable result
  name : ∀ id name own, result.toolCallId = some id → names.lookup id = some name →
    result.name = some own → own = name

theorem contentWithinLimits_tool (hrole : m.role = .tool) :
    ContentWithinLimits m ↔ contentFault false false (ofOption m.content) = none := by
  simp only [ContentWithinLimits, hrole]

theorem messageWithinLimits_tool (hrole : m.role = .tool) (hcalls : m.toolCalls = []) :
    MessageWithinLimits isPrintable m ↔
      ∃ id, validateToolResult isPrintable m = .ok id := by
  simp only [validateToolResult_eq_ok]
  constructor
  · intro h
    obtain ⟨id, hid⟩ := m.exists_toolCallId hrole
    exact ⟨id, hcalls, h.name, (contentWithinLimits_tool hrole).mp h.content, hid,
      h.toolCallId id hid⟩
  · rintro ⟨id, -, hname, hcontent, hid, hfault⟩
    refine ⟨hname, (contentWithinLimits_tool hrole).mpr hcontent, fun _ hid' => ?_,
      by simp [hcalls], by simp [hcalls]⟩
    rwa [← Option.some.inj (hid.symm.trans hid')]

/-- A message without calls is copied as it is. -/
theorem normalizes_without_calls {role : Role} {id : Option Text} (hrole : m.role = role)
    (hcalls : m.toolCalls = []) (hid : m.toolCallId = id) :
    Normalizes m m' ↔ ModelMessage.new role m.content m.name id [] = .ok m' := by
  rw [new_eq_ok]
  constructor
  · rintro ⟨h1, h2, h3, h4, h5⟩
    rw [hcalls, List.forall₂_nil_left_iff] at h5
    exact ⟨h1.trans hrole, h2, h3, h4.trans hid, h5⟩
  · rintro ⟨h1, h2, h3, h4, h5⟩
    exact ⟨h1.trans hrole.symm, h2, h3, h4.trans hid.symm, by rw [hcalls, h5]; exact .nil⟩

/-- **The loop over the results of a message.** -/
theorem validateResults_iff :
    validateResults isPrintable names results = .ok (out, ids) ↔
      (∀ result ∈ results, ResultPasses isPrintable names result) ∧
        List.Forall₂ Normalizes results out ∧
        results.map (·.toolCallId) = ids.map some := by
  induction results generalizing out ids with
  | nil =>
    rw [validateResults, Except.ok.injEq, Prod.mk.injEq]
    constructor
    · rintro ⟨rfl, rfl⟩
      exact ⟨List.forall_mem_nil _, .nil, rfl⟩
    · rintro ⟨-, hout, hids⟩
      exact ⟨(List.forall₂_nil_left_iff.mp hout).symm, (List.map_eq_nil_iff.mp hids.symm).symm⟩
  | cons result results ih =>
    simp only [validateResults, bind_eq_ok, raiseIf_eq_ok]
    constructor
    · rintro ⟨-, hrole, id, hid, -, hname, m, hm, ⟨rest, rids⟩, hrest, heq⟩
      obtain ⟨rfl, rfl⟩ := ok_pair_inj heq
      obtain ⟨hpasses, hout, hids⟩ := ih.mp hrest
      have hrole := not_not.mp hrole
      obtain ⟨hcalls, -, -, htool, -⟩ := validateToolResult_eq_ok.mp hid
      refine ⟨List.forall_mem_cons.mpr ⟨⟨hrole, hcalls,
        (messageWithinLimits_tool hrole hcalls).mpr ⟨id, hid⟩, ?_⟩, hpasses⟩,
        .cons ((normalizes_without_calls hrole hcalls htool).mpr hm) hout, ?_⟩
      · intro id' name own hid' hlookup hown
        obtain rfl := Option.some.inj (htool.symm.trans hid')
        by_contra hne
        exact hname ⟨name, hlookup, own, hown, hne⟩
      · rw [List.map_cons, List.map_cons, htool, hids]
    · rintro ⟨hpasses, hout, hids⟩
      obtain ⟨hpass, hpasses⟩ := List.forall_mem_cons.mp hpasses
      cases hout with
      | @cons _ m _ rest hnormal hout =>
      obtain ⟨id, rids, rfl, htool, hrids⟩ := List.map_eq_cons_iff.mp hids.symm
      obtain ⟨id', hid⟩ := (messageWithinLimits_tool hpass.role hpass.calls).mp hpass.limits
      obtain ⟨-, -, -, htool', -⟩ := validateToolResult_eq_ok.mp hid
      obtain rfl := Option.some.inj (htool'.symm.trans htool.symm)
      refine ⟨(), not_not.mpr hpass.role, id', hid, (), ?_, m,
        (normalizes_without_calls hpass.role hpass.calls htool').mp hnormal, (rest, rids),
        ih.mpr ⟨hpasses, hout, hrids.symm⟩, rfl⟩
      rintro ⟨name, hlookup, own, hown, hne⟩
      exact hne (hpass.name id' name own htool' hlookup hown)

/-! ## Groups -/

/-- The names of the calls by identifier. -/
def callNames (assistant : ModelMessage Arguments) : List (Text × Text) :=
  assistant.toolCalls.map fun call => (call.callId, call.name)

theorem keys_callNames (assistant : ModelMessage Arguments) :
    (callNames assistant).map Prod.fst = assistant.toolCalls.map (·.callId) := by
  rw [callNames, List.map_map]
  rfl

theorem map_providerToolCallId (h : ∀ call ∈ calls, CallWithinLimits isPrintable call) :
    calls.map (·.providerToolCallId) = (calls.map (·.callId)).map some := by
  rw [List.map_map]
  refine List.map_congr_left fun call hcall => ?_
  obtain ⟨id, hid, -⟩ := (h call hcall).id
  rw [Function.comp_apply, ModelToolCall.callId, hid]
  rfl

theorem matchResults_iff {groupIds : List Text} (hnodup : groupIds.Nodup) {u : Unit} :
    matchResults ids groupIds = .ok u ↔ ids.Perm groupIds := by
  simp only [matchResults, bind_eq_ok, raiseIf_eq_ok, exists_const, not_not]
  constructor
  · rintro ⟨hids, hsub, hsub'⟩
    exact (List.perm_ext_iff_of_nodup hids hnodup).mpr fun a => ⟨@hsub a, @hsub' a⟩
  · intro hperm
    exact ⟨hperm.nodup_iff.mpr hnodup, hperm.subset, hperm.symm.subset⟩

/-- The messages after an assistant message are its results exactly if they pass as such. -/
theorem isGroup_iff (hrole : assistant.role = .assistant) (hne : assistant.toolCalls ≠ [])
    (hlimits : ∀ call ∈ assistant.toolCalls, CallWithinLimits isPrintable call)
    (hnodup : (assistant.toolCalls.map (·.callId)).Nodup)
    (hids : results.map (·.toolCallId) = ids.map some) :
    (∀ result ∈ results, ResultPasses isPrintable (callNames assistant) result) ∧
        matchResults ids ((callNames assistant).map Prod.fst) = .ok () ↔
      IsGroup assistant results ∧ ∀ result ∈ results, MessageWithinLimits isPrintable result := by
  have hkeys := keys_callNames assistant
  have hlookup {id name : Text} : (callNames assistant).lookup id = some name ↔
      ∃ call ∈ assistant.toolCalls, call.providerToolCallId = some id ∧ call.name = name := by
    rw [Table.lookup_eq_some_iff (hkeys.symm ▸ hnodup), callNames, List.mem_map]
    refine exists_congr fun call => and_congr_right fun hcall => ?_
    obtain ⟨own, hown, -⟩ := (hlimits call hcall).id
    rw [Prod.mk.injEq, ModelToolCall.callId, hown, Option.getD_some, Option.some.injEq]
  have hperm : (results.map (·.toolCallId)).Perm (assistant.toolCalls.map (·.providerToolCallId)) ↔
      ids.Perm (assistant.toolCalls.map (·.callId)) := by
    rw [hids, map_providerToolCallId hlimits, List.map_perm_map_iff (Option.some_injective _)]
  rw [hkeys, matchResults_iff hnodup]
  constructor
  · rintro ⟨hpasses, hmatch⟩
    refine ⟨⟨hrole, hne, fun r hr => ⟨(hpasses r hr).role, (hpasses r hr).calls⟩,
      hperm.mpr hmatch, ?_⟩, fun r hr => (hpasses r hr).limits⟩
    intro r hr call hcall hid name hname
    obtain ⟨id, hown, -⟩ := (hlimits call hcall).id
    exact (hpasses r hr).name id call.name name (hid.symm.trans hown)
      (hlookup.mpr ⟨call, hcall, hown, rfl⟩) hname
  · rintro ⟨hgroup, hresults⟩
    refine ⟨fun r hr => ⟨(hgroup.result_role r hr).1, (hgroup.result_role r hr).2, hresults r hr,
      fun id name own hid hname hown => ?_⟩, hperm.mp hgroup.perm⟩
    obtain ⟨call, hcall, hcallId, rfl⟩ := hlookup.mp hname
    exact hgroup.name_eq r hr call hcall (hcallId.trans hid.symm) own hown

/-- An assistant message with calls passes exactly if it is within its limits. -/
theorem assistantCall_iff {total : ℕ} (hrole : m.role = .assistant) (hne : m.toolCalls ≠ []) :
    validateAssistantCall isPrintable m total = .ok () ∧
        (∀ call ∈ m.toolCalls, CallWithinLimits isPrintable call) ↔
      MessageWithinLimits isPrintable m ∧ total + m.toolCalls.length ≤ maxTotalToolCalls := by
  have hempty : m.toolCalls.isEmpty = false := by simpa using hne
  have hid : m.toolCallId = none := m.toolCallId_eq_none (by rw [hrole]; decide)
  have hcontent : ContentWithinLimits m ↔ contentFault true false (ofOption m.content) = none := by
    simp only [ContentWithinLimits, hrole, hempty]
    rfl
  rw [validateAssistantCall_eq_ok]
  constructor
  · rintro ⟨⟨-, -, hname, hc, -, hcount, htotal⟩, hcalls⟩
    exact ⟨⟨hname, hcontent.mpr hc, by simp [hid], hcount, hcalls⟩, htotal⟩
  · rintro ⟨h, htotal⟩
    exact ⟨⟨hrole, hid, h.name, hcontent.mp h.content, hne, h.callCount, htotal⟩, h.calls⟩

theorem normalizes_assistant (hrole : m.role = .assistant) (hid : m.toolCallId = none) :
    Normalizes m m' ↔ ∃ calls, List.Forall₂ CallNormalizes m.toolCalls calls ∧
      ModelMessage.new .assistant m.content m.name none calls = .ok m' := by
  simp only [new_eq_ok]
  constructor
  · rintro ⟨h1, h2, h3, h4, h5⟩
    exact ⟨_, h5, h1.trans hrole, h2, h3, h4.trans hid, rfl⟩
  · rintro ⟨calls, h5, h1, h2, h3, h4, rfl⟩
    exact ⟨h1.trans hrole.symm, h2, h3, h4.trans hid.symm, h5⟩

theorem callIds_group (h : IsGroup assistant results)
    (hlimits : ∀ call ∈ assistant.toolCalls, CallWithinLimits isPrintable call) :
    callIds (assistant :: (results ++ rest)) =
      (assistant.toolCalls.map (·.callId)).map some ++ callIds rest := by
  rw [callIds_cons, callIds_append, h.callIds_results, List.nil_append,
    map_providerToolCallId hlimits]

/-- Identifiers that are distinct and new, in two steps. -/
theorem nodup_seen_iff {rest : List (Option Text)} :
    (ids.map some ++ rest).Nodup ∧ (∀ id ∈ seen, some id ∉ ids.map some ++ rest) ↔
      (ids.Nodup ∧ ∀ id ∈ ids, id ∉ seen) ∧
        rest.Nodup ∧ ∀ id ∈ ids.reverse ++ seen, some id ∉ rest := by
  simp only [List.nodup_append, List.nodup_map_iff (Option.some_injective _), List.mem_append,
    List.mem_map, Option.some.injEq, exists_eq_right, List.mem_reverse, not_or]
  constructor
  · rintro ⟨⟨hids, hrest, hdisjoint⟩, hseen⟩
    refine ⟨⟨hids, fun id hid hs => (hseen id hs).1 hid⟩, hrest, ?_⟩
    rintro id (hid | hid) hmem
    · exact hdisjoint (some id) ⟨id, hid, rfl⟩ (some id) hmem rfl
    · exact (hseen id hid).2 hmem
  · rintro ⟨⟨hids, hnew⟩, hrest, hdisjoint⟩
    refine ⟨⟨hids, hrest, ?_⟩, fun id hid => ⟨fun hmem => hnew id hmem hid,
      hdisjoint id (.inr hid)⟩⟩
    rintro _ ⟨id, hid, rfl⟩ _ hmem rfl
    exact hdisjoint id (.inl hid) hmem

theorem totalCalls_cons (m : ModelMessage Arguments) (ms : List (ModelMessage Arguments)) :
    totalCalls (m :: ms) = m.toolCalls.length + totalCalls ms := by
  rw [totalCalls, List.map_cons, List.sum_cons, totalCalls]

theorem totalCalls_group (h : IsGroup assistant results) :
    totalCalls (assistant :: (results ++ rest)) = assistant.toolCalls.length + totalCalls rest := by
  have hresults : (results.map fun m => m.toolCalls.length).sum = 0 :=
    List.sum_eq_zero fun n hn => by
      obtain ⟨r, hr, rfl⟩ := List.mem_map.mp hn
      rw [(h.result_role r hr).2]
      rfl
  rw [totalCalls_cons, totalCalls, List.map_append, List.sum_append, hresults, Nat.zero_add,
    totalCalls]

/-- **The loop over the groups accepts groups**: within the limits, with identifiers that are
distinct and not seen before. -/
theorem validateGroups_iff {messages : List (ModelMessage Arguments)} {total : ℕ}
    (htotal : total ≤ maxTotalToolCalls) :
    validateGroups isPrintable messages seen total = .ok out ↔
      (Groups messages ∧ (∀ m ∈ messages, MessageWithinLimits isPrintable m) ∧
        total + totalCalls messages ≤ maxTotalToolCalls) ∧
      ((callIds messages).Nodup ∧ ∀ id ∈ seen, some id ∉ callIds messages) ∧
      List.Forall₂ Normalizes messages out := by
  induction hn : messages.length using Nat.strong_induction_on
    generalizing messages seen total out with
  | _ n ih =>
  cases messages with
  | nil =>
    rw [validateGroups, Except.ok.injEq, eq_comm, List.forall₂_nil_left_iff]
    exact ⟨fun h => ⟨⟨.nil, List.forall_mem_nil _, htotal⟩,
      ⟨List.nodup_nil, fun _ _ => List.not_mem_nil⟩, h⟩, fun h => h.2.2⟩
  | cons assistant rest =>
    rw [validateGroups_cons]
    constructor
    · rintro ⟨calls, names, seen', m, results, ids, tail, hassistant, hcalls, hm, hlength, hresults,
        hmatch, htail, rfl⟩
      obtain ⟨taken, after, rfl, htaken⟩ : ∃ taken after, rest = taken ++ after ∧
          taken.length = assistant.toolCalls.length :=
        ⟨_, _, (List.take_append_drop _ rest).symm, List.length_take_of_le hlength⟩
      rw [List.take_left' htaken] at hresults
      rw [List.drop_left' htaken] at htail
      obtain ⟨hrole, hid, -, -, hne, -, htotal'⟩ := validateAssistantCall_eq_ok.mp hassistant
      obtain ⟨hlimits, hcallsOut, hnodup, hnew, rfl, rfl⟩ := validateCalls_iff.mp hcalls
      obtain ⟨hpasses, hresultsOut, hids⟩ := validateResults_iff.mp hresults
      obtain ⟨hgroup, hresultLimits⟩ :=
        (isGroup_iff hrole hne hlimits hnodup hids).mp ⟨hpasses, hmatch⟩
      obtain ⟨hself, -⟩ := (assistantCall_iff hrole hne).mp ⟨hassistant, hlimits⟩
      obtain ⟨⟨hgroups, hafter, hcount⟩, hdistinct, hafterOut⟩ :=
        (ih after.length (by simp at hn; omega) htotal' rfl).mp htail
      refine ⟨⟨.group hgroup hgroups, ?_, ?_⟩, ?_, .cons ?_ (List.rel_append hresultsOut hafterOut)⟩
      · exact List.forall_mem_cons.mpr ⟨hself, List.forall_mem_append.mpr ⟨hresultLimits, hafter⟩⟩
      · rw [totalCalls_group hgroup]
        omega
      · rw [callIds_group hgroup hlimits]
        exact nodup_seen_iff.mpr ⟨⟨hnodup, by simpa using hnew⟩, hdistinct⟩
      · exact (normalizes_assistant hrole hid).mpr ⟨calls, hcallsOut, hm⟩
    · rintro ⟨⟨hgroups, hlimits, hcount⟩, hdistinct, hout⟩
      obtain ⟨taken, after, rfl, hgroup, hafter⟩ := groups_cons_iff.mp hgroups
      obtain ⟨hself, hrest⟩ := List.forall_mem_cons.mp hlimits
      obtain ⟨hresultLimits, hafterLimits⟩ := List.forall_mem_append.mp hrest
      rw [totalCalls_group hgroup] at hcount
      rw [callIds_group hgroup hself.calls] at hdistinct
      obtain ⟨⟨hnodup, hnew⟩, hdistinct⟩ := nodup_seen_iff.mp hdistinct
      cases hout with
      | @cons _ m _ out hnormal hout =>
      obtain ⟨hassistant, -⟩ := (assistantCall_iff hgroup.assistant_role hgroup.calls_ne_nil).mpr
        ⟨hself, (by omega : total + assistant.toolCalls.length ≤ maxTotalToolCalls)⟩
      obtain ⟨-, hid, -⟩ := validateAssistantCall_eq_ok.mp hassistant
      obtain ⟨calls, hcallsOut, hm⟩ := (normalizes_assistant hgroup.assistant_role hid).mp hnormal
      obtain ⟨ids, hids⟩ := hgroup.exists_ids
      obtain ⟨results, tail, rfl, hresultsOut, htailOut⟩ := forall₂_append_left hout
      obtain ⟨hpasses, hmatch⟩ := (isGroup_iff hgroup.assistant_role hgroup.calls_ne_nil hself.calls
        hnodup hids).mpr ⟨hgroup, hresultLimits⟩
      have hcalls := validateCalls_iff.mpr
        ⟨hself.calls, hcallsOut, hnodup, by simpa using hnew, rfl, rfl⟩
      refine ⟨calls, _, _, m, results, ids, tail, hassistant, hcalls, hm, ?_, ?_, hmatch, ?_, rfl⟩
      · rw [List.length_append, hgroup.length_eq]
        omega
      · rw [List.take_left' hgroup.length_eq]
        exact validateResults_iff.mpr ⟨hpasses, hresultsOut, hids⟩
      · rw [List.drop_left' hgroup.length_eq]
        exact (ih after.length (by simp at hn; omega) (by omega) rfl).mpr
          ⟨⟨hafter, hafterLimits, by omega⟩, hdistinct, htailOut⟩

/-! ## Turns -/

theorem validateUserMessage_iff (hrole : m.role = .user) :
    validateUserMessage isPrintable m = .ok () ↔
      m.toolCalls = [] ∧ MessageWithinLimits isPrintable m := by
  have hid : m.toolCallId = none := m.toolCallId_eq_none (by rw [hrole]; decide)
  rw [validateUserMessage_eq_ok]
  constructor
  · rintro ⟨hcalls, -, hname, hcontent⟩
    refine ⟨hcalls, hname, ?_, by simp [hid], by simp [hcalls], by simp [hcalls]⟩
    simp only [ContentWithinLimits, hrole]
    exact hcontent
  · rintro ⟨hcalls, hlimits⟩
    have hcontent := hlimits.content
    simp only [ContentWithinLimits, hrole] at hcontent
    exact ⟨hcalls, hid, hlimits.name, hcontent⟩

theorem validateFinalAssistant_iff (hrole : m.role = .assistant) :
    validateFinalAssistant isPrintable m = .ok () ↔
      m.toolCalls = [] ∧ MessageWithinLimits isPrintable m := by
  have hid : m.toolCallId = none := m.toolCallId_eq_none (by rw [hrole]; decide)
  rw [validateFinalAssistant_eq_ok]
  constructor
  · rintro ⟨hcalls, -, hname, hcontent⟩
    refine ⟨hcalls, hname, ?_, by simp [hid], by simp [hcalls], by simp [hcalls]⟩
    simp only [ContentWithinLimits, hrole, hcalls]
    exact hcontent
  · rintro ⟨hcalls, hlimits⟩
    have hcontent := hlimits.content
    simp only [ContentWithinLimits, hrole, hcalls] at hcontent
    exact ⟨hcalls, hid, hlimits.name, hcontent⟩

theorem totalCalls_turn (hu : user.toolCalls = []) (hf : final.toolCalls = []) :
    totalCalls (user :: (middle ++ [final])) = totalCalls middle := by
  simp [totalCalls, hu, hf]

/-- **A turn passes exactly if it is complete and within the limits**; what is given back are its
messages with their arguments copied. -/
theorem validateTurnMessages_iff :
    validateTurnMessages isPrintable (user :: (middle ++ [final])) = .ok out ↔
      WithinLimits isPrintable (user :: (middle ++ [final])) ∧ CompleteTurn user middle final ∧
        List.Forall₂ Normalizes (user :: (middle ++ [final])) out := by
  rw [validateTurnMessages_eq_ok]
  constructor
  · rintro ⟨u, groups, last, hlength, hurole, huser, hu, hfrole, hfinal, hgroups, hl, rfl⟩
    obtain ⟨hucalls, hulimits⟩ := (validateUserMessage_iff hurole).mp huser
    obtain ⟨hfcalls, hflimits⟩ := (validateFinalAssistant_iff hfrole).mp hfinal
    obtain ⟨⟨hmiddle, hlimits, hcount⟩, ⟨hnodup, -⟩, hout⟩ :=
      (validateGroups_iff (Nat.zero_le _)).mp hgroups
    have huid : user.toolCallId = none := user.toolCallId_eq_none (by rw [hurole]; decide)
    have hfid : final.toolCallId = none := final.toolCallId_eq_none (by rw [hfrole]; decide)
    refine ⟨⟨by simp; omega, ?_, ?_⟩, ⟨hurole, hucalls, hmiddle, hfrole, hfcalls, hnodup⟩,
      .cons ((normalizes_without_calls hurole hucalls huid).mpr hu) (List.rel_append hout
        (.cons ((normalizes_without_calls hfrole hfcalls hfid).mpr hl) .nil))⟩
    · rw [totalCalls_turn hucalls hfcalls]
      omega
    · refine List.forall_mem_cons.mpr ⟨hulimits, List.forall_mem_append.mpr ⟨hlimits, ?_⟩⟩
      simpa using hflimits
  · rintro ⟨⟨hlength, hcount, hlimits⟩, hturn, hout⟩
    obtain ⟨hulimits, hlimits⟩ := List.forall_mem_cons.mp hlimits
    obtain ⟨hmlimits, hflimits⟩ := List.forall_mem_append.mp hlimits
    have hfinal := (validateFinalAssistant_iff hturn.final_role).mpr
      ⟨hturn.final_calls, hflimits final (by simp)⟩
    have huser := (validateUserMessage_iff hturn.user_role).mpr ⟨hturn.user_calls, hulimits⟩
    have huid : user.toolCallId = none :=
      user.toolCallId_eq_none (by rw [hturn.user_role]; decide)
    have hfid : final.toolCallId = none :=
      final.toolCallId_eq_none (by rw [hturn.final_role]; decide)
    rw [totalCalls_turn hturn.user_calls hturn.final_calls] at hcount
    cases hout with
    | @cons _ u _ out hu hout =>
    obtain ⟨groups, lasts, rfl, hgroups, hlasts⟩ := forall₂_append_left hout
    obtain ⟨last, rfl, hlast⟩ : ∃ last, lasts = [last] ∧ Normalizes final last := by
      cases hlasts with
      | cons h hnil => exact ⟨_, by rw [List.forall₂_nil_left_iff.mp hnil], h⟩
    refine ⟨u, groups, last, by simp at hlength; omega, hturn.user_role, huser,
      (normalizes_without_calls hturn.user_role hturn.user_calls huid).mp hu, hturn.final_role,
      hfinal, (validateGroups_iff (Nat.zero_le _)).mpr ⟨⟨hturn.groups, hmlimits, by omega⟩,
        ⟨hturn.nodup, nofun⟩, hgroups⟩,
      (normalizes_without_calls hturn.final_role hturn.final_calls hfid).mp hlast, rfl⟩

theorem exists_normalizes (h : MessageWithinLimits isPrintable m) : ∃ m', Normalizes m m' := by
  have hcall : ∀ call ∈ m.toolCalls, ∃ c, CallNormalizes call c := fun call hcall => by
    obtain ⟨arguments, ha⟩ := (h.calls call hcall).arguments
    exact ⟨⟨call.name, arguments, call.providerToolCallId⟩, rfl, rfl, ha⟩
  obtain ⟨calls, hcalls⟩ := Pairing.exists_of_forall hcall
  exact ⟨⟨m.role, m.content, m.name, m.toolCallId, calls, m.fits⟩, rfl, rfl, rfl, rfl, hcalls⟩

/-- **The stored turns are the complete ones.** Within the limits a list of messages is accepted
exactly if it is a complete turn, and given back with its call arguments normalised. -/
theorem accepted_iff_complete {messages : List (ModelMessage Arguments)}
    (h : WithinLimits isPrintable messages) :
    ((∃ out, validateTurnMessages isPrintable messages = .ok out) ↔
        ∃ user middle final, messages = user :: (middle ++ [final]) ∧
          CompleteTurn user middle final) ∧
      ∀ out, validateTurnMessages isPrintable messages = .ok out →
        List.Forall₂ Normalizes messages out := by
  refine ⟨⟨?_, ?_⟩, fun out hout => ?_⟩
  · rintro ⟨out, hout⟩
    obtain ⟨user, middle, final, rfl⟩ := validateTurnMessages_shape hout
    exact ⟨user, middle, final, rfl, (validateTurnMessages_iff.mp hout).2.1⟩
  · rintro ⟨user, middle, final, rfl, hturn⟩
    obtain ⟨out, hout⟩ := Pairing.exists_of_forall fun m hm => exists_normalizes (h.fields m hm)
    exact ⟨out, validateTurnMessages_iff.mpr ⟨h, hturn, hout⟩⟩
  · obtain ⟨user, middle, final, rfl⟩ := validateTurnMessages_shape hout
    exact (validateTurnMessages_iff.mp hout).2.2

end Loops

/-! ## A turn with one call -/

def searchQuestion : ModelMessage Arguments :=
  ⟨.user, some (Text.ofString "question"), none, none, [], fits_user⟩

def searchCall : ModelMessage Arguments :=
  ⟨.assistant, none, none, none, [⟨Text.ofString "search", [], some (Text.ofString "c1")⟩],
    fits_assistant⟩

theorem fits_searchResult : fitsRole .tool (some (Text.ofString "c1")) := by decide

def searchResult : ModelMessage Arguments :=
  ⟨.tool, some (Text.ofString "found"), some (Text.ofString "search"), some (Text.ofString "c1"),
    [], fits_searchResult⟩

def searchAnswer : ModelMessage Arguments :=
  ⟨.assistant, some (Text.ofString "answer"), none, none, [], fits_assistant⟩

def searchTurn : List (ModelMessage Arguments) :=
  [searchQuestion, searchCall, searchResult, searchAnswer]

theorem searchTurn_withinLimits : WithinLimits (fun _ => true) searchTurn where
  messageCount := by decide
  callCount := by decide
  fields := by
    have hname : nameFault (fun _ => true) (Text.ofString "search") = none := by decide +kernel
    have hid : protocolIdFault (fun _ => true) (Text.ofString "c1") = none := by decide +kernel
    have hcontent {s : String} (h : contentFault false true (.str (Text.ofString s)) = none) :
        contentFault false true (ofOption (some (Text.ofString s))) = none := h
    intro m hm
    simp only [searchTurn, List.mem_cons, List.not_mem_nil, or_false] at hm
    rcases hm with rfl | rfl | rfl | rfl
    · exact ⟨by simp [searchQuestion], hcontent (by decide +kernel), by simp [searchQuestion],
        by decide, by simp [searchQuestion]⟩
    · refine ⟨by simp [searchCall], rfl, by simp [searchCall], by decide, ?_⟩
      simpa [searchCall] using
        (⟨hname, ⟨_, rfl, hid⟩, ⟨[], rfl⟩⟩ : CallWithinLimits (fun _ => true)
          ⟨Text.ofString "search", [], some (Text.ofString "c1")⟩)
    · refine ⟨?_, ?_, ?_, by decide, by simp [searchResult]⟩
      · rintro _ ⟨rfl⟩
        exact hname
      · change contentFault false false (.str (Text.ofString "found")) = none
        decide +kernel
      · rintro _ ⟨rfl⟩
        exact hid
    · exact ⟨by simp [searchAnswer], hcontent (by decide +kernel), by simp [searchAnswer],
        by decide, by simp [searchAnswer]⟩

theorem accepted_iff_complete_search :
    WithinLimits (fun _ => true) searchTurn ∧
      ∃ out, validateTurnMessages (fun _ => true) searchTurn = .ok out := by
  have hgroup : IsGroup searchCall [searchResult] :=
    ⟨rfl, by simp [searchCall], by simp [searchResult], .refl _, by simp [searchCall, searchResult]⟩
  have hturn : CompleteTurn searchQuestion [searchCall, searchResult] searchAnswer :=
    ⟨rfl, rfl, .group hgroup .nil, rfl, rfl, by simp [callIds, searchCall, searchResult]⟩
  exact ⟨searchTurn_withinLimits, (accepted_iff_complete searchTurn_withinLimits).1.mpr
    ⟨_, _, _, rfl, hturn⟩⟩

end AgentHub.Transcript
