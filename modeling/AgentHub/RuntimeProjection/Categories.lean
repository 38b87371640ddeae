import AgentHub.Context.Returns

/-!
# Categories of messages

A run hands its messages to admission with a category and an exchange for each, which it reads off
their positions and roles: the two system messages, injected memory, replayed history, and the turn
that is running. A tool call and its answers are one exchange. Where history comes with identities,
an exchange of it is what has one identity, and calls are not looked at; without them a turn of
history is a pair of messages.

Admission takes an exchange whole. So a tool message is admitted exactly where the call it answers
is, if both stand in the same part of the context. The parts matter: identities may cut through an
exchange, and a call in one part is not known in another.

## Main definitions

* `HistorySplit`, `ExchangeKey`, `categorizeMessages`: the parts, the exchanges and the categories
* `Answers`: a tool message and the call it answers
* `HistorySplit.region`, `HistorySplit.SameTurn`: parts of the context and turns of history

## Main results

* `getElem?_categorizeFrom`: a message with its category and exchange
* `lookup_toolGroupsAfter`: the exchange of the latest call with an identifier
* `tool_messages_not_orphaned`: answers are admitted with their calls, and turns whole
-/

namespace AgentHub.RuntimeProjection

open Lib
open Transcript Context

abbrev Message := ModelMessage JsonObject

/-! ## Exchanges -/

/-- `_SYSTEM_PREFIX_LENGTH` -/
def systemPrefixLength : ℕ := 2

/-- The exchange of a message. -/
inductive ExchangeKey
  | history (id : Text)
  | memory (index : ℕ)
  | user (index : ℕ)
  | conversation (n : ℕ)
  | tool (index : ℕ)
  | toolExchange (index : ℕ) (ids : List Text)
  deriving DecidableEq

/-- How many messages after the system messages are memory, and how many after these are history,
with the identities of their exchanges. -/
structure HistorySplit where
  memoryMessageCount : ℤ := 0
  historyMessageCount : ℤ := 0
  historyExchangeIds : Option (List Text) := none

namespace HistorySplit

variable (split : HistorySplit) (index : ℕ)

def historyStart : ℕ := systemPrefixLength + split.memoryMessageCount.toNat

def isMemory : Bool := systemPrefixLength ≤ index ∧ index < split.historyStart

def isHistory : Bool :=
  split.historyStart ≤ index ∧ index < split.historyStart + split.historyMessageCount.toNat

def historyTurn : ℕ := (index - split.historyStart) / 2

/-- The identity of a message of history, where there are identities. They are as many as the
messages, so that none is missing. -/
def historyId : Option Text :=
  if split.isHistory index then
    split.historyExchangeIds.map fun ids => ids.getD (index - split.historyStart) []
  else none

end HistorySplit

/-- The identifiers of the calls of an assistant message. A call without one gets one from its
position. -/
def callIds (index : ℕ) (message : Message) : List Text :=
  message.toolCalls.zipIdx.map fun (call, callIndex) =>
    match call.providerToolCallId with
    | none | some [] =>
      Text.ofString "assistant-" ++ decimalText index ++ Text.ofString "-" ++ decimalText callIndex
    | some id => id

/-! ## Categories -/

section Categorize

variable (split : HistorySplit)

/-- `RAG_EVIDENCE_TOOL_IDENTITIES` -/
def ragEvidenceToolIdentities : List Text := ["search_knowledge", "query_wiki"].map Text.ofString

/-- The category and the exchange of a message, with the exchanges of the calls so far. -/
def categorize (toolGroups : List (Text × ExchangeKey)) (index : ℕ) (message : Message) :
    ContextMessage ExchangeKey :=
  match split.historyId index with
  | some id => ⟨message, .conversation, some (.history id)⟩
  | none =>
    if index = 0 ∧ message.role = .system then ⟨message, .runtimePolicy, none⟩
    else if split.isMemory index then ⟨message, .memory, some (.memory index)⟩
    else
      match message.role with
      | .system => ⟨message, .systemPrompt, none⟩
      | .user =>
        if split.isHistory index then
          ⟨message, .conversation, some (.conversation (split.historyTurn index))⟩
        else ⟨message, .currentUserTask, some (.user index)⟩
      | .tool =>
        ⟨message,
          if ∃ name ∈ message.name, name ∈ ragEvidenceToolIdentities then .ragEvidence
          else .toolResult,
          some ((toolGroups.lookup (message.toolCallId.getD [])).getD (.tool index))⟩
      | .assistant =>
        if message.toolCalls.isEmpty = false then
          ⟨message, .conversation, some (.toolExchange index (callIds index message))⟩
        else if split.isHistory index then
          ⟨message, .conversation, some (.conversation (split.historyTurn index))⟩
        else ⟨message, .conversation, some (.conversation index)⟩

/-- The exchanges of the calls after a message. The latest one of an identifier comes first. -/
def registerCalls (toolGroups : List (Text × ExchangeKey)) (index : ℕ) (message : Message) :
    List (Text × ExchangeKey) :=
  if split.historyId index = none ∧ split.isMemory index = false ∧ message.role = .assistant then
    (callIds index message).map (fun id => (id, .toolExchange index (callIds index message))) ++
      toolGroups
  else toolGroups

/-- The loop over the messages, from a position on. -/
def categorizeFrom : List (Text × ExchangeKey) → ℕ → List Message →
    List (ContextMessage ExchangeKey)
  | _, _, [] => []
  | toolGroups, index, message :: messages =>
    categorize split toolGroups index message ::
      categorizeFrom (registerCalls split toolGroups index message) (index + 1) messages

/-- `_categorize_messages` -/
def categorizeMessages (messages : List Message) :
    Except PythonError (List (ContextMessage ExchangeKey)) := do
  raiseIf (∃ ids ∈ split.historyExchangeIds, (ids.length : ℤ) ≠ split.historyMessageCount)
    (.valueError "history exchange identities do not match the frozen messages")
  .ok (categorizeFrom split [] 0 messages)

/-- The exchanges of the calls after the messages, from a position on. -/
def toolGroupsAfter : List (Text × ExchangeKey) → ℕ → List Message → List (Text × ExchangeKey)
  | toolGroups, _, [] => toolGroups
  | toolGroups, index, message :: messages =>
    toolGroupsAfter (registerCalls split toolGroups index message) (index + 1) messages

variable {split}

/-- **A message with its category and exchange.** -/
theorem getElem?_categorizeFrom (messages : List Message) (toolGroups : List (Text × ExchangeKey))
    (n i : ℕ) :
    (categorizeFrom split toolGroups n messages)[i]? = messages[i]?.map
      (categorize split (toolGroupsAfter split toolGroups n (messages.take i)) (n + i)) := by
  induction messages generalizing toolGroups n i with
  | nil => rfl
  | cons message messages ih =>
    cases i with
    | zero => rfl
    | succ i =>
      rw [categorizeFrom, List.getElem?_cons_succ, List.getElem?_cons_succ, ih, List.take_succ_cons,
        toolGroupsAfter, Nat.add_right_comm, Nat.add_assoc]

theorem toolGroupsAfter_append (messages : List Message) (message : Message)
    (toolGroups : List (Text × ExchangeKey)) (n : ℕ) :
    toolGroupsAfter split toolGroups n (messages ++ [message]) =
      registerCalls split (toolGroupsAfter split toolGroups n messages) (n + messages.length)
        message := by
  induction messages generalizing toolGroups n with
  | nil => rfl
  | cons first messages ih =>
    rw [List.cons_append, toolGroupsAfter, ih, toolGroupsAfter, List.length_cons,
      Nat.add_right_comm, Nat.add_assoc]

end Categorize

/-! ## Calls and answers -/

/-- The identifiers a message has calls for. -/
def callsOf (index : ℕ) (message : Message) : List Text :=
  if message.role = .assistant then callIds index message else []

/-- The identifier a tool message answers. -/
def answeredId (message : Message) : Text := message.toolCallId.getD []

/-- The tool message at `i` answers a call of the message at `j`, the latest one before it with the
identifier. -/
def Answers (messages : List Message) (i j : ℕ) : Prop :=
  ∃ m call, messages[i]? = some m ∧ m.role = .tool ∧ messages[j]? = some call ∧ j < i ∧
    answeredId m ∈ callsOf j call ∧
    ∀ k other, j < k → k < i → messages[k]? = some other → answeredId m ∉ callsOf k other

theorem lookup_map_const {ids : List Text} {id : Text} (key : ExchangeKey) :
    (ids.map fun id => (id, key)).lookup id = if id ∈ ids then some key else none := by
  induction ids with
  | nil => rfl
  | cons first ids ih =>
    rw [List.map_cons, List.lookup_cons]
    by_cases h : id = first
    · simp [h]
    · rw [beq_false_of_ne h, ih]
      simp [h]

section Lookup

variable {split : HistorySplit} {id : Text} {toolGroups : List (Text × ExchangeKey)}

/-- A message without a call for the identifier leaves its exchange. -/
theorem lookup_registerCalls_of_not_mem {index : ℕ} {message : Message}
    (h : id ∉ callsOf index message) :
    (registerCalls split toolGroups index message).lookup id = toolGroups.lookup id := by
  unfold registerCalls
  split_ifs with hregistered
  · rw [callsOf, if_pos hregistered.2.2] at h
    rw [List.lookup_append, lookup_map_const, if_neg h, Option.none_or]
  · rfl

/-- **The exchange of the latest call** with an identifier. -/
theorem lookup_toolGroupsAfter {messages : List Message} {n j : ℕ} {call : Message}
    (hcall : messages[j]? = some call) (hhistory : split.historyId (n + j) = none)
    (hmemory : split.isMemory (n + j) = false) (hid : id ∈ callsOf (n + j) call)
    (hlatest : ∀ k other, j < k → messages[k]? = some other → id ∉ callsOf (n + k) other) :
    (toolGroupsAfter split toolGroups n messages).lookup id =
      some (.toolExchange (n + j) (callIds (n + j) call)) := by
  induction messages using List.reverseRecOn with
  | nil => cases hcall
  | append_singleton messages last ih =>
    rw [toolGroupsAfter_append]
    rcases Nat.lt_or_ge j messages.length with hj | hj
    · have hlast : id ∉ callsOf (n + messages.length) last :=
        hlatest messages.length last hj (by simp)
      rw [lookup_registerCalls_of_not_mem hlast]
      refine ih ?_ fun k other hk hother => hlatest k other hk ?_
      · rwa [List.getElem?_append_left hj] at hcall
      · rwa [List.getElem?_append_left (List.getElem?_eq_some_iff.mp hother).1]
    · obtain ⟨hlt, -⟩ := List.getElem?_eq_some_iff.mp hcall
      obtain rfl : j = messages.length := by
        rw [List.length_append, List.length_singleton] at hlt
        omega
      obtain rfl : last = call := by simpa using hcall
      have hrole : last.role = .assistant := by
        by_contra hnot
        rw [callsOf, if_neg hnot] at hid
        cases hid
      rw [callsOf, if_pos hrole] at hid
      rw [registerCalls, if_pos ⟨hhistory, hmemory, hrole⟩, List.lookup_append, lookup_map_const,
        if_pos hid, Option.some_or]

end Lookup

/-! ## Parts of the context -/

/-- A part of the context: memory, an exchange of history by its identity, or anything else. -/
inductive Region
  | free
  | memory
  | exchange (id : Text)
  deriving DecidableEq

namespace HistorySplit

variable (split : HistorySplit)

def region (index : ℕ) : Region :=
  match split.historyId index with
  | some id => .exchange id
  | none => if split.isMemory index then .memory else .free

/-- Two messages of one turn of history: with one identity, or of one pair. -/
def SameTurn (messages : List Message) (i j : ℕ) : Prop :=
  split.isHistory i ∧ split.isHistory j ∧ i < messages.length ∧ j < messages.length ∧
    match split.historyExchangeIds with
    | some _ => split.historyId i = split.historyId j
    | none => split.historyTurn i = split.historyTurn j

variable {split} {index : ℕ}

theorem region_eq_exchange {id : Text} :
    split.region index = .exchange id ↔ split.historyId index = some id := by
  unfold region
  split
  · next h => simp [h]
  · next h =>
    rw [h]
    split_ifs <;> simp

theorem region_eq_free : split.region index = .free ↔
    split.historyId index = none ∧ split.isMemory index = false := by
  unfold region
  split
  · next h => simp [h]
  · next h =>
    rw [h]
    split_ifs with hmemory <;> simp [hmemory]

theorem region_eq_memory : split.region index = .memory ↔
    split.historyId index = none ∧ split.isMemory index = true := by
  unfold region
  split
  · next h => simp [h]
  · next h =>
    rw [h]
    split_ifs with hmemory <;> simp [hmemory]

theorem isMemory_eq_false (h : split.isHistory index) : split.isMemory index = false := by
  simp only [isHistory, decide_eq_true_eq] at h
  simp only [isMemory, decide_eq_false_iff_not]
  omega

end HistorySplit

/-- A user message, or an assistant message without calls. -/
def isPlain (m : Message) : Bool :=
  m.role = .user || (m.role = .assistant && m.toolCalls.isEmpty)

section Categories

variable {split : HistorySplit} {toolGroups : List (Text × ExchangeKey)} {index : ℕ}
  {message : Message}

theorem categorize_of_historyId {id : Text} (h : split.historyId index = some id) :
    categorize split toolGroups index message =
      ⟨message, .conversation, some (.history id)⟩ := by
  unfold categorize
  rw [h]

/-- A tool message is in the exchange of its call. -/
theorem categorize_tool (h : split.region index = .free) (hrole : message.role = .tool) :
    (categorize split toolGroups index message).category.isMandatory = false ∧
      (categorize split toolGroups index message).exchangeGroup =
        some ((toolGroups.lookup (answeredId message)).getD (.tool index)) := by
  obtain ⟨hhistory, hmemory⟩ := HistorySplit.region_eq_free.mp h
  unfold categorize
  rw [hhistory]
  simp only [hrole, hmemory, reduceCtorEq, and_false, if_false, Bool.false_eq_true]
  refine ⟨?_, rfl⟩
  split_ifs <;> rfl

theorem categorize_call (h : split.region index = .free) {id : Text}
    (hid : id ∈ callsOf index message) :
    categorize split toolGroups index message =
      ⟨message, .conversation, some (.toolExchange index (callIds index message))⟩ := by
  obtain ⟨hhistory, hmemory⟩ := HistorySplit.region_eq_free.mp h
  have hrole : message.role = .assistant := by
    by_contra hnot
    rw [callsOf, if_neg hnot] at hid
    cases hid
  have hcalls : message.toolCalls.isEmpty = false := by
    rw [callsOf, if_pos hrole] at hid
    cases hempty : message.toolCalls with
    | nil =>
      rw [callIds, hempty] at hid
      cases hid
    | cons call calls => rfl
  unfold categorize
  rw [hhistory]
  simp only [hrole, hmemory, hcalls, reduceCtorEq, and_false, if_false, if_true,
    Bool.false_eq_true]

theorem categorize_memory (h : split.region index = .memory) (hrole : message.role = .tool) :
    categorize split toolGroups index message = ⟨message, .memory, some (.memory index)⟩ := by
  obtain ⟨hhistory, hmemory⟩ := HistorySplit.region_eq_memory.mp h
  unfold categorize
  rw [hhistory]
  simp only [hrole, hmemory, reduceCtorEq, and_false, if_false, if_true]

theorem categorize_plain (hhistory : split.isHistory index)
    (hnone : split.historyExchangeIds = none) (hplain : isPlain message) :
    categorize split toolGroups index message =
      ⟨message, .conversation, some (.conversation (split.historyTurn index))⟩ := by
  have hid : split.historyId index = none := by
    simp [HistorySplit.historyId, hnone]
  unfold categorize
  rw [hid]
  simp only [isPlain, Bool.or_eq_true, Bool.and_eq_true, decide_eq_true_eq] at hplain
  rcases hplain with hrole | ⟨hrole, hcalls⟩
  · simp only [hrole, HistorySplit.isMemory_eq_false hhistory, hhistory, reduceCtorEq, and_false,
      if_false, if_true, Bool.false_eq_true]
  · simp only [hrole, HistorySplit.isMemory_eq_false hhistory, hhistory, hcalls, reduceCtorEq,
      and_false, if_false, if_true, Bool.false_eq_true]

/-- The exchanges of calls are those of tools. -/
theorem toolExchange_of_mem {messages : List Message} {n : ℕ}
    (h : ∀ p ∈ toolGroups, ∃ k ids, p.2 = .toolExchange k ids) :
    ∀ p ∈ toolGroupsAfter split toolGroups n messages, ∃ k ids, p.2 = .toolExchange k ids := by
  induction messages generalizing toolGroups n with
  | nil => exact h
  | cons message messages ih =>
    refine ih fun p hp => ?_
    unfold registerCalls at hp
    split_ifs at hp
    · rcases List.mem_append.mp hp with hp | hp
      · obtain ⟨id, -, rfl⟩ := List.mem_map.mp hp
        exact ⟨n, _, rfl⟩
      · exact h p hp
    · exact h p hp

theorem getD_lookup_ne_memory {n : ℕ} {id : Text}
    (htools : ∀ p ∈ toolGroups, ∃ k ids, p.2 = .toolExchange k ids) :
    (toolGroups.lookup id).getD (.tool index) ≠ .memory n := by
  cases hfound : toolGroups.lookup id with
  | none => simp
  | some key =>
    obtain ⟨l, r, rfl, -⟩ := List.lookup_eq_some_iff.mp hfound
    obtain ⟨k, ids, rfl⟩ := htools (id, key) (by simp)
    simp

/-- Only the message at a position is in the exchange of a memory message there. -/
theorem index_of_memory_group {n : ℕ}
    (htools : ∀ p ∈ toolGroups, ∃ k ids, p.2 = .toolExchange k ids)
    (h : (categorize split toolGroups index message).exchangeGroup = some (.memory n)) :
    index = n := by
  unfold categorize at h
  split at h
  · cases h
  split at h
  · cases h
  split at h
  · cases h
    rfl
  split at h
  · cases h
  · split at h <;> cases h
  · exact absurd (Option.some.inj h) (getD_lookup_ne_memory htools)
  · split at h
    · cases h
    · split at h <;> cases h

end Categories

/-! ## Answers and turns -/

/-- The message at a position is admitted. -/
def Admits (s : Selection ExchangeKey) (i : ℕ) : Prop :=
  i ∈ s.admitted.map NormalizedMessage.index

section Orphans

variable {policy : ContextBudgetPolicy} {split : HistorySplit} {messages : List Message}
  {categorized : List (ContextMessage ExchangeKey)} {tools : List ModelToolDefinition}
  {payloads : List (ℕ × MemoryPayload)} {s : Selection ExchangeKey}

theorem categorizeMessages_eq_ok (h : categorizeMessages split messages = .ok categorized) :
    ∀ i m, messages[i]? = some m → categorized[i]? =
      some (categorize split (toolGroupsAfter split [] 0 (messages.take i)) i m) := by
  intro i m hm
  obtain ⟨⟨⟩, -, h⟩ := bind_eq_ok.mp h
  obtain rfl := Except.ok.inj h
  rw [getElem?_categorizeFrom, hm, Nat.zero_add]
  rfl

section Categorized

variable (hcategorized : categorizeMessages split messages = .ok categorized)

include hcategorized

/-- A tool message among the memory is refused. -/
theorem region_ne_memory (hgroups : validateAtomicToolGroups categorized = .ok ()) {i : ℕ}
    {m : Message} (hm : messages[i]? = some m) (hrole : m.role = .tool) :
    split.region i ≠ .memory := by
  intro hregion
  have hcategory := categorizeMessages_eq_ok hcategorized i m hm
  rw [categorize_memory hregion hrole] at hcategory
  obtain ⟨call, hcall, hiscall, group, hgroup, hgroup'⟩ :=
    validateAtomicToolGroups_eq_ok.mp hgroups _ (List.mem_of_getElem? hcategory) hrole
  obtain rfl := Option.some.inj hgroup
  -- the call that shares the exchange would be the tool message itself
  obtain ⟨k, hk⟩ := List.mem_iff_getElem?.mp hcall
  obtain ⟨⟨⟩, -, hcategorized⟩ := bind_eq_ok.mp hcategorized
  obtain rfl := Except.ok.inj hcategorized
  rw [getElem?_categorizeFrom, Nat.zero_add] at hk
  obtain ⟨m', hm', rfl⟩ := Option.map_eq_some_iff.mp hk
  obtain rfl := index_of_memory_group (toolExchange_of_mem (by simp)) hgroup'
  obtain rfl := Option.some.inj (hm.symm.trans hm')
  rw [categorize_memory hregion hrole] at hiscall
  simp [isToolCall, hrole] at hiscall

/-- **A tool message and its call are in one exchange**, where they stand in one part. -/
theorem answers_admitted (hgroups : validateAtomicToolGroups categorized = .ok ())
    (hs : Selects policy categorized tools payloads s) {i j : ℕ} (h : Answers messages i j)
    (hregion : split.region i = split.region j) : Admits s i ↔ Admits s j := by
  obtain ⟨m, call, hm, hrole, hcall, hlt, hid, hlatest⟩ := h
  have hi := categorizeMessages_eq_ok hcategorized i m hm
  have hj := categorizeMessages_eq_ok hcategorized j call hcall
  cases hfree : split.region i with
  | memory => exact absurd hfree (region_ne_memory hcategorized hgroups hm hrole)
  | exchange id =>
    rw [categorize_of_historyId (HistorySplit.region_eq_exchange.mp hfree)] at hi
    rw [categorize_of_historyId
      (HistorySplit.region_eq_exchange.mp (hregion.symm.trans hfree))] at hj
    exact hs.index_mem_admitted_congr hi hj rfl rfl rfl rfl
  | free =>
    have hfree' := hregion.symm.trans hfree
    obtain ⟨hhistory, hmemory⟩ := HistorySplit.region_eq_free.mp hfree'
    have hlookup : (toolGroupsAfter split [] 0 (messages.take i)).lookup (answeredId m) =
        some (.toolExchange j (callIds j call)) := by
      rw [← Nat.zero_add j] at hhistory hmemory hid
      have hcall' : (messages.take i)[j]? = some call := by rwa [List.getElem?_take_of_lt hlt]
      rw [lookup_toolGroupsAfter hcall' hhistory hmemory hid fun k other hk hother => ?_,
        Nat.zero_add]
      · obtain ⟨hlen, -⟩ := List.getElem?_eq_some_iff.mp hother
        have hki : k < i := (List.length_take_le i messages).trans_lt' hlen
        rw [List.getElem?_take_of_lt hki] at hother
        rw [Nat.zero_add]
        exact hlatest k other hk hki hother
    obtain ⟨hmandatory, hgroup⟩ := categorize_tool hfree hrole
    rw [hlookup, Option.getD_some] at hgroup
    rw [categorize_call hfree' hid] at hj
    exact hs.index_mem_admitted_congr hi hj hmandatory rfl hgroup rfl

/-- **The messages of a turn are in one exchange**, where without identities they are plain. -/
theorem turns_admitted (hs : Selects policy categorized tools payloads s) {i j : ℕ}
    (h : split.SameTurn messages i j)
    (hplain : split.historyExchangeIds = none → ∀ k, k = i ∨ k = j → ∀ m ∈ messages[k]?, isPlain m)
    : Admits s i ↔ Admits s j := by
  obtain ⟨hhi, hhj, hleni, hlenj, hturn⟩ := h
  obtain ⟨m, hm⟩ : ∃ m, messages[i]? = some m := ⟨_, List.getElem?_eq_getElem hleni⟩
  obtain ⟨n, hn⟩ : ∃ n, messages[j]? = some n := ⟨_, List.getElem?_eq_getElem hlenj⟩
  have hi := categorizeMessages_eq_ok hcategorized i m hm
  have hj := categorizeMessages_eq_ok hcategorized j n hn
  cases hids : split.historyExchangeIds with
  | none =>
    rw [hids] at hturn
    rw [categorize_plain hhi hids (hplain hids i (.inl rfl) m hm)] at hi
    rw [categorize_plain hhj hids (hplain hids j (.inr rfl) n hn), ← hturn] at hj
    exact hs.index_mem_admitted_congr hi hj rfl rfl rfl rfl
  | some ids =>
    rw [hids] at hturn
    obtain ⟨id, hid⟩ : ∃ id, split.historyId i = some id := by
      simp [HistorySplit.historyId, hhi, hids]
    rw [categorize_of_historyId hid] at hi
    rw [categorize_of_historyId (hturn.symm.trans hid)] at hj
    exact hs.index_mem_admitted_congr hi hj rfl rfl rfl rfl

end Categorized

/-- **Tool messages are not orphaned.** In every admission of categorised messages a tool message
that stands in the same part of the context as its call is admitted exactly where the call is, and
the messages of a turn of history are admitted together; a turn without an identity is a pair of
user messages and assistant messages without calls. -/
theorem tool_messages_not_orphaned (policy : ContextBudgetPolicy) (split : HistorySplit)
    (messages : List Message) (tools : List ModelToolDefinition)
    {categorized : List (ContextMessage ExchangeKey)} {result : ContextAdmissionResult}
    (hcategorized : categorizeMessages split messages = .ok categorized)
    (hadmitted : admitContext policy (categorized.map .inline) none none tools = .ok result) :
    ∃ s, MadeOf policy categorized tools s result ∧
      (∀ i j, Answers messages i j → split.region i = split.region j →
        (Admits s i ↔ Admits s j)) ∧
      ∀ i j, split.SameTurn messages i j →
        (split.historyExchangeIds = none →
          ∀ k, k = i ∨ k = j → ∀ m ∈ messages[k]?, isPlain m) →
        (Admits s i ↔ Admits s j) := by
  have hresolved := resolveMessages_inline categorized
  obtain ⟨s, hs⟩ := exists_madeOf hresolved hadmitted
  obtain ⟨hgroups, -⟩ := (exists_admit_iff hresolved).mp ⟨result, hadmitted⟩
  refine ⟨s, hs, ?_⟩
  obtain ⟨payloads, -, hselect, -⟩ := hs
  have hselects := selectContext_eq_ok.mp hselect
  exact ⟨fun i j h hregion => answers_admitted hcategorized hgroups hselects h hregion,
    fun i j h hplain => turns_admitted hcategorized hselects h hplain⟩

end Orphans

/-! ## Exchanges that are cut -/

/-- Every tool message answers a call before it. -/
def AllAnswered (messages : List Message) : Prop :=
  ∀ i m, messages[i]? = some m → m.role = .tool → ∃ j, Answers messages i j

/-- The positions that are admitted. -/
def admittedPositions (policy : ContextBudgetPolicy) (split : HistorySplit)
    (messages : List Message) : Option (List ℕ) := do
  let categorized ← (categorizeMessages split messages).toOption
  let _ ← (admitContext policy (categorized.map .inline) none none []).toOption
  let payloads ← (memoryPayloads categorized).toOption
  let s ← (selectContext policy categorized [] payloads).toOption
  some (s.admitted.map NormalizedMessage.index)

/-- An admission of categorised messages that admits some positions. -/
def AdmitsAt (policy : ContextBudgetPolicy) (split : HistorySplit) (messages : List Message)
    (positions : List ℕ) : Prop :=
  ∃ categorized result s, categorizeMessages split messages = .ok categorized ∧
    admitContext policy (categorized.map .inline) none none [] = .ok result ∧
    MadeOf policy categorized [] s result ∧ ∀ i, Admits s i ↔ i ∈ positions

variable {messages : List Message}

theorem admitsAt_of_positions {policy : ContextBudgetPolicy} {split : HistorySplit}
    {positions : List ℕ} (h : admittedPositions policy split messages = some positions) :
    AdmitsAt policy split messages positions := by
  simp only [admittedPositions, Option.bind_eq_bind, Option.bind_eq_some_iff] at h
  obtain ⟨categorized, hcategorized, result, hresult, payloads, hpayloads, s, hs, hpositions⟩ := h
  replace hresult := toOption_eq_some hresult
  obtain ⟨s', payloads', hpayloads', hs', hmade⟩ :=
    exists_madeOf (resolveMessages_inline categorized) hresult
  obtain rfl := Except.ok.inj ((toOption_eq_some hpayloads).symm.trans hpayloads')
  obtain rfl := Except.ok.inj ((toOption_eq_some hs).symm.trans hs')
  refine ⟨categorized, result, s, toOption_eq_some hcategorized, hresult,
    ⟨payloads, hpayloads', hs', hmade⟩, fun i => ?_⟩
  rw [Admits, Option.some.inj hpositions]

/-- A tool message answers the call right before it. -/
theorem answers_succ {j : ℕ} {m call : Message} (hm : messages[j + 1]? = some m)
    (hcall : messages[j]? = some call) (hrole : m.role = .tool)
    (hid : answeredId m ∈ callsOf j call) : Answers messages (j + 1) j :=
  ⟨m, call, hm, hrole, hcall, Nat.lt_succ_self j, hid, fun k _ hjk hki => by omega⟩

/-- Two calls with their answers, as history. -/
def twoExchanges : List Message :=
  [textMessage .system fits_system "policy", textMessage .system fits_system "prompt", callMessage "x",
    resultMessage "x" "1" (by decide), callMessage "y", resultMessage "y" "2" (by decide),
    textMessage .user fits_user "go"]

/-- A question, a call with its answer, and a text, as history without identities. -/
def questionWithCall : List Message :=
  [textMessage .system fits_system "policy", textMessage .system fits_system "prompt",
    textMessage .user fits_user "what is the state of the order?", callMessage "x",
    resultMessage "x" "1" (by decide), textMessage .assistant fits_assistant "done",
    textMessage .user fits_user "go"]

/-- A call with an identifier that a memory message uses again, and the answer. -/
def callInMemory : List Message :=
  [textMessage .system fits_system "policy", callMessage "x",
    { callMessage "x" with content := some (Text.ofString "\x7b\"memories\":[]\x7d") },
    resultMessage "x" "1" (by decide)]

/-- Identities of exchanges. -/
def historyIds (ids : List String) : HistorySplit :=
  { historyMessageCount := ids.length, historyExchangeIds := some (ids.map Text.ofString) }

theorem allAnswered_twoExchanges : AllAnswered twoExchanges := by
  intro i m hm hrole
  have hlt : i < 7 := (List.getElem?_eq_some_iff.mp hm).1
  interval_cases i <;> obtain rfl := Option.some.inj hm <;> try cases hrole
  · exact ⟨2, answers_succ rfl rfl rfl (by decide)⟩
  · exact ⟨4, answers_succ rfl rfl rfl (by decide)⟩

theorem allAnswered_questionWithCall : AllAnswered questionWithCall := by
  intro i m hm hrole
  have hlt : i < 7 := (List.getElem?_eq_some_iff.mp hm).1
  interval_cases i <;> obtain rfl := Option.some.inj hm <;> try cases hrole
  exact ⟨3, answers_succ rfl rfl rfl (by decide)⟩

theorem allAnswered_callInMemory : AllAnswered callInMemory := by
  intro i m hm hrole
  have hlt : i < 4 := (List.getElem?_eq_some_iff.mp hm).1
  interval_cases i <;> obtain rfl := Option.some.inj hm <;> try cases hrole
  exact ⟨2, answers_succ rfl rfl rfl (by decide)⟩

/-- Where identities cut through an exchange, an answer is admitted without its call. A turn without
an identity is cut where it has a call. A call among the memory is dropped beside its answer. -/
theorem tool_messages_orphaned :
    (AllAnswered twoExchanges ∧ Answers twoExchanges 3 2 ∧
      AdmitsAt (lengthPolicy 34 { reservedOutputTokens := 10 }) (historyIds ["a", "b", "b", "b"])
        twoExchanges [0, 1, 3, 4, 5, 6]) ∧
    (AllAnswered questionWithCall ∧
      HistorySplit.SameTurn { historyMessageCount := 4 } questionWithCall 2 3 ∧
      AdmitsAt (lengthPolicy 70 { reservedOutputTokens := 10 }) { historyMessageCount := 4 }
        questionWithCall [0, 1, 3, 4, 5, 6]) ∧
    AllAnswered callInMemory ∧ Answers callInMemory 3 2 ∧
      AdmitsAt (lengthPolicy 100 { reservedOutputTokens := 10, maxMemoryTokens := some 0 })
        { memoryMessageCount := 1 } callInMemory [0, 1, 3] := by
  refine ⟨⟨allAnswered_twoExchanges, answers_succ rfl rfl rfl (by decide), ?_⟩,
    ⟨allAnswered_questionWithCall, ⟨rfl, rfl, by decide, by decide, rfl⟩, ?_⟩,
    allAnswered_callInMemory, answers_succ rfl rfl rfl (by decide), ?_⟩
  · exact admitsAt_of_positions (by decide +kernel)
  · exact admitsAt_of_positions (by decide +kernel)
  · exact admitsAt_of_positions (by decide +kernel)

/-- With an identity for each exchange the older one is dropped with its call. -/
theorem tool_messages_not_orphaned_identities :
    ∃ categorized result s,
      categorizeMessages (historyIds ["a", "a", "b", "b"]) twoExchanges = .ok categorized ∧
      admitContext (lengthPolicy 32 { reservedOutputTokens := 10 }) (categorized.map .inline) none none
        [] = .ok result ∧
      MadeOf (lengthPolicy 32 { reservedOutputTokens := 10 }) categorized [] s result ∧
      Answers twoExchanges 5 4 ∧ (Admits s 5 ↔ Admits s 4) ∧ (Admits s 3 ↔ Admits s 2) := by
  obtain ⟨categorized, result, -, hcategorized, hresult, -, -⟩ : AdmitsAt
      (lengthPolicy 32 { reservedOutputTokens := 10 }) (historyIds ["a", "a", "b", "b"])
      twoExchanges [0, 1, 4, 5, 6] := admitsAt_of_positions (by decide +kernel)
  obtain ⟨s, hs, hanswers, -⟩ :=
    tool_messages_not_orphaned _ _ _ _ hcategorized hresult
  have hlast : Answers twoExchanges 5 4 := answers_succ rfl rfl rfl (by decide)
  have hfirst : Answers twoExchanges 3 2 := answers_succ rfl rfl rfl (by decide)
  exact ⟨categorized, result, s, hcategorized, hresult, hs, hlast,
    hanswers 5 4 hlast (by decide), hanswers 3 2 hfirst (by decide)⟩

end AgentHub.RuntimeProjection
