import AgentHub.History.Renaming
import AgentHub.History.Viewed

/-!
# Completeness of the history that is sent

A view that can be sent has every turn of the manifest, in its order. Each message is listed with
its exchange, and tool-call ids are renamed such that no two calls share one.

## Main definitions

* `Replays`: the messages a turn is replayed with

## Main results

* `sendable_history_complete`
-/

namespace AgentHub.History

open Lib Context Transcript

/-- The turn is replayed: its messages with the tool-call ids renamed, each result with the call it
answers, or the texts of the exchange where no messages were stored. -/
def Replays (turn : ThreadTurnContext) (pair : List Message) : Prop :=
  if turn.messages = [] then
    pair = [⟨.user, some turn.userInput, none, none, [], fits_user⟩,
      ⟨.assistant, some (finalText turn), none, none, [], fits_assistant⟩]
  else
    ∃ f : Text → Text, Set.InjOn f {id | id ∈ callIds turn.messages} ∧
      List.Forall₂ (Renames f) turn.messages pair ∧
      ∀ m ∈ turn.messages, ∀ id ∈ m.toolCallId, id ∈ callIds turn.messages

/-- The turn has no messages or those of a valid transcript. -/
def ValidTurn (isPrintable : CodePoint → Bool) (turn : ThreadTurnContext) : Prop :=
  turn.messages = [] ∨ ∃ raw, validateTurnMessages isPrintable raw = .ok turn.messages

variable {turn : ThreadTurnContext}

theorem ValidTurn.resultsPlain {isPrintable : CodePoint → Bool} (h : ValidTurn isPrintable turn) :
    ResultsPlain turn.messages := by
  rcases h with h | ⟨raw, h⟩
  · simp [h, ResultsPlain]
  · intro m hm hrole
    have hfields := ((validateTurnMessages_ok h).2 m hm).fields
    simp only [FieldsOk, hrole] at hfields
    exact hfields.2.1

/-- **The messages of a turn**, and the ids of their calls. -/
theorem turnMessages_eq_ok {source : HistorySource} {pair : List Message}
    (hplain : ResultsPlain turn.messages) (h : turnMessages source turn = .ok pair) :
    Replays turn pair ∧
      ∃ n, callIds pair = (List.range n).map (historyCallId (hexOf source.turnId)) := by
  unfold turnMessages at h
  unfold Replays
  by_cases hempty : turn.messages = []
  · rw [if_neg (not_not.mpr hempty)] at h
    obtain rfl := Except.ok.inj h
    rw [if_pos hempty]
    exact ⟨rfl, 0, rfl⟩
  · rw [if_pos hempty] at h
    rw [if_neg hempty]
    obtain ⟨-, hresults, hrenamed, hids⟩ := namespaceToolIds_eq_ok hplain h
    exact ⟨⟨_, callName_injOn _ _, hrenamed, hresults⟩, _, hids⟩

/-- The calls of different turns have different ids. -/
theorem nodup_callIds {turns : List TurnEntry}
    (hdistinct : (turns.map fun e => e.source.turnId).Nodup)
    (hids : ∀ e ∈ turns, ∃ n,
      callIds e.pair = (List.range n).map (historyCallId (hexOf e.source.turnId))) :
    (callIds (turns.flatMap TurnEntry.pair)).Nodup := by
  have hflat : callIds (turns.flatMap TurnEntry.pair) =
      turns.flatMap fun e => callIds e.pair := by
    simp [callIds, List.flatMap_assoc]
  rw [hflat, List.nodup_flatMap]
  constructor
  · intro e he
    obtain ⟨n, hn⟩ := hids e he
    rw [hn]
    exact List.nodup_range.map fun i j hij => (historyCallId_inj rfl hij).2
  · refine (List.pairwise_map.mp hdistinct).imp_of_mem fun {a b} ha hb hne => ?_
    obtain ⟨m, hm⟩ := hids a ha
    obtain ⟨n, hn⟩ := hids b hb
    intro id hida hidb
    dsimp only at hida hidb
    rw [hm] at hida
    rw [hn] at hidb
    obtain ⟨i, -, rfl⟩ := List.mem_map.mp hida
    obtain ⟨j, -, hij⟩ := List.mem_map.mp hidb
    have hhex := (historyCallId_inj (by rw [length_hexOf, length_hexOf]) hij).1
    exact hne (hexOf_injective hhex).symm

/-- **The history that is sent is complete.** -/
theorem sendable_history_complete (isPrintable : CodePoint → Bool) (r : ViewRequest)
    (view : PlannedHistory) (hvalid : ∀ turn ∈ r.conversation.turns, ValidTurn isPrintable turn)
    (h : planHistoryView r = .ok view) (hready : view.plan.readyForDispatch = true) :
    ∃ manifest exchanges, r.conversation.sourceManifest = some manifest ∧
      List.Forall₂ (fun source turn => turn.turnId = some source.turnId)
        manifest.selectedSources r.conversation.turns ∧
      List.Forall₂ Replays r.conversation.turns exchanges ∧
      view.messages = exchanges.flatten ∧
      view.exchangeIds = (List.zipWith
        (fun source exchange => List.replicate exchange.length source.sourceId)
        manifest.selectedSources exchanges).flatten ∧
      (callIds view.messages).Nodup := by
  obtain ⟨manifest, frozen, scope, entries, plan, hviews, hsend, rfl⟩ :=
    planHistoryView_eq_ok.mp ⟨h, hready⟩
  have hturns : List.Forall₂ (fun p e => Replays p.2 e.pair ∧
      ∃ n, callIds e.pair = (List.range n).map (historyCallId (hexOf e.source.turnId)))
      (manifest.selectedSources.zip r.conversation.turns) entries.turns := by
    refine (Pairing.with_mem hviews.turns).imp fun p e ⟨hgroup, hp, _⟩ => ?_
    have hplain := (hvalid p.2 (List.of_mem_zip hp).2).resultsPlain
    rw [hgroup.source_eq]
    exact turnMessages_eq_ok hplain hgroup.messages
  have hkept := hviews.kept hsend
  obtain ⟨hmanifest, -⟩ := checkView_eq_ok hviews.checked
  refine ⟨manifest, entries.turns.map TurnEntry.pair, hmanifest, ?_, ?_, ?_, ?_, ?_⟩
  · refine List.forall₂_iff_zip.mpr ⟨hviews.lengths, fun {source turn} hp => ?_⟩
    obtain ⟨e, -, hgroup⟩ := Pairing.exists_right hviews.turns hp
    exact hgroup.identity
  · rw [List.forall₂_map_right_iff, ← List.map_snd_zip hviews.lengths.ge, List.forall₂_map_left_iff]
    exact hturns.imp fun _ _ hp => hp.1
  · simp [sendable, hkept, List.flatMap]
  · simp [sendable, hkept, List.flatMap, ← hviews.sources, List.zipWith_map, List.zipWith_self]
  · have hdistinct := manifest.distinct
    rw [← hviews.sources, List.map_map] at hdistinct
    have hturnIds : (entries.turns.map fun e => e.source.turnId).Nodup :=
      List.Nodup.of_map (fun u => Text.ofString "thread-turn:" ++ Uuid.text u)
        (by simpa [Function.comp_def, HistorySource.sourceId] using hdistinct)
    simp only [sendable, hkept]
    refine nodup_callIds hturnIds fun e he => ?_
    obtain ⟨p, -, hp⟩ := Pairing.exists_left hturns he
    exact hp.2

/-! ## Two turns with the same provider ids -/

/-- A policy with a window of `limit` tokens that counts the characters of a text. -/
def samplePolicy (limit : ℕ) [NeZero limit] : ContextBudgetPolicy where
  profiles := []
  config := {}
  estimator text := text.length
  contextPolicy := some
    { inputLimitTokens := limit
      modelAvailableInputTokens := limit
      minTotalContextTokens := none
      reservedOutputTokens := 0
      counter := ⟨Text.ofString "approx_language_v1", 1, true, 0, 0, 0⟩
      thresholds := ⟨(70 * limit + 99) / 100, (85 * limit + 99) / 100, 55 * limit / 100⟩
      retainedRecentTurns := some 1
      maxHistoryGroups := none
      limit_pos := Nat.pos_of_neZero limit
      limit_le := le_rfl }
  reprojectEvidenceView kvs _ := .ok (some kvs)
  reprojectRagEvidencePayload kvs _ := .ok (some kvs)

/-- A question, a tool call with its result, and an answer. -/
def rawExchange : List (ModelMessage Arguments) :=
  [⟨.user, some (Text.ofString "find it"), none, none, [], fits_user⟩,
    ⟨.assistant, none, none, none,
      [⟨Text.ofString "search", [], some (Text.ofString "call-1")⟩], fits_assistant⟩,
    ⟨.tool, some (Text.ofString "found"), none, some (Text.ofString "call-1"), [], rfl⟩,
    ⟨.assistant, some (Text.ofString "here"), none, none, [], fits_assistant⟩]

def sampleExchange : List Message :=
  ((validateTurnMessages (fun _ => true) rawExchange).toOption).getD []

def sampleSource (turnId : Uuid) (sequence : ℕ) (h : 0 < sequence) : HistorySource where
  turnId := turnId
  runId := turnId
  sequence := sequence
  revisionSha256 := Text.ofString "abc"
  summaryEligibilityReason := Text.ofString "NOT_CLASSIFIED"
  sequence_pos := h
  revision_ok := by decide +kernel
  reason_ok := by decide +kernel

def sampleManifest : SourceManifest where
  workspaceId := 1
  threadId := 2
  beforeSequence := 5
  complete := true
  selectedSources := [sampleSource 10 1 (by decide), sampleSource 11 2 (by decide)]
  availableEligibleSourceCount := 2
  ordered := by decide +kernel
  distinct := by decide +kernel
  below := by decide +kernel

def sampleTurn (turnId : Uuid) (sequence : ℕ) : ThreadTurnContext where
  userInput := Text.ofString "find it"
  finalOutput := Text.ofString "here"
  turnId := some turnId
  runId := some turnId
  sequence := some sequence
  messages := sampleExchange

def sampleRequest (limit : ℕ) [NeZero limit] (memoryMessages : List Message) : ViewRequest where
  policy := samplePolicy limit
  conversation := ⟨[sampleTurn 10 1, sampleTurn 11 2], some sampleManifest⟩
  mandatoryMessages := [⟨.user, some (Text.ofString "and now?"), none, none, [], fits_user⟩]
  memoryMessages := memoryMessages
  tools := []
  permissionSnapshot := Text.ofString "read"

theorem sampleExchange_valid (turnId : Uuid) (sequence : ℕ) :
    ValidTurn (fun _ => true) (sampleTurn turnId sequence) := by
  obtain ⟨messages, h⟩ := exists_of_isSome
    (show (validateTurnMessages (fun _ => true) rawExchange).toOption.isSome = true by
      decide +kernel)
  refine .inr ⟨rawExchange, ?_⟩
  have hsame : (sampleTurn turnId sequence).messages = messages := by
    simp [sampleTurn, sampleExchange, h, Except.toOption]
  rw [hsame, h]

theorem sendable_history_complete_sample :
    ∃ view, planHistoryView (sampleRequest 1000 []) = .ok view ∧ view.messages.length = 8 ∧
      (callIds view.messages).Nodup := by
  obtain ⟨view, h⟩ : ∃ view, planHistoryView (sampleRequest 1000 []) = .ok view :=
    exists_of_isSome (by decide +kernel)
  have hfacts : (planHistoryView (sampleRequest 1000 [])).toOption.map
      (fun view => (view.plan.readyForDispatch, view.messages.length)) = some (true, 8) := by
    decide +kernel
  rw [h] at hfacts
  simp only [Except.toOption, Option.map_some, Option.some.injEq, Prod.mk.injEq] at hfacts
  have hvalid : ∀ turn ∈ (sampleRequest 1000 []).conversation.turns,
      ValidTurn (fun _ => true) turn := by
    simp only [sampleRequest, List.mem_cons, List.not_mem_nil, or_false, forall_eq_or_imp,
      forall_eq]
    exact ⟨sampleExchange_valid 10 1, sampleExchange_valid 11 2⟩
  obtain ⟨-, -, -, -, -, -, -, hnodup⟩ :=
    sendable_history_complete (fun _ => true) _ view hvalid h hfacts.1
  exact ⟨view, h, hfacts.2, hnodup⟩

end AgentHub.History
