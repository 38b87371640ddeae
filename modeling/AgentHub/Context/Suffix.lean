import AgentHub.Context.Shares

/-!
# Is the admitted conversation a newest suffix?

Conversation exchanges are removed from the oldest on until the rest fits, so that a newer exchange
should never be dropped while an older one is kept. This is so among the exchanges whose messages
all get something from their pools. An exchange with a message that gets nothing is left out before,
wherever it stands.

## Main definitions

* `NewestSuffix`: no conversation exchange is admitted while a newer one is dropped
* `Served`, `tokensFrom`: exchanges whose messages all get something, and what they take
* `GapFree`: no exchange that is not served stands after one that fits

## Main results

* `Selects.conversation_admitted_iff`: the conversation exchanges admitted
* `conversation_suffix_iff`: the admitted conversation is a newest suffix exactly without a gap
-/

namespace AgentHub.Context

open Lib Transcript

variable {G : Type} [DecidableEq G] {policy : ContextBudgetPolicy}

/-- No conversation exchange is admitted while a newer one is dropped. -/
def NewestSuffix (messages : List (ContextMessage G)) (s : Selection G) : Prop :=
  ∀ older newer, IsConversationKey messages older → IsConversationKey messages newer →
    begins messages older < begins messages newer →
      AdmittedExchange messages s older → AdmittedExchange messages s newer

section Gap

variable (policy) (messages : List (ContextMessage G))

/-- Every message of the exchange gets something. -/
def Served (key : GroupKey G) : Prop :=
  ∀ p ∈ exchangeMessages messages key, (share policy messages p).isSome

/-- An exchange of the conversation that is served and begins at a position or after it. -/
def ServedFrom (start : ℕ) (key : GroupKey G) : Prop :=
  start ≤ begins messages key ∧ Served policy messages key ∧ IsConversationKey messages key

instance (start : ℕ) : DecidablePred (ServedFrom policy messages start) := fun key =>
  inferInstanceAs (Decidable (_ ∧ (∀ p ∈ exchangeMessages messages key, _) ∧ _))

/-- What the served conversation takes from a position on. -/
def tokensFrom (start : ℕ) : ℕ :=
  ((messages.zipIdx.filter fun p => ServedFrom policy messages start (p.1.groupAt p.2) &&
    !p.1.category.isMandatory).map fun p => (share policy messages p).getD 0).sum

/-- No conversation exchange with a message that gets nothing stands after one that is served and
fits with everything served from it on. -/
def GapFree (tools : List ModelToolDefinition) : Prop :=
  ∀ older newer, IsConversationKey messages older → IsConversationKey messages newer →
    begins messages older < begins messages newer →
      Served policy messages older → ¬ Served policy messages newer →
        room policy messages tools < tokensFrom policy messages (begins messages older)

/-- What is served from a later position on takes no more. -/
theorem tokensFrom_antitone : Antitone (tokensFrom policy messages) := by
  intro start later hle
  refine ((List.monotone_filter_right _ fun p hp => ?_).map _).sum_le_sum fun _ _ => Nat.zero_le _
  simp only [Bool.and_eq_true, decide_eq_true_eq] at hp ⊢
  exact ⟨⟨hle.trans hp.1.1, hp.1.2⟩, hp.2⟩

end Gap

namespace Selects

variable {messages : List (ContextMessage G)} {tools : List ModelToolDefinition}
  {payloads : List (ℕ × MemoryPayload)} {s : Selection G}
  (h : Selects policy messages tools payloads s) (hpayloads : memoryPayloads messages = .ok payloads)

include h hpayloads

/-- An exchange is eligible where its messages all get something. -/
theorem isEligible_iff {g : Exchange G} (hg : g ∈ exchanges s.projected) :
    isEligible g ↔ Served policy messages g.key := by
  rw [Served, ← h.members_source hg, List.forall_mem_map, isEligible, List.all_eq_true]
  refine forall₂_congr fun a ha => ?_
  have hmem := (List.mem_filter.mp (mem_of_mem_members hg ha).1).1
  rw [h.share_eq hpayloads hmem, NormalizedMessage.given, Option.isSome_map]

/-- What is eligible from a position on, by the shares of its messages. -/
theorem sum_eligible (start : ℕ) :
    (((eligibleConversation s.projected).filter fun g => start ≤ firstIndex g).map
      groupTokens).sum = tokensFrom policy messages start := by
  have hkeys : ((eligibleConversation s.projected).filter fun g => start ≤ firstIndex g) =
      (exchanges s.projected).filter fun g => ServedFrom policy messages start g.key := by
    rw [eligibleConversation, List.filter_filter, List.filter_filter]
    refine List.filter_congr fun g hg => ?_
    rw [Bool.eq_iff_iff, decide_eq_true_iff, ServedFrom, ← h.isEligible_iff hpayloads hg,
      ← h.isConversation_iff hg, ← h.firstIndex_eq hg]
    simp only [Bool.and_eq_true, decide_eq_true_eq, and_assoc]
  rw [hkeys, sum_map_filter]
  refine (sum_groupsOf NormalizedMessage.admittedTokens
    (fun key => decide (ServedFrom policy messages start key))
    (s.projected.filter fun p => !p.category.isMandatory)).trans ?_
  rw [← sum_map_filter, List.filter_filter, tokensFrom, ← h.sources, List.filter_map, List.map_map]
  refine congrArg List.sum (List.map_congr_left fun p hp => ?_)
  obtain ⟨r, -, hrp⟩ := Pairing.exists_left h.placed (List.mem_filter.mp hp).1
  rw [Function.comp_apply, h.share_eq hpayloads (List.mem_filter.mp hp).1, hrp.given_getD]

/-- **The conversation exchanges admitted** are those that are served and fit with everything served
from them on. -/
theorem conversation_admitted_iff {key : GroupKey G} (hkey : IsConversationKey messages key) :
    AdmittedExchange messages s key ↔ Served policy messages key ∧
      tokensFrom policy messages (begins messages key) ≤ room policy messages tools := by
  obtain ⟨p, hp, -⟩ := id hkey
  obtain ⟨g, hg, rfl⟩ := h.exists_exchange (List.ne_nil_of_mem hp)
  rw [h.exchange_admitted hg, mem_conversation_selected_iff h.pairwise_projected hg
    ((h.isConversation_iff hg).mpr hkey), h.isEligible_iff hpayloads hg, h.sum_eligible hpayloads,
    h.firstIndex_eq hg, h.room_eq]

end Selects

/-- **The admitted conversation is a newest suffix** exactly where there is no gap. -/
theorem conversation_suffix_iff (values : List (MessageInput G))
    (categories : Option (Metadata ContextCategory))
    (exchangeGroups : Option (Metadata (Option G))) (tools : List ModelToolDefinition)
    {result : ContextAdmissionResult} {messages : List (ContextMessage G)}
    (hmessages : resolveMessages categories exchangeGroups values = .ok messages)
    (h : admitContext policy values categories exchangeGroups tools = .ok result) :
    ∃ s, MadeOf policy messages tools s result ∧
      (NewestSuffix messages s ↔ GapFree policy messages tools) := by
  obtain ⟨s, hmade⟩ := exists_madeOf hmessages h
  obtain ⟨payloads, hpayloads, hs, -⟩ := id hmade
  have hadmitted {key : GroupKey G} (hkey : IsConversationKey messages key) :=
    (selectContext_eq_ok.mp hs).conversation_admitted_iff hpayloads hkey
  refine ⟨s, hmade, ?_, ?_⟩
  · intro hsuffix older newer holder hnewer hlt hserved hnot
    refine Nat.lt_of_not_le fun hfits => hnot ?_
    -- the older exchange would be admitted, and so the newer one
    have hold := (hadmitted holder).mpr ⟨hserved, hfits⟩
    exact ((hadmitted hnewer).mp (hsuffix older newer holder hnewer hlt hold)).1
  · intro hgap older newer holder hnewer hlt hold
    obtain ⟨hserved, hfits⟩ := (hadmitted holder).mp hold
    refine (hadmitted hnewer).mpr ⟨?_, (tokensFrom_antitone policy messages hlt.le).trans hfits⟩
    by_contra hnot
    exact absurd hfits (Nat.not_le.mpr (hgap older newer holder hnewer hlt hserved hnot))

/-! ## A gap -/

theorem fits_result : fitsRole .tool (some (Text.ofString "a")) := by decide

/-- An old exchange, one with a tool call and its result, and a new one. -/
def gapMessages : List (ContextMessage ℕ) :=
  [⟨textMessage .user fits_user "old", .conversation, some 1⟩,
    ⟨callMessage "a", .conversation, some 2⟩,
    ⟨resultMessage "a" "done" fits_result, .toolResult, some 2⟩,
    ⟨textMessage .user fits_user "new", .conversation, some 3⟩]

/-- A policy without a pool for tool results. -/
def noResults : ContextBudgetPolicy :=
  lengthPolicy 100 { reservedOutputTokens := 10, maxToolResultTokens := 0 }

/-- The old exchange is admitted while the newer one with the tool call is dropped. -/
theorem conversation_not_suffix :
    ∃ result s, admitContext noResults (gapMessages.map .inline) none none [] = .ok result ∧
      MadeOf noResults gapMessages [] s result ∧ ¬ NewestSuffix gapMessages s := by
  obtain ⟨result, hresult⟩ : ∃ result,
      admitContext noResults (gapMessages.map .inline) none none [] = .ok result :=
    exists_of_isSome (by decide +kernel)
  obtain ⟨s, hmade⟩ := exists_madeOf (resolveMessages_inline gapMessages) hresult
  obtain ⟨payloads, hpayloads, hs, -⟩ := id hmade
  obtain rfl : [] = payloads := Except.ok.inj hpayloads
  have hgap : (selectContext noResults gapMessages [] []).toOption.map (fun s =>
      decide (AdmittedExchange gapMessages s (.exchange 1)) &&
        !decide (AdmittedExchange gapMessages s (.exchange 2))) = some true := by decide +kernel
  rw [hs] at hgap
  obtain ⟨hold, hnew⟩ : AdmittedExchange gapMessages s (.exchange 1) ∧
      ¬ AdmittedExchange gapMessages s (.exchange 2) := by simpa [Except.toOption] using hgap
  refine ⟨result, s, hresult, hmade, fun hsuffix => hnew ?_⟩
  exact hsuffix (.exchange 1) (.exchange 2) (by decide) (by decide) (by decide) hold

/-- With a pool for tool results, an admission of the same messages. -/
theorem conversation_suffix_sample :
    ∃ result s, admitContext (lengthPolicy 200 { reservedOutputTokens := 10 })
        (gapMessages.map .inline) none none [] = .ok result ∧
      MadeOf (lengthPolicy 200 { reservedOutputTokens := 10 }) gapMessages [] s result ∧
      (NewestSuffix gapMessages s ↔
        GapFree (lengthPolicy 200 { reservedOutputTokens := 10 }) gapMessages []) := by
  obtain ⟨result, hresult⟩ : ∃ result, admitContext (lengthPolicy 200 { reservedOutputTokens := 10 })
      (gapMessages.map .inline) none none [] = .ok result := exists_of_isSome (by decide +kernel)
  obtain ⟨s, hmade, hiff⟩ :=
    conversation_suffix_iff _ none none [] (resolveMessages_inline gapMessages) hresult
  exact ⟨result, s, hresult, hmade, hiff⟩

end AgentHub.Context
