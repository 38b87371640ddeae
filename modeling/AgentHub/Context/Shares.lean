import AgentHub.Context.Returns

/-!
# What a message gets

The tokens a message takes, from the messages, the pools and the estimator alone: a message of a
pool takes what its projection counts for when those before it have taken theirs, any other message
its own estimate. The items of an admission have exactly these shares.

## Main definitions

* `poolShares`, `memoryShares`: messages served in turn from a pool
* `share`: what a message takes, if it gets anything
* `room`: the input left beside mandatory messages, tools and the request

## Main results

* `Selects.share_eq`: the share of a message is what admission gives it
* `Selects.room_eq`: the budget of the selection
-/

namespace AgentHub.Context

open Lib Transcript

variable {G : Type} (policy : ContextBudgetPolicy)

/-! ## Shares -/

/-- Messages of evidence or tool results, served in turn: what each gets by its position. -/
def poolShares : ℕ → List (ContextMessage G × ℕ) → List (ℕ × Option ℕ)
  | _, [] => []
  | left, (m, i) :: later =>
    let tokens := (projectMessage policy m.message left m.category).toOption.join.map Prod.snd
    (i, tokens) :: poolShares (left - tokens.getD 0) later

/-- Memories, served in turn. Once one is truncated, so are those after it. -/
def memoryShares : ℕ → Bool → List (ContextMessage G × ℕ) → List (ℕ × Option ℕ)
  | _, _, [] => []
  | left, truncated, (m, i) :: later =>
    let projection := (parseMemoryPayload m.message.content).bind fun payload =>
      (projectMemoryMessage policy m.message left payload truncated).toOption
    let tokens := (projection.bind MemoryProjection.admitted).map Prod.snd
    (i, tokens) :: memoryShares (left - tokens.getD 0)
      (truncated || projection.any MemoryProjection.truncated) later

/-- The messages of a category with their positions. -/
def messagesOf (messages : List (ContextMessage G)) (category : ContextCategory) :
    List (ContextMessage G × ℕ) :=
  messages.zipIdx.filter fun p => p.1.category = category

/-- What the memories get. -/
def sharesOfMemory (messages : List (ContextMessage G)) : List (ℕ × Option ℕ) :=
  memoryShares policy (policy.config.maxMemoryTokens.getD policy.config.maxRetrievalTokens) false
    (messagesOf messages .memory)

/-- The pool of evidence, from which memory takes where it has no cap of its own. -/
def evidencePool (messages : List (ContextMessage G)) : ℕ :=
  policy.config.maxRetrievalTokens - if policy.config.maxMemoryTokens.isSome then 0
    else ((sharesOfMemory policy messages).map fun p => p.2.getD 0).sum

/-- What a message gets: a message of a pool what the pool still has for it, the newest evidence and
the newest tool result first, and any other message its estimate. -/
def share (messages : List (ContextMessage G)) (p : ContextMessage G × ℕ) : Option ℕ :=
  if p.1.category.isProjectable then
    ((sharesOfMemory policy messages ++
      poolShares policy (evidencePool policy messages) (messagesOf messages .ragEvidence).reverse ++
      poolShares policy policy.config.maxToolResultTokens
        (messagesOf messages .toolResult).reverse).lookup p.2).join
  else (estimateMessage policy p.1.message).toOption

/-- The input left beside mandatory messages, tools and the request itself. -/
def room (messages : List (ContextMessage G)) (tools : List ModelToolDefinition) : ℕ :=
  let limit : Except ContextError ℕ := do
    let contextLimit ← effectiveContextLimit policy
    let reservedOutput ← effectiveReservedOutput policy
    availableInput policy contextLimit reservedOutput
  limit.toOption.getD 0 -
    (((messages.filter fun m => m.category.isMandatory).map fun m =>
        (estimateMessage policy m.message).toOption.getD 0).sum +
      (tools.map fun tool =>
        ((estimateTool policy tool).toOption.map ToolEstimate.total).getD 0).sum +
      protocolOverhead policy Counter.requestOverheadTokens)

/-! ## Shares in an admission -/

/-- What an item was given. -/
def NormalizedMessage.given (p : NormalizedMessage G) : Option ℕ :=
  p.admittedMessage.map fun _ => p.admittedTokens

/-- What an item was given, by its position. -/
def NormalizedMessage.entry (p : NormalizedMessage G) : ℕ × Option ℕ := (p.index, p.given)

variable {policy}

/-- What was projected within the pool is given. -/
theorem entry_charged (item : NormalizedMessage G) (left : ℕ)
    (admitted : Option (ModelMessage JsonObject × ℕ))
    (hadmitted : ∀ m n, admitted = some (m, n) → n ≤ left) :
    (item.charged left admitted).entry = (item.index, admitted.map Prod.snd) ∧
      (item.charged left admitted).admittedTokens = (admitted.map Prod.snd).getD 0 := by
  rcases admitted with - | ⟨m, n⟩
  · exact ⟨rfl, rfl⟩
  · rw [NormalizedMessage.charged, if_pos (hadmitted m n rfl)]
    exact ⟨rfl, rfl⟩

section Pool

variable {items out : List (NormalizedMessage G)} {left rest : ℕ}

/-- **A pool gives the shares** of its messages. -/
theorem projectPool_entries {category : ContextCategory}
    (hcategory : ∀ r ∈ items, r.category = category)
    (h : projectPool policy category left items = .ok out) :
    out.map NormalizedMessage.entry =
      poolShares policy left (items.map NormalizedMessage.source) := by
  induction items generalizing left out with
  | nil =>
    obtain rfl := Except.ok.inj h
    rfl
  | cons item items ih =>
    obtain ⟨admitted, hadmitted, h⟩ := bind_eq_ok.mp h
    obtain ⟨projected, hprojected, h⟩ := bind_eq_ok.mp h
    obtain rfl := Except.ok.inj h
    obtain rfl := hcategory item List.mem_cons_self
    obtain ⟨hentry, htokens⟩ := entry_charged item left admitted
      fun m n hsome => (projectMessage_some (hsome ▸ hadmitted)).1
    rw [htokens] at hprojected
    have hrest := ih (fun r hr => hcategory r (List.mem_cons_of_mem _ hr)) hprojected
    have hprojection : (projectMessage policy item.item.message left item.item.category) =
        .ok admitted := hadmitted
    simp only [List.map_cons, NormalizedMessage.source, poolShares, hprojection, hentry, hrest,
      Except.toOption, Option.join_some]

/-- **The pool of memory gives the shares** of its messages. -/
theorem projectMemories_entries {payloads : List (ℕ × MemoryPayload)} {truncated : Bool}
    (hpayloads : ∀ r ∈ items, payloads.lookup r.index = parseMemoryPayload r.item.message.content)
    (h : projectMemories policy payloads left truncated items = .ok (out, rest)) :
    out.map NormalizedMessage.entry =
      memoryShares policy left truncated (items.map NormalizedMessage.source) := by
  induction items generalizing left truncated out with
  | nil =>
    obtain ⟨rfl, rfl⟩ := ok_pair_inj h
    rfl
  | cons item items ih =>
    obtain ⟨payload, projection, projected, hpayload, hprojection, hprojected, rfl⟩ :=
      projectMemories_cons h
    obtain ⟨hentry, htokens⟩ := entry_charged item left projection.admitted
      fun m n hsome => (projectMemoryMessage_some hprojection hsome).2
    rw [hpayloads item List.mem_cons_self] at hpayload
    replace htokens : (item.withMemory left projection).admittedTokens = _ := htokens
    replace hentry : (item.withMemory left projection).entry = _ := hentry
    rw [htokens] at hprojected
    have hrest := ih (fun r hr => hpayloads r (List.mem_cons_of_mem _ hr)) hprojected
    simp only [List.map_cons, NormalizedMessage.source, memoryShares, hpayload, Option.bind_some,
      hprojection, Except.toOption, Option.any_some, hentry, hrest]

end Pool

/-- Looking a position up finds what its item was given. -/
theorem lookup_entries (items : List (NormalizedMessage G)) (index : ℕ) :
    (items.map NormalizedMessage.entry).lookup index =
      (items.find? fun p => p.index = index).map NormalizedMessage.given := by
  induction items with
  | nil => rfl
  | cons p items ih =>
    rw [List.map_cons, NormalizedMessage.entry, List.lookup_cons, List.find?_cons, ih]
    by_cases hindex : p.index = index
    · simp [hindex]
    · have hne : (index == p.index) = false := beq_false_of_ne (Ne.symm hindex)
      simp [hindex, hne]

theorem Projected.given_getD {r p : NormalizedMessage G} (h : Projected policy r p) :
    p.given.getD 0 = p.admittedTokens := by
  unfold NormalizedMessage.given
  cases hm : p.admittedMessage with
  | none => exact (h.dropped hm).symm
  | some m => rfl

namespace Selects

variable [DecidableEq G] {messages : List (ContextMessage G)} {tools : List ModelToolDefinition}
  {payloads : List (ℕ × MemoryPayload)} {s : Selection G}
  (h : Selects policy messages tools payloads s)

include h

theorem messagesOf_eq (category : ContextCategory) : messagesOf messages category =
    (ofCategory s.rawItems category).map NormalizedMessage.source := by
  rw [messagesOf, ← h.raw_sources, List.filter_map]
  rfl

section Memory

variable {memories : List (NormalizedMessage G)} {left : ℕ}
  (hpayloads : memoryPayloads messages = .ok payloads)
  (hmemories : projectMemories policy payloads
    (policy.config.maxMemoryTokens.getD policy.config.maxRetrievalTokens) false
    (ofCategory s.rawItems .memory) = .ok (memories, left))

include hpayloads hmemories

/-- The payload of a memory is the one its content has. -/
theorem entries_memories :
    memories.map NormalizedMessage.entry = sharesOfMemory policy messages := by
  rw [sharesOfMemory, h.messagesOf_eq]
  refine projectMemories_entries (fun r hr => ?_) hmemories
  obtain ⟨hr, hmem⟩ := List.mem_filter.mp hr
  have hsource : r.source ∈ messages.zipIdx := h.raw_sources ▸ List.mem_map_of_mem hr
  obtain ⟨payload, hlookup, hparse⟩ :=
    lookup_payload (memoryPayloads_eq_ok.mp hpayloads) hsource (of_decide_eq_true hmem)
  exact hlookup.trans hparse.symm

theorem evidencePool_eq : (if policy.config.maxMemoryTokens.isSome then
    policy.config.maxRetrievalTokens else left) = evidencePool policy messages := by
  obtain ⟨hprojected, hsum⟩ := projectMemories_ok hmemories
  have hgiven : (sharesOfMemory policy messages).map (fun p => p.2.getD 0) =
      memories.map NormalizedMessage.admittedTokens := by
    rw [← entries_memories h hpayloads hmemories, List.map_map]
    refine List.map_congr_left fun p hp => ?_
    obtain ⟨r, -, hrp⟩ := Pairing.exists_left hprojected hp
    exact hrp.given_getD
  rw [evidencePool, hgiven]
  cases hcap : policy.config.maxMemoryTokens with
  | some cap => simp
  | none =>
    rw [hcap, Option.getD_none] at hsum
    simp only [Option.isSome_none, Bool.false_eq_true, if_false]
    omega

end Memory

/-- **The share of a message is what admission gives it.** -/
theorem share_eq (hpayloads : memoryPayloads messages = .ok payloads) {p : NormalizedMessage G}
    (hp : p ∈ s.projected) : share policy messages p.source = p.given := by
  cases hprojectable : p.category.isProjectable with
  | false =>
    obtain ⟨r, -, hplaced⟩ := Pairing.exists_left h.placed hp
    obtain ⟨hmessage, -⟩ := h.mandatory_admitted p hp hprojectable
    replace hprojectable : p.source.1.category.isProjectable = false := hprojectable
    rw [share, hprojectable, if_neg Bool.false_ne_true, NormalizedMessage.given, hmessage]
    simp only [NormalizedMessage.source, hplaced.estimate _ hmessage, Except.toOption,
      Option.map_some]
  | true =>
    obtain ⟨memories, left, evidence, results, hmemories, hevidence, hresults, hplaces⟩ :=
      projectOptionalItems_eq_ok.mp h.projected
    rw [h.evidencePool_eq hpayloads hmemories] at hevidence
    have hcategory (c : ContextCategory) : ∀ r ∈ (ofCategory s.rawItems c).reverse,
        r.category = c := by
      intro r hr
      simpa using (List.mem_filter.mp (List.mem_reverse.mp hr)).2
    rw [share, if_pos (show p.source.1.category.isProjectable = true from hprojectable),
      h.messagesOf_eq, h.messagesOf_eq, ← List.map_reverse, ← List.map_reverse,
      ← projectPool_entries (hcategory _) hevidence, ← projectPool_entries (hcategory _) hresults,
      ← h.entries_memories hpayloads hmemories, ← List.map_append, ← List.map_append,
      lookup_entries]
    -- the item in this place is the one found by its position
    obtain ⟨r, -, hr⟩ := Pairing.exists_left hplaces hp
    rcases placeItem_cases hr with ⟨-, hfound⟩ | ⟨hnot, rfl⟩
    · have hsame : p.index = r.index := by simpa using List.find?_some hfound
      rw [NormalizedMessage.source, hsame, hfound]
      rfl
    · exact absurd hprojectable (by simpa [NormalizedMessage.category] using hnot)

/-- **The budget of the selection** is the room the policy leaves. -/
theorem room_eq : s.availableInput - s.mandatoryTotal = room policy messages tools := by
  have hmessages : messages = s.rawItems.map NormalizedMessage.item := by
    have hsources := congrArg (List.map Prod.fst) h.raw_sources
    rwa [List.map_map, List.zipIdx_map_fst, eq_comm] at hsources
  have hmandatory : ((messages.filter fun m => m.category.isMandatory).map fun m =>
      (estimateMessage policy m.message).toOption.getD 0) =
      (s.rawItems.filter fun r => r.category.isMandatory).map NormalizedMessage.rawTokens := by
    rw [hmessages, List.filter_map, List.map_map]
    refine List.map_congr_left fun r hr => ?_
    simp only [Function.comp_apply, h.raw_estimate r (List.mem_filter.mp hr).1, Except.toOption,
      Option.getD_some]
  have htools : (tools.map fun tool =>
      ((estimateTool policy tool).toOption.map ToolEstimate.total).getD 0) =
      s.toolEstimates.map ToolEstimate.total := by
    refine Pairing.map_eq_map (fun tool estimate hestimate => ?_)
      (mapM_eq_ok_iff.mp h.toolEstimates)
    rw [hestimate]
    rfl
  rw [room, hmandatory, htools, h.contextLimit, ok_bind, h.reservedOutput, ok_bind,
    h.availableInput, Selection.mandatoryTotal, h.requestOverhead]
  rfl

end Selects

end AgentHub.Context
