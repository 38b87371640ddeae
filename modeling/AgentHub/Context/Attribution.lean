import AgentHub.Context.Budget
import AgentHub.Context.Memories

/-!
# What became of each memory

An admission accounts for every memory it was given. Those it reports as admitted are the entries of
the admitted memory messages, in their order and unchanged; every other one is dropped, with one
reason; and a message that lost an entry says so.

## Main definitions

* `Attributed`: a memory item after its pool
* `memoryIds`: the identifiers in a memory message
* `KeepsMemory`: an admitted memory message and the original
* `Attribution`: the account of the memories

## Main results

* `validateMemoryPayloads_eq_some`: valid payloads have distinct identifiers
* `Selects.attributed`: every memory item after its pool
* `Selects.exists_memoryAdmission`: the account is never refused
* `memory_attribution`: the account of every admission is exact
-/

namespace AgentHub.Context

open Lib Transcript

variable {G : Type} {policy : ContextBudgetPolicy} {payloads : List (ℕ × MemoryPayload)}
  {messages : List (ContextMessage G)} {tools : List ModelToolDefinition} {s : Selection G}

def MemoryPayload.ids (payload : MemoryPayload) : List Text :=
  payload.candidates.map MemoryCandidate.id

/-- The identifiers in a memory message. -/
def memoryIds (m : ModelMessage JsonObject) : List Text :=
  ((parseMemoryPayload m.content).map MemoryPayload.ids).getD []

/-! ## Payloads -/

variable {payload : MemoryPayload}

/-- **Valid payloads**: one for each memory message, with identifiers that are all distinct. -/
theorem validateMemoryPayloads_eq_some {items : List (ContextMessage G × ℕ)} {seen : List Text}
    (h : validateMemoryPayloads items seen = some payloads) :
    List.Forall₂ (fun p q => p.2 = q.1 ∧ parseMemoryPayload p.1.message.content = some q.2)
        (items.filter fun p => p.1.category = .memory) payloads ∧
      (payloads.flatMap fun q => q.2.ids).Nodup ∧
      ∀ id ∈ payloads.flatMap fun q => q.2.ids, id ∉ seen := by
  induction items generalizing seen payloads with
  | nil =>
    obtain rfl := Option.some.inj h
    exact ⟨.nil, List.nodup_nil, by simp⟩
  | cons p items ih =>
    obtain ⟨item, index⟩ := p
    rw [validateMemoryPayloads] at h
    split_ifs at h with hcategory
    · simp only [Option.bind_eq_bind, Option.bind_eq_some_iff, Option.some.injEq] at h
      obtain ⟨payload, hpayload, ⟨⟩, hguard, rest, hrest, rfl⟩ := h
      have hnew : ∀ id ∈ payload.ids, id ∉ seen := by
        simpa [guard, MemoryPayload.ids] using hguard
      obtain ⟨hpairs, hnodup, hdisjoint⟩ := ih hrest
      rw [List.filter_cons_of_pos (by simpa using hcategory)]
      refine ⟨.cons ⟨rfl, hpayload⟩ hpairs, ?_, ?_⟩
      · rw [List.flatMap_cons]
        refine List.nodup_append.mpr ⟨(isValid_of_parseMemoryPayload hpayload).nodup, hnodup, ?_⟩
        rintro id hid _ hid' rfl
        exact hdisjoint id hid' (List.mem_append_left _ hid)
      · rw [List.flatMap_cons]
        intro id hid
        rcases List.mem_append.mp hid with hid | hid
        · exact hnew id hid
        · exact fun hseen => hdisjoint id hid (List.mem_append_right _ hseen)
    · rw [List.filter_cons_of_neg (by simpa using hcategory)]
      exact ih h

/-- The payload of the message at a position. -/
theorem lookup_payload {messages : List (ContextMessage G)}
    (h : validateMemoryPayloads messages.zipIdx [] = some payloads) {p : ContextMessage G × ℕ}
    (hp : p ∈ messages.zipIdx) (hcategory : p.1.category = .memory) :
    ∃ payload, payloads.lookup p.2 = some payload ∧
      parseMemoryPayload p.1.message.content = some payload := by
  obtain ⟨hpairs, -, -⟩ := validateMemoryPayloads_eq_some h
  have hmem : p ∈ messages.zipIdx.filter fun p => p.1.category = .memory :=
    List.mem_filter.mpr ⟨hp, decide_eq_true hcategory⟩
  obtain ⟨⟨index, payload⟩, hq, hindex, hpayload⟩ := Pairing.exists_right hpairs hmem
  have hkeys : (payloads.map Prod.fst).Nodup := by
    rw [← Pairing.map_eq_map (fun _ _ hpq => hpq.1) hpairs]
    have hnodup : (messages.zipIdx.map Prod.snd).Nodup := by
      rw [List.zipIdx_map_snd]
      exact List.nodup_range'
    exact hnodup.sublist (List.filter_sublist.map _)
  refine ⟨payload, ?_, hpayload⟩
  obtain rfl : p.2 = index := hindex
  exact (Table.lookup_eq_some_iff hkeys).mpr hq

/-! ## Items after their pool -/

/-- A memory item after its pool: which entries it keeps, and what its message is read as. -/
def Attributed (payload : MemoryPayload) (p : NormalizedMessage G) : Prop :=
  ∃ selected rejected, KeepsEntries payload.candidates selected rejected ∧
    p.memoryAdmittedIds = selected.map MemoryCandidate.id ∧
    ∀ m, p.admittedMessage = some m → ∃ note truncated,
      parseMemoryPayload m.content = some ⟨note, selected, truncated⟩ ∧
        (rejected ≠ [] → truncated = true)

/-- **One memory item.** -/
theorem attributed_withMemory (hvalid : payload.IsValid) {item : NormalizedMessage G}
    {remaining : ℕ} {groupTruncated : Bool} {projection : MemoryProjection}
    (h : projectMemoryMessage policy item.item.message remaining payload groupTruncated =
      .ok projection)
    : Attributed payload (item.withMemory remaining projection) := by
  obtain ⟨selected, rejected, hkeeps, hids, -, hadmitted⟩ := projectMemoryMessage_eq_ok h
  refine ⟨selected, rejected, hkeeps, hids, fun m hm => ?_⟩
  rcases charged_cases item remaining projection.admitted with ⟨m', n, hsome, -, hcharged⟩ | hcharged
  · have hsame : some m' = some m := by
      rw [← hm, NormalizedMessage.withMemory, hcharged]
    obtain rfl := Option.some.inj hsame
    rcases hadmitted with ⟨hnone, -⟩ | ⟨admitted, n', includeNote, truncated, hsome', -, hprojection,
      hmark⟩
    · cases hsome.symm.trans hnone
    · obtain ⟨rfl, rfl⟩ := Prod.mk.inj (Option.some.inj (hsome.symm.trans hsome'))
      obtain ⟨content, hcontent, rfl, -⟩ := memoryProjection_eq_ok.mp hprojection
      refine ⟨_, truncated, parseMemoryPayload_memoryMembers ⟨fun c hc => ?_, ?_⟩ hcontent, hmark⟩
      · exact hvalid.valid c (hkeeps.sublist.subset hc)
      · exact hvalid.nodup.sublist (hkeeps.sublist.map _)
  · rw [NormalizedMessage.withMemory, hcharged] at hm
    cases hm

/-- **The pool of memory**: every item in it. -/
theorem projectMemories_attributed {remaining left : ℕ} {groupTruncated : Bool}
    {items out : List (NormalizedMessage G)}
    (hvalid : ∀ r ∈ items, ∀ payload, payloads.lookup r.index = some payload → payload.IsValid)
    (h : projectMemories policy payloads remaining groupTruncated items = .ok (out, left)) :
    List.Forall₂ (fun r p => p.index = r.index ∧
      ∃ payload, payloads.lookup r.index = some payload ∧ Attributed payload p) items out := by
  induction items generalizing remaining groupTruncated out with
  | nil =>
    obtain ⟨rfl, -⟩ := ok_pair_inj h
    exact .nil
  | cons item items ih =>
    obtain ⟨payload, projection, rest, hpayload, hprojection, hrest, rfl⟩ := projectMemories_cons h
    refine .cons ⟨?_, payload, hpayload, ?_⟩ (ih (fun r hr => hvalid r (by simp [hr])) hrest)
    · exact (projected_withMemory hprojection).index
    · exact attributed_withMemory (hvalid item (by simp) payload hpayload) hprojection

/-! ## The account -/

/-- The identifiers dropped from a message are those not admitted. -/
theorem memoryOutcome_keys (payload : MemoryPayload) (p : NormalizedMessage G) (selected : Bool) :
    (memoryOutcome payload p selected).2.map Prod.fst =
      payload.ids.filter fun id => id ∉ (memoryOutcome payload p selected).1 := by
  unfold memoryOutcome
  split_ifs
  · rw [← List.filterMap_eq_filter, List.map_filterMap]
    refine List.filterMap_congr fun id _ => ?_
    by_cases hid : id ∈ p.memoryAdmittedIds <;> simp [hid, Option.guard]
  · simp [MemoryPayload.ids, Function.comp_def]

theorem Attributed.outcome_sublist {p : NormalizedMessage G} (h : Attributed payload p)
    (selected : Bool) : (memoryOutcome payload p selected).1.Sublist payload.ids := by
  obtain ⟨kept, rejected, hkeeps, hids, -⟩ := h
  unfold memoryOutcome
  split_ifs
  · rw [hids]
    exact hkeeps.sublist.map _
  · exact List.nil_sublist _

/-- The account is accepted where the reasons are those of the memories not admitted. -/
theorem exists_memoryAdmission {selected admitted : List Text} {reasons : List (Text × DropReason)}
    (hnodup : selected.Nodup) (hsub : admitted.Sublist selected)
    (hreasons : reasons.map Prod.fst = selected.filter fun id => id ∉ admitted) :
    ∃ admission, MemoryAdmission.new selected admitted reasons = .ok admission ∧
      admission.selectedIds = selected ∧ admission.admittedIds = admitted := by
  have hkey {id : Text} (hid : id ∈ selected) :
      id ∈ reasons.map Prod.fst ↔ id ∉ admitted := by
    rw [hreasons, List.mem_filter]
    simp [hid]
  have hordered : (selected.filterMap fun id =>
      (Json.get? reasons id).map fun reason => (id, reason)).map Prod.fst =
        selected.filter fun id => id ∉ admitted := by
    rw [List.map_filterMap, ← List.filterMap_eq_filter]
    refine List.filterMap_congr fun id hid => ?_
    by_cases hadmitted : id ∈ admitted
    · rw [Json.get?_eq_none fun hmem => (hkey hid).mp hmem hadmitted]
      simp [hadmitted, Option.guard]
    · obtain ⟨reason, hreason⟩ := Json.exists_get? ((hkey hid).mpr hadmitted)
      simp [hreason, hadmitted, Option.guard]
  have hcovered : ∀ id ∈ reasons.map Prod.fst, id ∈ selected := by
    intro id hid
    rw [hreasons] at hid
    exact (List.mem_filter.mp hid).1
  unfold MemoryAdmission.new
  rw [dif_neg (not_not.mpr hnodup), dif_neg (not_not.mpr (hnodup.sublist hsub)),
    dif_neg (not_not.mpr hsub.subset)]
  dsimp only
  rw [dif_pos ⟨hordered, hcovered⟩]
  exact ⟨_, rfl, rfl, rfl⟩

section Selects

variable [DecidableEq G]

omit [DecidableEq G] in
theorem memoryPayloads_eq_ok :
    memoryPayloads messages = .ok payloads ↔
      validateMemoryPayloads messages.zipIdx [] = some payloads := by
  unfold memoryPayloads
  split
  · next hsome => rw [hsome, Except.ok.injEq, Option.some.injEq]
  · next hnone => simp [hnone]

/-- **Every memory item after its pool.** -/
theorem Selects.attributed (h : Selects policy messages tools payloads s)
    (hpayloads : memoryPayloads messages = .ok payloads) {p : NormalizedMessage G}
    (hp : p ∈ s.projected) (hcategory : p.category = .memory) :
    ∃ payload, payloads.lookup p.index = some payload ∧
      parseMemoryPayload p.item.message.content = some payload ∧ Attributed payload p := by
  have hvalid := memoryPayloads_eq_ok.mp hpayloads
  have hsource : p.source ∈ messages.zipIdx := by
    rw [← h.sources]
    exact List.mem_map_of_mem hp
  obtain ⟨payload, hlookup, hparsed⟩ := lookup_payload hvalid hsource hcategory
  refine ⟨payload, hlookup, hparsed, ?_⟩
  obtain ⟨memories, left, evidence, results, hmemories, hevidence, hresults, hplaced⟩ :=
    projectOptionalItems_eq_ok.mp h.projected
  have hmem := (mem_pool_of_category (projectMemories_ok hmemories).1 (projectPool_ok hevidence).1
    (projectPool_ok hresults).1 hplaced hp).1 hcategory
  have hattributed := projectMemories_attributed (fun r hr payload hr' => ?_) hmemories
  · obtain ⟨r, -, hindex, payload', hlookup', hattributed⟩ := Pairing.exists_left hattributed hmem
    rw [← hindex] at hlookup'
    rwa [Option.some.inj (hlookup.symm.trans hlookup')]
  · -- the payload of a memory message was parsed
    obtain ⟨hr, hcategory⟩ := List.mem_filter.mp hr
    have hsource : r.source ∈ messages.zipIdx := by
      rw [← h.raw_sources]
      exact List.mem_map_of_mem hr
    obtain ⟨payload'', hlookup'', hparsed''⟩ :=
      lookup_payload hvalid hsource (of_decide_eq_true hcategory)
    rw [Option.some.inj (hr'.symm.trans hlookup'')]
    exact isValid_of_parseMemoryPayload hparsed''

/-- The identifiers of the memory items are those of the payloads. -/
theorem Selects.memory_ids (h : Selects policy messages tools payloads s)
    (hpayloads : memoryPayloads messages = .ok payloads) :
    ((ofCategory s.projected .memory).flatMap fun p => memoryIds p.item.message).Nodup := by
  obtain ⟨hpairs, hnodup, -⟩ := validateMemoryPayloads_eq_some (memoryPayloads_eq_ok.mp hpayloads)
  have hmap : (ofCategory s.projected .memory).map NormalizedMessage.source =
      messages.zipIdx.filter fun p => p.1.category = .memory := by
    rw [← h.sources, List.filter_map]
    rfl
  rw [← hmap, List.forall₂_map_left_iff] at hpairs
  have hids : ((ofCategory s.projected .memory).map fun p => memoryIds p.item.message) =
      payloads.map fun q => q.2.ids := by
    refine Pairing.map_eq_map (fun p q hpq => ?_) hpairs
    rw [memoryIds, show parseMemoryPayload p.item.message.content = some q.2 from hpq.2]
    rfl
  rwa [List.flatMap_def, hids, ← List.flatMap_def]

/-- What a memory item counts as admitted. -/
def admittedIds (selectedIndices : List ℕ) (p : NormalizedMessage G) : List Text :=
  if p.index ∈ selectedIndices ∧ p.admittedMessage.isSome then p.memoryAdmittedIds else []

/-- **The account is never refused.** -/
theorem Selects.exists_memoryAdmission (h : Selects policy messages tools payloads s)
    (hpayloads : memoryPayloads messages = .ok payloads) (selectedIndices : List ℕ)
    (hsome : ofCategory s.projected .memory ≠ []) :
    ∃ admission, memoryAdmission s.projected selectedIndices payloads = .ok (some admission) ∧
      admission.selectedIds =
        (ofCategory s.projected .memory).flatMap (fun p => memoryIds p.item.message) ∧
      admission.admittedIds =
        (ofCategory s.projected .memory).flatMap (admittedIds selectedIndices) := by
  have hnodup := h.memory_ids hpayloads
  let payloadAt (p : NormalizedMessage G) : MemoryPayload :=
    (payloads.lookup p.index).getD ⟨none, [], false⟩
  let outcome (p : NormalizedMessage G) := memoryOutcome (payloadAt p) p (p.index ∈ selectedIndices)
  have hitem {p : NormalizedMessage G} (hp : p ∈ ofCategory s.projected .memory) :
      payloads.lookup p.index = some (payloadAt p) ∧ memoryIds p.item.message = (payloadAt p).ids ∧
        Attributed (payloadAt p) p := by
    obtain ⟨hp, hcategory⟩ := List.mem_filter.mp hp
    obtain ⟨payload, hlookup, hparsed, hattributed⟩ :=
      h.attributed hpayloads hp (of_decide_eq_true hcategory)
    have hpayload : payloadAt p = payload := by simp [payloadAt, hlookup]
    rw [hpayload, memoryIds, hparsed]
    exact ⟨hlookup, rfl, hattributed⟩
  have hfirst (p : NormalizedMessage G) : (outcome p).1 = admittedIds selectedIndices p := by
    simp only [outcome, memoryOutcome, admittedIds, decide_eq_true_eq]
    split_ifs <;> rfl
  have hsub : ∀ p ∈ ofCategory s.projected .memory,
      (admittedIds selectedIndices p).Sublist (memoryIds p.item.message) := by
    intro p hp
    rw [← hfirst, (hitem hp).2.1]
    exact (hitem hp).2.2.outcome_sublist _
  have hselected : ((ofCategory s.projected .memory).map fun p =>
      ((payloadAt p).ids, outcome p)).flatMap Prod.fst =
        (ofCategory s.projected .memory).flatMap fun p => memoryIds p.item.message := by
    rw [List.flatMap_map]
    exact List.flatMap_congr fun p hp => (hitem hp).2.1.symm
  have hadmitted : (((ofCategory s.projected .memory).map fun p =>
      ((payloadAt p).ids, outcome p)).flatMap fun o => o.2.1) =
        (ofCategory s.projected .memory).flatMap (admittedIds selectedIndices) := by
    rw [List.flatMap_map]
    exact List.flatMap_congr fun p _ => hfirst p
  have hreasons : (((ofCategory s.projected .memory).map fun p =>
      ((payloadAt p).ids, outcome p)).flatMap fun o => o.2.2).map Prod.fst =
        ((ofCategory s.projected .memory).flatMap fun p => memoryIds p.item.message).filter
          fun id => id ∉ (ofCategory s.projected .memory).flatMap (admittedIds selectedIndices) := by
    rw [List.flatMap_map, List.map_flatMap, filter_flatMap hnodup fun p hp => (hsub p hp).subset]
    refine List.flatMap_congr fun p hp => ?_
    rw [(hitem hp).2.1, ← hfirst]
    exact memoryOutcome_keys _ _ _
  obtain ⟨admission, hadmission, hids, hids'⟩ :=
    Context.exists_memoryAdmission hnodup (.flatMap_right _ hsub) hreasons
  refine ⟨admission, ?_, hids, hids'⟩
  have hnonempty : (ofCategory s.projected .memory).isEmpty = false := by simpa using hsome
  rw [memoryAdmission, ← ofCategory, hnonempty, if_neg (by simp),
    mapM_eq_ok (g := fun p => ((payloadAt p).ids, outcome p)) fun p hp => ?_, ok_bind, hselected,
    hadmitted, hadmission]
  · rfl
  · rw [(hitem hp).1]
    rfl

end Selects

/-! ## Attribution -/

/-- The memory messages an admission returns. -/
def ContextAdmissionResult.memories (result : ContextAdmissionResult) :
    List (ModelMessage JsonObject) :=
  ((result.messages.zip result.messageCategories).filter fun p => p.2 = .memory).map Prod.fst

/-- An admitted memory message: entries of the original, unchanged and in their order, and the mark
of truncation where one is missing. -/
def KeepsMemory (original : ContextMessage G) (m : ModelMessage JsonObject) : Prop :=
  ∃ payload kept, parseMemoryPayload original.message.content = some payload ∧
    parseMemoryPayload m.content = some kept ∧ kept.candidates.Sublist payload.candidates ∧
    (kept.candidates ≠ payload.candidates → kept.truncated = true)

/-- The account of the memories of an admission. -/
structure Attribution (messages : List (ContextMessage G)) (result : ContextAdmissionResult)
    (admission : MemoryAdmission) : Prop where
  /-- The memories selected are those of the memory messages. -/
  selected : admission.selectedIds =
    (messages.filter fun m => m.category = .memory).flatMap fun m => memoryIds m.message
  /-- They are admitted or dropped, and a dropped one has one reason. -/
  partition : (admission.admittedIds ++ admission.droppedReasons.map Prod.fst).Perm
    admission.selectedIds
  disjoint : (admission.admittedIds ++ admission.droppedReasons.map Prod.fst).Nodup
  /-- The memories admitted are those in the admitted messages. -/
  admitted : admission.admittedIds = result.memories.flatMap memoryIds
  /-- The admitted messages are memory messages of the input, in their order. -/
  entries : ∃ originals, originals.Sublist (messages.filter fun m => m.category = .memory) ∧
    List.Forall₂ KeepsMemory originals result.memories

theorem MemoryAdmission.partition (admission : MemoryAdmission) :
    (admission.admittedIds ++ admission.droppedReasons.map Prod.fst).Perm admission.selectedIds := by
  rw [admission.reasons]
  have hadmitted : admission.admittedIds.Perm
      (admission.selectedIds.filter fun id => id ∈ admission.admittedIds) := by
    refine (List.perm_ext_iff_of_nodup admission.admitted_nodup
      (admission.selected_nodup.filter _)).mpr fun id => ?_
    rw [List.mem_filter, decide_eq_true_eq]
    exact ⟨fun hid => ⟨admission.admitted_subset hid, hid⟩, And.right⟩
  refine (hadmitted.append_right _).trans (.trans (.of_eq ?_)
    (List.filter_append_perm (fun id => decide (id ∈ admission.admittedIds)) admission.selectedIds))
  congr 1
  exact List.filter_congr fun id _ => by simp

section Result

variable [DecidableEq G] {result : ContextAdmissionResult}

/-- The message of an admitted item. -/
def NormalizedMessage.message (p : NormalizedMessage G) : ModelMessage JsonObject :=
  p.admittedMessage.getD p.item.message

section Admitted

variable (h : Selects policy messages tools payloads s)

include h

theorem Selects.memories_eq
    (hm : result.messages = s.admitted.filterMap NormalizedMessage.admittedMessage)
    (hc : result.messageCategories = s.admitted.map NormalizedMessage.category) :
    result.memories = (ofCategory s.admitted .memory).map NormalizedMessage.message := by
  have hmessages : result.messages = s.admitted.map NormalizedMessage.message := by
    rw [hm, ← List.filterMap_eq_map]
    refine List.filterMap_congr fun a ha => ?_
    obtain ⟨m, hm, -⟩ := h.admitted_estimate a ha
    simp [NormalizedMessage.message, hm]
  rw [ContextAdmissionResult.memories, hmessages, hc, List.zip_map', List.filter_map, List.map_map]
  rfl

/-- The memory messages of the input. -/
theorem Selects.memory_items :
    (ofCategory s.projected .memory).map NormalizedMessage.item =
      messages.filter fun m => m.category = .memory := by
  have hitems : s.projected.map NormalizedMessage.item = messages := by
    have hsources := congrArg (List.map Prod.fst) h.sources
    rwa [List.map_map, List.zipIdx_map_fst] at hsources
  rw [← hitems, List.filter_map]
  rfl

theorem Selects.admitted_eq_filter :
    s.admitted = s.projected.filter fun p =>
      p.index ∈ s.selected.map NormalizedMessage.index := by
  have hselected := h.admitted_eq_selected
  obtain ⟨-, hfilter, -⟩ := selectItems_eq_ok.mp h.selected
  rw [hselected]
  nth_rewrite 1 [hfilter]
  refine List.filter_congr fun p hp => ?_
  rw [Bool.eq_iff_iff, decide_eq_true_eq, ← hselected, h.index_mem_admitted hp, h.mem_admitted_iff]
  simp [hp]

/-- **An admitted memory item**: the entries of its message are those it counts as admitted. -/
theorem Selects.keepsMemory (hpayloads : memoryPayloads messages = .ok payloads)
    {p : NormalizedMessage G} (hp : p ∈ ofCategory s.admitted .memory) :
    KeepsMemory p.item p.message ∧ p.memoryAdmittedIds = memoryIds p.message := by
  obtain ⟨hadmitted, hcategory⟩ := List.mem_filter.mp hp
  obtain ⟨m, hm, -⟩ := h.admitted_estimate p hadmitted
  obtain ⟨payload, -, hparsed, selected, rejected, hkeeps, hids, hcontent⟩ := h.attributed hpayloads
    (h.mem_admitted_iff.mp hadmitted).1 (of_decide_eq_true hcategory)
  obtain ⟨note, truncated, hkept, hmark⟩ := hcontent m hm
  have hmessage : p.message = m := by simp [NormalizedMessage.message, hm]
  rw [hmessage, memoryIds, hkept]
  refine ⟨⟨payload, _, hparsed, hkept, hkeeps.sublist, fun hne => hmark fun hnil => hne ?_⟩, hids⟩
  subst hnil
  exact hkeeps.eq_of_nil

end Admitted

/-- **The account of every admission is exact.** -/
theorem memory_attribution (policy : ContextBudgetPolicy) (values : List (MessageInput G))
    (categories : Option (Metadata ContextCategory))
    (exchangeGroups : Option (Metadata (Option G))) (tools : List ModelToolDefinition)
    {result : ContextAdmissionResult}
    (h : admitContext policy values categories exchangeGroups tools = .ok result) :
    ∃ messages, normalizeMessages categories exchangeGroups values = .ok messages ∧
      (result.memoryAdmission = none ↔ ∀ m ∈ messages, m.category ≠ .memory) ∧
      ∀ admission, result.memoryAdmission = some admission →
        Attribution messages result admission := by
  obtain ⟨messages, payloads, s, hmessages, hpayloads, hs, -, -, hmemory, hm, -, hc⟩ :=
    admit_eq_ok.mp h
  have hitems := hs.memory_items
  have hmemories := hs.memories_eq hm hc
  refine ⟨messages, hmessages, ?_⟩
  by_cases hsome : ofCategory s.projected .memory = []
  · have hnone : result.memoryAdmission = none := by
      rw [memoryAdmission, ← ofCategory, hsome] at hmemory
      exact (Except.ok.inj hmemory).symm
    rw [hsome, List.map_nil, eq_comm, List.filter_eq_nil_iff] at hitems
    exact ⟨iff_of_true hnone (by simpa using hitems), fun admission hadmission =>
      absurd (hnone.symm.trans hadmission) (by simp)⟩
  obtain ⟨admission, hadmission, hselected, hadmitted⟩ :=
    hs.exists_memoryAdmission hpayloads (s.selected.map NormalizedMessage.index) hsome
  have hresult : result.memoryAdmission = some admission :=
    Except.ok.inj (hmemory.symm.trans hadmission)
  refine ⟨iff_of_false (by simp [hresult]) fun hnot => hsome ?_, ?_⟩
  · rw [← List.map_eq_nil_iff (f := NormalizedMessage.item), hitems, List.filter_eq_nil_iff]
    simpa using hnot
  rw [hresult]
  rintro _ ⟨⟩
  have hadmittedItems : ofCategory s.admitted .memory = (ofCategory s.projected .memory).filter
      fun p => p.index ∈ s.selected.map NormalizedMessage.index := by
    rw [hs.admitted_eq_filter, ofCategory, ofCategory, List.filter_comm]
  refine ⟨?_, admission.partition, ?_, ?_, ?_⟩
  · rw [hselected, ← hitems, List.flatMap_map]
  · exact admission.partition.nodup_iff.mpr admission.selected_nodup
  · rw [hadmitted, hmemories, List.flatMap_map, hadmittedItems]
    refine (flatMap_filter_eq fun p hp => ?_).symm
    by_cases hindex : p.index ∈ s.selected.map NormalizedMessage.index
    · have hp' : p ∈ ofCategory s.admitted .memory := by
        rw [hadmittedItems]
        exact List.mem_filter.mpr ⟨hp, decide_eq_true hindex⟩
      obtain ⟨m, hm, -⟩ := hs.admitted_estimate p (List.mem_filter.mp hp').1
      rw [admittedIds, if_pos ⟨hindex, by simp [hm]⟩, (hs.keepsMemory hpayloads hp').2]
      simp [hindex]
    · rw [admittedIds, if_neg fun hand => hindex hand.1]
      simp [hindex]
  · refine ⟨(ofCategory s.admitted .memory).map NormalizedMessage.item, ?_, ?_⟩
    · rw [← hitems, hadmittedItems]
      exact List.filter_sublist.map _
    · rw [hmemories, List.forall₂_map_left_iff, List.forall₂_map_right_iff]
      exact List.forall₂_same.mpr fun p hp => (hs.keepsMemory hpayloads hp).1

end Result

/-- A memory message with two entries, the second one longer than what the pool leaves. -/
def sampleMemories : List (MessageInput ℕ) :=
  [.inline ⟨textMessage .system fits_system "policy", .systemPrompt, none⟩,
    .inline ⟨textMessage .system fits_system (
      "\x7b\"memories\":[\x7b\"id\":\"00000000-0000-0000-0000-000000000001\"," ++
      "\"kind\":\"FACT\",\"content\":\"short\"\x7d," ++
      "\x7b\"id\":\"00000000-0000-0000-0000-000000000002\"," ++
      "\"kind\":\"FACT\",\"content\":\"a long entry that does not fit\"\x7d]\x7d"),
      .memory, none⟩]

/-- One memory is admitted, the other one dropped. -/
theorem memory_attribution_sample :
    ∃ result admission messages,
      admitContext (lengthPolicy 400 { reservedOutputTokens := 10, maxMemoryTokens := some 150 })
        sampleMemories none none [] = .ok result ∧
      result.memoryAdmission = some admission ∧
      admission.admittedIds = [Text.ofString "00000000-0000-0000-0000-000000000001"] ∧
      admission.droppedReasons =
        [(Text.ofString "00000000-0000-0000-0000-000000000002", .memoryPoolBudget)] ∧
      normalizeMessages none none sampleMemories = .ok messages ∧
      Attribution messages result admission := by
  have hcomputed : ((admitContext
      (lengthPolicy 400 { reservedOutputTokens := 10, maxMemoryTokens := some 150 })
      sampleMemories none none []).toOption.map fun result => result.memoryAdmission.map
        fun admission => (admission.admittedIds, admission.droppedReasons)) =
      some (some ([Text.ofString "00000000-0000-0000-0000-000000000001"],
        [(Text.ofString "00000000-0000-0000-0000-000000000002", .memoryPoolBudget)])) := by
    decide +kernel
  obtain ⟨result, h⟩ := exists_of_isSome (by
    rw [← Option.isSome_map, hcomputed]
    rfl)
  rw [h] at hcomputed
  obtain ⟨admission, hadmission, hids⟩ := Option.map_eq_some_iff.mp (Option.some.inj hcomputed)
  obtain ⟨messages, hmessages, -, hattribution⟩ := memory_attribution _ _ _ _ _ h
  obtain ⟨hadmitted, hdropped⟩ := Prod.mk.inj hids
  exact ⟨result, admission, messages, h, hadmission, hadmitted, hdropped, hmessages,
    hattribution admission hadmission⟩

end AgentHub.Context
