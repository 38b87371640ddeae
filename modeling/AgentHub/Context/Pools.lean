import AgentHub.Context.Admission

/-!
# Pools

What the pools make of the optional items. Every item keeps its message up to the content, is
estimated at its tokens, and the items of a category stay within the pool of the category.

## Main definitions

* `Projected`: an item after its pool
* `Placed`: an item after all pools
* `WithinPools`: the caps of the configuration

## Main results

* `projectPool_ok`, `projectMemories_ok`: one pool
* `projectOptionalItems_placed`: every item is placed
* `projectOptionalItems_within`: the categories are within their pools
-/

namespace AgentHub.Context

open Lib Transcript

variable {G : Type} {policy : ContextBudgetPolicy} {items out : List (NormalizedMessage G)}
  {payloads : List (ℕ × MemoryPayload)}

/-- The item `p` is the item `r` with what a pool made of it. -/
structure Projected (policy : ContextBudgetPolicy) (r p : NormalizedMessage G) : Prop where
  item : p.item = r.item
  index : p.index = r.index
  rawTokens : p.rawTokens = r.rawTokens
  content : ∀ m, p.admittedMessage = some m → ∃ content, m = { r.item.message with content }
  estimate : ∀ m, p.admittedMessage = some m → estimateMessage policy m = .ok p.admittedTokens
  dropped : p.admittedMessage = none → p.admittedTokens = 0

theorem Projected.category {r p : NormalizedMessage G} (h : Projected policy r p) :
    p.category = r.category := by
  rw [NormalizedMessage.category, NormalizedMessage.category, h.item]

/-! ## One pool -/

section Pool

variable {remaining left : ℕ}

theorem charged_cases (item : NormalizedMessage G) (remaining : ℕ)
    (admitted : Option (ModelMessage JsonObject × ℕ)) :
    (∃ m n, admitted = some (m, n) ∧ n ≤ remaining ∧ item.charged remaining admitted =
      { item with admittedMessage := some m, admittedTokens := n }) ∨
    item.charged remaining admitted =
      { item with admittedMessage := none, admittedTokens := 0 } := by
  rcases admitted with - | ⟨m, n⟩
  · exact Or.inr rfl
  · by_cases hn : n ≤ remaining
    · exact Or.inl ⟨m, n, rfl, hn, if_pos hn⟩
    · exact Or.inr (if_neg hn)

theorem charged_le (item : NormalizedMessage G) (remaining : ℕ)
    (admitted : Option (ModelMessage JsonObject × ℕ)) :
    (item.charged remaining admitted).admittedTokens ≤ remaining := by
  rcases charged_cases item remaining admitted with ⟨m, n, -, hn, h⟩ | h
  · rw [h]
    exact hn
  · rw [h]
    exact Nat.zero_le _

/-- An item charged with an estimated message. -/
theorem projected_charged (item : NormalizedMessage G) (remaining : ℕ)
    {admitted : Option (ModelMessage JsonObject × ℕ)}
    (hadmitted : ∀ m n, admitted = some (m, n) →
      (∃ content, m = { item.item.message with content }) ∧ estimateMessage policy m = .ok n) :
    Projected policy item (item.charged remaining admitted) := by
  rcases charged_cases item remaining admitted with ⟨m, n, hsome, -, h⟩ | h
  · obtain ⟨hcontent, hestimate⟩ := hadmitted m n hsome
    rw [h]
    refine ⟨rfl, rfl, rfl, ?_, ?_, by simp⟩
    · rintro _ ⟨⟩
      exact hcontent
    · rintro _ ⟨⟩
      exact hestimate
  · rw [h]
    exact ⟨rfl, rfl, rfl, by simp, by simp, fun _ => rfl⟩

/-- **A pool** keeps the items, and what it admits of them is within what remained. -/
theorem projectPool_ok {category : ContextCategory}
    (h : projectPool policy category remaining items = .ok out) :
    List.Forall₂ (Projected policy) items out ∧
      (out.map NormalizedMessage.admittedTokens).sum ≤ remaining := by
  induction items generalizing remaining out with
  | nil =>
    obtain rfl := Except.ok.inj h
    exact ⟨.nil, Nat.zero_le _⟩
  | cons item items ih =>
    obtain ⟨admitted, hadmitted, h⟩ := bind_eq_ok.mp h
    obtain ⟨rest, hrest, h⟩ := bind_eq_ok.mp h
    obtain rfl := Except.ok.inj h
    obtain ⟨hsame, hsum⟩ := ih hrest
    have hle := charged_le item remaining admitted
    refine ⟨.cons (projected_charged item remaining fun m n hsome => ?_) hsame, ?_⟩
    · subst hsome
      obtain ⟨-, _, _, _, _, -, -, hmessage, -⟩ := projectMessage_some hadmitted
      obtain ⟨content, -, hcontent, hestimate⟩ := projectedMessage_ok hmessage
      exact ⟨⟨_, hcontent⟩, hestimate⟩
    · rw [List.map_cons, List.sum_cons]
      omega

variable {groupTruncated : Bool} {item : NormalizedMessage G}

/-- One step through the pool of memory. -/
theorem projectMemories_cons
    (h : projectMemories policy payloads remaining groupTruncated (item :: items) =
      .ok (out, left)) :
    ∃ payload projection rest, payloads.lookup item.index = some payload ∧
      projectMemoryMessage policy item.item.message remaining payload groupTruncated =
        .ok projection ∧
      projectMemories policy payloads
        (remaining - (item.withMemory remaining projection).admittedTokens)
        (groupTruncated || projection.truncated) items = .ok (rest, left) ∧
      out = item.withMemory remaining projection :: rest := by
  rw [projectMemories] at h
  cases hpayload : payloads.lookup item.index with
  | none =>
    rw [hpayload] at h
    cases h
  | some payload =>
    rw [hpayload] at h
    obtain ⟨projection, hprojection, h⟩ := bind_eq_ok.mp h
    obtain ⟨⟨rest, left'⟩, hrest, h⟩ := bind_eq_ok.mp h
    obtain ⟨rfl, rfl⟩ := ok_pair_inj h
    exact ⟨payload, projection, rest, rfl, hprojection, hrest, rfl⟩

theorem projected_withMemory {payload : MemoryPayload} {projection : MemoryProjection}
    (h : projectMemoryMessage policy item.item.message remaining payload groupTruncated =
      .ok projection)
    : Projected policy item (item.withMemory remaining projection) := by
  have hcharged : Projected policy item (item.charged remaining projection.admitted) :=
    projected_charged item remaining fun m n hsome => (projectMemoryMessage_some h hsome).1
  exact ⟨hcharged.item, hcharged.index, hcharged.rawTokens, hcharged.content, hcharged.estimate,
    hcharged.dropped⟩

/-- **The pool of memory** keeps the items; what it admits and what is left make up the pool. -/
theorem projectMemories_ok
    (h : projectMemories policy payloads remaining groupTruncated items = .ok (out, left)) :
    List.Forall₂ (Projected policy) items out ∧
      (out.map NormalizedMessage.admittedTokens).sum + left = remaining := by
  induction items generalizing remaining groupTruncated out with
  | nil =>
    obtain ⟨rfl, rfl⟩ := ok_pair_inj h
    exact ⟨.nil, Nat.zero_add _⟩
  | cons item items ih =>
    obtain ⟨payload, projection, rest, -, hprojection, hrest, rfl⟩ := projectMemories_cons h
    obtain ⟨hsame, hsum⟩ := ih hrest
    have hle : (item.withMemory remaining projection).admittedTokens ≤ remaining :=
      charged_le item remaining projection.admitted
    refine ⟨.cons (projected_withMemory hprojection) hsame, ?_⟩
    rw [List.map_cons, List.sum_cons]
    omega

end Pool

/-! ## All pools -/

section Placed

/-- What the three pools give, and the items put back in their places. -/
theorem projectOptionalItems_eq_ok :
    projectOptionalItems policy payloads items = .ok out ↔
      ∃ memories left evidence results,
        projectMemories policy payloads
          (policy.config.maxMemoryTokens.getD policy.config.maxRetrievalTokens) false
          (ofCategory items .memory) = .ok (memories, left) ∧
        projectPool policy .ragEvidence
          (if policy.config.maxMemoryTokens.isSome then policy.config.maxRetrievalTokens else left)
          (ofCategory items .ragEvidence).reverse = .ok evidence ∧
        projectPool policy .toolResult policy.config.maxToolResultTokens
          (ofCategory items .toolResult).reverse = .ok results ∧
        List.Forall₂ (fun r p => placeItem (memories ++ evidence ++ results) r = .ok p)
          items out := by
  simp only [projectOptionalItems, bind_eq_ok, mapM_eq_ok_iff, Prod.exists]
  constructor
  · rintro ⟨memories, left, hmemories, evidence, hevidence, results, hresults, hplaced⟩
    exact ⟨memories, left, evidence, results, hmemories, hevidence, hresults, hplaced⟩
  · rintro ⟨memories, left, evidence, results, hmemories, hevidence, hresults, hplaced⟩
    exact ⟨memories, left, hmemories, evidence, hevidence, results, hresults, hplaced⟩

/-- The item `p` is the item `r` after the pools. Only projectable items may change. -/
structure Placed (policy : ContextBudgetPolicy) (r p : NormalizedMessage G) : Prop
    extends Projected policy r p where
  whole : r.category.isProjectable = false →
    p.admittedMessage = some r.item.message ∧ p.admittedTokens = r.rawTokens

variable {category : ContextCategory} {pool memories evidence results : List (NormalizedMessage G)}
  {p r : NormalizedMessage G}

/-- The items of a pool are those of its category. -/
theorem exists_of_pool (h : List.Forall₂ (Projected policy) (ofCategory items category) pool)
    (hp : p ∈ pool) : p.category = category ∧ ∃ r ∈ items, Projected policy r p := by
  obtain ⟨r, hr, hrp⟩ := Pairing.exists_left h hp
  obtain ⟨hmem, hcategory⟩ := List.mem_filter.mp hr
  exact ⟨hrp.category.trans (by simpa using hcategory), r, hmem, hrp⟩

theorem placeItem_cases {projected : List (NormalizedMessage G)}
    (h : placeItem projected r = .ok p) :
    (r.category.isProjectable = true ∧
        (projected.find? fun q => decide (q.index = r.index)) = some p) ∨
      (r.category.isProjectable = false ∧
        p = { r with admittedMessage := some r.item.message, admittedTokens := r.rawTokens }) := by
  unfold placeItem at h
  split_ifs at h with hprojectable
  · cases hfound : projected.find? fun p => decide (p.index = r.index) with
    | none =>
      rw [hfound] at h
      cases h
    | some found =>
      rw [hfound] at h
      obtain rfl := Except.ok.inj h
      exact Or.inl ⟨hprojectable, rfl⟩
  · exact Or.inr ⟨by simpa using hprojectable, (Except.ok.inj h).symm⟩

/-- An item that is admitted as it is. -/
theorem placed_whole (hraw : estimateMessage policy r.item.message = .ok r.rawTokens) :
    Placed policy r
      { r with admittedMessage := some r.item.message, admittedTokens := r.rawTokens } := by
  refine ⟨⟨rfl, rfl, rfl, ?_, ?_, by simp⟩, fun _ => ⟨rfl, rfl⟩⟩
  · rintro _ ⟨⟩
    exact ⟨_, rfl⟩
  · rintro _ ⟨⟩
    exact hraw

/-- What was projected in some pool. -/
theorem exists_of_pools
    (hmemories : List.Forall₂ (Projected policy) (ofCategory items .memory) memories)
    (hevidence : List.Forall₂ (Projected policy) (ofCategory items .ragEvidence).reverse evidence)
    (hresults : List.Forall₂ (Projected policy) (ofCategory items .toolResult).reverse results)
    (hp : p ∈ memories ++ evidence ++ results) :
    ((p.category = .memory ∧ p ∈ memories) ∨ (p.category = .ragEvidence ∧ p ∈ evidence) ∨
      (p.category = .toolResult ∧ p ∈ results)) ∧ ∃ r ∈ items, Projected policy r p := by
  have hevidence' : List.Forall₂ (Projected policy) (ofCategory items .ragEvidence)
      evidence.reverse := by
    rw [← List.forall₂_reverse_iff, List.reverse_reverse]
    exact hevidence
  have hresults' : List.Forall₂ (Projected policy) (ofCategory items .toolResult)
      results.reverse := by
    rw [← List.forall₂_reverse_iff, List.reverse_reverse]
    exact hresults
  rcases List.mem_append.mp hp with hp | hp
  · rcases List.mem_append.mp hp with hp | hp
    · obtain ⟨hcategory, hr⟩ := exists_of_pool hmemories hp
      exact ⟨Or.inl ⟨hcategory, hp⟩, hr⟩
    · obtain ⟨hcategory, hr⟩ := exists_of_pool hevidence' (List.mem_reverse.mpr hp)
      exact ⟨Or.inr (Or.inl ⟨hcategory, hp⟩), hr⟩
  · obtain ⟨hcategory, hr⟩ := exists_of_pool hresults' (List.mem_reverse.mpr hp)
    exact ⟨Or.inr (Or.inr ⟨hcategory, hp⟩), hr⟩

/-- A projectable item comes from the pool of its category. -/
theorem mem_pool_of_category
    (hmemories : List.Forall₂ (Projected policy) (ofCategory items .memory) memories)
    (hevidence : List.Forall₂ (Projected policy) (ofCategory items .ragEvidence).reverse evidence)
    (hresults : List.Forall₂ (Projected policy) (ofCategory items .toolResult).reverse results)
    (hplaced : List.Forall₂ (fun r p => placeItem (memories ++ evidence ++ results) r = .ok p)
      items out)
    (hp : p ∈ out) :
    (p.category = .memory → p ∈ memories) ∧ (p.category = .ragEvidence → p ∈ evidence) ∧
      (p.category = .toolResult → p ∈ results) := by
  have hmem (hprojectable : p.category.isProjectable = true) :
      p ∈ memories ++ evidence ++ results := by
    obtain ⟨r, -, hrp⟩ := Pairing.exists_left hplaced hp
    rcases placeItem_cases hrp with ⟨-, hfound⟩ | ⟨hnot, rfl⟩
    · exact List.mem_of_find?_eq_some hfound
    · exact absurd hprojectable (by simpa [NormalizedMessage.category] using hnot)
  have hpools (hprojectable : p.category.isProjectable = true) :=
    (exists_of_pools hmemories hevidence hresults (hmem hprojectable)).1
  refine ⟨fun hc => ?_, fun hc => ?_, fun hc => ?_⟩ <;>
    rcases hpools (by rw [hc]; rfl) with h | h | h <;>
    first | exact h.2 | cases hc.symm.trans h.1

/-- **Every item is placed.** -/
theorem projectOptionalItems_placed (hindex : (items.map NormalizedMessage.index).Nodup)
    (hraw : ∀ r ∈ items, estimateMessage policy r.item.message = .ok r.rawTokens)
    (h : projectOptionalItems policy payloads items = .ok out) :
    List.Forall₂ (Placed policy) items out := by
  obtain ⟨memories, left, evidence, results, hmemories, hevidence, hresults, hplaced⟩ :=
    projectOptionalItems_eq_ok.mp h
  have hpools := fun p (hp : p ∈ memories ++ evidence ++ results) => exists_of_pools
    (projectMemories_ok hmemories).1 (projectPool_ok hevidence).1 (projectPool_ok hresults).1 hp
  have hplaced := (List.forall₂_and_left items out).mpr ⟨fun r hr => hr, hplaced⟩
  refine hplaced.imp fun r p ⟨hr, hrp⟩ => ?_
  rcases placeItem_cases hrp with ⟨hprojectable, hfound⟩ | ⟨-, rfl⟩
  · -- positions are distinct, so the item found is the one that was put into the pool
    obtain ⟨r', hr', hr'p⟩ := (hpools p (List.mem_of_find?_eq_some hfound)).2
    have hsame : p.index = r.index := by simpa using List.find?_some hfound
    obtain rfl : r' = r :=
      List.inj_on_of_nodup_map hindex hr' hr (hr'p.index.symm.trans hsame)
    exact ⟨hr'p, fun hnot => absurd hprojectable (by simp [hnot])⟩
  · exact placed_whole (hraw r hr)

/-! ## Caps -/

/-- The admitted tokens of a category. -/
def categoryTokens (items : List (NormalizedMessage G)) (category : ContextCategory) : ℕ :=
  ((ofCategory items category).map NormalizedMessage.admittedTokens).sum

/-- The categories are within their pools. -/
structure WithinPools (config : ContextBudgetConfig) (items : List (NormalizedMessage G)) : Prop
    where
  shared : config.maxMemoryTokens = none →
    categoryTokens items .memory + categoryTokens items .ragEvidence ≤ config.maxRetrievalTokens
  memory : ∀ cap, config.maxMemoryTokens = some cap → categoryTokens items .memory ≤ cap
  evidence : categoryTokens items .ragEvidence ≤ config.maxRetrievalTokens
  results : categoryTokens items .toolResult ≤ config.maxToolResultTokens

/-- The items of a category, all of which come from one pool. -/
theorem categoryTokens_le (hnodup : out.Nodup)
    (hpool : ∀ p ∈ out, p.category = category → p ∈ pool) :
    categoryTokens out category ≤ (pool.map NormalizedMessage.admittedTokens).sum := by
  refine sum_le_of_nodup_of_subset _ (hnodup.filter _) fun p hp => ?_
  obtain ⟨hmem, hcategory⟩ := List.mem_filter.mp hp
  exact hpool p hmem (by simpa using hcategory)

/-- **The categories are within their pools.** -/
theorem projectOptionalItems_within (hindex : (items.map NormalizedMessage.index).Nodup)
    (hraw : ∀ r ∈ items, estimateMessage policy r.item.message = .ok r.rawTokens)
    (h : projectOptionalItems policy payloads items = .ok out) :
    WithinPools policy.config out := by
  have hout := projectOptionalItems_placed hindex hraw h
  obtain ⟨memories, left, evidence, results, hmemories, hevidence, hresults, hplaced⟩ :=
    projectOptionalItems_eq_ok.mp h
  have hnodup : out.Nodup := by
    refine List.Nodup.of_map NormalizedMessage.index ?_
    rwa [← Pairing.map_eq_map (fun r p hrp => hrp.index.symm) hout]
  have hin := fun p (hp : p ∈ out) => mem_pool_of_category (projectMemories_ok hmemories).1
    (projectPool_ok hevidence).1 (projectPool_ok hresults).1 hplaced hp
  have hmemory : categoryTokens out .memory ≤ _ :=
    categoryTokens_le hnodup fun p hp => (hin p hp).1
  have hrag : categoryTokens out .ragEvidence ≤ _ :=
    categoryTokens_le hnodup fun p hp => (hin p hp).2.1
  have htool : categoryTokens out .toolResult ≤ _ :=
    categoryTokens_le hnodup fun p hp => (hin p hp).2.2
  have hmemories := (projectMemories_ok hmemories).2
  have hevidence := (projectPool_ok hevidence).2
  have hresults := (projectPool_ok hresults).2
  refine ⟨fun hnone => ?_, fun cap hcap => ?_, ?_, htool.trans hresults⟩
  · simp only [hnone, Option.getD_none, Option.isSome_none, Bool.false_eq_true, if_false]
      at hmemories hevidence
    omega
  · rw [hcap, Option.getD_some] at hmemories
    omega
  · cases hcap : policy.config.maxMemoryTokens with
    | none =>
      simp only [hcap, Option.getD_none, Option.isSome_none, Bool.false_eq_true, if_false]
        at hmemories hevidence
      omega
    | some cap =>
      simp only [hcap, Option.isSome_some, if_true] at hevidence
      exact hrag.trans hevidence

end Placed

end AgentHub.Context
