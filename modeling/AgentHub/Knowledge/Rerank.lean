import AgentHub.Lib.Checks
import AgentHub.Lib.Json
import Mathlib.Data.Finset.Card
import Mathlib.Data.Rat.Defs

/-!
# Choosing candidates for the reranker

The fused candidates of a query are cut to a limit before they are reranked. A first pass takes at
most a quota of chunks of each document, in order; a second pass fills what is left with the
others. What was chosen is returned in the order of the candidates. Candidates whose chunk was not
hydrated are never chosen.

A candidate is within the quota of its document when fewer chunks of that document than the quota
come before it. The first pass takes exactly those, as far as the limit goes: its counters are the
numbers of chunks seen of each document, cut at the quota.

## Main definitions

* `selectRerankCandidates`: the two passes and the final one
* `chunksOf`, `WithinQuota`: the chunks of a document, and the candidates a quota lets in
* `Fair`: what a selection is

## Main results

* `QuotaKept.step`: the invariant of the first pass
* `fillCandidates_spec`: the second pass
* `select_rerank_fair`: every selection is fair
-/

namespace AgentHub.Retrieval

open Lib

/-! ## The code -/

/-- `_FusedCandidate` -/
structure FusedCandidate where
  chunkId : Text
  retrievalScore : ℚ
  bestSourceRank : ℤ
  deriving DecidableEq, Repr

/-- The chunks selected so far, and how many of each document. -/
structure Selecting where
  selected : List Text := []
  counts : List (Text × ℤ) := []
  deriving DecidableEq, Repr

section Code

variable (documentIds : List (Text × Text)) (limit : ℤ)

/-- The body of the first loop. -/
def quotaStep (maxChunksPerDocument : ℤ) (s : Selecting) (candidate : FusedCandidate) : Selecting :=
  match Json.get? documentIds candidate.chunkId with
  | none => s
  | some documentId =>
    if candidate.chunkId ∈ s.selected then s
    else
      let count := (Json.get? s.counts documentId).getD 0
      if count ≥ maxChunksPerDocument then s
      else if s.selected.length ≥ limit then s
      else
        { selected := s.selected ++ [candidate.chunkId]
          counts := Json.set s.counts documentId (count + 1) }

/-- The first loop, where there is a quota. -/
def firstPass (candidates : List FusedCandidate) (maxChunksPerDocument : Option ℤ) : List Text :=
  match maxChunksPerDocument with
  | none => []
  | some quota => (candidates.foldl (quotaStep documentIds limit quota) {}).selected

/-- The second loop. -/
def fillCandidates (selected : List Text) : List FusedCandidate → List Text
  | [] => selected
  | candidate :: candidates =>
    if selected.length ≥ limit then selected
    else if candidate.chunkId ∉ selected ∧ candidate.chunkId ∈ documentIds.map Prod.fst then
      fillCandidates (selected ++ [candidate.chunkId]) candidates
    else fillCandidates selected candidates

/-- The last loop, with the chunks it has returned. -/
def keepSelected (selected : List Text) : List Text → List FusedCandidate → List FusedCandidate
  | _, [] => []
  | seen, candidate :: candidates =>
    if candidate.chunkId ∈ selected ∧ candidate.chunkId ∉ seen then
      candidate :: keepSelected selected (candidate.chunkId :: seen) candidates
    else keepSelected selected seen candidates

/-- `select_rerank_candidates`, where errors are those of `ValueError`. -/
def selectRerankCandidates (candidates : List FusedCandidate) (maxChunksPerDocument : Option ℤ) :
    Except String (List FusedCandidate) := do
  raiseIf (limit < 1) "limit must be a positive integer"
  raiseIf (maxChunksPerDocument.any (· < 1)) "max_chunks_per_document must be a positive integer"
  let selected := firstPass documentIds limit candidates maxChunksPerDocument
  let selected :=
    if selected.length < limit then fillCandidates documentIds limit selected candidates
    else selected
  return keepSelected selected [] candidates

end Code

/-! ## What a selection is -/

section Fairness

variable (documentIds : List (Text × Text))

/-- The chunk of the candidate is known. -/
def Hydrated (candidate : FusedCandidate) : Prop :=
  candidate.chunkId ∈ documentIds.map Prod.fst

/-- The chunks of a document among some candidates. -/
def chunksOf (candidates : List FusedCandidate) (documentId : Text) : Finset Text :=
  ((candidates.map (·.chunkId)).filter fun chunkId =>
    Json.get? documentIds chunkId = some documentId).toFinset

/-- Fewer chunks of its document than the quota come before the candidate. -/
def WithinQuota (candidates : List FusedCandidate) (quota : Option ℤ) (candidate : FusedCandidate) :
    Prop :=
  ∀ q ∈ quota, ∀ documentId ∈ Json.get? documentIds candidate.chunkId,
    ((chunksOf documentIds (candidates.takeWhile (·.chunkId ≠ candidate.chunkId))
      documentId).card : ℤ) < q

/-- The known chunks among the candidates. -/
def hydratedChunks (candidates : List FusedCandidate) : Finset Text :=
  ((candidates.map (·.chunkId)).filter fun chunkId => chunkId ∈ documentIds.map Prod.fst).toFinset

/-- A selection in the order of the candidates without duplicates, as large as the limit allows, that
goes beyond a quota only when all within the quotas are in. -/
structure Fair (candidates : List FusedCandidate) (limit : ℤ) (quota : Option ℤ)
    (result : List FusedCandidate) : Prop where
  sublist : result.Sublist candidates
  nodup : (result.map (·.chunkId)).Nodup
  hydrated : ∀ candidate ∈ result, Hydrated documentIds candidate
  size : (result.length : ℤ) = min limit (hydratedChunks documentIds candidates).card
  quota : ∀ candidate ∈ result, ¬ WithinQuota documentIds candidates quota candidate →
    ∀ other ∈ candidates, Hydrated documentIds other →
      WithinQuota documentIds candidates quota other → other.chunkId ∈ result.map (·.chunkId)

variable {documentIds} {candidates before after : List FusedCandidate} {candidate : FusedCandidate}
  {limit quota : ℤ} {s : Selecting}

/-! ## Chunks of a document -/

variable {selected : List Text} {chunkId documentId : Text}

theorem nodup_snoc (h : selected.Nodup) (hnew : chunkId ∉ selected) :
    (selected ++ [chunkId]).Nodup := by
  refine List.nodup_append'.mpr ⟨h, by simp, fun other hother hlast => hnew ?_⟩
  rwa [← List.mem_singleton.mp hlast]

theorem mem_chunksOf :
    chunkId ∈ chunksOf documentIds candidates documentId ↔
      chunkId ∈ candidates.map (·.chunkId) ∧ Json.get? documentIds chunkId = some documentId := by
  simp [chunksOf]

variable (documentIds) in
theorem chunksOf_mono (h : before ⊆ candidates) (documentId : Text) :
    chunksOf documentIds before documentId ⊆ chunksOf documentIds candidates documentId :=
  fun _ hmem => mem_chunksOf.mpr
    ⟨List.map_subset _ h (mem_chunksOf.mp hmem).1, (mem_chunksOf.mp hmem).2⟩

/-- A candidate that is not of the document, or whose chunk has been seen, adds nothing. -/
theorem chunksOf_append_of_seen
    (h : Json.get? documentIds candidate.chunkId ≠ some documentId ∨
      candidate.chunkId ∈ before.map (·.chunkId)) :
    chunksOf documentIds (before ++ [candidate]) documentId =
      chunksOf documentIds before documentId := by
  refine Finset.Subset.antisymm (fun chunkId hmem => ?_)
    (chunksOf_mono documentIds (List.subset_append_left ..) documentId)
  obtain ⟨hids, hdocument⟩ := mem_chunksOf.mp hmem
  rw [List.map_append, List.mem_append] at hids
  refine mem_chunksOf.mpr ⟨hids.elim id fun hlast => ?_, hdocument⟩
  rw [List.mem_singleton.mp hlast] at hdocument ⊢
  exact h.resolve_left (not_not_intro hdocument)

/-- A new chunk is counted once. -/
theorem card_chunksOf_append_new
    (hdocument : Json.get? documentIds candidate.chunkId = some documentId)
    (hnew : candidate.chunkId ∉ before.map (·.chunkId)) :
    (chunksOf documentIds (before ++ [candidate]) documentId).card =
      (chunksOf documentIds before documentId).card + 1 := by
  have hinsert : chunksOf documentIds (before ++ [candidate]) documentId =
      insert candidate.chunkId (chunksOf documentIds before documentId) := by
    ext chunkId
    rw [Finset.mem_insert, mem_chunksOf, mem_chunksOf, List.map_append, List.mem_append]
    constructor
    · rintro ⟨hids | hlast, hid⟩
      · exact .inr ⟨hids, hid⟩
      · exact .inl (List.mem_singleton.mp hlast)
    · rintro (rfl | ⟨hids, hid⟩)
      · exact ⟨.inr (by simp), hdocument⟩
      · exact ⟨.inl hids, hid⟩
  rw [hinsert, Finset.card_insert_of_notMem fun hmem => hnew (mem_chunksOf.mp hmem).1]

/-- Where a chunk is first met, what comes before it is what has been read. -/
theorem takeWhile_of_new (hnew : candidate.chunkId ∉ before.map (·.chunkId)) :
    (before ++ candidate :: after).takeWhile (·.chunkId ≠ candidate.chunkId) = before := by
  rw [List.takeWhile_append_of_pos]
  · simp
  · intro other hother
    have hne : other.chunkId ≠ candidate.chunkId :=
      fun heq => hnew (heq ▸ List.mem_map_of_mem hother)
    simpa using hne

variable (after) in
/-- What comes before a chunk that has been met has been read. -/
theorem takeWhile_subset (hseen : candidate.chunkId ∈ before.map (·.chunkId)) :
    (before ++ after).takeWhile (·.chunkId ≠ candidate.chunkId) ⊆ before := by
  obtain ⟨first, hfirst, heq⟩ := List.mem_map.mp hseen
  induction before with
  | nil => simp at hfirst
  | cons head before ih =>
    rw [List.cons_append]
    by_cases hhead : head.chunkId = candidate.chunkId
    · rw [List.takeWhile_cons_of_neg (by simpa using hhead)]
      exact List.nil_subset _
    · rw [List.takeWhile_cons_of_pos (by simpa using hhead)]
      have hrest : first ∈ before := (List.mem_cons.mp hfirst).resolve_left
        fun h => hhead (h ▸ heq)
      exact List.cons_subset_cons _ (ih (heq ▸ List.mem_map_of_mem hrest) hrest)

theorem withinQuota_congr {q : Option ℤ} {other : FusedCandidate}
    (h : other.chunkId = candidate.chunkId) :
    WithinQuota documentIds candidates q other ↔ WithinQuota documentIds candidates q candidate := by
  rw [WithinQuota, WithinQuota, h]

theorem withinQuota_some_iff
    (hdocument : Json.get? documentIds candidate.chunkId = some documentId) :
    WithinQuota documentIds candidates (some quota) candidate ↔
      ((chunksOf documentIds (candidates.takeWhile (·.chunkId ≠ candidate.chunkId))
        documentId).card : ℤ) < quota := by
  simp [WithinQuota, hdocument]

/-! ## The first pass -/

/-- What holds after the first pass has read some candidates. -/
structure QuotaKept (documentIds : List (Text × Text)) (candidates : List FusedCandidate)
    (limit quota : ℤ) (before : List FusedCandidate) (s : Selecting) : Prop where
  nodup : s.selected.Nodup
  size : (s.selected.length : ℤ) ≤ limit
  within : ∀ chunkId ∈ s.selected, ∃ candidate ∈ before, candidate.chunkId = chunkId ∧
    Hydrated documentIds candidate ∧ WithinQuota documentIds candidates (some quota) candidate
  /-- The counters, while the limit has not been reached. -/
  counts : s.selected.length < limit → ∀ documentId,
    (Json.get? s.counts documentId).getD 0 =
      min quota (chunksOf documentIds before documentId).card
  complete : s.selected.length < limit → ∀ candidate ∈ before, Hydrated documentIds candidate →
    WithinQuota documentIds candidates (some quota) candidate → candidate.chunkId ∈ s.selected

namespace QuotaKept

variable (h : QuotaKept documentIds candidates limit quota before s)

include h

/-- A candidate that changes nothing. -/
theorem skip
    (hcounts : s.selected.length < limit → ∀ documentId,
      min quota (chunksOf documentIds (before ++ [candidate]) documentId).card =
        min quota (chunksOf documentIds before documentId).card)
    (hcomplete : s.selected.length < limit → Hydrated documentIds candidate →
      WithinQuota documentIds candidates (some quota) candidate → candidate.chunkId ∈ s.selected) :
    QuotaKept documentIds candidates limit quota (before ++ [candidate]) s where
  nodup := h.nodup
  size := h.size
  within chunkId hmem := by
    obtain ⟨other, hother, hrest⟩ := h.within chunkId hmem
    exact ⟨other, List.mem_append_left _ hother, hrest⟩
  counts hlt documentId := (h.counts hlt documentId).trans (hcounts hlt documentId).symm
  complete hlt other hother := by
    rcases List.mem_append.mp hother with hother | hlast
    · exact h.complete hlt other hother
    · rw [List.mem_singleton.mp hlast]
      exact hcomplete hlt

/-- While there is room, a candidate that has been met and not selected is beyond its quota. -/
theorem new_of_card_lt (hcandidates : candidates = before ++ candidate :: after)
    {documentId : Text} (hdocument : Json.get? documentIds candidate.chunkId = some documentId)
    (hroom : s.selected.length < limit) (hnot : candidate.chunkId ∉ s.selected)
    (hcard : ((chunksOf documentIds before documentId).card : ℤ) < quota) :
    candidate.chunkId ∉ before.map (·.chunkId) := by
  intro hseen
  obtain ⟨first, hfirst, heq⟩ := List.mem_map.mp hseen
  refine hnot (heq ▸ h.complete hroom first hfirst ?_ ?_)
  · rw [Hydrated, heq, ← Json.isSome_get?, hdocument]
    rfl
  · rw [withinQuota_congr heq, withinQuota_some_iff hdocument, hcandidates]
    have hle := Finset.card_le_card
      (chunksOf_mono documentIds (takeWhile_subset (candidate :: after) hseen) documentId)
    omega

/-- **The first pass reads a candidate.** -/
theorem step (hcandidates : candidates = before ++ candidate :: after) :
    QuotaKept documentIds candidates limit quota (before ++ [candidate])
      (quotaStep documentIds limit quota s candidate) := by
  unfold quotaStep
  split
  · next hnone =>
    refine h.skip (fun _ documentId => ?_) fun _ hhydrated => ?_
    · rw [chunksOf_append_of_seen (.inl (by simp [hnone]))]
    · rw [Hydrated, ← Json.isSome_get?, hnone] at hhydrated
      cases hhydrated
  next documentId hdocument =>
  have hother (other : Text) (hne : other ≠ documentId) :
      chunksOf documentIds (before ++ [candidate]) other = chunksOf documentIds before other :=
    chunksOf_append_of_seen (.inl (by simpa [hdocument] using hne.symm))
  split
  · next hselected =>
    obtain ⟨first, hfirst, heq, -⟩ := h.within _ hselected
    refine h.skip (fun _ other => ?_) fun _ _ _ => hselected
    rw [chunksOf_append_of_seen (.inr (heq ▸ List.mem_map_of_mem hfirst))]
  next hnot =>
  dsimp only
  split
  · next hfull =>
    -- the document has met its quota, and keeps it met
    have hcard (hlt : s.selected.length < limit) :
        quota ≤ (chunksOf documentIds before documentId).card := by
      have hcount := h.counts hlt documentId
      omega
    refine h.skip (fun hlt other => ?_) fun hlt hhydrated hwithin => ?_
    · by_cases hne : other = documentId
      · subst hne
        have hle := Finset.card_le_card (chunksOf_mono documentIds
          (List.subset_append_left before [candidate]) other)
        have hfull := hcard hlt
        omega
      · rw [hother other hne]
    · by_cases hseen : candidate.chunkId ∈ before.map (·.chunkId)
      · obtain ⟨first, hfirst, heq⟩ := List.mem_map.mp hseen
        refine heq ▸ h.complete hlt first hfirst ?_ ((withinQuota_congr heq).mpr hwithin)
        rwa [Hydrated, heq]
      · rw [withinQuota_some_iff hdocument, hcandidates, takeWhile_of_new hseen] at hwithin
        exact absurd (hcard hlt) (not_le.mpr hwithin)
  next hcount =>
  split
  · next hfull =>
    exact h.skip (fun hlt => absurd hlt (not_lt.mpr hfull)) fun hlt => absurd hlt (not_lt.mpr hfull)
  next hroom =>
  have hlt : s.selected.length < limit := not_le.mp hroom
  have hcounts := h.counts hlt
  have hcard : ((chunksOf documentIds before documentId).card : ℤ) < quota := by
    have hthis := hcounts documentId
    omega
  have hnew := h.new_of_card_lt hcandidates hdocument hlt hnot hcard
  have hhydrated : Hydrated documentIds candidate := by
    rw [Hydrated, ← Json.isSome_get?, hdocument]
    rfl
  have hwithin : WithinQuota documentIds candidates (some quota) candidate := by
    rw [withinQuota_some_iff hdocument, hcandidates, takeWhile_of_new hnew]
    exact hcard
  refine ⟨?_, ?_, fun chunkId hmem => ?_, fun _ other => ?_, fun _ other hmem hother hin => ?_⟩
  · exact nodup_snoc h.nodup hnot
  · simp only [List.length_append, List.length_singleton]
    push_cast
    omega
  · rcases List.mem_append.mp hmem with hmem | hlast
    · obtain ⟨first, hfirst, hrest⟩ := h.within chunkId hmem
      exact ⟨first, List.mem_append_left _ hfirst, hrest⟩
    · exact ⟨candidate, by simp, (List.mem_singleton.mp hlast).symm, hhydrated, hwithin⟩
  · rw [Json.get?_set]
    split
    · next heq =>
      subst heq
      rw [card_chunksOf_append_new hdocument hnew, Option.getD_some, hcounts]
      push_cast
      omega
    · next hne => rw [hother other hne, hcounts]
  · rcases List.mem_append.mp hmem with hmem | hlast
    · exact List.mem_append_left _ (h.complete hlt other hmem hother hin)
    · rw [List.mem_singleton.mp hlast]
      simp

/-- **The first pass** over all candidates. -/
theorem foldl (hcandidates : candidates = before ++ after) :
    QuotaKept documentIds candidates limit quota candidates
      (after.foldl (quotaStep documentIds limit quota) s) := by
  induction after generalizing before s with
  | nil =>
    rw [List.append_nil] at hcandidates
    exact hcandidates ▸ h
  | cons candidate after ih =>
    rw [List.foldl_cons]
    exact ih (h.step hcandidates) (by rw [hcandidates, List.append_assoc]; rfl)

end QuotaKept

/-! ## The second pass -/

/-- A choice of known chunks that the limit allows. -/
structure Choice (documentIds : List (Text × Text)) (candidates : List FusedCandidate) (limit : ℤ)
    (selected : List Text) : Prop where
  nodup : selected.Nodup
  size : (selected.length : ℤ) ≤ limit
  mem : ∀ chunkId ∈ selected, ∃ candidate ∈ candidates, candidate.chunkId = chunkId ∧
    Hydrated documentIds candidate

/-- **The second pass** keeps what is selected, and stops early only when the limit is reached. -/
theorem fillCandidates_spec (h : Choice documentIds candidates limit selected)
    (hsubset : after ⊆ candidates) :
    Choice documentIds candidates limit (fillCandidates documentIds limit selected after) ∧
      selected ⊆ fillCandidates documentIds limit selected after ∧
      ((fillCandidates documentIds limit selected after).length < limit →
        ∀ candidate ∈ after, Hydrated documentIds candidate →
          candidate.chunkId ∈ fillCandidates documentIds limit selected after) := by
  induction after generalizing selected with
  | nil => exact ⟨h, List.Subset.refl _, by simp⟩
  | cons candidate after ih =>
    obtain ⟨hcandidate, hafter⟩ := List.cons_subset.mp hsubset
    rw [fillCandidates]
    split
    · next hfull => exact ⟨h, List.Subset.refl _, fun hlt => absurd hlt (not_lt.mpr hfull)⟩
    next hroom =>
    split
    · next hadd =>
      have hchoice : Choice documentIds candidates limit (selected ++ [candidate.chunkId]) := by
        refine ⟨nodup_snoc h.nodup hadd.1, ?_, fun chunkId hmem => ?_⟩
        · have hlt := not_le.mp hroom
          rw [List.length_append, List.length_singleton]
          push_cast
          omega
        · rcases List.mem_append.mp hmem with hmem | hlast
          · exact h.mem chunkId hmem
          · exact ⟨candidate, hcandidate, (List.mem_singleton.mp hlast).symm, hadd.2⟩
      obtain ⟨hnext, hkept, hall⟩ := ih hchoice hafter
      refine ⟨hnext, fun _ hmem => hkept (List.mem_append_left _ hmem), fun hlt other hother => ?_⟩
      rcases List.mem_cons.mp hother with rfl | hother
      · exact fun _ => hkept (by simp)
      · exact hall hlt other hother
    · next hskip =>
      obtain ⟨hnext, hkept, hall⟩ := ih h hafter
      refine ⟨hnext, hkept, fun hlt other hother hhydrated => ?_⟩
      rcases List.mem_cons.mp hother with rfl | hother
      · exact hkept (by_contra fun hnot => hskip ⟨hnot, hhydrated⟩)
      · exact hall hlt other hother hhydrated

/-! ## The last pass -/

theorem keepSelected_sublist (selected seen : List Text) (candidates : List FusedCandidate) :
    (keepSelected selected seen candidates).Sublist candidates := by
  induction candidates generalizing seen with
  | nil => exact List.Sublist.refl _
  | cons candidate candidates ih =>
    rw [keepSelected]
    split
    · exact (ih _).cons_cons candidate
    · exact (ih _).cons candidate

theorem mem_keepSelected {seen : List Text} :
    chunkId ∈ (keepSelected selected seen candidates).map (·.chunkId) ↔
      chunkId ∈ selected ∧ chunkId ∉ seen ∧ chunkId ∈ candidates.map (·.chunkId) := by
  induction candidates generalizing seen with
  | nil => simp [keepSelected]
  | cons candidate candidates ih =>
    rw [keepSelected]
    by_cases hid : chunkId = candidate.chunkId
    · subst hid
      split
      · next hkeep => simp [hkeep]
      · next hskip =>
        rw [ih]
        simp only [List.map_cons, List.mem_cons, true_or, and_true]
        exact ⟨fun h => ⟨h.1, h.2.1⟩, fun h => absurd h hskip⟩
    · split
      · simp [ih, hid]
      · simp [ih, hid]

theorem nodup_keepSelected (selected seen : List Text) (candidates : List FusedCandidate) :
    ((keepSelected selected seen candidates).map (·.chunkId)).Nodup := by
  induction candidates generalizing seen with
  | nil => exact List.nodup_nil
  | cons candidate candidates ih =>
    rw [keepSelected]
    split
    · rw [List.map_cons, List.nodup_cons]
      exact ⟨fun hmem => (mem_keepSelected.mp hmem).2.1 (by simp), ih _⟩
    · exact ih _

/-! ## Selections -/

namespace Choice

variable {selected : List Text} (h : Choice documentIds candidates limit selected)

include h

theorem subset_hydratedChunks : selected.toFinset ⊆ hydratedChunks documentIds candidates := by
  intro chunkId hmem
  obtain ⟨candidate, hcandidate, rfl, hhydrated⟩ := h.mem chunkId (List.mem_toFinset.mp hmem)
  rw [hydratedChunks, List.mem_toFinset, List.mem_filter]
  exact ⟨List.mem_map_of_mem hcandidate, by simpa [Hydrated] using hhydrated⟩

/-- A choice that stops only at the limit has the largest size. -/
theorem length_eq
    (hall : selected.length < limit → ∀ candidate ∈ candidates, Hydrated documentIds candidate →
      candidate.chunkId ∈ selected) :
    (selected.length : ℤ) = min limit (hydratedChunks documentIds candidates).card := by
  have hcard : selected.toFinset.card = selected.length := List.toFinset_card_of_nodup h.nodup
  have hle := Finset.card_le_card h.subset_hydratedChunks
  rcases lt_or_eq_of_le h.size with hlt | heq
  · have hsubset : hydratedChunks documentIds candidates ⊆ selected.toFinset := by
      intro chunkId hmem
      rw [hydratedChunks, List.mem_toFinset, List.mem_filter] at hmem
      obtain ⟨candidate, hcandidate, rfl⟩ := List.mem_map.mp hmem.1
      exact List.mem_toFinset.mpr (hall hlt candidate hcandidate (by simpa [Hydrated] using hmem.2))
    have hge := Finset.card_le_card hsubset
    omega
  · omega

/-- What is returned of a choice. -/
theorem length_keepSelected : (keepSelected selected [] candidates).length = selected.length := by
  have hperm : ((keepSelected selected [] candidates).map (·.chunkId)).Perm selected := by
    refine (List.perm_ext_iff_of_nodup (nodup_keepSelected ..) h.nodup).mpr fun chunkId => ?_
    rw [mem_keepSelected]
    refine ⟨fun hmem => hmem.1, fun hmem => ⟨hmem, by simp, ?_⟩⟩
    obtain ⟨candidate, hcandidate, heq, -⟩ := h.mem chunkId hmem
    exact heq ▸ List.mem_map_of_mem hcandidate
  rw [← hperm.length_eq, List.length_map]

end Choice

end Fairness

section Passes

variable {documentIds : List (Text × Text)} {candidates : List FusedCandidate} {limit : ℤ}
  {quota : Option ℤ}

variable (documentIds candidates) in
/-- **The first pass** selects candidates within the quotas, and all of them if there is room. -/
theorem firstPass_spec (hlimit : 1 ≤ limit) (hquota : ∀ q ∈ quota, 1 ≤ q) :
    Choice documentIds candidates limit (firstPass documentIds limit candidates quota) ∧
      (∀ candidate, candidate.chunkId ∈ firstPass documentIds limit candidates quota →
        WithinQuota documentIds candidates quota candidate) ∧
      (quota.isSome = true → (firstPass documentIds limit candidates quota).length < limit →
        ∀ candidate ∈ candidates, Hydrated documentIds candidate →
          WithinQuota documentIds candidates quota candidate →
            candidate.chunkId ∈ firstPass documentIds limit candidates quota) := by
  cases quota with
  | none =>
    exact ⟨⟨List.nodup_nil, by simpa [firstPass] using zero_le_one.trans hlimit,
      by simp [firstPass]⟩, by simp [firstPass], by simp⟩
  | some quota =>
    have hpos : 0 ≤ quota := zero_le_one.trans (hquota quota rfl)
    have hempty : QuotaKept documentIds candidates limit quota [] {} :=
      ⟨List.nodup_nil, by simpa using zero_le_one.trans hlimit, by simp,
        fun _ documentId => by simpa [chunksOf, Json.get?] using hpos, by simp⟩
    have hkept := hempty.foldl (List.nil_append _).symm
    refine ⟨⟨hkept.nodup, hkept.size, fun chunkId hmem => ?_⟩, fun candidate hmem => ?_,
      fun _ => hkept.complete⟩
    · obtain ⟨candidate, hcandidate, heq, hhydrated, -⟩ := hkept.within chunkId hmem
      exact ⟨candidate, hcandidate, heq, hhydrated⟩
    · obtain ⟨other, -, heq, -, hwithin⟩ := hkept.within candidate.chunkId hmem
      exact (withinQuota_congr heq).mp hwithin

/-- **Every selection is fair.** -/
theorem select_rerank_fair (documentIds : List (Text × Text)) (candidates : List FusedCandidate)
    (hlimit : 1 ≤ limit) (hquota : ∀ q ∈ quota, 1 ≤ q) :
    ∃ result, selectRerankCandidates documentIds limit candidates quota = .ok result ∧
      Fair documentIds candidates limit quota result := by
  obtain ⟨hfirst, hwithin, hcomplete⟩ := firstPass_spec documentIds candidates hlimit hquota
  obtain ⟨hfilled, hkept, hall⟩ := fillCandidates_spec hfirst (List.Subset.refl candidates)
  generalize hs : firstPass documentIds limit candidates quota = first at *
  generalize hf : (if first.length < limit then fillCandidates documentIds limit first candidates
    else first) = final
  have hfinal : Choice documentIds candidates limit final ∧ first ⊆ final ∧
      (final.length < limit → ∀ candidate ∈ candidates, Hydrated documentIds candidate →
        candidate.chunkId ∈ final) ∧
      (first.length < limit ∨ final = first) := by
    split at hf
    · next hroom =>
      subst hf
      exact ⟨hfilled, hkept, hall, .inl hroom⟩
    · next hfull =>
      subst hf
      exact ⟨hfirst, List.Subset.refl _, fun hlt => absurd hlt hfull, .inr rfl⟩
  obtain ⟨hchoice, hsubset, hmax, hroom⟩ := hfinal
  refine ⟨keepSelected final [] candidates, ?_, ?_⟩
  · have hok : (quota.any (· < 1)) = false := by
      cases quota with
      | none => rfl
      | some q => simpa using hquota q rfl
    simp [selectRerankCandidates, raiseIf, not_lt.mpr hlimit, hok, hs, hf]
  refine ⟨keepSelected_sublist .., nodup_keepSelected .., fun candidate hmem => ?_, ?_,
    fun candidate hmem hbeyond other hother hhydrated hin => ?_⟩
  · have hid := mem_keepSelected.mp (List.mem_map_of_mem hmem)
    obtain ⟨first, -, heq, hhydrated⟩ := hchoice.mem _ hid.1
    rwa [Hydrated, ← heq]
  · rw [hchoice.length_keepSelected]
    exact hchoice.length_eq hmax
  · -- a candidate beyond its quota comes from the second pass, which runs when there is room
    have hid := mem_keepSelected.mp (List.mem_map_of_mem hmem)
    have hlt : first.length < limit := by
      refine hroom.resolve_right fun heq => hbeyond (hwithin candidate ?_)
      exact heq ▸ hid.1
    have hsome : quota.isSome = true := by
      cases quota with
      | none => exact absurd (by simp [WithinQuota]) hbeyond
      | some q => rfl
    refine mem_keepSelected.mpr ⟨hsubset (hcomplete hsome hlt other hother hhydrated hin),
      by simp, List.mem_map_of_mem hother⟩

/-- Two chunks of one guide, the second of them twice, and one of another. -/
def guideCandidates : List FusedCandidate :=
  [⟨Text.ofString "a1", 9 / 10, 1⟩, ⟨Text.ofString "a2", 4 / 5, 2⟩, ⟨Text.ofString "a2", 3 / 4, 4⟩,
    ⟨Text.ofString "b1", 1 / 2, 3⟩, ⟨Text.ofString "gone", 1 / 4, 5⟩]

def guideDocuments : List (Text × Text) :=
  [(Text.ofString "a1", Text.ofString "a"), (Text.ofString "a2", Text.ofString "a"),
    (Text.ofString "b1", Text.ofString "b")]

theorem select_rerank_fair_guide : ∃ result,
    selectRerankCandidates guideDocuments 2 guideCandidates (some 1) = .ok result ∧
      result.map (·.chunkId) = [Text.ofString "a1", Text.ofString "b1"] ∧
      Fair guideDocuments guideCandidates 2 (some 1) result := by
  obtain ⟨result, hok, hfair⟩ := select_rerank_fair guideDocuments guideCandidates
    (show (1 : ℤ) ≤ 2 by decide) (show ∀ q ∈ some (1 : ℤ), 1 ≤ q by simp)
  have hids : (selectRerankCandidates guideDocuments 2 guideCandidates (some 1)).map
      (List.map (·.chunkId)) = .ok [Text.ofString "a1", Text.ofString "b1"] := by decide +kernel
  rw [hok] at hids
  exact ⟨result, hok, Except.ok.inj hids, hfair⟩

end Passes

end AgentHub.Retrieval
