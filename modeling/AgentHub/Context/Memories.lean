import AgentHub.Context.Memory
import AgentHub.Transcript.Validated

/-!
# The entries a memory message keeps

The loop over the entries of a memory message grows its selection while the message fits and shrinks
it where the mark of truncation needs room. What it keeps are entries of the payload in their order,
what it rejects are the others, and the message it builds is read back as the entries kept.

## Main definitions

* `memoryMembers`: the content of a projected memory message
* `MemoryPayload.IsValid`: what a parsed payload satisfies
* `KeepsEntries`: the entries kept and those rejected

## Main results

* `parseMemoryPayload_memoryMembers`: a projected message is read back
* `selectMemories_keeps`: the loop over the entries
* `projectMemoryMessage_eq_ok`: a projected memory message
-/

namespace AgentHub.Context

open Lib Transcript

/-! ## The content -/

/-- The members of a projected memory message. -/
def memoryMembers (note : Option Text) (selected : List MemoryCandidate) (truncated : Bool) :
    JsonObject :=
  (note.toList.map fun note => (Text.ofString "note", Json.str note)) ++
    [(Text.ofString "memories", .arr (selected.map MemoryCandidate.asPayload)),
      (Text.ofString "trust", .str (Text.ofString "UNTRUSTED"))] ++
    if truncated then [(Text.ofString "truncated", Json.bool true)] else []

variable {payload : MemoryPayload} {selected candidates : List MemoryCandidate}
  {rejected : List Text}

theorem memoryProjection_eq_ok {policy : ContextBudgetPolicy}
    {message admitted : ModelMessage JsonObject} {includeNote includeTruncated : Bool} {n : ℕ} :
    memoryProjection policy message payload selected includeNote includeTruncated =
        .ok (admitted, n) ↔
      ∃ content, jsonDumps (.obj (memoryMembers (if includeNote then payload.note else none)
          selected includeTruncated)) = .ok content ∧
        admitted = { message with content := some content } ∧
        estimateMessage policy admitted = .ok n := by
  have hnote : (if includeNote then payload.note.toList.map fun note =>
      (Text.ofString "note", Json.str note) else []) =
      (if includeNote then payload.note else none).toList.map fun note =>
        (Text.ofString "note", Json.str note) := by
    cases includeNote <;> rfl
  simp only [memoryProjection, memoryMembers, hnote, bind_eq_ok, Except.ok.injEq, Prod.mk.injEq]
  constructor
  · rintro ⟨content, hcontent, estimated, hestimated, rfl, rfl⟩
    exact ⟨content, hcontent, rfl, hestimated⟩
  · rintro ⟨content, hcontent, rfl, hestimated⟩
    exact ⟨content, hcontent, n, hestimated, rfl, rfl⟩

/-! ## Reading the content back -/

/-- What the entries of a payload satisfy. -/
def MemoryCandidate.IsValid (c : MemoryCandidate) : Prop :=
  strip CodePoint.isSpace c.content ≠ [] ∧ c.kind ∈ memoryKinds ∧ isCanonicalUuid c.id

/-- What a parsed payload satisfies. -/
structure MemoryPayload.IsValid (payload : MemoryPayload) : Prop where
  valid : ∀ c ∈ payload.candidates, c.IsValid
  nodup : (payload.candidates.map MemoryCandidate.id).Nodup

theorem isValid_of_parseMemory {value : Json} {c : MemoryCandidate}
    (h : parseMemory value = some c) : c.IsValid := by
  unfold parseMemory at h
  split at h
  · split at h
    · split_ifs at h with hvalid
      obtain rfl := Option.some.inj h
      exact hvalid.2
    · cases h
  · cases h

theorem isValid_of_parseMemoryPayload {content : Option Text}
    (h : parseMemoryPayload content = some payload) : payload.IsValid := by
  have hcandidates {memories : List Json} {note : Option Text} {truncated : Bool}
      (h : ((memories.mapM parseMemory).bind fun candidates =>
        Option.bind (guard (candidates.map MemoryCandidate.id).Nodup) fun _ =>
          some (⟨note, candidates, truncated⟩ : MemoryPayload)) = some payload) :
      payload.IsValid := by
    simp only [Option.bind_eq_some_iff, Option.some.injEq] at h
    obtain ⟨candidates, hparsed, ⟨⟩, hguard, rfl⟩ := h
    refine ⟨fun c hc => ?_, by simpa [guard] using hguard⟩
    obtain ⟨value, -, hvalue⟩ := Pairing.exists_left (mapM_eq_some_iff.mp hparsed) hc
    exact isValid_of_parseMemory hvalue
  unfold parseMemoryPayload at h
  split at h
  · simp only [Option.bind_eq_bind, Option.bind_eq_some_iff] at h
    obtain ⟨-, -, note, -, -, -, -, -, h⟩ := h
    split at h
    · split at h
      · exact hcandidates h
      · cases h
    · split at h
      · exact hcandidates h
      · cases h
    · split at h <;> cases h
  · cases h

theorem parseMemory_asPayload {c : MemoryCandidate} (h : c.IsValid) :
    parseMemory c.asPayload.sorted = some c := by
  let members : JsonObject := [(Text.ofString "id", .str c.id), (Text.ofString "kind", .str c.kind),
    (Text.ofString "content", .str c.content)]
  have hsorted : c.asPayload.sorted = .obj (sortedObject members) := Json.sorted_obj _
  have hnodup : (members.map Prod.fst).Nodup := by simp [members]
  have hkeys : hasKeys ["id", "kind", "content"] [] (sortedObject members) = true := by
    rw [hasKeys_sortedObject]
    simp [hasKeys, members]
  have hid : field (sortedObject members) "id" = .str c.id :=
    field_sortedObject hnodup (v := .str c.id) (by simp [members])
  have hkind : field (sortedObject members) "kind" = .str c.kind :=
    field_sortedObject hnodup (v := .str c.kind) (by simp [members])
  have hcontent : field (sortedObject members) "content" = .str c.content :=
    field_sortedObject hnodup (v := .str c.content) (by simp [members])
  rw [hsorted, parseMemory]
  simp only [hid, hkind, hcontent]
  rw [if_pos ⟨hkeys, h⟩]

theorem nodup_memoryMembers (note : Option Text) (selected : List MemoryCandidate)
    (truncated : Bool) : ((memoryMembers note selected truncated).map Prod.fst).Nodup := by
  cases note <;> cases truncated <;> simp [memoryMembers]

theorem distinctKeys_memoryMembers (note : Option Text) (selected : List MemoryCandidate)
    (truncated : Bool) :
    (Json.obj (memoryMembers note selected truncated)).allAt Json.distinctKeys 0 := by
  refine Json.allAt_obj.mpr ⟨decide_eq_true (nodup_memoryMembers note selected truncated), ?_⟩
  have hentries : (Json.arr (selected.map MemoryCandidate.asPayload)).allAt Json.distinctKeys 1 := by
    refine Json.allAt_arr.mpr ⟨rfl, fun value hvalue => ?_⟩
    obtain ⟨c, -, rfl⟩ := List.mem_map.mp hvalue
    refine Json.allAt_obj.mpr ⟨by simp [Json.distinctKeys], fun kv hkv => ?_⟩
    simp only [List.mem_cons, List.not_mem_nil, or_false] at hkv
    rcases hkv with rfl | rfl | rfl <;> rfl
  intro kv hkv
  cases note <;> cases truncated <;>
    simp only [memoryMembers, Option.toList_none, Option.toList_some, List.map_nil, List.map_cons,
      List.nil_append, List.cons_append, List.append_nil, if_true, if_false, Bool.false_eq_true,
      List.mem_cons, List.not_mem_nil, or_false] at hkv
  all_goals rcases hkv with rfl | rfl | rfl | rfl
  all_goals first | exact hentries | rfl

/-- **A projected memory message is read back** as the entries it was built from. -/
theorem parseMemoryPayload_memoryMembers {note : Option Text} {truncated : Bool} {content : Text}
    (hvalid : MemoryPayload.IsValid ⟨note, selected, truncated⟩)
    (h : jsonDumps (.obj (memoryMembers note selected truncated)) = .ok content) :
    parseMemoryPayload (some content) = some ⟨note, selected, truncated⟩ := by
  have hloads : loads memoryLoader content =
      .ok (.obj (sortedObject (memoryMembers note selected truncated))) := by
    rw [loads_of_jsonDumps (fun kvs hkvs => if_pos hkvs)
      (distinctKeys_memoryMembers note selected truncated) h, Json.sorted_obj]
    rfl
  have hkeys : hasKeys [] ["data_trust", "memories", "note", "truncated", "trust"]
      (sortedObject (memoryMembers note selected truncated)) = true := by
    rw [hasKeys_sortedObject]
    cases note <;> cases truncated <;> simp [hasKeys, memoryMembers]
  have hget (key : Text) : Json.get? (sortedObject (memoryMembers note selected truncated)) key =
      (Json.get? (memoryMembers note selected truncated) key).map Json.sorted :=
    Json.get?_sorted (nodup_memoryMembers note selected truncated) key
  have hnote : Json.get? (memoryMembers note selected truncated) (Text.ofString "note") =
      note.map Json.str := by
    cases note <;> cases truncated <;> rfl
  have htrust : Json.get? (memoryMembers note selected truncated) (Text.ofString "trust") =
      some (.str (Text.ofString "UNTRUSTED")) := by
    cases note <;> cases truncated <;> rfl
  have hdata : Json.get? (memoryMembers note selected truncated) (Text.ofString "data_trust") =
      none := by
    cases note <;> cases truncated <;> rfl
  have htruncated : Json.get? (memoryMembers note selected truncated) (Text.ofString "truncated") =
      if truncated then some (.bool true) else none := by
    cases note <;> cases truncated <;> rfl
  have hmemories : Json.get? (memoryMembers note selected truncated) (Text.ofString "memories") =
      some (.arr (selected.map MemoryCandidate.asPayload)) := by
    cases note <;> cases truncated <;> rfl
  have hparsed : (Json.sortedList (selected.map MemoryCandidate.asPayload)).mapM parseMemory =
      some selected := by
    rw [mapM_eq_some_iff, Json.sortedList_eq, List.map_map, List.forall₂_map_left_iff]
    exact List.forall₂_same.mpr fun c hc => parseMemory_asPayload (hvalid.valid c hc)
  simp only [parseMemoryPayload, Option.map_some, hloads, hkeys, optionalText, field, hget, hnote,
    htrust, hdata, htruncated, hmemories]
  have hnodup : (selected.map MemoryCandidate.id).Nodup := hvalid.nodup
  cases note <;> cases truncated <;> simp [Json.sorted, hparsed, hnodup, guard]

/-! ## The loop over the entries -/

/-- Of `candidates`, those in `selected` are kept in their order, and `rejected` names the others. -/
structure KeepsEntries (candidates selected : List MemoryCandidate) (rejected : List Text) :
    Prop where
  sublist : selected.Sublist candidates
  perm : (selected.map MemoryCandidate.id ++ rejected).Perm (candidates.map MemoryCandidate.id)

namespace KeepsEntries

theorem refl (candidates : List MemoryCandidate) : KeepsEntries candidates candidates [] :=
  ⟨.refl _, by simp⟩

/-- An entry after the others is kept. -/
theorem keep (h : KeepsEntries candidates selected rejected) (c : MemoryCandidate) :
    KeepsEntries (candidates ++ [c]) (selected ++ [c]) rejected := by
  refine ⟨h.sublist.append (.refl _), ?_⟩
  simp only [List.map_append, List.map_singleton, List.append_assoc]
  have hlast : ([c.id] ++ rejected).Perm (rejected ++ [c.id]) := List.perm_append_comm
  exact (hlast.append_left _).trans (by simpa using h.perm.append_right [c.id])

/-- An entry after the others is rejected. -/
theorem reject (h : KeepsEntries candidates selected rejected) (c : MemoryCandidate) :
    KeepsEntries (candidates ++ [c]) selected (rejected ++ [c.id]) := by
  refine ⟨h.sublist.trans (List.sublist_append_left _ _), ?_⟩
  rw [← List.append_assoc, List.map_append, List.map_singleton]
  exact h.perm.append_right _

/-- The last entry kept is given up. -/
theorem drop_last {c : MemoryCandidate} (h : KeepsEntries candidates (selected ++ [c]) rejected) :
    KeepsEntries candidates selected (rejected ++ [c.id]) := by
  refine ⟨(List.sublist_append_left _ _).trans h.sublist, ?_⟩
  have hlast : (rejected ++ [c.id]).Perm ([c.id] ++ rejected) := List.perm_append_comm
  refine .trans ?_ h.perm
  rw [List.map_append, List.append_assoc]
  exact hlast.append_left _

/-- Where nothing is rejected, everything is kept. -/
theorem eq_of_nil (h : KeepsEntries candidates selected []) : selected = candidates := by
  refine h.sublist.eq_of_length ?_
  simpa using h.perm.length_eq

end KeepsEntries

section Policy

variable {policy : ContextBudgetPolicy} {message : ModelMessage JsonObject} {budget : ℕ}
  {groupTruncated : Bool} {reversed reversed' : List MemoryCandidate} {rejected' : List Text}

/-- **Making room for the mark of truncation** gives up entries from the end. -/
theorem trimSelected_keeps (hkeeps : KeepsEntries candidates reversed.reverse rejected)
    (h : trimSelected policy message payload budget reversed rejected =
      .ok (reversed', rejected')) :
    KeepsEntries candidates reversed'.reverse rejected' := by
  induction reversed generalizing rejected with
  | nil =>
    obtain ⟨rfl, rfl⟩ := ok_pair_inj h
    exact hkeeps
  | cons last reversed ih =>
    obtain ⟨⟨_, retained⟩, -, h⟩ := bind_eq_ok.mp h
    dsimp only at h
    split_ifs at h
    · obtain ⟨rfl, rfl⟩ := ok_pair_inj h
      exact hkeeps
    · rw [List.reverse_cons] at hkeeps
      exact ih hkeeps.drop_last h

/-- **The loop over the entries**, from those seen so far. -/
theorem selectMemories_keeps {seen : List MemoryCandidate}
    (hkeeps : KeepsEntries seen reversed.reverse rejected)
    (h : selectMemories policy message payload budget groupTruncated candidates reversed rejected =
      .ok (reversed', rejected')) :
    KeepsEntries (seen ++ candidates) reversed'.reverse rejected' := by
  induction candidates generalizing seen reversed rejected with
  | nil =>
    obtain ⟨rfl, rfl⟩ := ok_pair_inj h
    rwa [List.append_nil]
  | cons c candidates ih =>
    rw [← List.singleton_append, ← List.append_assoc]
    obtain ⟨⟨_, required⟩, -, h⟩ := bind_eq_ok.mp h
    dsimp only at h
    split_ifs at h
    · refine ih ?_ h
      rw [List.reverse_cons]
      exact hkeeps.keep c
    · obtain ⟨⟨trimmed, rejected''⟩, htrim, h⟩ := bind_eq_ok.mp h
      exact ih (trimSelected_keeps (hkeeps.reject c) htrim) h

/-- **A projected memory message**: nothing of it is admitted, or the message built from the entries
kept, which carries the mark of truncation where an entry was rejected. -/
theorem projectMemoryMessage_eq_ok {projection : MemoryProjection}
    (h : projectMemoryMessage policy message budget payload groupTruncated = .ok projection) :
    ∃ selected rejected, KeepsEntries payload.candidates selected rejected ∧
      projection.admittedIds = selected.map MemoryCandidate.id ∧
      projection.poolDroppedIds = rejected ∧
      ((projection.admitted = none ∧ selected = []) ∨
        ∃ admitted n includeNote truncated, projection.admitted = some (admitted, n) ∧ n ≤ budget ∧
          memoryProjection policy message payload selected includeNote truncated =
            .ok (admitted, n) ∧ (rejected ≠ [] → truncated = true)) := by
  unfold projectMemoryMessage at h
  split_ifs at h
  · obtain rfl := Except.ok.inj h
    exact ⟨[], _, ⟨List.nil_sublist _, by simp⟩, rfl, rfl, .inl ⟨rfl, rfl⟩⟩
  obtain ⟨⟨reversed, rejected⟩, hselect, h⟩ := bind_eq_ok.mp h
  have hstart : KeepsEntries [] ([] : List MemoryCandidate).reverse [] := .refl []
  have hkeeps : KeepsEntries payload.candidates reversed.reverse rejected :=
    selectMemories_keeps hstart hselect
  obtain ⟨⟨projected, tokens⟩, hprojected, h⟩ := bind_eq_ok.mp h
  dsimp only at h hprojected
  split_ifs at h with hover
  · obtain rfl := Except.ok.inj h
    refine ⟨[], _, ⟨List.nil_sublist _, ?_⟩, rfl, rfl, .inl ⟨rfl, rfl⟩⟩
    exact (List.perm_append_comm : (rejected ++ _).Perm _).trans hkeeps.perm
  obtain ⟨⟨noted, notedTokens⟩, hnoted, h⟩ := bind_eq_ok.mp h
  obtain rfl := Except.ok.inj h
  have hmark (hrejected : rejected ≠ []) :
      (groupTruncated || decide (rejected.isEmpty = false) || payload.truncated) = true := by
    simp [hrejected]
  refine ⟨_, rejected, hkeeps, rfl, rfl, .inr ?_⟩
  by_cases hnote : notedTokens ≤ budget
  · exact ⟨noted, notedTokens, true, _, congrArg some (if_pos hnote), hnote, hnoted, hmark⟩
  · exact ⟨projected, tokens, false, _, congrArg some (if_neg hnote), Nat.not_lt.mp hover,
      hprojected, hmark⟩

end Policy

end AgentHub.Context
