import AgentHub.History.View
import AgentHub.Transcript.Validated

/-!
# Renamed tool calls

The tool-call ids of a turn are numbered in the order of the calls and bound to the turn. A result
is renamed with the call it answers, and no two calls of different turns share an id.

## Main definitions

* `callIds`: the tool-call ids of messages
* `Renames`: a message with its ids renamed
* `callName`: the new id of a call

## Main results

* `historyCallId_inj`: the id of a call determines its turn and its number
* `namespaceToolIds_eq_ok`: the messages of a turn are renamed alike
-/

namespace AgentHub.History

open Lib Context Transcript

/-! ## Ids -/

theorem length_hexOf (u : Uuid) : (hexOf u).length = 32 := by
  simp [hexOf, hexText, length_hexDigits]

theorem hexOf_injective : Function.Injective hexOf := by
  intro u v h
  have hu := scanHexDigits_hexText 32 u []
  have hv := scanHexDigits_hexText 32 v []
  unfold hexOf at h
  rw [h, hv, Option.some.injEq, Prod.mk.injEq] at hu
  have hvalue := congrArg ofHexDigits hu.1
  rw [ofHexDigits_hexDigits, ofHexDigits_hexDigits] at hvalue
  have hmod (w : Uuid) : (w : ℕ) % 16 ^ 32 = w := Nat.mod_eq_of_lt (by have := w.isLt; omega)
  rw [hmod, hmod] at hvalue
  exact Fin.ext hvalue.symm

/-- **The id of a call determines its turn and its number.** -/
theorem historyCallId_inj {s t : Text} {i j : ℕ} (hlength : s.length = t.length)
    (h : historyCallId s i = historyCallId t j) : s = t ∧ i = j := by
  unfold historyCallId at h
  rw [List.append_assoc, List.append_assoc, List.append_assoc, List.append_assoc] at h
  obtain ⟨hst, hrest⟩ := List.append_inj (List.append_cancel_left h) hlength
  exact ⟨hst, decimalText_injective (List.append_cancel_left hrest)⟩

/-- The tool-call ids of messages, in order. -/
def callIds (messages : List Message) : List Text :=
  messages.flatMap fun m => m.toolCalls.filterMap ModelToolCall.providerToolCallId

@[simp] theorem callIds_nil : callIds [] = [] := rfl

@[simp] theorem callIds_cons (m : Message) (messages : List Message) :
    callIds (m :: messages) =
      m.toolCalls.filterMap ModelToolCall.providerToolCallId ++ callIds messages := rfl

/-! ## Renaming -/

/-- The call with its id renamed. -/
def renameCall (f : Text → Text) (c : ModelToolCall JsonObject) : ModelToolCall JsonObject :=
  { c with providerToolCallId := c.providerToolCallId.map f }

/-- The message with its ids renamed by `f`. -/
structure Renames (f : Text → Text) (m m' : Message) : Prop where
  role : m'.role = m.role
  content : m'.content = m.content
  name : m'.name = m.name
  toolCallId : m'.toolCallId = m.toolCallId.map f
  toolCalls : m'.toolCalls = m.toolCalls.map (renameCall f)

/-- The new id of a call: the number of its old id among `ids`. -/
def callName (turnId : Text) (ids : List Text) (id : Text) : Text :=
  historyCallId turnId (ids.idxOf id)

theorem callName_injOn (turnId : Text) (ids : List Text) :
    Set.InjOn (callName turnId ids) {id | id ∈ ids} := by
  intro a ha b hb h
  exact (List.idxOf_inj ha).mp (historyCallId_inj rfl h).2

variable {ids : List Text} {turnId id : Text} {messages renamed : List Message}

theorem map_callName (turnId : Text) (h : ids.Nodup) :
    ids.map (callName turnId ids) = (List.range ids.length).map (historyCallId turnId) := by
  have hidx : ids.map ids.idxOf = List.range ids.length := by
    refine List.ext_getElem (by simp) fun i hi _ => ?_
    simp only [List.getElem_map, List.getElem_range]
    exact h.idxOf_getElem i (by simpa using hi)
  rw [← hidx, List.map_map]
  rfl

/-- The dictionary of the loop after the calls with the ids `ids`. -/
def mappingOf (turnId : Text) (ids : List Text) : List (Text × Text) :=
  ids.zipIdx.map fun p => (p.1, historyCallId turnId p.2)

theorem keys_mappingOf (turnId : Text) (ids : List Text) :
    (mappingOf turnId ids).map Prod.fst = ids := by
  simp [mappingOf, Function.comp_def]

theorem mappingOf_append (turnId : Text) (ids : List Text) (id : Text) :
    mappingOf turnId ids ++ [(id, historyCallId turnId (mappingOf turnId ids).length)] =
      mappingOf turnId (ids ++ [id]) := by
  simp [mappingOf, List.zipIdx_append]

theorem find_mappingOf {entry : Text × Text} (hnodup : ids.Nodup)
    (h : Table.find Prod.fst (mappingOf turnId ids) id = some entry) :
    id ∈ ids ∧ entry.2 = callName turnId ids id := by
  have hkey := Table.key_of_find h
  obtain ⟨⟨k, i⟩, hmem, rfl⟩ := List.mem_map.mp (Table.mem_of_find h)
  obtain rfl : k = id := hkey
  obtain ⟨-, hi, hk⟩ := List.mem_zipIdx hmem
  have hi' : i < ids.length := by omega
  have hk' : k = ids[i] := hk
  refine ⟨hk' ▸ List.getElem_mem hi', ?_⟩
  rw [callName, hk', hnodup.idxOf_getElem i hi']

/-- A later call does not change the name of an earlier one. -/
theorem callName_append (h : id ∈ ids) (rest : List Text) :
    callName turnId (ids ++ rest) id = callName turnId ids id := by
  rw [callName, callName, List.idxOf_append_of_mem h]

/-- **The calls of a message** are numbered after the ones before. -/
theorem renameCalls_eq_ok {calls renamed : List (ModelToolCall JsonObject)}
    {mapping : List (Text × Text)} (hnodup : ids.Nodup)
    (h : renameCalls turnId (mappingOf turnId ids) calls = .ok (renamed, mapping)) :
    let all := ids ++ calls.filterMap ModelToolCall.providerToolCallId
    all.Nodup ∧ mapping = mappingOf turnId all ∧
      renamed = calls.map (renameCall (callName turnId all)) := by
  induction calls generalizing ids renamed with
  | nil =>
    obtain ⟨rfl, rfl⟩ := ok_pair_inj h
    simpa using hnodup
  | cons call calls ih =>
    cases hid : call.providerToolCallId with
    | none => simp [renameCalls, hid] at h
    | some id =>
      simp only [renameCalls, hid, bind_eq_ok, raiseIf_eq_ok, exists_const, keys_mappingOf,
        mappingOf_append] at h
      obtain ⟨hnew, ⟨tail, mapping'⟩, htail, hout⟩ := h
      obtain ⟨rfl, rfl⟩ := ok_pair_inj hout
      have hnodup' : (ids ++ [id]).Nodup := by
        simpa [List.nodup_append, hnodup] using fun a ha (hai : a = id) => hnew (hai ▸ ha)
      obtain ⟨hall, hmapping, hrenamed⟩ := ih hnodup' htail
      have hlist : ids ++ [id] ++ calls.filterMap ModelToolCall.providerToolCallId =
          ids ++ (call :: calls).filterMap ModelToolCall.providerToolCallId := by
        simp [hid]
      rw [hlist] at hall hmapping hrenamed
      refine ⟨hall, hmapping, ?_⟩
      rw [List.map_cons, ← hrenamed]
      have hname : historyCallId turnId (mappingOf turnId ids).length =
          callName turnId (ids ++ (call :: calls).filterMap ModelToolCall.providerToolCallId) id := by
        rw [← hlist, callName_append (by simp), callName, List.idxOf_append_of_notMem hnew]
        simp [mappingOf]
      simp [renameCall, hid, hname]

/-- Only messages of other roles have tool calls. -/
def ResultsPlain (messages : List Message) : Prop :=
  ∀ m ∈ messages, m.role = .tool → m.toolCalls = []

theorem toolCallId_eq_none {m : Message} (h : m.role ≠ .tool) : m.toolCallId = none := by
  have hfits := m.fits
  cases hrole : m.role with
  | tool => exact absurd hrole h
  | system => simpa [fitsRole, hrole] using hfits
  | user => simpa [fitsRole, hrole] using hfits
  | assistant => simpa [fitsRole, hrole] using hfits

theorem withToolCallId_eq_ok {m renamed : Message} (h : withToolCallId m id = .ok renamed) :
    renamed.role = m.role ∧ renamed.content = m.content ∧ renamed.name = m.name ∧
      renamed.toolCallId = some id ∧ renamed.toolCalls = m.toolCalls := by
  unfold withToolCallId at h
  split at h
  · next hnew =>
    obtain rfl := Except.ok.inj h
    exact new_eq_ok.mp hnew
  · simp at h

/-- **The messages of a turn** after the calls with the ids `ids`. -/
theorem renameMessages_eq_ok (hnodup : ids.Nodup) (hplain : ResultsPlain messages)
    (h : renameMessages turnId (mappingOf turnId ids) messages = .ok renamed) :
    let all := ids ++ callIds messages
    all.Nodup ∧ (∀ m ∈ messages, ∀ id ∈ m.toolCallId, id ∈ all) ∧
      List.Forall₂ (Renames (callName turnId all)) messages renamed := by
  induction messages generalizing ids renamed with
  | nil =>
    obtain rfl := Except.ok.inj h
    simpa using hnodup
  | cons m messages ih =>
    have hplain' : ResultsPlain messages := fun m hm => hplain m (List.mem_cons_of_mem _ hm)
    unfold renameMessages at h
    split_ifs at h with hcalls hrole
    · obtain ⟨⟨calls, mapping⟩, hrename, h⟩ := bind_eq_ok.mp h
      obtain ⟨rest, hrest, h⟩ := bind_eq_ok.mp h
      obtain rfl := Except.ok.inj h
      obtain ⟨hall, rfl, rfl⟩ := renameCalls_eq_ok hnodup hrename
      obtain ⟨hall', hresults, hrenamed⟩ := ih hall hplain' hrest
      have hlist : ids ++ m.toolCalls.filterMap ModelToolCall.providerToolCallId ++
          callIds messages = ids ++ callIds (m :: messages) := by simp
      rw [hlist] at hall' hresults hrenamed
      have hnone : m.toolCallId = none :=
        toolCallId_eq_none fun hrole => hcalls (hplain m List.mem_cons_self hrole)
      refine ⟨hall', List.forall_mem_cons.mpr ⟨by simp [hnone], hresults⟩, .cons ?_ hrenamed⟩
      refine ⟨rfl, rfl, rfl, by simp [hnone], List.map_congr_left fun c hc => ?_⟩
      -- The numbers of the calls stay when later calls are numbered.
      cases hid : c.providerToolCallId with
      | none => simp [renameCall, hid]
      | some id =>
        have hmem : id ∈ ids ++ m.toolCalls.filterMap ModelToolCall.providerToolCallId :=
          List.mem_append_right _ (List.mem_filterMap.mpr ⟨c, hc, hid⟩)
        rw [renameCall, renameCall, hid, Option.map_some, Option.map_some, ← hlist,
          callName_append hmem]
    · split at h
      · simp at h
      · next entry hfind =>
        obtain ⟨result, hresult, h⟩ := bind_eq_ok.mp h
        obtain ⟨rest, hrest, h⟩ := bind_eq_ok.mp h
        obtain rfl := Except.ok.inj h
        obtain ⟨id, hid, hfind⟩ := Option.bind_eq_some_iff.mp hfind
        obtain ⟨hmem, hname⟩ := find_mappingOf hnodup hfind
        obtain ⟨hall, hresults, hrenamed⟩ := ih hnodup hplain' hrest
        have hempty : m.toolCalls = [] := not_not.mp hcalls
        have hlist : ids ++ callIds (m :: messages) = ids ++ callIds messages := by simp [hempty]
        dsimp only
        rw [hlist]
        refine ⟨hall, List.forall_mem_cons.mpr ⟨?_, hresults⟩, .cons ?_ hrenamed⟩
        · intro id' hid'
          obtain rfl : id = id' := Option.some.inj (hid.symm.trans hid')
          exact List.mem_append_left _ hmem
        · have hnew := withToolCallId_eq_ok hresult
          refine ⟨hnew.1, hnew.2.1, hnew.2.2.1, ?_, by simp [hnew.2.2.2.2, hempty]⟩
          rw [hnew.2.2.2.1, hid, Option.map_some, callName_append hmem]
          exact congrArg some hname
    · obtain ⟨rest, hrest, h⟩ := bind_eq_ok.mp h
      obtain rfl := Except.ok.inj h
      obtain ⟨hall, hresults, hrenamed⟩ := ih hnodup hplain' hrest
      have hempty : m.toolCalls = [] := not_not.mp hcalls
      have hnone := toolCallId_eq_none hrole
      have hlist : ids ++ callIds (m :: messages) = ids ++ callIds messages := by simp [hempty]
      dsimp only
      rw [hlist]
      refine ⟨hall, List.forall_mem_cons.mpr ⟨by simp [hnone], hresults⟩, .cons ?_ hrenamed⟩
      exact ⟨rfl, rfl, rfl, by simp [hnone], by simp [hempty]⟩

/-- The ids of renamed messages. -/
theorem callIds_renamed {f : Text → Text} (h : List.Forall₂ (Renames f) messages renamed) :
    callIds renamed = (callIds messages).map f := by
  induction h with
  | nil => rfl
  | cons hm _ ih =>
    rw [callIds_cons, callIds_cons, ih, hm.toolCalls, List.map_append, List.filterMap_map]
    congr 1
    rw [List.map_filterMap]
    rfl

/-- **A turn is renamed alike**: its calls are numbered in order, and a result keeps to its call. -/
theorem namespaceToolIds_eq_ok (hplain : ResultsPlain messages)
    (h : namespaceToolIds turnId messages = .ok renamed) :
    (callIds messages).Nodup ∧ (∀ m ∈ messages, ∀ id ∈ m.toolCallId, id ∈ callIds messages) ∧
      List.Forall₂ (Renames (callName turnId (callIds messages))) messages renamed ∧
      callIds renamed = (List.range (callIds messages).length).map (historyCallId turnId) := by
  have hnil : ([] : List Text).Nodup := List.nodup_nil
  obtain ⟨hnodup, hresults, hrenamed⟩ := renameMessages_eq_ok hnil hplain h
  simp only [List.nil_append] at hnodup hresults hrenamed
  exact ⟨hnodup, hresults, hrenamed, (callIds_renamed hrenamed).trans (map_callName turnId hnodup)⟩

end AgentHub.History
