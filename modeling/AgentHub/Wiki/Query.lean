import AgentHub.Lib.Ascii
import AgentHub.Core.Canonical
import AgentHub.Wiki.Organize

/-!
# Conflicts that a query reports

A query checks the claims of a page against the chunks of the snapshot once more, and looks for
conflicts among the claims that pass: those that were marked, and those that answer one question
with different values.

The compiler compares values and conditions whatever their case. The query compares them as they
are written, so two claims whose values differ in case only are a conflict for the query alone.

## Main definitions

* `validateWikiClaims`: the evidence of pages
* `findConflicts`: the conflicts of evidence
* `Contested`, `CaseVariants`: what the compiler and the query go by

## Main results

* `findConflicts_ne_nil`: when a query reports a conflict
* `query_conflicts_agree_iff`: when it agrees with the compiler about a page
-/

namespace AgentHub.Wiki

open Lib Transcript Canonical

/-! ## Evidence -/

/-- A chunk of the snapshot that a query is bound to. -/
structure DocumentChunk where
  chunkId : Text
  documentId : Uuid
  documentRevisionId : Uuid
  text : Text
  locator : JsonObject

inductive EvidenceSource
  | wikiClaim | rawRetrieval
  deriving DecidableEq, Repr

/-- An item of evidence, without the identity of its publication and without scores. -/
structure QueryEvidence where
  source : EvidenceSource
  pageKey : Text
  topicKey : Text
  quote : Text
  chunkId : Text
  documentId : Text
  documentRevisionId : Text
  locator : JsonObject
  predicate : Option Text
  value : Json
  condition : Json
  conflict : Bool
  conflictPeers : List Text
  conflictOrigin : Option String

section Query

variable (tools : TextTools) (uuids : UuidReader) (chunks : List DocumentChunk)

/-- `_normalize`: runs of blanks become one, and the ends have none. -/
def normalize (text : Text) : Text := joinWords (tools.casefold text)

/-- The item of a claim that its chunk supports. -/
def evidenceOf (page : WikiPage) (claim : WikiClaim) (chunk : DocumentChunk) : QueryEvidence where
  source := .wikiClaim
  pageKey := page.pageKey
  topicKey := normalize tools page.title
  quote := claim.quote
  chunkId := chunk.chunkId
  documentId := chunk.documentId.text
  documentRevisionId := chunk.documentRevisionId.text
  locator := chunk.locator
  predicate := some claim.predicate
  value := .str claim.value
  condition := .str claim.condition
  conflict := claim.conflict
  conflictPeers := claim.conflictPeers
  conflictOrigin := claim.conflictOrigin.getD "BASIC_OR_MODEL"

/-- The evidence of one claim, where the snapshot still supports it. -/
def validateWikiClaim (page : WikiPage) (claim : WikiClaim) : Option QueryEvidence :=
  if isBlank claim.quote then none
  else do
    let claimedDocumentId ← uuids.read (.str claim.documentId)
    let claimedRevisionId ← uuids.read (.str claim.documentRevisionId)
    -- a later row of the same id replaces an earlier one
    let chunk ← Table.find DocumentChunk.chunkId chunks.reverse claim.chunkId
    if chunk.documentId ≠ claimedDocumentId ∨ chunk.documentRevisionId ≠ claimedRevisionId ∨
        ¬ claim.quote <:+: chunk.text then none
    else some (evidenceOf tools page claim chunk)

/-- `_validate_wiki_claims` -/
def validateWikiClaims (pages : List WikiPage) : List QueryEvidence :=
  pages.flatMap fun page => page.claims.filterMap (validateWikiClaim tools uuids chunks page)

/-- `_normalized_value`, of values that can be written. -/
def normalizedValue (value : Json) : Text := canonicalJson value

/-- The topic, the predicate whatever its case, and the condition. -/
def groupKey (item : QueryEvidence) : Text × Text × Text :=
  (item.topicKey, tools.casefold (item.predicate.getD []), normalizedValue item.condition)

/-- Only claims of pages with a predicate are grouped. -/
def isGrouped (item : QueryEvidence) : Bool :=
  item.source = .wikiClaim && item.predicate.isSome

/-- The groups whose members have different values. -/
def conflictingKeys (evidence : List QueryEvidence) : List (Text × Text × Text) :=
  ((groupsOf (groupKey tools) (evidence.filter isGrouped)).filter fun group =>
    1 < (group.members.map fun item => normalizedValue item.value).dedup.length).map Group.key

/-- The claims that were marked, and those of groups with different values. -/
def isConflicting (evidence : List QueryEvidence) (item : QueryEvidence) : Bool :=
  (item.source = .wikiClaim && item.conflict) ||
    (isGrouped item && groupKey tools item ∈ conflictingKeys tools evidence)

/-- What makes two reported items the same. -/
def reportKey (item : QueryEvidence) : Text × Text × Text :=
  (item.chunkId, item.quote, normalizedValue item.value)

/-- `_find_conflicts`: the evidence with its marks, and what is reported. -/
def findConflicts (evidence : List QueryEvidence) : List QueryEvidence × List QueryEvidence :=
  let marked (item : QueryEvidence) : QueryEvidence := { item with conflict := true }
  (evidence.map fun item => if isConflicting tools evidence item then marked item else item,
    firstsFrom reportKey [] ((evidence.filter (isConflicting tools evidence)).map marked))

end Query

/-! ## What a query reports -/

section Reports

variable {tools : TextTools} {uuids : UuidReader} {chunks : List DocumentChunk}

theorem normalizedValue_str {s t : Text} :
    normalizedValue (.str s) = normalizedValue (.str t) ↔ s = t := by
  refine ⟨fun h => ?_, fun h => h ▸ rfl⟩
  exact Json.str.inj (sorted_eq_of_canonicalJson (readable_str s) (readable_str t) h)

variable {evidence : List QueryEvidence}

theorem mem_conflictingKeys {key : Text × Text × Text} :
    key ∈ conflictingKeys tools evidence ↔
      ∃ a ∈ evidence, ∃ b ∈ evidence, isGrouped a = true ∧ isGrouped b = true ∧
        groupKey tools a = key ∧ groupKey tools b = key ∧
        normalizedValue a.value ≠ normalizedValue b.value := by
  have hmembers {group : Group (Text × Text × Text) QueryEvidence}
      (hgroup : group ∈ groupsOf (groupKey tools) (evidence.filter isGrouped))
      (item : QueryEvidence) : item ∈ group.members ↔
        item ∈ evidence ∧ isGrouped item = true ∧ groupKey tools item = group.key := by
    rw [members_groupsOf hgroup, List.mem_filter, List.mem_filter, decide_eq_true_eq, and_assoc]
  simp only [conflictingKeys, one_lt_length_dedup, List.mem_map, List.mem_filter,
    decide_eq_true_eq]
  constructor
  · rintro ⟨group, ⟨hgroup, -, ⟨a, ha, rfl⟩, -, ⟨b, hb, rfl⟩, hne⟩, rfl⟩
    obtain ⟨ha, hagrouped, hakey⟩ := (hmembers hgroup a).mp ha
    obtain ⟨hb, hbgrouped, hbkey⟩ := (hmembers hgroup b).mp hb
    exact ⟨a, ha, b, hb, hagrouped, hbgrouped, hakey, hbkey, hne⟩
  · rintro ⟨a, ha, b, hb, hagrouped, hbgrouped, rfl, hbkey, hne⟩
    have hgrouped : a ∈ evidence.filter isGrouped := List.mem_filter.mpr ⟨ha, hagrouped⟩
    have hkeys : groupKey tools a ∈
        (groupsOf (groupKey tools) (evidence.filter isGrouped)).map Group.key :=
      mem_keys_groupsOf.mpr ⟨a, hgrouped, rfl⟩
    obtain ⟨group, hgroup, hkey⟩ := List.mem_map.mp hkeys
    exact ⟨group, ⟨hgroup, _, ⟨a, (hmembers hgroup a).mpr ⟨ha, hagrouped, hkey.symm⟩, rfl⟩, _,
      ⟨b, (hmembers hgroup b).mpr ⟨hb, hbgrouped, hbkey.trans hkey.symm⟩, rfl⟩, hne⟩, hkey⟩

/-- **When a query reports a conflict**: no conflicting item is lost with the repetitions. -/
theorem findConflicts_ne_nil :
    (findConflicts tools evidence).2 ≠ [] ↔
      ∃ item ∈ evidence, isConflicting tools evidence item = true := by
  constructor
  · intro h
    obtain ⟨item, hitem⟩ := List.exists_mem_of_ne_nil _ h
    obtain ⟨origin, horigin, -⟩ := List.mem_map.mp (mem_firstsFrom.mp hitem).2.mem
    exact ⟨origin, List.mem_filter.mp horigin⟩
  · rintro ⟨item, hitem⟩
    obtain ⟨first, hfirst, -⟩ := exists_isFirst reportKey
      (List.mem_map_of_mem (f := fun item : QueryEvidence => { item with conflict := true })
        (List.mem_filter.mpr hitem))
    exact List.ne_nil_of_mem (mem_firstsFrom.mpr ⟨List.not_mem_nil, hfirst⟩)

/-- What the evidence of a claim takes from it. -/
structure Carries (tools : TextTools) (page : WikiPage) (claim : WikiClaim)
    (item : QueryEvidence) : Prop where
  source : item.source = .wikiClaim
  topicKey : item.topicKey = normalize tools page.title
  predicate : item.predicate = some claim.predicate
  value : item.value = .str claim.value
  condition : item.condition = .str claim.condition
  conflict : item.conflict = claim.conflict

theorem carries_of_validateWikiClaim {page : WikiPage} {claim : WikiClaim} {item : QueryEvidence}
    (h : validateWikiClaim tools uuids chunks page claim = some item) :
    Carries tools page claim item := by
  rw [validateWikiClaim, Option.ite_none_left_eq_some] at h
  simp only [Option.bind_eq_bind, Option.bind_eq_some_iff, Option.ite_none_left_eq_some,
    Option.some.injEq] at h
  obtain ⟨-, -, -, -, -, chunk, -, -, rfl⟩ := h
  exact ⟨rfl, rfl, rfl, rfl, rfl, rfl⟩

namespace Carries

variable {page : WikiPage} {c d : WikiClaim} {a b : QueryEvidence}

theorem isGrouped (h : Carries tools page c a) : isGrouped a = true := by
  simp [Wiki.isGrouped, h.source, h.predicate]

theorem groupKey_eq_iff (ha : Carries tools page c a) (hb : Carries tools page d b) :
    groupKey tools a = groupKey tools b ↔
      tools.casefold c.predicate = tools.casefold d.predicate ∧ c.condition = d.condition := by
  simp [groupKey, ha.topicKey, hb.topicKey, ha.predicate, hb.predicate, ha.condition,
    hb.condition, normalizedValue_str]

theorem normalizedValue_eq_iff (ha : Carries tools page c a) (hb : Carries tools page d b) :
    normalizedValue a.value = normalizedValue b.value ↔ c.value = d.value := by
  rw [ha.value, hb.value, normalizedValue_str]

end Carries

/-- Two claims answer one question, as a query reads it, with different values. -/
def QueryDisputed (tools : TextTools) (c d : WikiClaim) : Prop :=
  tools.casefold c.predicate = tools.casefold d.predicate ∧ c.condition = d.condition ∧
    c.value ≠ d.value

/-- **What a query reports of a page** whose claims all pass. -/
theorem reports_iff {page : WikiPage}
    (haccepted : ∀ c ∈ page.claims, (validateWikiClaim tools uuids chunks page c).isSome) :
    (findConflicts tools (validateWikiClaims tools uuids chunks [page])).2 ≠ [] ↔
      (∃ c ∈ page.claims, c.conflict = true) ∨
        ∃ c ∈ page.claims, ∃ d ∈ page.claims, QueryDisputed tools c d := by
  have hmem {item : QueryEvidence} : item ∈ validateWikiClaims tools uuids chunks [page] ↔
      ∃ c ∈ page.claims, validateWikiClaim tools uuids chunks page c = some item := by
    simp [validateWikiClaims]
  have hitem {c : WikiClaim} (hc : c ∈ page.claims) :
      ∃ item ∈ validateWikiClaims tools uuids chunks [page], Carries tools page c item := by
    obtain ⟨item, hitem⟩ := Option.isSome_iff_exists.mp (haccepted c hc)
    exact ⟨item, hmem.mpr ⟨c, hc, hitem⟩, carries_of_validateWikiClaim hitem⟩
  have hclaim {item : QueryEvidence} (h : item ∈ validateWikiClaims tools uuids chunks [page]) :
      ∃ c ∈ page.claims, Carries tools page c item := by
    obtain ⟨c, hc, hitem⟩ := hmem.mp h
    exact ⟨c, hc, carries_of_validateWikiClaim hitem⟩
  rw [findConflicts_ne_nil]
  constructor
  · rintro ⟨item, hmem, hconflicting⟩
    rcases Bool.or_eq_true _ _ |>.mp hconflicting with hmarked | hgroup
    · obtain ⟨c, hc, hcarries⟩ := hclaim hmem
      exact .inl ⟨c, hc, hcarries.conflict ▸ (Bool.and_eq_true _ _ |>.mp hmarked).2⟩
    · have hkey := of_decide_eq_true (Bool.and_eq_true _ _ |>.mp hgroup).2
      obtain ⟨a, ha, b, hb, -, -, hakey, hbkey, hne⟩ := mem_conflictingKeys.mp hkey
      obtain ⟨c, hc, hac⟩ := hclaim ha
      obtain ⟨d, hd, hbd⟩ := hclaim hb
      have hsame := (hac.groupKey_eq_iff hbd).mp (hakey.trans hbkey.symm)
      exact .inr ⟨c, hc, d, hd, hsame.1, hsame.2, mt (hac.normalizedValue_eq_iff hbd).mpr hne⟩
  · rintro (⟨c, hc, hconflict⟩ | ⟨c, hc, d, hd, hpredicate, hcondition, hvalue⟩)
    · obtain ⟨item, hmem, hcarries⟩ := hitem hc
      exact ⟨item, hmem, by simp [isConflicting, hcarries.source, hcarries.conflict, hconflict]⟩
    · obtain ⟨a, ha, hac⟩ := hitem hc
      obtain ⟨b, hb, hbd⟩ := hitem hd
      have hkey : groupKey tools a ∈ conflictingKeys tools
          (validateWikiClaims tools uuids chunks [page]) :=
        mem_conflictingKeys.mpr ⟨a, ha, b, hb, hac.isGrouped, hbd.isGrouped, rfl,
          ((hac.groupKey_eq_iff hbd).mpr ⟨hpredicate, hcondition⟩).symm,
          mt (hac.normalizedValue_eq_iff hbd).mp hvalue⟩
      exact ⟨a, ha, by simp [isConflicting, hac.isGrouped, hkey]⟩

end Reports

/-! ## Agreement with the compiler -/

section Agreement

variable (tools : TextTools) (claims : List WikiClaim) (key : Text)

/-- Of the claims that the page keeps, one was marked or is disputed whatever the case. -/
def Contested : Prop :=
  ∃ c, Kept tools claims c ∧ c.page tools = key ∧
    (c.conflict = true ∨ Disputed tools claims c)

/-- The page keeps two claims with one question whose values differ in case only. -/
def CaseVariants : Prop :=
  ∃ c d, Kept tools claims c ∧ Kept tools claims d ∧ c.page tools = key ∧ d.page tools = key ∧
    QueryDisputed tools c d ∧ tools.casefold c.value = tools.casefold d.value

variable {tools claims key}

theorem marked_iff_contested {page : WikiPage} (h : page ∈ organize tools claims) :
    (∃ c ∈ page.claims, c.conflict = true) ↔ Contested tools claims page.pageKey := by
  rw [claims_of_mem_organize h, Contested]
  simp only [pageClaims, List.mem_map, exists_exists_and_eq_and, Bool.or_eq_true,
    decide_eq_true_eq]
  constructor
  · rintro ⟨c, hc, hmarked⟩
    rw [one_lt_valuesFor hc] at hmarked
    exact ⟨c, (mem_uniqueClaims.mp hc).2, (mem_uniqueClaims.mp hc).1, hmarked⟩
  · rintro ⟨c, hkept, hpage, hmarked⟩
    have hc := mem_uniqueClaims.mpr ⟨hpage, hkept⟩
    exact ⟨c, hc, by rwa [one_lt_valuesFor hc]⟩

theorem queryDisputed_iff {page : WikiPage} (h : page ∈ organize tools claims) :
    (∃ c ∈ page.claims, ∃ d ∈ page.claims, QueryDisputed tools c d) ↔
      ∃ c d, Kept tools claims c ∧ Kept tools claims d ∧ c.page tools = page.pageKey ∧
        d.page tools = page.pageKey ∧ QueryDisputed tools c d := by
  rw [claims_of_mem_organize h]
  simp only [pageClaims, List.mem_map, exists_exists_and_eq_and, mem_uniqueClaims]
  constructor
  · rintro ⟨c, ⟨hcpage, hckept⟩, d, ⟨hdpage, hdkept⟩, hdisputed⟩
    exact ⟨c, d, hckept, hdkept, hcpage, hdpage, hdisputed⟩
  · rintro ⟨c, d, hckept, hdkept, hcpage, hdpage, hdisputed⟩
    exact ⟨c, ⟨hcpage, hckept⟩, d, ⟨hdpage, hdkept⟩, hdisputed⟩

/-- **A query agrees with the compiler** about a page, unless the page is not contested and keeps
claims whose values differ in case only. -/
theorem query_conflicts_agree_iff (tools : TextTools) (uuids : UuidReader)
    (chunks : List DocumentChunk) (claims : List WikiClaim) {page : WikiPage}
    (hpage : page ∈ organize tools claims)
    (haccepted : ∀ c ∈ page.claims, (validateWikiClaim tools uuids chunks page c).isSome) :
    ((findConflicts tools (validateWikiClaims tools uuids chunks [page])).2 ≠ [] ↔
      ∃ c ∈ page.claims, c.conflict = true) ↔
    Contested tools claims page.pageKey ∨ ¬ CaseVariants tools claims page.pageKey := by
  rw [reports_iff haccepted, marked_iff_contested hpage, queryDisputed_iff hpage]
  constructor
  · intro hagree
    by_contra hnot
    obtain ⟨hcontested, hvariants⟩ := not_or.mp hnot
    obtain ⟨c, d, hc, hd, hcpage, hdpage, hdisputed, -⟩ := not_not.mp hvariants
    exact hcontested (hagree.mp (.inr ⟨c, d, hc, hd, hcpage, hdpage, hdisputed⟩))
  · intro hcond
    refine ⟨?_, Or.inl⟩
    rintro (hcontested | ⟨c, d, hc, hd, hcpage, hdpage, hdisputed⟩)
    · exact hcontested
    · rcases hcond with hcontested | hvariants
      · exact hcontested
      -- values that differ in more than their case are disputed for the compiler too
      · by_cases hcase : tools.casefold c.value = tools.casefold d.value
        · exact absurd ⟨c, d, hc, hd, hcpage, hdpage, hdisputed, hcase⟩ hvariants
        · refine ⟨d, hd, hdpage, .inr ⟨c, hc, ⟨hcpage.trans hdpage.symm, ?_⟩, hcase⟩⟩
          exact Prod.ext hdisputed.1 (congrArg tools.casefold hdisputed.2.1)

end Agreement

/-! ## Two ways to write a period -/

/-- Case folding of ASCII texts, and a digest for texts about one topic. -/
def asciiTools : TextTools where
  casefold := Ascii.lower
  sha256 := zeroDigest

/-- A claim of the first chunk and one of the second. -/
def twoValues (first second : String) : List WikiClaim :=
  [(first, "c1"), (second, "c2")].map fun (value, chunkId) =>
    unmarked { retentionClaim value chunkId value [] with
      documentId := Uuid.text 1
      documentRevisionId := Uuid.text 2 }

/-- The chunks that say so. -/
def twoChunks (first second : String) : List DocumentChunk :=
  [(first, "c1"), (second, "c2")].map fun (text, chunkId) =>
    ⟨Text.ofString chunkId, 1, 2, Text.ofString text, []⟩

/-- Two claims with the same period, one in upper case: the page has no conflict, the query reports
one. -/
theorem case_variant_reported :
    ∃ page ∈ organize asciiTools (twoValues "30 Days" "30 days"),
      (∀ c ∈ page.claims, (validateWikiClaim asciiTools canonicalUuids
        (twoChunks "30 Days" "30 days") page c).isSome) ∧
      (findConflicts asciiTools (validateWikiClaims asciiTools canonicalUuids
        (twoChunks "30 Days" "30 days") [page])).2 ≠ [] ∧
      ¬ ∃ c ∈ page.claims, c.conflict = true := by
  decide +kernel

/-- Two periods. -/
theorem query_conflicts_agree_periods :
    ∃ page ∈ organize asciiTools (twoValues "30 days" "60 days"),
      ((findConflicts asciiTools (validateWikiClaims asciiTools canonicalUuids
        (twoChunks "30 days" "60 days") [page])).2 ≠ [] ↔
        ∃ c ∈ page.claims, c.conflict = true) ↔
      Contested asciiTools (twoValues "30 days" "60 days") page.pageKey ∨
        ¬ CaseVariants asciiTools (twoValues "30 days" "60 days") page.pageKey := by
  have haccepted : ∃ page ∈ organize asciiTools (twoValues "30 days" "60 days"),
      ∀ c ∈ page.claims, (validateWikiClaim asciiTools canonicalUuids
        (twoChunks "30 days" "60 days") page c).isSome := by decide +kernel
  obtain ⟨page, hpage, haccepted⟩ := haccepted
  exact ⟨page, hpage, query_conflicts_agree_iff _ _ _ _ hpage haccepted⟩

end AgentHub.Wiki
