import AgentHub.Wiki.Organize

/-!
# Checking compiled pages

The pages of a compilation are stored with a digest of them. A check reads them back and reports
links to pages that do not exist, pages without claims, claims that their chunk does not support,
and pages that do not have the digest. None of this is found in pages as they are compiled.

## Main definitions

* `publicationHash`: the digest of the pages
* `lint`: the issues of stored pages
* `Supported`: what a chunk says of a claim

## Main results

* `lintCode_of_mem_lint`: what each issue says of the pages
* `pageRows_eq`: stored pages are read back in the order in which they were compiled
* `compiled_pages_lint_clean`: compiled pages have no errors, and their relations are sound
-/

namespace AgentHub.Wiki

open Lib Transcript Canonical

/-! ## Stored pages -/

/-- A claim as it is stored, without marks that were never set. -/
def WikiClaim.toJson (claim : WikiClaim) : Json :=
  .obj (named ([("topic", .str claim.topic), ("kind", .str claim.kind.text),
    ("predicate", .str claim.predicate), ("value", .str claim.value),
    ("condition", .str claim.condition), ("chunk_id", .str claim.chunkId),
    ("quote", .str claim.quote), ("document_id", .str claim.documentId),
    ("document_revision_id", .str claim.documentRevisionId), ("locator", claim.locator.toJson),
    ("conflict", .bool claim.conflict)] ++
    (if claim.conflictPeers = [] then []
      else [("conflict_peers", .arr (claim.conflictPeers.map .str))]) ++
    claim.conflictOrigin.toList.map fun origin => ("conflict_origin", .str (Text.ofString origin))))

def WikiPage.toJson (page : WikiPage) : Json :=
  .obj (named [("page_key", .str page.pageKey), ("title", .str page.title),
    ("kind", .str page.kind.text), ("markdown", .str page.markdown),
    ("claims", .arr (page.claims.map WikiClaim.toJson)),
    ("relations", .arr (page.relations.map .str))])

/-- `publication_hash` -/
def publicationHash (sha256 : Sha256) (identityHash : Text) (pages : List WikiPage) : Text :=
  canonicalJsonHash sha256 (.obj (named [("schema_version", .int 1),
    ("identity_hash", .str identityHash), ("pages", .arr (pages.map WikiPage.toJson))]))

/-- A compilation, which has a digest once its pages are stored. -/
structure WikiCompilation where
  identityHash : Text
  contentHash : Option Text

/-- The compilation after `execute_job` stored the pages. -/
def installed (sha256 : Sha256) (identityHash : Text) (pages : List WikiPage) : WikiCompilation :=
  ⟨identityHash, some (publicationHash sha256 identityHash pages)⟩

/-- `_page_rows`: the stored pages in the order of their keys. -/
def pageRows (stored : List WikiPage) : List WikiPage :=
  sortBy (fun page => page.pageKey.codes) stored

/-! ## The check -/

inductive LintCode
  /-- The code of the error that reading the sources raised. -/
  | sources (code : String)
  | brokenLink | noSource | invalidSource | duplicateClaim | possibleConflict
  | contentHashMismatch
  deriving DecidableEq

inductive Severity
  | error | warning
  deriving DecidableEq, Repr

structure LintIssue where
  code : LintCode
  pageKey : Option Text := none
  severity : Severity

section Lint

variable (chunks : List SourceChunk)

/-- The claim is no longer what its chunk says. -/
def lostSource (claim : SourcedClaim) : Bool :=
  match Table.find SourceChunk.chunkId chunks.reverse claim.chunkId with
  | none => true
  | some source =>
    !(decide (claim.quote <:+: source.text)) || claim.documentId ≠ source.documentId ||
      claim.documentRevisionId ≠ source.documentRevisionId ||
      !claim.locator.toJson.equal source.locator.toJson

/-- The issues of the claims of a page, and the claims seen so far. -/
def lintClaims (key : Text) (seen : List (Text × Text × Text)) :
    List WikiClaim → List LintIssue × List (Text × Text × Text)
  | [] => ([], seen)
  | claim :: claims =>
    let identity := (key, claim.chunkId, claim.quote)
    let invalid := if lostSource chunks claim.toSourcedClaim then
      [⟨.invalidSource, some key, .error⟩] else []
    let duplicate := if identity ∈ seen then [⟨.duplicateClaim, some key, .warning⟩] else []
    let conflict := if claim.conflict then [⟨.possibleConflict, some key, .warning⟩] else []
    let rest := lintClaims key (identity :: seen) claims
    (invalid ++ duplicate ++ conflict ++ rest.1, rest.2)

/-- The issues of pages, where the links may name any of the keys. -/
def lintPages (keys : List Text) (seen : List (Text × Text × Text)) :
    List WikiPage → List LintIssue
  | [] => []
  | page :: pages =>
    let broken := (page.relations.filter fun link => link ∉ keys).map fun _ =>
      ⟨.brokenLink, some page.pageKey, .error⟩
    let bare := if page.claims = [] then [⟨.noSource, some page.pageKey, .error⟩] else []
    let claims := lintClaims chunks page.pageKey seen page.claims
    broken ++ bare ++ claims.1 ++ lintPages keys claims.2 pages

/-- What is reported of the stored pages. -/
def lintStored (sha256 : Sha256) (row : WikiCompilation) (stored : List WikiPage) :
    List LintIssue :=
  let pages := pageRows stored
  lintPages chunks (pages.map WikiPage.pageKey) [] pages ++
    if row.contentHash.any fun hash => publicationHash sha256 row.identityHash pages ≠ hash then
      [⟨.contentHashMismatch, none, .error⟩] else []

/-- `lint`, by the error that the current sources raise, if any. Sources that are only stale do not
end the check. -/
def lint (sha256 : Sha256) (sourcesError : Option String) (row : WikiCompilation)
    (stored : List WikiPage) : List LintIssue :=
  match sourcesError with
  | none => lintStored chunks sha256 row stored
  | some code =>
    ⟨.sources code, none, .error⟩ ::
      if code = "WIKI_STALE" then lintStored chunks sha256 row stored else []

end Lint

/-! ## What an issue says -/

section Issues

variable {chunks : List SourceChunk} {issue : LintIssue}

/-- The pages that an issue is about. -/
def Reports (chunks : List SourceChunk) (keys : List Text) (pages : List WikiPage) :
    LintCode → Prop
  | .brokenLink => ∃ page ∈ pages, ∃ link ∈ page.relations, link ∉ keys
  | .noSource => ∃ page ∈ pages, page.claims = []
  | .invalidSource => ∃ page ∈ pages, ∃ claim ∈ page.claims,
      lostSource chunks claim.toSourcedClaim = true
  | .contentHashMismatch => False
  | .sources _ | .duplicateClaim | .possibleConflict => True

variable {seen : List (Text × Text × Text)}

theorem code_of_mem_lintClaims {key : Text} {claims : List WikiClaim}
    (h : issue ∈ (lintClaims chunks key seen claims).1) :
    issue.code = .duplicateClaim ∨ issue.code = .possibleConflict ∨
      issue.code = .invalidSource ∧ ∃ claim ∈ claims,
        lostSource chunks claim.toSourcedClaim = true := by
  induction claims generalizing seen with
  | nil => cases h
  | cons claim claims ih =>
    simp only [lintClaims, List.mem_append, List.mem_ite_nil_right, List.mem_singleton] at h
    rcases h with ((⟨hlost, rfl⟩ | ⟨-, rfl⟩) | ⟨-, rfl⟩) | hrest
    · exact .inr (.inr ⟨rfl, claim, List.mem_cons_self, hlost⟩)
    · exact .inl rfl
    · exact .inr (.inl rfl)
    · refine (ih hrest).imp_right (Or.imp_right fun ⟨hcode, c, hc, hlost⟩ => ?_)
      exact ⟨hcode, c, List.mem_cons_of_mem _ hc, hlost⟩

theorem Reports.cons {keys : List Text} {page : WikiPage} {pages : List WikiPage}
    {code : LintCode} (h : Reports chunks keys pages code) :
    Reports chunks keys (page :: pages) code := by
  cases code <;> simp only [Reports] at h ⊢
  all_goals
    obtain ⟨p, hp, h⟩ := h
    exact ⟨p, List.mem_cons_of_mem _ hp, h⟩

theorem reports_of_mem_lintPages {keys : List Text} {pages : List WikiPage}
    (h : issue ∈ lintPages chunks keys seen pages) : Reports chunks keys pages issue.code := by
  induction pages generalizing seen with
  | nil => cases h
  | cons page pages ih =>
    simp only [lintPages, List.mem_append, List.mem_ite_nil_right, List.mem_singleton,
      List.mem_map, List.mem_filter, decide_eq_true_eq] at h
    rcases h with ((⟨link, ⟨hlink, hkeys⟩, rfl⟩ | ⟨hbare, rfl⟩) | hclaims) | hrest
    · exact ⟨page, List.mem_cons_self, link, hlink, hkeys⟩
    · exact ⟨page, List.mem_cons_self, hbare⟩
    · rcases code_of_mem_lintClaims hclaims with hcode | hcode | ⟨hcode, claim, hclaim, hlost⟩
      · simp [hcode, Reports]
      · simp [hcode, Reports]
      · rw [hcode]
        exact ⟨page, List.mem_cons_self, claim, hclaim, hlost⟩
    · exact (ih hrest).cons

/-- **What an issue says of the stored pages.** -/
theorem lintCode_of_mem_lint {sha256 : Sha256} {sourcesError : Option String}
    {row : WikiCompilation} {stored : List WikiPage}
    (h : issue ∈ lint chunks sha256 sourcesError row stored) :
    Reports chunks ((pageRows stored).map WikiPage.pageKey) (pageRows stored) issue.code ∨
      issue.code = .contentHashMismatch ∧ ∃ hash ∈ row.contentHash,
        publicationHash sha256 row.identityHash (pageRows stored) ≠ hash := by
  have hstored (h : issue ∈ lintStored chunks sha256 row stored) :
      Reports chunks ((pageRows stored).map WikiPage.pageKey) (pageRows stored) issue.code ∨
        issue.code = .contentHashMismatch ∧ ∃ hash ∈ row.contentHash,
          publicationHash sha256 row.identityHash (pageRows stored) ≠ hash := by
    simp only [lintStored, List.mem_append, List.mem_ite_nil_right, List.mem_singleton,
      Option.any_eq_true_iff_get, decide_eq_true_eq] at h
    rcases h with hpages | ⟨⟨hsome, hne⟩, rfl⟩
    · exact .inl (reports_of_mem_lintPages hpages)
    · exact .inr ⟨rfl, _, Option.get_mem hsome, hne⟩
  cases sourcesError with
  | none => exact hstored h
  | some code =>
    rw [lint, List.mem_cons, List.mem_ite_nil_right] at h
    rcases h with rfl | ⟨-, h⟩
    · exact .inl trivial
    · exact hstored h

end Issues

/-! ## Claims and their chunks -/

section Support

variable {chunks : List SourceChunk}

/-- A locator as a JSON column holds it: keys are distinct, and numbers are equal to themselves. -/
def Locator.Stored (locator : Locator) : Prop :=
  locator.toJson.allAt Json.distinctKeys 0 ∧ locator.toJson.allAt Json.notNan 0

/-- **The chunk of a claim supports it**: it has the quotation, and the claim its source. -/
def Supported (chunks : List SourceChunk) (claim : SourcedClaim) : Prop :=
  ∃ source, Table.find SourceChunk.chunkId chunks.reverse claim.chunkId = some source ∧
    claim.quote <:+: source.text ∧ claim.documentId = source.documentId ∧
    claim.documentRevisionId = source.documentRevisionId ∧ claim.locator = source.locator

theorem supported_of_sourcedClaim {proposal : ClaimProposal} {claim : SourcedClaim}
    (h : sourcedClaim chunks proposal = .ok claim) : Supported chunks claim := by
  rw [sourcedClaim] at h
  split at h
  · cases h
  · next source hfind =>
    simp only [bind_eq_ok, raiseIf_eq_ok, exists_const, Except.ok.injEq, not_or, not_not] at h
    obtain ⟨⟨-, hquote⟩, -, rfl⟩ := h
    exact ⟨source, hfind, hquote, rfl, rfl, rfl⟩

theorem supported_of_validateExtraction {payload : Json} {claims : List SourcedClaim}
    (h : validateExtraction payload chunks = .ok claims) :
    ∀ claim ∈ claims, Supported chunks claim := by
  intro claim hclaim
  obtain ⟨parsed, -, hparsed⟩ := bind_eq_ok.mp h
  obtain ⟨proposal, -, hproposal⟩ := exists_of_mem_mapM hparsed hclaim
  exact supported_of_sourcedClaim hproposal

theorem lostSource_eq_false (hstored : ∀ chunk ∈ chunks, chunk.locator.Stored)
    {claim : SourcedClaim} (h : Supported chunks claim) : lostSource chunks claim = false := by
  obtain ⟨source, hfind, hquote, hdocument, hrevision, hlocator⟩ := h
  have hchunk := hstored source (List.mem_reverse.mp (Table.mem_of_find hfind))
  simp [lostSource, hfind, hquote, hdocument, hrevision, hlocator,
    Json.equal_self hchunk.1 hchunk.2]

end Support

/-! ## Marks -/

section Marks

variable {P : SourcedClaim → Prop} {claims marked : List WikiClaim}

/-- All claims, without their marks, have a property. -/
def Holds (P : SourcedClaim → Prop) (claims : List WikiClaim) : Prop :=
  ∀ claim ∈ claims, P claim.toSourcedClaim

theorem holds_applyReviewGroup {group : List ℤ}
    (h : applyReviewGroup claims group = .ok marked) (hP : Holds P claims) : Holds P marked := by
  simp only [applyReviewGroup, bind_eq_ok, raiseIf_eq_ok, exists_const, Except.ok.injEq] at h
  obtain ⟨-, rfl⟩ := h
  intro claim hclaim
  obtain ⟨p, hp, rfl⟩ := List.mem_map.mp hclaim
  obtain ⟨q, hq, rfl⟩ := List.mem_map.mp hp
  have horigin := hP q.1 (List.fst_mem_of_mem_zipIdx hq)
  split_ifs <;> exact horigin

theorem holds_applyReviewGroups {groups : List (List ℤ)}
    (h : applyReviewGroups claims groups = .ok marked) (hP : Holds P claims) :
    Holds P marked := by
  simp only [applyReviewGroups, bind_eq_ok, raiseIf_eq_ok, exists_const] at h
  exact foldlM_invariant (fun _ _ _ => holds_applyReviewGroup) h.2 hP

theorem holds_applyDeclaredGroup {anchors : List (Text × Text)}
    (h : applyDeclaredGroup claims anchors = .ok marked) (hP : Holds P claims) :
    Holds P marked := by
  simp only [applyDeclaredGroup, bind_eq_ok, raiseIf_eq_ok, exists_const, Except.ok.injEq] at h
  obtain ⟨-, rfl⟩ := h
  intro claim hclaim
  obtain ⟨origin, horigin, rfl⟩ := List.mem_map.mp hclaim
  split_ifs <;> exact hP origin horigin

theorem holds_applyDeclaredConflicts {groups : List (List (Text × Text))}
    (h : applyDeclaredConflicts claims groups = .ok marked) (hP : Holds P claims) :
    Holds P marked :=
  foldlM_invariant (fun _ _ _ => holds_applyDeclaredGroup) h hP

/-- **What is compiled** are pages of the claims with marks. -/
theorem exists_of_compilePages {tools : TextTools} {sourced : List SourcedClaim}
    {review : Option (List (List ℤ))} {declared : List (List (Text × Text))}
    {pages : List WikiPage} (h : compilePages tools sourced review declared = .ok pages)
    (hP : ∀ claim ∈ sourced, P claim) :
    ∃ marked, Holds P marked ∧ pages = organize tools marked := by
  have hall : Holds P (sortBy WikiClaim.reviewOrder (sourced.map unmarked)) := by
    intro claim hclaim
    obtain ⟨origin, horigin, rfl⟩ := List.mem_map.mp ((sortBy_perm _ _).mem_iff.mp hclaim)
    exact hP origin horigin
  cases review with
  | none =>
    rw [compilePages, ok_bind] at h
    obtain ⟨marked, hmarked, h⟩ := bind_eq_ok.mp h
    exact ⟨marked, holds_applyDeclaredConflicts hmarked hall, (Except.ok.inj h).symm⟩
  | some groups =>
    obtain ⟨reviewed, hreviewed, h⟩ := bind_eq_ok.mp h
    obtain ⟨marked, hmarked, h⟩ := bind_eq_ok.mp h
    have hreview := holds_applyReviewGroups hreviewed hall
    exact ⟨marked, holds_applyDeclaredConflicts hmarked hreview, (Except.ok.inj h).symm⟩

end Marks

/-! ## Pages and their relations -/

section Relations

variable {tools : TextTools} {claims : List WikiClaim} {page q : WikiPage}

theorem mem_sortedSet {texts : List Text} {t : Text} : t ∈ sortedSet texts ↔ t ∈ texts := by
  rw [sortedSet, (sortBy_perm _ _).mem_iff, List.mem_dedup]

/-- The pages before they are related. -/
def unrelatedPages (tools : TextTools) (claims : List WikiClaim) : List WikiPage :=
  let grouped := groupsOf (WikiClaim.page tools) claims
  (sortBy (fun group => group.key.codes) grouped).map (pageOf tools (grouped.map Group.key))

theorem organize_eq (tools : TextTools) (claims : List WikiClaim) :
    organize tools claims =
      (unrelatedPages tools claims).map (relate (unrelatedPages tools claims)) := rfl

theorem pageKeys_organize (tools : TextTools) (claims : List WikiClaim) :
    (organize tools claims).map WikiPage.pageKey =
      (sortBy (fun group => group.key.codes) (groupsOf (WikiClaim.page tools) claims)).map
        Group.key := by
  rw [organize_eq, unrelatedPages, List.map_map, List.map_map]
  rfl

theorem nodup_pageKeys_organize (tools : TextTools) (claims : List WikiClaim) :
    ((organize tools claims).map WikiPage.pageKey).Nodup := by
  rw [pageKeys_organize]
  exact ((sortBy_perm _ _).map Group.key).nodup_iff.mpr (nodup_keys_groupsOf claims)

/-- **Stored pages are read back** in the order in which they were compiled. -/
theorem pageRows_eq {stored : List WikiPage} (h : stored.Perm (organize tools claims)) :
    pageRows stored = organize tools claims := by
  refine sortBy_eq ?_ h.symm ?_
  · have hkeys := (h.map WikiPage.pageKey).nodup_iff.mpr (nodup_pageKeys_organize tools claims)
    have hcodes := hkeys.map Text.codes_injective
    rwa [List.map_map] at hcodes
  · have hsorted := pairwise_sortBy (fun group => group.key.codes)
      (groupsOf (WikiClaim.page tools) claims)
    rw [organize_eq, unrelatedPages, List.map_map]
    exact List.pairwise_map.mpr hsorted

/-- **Relations name other pages.** -/
theorem of_mem_relations (hpage : page ∈ organize tools claims) {link : Text}
    (hlink : link ∈ page.relations) :
    link ∈ (organize tools claims).map WikiPage.pageKey ∧ link ≠ page.pageKey := by
  have hkeys := List.map_map (l := unrelatedPages tools claims)
    (f := relate (unrelatedPages tools claims)) (g := WikiPage.pageKey)
  rw [organize_eq] at hpage ⊢
  obtain ⟨origin, horigin, rfl⟩ := List.mem_map.mp hpage
  have hother {q : WikiPage} {p : WikiPage → Bool}
      (hq : q ∈ ((unrelatedPages tools claims).filter
        fun q => q.pageKey ≠ origin.pageKey).filter p) :
      q.pageKey ∈ ((unrelatedPages tools claims).map
        (relate (unrelatedPages tools claims))).map WikiPage.pageKey ∧
        q.pageKey ≠ origin.pageKey := by
    obtain ⟨hmem, hne⟩ := List.mem_filter.mp (List.mem_filter.mp hq).1
    rw [hkeys]
    exact ⟨List.mem_map_of_mem (f := WikiPage.pageKey) hmem, of_decide_eq_true hne⟩
  rw [relate, mem_sortedSet, List.mem_append, List.mem_append] at hlink
  rcases hlink with (hhint | hshared) | hpeer
  · obtain ⟨group, hgroup, rfl⟩ := List.mem_map.mp horigin
    obtain ⟨-, hhint⟩ := List.mem_filter.mp (mem_sortedSet.mp hhint)
    rw [decide_eq_true_eq] at hhint
    rw [← organize_eq, pageKeys_organize]
    exact ⟨((sortBy_perm _ _).map Group.key).mem_iff.mpr hhint.1, hhint.2⟩
  · obtain ⟨q, hq, rfl⟩ := List.mem_map.mp hshared
    exact hother hq
  · obtain ⟨q, hq, rfl⟩ := List.mem_map.mp hpeer
    exact hother hq

/-- **Pages with a common source revision are related.** -/
theorem mem_relations_of_shared (hpage : page ∈ organize tools claims)
    (hq : q ∈ organize tools claims) (hne : q.pageKey ≠ page.pageKey) {c d : WikiClaim}
    (hc : c ∈ page.claims) (hd : d ∈ q.claims)
    (hshared : c.documentRevisionId = d.documentRevisionId) : q.pageKey ∈ page.relations := by
  rw [organize_eq] at hpage hq
  obtain ⟨page, -, rfl⟩ := List.mem_map.mp hpage
  obtain ⟨q, hmem, rfl⟩ := List.mem_map.mp hq
  rw [relate, mem_sortedSet, List.mem_append, List.mem_append]
  refine .inl (.inr (List.mem_map.mpr ⟨q, List.mem_filter.mpr ⟨?_, ?_⟩, rfl⟩))
  · exact List.mem_filter.mpr ⟨hmem, decide_eq_true hne⟩
  · refine List.any_eq_true.mpr ⟨d, hd, decide_eq_true ?_⟩
    exact hshared ▸ List.mem_map_of_mem (f := fun claim : WikiClaim => claim.documentRevisionId) hc

/-- A page has a claim. -/
theorem claims_ne_nil (hpage : page ∈ organize tools claims) : page.claims ≠ [] := by
  have hkey : page.pageKey ∈ (organize tools claims).map WikiPage.pageKey :=
    List.mem_map_of_mem hpage
  rw [pageKeys_organize, ((sortBy_perm _ _).map Group.key).mem_iff, mem_keys_groupsOf] at hkey
  obtain ⟨claim, hclaim, hkey⟩ := hkey
  have hon : claim ∈ claimsOn tools claims page.pageKey :=
    List.mem_filter.mpr ⟨hclaim, decide_eq_true hkey⟩
  obtain ⟨first, hfirst, -⟩ := exists_isFirst WikiClaim.identity
    ((sortBy_perm WikiClaim.pageOrder _).mem_iff.mpr hon)
  rw [claims_of_mem_organize hpage]
  exact List.ne_nil_of_mem (List.mem_map_of_mem (mem_firstsFrom.mpr ⟨List.not_mem_nil, hfirst⟩))

/-- The claims of a page are among the claims, apart from marks and hints. -/
theorem holds_claims {P : SourcedClaim → Prop}
    (hP : ∀ claim topics, P claim → P { claim with relatedTopics := topics })
    (hclaims : Holds P claims) (hpage : page ∈ organize tools claims) : Holds P page.claims := by
  rw [claims_of_mem_organize hpage]
  intro claim hclaim
  obtain ⟨origin, horigin, rfl⟩ := List.mem_map.mp hclaim
  have hmem := (sortBy_perm _ _).mem_iff.mp (mem_firstsFrom.mp horigin).2.mem
  exact hP _ [] (hclaims origin (List.mem_filter.mp hmem).1)

/-- Two pages of a compilation have different keys. -/
theorem pageKey_ne (hpage : page ∈ organize tools claims) (hq : q ∈ organize tools claims)
    (hne : page ≠ q) : page.pageKey ≠ q.pageKey := fun hkey =>
  hne (List.inj_on_of_nodup_map (nodup_pageKeys_organize tools claims) hpage hq hkey)

end Relations

/-! ## Compiled pages -/

/-- The errors that a check finds in pages. -/
def pageErrors : List LintCode :=
  [.brokenLink, .noSource, .invalidSource, .contentHashMismatch]

/-- **Compiled pages are clean**: a check of the stored pages finds none of the errors, no page is
related to itself, and pages with a common source revision are related to each other. -/
theorem compiled_pages_lint_clean (tools : TextTools) {chunks : List SourceChunk}
    (hlocators : ∀ chunk ∈ chunks, chunk.locator.Stored) {payloads : List Json}
    {claims : List (List SourcedClaim)}
    (hclaims : payloads.mapM (fun payload => validateExtraction payload chunks) = .ok claims)
    {review : Option (List (List ℤ))} {declared : List (List (Text × Text))}
    {pages : List WikiPage}
    (hpages : compilePages tools claims.flatten review declared = .ok pages)
    {stored : List WikiPage} (hstored : stored.Perm pages) (identityHash : Text)
    (sourcesError : Option String) :
    (∀ issue ∈ lint chunks tools.sha256 sourcesError (installed tools.sha256 identityHash pages)
      stored, issue.code ∉ pageErrors) ∧
    (∀ page ∈ pages, page.pageKey ∉ page.relations) ∧
    ∀ p ∈ pages, ∀ q ∈ pages, p ≠ q →
      (∃ c ∈ p.claims, ∃ d ∈ q.claims, c.documentRevisionId = d.documentRevisionId) →
      q.pageKey ∈ p.relations ∧ p.pageKey ∈ q.relations := by
  have hsupported : ∀ claim ∈ claims.flatten, Supported chunks claim := by
    intro claim hclaim
    obtain ⟨some, hsome, hclaim⟩ := List.mem_flatten.mp hclaim
    obtain ⟨payload, -, hpayload⟩ := exists_of_mem_mapM hclaims hsome
    exact supported_of_validateExtraction hpayload claim hclaim
  obtain ⟨marked, hmarked, rfl⟩ := exists_of_compilePages hpages hsupported
  refine ⟨fun issue hissue hcode => ?_, fun page hpage hself => ?_, ?_⟩
  · have hreports := lintCode_of_mem_lint hissue
    rw [pageRows_eq hstored] at hreports
    simp only [pageErrors, List.mem_cons, List.not_mem_nil, or_false] at hcode
    rcases hcode with hcode | hcode | hcode | hcode <;> rw [hcode] at hreports
    · obtain ⟨page, hpage, link, hlink, hbroken⟩ := hreports.resolve_right (by simp)
      exact hbroken (of_mem_relations hpage hlink).1
    · obtain ⟨page, hpage, hbare⟩ := hreports.resolve_right (by simp)
      exact claims_ne_nil hpage hbare
    · obtain ⟨page, hpage, claim, hclaim, hlost⟩ := hreports.resolve_right (by simp)
      have hkept := holds_claims (fun _ _ h => h) hmarked hpage claim hclaim
      rw [lostSource_eq_false hlocators hkept] at hlost
      cases hlost
    · obtain ⟨-, hash, hhash, hne⟩ := hreports.resolve_left id
      exact hne (Option.mem_some.mp hhash)
  · exact (of_mem_relations hpage hself).2 rfl
  · rintro p hp q hq hne ⟨c, hc, d, hd, hshared⟩
    have hkeys := pageKey_ne hp hq hne
    exact ⟨mem_relations_of_shared hp hq hkeys.symm hc hd hshared,
      mem_relations_of_shared hq hp hkeys hd hc hshared.symm⟩

open GatewayWikiCompiler in
/-- A claim of the manual about another topic. -/
def archiveClaim : ClaimProposal :=
  { manualClaim "c2" with topic := Text.ofString "Archive", valid := rfl }

open GatewayWikiCompiler in
/-- Two pages of one manual, whose claims a review relates and an editor declares in conflict. -/
theorem compiled_pages_lint_clean_manual :
    ∃ claims pages,
      [Extraction.payload [manualClaim "c1"], Extraction.payload [archiveClaim]].mapM
        (fun payload => validateExtraction payload manualSources) = .ok claims ∧
      compilePages plainTools claims.flatten (some [[1, 2]])
        [[(Text.ofString "c1", Text.ofString "seven years")]] = .ok pages ∧ pages.length = 2 ∧
      (∀ issue ∈ lint manualSources plainTools.sha256 none
        (installed plainTools.sha256 [] pages) pages, issue.code ∉ pageErrors) ∧
      (∀ page ∈ pages, page.pageKey ∉ page.relations) ∧
      ∀ p ∈ pages, ∀ q ∈ pages, p ≠ q →
        (∃ c ∈ p.claims, ∃ d ∈ q.claims, c.documentRevisionId = d.documentRevisionId) →
        q.pageKey ∈ p.relations ∧ p.pageKey ∈ q.relations := by
  have hlocators : ∀ chunk ∈ manualSources, chunk.locator.Stored := by
    simp [manualSources, manualChunk, Locator.Stored, Locator.toJson, Json.allAt,
      Json.distinctKeys, Json.notNan]
  have hcompiled : ((([Extraction.payload [manualClaim "c1"],
      Extraction.payload [archiveClaim]].mapM fun payload =>
        validateExtraction payload manualSources).bind fun claims =>
          compilePages plainTools claims.flatten (some [[1, 2]])
            [[(Text.ofString "c1", Text.ofString "seven years")]]).toOption).map List.length =
      some 2 := by
    decide +kernel
  have hsome := congrArg Option.isSome hcompiled
  rw [Option.isSome_map] at hsome
  obtain ⟨pages, hpages⟩ := exists_of_isSome hsome
  rw [hpages] at hcompiled
  obtain ⟨claims, hclaims, hpages⟩ := bind_eq_ok.mp hpages
  exact ⟨claims, pages, hclaims, hpages, Option.some.inj hcompiled,
    compiled_pages_lint_clean plainTools hlocators hclaims hpages (.refl pages) [] none⟩

end AgentHub.Wiki
