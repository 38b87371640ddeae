import AgentHub.Chunking.Locators

/-!
# Evidence that is dropped as a repetition

Retrieved chunks of one revision are ranked, and one whose range of characters lies within that of a
chunk before it is dropped as a repetition. The ranges of a text are positions in one text, so that
the text that is dropped is part of what is kept. The structural chunker also gives ranges to the
chunks of pages, but there they are positions in the page, and a chunk of one page may lie within
the range of a chunk of another page that says something else.

## Main definitions

* `locatorSpan`, `OverlapTracker`, `dropOverlappingEvidence`: which evidence is dropped
* `LosesNoText`: what is dropped is part of the text of what is kept
* `PagesApart`: no chunk lies within the range of a chunk of another page without its text

## Main results

* `kept_or_within`: what is dropped lies within the range of something that is kept
* `parseContent_cases`: a document is a text or consists of pages
* `dedup_loses_no_text_iff`: no text is lost exactly where the chunks of pages are apart
-/

namespace AgentHub.Chunking

open Lib Transcript Canonical

/-! ## Dropping evidence -/

structure RetrievedEvidence where
  documentRevisionId : Text
  chunkId : Text
  locator : JsonObject
  text : List Char

/-- The range under two names, where it is one. -/
def spanAt (locator : JsonObject) (startKey endKey : String) : Option Span :=
  match Json.get? locator (Text.ofString startKey), Json.get? locator (Text.ofString endKey) with
  | some (.int start), some (.int stop) =>
    if 0 ≤ start ∧ start < stop then some ⟨start.toNat, stop.toNat⟩ else none
  | _, _ => none

/-- `locator_span` -/
def locatorSpan (locator : JsonObject) : Option Span :=
  (spanAt locator "char_start" "char_end").or (spanAt locator "start" "end")

/-- `_span_contained` -/
def spanContained (span kept : Span) : Bool := kept.start ≤ span.start && span.stop ≤ kept.stop

/-- `_OverlapTracker`: the ranges that are kept, each with its revision. -/
abbrev OverlapTracker := List (Text × Span)

namespace OverlapTracker

def redundant (tracker : OverlapTracker) (revisionId : Text) : Option Span → Bool
  | none => false
  | some span =>
    revisionId ≠ [] && tracker.any fun kept => kept.1 = revisionId && spanContained span kept.2

def keep (tracker : OverlapTracker) (revisionId : Text) : Option Span → OverlapTracker
  | none => tracker
  | some span => if revisionId = [] then tracker else tracker ++ [(revisionId, span)]

end OverlapTracker

/-- The loop of `drop_overlapping_evidence`. -/
def dropRedundant (tracker : OverlapTracker) : List RetrievedEvidence → List RetrievedEvidence
  | [] => []
  | item :: items =>
    let span := locatorSpan item.locator
    if tracker.redundant item.documentRevisionId span then dropRedundant tracker items
    else item :: dropRedundant (tracker.keep item.documentRevisionId span) items

/-- `drop_overlapping_evidence` -/
def dropOverlappingEvidence (items : List RetrievedEvidence) : List RetrievedEvidence :=
  dropRedundant [] items

/-- The evidence lies within the range. -/
def WithinRange (item : RetrievedEvidence) (kept : Text × Span) : Prop :=
  kept.1 = item.documentRevisionId ∧
    ∃ span, locatorSpan item.locator = some span ∧ spanContained span kept.2 = true

variable {tracker : OverlapTracker} {item : RetrievedEvidence} {maxParsedChars : ℕ}
  {document : ParsedDocument}

theorem withinRange_of_redundant
    (h : tracker.redundant item.documentRevisionId (locatorSpan item.locator) = true) :
    ∃ kept ∈ tracker, WithinRange item kept := by
  cases hspan : locatorSpan item.locator with
  | none =>
    rw [hspan] at h
    cases h
  | some span =>
    rw [hspan] at h
    simp only [OverlapTracker.redundant, Bool.and_eq_true, List.any_eq_true,
      decide_eq_true_eq] at h
    obtain ⟨-, kept, hkept, hrevision, hcontained⟩ := h
    exact ⟨kept, hkept, hrevision, span, hspan, hcontained⟩

theorem mem_keep {kept : Text × Span}
    (h : kept ∈ tracker.keep item.documentRevisionId (locatorSpan item.locator)) :
    kept ∈ tracker ∨ locatorSpan item.locator = some kept.2 ∧ item.documentRevisionId = kept.1 := by
  cases hspan : locatorSpan item.locator with
  | none =>
    rw [hspan] at h
    exact .inl h
  | some span =>
    rw [hspan, OverlapTracker.keep] at h
    split_ifs at h with hempty
    · exact .inl h
    · rcases List.mem_append.mp h with h | h
      · exact .inl h
      · obtain rfl := List.mem_singleton.mp h
        exact .inr ⟨rfl, rfl⟩

/-- **What is dropped lies within the range of something that is kept**, or was kept before. -/
theorem kept_or_within (tracker : OverlapTracker) (items : List RetrievedEvidence) :
    ∀ item ∈ items, item ∈ dropRedundant tracker items ∨
      (∃ kept ∈ tracker, WithinRange item kept) ∨
      ∃ other ∈ dropRedundant tracker items, ∃ span, locatorSpan other.locator = some span ∧
        WithinRange item (other.documentRevisionId, span) := by
  induction items generalizing tracker with
  | nil => simp
  | cons first items ih =>
    intro item hitem
    rw [dropRedundant]
    split_ifs with hredundant
    · rcases List.mem_cons.mp hitem with rfl | hitem
      · exact .inr (.inl (withinRange_of_redundant hredundant))
      · exact ih tracker item hitem
    · rcases List.mem_cons.mp hitem with rfl | hitem
      · exact .inl List.mem_cons_self
      · rcases ih _ item hitem with hkept | ⟨kept, hmem, hwithin⟩ | ⟨other, hother, hwithin⟩
        · exact .inl (List.mem_cons_of_mem _ hkept)
        · rcases mem_keep hmem with hmem | ⟨hspan, hrevision⟩
          · exact .inr (.inl ⟨kept, hmem, hwithin⟩)
          · exact .inr (.inr ⟨first, List.mem_cons_self, kept.2, hspan, hrevision ▸ hwithin⟩)
        · exact .inr (.inr ⟨other, List.mem_cons_of_mem _ hother, hwithin⟩)

/-- What is dropped is part of the text of something that is kept. -/
def LosesNoText (items : List RetrievedEvidence) : Prop :=
  ∀ item ∈ items, item ∉ dropOverlappingEvidence items →
    ∃ kept ∈ dropOverlappingEvidence items, item.text <:+: kept.text

theorem dropRedundant_sublist (tracker : OverlapTracker) (items : List RetrievedEvidence) :
    (dropRedundant tracker items).Sublist items := by
  induction items generalizing tracker with
  | nil => exact .slnil
  | cons item items ih =>
    rw [dropRedundant]
    split_ifs
    · exact (ih tracker).cons _
    · exact (ih _).cons_cons _

theorem losesNoText_of_within {items : List RetrievedEvidence}
    (h : ∀ item ∈ items, ∀ other ∈ items, ∀ span, locatorSpan other.locator = some span →
      WithinRange item (other.documentRevisionId, span) → item.text <:+: other.text) :
    LosesNoText items := by
  intro item hitem hdropped
  rcases kept_or_within [] items item hitem with hkept | ⟨_, hmem, -⟩ | ⟨other, hother, hwithin⟩
  · exact absurd hkept hdropped
  · cases hmem
  · obtain ⟨span, hspan, hwithin⟩ := hwithin
    exact ⟨other, hother,
      h item hitem other ((dropRedundant_sublist [] items).subset hother) span hspan hwithin⟩

/-- Of two pieces of evidence the second is dropped when it lies within the range of the first. -/
theorem infix_of_losesNoText {first second : RetrievedEvidence}
    (h : LosesNoText [first, second]) (hrevision : first.documentRevisionId ≠ []) {span : Span}
    (hspan : locatorSpan first.locator = some span)
    (hwithin : WithinRange second (first.documentRevisionId, span)) :
    second.text <:+: first.text := by
  obtain ⟨hsame, inner, hinner, hcontained⟩ := hwithin
  dsimp only at hsame hcontained
  have hkeep : dropOverlappingEvidence [first, second] = [first] := by
    have hnew : OverlapTracker.redundant [] first.documentRevisionId
        (locatorSpan first.locator) = false := by
      simp [hspan, OverlapTracker.redundant]
    have hagain : OverlapTracker.redundant
        (OverlapTracker.keep [] first.documentRevisionId (locatorSpan first.locator))
        second.documentRevisionId (locatorSpan second.locator) = true := by
      simp [hspan, hinner, ← hsame, OverlapTracker.redundant, OverlapTracker.keep, hrevision,
        hcontained]
    simp only [dropOverlappingEvidence, dropRedundant, hnew, hagain]
    rfl
  by_cases heq : second = first
  · rw [heq]
  · obtain ⟨kept, hkept, hinfix⟩ := h second (by simp) (by simpa [hkeep] using heq)
    rw [hkeep] at hkept
    obtain rfl := List.mem_singleton.mp hkept
    exact hinfix

/-! ## Chunks of a document -/

/-- A chunk as it is retrieved. -/
def retrieved (documentRevisionId : Text) (chunk : ChunkCandidate) : RetrievedEvidence :=
  ⟨documentRevisionId, chunk.chunkId, chunk.locator, chunk.text⟩

theorem parseText_eq_ok {decoded : Option (List Char)}
    (h : parseText decoded maxParsedChars = .ok document) :
    ∃ text, document = textDocument text := by
  cases decoded with
  | none => cases h
  | some text =>
    simp only [parseText, bind_eq_ok, Except.ok.injEq] at h
    obtain ⟨-, -, -, -, rfl⟩ := h
    exact ⟨text, rfl⟩

theorem pageBlocks_locator {page parsedChars : ℕ} {pages : List (List Char)}
    {blocks : List ParsedBlock}
    (h : pageBlocks maxParsedChars page parsedChars pages = .ok blocks) :
    ∀ block ∈ blocks, ∃ page, block.locator = pageLocator page := by
  induction pages generalizing page parsedChars blocks with
  | nil =>
    obtain rfl := Except.ok.inj h
    simp
  | cons text pages ih =>
    simp only [pageBlocks, bind_eq_ok, Except.ok.injEq] at h
    obtain ⟨-, -, rest, hrest, rfl⟩ := h
    intro block hblock
    split_ifs at hblock with hempty
    · exact ih hrest block hblock
    · rcases List.mem_cons.mp hblock with rfl | hblock
      · exact ⟨page, rfl⟩
      · exact ih hrest block hblock

/-- The document is a text file, or consists of pages. -/
theorem parseContent_cases {content : Content} {media : MediaType} {maxPdfPages : ℕ}
    (h : parseContent content media maxPdfPages maxParsedChars = .ok document) :
    (∃ text, document = textDocument text) ∨
      ∀ block ∈ document.blocks, ∃ page, block.locator = pageLocator page := by
  cases media with
  | plain => exact .inl (parseText_eq_ok h)
  | markdown => exact .inl (parseText_eq_ok h)
  | other => cases h
  | pdf =>
    refine .inr ?_
    rw [parseContent] at h
    cases hpages : content.pages with
    | none =>
      rw [hpages] at h
      cases h
    | some pages =>
      simp only [hpages, bind_eq_ok, Except.ok.injEq] at h
      obtain ⟨-, -, blocks, hblocks, -, -, rfl⟩ := h
      exact pageBlocks_locator hblocks

section Chunks

variable (nfc : Composition) (sha256 : Sha256) (documentRevisionId : Text)

/-- No chunk lies within the range of a chunk of another page that does not have its text. -/
def PagesApart (document : ParsedDocument) (size : ℕ) : Prop :=
  ∀ page ∈ document.blocks, ∀ other ∈ document.blocks, page ≠ other →
    ∀ kept ∈ blockSpans nfc page.text size, ∀ span ∈ blockSpans nfc other.text size,
      spanContained span kept = true →
        normalizeChunkText nfc (slice other.text span) <:+:
          normalizeChunkText nfc (slice page.text kept)

variable {nfc sha256 documentRevisionId}
  {span : Span} {document : ParsedDocument} {chunkSize overlap : ℤ}
  {chunks ranking : List ChunkCandidate}

theorem locatorSpan_rangeLocator (h : span.start < span.stop) :
    locatorSpan (rangeLocator span) = some span := by
  have hint : (0 : ℤ) ≤ span.start ∧ (span.start : ℤ) < span.stop := by omega
  rw [locatorSpan, spanAt, (get?_rangeLocator span).1, (get?_rangeLocator span).2]
  dsimp only
  rw [if_pos hint]
  rfl

theorem keys_pageLocator (page : ℕ) :
    (pageLocator page).map Prod.fst = [Text.ofString "type", Text.ofString "page"] := by
  simp [pageLocator, named]

/-- A page has no member of another name. -/
theorem get?_pageLocator {key : Text} (page : ℕ)
    (h : key ∉ [Text.ofString "type", Text.ofString "page"]) :
    Json.get? (pageLocator page) key = none :=
  Json.get?_eq_none (by rwa [keys_pageLocator])

theorem locatorSpan_pageLocator (page : ℕ) : locatorSpan (pageLocator page) = none := by
  have hchars : spanAt (pageLocator page) "char_start" "char_end" = none := by
    rw [spanAt, get?_pageLocator page (by decide)]
  have hshort : spanAt (pageLocator page) "start" "end" = none := by
    rw [spanAt, get?_pageLocator page (by decide)]
  rw [locatorSpan, hchars, hshort]
  rfl

/-- The locator of a range of a page. -/
theorem withRange_pageLocator (page : ℕ) (span : Span) :
    withRange (pageLocator page) span = pageLocator page ++
      [(Text.ofString "char_start", .int span.start),
        (Text.ofString "char_end", .int span.stop)] := by
  have hbase : baseOf (pageLocator page) = 0 := by rw [baseOf, get?_pageLocator page (by decide)]
  have hfirst (v : Json) : Json.set (pageLocator page) (Text.ofString "char_start") v =
      pageLocator page ++ [(Text.ofString "char_start", v)] :=
    Json.set_of_not_mem (by rw [keys_pageLocator]; decide)
  rw [withRange, hbase, hfirst, Json.set_of_not_mem]
  · simp
  · rw [List.map_append, keys_pageLocator]
    simp only [List.map_cons, List.map_nil]
    decide

theorem locatorSpan_withRange_pageLocator (h : span.start < span.stop) (page : ℕ) :
    locatorSpan (withRange (pageLocator page) span) = some span := by
  have hint : (0 : ℤ) ≤ span.start ∧ (span.start : ℤ) < span.stop := by omega
  have hnodup : ((withRange (pageLocator page) span).map Prod.fst).Nodup := by
    rw [withRange_pageLocator, List.map_append, keys_pageLocator]
    simp only [List.map_cons, List.map_nil]
    decide
  have hget (key : String) (v : Json)
      (hmem : (Text.ofString key, v) ∈ withRange (pageLocator page) span) :=
    (Json.get?_eq_some_iff hnodup).mpr hmem
  rw [locatorSpan, spanAt,
    hget "char_start" (.int span.start) (by simp [withRange_pageLocator]),
    hget "char_end" (.int span.stop) (by simp [withRange_pageLocator])]
  dsimp only
  rw [if_pos hint]
  rfl

/-- The locator of a block that the parser returns. -/
def IsParsed (block : ParsedBlock) : Prop :=
  block.locator = textLocator block.text ∨ ∃ page, block.locator = pageLocator page

theorem locatorSpan_withRange {block : ParsedBlock} (hblock : IsParsed block)
    (h : span.start < span.stop) : locatorSpan (withRange block.locator span) = some span := by
  rcases hblock with htext | ⟨page, hpage⟩
  · rw [htext, withRange_textLocator, locatorSpan_rangeLocator h]
  · rw [hpage, locatorSpan_withRange_pageLocator h]

/-- **Structural chunks of one block** do not lie within each other. -/
theorem eq_of_contained {text : List Char} {size : ℕ} {kept : Span}
    (hspan : span ∈ blockSpans nfc text size) (hkept : kept ∈ blockSpans nfc text size)
    (h : spanContained span kept = true) : span = kept := by
  have hcovers := (partition_blockSpans nfc text size).covers
  obtain ⟨-, hlt, -⟩ := hcovers.within hspan
  simp only [spanContained, Bool.and_eq_true, decide_eq_true_eq] at h
  exact eq_of_mem_both hcovers.pairwise hspan hkept ⟨le_rfl, hlt⟩ ⟨h.1, by omega⟩

/-- **No structural chunk is lost** exactly where the pages are apart. -/
theorem structural_losesNoText_iff {size n : ℕ} (hrevision : documentRevisionId ≠ [])
    (hparsed : ∀ block ∈ document.blocks, IsParsed block) :
    (∀ ranking : List ChunkCandidate,
      (∀ chunk ∈ ranking,
        chunk ∈ documentChunks nfc sha256 documentRevisionId size n document.blocks) →
      LosesNoText (ranking.map (retrieved documentRevisionId))) ↔
    PagesApart nfc document size := by
  have hlt {block : ParsedBlock} {span : Span} (h : span ∈ blockSpans nfc block.text size) :
      span.start < span.stop := ((partition_blockSpans nfc block.text size).covers.within h).2.1
  constructor
  · intro h page hpage other hother _ kept hkept span hspan hcontained
    -- the ranking of the two chunks
    obtain ⟨first, hfirst, hfirstText, hfirstLocator⟩ :=
      exists_mem_documentChunks nfc sha256 documentRevisionId n hpage hkept
    obtain ⟨second, hsecond, hsecondText, hsecondLocator⟩ :=
      exists_mem_documentChunks nfc sha256 documentRevisionId n hother hspan
    have hpair : LosesNoText [retrieved documentRevisionId first,
        retrieved documentRevisionId second] := h [first, second] (by simp [hfirst, hsecond])
    have hfirstSpan : locatorSpan first.locator = some kept := by
      rw [hfirstLocator, locatorSpan_withRange (hparsed page hpage) (hlt hkept)]
    have hsecondSpan : locatorSpan second.locator = some span := by
      rw [hsecondLocator, locatorSpan_withRange (hparsed other hother) (hlt hspan)]
    rw [← hfirstText, ← hsecondText]
    exact infix_of_losesNoText hpair hrevision hfirstSpan ⟨rfl, span, hsecondSpan, hcontained⟩
  · intro hapart ranking hranking
    refine losesNoText_of_within fun item hitem other hother kept hkept hwithin => ?_
    obtain ⟨chunk, hchunk, rfl⟩ := List.mem_map.mp hitem
    obtain ⟨chunk', hchunk', rfl⟩ := List.mem_map.mp hother
    obtain ⟨-, span, hspan, hcontained⟩ := hwithin
    obtain ⟨q, hq, u, hu, htext, hlocator⟩ :=
      exists_of_mem_documentChunks nfc (hranking chunk hchunk)
    obtain ⟨p, hp, s, hs, htext', hlocator'⟩ :=
      exists_of_mem_documentChunks nfc (hranking chunk' hchunk')
    rw [retrieved, hlocator, locatorSpan_withRange (hparsed q hq) (hlt hu)] at hspan
    rw [retrieved, hlocator', locatorSpan_withRange (hparsed p hp) (hlt hs)] at hkept
    obtain rfl := Option.some.inj hspan
    obtain rfl := Option.some.inj hkept
    change chunk.text <:+: chunk'.text
    rw [htext, htext']
    by_cases hsame : p = q
    · subst hsame
      rw [eq_of_contained hu hs hcontained]
    · exact hapart p hp q hq hsame s hs u hu hcontained

theorem windowLocator_pageLocator (page : ℕ) (span : Span) :
    windowLocator (pageLocator page) span = pageLocator page := by
  have htype : Json.get? (pageLocator page) (Text.ofString "type") =
      some (.str (Text.ofString "page")) :=
    (Json.get?_eq_some_iff (by rw [keys_pageLocator]; decide)).mpr (by simp [pageLocator, named])
  rw [windowLocator, htype]
  exact if_neg (by decide)

/-- **No deterministic chunk of a text is lost.** -/
theorem deterministic_losesNoText_text {text : List Char}
    (h : buildDeterministicChunks nfc sha256 documentRevisionId (textDocument text) chunkSize
      overlap = .ok chunks)
    (hranking : ∀ chunk ∈ ranking, chunk ∈ chunks) :
    LosesNoText (ranking.map (retrieved documentRevisionId)) := by
  have hsize : 0 < chunkSize.toNat := by
    have := ((buildDeterministicChunks_eq_ok _ _ _ _ _ _).mp h).1.1
    omega
  have hchunks {chunk : ChunkCandidate} (hchunk : chunk ∈ ranking) : ∃ s : Span,
      s.start < s.stop ∧
        chunk.text = strip isSpaceChar (slice (normalizeChunkText nfc text) s) ∧
        locatorSpan chunk.locator = some s := by
    obtain ⟨-, s, hs, htext, hlocator⟩ := (mem_deterministicChunks h _ _).mp
      (List.mem_map_of_mem (f := fun chunk => (chunk.text, chunk.locator)) (hranking chunk hchunk))
    have hlt := (mem_windows hsize hs).1
    exact ⟨s, hlt, htext, by rw [hlocator, locatorSpan_rangeLocator hlt]⟩
  refine losesNoText_of_within fun item hitem other hother kept hkept hwithin => ?_
  obtain ⟨chunk, hchunk, rfl⟩ := List.mem_map.mp hitem
  obtain ⟨chunk', hchunk', rfl⟩ := List.mem_map.mp hother
  obtain ⟨-, span, hspan, hcontained⟩ := hwithin
  obtain ⟨u, hult, htext, hu⟩ := hchunks hchunk
  obtain ⟨s, -, htext', hs⟩ := hchunks hchunk'
  obtain rfl := Option.some.inj (hu.symm.trans hspan)
  obtain rfl := Option.some.inj (hs.symm.trans hkept)
  simp only [spanContained, Bool.and_eq_true, decide_eq_true_eq] at hcontained
  change chunk.text <:+: chunk'.text
  rw [htext, htext']
  exact strip_part (slice_part hcontained.1 hult.le hcontained.2)

/-- **No deterministic chunk of a page is dropped**: it has no range. -/
theorem deterministic_losesNoText_pages
    (hpages : ∀ block ∈ document.blocks, ∃ page, block.locator = pageLocator page)
    (h : buildDeterministicChunks nfc sha256 documentRevisionId document chunkSize overlap =
      .ok chunks)
    (hranking : ∀ chunk ∈ ranking, chunk ∈ chunks) :
    LosesNoText (ranking.map (retrieved documentRevisionId)) := by
  refine losesNoText_of_within fun item hitem other hother kept hkept hwithin => ?_
  obtain ⟨chunk, hchunk, rfl⟩ := List.mem_map.mp hother
  obtain ⟨-, rfl⟩ := (buildDeterministicChunks_eq_ok _ _ _ _ _ _).mp h
  have hmem := List.mem_map_of_mem (f := fun chunk => (chunk.text, chunk.locator))
    (hranking chunk hchunk)
  rw [map_foldl_appendBlockWindows, List.map_nil, List.nil_append, List.mem_flatMap] at hmem
  obtain ⟨block, hblock, hmem⟩ := hmem
  obtain ⟨s, -, heq⟩ := List.mem_map.mp (List.mem_filter.mp hmem).1
  obtain ⟨page, hpage⟩ := hpages block hblock
  have hlocator : chunk.locator = pageLocator page := by
    rw [← (Prod.mk.inj heq).2, hpage, windowLocator_pageLocator]
  rw [retrieved, hlocator, locatorSpan_pageLocator] at hkept
  cases hkept

/-- **No text is lost exactly where the chunks of pages are apart.** -/
theorem dedup_loses_no_text_iff (nfc : Composition) (sha256 : Sha256) (documentRevisionId : Text)
    (hrevision : documentRevisionId ≠ []) (content : Content) (media : MediaType)
    (maxPdfPages maxParsedChars : ℕ) (document : ParsedDocument)
    (hparsed : parseContent content media maxPdfPages maxParsedChars = .ok document)
    (chunker : Chunker) (chunkSize overlap : ℤ) (chunks : List ChunkCandidate)
    (hchunks : buildChunks nfc sha256 documentRevisionId chunker document chunkSize overlap =
      .ok chunks) :
    (∀ ranking : List ChunkCandidate, (∀ chunk ∈ ranking, chunk ∈ chunks) →
      LosesNoText (ranking.map (retrieved documentRevisionId))) ↔
    (chunker = .structural → PagesApart nfc document chunkSize.toNat) := by
  have hcases := parseContent_cases hparsed
  cases chunker with
  | deterministic =>
    refine iff_of_true (fun ranking hranking => ?_) (by simp)
    rcases hcases with ⟨text, rfl⟩ | hpages
    · exact deterministic_losesNoText_text hchunks hranking
    · exact deterministic_losesNoText_pages hpages hchunks hranking
  | structural =>
    obtain ⟨-, -, -, rfl⟩ := (buildStructuralChunks_eq_ok nfc).mp hchunks
    refine (structural_losesNoText_iff hrevision fun block hblock => ?_).trans (by simp)
    rcases hcases with ⟨text, rfl⟩ | hpages
    · obtain rfl := List.mem_singleton.mp hblock
      exact .inl rfl
    · exact .inr (hpages block hblock)

end Chunks

/-! ## Two pages -/

/-- Two pages of different text. -/
def priceReport : ParsedDocument :=
  ⟨[⟨"Prices rise.".toList, pageLocator 1⟩, ⟨"Costs fall.".toList, pageLocator 2⟩]⟩

def priceContent : Content := ⟨none, some ["Prices rise.".toList, "Costs fall.".toList]⟩

theorem parseContent_priceContent : parseContent priceContent .pdf 10 1000 = .ok priceReport := by
  rfl

/-- The chunks of the two pages. -/
def priceChunks : List ChunkCandidate :=
  documentChunks plainComposition zeroDigest (Text.ofString "revision") 1000 0 priceReport.blocks

theorem buildChunks_priceReport :
    buildChunks plainComposition zeroDigest (Text.ofString "revision") .structural priceReport
      1000 0 = .ok priceChunks :=
  (buildStructuralChunks_eq_ok plainComposition).mpr ⟨by decide, rfl, fun block _ =>
    (partition_blockSpans plainComposition block.text 1000).fits (by decide), rfl⟩

theorem dedup_loses_no_text_iff_priceReport :
    Text.ofString "revision" ≠ [] ∧
      parseContent priceContent .pdf 10 1000 = .ok priceReport ∧
      buildChunks plainComposition zeroDigest (Text.ofString "revision") .structural priceReport
        1000 0 = .ok priceChunks ∧
      ((∀ ranking : List ChunkCandidate, (∀ chunk ∈ ranking, chunk ∈ priceChunks) →
          LosesNoText (ranking.map (retrieved (Text.ofString "revision")))) ↔
        (Chunker.structural = .structural → PagesApart plainComposition priceReport 1000)) := by
  have hrevision : Text.ofString "revision" ≠ [] := by decide
  exact ⟨hrevision, parseContent_priceContent, buildChunks_priceReport,
    dedup_loses_no_text_iff plainComposition zeroDigest _ hrevision priceContent .pdf 10 1000
      priceReport parseContent_priceContent .structural 1000 0 priceChunks
      buildChunks_priceReport⟩

/-- The second page is dropped, although its text is not on the first one. -/
theorem dedup_drops_second_page : ∃ ranking : List ChunkCandidate,
    parseContent priceContent .pdf 10 1000 = .ok priceReport ∧
      buildChunks plainComposition zeroDigest (Text.ofString "revision") .structural priceReport
        1000 0 = .ok priceChunks ∧
      (∀ chunk ∈ ranking, chunk ∈ priceChunks) ∧
      ¬ LosesNoText (ranking.map (retrieved (Text.ofString "revision"))) := by
  by_contra hnone
  have hapart : PagesApart plainComposition priceReport 1000 :=
    (structural_losesNoText_iff (by decide) fun block hblock => .inr ?_).mp fun ranking hranking =>
      by_contra fun hloses => hnone ⟨ranking, parseContent_priceContent, buildChunks_priceReport,
        hranking, hloses⟩
  · -- both pages are one chunk from their first character on
    have hinfix := hapart ⟨"Prices rise.".toList, pageLocator 1⟩ (by simp [priceReport])
      ⟨"Costs fall.".toList, pageLocator 2⟩ (by simp [priceReport]) (by simp) ⟨0, 12⟩
      (by decide +kernel) ⟨0, 11⟩ (by decide +kernel) (by decide)
    revert hinfix
    decide +kernel
  · simp only [priceReport, List.mem_cons, List.not_mem_nil, or_false] at hblock
    rcases hblock with rfl | rfl
    · exact ⟨1, rfl⟩
    · exact ⟨2, rfl⟩

end AgentHub.Chunking
