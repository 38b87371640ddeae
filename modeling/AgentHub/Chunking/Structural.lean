import AgentHub.Chunking.Candidates

/-!
# The structural chunker

A block is cut into paragraphs; a heading goes with the paragraph that follows it. A paragraph that
is too long is cut into groups of sentences, and a sentence that is too long at its last sentence
end, at its last blank, or where the limit falls. Sizes are those of the normalised text, while
spans are positions in the parsed text.

The functions here say which spans are appended, in their order; appending trims a span and skips
it where nothing is left, as each of the source's functions does before it appends.

## Main definitions

* `paragraphSpans`, `sentenceBoundaries`, `preferredPrefixEnd`: where text is cut
* `boundedPieces`, `paragraphPieces`, `attachBody`, `blockSpans`: the spans of a block
* `appendCandidate`, `buildStructuralChunks`: the chunks
-/

namespace AgentHub.Chunking

open Lib Transcript Canonical

/-! ## Where text is cut -/

def isBlankChar (c : Char) : Bool := c = ' ' || c = '\t'

/-- The lengths of a line end at the front, in the order in which the pattern tries them. -/
def newlineLengths : List Char → List ℕ
  | '\r' :: '\n' :: _ => [2, 1]
  | '\r' :: _ => [1]
  | '\n' :: _ => [1]
  | _ => []

/-- The length of `_PARAGRAPH_BREAK` at the front. A pair of carriage return and line feed is
also tried as two line ends. -/
def breakLength (t : List Char) : Option ℕ :=
  (newlineLengths t).findSome? fun n =>
    let blanks := ((t.drop n).takeWhile isBlankChar).length
    (newlineLengths (t.drop (n + blanks))).head?.map (n + blanks + ·)

/-- `_PARAGRAPH_BREAK.finditer`, from position `i` on; `skip` characters belong to the last
match. -/
def paragraphBreaks : ℕ → ℕ → List Char → List Span
  | _, _, [] => []
  | skip + 1, i, _ :: t => paragraphBreaks skip (i + 1) t
  | 0, i, c :: t =>
    match breakLength (c :: t) with
    | some (n + 1) => ⟨i, i + (n + 1)⟩ :: paragraphBreaks n (i + 1) t
    | _ => paragraphBreaks 0 (i + 1) t

/-- `_paragraph_spans` -/
def paragraphSpans (text : List Char) : List Span :=
  spansBetween isSpaceChar text text.length 0 (paragraphBreaks 0 0 text)

/-- `_MARKDOWN_HEADING.match` on the text of a span. -/
def isHeadingText (t : List Char) : Bool :=
  let blanks := (t.takeWhile isBlankChar).length
  let rest := t.drop blanks
  let hashes := (rest.takeWhile (· = '#')).length
  let tail := rest.drop hashes
  blanks ≤ 3 && 1 ≤ hashes && hashes ≤ 6 &&
    (tail = [] || tail = ['\n'] || tail.head?.any isBlankChar)

def isMarkdownHeading (text : List Char) (span : Span) : Bool := isHeadingText (slice text span)

/-- `_sentence_boundaries`, from position `i` on; `skip` characters belong to the last sentence. -/
def sentenceBoundaries : ℕ → ℕ → List Char → List ℕ
  | _, _, [] => []
  | skip + 1, i, _ :: t => sentenceBoundaries skip (i + 1) t
  | 0, i, c :: t =>
    if isChineseTerminal c then
      let closing := (t.takeWhile isClosing).length
      (i + 1 + closing) :: sentenceBoundaries closing (i + 1) t
    else if isEnglishTerminal c then
      let more := (t.takeWhile isEnglishTerminal).length
      let rest := t.drop more
      if rest.head?.all isSpaceChar then
        let closing := (rest.takeWhile isClosing).length
        (i + 1 + (more + closing)) :: sentenceBoundaries (more + closing) (i + 1) t
      else sentenceBoundaries 0 (i + 1) t
    else sentenceBoundaries 0 (i + 1) t

/-- The sentence boundaries of a span. -/
def boundariesIn (text : List Char) (span : Span) : List ℕ :=
  sentenceBoundaries 0 span.start (slice text span)

/-- `_sentence_spans` -/
def sentenceSpans (text : List Char) (span : Span) : List Span :=
  let boundaries := boundariesIn text span
  if boundaries = [] then [span]
  else spansBetween isSpaceChar text span.stop span.start (boundaries.map fun b => ⟨b, b⟩)

/-- The starts of `_WHITESPACE.finditer`, from position `i` on. -/
def whitespaceStarts : Bool → ℕ → List Char → List ℕ
  | _, _, [] => []
  | afterSpace, i, c :: t =>
    if isSpaceChar c then
      if afterSpace then whitespaceStarts true (i + 1) t else i :: whitespaceStarts true (i + 1) t
    else whitespaceStarts false (i + 1) t

/-- `_preferred_prefix_end` -/
def preferredPrefixEnd (text : List Char) (start safeEnd minimumContentStart : ℕ) : ℕ :=
  let sentence := (boundariesIn text ⟨start, safeEnd⟩).filter (minimumContentStart ≤ ·)
  let whitespaceBefore := (whitespaceStarts false start (slice text ⟨start, safeEnd⟩)).filter
    (minimumContentStart ≤ ·)
  match sentence.getLast? with
  | some boundary => boundary
  | none => whitespaceBefore.getLast?.getD safeEnd

section Splitter

variable (nfc : Composition) (text : List Char) (size : ℕ)

/-- `_normalized_length` -/
def normalizedLength (span : Span) : ℕ := (normalizeChunkText nfc (slice text span)).length

/-- The loop of `_largest_hard_prefix_end`, by the length of the prefix. -/
def hardPrefixLength (start : ℕ) : ℕ → ℕ
  | 0 => 0
  | n + 1 =>
    if size < normalizedLength nfc text ⟨start, start + (n + 1)⟩ then hardPrefixLength start n
    else n + 1

/-- `_largest_hard_prefix_end` -/
def largestHardPrefixEnd (start stop : ℕ) : ℕ :=
  start + hardPrefixLength nfc text size start (min stop (start + size) - start)

/-- The end of the next piece of text that is trimmed. -/
def pieceEnd (cursor stop : ℕ) : ℕ :=
  if normalizedLength nfc text ⟨cursor, stop⟩ ≤ size then stop
  else
    let safeEnd := largestHardPrefixEnd nfc text size cursor stop
    let preferred := preferredPrefixEnd text cursor safeEnd (cursor + 1)
    if preferred ≤ cursor then min (cursor + 1) stop else preferred

/-- `_append_bounded_pieces`. Every round moves the start of the span, so as many rounds as it
has characters are enough. -/
def boundedPieces : ℕ → Span → List Span
  | 0, _ => []
  | rounds + 1, span =>
    if span.start < span.stop then
      let remaining := trimSpan isSpaceChar text span
      if remaining.empty then []
      else
        let stop := pieceEnd nfc text size remaining.start remaining.stop
        let piece := trimSpan isSpaceChar text ⟨remaining.start, stop⟩
        if piece.empty then
          boundedPieces rounds ⟨max stop (remaining.start + 1), remaining.stop⟩
        else piece :: boundedPieces rounds ⟨piece.stop, remaining.stop⟩
    else []

/-- The pieces of a span. -/
def boundedSpans (span : Span) : List Span :=
  boundedPieces nfc text size (span.stop - span.start) span

/-- The loop over sentences, with the group so far. -/
def groupSentences : Option Span → List Span → List Span
  | group, [] => group.toList
  | group, sentence :: sentences =>
    if size < normalizedLength nfc text sentence then
      group.toList ++ boundedSpans nfc text size sentence ++ groupSentences none sentences
    else
      match group with
      | none => groupSentences (some sentence) sentences
      | some g =>
        let joined : Span := ⟨g.start, sentence.stop⟩
        if normalizedLength nfc text joined ≤ size then groupSentences (some joined) sentences
        else g :: groupSentences (some sentence) sentences

/-- `_append_paragraph_pieces` -/
def paragraphPieces (paragraph : Span) : List Span :=
  let span := trimSpan isSpaceChar text paragraph
  if span.empty then []
  else if normalizedLength nfc text span ≤ size then [span]
  else
    let sentences := sentenceSpans text span
    if sentences.length ≤ 1 then boundedSpans nfc text size span
    else groupSentences nfc text size none sentences

/-- The headings that follow a heading, while they fit together with it: where they end, and the
paragraphs after them. -/
def takeHeadings (start : ℕ) : ℕ → List Span → ℕ × List Span
  | headingEnd, [] => (headingEnd, [])
  | headingEnd, next :: rest =>
    if isMarkdownHeading text next ∧
        normalizedLength nfc text (trimSpan isSpaceChar text ⟨start, next.stop⟩) ≤ size then
      takeHeadings start next.stop rest
    else (headingEnd, next :: rest)

/-- Headings from `start` to `headingEnd` with the paragraph after them. -/
def attachBody (start headingEnd : ℕ) (body : Span) : List Span :=
  let combined := trimSpan isSpaceChar text ⟨start, body.stop⟩
  if normalizedLength nfc text combined ≤ size then [combined]
  else
    let heading := trimSpan isSpaceChar text ⟨start, headingEnd⟩
    let safeEnd := largestHardPrefixEnd nfc text size heading.start body.stop
    let attachEnd := preferredPrefixEnd text heading.start safeEnd (body.start + 1)
    let attached := trimSpan isSpaceChar text ⟨heading.start, attachEnd⟩
    if normalizedLength nfc text heading ≤ size ∧ body.start < attached.stop then
      let remainder := trimSpan isSpaceChar text ⟨attached.stop, body.stop⟩
      attached :: if remainder.empty then [] else paragraphPieces nfc text size remainder
    else paragraphPieces nfc text size heading ++ paragraphPieces nfc text size body

/-- The loop of `_append_block_candidates`. Every round takes a paragraph, so as many rounds as
there are paragraphs are enough. -/
def paragraphsSpans : ℕ → List Span → List Span
  | 0, _ => []
  | _, [] => []
  | rounds + 1, paragraph :: rest =>
    if isMarkdownHeading text paragraph then
      match takeHeadings nfc text size paragraph.start paragraph.stop rest with
      | (headingEnd, []) => paragraphPieces nfc text size ⟨paragraph.start, headingEnd⟩
      | (headingEnd, body :: rest) =>
        attachBody nfc text size paragraph.start headingEnd body ++ paragraphsSpans rounds rest
    else paragraphPieces nfc text size paragraph ++ paragraphsSpans rounds rest

/-- The spans of a block. -/
def blockSpans : List Span :=
  paragraphsSpans nfc text size (paragraphSpans text).length (paragraphSpans text)

end Splitter

/-! ## Chunks -/

section Build

variable (nfc : Composition) (sha256 : Sha256) (documentRevisionId : Text) (size : ℕ)

/-- `_append_candidate` -/
def appendCandidate (block : ParsedBlock) (candidates : List ChunkCandidate) (span : Span) :
    Except ChunkingError (List ChunkCandidate) := do
  let span := trimSpan isSpaceChar block.text span
  let text := normalizeChunkText nfc (slice block.text span)
  if span.empty ∨ text = [] then .ok candidates
  else
    raiseIf (size < text.length) (.runtime "structural splitter produced an oversized chunk")
    .ok (appendChunk sha256 documentRevisionId candidates text (withRange block.locator span))

/-- `_append_block_candidates` -/
def appendBlockCandidates (candidates : List ChunkCandidate) (block : ParsedBlock) :
    Except ChunkingError (List ChunkCandidate) :=
  (blockSpans nfc block.text size).foldlM
    (appendCandidate nfc sha256 documentRevisionId size block) candidates

/-- `build_structural_chunks` -/
def buildStructuralChunks (document : ParsedDocument) (chunkSizeChars chunkOverlapChars : ℤ) :
    Except ChunkingError (List ChunkCandidate) := do
  raiseIf (chunkSizeChars ≤ 0) (.value "chunk_size_chars must be a positive integer")
  raiseIf (chunkOverlapChars ≠ 0) (.value "nonzero chunk overlap is unsupported")
  document.blocks.foldlM
    (appendBlockCandidates nfc sha256 documentRevisionId chunkSizeChars.toNat) []

/-- The two chunkers. -/
inductive Chunker
  | deterministic | structural
  deriving DecidableEq, Repr

def buildChunks (chunker : Chunker) (document : ParsedDocument) (chunkSize overlap : ℤ) :
    Except ChunkingError (List ChunkCandidate) :=
  match chunker with
  | .deterministic =>
    buildDeterministicChunks nfc sha256 documentRevisionId document chunkSize overlap
  | .structural => buildStructuralChunks nfc sha256 documentRevisionId document chunkSize overlap

end Build

end AgentHub.Chunking
