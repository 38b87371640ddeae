import AgentHub.Lib.NormalForm
import AgentHub.Lib.Spans
import AgentHub.Core.Canonical

/-!
# Parsed documents and their chunks

The parser makes one block of a text file and one block of each page of a PDF; parsed text has a
UTF-8 form, so it is a sequence of characters. A chunk is a piece of a block: its text normalised,
with a locator, and with an identifier made from its position and its content. The deterministic
chunker slides a window over the normalised text of a block.

## Main definitions

* `ParsedBlock`, `ParsedDocument`, `parseContent`: what the parser returns
* `normalizeChunkText`: the text of a chunk
* `ChunkCandidate`, `appendChunk`: chunks, and one more of them
* `windows`, `buildDeterministicChunks`: the deterministic chunker

## Main results

* `mem_windows`, `window_mem`: the windows, and that every stretch is one for some size and overlap
* `buildDeterministicChunks_eq_ok`, `map_foldl_appendBlockWindows`: the chunks are those windows
  that have text
* `normalizeChunkText_ne_nil`: solid text leaves something
* `length_normalizeChunkText_le`: a front part that is cut well is not longer
-/

namespace AgentHub.Chunking

open Lib Transcript Canonical

/-! ## Documents -/

structure ParsedBlock where
  text : List Char
  locator : JsonObject

structure ParsedDocument where
  blocks : List ParsedBlock

/-- `_ParserFailure` -/
structure ParserFailure where
  code : String
  message : String
  deriving DecidableEq, Repr

inductive MediaType
  | plain | markdown | pdf | other
  deriving DecidableEq, Repr

/-- What reading the content gives: the decoded text, and the texts of the pages. -/
structure Content where
  decoded : Option (List Char)
  pages : Option (List (List Char))

def textLocator (text : List Char) : JsonObject :=
  named [("type", .str (Text.ofString "text_range")), ("char_start", .int 0),
    ("char_end", .int text.length)]

def pageLocator (page : ℕ) : JsonObject :=
  named [("type", .str (Text.ofString "page")), ("page", .int page)]

/-- The loop over the pages, from the number `page` on. -/
def pageBlocks (maxParsedChars : ℕ) (page parsedChars : ℕ) :
    List (List Char) → Except ParserFailure (List ParsedBlock)
  | [] => .ok []
  | text :: pages => do
    raiseIf (maxParsedChars < parsedChars + text.length)
      ⟨"RESOURCE_LIMIT_EXCEEDED", "The parsed document exceeds the configured limit."⟩
    let blocks ← pageBlocks maxParsedChars (page + 1) (parsedChars + text.length) pages
    .ok (if text = [] then blocks else ⟨text, pageLocator page⟩ :: blocks)

/-- The text files of `_parse_content`. -/
def parseText (decoded : Option (List Char)) (maxParsedChars : ℕ) :
    Except ParserFailure ParsedDocument :=
  match decoded with
  | none => .error ⟨"PARSE_FAILED", "The text file is not valid UTF-8."⟩
  | some text => do
    raiseIf ('\x00' ∈ text)
      ⟨"PARSE_FAILED", "The text file contains invalid characters."⟩
    raiseIf (maxParsedChars < text.length)
      ⟨"RESOURCE_LIMIT_EXCEEDED", "The parsed document exceeds the configured limit."⟩
    .ok ⟨[⟨text, textLocator text⟩]⟩

/-- `_parse_content` -/
def parseContent (content : Content) (media : MediaType) (maxPdfPages maxParsedChars : ℕ) :
    Except ParserFailure ParsedDocument :=
  match media with
  | .plain | .markdown => parseText content.decoded maxParsedChars
  | .pdf =>
    match content.pages with
    | none => .error ⟨"PARSE_FAILED", "The PDF could not be parsed."⟩
    | some pages => do
      raiseIf (maxPdfPages < pages.length)
        ⟨"RESOURCE_LIMIT_EXCEEDED", "The PDF exceeds the configured page limit."⟩
      let blocks ← pageBlocks maxParsedChars 1 0 pages
      raiseIf (blocks.isEmpty = true)
        ⟨"PARSE_FAILED", "The document contains no extractable text."⟩
      .ok ⟨blocks⟩
  | .other => .error ⟨"UNSUPPORTED_FILE", "The document type is not supported."⟩

/-! ## Chunks -/

/-- `_CHINESE_SENTENCE_TERMINALS` -/
def isChineseTerminal (c : Char) : Bool := c ∈ ['。', '！', '？']

/-- `_ENGLISH_SENTENCE_TERMINALS` -/
def isEnglishTerminal (c : Char) : Bool := c ∈ ['.', '!', '?']

/-- `_CLOSING_PUNCTUATION` -/
def isClosing (c : Char) : Bool :=
  c ∈ ['"', '\x27', '”', '’', '」', '』', '】', '）', '》', '〉']

/-- The characters at which chunkers cut text; canonical composition leaves them alone. -/
def isBoundary (c : Char) : Bool :=
  isSpaceChar c || isChineseTerminal c || isEnglishTerminal c || isClosing c

/-- `unicodedata.normalize("NFC", …)` -/
abbrev Composition := Nfc isBoundary

/-- Text in which no characters compose. -/
def plainComposition : Composition := .plain isBoundary fun c hc => by simp [isBoundary, hc]

inductive ChunkingError
  | value (message : String)
  | runtime (message : String)
  deriving DecidableEq, Repr

structure ChunkCandidate where
  chunkId : Text
  ordinal : ℕ
  normalizedContentHash : Text
  text : List Char
  locator : JsonObject

section Normalize

variable (nfc : Composition)

/-- `normalize_chunk_text` -/
def normalizeChunkText (text : List Char) : List Char :=
  strip isSpaceChar (nfc.normalize (foldNewlines text))

variable {nfc} {t a b : List Char}

theorem ne_newline {c : Char} (h : isSpaceChar c = false) : c ≠ '\r' ∧ c ≠ '\n' := by
  constructor <;> rintro rfl <;> revert h <;> decide

/-- Solid text leaves something. -/
theorem normalizeChunkText_ne_nil (h : ∃ c ∈ t, isSpaceChar c = false) :
    normalizeChunkText nfc t ≠ [] := by
  obtain ⟨c, hc, hsolid⟩ := h
  have hfolded : c ∈ foldNewlines t :=
    mem_foldNewlinesFrom_of_mem hc (ne_newline hsolid).1 (ne_newline hsolid).2 false
  obtain ⟨d, hd, hdsolid⟩ := nfc.exists_solid ⟨c, hfolded, hsolid⟩
  intro hnil
  have hall := strip_eq_nil_iff.mp hnil d hd
  rw [hdsolid] at hall
  cases hall

/-- **A front part is not longer** when normalised, where it ends with a solid character, and
the cut is at a boundary. -/
theorem length_normalizeChunkText_le {c : Char} (hlast : a.getLast? = some c)
    (hsolid : isSpaceChar c = false)
    (hcut : isBoundary c = true ∨ ∃ d ∈ b.head?, isBoundary (foldChar d) = true) :
    (normalizeChunkText nfc a).length ≤ (normalizeChunkText nfc (a ++ b)).length := by
  obtain ⟨hr, hn⟩ := ne_newline hsolid
  have hfold : foldNewlines (a ++ b) = foldNewlines a ++ foldNewlines b :=
    foldNewlines_append (.inl (by simpa [hlast] using hr))
  have hboundary : (∃ c ∈ (foldNewlines a).getLast?, isBoundary c = true) ∨
      ∃ d ∈ (foldNewlines b).head?, isBoundary d = true := by
    rcases hcut with hc | ⟨d, hd, hboundary⟩
    · exact .inl ⟨c, getLast?_foldNewlines hlast hr hn, hc⟩
    · refine .inr ⟨foldChar d, ?_, hboundary⟩
      rw [head?_foldNewlines, hd]
      rfl
  rw [normalizeChunkText, normalizeChunkText, hfold, nfc.normalize_cut hboundary]
  exact length_strip_le _ _

/-- One character is at most three. -/
theorem length_normalizeChunkText_singleton (c : Char) :
    (normalizeChunkText nfc [c]).length ≤ 3 := by
  rw [normalizeChunkText, foldNewlines_singleton]
  exact (length_strip_le_self _).trans (nfc.length_normalize_singleton (foldChar c))

end Normalize

/-! ## Candidates -/

section Candidates

variable (sha256 : Sha256) (documentRevisionId : Text)

/-- A chunk with its identifiers, by its place among the chunks of the document. -/
def chunkCandidate (ordinal : ℕ) (text : List Char) (locator : JsonObject) : ChunkCandidate :=
  let contentHash := sha256.hexdigest (text.map .scalar)
  { chunkId := canonicalJsonHash sha256 (.obj (named [
      ("document_revision_id", .str documentRevisionId), ("ordinal", .int ordinal),
      ("normalized_content_hash", .str contentHash)]))
    ordinal
    normalizedContentHash := contentHash
    text
    locator }

/-- `candidates.append(ChunkCandidate(…))` -/
def appendChunk (candidates : List ChunkCandidate) (text : List Char) (locator : JsonObject) :
    List ChunkCandidate :=
  candidates ++ [chunkCandidate sha256 documentRevisionId candidates.length text locator]

/-- The start of the block where its locator has one. -/
def baseOf (locator : JsonObject) : ℕ :=
  match Json.get? locator (Text.ofString "char_start") with
  | some (.int start) => start.toNat
  | _ => 0

/-- The locator with the ends of a span. -/
def withRange (locator : JsonObject) (span : Span) : JsonObject :=
  let base := baseOf locator
  Json.set (Json.set locator (Text.ofString "char_start") (.int (base + span.start : ℕ)))
    (Text.ofString "char_end") (.int (base + span.stop : ℕ))

end Candidates

/-! ## The deterministic chunker -/

/-- The windows of a text of length `n`, from `start` on. Every round moves by `step`, so `n`
rounds are enough. -/
def windows (n size step : ℕ) : ℕ → ℕ → List Span
  | 0, _ => []
  | rounds + 1, start =>
    if start < n then
      let stop := min (start + size) n
      ⟨start, stop⟩ :: if stop = n then [] else windows n size step rounds (start + step)
    else []

theorem mem_windows {n size step rounds start : ℕ} (hsize : 0 < size) {s : Span}
    (h : s ∈ windows n size step rounds start) : s.start < s.stop ∧ s.stop ≤ n := by
  induction rounds generalizing start with
  | zero => cases h
  | succ rounds ih =>
    rw [windows] at h
    dsimp only at h
    split_ifs at h with hlt hlast
    · obtain rfl := List.mem_singleton.mp h
      dsimp only
      omega
    · rcases List.mem_cons.mp h with rfl | h
      · dsimp only
        omega
      · exact ih h
    · cases h

/-- **Every stretch is a window**, of its size and the largest overlap. -/
theorem window_mem {n a b : ℕ} (hab : a < b) (hb : b ≤ n) :
    (⟨a, b⟩ : Span) ∈ windows n (b - a) 1 n 0 := by
  have hfrom (rounds start : ℕ) (hstart : start ≤ a) (hrounds : a < start + rounds) :
      (⟨a, b⟩ : Span) ∈ windows n (b - a) 1 rounds start := by
    induction rounds generalizing start with
    | zero => omega
    | succ rounds ih =>
      rw [windows, if_pos (by omega)]
      dsimp only
      rcases Nat.lt_or_ge start a with hlt | hge
      · rw [if_neg (by omega)]
        exact List.mem_cons_of_mem _ (ih (start + 1) hlt (by omega))
      · obtain rfl : start = a := by omega
        rw [show min (start + (b - start)) n = b by omega]
        exact List.mem_cons_self
  exact hfrom n 0 (Nat.zero_le a) (by omega)

/-- The locator of a window. -/
def windowLocator (locator : JsonObject) (span : Span) : JsonObject :=
  match Json.get? locator (Text.ofString "type") with
  | some (.str type) =>
    if type = Text.ofString "text_range" then withRange locator span else locator
  | _ => locator

section Deterministic

variable (nfc : Composition) (sha256 : Sha256) (documentRevisionId : Text)

/-- One window of a block whose normalised text is `text`. -/
def appendWindow (locator : JsonObject) (text : List Char) (candidates : List ChunkCandidate)
    (span : Span) : List ChunkCandidate :=
  let content := normalizeChunkText nfc (slice text span)
  if content = [] then candidates
  else appendChunk sha256 documentRevisionId candidates content (windowLocator locator span)

def appendBlockWindows (size step : ℕ) (candidates : List ChunkCandidate) (block : ParsedBlock) :
    List ChunkCandidate :=
  let text := normalizeChunkText nfc block.text
  (windows text.length size step text.length 0).foldl
    (appendWindow nfc sha256 documentRevisionId block.locator text) candidates

/-- `build_deterministic_chunks` -/
def buildDeterministicChunks (document : ParsedDocument) (chunkSizeChars chunkOverlapChars : ℤ) :
    Except ChunkingError (List ChunkCandidate) := do
  raiseIf (chunkSizeChars ≤ 0 ∨ ¬ (0 ≤ chunkOverlapChars ∧ chunkOverlapChars < chunkSizeChars))
    (.value "chunk overlap must be smaller than a positive chunk size")
  let step := chunkSizeChars - chunkOverlapChars
  .ok (document.blocks.foldl
    (appendBlockWindows nfc sha256 documentRevisionId chunkSizeChars.toNat step.toNat) [])

/-- The texts and locators of the windows of a block that have text. -/
def windowTexts (size step : ℕ) (block : ParsedBlock) : List (List Char × JsonObject) :=
  let text := normalizeChunkText nfc block.text
  ((windows text.length size step text.length 0).map fun s =>
    (normalizeChunkText nfc (slice text s), windowLocator block.locator s)).filter
      fun chunk => chunk.1 ≠ []

variable {nfc sha256 documentRevisionId}

theorem map_foldl_appendWindow (locator : JsonObject) (text : List Char) (spans : List Span)
    (candidates : List ChunkCandidate) :
    (spans.foldl (appendWindow nfc sha256 documentRevisionId locator text) candidates).map
        (fun chunk => (chunk.text, chunk.locator)) =
      candidates.map (fun chunk => (chunk.text, chunk.locator)) ++
        (spans.map fun s => (normalizeChunkText nfc (slice text s), windowLocator locator s)).filter
          fun chunk => chunk.1 ≠ [] := by
  induction spans generalizing candidates with
  | nil => simp
  | cons s spans ih =>
    rw [List.foldl_cons, ih, appendWindow, List.map_cons, List.filter_cons]
    dsimp only
    split_ifs with hnil hne hne
    · exact absurd hnil (by simpa using hne)
    · rfl
    · simp [appendChunk, chunkCandidate]
    · exact absurd hnil (by simpa using hne)

theorem map_foldl_appendBlockWindows (size step : ℕ) (blocks : List ParsedBlock)
    (candidates : List ChunkCandidate) :
    (blocks.foldl (appendBlockWindows nfc sha256 documentRevisionId size step) candidates).map
        (fun chunk => (chunk.text, chunk.locator)) =
      candidates.map (fun chunk => (chunk.text, chunk.locator)) ++
        blocks.flatMap (windowTexts nfc size step) := by
  induction blocks generalizing candidates with
  | nil => simp
  | cons block blocks ih =>
    rw [List.foldl_cons, ih, appendBlockWindows, map_foldl_appendWindow, List.flatMap_cons,
      List.append_assoc]
    rfl

variable (nfc sha256 documentRevisionId) in
/-- **The deterministic chunker**: the sizes it accepts, and the chunks. -/
theorem buildDeterministicChunks_eq_ok (document : ParsedDocument) (chunkSize overlap : ℤ)
    {chunks : List ChunkCandidate} :
    buildDeterministicChunks nfc sha256 documentRevisionId document chunkSize overlap =
        .ok chunks ↔
      (0 < chunkSize ∧ 0 ≤ overlap ∧ overlap < chunkSize) ∧
        chunks = document.blocks.foldl (appendBlockWindows nfc sha256 documentRevisionId
          chunkSize.toNat (chunkSize - overlap).toNat) [] := by
  rw [buildDeterministicChunks]
  simp only [bind_eq_ok, raiseIf_eq_ok, Except.ok.injEq, exists_const, eq_comm (b := chunks)]
  refine and_congr_left' ?_
  omega

end Deterministic

end AgentHub.Chunking
