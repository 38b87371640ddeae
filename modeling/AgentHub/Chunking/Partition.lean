import AgentHub.Chunking.Cuts

/-!
# Structural chunks are a bounded partition

Every splitter of the structural chunker turns a stretch of text into trimmed spans that cover it,
whatever the size is; where the size is at least that of one composed character, the spans also fit.
The chunks of a block are these spans, one chunk each, so that every character that is not
whitespace is in the text of exactly one chunk.

## Main definitions

* `Partition nfc text size a b spans`: trimmed spans that cover a stretch and fit
* `spanChunks`, `documentChunks`: the chunks of spans and of blocks, after other chunks
* `IsPartition`, `BoundedPartition`: what is said of the chunks of a document

## Main results

* `partition_boundedPieces`, `partition_paragraphPieces`, `partition_attachBody`,
  `partition_blockSpans`: one for each splitter
* `buildStructuralChunks_eq_ok`: when chunks are returned, and which ones
* `structural_chunks_partition`: the chunks of a document are a bounded partition
-/

namespace AgentHub.Chunking

open Lib Transcript Canonical

/-! ## Partitions -/

/-- The spans cover the stretch from `a` to `b`, are trimmed, and fit where a character does. -/
structure Partition (nfc : Composition) (text : List Char) (size a b : ℕ) (spans : List Span) :
    Prop where
  covers : Covers isSpaceChar text a b spans
  trimmed : ∀ s ∈ spans, Trimmed isSpaceChar text s
  fits : 3 ≤ size → ∀ s ∈ spans, normalizedLength nfc text s ≤ size

variable {nfc : Composition} {text : List Char} {size a b c : ℕ} {s : Span} {l r : List Span}

namespace Partition

theorem nil (hab : a ≤ b) (hblank : BlankOn isSpaceChar text a b) :
    Partition nfc text size a b [] :=
  ⟨⟨hab, hblank⟩, by simp, by simp⟩

theorem append (hl : Partition nfc text size a b l) (hr : Partition nfc text size b c r) :
    Partition nfc text size a c (l ++ r) where
  covers := hl.covers.append hr.covers
  trimmed s hs := (List.mem_append.mp hs).elim (hl.trimmed s) (hr.trimmed s)
  fits hsize s hs := (List.mem_append.mp hs).elim (hl.fits hsize s) (hr.fits hsize s)

theorem left (h : Partition nfc text size b c l) (hab : a ≤ b)
    (hblank : BlankOn isSpaceChar text a b) : Partition nfc text size a c l :=
  ⟨h.covers.left hab hblank, h.trimmed, h.fits⟩

theorem right (h : Partition nfc text size a b l) (hbc : b ≤ c)
    (hblank : BlankOn isSpaceChar text b c) : Partition nfc text size a c l :=
  ⟨h.covers.right hbc hblank, h.trimmed, h.fits⟩

theorem singleton (hs : Trimmed isSpaceChar text s)
    (hfits : 3 ≤ size → normalizedLength nfc text s ≤ size) :
    Partition nfc text size s.start s.stop [s] :=
  ⟨.singleton hs.lt, by simpa using hs, by simpa using hfits⟩

/-- What is covered after trimming is covered. -/
theorem of_trimSpan (hab : a ≤ b) (hb : b ≤ text.length)
    (h : Trimmed isSpaceChar text (trimSpan isSpaceChar text ⟨a, b⟩) →
      Partition nfc text size (trimSpan isSpaceChar text ⟨a, b⟩).start
        (trimSpan isSpaceChar text ⟨a, b⟩).stop l)
    (hnil : (trimSpan isSpaceChar text ⟨a, b⟩).empty = true → l = []) :
    Partition nfc text size a b l := by
  obtain ⟨hbefore, hafter, hstart, hstop, htrimmed | hempty⟩ :=
    trimSpan_spec (p := isSpaceChar) hab hb
  · exact ((h htrimmed).left hstart hbefore).right hstop hafter
  · rw [hempty] at hbefore
    rw [hnil (by simp [hempty, Span.empty])]
    exact .nil hab hbefore

end Partition

theorem not_empty_of_trimmed (h : Trimmed isSpaceChar text s) : ¬ s.empty = true := by
  have := h.lt
  simp only [Span.empty, decide_eq_true_eq]
  omega

/-! ## Splitters -/

variable (nfc size) in
/-- **The end of the next piece**: it moves on, and the piece fits. -/
theorem pieceEnd_spec (hs : Trimmed isSpaceChar text ⟨a, b⟩) :
    a < pieceEnd nfc text size a b ∧ pieceEnd nfc text size a b ≤ b ∧
      (3 ≤ size → normalizedLength nfc text
        (trimSpan isSpaceChar text ⟨a, pieceEnd nfc text size a b⟩) ≤ size) := by
  have hab : a < b := hs.lt
  have hb : b ≤ text.length := hs.le
  have ha : SolidAt isSpaceChar text a := hs.first
  rw [pieceEnd]
  split_ifs with hfits
  · exact ⟨hab, le_rfl, fun _ => by rwa [trimSpan_of_trimmed hs]⟩
  · obtain ⟨-, hle, -⟩ := largestHardPrefixEnd_spec nfc size hab hb
    have hpreferred := preferredPrefixEnd_spec text (largestHardPrefixEnd nfc text size a b)
      (Nat.lt_add_one a)
    have hfits (hsize : 3 ≤ size) := preferredPrefixEnd_fits nfc (m := a + 1) hsize
      (Nat.lt_add_one a) hab hb ha
    dsimp only
    split_ifs with hstuck
    · have hone : min (a + 1) b = a + 1 := by omega
      rw [hone]
      refine ⟨by omega, by omega, fun hsize => ?_⟩
      exact (normalizedLength_trimSpan (by omega) (by omega) ha).trans
        (normalizedLength_one hsize (by omega))
    · exact ⟨by omega, by omega, hfits⟩

/-- **The bounded pieces of a span.** -/
theorem partition_boundedPieces (rounds : ℕ) (span : Span) (hle : span.start ≤ span.stop)
    (hstop : span.stop ≤ text.length) (hrounds : span.stop - span.start ≤ rounds) :
    Partition nfc text size span.start span.stop (boundedPieces nfc text size rounds span) := by
  induction rounds generalizing span with
  | zero =>
    have heq : span.start = span.stop := by omega
    rw [boundedPieces, heq]
    exact .nil le_rfl (.refl _)
  | succ rounds ih =>
    rw [boundedPieces]
    by_cases hlt : span.start < span.stop
    · rw [if_pos hlt]
      dsimp only
      split_ifs with hempty hnopiece
      · exact .of_trimSpan hle hstop (fun h => absurd hempty (not_empty_of_trimmed h)) fun _ => rfl
      all_goals
        refine .of_trimSpan hle hstop (fun hrem => ?_) fun h => absurd h hempty
        obtain ⟨-, -, hstart, hstop', -⟩ := trimSpan_spec (p := isSpaceChar) hle hstop
        generalize trimSpan isSpaceChar text ⟨span.start, span.stop⟩ = remaining at *
        obtain ⟨cursor, stop⟩ := remaining
        obtain ⟨hmoves, hend, hfits⟩ := pieceEnd_spec nfc size hrem
        have hlen : stop ≤ text.length := hrem.le
        obtain ⟨hpiece, htrimmed⟩ := trimSpan_of_solid hmoves (hend.trans hlen) hrem.first
        obtain ⟨-, -, -, hpieceStop, -⟩ :=
          trimSpan_spec (p := isSpaceChar) hmoves.le (hend.trans hlen)
        dsimp only at *
      · exact absurd hnopiece (not_empty_of_trimmed htrimmed)
      · generalize trimSpan isSpaceChar text ⟨cursor, pieceEnd nfc text size cursor stop⟩ = piece
          at *
        have hpieceLt := htrimmed.lt
        have hrest := ih ⟨piece.stop, stop⟩ (by dsimp only; omega) hlen (by dsimp only; omega)
        have hfirst := Partition.singleton htrimmed hfits
        rw [hpiece] at hfirst
        exact hfirst.append hrest
    · have heq : span.start = span.stop := by omega
      rw [if_neg hlt, heq]
      exact .nil le_rfl (.refl _)

theorem partition_boundedSpans (hs : Trimmed isSpaceChar text s) :
    Partition nfc text size s.start s.stop (boundedSpans nfc text size s) :=
  partition_boundedPieces _ s hs.lt.le hs.le le_rfl

/-- A span that fits before the rest. -/
theorem Partition.cons (hcovers : Covers isSpaceChar text a b (s :: l))
    (hs : Trimmed isSpaceChar text s) (hfits : 3 ≤ size → normalizedLength nfc text s ≤ size)
    (hr : Covers isSpaceChar text s.stop b l → Partition nfc text size s.stop b r) :
    Partition nfc text size a b (s :: r) := by
  obtain ⟨hstart, -, hblank, hrest⟩ := hcovers
  exact ((Partition.singleton hs hfits).left hstart hblank).append (hr hrest)

/-- **Groups of sentences**, after a group that fits. -/
theorem partition_groupSentences (group : Option Span) (sentences : List Span)
    (hcovers : Covers isSpaceChar text a b (group.toList ++ sentences))
    (htrimmed : ∀ s ∈ group.toList ++ sentences, Trimmed isSpaceChar text s)
    (hgroup : ∀ g ∈ group, normalizedLength nfc text g ≤ size) :
    Partition nfc text size a b (groupSentences nfc text size group sentences) := by
  induction sentences generalizing a group with
  | nil =>
    rw [List.append_nil] at hcovers htrimmed
    exact ⟨hcovers, htrimmed, fun _ s hs => hgroup s (Option.mem_toList.mp hs)⟩
  | cons sentence sentences ih =>
    have hsentence := htrimmed sentence (by simp)
    have hrest : ∀ s ∈ sentences, Trimmed isSpaceChar text s :=
      fun s hs => htrimmed s (by simp [hs])
    -- a sentence that is too long ends the group and is cut by itself
    have hlong {a : ℕ} (h : Covers isSpaceChar text a b (sentence :: sentences)) :
        Partition nfc text size a b
          (boundedSpans nfc text size sentence ++ groupSentences nfc text size none sentences) := by
      obtain ⟨hstart, -, hblank, hcovers⟩ := h
      exact ((partition_boundedSpans hsentence).left hstart hblank).append
        (ih none hcovers hrest (by simp))
    have hstarts {a : ℕ} (hfits : normalizedLength nfc text sentence ≤ size)
        (h : Covers isSpaceChar text a b (sentence :: sentences)) :
        Partition nfc text size a b (groupSentences nfc text size (some sentence) sentences) :=
      ih (some sentence) h (by simpa using ⟨hsentence, hrest⟩) (by simpa using hfits)
    cases group with
    | none =>
      rw [groupSentences]
      split_ifs with hsize
      · exact hlong hcovers
      · exact hstarts (not_lt.mp hsize) hcovers
    | some g =>
      have hg := htrimmed g (by simp)
      have hgfits := hgroup g rfl
      rw [groupSentences]
      dsimp only
      split_ifs with hsize hjoined
      · exact Partition.cons hcovers hg (fun _ => hgfits) hlong
      · refine ih (some ⟨g.start, sentence.stop⟩) hcovers.join ?_ (by simpa using hjoined)
        have hlt : g.stop ≤ sentence.start := hcovers.2.2.2.1
        have hjoin : Trimmed isSpaceChar text ⟨g.start, sentence.stop⟩ :=
          ⟨by have := hg.lt; have := hsentence.lt; dsimp only; omega, hsentence.le, hg.first,
            hsentence.last⟩
        simpa using ⟨hjoin, hrest⟩
      · exact Partition.cons hcovers hg (fun _ => hgfits) (hstarts (not_lt.mp hsize))

/-- **The pieces of a paragraph.** -/
theorem partition_paragraphPieces (hab : a ≤ b) (hb : b ≤ text.length) :
    Partition nfc text size a b (paragraphPieces nfc text size ⟨a, b⟩) := by
  rw [paragraphPieces]
  dsimp only
  split_ifs with hempty hfits hone
  · exact .of_trimSpan hab hb (fun h => absurd hempty (not_empty_of_trimmed h)) fun _ => rfl
  · exact .of_trimSpan hab hb (fun h => .singleton h fun _ => hfits) fun h => absurd h hempty
  · exact .of_trimSpan hab hb partition_boundedSpans fun h => absurd h hempty
  · refine .of_trimSpan hab hb (fun h => ?_) fun h => absurd h hempty
    obtain ⟨hcovers, htrimmed⟩ := covers_sentenceSpans h
    exact partition_groupSentences none _ hcovers htrimmed (by simp)

theorem partition_remainder (hab : a ≤ b) (hb : b ≤ text.length) :
    Partition nfc text size a b
      (if (trimSpan isSpaceChar text ⟨a, b⟩).empty then []
        else paragraphPieces nfc text size (trimSpan isSpaceChar text ⟨a, b⟩)) := by
  split_ifs with hempty
  · exact .of_trimSpan hab hb (fun h => absurd hempty (not_empty_of_trimmed h)) fun _ => rfl
  · exact .of_trimSpan hab hb (fun h => partition_paragraphPieces h.lt.le h.le)
      fun h => absurd h hempty

/-! ## Headings -/

variable (nfc size) in
theorem takeHeadings_spec (headingEnd : ℕ) (rest : List Span)
    (hheading : Trimmed isSpaceChar text ⟨a, headingEnd⟩)
    (hcovers : Covers isSpaceChar text headingEnd b rest)
    (htrimmed : ∀ s ∈ rest, Trimmed isSpaceChar text s) :
    let result := takeHeadings nfc text size a headingEnd rest
    Trimmed isSpaceChar text ⟨a, result.1⟩ ∧ Covers isSpaceChar text result.1 b result.2 ∧
      (∀ s ∈ result.2, Trimmed isSpaceChar text s) ∧ result.2.length ≤ rest.length := by
  induction rest generalizing headingEnd with
  | nil => exact ⟨hheading, hcovers, htrimmed, le_rfl⟩
  | cons next rest ih =>
    rw [takeHeadings]
    split_ifs with htake
    · obtain ⟨hstart, hlt, -, hrest⟩ := hcovers
      have hnext := htrimmed next List.mem_cons_self
      have hlt' : a < headingEnd := hheading.lt
      have hjoined : Trimmed isSpaceChar text ⟨a, next.stop⟩ :=
        ⟨by dsimp only; omega, hnext.le, hheading.first, hnext.last⟩
      obtain ⟨hhead, hcov, htrim, hlen⟩ := ih next.stop hjoined hrest fun s hs =>
        htrimmed s (List.mem_cons_of_mem _ hs)
      exact ⟨hhead, hcov, htrim, hlen.trans (by simp)⟩
    · exact ⟨hheading, hcovers, htrimmed, le_rfl⟩

/-- **Headings with the paragraph after them.** -/
theorem partition_attachBody {start headingEnd : ℕ} {body : Span}
    (hheading : Trimmed isSpaceChar text ⟨start, headingEnd⟩)
    (hbody : Trimmed isSpaceChar text body) (hle : headingEnd ≤ body.start)
    (hblank : BlankOn isSpaceChar text headingEnd body.start) :
    Partition nfc text size start body.stop (attachBody nfc text size start headingEnd body) := by
  have hlt : start < headingEnd := hheading.lt
  have hbodyLt := hbody.lt
  have hbodyLe := hbody.le
  have hstart : SolidAt isSpaceChar text start := hheading.first
  have hcombined : Trimmed isSpaceChar text ⟨start, body.stop⟩ :=
    ⟨by dsimp only; omega, hbodyLe, hstart, hbody.last⟩
  rw [attachBody]
  dsimp only
  rw [trimSpan_of_trimmed hcombined, trimSpan_of_trimmed hheading]
  have hhard := largestHardPrefixEnd_spec nfc size
    (by omega : start < body.stop) hbodyLe
  have hpreferred := preferredPrefixEnd_spec text
    (largestHardPrefixEnd nfc text size start body.stop) (by omega : start < body.start + 1)
  have hfits (hsize : 3 ≤ size) := preferredPrefixEnd_fits nfc hsize
    (by omega : start < body.start + 1) (by omega : start < body.stop) hbodyLe hstart
  dsimp only at *
  generalize preferredPrefixEnd text start (largestHardPrefixEnd nfc text size start body.stop)
    (body.start + 1) = attachEnd at *
  by_cases hall : normalizedLength nfc text ⟨start, body.stop⟩ ≤ size
  · rw [if_pos hall]
    exact .singleton hcombined fun _ => hall
  rw [if_neg hall]
  split
  · next hattach =>
    obtain ⟨-, hreaches⟩ := hattach
    obtain ⟨-, -, -, hstop, -⟩ := trimSpan_spec (p := isSpaceChar) (t := text)
      (by omega : start ≤ attachEnd) (by omega)
    obtain ⟨hfirst, htrimmed⟩ :=
      trimSpan_of_solid (by omega : start < attachEnd) (by omega) hstart
    have hattached := Partition.singleton htrimmed hfits
    rw [hfirst] at hattached
    exact hattached.append (partition_remainder (by omega) hbodyLe)
  · have hheadingPieces : Partition nfc text size start headingEnd
        (paragraphPieces nfc text size ⟨start, headingEnd⟩) :=
      partition_paragraphPieces hlt.le (by omega)
    exact (hheadingPieces.right hle hblank).append (partition_paragraphPieces hbodyLt.le hbodyLe)

/-- **The spans of paragraphs.** -/
theorem partition_paragraphsSpans (rounds : ℕ) (paragraphs : List Span)
    (hrounds : paragraphs.length ≤ rounds) (hcovers : Covers isSpaceChar text a b paragraphs)
    (htrimmed : ∀ s ∈ paragraphs, Trimmed isSpaceChar text s) :
    Partition nfc text size a b (paragraphsSpans nfc text size rounds paragraphs) := by
  induction rounds generalizing a paragraphs with
  | zero =>
    obtain rfl := List.length_eq_zero_iff.mp (Nat.le_zero.mp hrounds)
    exact .nil hcovers.1 hcovers.2
  | succ rounds ih =>
    cases paragraphs with
    | nil => exact .nil hcovers.1 hcovers.2
    | cons paragraph rest =>
      obtain ⟨hstart, hlt, hblank, hrest⟩ := hcovers
      have hparagraph := htrimmed paragraph List.mem_cons_self
      have hrestTrimmed : ∀ s ∈ rest, Trimmed isSpaceChar text s := fun s hs =>
        htrimmed s (List.mem_cons_of_mem _ hs)
      rw [List.length_cons] at hrounds
      refine Partition.left ?_ hstart hblank
      rw [paragraphsSpans]
      split_ifs with hheading
      · obtain ⟨hhead, hcov, htrim, hlen⟩ := takeHeadings_spec nfc size
          paragraph.stop rest hparagraph hrest hrestTrimmed
        split
        · next headingEnd htake =>
          rw [htake] at hhead hcov
          exact (partition_paragraphPieces hhead.lt.le hhead.le).right hcov.1 hcov.2
        · next headingEnd body rest' htake =>
          rw [htake] at hhead hcov htrim hlen
          obtain ⟨hbodyStart, -, hbodyBlank, hcov⟩ := hcov
          rw [List.length_cons] at hlen
          exact (partition_attachBody hhead (htrim body List.mem_cons_self) hbodyStart
            hbodyBlank).append (ih rest' (by omega) hcov fun s hs =>
              htrim s (List.mem_cons_of_mem _ hs))
      · exact (partition_paragraphPieces hlt.le hparagraph.le).append
          (ih rest (by omega) hrest hrestTrimmed)

/-- **The spans of a block.** -/
theorem partition_blockSpans (nfc : Composition) (text : List Char) (size : ℕ) :
    Partition nfc text size 0 text.length (blockSpans nfc text size) := by
  obtain ⟨hcovers, htrimmed⟩ := covers_paragraphSpans text
  exact partition_paragraphsSpans _ _ le_rfl hcovers htrimmed

/-! ## Chunks -/

section Chunks

variable (nfc : Composition) (sha256 : Sha256) (documentRevisionId : Text)

/-- The chunks of spans of a block, after `n` chunks. -/
def spanChunks (block : ParsedBlock) (n : ℕ) (spans : List Span) : List ChunkCandidate :=
  (spans.zipIdx n).map fun (s, ordinal) =>
    chunkCandidate sha256 documentRevisionId ordinal
      (normalizeChunkText nfc (slice block.text s)) (withRange block.locator s)

variable {sha256 documentRevisionId} {block : ParsedBlock}

/-- A span with solid ends has text. -/
theorem normalizeChunkText_slice_ne_nil (hs : Trimmed isSpaceChar text s) :
    normalizeChunkText nfc (slice text s) ≠ [] := by
  obtain ⟨c, hc, hsolid⟩ := hs.first
  refine normalizeChunkText_ne_nil ⟨c, ?_, hsolid⟩
  rw [show slice text s = c :: slice text ⟨s.start + 1, s.stop⟩ from slice_cons hs.lt hc]
  exact List.mem_cons_self

variable {candidates chunks : List ChunkCandidate} {blocks : List ParsedBlock}

/-- **One span**: where it fits, its chunk is appended. -/
theorem appendCandidate_eq_ok (hs : Trimmed isSpaceChar block.text s) :
    appendCandidate nfc sha256 documentRevisionId size block candidates s = .ok chunks ↔
      normalizedLength nfc block.text s ≤ size ∧
        chunks = candidates ++
          spanChunks nfc sha256 documentRevisionId block candidates.length [s] := by
  rw [appendCandidate, trimSpan_of_trimmed hs,
    if_neg (not_or.mpr ⟨not_empty_of_trimmed hs, normalizeChunkText_slice_ne_nil nfc hs⟩),
    bind_eq_ok]
  simp only [raiseIf_eq_ok, Except.ok.injEq, not_lt]
  constructor
  · rintro ⟨-, hfits, rfl⟩
    exact ⟨hfits, rfl⟩
  · rintro ⟨hfits, rfl⟩
    exact ⟨(), hfits, rfl⟩

/-- **The spans of a block**, one after the other. -/
theorem foldlM_appendCandidate_eq_ok (hspans : ∀ s ∈ l, Trimmed isSpaceChar block.text s) :
    l.foldlM (appendCandidate nfc sha256 documentRevisionId size block) candidates = .ok chunks ↔
      (∀ s ∈ l, normalizedLength nfc block.text s ≤ size) ∧
        chunks = candidates ++
          spanChunks nfc sha256 documentRevisionId block candidates.length l := by
  induction l generalizing candidates with
  | nil => simp [spanChunks, eq_comm]
  | cons s l ih =>
    obtain ⟨hs, hl⟩ := List.forall_mem_cons.mp hspans
    rw [List.foldlM_cons, bind_eq_ok]
    simp only [appendCandidate_eq_ok nfc hs, ih hl, List.forall_mem_cons]
    constructor
    · rintro ⟨next, ⟨hfits, rfl⟩, hrest, rfl⟩
      exact ⟨⟨hfits, hrest⟩, by simp [spanChunks, List.zipIdx_cons]⟩
    · rintro ⟨⟨hfits, hrest⟩, rfl⟩
      exact ⟨_, ⟨hfits, rfl⟩, hrest, by simp [spanChunks, List.zipIdx_cons]⟩

variable (sha256 documentRevisionId) in
/-- The chunks of blocks, after `n` chunks. -/
def documentChunks (size : ℕ) : ℕ → List ParsedBlock → List ChunkCandidate
  | _, [] => []
  | n, block :: blocks =>
    spanChunks nfc sha256 documentRevisionId block n (blockSpans nfc block.text size) ++
      documentChunks size (n + (blockSpans nfc block.text size).length) blocks

theorem foldlM_appendBlockCandidates_eq_ok :
    blocks.foldlM (appendBlockCandidates nfc sha256 documentRevisionId size) candidates =
        .ok chunks ↔
      (∀ block ∈ blocks, ∀ s ∈ blockSpans nfc block.text size,
        normalizedLength nfc block.text s ≤ size) ∧
      chunks = candidates ++
        documentChunks nfc sha256 documentRevisionId size candidates.length blocks := by
  induction blocks generalizing candidates with
  | nil => simp [documentChunks, eq_comm]
  | cons block blocks ih =>
    rw [List.foldlM_cons, bind_eq_ok]
    simp only [appendBlockCandidates, ih, List.forall_mem_cons, documentChunks,
      foldlM_appendCandidate_eq_ok nfc (partition_blockSpans nfc block.text size).trimmed]
    have hlength (n : ℕ) (spans : List Span) :
        (spanChunks nfc sha256 documentRevisionId block n spans).length = spans.length := by
      simp [spanChunks]
    constructor
    · rintro ⟨next, ⟨hfits, rfl⟩, hrest, rfl⟩
      exact ⟨⟨hfits, hrest⟩, by rw [List.length_append, hlength, List.append_assoc]⟩
    · rintro ⟨⟨hfits, hrest⟩, rfl⟩
      exact ⟨_, ⟨hfits, rfl⟩, hrest, by rw [List.length_append, hlength, List.append_assoc]⟩

/-- **The structural chunker**: it returns exactly where all spans fit, and what it returns. -/
theorem buildStructuralChunks_eq_ok {document : ParsedDocument} {chunkSize overlap : ℤ} :
    buildStructuralChunks nfc sha256 documentRevisionId document chunkSize overlap = .ok chunks ↔
      0 < chunkSize ∧ overlap = 0 ∧
        (∀ block ∈ document.blocks, ∀ s ∈ blockSpans nfc block.text chunkSize.toNat,
          normalizedLength nfc block.text s ≤ chunkSize.toNat) ∧
        chunks = documentChunks nfc sha256 documentRevisionId chunkSize.toNat 0
          document.blocks := by
  rw [buildStructuralChunks]
  simp only [bind_eq_ok, raiseIf_eq_ok, not_le, ne_eq, not_not,
    foldlM_appendBlockCandidates_eq_ok, List.nil_append, List.length_nil, exists_and_left,
    exists_const]

theorem map_spanChunks (n : ℕ) (spans : List Span) :
    (spanChunks nfc sha256 documentRevisionId block n spans).map
        (fun chunk => (chunk.text, chunk.locator)) =
      spans.map fun s =>
        (normalizeChunkText nfc (slice block.text s), withRange block.locator s) := by
  induction spans generalizing n with
  | nil => rfl
  | cons s spans ih =>
    have hcons : spanChunks nfc sha256 documentRevisionId block n (s :: spans) =
        chunkCandidate sha256 documentRevisionId n (normalizeChunkText nfc (slice block.text s))
          (withRange block.locator s) ::
          spanChunks nfc sha256 documentRevisionId block (n + 1) spans := by
      simp [spanChunks, List.zipIdx_cons]
    rw [hcons, List.map_cons, ih, List.map_cons]
    rfl

/-- Texts and locators, block by block and span by span. -/
theorem map_documentChunks (n : ℕ) (blocks : List ParsedBlock) :
    (documentChunks nfc sha256 documentRevisionId size n blocks).map
        (fun chunk => (chunk.text, chunk.locator)) =
      blocks.flatMap fun block => (blockSpans nfc block.text size).map fun s =>
        (normalizeChunkText nfc (slice block.text s), withRange block.locator s) := by
  induction blocks generalizing n with
  | nil => rfl
  | cons block blocks ih =>
    rw [documentChunks, List.map_append, map_spanChunks, ih, List.flatMap_cons]

/-- Every chunk is the text of a span of a block. -/
theorem exists_of_mem_documentChunks {n : ℕ} {chunk : ChunkCandidate}
    (h : chunk ∈ documentChunks nfc sha256 documentRevisionId size n blocks) :
    ∃ block ∈ blocks, ∃ s ∈ blockSpans nfc block.text size,
      chunk.text = normalizeChunkText nfc (slice block.text s) ∧
        chunk.locator = withRange block.locator s := by
  have hmem := List.mem_map_of_mem (f := fun chunk => (chunk.text, chunk.locator)) h
  rw [map_documentChunks, List.mem_flatMap] at hmem
  obtain ⟨block, hblock, hmem⟩ := hmem
  obtain ⟨s, hs, heq⟩ := List.mem_map.mp hmem
  exact ⟨block, hblock, s, hs, (congrArg Prod.fst heq).symm, (congrArg Prod.snd heq).symm⟩

variable (sha256 documentRevisionId) in
/-- Every span of a block is the text of a chunk. -/
theorem exists_mem_documentChunks (n : ℕ) (hblock : block ∈ blocks)
    (hs : s ∈ blockSpans nfc block.text size) :
    ∃ chunk ∈ documentChunks nfc sha256 documentRevisionId size n blocks,
      chunk.text = normalizeChunkText nfc (slice block.text s) ∧
        chunk.locator = withRange block.locator s := by
  have hmem : (normalizeChunkText nfc (slice block.text s), withRange block.locator s) ∈
      (documentChunks nfc sha256 documentRevisionId size n blocks).map
        fun chunk => (chunk.text, chunk.locator) := by
    rw [map_documentChunks]
    exact List.mem_flatMap.mpr ⟨block, hblock, List.mem_map.mpr ⟨s, hs, rfl⟩⟩
  obtain ⟨chunk, hchunk, heq⟩ := List.mem_map.mp hmem
  exact ⟨chunk, hchunk, (Prod.mk.inj heq).1, (Prod.mk.inj heq).2⟩

end Chunks

/-! ## The partition -/

/-- Spans in order that do not overlap, with every solid character in exactly one of them. -/
structure IsPartition (text : List Char) (spans : List Span) : Prop where
  increasing : spans.Pairwise fun s u => s.stop ≤ u.start
  within : ∀ s ∈ spans, s.start < s.stop ∧ s.stop ≤ text.length
  covers : ∀ i, SolidAt isSpaceChar text i → ∃! s, s ∈ spans ∧ s.start ≤ i ∧ i < s.stop

theorem Partition.isPartition {spans : List Span}
    (h : Partition nfc text size 0 text.length spans) : IsPartition text spans where
  increasing := h.covers.pairwise
  within s hs := (h.covers.within hs).2
  covers i hi := by
    obtain ⟨s, hs, hmem⟩ := h.covers.exists_mem (Nat.zero_le i) hi.lt hi
    exact ⟨s, ⟨hs, hmem⟩, fun u ⟨hu, hmemu⟩ => eq_of_mem_both h.covers.pairwise hu hs hmemu hmem⟩

/-- Chunks that are, block by block, the text of the spans of a partition, and fit. -/
def BoundedPartition (nfc : Composition) (document : ParsedDocument) (size : ℤ)
    (chunks : List ChunkCandidate) : Prop :=
  (∀ chunk ∈ chunks, (chunk.text.length : ℤ) ≤ size) ∧
    ∃ spans : List (List Span),
      List.Forall₂ (fun block spans => IsPartition block.text spans) document.blocks spans ∧
      chunks.map (fun chunk => (chunk.text, chunk.locator)) =
        (document.blocks.zip spans).flatMap fun (block, spans) =>
          spans.map fun s => (normalizeChunkText nfc (slice block.text s),
            withRange block.locator s)

/-- **Structural chunking is a bounded partition**, for every size that holds a character. -/
theorem structural_chunks_partition (nfc : Composition) (sha256 : Sha256)
    (documentRevisionId : Text) (document : ParsedDocument) (chunkSize : ℤ) (h : 3 ≤ chunkSize) :
    ∃ chunks, buildStructuralChunks nfc sha256 documentRevisionId document chunkSize 0 =
        .ok chunks ∧ BoundedPartition nfc document chunkSize chunks := by
  have hsize : 3 ≤ chunkSize.toNat := by omega
  have hfits (block : ParsedBlock) := (partition_blockSpans nfc block.text chunkSize.toNat).fits
    hsize
  refine ⟨_, (buildStructuralChunks_eq_ok nfc).mpr ⟨by omega, rfl, fun block _ => hfits block, rfl⟩,
    fun chunk hchunk => ?_, document.blocks.map fun block =>
      blockSpans nfc block.text chunkSize.toNat, ?_, ?_⟩
  · obtain ⟨block, -, s, hs, htext, -⟩ := exists_of_mem_documentChunks nfc hchunk
    have hlength : chunk.text.length ≤ chunkSize.toNat := htext ▸ hfits block s hs
    omega
  · rw [List.forall₂_map_right_iff, List.forall₂_same]
    exact fun block _ => (partition_blockSpans nfc block.text chunkSize.toNat).isPartition
  · rw [map_documentChunks, List.zip_map_right, List.zip_eq_zipWith, List.zipWith_self,
      List.flatMap_map, List.flatMap_map]
    rfl

/-- A heading with its paragraph, and a text that has to be cut. -/
def guide : ParsedDocument :=
  let text := "# A\n\nOne. Two three".toList
  ⟨[⟨text, textLocator text⟩]⟩

theorem structural_chunks_partition_guide :
    (3 : ℤ) ≤ 6 ∧ ∃ chunks,
      buildStructuralChunks plainComposition zeroDigest (Text.ofString "revision") guide 6 0 =
        .ok chunks ∧ BoundedPartition plainComposition guide 6 chunks :=
  ⟨by decide, structural_chunks_partition plainComposition zeroDigest _ guide 6 (by decide)⟩

end AgentHub.Chunking
