import AgentHub.Lib.Framing

/-!
# The event stream reader of the web client

`SseFrameBuffer` turns the chunks of a response into frames: every chunk has its line endings
normalised and is added to the buffer, and frames are cut off at blank lines. The frames of a
text then depend on how it is cut into chunks: a cut inside a CRLF pair makes two line ends of
the pair, so that a frame ends there.

## Main definitions

* `SseFrameBuffer.push`, `SseFrameBuffer.flush`: the reader
* `frames`: the frames of a response that arrives in chunks
* `segments`: the response cut at the CRLF pairs that two chunks share

## Main results

* `frames_chunking_iff`: for which chunks the frames are those of the whole text
-/

namespace AgentHub.Web

open Lib

/-- A string of the client: its UTF-16 code units. -/
abbrev JsString := List UInt16

namespace JsString

def ofString (s : String) : JsString := s.toList.map fun c => UInt16.ofNat c.toNat

end JsString

def lineFeed : UInt16 := 0x0A
def carriageReturn : UInt16 := 0x0D

/-- What `trim` removes: white space and line terminators. -/
def isWhiteSpace (c : UInt16) : Bool :=
  (0x09 ≤ c && c ≤ 0x0D) || c == 0x20 || c == 0xA0 || c == 0x1680 || (0x2000 ≤ c && c ≤ 0x200A) ||
    c == 0x2028 || c == 0x2029 || c == 0x202F || c == 0x205F || c == 0x3000 || c == 0xFEFF

/-- `replace(/\r\n/g, "\n")` -/
def replaceCrLf : JsString → JsString
  | a :: b :: s =>
    if a = carriageReturn ∧ b = lineFeed then lineFeed :: replaceCrLf s
    else a :: replaceCrLf (b :: s)
  | s => s

/-- `replace(/\r/g, "\n")` -/
def replaceCr (s : JsString) : JsString := s.map fun c => if c = carriageReturn then lineFeed else c

def normaliseLineEndings (chunk : JsString) : JsString := replaceCr (replaceCrLf chunk)

structure SseFrameBuffer where
  buffer : JsString := []

namespace SseFrameBuffer

/-- The frames that a chunk completes. -/
def push (b : SseFrameBuffer) (chunk : JsString) : List JsString × SseFrameBuffer :=
  let buffer := b.buffer ++ normaliseLineEndings chunk
  let next := takeFrames lineFeed buffer.length buffer
  (next.1, ⟨next.2⟩)

/-- Whatever the server left unterminated when the stream ended. -/
def flush (b : SseFrameBuffer) : List JsString × SseFrameBuffer :=
  (if strip isWhiteSpace b.buffer = [] then [] else [b.buffer], ⟨[]⟩)

/-- The chunks are pushed as they are read. -/
def pushAll : SseFrameBuffer → List JsString → List JsString × SseFrameBuffer
  | b, [] => ([], b)
  | b, chunk :: chunks =>
    let first := b.push chunk
    let rest := first.2.pushAll chunks
    (first.1 ++ rest.1, rest.2)

end SseFrameBuffer

/-- The frames of a response that arrives in chunks. -/
def frames (chunks : List JsString) : List JsString :=
  let read := SseFrameBuffer.pushAll {} chunks
  read.1 ++ read.2.flush.1

/-! ## Line endings -/

theorem normalise_pair (s : JsString) :
    normaliseLineEndings (carriageReturn :: lineFeed :: s) =
      lineFeed :: normaliseLineEndings s := by
  rw [normaliseLineEndings, replaceCrLf, if_pos ⟨rfl, rfl⟩]
  rfl

theorem normalise_cons {a : UInt16} {s : JsString}
    (h : ¬ (a = carriageReturn ∧ s.head? = some lineFeed)) :
    normaliseLineEndings (a :: s) =
      (if a = carriageReturn then lineFeed else a) :: normaliseLineEndings s := by
  cases s with
  | nil => rfl
  | cons b s =>
    have hpair : ¬ (a = carriageReturn ∧ b = lineFeed) := fun hab => h ⟨hab.1, by simp [hab.2]⟩
    rw [normaliseLineEndings, replaceCrLf, if_neg hpair]
    rfl

/-- Chunks are normalised one by one, unless the cut is inside a pair. -/
theorem normalise_append {s t : JsString}
    (h : ¬ (s.getLast? = some carriageReturn ∧ t.head? = some lineFeed)) :
    normaliseLineEndings (s ++ t) = normaliseLineEndings s ++ normaliseLineEndings t := by
  match s with
  | [] => rfl
  | [a] =>
    have hcut : ¬ (a = carriageReturn ∧ t.head? = some lineFeed) := by simpa using h
    rw [List.singleton_append, normalise_cons hcut, normalise_cons (by simp)]
    rfl
  | a :: b :: s =>
    have hlast {c : UInt16} {u : JsString} (hu : u.getLast? = some carriageReturn) :
        (c :: u).getLast? = some carriageReturn := by
      rw [List.getLast?_cons, hu]
      rfl
    by_cases hpair : a = carriageReturn ∧ b = lineFeed
    · obtain ⟨rfl, rfl⟩ := hpair
      rw [List.cons_append, List.cons_append, normalise_pair, normalise_pair,
        normalise_append fun hst => h ⟨hlast (hlast hst.1), hst.2⟩, List.cons_append]
    · have hhead : ¬ (a = carriageReturn ∧ (b :: s).head? = some lineFeed) := by simpa using hpair
      rw [List.cons_append, normalise_cons (by simpa using hpair), normalise_cons hhead,
        normalise_append fun hst => h ⟨hlast hst.1, hst.2⟩, List.cons_append]

/-- A pair is one line end, whatever stands before it. -/
theorem normalise_append_pair (s t : JsString) :
    normaliseLineEndings (s ++ carriageReturn :: lineFeed :: t) =
      normaliseLineEndings s ++ lineFeed :: normaliseLineEndings t := by
  have hpair : ¬ (s.getLast? = some carriageReturn ∧
      (carriageReturn :: lineFeed :: t).head? = some lineFeed) := by
    simp [carriageReturn, lineFeed]
  rw [normalise_append hpair, normalise_pair]

/-! ## The pairs that two chunks share -/

/-- The text cut at the CRLF pairs of which one chunk ends in the CR and a later one begins with
the LF; the pairs themselves are left out. -/
def segments : List JsString → List JsString
  | [] => [[]]
  | chunk :: chunks =>
    match segments chunks with
    | [] => [chunk]
    | next :: rest =>
      if chunk.getLast? = some carriageReturn ∧ next.head? = some lineFeed then
        chunk.dropLast :: next.tail :: rest
      else (chunk ++ next) :: rest

theorem segments_ne_nil (chunks : List JsString) : segments chunks ≠ [] := by
  cases chunks with
  | nil => simp [segments]
  | cons chunk chunks =>
    rw [segments]
    split
    · simp
    · split_ifs <;> simp

/-- What the first chunk adds to the segments of the others. -/
theorem segments_cons (chunk : JsString) (chunks : List JsString) :
    (∃ init next rest, chunk = init ++ [carriageReturn] ∧
        segments chunks = (lineFeed :: next) :: rest ∧
        segments (chunk :: chunks) = init :: next :: rest) ∨
      ∃ next rest, ¬ (chunk.getLast? = some carriageReturn ∧ next.head? = some lineFeed) ∧
        segments chunks = next :: rest ∧ segments (chunk :: chunks) = (chunk ++ next) :: rest := by
  obtain ⟨next, rest, hnext⟩ := List.exists_cons_of_ne_nil (segments_ne_nil chunks)
  have hsegments := segments.eq_2 chunk chunks
  simp only [hnext] at hsegments
  split_ifs at hsegments with hcut
  · obtain ⟨init, rfl⟩ := List.getLast?_eq_some_iff.mp hcut.1
    obtain ⟨tail, rfl⟩ := List.head?_eq_some_iff.mp hcut.2
    rw [List.dropLast_concat, List.tail_cons] at hsegments
    exact .inl ⟨init, tail, rest, rfl, hnext, hsegments⟩
  · exact .inr ⟨next, rest, hcut, hnext, hsegments⟩

theorem intercalate_append_head (sep s t : JsString) (rest : List JsString) :
    sep.intercalate ((s ++ t) :: rest) = s ++ sep.intercalate (t :: rest) := by
  cases rest with
  | nil => rw [List.intercalate_singleton, List.intercalate_singleton]
  | cons u rest => rw [intercalate_cons_cons, intercalate_cons_cons, List.append_assoc]

/-- The segments and the pairs between them are the text. -/
theorem intercalate_segments (chunks : List JsString) :
    [carriageReturn, lineFeed].intercalate (segments chunks) = chunks.flatten := by
  induction chunks with
  | nil => rfl
  | cons chunk chunks ih =>
    rw [List.flatten_cons, ← ih]
    rcases segments_cons chunk chunks with
      ⟨init, next, rest, rfl, hnext, hsegments⟩ | ⟨next, rest, -, hnext, hsegments⟩
    · have hfeed : [carriageReturn, lineFeed].intercalate ((lineFeed :: next) :: rest) =
          [lineFeed] ++ [carriageReturn, lineFeed].intercalate (next :: rest) :=
        intercalate_append_head _ [lineFeed] next rest
      rw [hsegments, hnext, intercalate_cons_cons, List.append_assoc, hfeed]
      rfl
    · rw [hsegments, hnext, intercalate_append_head]

/-- Normalised as a whole, every shared pair is one line end. -/
theorem normalise_intercalate (ts : List JsString) :
    normaliseLineEndings ([carriageReturn, lineFeed].intercalate ts) =
      [lineFeed].intercalate (ts.map normaliseLineEndings) := by
  match ts with
  | [] => rfl
  | [t] => rw [List.map_singleton, List.intercalate_singleton, List.intercalate_singleton]
  | a :: b :: ts =>
    have ih := normalise_intercalate (b :: ts)
    rw [List.map_cons] at ih
    rw [intercalate_cons_cons, List.map_cons, List.map_cons, intercalate_cons_cons, ← ih]
    exact normalise_append_pair a _

/-- Normalised chunk by chunk, every shared pair is two line ends. -/
theorem flatten_normalise (chunks : List JsString) :
    (chunks.map normaliseLineEndings).flatten =
      [lineFeed, lineFeed].intercalate ((segments chunks).map normaliseLineEndings) := by
  induction chunks with
  | nil => rfl
  | cons chunk chunks ih =>
    rw [List.map_cons, List.flatten_cons, ih]
    rcases segments_cons chunk chunks with
      ⟨init, next, rest, rfl, hnext, hsegments⟩ | ⟨next, rest, hcut, hnext, hsegments⟩
    · have hinit : normaliseLineEndings (init ++ [carriageReturn]) =
          normaliseLineEndings init ++ [lineFeed] :=
        normalise_append (by simp [carriageReturn, lineFeed])
      have hfeed : normaliseLineEndings (lineFeed :: next) =
          [lineFeed] ++ normaliseLineEndings next :=
        normalise_cons (by simp [carriageReturn, lineFeed])
      rw [hsegments, hnext, List.map_cons, List.map_cons, List.map_cons, hinit, hfeed,
        intercalate_append_head, intercalate_cons_cons, List.append_assoc]
      rfl
    · rw [hsegments, hnext, List.map_cons, List.map_cons, normalise_append hcut,
        intercalate_append_head]

/-! ## The frames -/

theorem finished_flush (fs : List JsString) (b : SseFrameBuffer) :
    fs ++ b.flush.1 = finished isWhiteSpace fs b.buffer := by
  have hstrip : strip isWhiteSpace b.buffer = [] ↔ b.buffer.all isWhiteSpace := by
    rw [strip_eq_nil_iff, List.all_eq_true]
  simp only [SseFrameBuffer.flush, finished, hstrip]

theorem framed_push (b : SseFrameBuffer) (chunk : JsString) :
    Framed lineFeed (b.buffer ++ normaliseLineEndings chunk) (b.push chunk).1
      (b.push chunk).2.buffer :=
  framed_takeFrames le_rfl

/-- **Pushing chunks cuts the frames of the chunks, normalised one by one.** -/
theorem framed_pushAll (b : SseFrameBuffer) (hb : NoBlank lineFeed b.buffer)
    (chunks : List JsString) :
    Framed lineFeed (b.buffer ++ (chunks.map normaliseLineEndings).flatten) (b.pushAll chunks).1
      (b.pushAll chunks).2.buffer := by
  induction chunks generalizing b with
  | nil =>
    rw [List.map_nil, List.flatten_nil, List.append_nil]
    exact .rest hb
  | cons chunk chunks ih =>
    have hfirst := framed_push b chunk
    rw [List.map_cons, List.flatten_cons, ← List.append_assoc]
    exact hfirst.append (ih _ hfirst.noBlank_rest)

/-- **The frames do not depend on the chunks** exactly if no cut is inside a CRLF pair, or one is
and the pair is among the line ends, even in number, that end the last frame. -/
theorem frames_chunking_iff (chunks : List JsString) :
    frames chunks = frames [chunks.flatten] ↔
      (segments chunks).length ≤ 1 ∨ ∃ before after, segments chunks = [before, after] ∧
        FinalBreak isWhiteSpace lineFeed (normaliseLineEndings before)
          (normaliseLineEndings after) := by
  have hchunks := framed_pushAll {} noBlank_nil chunks
  have hwhole := framed_pushAll {} noBlank_nil [chunks.flatten]
  rw [List.nil_append, flatten_normalise] at hchunks
  have hnormal : normaliseLineEndings chunks.flatten =
      [lineFeed].intercalate ((segments chunks).map normaliseLineEndings) := by
    rw [← intercalate_segments, normalise_intercalate]
  rw [List.nil_append, List.map_singleton, List.flatten_singleton, hnormal] at hwhole
  have hiff := finished_intercalate_iff (by decide : isWhiteSpace lineFeed) hwhole hchunks
  rw [List.length_map] at hiff
  rw [frames, frames, finished_flush, finished_flush, hiff]
  refine or_congr_right ⟨?_, ?_⟩
  · rintro ⟨a, b, hmap, hbreak⟩
    obtain ⟨before, _, hsegments, rfl, hrest⟩ := List.map_eq_cons_iff.mp hmap
    obtain ⟨after, _, rfl, rfl, hnil⟩ := List.map_eq_cons_iff.mp hrest
    obtain rfl := List.map_eq_nil_iff.mp hnil
    exact ⟨before, after, hsegments, hbreak⟩
  · rintro ⟨before, after, hsegments, hbreak⟩
    exact ⟨_, _, by rw [hsegments]; rfl, hbreak⟩

/-- Two lines of one event, with the cut between CR and LF of the first. -/
def cutInsidePair : List JsString :=
  ["event: run.started\r", "\ndata: \x7b\x7d\r\n\r\n"].map JsString.ofString

/-- The event arrives as two frames. -/
theorem frames_cut_inside_pair :
    frames cutInsidePair = ["event: run.started", "data: \x7b\x7d"].map JsString.ofString ∧
      frames [cutInsidePair.flatten] = ["event: run.started\ndata: \x7b\x7d"].map
        JsString.ofString ∧ frames cutInsidePair ≠ frames [cutInsidePair.flatten] := by
  decide +kernel

end AgentHub.Web
