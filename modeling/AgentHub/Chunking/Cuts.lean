import AgentHub.Chunking.Structural

/-!
# Where the structural chunker cuts

Paragraph breaks consist of blanks, so the paragraphs cover the text. A sentence ends after a
terminal or a closing character, and a run of blanks is cut before its first one: at such places
canonical composition does not reach across, so a part that ends there is no longer than what it
was cut from.

## Main results

* `covers_paragraphSpans`, `covers_sentenceSpans`: paragraphs and sentences cover the text
* `preferredPrefixEnd_spec`: a preferred end is the given one, or a good cut before it
* `normalizedLength_cut`, `normalizedLength_trimSpan`: what is cut or trimmed off adds no length
* `largestHardPrefixEnd_spec`: a hard prefix fits, and it is not empty
-/

namespace AgentHub.Chunking

open Lib

/-! ## Paragraphs -/

section Paragraphs

variable {t text : List Char}

theorem isSpaceChar_newline : isSpaceChar '\r' = true ∧ isSpaceChar '\n' = true := by decide

theorem newlineLengths_spec {n : ℕ} (h : n ∈ newlineLengths t) :
    n ≤ t.length ∧ ∀ c ∈ t.take n, isSpaceChar c = true := by
  unfold newlineLengths at h
  split at h
  · rcases List.mem_cons.mp h with rfl | h
    · exact ⟨by simp, by simp [isSpaceChar_newline]⟩
    · obtain rfl := List.mem_singleton.mp h
      exact ⟨by simp, by simp [isSpaceChar_newline]⟩
  · obtain rfl := List.mem_singleton.mp h
    exact ⟨by simp, by simp [isSpaceChar_newline]⟩
  · obtain rfl := List.mem_singleton.mp h
    exact ⟨by simp, by simp [isSpaceChar_newline]⟩
  · cases h

theorem isSpaceChar_of_isBlankChar {c : Char} (h : isBlankChar c = true) :
    isSpaceChar c = true := by
  simp only [isBlankChar, Bool.or_eq_true, decide_eq_true_eq] at h
  rcases h with rfl | rfl <;> decide

/-- A paragraph break consists of whitespace. -/
theorem breakLength_spec {n : ℕ} (h : breakLength t = some n) :
    n ≤ t.length ∧ ∀ c ∈ t.take n, isSpaceChar c = true := by
  obtain ⟨first, hfirst, hsecond⟩ := List.exists_of_findSome?_eq_some h
  obtain ⟨second, hhead, rfl⟩ := Option.map_eq_some_iff.mp hsecond
  have hblanks := List.takeWhile_prefix isBlankChar (l := t.drop first)
  obtain ⟨hle, hspace⟩ := newlineLengths_spec hfirst
  obtain ⟨hle', hspace'⟩ := newlineLengths_spec (List.mem_of_mem_head? hhead)
  have hblanksLe := hblanks.length_le
  simp only [List.length_drop] at hle' hblanksLe
  refine ⟨by omega, fun c hc => ?_⟩
  rw [List.take_add, List.take_add, List.mem_append, List.mem_append] at hc
  rcases hc with (hc | hc) | hc
  · exact hspace c hc
  · rw [← List.prefix_iff_eq_take.mp hblanks] at hc
    exact isSpaceChar_of_isBlankChar (List.mem_takeWhile_imp hc)
  · exact hspace' c hc

theorem blankOn_take {i n : ℕ} (h : ∀ c ∈ (text.drop i).take n, isSpaceChar c = true) :
    BlankOn isSpaceChar text i (i + n) := by
  rintro j hij hjn ⟨c, hc, hsolid⟩
  have hget : ((text.drop i).take n)[j - i]? = some c := by
    rw [List.getElem?_take_of_lt (by omega), List.getElem?_drop, show i + (j - i) = j by omega, hc]
  rw [h c (List.mem_of_getElem? hget)] at hsolid
  cases hsolid

theorem separates_paragraphBreaks (skip i : ℕ) (t : List Char) (ht : text.drop i = t)
    (hi : i + skip ≤ text.length) :
    Separates isSpaceChar text text.length (i + skip) (paragraphBreaks skip i t) := by
  fun_induction paragraphBreaks skip i t with
  | case1 => exact hi
  | case2 skip i c t ih =>
    have hrest := ih (by rw [← List.drop_drop, ht]; rfl) (by omega)
    rwa [show i + 1 + skip = i + (skip + 1) by omega] at hrest
  | case3 i c t n hbreak ih =>
    obtain ⟨hle, hspace⟩ := breakLength_spec hbreak
    have hlength : (c :: t).length = text.length - i := by rw [← ht, List.length_drop]
    have hrest := ih (by rw [← List.drop_drop, ht]; rfl) (by omega)
    rw [show i + 1 + n = i + (n + 1) by omega] at hrest
    exact ⟨le_rfl, by dsimp only; omega, blankOn_take (by rwa [ht]), hrest⟩
  | case4 i c t hbreak ih =>
    have hlength : (c :: t).length = text.length - i := by rw [← ht, List.length_drop]
    rw [List.length_cons] at hlength
    exact (ih (by rw [← List.drop_drop, ht]; rfl) (by omega)).left (by omega)

/-- **The paragraphs cover the text.** -/
theorem covers_paragraphSpans (text : List Char) :
    Covers isSpaceChar text 0 text.length (paragraphSpans text) ∧
      ∀ s ∈ paragraphSpans text, Trimmed isSpaceChar text s :=
  covers_spansBetween (separates_paragraphBreaks 0 0 text rfl (by omega)) le_rfl

end Paragraphs

/-! ## Sentences -/

section Sentences

variable {t text : List Char} {a b : ℕ}

/-- The characters after which a sentence ends. -/
def endsSentence (c : Char) : Bool := isChineseTerminal c || isEnglishTerminal c || isClosing c

variable {c : Char}

theorem isBoundary_of_endsSentence (h : endsSentence c = true) : isBoundary c = true := by
  simp only [endsSentence, Bool.or_eq_true] at h
  simp only [isBoundary, Bool.or_eq_true]
  tauto

theorem isSpaceChar_of_endsSentence (h : endsSentence c = true) : isSpaceChar c = false := by
  have hnone {l : List Char} (hl : l.all (fun d => !isSpaceChar d) = true) (hc : c ∈ l) :
      isSpaceChar c = false := by simpa using List.all_eq_true.mp hl c hc
  simp only [endsSentence, isChineseTerminal, isEnglishTerminal, isClosing, Bool.or_eq_true,
    decide_eq_true_eq] at h
  rcases h with (h | h) | h
  · exact hnone (by decide) h
  · exact hnone (by decide) h
  · exact hnone (by decide) h

/-- After a run of characters that end sentences, the last one does. -/
theorem exists_endsSentence {q : Char → Bool} (hc : endsSentence c = true)
    (hq : ∀ d, q d = true → endsSentence d = true) (t : List Char) :
    ∃ d, (c :: t)[(t.takeWhile q).length]? = some d ∧ endsSentence d = true := by
  cases hrun : (t.takeWhile q).length with
  | zero => exact ⟨c, rfl, hc⟩
  | succ n =>
    have hn : n < (t.takeWhile q).length := by omega
    have hget := List.getElem?_eq_getElem hn
    have hprefix := List.takeWhile_prefix q (l := t)
    refine ⟨(t.takeWhile q)[n], ?_, hq _ (List.mem_takeWhile_imp (List.getElem_mem hn))⟩
    rw [List.getElem?_cons_succ, hprefix.getElem hn]
    exact List.getElem?_eq_getElem _

/-- In text that starts at `i`, the character before `b` ends a sentence. -/
def EndsAt (i : ℕ) (t : List Char) (b : ℕ) : Prop :=
  i < b ∧ ∃ c, t[b - 1 - i]? = some c ∧ endsSentence c = true

theorem EndsAt.cons {i : ℕ} (h : EndsAt (i + 1) t b) : EndsAt i (c :: t) b := by
  obtain ⟨hlt, d, hd, hends⟩ := h
  refine ⟨by omega, d, ?_, hends⟩
  rw [show b - 1 - i = b - 1 - (i + 1) + 1 by omega, List.getElem?_cons_succ, hd]

/-- A boundary after `n` more characters, before the boundaries after it. -/
theorem boundaries_cons {n i : ℕ} {d : Char} {l : List ℕ} (hd : (c :: t)[n]? = some d)
    (hends : endsSentence d = true) (hsorted : l.Pairwise (· < ·))
    (hl : ∀ b ∈ l, i + 1 + n < b ∧ EndsAt (i + 1) t b) :
    ((i + 1 + n) :: l).Pairwise (· < ·) ∧
      ∀ b ∈ (i + 1 + n) :: l, i < b ∧ EndsAt i (c :: t) b := by
  refine ⟨.cons (fun b hb => (hl b hb).1) hsorted, fun b hb => ?_⟩
  rcases List.mem_cons.mp hb with rfl | hb
  · exact ⟨by omega, by omega, d, by rwa [show i + 1 + n - 1 - i = n by omega], hends⟩
  · obtain ⟨hlt, hat⟩ := hl b hb
    exact ⟨by omega, hat.cons⟩

/-- **Sentence boundaries** are in order, and each stands after a character that ends a
sentence. -/
theorem sentenceBoundaries_spec (skip i : ℕ) (t : List Char) :
    (sentenceBoundaries skip i t).Pairwise (· < ·) ∧
      ∀ b ∈ sentenceBoundaries skip i t, i + skip < b ∧ EndsAt i t b := by
  fun_induction sentenceBoundaries skip i t with
  | case1 => exact ⟨.nil, by simp⟩
  | case2 skip i c t ih =>
    refine ⟨ih.1, fun b hb => ?_⟩
    obtain ⟨hlt, hat⟩ := ih.2 b hb
    exact ⟨by omega, hat.cons⟩
  | case3 i c t hchinese closing ih =>
    obtain ⟨d, hd, hends⟩ := exists_endsSentence (q := isClosing) (c := c)
      (by simp [endsSentence, hchinese]) (fun d hd => by simp [endsSentence, hd]) t
    exact boundaries_cons hd hends ih.1 ih.2
  | case4 i c t hchinese henglish more rest hrest closing ih =>
    -- the run of terminals first, then the closing characters after its last one
    obtain ⟨d, hd, hends⟩ := exists_endsSentence (q := isEnglishTerminal) (c := c)
      (by simp [endsSentence, henglish]) (fun d hd => by simp [endsSentence, hd]) t
    have hdrop : (c :: t).drop more = d :: rest := by
      obtain ⟨hlt, hget⟩ := List.getElem?_eq_some_iff.mp hd
      rw [List.drop_eq_getElem_cons hlt, hget]
      rfl
    obtain ⟨e, he, heends⟩ := exists_endsSentence (q := isClosing) hends
      (fun d hd => by simp [endsSentence, hd]) rest
    rw [← hdrop, List.getElem?_drop] at he
    exact boundaries_cons he heends ih.1 ih.2
  | case5 i c t hchinese henglish more rest hrest ih =>
    exact ⟨ih.1, fun b hb => ⟨by have := (ih.2 b hb).1; omega, (ih.2 b hb).2.cons⟩⟩
  | case6 i c t hchinese henglish ih =>
    exact ⟨ih.1, fun b hb => ⟨by have := (ih.2 b hb).1; omega, (ih.2 b hb).2.cons⟩⟩

/-- A character of a span is one of the text. -/
theorem getElem?_slice {i : ℕ} (h : (slice text ⟨a, b⟩)[i]? = some c) :
    a + i < b ∧ text[a + i]? = some c := by
  simp only [slice, List.getElem?_drop] at h
  have hlt := (List.getElem?_eq_some_iff.mp h).1
  rw [List.length_take] at hlt
  have hb : a + i < b := by omega
  exact ⟨hb, by rwa [List.getElem?_take_of_lt hb] at h⟩

/-- A place where composition does not reach across, after a solid character. -/
structure GoodCut (text : List Char) (e : ℕ) : Prop where
  pos : 0 < e
  solid : SolidAt isSpaceChar text (e - 1)
  boundary : (∃ c, text[e - 1]? = some c ∧ isBoundary c = true) ∨
    ∃ c, text[e]? = some c ∧ isSpaceChar c = true

theorem boundariesIn_spec {e : ℕ} (h : e ∈ boundariesIn text ⟨a, b⟩) :
    a < e ∧ e ≤ b ∧ GoodCut text e := by
  obtain ⟨-, hlt, c, hc, hends⟩ := (sentenceBoundaries_spec 0 a _).2 e h
  obtain ⟨hle, hget⟩ := getElem?_slice hc
  rw [show a + (e - 1 - a) = e - 1 by omega] at hget
  exact ⟨hlt, by omega, by omega, ⟨c, hget, isSpaceChar_of_endsSentence hends⟩,
    .inl ⟨c, hget, isBoundary_of_endsSentence hends⟩⟩

/-- **The sentences of a trimmed span cover it.** -/
theorem covers_sentenceSpans {s : Span} (hs : Trimmed isSpaceChar text s) :
    Covers isSpaceChar text s.start s.stop (sentenceSpans text s) ∧
      ∀ u ∈ sentenceSpans text s, Trimmed isSpaceChar text u := by
  rw [sentenceSpans]
  split_ifs with hnone
  · exact ⟨.singleton hs.lt, by simpa using hs⟩
  · refine covers_spansBetween (separates_cuts (sentenceBoundaries_spec 0 s.start _).1 hs.lt.le
      fun e he => ?_) hs.le
    obtain ⟨hlt, hle, -⟩ := boundariesIn_spec he
    exact ⟨hlt.le, hle⟩

/-- In text that starts at `i`, whitespace at `w` follows a solid character, if any. -/
def SpaceAt (i : ℕ) (t : List Char) (w : ℕ) : Prop :=
  i ≤ w ∧ (∃ c, t[w - i]? = some c ∧ isSpaceChar c = true) ∧
    (i < w → ∃ c, t[w - 1 - i]? = some c ∧ isSpaceChar c = false)

theorem SpaceAt.cons {i w : ℕ} (h : SpaceAt (i + 1) t w) (hc : w = i + 1 → isSpaceChar c = false) :
    SpaceAt i (c :: t) w := by
  obtain ⟨hle, ⟨d, hd, hspace⟩, hbefore⟩ := h
  refine ⟨by omega, ⟨d, ?_, hspace⟩, fun hlt => ?_⟩
  · rw [show w - i = w - (i + 1) + 1 by omega, List.getElem?_cons_succ, hd]
  · rcases Nat.lt_or_ge (i + 1) w with hlt' | hge
    · obtain ⟨e, he, hsolid⟩ := hbefore hlt'
      refine ⟨e, ?_, hsolid⟩
      rw [show w - 1 - i = w - 1 - (i + 1) + 1 by omega, List.getElem?_cons_succ, he]
    · exact ⟨c, by rw [show w - 1 - i = 0 by omega, List.getElem?_cons_zero], hc (by omega)⟩

/-- **A run of whitespace starts after a solid character**, or where the text starts. -/
theorem whitespaceStarts_spec (afterSpace : Bool) (i : ℕ) (t : List Char) :
    ∀ w ∈ whitespaceStarts afterSpace i t, (afterSpace = true → i < w) ∧ SpaceAt i t w := by
  fun_induction whitespaceStarts afterSpace i t with
  | case1 => simp
  | case2 i c t hspace ih =>
    intro w hw
    obtain ⟨hlt, hat⟩ := ih w hw
    have hlt := hlt rfl
    exact ⟨fun _ => by omega, hat.cons (by omega)⟩
  | case3 afterSpace i c t hspace hafter ih =>
    intro w hw
    rcases List.mem_cons.mp hw with rfl | hw
    · exact ⟨fun h => absurd h hafter, le_rfl, ⟨c, by simp, hspace⟩,
        fun h => absurd h (lt_irrefl _)⟩
    · obtain ⟨hlt, hat⟩ := ih w hw
      have hlt := hlt rfl
      exact ⟨fun _ => by omega, hat.cons (by omega)⟩
  | case4 afterSpace i c t hspace ih =>
    intro w hw
    obtain ⟨-, hat⟩ := ih w hw
    exact ⟨fun _ => hat.1, hat.cons fun _ => by simpa using hspace⟩

variable (text b) in
/-- **A preferred end** is the given end, or a good cut that leaves enough before it. -/
theorem preferredPrefixEnd_spec {m : ℕ} (ham : a < m) :
    preferredPrefixEnd text a b m = b ∨
      m ≤ preferredPrefixEnd text a b m ∧ preferredPrefixEnd text a b m ≤ b ∧
        GoodCut text (preferredPrefixEnd text a b m) := by
  rw [preferredPrefixEnd]
  split
  · next e he =>
    obtain ⟨hmem, hm⟩ := List.mem_filter.mp (List.mem_of_getLast? he)
    obtain ⟨-, hle, hcut⟩ := boundariesIn_spec hmem
    exact .inr ⟨by simpa using hm, hle, hcut⟩
  · generalize hlast : List.getLast? _ = last
    cases last with
    | none => exact .inl rfl
    | some w =>
      obtain ⟨hmem, hm⟩ := List.mem_filter.mp (List.mem_of_getLast? hlast)
      have hm : m ≤ w := by simpa using hm
      obtain ⟨-, hle, ⟨c, hc, hspace⟩, hbefore⟩ := whitespaceStarts_spec false a _ w hmem
      obtain ⟨d, hd, hsolid⟩ := hbefore (by omega)
      obtain ⟨hlt, hget⟩ := getElem?_slice hc
      obtain ⟨-, hgetBefore⟩ := getElem?_slice hd
      rw [show a + (w - a) = w by omega] at hlt hget
      rw [show a + (w - 1 - a) = w - 1 by omega] at hgetBefore
      exact .inr ⟨hm, hlt.le, by dsimp only [Option.getD_some]; omega, ⟨d, hgetBefore, hsolid⟩,
        .inr ⟨c, hget, hspace⟩⟩

end Sentences

/-! ## Lengths -/

section Lengths

variable {nfc : Composition} {text : List Char} {size a b e : ℕ}

theorem isBoundary_foldChar {c : Char} (h : isSpaceChar c = true) :
    isBoundary (foldChar c) = true := by
  unfold foldChar
  split_ifs
  · decide
  · simp [isBoundary, h]

/-- **What is cut off adds no length.** -/
theorem normalizedLength_cut (hcut : GoodCut text e) (hae : a < e) (heb : e ≤ b) :
    normalizedLength nfc text ⟨a, e⟩ ≤ normalizedLength nfc text ⟨a, b⟩ := by
  obtain ⟨hpos, ⟨c, hc, hsolid⟩, hboundary⟩ := hcut
  have hlast : (slice text ⟨a, e⟩).getLast? = some c := by
    obtain ⟨n, rfl⟩ : ∃ n, e = n + 1 := ⟨e - 1, by omega⟩
    rw [Nat.add_sub_cancel] at hc
    rw [slice_concat (by omega : a ≤ n) hc, List.getLast?_concat]
  rw [normalizedLength, normalizedLength, slice_append hae.le heb]
  rcases Nat.lt_or_ge e b with hlt | hge
  · refine length_normalizeChunkText_le hlast hsolid ?_
    rcases hboundary with ⟨d, hd, hboundary⟩ | ⟨d, hd, hspace⟩
    · rw [hc] at hd
      obtain rfl := Option.some.inj hd
      exact .inl hboundary
    · refine .inr ⟨d, ?_, isBoundary_foldChar hspace⟩
      rw [slice_cons hlt hd]
      rfl
  · obtain rfl : e = b := by omega
    have hnil : slice text ⟨e, e⟩ = [] := by simp [slice]
    rw [hnil, List.append_nil]

/-- **What is trimmed off adds no length.** -/
theorem normalizedLength_trimSpan (hab : a < b) (hb : b ≤ text.length)
    (ha : SolidAt isSpaceChar text a) :
    normalizedLength nfc text (trimSpan isSpaceChar text ⟨a, b⟩) ≤
      normalizedLength nfc text ⟨a, b⟩ := by
  obtain ⟨hstart, htrimmed⟩ := trimSpan_of_solid hab hb ha
  obtain ⟨-, hblank, -, hstop, -⟩ := trimSpan_spec (p := isSpaceChar) hab.le hb
  generalize trimSpan isSpaceChar text ⟨a, b⟩ = s at *
  obtain ⟨start, stop⟩ := s
  obtain rfl : start = a := hstart
  rcases Nat.lt_or_ge stop b with hlt | hge
  · -- the first character that is trimmed off is whitespace
    have hnot : ¬ SolidAt isSpaceChar text stop := hblank stop le_rfl hlt
    have hget := List.getElem?_eq_getElem (show stop < text.length by omega)
    refine normalizedLength_cut ⟨by have := htrimmed.lt; dsimp only at this; omega, htrimmed.last,
      .inr ⟨_, hget, ?_⟩⟩ htrimmed.lt hstop
    by_contra hspace
    exact hnot ⟨_, hget, by simpa using hspace⟩
  · obtain rfl : stop = b := le_antisymm hstop hge
    exact le_rfl

/-- One character fits, whatever it is composed to. -/
theorem normalizedLength_one (hsize : 3 ≤ size) (ha : a < text.length) :
    normalizedLength nfc text ⟨a, a + 1⟩ ≤ size := by
  rw [normalizedLength, slice_one (List.getElem?_eq_getElem ha)]
  exact (length_normalizeChunkText_singleton _).trans hsize

variable (nfc text size a) in
theorem hardPrefixLength_le (n : ℕ) : hardPrefixLength nfc text size a n ≤ n := by
  induction n with
  | zero => exact le_rfl
  | succ n ih =>
    rw [hardPrefixLength]
    split_ifs
    · omega
    · exact le_rfl

variable (nfc) in
theorem hardPrefixLength_spec (hsize : 3 ≤ size) (ha : a < text.length) {n : ℕ} (hn : 0 < n) :
    0 < hardPrefixLength nfc text size a n ∧
      normalizedLength nfc text ⟨a, a + hardPrefixLength nfc text size a n⟩ ≤ size := by
  induction n with
  | zero => cases hn
  | succ n ih =>
    rw [hardPrefixLength]
    split_ifs with hlong
    · refine ih (Nat.pos_of_ne_zero ?_)
      rintro rfl
      exact absurd (normalizedLength_one hsize ha) (not_le.mpr hlong)
    · exact ⟨hn, not_lt.mp hlong⟩

variable (nfc size) in
/-- **A hard prefix** lies in the span; it fits and is not empty, where a character fits. -/
theorem largestHardPrefixEnd_spec (hab : a < b) (hb : b ≤ text.length) :
    a ≤ largestHardPrefixEnd nfc text size a b ∧ largestHardPrefixEnd nfc text size a b ≤ b ∧
      (3 ≤ size → a < largestHardPrefixEnd nfc text size a b ∧
        normalizedLength nfc text ⟨a, largestHardPrefixEnd nfc text size a b⟩ ≤ size) := by
  have hle := hardPrefixLength_le nfc text size a (min b (a + size) - a)
  rw [largestHardPrefixEnd]
  refine ⟨by omega, by omega, fun hsize => ?_⟩
  obtain ⟨hpos, hfits⟩ := hardPrefixLength_spec nfc hsize (by omega : a < text.length)
    (by omega : 0 < min b (a + size) - a)
  exact ⟨by omega, hfits⟩

variable (nfc) in
/-- **A preferred end of a hard prefix**, with what follows it trimmed off, fits. -/
theorem preferredPrefixEnd_fits {m : ℕ} (hsize : 3 ≤ size) (ham : a < m) (hab : a < b)
    (hb : b ≤ text.length) (ha : SolidAt isSpaceChar text a) :
    normalizedLength nfc text (trimSpan isSpaceChar text
      ⟨a, preferredPrefixEnd text a (largestHardPrefixEnd nfc text size a b) m⟩) ≤ size := by
  obtain ⟨-, hle, hfits⟩ := largestHardPrefixEnd_spec nfc size hab hb
  obtain ⟨hlt, hfits⟩ := hfits hsize
  set safeEnd := largestHardPrefixEnd nfc text size a b
  rcases preferredPrefixEnd_spec text safeEnd ham with heq | ⟨hm, hend, hcut⟩
  · rw [heq]
    exact (normalizedLength_trimSpan hlt (hle.trans hb) ha).trans hfits
  · refine (normalizedLength_trimSpan (by omega) ((hend.trans hle).trans hb) ha).trans ?_
    exact (normalizedLength_cut hcut (by omega) hend).trans hfits

end Lengths

end AgentHub.Chunking
