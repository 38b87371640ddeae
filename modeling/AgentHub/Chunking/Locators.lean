import AgentHub.Chunking.Partition

/-!
# Where the locators of chunks point

The locator of a chunk of a text names a range of characters. The structural chunker takes it from
the parsed text, the deterministic one from the normalised text. The two agree where normalising
leaves every character in its place: nothing is stripped from the front, no line end consists of two
characters, and characters are not composed or decomposed.

## Main definitions

* `textDocument`: the document of a text file
* `LocatesText`: the range of a chunk gives its text
* `KeepsPlaces`: normalising leaves every character in its place

## Main results

* `withRange_textLocator`, `windowLocator_textLocator`: the locators of chunks of a text
* `locatesText_of_structural`: the ranges of the structural chunker
* `text_locators_right_iff`: the ranges of both chunkers are right exactly where places are kept
-/

namespace AgentHub.Chunking

open Lib Transcript Canonical

/-! ## Ranges -/

/-- The document of a text file. -/
def textDocument (text : List Char) : ParsedDocument := ⟨[⟨text, textLocator text⟩]⟩

/-- The locator of a range of a text. -/
def rangeLocator (span : Span) : JsonObject :=
  named [("type", .str (Text.ofString "text_range")), ("char_start", .int span.start),
    ("char_end", .int span.stop)]

/-- The names of the members differ. -/
theorem rangeKeys_ne :
    Text.ofString "type" ≠ Text.ofString "char_start" ∧
      Text.ofString "type" ≠ Text.ofString "char_end" ∧
      Text.ofString "char_end" ≠ Text.ofString "char_start" := by
  decide

theorem get?_rangeLocator (span : Span) :
    Json.get? (rangeLocator span) (Text.ofString "char_start") = some (.int span.start) ∧
      Json.get? (rangeLocator span) (Text.ofString "char_end") = some (.int span.stop) := by
  obtain ⟨hstart, hend, hne⟩ := rangeKeys_ne
  have hnodup : ((rangeLocator span).map Prod.fst).Nodup := by
    simp [rangeLocator, named, hstart, hend, hne.symm]
  exact ⟨(Json.get?_eq_some_iff hnodup).mpr (by simp [rangeLocator, named]),
    (Json.get?_eq_some_iff hnodup).mpr (by simp [rangeLocator, named])⟩

theorem withRange_textLocator (text : List Char) (span : Span) :
    withRange (textLocator text) span = rangeLocator span := by
  have hbase : baseOf (textLocator text) = 0 := rfl
  obtain ⟨hstart, hend, hne⟩ := rangeKeys_ne
  rw [withRange, hbase]
  simp [Json.set, textLocator, rangeLocator, named, hstart, hend, hne, hne.symm]

theorem windowLocator_textLocator (text : List Char) (span : Span) :
    windowLocator (textLocator text) span = rangeLocator span := by
  rw [← withRange_textLocator text span]
  rfl

/-- The range of the chunk lies in the text, and the text there is that of the chunk. -/
def LocatesText (nfc : Composition) (text : List Char) (chunk : ChunkCandidate) : Prop :=
  ∃ s : Span, Json.get? chunk.locator (Text.ofString "char_start") = some (.int s.start) ∧
    Json.get? chunk.locator (Text.ofString "char_end") = some (.int s.stop) ∧
    s.start ≤ s.stop ∧ s.stop ≤ text.length ∧
    normalizeChunkText nfc (slice text s) = chunk.text

/-! ## Normalised text -/

section Places

variable {nfc : Composition} {t a b : List Char}

/-- A part of a normalised text is composed, and has no carriage return. -/
theorem normal_part (h : b <:+: normalizeChunkText nfc t) :
    foldNewlines b = b ∧ nfc.normalize b = b := by
  obtain ⟨u, v, hstrip, -, -⟩ := exists_strip (p := isSpaceChar) (nfc.normalize (foldNewlines t))
  have hpart : b <:+: nfc.normalize (foldNewlines t) :=
    h.trans ⟨u, v, by rw [List.append_assoc]; exact hstrip.symm⟩
  have hreturn : '\r' ∉ b := fun hmem =>
    nfc.return_not_mem_normalize return_not_mem_foldNewlines (hpart.subset hmem)
  obtain ⟨x, y, hxy⟩ := hpart
  exact ⟨foldNewlines_of_not_mem hreturn, nfc.normalize_part x b y (by
    rw [← List.append_assoc, hxy, nfc.normalize_normalize])⟩

/-- From a part of a normalised text only blanks are stripped. -/
theorem normalizeChunkText_part (h : b <:+: normalizeChunkText nfc t) :
    normalizeChunkText nfc b = strip isSpaceChar b := by
  obtain ⟨hfold, hnormal⟩ := normal_part h
  rw [normalizeChunkText, hfold, hnormal]

theorem isSpaceChar_foldChar (c : Char) : isSpaceChar (foldChar c) = isSpaceChar c := by
  unfold foldChar
  split_ifs with hr
  · rw [hr]
    decide
  · rfl

theorem foldNewlines_blank (h : ∀ c ∈ t, isSpaceChar c = true) :
    ∀ c ∈ foldNewlines t, isSpaceChar c = true := by
  intro c hc
  obtain ⟨d, hd, rfl⟩ := mem_foldNewlinesFrom hc
  rw [isSpaceChar_foldChar, h d hd]

theorem normalizeChunkText_blank (h : ∀ c ∈ t, isSpaceChar c = true) :
    normalizeChunkText nfc t = [] :=
  strip_eq_nil_iff.mpr (nfc.normalize_blank (foldNewlines_blank h))

/-- The character is composed by itself to the other one. -/
def ComposedTo (nfc : Composition) (c d : Char) : Prop := nfc.normalize [foldChar c] = [d]

/-- **Normalising leaves every character in its place**: nothing is stripped from the front, no
line end consists of two characters, and characters are composed one by one. -/
structure KeepsPlaces (nfc : Composition) (t : List Char) : Prop where
  front : ∀ c ∈ t.head?, isSpaceChar c = false
  pairs : ¬ ['\r', '\n'] <:+: t.rdropWhile isSpaceChar
  composed : List.Forall₂ (ComposedTo nfc) (t.rdropWhile isSpaceChar)
    (nfc.normalize ((t.rdropWhile isSpaceChar).map foldChar))

/-- Characters may be composed first. -/
theorem normalize_of_composedTo (h : List.Forall₂ (ComposedTo nfc) a b) :
    nfc.normalize (a.map foldChar) = nfc.normalize b := by
  induction h with
  | nil => rfl
  | @cons c d a b hcd _ ih =>
    have hd : nfc.normalize [d] = [d] := by rw [← hcd, nfc.normalize_normalize]
    calc nfc.normalize (foldChar c :: a.map foldChar)
        = nfc.normalize (nfc.normalize [foldChar c] ++ nfc.normalize (a.map foldChar)) :=
          nfc.normalize_append [foldChar c] _
      _ = nfc.normalize (nfc.normalize [d] ++ nfc.normalize b) := by rw [hcd, ih, hd]
      _ = nfc.normalize (d :: b) := (nfc.normalize_append [d] b).symm

/-- Whitespace is composed to whitespace, and solid characters to solid ones. -/
theorem isSpaceChar_of_composedTo {c d : Char} (h : ComposedTo nfc c d) :
    isSpaceChar d = isSpaceChar c := by
  rw [← isSpaceChar_foldChar c]
  cases hc : isSpaceChar (foldChar c) with
  | true =>
    obtain ⟨e, he, hspace, -⟩ := nfc.normalize_space _ hc
    obtain rfl : e = d := (List.cons.inj (he.symm.trans h)).1
    exact hspace
  | false =>
    refine nfc.normalize_solid [foldChar c] (by simpa using hc) d ?_
    rw [h]
    exact List.mem_cons_self

/-- The normalised text of a text that keeps its places. -/
theorem normalizeChunkText_of_keepsPlaces (h : KeepsPlaces nfc t) :
    normalizeChunkText nfc t = nfc.normalize ((t.rdropWhile isSpaceChar).map foldChar) := by
  obtain ⟨hfront, hpairs, hcomposed⟩ := h
  have hsplit := List.rdropWhile_append_rtakeWhile (p := isSpaceChar) (l := t)
  have hblank : ∀ c ∈ t.rtakeWhile isSpaceChar, isSpaceChar c = true := fun c hc =>
    List.mem_rtakeWhile_imp hc
  have hlast (hne : t.rdropWhile isSpaceChar ≠ []) := List.rdropWhile_last_not isSpaceChar t hne
  generalize t.rdropWhile isSpaceChar = u at *
  generalize t.rtakeWhile isSpaceChar = v at *
  subst hsplit
  rcases List.eq_nil_or_concat' u with rfl | ⟨front, last, rfl⟩
  · -- only blanks, and none of them at the front
    cases v with
    | nil =>
      rw [List.map_nil, nfc.normalize_nil]
      exact strip_eq_nil_iff.mpr (by simp [foldNewlines, foldNewlinesFrom, nfc.normalize_nil])
    | cons c v => simp [hblank c List.mem_cons_self] at hfront
  · have hsolid : isSpaceChar last = false := by simpa using hlast (by simp)
    have hfold : foldNewlines (front ++ [last] ++ v) =
        (front ++ [last]).map foldChar ++ foldNewlines v := by
      rw [foldNewlines_append (.inl (by simpa using (ne_newline hsolid).1)),
        foldNewlines_eq_map hpairs]
    have hblank' := foldNewlines_blank hblank
    rw [normalizeChunkText, hfold, nfc.normalize_run fun c hc =>
      hblank' c (List.mem_of_mem_head? hc)]
    have hlength := hcomposed.length_eq
    generalize nfc.normalize ((front ++ [last]).map foldChar) = n at *
    have hne : n ≠ [] := by
      rintro rfl
      simp at hlength
    -- the ends are composed from solid characters
    have hend : ∀ d ∈ n.getLast?, isSpaceChar d = false := fun d hd => by
      rw [List.getLast?_eq_getElem?, ← hlength] at hd
      have hlast := Pairing.of_getElem? (a := last) hcomposed (by simp) hd
      rw [isSpaceChar_of_composedTo hlast, hsolid]
    have hstart : ∀ d ∈ n.head?, isSpaceChar d = false := fun d hd => by
      obtain ⟨c, hc⟩ : ∃ c, (front ++ [last])[0]? = some c :=
        ⟨_, List.getElem?_eq_getElem (by simp)⟩
      rw [List.head?_eq_getElem?] at hd
      rw [isSpaceChar_of_composedTo (Pairing.of_getElem? hcomposed hc hd)]
      refine hfront c ?_
      rw [List.head?_eq_getElem?, List.getElem?_append_left (by simp), hc]
      rfl
    have hmiddle := strip_middle (p := isSpaceChar) (u := []) (v := nfc.normalize (foldNewlines v))
      hne hstart hend
    rw [List.nil_append] at hmiddle
    rw [hmiddle, List.rdropWhile_eq_nil_iff.mpr fun c hc => nfc.normalize_blank hblank' c hc]
    simp

/-- **Where places are kept, a range gives the text at the same range.** -/
theorem normalizeChunkText_slice (h : KeepsPlaces nfc t) {i j : ℕ}
    (hj : j ≤ (normalizeChunkText nfc t).length) :
    j ≤ t.length ∧ normalizeChunkText nfc (slice t ⟨i, j⟩) =
      normalizeChunkText nfc (slice (normalizeChunkText nfc t) ⟨i, j⟩) := by
  have hpart := normal_part (slice_isInfix (normalizeChunkText nfc t) ⟨i, j⟩)
  rw [normalizeChunkText_of_keepsPlaces h] at hj hpart ⊢
  obtain ⟨-, hpairs, hcomposed⟩ := h
  have hsplit := List.rdropWhile_append_rtakeWhile (p := isSpaceChar) (l := t)
  have hlength := hcomposed.length_eq
  rw [← hlength] at hj
  have hslice : slice t ⟨i, j⟩ = slice (t.rdropWhile isSpaceChar) ⟨i, j⟩ := by
    conv_lhs => rw [← hsplit]
    simp only [slice]
    rw [List.take_append_of_le_length hj]
  have hfront := List.rdropWhile_prefix isSpaceChar (l := t)
  refine ⟨hj.trans hfront.length_le, ?_⟩
  have hsame := normalize_of_composedTo
    (List.forall₂_drop i (List.forall₂_take j hcomposed))
  have hnopairs : ¬ ['\r', '\n'] <:+: slice (t.rdropWhile isSpaceChar) ⟨i, j⟩ := fun hpair =>
    hpairs (hpair.trans (slice_isInfix _ _))
  rw [hslice, normalizeChunkText, normalizeChunkText, foldNewlines_eq_map hnopairs, hpart.1]
  exact congrArg _ hsame

/-- A solid character that is normalised to one character is composed to it. -/
theorem composedTo_of_normalizeChunkText {c d : Char} (h : normalizeChunkText nfc [c] = [d]) :
    ComposedTo nfc c d := by
  rw [normalizeChunkText, foldNewlines_singleton] at h
  cases hc : isSpaceChar (foldChar c) with
  | true =>
    have hblank := nfc.normalize_blank (t := [foldChar c]) (by simpa using hc)
    rw [strip_eq_nil_iff.mpr hblank] at h
    cases h
  | false =>
    rwa [strip_of_solid (nfc.normalize_solid [foldChar c] (by simpa using hc))] at h

/-- Whitespace and solid characters together. -/
theorem length_eq_spaces_add (l : List Char) :
    l.length = l.countP isSpaceChar + l.countP fun c => !isSpaceChar c := by
  rw [List.length_eq_countP_add_countP isSpaceChar]
  simp

/-- **No room for other whitespace**: where the solid characters of a normalised text are at their
places in a text of the same length, so is its whitespace. -/
theorem composedTo_of_places (h : normalizeChunkText nfc a = b)
    (hsolid : List.Forall₂ (fun c d => isSpaceChar d = false → ComposedTo nfc c d) a b) :
    ¬ ['\r', '\n'] <:+: a ∧ nfc.normalize (a.map foldChar) = b ∧
      List.Forall₂ (ComposedTo nfc) a b := by
  obtain ⟨x, y, hxy, hx, hy⟩ := exists_strip (p := isSpaceChar) (nfc.normalize (foldNewlines a))
  rw [normalizeChunkText] at h
  rw [h] at hxy
  have hpass : ∀ c d, (isSpaceChar d = false → ComposedTo nfc c d) →
      (!isSpaceChar d) = true → (!isSpaceChar c) = true := fun c d hcd hd => by
    simp only [Bool.not_eq_true'] at hd ⊢
    rw [← isSpaceChar_of_composedTo (hcd hd), hd]
  -- count whitespace and solid characters on both sides
  have hspaces : (foldNewlines a).countP isSpaceChar =
      x.length + (b.countP isSpaceChar + y.length) := by
    rw [← nfc.countP_normalize, hxy, List.countP_append, List.countP_append,
      List.countP_eq_length.mpr hx, List.countP_eq_length.mpr hy]
  have hkept : (foldNewlines a).countP (fun c => !isSpaceChar c) =
      a.countP fun c => !isSpaceChar c := by
    rw [List.countP_eq_length_filter, List.countP_eq_length_filter, foldNewlines,
      filter_foldNewlinesFrom]
  have hmore := Pairing.countP_le hsolid hpass
  have hfolded := length_foldNewlinesFrom_le false a
  have hlength := hsolid.length_eq
  have hlengthFolded := length_eq_spaces_add (foldNewlines a)
  have hlengthNormal := length_eq_spaces_add b
  rw [← foldNewlines] at hfolded
  have hxnil : x = [] := List.length_eq_zero_iff.mp (by omega)
  have hynil : y = [] := List.length_eq_zero_iff.mp (by omega)
  have hpairs : ¬ ['\r', '\n'] <:+: a := fun hpair => by
    have hlt := length_foldNewlines_lt hpair
    omega
  have hnormal : nfc.normalize (a.map foldChar) = b := by
    rw [← foldNewlines_eq_map hpairs, hxy, hxnil, hynil, List.nil_append, List.append_nil]
  have hpattern := Pairing.of_countP_le hsolid hpass (by omega)
  have hplaces := nfc.normalize_in_place (a.map foldChar) (by
    rw [hnormal, List.forall₂_map_left_iff]
    refine hpattern.imp fun c d hcd => ?_
    rw [isSpaceChar_foldChar]
    simpa using hcd.2)
  rw [hnormal, List.forall₂_map_left_iff] at hplaces
  refine ⟨hpairs, hnormal, List.forall₂_iff_zip.mpr ⟨hlength, fun {c d} hmem => ?_⟩⟩
  have hcd := List.forall₂_zip hpattern hmem
  have hspace := List.forall₂_zip hplaces hmem
  cases hd : isSpaceChar d with
  | false => exact hcd.1 hd
  | true =>
    refine hspace ?_
    rw [isSpaceChar_foldChar]
    simpa [hd] using hcd.2

variable (nfc) in
/-- **No more text**: what follows a part that gives all of the normalised text is blank. -/
theorem blank_of_normalizeChunkText
    (hfold : foldNewlines (a ++ b) = foldNewlines a ++ foldNewlines b)
    (h : normalizeChunkText nfc (a ++ b) = nfc.normalize (foldNewlines a)) :
    ∀ c ∈ b, isSpaceChar c = true := by
  obtain ⟨x, y, hxy, hx, hy⟩ :=
    exists_strip (p := isSpaceChar) (nfc.normalize (foldNewlines (a ++ b)))
  rw [normalizeChunkText] at h
  rw [h] at hxy
  have hspaces : (foldNewlines b).countP isSpaceChar = x.length + y.length := by
    have hcount := congrArg (List.countP isSpaceChar) hxy
    rw [nfc.countP_normalize, hfold, List.countP_append, List.countP_append, List.countP_append,
      nfc.countP_normalize, List.countP_eq_length.mpr hx, List.countP_eq_length.mpr hy] at hcount
    omega
  have hweight : nfc.weight (foldNewlines b) = x.length + y.length := by
    have hsame := congrArg nfc.weight hxy
    rw [nfc.weight_normalize, hfold, nfc.weight_append, nfc.weight_append, nfc.weight_append,
      nfc.weight_normalize, nfc.weight_blank hx, nfc.weight_blank hy] at hsame
    omega
  have hle := nfc.length_le_weight (foldNewlines b)
  have hlength := length_eq_spaces_add (foldNewlines b)
  have hall := List.countP_eq_length.mp (show (foldNewlines b).countP isSpaceChar = _ by omega)
  intro c hc
  by_contra hspace
  have hsolid : isSpaceChar c = false := by simpa using hspace
  exact hspace (hall c (mem_foldNewlinesFrom_of_mem hc (ne_newline hsolid).1
    (ne_newline hsolid).2 false))

/-- **Where ranges give the text, places are kept.** -/
theorem keepsPlaces_of_ranges {n : List Char} (hn : normalizeChunkText nfc t = n)
    (hsolid : ∃ c ∈ t, isSpaceChar c = false)
    (hranges : ∀ i j, i < j → j ≤ n.length → strip isSpaceChar (slice n ⟨i, j⟩) ≠ [] →
      j ≤ t.length ∧ normalizeChunkText nfc (slice t ⟨i, j⟩) =
        strip isSpaceChar (slice n ⟨i, j⟩)) :
    KeepsPlaces nfc t := by
  have hne : n ≠ [] := hn ▸ normalizeChunkText_ne_nil hsolid
  have hstrip : strip isSpaceChar n = n := hn ▸ strip_strip _
  obtain ⟨hfirst, hlast⟩ : (∀ d ∈ n.head?, isSpaceChar d = false) ∧
    ∀ d ∈ n.getLast?, isSpaceChar d = false := hn ▸ strip_ends _
  -- the range of the whole normalised text
  obtain ⟨hle, hwhole⟩ := hranges 0 n.length (List.length_pos_of_ne_nil hne) le_rfl (by
    rwa [slice_self, hstrip])
  rw [slice_self, hstrip] at hwhole
  have htake : slice t ⟨0, n.length⟩ = t.take n.length := rfl
  rw [htake] at hwhole
  have hlength : (t.take n.length).length = n.length := by rw [List.length_take]; omega
  -- the ranges of single characters
  have hplaces : List.Forall₂ (fun c d => isSpaceChar d = false → ComposedTo nfc c d)
      (t.take n.length) n := by
    refine List.forall₂_iff_get.mpr ⟨hlength, fun i hi hi' hd => ?_⟩
    have hc : t[i]? = some ((t.take n.length).get ⟨i, hi⟩) := by
      rw [← List.getElem?_take_of_lt hi', List.get_eq_getElem]
      exact List.getElem?_eq_getElem hi
    have hd' : n[i]? = some (n.get ⟨i, hi'⟩) := List.getElem?_eq_getElem hi'
    have hone : strip isSpaceChar (slice n ⟨i, i + 1⟩) = [n.get ⟨i, hi'⟩] := by
      rw [slice_one hd', strip_of_solid (by simpa using hd)]
    obtain ⟨-, hrange⟩ := hranges i (i + 1) (Nat.lt_add_one i) hi' (by simp [hone])
    rw [slice_one hc, hone] at hrange
    exact composedTo_of_normalizeChunkText hrange
  obtain ⟨hpairs, hnormal, hcomposed⟩ := composedTo_of_places hwhole hplaces
  have hend : ∀ c ∈ (t.take n.length).getLast?, isSpaceChar c = false := fun c hc => by
    obtain ⟨d, hd⟩ : ∃ d, n.getLast? = some d := ⟨_, List.getLast?_eq_some_getLast hne⟩
    rw [List.getLast?_eq_getElem?, hlength] at hc
    rw [← isSpaceChar_of_composedTo (Pairing.of_getElem? hcomposed hc
      ((List.getLast?_eq_getElem?).symm.trans hd)), hlast d hd]
  have hsplit := List.take_append_drop n.length t
  have hblank := blank_of_normalizeChunkText nfc (a := t.take n.length)
    (b := t.drop n.length) (foldNewlines_append (.inl fun hr => by
      have := hend _ hr
      revert this
      decide)) (by rw [hsplit, hn, foldNewlines_eq_map hpairs, hnormal])
  have hrest : t.rdropWhile isSpaceChar = t.take n.length := by
    conv_lhs => rw [← hsplit]
    rw [rdropWhile_append_solid hend, List.rdropWhile_eq_nil_iff.mpr hblank, List.append_nil]
  refine ⟨fun c hc => ?_, hrest ▸ hpairs, ?_⟩
  · obtain ⟨d, hd⟩ : ∃ d, n.head? = some d := ⟨_, List.head?_eq_some_head hne⟩
    have hc' : (t.take n.length)[0]? = some c := by
      rw [List.getElem?_take_of_lt (List.length_pos_of_ne_nil hne), ← List.head?_eq_getElem?, hc]
    rw [← isSpaceChar_of_composedTo (Pairing.of_getElem? hcomposed hc'
      ((List.head?_eq_getElem?).symm.trans hd)), hfirst d hd]
  · rw [hrest, hnormal]
    exact hcomposed

end Places

/-! ## Locators -/

section Locators

variable {nfc : Composition} {sha256 : Sha256} {documentRevisionId : Text} {text : List Char}

/-- What is said of a chunk whose locator names a range. -/
theorem locatesText_iff {chunk : ChunkCandidate} {s : Span}
    (h : chunk.locator = rangeLocator s) :
    LocatesText nfc text chunk ↔ s.start ≤ s.stop ∧ s.stop ≤ text.length ∧
      normalizeChunkText nfc (slice text s) = chunk.text := by
  rw [LocatesText, h, (get?_rangeLocator s).1, (get?_rangeLocator s).2]
  constructor
  · rintro ⟨u, hstart, hstop, hrange⟩
    simp only [Option.some.injEq, Json.int.injEq, Nat.cast_inj] at hstart hstop
    obtain rfl : s = u := by cases s; cases u; simp_all
    exact hrange
  · exact fun hrange => ⟨s, rfl, rfl, hrange⟩

variable {chunkSize overlap : ℤ} {chunks : List ChunkCandidate}

/-- **The structural chunker** names ranges of the parsed text. -/
theorem locatesText_of_structural
    (h : buildStructuralChunks nfc sha256 documentRevisionId (textDocument text) chunkSize
      overlap = .ok chunks)
    : ∀ chunk ∈ chunks, LocatesText nfc text chunk := by
  obtain ⟨-, -, -, rfl⟩ := (buildStructuralChunks_eq_ok nfc).mp h
  intro chunk hchunk
  obtain ⟨block, hblock, s, hs, htext, hlocator⟩ := exists_of_mem_documentChunks nfc hchunk
  obtain rfl := List.mem_singleton.mp hblock
  obtain ⟨-, hlt, hle⟩ := (partition_blockSpans nfc text chunkSize.toNat).covers.within hs
  exact (locatesText_iff (hlocator.trans (withRange_textLocator text s))).mpr
    ⟨hlt.le, hle, htext.symm⟩

/-- The texts and locators of the deterministic chunks of a text. -/
theorem mem_deterministicChunks
    (h : buildDeterministicChunks nfc sha256 documentRevisionId (textDocument text) chunkSize
      overlap = .ok chunks)
    (content : List Char) (locator : JsonObject) :
    (content, locator) ∈ chunks.map (fun chunk => (chunk.text, chunk.locator)) ↔
      content ≠ [] ∧ ∃ s ∈ windows (normalizeChunkText nfc text).length chunkSize.toNat
          (chunkSize - overlap).toNat (normalizeChunkText nfc text).length 0,
        content = strip isSpaceChar (slice (normalizeChunkText nfc text) s) ∧
          locator = rangeLocator s := by
  obtain ⟨-, rfl⟩ := (buildDeterministicChunks_eq_ok _ _ _ _ _ _).mp h
  rw [map_foldl_appendBlockWindows]
  simp only [textDocument, List.map_nil, List.nil_append, List.flatMap_cons, List.flatMap_nil,
    List.append_nil, windowTexts, windowLocator_textLocator,
    normalizeChunkText_part (slice_isInfix _ _), List.mem_filter, List.mem_map, Prod.mk.injEq,
    decide_eq_true_eq]
  constructor
  · rintro ⟨⟨s, hs, htext, hlocator⟩, hne⟩
    exact ⟨hne, s, hs, htext.symm, hlocator.symm⟩
  · rintro ⟨hne, s, hs, htext, hlocator⟩
    exact ⟨⟨s, hs, htext.symm, hlocator.symm⟩, hne⟩

/-- **Text locators are right exactly** for the structural chunker, where there is no text, and where
places are kept. -/
theorem text_locators_right_iff (nfc : Composition) (sha256 : Sha256) (documentRevisionId : Text)
    (text : List Char) (chunker : Chunker) :
    (∀ (chunkSize overlap : ℤ) (chunks : List ChunkCandidate),
      buildChunks nfc sha256 documentRevisionId chunker (textDocument text) chunkSize overlap =
        .ok chunks → ∀ chunk ∈ chunks, LocatesText nfc text chunk) ↔
    chunker = .structural ∨ (∀ c ∈ text, isSpaceChar c = true) ∨ KeepsPlaces nfc text := by
  cases chunker with
  | structural =>
    exact iff_of_true (fun _ _ _ hok => locatesText_of_structural hok) (.inl rfl)
  | deterministic =>
    rw [or_iff_right nofun]
    constructor
    · intro h
      by_cases hblank : ∀ c ∈ text, isSpaceChar c = true
      · exact .inl hblank
      refine .inr (keepsPlaces_of_ranges rfl (by simpa using hblank) fun i j hij hj hne => ?_)
      -- the range is a window for its own size and the largest overlap
      have hsizes : 0 < ((j - i : ℕ) : ℤ) ∧ 0 ≤ ((j - i : ℕ) : ℤ) - 1 ∧
        ((j - i : ℕ) : ℤ) - 1 < ((j - i : ℕ) : ℤ) := by omega
      have hok := (buildDeterministicChunks_eq_ok nfc sha256 documentRevisionId (textDocument text)
        _ _).mpr ⟨hsizes, rfl⟩
      have hmem := (mem_deterministicChunks hok _ (rangeLocator ⟨i, j⟩)).mpr
        ⟨hne, ⟨i, j⟩, by
          rw [Int.toNat_natCast, show ((j - i : ℕ) : ℤ) - (((j - i : ℕ) : ℤ) - 1) = 1 by omega]
          exact window_mem hij hj, rfl, rfl⟩
      obtain ⟨chunk, hchunk, heq⟩ := List.mem_map.mp hmem
      obtain ⟨htext, hlocator⟩ := Prod.mk.inj heq
      obtain ⟨-, hle, hright⟩ := (locatesText_iff hlocator).mp (h _ _ _ hok chunk hchunk)
      exact ⟨hle, hright.trans htext⟩
    · intro hkeeps chunkSize overlap chunks hok chunk hchunk
      obtain ⟨hne, s, hs, htext, hlocator⟩ := (mem_deterministicChunks hok _ _).mp
        (List.mem_map_of_mem (f := fun chunk => (chunk.text, chunk.locator)) hchunk)
      have hsize : 0 < chunkSize.toNat := by
        have := ((buildDeterministicChunks_eq_ok _ _ _ _ _ _).mp hok).1.1
        omega
      obtain ⟨hlt, hle⟩ := mem_windows hsize hs
      rw [locatesText_iff hlocator]
      rcases hkeeps with hblank | hkeeps
      · have hlength : (normalizeChunkText nfc text).length = 0 := by
          rw [normalizeChunkText_blank hblank, List.length_nil]
        omega
      · obtain ⟨hstop, hright⟩ := normalizeChunkText_slice hkeeps (i := s.start) hle
        exact ⟨hlt.le, hstop, hright.trans
          ((normalizeChunkText_part (slice_isInfix _ _)).trans htext.symm)⟩

end Locators

/-- A text with a line end of two characters. -/
def twoLines : List Char := "Hi\r\nyou".toList

/-- The range of the only chunk ends before the last character of its text. -/
theorem text_locators_wrong : ∃ chunks chunk,
    buildDeterministicChunks plainComposition zeroDigest (Text.ofString "revision")
        (textDocument twoLines) 1200 0 = .ok chunks ∧
      chunk ∈ chunks ∧ ¬ LocatesText plainComposition twoLines chunk := by
  have hok := (buildDeterministicChunks_eq_ok plainComposition zeroDigest
    (Text.ofString "revision") (textDocument twoLines) 1200 0).mpr ⟨by decide, rfl⟩
  have hmem := (mem_deterministicChunks hok "Hi\nyou".toList (rangeLocator ⟨0, 6⟩)).mpr
    ⟨by decide, ⟨0, 6⟩, by decide +kernel, by decide +kernel, rfl⟩
  obtain ⟨chunk, hchunk, heq⟩ := List.mem_map.mp hmem
  obtain ⟨htext, hlocator⟩ := Prod.mk.inj heq
  refine ⟨_, chunk, hok, hchunk, fun h => ?_⟩
  obtain ⟨-, -, hright⟩ := (locatesText_iff hlocator).mp h
  rw [htext] at hright
  revert hright
  decide +kernel

end AgentHub.Chunking
