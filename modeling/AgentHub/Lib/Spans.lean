import Mathlib.Data.List.Basic
import Mathlib.Order.Lattice
import Mathlib.Tactic.Common

/-!
# Spans of a sequence

A span names a stretch of a sequence by its ends. Some elements are blank; a list of spans covers a
stretch when the spans follow each other in it and everything between them is blank, so that every
element that is not blank lies in exactly one of them.

## Main definitions

* `slice t s`: the elements of a span
* `SolidAt`, `BlankOn`: the elements that are not blank, and stretches of blank ones
* `Trimmed`: a span with solid ends
* `trimSpan`: a span without the blank elements at its ends
* `Covers p t a b spans`: the spans cover the stretch from `a` to `b`
* `spansBetween`: the stretches between separators, trimmed

## Main results

* `trimSpan_spec`: what trimming leaves
* `Covers.append`, `Covers.join`, `Covers.replace`: covers put together and refined
* `Covers.pairwise`, `Covers.exists_mem`, `eq_of_mem_both`: every solid element is in one span
* `covers_spansBetween`: the stretches between blank separators are a cover
-/

namespace Lib

/-- A stretch by its ends, the second one excluded. -/
structure Span where
  start : ℕ
  stop : ℕ
  deriving DecidableEq, Repr

/-- Nothing lies in the span. -/
def Span.empty (s : Span) : Bool := s.stop ≤ s.start

section Slices

variable {α : Type*} {t : List α} {a b c : ℕ}

/-- `t[start:stop]` -/
def slice (t : List α) (s : Span) : List α := (t.take s.stop).drop s.start

theorem drop_eq_append (hab : a ≤ b) : t.drop a = (t.take b).drop a ++ t.drop b := by
  conv_lhs => rw [← List.take_append_drop b t]
  rw [List.drop_append]
  rcases Nat.le_total b t.length with hb | hb
  · rw [List.length_take, Nat.min_eq_left hb, Nat.sub_eq_zero_of_le hab, List.drop_zero]
  · rw [List.drop_eq_nil_of_le hb, List.drop_nil]

/-- A span is cut in two. -/
theorem slice_append (hab : a ≤ b) (hbc : b ≤ c) :
    slice t ⟨a, c⟩ = slice t ⟨a, b⟩ ++ slice t ⟨b, c⟩ := by
  simp only [slice]
  rw [drop_eq_append hab, List.take_take, Nat.min_eq_left hbc]

theorem slice_self (t : List α) : slice t ⟨0, t.length⟩ = t := by simp [slice]

theorem slice_isInfix (t : List α) (s : Span) : slice t s <:+: t := by
  have htake := List.take_prefix s.stop t
  exact (List.drop_suffix s.start (t.take s.stop)).isInfix.trans htake.isInfix

/-- A span within another one is a part of it. -/
theorem slice_part {d : ℕ} (hab : a ≤ b) (hbc : b ≤ c) (hcd : c ≤ d) :
    slice t ⟨b, c⟩ <:+: slice t ⟨a, d⟩ := by
  rw [slice_append hab (hbc.trans hcd), slice_append hbc hcd]
  exact ⟨slice t ⟨a, b⟩, slice t ⟨c, d⟩, by rw [List.append_assoc]⟩

/-- The first element of a span. -/
theorem slice_cons (hab : a < b) {x : α} (hx : t[a]? = some x) :
    slice t ⟨a, b⟩ = x :: slice t ⟨a + 1, b⟩ := by
  have hget : (t.take b)[a]? = some x := by rw [List.getElem?_take_of_lt hab, hx]
  obtain ⟨hlt, hget⟩ := List.getElem?_eq_some_iff.mp hget
  simp only [slice]
  rw [List.drop_eq_getElem_cons hlt, hget]

/-- The last element of a span. -/
theorem slice_concat (hab : a ≤ b) {x : α} (hx : t[b]? = some x) :
    slice t ⟨a, b + 1⟩ = slice t ⟨a, b⟩ ++ [x] := by
  obtain ⟨hlt, hget⟩ := List.getElem?_eq_some_iff.mp hx
  simp only [slice]
  rw [List.take_succ_eq_append_getElem hlt, List.drop_append_of_le_length (by simp; omega), hget]

theorem slice_one {x : α} (hx : t[a]? = some x) : slice t ⟨a, a + 1⟩ = [x] := by
  rw [slice_concat (Nat.le_refl a) hx]
  simp [slice]

end Slices

/-! ## Blank and solid elements -/

section Blank

variable {α : Type*} (p : α → Bool) (t : List α)

/-- The element at `i` is not blank. -/
def SolidAt (i : ℕ) : Prop := ∃ x, t[i]? = some x ∧ p x = false

/-- Nothing from `a` to `b` is solid. -/
def BlankOn (a b : ℕ) : Prop := ∀ i, a ≤ i → i < b → ¬ SolidAt p t i

/-- A span within the sequence, with solid ends. -/
structure Trimmed (s : Span) : Prop where
  lt : s.start < s.stop
  le : s.stop ≤ t.length
  first : SolidAt p t s.start
  last : SolidAt p t (s.stop - 1)

/-- `while start < stop and blank(t[start]): start += 1`, for at most `n` rounds. -/
def skipForward : ℕ → ℕ → ℕ
  | 0, start => start
  | n + 1, start => if t[start]?.any p then skipForward n (start + 1) else start

/-- `while stop > start and blank(t[stop - 1]): stop -= 1`, for at most `n` rounds. -/
def skipBackward : ℕ → ℕ → ℕ
  | 0, stop => stop
  | n + 1, stop => if t[stop - 1]?.any p then skipBackward n (stop - 1) else stop

/-- The span without the blank elements at its ends. -/
def trimSpan (s : Span) : Span :=
  let start := skipForward p t (s.stop - s.start) s.start
  ⟨start, skipBackward p t (s.stop - start) s.stop⟩

variable {p t} {a b c : ℕ} {i : ℕ} {l : List Span}

theorem not_solidAt (h : t[i]?.any p = true) : ¬ SolidAt p t i := by
  rintro ⟨x, hx, hp⟩
  rw [hx, Option.any_some, hp] at h
  cases h

theorem solidAt_of_lt (hi : i < t.length) (h : ¬ t[i]?.any p = true) : SolidAt p t i := by
  rw [List.getElem?_eq_getElem hi, Option.any_some, Bool.not_eq_true] at h
  exact ⟨t[i], List.getElem?_eq_getElem hi, h⟩

theorem SolidAt.lt (h : SolidAt p t i) : i < t.length := by
  obtain ⟨x, hx, -⟩ := h
  exact (List.getElem?_eq_some_iff.mp hx).1

theorem SolidAt.not_any (h : SolidAt p t i) : ¬ t[i]?.any p = true := fun hany =>
  not_solidAt hany h

namespace BlankOn

theorem refl (a : ℕ) : BlankOn p t a a := fun _ _ _ => by omega

theorem trans (hab : BlankOn p t a b) (hbc : BlankOn p t b c) : BlankOn p t a c := by
  intro i hai hic
  rcases Nat.lt_or_ge i b with hib | hbi
  · exact hab i hai hib
  · exact hbc i hbi hic

theorem singleton {i : ℕ} (h : ¬ SolidAt p t i) : BlankOn p t i (i + 1) := by
  intro j hij hji
  obtain rfl : j = i := by omega
  exact h

end BlankOn

theorem skipForward_spec (n start : ℕ) (h : start + n ≤ t.length) :
    start ≤ skipForward p t n start ∧ skipForward p t n start ≤ start + n ∧
      BlankOn p t start (skipForward p t n start) ∧
      (skipForward p t n start < start + n → SolidAt p t (skipForward p t n start)) := by
  induction n generalizing start with
  | zero => exact ⟨le_rfl, le_rfl, .refl _, fun hlt => absurd hlt (lt_irrefl _)⟩
  | succ n ih =>
    rw [skipForward]
    split_ifs with hblank
    · obtain ⟨hle, hstop, hblanks, hsolid⟩ := ih (start + 1) (by omega)
      refine ⟨by omega, by omega, (BlankOn.singleton (not_solidAt hblank)).trans hblanks,
        fun hlt => hsolid (by omega)⟩
    · exact ⟨le_rfl, by omega, .refl _, fun _ => solidAt_of_lt (by omega) hblank⟩

theorem skipBackward_spec (n stop : ℕ) (hn : n ≤ stop) (h : stop ≤ t.length) :
    stop - n ≤ skipBackward p t n stop ∧ skipBackward p t n stop ≤ stop ∧
      BlankOn p t (skipBackward p t n stop) stop ∧
      (stop - n < skipBackward p t n stop → SolidAt p t (skipBackward p t n stop - 1)) := by
  induction n generalizing stop with
  | zero => exact ⟨le_rfl, le_rfl, .refl _, fun hlt => absurd hlt (lt_irrefl _)⟩
  | succ n ih =>
    rw [skipBackward]
    split_ifs with hblank
    · obtain ⟨hle, hstop, hblanks, hsolid⟩ := ih (stop - 1) (by omega) (by omega)
      have hlast : BlankOn p t (stop - 1) stop := by
        have := BlankOn.singleton (not_solidAt hblank)
        rwa [show stop - 1 + 1 = stop by omega] at this
      exact ⟨by omega, by omega, hblanks.trans hlast, fun hlt => hsolid (by omega)⟩
    · exact ⟨by omega, le_rfl, .refl _, fun _ => solidAt_of_lt (by omega) hblank⟩

/-- **What trimming leaves**: the span without blank ends, or nothing where all of it is blank. -/
theorem trimSpan_spec (hab : a ≤ b) (hb : b ≤ t.length) :
    BlankOn p t a (trimSpan p t ⟨a, b⟩).start ∧ BlankOn p t (trimSpan p t ⟨a, b⟩).stop b ∧
      a ≤ (trimSpan p t ⟨a, b⟩).start ∧ (trimSpan p t ⟨a, b⟩).stop ≤ b ∧
      (Trimmed p t (trimSpan p t ⟨a, b⟩) ∨
        trimSpan p t ⟨a, b⟩ = ⟨b, b⟩) := by
  obtain ⟨hstart, hle, hblank, hsolid⟩ :=
    skipForward_spec (p := p) (t := t) (b - a) a (by omega)
  set start := skipForward p t (b - a) a with hstartEq
  have htrim : trimSpan p t ⟨a, b⟩ = ⟨start, skipBackward p t (b - start) b⟩ := rfl
  obtain ⟨hstop, hstopLe, hblankEnd, hsolidEnd⟩ :=
    skipBackward_spec (p := p) (t := t) (b - start) b (by omega) hb
  rw [htrim]
  refine ⟨hblank, hblankEnd, hstart, hstopLe, ?_⟩
  rcases Nat.lt_or_ge start b with hlt | hge
  · have hfirst : SolidAt p t start := hsolid (by omega)
    -- the loop from the end stops after the solid element at the start
    have hgt : start < skipBackward p t (b - start) b := by
      by_contra hnot
      exact hblankEnd start (by omega) hlt hfirst
    exact .inl ⟨hgt, hstopLe.trans hb, hfirst, hsolidEnd (by omega)⟩
  · have heq : start = b := by omega
    have hzero : b - start = 0 := by omega
    rw [hzero, heq]
    exact .inr rfl

/-- A trimmed span stays as it is. -/
theorem trimSpan_of_trimmed {s : Span} (h : Trimmed p t s) : trimSpan p t s = s := by
  have hforward {n : ℕ} : skipForward p t n s.start = s.start := by
    cases n with
    | zero => rfl
    | succ n => rw [skipForward, if_neg h.first.not_any]
  have hbackward {n : ℕ} : skipBackward p t n s.stop = s.stop := by
    cases n with
    | zero => rfl
    | succ n => rw [skipBackward, if_neg h.last.not_any]
  rw [trimSpan]
  simp only [hforward, hbackward]

/-- From a solid element on, trimming moves the end only. -/
theorem trimSpan_of_solid (hab : a < b) (hb : b ≤ t.length) (ha : SolidAt p t a) :
    (trimSpan p t ⟨a, b⟩).start = a ∧ Trimmed p t (trimSpan p t ⟨a, b⟩) := by
  have hstart : (trimSpan p t ⟨a, b⟩).start = a := by
    obtain ⟨n, hn⟩ : ∃ n, b - a = n + 1 := ⟨b - a - 1, by omega⟩
    rw [trimSpan]
    simp only [hn]
    rw [skipForward, if_neg ha.not_any]
  refine ⟨hstart, ?_⟩
  obtain ⟨-, -, -, -, htrimmed | hempty⟩ := trimSpan_spec (p := p) hab.le hb
  · exact htrimmed
  · rw [hempty] at hstart
    exact absurd hstart (by dsimp only; omega)

/-! ## Covers -/

variable (p t) in
/-- The spans follow each other from `a` to `b`, with nothing but blank elements around them. -/
def Covers : ℕ → ℕ → List Span → Prop
  | a, b, [] => a ≤ b ∧ BlankOn p t a b
  | a, b, s :: spans => a ≤ s.start ∧ s.start < s.stop ∧ BlankOn p t a s.start ∧
      Covers s.stop b spans

namespace Covers

variable {s u : Span} {l r : List Span}

theorem le (h : Covers p t a b l) : a ≤ b := by
  induction l generalizing a with
  | nil => exact h.1
  | cons s l ih =>
    obtain ⟨hstart, hlt, -, hrest⟩ := h
    exact (hstart.trans hlt.le).trans (ih hrest)

/-- Blank elements may be added at the front. -/
theorem left (h : Covers p t b c l) (hab : a ≤ b) (hblank : BlankOn p t a b) :
    Covers p t a c l := by
  cases l with
  | nil => exact ⟨hab.trans h.1, hblank.trans h.2⟩
  | cons s l =>
    obtain ⟨hstart, hlt, hbefore, hrest⟩ := h
    exact ⟨hab.trans hstart, hlt, hblank.trans hbefore, hrest⟩

/-- **Covers of neighbouring stretches** are put together. -/
theorem append (h : Covers p t a b l) (hr : Covers p t b c r) : Covers p t a c (l ++ r) := by
  induction l generalizing a with
  | nil => exact hr.left h.1 h.2
  | cons s l ih =>
    obtain ⟨hstart, hlt, hbefore, hrest⟩ := h
    exact ⟨hstart, hlt, hbefore, ih hrest⟩

/-- Blank elements may be added at the end. -/
theorem right (h : Covers p t a b l) (hbc : b ≤ c) (hblank : BlankOn p t b c) :
    Covers p t a c l := by
  have happend := h.append (r := []) ⟨hbc, hblank⟩
  rwa [List.append_nil] at happend

theorem singleton (h : s.start < s.stop) : Covers p t s.start s.stop [s] :=
  ⟨le_rfl, h, .refl _, le_rfl, .refl _⟩

/-- Two neighbouring spans may be joined. -/
theorem join (h : Covers p t a b (s :: u :: l)) : Covers p t a b (⟨s.start, u.stop⟩ :: l) := by
  obtain ⟨hstart, hlt, hbefore, hnext, hlt', -, hrest⟩ := h
  exact ⟨hstart, by dsimp only; omega, hbefore, hrest⟩

theorem within (h : Covers p t a b l) (hs : s ∈ l) :
    a ≤ s.start ∧ s.start < s.stop ∧ s.stop ≤ b := by
  induction l generalizing a with
  | nil => cases hs
  | cons u l ih =>
    obtain ⟨hstart, hlt, -, hrest⟩ := h
    rcases List.mem_cons.mp hs with rfl | hs
    · exact ⟨hstart, hlt, hrest.le⟩
    · obtain ⟨hle, hlt', hstop⟩ := ih hrest hs
      exact ⟨by omega, hlt', hstop⟩

/-- **The spans are in order**, and none overlaps the next. -/
theorem pairwise (h : Covers p t a b l) : l.Pairwise fun s u => s.stop ≤ u.start := by
  induction l generalizing a with
  | nil => exact .nil
  | cons s l ih =>
    obtain ⟨-, -, -, hrest⟩ := h
    exact .cons (fun u hu => (hrest.within hu).1) (ih hrest)

/-- **Every solid element is in a span.** -/
theorem exists_mem (h : Covers p t a b l) {i : ℕ} (hai : a ≤ i) (hib : i < b)
    (hi : SolidAt p t i) : ∃ s ∈ l, s.start ≤ i ∧ i < s.stop := by
  induction l generalizing a with
  | nil => exact absurd hi (h.2 i hai hib)
  | cons s l ih =>
    obtain ⟨-, -, hbefore, hrest⟩ := h
    rcases Nat.lt_or_ge i s.start with hlt | hge
    · exact absurd hi (hbefore i hai hlt)
    · rcases Nat.lt_or_ge i s.stop with hlt | hge'
      · exact ⟨s, List.mem_cons_self, hge, hlt⟩
      · obtain ⟨u, hu, hmem⟩ := ih hrest hge'
        exact ⟨u, List.mem_cons_of_mem _ hu, hmem⟩

end Covers

/-- Spans in order have no element in common. -/
theorem eq_of_mem_both (h : l.Pairwise fun s u => s.stop ≤ u.start) {s u : Span} (hs : s ∈ l)
    (hu : u ∈ l) (hsi : s.start ≤ i ∧ i < s.stop) (hui : u.start ≤ i ∧ i < u.stop) : s = u := by
  induction l with
  | nil => cases hs
  | cons v l ih =>
    obtain ⟨hv, hl⟩ := List.pairwise_cons.mp h
    rcases List.mem_cons.mp hs with rfl | hs' <;> rcases List.mem_cons.mp hu with rfl | hu'
    · rfl
    · have := hv u hu'
      omega
    · have := hv s hs'
      omega
    · exact ih hl hs' hu'

/-! ## Stretches between separators -/

variable (p t) in
/-- The span, unless trimming leaves nothing of it. -/
def keepSpan (s : Span) : List Span := if (trimSpan p t s).empty then [] else [trimSpan p t s]

variable (p t) in
/-- The trimmed stretches from `cursor` to `stop` between the separators. -/
def spansBetween (stop : ℕ) : ℕ → List Span → List Span
  | cursor, [] => keepSpan p t ⟨cursor, stop⟩
  | cursor, separator :: separators =>
    keepSpan p t ⟨cursor, separator.start⟩ ++ spansBetween stop separator.stop separators

theorem covers_keepSpan (hab : a ≤ b) (hb : b ≤ t.length) :
    Covers p t a b (keepSpan p t ⟨a, b⟩) ∧ ∀ s ∈ keepSpan p t ⟨a, b⟩, Trimmed p t s := by
  obtain ⟨hbefore, hafter, hstart, hstop, htrimmed | hempty⟩ := trimSpan_spec (p := p) hab hb
  · have hkeep : keepSpan p t ⟨a, b⟩ = [trimSpan p t ⟨a, b⟩] := by
      rw [keepSpan, if_neg]
      simpa [Span.empty] using htrimmed.lt
    rw [hkeep]
    refine ⟨((Covers.singleton htrimmed.lt).left hstart hbefore).right hstop hafter, ?_⟩
    simpa using htrimmed
  · have hkeep : keepSpan p t ⟨a, b⟩ = [] := by
      rw [keepSpan, if_pos]
      simp [Span.empty, hempty]
    rw [hempty] at hbefore
    rw [hkeep]
    exact ⟨⟨hab, hbefore⟩, by simp⟩

variable (p t) in
/-- Separators in order from `a` on, each of them blank. -/
def Separates (b : ℕ) : ℕ → List Span → Prop
  | a, [] => a ≤ b
  | a, s :: l => a ≤ s.start ∧ s.start ≤ s.stop ∧ BlankOn p t s.start s.stop ∧ Separates b s.stop l

theorem Separates.le (h : Separates p t b a l) : a ≤ b := by
  induction l generalizing a with
  | nil => exact h
  | cons s l ih =>
    obtain ⟨hstart, hle, -, hrest⟩ := h
    exact (hstart.trans hle).trans (ih hrest)

theorem Separates.left {a' : ℕ} (h : Separates p t b a l) (ha : a' ≤ a) : Separates p t b a' l := by
  cases l with
  | nil => exact ha.trans h
  | cons s l => exact ⟨ha.trans h.1, h.2⟩

/-- Cuts in order are separators. -/
theorem separates_cuts {cuts : List ℕ} (hsorted : cuts.Pairwise (· < ·)) (hab : a ≤ b)
    (hcuts : ∀ c ∈ cuts, a ≤ c ∧ c ≤ b) : Separates p t b a (cuts.map fun c => ⟨c, c⟩) := by
  induction cuts generalizing a with
  | nil => exact hab
  | cons c cuts ih =>
    obtain ⟨hlt, hrest⟩ := List.pairwise_cons.mp hsorted
    obtain ⟨hac, hcb⟩ := hcuts c List.mem_cons_self
    exact ⟨hac, le_rfl, .refl _, ih hrest hcb fun d hd =>
      ⟨(hlt d hd).le, (hcuts d (List.mem_cons_of_mem _ hd)).2⟩⟩

/-- **The stretches between blank separators are a cover**, and they are trimmed. -/
theorem covers_spansBetween {separators : List Span} (h : Separates p t b a separators)
    (hb : b ≤ t.length) :
    Covers p t a b (spansBetween p t b a separators) ∧
      ∀ s ∈ spansBetween p t b a separators, Trimmed p t s := by
  induction separators generalizing a with
  | nil => exact covers_keepSpan h hb
  | cons separator separators ih =>
    obtain ⟨hstart, hle, hblank, hrest⟩ := h
    have hstop := hrest.le
    obtain ⟨hkeep, htrimmed⟩ := covers_keepSpan (p := p) hstart (by omega : _ ≤ t.length)
    obtain ⟨hcovers, htrimmed'⟩ := ih hrest
    refine ⟨(hkeep.right hle hblank).append hcovers, fun s hs => ?_⟩
    rcases List.mem_append.mp hs with hs | hs
    · exact htrimmed s hs
    · exact htrimmed' s hs

end Blank

end Lib
