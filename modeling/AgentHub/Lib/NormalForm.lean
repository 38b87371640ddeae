import AgentHub.Lib.Pairing
import AgentHub.Lib.Text

/-!
# Normal forms of text

Text is normalised before it is measured and compared: line ends are folded into one, the result is
put into the canonical composition of Unicode, and blanks at the ends are stripped. The composition
is not modelled; what is used of it are laws. It does not cut text: composing two parts apart and
then together gives the same, and a part of a composed text is composed. Some characters are inert,
so that text may be cut there, and whitespace is among them.

## Main definitions

* `Nfc inert`: a normal form with the laws of the canonical composition
* `foldNewlines`: the line ends as one character
* `isSpaceChar`: the whitespace characters

## Main results

* `strip_middle`, `length_strip_le`, `strip_part`: stripping a text that others contain
* `foldNewlines_append`, `foldNewlines_eq_map`: line ends are folded apart, but for pairs
* `Nfc.normalize_cut`: a text may be cut before and after an inert character
* `Nfc.runs_induction`: text is read run by run
* `Nfc.exists_solid`, `Nfc.countP_normalize`: solid characters and whitespace do not disappear
-/

namespace Lib

def isSpaceChar (c : Char) : Bool := isSpaceCode c.toNat

/-! ## Stripping -/

section Strip

variable {α : Type*} {p : α → Bool}

theorem dropWhile_append_solid {u v : List α} (hv : ∀ x ∈ v.head?, p x = false) :
    (u ++ v).dropWhile p = u.dropWhile p ++ v := by
  rw [List.dropWhile_append]
  split_ifs with hu
  · rw [List.isEmpty_iff.mp hu, List.nil_append]
    cases v with
    | nil => rfl
    | cons x v => exact List.dropWhile_cons_of_neg (by simp [hv x rfl])
  · rfl

theorem rdropWhile_append_solid {u v : List α} (hu : ∀ x ∈ u.getLast?, p x = false) :
    (u ++ v).rdropWhile p = u ++ v.rdropWhile p := by
  rw [List.rdropWhile, List.reverse_append, dropWhile_append_solid (by simpa using hu),
    List.reverse_append, List.reverse_reverse]
  rfl

/-- **Stripping reaches up to a part with solid ends**, and no further. -/
theorem strip_middle {u s v : List α} (hne : s ≠ []) (hfirst : ∀ x ∈ s.head?, p x = false)
    (hlast : ∀ x ∈ s.getLast?, p x = false) :
    strip p (u ++ (s ++ v)) = u.dropWhile p ++ (s ++ v.rdropWhile p) := by
  have hhead : (s ++ v).head? = s.head? := List.head?_append_of_ne_nil _ hne
  have hend : (u.dropWhile p ++ s).getLast? = s.getLast? := List.getLast?_append_of_ne_nil _ hne
  rw [strip, dropWhile_append_solid (by rwa [hhead]), ← List.append_assoc,
    rdropWhile_append_solid (by rwa [hend]), List.append_assoc]

/-- A text is what stripping leaves, between blanks. -/
theorem exists_strip (l : List α) : ∃ u v, l = u ++ (strip p l ++ v) ∧
    (∀ x ∈ u, p x = true) ∧ (∀ x ∈ v, p x = true) := by
  refine ⟨l.takeWhile p, (l.dropWhile p).rtakeWhile p, ?_, fun x hx => List.mem_takeWhile_imp hx,
    fun x hx => List.mem_rtakeWhile_imp hx⟩
  rw [strip, List.rdropWhile_append_rtakeWhile]
  exact (List.takeWhile_append_dropWhile).symm

theorem length_strip_le_self (l : List α) : (strip p l).length ≤ l.length := by
  obtain ⟨u, v, hl, -, -⟩ := exists_strip (p := p) l
  conv_rhs => rw [hl]
  simp only [List.length_append]
  omega

theorem strip_of_solid {l : List α} (h : ∀ x ∈ l, p x = false) : strip p l = l := by
  rw [strip, List.dropWhile_eq_self_iff.mpr fun hl => by simp [h _ (List.getElem_mem hl)],
    List.rdropWhile_eq_self_iff.mpr fun hl => by simp [h _ (List.getLast_mem hl)]]

/-- What stripping leaves has solid ends. -/
theorem strip_ends (l : List α) :
    (∀ x ∈ (strip p l).head?, p x = false) ∧ ∀ x ∈ (strip p l).getLast?, p x = false := by
  constructor
  · intro x hx
    obtain ⟨w, hw⟩ := List.rdropWhile_prefix p (l := l.dropWhile p)
    have hne : strip p l ≠ [] := by
      rintro hnil
      rw [hnil] at hx
      cases hx
    have hhead : (l.dropWhile p).head? = some x := by
      rw [← hw]
      exact (List.head?_append_of_ne_nil _ hne).trans hx
    have hnot := List.head?_dropWhile_not p l
    rw [hhead] at hnot
    exact hnot
  · intro x hx
    have hne : (l.dropWhile p).rdropWhile p ≠ [] := by
      rintro hnil
      rw [strip, hnil] at hx
      cases hx
    have hlast := List.rdropWhile_last_not p (l.dropWhile p) hne
    rw [strip, List.getLast?_eq_some_getLast hne] at hx
    obtain rfl := Option.some.inj hx
    simpa using hlast

theorem strip_strip (l : List α) : strip p (strip p l) = strip p l := by
  by_cases hne : strip p l = []
  · rw [hne]
    rfl
  · obtain ⟨hfirst, hlast⟩ := strip_ends (p := p) l
    simpa using strip_middle (u := []) (v := []) hne hfirst hlast

/-- Stripping leaves at least as much of a text as of a part at its front. -/
theorem length_strip_le (x y : List α) : (strip p x).length ≤ (strip p (x ++ y)).length := by
  by_cases hne : strip p x = []
  · simp [hne]
  · obtain ⟨u, v, hx, -, -⟩ := exists_strip (p := p) x
    obtain ⟨hfirst, hlast⟩ := strip_ends (p := p) x
    have hsplit : x ++ y = u ++ (strip p x ++ (v ++ y)) := by
      conv_lhs => rw [hx]
      simp only [List.append_assoc]
    rw [hsplit, strip_middle hne hfirst hlast]
    simp only [List.length_append]
    omega

/-- A part of a text, stripped, is a part of the text, stripped. -/
theorem strip_part {x y : List α} (h : x <:+: y) : strip p x <:+: strip p y := by
  by_cases hne : strip p x = []
  · rw [hne]
    exact List.nil_infix
  · obtain ⟨a, b, rfl⟩ := h
    obtain ⟨u, v, hx, -, -⟩ := exists_strip (p := p) x
    obtain ⟨hfirst, hlast⟩ := strip_ends (p := p) x
    have hsplit : a ++ x ++ b = (a ++ u) ++ (strip p x ++ (v ++ b)) := by
      conv_lhs => rw [hx]
      simp only [List.append_assoc]
    rw [hsplit, strip_middle hne hfirst hlast, ← List.append_assoc]
    exact ⟨_, _, rfl⟩

end Strip

/-! ## Line ends -/

/-- The line ends as `'\n'`, where a line feed after a carriage return is part of it. -/
def foldNewlinesFrom : Bool → List Char → List Char
  | _, [] => []
  | afterReturn, c :: t =>
    if c = '\r' then '\n' :: foldNewlinesFrom true t
    else if afterReturn ∧ c = '\n' then foldNewlinesFrom false t
    else c :: foldNewlinesFrom false t

/-- `text.replace("\r\n", "\n").replace("\r", "\n")` -/
def foldNewlines (t : List Char) : List Char := foldNewlinesFrom false t

/-- One character, with its line end folded. -/
def foldChar (c : Char) : Char := if c = '\r' then '\n' else c

section Newlines

variable {a b t : List Char}

theorem foldNewlinesFrom_of_head (h : b.head? ≠ some '\n') (afterReturn : Bool) :
    foldNewlinesFrom afterReturn b = foldNewlines b := by
  cases b with
  | nil => rfl
  | cons c t =>
    have hc : c ≠ '\n' := fun heq => h (heq ▸ rfl)
    simp [foldNewlines, foldNewlinesFrom, hc]

/-- Folding goes on after a part of the text, which may end with a carriage return. -/
theorem exists_foldNewlinesFrom_append (a b : List Char) (afterReturn : Bool) :
    ∃ after, foldNewlinesFrom afterReturn (a ++ b) =
        foldNewlinesFrom afterReturn a ++ foldNewlinesFrom after b ∧
      (after = true → a.getLast? = some '\r' ∨ a = [] ∧ afterReturn = true) := by
  induction a generalizing afterReturn with
  | nil => exact ⟨afterReturn, rfl, fun h => .inr ⟨rfl, h⟩⟩
  | cons c a ih =>
    rw [List.cons_append, foldNewlinesFrom, foldNewlinesFrom]
    split_ifs with hreturn hpair
    · obtain ⟨after, heq, hafter⟩ := ih true
      refine ⟨after, by rw [heq, List.cons_append], fun h => .inl ?_⟩
      rcases hafter h with hlast | ⟨rfl, -⟩
      · rw [List.getLast?_cons, hlast, Option.getD_some]
      · rw [hreturn]
        rfl
    all_goals
      obtain ⟨after, heq, hafter⟩ := ih false
      refine ⟨after, by simp only [heq, List.cons_append], fun h => .inl ?_⟩
      rcases hafter h with hlast | ⟨-, hfalse⟩
      · rw [List.getLast?_cons, hlast, Option.getD_some]
      · cases hfalse

/-- **Line ends are folded apart**, but for a pair that is cut in two. -/
theorem foldNewlines_append (h : a.getLast? ≠ some '\r' ∨ b.head? ≠ some '\n') :
    foldNewlines (a ++ b) = foldNewlines a ++ foldNewlines b := by
  obtain ⟨after, heq, hafter⟩ := exists_foldNewlinesFrom_append a b false
  rw [foldNewlines, heq]
  refine congrArg _ ?_
  cases after with
  | false => rfl
  | true =>
    rcases hafter rfl with hlast | ⟨-, hfalse⟩
    · exact foldNewlinesFrom_of_head (h.resolve_left fun hne => hne hlast) true
    · cases hfalse

theorem foldNewlines_singleton (c : Char) : foldNewlines [c] = [foldChar c] := by
  by_cases hc : c = '\r' <;> simp [foldNewlines, foldNewlinesFrom, foldChar, hc]

/-- The first character is folded by itself. -/
theorem head?_foldNewlines : (foldNewlines t).head? = t.head?.map foldChar := by
  cases t with
  | nil => rfl
  | cons c t => by_cases hc : c = '\r' <;> simp [foldNewlines, foldNewlinesFrom, foldChar, hc]

/-- A last character that is no line end stays. -/
theorem getLast?_foldNewlines {c : Char} (hlast : t.getLast? = some c) (hr : c ≠ '\r')
    (hn : c ≠ '\n') : (foldNewlines t).getLast? = some c := by
  obtain ⟨front, rfl⟩ := List.getLast?_eq_some_iff.mp hlast
  rw [foldNewlines_append (.inr (by simpa using hn)), foldNewlines_singleton, foldChar, if_neg hr]
  simp

/-- Folding leaves no carriage return, and no other character that was not there. -/
theorem mem_foldNewlinesFrom {afterReturn : Bool} {c : Char}
    (h : c ∈ foldNewlinesFrom afterReturn t) : ∃ d ∈ t, foldChar d = c := by
  induction t generalizing afterReturn with
  | nil => cases h
  | cons d t ih =>
    rw [foldNewlinesFrom] at h
    split_ifs at h with hreturn hpair
    · rcases List.mem_cons.mp h with rfl | h
      · exact ⟨d, List.mem_cons_self, if_pos hreturn⟩
      · obtain ⟨e, he, heq⟩ := ih h
        exact ⟨e, List.mem_cons_of_mem _ he, heq⟩
    · obtain ⟨e, he, heq⟩ := ih h
      exact ⟨e, List.mem_cons_of_mem _ he, heq⟩
    · rcases List.mem_cons.mp h with rfl | h
      · exact ⟨c, List.mem_cons_self, if_neg hreturn⟩
      · obtain ⟨e, he, heq⟩ := ih h
        exact ⟨e, List.mem_cons_of_mem _ he, heq⟩

theorem return_not_mem_foldNewlines : '\r' ∉ foldNewlines t := by
  intro h
  obtain ⟨d, -, hd⟩ := mem_foldNewlinesFrom h
  unfold foldChar at hd
  split_ifs at hd with hr
  · exact absurd hd (by decide)
  · exact hr hd

/-- Other characters stay. -/
theorem mem_foldNewlinesFrom_of_mem {c : Char} (hc : c ∈ t) (hr : c ≠ '\r') (hn : c ≠ '\n')
    (afterReturn : Bool) : c ∈ foldNewlinesFrom afterReturn t := by
  induction t generalizing afterReturn with
  | nil => cases hc
  | cons d t ih =>
    rw [foldNewlinesFrom]
    rcases List.mem_cons.mp hc with rfl | hc
    · simp [hr, hn]
    · split_ifs
      · exact List.mem_cons_of_mem _ (ih hc true)
      · exact ih hc false
      · exact List.mem_cons_of_mem _ (ih hc false)

theorem length_foldNewlinesFrom_le (afterReturn : Bool) (t : List Char) :
    (foldNewlinesFrom afterReturn t).length ≤ t.length := by
  fun_induction foldNewlinesFrom afterReturn t with
  | case1 => exact le_rfl
  | case2 => simpa using by assumption
  | case3 afterReturn c t hr hpair ih => exact ih.trans (by simp)
  | case4 => simpa using by assumption

/-- A pair of carriage return and line feed is shortened. -/
theorem length_foldNewlines_lt (h : ['\r', '\n'] <:+: t) : (foldNewlines t).length < t.length := by
  obtain ⟨a, b, rfl⟩ := h
  obtain ⟨after, heq, -⟩ := exists_foldNewlinesFrom_append a ('\r' :: '\n' :: b) false
  have ha := length_foldNewlinesFrom_le false a
  have hb := length_foldNewlinesFrom_le false b
  have hpair : foldNewlinesFrom after ('\r' :: '\n' :: b) = '\n' :: foldNewlinesFrom false b := by
    simp [foldNewlinesFrom]
  rw [List.append_assoc, foldNewlines]
  change (foldNewlinesFrom false (a ++ '\r' :: '\n' :: b)).length < _
  rw [heq, hpair]
  simp only [List.length_append, List.length_cons, List.length_nil]
  omega

theorem foldNewlinesFrom_eq_map (afterReturn : Bool) (t : List Char)
    (hpairs : ¬ ['\r', '\n'] <:+: t) (hhead : afterReturn = true → t.head? ≠ some '\n') :
    foldNewlinesFrom afterReturn t = t.map foldChar := by
  induction t generalizing afterReturn with
  | nil => rfl
  | cons c t ih =>
    have hrest : ¬ ['\r', '\n'] <:+: t := fun h => hpairs (h.trans (List.suffix_cons c t).isInfix)
    rw [foldNewlinesFrom, List.map_cons, foldChar]
    split_ifs with hreturn hpair
    · refine congrArg _ (ih true hrest fun _ hnext => hpairs ?_)
      obtain ⟨t', rfl⟩ := List.head?_eq_some_iff.mp hnext
      exact ⟨[], t', by simp [hreturn]⟩
    · exact absurd (congrArg some hpair.2) (hhead hpair.1)
    · exact congrArg _ (ih false hrest (by simp))

/-- **Without pairs, line ends are folded one by one.** -/
theorem foldNewlines_eq_map (hpairs : ¬ ['\r', '\n'] <:+: t) : foldNewlines t = t.map foldChar :=
  foldNewlinesFrom_eq_map false t hpairs (by simp)

theorem foldNewlines_of_not_mem (h : '\r' ∉ t) : foldNewlines t = t := by
  have hmap : t.map foldChar = t := by
    conv_rhs => rw [← List.map_id t]
    refine List.map_congr_left fun c hc => if_neg ?_
    rintro rfl
    exact h hc
  rw [foldNewlines_eq_map fun hpair => h (hpair.subset List.mem_cons_self), hmap]

/-- Folding keeps the solid characters. -/
theorem filter_foldNewlinesFrom (afterReturn : Bool) (t : List Char) :
    (foldNewlinesFrom afterReturn t).filter (fun c => !isSpaceChar c) =
      t.filter fun c => !isSpaceChar c := by
  have hr : isSpaceChar '\r' = true := by decide
  have hn : isSpaceChar '\n' = true := by decide
  fun_induction foldNewlinesFrom afterReturn t with
  | case1 => rfl
  | case2 afterReturn t ih => simp [hr, hn, ih]
  | case3 afterReturn c t hreturn hpair ih => simp [hpair.2, hn, ih]
  | case4 afterReturn c t hreturn hpair ih => simp [List.filter_cons, ih]

end Newlines

/-! ## Composition -/

/-- A normal form of texts, with the laws of the canonical composition. An inert character does not
compose with its neighbours, and marks do not move across it. -/
structure Nfc (inert : Char → Bool) where
  normalize : List Char → List Char
  normalize_nil : normalize [] = []
  normalize_split : ∀ a c b, inert c = true →
    normalize (a ++ c :: b) = normalize a ++ (normalize [c] ++ normalize b)
  /-- Parts may be composed first. -/
  normalize_append : ∀ a b, normalize (a ++ b) = normalize (normalize a ++ normalize b)
  /-- A part of a composed text is composed. -/
  normalize_part : ∀ a b c, normalize (a ++ (b ++ c)) = a ++ (b ++ c) → normalize b = b
  length_normalize_singleton : ∀ c, (normalize [c]).length ≤ 3
  /-- Whitespace stays whitespace, and no carriage return appears. -/
  normalize_space : ∀ c, isSpaceChar c = true →
    ∃ d, normalize [c] = [d] ∧ isSpaceChar d = true ∧ (d = '\r' → c = '\r')
  normalize_solid : ∀ t, (∀ c ∈ t, isSpaceChar c = false) →
    ∀ c ∈ normalize t, isSpaceChar c = false
  /-- The length of the canonical decomposition. -/
  weight : List Char → ℕ
  weight_append : ∀ a b, weight (a ++ b) = weight a + weight b
  weight_singleton : ∀ c, 0 < weight [c]
  weight_normalize : ∀ t, weight (normalize t) = weight t
  weight_space : ∀ c, isSpaceChar c = true → weight [c] = 1
  inert_space : ∀ c, isSpaceChar c = true → inert c = true

namespace Nfc

variable {inert : Char → Bool} (nfc : Nfc inert) {a b t : List Char}

/-- **A text may be cut at an inert character.** -/
theorem normalize_cut (h : (∃ c ∈ a.getLast?, inert c = true) ∨ ∃ c ∈ b.head?, inert c = true) :
    nfc.normalize (a ++ b) = nfc.normalize a ++ nfc.normalize b := by
  rcases h with ⟨c, hc, hinert⟩ | ⟨c, hc, hinert⟩
  · obtain ⟨a', rfl⟩ := List.getLast?_eq_some_iff.mp hc
    rw [List.append_assoc, List.singleton_append, nfc.normalize_split _ _ _ hinert,
      nfc.normalize_split a' c [] hinert, nfc.normalize_nil, List.append_nil, List.append_assoc]
  · obtain ⟨b', rfl⟩ := List.head?_eq_some_iff.mp hc
    have hsingle := nfc.normalize_split [] c b' hinert
    rw [List.nil_append, nfc.normalize_nil, List.nil_append] at hsingle
    rw [nfc.normalize_split _ _ _ hinert, hsingle]

theorem weight_nil : nfc.weight [] = 0 := by
  have h := nfc.weight_append [] []
  simp only [List.append_nil] at h
  omega

theorem weight_pos (h : t ≠ []) : 0 < nfc.weight t := by
  obtain ⟨c, t, rfl⟩ := List.exists_cons_of_ne_nil h
  have hc := nfc.weight_singleton c
  have happend := nfc.weight_append [c] t
  rw [List.singleton_append] at happend
  omega

/-- A text that is not empty does not become empty. -/
theorem normalize_ne_nil (h : t ≠ []) : nfc.normalize t ≠ [] := by
  intro hnil
  have hweight := nfc.weight_normalize t
  have hpos := nfc.weight_pos h
  rw [hnil, nfc.weight_nil] at hweight
  omega

theorem normalize_cons_space {c : Char} (hc : isSpaceChar c = true) :
    nfc.normalize (c :: t) = nfc.normalize [c] ++ nfc.normalize t := by
  have hsplit := nfc.normalize_split [] c t (nfc.inert_space c hc)
  rwa [List.nil_append, nfc.normalize_nil, List.nil_append] at hsplit

/-- Text is read run by run: a whitespace character, or solid ones up to the next whitespace. -/
@[elab_as_elim]
theorem runs_induction {motive : List Char → Prop} (nil : motive [])
    (space : ∀ c t, isSpaceChar c = true → motive t → motive (c :: t))
    (solid : ∀ r t, r ≠ [] → (∀ c ∈ r, isSpaceChar c = false) →
      (∀ c ∈ t.head?, isSpaceChar c = true) → motive t → motive (r ++ t)) (t : List Char) :
    motive t := by
  induction hn : t.length using Nat.strong_induction_on generalizing t with
  | _ n ih =>
    subst hn
    cases t with
    | nil => exact nil
    | cons c t =>
      cases hc : isSpaceChar c with
      | true => exact space c t hc (ih t.length (by simp) t rfl)
      | false =>
        have hsplit := List.takeWhile_append_dropWhile (p := fun c => !isSpaceChar c) (l := c :: t)
        have hne : (c :: t).takeWhile (fun c => !isSpaceChar c) ≠ [] := by simp [hc]
        have hlength := congrArg List.length hsplit
        have hpos := List.length_pos_of_ne_nil hne
        rw [List.length_append] at hlength
        rw [← hsplit]
        refine solid _ _ hne (fun d hd => by simpa using List.mem_takeWhile_imp hd)
          (fun d hd => ?_) (ih _ (by omega) _ rfl)
        have hnot := List.head?_dropWhile_not (fun c => !isSpaceChar c) (c :: t)
        rw [hd] at hnot
        simpa using hnot

/-- Solid characters up to the next whitespace are composed by themselves. -/
theorem normalize_run {r : List Char} (ht : ∀ c ∈ t.head?, isSpaceChar c = true) :
    nfc.normalize (r ++ t) = nfc.normalize r ++ nfc.normalize t := by
  cases t with
  | nil => rw [List.append_nil, nfc.normalize_nil, List.append_nil]
  | cons c t => exact nfc.normalize_cut (.inr ⟨c, rfl, nfc.inert_space c (ht c rfl)⟩)

/-- **Solid characters do not disappear.** -/
theorem exists_solid (h : ∃ c ∈ t, isSpaceChar c = false) :
    ∃ c ∈ nfc.normalize t, isSpaceChar c = false := by
  induction t using runs_induction with
  | nil =>
    obtain ⟨c, hc, -⟩ := h
    cases hc
  | space c t hc ih =>
    obtain ⟨d, hd, hsolid⟩ := h
    have hdt : d ∈ t := (List.mem_cons.mp hd).resolve_left fun heq => by simp_all
    obtain ⟨e, he, hesolid⟩ := ih ⟨d, hdt, hsolid⟩
    rw [nfc.normalize_cons_space hc]
    exact ⟨e, List.mem_append_right _ he, hesolid⟩
  | solid r t hne hr ht ih =>
    obtain ⟨d, rest, hd⟩ := List.exists_cons_of_ne_nil (nfc.normalize_ne_nil hne)
    rw [nfc.normalize_run ht, hd]
    exact ⟨d, by simp, nfc.normalize_solid r hr d (hd ▸ List.mem_cons_self)⟩

/-- **Whitespace is composed one by one**, so that there is as much as before. -/
theorem countP_normalize (t : List Char) :
    (nfc.normalize t).countP isSpaceChar = t.countP isSpaceChar := by
  induction t using runs_induction with
  | nil => rw [nfc.normalize_nil]
  | space c t hc ih =>
    obtain ⟨d, hd, hspace, -⟩ := nfc.normalize_space c hc
    rw [nfc.normalize_cons_space hc, hd, List.countP_append, ih]
    simp [hc, hspace, Nat.add_comm]
  | solid r t hne hr ht ih =>
    have hzero {l : List Char} (h : ∀ c ∈ l, isSpaceChar c = false) : l.countP isSpaceChar = 0 :=
      List.countP_eq_zero.mpr fun c hc => by simp [h c hc]
    rw [nfc.normalize_run ht, List.countP_append, List.countP_append, ih, hzero hr,
      hzero (nfc.normalize_solid r hr)]

/-- Whitespace comes from whitespace. -/
theorem exists_of_space_mem_normalize {d : Char} (h : d ∈ nfc.normalize t)
    (hd : isSpaceChar d = true) : ∃ c ∈ t, nfc.normalize [c] = [d] ∧ isSpaceChar c = true := by
  induction t using runs_induction with
  | nil =>
    rw [nfc.normalize_nil] at h
    cases h
  | space c t hc ih =>
    obtain ⟨e, he, -, -⟩ := nfc.normalize_space c hc
    rw [nfc.normalize_cons_space hc, he, List.singleton_append] at h
    rcases List.mem_cons.mp h with rfl | h
    · exact ⟨c, List.mem_cons_self, he, hc⟩
    · obtain ⟨c', hc', heq⟩ := ih h
      exact ⟨c', List.mem_cons_of_mem _ hc', heq⟩
  | solid r t hne hr ht ih =>
    rw [nfc.normalize_run ht] at h
    rcases List.mem_append.mp h with h | h
    · rw [nfc.normalize_solid r hr d h] at hd
      cases hd
    · obtain ⟨c, hc, heq⟩ := ih h
      exact ⟨c, List.mem_append_right _ hc, heq⟩

/-- No carriage return appears. -/
theorem return_not_mem_normalize (h : '\r' ∉ t) : '\r' ∉ nfc.normalize t := by
  intro hmem
  obtain ⟨c, hc, heq, hspace⟩ := nfc.exists_of_space_mem_normalize hmem (by decide)
  obtain ⟨d, hd, -, hreturn⟩ := nfc.normalize_space c hspace
  rw [heq] at hd
  obtain rfl : '\r' = d := (List.cons.inj hd).1
  exact h (hreturn rfl ▸ hc)

/-- Whitespace stays whitespace. -/
theorem normalize_blank (h : ∀ c ∈ t, isSpaceChar c = true) :
    ∀ c ∈ nfc.normalize t, isSpaceChar c = true := by
  induction t with
  | nil => simp [nfc.normalize_nil]
  | cons c t ih =>
    obtain ⟨hc, ht⟩ := List.forall_mem_cons.mp h
    obtain ⟨d, hd, hspace, -⟩ := nfc.normalize_space c hc
    rw [nfc.normalize_cons_space hc, hd, List.singleton_append]
    exact List.forall_mem_cons.mpr ⟨hspace, ih ht⟩

/-- The decomposition is at least as long as the text, and as long for whitespace. -/
theorem length_le_weight (t : List Char) : t.length ≤ nfc.weight t := by
  induction t with
  | nil => exact Nat.zero_le _
  | cons c t ih =>
    have hc := nfc.weight_singleton c
    have happend := nfc.weight_append [c] t
    rw [List.singleton_append] at happend
    rw [List.length_cons]
    omega

theorem weight_blank (h : ∀ c ∈ t, isSpaceChar c = true) : nfc.weight t = t.length := by
  induction t with
  | nil => exact nfc.weight_nil
  | cons c t ih =>
    obtain ⟨hc, ht⟩ := List.forall_mem_cons.mp h
    have happend := nfc.weight_append [c] t
    rw [List.singleton_append] at happend
    rw [happend, nfc.weight_space c hc, ih ht, List.length_cons, Nat.add_comm]

theorem normalize_normalize (t : List Char) : nfc.normalize (nfc.normalize t) = nfc.normalize t := by
  have h := nfc.normalize_append t []
  rw [nfc.normalize_nil, List.append_nil, List.append_nil] at h
  exact h.symm

/-- The solid characters in front of whitespace are a run. -/
theorem takeWhile_run {r : List Char} (hr : ∀ c ∈ r, isSpaceChar c = false)
    (ht : ∀ c ∈ t.head?, isSpaceChar c = true) :
    (r ++ t).takeWhile (fun c => !isSpaceChar c) = r := by
  rw [List.takeWhile_append_of_pos fun c hc => by simp [hr c hc]]
  cases t with
  | nil => simp
  | cons c t => simp [ht c rfl]

theorem head?_normalize_space (ht : ∀ c ∈ t.head?, isSpaceChar c = true) :
    ∀ c ∈ (nfc.normalize t).head?, isSpaceChar c = true := by
  cases t with
  | nil => simp [nfc.normalize_nil]
  | cons c t =>
    obtain ⟨d, hd, hspace, -⟩ := nfc.normalize_space c (ht c rfl)
    rw [nfc.normalize_cons_space (ht c rfl), hd]
    simpa using hspace

/-- **Where whitespace stays in its place**, it is composed there. -/
theorem normalize_in_place (t : List Char)
    (h : List.Forall₂ (fun c d => isSpaceChar c = isSpaceChar d) t (nfc.normalize t)) :
    List.Forall₂ (fun c d => isSpaceChar c = true → nfc.normalize [c] = [d]) t
      (nfc.normalize t) := by
  induction t using runs_induction with
  | nil =>
    rw [nfc.normalize_nil]
    exact .nil
  | space c t hc ih =>
    obtain ⟨d, hd, -, -⟩ := nfc.normalize_space c hc
    rw [nfc.normalize_cons_space hc, hd, List.singleton_append] at h ⊢
    exact .cons (fun _ => hd) (ih (List.forall₂_cons.mp h).2)
  | solid r t hne hr ht ih =>
    rw [nfc.normalize_run ht] at h ⊢
    -- both runs end at the first whitespace, so they are equally long
    have hlength := Pairing.length_takeWhile (p := fun c => !isSpaceChar c)
      (q := fun c => !isSpaceChar c) h fun c d hcd => by rw [hcd]
    rw [takeWhile_run hr ht, takeWhile_run (nfc.normalize_solid r hr)
      (nfc.head?_normalize_space ht)] at hlength
    have hrun := List.forall₂_take_append _ _ _ h
    have hrest := List.forall₂_drop_append _ _ _ h
    rw [← hlength, List.take_left] at hrun
    rw [← hlength, List.drop_left] at hrest
    refine List.rel_append ((Pairing.with_mem hrun).imp fun c d hcd hspace => ?_) (ih hrest)
    rw [hr c hcd.2.1] at hspace
    cases hspace

/-- Where no characters compose, every text is its own normal form. -/
def plain (inert : Char → Bool) (inert_space : ∀ c, isSpaceChar c = true → inert c = true) :
    Nfc inert where
  normalize t := t
  normalize_nil := rfl
  normalize_split _ _ _ _ := rfl
  normalize_append _ _ := rfl
  normalize_part _ _ _ _ := rfl
  length_normalize_singleton _ := by simp
  normalize_space c hc := ⟨c, rfl, hc, id⟩
  normalize_solid _ h := h
  weight := List.length
  weight_append _ _ := List.length_append
  weight_singleton _ := by simp
  weight_normalize _ := rfl
  weight_space _ _ := rfl
  inert_space := inert_space

end Nfc

end Lib
