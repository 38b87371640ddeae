import AgentHub.Lib.Text
import Mathlib.Data.List.DropRight
import Mathlib.Data.List.Infix
import Mathlib.Algebra.Group.Even
import Mathlib.Algebra.Group.Nat.Even
import Mathlib.Algebra.Ring.Parity
import Mathlib.Tactic.Common

/-!
# Frames ended by a blank line

A sequence is cut into frames at every pair of line ends; what follows the last pair is the rest,
and the rest counts as a frame unless it is white. `Framed` says what the frames of a sequence
are, `takeFrames` computes them.

Line ends that are doubled change the frames, with one exception: a run of line ends that ends
the last frame may grow from an even to an odd number when only white elements follow.

## Main definitions

* `Framed nl s frames rest`: the frames of `s`, and what is left
* `takeFrames`: the loop that cuts the frames off
* `finished`: the frames once nothing follows
* `FinalBreak`: the line end between two texts is one of the last, even run

## Main results

* `framed_takeFrames`: the loop computes the frames, with enough fuel
* `Framed.append`: what is left of one sequence begins the next
* `finished_intercalate_iff`: when doubling the line ends between texts keeps the frames
-/

namespace Lib

variable {α : Type*}

/-- The position of the first occurrence of a sequence. -/
def indexOf [DecidableEq α] (needle : List α) : List α → Option ℕ
  | [] => if needle = [] then some 0 else none
  | a :: l => if needle.isPrefixOf (a :: l) then some 0 else (indexOf needle l).map (· + 1)

variable {l buffer : List α}

theorem indexOf_eq_none [DecidableEq α] {needle : List α} (h : indexOf needle l = none) :
    ¬ needle <:+: l := by
  induction l with
  | nil =>
    rw [indexOf] at h
    split_ifs at h with hneedle
    exact fun hin => hneedle (List.infix_nil.mp hin)
  | cons a l ih =>
    rw [indexOf] at h
    split_ifs at h with hstart
    rw [Option.map_eq_none_iff] at h
    rw [List.infix_cons_iff]
    exact not_or.mpr ⟨fun hin => hstart (List.isPrefixOf_iff_prefix.mpr hin), ih h⟩

section Frames

variable (nl : α)

/-- No two line ends follow each other. -/
def NoBlank (l : List α) : Prop := ¬ [nl, nl] <:+: l

/-- The frames of a sequence and what is left after the last of them. -/
inductive Framed : List α → List (List α) → List α → Prop
  | rest {r : List α} (h : NoBlank nl r) : Framed r [] r
  | frame {f s r : List α} {fs : List (List α)} (h : NoBlank nl (f ++ [nl])) (hs : Framed s fs r) :
      Framed (f ++ nl :: nl :: s) (f :: fs) r

/-- Frames are cut off as long as there is a blank line. -/
def takeFrames [DecidableEq α] : ℕ → List α → List (List α) × List α
  | 0, buffer => ([], buffer)
  | fuel + 1, buffer =>
    match indexOf [nl, nl] buffer with
    | none => ([], buffer)
    | some boundary =>
      let next := takeFrames fuel (buffer.drop (boundary + 2))
      (buffer.take boundary :: next.1, next.2)

end Frames

variable {nl : α}

theorem noBlank_nil : NoBlank nl [] := fun h => by simpa using List.infix_nil.mp h

theorem noBlank_singleton (a : α) : NoBlank nl [a] := fun h => by simpa using h.length_le

theorem noBlank_cons_iff {a : α} :
    NoBlank nl (a :: l) ↔ ¬ (a = nl ∧ l.head? = some nl) ∧ NoBlank nl l := by
  have hstart : [nl, nl] <+: a :: l ↔ a = nl ∧ l.head? = some nl := by
    cases l with
    | nil => simp
    | cons b l => simp [List.cons_prefix_cons, eq_comm]
  rw [NoBlank, List.infix_cons_iff, not_or, hstart, NoBlank]

/-- A frame does not end in a line end. -/
theorem NoBlank.getLast?_ne (h : NoBlank nl (l ++ [nl])) : l.getLast? ≠ some nl := by
  intro hlast
  obtain ⟨init, rfl⟩ := List.getLast?_eq_some_iff.mp hlast
  exact h ⟨init, [], by simp⟩

theorem exists_of_indexOf [DecidableEq α] {boundary : ℕ}
    (h : indexOf [nl, nl] buffer = some boundary) :
    ∃ f s, buffer = f ++ nl :: nl :: s ∧ f.length = boundary ∧ NoBlank nl (f ++ [nl]) := by
  induction buffer generalizing boundary with
  | nil => simp [indexOf] at h
  | cons a l ih =>
    rw [indexOf] at h
    split_ifs at h with hstart
    · obtain ⟨s, hs⟩ := List.isPrefixOf_iff_prefix.mp hstart
      exact ⟨[], s, hs.symm, Option.some.inj h, noBlank_singleton nl⟩
    · obtain ⟨i, hi, rfl⟩ := Option.map_eq_some_iff.mp h
      obtain ⟨f, s, rfl, hlength, hf⟩ := ih hi
      refine ⟨a :: f, s, rfl, by rw [List.length_cons, hlength], ?_⟩
      rw [List.cons_append, noBlank_cons_iff]
      refine ⟨fun ⟨ha, hhead⟩ => hstart ?_, hf⟩
      cases f with
      | nil => simp [ha]
      | cons b f =>
        obtain rfl : b = nl := by simpa using hhead
        simp [ha]

/-- **The loop cuts off the frames**, when its fuel is at least the length. -/
theorem framed_takeFrames [DecidableEq α] {fuel : ℕ} (hfuel : buffer.length ≤ fuel) :
    Framed nl buffer (takeFrames nl fuel buffer).1 (takeFrames nl fuel buffer).2 := by
  induction fuel generalizing buffer with
  | zero =>
    obtain rfl := List.length_eq_zero_iff.mp (Nat.le_zero.mp hfuel)
    exact .rest noBlank_nil
  | succ fuel ih =>
    rw [takeFrames]
    cases h : indexOf [nl, nl] buffer with
    | none => exact .rest (indexOf_eq_none h)
    | some boundary =>
      obtain ⟨f, s, rfl, rfl, hf⟩ := exists_of_indexOf h
      have hdrop : (f ++ nl :: nl :: s).drop (f.length + 2) = s := by
        rw [← List.drop_drop, List.drop_left]
        rfl
      simp only [List.take_left, hdrop]
      refine .frame hf (ih ?_)
      rw [List.length_append, List.length_cons, List.length_cons] at hfuel
      omega

namespace Framed

variable {s r r' f s' : List α} {fs fs' : List (List α)}

theorem noBlank_rest (h : Framed nl s fs r) : NoBlank nl r := by
  induction h with
  | rest h => exact h
  | frame _ _ ih => exact ih

/-- The frames with their blank lines, and the rest, are the sequence. -/
theorem eq_flatten (h : Framed nl s fs r) : s = (fs.map (· ++ [nl, nl])).flatten ++ r := by
  induction h with
  | rest h => rfl
  | frame _ _ ih => rw [ih]; simp

/-- What is left of one sequence begins the next. -/
theorem append {t : List α} (h : Framed nl s fs r) (ht : Framed nl (r ++ t) fs' r') :
    Framed nl (s ++ t) (fs ++ fs') r' := by
  induction h with
  | rest _ => exact ht
  | frame hf _ ih =>
    rw [List.append_assoc]
    exact .frame hf (ih ht)

theorem eq_nil_of_blank {m : List α} (hf : NoBlank nl (f ++ m ++ [nl]))
    (h : nl :: nl :: s = m ++ nl :: nl :: s') : m = [] := by
  match m, h with
  | [], _ => rfl
  | [a], h =>
    obtain ⟨rfl, -⟩ := List.cons.inj h
    exact absurd (by simp) hf.getLast?_ne
  | a :: b :: m, h =>
    obtain ⟨ha, h⟩ := List.cons.inj h
    have hb : nl = b := (List.cons.inj h).1
    exact absurd ⟨f, m ++ [nl], by simp [← ha, ← hb]⟩ hf

/-- Where the first blank line is, is determined. -/
theorem frame_inj {f' : List α} (hf : NoBlank nl (f ++ [nl])) (hf' : NoBlank nl (f' ++ [nl]))
    (h : f ++ nl :: nl :: s = f' ++ nl :: nl :: s') : f = f' ∧ s = s' := by
  rcases List.append_eq_append_iff.mp h with ⟨m, rfl, hm⟩ | ⟨m, rfl, hm⟩
  · obtain rfl := eq_nil_of_blank hf' hm
    exact ⟨(List.append_nil f).symm, by simpa using hm⟩
  · obtain rfl := eq_nil_of_blank hf hm
    exact ⟨List.append_nil f', by simpa using hm.symm⟩

theorem unique (h : Framed nl s fs r) (h' : Framed nl s fs' r') : fs = fs' ∧ r = r' := by
  induction h generalizing fs' with
  | rest hr =>
    cases h' with
    | rest _ => exact ⟨rfl, rfl⟩
    | @frame f s _ _ _ _ => exact absurd ⟨f, s, by simp⟩ hr
  | @frame f s r fs hf hs ih =>
    generalize hwhole : f ++ nl :: nl :: s = whole at h'
    cases h' with
    | rest hr =>
      subst hwhole
      exact absurd ⟨f, s, by simp⟩ hr
    | frame hf' hs' =>
      obtain ⟨rfl, rfl⟩ := frame_inj hf hf' hwhole
      obtain ⟨rfl, rfl⟩ := ih hs'
      exact ⟨rfl, rfl⟩

end Framed

/-! ## Runs of line ends -/

theorem NoBlank.concat {r : List α} (h : NoBlank nl r) (hlast : r.getLast? ≠ some nl) :
    NoBlank nl (r ++ [nl]) := by
  induction r with
  | nil => exact noBlank_singleton nl
  | cons a r ih =>
    obtain ⟨hstart, hr⟩ := noBlank_cons_iff.mp h
    rw [List.cons_append, noBlank_cons_iff]
    cases r with
    | nil => exact ⟨fun hin => hlast (by simp [hin.1]), noBlank_singleton nl⟩
    | cons b r => exact ⟨hstart, ih hr (by simpa using hlast)⟩

namespace Framed

variable {s r : List α} {fs : List (List α)}

theorem getLast?_rest_ne (h : Framed nl s fs r) (hlast : s.getLast? ≠ some nl) :
    r.getLast? ≠ some nl := by
  intro hr
  refine hlast ?_
  rw [h.eq_flatten, List.getLast?_append, hr]
  rfl

/-- An even run ends the frame it follows and leaves nothing. -/
theorem even_run (h : Framed nl s fs r) (hlast : s.getLast? ≠ some nl) (m : ℕ) :
    Framed nl (s ++ List.replicate (2 * m + 2) nl) (fs ++ r :: List.replicate m []) [] := by
  induction m with
  | zero =>
    have hframe : NoBlank nl (r ++ [nl]) := h.noBlank_rest.concat (h.getLast?_rest_ne hlast)
    exact h.append (.frame hframe (.rest noBlank_nil))
  | succ m ih =>
    have hempty : Framed nl ([] ++ [nl, nl]) [[]] [] :=
      .frame (noBlank_singleton nl) (.rest noBlank_nil)
    have hnext := ih.append hempty
    rw [List.append_assoc, List.append_assoc, List.cons_append] at hnext
    have hframes : List.replicate (m + 1) ([] : List α) = List.replicate m [] ++ [[]] :=
      List.replicate_succ'
    rw [show 2 * (m + 1) + 2 = 2 * m + 2 + 2 by omega, List.replicate_add _ 2 nl, hframes]
    exact hnext

/-- The line end that is left over of an odd run begins the rest. -/
theorem odd_run (h : Framed nl s fs r) (hlast : s.getLast? ≠ some nl) (m : ℕ) :
    Framed nl (s ++ List.replicate (2 * m + 3) nl) (fs ++ r :: List.replicate m []) [nl] := by
  have hnext := (h.even_run hlast m).append (.rest (noBlank_singleton nl))
  rwa [List.append_nil, List.append_assoc, ← List.replicate_succ'] at hnext

/-- A sequence of which nothing is left ends in an even run. -/
theorem even_of_rest_nil {k : ℕ} (hlast : s.getLast? ≠ some nl)
    (h : Framed nl (s ++ List.replicate k nl) fs []) : Even k := by
  classical
  have hs : Framed nl s (takeFrames nl s.length s).1 (takeFrames nl s.length s).2 :=
    framed_takeFrames le_rfl
  by_contra hodd
  obtain ⟨m, rfl⟩ := Nat.not_even_iff_odd.mp hodd
  cases m with
  | zero =>
    have hone := hs.append (.rest (hs.noBlank_rest.concat (hs.getLast?_rest_ne hlast)))
    exact absurd (hone.unique h).2 (by simp)
  | succ m => exact absurd ((hs.odd_run hlast m).unique h).2 (by simp)

end Framed

/-! ## Doubled line ends -/

/-- Some line ends of the first sequence stand twice in the second. -/
inductive Doubles (nl : α) : List α → List α → Prop
  | nil : Doubles nl [] []
  | cons (a : α) {l m : List α} (h : Doubles nl l m) : Doubles nl (a :: l) (a :: m)
  | double {l m : List α} (h : Doubles nl l m) : Doubles nl (nl :: l) (nl :: nl :: m)

namespace Doubles

theorem refl (l : List α) : Doubles nl l l := by
  induction l with
  | nil => exact .nil
  | cons a l ih => exact .cons a ih

theorem append_left (p : List α) {l m : List α} (h : Doubles nl l m) :
    Doubles nl (p ++ l) (p ++ m) := by
  induction p with
  | nil => exact h
  | cons a p ih => exact .cons a ih

theorem eq_of_noBlank {l m : List α} (h : Doubles nl l m) (hm : NoBlank nl m) : l = m := by
  induction h with
  | nil => rfl
  | cons a _ ih => rw [ih (noBlank_cons_iff.mp hm).2]
  | double _ _ => exact absurd ⟨rfl, rfl⟩ (noBlank_cons_iff.mp hm).1

/-- Where line ends were added in front, the sequences agree on a stretch only if the stretch
consists of line ends; what was added then stands after it. -/
theorem eq_line_ends {p l m t : List α} {k : ℕ} (h : Doubles nl (p ++ l) m)
    (heq : List.replicate (k + 1) nl ++ m = p ++ t) :
    (∀ a ∈ p, a = nl) ∧ ∃ k' m', k ≤ k' ∧ Doubles nl l m' ∧
      t = List.replicate (k' + 1) nl ++ m' := by
  induction p generalizing k m with
  | nil => exact ⟨nofun, k, m, le_rfl, h, heq.symm⟩
  | cons a p ih =>
    rw [List.replicate_succ, List.cons_append, List.cons_append, List.cons.injEq] at heq
    obtain ⟨rfl, htail⟩ := heq
    -- one line end is used up; the line end that begins the stretch comes back, once or twice
    cases h with
    | @cons _ _ m h =>
      have hnext : List.replicate (k + 1) nl ++ m = p ++ t := by
        rw [← htail, List.replicate_succ', List.append_assoc]
        rfl
      obtain ⟨hp, hrest⟩ := ih h hnext
      exact ⟨List.forall_mem_cons.mpr ⟨rfl, hp⟩, hrest⟩
    | @double _ m h =>
      have hnext : List.replicate (k + 1 + 1) nl ++ m = p ++ t := by
        rw [← htail, List.replicate_succ', List.replicate_succ', List.append_assoc,
          List.append_assoc]
        rfl
      obtain ⟨hp, k', m', hk, hrest⟩ := ih h hnext
      exact ⟨List.forall_mem_cons.mpr ⟨rfl, hp⟩, k', m', by omega, hrest⟩

end Doubles

theorem intercalate_cons_cons (sep a b : List α) (ts : List (List α)) :
    sep.intercalate (a :: b :: ts) = a ++ (sep ++ sep.intercalate (b :: ts)) := by
  simp [List.intercalate]

theorem doubles_intercalate (ts : List (List α)) :
    Doubles nl ([nl].intercalate ts) ([nl, nl].intercalate ts) := by
  match ts with
  | [] => exact .nil
  | [t] => exact .refl _
  | a :: b :: ts =>
    rw [intercalate_cons_cons, intercalate_cons_cons]
    exact (doubles_intercalate (b :: ts)).double.append_left a

theorem length_intercalate (ts : List (List α)) :
    ([nl, nl].intercalate ts).length = ([nl].intercalate ts).length + (ts.length - 1) := by
  match ts with
  | [] => rfl
  | [t] => rfl
  | a :: b :: ts =>
    have ih := length_intercalate (b :: ts)
    rw [intercalate_cons_cons, intercalate_cons_cons]
    simp only [List.length_append, List.length_cons, List.length_nil] at ih ⊢
    omega

/-- The frames once nothing follows: a rest that is not white is one more. -/
def finished (white : α → Bool) (frames : List (List α)) (rest : List α) : List (List α) :=
  frames ++ if rest.all white then [] else [rest]

/-- The line end between two texts belongs to a run of line ends of even length, and only white
elements without a further blank line follow the run. -/
structure FinalBreak [DecidableEq α] (white : α → Bool) (nl : α) (a b : List α) : Prop where
  even : Even ((a.rtakeWhile (· = nl)).length + 1 + (b.takeWhile (· = nl)).length)
  white_after : (b.dropWhile (· = nl)).all white
  noBlank_after : NoBlank nl (b.dropWhile (· = nl))

section Runs

variable [DecidableEq α]

theorem exists_stem (nl : α) (a : List α) :
    ∃ stem, a = stem ++ List.replicate (a.rtakeWhile (· = nl)).length nl ∧
      stem.getLast? ≠ some nl := by
  refine ⟨a.rdropWhile (· = nl), ?_, fun hlast => ?_⟩
  · have hrun : a.rtakeWhile (· = nl) = List.replicate (a.rtakeWhile (· = nl)).length nl :=
      List.eq_replicate_of_mem fun b hb => by simpa using List.mem_rtakeWhile_imp hb
    rw [← hrun, List.rdropWhile_append_rtakeWhile]
  · have hne : a.rdropWhile (· = nl) ≠ [] := fun hnil => by simp [hnil] at hlast
    rw [List.getLast?_eq_some_getLast hne, Option.some.injEq] at hlast
    exact List.rdropWhile_last_not _ _ hne (by simp [hlast])

theorem takeWhile_eq_replicate (nl : α) (b : List α) :
    b.takeWhile (· = nl) = List.replicate (b.takeWhile (· = nl)).length nl :=
  List.eq_replicate_of_mem fun a ha => by simpa using List.mem_takeWhile_imp ha

theorem head?_dropWhile_ne (nl : α) (b : List α) : (b.dropWhile (· = nl)).head? ≠ some nl := by
  intro hhead
  have := List.head?_dropWhile_not (· = nl) b
  rw [hhead] at this
  simp at this

end Runs

namespace Framed

theorem noBlank_of_mem {s r : List α} {fs : List (List α)} (h : Framed nl s fs r) :
    ∀ f ∈ fs, NoBlank nl (f ++ [nl]) := by
  induction h with
  | rest _ => exact nofun
  | frame hf _ ih => exact List.forall_mem_cons.mpr ⟨hf, ih⟩

theorem without_rest {s r : List α} {fs : List (List α)} (h : Framed nl s fs r) :
    Framed nl (fs.map (· ++ [nl, nl])).flatten fs [] := by
  induction h with
  | rest _ => exact .rest noBlank_nil
  | frame hf _ ih =>
    rw [List.map_cons, List.flatten_cons, List.append_assoc]
    exact .frame hf ih

variable {a l m r r' : List α} {fs fs' : List (List α)}

/-- Where the same frames are cut off, the line end stands in the run that ends the last. -/
theorem doubled_after_frames (hd : Doubles nl l m) (h : Framed nl (a ++ ([nl] ++ l)) fs r)
    (h' : Framed nl (a ++ ([nl, nl] ++ m)) fs r') :
    ∃ p, (fs.map (· ++ [nl, nl])).flatten = a ++ [nl] ++ p ∧ l = p ++ r ∧ (∀ b ∈ p, b = nl) ∧
      r' = nl :: r := by
  have heq := h.eq_flatten
  have heq' := h'.eq_flatten
  set frames := (fs.map (· ++ [nl, nl])).flatten
  obtain ⟨p, hframes, hl⟩ : ∃ p, frames = a ++ [nl] ++ p ∧ l = p ++ r := by
    rw [← List.append_assoc] at heq
    rcases List.append_eq_append_iff.mp heq with hp | ⟨q, ha, -⟩
    · exact hp
    · rcases List.eq_nil_or_concat q with rfl | ⟨q, b, rfl⟩
      · rw [List.append_nil] at ha
        rw [ha] at heq
        exact ⟨[], by rw [ha, List.append_nil], List.append_cancel_left heq⟩
      · -- the rest would contain the doubled line end
        rw [List.concat_eq_append, ← List.append_assoc] at ha
        obtain ⟨rfl, -⟩ := List.append_inj' ha rfl
        rw [List.append_assoc, List.append_cancel_left_eq] at heq'
        exact absurd ⟨q, m, by rw [← heq', List.append_assoc]⟩ h'.noBlank_rest
  refine ⟨p, hframes, hl, ?_⟩
  rw [hframes, List.append_assoc, List.append_assoc, List.append_cancel_left_eq] at heq'
  have hrest : List.replicate (0 + 1) nl ++ m = p ++ r' := (List.cons.inj heq').2
  rw [hl] at hd
  obtain ⟨hp, k, m', -, hm', rfl⟩ := hd.eq_line_ends hrest
  have hblank := h'.noBlank_rest
  refine ⟨hp, ?_⟩
  cases k with
  | zero =>
    have hsame : r = m' := hm'.eq_of_noBlank (noBlank_cons_iff.mp hblank).2
    rw [hsame]
    rfl
  | succ k => exact absurd ⟨rfl, rfl⟩ (noBlank_cons_iff.mp hblank).1

/-- The last frame of the doubled sequence is not the rest of the other. -/
theorem doubled_not_last (hd : Doubles nl l m) (h : Framed nl (a ++ ([nl] ++ l)) fs r)
    (h' : Framed nl (a ++ ([nl, nl] ++ m)) (fs ++ [r]) r') : r = [] := by
  have heq := h.eq_flatten
  have hlast : r.getLast? ≠ some nl := (h'.noBlank_of_mem r (by simp)).getLast?_ne
  have hwhole : a ++ ([nl, nl] ++ m) = a ++ ([nl] ++ (l ++ ([nl, nl] ++ r'))) :=
    calc a ++ ([nl, nl] ++ m)
        = (fs.map (· ++ [nl, nl])).flatten ++ r ++ ([nl, nl] ++ r') := by
          rw [h'.eq_flatten]; simp
      _ = a ++ ([nl] ++ (l ++ ([nl, nl] ++ r'))) := by
          rw [← heq]; simp only [List.append_assoc]
  have hrest : List.replicate (0 + 1) nl ++ m = l ++ ([nl, nl] ++ r') :=
    (List.cons.inj (List.append_cancel_left hwhole)).2
  have hends : ∀ b ∈ nl :: l, b = nl :=
    List.forall_mem_cons.mpr ⟨rfl, ((List.append_nil l).symm ▸ hd).eq_line_ends hrest |>.1⟩
  -- the sequence ends in a line end, the rest does not
  by_contra hne
  refine hlast ?_
  have hsame : r.getLast? = (nl :: l).getLast? := by
    have hends := congrArg List.getLast? heq
    rw [List.getLast?_append_of_ne_nil _ hne, List.getLast?_append_of_ne_nil _ (by simp)] at hends
    exact hends.symm
  rw [hsame, List.getLast?_eq_some_getLast (List.cons_ne_nil nl l)]
  exact congrArg some (hends _ (List.getLast_mem _))

end Framed

section Finished

variable [DecidableEq α] {white : α → Bool} {a b : List α} {fs fs' : List (List α)} {r r' : List α}

theorem finished_eq_of_finalBreak (hwhite : white nl) (hbreak : FinalBreak white nl a b)
    (h : Framed nl (a ++ ([nl] ++ b)) fs r) (h' : Framed nl (a ++ ([nl, nl] ++ b)) fs' r') :
    finished white fs' r' = finished white fs r := by
  obtain ⟨stem, ha, hstem⟩ := exists_stem nl a
  have hb : b = List.replicate (b.takeWhile (· = nl)).length nl ++ b.dropWhile (· = nl) := by
    rw [← takeWhile_eq_replicate, List.takeWhile_append_dropWhile]
  obtain ⟨k, hk⟩ := hbreak.even
  obtain ⟨n, rfl⟩ : ∃ n, k = n + 1 := ⟨k - 1, by omega⟩
  have hafter : NoBlank nl (nl :: b.dropWhile (· = nl)) :=
    noBlank_cons_iff.mpr ⟨fun hhead => head?_dropWhile_ne nl b hhead.2, hbreak.noBlank_after⟩
  have hframed : Framed nl stem (takeFrames nl stem.length stem).1
      (takeFrames nl stem.length stem).2 := framed_takeFrames le_rfl
  -- the run is even in the one sequence and odd in the other; the frames before it are the same
  have hone : a ++ ([nl] ++ b) =
      stem ++ List.replicate (2 * n + 2) nl ++ b.dropWhile (· = nl) := by
    rw [show 2 * n + 2 = (a.rtakeWhile (· = nl)).length + 1 +
      (b.takeWhile (· = nl)).length by omega, List.replicate_add, List.replicate_add]
    conv_lhs => rw [ha, hb]
    simp
  have htwo : a ++ ([nl, nl] ++ b) =
      stem ++ List.replicate (2 * n + 3) nl ++ b.dropWhile (· = nl) := by
    rw [show 2 * n + 3 = (a.rtakeWhile (· = nl)).length + 2 +
      (b.takeWhile (· = nl)).length by omega, List.replicate_add, List.replicate_add]
    conv_lhs => rw [ha, hb]
    simp
  rw [hone] at h
  rw [htwo] at h'
  obtain ⟨rfl, rfl⟩ := h.unique ((hframed.even_run hstem n).append (.rest hbreak.noBlank_after))
  obtain ⟨rfl, rfl⟩ := h'.unique ((hframed.odd_run hstem n).append (.rest hafter))
  simp [finished, hwhite, hbreak.white_after]

theorem finalBreak_of_frames {p : List α} (hwhite : r.all white)
    (h : Framed nl (a ++ ([nl] ++ (p ++ r))) fs r)
    (hframes : (fs.map (· ++ [nl, nl])).flatten = a ++ [nl] ++ p) (hp : ∀ b ∈ p, b = nl)
    (hr : r.head? ≠ some nl) : FinalBreak white nl a (p ++ r) := by
  have htake : (p ++ r).takeWhile (· = nl) = p ∧ (p ++ r).dropWhile (· = nl) = r := by
    have hall : ∀ b ∈ p, decide (b = nl) = true := fun b hb => decide_eq_true (hp b hb)
    rw [List.takeWhile_append_of_pos hall, List.dropWhile_append_of_pos hall]
    cases r with
    | nil => simp
    | cons b r => simp_all
  obtain ⟨stem, ha, hstem⟩ := exists_stem nl a
  refine ⟨?_, by rw [htake.2]; exact hwhite, by rw [htake.2]; exact h.noBlank_rest⟩
  have hclosed := h.without_rest
  have hrun : a ++ [nl] ++ p =
      stem ++ List.replicate ((a.rtakeWhile (· = nl)).length + 1 + p.length) nl := by
    rw [List.replicate_add, List.replicate_add, ← List.eq_replicate_of_mem hp]
    conv_lhs => rw [ha]
    simp
  rw [hframes, hrun] at hclosed
  rw [htake.1]
  exact hclosed.even_of_rest_nil hstem

theorem finalBreak_of_finished_eq {ts : List (List α)}
    (h : Framed nl ([nl].intercalate (a :: b :: ts)) fs r)
    (h' : Framed nl ([nl, nl].intercalate (a :: b :: ts)) fs' r')
    (heq : finished white fs' r' = finished white fs r) :
    ts = [] ∧ FinalBreak white nl a b := by
  have hlength : ([nl, nl].intercalate (a :: b :: ts)).length =
      ([nl].intercalate (a :: b :: ts)).length + (ts.length + 1) := length_intercalate _
  have hd : Doubles nl ([nl].intercalate (b :: ts)) ([nl, nl].intercalate (b :: ts)) :=
    doubles_intercalate _
  have hone := h.eq_flatten
  have htwo := h'.eq_flatten
  rw [intercalate_cons_cons] at h h'
  rw [finished, finished] at heq
  by_cases hwhite : r.all white <;> by_cases hwhite' : r'.all white
  · rw [if_pos hwhite, if_pos hwhite', List.append_nil, List.append_nil] at heq
    subst heq
    obtain ⟨p, hframes, hp, hends, rfl⟩ := h.doubled_after_frames hd h'
    have hhead : r.head? ≠ some nl := fun hhead =>
      (noBlank_cons_iff.mp h'.noBlank_rest).1 ⟨rfl, hhead⟩
    obtain rfl : ts = [] := by
      rw [hone, htwo, List.length_append, List.length_append, List.length_cons] at hlength
      exact List.length_eq_zero_iff.mp (by omega)
    rw [List.intercalate_singleton] at hp
    subst hp
    rw [List.intercalate_singleton] at h
    exact ⟨rfl, finalBreak_of_frames hwhite h hframes hends hhead⟩
  · rw [if_pos hwhite, if_neg hwhite', List.append_nil] at heq
    subst heq
    rw [hone, htwo] at hlength
    simp at hlength
    omega
  · rw [if_neg hwhite, if_pos hwhite', List.append_nil] at heq
    subst heq
    exact absurd (by simp [h.doubled_not_last hd h']) hwhite
  · rw [if_neg hwhite, if_neg hwhite'] at heq
    obtain ⟨rfl, hrest⟩ := List.append_inj' heq rfl
    obtain rfl := List.singleton_inj.mp hrest
    rw [hone, htwo] at hlength
    omega

/-- **Doubling the line ends between texts keeps the frames** only if there is at most one, in
the run that ends the last frame. -/
theorem finished_intercalate_iff (hwhite : white nl) {ts : List (List α)}
    (h : Framed nl ([nl].intercalate ts) fs r) (h' : Framed nl ([nl, nl].intercalate ts) fs' r') :
    finished white fs' r' = finished white fs r ↔
      ts.length ≤ 1 ∨ ∃ a b, ts = [a, b] ∧ FinalBreak white nl a b := by
  match ts with
  | [] =>
    obtain ⟨rfl, rfl⟩ := h.unique h'
    simp
  | [t] =>
    obtain ⟨rfl, rfl⟩ := h.unique h'
    simp
  | a :: b :: ts =>
    constructor
    · intro heq
      obtain ⟨rfl, hbreak⟩ := finalBreak_of_finished_eq h h' heq
      exact .inr ⟨a, b, rfl, hbreak⟩
    · rintro (hshort | ⟨_, _, hts, hbreak⟩)
      · simp at hshort
      · obtain ⟨rfl, rfl, rfl⟩ : a = _ ∧ b = _ ∧ ts = [] := by simpa using hts
        rw [intercalate_cons_cons, List.intercalate_singleton] at h h'
        exact finished_eq_of_finalBreak hwhite hbreak h h'

end Finished

end Lib
