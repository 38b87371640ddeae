import Mathlib.Data.List.Basic
import Mathlib.Tactic.Common

/-!
# The first of each key

A loop that keeps an element where its key was not seen before.

## Main definitions

* `firstsFrom key seen l`: what the loop keeps, with the keys seen so far
* `IsFirst key l a`: no element before `a` has its key

## Main results

* `mem_firstsFrom`: the loop keeps the elements that are first and whose key was not seen
* `exists_isFirst`: every key has a first element
-/

namespace Lib

variable {α κ : Type*} [DecidableEq κ] {key : α → κ}

variable (key) in
/-- The elements whose key is new. -/
def firstsFrom (seen : List κ) : List α → List α
  | [] => []
  | a :: l => if key a ∈ seen then firstsFrom seen l else a :: firstsFrom (key a :: seen) l

variable (key) in
/-- Nothing before `a` has the key of `a`. -/
def IsFirst (l : List α) (a : α) : Prop :=
  ∃ before after, l = before ++ a :: after ∧ ∀ b ∈ before, key b ≠ key a

variable {l : List α}

omit [DecidableEq κ] in
theorem IsFirst.mem {a : α} (h : IsFirst key l a) : a ∈ l := by
  obtain ⟨before, after, rfl, -⟩ := h
  simp

omit [DecidableEq κ] in
theorem isFirst_cons {a b : α} :
    IsFirst key (b :: l) a ↔ a = b ∨ key b ≠ key a ∧ IsFirst key l a := by
  constructor
  · rintro ⟨before, after, hl, hbefore⟩
    cases before with
    | nil => exact .inl (List.cons.inj hl).1.symm
    | cons c before =>
      obtain ⟨rfl, rfl⟩ := List.cons.inj hl
      exact .inr ⟨hbefore b (by simp), before, after, rfl, fun d hd => hbefore d (by simp [hd])⟩
  · rintro (rfl | ⟨hb, before, after, rfl, hbefore⟩)
    · exact ⟨[], l, rfl, by simp⟩
    · refine ⟨b :: before, after, rfl, ?_⟩
      rintro d (_ | ⟨_, hd⟩)
      · exact hb
      · exact hbefore d hd

/-- **What the loop keeps** is first, with a key that was not seen. -/
theorem mem_firstsFrom {seen : List κ} {a : α} :
    a ∈ firstsFrom key seen l ↔ key a ∉ seen ∧ IsFirst key l a := by
  induction l generalizing seen with
  | nil =>
    simp only [firstsFrom, List.not_mem_nil, false_iff, not_and]
    rintro - ⟨before, after, hl, -⟩
    simp at hl
  | cons b l ih =>
    rw [firstsFrom, isFirst_cons]
    split_ifs with hb
    · rw [ih]
      refine and_congr_right fun ha => ?_
      have hne : key b ≠ key a := fun heq => ha (heq ▸ hb)
      have hab : a ≠ b := fun heq => hne (heq ▸ rfl)
      simp [hne, hab]
    · rw [List.mem_cons, ih, List.mem_cons, not_or]
      constructor
      · rintro (rfl | ⟨⟨hne, ha⟩, hfirst⟩)
        · exact ⟨hb, .inl rfl⟩
        · exact ⟨ha, .inr ⟨fun heq => hne heq.symm, hfirst⟩⟩
      · rintro ⟨ha, rfl | ⟨hne, hfirst⟩⟩
        · exact .inl rfl
        · exact .inr ⟨⟨fun heq => hne heq.symm, ha⟩, hfirst⟩

omit [DecidableEq κ] in
/-- **Every key has a first element.** -/
theorem exists_isFirst (key : α → κ) {a : α} (ha : a ∈ l) :
    ∃ b, IsFirst key l b ∧ key b = key a := by
  induction l with
  | nil => cases ha
  | cons c l ih =>
    by_cases hkey : key c = key a
    · exact ⟨c, isFirst_cons.mpr (.inl rfl), hkey⟩
    · have hl : a ∈ l := (List.mem_cons.mp ha).resolve_left fun heq => hkey (heq ▸ rfl)
      obtain ⟨b, hb, hba⟩ := ih hl
      exact ⟨b, isFirst_cons.mpr (.inr ⟨fun heq => hkey (heq.trans hba), hb⟩), hba⟩

end Lib
