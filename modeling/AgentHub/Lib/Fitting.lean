import Mathlib.Algebra.GroupWithZero.Nat
import Mathlib.Algebra.Order.BigOperators.Group.List
import Mathlib.Algebra.Order.Group.Nat
import Mathlib.Data.List.MinMax
import Mathlib.Data.List.Perm.Subperm
import Mathlib.Tactic.Common

/-!
# Fitting elements into a budget

Two ways to choose elements whose weights fit: to remove the oldest until the rest fits, and to
take each in turn that still fits.

## Main definitions

* `shed`: remove the oldest until the rest fits
* `fill`: take what still fits

## Main results

* `shed_eq_dropToFit`, `mem_dropToFit_iff`: of a list by age, shedding keeps those elements from
  which on everything fits
* `sum_dropToFit_le`, `sum_fill_le`: what is chosen fits
-/

namespace Lib

/-- A choice without repetition weighs no more than what it is made from. -/
theorem sum_le_of_nodup_of_subset {α : Type*} {l r : List α} (w : α → ℕ) (hl : l.Nodup)
    (h : l ⊆ r) : (l.map w).sum ≤ (r.map w).sum := by
  obtain ⟨m, hperm, hm⟩ := hl.subperm h
  rw [← (hperm.map w).sum_eq]
  exact (hm.map w).sum_le_sum fun _ _ => Nat.zero_le _

section Shed

variable {α κ : Type*} [DecidableEq κ] (key : α → κ) (age weight : α → ℕ) (budget : ℕ)

/-- Remove the oldest until the rest fits, at most `n` times. -/
def shedSteps : ℕ → ℕ → List α → List α × ℕ
  | 0, tokens, l => (l, tokens)
  | n + 1, tokens, l =>
    if tokens ≤ budget then (l, tokens)
    else
      match l.argmin age with
      | none => (l, tokens)
      | some oldest =>
        shedSteps n (tokens - weight oldest) (l.eraseP fun a => key a = key oldest)

/-- Remove the oldest until the rest fits or nothing is left. `tokens` is the weight of the list. -/
def shed (tokens : ℕ) (l : List α) : List α × ℕ :=
  shedSteps key age weight budget l.length tokens l

/-- Drop the first elements until the rest fits. -/
def dropToFit : List α → List α
  | [] => []
  | a :: l => if ((a :: l).map weight).sum ≤ budget then a :: l else dropToFit l

variable {key age weight budget} {l : List α}

theorem argmin_cons_of_lt {a : α} (h : ∀ b ∈ l, age a < age b) : (a :: l).argmin age = some a := by
  cases hmin : (a :: l).argmin age with
  | none => simp at hmin
  | some c =>
    rcases List.mem_cons.mp (List.argmin_mem hmin) with rfl | hc
    · rfl
    · have hle := List.le_of_mem_argmin (List.mem_cons_self (a := a) (l := l)) hmin
      exact absurd (h c hc) (Nat.not_lt.mpr hle)

/-- **Shedding a list by age** drops its first elements. -/
theorem shed_eq_dropToFit (hl : l.Pairwise fun a b => age a < age b) :
    shed key age weight budget (l.map weight).sum l =
      (dropToFit weight budget l, ((dropToFit weight budget l).map weight).sum) := by
  unfold shed
  induction l with
  | nil => rfl
  | cons a l ih =>
    obtain ⟨ha, hl⟩ := List.pairwise_cons.mp hl
    rw [List.length_cons, shedSteps, dropToFit]
    by_cases hfits : ((a :: l).map weight).sum ≤ budget
    · rw [if_pos hfits, if_pos hfits]
    · have herase : (a :: l).eraseP (fun b => decide (key b = key a)) = l := by simp
      have hsum : ((a :: l).map weight).sum - weight a = (l.map weight).sum := by simp
      rw [if_neg hfits, if_neg hfits, argmin_cons_of_lt ha]
      dsimp only
      rw [herase, hsum, ih hl]

theorem dropToFit_suffix (l : List α) : dropToFit weight budget l <:+ l := by
  induction l with
  | nil => exact List.suffix_refl _
  | cons a l ih =>
    rw [dropToFit]
    split_ifs
    · exact List.suffix_refl _
    · exact ih.trans (List.suffix_cons a l)

/-- What is kept fits. -/
theorem sum_dropToFit_le (l : List α) : ((dropToFit weight budget l).map weight).sum ≤ budget := by
  induction l with
  | nil => simp [dropToFit]
  | cons a l ih =>
    rw [dropToFit]
    split_ifs with h
    · exact h
    · exact ih

/-- **What is kept**: the elements from which on everything fits. -/
theorem mem_dropToFit_iff (hl : l.Pairwise fun a b => age a < age b) {a : α} :
    a ∈ dropToFit weight budget l ↔
      a ∈ l ∧ ((l.filter fun b => age a ≤ age b).map weight).sum ≤ budget := by
  induction l with
  | nil => simp [dropToFit]
  | cons b l ih =>
    obtain ⟨hb, hl⟩ := List.pairwise_cons.mp hl
    rw [dropToFit]
    split_ifs with hfits
    · refine (and_iff_left ?_).symm
      refine le_trans ?_ hfits
      exact (List.filter_sublist.map weight).sum_le_sum fun _ _ => Nat.zero_le _
    · rw [ih hl]
      have hself : ((b :: l).filter fun c => age b ≤ age c) = b :: l := by
        refine List.filter_eq_self.mpr fun c hc => ?_
        rcases List.mem_cons.mp hc with rfl | hc
        · simp
        · simpa using (hb c hc).le
      constructor
      · rintro ⟨ha, hsum⟩
        have hlt : ¬ age a ≤ age b := Nat.not_le.mpr (hb a ha)
        refine ⟨List.mem_cons_of_mem b ha, ?_⟩
        rwa [List.filter_cons_of_neg (by simpa using hlt)]
      · rintro ⟨ha, hsum⟩
        rcases List.mem_cons.mp ha with rfl | ha
        · rw [hself] at hsum
          exact absurd hsum hfits
        · have hlt : ¬ age a ≤ age b := Nat.not_le.mpr (hb a ha)
          rw [List.filter_cons_of_neg (by simpa using hlt)] at hsum
          exact ⟨ha, hsum⟩

end Shed

section Fill

variable {α : Type*} (weight : α → ℕ)

/-- Take each element in turn that still fits into what remains. -/
def fill : ℕ → List α → List α
  | _, [] => []
  | remaining, a :: l =>
    if weight a ≤ remaining then a :: fill (remaining - weight a) l else fill remaining l

variable {weight}

theorem fill_sublist (remaining : ℕ) (l : List α) : (fill weight remaining l).Sublist l := by
  induction l generalizing remaining with
  | nil => exact List.Sublist.refl _
  | cons a l ih =>
    rw [fill]
    split_ifs
    · exact (ih _).cons_cons a
    · exact (ih _).cons a

theorem sum_fill_le (remaining : ℕ) (l : List α) :
    ((fill weight remaining l).map weight).sum ≤ remaining := by
  induction l generalizing remaining with
  | nil => simp [fill]
  | cons a l ih =>
    rw [fill]
    split_ifs with h
    · have := ih (remaining - weight a)
      rw [List.map_cons, List.sum_cons]
      omega
    · exact ih remaining

theorem fill_map {β : Type*} (f : β → α) (remaining : ℕ) (l : List β) :
    fill weight remaining (l.map f) = (fill (fun b => weight (f b)) remaining l).map f := by
  induction l generalizing remaining with
  | nil => rfl
  | cons b l ih =>
    rw [List.map_cons, fill, fill]
    split_ifs
    · rw [ih, List.map_cons]
    · exact ih remaining

end Fill

end Lib
