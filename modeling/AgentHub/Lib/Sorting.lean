import Mathlib.Data.List.Sort
import Mathlib.Data.List.Nodup
import Mathlib.Tactic.Common

/-!
# Sorting by a key

What `sorted(values, key=...)` returns. Elements with distinct keys have one order, so a sorted list
is determined by its elements.

## Main definitions

* `sortBy`: a list in the order of a key

## Main results

* `sortBy_eq`: the sorted list with given elements
* `filter_sortBy`: a choice from a sorted list is sorted
* `sortBy_append`: what comes first by its keys is sorted on its own
* `map_sortBy`: maps that keep the order
* `sortBy_toDual`: the opposite order
-/

namespace Lib

variable {α κ : Type*} [LinearOrder κ] (key : α → κ)

/-- The list in the order of the key. -/
def sortBy (l : List α) : List α := l.insertionSort fun a b => key a ≤ key b

theorem sortBy_perm (l : List α) : (sortBy key l).Perm l := List.perm_insertionSort _ l

theorem pairwise_sortBy (l : List α) : (sortBy key l).Pairwise fun a b => key a ≤ key b :=
  have : Std.Total fun a b : α => key a ≤ key b := ⟨fun a b => le_total (key a) (key b)⟩
  have : IsTrans α fun a b => key a ≤ key b := ⟨fun _ _ _ => le_trans⟩
  List.pairwise_insertionSort _ l

variable {key} {l r : List α}

/-- **A sorted list with distinct keys is determined by its elements.** -/
theorem sortBy_eq (hnodup : (l.map key).Nodup) (hperm : r.Perm l)
    (hr : r.Pairwise fun a b => key a ≤ key b) : sortBy key l = r := by
  refine ((sortBy_perm key l).trans hperm.symm).eq_of_pairwise (fun a b ha hb hab hba => ?_)
    (pairwise_sortBy key l) hr
  exact List.inj_on_of_nodup_map hnodup ((sortBy_perm key l).mem_iff.mp ha) (hperm.mem_iff.mp hb)
    (le_antisymm hab hba)

theorem sortBy_congr (hnodup : (l.map key).Nodup) (hperm : l.Perm r) : sortBy key l = sortBy key r :=
  sortBy_eq hnodup ((sortBy_perm key r).trans hperm.symm) (pairwise_sortBy key r)

/-- A choice from a sorted list is sorted. -/
theorem filter_sortBy (hnodup : (l.map key).Nodup) (p : α → Bool) :
    (sortBy key l).filter p = sortBy key (l.filter p) := by
  refine (sortBy_eq (hnodup.sublist (List.filter_sublist.map key)) ?_ ?_).symm
  · exact (sortBy_perm key l).filter p
  · exact (pairwise_sortBy key l).filter p

/-- **What comes first by its keys** is sorted on its own. -/
theorem sortBy_append (hnodup : ((l ++ r).map key).Nodup)
    (h : ∀ a ∈ l, ∀ b ∈ r, key a ≤ key b) : sortBy key (l ++ r) = sortBy key l ++ sortBy key r := by
  refine sortBy_eq hnodup ((sortBy_perm key l).append (sortBy_perm key r)) ?_
  refine List.pairwise_append.mpr ⟨pairwise_sortBy key l, pairwise_sortBy key r, fun a ha b hb => ?_⟩
  exact h a ((sortBy_perm key l).mem_iff.mp ha) b ((sortBy_perm key r).mem_iff.mp hb)

/-- A map that keeps the order keeps the sorted list. -/
theorem map_sortBy {β ι : Type*} [LinearOrder ι] {key' : β → ι} {f : α → β}
    (h : ∀ a ∈ l, ∀ b ∈ l, key a ≤ key b ↔ key' (f a) ≤ key' (f b)) :
    (sortBy key l).map f = sortBy key' (l.map f) :=
  List.map_insertionSort _ _ f l h

/-- The opposite order. -/
theorem sortBy_toDual (hnodup : (l.map key).Nodup) :
    sortBy (fun a => OrderDual.toDual (key a)) l = (sortBy key l).reverse := by
  refine sortBy_eq ?_ ((List.reverse_perm _).trans (sortBy_perm key l)) ?_
  · exact (List.map_map (l := l) (f := key) (g := OrderDual.toDual)) ▸
      hnodup.map OrderDual.toDual.injective
  · exact List.pairwise_reverse.mpr (pairwise_sortBy key l)

end Lib
