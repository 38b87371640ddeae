import Mathlib.Data.List.Basic
import Mathlib.Tactic.Common

/-!
# The pieces between separators

What `str.split(sep)` gives for a separator of one character: the pieces have no separator, and they
are put together again by their separators.

## Main results

* `splitOn_map`: a map that keeps the separator apart
* `mem_of_splitOn`: the elements are the separators and those of the pieces
* `eq_of_splitOn`: a list from its first piece and the others
-/

namespace Lib

variable {α β : Type*} [DecidableEq α] [DecidableEq β] {a : α} {l piece : List α}

/-- **A map that keeps the separator apart** maps the pieces. -/
theorem splitOn_map {f : α → β} {b : β} (h : ∀ c, f c = b ↔ c = a) (l : List α) :
    (l.map f).splitOn b = (l.splitOn a).map (List.map f) := by
  induction l with
  | nil => rfl
  | cons c l ih =>
    rw [List.map_cons, List.splitOn_cons_eq_if_modifyHead, List.splitOn_cons_eq_if_modifyHead, ih]
    by_cases hc : c = a
    · simp [hc, (h a).mpr rfl]
    · have hne : f c ≠ b := fun heq => hc ((h c).mp heq)
      simp only [beq_iff_eq, hc, hne, if_false]
      cases l.splitOn a with
      | nil => rfl
      | cons first rest => rfl

/-- A list from its pieces. -/
theorem eq_of_splitOn {first : List α} {rest : List (List α)} (h : l.splitOn a = first :: rest) :
    l = first ++ rest.flatMap (a :: ·) := by
  have hjoin : ∀ (first : List α) (rest : List (List α)),
      List.intercalate [a] (first :: rest) = first ++ rest.flatMap (a :: ·) := by
    intro first rest
    induction rest generalizing first with
    | nil => simp [List.intercalate]
    | cons second rest ih =>
      have hcons : List.intercalate [a] (first :: second :: rest) =
          first ++ [a] ++ List.intercalate [a] (second :: rest) := by
        simp [List.intercalate]
      rw [hcons, ih]
      simp
  rw [← hjoin, ← h, List.intercalate_splitOn]

/-- **The elements of a list** are the separators and those of its pieces. -/
theorem mem_of_splitOn {c : α} (h : c ∈ l) (hc : c ≠ a) : ∃ piece ∈ l.splitOn a, c ∈ piece := by
  cases hs : l.splitOn a with
  | nil => exact absurd hs (List.splitOn_ne_nil _ _)
  | cons first rest =>
    rw [eq_of_splitOn hs] at h
    rcases List.mem_append.mp h with h | h
    · exact ⟨first, List.mem_cons_self .., h⟩
    · obtain ⟨piece, hpiece, h⟩ := List.mem_flatMap.mp h
      exact ⟨piece, List.mem_cons_of_mem _ hpiece, (List.mem_cons.mp h).resolve_left hc⟩

end Lib
