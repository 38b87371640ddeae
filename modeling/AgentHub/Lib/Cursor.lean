import Mathlib.Data.List.Basic
import Mathlib.Tactic.Common

/-!
# Reading an ordered log with a cursor

The records of a log carry increasing keys, and a reader asks for those after a cursor.

## Main definitions

* `Ordered key l`: the keys of the log increase
* `later key c l`: the records after the cursor `c`

## Main results

* `later_eq_cons`: the first record after a cursor, and those after it
* `later_succ`: the record at the next key is the first one
* `later_congr`: a cursor may move where the log has no record
* `later_of_split`: a cursor at the end of an initial part
-/

namespace Lib

variable {α : Type*} (key : α → ℕ)

/-- The keys increase along the log. -/
def Ordered (l : List α) : Prop := l.Pairwise fun x y => key x < key y

/-- The records whose key is after the cursor. -/
def later (c : ℕ) (l : List α) : List α := l.filter fun x => c < key x

variable {key} {c d : ℕ} {l : List α} {x : α}

@[simp] theorem later_nil : later key c [] = [] := rfl

@[simp] theorem mem_later : x ∈ later key c l ↔ x ∈ l ∧ c < key x := by
  simp [later]

theorem later_append (k : List α) : later key c (l ++ k) = later key c l ++ later key c k :=
  List.filter_append l k

theorem later_eq_nil : later key c l = [] ↔ ∀ x ∈ l, key x ≤ c := by
  simp [later]

theorem Ordered.later (h : Ordered key l) : Ordered key (later key c l) :=
  List.Pairwise.filter _ h

/-- A record whose key is past all others is added at the end. -/
theorem Ordered.append_singleton (h : Ordered key l) (hx : ∀ y ∈ l, key y < key x) :
    Ordered key (l ++ [x]) := by
  refine List.pairwise_append.mpr ⟨h, List.pairwise_singleton _ _, fun y hy z hz => ?_⟩
  rw [List.mem_singleton.mp hz]
  exact hx y hy

/-- Two cursors with no record between them read the same. -/
theorem later_congr (h : ∀ x ∈ l, c < key x ↔ d < key x) : later key c l = later key d l := by
  refine List.filter_congr fun x hx => ?_
  simp [h x hx]

theorem later_later (h : c ≤ d) : later key d (later key c l) = later key d l := by
  unfold later
  rw [List.filter_filter]
  refine List.filter_congr fun x _ => ?_
  have : d < key x → c < key x := fun hd => Nat.lt_of_le_of_lt h hd
  simpa using this

/-- **The first record after the cursor** is followed by the records after it. -/
theorem Ordered.later_eq_cons (h : Ordered key l) {rest : List α}
    (hl : Lib.later key c l = x :: rest) : Lib.later key (key x) l = rest := by
  have hordered : Ordered key (x :: rest) := hl ▸ h.later
  obtain ⟨hx, -⟩ := List.pairwise_cons.mp hordered
  have hc : c < key x := (mem_later.mp (hl ▸ List.mem_cons_self)).2
  rw [← later_later (Nat.le_of_lt hc), hl]
  unfold Lib.later
  rw [List.filter_cons_of_neg (by simp), List.filter_eq_self]
  simpa using hx

/-- The record with the next key is the first one after the cursor. -/
theorem Ordered.later_succ (h : Ordered key l) (hx : x ∈ l) (hkey : key x = c + 1) :
    Lib.later key c l = x :: Lib.later key (key x) l := by
  have hmem : x ∈ Lib.later key c l := mem_later.mpr ⟨hx, by omega⟩
  cases hl : Lib.later key c l with
  | nil => simp [hl] at hmem
  | cons y rest =>
    have hordered : Ordered key (y :: rest) := hl ▸ h.later
    have hy : c < key y := (mem_later.mp (hl ▸ List.mem_cons_self)).2
    rw [hl] at hmem
    -- any other first record would have a key between the cursor and the next one
    rcases List.mem_cons.mp hmem with rfl | hrest
    · rw [h.later_eq_cons hl]
    · have := (List.pairwise_cons.mp hordered).1 x hrest
      omega

/-- **A cursor between two parts** of the log reads the second one. -/
theorem later_of_split {first rest : List α} (hfirst : ∀ x ∈ first, key x ≤ c)
    (hrest : ∀ x ∈ rest, c < key x) : later key c (first ++ rest) = rest := by
  rw [later_append, later_eq_nil.mpr hfirst, List.nil_append]
  simpa [later] using hrest

end Lib
