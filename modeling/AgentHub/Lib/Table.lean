import Mathlib.Algebra.BigOperators.Group.List.Basic
import Mathlib.Algebra.GroupWithZero.Nat
import Mathlib.Data.List.Nodup
import Mathlib.Tactic.Common

/-!
# Keyed rows

A table is a list of rows with a key. A row is found by its key and modified in place, so the
order of the rows and their keys never change; where the keys are distinct, a modification
changes one row and every sum over the table by the difference it makes to that row.

## Main definitions

* `Table.find key rows k`: the first row with the key `k`
* `Table.modify key rows k f`: the rows with `f` applied where the key is `k`

## Main results

* `Table.find_modify`: finding after a modification that keeps the keys
* `Table.find_of_mem`: with distinct keys a row is found by its key
* `Table.sum_modify`: the effect of a modification on a sum
* `Table.lookup_eq_some_iff`: with distinct keys a pair is found by its key
-/

namespace Lib.Table

universe u v

variable {R : Type u} {K : Type v} [DecidableEq K] (key : R → K)

/-- The first row with the key `k`. -/
def find (rows : List R) (k : K) : Option R := rows.find? fun r => key r = k

/-- The rows with `f` applied to those with the key `k`. -/
def modify (rows : List R) (k : K) (f : R → R) : List R :=
  rows.map fun r => if key r = k then f r else r

variable {key} {rows : List R} {k : K} {r : R} {f : R → R}

theorem mem_of_find (h : find key rows k = some r) : r ∈ rows :=
  List.mem_of_find?_eq_some h

theorem key_of_find (h : find key rows k = some r) : key r = k := by
  simpa using List.find?_some h

theorem find_eq_none : find key rows k = none ↔ ∀ r ∈ rows, key r ≠ k := by
  simp [find]

theorem mem_modify {s : R} : s ∈ modify key rows k f ↔
    ∃ r ∈ rows, (if key r = k then f r else r) = s :=
  List.mem_map

theorem keys_modify (hf : ∀ r ∈ rows, key r = k → key (f r) = k) :
    (modify key rows k f).map key = rows.map key := by
  unfold modify
  rw [List.map_map]
  refine List.map_congr_left fun r hr => ?_
  by_cases h : key r = k
  · simp [h, hf r hr h]
  · simp [h]

theorem find_modify (hf : ∀ r, key r = k → key (f r) = k) (i : K) :
    find key (modify key rows k f) i =
      (find key rows i).map fun r => if key r = k then f r else r := by
  unfold find modify
  rw [List.find?_map]
  congr 1
  refine congrArg (List.find? · rows) (funext fun r => ?_)
  by_cases h : key r = k
  · simp [h, hf r h]
  · simp [h]

theorem find_append_of_some {s : R} (h : find key rows k = some r) :
    find key (rows ++ [s]) k = some r := by
  unfold find at *
  rw [List.find?_append, h]
  rfl

theorem find_append_new (h : find key rows (key r) = none) :
    find key (rows ++ [r]) (key r) = some r := by
  unfold find at *
  rw [List.find?_append, h]
  simp

/-! ## Distinct keys -/

/-- The only element that meets a condition is found. -/
theorem find?_of_unique {p : R → Bool} (hr : r ∈ rows) (hp : p r = true)
    (h : ∀ s ∈ rows, p s = true → s = r) : rows.find? p = some r := by
  cases hfind : rows.find? p with
  | none => exact absurd hp (List.find?_eq_none.mp hfind r hr)
  | some s => rw [h s (List.mem_of_find?_eq_some hfind) (List.find?_some hfind)]

theorem find_of_mem (hnd : (rows.map key).Nodup) (hr : r ∈ rows) :
    find key rows (key r) = some r := by
  cases h : find key rows (key r) with
  | none => exact absurd rfl (find_eq_none.mp h r hr)
  | some s => rw [List.inj_on_of_nodup_map hnd (mem_of_find h) hr (key_of_find h)]

theorem nodup_append (hnd : (rows.map key).Nodup) (h : find key rows (key r) = none) :
    ((rows ++ [r]).map key).Nodup := by
  rw [List.map_append, List.map_singleton]
  refine List.nodup_append.mpr ⟨hnd, by simp, ?_⟩
  intro i hi j hj
  obtain ⟨s, hs, rfl⟩ := List.mem_map.mp hi
  rw [List.mem_singleton.mp hj]
  exact find_eq_none.mp h s hs

/-- **Modifying one row** moves a sum over the rows by the difference it makes to that row. -/
theorem sum_modify (g : R → ℕ) (hnd : (rows.map key).Nodup) (hr : r ∈ rows) :
    ((modify key rows (key r) f).map g).sum + g r = (rows.map g).sum + g (f r) := by
  induction rows with
  | nil => simp at hr
  | cons s rows ih =>
    obtain ⟨hs, hnd⟩ := List.nodup_cons.mp hnd
    have hcons : modify key (s :: rows) (key r) f =
        (if key s = key r then f s else s) :: modify key rows (key r) f := rfl
    rw [hcons]
    simp only [List.map_cons, List.sum_cons]
    rcases List.mem_cons.mp hr with rfl | hr
    · -- no later row has this key
      have hrest : modify key rows (key r) f = rows := by
        refine (List.map_congr_left fun t ht => ?_).trans (List.map_id rows)
        have hne : key t ≠ key r := fun he => hs (List.mem_map.mpr ⟨t, ht, he⟩)
        simp [hne]
      rw [hrest, if_pos rfl]
      omega
    · have hne : key s ≠ key r := fun he => hs (List.mem_map.mpr ⟨r, hr, he.symm⟩)
      have := ih hnd hr
      rw [if_neg hne]
      omega

/-! ## Pairs -/

/-- With distinct keys, a pair is found by its key. -/
theorem lookup_eq_some_iff {κ α : Type*} [BEq κ] [LawfulBEq κ] {l : List (κ × α)}
    (h : (l.map Prod.fst).Nodup) {k : κ} {v : α} : l.lookup k = some v ↔ (k, v) ∈ l := by
  induction l with
  | nil => simp
  | cons kv l ih =>
    obtain ⟨i, w⟩ := kv
    obtain ⟨hnew, hnd⟩ := List.nodup_cons.mp h
    rw [List.lookup_cons]
    by_cases hk : k = i
    · subst hk
      have hnot : ∀ v, (k, v) ∉ l := fun v hv => hnew (List.mem_map.mpr ⟨_, hv, rfl⟩)
      simp [hnot, eq_comm]
    · have hbeq : (k == i) = false := by simpa using hk
      simp [hbeq, ih hnd, hk]

end Lib.Table
