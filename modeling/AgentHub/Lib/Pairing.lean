import Mathlib.Data.List.Forall2
import Mathlib.Tactic.Common

/-!
# Lists paired by a relation

Two lists whose elements are related one by one: what holds of the elements of one holds of their
partners in the other.

## Main results

* `exists_left`, `exists_right`: the partner of an element
* `exists_of_forall`: a list of partners
* `with_mem`: the members of the lists are related
* `of_map_eq`, `map_eq_map`: functions that agree on partners
* `filter`: a choice of pairs
* `of_getElem?`, `with_index`: partners by their indices
* `countP_le`, `of_countP_le`, `length_takeWhile`: conditions that pass from partner to partner
-/

namespace Lib.Pairing

variable {α β γ : Type*} {R : α → β → Prop} {l : List α} {r : List β}

/-- The partner of an element on the right. -/
theorem exists_left (h : List.Forall₂ R l r) {b : β} (hb : b ∈ r) : ∃ a ∈ l, R a b := by
  induction h with
  | nil => simp at hb
  | cons hab _ ih =>
    rcases List.mem_cons.mp hb with rfl | hb
    · exact ⟨_, List.mem_cons_self, hab⟩
    · obtain ⟨a, ha, hR⟩ := ih hb
      exact ⟨a, List.mem_cons_of_mem _ ha, hR⟩

/-- The partner of an element on the left. -/
theorem exists_right (h : List.Forall₂ R l r) {a : α} (ha : a ∈ l) : ∃ b ∈ r, R a b :=
  exists_left h.flip ha

/-- Partners that each exist make a list. -/
theorem exists_of_forall (h : ∀ a ∈ l, ∃ b, R a b) : ∃ r, List.Forall₂ R l r := by
  induction l with
  | nil => exact ⟨[], .nil⟩
  | cons a l ih =>
    obtain ⟨b, hb⟩ := h a List.mem_cons_self
    obtain ⟨r, hr⟩ := ih fun a ha => h a (List.mem_cons_of_mem _ ha)
    exact ⟨b :: r, .cons hb hr⟩

/-- The pairs are made of members. -/
theorem with_mem (h : List.Forall₂ R l r) :
    List.Forall₂ (fun a b => R a b ∧ a ∈ l ∧ b ∈ r) l r := by
  induction h with
  | nil => exact .nil
  | cons hab _ ih =>
    refine .cons ⟨hab, List.mem_cons_self, List.mem_cons_self⟩ (ih.imp fun a b h => ?_)
    exact ⟨h.1, List.mem_cons_of_mem _ h.2.1, List.mem_cons_of_mem _ h.2.2⟩

/-- Lists with the same image are paired by it. -/
theorem of_map_eq {f : α → γ} {g : β → γ} (h : l.map f = r.map g) :
    List.Forall₂ (fun a b => f a = g b) l r := by
  refine List.forall₂_map_left_iff.mp (List.forall₂_map_right_iff.mp ?_)
  rw [h]
  exact List.forall₂_same.mpr fun _ _ => rfl

/-- Functions that agree on partners give the same list. -/
theorem map_eq_map {f : α → γ} {g : β → γ} (hfg : ∀ a b, R a b → f a = g b)
    (h : List.Forall₂ R l r) : l.map f = r.map g := by
  induction h with
  | nil => rfl
  | cons hab _ ih => rw [List.map_cons, List.map_cons, hfg _ _ hab, ih]

/-- A choice of pairs, by a condition on which partners agree. -/
theorem filter {p : α → Bool} {q : β → Bool} (hpq : ∀ a b, R a b → p a = q b)
    (h : List.Forall₂ R l r) : List.Forall₂ R (l.filter p) (r.filter q) := by
  induction h with
  | nil => exact .nil
  | @cons a b l r hab _ ih =>
    have hb := hpq a b hab
    cases hp : p a with
    | true => rw [List.filter_cons_of_pos hp, List.filter_cons_of_pos (hb ▸ hp)]; exact .cons hab ih
    | false =>
      rw [List.filter_cons_of_neg (by simp [hp]), List.filter_cons_of_neg (by simp [← hb, hp])]
      exact ih

/-- Partners stand at the same position. -/
theorem of_getElem? (h : List.Forall₂ R l r) {i : ℕ} {a : α} {b : β} (ha : l[i]? = some a)
    (hb : r[i]? = some b) : R a b := by
  induction h generalizing i with
  | nil => simp at ha
  | cons hab _ ih =>
    cases i with
    | zero =>
      simp only [List.getElem?_cons_zero, Option.some.injEq] at ha hb
      exact ha ▸ hb ▸ hab
    | succ i => exact ih ha hb

/-- The partners of indexed elements have their indices. -/
theorem with_index {R : α × ℕ → β → Prop} {n : ℕ} (h : List.Forall₂ R (l.zipIdx n) r) :
    List.Forall₂ (fun p q => R p q.1 ∧ p.2 = q.2) (l.zipIdx n) (r.zipIdx n) := by
  induction l generalizing n r with
  | nil =>
    obtain rfl := List.forall₂_nil_left_iff.mp h
    exact .nil
  | cons a l ih =>
    obtain ⟨b, r, hab, hrest, rfl⟩ := List.forall₂_cons_left_iff.mp h
    exact .cons ⟨hab, rfl⟩ (ih hrest)

section Conditions

variable {p : α → Bool} {q : β → Bool}

/-- A condition that passes to the left holds there at least as often. -/
theorem countP_le (h : List.Forall₂ R l r) (hR : ∀ a b, R a b → q b = true → p a = true) :
    r.countP q ≤ l.countP p := by
  induction h with
  | nil => exact Nat.le_refl _
  | @cons a b l r hab _ ih =>
    rw [List.countP_cons, List.countP_cons]
    split_ifs with hq hp
    · omega
    · exact absurd (hR a b hab hq) hp
    · omega
    · exact ih

/-- A condition that passes to the left, and holds there no more often, holds of both or none. -/
theorem of_countP_le (h : List.Forall₂ R l r) (hR : ∀ a b, R a b → q b = true → p a = true)
    (hle : l.countP p ≤ r.countP q) : List.Forall₂ (fun a b => R a b ∧ p a = q b) l r := by
  induction h with
  | nil => exact .nil
  | @cons a b l r hab h ih =>
    have hrest := countP_le h hR
    rw [List.countP_cons, List.countP_cons] at hle
    split_ifs at hle with hp hq hq
    · exact .cons ⟨hab, hp.trans hq.symm⟩ (ih (by omega))
    · omega
    · exact absurd (hR a b hab hq) hp
    · rw [Bool.not_eq_true] at hp hq
      exact .cons ⟨hab, hp.trans hq.symm⟩ (ih hle)

/-- A run at the front is as long as that of the partners. -/
theorem length_takeWhile (h : List.Forall₂ R l r) (hR : ∀ a b, R a b → p a = q b) :
    (l.takeWhile p).length = (r.takeWhile q).length := by
  induction h with
  | nil => rfl
  | @cons a b l r hab _ ih =>
    rw [List.takeWhile_cons, List.takeWhile_cons, hR a b hab]
    split
    · rw [List.length_cons, List.length_cons, ih]
    · rfl

end Conditions

end Lib.Pairing
