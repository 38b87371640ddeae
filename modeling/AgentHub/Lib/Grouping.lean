import Mathlib.Algebra.BigOperators.Group.List.Basic
import Mathlib.Algebra.GroupWithZero.Nat
import Mathlib.Data.List.Induction
import Mathlib.Data.List.Nodup
import Mathlib.Order.Monotone.Basic
import Mathlib.Tactic.Common

/-!
# Grouping a list by key

The elements of a list by their keys, the groups in the order in which their keys first appear:
what a dictionary of lists holds after `groups.setdefault(key, []).append(element)` for each
element.

## Main definitions

* `Group`: elements with a common key, at least one
* `groupsOf`: the groups of a list

## Main results

* `nodup_keys_groupsOf`, `mem_keys_groupsOf`: every key has one group
* `members_groupsOf`: a group has all elements with its key, in order
* `firsts_sublist`: groups are in the order of their first elements
* `sum_groupsOf`: a sum over groups is a sum over elements
* `filter_flatMap`: removing a part of each of several blocks
-/

namespace Lib

/-- Elements with a common key. There is at least one. -/
structure Group (κ α : Type*) where
  key : κ
  first : α
  rest : List α

namespace Group

variable {κ α : Type*}

def members (g : Group κ α) : List α := g.first :: g.rest

/-- One more element at the end. -/
def push (g : Group κ α) (a : α) : Group κ α := { g with rest := g.rest ++ [a] }

@[simp] theorem members_push (g : Group κ α) (a : α) : (g.push a).members = g.members ++ [a] := rfl

@[simp] theorem key_push (g : Group κ α) (a : α) : (g.push a).key = g.key := rfl

@[simp] theorem first_push (g : Group κ α) (a : α) : (g.push a).first = g.first := rfl

end Group

section Grouping

variable {κ α : Type*} [DecidableEq κ] (key : α → κ)

/-- The element joins the group of its key, or starts one at the end. -/
def addToGroup (gs : List (Group κ α)) (a : α) : List (Group κ α) :=
  if key a ∈ gs.map Group.key then gs.map fun g => if g.key = key a then g.push a else g
  else gs ++ [⟨key a, a, []⟩]

/-- The groups of a list. -/
def groupsOf (l : List α) : List (Group κ α) := l.foldl (addToGroup key) []

variable {key}

theorem groupsOf_append (l : List α) (a : α) :
    groupsOf key (l ++ [a]) = addToGroup key (groupsOf key l) a := by
  simp [groupsOf]

/-- A field that joining leaves alone. -/
theorem map_addToGroup {β : Type*} {f : Group κ α → β} (hf : ∀ g a, f (g.push a) = f g)
    (gs : List (Group κ α)) (a : α) :
    (addToGroup key gs a).map f =
      if key a ∈ gs.map Group.key then gs.map f else gs.map f ++ [f ⟨key a, a, []⟩] := by
  unfold addToGroup
  split_ifs
  · rw [List.map_map]
    refine List.map_congr_left fun g _ => ?_
    rw [Function.comp_apply]
    split_ifs
    · exact hf g a
    · rfl
  · simp

/-- Every key has one group. -/
theorem nodup_keys_groupsOf (l : List α) : ((groupsOf key l).map Group.key).Nodup := by
  induction l using List.reverseRecOn with
  | nil => simp [groupsOf]
  | append_singleton l a ih =>
    rw [groupsOf_append, map_addToGroup fun _ _ => rfl]
    split_ifs with hmem
    · exact ih
    · refine List.nodup_append.mpr ⟨ih, List.nodup_singleton _, fun k hk k' hk' h => hmem ?_⟩
      rwa [h, List.mem_singleton.mp hk'] at hk

variable {l : List α}

theorem mem_keys_groupsOf {k : κ} : k ∈ (groupsOf key l).map Group.key ↔ ∃ a ∈ l, key a = k := by
  induction l using List.reverseRecOn generalizing k with
  | nil => simp [groupsOf]
  | append_singleton l a ih =>
    have hsplit : (∃ b ∈ l ++ [a], key b = k) ↔ (∃ b ∈ l, key b = k) ∨ key a = k := by
      simp only [List.mem_append, List.mem_singleton, or_and_right, exists_or, exists_eq_left]
    rw [groupsOf_append, map_addToGroup fun _ _ => rfl, hsplit, ← ih]
    split_ifs with hmem
    · constructor
      · exact Or.inl
      · rintro (hk | rfl)
        · exact hk
        · exact hmem
    · rw [List.mem_append, List.mem_singleton, eq_comm (a := k)]

/-- **Groups are in the order of their first elements.** -/
theorem firsts_sublist (l : List α) : ((groupsOf key l).map Group.first).Sublist l := by
  induction l using List.reverseRecOn with
  | nil => simp [groupsOf]
  | append_singleton l a ih =>
    rw [groupsOf_append, map_addToGroup fun _ _ => rfl]
    split_ifs
    · exact ih.trans (List.sublist_append_left l [a])
    · exact ih.append (List.Sublist.refl [a])

/-- **A group has all elements with its key**, in order. -/
theorem members_groupsOf {g : Group κ α} (hg : g ∈ groupsOf key l) :
    g.members = l.filter fun a => key a = g.key := by
  induction l using List.reverseRecOn generalizing g with
  | nil => simp [groupsOf] at hg
  | append_singleton l a ih =>
    rw [groupsOf_append, addToGroup] at hg
    rw [List.filter_append]
    split_ifs at hg with hmem
    · obtain ⟨h, hh, rfl⟩ := List.mem_map.mp hg
      split_ifs with hkey
      · simp [ih hh, hkey]
      · simp [ih hh, Ne.symm hkey]
    · rcases List.mem_append.mp hg with hg | hg
      · have hne : key a ≠ g.key := fun h => hmem (h ▸ List.mem_map_of_mem hg)
        simp [ih hg, hne]
      · have hnone : ∀ b ∈ l, ¬ key b = key a := fun b hb h =>
          hmem (mem_keys_groupsOf.mpr ⟨b, hb, h⟩)
        rw [List.mem_singleton.mp hg]
        have hempty : l.filter (fun b => decide (key b = key a)) = [] :=
          List.filter_eq_nil_iff.mpr (by simpa using hnone)
        simp [Group.members, hempty]

theorem mem_of_mem_members {g : Group κ α} {a : α} (hg : g ∈ groupsOf key l) (ha : a ∈ g.members) :
    a ∈ l ∧ key a = g.key := by
  rw [members_groupsOf hg, List.mem_filter] at ha
  simpa using ha

/-- The group of an element. -/
theorem exists_group {a : α} (ha : a ∈ l) :
    ∃ g ∈ groupsOf key l, g.key = key a ∧ a ∈ g.members := by
  have hmem : key a ∈ (groupsOf key l).map Group.key := mem_keys_groupsOf.mpr ⟨a, ha, rfl⟩
  obtain ⟨g, hg, hkey⟩ := List.mem_map.mp hmem
  refine ⟨g, hg, hkey, ?_⟩
  rw [members_groupsOf hg]
  simp [ha, hkey]

/-- A key determines its group. -/
theorem eq_of_key_eq {g h : Group κ α} (hg : g ∈ groupsOf key l) (hh : h ∈ groupsOf key l)
    (hkey : g.key = h.key) : g = h :=
  List.inj_on_of_nodup_map (nodup_keys_groupsOf l) hg hh hkey

end Grouping

/-! ## Sums -/

section Sums

variable {κ α : Type*} [DecidableEq κ] {key : α → κ}

theorem sum_map_filter (w : α → ℕ) (p : α → Bool) (l : List α) :
    ((l.filter p).map w).sum = (l.map fun a => if p a then w a else 0).sum := by
  induction l with
  | nil => rfl
  | cons a l ih => cases hp : p a <;> simp [hp, ih]

/-- What meets one of two conditions: what meets the first, and of the rest what meets the
second. -/
theorem sum_map_filter_or (w : α → ℕ) (p q : α → Bool) (l : List α) :
    ((l.filter fun a => p a || q a).map w).sum =
      ((l.filter p).map w).sum + (((l.filter fun a => !p a).filter q).map w).sum := by
  induction l with
  | nil => rfl
  | cons a l ih =>
    cases hp : p a <;> cases hq : q a <;> simp [hp, hq, ih]
    · omega
    · omega
    · omega

variable {gs : List (Group κ α)}

/-- Only one group changes when an element joins. -/
theorem sum_map_push {f : Group κ α → ℕ} {k : κ} {a : α} {c : ℕ}
    (hf : ∀ g, g.key = k → f (g.push a) = f g + c) (hgs : (gs.map Group.key).Nodup)
    (hk : k ∈ gs.map Group.key) :
    ((gs.map fun g => if g.key = k then g.push a else g).map f).sum = (gs.map f).sum + c := by
  induction gs with
  | nil => simp at hk
  | cons g gs ih =>
    obtain ⟨hg, hgs⟩ := List.nodup_cons.mp hgs
    by_cases hkey : g.key = k
    · have hrest : (gs.map fun h => if h.key = k then h.push a else h) = gs := by
        refine (List.map_congr_left fun h hh => if_neg fun hh' => hg ?_).trans (List.map_id gs)
        rw [hkey, ← hh']
        exact List.mem_map_of_mem hh
      rw [List.map_cons, if_pos hkey, hrest, List.map_cons, List.sum_cons, hf g hkey,
        List.map_cons, List.sum_cons]
      omega
    · have hk' : k ∈ gs.map Group.key := (List.mem_cons.mp hk).resolve_left (Ne.symm hkey)
      rw [List.map_cons, if_neg hkey, List.map_cons, List.sum_cons, ih hgs hk', List.map_cons,
        List.sum_cons, Nat.add_assoc]

/-- What one more element adds to the sum over the groups. -/
theorem sum_addToGroup (w : α → ℕ) (p : κ → Bool) (hgs : (gs.map Group.key).Nodup) (a : α) :
    ((addToGroup key gs a).map fun g => if p g.key then (g.members.map w).sum else 0).sum =
      (gs.map fun g => if p g.key then (g.members.map w).sum else 0).sum +
        if p (key a) then w a else 0 := by
  by_cases hmem : key a ∈ gs.map Group.key
  · rw [addToGroup, if_pos hmem]
    refine sum_map_push (fun g hg => ?_) hgs hmem
    cases hp : p (key a) <;> simp [hg, hp]
  · rw [addToGroup, if_neg hmem]
    simp [Group.members]

/-- **A sum over groups is a sum over elements.** -/
theorem sum_groupsOf (w : α → ℕ) (p : κ → Bool) (l : List α) :
    ((groupsOf key l).map fun g => if p g.key then (g.members.map w).sum else 0).sum =
      (l.map fun a => if p (key a) then w a else 0).sum := by
  induction l using List.reverseRecOn with
  | nil => simp [groupsOf]
  | append_singleton l a ih =>
    rw [groupsOf_append, sum_addToGroup w p (nodup_keys_groupsOf l), ih]
    simp

end Sums

/-- Blocks without a part of each: no element stands in two blocks, so that a part is removed where
it stands. -/
theorem filter_flatMap {α β : Type*} [BEq β] [LawfulBEq β] {l : List α} {f g : α → List β}
    (hnodup : (l.flatMap f).Nodup) (hsub : ∀ a ∈ l, g a ⊆ f a) :
    ((l.flatMap f).filter fun b => b ∉ l.flatMap g) =
      l.flatMap fun a => (f a).filter fun b => b ∉ g a := by
  induction l with
  | nil => rfl
  | cons a l ih =>
    rw [List.flatMap_cons] at hnodup
    obtain ⟨-, htail, hdisjoint⟩ := List.nodup_append.mp hnodup
    have hsub' : ∀ a ∈ l, g a ⊆ f a := fun b hb => hsub b (List.mem_cons_of_mem a hb)
    have hrest : l.flatMap g ⊆ l.flatMap f := fun b hb => by
      obtain ⟨c, hc, hbc⟩ := List.mem_flatMap.mp hb
      exact List.mem_flatMap.mpr ⟨c, hc, hsub' c hc hbc⟩
    simp only [List.flatMap_cons, List.filter_append]
    rw [← ih htail hsub']
    congr 1
    · refine List.filter_congr fun b hb => ?_
      have hnot : b ∉ l.flatMap g := fun hmem => hdisjoint b hb b (hrest hmem) rfl
      simp [hnot]
    · refine List.filter_congr fun b hb => ?_
      have hnot : b ∉ g a := fun hmem =>
        hdisjoint b (hsub a List.mem_cons_self hmem) b hb rfl
      simp [hnot]

/-- Blocks that are empty for the elements a filter removes. -/
theorem flatMap_filter_eq {α β : Type*} {l : List α} {p : α → Bool} {f g : α → List β}
    (h : ∀ a ∈ l, g a = if p a then f a else []) : (l.filter p).flatMap f = l.flatMap g := by
  induction l with
  | nil => rfl
  | cons a l ih =>
    rw [List.flatMap_cons, ← ih fun b hb => h b (List.mem_cons_of_mem a hb),
      h a List.mem_cons_self, List.filter_cons]
    cases p a <;> simp

end Lib
