import AgentHub.Lib.JsonText

/-!
# Sizes of JSON texts

Texts are measured by weights of their code points. A text is no longer than another one when it
measures no more and has no further characters beyond ASCII. Writing a value in pieces respects
this: a shorter array, or an object with shorter values, has no longer a text.

Where an ASCII character counts as one, the weights make a measure of texts: the number of
characters and the number of UTF-8 bytes are measures.

## Main definitions

* `sizeBy`, `NoLonger`: the size of a text, and a text that is no longer than another one

## Main results

* `noLonger_arr`: an array of some of the elements
* `noLonger_sorted_obj`: an object with shorter values
-/

namespace Lib

open scoped List

def CodePoint.isAscii (c : CodePoint) : Bool := c.code < 128

/-- The size of a text, by weights of its code points. -/
def sizeBy (weight : CodePoint → ℕ) (s : Text) : ℕ := (s.map weight).sum

section Size

variable {weight : CodePoint → ℕ} {s s' t t' u : Text}

@[simp] theorem sizeBy_nil : sizeBy weight [] = 0 := rfl

@[simp] theorem sizeBy_cons (c : CodePoint) (s : Text) :
    sizeBy weight (c :: s) = weight c + sizeBy weight s := by
  simp [sizeBy]

@[simp] theorem sizeBy_append (s t : Text) :
    sizeBy weight (s ++ t) = sizeBy weight s + sizeBy weight t := by
  simp [sizeBy]

/-- A text that measures no more than another one, without further characters beyond ASCII. -/
structure NoLonger (weight : CodePoint → ℕ) (s t : Text) : Prop where
  size_le : sizeBy weight s ≤ sizeBy weight t
  chars : ∀ c ∈ s, c.isAscii ∨ c ∈ t

namespace NoLonger

theorem refl (s : Text) : NoLonger weight s s := ⟨le_rfl, fun _ hc => Or.inr hc⟩

theorem trans (h : NoLonger weight s t) (h' : NoLonger weight t u) : NoLonger weight s u :=
  ⟨h.size_le.trans h'.size_le, fun c hc => (h.chars c hc).elim Or.inl (h'.chars c)⟩

theorem append (h : NoLonger weight s t) (h' : NoLonger weight s' t') :
    NoLonger weight (s ++ s') (t ++ t') := by
  refine ⟨?_, fun c hc => ?_⟩
  · rw [sizeBy_append, sizeBy_append]
    exact Nat.add_le_add h.size_le h'.size_le
  · rcases List.mem_append.mp hc with hc | hc
    · exact (h.chars c hc).imp_right fun hmem => List.mem_append_left _ hmem
    · exact (h'.chars c hc).imp_right fun hmem => List.mem_append_right _ hmem

theorem nil (t : Text) : NoLonger weight [] t := ⟨Nat.zero_le _, nofun⟩

theorem cons (c : CodePoint) (h : NoLonger weight s t) : NoLonger weight (c :: s) (c :: t) :=
  (NoLonger.refl [c]).append h

theorem append_left (u : Text) (h : NoLonger weight s t) : NoLonger weight (u ++ s) (u ++ t) :=
  (NoLonger.refl u).append h

theorem append_right (u : Text) (h : NoLonger weight s t) : NoLonger weight (s ++ u) (t ++ u) :=
  h.append (.refl u)

/-- A text with something before it. -/
theorem prepend (u : Text) (h : NoLonger weight s t) : NoLonger weight s (u ++ t) :=
  (NoLonger.nil u).append h

end NoLonger

end Size

/-! ## Texts of values -/

section Values

open Json

variable {weight : CodePoint → ℕ} {st : Style}

/-- The text of a string that begins another one. -/
theorem noLonger_quote {s t : Text} (h : s <+: t) : NoLonger weight (quote s) (quote t) := by
  obtain ⟨u, rfl⟩ := h
  rw [quote, quote, List.flatMap_append, List.append_assoc]
  exact .cons _ (((NoLonger.refl _).prepend _).append_left _)

variable {xs ys : List Json}

theorem noLonger_elements (h : xs <+ ys) :
    NoLonger weight (renderElements st xs) (renderElements st ys) := by
  induction h with
  | slnil => exact .refl _
  | cons y _ ih =>
    rw [renderElements]
    exact (ih.prepend _).prepend _
  | cons_cons x _ ih => exact (ih.append_left _).append_left _

/-- **An array of some of the elements.** -/
theorem noLonger_arr (h : xs <+ ys) :
    NoLonger weight ((arr xs).render st) ((arr ys).render st) := by
  induction h with
  | slnil => exact .refl _
  | @cons xs ys y hsub ih =>
    refine ih.trans ?_
    cases ys with
    | nil =>
      -- The brackets of an empty array are those of any array.
      refine (NoLonger.nil (y.render st)).append_right [.scalar ']'] |>.cons (.scalar '[')
    | cons z ys =>
      rw [render, render, renderElements, List.append_assoc, List.append_assoc]
      exact .cons _ (((NoLonger.refl _).prepend _).prepend _)
  | @cons_cons xs ys x hsub ih =>
    rw [render, render]
    exact .cons _ (((noLonger_elements hsub).append_right _).append_left _)

theorem noLonger_sorted_arr (h : xs <+ ys) :
    NoLonger weight ((arr xs).sorted.render st) ((arr ys).sorted.render st) := by
  rw [sorted_arr, sorted_arr]
  exact noLonger_arr (h.map _)

/-- Members with the same keys, each value no longer. -/
abbrev MembersNoLonger (weight : CodePoint → ℕ) (st : Style) :
    List (Text × Json) → List (Text × Json) → Prop :=
  List.Forall₂ fun kv lv => kv.1 = lv.1 ∧ NoLonger weight (kv.2.render st) (lv.2.render st)

variable {kvs lvs : List (Text × Json)}

theorem noLonger_members (h : MembersNoLonger weight st kvs lvs) :
    NoLonger weight (renderMembers st kvs) (renderMembers st lvs) := by
  induction h with
  | nil => exact .refl _
  | @cons kv lv kvs lvs hhead _ ih =>
    obtain ⟨k, v⟩ := kv
    obtain ⟨l, u⟩ := lv
    obtain ⟨rfl, hvalue⟩ := hhead
    rw [renderMembers, renderMembers]
    exact (((hvalue.append ih).append_left _).append_left _).append_left _

theorem noLonger_obj (h : MembersNoLonger weight st kvs lvs) :
    NoLonger weight ((obj kvs).render st) ((obj lvs).render st) := by
  cases h with
  | nil => exact .refl _
  | @cons kv lv kvs lvs hhead htail =>
    obtain ⟨k, v⟩ := kv
    obtain ⟨l, u⟩ := lv
    obtain ⟨rfl, hvalue⟩ := hhead
    rw [render, render]
    refine .cons _ ((NoLonger.append_left _ ?_).append_left _)
    exact hvalue.append ((noLonger_members htail).append_right _)

theorem membersNoLonger_orderedInsert {kv lv : Text × Json}
    (hhead : kv.1 = lv.1 ∧ NoLonger weight (kv.2.render st) (lv.2.render st))
    (h : MembersNoLonger weight st kvs lvs) :
    MembersNoLonger weight st (kvs.orderedInsert keyLe kv) (lvs.orderedInsert keyLe lv) := by
  induction h with
  | nil => exact .cons hhead .nil
  | @cons kv' lv' kvs lvs hhead' htail ih =>
    have hkey : keyLe kv kv' ↔ keyLe lv lv' := by
      rw [keyLe, keyLe, hhead.1, hhead'.1]
    rw [List.orderedInsert_cons, List.orderedInsert_cons]
    by_cases hle : keyLe kv kv'
    · rw [if_pos hle, if_pos (hkey.mp hle)]
      exact .cons hhead (.cons hhead' htail)
    · rw [if_neg hle, if_neg (mt hkey.mpr hle)]
      exact .cons hhead' ih

/-- The order of the members depends on their keys only. -/
theorem membersNoLonger_sortMembers (h : MembersNoLonger weight st kvs lvs) :
    MembersNoLonger weight st (sortMembers kvs) (sortMembers lvs) := by
  induction h with
  | nil => exact .nil
  | cons hhead _ ih => exact membersNoLonger_orderedInsert hhead ih

variable (weight st) in
/-- Members with the same keys, the text of each value no longer, with keys in order. -/
abbrev SortedNoLonger : List (Text × Json) → List (Text × Json) → Prop :=
  List.Forall₂ fun kv lv => kv.1 = lv.1 ∧
    NoLonger weight (kv.2.sorted.render st) (lv.2.sorted.render st)

theorem SortedNoLonger.members (h : SortedNoLonger weight st kvs lvs) :
    MembersNoLonger weight st (sortMembers (kvs.map fun kv => (kv.1, kv.2.sorted)))
      (sortMembers (lvs.map fun kv => (kv.1, kv.2.sorted))) := by
  refine membersNoLonger_sortMembers ?_
  rw [MembersNoLonger, List.forall₂_map_left_iff, List.forall₂_map_right_iff]
  exact h

/-- **An object with shorter values**, its keys in order. -/
theorem noLonger_sorted_obj (h : SortedNoLonger weight st kvs lvs) :
    NoLonger weight ((obj kvs).sorted.render st) ((obj lvs).sorted.render st) := by
  rw [sorted_obj, sorted_obj]
  exact noLonger_obj h.members

end Values

end Lib
