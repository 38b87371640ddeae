import AgentHub.Lib.Json
import AgentHub.Lib.Sorting
import Mathlib.Algebra.Order.Field.Rat
import Mathlib.Tactic.Linarith
import Mathlib.Tactic.Positivity

/-!
# Adjusted p-values

When several metrics are compared at once, their p-values are adjusted with the method of Holm: in
increasing order each is multiplied by the number of those not yet passed, and the results are made
monotone by a running maximum. The step-down procedure decides at a level instead, and stops at the
first failure. An adjusted value is at most the level exactly when the procedure rejects.

Numbers are exact rationals.

## Main definitions

* `holmAdjust`: the adjusted values, by name
* `stepDown`: the names the step-down procedure rejects at a level
* `Holm.weight`: what an item contributes to the values from it on, whatever the order

## Main results

* `adjustFrom_le_iff_stepDown`: the running maximum against stopping at the first failure
* `adjustFrom_le_iff`: an adjusted value, without reference to an order
* `holm_adjust_decides`: decision, bounds and order
-/

namespace AgentHub.Statistics

open Lib

variable {running : ℚ} {ordered : List (Text × ℚ)}

/-! ## The code -/

/-- The loop of `holm_adjust`. -/
def holmLoop (count : ℕ) : ℕ → ℚ → List (Text × ℚ) → List (Text × ℚ) → List (Text × ℚ)
  | _, _, [], adjusted => adjusted
  | index, running, (name, pValue) :: ordered, adjusted =>
    let running := max running (min 1 (pValue * ((count : ℚ) - index)))
    holmLoop count (index + 1) running ordered (Json.set adjusted name running)

/-- `holm_adjust` -/
def holmAdjust (pValues : List (Text × ℚ)) : List (Text × ℚ) :=
  if pValues = [] then []
  else
    let ordered := sortBy Prod.snd pValues
    holmLoop ordered.length 0 0 ordered []

/-! ## The procedure -/

/-- The step-down procedure on what is left of `count` values in increasing order. -/
def stepDownFrom (alpha : ℚ) (count : ℕ) : ℕ → List (Text × ℚ) → List Text
  | _, [] => []
  | index, (name, pValue) :: ordered =>
    if pValue ≤ alpha / ((count : ℚ) - index) then
      name :: stepDownFrom alpha count (index + 1) ordered
    else []

/-- The names that Holm's procedure rejects at a level, from values in increasing order. -/
def stepDown (alpha : ℚ) (ordered : List (Text × ℚ)) : List Text :=
  stepDownFrom alpha ordered.length 0 ordered

/-! ## The running maximum -/

/-- The adjusted values in order, given the maximum so far. -/
def adjustFrom (running : ℚ) : List (Text × ℚ) → List (Text × ℚ)
  | [] => []
  | item :: ordered =>
    let running := max running (min 1 (item.2 * (ordered.length + 1)))
    (item.1, running) :: adjustFrom running ordered

theorem keys_adjustFrom (running : ℚ) (ordered : List (Text × ℚ)) :
    (adjustFrom running ordered).map Prod.fst = ordered.map Prod.fst := by
  induction ordered generalizing running with
  | nil => rfl
  | cons item ordered ih => simp [adjustFrom, ih]

/-- The loop appends the adjusted values to what it has. -/
theorem holmLoop_eq {count index : ℕ} {running : ℚ} {ordered adjusted : List (Text × ℚ)}
    (hcount : count = index + ordered.length)
    (hnodup : ((adjusted ++ ordered).map Prod.fst).Nodup) :
    holmLoop count index running ordered adjusted = adjusted ++ adjustFrom running ordered := by
  induction ordered generalizing index running adjusted with
  | nil => simp [holmLoop, adjustFrom]
  | cons item ordered ih =>
    obtain ⟨name, pValue⟩ := item
    have hleft : (count : ℚ) - index = ordered.length + 1 := by
      rw [hcount]
      push_cast [List.length_cons]
      ring
    have hnew : name ∉ adjusted.map Prod.fst := by
      rw [List.map_append, List.map_cons, List.nodup_append'] at hnodup
      exact fun hmem => hnodup.2.2 hmem (List.mem_cons_self ..)
    rw [holmLoop, adjustFrom, hleft, Json.set_of_not_mem hnew, ih]
    · simp
    · rw [hcount, List.length_cons]
      omega
    · rw [List.append_assoc, List.map_append, List.map_append] at *
      simpa using hnodup

/-- **The adjusted values of a list with distinct names.** -/
theorem holmAdjust_eq {pValues : List (Text × ℚ)} (hnodup : (pValues.map Prod.fst).Nodup) :
    holmAdjust pValues = adjustFrom 0 (sortBy Prod.snd pValues) := by
  have hsorted : ((sortBy Prod.snd pValues).map Prod.fst).Nodup :=
    ((sortBy_perm Prod.snd pValues).map Prod.fst).nodup_iff.mpr hnodup
  rw [holmAdjust]
  split
  · next hnil =>
    rw [hnil]
    rfl
  · rw [holmLoop_eq (by simp) (by simpa using hsorted), List.nil_append]

/-! ## Deciding at a level -/

section Level

variable {alpha : ℚ} {name : Text} {q : ℚ}

theorem le_of_mem_adjustFrom (h : (name, q) ∈ adjustFrom running ordered) : running ≤ q := by
  induction ordered generalizing running with
  | nil => simp [adjustFrom] at h
  | cons item ordered ih =>
    rw [adjustFrom, List.mem_cons] at h
    rcases h with heq | hmem
    · rw [(Prod.mk.inj heq).2]
      exact le_max_left ..
    · exact (le_max_left ..).trans (ih hmem)

/-- **A running maximum is at most the level as long as every step was**, which is when a procedure
that stops at the first failure has not stopped. -/
theorem adjustFrom_le_iff_stepDown {count index : ℕ} (halpha : alpha < 1)
    (hcount : count = index + ordered.length) :
    (∃ q, (name, q) ∈ adjustFrom running ordered ∧ q ≤ alpha) ↔
      running ≤ alpha ∧ name ∈ stepDownFrom alpha count index ordered := by
  induction ordered generalizing index running with
  | nil => simp [adjustFrom, stepDownFrom]
  | cons item ordered ih =>
    obtain ⟨first, pValue⟩ := item
    have hleft : (count : ℚ) - index = ordered.length + 1 := by
      rw [hcount]
      push_cast [List.length_cons]
      ring
    have hpos : (0 : ℚ) < ordered.length + 1 := by positivity
    have hstep : pValue ≤ alpha / ((count : ℚ) - index) ↔
        min 1 (pValue * (ordered.length + 1)) ≤ alpha := by
      rw [hleft, le_div_iff₀ hpos, min_le_iff, or_iff_right (not_le.mpr halpha)]
    have hrest : (∃ q, (name, q) ∈
        adjustFrom (max running (min 1 (pValue * (ordered.length + 1)))) ordered ∧ q ≤ alpha) ↔
          max running (min 1 (pValue * (ordered.length + 1))) ≤ alpha ∧
            name ∈ stepDownFrom alpha count (index + 1) ordered := by
      refine ih ?_
      rw [hcount, List.length_cons]
      omega
    rw [adjustFrom, stepDownFrom]
    by_cases hle : min 1 (pValue * (ordered.length + 1)) ≤ alpha
    · rw [if_pos (hstep.mpr hle)]
      rw [max_le_iff, and_iff_left hle] at hrest
      simp only [List.mem_cons, or_and_right, exists_or, hrest, and_or_left]
      refine or_congr_left ⟨?_, ?_⟩
      · rintro ⟨q, heq, hq⟩
        obtain ⟨rfl, rfl⟩ := Prod.mk.inj heq
        exact ⟨(le_max_left ..).trans hq, rfl⟩
      · rintro ⟨hrunning, rfl⟩
        exact ⟨_, rfl, max_le hrunning hle⟩
    · -- the maximum has passed the level and stays above it
      rw [if_neg (hstep.not.mpr hle)]
      refine iff_of_false ?_ (by simp)
      rintro ⟨q, hmem, hq⟩
      rcases List.mem_cons.mp hmem with heq | hmem
      · rw [(Prod.mk.inj heq).2] at hq
        exact hle ((le_max_right ..).trans hq)
      · exact hle ((le_max_right ..).trans ((le_of_mem_adjustFrom hmem).trans hq))

end Level

/-! ## Any order -/

section Order

/-- What an item contributes to the adjusted values from it on: its value, once for each value that
is not smaller. -/
def Holm.weight (pValues : List (Text × ℚ)) (pValue : ℚ) : ℚ :=
  min 1 (pValue * pValues.countP fun other => pValue ≤ other.2)

theorem Holm.weight_perm {pValues others : List (Text × ℚ)} (h : pValues.Perm others) (pValue : ℚ) :
    weight pValues pValue = weight others pValue := by
  rw [weight, weight, h.countP_eq]

variable {item : Text × ℚ}

/-- The smallest item counts all. -/
theorem Holm.weight_least (hleast : ∀ other ∈ ordered, item.2 ≤ other.2) :
    weight (item :: ordered) item.2 = min 1 (item.2 * (ordered.length + 1)) := by
  rw [weight, List.countP_eq_length.mpr]
  · push_cast [List.length_cons]
    rfl
  · intro other hother
    rcases List.mem_cons.mp hother with rfl | hother
    · simp
    · simpa using hleast other hother

/-- **An adjusted value** is the largest contribution of the values up to its own. -/
theorem adjustFrom_le_iff (hsorted : ordered.Pairwise fun a b => a.2 ≤ b.2)
    (hpos : ∀ item ∈ ordered, 0 ≤ item.2) (hitem : item ∈ ordered)
    (hnodup : (ordered.map Prod.fst).Nodup) {q : ℚ}
    (hq : (item.1, q) ∈ adjustFrom running ordered) (a : ℚ) :
    q ≤ a ↔ running ≤ a ∧
      ∀ other ∈ ordered, other.2 ≤ item.2 → Holm.weight ordered other.2 ≤ a := by
  induction ordered generalizing running with
  | nil => simp at hitem
  | cons first ordered ih =>
    obtain ⟨hleast, hsorted⟩ := List.pairwise_cons.mp hsorted
    obtain ⟨hnew, hnodup⟩ := List.nodup_cons.mp hnodup
    have hfirst := Holm.weight_least hleast
    rw [adjustFrom, List.mem_cons] at hq
    rcases List.mem_cons.mp hitem with rfl | hmem
    · -- those not above the smallest item are equal to it
      have hq : q = max running (min 1 (item.2 * (ordered.length + 1))) := by
        rcases hq with heq | hmem
        · exact (Prod.mk.inj heq).2
        · refine absurd (List.mem_map_of_mem (f := Prod.fst) hmem) ?_
          rw [keys_adjustFrom]
          exact hnew
      rw [hq, max_le_iff, ← hfirst]
      refine and_congr_right fun _ => ⟨fun h other hother hle => ?_, fun h => ?_⟩
      · have heq : other.2 = item.2 := by
          rcases List.mem_cons.mp hother with rfl | hother
          · rfl
          · exact le_antisymm hle (hleast other hother)
        rw [heq]
        exact h
      · exact h item (List.mem_cons_self ..) le_rfl
    · have hq : (item.1, q) ∈
          adjustFrom (max running (min 1 (first.2 * (ordered.length + 1)))) ordered := by
        refine hq.resolve_left fun heq => hnew ?_
        rw [← (Prod.mk.inj heq).1]
        exact List.mem_map_of_mem hmem
      rw [ih hsorted (fun other hother => hpos other (List.mem_cons_of_mem _ hother)) hmem hnodup hq,
        max_le_iff, ← hfirst, and_assoc]
      refine and_congr_right fun _ => ?_
      rw [List.forall_mem_cons]
      refine ⟨fun ⟨h, hrest⟩ => ⟨fun _ => h, fun other hother hle => ?_⟩,
        fun ⟨h, hrest⟩ => ⟨h (hleast item hmem), fun other hother hle => ?_⟩⟩
      · by_cases hsame : other.2 ≤ first.2
        · rwa [le_antisymm hsame (hleast other hother)]
        · have hcount : Holm.weight (first :: ordered) other.2 = Holm.weight ordered other.2 := by
            rw [Holm.weight, Holm.weight, List.countP_cons_of_neg (by simpa using hsame)]
          rw [hcount]
          exact hrest other hother hle
      · refine le_trans ?_ (hrest other hother hle)
        refine min_le_min_left 1 (mul_le_mul_of_nonneg_left ?_ (hpos other (by simp [hother])))
        exact_mod_cast (List.sublist_cons_self first ordered).countP_le

theorem exists_mem_adjustFrom (h : item ∈ ordered) :
    ∃ q, (item.1, q) ∈ adjustFrom running ordered := by
  have hkey : item.1 ∈ (adjustFrom running ordered).map Prod.fst := by
    rw [keys_adjustFrom]
    exact List.mem_map_of_mem h
  obtain ⟨⟨name, q⟩, hmem, rfl⟩ := List.mem_map.mp hkey
  exact ⟨q, hmem⟩

/-- **Two increasing orders** of the same values give the same adjusted values. -/
theorem mem_adjustFrom_perm {others : List (Text × ℚ)} (hperm : ordered.Perm others)
    (hsorted : ordered.Pairwise fun a b => a.2 ≤ b.2)
    (hsorted' : others.Pairwise fun a b => a.2 ≤ b.2) (hpos : ∀ item ∈ ordered, 0 ≤ item.2)
    (hnodup : (ordered.map Prod.fst).Nodup) {name : Text} {q : ℚ}
    (hq : (name, q) ∈ adjustFrom running ordered) : (name, q) ∈ adjustFrom running others := by
  have hname : name ∈ ordered.map Prod.fst :=
    keys_adjustFrom running ordered ▸ List.mem_map_of_mem hq
  obtain ⟨item, hitem, rfl⟩ := List.mem_map.mp hname
  have hitem' := hperm.mem_iff.mp hitem
  obtain ⟨r, hr⟩ : ∃ r, (item.1, r) ∈ adjustFrom running others := exists_mem_adjustFrom hitem'
  have hsame (a : ℚ) : q ≤ a ↔ r ≤ a := by
    rw [adjustFrom_le_iff hsorted hpos hitem hnodup hq,
      adjustFrom_le_iff hsorted' (fun other hother => hpos other (hperm.mem_iff.mpr hother)) hitem'
        ((hperm.map Prod.fst).nodup_iff.mp hnodup) hr]
    simp only [hperm.mem_iff, Holm.weight_perm hperm]
  rwa [le_antisymm ((hsame r).mpr le_rfl) ((hsame q).mp le_rfl)]

end Order

section Adjusted

variable {pValues : List (Text × ℚ)}

/-- A list of p-values: distinct names, and values in the unit interval. -/
structure IsPValues (pValues : List (Text × ℚ)) : Prop where
  names : (pValues.map Prod.fst).Nodup
  range : ∀ item ∈ pValues, 0 ≤ item.2 ∧ item.2 ≤ 1

theorem IsPValues.perm {others : List (Text × ℚ)} (h : IsPValues pValues)
    (hperm : others.Perm pValues) : IsPValues others where
  names := (hperm.map Prod.fst).nodup_iff.mpr h.names
  range item hitem := h.range item (hperm.mem_iff.mp hitem)

/-- **The adjusted value of a name**, in any increasing order. -/
theorem get?_holmAdjust {ordered : List (Text × ℚ)} (h : IsPValues pValues)
    (hperm : ordered.Perm pValues) (hsorted : ordered.Pairwise fun a b => a.2 ≤ b.2) {name : Text}
    {q : ℚ} : Json.get? (holmAdjust pValues) name = some q ↔ (name, q) ∈ adjustFrom 0 ordered := by
  have hsort := h.perm (sortBy_perm Prod.snd pValues)
  have horder := h.perm hperm
  have hsame := (sortBy_perm Prod.snd pValues).trans hperm.symm
  rw [holmAdjust_eq h.names, Json.get?_eq_some_iff (by rw [keys_adjustFrom]; exact hsort.names)]
  constructor
  · exact mem_adjustFrom_perm hsame (pairwise_sortBy _ _) hsorted
      (fun item hitem => (hsort.range item hitem).1) hsort.names
  · exact mem_adjustFrom_perm hsame.symm hsorted (pairwise_sortBy _ _)
      (fun item hitem => (horder.range item hitem).1) horder.names

/-- **The adjusted values decide like Holm's procedure**, bound the raw values from above within the
unit interval, and do not depend on the order of the list. -/
theorem holm_adjust_decides (h : IsPValues pValues) :
    (∀ alpha : ℚ, 0 ≤ alpha → alpha < 1 → ∀ ordered : List (Text × ℚ), ordered.Perm pValues →
      (ordered.Pairwise fun a b => a.2 ≤ b.2) → ∀ name,
        (∃ q, Json.get? (holmAdjust pValues) name = some q ∧ q ≤ alpha) ↔
          name ∈ stepDown alpha ordered) ∧
    (∀ item ∈ pValues, ∃ q, Json.get? (holmAdjust pValues) item.1 = some q ∧
      item.2 ≤ q ∧ q ≤ 1) ∧
    ∀ others : List (Text × ℚ), others.Perm pValues → ∀ name,
      Json.get? (holmAdjust others) name = Json.get? (holmAdjust pValues) name := by
  have hperm := sortBy_perm Prod.snd pValues
  have hsorted := pairwise_sortBy Prod.snd pValues
  have hsort := h.perm hperm
  refine ⟨fun alpha hnonneg halpha ordered hordered hincreasing name => ?_,
    fun item hitem => ?_, fun others hothers name => ?_⟩
  · simp only [get?_holmAdjust h hordered hincreasing]
    rw [adjustFrom_le_iff_stepDown halpha (Nat.zero_add _).symm, and_iff_right hnonneg]
    rfl
  · have hmem := hperm.mem_iff.mpr hitem
    obtain ⟨q, hq⟩ : ∃ q, (item.1, q) ∈ adjustFrom 0 (sortBy Prod.snd pValues) :=
      exists_mem_adjustFrom hmem
    have hle := adjustFrom_le_iff hsorted (fun other hother => (hsort.range other hother).1) hmem
      hsort.names hq
    refine ⟨q, (get?_holmAdjust h hperm hsorted).mpr hq, ?_, ?_⟩
    · refine le_trans ?_ (((hle q).mp le_rfl).2 item hmem le_rfl)
      -- the item counts itself
      have hcount : 1 ≤ (sortBy Prod.snd pValues).countP fun other => item.2 ≤ other.2 :=
        List.countP_pos_iff.mpr ⟨item, hmem, by simp⟩
      refine le_min (h.range item hitem).2 ?_
      exact le_mul_of_one_le_right (h.range item hitem).1 (by exact_mod_cast hcount)
    · exact (hle 1).mpr ⟨zero_le_one, fun other _ _ => min_le_left ..⟩
  · refine Option.ext fun q => ?_
    rw [get?_holmAdjust h hperm hsorted,
      get?_holmAdjust (h.perm hothers) (hperm.trans hothers.symm) hsorted]

/-- Two metrics that tie, and one that is clear. -/
def tiedPValues : List (Text × ℚ) :=
  [(Text.ofString "latency", 1 / 50), (Text.ofString "recall", 1 / 100),
    (Text.ofString "cost", 1 / 50)]

theorem holm_adjust_decides_tied : IsPValues tiedPValues ∧
    holmAdjust tiedPValues = [(Text.ofString "recall", 3 / 100), (Text.ofString "latency", 1 / 25),
      (Text.ofString "cost", 1 / 25)] ∧
    ∀ name, (∃ q, Json.get? (holmAdjust tiedPValues) name = some q ∧ q ≤ 1 / 20) ↔
      name ∈ stepDown (1 / 20) (sortBy Prod.snd tiedPValues) := by
  have hp : IsPValues tiedPValues := ⟨by decide, by decide +kernel⟩
  refine ⟨hp, by decide +kernel, ?_⟩
  exact (holm_adjust_decides hp).1 (1 / 20) (by norm_num) (by norm_num) _ (sortBy_perm _ _)
    (pairwise_sortBy _ _)

end Adjusted

end AgentHub.Statistics
