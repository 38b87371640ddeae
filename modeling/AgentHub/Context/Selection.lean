import AgentHub.Context.Admission

/-!
# Selecting exchanges

Exchanges are selected whole. Those of the conversation that are eligible and from which on
everything eligible fits are selected, and the newest of them always is; what is selected fits.

## Main results

* `selectItems_eq_ok`: the items selected
* `admitted_of_selected`: what is selected has a projection
* `mem_conversation_selected_iff`: the conversation exchanges selected
* `newest_selected`: the newest conversation exchange is selected
* `sum_selected_le`: what is selected fits
-/

namespace AgentHub.Context

open Lib

variable {G : Type} [DecidableEq G] {items selected : List (NormalizedMessage G)}
  {budget mandatoryTotal available dropped : ℕ}

/-- The keys of the selected exchanges. -/
def selectedKeys (budget : ℕ) (items : List (NormalizedMessage G)) : List (GroupKey G) :=
  (selectedGroups budget (exchanges items)).map Group.key

theorem selectItems_eq_ok :
    selectItems items mandatoryTotal available = .ok (selected, dropped) ↔
      checkNewest (available - mandatoryTotal) ((exchanges items).filter isConversation) = .ok () ∧
      selected = (items.filter fun item => item.category.isMandatory ||
        item.group ∈ selectedKeys (available - mandatoryTotal) items) ∧
      dropped = ((exchanges items).filter isConversation).countP
        fun g => g.key ∉ selectedKeys (available - mandatoryTotal) items := by
  unfold selectItems
  rw [bind_eq_ok]
  constructor
  · rintro ⟨⟨⟩, hnewest, h⟩
    obtain ⟨rfl, rfl⟩ := ok_pair_inj h
    exact ⟨hnewest, rfl, rfl⟩
  · rintro ⟨hnewest, rfl, rfl⟩
    exact ⟨(), hnewest, rfl⟩

/-! ## Exchanges -/

/-- Exchanges begin one after the other. -/
theorem pairwise_firstIndex (hitems : items.Pairwise fun a b => a.index < b.index) :
    (exchanges items).Pairwise fun g h => firstIndex g < firstIndex h := by
  have hfirsts : ((exchanges items).map Group.first).Pairwise fun a b => a.index < b.index :=
    hitems.sublist ((firsts_sublist _).trans List.filter_sublist)
  exact (List.pairwise_map (f := Group.first)).mp hfirsts

variable {g : Exchange G}

theorem eq_of_firstIndex_eq (hitems : items.Pairwise fun a b => a.index < b.index)
    {h : Exchange G} (hg : g ∈ exchanges items) (hh : h ∈ exchanges items)
    (heq : firstIndex g = firstIndex h) : g = h :=
  List.inj_on_of_nodup_map
    (List.pairwise_map.mpr ((pairwise_firstIndex hitems).imp ne_of_lt)) hg hh heq

/-- The conversation exchanges that may be selected, in order. -/
def eligibleConversation (items : List (NormalizedMessage G)) : List (Exchange G) :=
  ((exchanges items).filter isConversation).filter isEligible

variable (hitems : items.Pairwise fun a b => a.index < b.index)

include hitems

theorem pairwise_eligible :
    (eligibleConversation items).Pairwise fun g h => firstIndex g < firstIndex h :=
  (pairwise_firstIndex hitems).sublist (List.filter_sublist.trans List.filter_sublist)

/-- The selected exchanges: conversation from some exchange on, and others. -/
theorem selectedGroups_eq :
    selectedGroups budget (exchanges items) =
      dropToFit groupTokens budget (eligibleConversation items) ++
        fill groupTokens
          (budget - ((dropToFit groupTokens budget (eligibleConversation items)).map
            groupTokens).sum)
          (((exchanges items).insertionSort fun g h => firstIndex g ≤ firstIndex h).filter fun g =>
            !isConversation g && isEligible g) := by
  have hshed : shed Group.key firstIndex groupTokens budget
      ((eligibleConversation items).map groupTokens).sum (eligibleConversation items) = _ :=
    shed_eq_dropToFit (pairwise_eligible hitems)
  unfold selectedGroups
  rw [eligibleConversation] at hshed ⊢
  simp only [hshed]

theorem mem_selectedGroups (hg : g ∈ selectedGroups budget (exchanges items)) :
    g ∈ exchanges items ∧ isEligible g := by
  rw [selectedGroups_eq hitems] at hg
  rcases List.mem_append.mp hg with hg | hg
  · have hmem := (dropToFit_suffix _).mem hg
    simp only [eligibleConversation, List.mem_filter] at hmem
    exact ⟨hmem.1.1, hmem.2⟩
  · have hmem := (fill_sublist _ _).mem hg
    simp only [List.mem_filter, List.mem_insertionSort, Bool.and_eq_true] at hmem
    exact ⟨hmem.1, hmem.2.2⟩

/-- A selected exchange by its key. -/
theorem key_mem_selectedKeys (hg : g ∈ exchanges items) :
    g.key ∈ selectedKeys budget items ↔ g ∈ selectedGroups budget (exchanges items) := by
  constructor
  · intro hkey
    obtain ⟨h, hh, hsame⟩ := List.mem_map.mp hkey
    obtain rfl := eq_of_key_eq (mem_selectedGroups hitems hh).1 hg hsame
    exact hh
  · exact List.mem_map_of_mem

/-- **The conversation exchanges selected** are those from which on everything eligible fits. -/
theorem mem_conversation_selected_iff (hg : g ∈ exchanges items)
    (hconversation : isConversation g) :
    g.key ∈ selectedKeys budget items ↔ isEligible g ∧
      (((eligibleConversation items).filter fun h => firstIndex g ≤ firstIndex h).map
        groupTokens).sum ≤ budget := by
  rw [key_mem_selectedKeys hitems hg, selectedGroups_eq hitems, List.mem_append,
    mem_dropToFit_iff (pairwise_eligible hitems)]
  constructor
  · rintro (⟨hmem, hsum⟩ | hfill)
    · exact ⟨(List.mem_filter.mp hmem).2, hsum⟩
    · -- what fills the rest is no conversation
      have hmem := (List.mem_filter.mp ((fill_sublist _ _).mem hfill)).2
      simp [hconversation] at hmem
  · rintro ⟨heligible, hsum⟩
    refine Or.inl ⟨?_, hsum⟩
    simp only [eligibleConversation, List.mem_filter]
    exact ⟨⟨hg, hconversation⟩, heligible⟩

/-- **The newest conversation exchange is selected**, where the check on it passes. -/
theorem newest_selected
    (hcheck : checkNewest budget ((exchanges items).filter isConversation) = .ok ())
    (hg : g ∈ exchanges items) (hconversation : isConversation g)
    (hnewest : ∀ h ∈ exchanges items, isConversation h → firstIndex h ≤ firstIndex g) :
    g.key ∈ selectedKeys budget items := by
  have hmem : g ∈ (exchanges items).filter isConversation :=
    List.mem_filter.mpr ⟨hg, hconversation⟩
  have hargmax : ((exchanges items).filter isConversation).argmax firstIndex = some g := by
    cases hmax : ((exchanges items).filter isConversation).argmax firstIndex with
    | none =>
      rw [List.argmax_eq_none.mp hmax] at hmem
      cases hmem
    | some h =>
      obtain ⟨hh, hconv⟩ := List.mem_filter.mp (List.argmax_mem hmax)
      have hle := List.le_of_mem_argmax hmem hmax
      rw [eq_of_firstIndex_eq hitems hh hg (le_antisymm (hnewest h hh hconv) hle)]
  simp only [checkNewest, hargmax, bind_eq_ok, raiseIf_eq_ok] at hcheck
  obtain ⟨⟨⟩, heligible, hfits⟩ := hcheck
  refine (mem_conversation_selected_iff hitems hg hconversation).mpr
    ⟨by simpa using heligible, le_trans ?_ (Nat.not_lt.mp hfits)⟩
  -- no eligible exchange begins after the newest
  have hnodup := (List.Nodup.of_map firstIndex
    (List.pairwise_map.mpr ((pairwise_eligible hitems).imp ne_of_lt)))
  have hsub : ((eligibleConversation items).filter fun h => firstIndex g ≤ firstIndex h) ⊆ [g] := by
    intro h hh
    simp only [eligibleConversation, List.mem_filter, decide_eq_true_eq] at hh
    obtain ⟨⟨⟨hh, hconv⟩, -⟩, hle⟩ := hh
    exact List.mem_singleton.mpr
      (eq_of_firstIndex_eq hitems hh hg (le_antisymm (hnewest h hh hconv) hle))
  simpa using sum_le_of_nodup_of_subset groupTokens (hnodup.filter _) hsub

/-! ## Items -/

/-- **What is selected has a projection**, where mandatory items have one. -/
theorem admitted_of_selected
    (hmandatory : ∀ a ∈ items, a.category.isMandatory → a.admittedMessage.isSome)
    (h : selectItems items mandatoryTotal available = .ok (selected, dropped))
    {a : NormalizedMessage G} (ha : a ∈ selected) : a.admittedMessage.isSome := by
  obtain ⟨-, rfl, -⟩ := selectItems_eq_ok.mp h
  obtain ⟨hmem, hselected⟩ := List.mem_filter.mp ha
  cases hm : a.category.isMandatory with
  | true => exact hmandatory a hmem hm
  | false =>
    rw [hm, Bool.false_or, decide_eq_true_eq] at hselected
    obtain ⟨g, hg, hkey⟩ := List.mem_map.mp hselected
    obtain ⟨hgroup, heligible⟩ := mem_selectedGroups hitems hg
    have ha : a ∈ g.members := by
      rw [members_groupsOf hgroup]
      simp [hmem, hm, hkey]
    exact List.all_eq_true.mp heligible a ha

/-- The selected exchanges fit. -/
theorem sum_selectedGroups_le :
    ((selectedGroups budget (exchanges items)).map groupTokens).sum ≤ budget := by
  have hkept : ((dropToFit groupTokens budget (eligibleConversation items)).map groupTokens).sum ≤
      budget := sum_dropToFit_le _
  rw [selectedGroups_eq hitems, List.map_append, List.sum_append]
  refine le_trans (Nat.add_le_add_left (sum_fill_le _ _) _) ?_
  omega

/-- **What is selected fits**: beside the mandatory items, within the budget. -/
theorem sum_selected_le (h : selectItems items mandatoryTotal available = .ok (selected, dropped)) :
    (selected.map NormalizedMessage.admittedTokens).sum ≤
      ((items.filter fun a => a.category.isMandatory).map NormalizedMessage.admittedTokens).sum +
        (available - mandatoryTotal) := by
  obtain ⟨-, rfl, -⟩ := selectItems_eq_ok.mp h
  rw [sum_map_filter_or]
  refine Nat.add_le_add_left (le_trans ?_ (sum_selectedGroups_le hitems)) _
  rw [sum_map_filter, ← sum_groupsOf NormalizedMessage.admittedTokens
    (fun k => k ∈ selectedKeys (available - mandatoryTotal) items)]
  -- the sum over the exchanges with a selected key
  have hnodup : (exchanges items).Nodup := List.Nodup.of_map _ (nodup_keys_groupsOf _)
  refine le_trans (le_of_eq (sum_map_filter groupTokens
    (fun g => decide (g.key ∈ selectedKeys (available - mandatoryTotal) items)) _).symm) ?_
  refine sum_le_of_nodup_of_subset groupTokens (hnodup.filter _) fun g hg => ?_
  obtain ⟨hmem, hkey⟩ := List.mem_filter.mp hg
  exact (key_mem_selectedKeys hitems hmem).mp (by simpa using hkey)

end AgentHub.Context
