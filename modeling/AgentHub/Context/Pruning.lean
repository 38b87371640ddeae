import AgentHub.Context.Projection
import AgentHub.Lib.JsonPruning

/-!
# Projection only prunes

What a projection keeps of a value: it removes members, ends of lists and ends of strings, keeps
control fields as they are, and reports whether it removed anything.

## Main definitions

* `keptWhole`: the members that are kept as they are or removed
* `Pruning`: a projected value with its report

## Main results

* `projectMember_cases`: what becomes of one member
* `project_pruning`: every projection below the root is a pruning
-/

namespace AgentHub.Context

open Lib Transcript

variable {budget : ℕ} {truncated : Bool}

/-- Control fields with a scalar are kept as they are or removed. -/
def keptWhole (key : Text) (value : Json) : Bool := key ∈ preservedScalarKeys ∧ isScalar value

/-- A projected value: pruned, and the same up to the order of members where nothing is reported
as truncated. -/
structure Pruning (value projected : Json) (truncated : Bool) : Prop where
  prunes : Json.Prunes keptWhole value projected
  same : truncated = false → projected.sorted = value.sorted

theorem Pruning.refl (value : Json) (truncated : Bool) : Pruning value value truncated :=
  ⟨.keep value, fun _ => rfl⟩

section Policy

variable {policy : ContextBudgetPolicy}

/-! ## Members -/

/-- The member is kept with the value `w`: as it is, or with a projection of its value. -/
def KeepsMember (child : Child) (w : Json) (truncated : Bool) : Prop :=
  if keptWhole child.key child.value then w = child.value ∧ truncated = false
  else ∃ budget, child.project budget = .ok (some (w, truncated))

variable {result result' : JsonObject} {truncated' : Bool}

/-- **One member**: it is left out, which is reported, or kept where the object still fits. -/
theorem projectMember_cases {child : Child}
    (h : projectMember policy budget (result, truncated) child = .ok (result', truncated')) :
    (result' = result ∧ truncated' = true) ∨
      ∃ w cut, KeepsMember child w cut ∧ result' = Json.set result child.key w ∧
        truncated' = (truncated || cut) ∧ jsonFits policy (.obj result') budget = .ok true := by
  unfold projectMember at h
  dsimp only at h
  split_ifs at h with hwhole
  · obtain ⟨fits, hfits, h⟩ := bind_eq_ok.mp h
    cases fits with
    | true =>
      obtain ⟨rfl, rfl⟩ := ok_pair_inj h
      refine .inr ⟨child.value, false, ?_, rfl, (Bool.or_false _).symm, hfits⟩
      rw [KeepsMember, if_pos (by simpa [keptWhole] using hwhole)]
      exact ⟨rfl, rfl⟩
    | false =>
      obtain ⟨rfl, rfl⟩ := ok_pair_inj h
      exact .inl ⟨rfl, rfl⟩
  · obtain ⟨used, -, h⟩ := bind_eq_ok.mp h
    split_ifs at h
    · obtain ⟨rfl, rfl⟩ := ok_pair_inj h
      exact .inl ⟨rfl, rfl⟩
    obtain ⟨empty, -, h⟩ := bind_eq_ok.mp h
    obtain ⟨projection, hprojection, h⟩ := bind_eq_ok.mp h
    rcases projection with - | ⟨w, cut⟩
    · obtain ⟨rfl, rfl⟩ := ok_pair_inj h
      exact .inl ⟨rfl, rfl⟩
    obtain ⟨fits, hfits, h⟩ := bind_eq_ok.mp h
    cases fits with
    | true =>
      obtain ⟨rfl, rfl⟩ := ok_pair_inj h
      refine .inr ⟨w, cut, ?_, rfl, rfl, hfits⟩
      rw [KeepsMember, if_neg (by simpa [keptWhole] using hwhole)]
      exact ⟨_, hprojection⟩
    | false =>
      obtain ⟨rfl, rfl⟩ := ok_pair_inj h
      exact .inl ⟨rfl, rfl⟩

/-- What the loop over members adds: some of them in order, all of them where nothing is reported. -/
def AddsMembers (children : List Child) (added : JsonObject) (truncated : Bool) : Prop :=
  ∃ kept, kept.Sublist children ∧
    List.Forall₂ (fun child kv => kv.1 = child.key ∧
      ∃ cut, KeepsMember child kv.2 cut ∧ (truncated = false → cut = false)) kept added ∧
    (truncated = false → kept = children)

/-- **The loop over members.** -/
theorem foldlM_projectMember {children : List Child}
    (hkeys : (result.map Prod.fst ++ children.map Child.key).Nodup)
    (h : children.foldlM (projectMember policy budget) (result, truncated) =
      .ok (result', truncated')) :
    ∃ added, result' = result ++ added ∧ AddsMembers children added truncated' ∧
      (truncated' = false → truncated = false) ∧
      (added = [] ∨ jsonFits policy (.obj result') budget = .ok true) := by
  induction children generalizing result truncated with
  | nil =>
    obtain ⟨rfl, rfl⟩ := ok_pair_inj h
    exact ⟨[], by simp, ⟨[], .refl _, .nil, fun _ => rfl⟩, id, .inl rfl⟩
  | cons child children ih =>
    rw [List.foldlM_cons] at h
    obtain ⟨⟨result₁, truncated₁⟩, hchild, h⟩ := bind_eq_ok.mp h
    rcases projectMember_cases hchild with ⟨rfl, rfl⟩ | ⟨w, cut, hkeeps, hset, rfl, hfits⟩
    · -- a member that is left out is reported
      have hkeys' : (result₁.map Prod.fst ++ children.map Child.key).Nodup :=
        hkeys.sublist (List.Sublist.append_left (List.sublist_cons_self _ _) _)
      obtain ⟨added, hresult, ⟨kept, hsub, hpairs, -⟩, hreport, hfits⟩ := ih hkeys' h
      have hcut : truncated' ≠ false := fun hfalse => absurd (hreport hfalse) (by simp)
      exact ⟨added, hresult, ⟨kept, hsub.cons _, hpairs, fun hfalse => absurd hfalse hcut⟩,
        fun hfalse => absurd hfalse hcut, hfits⟩
    · have hnew : child.key ∉ result.map Prod.fst := fun hmem =>
        (List.nodup_append.mp hkeys).2.2 _ hmem _ (by simp) rfl
      rw [Json.set_of_not_mem hnew] at hset
      have hkeys' : (result₁.map Prod.fst ++ children.map Child.key).Nodup := by
        rw [hset]
        simpa using hkeys
      obtain ⟨added, hresult, ⟨kept, hsub, hpairs, hall⟩, hreport, hfits'⟩ := ih hkeys' h
      refine ⟨(child.key, w) :: added, by simp [hresult, hset], ⟨child :: kept, ?_⟩, ?_, ?_⟩
      · refine ⟨hsub.cons_cons _, .cons ⟨rfl, cut, hkeeps, fun hfalse => ?_⟩ hpairs,
          fun hfalse => by rw [hall hfalse]⟩
        exact (Bool.or_eq_false_iff.mp (hreport hfalse)).2
      · exact fun hfalse => (Bool.or_eq_false_iff.mp (hreport hfalse)).1
      · refine .inr (hfits'.elim (fun hnil => ?_) id)
        rw [hresult, hnil, List.append_nil]
        exact hfits

/-- An object that fits, or without members, is not cut any further. -/
theorem fitMappingToBudget_eq {value members : JsonObject}
    (hfits : value = [] ∨ jsonFits policy (.obj value) budget = .ok true)
    (h : fitMappingToBudget policy value budget = .ok (some members)) : members = value := by
  obtain ⟨fits, hfit, h⟩ := bind_eq_ok.mp h
  cases fits with
  | true => exact (Option.some.inj (Except.ok.inj h)).symm
  | false =>
    rcases hfits with rfl | hfits
    · cases Except.ok.inj h
    · cases hfit.symm.trans hfits

theorem projectMembers_eq (category : ContextCategory) (kvs : JsonObject) :
    projectMembers policy category kvs =
      kvs.map fun kv => ⟨kv.1, kv.2, fun budget => project policy category kv.2 budget⟩ := by
  induction kvs with
  | nil => rw [projectMembers, List.map_nil]
  | cons kv kvs ih => rw [projectMembers, ih, List.map_cons]

theorem projectElements_eq (category : ContextCategory) (xs : List Json) :
    projectElements policy category xs =
      xs.map fun x budget => project policy category x budget := by
  induction xs with
  | nil => rw [projectElements, List.map_nil]
  | cons x xs ih => rw [projectElements, ih, List.map_cons]

/-- Every projection of the value is a pruning. -/
def PrunesAlways (policy : ContextBudgetPolicy) (category : ContextCategory) (value : Json) : Prop :=
  ∀ budget projected truncated,
    project policy category value budget = .ok (some (projected, truncated)) →
      Pruning value projected truncated

section Value

variable {category : ContextCategory} {projected : Json}

/-- **An object** loses members, and keeps prunings of the others. -/
theorem projectObject_pruning {kvs : JsonObject} (hkeys : (kvs.map Prod.fst).Nodup)
    (ih : ∀ kv ∈ kvs, PrunesAlways policy category kv.2)
    (h : projectObject policy (projectMembers policy category kvs) budget =
      .ok (some (projected, truncated))) : Pruning (.obj kvs) projected truncated := by
  obtain ⟨⟨result, cut⟩, hfold, h⟩ := bind_eq_ok.mp h
  obtain ⟨fitted, hfitted, h⟩ := bind_eq_ok.mp h
  obtain ⟨members, rfl, hprojected⟩ := Option.map_eq_some_iff.mp (Except.ok.inj h)
  obtain ⟨rfl, rfl⟩ := Prod.mk.inj hprojected
  have hperm : (sortChildren (projectMembers policy category kvs)).Perm
      (kvs.map fun kv => ⟨kv.1, kv.2, fun budget => project policy category kv.2 budget⟩) := by
    rw [← projectMembers_eq]
    exact List.perm_insertionSort _ _
  have hchildren : ((sortChildren (projectMembers policy category kvs)).map Child.key).Nodup := by
    refine (hperm.map _).nodup_iff.mpr ?_
    rwa [List.map_map]
  obtain ⟨added, hadded, ⟨kept, hsub, hpairs, hall⟩, -, hfits⟩ :=
    foldlM_projectMember (by simpa using hchildren) hfold
  rw [List.nil_append] at hadded
  subst hadded
  obtain rfl := fitMappingToBudget_eq hfits hfitted
  have hmember {child : Child} {w : Json} {cut : Bool} (hchild : child ∈ kept)
      (hkeeps : KeepsMember child w cut) : (child.key, child.value) ∈ kvs ∧
        Pruning child.value w cut ∧ (keptWhole child.key child.value → w = child.value) := by
    obtain ⟨kv, hkv, rfl⟩ := List.mem_map.mp (hperm.mem_iff.mp (hsub.subset hchild))
    refine ⟨hkv, ?_⟩
    unfold KeepsMember at hkeeps
    split_ifs at hkeeps with hwhole
    · obtain ⟨rfl, -⟩ := hkeeps
      exact ⟨.refl _ _, fun _ => rfl⟩
    · obtain ⟨b, hb⟩ := hkeeps
      exact ⟨ih kv hkv b w cut hb, fun hw => absurd hw hwhole⟩
  have hkeysAdded : members.map Prod.fst = kept.map Child.key :=
    (Pairing.map_eq_map (fun _ _ hp => hp.1.symm) hpairs).symm
  constructor
  · refine .of_members ?_ fun kv hkv => ?_
    · rw [hkeysAdded]
      exact hchildren.sublist (hsub.map _)
    · obtain ⟨child, hchild, hkey, c, hkeeps, -⟩ := Pairing.exists_left hpairs hkv
      obtain ⟨hmem, hpruning, hwhole⟩ := hmember hchild hkeeps
      exact ⟨child.value, hkey ▸ hmem, hpruning.prunes, hkey ▸ hwhole⟩
  · intro hfalse
    have hcut : cut = false := (Bool.or_eq_false_iff.mp hfalse).1
    have hsame : (members.map fun kv => (kv.1, kv.2.sorted)) =
        kept.map fun child => (child.key, child.value.sorted) := by
      refine (Pairing.map_eq_map (fun child kv hp => ?_) (Pairing.with_mem hpairs)).symm
      obtain ⟨⟨hkey, c, hkeeps, hc⟩, hchild, -⟩ := hp
      rw [hkey, (hmember hchild hkeeps).2.1.same (hc hcut)]
    refine Json.sorted_obj_congr hkeys ?_
    rw [hsame, hall hcut]
    exact (hperm.map fun child : Child => (child.key, child.value.sorted)).trans
      (List.Perm.of_eq (by rw [List.map_map]; rfl))

/-- **The loop over elements**: the first ones, with a report. -/
theorem projectItems_eq_ok {items : List (ℕ → Except PythonError Projection)}
    {values values' : List Json} {cut cut' : Bool}
    (h : projectItems policy budget items values cut = .ok (values', cut')) :
    ∃ added : List (Json × Bool), values' = values ++ added.map Prod.fst ∧
      List.Forall₂ (fun item p => ∃ b, item b = .ok (some p)) (items.take added.length) added ∧
      (cut' = false → cut = false ∧ added.length = items.length ∧ ∀ p ∈ added, p.2 = false) := by
  induction items generalizing values cut with
  | nil =>
    obtain ⟨rfl, rfl⟩ := ok_pair_inj h
    exact ⟨[], by simp, .nil, fun hfalse => ⟨hfalse, rfl, by simp⟩⟩
  | cons item items ih =>
    -- the loop ends here, and reports it
    have hstop {v : List Json} {c : Bool}
        (hstop : (.ok (values, true) : Except PythonError (List Json × Bool)) = .ok (v, c)) :
        ∃ added : List (Json × Bool), v = values ++ added.map Prod.fst ∧
          List.Forall₂ (fun item p => ∃ b, item b = .ok (some p))
            ((item :: items).take added.length) added ∧
          (c = false → cut = false ∧ added.length = (item :: items).length ∧
            ∀ p ∈ added, p.2 = false) := by
      obtain ⟨rfl, rfl⟩ := ok_pair_inj hstop
      exact ⟨[], by simp, .nil, by simp⟩
    rw [projectItems] at h
    obtain ⟨used, -, h⟩ := bind_eq_ok.mp h
    split_ifs at h
    · exact hstop h
    obtain ⟨projection, hprojection, h⟩ := bind_eq_ok.mp h
    rcases projection with - | ⟨value, childCut⟩
    · exact hstop h
    obtain ⟨fits, -, h⟩ := bind_eq_ok.mp h
    cases fits with
    | false => exact hstop h
    | true =>
      obtain ⟨added, hvalues, hpairs, hreport⟩ := ih h
      refine ⟨(value, childCut) :: added, by simp [hvalues], .cons ⟨_, hprojection⟩ hpairs,
        fun hfalse => ?_⟩
      obtain ⟨hcut, hlength, hall⟩ := hreport hfalse
      obtain ⟨hcut, hchild⟩ := Bool.or_eq_false_iff.mp hcut
      exact ⟨hcut, by simp [hlength], by simpa [hchild] using hall⟩

theorem projectElements_pruning {xs values : List Json}
    (ih : ∀ x ∈ xs, PrunesAlways policy category x)
    (h : projectItems policy budget (projectElements policy category xs) [] false =
      .ok (values, truncated)) : Pruning (.arr xs) (.arr values) truncated := by
  obtain ⟨added, hvalues, hpairs, hreport⟩ := projectItems_eq_ok h
  rw [List.nil_append] at hvalues
  subst hvalues
  rw [projectElements_eq, ← List.map_take, List.forall₂_map_left_iff] at hpairs
  have hprunings : List.Forall₂ (fun x p => Pruning x p.1 p.2) (xs.take added.length) added := by
    refine (Pairing.with_mem hpairs).imp fun x p ⟨⟨b, hb⟩, hx, _⟩ => ?_
    exact ih x (List.mem_of_mem_take hx) b p.1 p.2 hb
  constructor
  · refine .of_elements ?_
    rw [List.length_map, List.forall₂_map_right_iff]
    exact hprunings.imp fun _ _ hp => hp.prunes
  · intro hfalse
    obtain ⟨-, hlength, hall⟩ := hreport hfalse
    rw [projectElements_eq, List.length_map] at hlength
    rw [Json.sorted_arr, Json.sorted_arr, List.map_map]
    rw [List.take_of_length_le hlength.ge] at hprunings
    refine congrArg Json.arr (Pairing.map_eq_map (fun x p hp => ?_)
      (Pairing.with_mem hprunings)).symm
    exact (hp.1.same (hall p hp.2.2)).symm

variable {value : Json}

/-- **A scalar** stays, or is a string that is cut. -/
theorem projectScalar_pruning
    (h : projectScalar policy value budget = .ok (some (projected, truncated))) :
    Pruning value projected truncated := by
  -- what stays of the value is returned where it fits, with a comparison as the report
  have hreturn {scalar : Json} (hscalar : (scalar.equal value = true → scalar = value) ∧
      Json.Prunes keptWhole value scalar)
      (h : (jsonFits policy scalar budget >>= fun fits =>
        if fits then .ok (some (scalar, !scalar.equal value)) else .ok none) =
          (.ok (some (projected, truncated)) : Except PythonError Projection)) :
      Pruning value projected truncated := by
    obtain ⟨fits, -, h⟩ := bind_eq_ok.mp h
    cases fits with
    | false => cases Except.ok.inj h
    | true =>
      obtain ⟨rfl, rfl⟩ := some_pair_inj (Except.ok.inj h)
      exact ⟨hscalar.2, fun hfalse => by rw [hscalar.1 (by simpa using hfalse)]⟩
  unfold projectScalar at h
  dsimp only at h
  split at h
  · next s =>
    obtain ⟨length, -, h⟩ := bind_eq_ok.mp h
    exact hreturn ⟨fun hequal => by simpa [Json.equal] using hequal, .cut s length⟩ h
  · exact hreturn ⟨fun _ => rfl, .keep _⟩ h

theorem projectUnlessFits_pruning {cut : Except PythonError Projection}
    (hcategory : category ≠ .ragEvidence)
    (hcut : cut = .ok (some (projected, truncated)) → Pruning value projected truncated)
    (h : projectUnlessFits policy category value budget cut = .ok (some (projected, truncated))) :
    Pruning value projected truncated := by
  have hnone : projectEvidence policy category value budget = none := by
    unfold projectEvidence
    split
    · exact absurd rfl hcategory
    · rfl
  unfold projectUnlessFits at h
  split_ifs at h
  · cases Except.ok.inj h
  rw [hnone] at h
  obtain ⟨fits, -, h⟩ := bind_eq_ok.mp h
  cases fits with
  | true =>
    obtain ⟨rfl, rfl⟩ := some_pair_inj (Except.ok.inj h)
    exact .refl _ _
  | false => exact hcut h

/-- **Every projection below the root is a pruning**, whatever the budget and the estimator. -/
theorem project_pruning (hcategory : category ≠ .ragEvidence) {d : ℕ}
    (hkeys : value.allAt Json.distinctKeys d) : PrunesAlways policy category value := by
  induction value using Json.ind generalizing d with
  | obj kvs ih =>
    obtain ⟨hnodup, hmembers⟩ := Json.allAt_obj.mp hkeys
    intro budget projected truncated h
    rw [project] at h
    refine projectUnlessFits_pruning hcategory (projectObject_pruning ?_ fun kv hkv => ?_) h
    · simpa [Json.distinctKeys] using hnodup
    · exact ih kv hkv (hmembers kv hkv)
  | arr xs ih =>
    obtain ⟨-, hxs⟩ := Json.allAt_arr.mp hkeys
    intro budget projected truncated h
    rw [project] at h
    refine projectUnlessFits_pruning hcategory (fun hcut => ?_) h
    obtain ⟨⟨values, cut⟩, hitems, hcut⟩ := bind_eq_ok.mp hcut
    obtain ⟨rfl, rfl⟩ := some_pair_inj (Except.ok.inj hcut)
    exact projectElements_pruning (fun x hx => ih x hx (hxs x hx)) hitems
  | _ =>
    intro budget projected truncated h
    rw [project] at h
    · exact projectUnlessFits_pruning hcategory projectScalar_pruning h
    all_goals simp

end Value

end Policy

end AgentHub.Context
