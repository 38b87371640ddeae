import AgentHub.Lib.JsonText
import AgentHub.Lib.Pairing

/-!
# Pruned values

A value is pruned by removing members of objects and the ends of arrays, and by cutting strings to
prefixes, at any depth. Members of a kind may be exempt: they are kept as they are or removed.

## Main definitions

* `Json.Prunes`: one value is another one pruned

## Main results

* `Json.Prunes.of_members`: pruning an object member by member
* `Json.Prunes.exists_source`: the members a pruned object keeps
* `Json.Prunes.allAt_distinctKeys`: the keys of a pruned value are distinct
* `Json.sorted_obj_congr`: objects with equal members
-/

namespace Lib.Json

/-! ## Members in another order -/

/-- Members with distinct keys have one order. -/
theorem sortMembers_congr {α : Type*} {kvs lvs : List (Text × α)} (h : (kvs.map Prod.fst).Nodup)
    (hperm : lvs.Perm kvs) : sortMembers lvs = sortMembers kvs := by
  refine ((sortMembers_perm lvs).trans (hperm.trans (sortMembers_perm kvs).symm)).eq_of_pairwise
    (fun a b ha hb hab hba => ?_) (List.pairwise_insertionSort _ _)
    (List.pairwise_insertionSort _ _)
  exact List.inj_on_of_nodup_map h (hperm.mem_iff.mp (mem_sortMembers.mp ha))
    (mem_sortMembers.mp hb) (Text.codes_injective (le_antisymm hab hba))

variable {kvs lvs : List (Text × Json)}

/-- Objects whose members are equal up to order, at any depth. -/
theorem sorted_obj_congr (h : (kvs.map Prod.fst).Nodup)
    (hperm : (lvs.map fun kv => (kv.1, kv.2.sorted)).Perm (kvs.map fun kv => (kv.1, kv.2.sorted))) :
    (Json.obj lvs).sorted = (Json.obj kvs).sorted := by
  rw [sorted_obj, sorted_obj, sortMembers_congr _ hperm]
  rwa [List.map_map]

/-- Equal objects have equal members. -/
theorem perm_of_sorted_obj (h : (Json.obj lvs).sorted = (Json.obj kvs).sorted) :
    (lvs.map fun kv => (kv.1, kv.2.sorted)).Perm (kvs.map fun kv => (kv.1, kv.2.sorted)) := by
  rw [sorted_obj, sorted_obj, Json.obj.injEq] at h
  exact (sortMembers_perm _).symm.trans (h ▸ sortMembers_perm _)

/-! ## Pruning -/

/-- `w` is `v` with members of objects and ends of arrays removed, and strings cut to prefixes. The
members for which `whole` holds are kept as they are or removed. -/
inductive Prunes (whole : Text → Json → Bool) : Json → Json → Prop
  | keep (v : Json) : Prunes whole v v
  | cut (s : Text) (n : ℕ) : Prunes whole (.str s) (.str (s.take n))
  | elements {xs ys : List Json} (hlength : ys.length ≤ xs.length)
      (h : ∀ (i : ℕ) (x y : Json), xs[i]? = some x → ys[i]? = some y → Prunes whole x y) :
      Prunes whole (.arr xs) (.arr ys)
  | members {kvs lvs : List (Text × Json)} (source : Text × Json → Json)
      (hkeys : (lvs.map Prod.fst).Nodup) (hsource : ∀ kv ∈ lvs, (kv.1, source kv) ∈ kvs)
      (h : ∀ kv ∈ lvs, Prunes whole (source kv) kv.2)
      (hwhole : ∀ kv ∈ lvs, whole kv.1 (source kv) → kv.2 = source kv) :
      Prunes whole (.obj kvs) (.obj lvs)

namespace Prunes

variable {whole : Text → Json → Bool} {kvs lvs : List (Text × Json)}

/-- Pruning an object member by member. -/
theorem of_members (hkeys : (lvs.map Prod.fst).Nodup)
    (h : ∀ kv ∈ lvs, ∃ v, (kv.1, v) ∈ kvs ∧ Prunes whole v kv.2 ∧ (whole kv.1 v → kv.2 = v)) :
    Prunes whole (.obj kvs) (.obj lvs) := by
  have : Nonempty Json := ⟨.null⟩
  choose! source hsource using h
  exact .members source hkeys (fun kv hkv => (hsource kv hkv).1)
    (fun kv hkv => (hsource kv hkv).2.1) fun kv hkv => (hsource kv hkv).2.2

/-- Pruning an array element by element, and cutting off its end. -/
theorem of_elements {xs ys : List Json} (h : List.Forall₂ (Prunes whole) (xs.take ys.length) ys) :
    Prunes whole (.arr xs) (.arr ys) := by
  have hlength := h.length_eq
  rw [List.length_take] at hlength
  refine .elements (by omega) fun i x y hx hy => Pairing.of_getElem? h ?_ hy
  have hi : i < ys.length := (List.getElem?_eq_some_iff.mp hy).1
  rwa [List.getElem?_take_of_lt hi]

/-- The members a pruned object keeps. -/
theorem exists_source (hkeys : (kvs.map Prod.fst).Nodup) (h : Prunes whole (.obj kvs) (.obj lvs)) :
    (lvs.map Prod.fst).Nodup ∧ ∀ kv ∈ lvs, ∃ v, (kv.1, v) ∈ kvs ∧ Prunes whole v kv.2 ∧
      (whole kv.1 v → kv.2 = v) := by
  cases h with
  | keep => exact ⟨hkeys, fun kv hkv => ⟨kv.2, hkv, .keep _, fun _ => rfl⟩⟩
  | members source hnodup hsource h hwhole =>
    exact ⟨hnodup, fun kv hkv => ⟨source kv, hsource kv hkv, h kv hkv, hwhole kv hkv⟩⟩

/-- **The keys of a pruned value are distinct** like those of the whole one. -/
theorem allAt_distinctKeys {v w : Json} {d : ℕ} (h : Prunes whole v w)
    (hv : v.allAt distinctKeys d) : w.allAt distinctKeys d := by
  induction h generalizing d with
  | keep v => exact hv
  | cut s n => rfl
  | @elements xs ys hlength _ ih =>
    obtain ⟨-, hxs⟩ := allAt_arr.mp hv
    refine allAt_arr.mpr ⟨rfl, fun y hy => ?_⟩
    obtain ⟨i, hi, rfl⟩ := List.getElem_of_mem hy
    have hi' : i < xs.length := hi.trans_le hlength
    exact ih i xs[i] ys[i] (List.getElem?_eq_getElem hi') (List.getElem?_eq_getElem hi)
      (hxs _ (List.getElem_mem hi'))
  | @members kvs lvs source hkeys hsource _ _ ih =>
    obtain ⟨-, hkvs⟩ := allAt_obj.mp hv
    refine allAt_obj.mpr ⟨?_, fun kv hkv => ih kv hkv (hkvs _ (hsource kv hkv))⟩
    simpa [distinctKeys] using hkeys

end Prunes

end Lib.Json
