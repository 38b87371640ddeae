import AgentHub.Lib.Numeral
import AgentHub.Lib.Table
import Mathlib.Data.List.Sort

/-!
# JSON values

JSON values as an interpreter holds them: integers and binary64 numbers are different values, and
an object lists its members in the order they were inserted.

## Main definitions

* `Json`: values
* `Json.nodes`: the values and keys of a value
* `Json.allAt`: a condition on every value within a value, by depth
* `Json.mapStrings`: the value with its strings and keys changed
* `Json.sorted`: the value with the members of all objects in the order of their keys
* `Json.equal`: equality of values, whatever the order of members

## Main results

* `Json.ind`: induction over values
* `Json.allAt_sorted`: what sorting keeps
* `Json.get?_set`: reading a dictionary after a write
* `Json.equal_self`: equal values
-/

namespace Lib

/-- A JSON value. -/
inductive Json
  | null
  | bool (b : Bool)
  | int (i : ℤ)
  | float (x : Binary64)
  | str (s : Text)
  | arr (xs : List Json)
  | obj (kvs : List (Text × Json))

namespace Json

/-- **Induction over values**: the elements of an array and the members of an object. -/
@[elab_as_elim]
theorem ind {P : Json → Prop} (null : P .null) (bool : ∀ b, P (.bool b)) (int : ∀ i, P (.int i))
    (float : ∀ x, P (.float x)) (str : ∀ s, P (.str s))
    (arr : ∀ xs, (∀ x ∈ xs, P x) → P (.arr xs))
    (obj : ∀ kvs, (∀ kv ∈ kvs, P kv.2) → P (.obj kvs)) (j : Json) : P j :=
  @Json.rec P (fun xs => ∀ x ∈ xs, P x) (fun kvs => ∀ kv ∈ kvs, P kv.2) (fun kv => P kv.2)
    null bool int float str arr obj
    (by simp) (fun x xs hx hxs => by simpa using ⟨hx, hxs⟩)
    (by simp) (fun kv kvs hkv hkvs => by
      intro kv' hkv'
      rcases List.mem_cons.mp hkv' with rfl | h
      · exact hkv
      · exact hkvs kv' h) (fun _ _ h => h) j

/-! ## Nodes -/

mutual

/-- The number of values and keys within a value, itself included. -/
def nodes : Json → ℕ
  | .arr xs => 1 + nodesOfList xs
  | .obj kvs => 1 + nodesOfMembers kvs
  | _ => 1

def nodesOfList : List Json → ℕ
  | [] => 0
  | x :: xs => x.nodes + nodesOfList xs

def nodesOfMembers : List (Text × Json) → ℕ
  | [] => 0
  | (_, v) :: kvs => 1 + v.nodes + nodesOfMembers kvs

end

theorem nodesOfMembers_eq (kvs : List (Text × Json)) :
    nodesOfMembers kvs = (kvs.map fun kv => 1 + kv.2.nodes).sum := by
  induction kvs with
  | nil => rfl
  | cons kv kvs ih => simp [nodesOfMembers, ih]

theorem nodes_pos (j : Json) : 0 < j.nodes := by
  cases j <;> simp [nodes]

/-! ## Conditions on every value -/

mutual

/-- Every value within a value meets `p` at its depth. -/
def allAt (p : ℕ → Json → Bool) : ℕ → Json → Bool
  | d, .arr xs => p d (.arr xs) && allAtList p (d + 1) xs
  | d, .obj kvs => p d (.obj kvs) && allAtMembers p (d + 1) kvs
  | d, j => p d j

def allAtList (p : ℕ → Json → Bool) : ℕ → List Json → Bool
  | _, [] => true
  | d, x :: xs => x.allAt p d && allAtList p d xs

def allAtMembers (p : ℕ → Json → Bool) : ℕ → List (Text × Json) → Bool
  | _, [] => true
  | d, (_, v) :: kvs => v.allAt p d && allAtMembers p d kvs

end

section AllAt

variable {p q : ℕ → Json → Bool} {d : ℕ}

@[simp] theorem allAtList_iff {xs : List Json} :
    allAtList p d xs ↔ ∀ x ∈ xs, x.allAt p d := by
  induction xs with
  | nil => simp [allAtList]
  | cons x xs ih => simp [allAtList, ih]

variable {kvs : List (Text × Json)}

@[simp] theorem allAtMembers_iff : allAtMembers p d kvs ↔ ∀ kv ∈ kvs, kv.2.allAt p d := by
  induction kvs with
  | nil => simp [allAtMembers]
  | cons kv kvs ih => simp [allAtMembers, ih]

theorem allAt_arr {xs : List Json} :
    (Json.arr xs).allAt p d ↔ p d (.arr xs) ∧ ∀ x ∈ xs, x.allAt p (d + 1) := by
  simp [allAt]

theorem allAt_obj :
    (Json.obj kvs).allAt p d ↔ p d (.obj kvs) ∧ ∀ kv ∈ kvs, kv.2.allAt p (d + 1) := by
  simp [allAt]

/-- Two conditions on every value. -/
theorem allAt_and {j : Json} {d : ℕ} (hp : j.allAt p d) (hq : j.allAt q d) :
    j.allAt (fun n i => p n i && q n i) d := by
  induction j using Json.ind generalizing d with
  | arr xs ih =>
    obtain ⟨hp, hps⟩ := allAt_arr.mp hp
    obtain ⟨hq, hqs⟩ := allAt_arr.mp hq
    exact allAt_arr.mpr ⟨by simp [hp, hq], fun x hx => ih x hx (hps x hx) (hqs x hx)⟩
  | obj kvs ih =>
    obtain ⟨hp, hps⟩ := allAt_obj.mp hp
    obtain ⟨hq, hqs⟩ := allAt_obj.mp hq
    exact allAt_obj.mpr ⟨by simp [hp, hq], fun x hx => ih x hx (hps x hx) (hqs x hx)⟩
  | _ => exact Bool.and_eq_true_iff.mpr ⟨hp, hq⟩

/-- A weaker condition, which may hold at other depths. -/
theorem allAt_mono {j : Json} {d e : ℕ} (hpq : ∀ n j, p (d + n) j → q (e + n) j)
    (h : j.allAt p d) : j.allAt q e := by
  induction j using Json.ind generalizing d e with
  | arr xs ih =>
    obtain ⟨hself, hxs⟩ := allAt_arr.mp h
    refine allAt_arr.mpr ⟨hpq 0 _ hself, fun x hx => ih x hx ?_ (hxs x hx)⟩
    intro n j hj
    rw [add_assoc, add_comm 1 n] at hj ⊢
    exact hpq (n + 1) j hj
  | obj kvs ih =>
    obtain ⟨hself, hkvs⟩ := allAt_obj.mp h
    refine allAt_obj.mpr ⟨hpq 0 _ hself, fun kv hkv => ih kv hkv ?_ (hkvs kv hkv)⟩
    intro n j hj
    rw [add_assoc, add_comm 1 n] at hj ⊢
    exact hpq (n + 1) j hj
  | _ => exact hpq 0 _ h

end AllAt

/-- The keys of every object are distinct. -/
def distinctKeys (_ : ℕ) : Json → Bool
  | .obj kvs => (kvs.map Prod.fst).Nodup
  | _ => true

/-! ## Strings -/

mutual

/-- The value with every string and every key changed. -/
def mapStrings (f : Text → Text) : Json → Json
  | .str s => .str (f s)
  | .arr xs => .arr (mapStringsList f xs)
  | .obj kvs => .obj (mapStringsMembers f kvs)
  | j => j

def mapStringsList (f : Text → Text) : List Json → List Json
  | [] => []
  | x :: xs => x.mapStrings f :: mapStringsList f xs

def mapStringsMembers (f : Text → Text) : List (Text × Json) → List (Text × Json)
  | [] => []
  | (k, v) :: kvs => (f k, v.mapStrings f) :: mapStringsMembers f kvs

end

section MapStrings

variable {f : Text → Text}

theorem mapStringsList_eq (xs : List Json) : mapStringsList f xs = xs.map (mapStrings f) := by
  induction xs with
  | nil => rfl
  | cons x xs ih => rw [mapStringsList, ih, List.map_cons]

theorem mapStringsMembers_eq (kvs : List (Text × Json)) :
    mapStringsMembers f kvs = kvs.map fun kv => (f kv.1, kv.2.mapStrings f) := by
  induction kvs with
  | nil => rfl
  | cons kv kvs ih => rw [mapStringsMembers, ih, List.map_cons]

@[simp] theorem mapStrings_arr (xs : List Json) :
    (Json.arr xs).mapStrings f = .arr (xs.map (mapStrings f)) := by
  rw [mapStrings, mapStringsList_eq]

@[simp] theorem mapStrings_obj (kvs : List (Text × Json)) :
    (Json.obj kvs).mapStrings f = .obj (kvs.map fun kv => (f kv.1, kv.2.mapStrings f)) := by
  rw [mapStrings, mapStringsMembers_eq]

/-- The strings and keys of a value have the property `q`. -/
def stringsHave (q : Text → Bool) (_ : ℕ) : Json → Bool
  | .str s => q s
  | .obj kvs => kvs.all fun kv => q kv.1
  | _ => true

/-- A change that leaves every string leaves the value. -/
theorem mapStrings_eq_self {j : Json} {d : ℕ} (h : j.allAt (stringsHave fun s => f s = s) d) :
    j.mapStrings f = j := by
  induction j using Json.ind generalizing d with
  | str s => exact congrArg Json.str (of_decide_eq_true h)
  | arr xs ih =>
    obtain ⟨-, hxs⟩ := allAt_arr.mp h
    rw [mapStrings_arr, List.map_congr_left fun x hx => ih x hx (hxs x hx), List.map_id']
  | obj kvs ih =>
    obtain ⟨hself, hkvs⟩ := allAt_obj.mp h
    have hkeys := List.all_eq_true.mp hself
    have hmembers : ∀ kv ∈ kvs, (f kv.1, kv.2.mapStrings f) = kv := fun kv hkv =>
      Prod.ext (of_decide_eq_true (hkeys kv hkv)) (ih kv hkv (hkvs kv hkv))
    rw [mapStrings_obj, List.map_congr_left hmembers, List.map_id']
  | _ => rfl

end MapStrings

/-! ## Members -/

/-- The value of a key, as `dict.get` finds it. -/
def get? {α : Type*} (kvs : List (Text × α)) (k : Text) : Option α := kvs.lookup k

/-- `kvs[k] = v`: the member is replaced where it stands, or added at the end. -/
def set {α : Type*} (kvs : List (Text × α)) (k : Text) (v : α) : List (Text × α) :=
  if k ∈ kvs.map Prod.fst then kvs.map fun kv => if kv.1 = k then (k, v) else kv
  else kvs ++ [(k, v)]

section Set

variable {α : Type*} {kvs : List (Text × α)} {k : Text} {v : α}

theorem set_of_not_mem (h : k ∉ kvs.map Prod.fst) : set kvs k v = kvs ++ [(k, v)] := if_neg h

theorem mem_set {kv : Text × α} (h : kv ∈ set kvs k v) : kv = (k, v) ∨ kv ∈ kvs := by
  unfold set at h
  split_ifs at h
  · obtain ⟨lw, hlw, rfl⟩ := List.mem_map.mp h
    split_ifs
    · exact Or.inl rfl
    · exact Or.inr hlw
  · rcases List.mem_append.mp h with h | h
    · exact Or.inr h
    · exact Or.inl (List.mem_singleton.mp h)

/-- Replacing a member leaves the keys. -/
theorem keys_replace : (kvs.map fun kv => if kv.1 = k then (k, v) else kv).map Prod.fst =
    kvs.map Prod.fst := by
  rw [List.map_map]
  refine List.map_congr_left fun kv _ => ?_
  by_cases hk : kv.1 = k
  · simp [hk]
  · simp [hk]

theorem nodup_set (h : (kvs.map Prod.fst).Nodup) : ((set kvs k v).map Prod.fst).Nodup := by
  unfold set
  split_ifs with hmem
  · rwa [keys_replace]
  · rw [List.map_append, List.map_singleton]
    refine List.nodup_append.mpr ⟨h, by simp, ?_⟩
    rintro x hx y hy rfl
    obtain rfl : x = k := List.mem_singleton.mp hy
    exact hmem hx

theorem mem_set_self : (k, v) ∈ set kvs k v := by
  unfold set
  split_ifs with hmem
  · obtain ⟨kv, hkv, hk⟩ := List.mem_map.mp hmem
    exact List.mem_map.mpr ⟨kv, hkv, if_pos hk⟩
  · simp

theorem mem_keys_set {l : Text} :
    l ∈ (set kvs k v).map Prod.fst ↔ l = k ∨ l ∈ kvs.map Prod.fst := by
  unfold set
  split_ifs with hmem
  · rw [keys_replace]
    exact ⟨.inr, fun h => h.elim (fun hl => hl ▸ hmem) id⟩
  · simp [or_comm]

/-- Setting a member to the value it has changes nothing. -/
theorem set_eq_self (h : (kvs.map Prod.fst).Nodup) (hmem : (k, v) ∈ kvs) : set kvs k v = kvs := by
  rw [set, if_pos (List.mem_map_of_mem hmem)]
  refine (List.map_congr_left fun kv hkv => ?_).trans (List.map_id kvs)
  split_ifs with hk
  · exact (List.inj_on_of_nodup_map h hkv hmem hk).symm
  · rfl

/-- Setting a member leaves those with other keys. -/
theorem filter_set {p : Text → Bool} (hk : p k = false) :
    (set kvs k v).filter (fun kv => p kv.1) = kvs.filter fun kv => p kv.1 := by
  unfold set
  split_ifs with hmem
  · clear hmem
    induction kvs with
    | nil => rfl
    | cons kv kvs ih =>
      rw [List.map_cons, List.filter_cons, List.filter_cons, ih]
      by_cases h : kv.1 = k <;> simp [h, hk]
  · simp [hk]

end Set

variable {k : Text}

/-- The value of a key that a filter keeps. -/
theorem get?_filter {α : Type*} {kvs : List (Text × α)} {p : Text → Bool} (hk : p k = true) :
    get? (kvs.filter fun kv => p kv.1) k = get? kvs k := by
  unfold get?
  induction kvs with
  | nil => rfl
  | cons kv kvs ih =>
    obtain ⟨l, v⟩ := kv
    rw [List.filter_cons, List.lookup_cons]
    by_cases h : k = l
    · subst h
      simp [hk]
    · have hbeq : (k == l) = false := by simpa using h
      cases hp : p l <;> simp [List.lookup_cons, hbeq, ih]

/-- Replacing or adding a member adds at most its nodes. -/
theorem nodesOfMembers_set {kvs : List (Text × Json)} (h : (kvs.map Prod.fst).Nodup) (k : Text)
    (v : Json) : nodesOfMembers (set kvs k v) ≤ nodesOfMembers kvs + (1 + v.nodes) := by
  by_cases hmem : k ∈ kvs.map Prod.fst
  · rw [set, if_pos hmem]
    clear hmem
    induction kvs with
    | nil => simp [nodesOfMembers]
    | cons lw kvs ih =>
      obtain ⟨l, w⟩ := lw
      obtain ⟨hnew, hnd⟩ := List.nodup_cons.mp h
      by_cases hl : l = k
      · -- the other members have other keys
        have hsame : (kvs.map fun kv => if kv.1 = k then (k, v) else kv) = kvs := by
          refine (List.map_congr_left fun kv hkv => if_neg fun hk => hnew ?_).trans (List.map_id _)
          exact List.mem_map.mpr ⟨kv, hkv, hk.trans hl.symm⟩
        simp only [List.map_cons, hl, if_true, hsame, nodesOfMembers]
        omega
      · have := ih hnd
        simp only [List.map_cons, hl, if_false, nodesOfMembers]
        omega
  · rw [set_of_not_mem hmem, nodesOfMembers_eq, nodesOfMembers_eq, List.map_append, List.sum_append]
    simp

theorem get?_eq_some_iff {α : Type*} {kvs : List (Text × α)} (h : (kvs.map Prod.fst).Nodup)
    {v : α} : get? kvs k = some v ↔ (k, v) ∈ kvs := Table.lookup_eq_some_iff h

theorem get?_eq_none {α : Type*} {kvs : List (Text × α)} (h : k ∉ kvs.map Prod.fst) :
    get? kvs k = none := by
  unfold get?
  rw [List.lookup_eq_none_iff]
  intro kv hkv
  rw [bne_iff_ne]
  rintro rfl
  exact h (List.mem_map_of_mem hkv)

theorem exists_get? {α : Type*} {kvs : List (Text × α)} (h : k ∈ kvs.map Prod.fst) :
    ∃ v, get? kvs k = some v := by
  cases hget : get? kvs k with
  | some v => exact ⟨v, rfl⟩
  | none =>
    obtain ⟨kv, hkv, rfl⟩ := List.mem_map.mp h
    have hne := List.lookup_eq_none_iff.mp hget kv hkv
    simp at hne

theorem isSome_get? {α : Type*} {kvs : List (Text × α)} :
    (get? kvs k).isSome = true ↔ k ∈ kvs.map Prod.fst := by
  constructor
  · intro h
    by_contra hmem
    rw [get?_eq_none hmem] at h
    cases h
  · intro h
    obtain ⟨v, hv⟩ := exists_get? h
    rw [hv]
    rfl

/-- **A write** is read back, and leaves the other members. -/
theorem get?_set {α : Type*} (kvs : List (Text × α)) (k : Text) (v : α) (l : Text) :
    get? (set kvs k v) l = if l = k then some v else get? kvs l := by
  unfold set get?
  split_ifs with hmem hl hl
  · subst hl
    induction kvs with
    | nil => simp at hmem
    | cons kv kvs ih =>
      by_cases hkv : kv.1 = l
      · simp [hkv]
      · have hne : (l == kv.1) = false := by simpa using Ne.symm hkv
        rw [List.map_cons, if_neg hkv, List.lookup_cons, hne]
        exact ih ((List.mem_cons.mp hmem).resolve_left (Ne.symm hkv))
  · clear hmem
    induction kvs with
    | nil => rfl
    | cons kv kvs ih =>
      by_cases hkv : kv.1 = k
      · have hne : (l == k) = false := by simpa using hl
        rw [List.map_cons, if_pos hkv, List.lookup_cons, List.lookup_cons, hkv, hne]
        exact ih
      · rw [List.map_cons, if_neg hkv, List.lookup_cons, List.lookup_cons, ih]
  · subst hl
    rw [List.lookup_append, List.lookup_eq_none_iff.mpr]
    · simp
    · intro kv hkv
      have hne : l ≠ kv.1 := fun heq => hmem (heq ▸ List.mem_map_of_mem hkv)
      simpa using hne
  · have hne : (l == k) = false := by simpa using hl
    rw [List.lookup_append, List.lookup_cons, hne, List.lookup_nil, Option.or_none]

/-- Members in another order have the same values. -/
theorem get?_perm {α : Type*} {kvs lvs : List (Text × α)} (hperm : kvs.Perm lvs)
    (h : (kvs.map Prod.fst).Nodup) (k : Text) : get? kvs k = get? lvs k := by
  have h' : (lvs.map Prod.fst).Nodup := (hperm.map Prod.fst).nodup_iff.mp h
  refine Option.ext fun v => ?_
  rw [get?_eq_some_iff h, get?_eq_some_iff h', hperm.mem_iff]

theorem get?_map {α β : Type*} (f : α → β) (kvs : List (Text × α)) (k : Text) :
    get? (kvs.map fun kv => (kv.1, f kv.2)) k = (get? kvs k).map f := by
  unfold get?
  induction kvs with
  | nil => rfl
  | cons kv kvs ih =>
    obtain ⟨l, v⟩ := kv
    simp only [List.map_cons, List.lookup_cons]
    cases k == l
    · exact ih
    · rfl

/-! ## Sorting -/

/-- The order of keys: that of their code points. -/
def keyLe {α : Type*} (a b : Text × α) : Prop := a.1.codes ≤ b.1.codes

instance {α : Type*} : DecidableRel (@keyLe α) :=
  fun a b => inferInstanceAs (Decidable (a.1.codes ≤ b.1.codes))

instance {α : Type*} : Std.Total (@keyLe α) := ⟨fun a b => le_total a.1.codes b.1.codes⟩

instance {α : Type*} : IsTrans (Text × α) keyLe :=
  ⟨fun a b c => @le_trans _ _ a.1.codes b.1.codes c.1.codes⟩

def sortMembers {α : Type*} (kvs : List (Text × α)) : List (Text × α) := kvs.insertionSort keyLe

mutual

/-- The value with the members of every object in the order of their keys. -/
def sorted : Json → Json
  | .arr xs => .arr (sortedList xs)
  | .obj kvs => .obj (sortMembers (sortedMembers kvs))
  | j => j

def sortedList : List Json → List Json
  | [] => []
  | x :: xs => x.sorted :: sortedList xs

def sortedMembers : List (Text × Json) → List (Text × Json)
  | [] => []
  | (k, v) :: kvs => (k, v.sorted) :: sortedMembers kvs

end

theorem sortedList_eq (xs : List Json) : sortedList xs = xs.map sorted := by
  induction xs with
  | nil => rfl
  | cons x xs ih => simp [sortedList, ih]

theorem sortedMembers_eq (kvs : List (Text × Json)) :
    sortedMembers kvs = kvs.map fun kv => (kv.1, kv.2.sorted) := by
  induction kvs with
  | nil => rfl
  | cons kv kvs ih => simp [sortedMembers, ih]

theorem sorted_arr (xs : List Json) : (Json.arr xs).sorted = .arr (xs.map sorted) := by
  rw [sorted, sortedList_eq]

theorem sorted_obj (kvs : List (Text × Json)) :
    (Json.obj kvs).sorted = .obj (sortMembers (kvs.map fun kv => (kv.1, kv.2.sorted))) := by
  rw [sorted, sortedMembers_eq]

section Sorting

variable {α : Type*} {kvs : List (Text × α)}

theorem sortMembers_perm (kvs : List (Text × α)) : (sortMembers kvs).Perm kvs :=
  List.perm_insertionSort _ _

theorem mem_sortMembers {kv : Text × α} : kv ∈ sortMembers kvs ↔ kv ∈ kvs :=
  (sortMembers_perm kvs).mem_iff

theorem nodup_sortMembers :
    ((sortMembers kvs).map Prod.fst).Nodup ↔ (kvs.map Prod.fst).Nodup :=
  ((sortMembers_perm kvs).map _).nodup_iff

end Sorting

/-- Sorting keeps a condition that does not depend on the order of members. -/
theorem allAt_sorted {p : ℕ → Json → Bool}
    (harr : ∀ d xs, p d (.arr xs) = p d (.arr (xs.map sorted)))
    (hobj : ∀ d kvs, p d (.obj kvs) =
      p d (.obj (sortMembers (kvs.map fun kv => (kv.1, kv.2.sorted))))) {d : ℕ} {j : Json} :
    j.sorted.allAt p d ↔ j.allAt p d := by
  induction j using Json.ind generalizing d with
  | arr xs ih =>
    rw [sorted_arr, allAt_arr, allAt_arr, ← harr]
    refine and_congr_right fun _ => ?_
    simp only [List.mem_map, forall_exists_index, and_imp, forall_apply_eq_imp_iff₂]
    exact forall₂_congr fun x hx => ih x hx
  | obj kvs ih =>
    rw [sorted_obj, allAt_obj, allAt_obj, ← hobj]
    refine and_congr_right fun _ => ?_
    simp only [mem_sortMembers, List.mem_map, forall_exists_index, and_imp,
      forall_apply_eq_imp_iff₂]
    exact forall₂_congr fun kv hkv => ih kv hkv
  | _ => rfl

theorem distinctKeys_sortMembers (d : ℕ) (kvs : List (Text × Json)) :
    (Json.obj kvs).distinctKeys d =
      (Json.obj (sortMembers (kvs.map fun kv => (kv.1, kv.2.sorted)))).distinctKeys d := by
  simp [distinctKeys, nodup_sortMembers, Function.comp_def]

/-- The value of a key after sorting. -/
theorem get?_sorted {kvs : List (Text × Json)} (h : (kvs.map Prod.fst).Nodup) (k : Text) :
    get? (sortMembers (kvs.map fun kv => (kv.1, kv.2.sorted))) k = (get? kvs k).map sorted := by
  have hkeys : ((kvs.map fun kv => (kv.1, kv.2.sorted)).map Prod.fst).Nodup := by
    simpa [Function.comp_def] using h
  rw [← get?_map sorted kvs k]
  exact get?_perm (sortMembers_perm _) (nodup_sortMembers.mpr hkeys) k

/-! ## Equality -/

/-- A number in units of `2 ^ -1074`, or the sign of an infinity; `none` is equal to nothing. -/
def number? : Json → Option (ℤ ⊕ Bool)
  | .bool b => some (.inl (if b then 2 ^ unitExponent else 0))
  | .int i => some (.inl (i * 2 ^ unitExponent))
  | .float (.finite negative n) => some (.inl (if negative then -(n : ℕ) else (n : ℕ)))
  | .float (.infinite negative) => some (.inr negative)
  | _ => none

/-- Equality of numbers, also between truth values, integers and binary64 numbers. -/
def equalNumber (a b : Json) : Bool :=
  match number? a, number? b with
  | some x, some y => x = y
  | _, _ => false

mutual

/-- **Equality of values**: the order of members does not matter. -/
def equal : Json → Json → Bool
  | .null, .null => true
  | .str s, .str t => s == t
  | .arr xs, .arr ys => equalList xs ys
  | .obj kvs, .obj lvs => kvs.length == lvs.length && equalMembers kvs lvs
  | a, b => equalNumber a b

def equalList : List Json → List Json → Bool
  | [], [] => true
  | x :: xs, y :: ys => x.equal y && equalList xs ys
  | _, _ => false

/-- Every member has an equal one of the same key. -/
def equalMembers : List (Text × Json) → List (Text × Json) → Bool
  | [], _ => true
  | (k, v) :: kvs, lvs =>
    (match get? lvs k with
      | some w => v.equal w
      | none => false) && equalMembers kvs lvs

end

/-- The value is not the number that is equal to nothing. -/
def notNan (_ : ℕ) : Json → Bool
  | .float .nan => false
  | _ => true

theorem equalMembers_iff {kvs lvs : List (Text × Json)} :
    equalMembers kvs lvs ↔ ∀ kv ∈ kvs, ∃ w, get? lvs kv.1 = some w ∧ kv.2.equal w := by
  induction kvs with
  | nil => simp [equalMembers]
  | cons kv kvs ih =>
    obtain ⟨k, v⟩ := kv
    cases hw : get? lvs k <;> simp [equalMembers, hw, ih]

theorem equalList_map {f : Json → Json} {xs : List Json} (h : ∀ x ∈ xs, (f x).equal x) :
    equalList (xs.map f) xs := by
  induction xs with
  | nil => rfl
  | cons x xs ih =>
    simp only [List.map_cons, equalList, Bool.and_eq_true]
    exact ⟨h x (by simp), ih fun y hy => h y (by simp [hy])⟩

theorem equal_obj {f : Json → Json} {kvs lvs : List (Text × Json)}
    (hkeys : (kvs.map Prod.fst).Nodup) (hperm : lvs.Perm (kvs.map fun kv => (kv.1, f kv.2)))
    (h : ∀ kv ∈ kvs, (f kv.2).equal kv.2) : (obj lvs).equal (.obj kvs) := by
  rw [equal, Bool.and_eq_true]
  refine ⟨by simp [hperm.length_eq], equalMembers_iff.mpr fun lv hlv => ?_⟩
  obtain ⟨kv, hkv, rfl⟩ := List.mem_map.mp (hperm.mem_iff.mp hlv)
  exact ⟨kv.2, (get?_eq_some_iff hkeys).mpr hkv, h kv hkv⟩

/-- A number is equal to itself. -/
theorem equal_float {x : Binary64} {d : ℕ} (hn : (float x).allAt notNan d) :
    (float x).equal (.float x) := by
  cases x with
  | nan => simp [allAt, notNan] at hn
  | _ => simp [equal, equalNumber, number?]

/-- **A value is equal to itself.** -/
theorem equal_self {j : Json} {d : ℕ} (hd : j.allAt distinctKeys d) (hn : j.allAt notNan d) :
    j.equal j := by
  induction j using Json.ind generalizing d with
  | null => rfl
  | bool b => simp [equal, equalNumber, number?]
  | int i => simp [equal, equalNumber, number?]
  | float x => exact equal_float hn
  | str s => simp [equal]
  | arr xs ih =>
    have h := equalList_map (f := id) fun x hx =>
      ih x hx ((allAt_arr.mp hd).2 x hx) ((allAt_arr.mp hn).2 x hx)
    rwa [List.map_id] at h
  | obj kvs ih =>
    obtain ⟨hkeys, hd⟩ := allAt_obj.mp hd
    refine equal_obj (f := id) (by simpa [distinctKeys] using hkeys) (by simp) fun kv hkv => ?_
    exact ih kv hkv (hd kv hkv) ((allAt_obj.mp hn).2 kv hkv)

end Json

end Lib
