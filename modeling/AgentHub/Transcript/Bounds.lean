import AgentHub.Lib.JsonText
import AgentHub.Transcript.Payload

/-!
# What the limits say about arguments and payloads

The copy of tool arguments and the walk over a payload count nodes while they look at each value.
Here both are said in terms of the values: which condition every value meets, and how many nodes
there are.

## Main definitions

* `argumentsOk`: the condition on each value of copied arguments
* `ArgumentsOk`: arguments the copy gives back unchanged

## Main results

* `normalizeArguments_ok`: copied arguments are within their bounds
-/

namespace AgentHub.Transcript

open Lib

/-! ## Arguments -/

/-- The condition on every value of copied arguments. -/
def argumentsOk (depth : ℕ) (j : Json) : Bool :=
  depth ≤ maxArgumentDepth && (argumentFault j).isNone && j.distinctKeys depth &&
    match j with
    | .obj kvs => kvs.all fun kv => (argumentKeyFault kv.1).isNone
    | _ => true

/-- Arguments within their bounds. -/
structure ArgumentsOk (arguments : JsonObject) : Prop where
  values : (Json.obj arguments).allAt argumentsOk 0
  nodes : (Json.obj arguments).nodes ≤ maxArgumentNodes

variable {n m d : ℕ}

theorem countArgument_eq_ok : countArgument n = .ok m ↔ n + 1 ≤ maxArgumentNodes ∧ m = n + 1 := by
  simp only [countArgument, bind_eq_ok, raiseIf_eq_ok, Except.ok.injEq, exists_const]
  exact and_congr (by omega) eq_comm

theorem enterArgument_eq_ok :
    enterArgument d n = .ok m ↔ d ≤ maxArgumentDepth ∧ n + 1 ≤ maxArgumentNodes ∧ m = n + 1 := by
  simp only [enterArgument, bind_eq_ok, countArgument_eq_ok, raiseIf_eq_ok, Except.ok.injEq]
  constructor
  · rintro ⟨a, ⟨hn, rfl⟩, -, hd, rfl⟩
    exact ⟨by omega, hn, rfl⟩
  · rintro ⟨hd, hn, rfl⟩
    exact ⟨_, ⟨hn, rfl⟩, (), by omega, rfl⟩

/-- What the copy leaves behind: values within bounds, and no more nodes than it counted. -/
structure Copied (depth before after : ℕ) (j : Json) : Prop where
  values : j.allAt argumentsOk depth
  counted : before + j.nodes ≤ after
  limit : after ≤ maxArgumentNodes

/-- A value that holds no others is its own condition. -/
theorem copyLeaf_ok {j k : Json} (hleaf : j.nodes = 1)
    (hall : argumentsOk d j → j.allAt argumentsOk d)
    (hobj : d ≤ maxArgumentDepth → argumentFault j = none → argumentsOk d j)
    (h : copyLeaf j d n = .ok (k, m)) : Copied d n m k := by
  simp only [copyLeaf, bind_eq_ok, enterArgument_eq_ok, fault_eq_ok, Except.ok.injEq,
    Prod.mk.injEq] at h
  obtain ⟨_, ⟨hd, hn, rfl⟩, -, hfault, rfl, rfl⟩ := h
  exact ⟨hall (hobj hd hfault), by omega, hn⟩

/-- The members a copy has collected. -/
structure CopiedMembers (depth : ℕ) (kvs : JsonObject) : Prop where
  keys : ∀ kv ∈ kvs, argumentKeyFault kv.1 = none
  values : ∀ kv ∈ kvs, kv.2.allAt argumentsOk depth
  nodup : (kvs.map Prod.fst).Nodup

mutual

theorem copy_ok : ∀ (v : PyValue) {d n m : ℕ} {j : Json}, copy v d n = .ok (j, m) →
    Copied d n m j
  | .none, d, n, m, j, h => by
    refine copyLeaf_ok rfl id ?_ h
    intro hd _
    simp [argumentsOk, argumentFault, Json.distinctKeys, hd]
  | .bool b, d, n, m, j, h => by
    refine copyLeaf_ok rfl id ?_ h
    intro hd _
    simp [argumentsOk, argumentFault, Json.distinctKeys, hd]
  | .int i, d, n, m, j, h => by
    refine copyLeaf_ok rfl id ?_ h
    intro hd hf
    simp [argumentsOk, hf, Json.distinctKeys, hd]
  | .float x, d, n, m, j, h => by
    refine copyLeaf_ok rfl id ?_ h
    intro hd hf
    simp [argumentsOk, hf, Json.distinctKeys, hd]
  | .str s, d, n, m, j, h => by
    refine copyLeaf_ok rfl id ?_ h
    intro hd hf
    simp [argumentsOk, hf, Json.distinctKeys, hd]
  | .list xs, d, n, m, j, h => by
    simp only [copy, bind_eq_ok, enterArgument_eq_ok] at h
    obtain ⟨_, ⟨hd, hn, rfl⟩, ⟨ys, k⟩, hys, h⟩ := h
    obtain ⟨rfl, rfl⟩ := ok_pair_inj h
    obtain ⟨hvalues, hcount, hlimit⟩ := copyList_ok xs hn hys
    refine ⟨Json.allAt_arr.mpr ⟨?_, hvalues⟩, ?_, hlimit⟩
    · simp [argumentsOk, argumentFault, Json.distinctKeys, hd]
    · simp only [Json.nodes]
      omega
  | .dict items, d, n, m, j, h => by
    simp only [copy, bind_eq_ok, enterArgument_eq_ok] at h
    obtain ⟨_, ⟨hd, hn, rfl⟩, ⟨kvs, k⟩, hkvs, h⟩ := h
    obtain ⟨rfl, rfl⟩ := ok_pair_inj h
    obtain ⟨hmembers, hcount, hlimit⟩ :=
      copyItems_ok items hn ⟨by simp, by simp, by simp⟩ hkvs
    refine ⟨Json.allAt_obj.mpr ⟨?_, hmembers.values⟩, ?_, hlimit⟩
    · have hkeys : ∀ kv ∈ kvs, (argumentKeyFault kv.1).isNone := fun kv hkv => by
        rw [hmembers.keys kv hkv]
        rfl
      simpa [argumentsOk, argumentFault, Json.distinctKeys, hd, hmembers.nodup] using hkeys
    · simp only [Json.nodes, Json.nodesOfMembers] at hcount ⊢
      omega
  | .other, d, n, m, j, h => by
    simp [copy, bind_eq_ok] at h

theorem copyList_ok : ∀ (xs : List PyValue) {d n m : ℕ} {ys : List Json}, n ≤ maxArgumentNodes →
    copyList xs d n = .ok (ys, m) →
    (∀ y ∈ ys, y.allAt argumentsOk d) ∧ n + Json.nodesOfList ys ≤ m ∧ m ≤ maxArgumentNodes
  | [], d, n, m, ys, hn, h => by
    obtain ⟨rfl, rfl⟩ := ok_pair_inj h
    exact ⟨by simp, by simp [Json.nodesOfList], hn⟩
  | x :: xs, d, n, m, ys, hn, h => by
    simp only [copyList, bind_eq_ok] at h
    obtain ⟨⟨y, k⟩, hy, ⟨zs, l⟩, hzs, h⟩ := h
    obtain ⟨rfl, rfl⟩ := ok_pair_inj h
    have hx := copy_ok x hy
    obtain ⟨hvalues, hcount, hlimit⟩ := copyList_ok xs hx.limit hzs
    have := hx.counted
    refine ⟨by simpa using ⟨hx.values, hvalues⟩, ?_, hlimit⟩
    simp only [Json.nodesOfList]
    omega

theorem copyItems_ok : ∀ (items : List (PyKey × PyValue)) {d n m : ℕ} {result kvs : JsonObject},
    n ≤ maxArgumentNodes → CopiedMembers d result → copyItems items d n result = .ok (kvs, m) →
    CopiedMembers d kvs ∧ n + Json.nodesOfMembers kvs ≤ m + Json.nodesOfMembers result ∧
      m ≤ maxArgumentNodes
  | [], d, n, m, result, kvs, hn, hr, h => by
    obtain ⟨rfl, rfl⟩ := ok_pair_inj h
    exact ⟨hr, le_rfl, hn⟩
  | (.other, v) :: items, d, n, m, result, kvs, hn, hr, h => by
    simp [copyItems, bind_eq_ok] at h
  | (.str key, v) :: items, d, n, m, result, kvs, hn, hr, h => by
    simp only [copyItems, bind_eq_ok, countArgument_eq_ok, fault_eq_ok] at h
    obtain ⟨_, ⟨hn', rfl⟩, -, hkey, ⟨value, k⟩, hv, h⟩ := h
    have hvalue := copy_ok v hv
    have hset : CopiedMembers d (Json.set result key value) := by
      refine ⟨fun kv hkv => ?_, fun kv hkv => ?_, Json.nodup_set hr.nodup⟩
      · rcases Json.mem_set hkv with rfl | hkv
        · exact hkey
        · exact hr.keys kv hkv
      · rcases Json.mem_set hkv with rfl | hkv
        · exact hvalue.values
        · exact hr.values kv hkv
    obtain ⟨hmembers, hcount, hlimit⟩ := copyItems_ok items hvalue.limit hset h
    have hnodes := Json.nodesOfMembers_set hr.nodup key value
    have := hvalue.counted
    exact ⟨hmembers, by omega, hlimit⟩

end

/-- **Copied arguments are within their bounds.** -/
theorem normalizeArguments_ok {arguments : Arguments} {result : JsonObject}
    (h : normalizeArguments arguments = .ok result) : ArgumentsOk result := by
  simp only [normalizeArguments, bind_eq_ok, enterArgument_eq_ok] at h
  obtain ⟨_, ⟨hd, hn, rfl⟩, ⟨kvs, m⟩, hkvs, h⟩ := h
  obtain rfl : kvs = result := Except.ok.inj h
  have hcopy : copy (.dict arguments) 0 0 = .ok (.obj kvs, m) := by
    simp only [copy, bind_eq_ok, enterArgument_eq_ok]
    exact ⟨1, ⟨hd, hn, rfl⟩, (kvs, m), hkvs, rfl⟩
  obtain ⟨hvalues, hcount, hlimit⟩ := copy_ok _ hcopy
  exact ⟨hvalues, by omega⟩

end AgentHub.Transcript
