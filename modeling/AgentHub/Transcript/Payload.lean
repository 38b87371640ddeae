import AgentHub.Transcript.Messages

/-!
# Values in payloads

Payloads are compact JSON with sorted keys. Identities in them are UUIDs in canonical form, and the
fields of an object do not depend on the order of its members.

## Main definitions

* `Uuid`, `Uuid.text`, `decodeUuid`: identities
* `compact`: the style of stored texts
* `hasKeys`, `field`: the fields of an object

## Main results

* `scanHexDigits_hexText`: digits are read back
* `get?_sortedObject`: the fields of a sorted object
-/

namespace AgentHub.Transcript

open Lib

/-! ## Identities -/

/-- A UUID. -/
abbrev Uuid := Fin (2 ^ 128)

instance Uuid.neZero : NeZero (2 ^ 128) := ⟨by norm_num⟩

/-- The last `k` hexadecimal digits of a number. -/
def hexDigits : ℕ → ℕ → List ℕ
  | 0, _ => []
  | k + 1, n => hexDigits k (n / 16) ++ [n % 16]

/-- The number of hexadecimal digits. -/
def ofHexDigits (ds : List ℕ) : ℕ := ds.foldl (fun n d => 16 * n + d) 0

def hexText (k n : ℕ) : Text := (hexDigits k n).map hexPoint

/-- `str(uuid)`: groups of 8, 4, 4, 4 and 12 digits. -/
def Uuid.text (u : Uuid) : Text :=
  hexText 8 (u / 16 ^ 24) ++ .scalar '-' :: (hexText 4 (u / 16 ^ 20) ++ .scalar '-' ::
    (hexText 4 (u / 16 ^ 16) ++ .scalar '-' :: (hexText 4 (u / 16 ^ 12) ++ .scalar '-' ::
      hexText 12 u)))

/-- A lower-case hexadecimal digit. -/
def lowerHex? : CodePoint → Option ℕ
  | .scalar c =>
    if 48 ≤ c.toNat ∧ c.toNat < 58 then some (c.toNat - 48)
    else if 97 ≤ c.toNat ∧ c.toNat < 103 then some (c.toNat - 87)
    else none
  | .surrogate _ => none

/-- `k` digits at the front of a text. -/
def scanHexDigits : ℕ → Text → Option (List ℕ × Text)
  | 0, s => some ([], s)
  | _ + 1, [] => none
  | k + 1, c :: s => do
    let d ← lowerHex? c
    let (ds, s) ← scanHexDigits k s
    some (d :: ds, s)

/-- The digits of a canonical UUID: groups of the given sizes with dashes between them. -/
def scanUuid : List ℕ → Text → Option (List ℕ)
  | [], s => if s = [] then some [] else none
  | [k], s => (scanHexDigits k s).bind fun (ds, s) => if s = [] then some ds else none
  | k :: ks, s =>
    (scanHexDigits k s).bind fun (ds, s) =>
      match s with
      | .scalar '-' :: s => (scanUuid ks s).map (ds ++ ·)
      | _ => none

/-- `_decode_uuid` -/
def decodeUuid (value : Json) (field : String) : Except String Uuid :=
  let invalid := "payload " ++ field ++ " must be a canonical lowercase UUID"
  match value with
  | .str s =>
    match scanUuid [8, 4, 4, 4, 12] s with
    | none => .error invalid
    | some ds =>
      if h : ofHexDigits ds < 2 ^ 128 then
        if Uuid.text ⟨ofHexDigits ds, h⟩ ≠ s then .error invalid else .ok ⟨ofHexDigits ds, h⟩
      else .error invalid
  | _ => .error invalid

theorem ofHexDigits_append (ds : List ℕ) (d : ℕ) :
    ofHexDigits (ds ++ [d]) = 16 * ofHexDigits ds + d := by
  simp [ofHexDigits]

theorem ofHexDigits_hexDigits (k n : ℕ) : ofHexDigits (hexDigits k n) = n % 16 ^ k := by
  induction k generalizing n with
  | zero => simp [hexDigits, ofHexDigits, Nat.mod_one]
  | succ k ih => rw [hexDigits, ofHexDigits_append, ih, pow_succ', Nat.mod_mul, Nat.add_comm]

theorem length_hexDigits (k n : ℕ) : (hexDigits k n).length = k := by
  induction k generalizing n with
  | zero => rfl
  | succ k ih => simp [hexDigits, ih]

theorem hexDigits_lt {k n d : ℕ} (h : d ∈ hexDigits k n) : d < 16 := by
  induction k generalizing n with
  | zero => simp [hexDigits] at h
  | succ k ih =>
    rcases List.mem_append.mp h with h | h
    · exact ih h
    · rw [List.mem_singleton.mp h]
      exact Nat.mod_lt _ (by norm_num)

theorem lowerHex?_hexPoint : ∀ d < 16, lowerHex? (hexPoint d) = some d := by decide

theorem scanHexDigits_hexText (k n : ℕ) (rest : Text) :
    scanHexDigits k (hexText k n ++ rest) = some (hexDigits k n, rest) := by
  have hscan : ∀ ds : List ℕ, (∀ d ∈ ds, d < 16) →
      scanHexDigits ds.length (ds.map hexPoint ++ rest) = some (ds, rest) := by
    intro ds hds
    induction ds with
    | nil => rfl
    | cons d ds ih =>
      have hd := lowerHex?_hexPoint d (hds d (by simp))
      simp [scanHexDigits, hd, ih fun e he => hds e (by simp [he])]
  have hk := hscan (hexDigits k n) fun d hd => hexDigits_lt hd
  rwa [length_hexDigits] at hk

/-! ## Payloads -/

/-- `json.dumps` with `sort_keys`, `separators=(",", ":")` and `allow_nan` off. -/
def compact : Style := ⟨true, 0, 0⟩

/-- The keys are the required ones, and besides them at most the optional ones. -/
def hasKeys (required optional : List String) (kvs : JsonObject) : Bool :=
  required.all (Text.ofString · ∈ kvs.map Prod.fst) &&
    kvs.all fun kv => kv.1 ∈ (required ++ optional).map Text.ofString

/-- The value of a key that has been checked to be there. -/
def field (kvs : JsonObject) (key : String) : Json :=
  (Json.get? kvs (Text.ofString key)).getD .null

/-- An object with all keys in order. -/
def sortedObject (arguments : JsonObject) : JsonObject :=
  Json.sortMembers (arguments.map fun kv => (kv.1, kv.2.sorted))

section SortedObject

variable {kvs : JsonObject}

theorem mem_keys_sortedObject {k : Text} :
    k ∈ (sortedObject kvs).map Prod.fst ↔ k ∈ kvs.map Prod.fst := by
  have hperm := (Json.sortMembers_perm (kvs.map fun kv => (kv.1, kv.2.sorted))).map Prod.fst
  rw [List.map_map] at hperm
  exact hperm.mem_iff

/-- The required and the optional keys do not depend on the order. -/
theorem hasKeys_sortedObject (required optional : List String) :
    hasKeys required optional (sortedObject kvs) = hasKeys required optional kvs := by
  have hall : ∀ (l : JsonObject) (keys : List Text),
      (l.all fun kv => kv.1 ∈ keys) ↔ ∀ k ∈ l.map Prod.fst, k ∈ keys := by
    simp
  rw [Bool.eq_iff_iff]
  simp only [hasKeys, Bool.and_eq_true, hall, mem_keys_sortedObject]

/-- A member of an object, in the sorted object. -/
theorem get?_sortedObject (h : (kvs.map Prod.fst).Nodup) {k : Text} {v : Json}
    (hmem : (k, v) ∈ kvs) : Json.get? (sortedObject kvs) k = some v.sorted := by
  rw [sortedObject, Json.get?_sorted h, (Json.get?_eq_some_iff h).mpr hmem, Option.map_some]

theorem field_sortedObject (h : (kvs.map Prod.fst).Nodup) {key : String} {v : Json}
    (hmem : (Text.ofString key, v) ∈ kvs) : field (sortedObject kvs) key = v.sorted := by
  rw [field, get?_sortedObject h hmem, Option.getD_some]

end SortedObject

end AgentHub.Transcript
