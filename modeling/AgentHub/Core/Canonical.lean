import AgentHub.Transcript.Payload

/-!
# Canonical texts

The canonical text of a JSON value is compact and has sorted keys. It determines the value up to the
order of members, and its SHA-256 digest stands for the value elsewhere.

## Main definitions

* `canonicalJson`, `canonicalJsonHash`: canonical texts and their digests
* `UuidReader`: the readers of identities

## Main results

* `sorted_eq_of_canonicalJson`: a canonical text determines its value
-/

namespace AgentHub.Canonical

open Lib Transcript

/-! ## Digests -/

/-- `hashlib.sha256(text.encode("utf-8")).hexdigest()` -/
structure Sha256 where
  hexdigest : Text → Text

/-- A digest of the right form. -/
def zeroDigest : Sha256 := ⟨fun _ => List.replicate 64 (.scalar '0')⟩

/-- Members under given names. -/
def named (kvs : List (String × Json)) : JsonObject := kvs.map fun kv => (Text.ofString kv.1, kv.2)

/-- `canonical_json`, of values that can be written. -/
def canonicalJson (value : Json) : Text := value.sorted.render compact

section Identities

variable (sha256 : Sha256)

/-- `canonical_json_hash` -/
def canonicalJsonHash (value : Json) : Text := sha256.hexdigest (canonicalJson value)

end Identities

/-- A value that can be written, at every depth. -/
def Readable (j : Json) : Prop := ∀ d, j.allAt Json.readable d

theorem readable_sorted {j : Json} (h : Readable j) : Readable j.sorted := by
  intro d
  refine (Json.allAt_sorted (fun _ _ => rfl) fun e kvs => ?_).mpr (h d)
  rw [Json.readable, Json.readable, ← Json.distinctKeys_sortMembers]
  rfl

/-- **Equal canonical texts are texts of the same value.** -/
theorem sorted_eq_of_canonicalJson {j k : Json} (hj : Readable j) (hk : Readable k)
    (h : canonicalJson j = canonicalJson k) : j.sorted = k.sorted :=
  Json.render_injective (readable_sorted hj 0) (readable_sorted hk 0) h

theorem readable_str (s : Text) : Readable (.str s) := fun _ => rfl

/-! ## Identities -/

/-- `UUID(str(value))` of the standard library. -/
structure UuidReader where
  read : Json → Option Uuid

/-- The reader of the canonical form only. -/
def canonicalUuids : UuidReader where
  read value := (decodeUuid value "").toOption

end AgentHub.Canonical
