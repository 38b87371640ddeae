import AgentHub.Lib.Pairing

/-!
# Sequences of checks

Checks that return or raise, one after the other. A sequence returns exactly when each of its
checks does; the rules here take it apart without unfolding it.

## Main definitions

* `raiseIf`: raise where a condition holds
* `fault`: raise a fault, if there is one

## Main results

* `bind_eq_ok`, `bind_ne_error`: a sequence that returns, and one that does not raise an error
* `raiseIf_eq_ok`, `fault_eq_ok`: checks that return
* `mapM_eq_ok_iff`: a list of computations that all return
* `foldlM_invariant`: what a loop keeps
-/

namespace Lib

variable {ε α β : Type}

/-- Raise `e` where `p` holds. -/
def raiseIf (p : Prop) [Decidable p] (e : ε) : Except ε Unit := if p then .error e else .ok ()

/-- Raise a fault, made into an error by `f`. -/
def fault {φ : Type} (f : φ → ε) : Option φ → Except ε Unit
  | some x => .error (f x)
  | none => .ok ()

variable {e : ε} {x : Except ε α} {f : α → Except ε β} {l : List α} {r : List β}

@[simp] theorem raiseIf_eq_ok {p : Prop} [Decidable p] {u : Unit} : raiseIf p e = .ok u ↔ ¬ p := by
  by_cases h : p <;> simp [raiseIf, h]

@[simp] theorem raiseIf_false : raiseIf False e = .ok () := rfl

@[simp] theorem fault_eq_ok {φ : Type} {f : φ → ε} {x : Option φ} {u : Unit} :
    fault f x = .ok u ↔ x = none := by
  cases x <;> simp [fault]

/-- **A sequence that returns** is made of parts that return. -/
theorem bind_eq_ok {b : β} : (x >>= f) = .ok b ↔ ∃ a, x = .ok a ∧ f a = .ok b := by
  cases x with
  | error e => simp [bind, Except.bind]
  | ok a => simp [bind, Except.bind]

/-- Results that are pairs agree part by part. -/
theorem ok_pair_inj {a a' : α} {b b' : β} (h : (.ok (a, b) : Except ε (α × β)) = .ok (a', b')) :
    a = a' ∧ b = b' :=
  Prod.mk.inj (Except.ok.inj h)

theorem some_pair_inj {a a' : α} {b b' : β} (h : some (a, b) = some (a', b')) :
    a = a' ∧ b = b' :=
  Prod.mk.inj (Option.some.inj h)

/-- **A sequence does not raise an error** that no part of it raises. -/
theorem bind_ne_error (hx : x ≠ .error e) (hf : ∀ a, x = .ok a → f a ≠ .error e) :
    (x >>= f) ≠ .error e := by
  cases x with
  | error e' => exact fun h => hx (congrArg Except.error (Except.error.inj h))
  | ok a => exact hf a rfl

theorem raiseIf_ne_error {p : Prop} [Decidable p] {e' : ε} (h : p → e' ≠ e) :
    (raiseIf p e' : Except ε Unit) ≠ .error e := by
  by_cases hp : p
  · simpa [raiseIf, hp] using h hp
  · simp [raiseIf, hp]

@[simp] theorem ok_bind (a : α) (f : α → Except ε β) : ((.ok a : Except ε α) >>= f) = f a := rfl

@[simp] theorem error_bind (e : ε) (f : α → Except ε β) :
    ((.error e : Except ε α) >>= f) = .error e := rfl

@[simp] theorem pure_eq_ok (a : α) : (pure a : Except ε α) = .ok a := rfl

theorem map_eq_ok {f : α → β} {b : β} (h : x.map f = .ok b) : ∃ a, x = .ok a ∧ f a = b := by
  cases x with
  | ok a => exact ⟨a, rfl, Except.ok.inj h⟩
  | error e => cases h

theorem toOption_eq_some {a : α} (h : x.toOption = some a) : x = .ok a := by
  cases x with
  | error e => cases h
  | ok b => rw [Option.some.inj h]

/-- What a computation returned is its result. -/
theorem exists_of_isSome (h : x.toOption.isSome = true) : ∃ a, x = .ok a := by
  cases x with
  | error e => cases h
  | ok a => exact ⟨a, rfl⟩

/-- A list is mapped element by element where no element raises. -/
theorem mapM_eq_ok {g : α → β} (h : ∀ a ∈ l, f a = .ok (g a)) : l.mapM f = .ok (l.map g) := by
  induction l with
  | nil => rfl
  | cons a l ih =>
    rw [List.mapM_cons, h a (by simp), ok_bind, ih fun b hb => h b (by simp [hb])]
    rfl

/-- **A list of computations that all return**, with their results. -/
theorem mapM_eq_ok_iff : l.mapM f = .ok r ↔ List.Forall₂ (fun a b => f a = .ok b) l r := by
  induction l generalizing r with
  | nil =>
    rw [List.mapM_nil, pure_eq_ok, Except.ok.injEq, List.forall₂_nil_left_iff]
    exact eq_comm
  | cons a l ih =>
    rw [List.mapM_cons, bind_eq_ok, List.forall₂_cons_left_iff]
    refine exists_congr fun b => ?_
    rw [bind_eq_ok]
    constructor
    · rintro ⟨hb, bs, hbs, hr⟩
      exact ⟨bs, hb, ih.mp hbs, (Except.ok.inj hr).symm⟩
    · rintro ⟨bs, hb, hbs, rfl⟩
      exact ⟨hb, bs, ih.mpr hbs, rfl⟩

theorem exists_of_mem_mapM (h : l.mapM f = .ok r) {b : β} (hb : b ∈ r) : ∃ a ∈ l, f a = .ok b :=
  Pairing.exists_left (mapM_eq_ok_iff.mp h) hb

/-- The same for computations that have a result or none. -/
theorem mapM_eq_some_iff {f : α → Option β} :
    l.mapM f = some r ↔ List.Forall₂ (fun a b => f a = some b) l r := by
  induction l generalizing r with
  | nil =>
    rw [List.mapM_nil, List.forall₂_nil_left_iff]
    exact Option.some_inj.trans eq_comm
  | cons a l ih =>
    rw [List.mapM_cons, Option.bind_eq_bind, Option.bind_eq_some_iff, List.forall₂_cons_left_iff]
    refine exists_congr fun b => ?_
    rw [Option.bind_eq_bind, Option.bind_eq_some_iff]
    constructor
    · rintro ⟨hb, bs, hbs, hr⟩
      exact ⟨bs, hb, ih.mp hbs, (Option.some.inj hr).symm⟩
    · rintro ⟨bs, hb, hbs, rfl⟩
      exact ⟨hb, bs, ih.mpr hbs, rfl⟩

theorem mapM_ne_error (h : ∀ a, f a ≠ .error e) : l.mapM f ≠ .error e := by
  induction l with
  | nil => simp
  | cons a l ih =>
    rw [List.mapM_cons]
    exact bind_ne_error (h a) fun _ _ => bind_ne_error ih fun _ _ => by simp

/-- **What every step keeps**, a loop that may raise keeps. -/
theorem foldlM_invariant {f : α → β → Except ε α} {P : α → Prop}
    (hstep : ∀ a b a', f a b = .ok a' → P a → P a') {l : List β} {a a' : α}
    (h : l.foldlM f a = .ok a') (ha : P a) : P a' := by
  induction l generalizing a with
  | nil => exact Except.ok.inj h ▸ ha
  | cons b l ih =>
    rw [List.foldlM_cons, bind_eq_ok] at h
    obtain ⟨next, hnext, hrest⟩ := h
    exact ih hrest (hstep a b next hnext ha)

/-- The same for encoded elements with their positions, which the results do not depend on. -/
theorem mapM_zipIdx_eq_ok {γ : Type} {f : β → ℕ → Except ε γ} {encode : α → β} {g : α → γ}
    (h : ∀ a ∈ l, ∀ i, f (encode a) i = .ok (g a)) (n : ℕ) :
    (((l.map encode).zipIdx n).mapM fun p => f p.1 p.2) = .ok (l.map g) := by
  induction l generalizing n with
  | nil => rfl
  | cons a l ih =>
    rw [List.map_cons, List.zipIdx_cons, List.mapM_cons, h a (by simp), ok_bind,
      ih fun b hb => h b (by simp [hb])]
    rfl

end Lib
