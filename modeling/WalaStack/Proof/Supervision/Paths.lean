import WalaStack.Proof.Supervision.Steps
import WalaStack.Proof.Supervision.History

/-!
# Paths through the attempts of a service

What a service does decides how far its watcher can get. `InAttempt n` are
the states without shutdown in the `n`th attempt; `exists_inAttempt` reaches
it where the policy restarts the attempts before (`Script.restartedBefore`).
-/

namespace WalaStack.Proof.Supervision

open WalaStack.Rust WalaStack.Impl.Runtime WalaStack.Spec.Supervision WalaStack.Transition

variable {svc : Supervised} {sc : Script} {n : Nat} {s : System}

/-- A policy's answer is the same for the attempt that a `u32` counts. -/
theorem permits_min (p : RestartPolicy) (k : Nat) (b : Bool) :
    p.permitsRestartAfter (min k u32Max) b = p.permitsRestartAfter k b := by
  match p with
  | .oneShot | .always _ => rfl
  | .onFailure max backoff =>
    have := max.le_max
    have hlt : min k u32Max < max.val ↔ k < max.val := by omega
    simp only [RestartPolicy.permitsRestartAfter, hlt]

theorem reach_watch {b : WatcherAction} {w : Watcher} (h : Reachable svc sc s)
    (hs : s.watcher.Steps svc s.kernel b w) (hok : sc.allows s (.watch b)) :
    Reachable svc sc { s with watcher := w } :=
  h.step hok (System.step_watch hs)

/-- A reachable state without shutdown, in the `n`th attempt. -/
structure InAttempt (svc : Supervised) (sc : Script) (n : Nat) (s : System) : Prop where
  reach : Reachable svc sc s
  up : s.kernel.shutdown = false
  attempt_eq : s.watcher.attempt = min n u32Max
  calls_eq : calls s.watcher.history = n

/-- The first attempt, once it has started. -/
theorem exists_first (hst : sc.starts 1 = .ok ()) :
    ∃ s, InAttempt svc sc 1 s ∧ s.watcher.phase = .watching ∧ s.watcher.handle = ⟨true, none⟩ := by
  have h₀ : Reachable svc sc (System.init ⟨0, false⟩) := .init ⟨0, rfl⟩
  have h₁ := reach_watch h₀ (.firstStart rfl)
    (by simpa [Script.allows, System.init, Watcher.init] using hst.symm)
  exact ⟨_, ⟨h₁, rfl, rfl, by simp [System.init, Watcher.init]⟩, rfl, rfl⟩

/-- A root task that the policy restarts. -/
theorem InAttempt.exit (h : InAttempt svc sc n s) (hp : s.watcher.phase = .watching)
    (hh : s.watcher.handle = ⟨true, none⟩) {r : JoinResult} (he : sc.exits n = some r)
    (hr : restartsAfter svc.policy n r = true) :
    ∃ s', InAttempt svc sc (n + 1) s' ∧ s'.watcher.phase = .restarting := by
  obtain ⟨hreach, hup, ha, hc⟩ := h
  have h₁ := reach_watch hreach (.rootExit (r := r) hp hh) fun _ => by rw [hc, he]
  -- However the policy comes to the restart, the watcher is in the backoff now.
  have h₂ : ∃ s₂, Reachable svc sc s₂ ∧ s₂.kernel = s.kernel ∧
      s₂.watcher.phase = .backingOff (s.kernel.now + (svc.policy.backoffForAttempt 0 s.watcher.attempt).nanos) ∧
      s₂.watcher.attempt = s.watcher.attempt ∧ calls s₂.watcher.history = n := by
    cases r with
    | ok => exact ⟨_, reach_watch (b := .joined 0) h₁ (.joinStopped hp rfl hr) trivial, rfl, rfl, rfl, by simp [hc]⟩
    | panic err =>
      have hperm : svc.policy.permitsRestartAfter s.watcher.attempt true = true := by
        rw [ha, permits_min]
        exact hr
      exact ⟨_, reach_watch (b := .joined 0) h₁ (.joinPanicked hp rfl hperm) trivial, rfl, rfl, rfl, by simp [hc]⟩
    | cancelled => cases hr
  obtain ⟨s₂, hr₂, hk₂, hp₂, ha₂, hc₂⟩ := h₂
  have h₃ := hr₂.step (a := SystemAction.tick (svc.policy.backoffForAttempt 0 s.watcher.attempt).nanos)
    trivial rfl
  have h₄ := reach_watch h₃ (.wake hp₂ (by rw [hk₂])) trivial
  refine ⟨_, ⟨h₄, by rw [hk₂]; exact hup, ?_, by simp [hc₂]⟩, rfl⟩
  simp only [ha₂, ha, saturatingAdd]
  omega

theorem InAttempt.start (h : InAttempt svc sc n s) (hp : s.watcher.phase = .restarting)
    (hst : sc.starts n = .ok ()) :
    ∃ s', InAttempt svc sc n s' ∧ s'.watcher.phase = .watching ∧ s'.watcher.handle = ⟨true, none⟩ := by
  obtain ⟨hr, hup, ha, hc⟩ := h
  have h₁ := reach_watch hr (.restart hp) (by simp [Script.allows, hc, hst])
  exact ⟨_, ⟨h₁, hup, ha, by simp [hc]⟩, rfl, rfl⟩

/-- The attempts that the policy leads to are reached. -/
theorem exists_inAttempt {k : Nat} (hb : sc.restartedBefore svc.policy k) :
    ∀ n, 1 ≤ n → n < k →
      ∃ s, InAttempt svc sc n s ∧ s.watcher.phase = .watching ∧ s.watcher.handle = ⟨true, none⟩ := by
  intro n hn
  induction n, hn using Nat.le_induction with
  | base => exact fun h1 => exists_first (hb 1 (Nat.le_refl 1) h1).1
  | succ n hn ih =>
    intro hlt
    obtain ⟨s, hs, hw, hh⟩ := ih (by omega)
    obtain ⟨-, r, he, hrr⟩ := hb n hn (by omega)
    obtain ⟨s', hs', hp⟩ := hs.exit hw hh he hrr
    exact hs'.start hp (hb (n + 1) (by omega) hlt).1

/-- The restart is made that follows those attempts. -/
theorem exists_restarting {k : Nat} (h2 : 2 ≤ k) (hb : sc.restartedBefore svc.policy k) :
    ∃ s, InAttempt svc sc k s ∧ s.watcher.phase = .restarting := by
  obtain ⟨s, hs, hw, hh⟩ := exists_inAttempt hb (k - 1) (by omega) (by omega)
  obtain ⟨-, r, he, hr⟩ := hb (k - 1) (by omega) (by omega)
  obtain ⟨s', hs', hp⟩ := hs.exit hw hh he hr
  rw [show k - 1 + 1 = k by omega] at hs'
  exact ⟨s', hs', hp⟩

end WalaStack.Proof.Supervision
