import WalaStack.Proof.Supervision.Steps
import WalaStack.Spec.Supervision

/-!
# The drain deadline and the watcher

On shutdown a watcher aborts the root task it watches at once; it knows
nothing of the drain deadline. `settled_step`: from a state that is settled
until a deadline, no root task is aborted before it. `exists_early_abort`:
from every other state in which the signal is up there is a run to an abort
before the deadline. `graceful_drain_iff` is the two together, for the state
in which the signal is raised.
-/

namespace WalaStack.Proof.Supervision

open WalaStack.Rust WalaStack.Impl.Runtime WalaStack.Spec.Supervision WalaStack.Transition

variable {svc : Supervised} {s s' : System} {deadline : Nat}

/-- The states that a system can reach, whatever its service does. -/
abbrev AnyReachable (svc : Supervised) : System → Prop :=
  Reach (System.step svc) Initial fun _ _ => True

/-- Without the signal, no root task is aborted. -/
theorem not_aborted_of_up (h : AnyReachable svc s) (hup : s.kernel.shutdown = false) :
    ∀ k t, .aborted k t ∉ s.watcher.history := by
  refine Reach.invariant (I := fun s => s.kernel.shutdown = false →
    ∀ k t, .aborted k t ∉ s.watcher.history) ?_ ?_ h hup
  · rintro s ⟨now, rfl⟩ - k t
    simp [System.init, Watcher.init]
  · intro s a s' hi _ hs
    rcases System.step_cases hs with ⟨d, rfl, rfl⟩ | ⟨rfl, rfl⟩ | ⟨b, w, rfl, hw, rfl⟩
    · exact hi
    · exact fun hf => by cases hf
    · intro hup
      cases hw <;> simp_all

/-! ## Settled states -/

theorem RestartsAfter.mono {attempt now now' : Nat} {r : JoinResult} (hle : now ≤ now')
    (h : RestartsAfter svc attempt now deadline r) : RestartsAfter svc attempt now' deadline r := by
  cases r with
  | ok | panic =>
    intro ha ns
    have := h ha ns
    omega
  | cancelled => trivial

/-- All aborts so far are late enough, and no early one can come. -/
structure Calm (svc : Supervised) (deadline : Nat) (s : System) : Prop where
  aborted : ∀ k t, .aborted k t ∈ s.watcher.history → deadline ≤ t
  settled : deadline ≤ s.kernel.now ∨ Settled svc deadline s

theorem settled_tick (d : Nat) (h : Settled svc deadline s) :
    Settled svc deadline { s with kernel := { s.kernel with now := s.kernel.now + d } } := by
  unfold Settled at h ⊢
  cases hp : s.watcher.phase with
  | starting | restarting => simp only [hp] at h
  | refused | returned => trivial
  | backingOff u => simpa only [hp] using h
  | watching =>
    cases hr : s.watcher.handle.result with
    | some r =>
      simp only [hp, hr] at h
      exact RestartsAfter.mono (Nat.le_add_right _ _) h
    | none =>
      simp only [hp, hr] at h
      exact ⟨h.1, RestartsAfter.mono (Nat.le_add_right _ _) h.2⟩

/-- A settled watcher stays settled until the deadline, and aborts no root
task. -/
theorem settled_step {w : Watcher} {b : WatcherAction} (h : Settled svc deadline s)
    (hs : s.watcher.Steps svc s.kernel b w) :
    (deadline ≤ s.kernel.now ∨ Settled svc deadline { s with watcher := w }) ∧
      ∀ k t, .aborted k t ∈ w.history → .aborted k t ∈ s.watcher.history := by
  unfold Settled at h
  cases hs with
  | firstStart hp | refuse hp | restart hp | retry hp | giveUp hp => simp only [hp] at h
  | rootExit hp hh | abortRoot hp _ hh => simp [hp, hh] at h
  | placeholderExit hp hh =>
    simp only [hp, hh, true_and] at h
    exact ⟨.inr (by simpa only [Settled, hp] using h), fun _ _ => id⟩
  | joinStopped hp hr ha =>
    simp only [hp, hr] at h
    exact ⟨.inr (h ha _), by simp⟩
  | joinPanicked hp hr hw =>
    simp only [hp, hr] at h
    exact ⟨.inr (h hw _), by simp⟩
  | joinDone | joinFailed => exact ⟨.inr trivial, by simp⟩
  | joinCancelled | leaveHandle | leaveBackoff => exact ⟨.inr trivial, fun _ _ => id⟩
  | wake hp hu =>
    simp only [hp] at h
    exact ⟨.inl (Nat.le_trans h hu), by simp⟩

/-- An abort is logged with the time of the step. -/
theorem aborted_of_steps {w w' : Watcher} {k : Kernel} {b : WatcherAction} (hs : w.Steps svc k b w')
    {j t : Nat} (h : .aborted j t ∈ w'.history) : .aborted j t ∈ w.history ∨ t = k.now := by
  cases hs with
  | abortRoot =>
    simp only [List.mem_append, List.mem_singleton, Entry.aborted.injEq] at h
    exact h.imp_right And.right
  | _ => simp_all

theorem calm_step {a : SystemAction} (hi : Calm svc deadline s) (h : s.step svc a = some s') :
    Calm svc deadline s' := by
  rcases System.step_cases h with ⟨d, rfl, rfl⟩ | ⟨rfl, rfl⟩ | ⟨b, w, rfl, hw, rfl⟩
  · exact ⟨hi.aborted, hi.settled.imp (fun h => Nat.le_trans h (Nat.le_add_right _ _)) (settled_tick d)⟩
  · exact ⟨hi.aborted, hi.settled⟩
  · rcases hi.settled with hnow | hset
    · refine ⟨fun k t hm => ?_, .inl hnow⟩
      rcases aborted_of_steps hw hm with hm | rfl
      · exact hi.aborted k t hm
      · exact hnow
    · obtain ⟨hs, ha⟩ := settled_step hset hw
      exact ⟨fun k t hm => hi.aborted k t (ha k t hm), hs⟩

theorem Calm.noEarlyAbort (h : Calm svc deadline s) : NoEarlyAbort svc deadline s := fun _ _ he =>
  (exec_invariant calm_step h he).aborted

/-! ## Early aborts -/

/-- A run that continues with `a`. -/
theorem exec_watch {b : WatcherAction} {w : Watcher} (hs : s.watcher.Steps svc s.kernel b w)
    (as : List SystemAction) :
    exec (System.step svc) s (.watch b :: as) = exec (System.step svc) { s with watcher := w } as :=
  exec_cons_of (System.step_watch hs) as

/-- An abort before the deadline in some run from `s`. -/
def EarlyAbort (svc : Supervised) (deadline : Nat) (s : System) : Prop :=
  ∃ as s' k t, exec (System.step svc) s as = some s' ∧ .aborted k t ∈ s'.watcher.history ∧ t < deadline

theorem EarlyAbort.watch {b : WatcherAction} {w : Watcher} (hs : s.watcher.Steps svc s.kernel b w)
    (h : EarlyAbort svc deadline { s with watcher := w }) : EarlyAbort svc deadline s := by
  obtain ⟨as, s', k, t, he, hm, ht⟩ := h
  exact ⟨.watch b :: as, s', k, t, (exec_watch hs as).trans he, hm, ht⟩

theorem EarlyAbort.tick {d : Nat}
    (h : EarlyAbort svc deadline { s with kernel := { s.kernel with now := s.kernel.now + d } }) :
    EarlyAbort svc deadline s := by
  obtain ⟨as, s', k, t, he, hm, ht⟩ := h
  exact ⟨.tick d :: as, s', k, t, (exec_cons_of rfl as).trans he, hm, ht⟩

/-- With the signal up, a watched root task is aborted at once. -/
theorem earlyAbort_watching (hd : s.kernel.shutdown = true) (hnow : s.kernel.now < deadline)
    (hp : s.watcher.phase = .watching) (hh : s.watcher.handle = ⟨true, none⟩) :
    EarlyAbort svc deadline s :=
  ⟨[.watch .shutdown], _, s.watcher.attempt, s.kernel.now,
    (exec_watch (.abortRoot hp hd hh) []).trans (exec_nil _), by simp, hnow⟩

theorem earlyAbort_restarting (hd : s.kernel.shutdown = true) (hnow : s.kernel.now < deadline)
    (hp : s.watcher.phase = .restarting) : EarlyAbort svc deadline s :=
  EarlyAbort.watch (.restart hp) (earlyAbort_watching hd hnow rfl rfl)

/-- A backoff that ends before the deadline may end in a restart. -/
theorem earlyAbort_backingOff {u : Nat} (hd : s.kernel.shutdown = true) (hnow : s.kernel.now < deadline)
    (hp : s.watcher.phase = .backingOff u) (hu : u < deadline) : EarlyAbort svc deadline s := by
  refine EarlyAbort.tick (d := u - s.kernel.now) (EarlyAbort.watch (.wake hp ?_) ?_)
  · show u ≤ s.kernel.now + _
    omega
  · exact earlyAbort_restarting hd (by show s.kernel.now + _ < _; omega) rfl

/-- So may an exit that the policy restarts in time. -/
theorem earlyAbort_ended {r : JoinResult} (hd : s.kernel.shutdown = true) (hnow : s.kernel.now < deadline)
    (hp : s.watcher.phase = .watching) (hr : s.watcher.handle.result = some r)
    (h : ¬ RestartsAfter svc s.watcher.attempt s.kernel.now deadline r) : EarlyAbort svc deadline s := by
  cases r with
  | ok =>
    simp only [RestartsAfter, not_forall, Nat.not_le] at h
    obtain ⟨ha, ns, hns⟩ := h
    exact EarlyAbort.watch (.joinStopped hp hr ha) (earlyAbort_backingOff hd hnow rfl hns)
  | panic err =>
    simp only [RestartsAfter, not_forall, Nat.not_le] at h
    obtain ⟨hw, ns, hns⟩ := h
    exact EarlyAbort.watch (.joinPanicked hp hr hw) (earlyAbort_backingOff hd hnow rfl hns)
  | cancelled => exact absurd trivial h

/-- With the signal up, a state that is not settled may see an early abort. -/
theorem exists_early_abort (hd : s.kernel.shutdown = true) (hnow : s.kernel.now < deadline)
    (hh : s.watcher.phase = .starting → s.watcher.handle = ⟨true, none⟩)
    (h : ¬ Settled svc deadline s) : EarlyAbort svc deadline s := by
  unfold Settled at h
  cases hp : s.watcher.phase with
  | starting =>
    exact EarlyAbort.watch (.firstStart hp) (earlyAbort_watching hd hnow rfl (hh hp))
  | restarting => exact earlyAbort_restarting hd hnow hp
  | refused | returned => simp [hp] at h
  | backingOff u =>
    simp only [hp, Nat.not_le] at h
    exact earlyAbort_backingOff hd hnow hp h
  | watching =>
    simp only [hp] at h
    cases hr : s.watcher.handle.result with
    | some r =>
      simp only [hr] at h
      exact earlyAbort_ended hd hnow hp hr h
    | none =>
      simp only [hr, not_and] at h
      cases hb : s.watcher.handle.root with
      | true => exact earlyAbort_watching hd hnow hp (Watcher.handle_eq hb hr)
      | false =>
        exact EarlyAbort.watch (.placeholderExit hp (Watcher.handle_eq hb hr))
          (earlyAbort_ended hd hnow hp rfl (h hb))

/-- A service that has not been started yet has its first handle to come. -/
theorem handle_of_starting (h : AnyReachable svc s) :
    s.watcher.phase = .starting → s.watcher.handle = ⟨true, none⟩ := by
  refine System.watcher_invariant (I := fun w => w.phase = .starting → w.handle = ⟨true, none⟩) ?_ ?_ h
  · rintro s ⟨now, rfl⟩ -
    rfl
  · intro s b w hi _ hw
    cases hw <;> simp_all

/-- When shutdown is signalled in the state `s`, with a drain deadline of `D`,
no root task is aborted within `D`, whatever happens, exactly if `D` is zero
or the watcher is settled for `D`. -/
theorem graceful_drain_iff (h : AnyReachable svc s) (hup : s.kernel.shutdown = false) (D : Nat) :
    NoEarlyAbort svc (s.kernel.now + D) (signalled s) ↔ D = 0 ∨ Settled svc (s.kernel.now + D) s := by
  constructor
  · intro hn
    by_contra hc
    rw [not_or] at hc
    obtain ⟨as, s', k, t, he, hm, ht⟩ := exists_early_abort (s := signalled s) rfl
      (Nat.lt_add_of_pos_right (Nat.pos_of_ne_zero hc.1)) (handle_of_starting (s := s) h) hc.2
    exact absurd (hn as s' he k t hm) (Nat.not_le.mpr ht)
  · intro hd
    refine Calm.noEarlyAbort ⟨fun k t hm => absurd hm (not_aborted_of_up h hup k t), ?_⟩
    exact hd.imp (fun h0 => by rw [h0]; exact Nat.le_refl _) id

/-- A `OneShot` service whose root task runs. -/
def http : Supervised := ⟨"http", .oneShot⟩

/-- The state in which it has been started. -/
def serving : System where
  kernel := ⟨0, false⟩
  watcher :=
    { phase := .watching
      attempt := 1
      handle := ⟨true, none⟩
      history := [.called 1 0, .resolved 1 (.ok ()), .published (.started "http" 1)] }

/-- The state in which its root task has ended, and the watcher with it. -/
def served : System where
  kernel := ⟨0, false⟩
  watcher :=
    { phase := .returned
      attempt := 1
      handle := ⟨true, some .ok⟩
      history := serving.watcher.history ++ [.exited 1 .ok 0, .published (.stopped "http")] }

theorem reachable_serving : AnyReachable http serving :=
  Reach.step (a := SystemAction.watch (.started (.ok ()))) (.init ⟨0, rfl⟩) trivial rfl

theorem reachable_served : AnyReachable http served :=
  Reach.step (a := SystemAction.watch (.joined 0))
    (Reach.step (a := SystemAction.watch (.exits .ok)) reachable_serving trivial rfl) trivial rfl

/-- With five seconds to drain, the running root task is aborted at once. -/
theorem early_abort_serving : ¬ NoEarlyAbort http (serving.kernel.now + 5000000000) (signalled serving) := by
  intro h
  have := h [.watch .shutdown] _ rfl 1 0 (List.mem_of_getLast? rfl)
  exact absurd this (by decide)

theorem graceful_drain_served : NoEarlyAbort http (served.kernel.now + 5000000000) (signalled served) :=
  (graceful_drain_iff reachable_served rfl 5000000000).mpr (.inr trivial)

end WalaStack.Proof.Supervision
