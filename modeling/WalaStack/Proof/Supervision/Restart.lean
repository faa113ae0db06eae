import WalaStack.Proof.Supervision.Paths

/-!
# The restart promise

`ServiceFailed` with `will_restart = true` announces another call of
`Service::start`. `inv_of_reachable`: while the service's restarts do not
fail under an `OnFailure` budget (`Script.spares`), every watcher that ends
without shutdown has made the restarts it announced, and has last announced
a final failure if its service ended in failure. A restart that fails there
leaves the watcher on its placeholder, whose normal exit ends it
(`AtAttempt.placeholder_joined`). Hence `restart_promise_iff`.
-/

namespace WalaStack.Proof.Supervision

open WalaStack.Rust WalaStack.Impl.Runtime WalaStack.Spec.Supervision WalaStack.Transition

variable {svc : Supervised} {sc : Script}

/-- Under `OnFailure`, attempts before the `n`th started and panicked. -/
def Past (svc : Supervised) (sc : Script) (n : Nat) : Prop :=
  ∀ max backoff, svc.policy = .onFailure max backoff → sc.panicsBefore n

/-- Whether the last outcome is a failure. -/
def lastFailure (h : List Entry) : Option Bool := (failures h).getLast?

/-- The last event announces no restart. -/
def FinalFailure (svc : Supervised) (h : List Entry) : Prop :=
  ∃ err k, (events h).getLast? = some (.failed svc.name err k false)

/-- What holds of a watcher at each await, when restarts do not fail. -/
def PhaseInv (svc : Supervised) (sc : Script) (down : Bool) (w : Watcher) : Prop :=
  match w.phase with
  | .starting => Kept w.history ∧ calls w.history = 1 ∧ w.handle = ⟨true, none⟩
  | .refused => True
  | .watching =>
    (w.handle.root = true ∧ Kept w.history ∧ Past svc sc (calls w.history) ∧
      sc.starts (calls w.history) = .ok () ∧
      ∀ r, w.handle.result = some r → sc.exits (calls w.history) = some r ∧
        lastFailure w.history = failure? (.exited 0 r 0)) ∨
    (w.handle.root = false ∧ Owes w.attempt w.history ∧ svc.policy.isAlways = true ∧
      ∀ r, w.handle.result = some r → r = .ok)
  | .backingOff _ => Owes w.attempt w.history ∧ Past svc sc (calls w.history + 1)
  | .restarting => Kept w.history ∧ 2 ≤ calls w.history ∧ Past svc sc (calls w.history)
  | .returned => down = true ∨ (Kept w.history ∧ (FailedLast w.history → FinalFailure svc w.history))

structure Inv (svc : Supervised) (sc : Script) (s : System) : Prop where
  calls_pos : 1 ≤ calls s.watcher.history
  attempt_eq : s.watcher.attempt = min (calls s.watcher.history) u32Max
  phase : PhaseInv svc sc s.kernel.shutdown s.watcher

theorem inv_init {s : System} (h : Initial s) : Inv svc sc s := by
  obtain ⟨now, rfl⟩ := h
  refine ⟨by simp [System.init, Watcher.init], by simp [System.init, Watcher.init], ?_⟩
  exact ⟨kept_called 1 now, by simp [System.init, Watcher.init], rfl⟩

/-- The path to the next attempt. -/
theorem Past.succ {n : Nat} (h : Past svc sc n) (hs : sc.starts n = .ok ()) {err : String}
    (he : sc.exits n = some (.panic err)) : Past svc sc (n + 1) := by
  intro max backoff hp j hj hlt
  rcases Nat.lt_succ_iff_lt_or_eq.mp hlt with hlt | rfl
  · exact h max backoff hp j hj hlt
  · exact ⟨hs, err, he⟩

theorem past_of_isAlways (h : svc.policy.isAlways = true) (n : Nat) : Past svc sc n := by
  intro max backoff hp
  rw [hp] at h
  cases h

/-- A restart that fails while the policy counts on another one is under
`Always`. -/
theorem isAlways_of_retry (hsp : sc.spares svc.policy) {n k : Nat} (hk : k = min n u32Max) (hn : 2 ≤ n)
    (hpast : Past svc sc n) {e : String} (hs : sc.starts n = .error e)
    (hr : svc.policy.permitsRestartAfter k true = true) : svc.policy.isAlways = true := by
  match hp : svc.policy with
  | .oneShot => rw [hp] at hr; cases hr
  | .always _ => rfl
  | .onFailure max backoff =>
    rw [hp] at hr hsp
    have hlt : k < max.val := by simpa [RestartPolicy.permitsRestartAfter] using hr
    have := max.le_max
    exact absurd ⟨n, hn, by omega, hpast max backoff hp, e, hs⟩ hsp

theorem failedLast_iff {h : List Entry} : FailedLast h ↔ lastFailure h = some true := Iff.rfl

section

variable {w w' : Watcher} {k : Kernel} {a : WatcherAction}

/-- A step of the watcher keeps the count of its attempts. -/
theorem steps_attempt (hs : w.Steps svc k a w') (hc : 1 ≤ calls w.history)
    (ha : w.attempt = min (calls w.history) u32Max) :
    1 ≤ calls w'.history ∧ w'.attempt = min (calls w'.history) u32Max := by
  cases hs with
  | wake hp hu =>
    refine ⟨by simp, ?_⟩
    simp only [calls_append, calls_called, calls_nil, saturatingAdd, ha]
    omega
  | _ => simp_all

/-- A step of the watcher keeps what holds at its awaits. -/
theorem steps_phase (hsp : sc.spares svc.policy) (hs : w.Steps svc k a w')
    (hok : sc.allows ⟨k, w⟩ (.watch a)) (ha : w.attempt = min (calls w.history) u32Max)
    (hc : 1 ≤ calls w.history) (hi : PhaseInv svc sc k.shutdown w) : PhaseInv svc sc k.shutdown w' := by
  cases hs with
  | firstStart hp =>
    simp only [PhaseInv, hp] at hi ⊢
    obtain ⟨hk, h1, hh⟩ := hi
    have hst : sc.starts 1 = .ok () := by simpa [Script.allows, h1] using hok.symm
    refine .inl ⟨by simp [hh], ?_, ?_, by simp [h1, hst], by simp [hh]⟩
    · rw [List.append_cons]
      exact (hk.concat (not_announces_resolved _ _)).concat (not_announces_started _ _)
    · intro max backoff _ j hj hlt
      simp only [calls_append, calls_resolved, calls_published, calls_nil, h1] at hlt
      omega
  | refuse hp => trivial
  | restart hp =>
    simp only [PhaseInv, hp] at hi ⊢
    obtain ⟨hk, h2, hpast⟩ := hi
    have hst : sc.starts (calls w.history) = .ok () := by simpa [Script.allows] using hok.symm
    refine .inl ⟨trivial, ?_, by simpa using hpast, by simpa using hst, by simp⟩
    rw [List.append_cons]
    exact (hk.concat (not_announces_resolved _ _)).concat (not_announces_started _ _)
  | @retry e hp hr =>
    simp only [PhaseInv, hp] at hi ⊢
    obtain ⟨hk, h2, hpast⟩ := hi
    have hst : sc.starts (calls w.history) = .error e := by simpa [Script.allows] using hok.symm
    refine .inr ⟨trivial, ?_, isAlways_of_retry hsp ha h2 hpast hst hr, by simp⟩
    rw [List.append_cons]
    exact (hk.concat (not_announces_resolved _ _)).announce _ _
  | @giveUp e hp hr =>
    simp only [PhaseInv, hp] at hi ⊢
    obtain ⟨hk, h2, hpast⟩ := hi
    refine .inr ⟨?_, fun _ => ⟨e, w.attempt, by simp⟩⟩
    rw [List.append_cons]
    exact (hk.concat (not_announces_resolved _ _)).concat (not_announces_failed _ _ _)
  | @rootExit r hp hh =>
    simp only [PhaseInv, hp, hh] at hi ⊢
    rcases hi with ⟨-, hk, hpast, hst, -⟩ | ⟨hf, -⟩
    · refine .inl ⟨trivial, hk.concat (not_announces_exited _ _ _), by simpa using hpast, by simpa using hst, ?_⟩
      rintro _ ⟨⟩
      refine ⟨by simpa using hok (by simp [hh]), ?_⟩
      cases r <;> simp [lastFailure, failure?]
    · cases hf
  | placeholderExit hp hh =>
    simp only [PhaseInv, hp, hh] at hi ⊢
    rcases hi with ⟨hf, -⟩ | ⟨-, ho, hal, -⟩
    · cases hf
    · exact .inr ⟨trivial, ho, hal, by rintro _ ⟨⟩; rfl⟩
  | joinStopped hp hr hal =>
    simp only [PhaseInv, hp] at hi ⊢
    rcases hi with ⟨-, hk, -⟩ | ⟨-, ho, -⟩
    · exact ⟨(hk.concat (not_announces_stopped _)).owes, past_of_isAlways hal _⟩
    · exact ⟨ho.concat (not_announces_stopped _), past_of_isAlways hal _⟩
  | joinDone hp hr hal =>
    simp only [PhaseInv, hp] at hi ⊢
    rcases hi with ⟨-, hk, -, -, hx⟩ | ⟨-, -, ht, -⟩
    · refine .inr ⟨hk.concat (not_announces_stopped _), fun hf => ?_⟩
      have hl := (hx _ hr).2
      simp [failedLast_iff, lastFailure, failure?] at hf hl
      simp [hl] at hf
    · rw [hal] at ht; cases ht
  | joinPanicked hp hr hw =>
    simp only [PhaseInv, hp] at hi ⊢
    rcases hi with ⟨-, hk, hpast, hst, hx⟩ | ⟨-, -, -, hx⟩
    · exact ⟨hk.announce _ _, by simpa using hpast.succ hst (hx _ hr).1⟩
    · cases hx _ hr
  | @joinFailed _ err hp hr hw =>
    simp only [PhaseInv, hp] at hi ⊢
    rcases hi with ⟨-, hk, hpast, hst, hx⟩ | ⟨-, -, -, hx⟩
    · refine .inr ⟨hk.concat (not_announces_failed _ _ _), fun _ => ?_⟩
      exact ⟨"service task panicked: " ++ err, w.attempt, by simp⟩
    · cases hx _ hr
  | joinCancelled hp hr =>
    simp only [PhaseInv, hp] at hi ⊢
    rcases hi with ⟨-, hk, -, -, hx⟩ | ⟨-, -, -, hx⟩
    · refine .inr ⟨hk, fun hf => ?_⟩
      rw [failedLast_iff, (hx _ hr).2] at hf
      cases hf
    · cases hx _ hr
  | wake hp hu =>
    simp only [PhaseInv, hp] at hi ⊢
    obtain ⟨ho, hpast⟩ := hi
    exact ⟨ho.call _, by simp only [calls_append, calls_called, calls_nil]; omega, by simpa using hpast⟩
  | abortRoot hp hk hh => exact .inl hk
  | leaveHandle hp hk hh => exact .inl hk
  | leaveBackoff hp hk => exact .inl hk

end

/-- A step of the system keeps the invariant. -/
theorem inv_step (hsp : sc.spares svc.policy) {s s' : System} {a : SystemAction} (hi : Inv svc sc s)
    (hok : sc.allows s a) (h : s.step svc a = some s') : Inv svc sc s' := by
  rcases System.step_cases h with ⟨d, rfl, rfl⟩ | ⟨rfl, rfl⟩ | ⟨b, w, rfl, hw, rfl⟩
  · exact ⟨hi.calls_pos, hi.attempt_eq, hi.phase⟩
  · refine ⟨hi.calls_pos, hi.attempt_eq, ?_⟩
    have hp := hi.phase
    unfold PhaseInv at hp ⊢
    split <;> simp_all
  · obtain ⟨hc, ha⟩ := steps_attempt hw hi.calls_pos hi.attempt_eq
    exact ⟨hc, ha, steps_phase hsp hw hok hi.attempt_eq hi.calls_pos hi.phase⟩

theorem inv_of_reachable (hsp : sc.spares svc.policy) {s : System} (h : Reachable svc sc s) : Inv svc sc s :=
  Reach.invariant inv_init (fun hi hok hs => inv_step hsp hi hok hs) h

/-! ## A restart that fails -/

section

variable {max : U32} {backoff : Backoff} {n : Nat} {s : System}

/-- A reachable state without shutdown, in attempt `n`. -/
structure AtAttempt (svc : Supervised) (sc : Script) (n : Nat) (s : System) : Prop where
  reach : Reachable svc sc s
  up : s.kernel.shutdown = false
  attempt_eq : s.watcher.attempt = n
  calls_eq : calls s.watcher.history = n

theorem InAttempt.atAttempt (h : InAttempt svc sc n s) (hn : n ≤ u32Max) : AtAttempt svc sc n s := by
  refine ⟨h.reach, h.up, ?_, h.calls_eq⟩
  rw [h.attempt_eq]
  omega

/-- A restart that fails while attempts remain under `OnFailure`: its watcher
takes the placeholder's exit for a clean one, and returns. -/
theorem AtAttempt.placeholder_joined (h : AtAttempt svc sc n s) (hp : s.watcher.phase = .restarting)
    {e : String} (hst : sc.starts n = .error e) (hal : svc.policy.isAlways = false)
    (hperm : svc.policy.permitsRestartAfter n true = true) :
    ∃ s' h₀, AtAttempt svc sc n s' ∧ s'.watcher.phase = .returned ∧
      s'.watcher.history = h₀ ++ [.resolved n (.error e), .published (.failed svc.name e n true),
        .published (.stopped svc.name)] := by
  obtain ⟨hr, hup, ha, hc⟩ := h
  have h₁ := reach_watch hr (.retry (e := e) hp (by simpa [ha] using hperm)) (by simp [Script.allows, hc, hst])
  have h₂ := reach_watch h₁ (.placeholderExit rfl rfl) fun hf => by cases hf
  have h₃ := reach_watch (b := .joined 0) h₂ (.joinDone rfl rfl hal) trivial
  exact ⟨_, s.watcher.history, ⟨h₃, hup, ha, by simp [hc]⟩, rfl, by simp [ha]⟩

/-- `OnFailure` restarts the panics of the attempts before the last. -/
theorem restartedBefore_of_panicsBefore {k : Nat} (hp : svc.policy = .onFailure max backoff) (hk : k ≤ max.val)
    (hpan : sc.panicsBefore k) : sc.restartedBefore svc.policy k := by
  intro j h1 hj
  obtain ⟨hst, err, he⟩ := hpan j h1 hj
  refine ⟨hst, _, he, ?_⟩
  simp only [restartsAfter, hp, RestartPolicy.permitsRestartAfter, Bool.true_and, decide_eq_true_eq]
  omega

/-- Where a restart fails before the last attempt, the watcher can end without
shutdown right after announcing another restart. -/
theorem exists_broken (hp : svc.policy = .onFailure max backoff) (hf : sc.failsRestart max.val) :
    ∃ s h₀ n e, Reachable svc sc s ∧ s.kernel.shutdown = false ∧ s.watcher.phase = .returned ∧
      s.watcher.history = h₀ ++ [.resolved n (.error e), .published (.failed svc.name e n true),
        .published (.stopped svc.name)] := by
  obtain ⟨k, h2, hk, hpan, e, hst⟩ := hf
  obtain ⟨s, hs, hr⟩ := exists_restarting h2 (restartedBefore_of_panicsBefore hp hk.le hpan)
  have hs' : AtAttempt svc sc k s := hs.atAttempt (hk.le.trans max.le_max)
  have hperm : svc.policy.permitsRestartAfter k true = true := by
    simpa [hp, RestartPolicy.permitsRestartAfter] using hk
  obtain ⟨t, h₀, ht, hret, hh⟩ := hs'.placeholder_joined hr hst (by rw [hp]; rfl) hperm
  exact ⟨t, h₀, k, e, ht.reach, ht.up, hret, hh⟩

/-- The broken promise of such a history. -/
theorem not_kept_of_placeholder {h₀ : List Entry} {name e : String} :
    ¬ Kept (h₀ ++ [.resolved n (.error e), .published (.failed name e n true),
      .published (.stopped name)]) := by
  intro hk
  obtain ⟨t, ht⟩ := hk (h₀ ++ [.resolved n (.error e)]) [.published (.stopped name)] name e n (by simp)
  simp at ht

end

/-- The policies under which a script spares no restart. -/
theorem not_spares {p : RestartPolicy} (h : ¬ sc.spares p) :
    ∃ max backoff, p = .onFailure max backoff ∧ sc.failsRestart max.val := by
  match p with
  | .oneShot | .always _ => exact absurd trivial h
  | .onFailure max backoff => exact ⟨max, backoff, rfl, not_not.mp h⟩

/-- A watcher makes every restart it announces, unless shutdown is signalled,
exactly if the service's restarts do not fail under `OnFailure` while attempts
remain. -/
theorem restart_promise_iff (svc : Supervised) (sc : Script) :
    (∀ s, Reachable svc sc s → RestartPromise s) ↔ sc.spares svc.policy := by
  constructor
  · intro h
    by_contra hsp
    obtain ⟨max, backoff, hp, hf⟩ := not_spares hsp
    obtain ⟨s, h₀, n, e, hr, hup, hret, hh⟩ := exists_broken hp hf
    exact not_kept_of_placeholder (hh ▸ h s hr hret hup)
  · intro hsp s hr hret hup
    have hi := (inv_of_reachable hsp hr).phase
    simp only [PhaseInv, hret, hup, Bool.false_eq_true, false_or] at hi
    exact hi.1

/-- A service that fails at its first restart, under a budget of three. -/
def flaky : Supervised := ⟨"db", .onFailure 3 (.linear Duration.zero Duration.zero)⟩

/-- Its first root task panics, and it cannot be started again. -/
def refused : Script where
  starts k := if k = 1 then .ok () else .error "connection refused"
  exits _ := some (.panic "lost connection")

theorem refused_failsRestart : refused.failsRestart 3 :=
  ⟨2, Nat.le_refl 2, by decide, fun j h1 h2 => by
    obtain rfl : j = 1 := by omega
    exact ⟨rfl, _, rfl⟩, _, rfl⟩

theorem restart_promise_broken : ¬ ∀ s, Reachable flaky refused s → RestartPromise s := by
  intro h
  obtain ⟨s, h₀, n, e, hr, hup, hret, hh⟩ :=
    exists_broken (show flaky.policy = .onFailure _ _ from rfl) refused_failsRestart
  exact not_kept_of_placeholder (hh ▸ h s hr hret hup)

end WalaStack.Proof.Supervision
