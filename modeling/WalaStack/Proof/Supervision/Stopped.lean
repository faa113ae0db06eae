import WalaStack.Proof.Supervision.Restart

/-!
# Truthful `ServiceStopped`

While no restart fails that the policy would follow by another
(`Script.failsRetried`), the handle a watcher joins is the root task of the
attempt it last announced (`AttemptInv`), so `ServiceStopped` is that task's
clean exit. A restart that fails there leaves the watcher with its
placeholder, whose exit it announces as the service's (`exists_phantom`).
Hence `stops_truly_iff`.
-/

namespace WalaStack.Spec.Supervision

open WalaStack.Impl.Runtime

variable {h : List Entry} {e : Entry}

theorem stopsTruly_nil : StopsTruly [] := by
  intro pre post name he
  exact absurd he.symm (List.append_ne_nil_of_right_ne_nil _ (List.cons_ne_nil _ _))

theorem StopsTruly.concat (ht : StopsTruly h) (hne : ∀ name, e ≠ .published (.stopped name)) :
    StopsTruly (h ++ [e]) := by
  intro pre post name he
  rcases Log.split_concat he with ⟨-, rfl, -⟩ | ⟨post', hh, -⟩
  · exact absurd rfl (hne name)
  · exact ht pre post' name hh

/-- The root task of the attempt announced last has ended cleanly. -/
theorem StopsTruly.stop {pre mid : List Entry} {name : String} {k t : Nat} (ht : StopsTruly h)
    (hh : h = pre ++ .published (.started name k) :: mid) (hx : .exited k .ok t ∈ mid)
    (hm : ∀ e ∈ mid, endsAttempt e = false) : StopsTruly (h ++ [.published (.stopped name)]) := by
  intro pre' post n he
  rcases Log.split_concat he with ⟨rfl, hn, -⟩ | ⟨post', hh', -⟩
  · cases hn
    exact ⟨pre, mid, k, t, hh, hx, hm⟩
  · exact ht pre' post' n hh'

/-- A `ServiceStopped` right after a `ServiceFailed`. -/
theorem not_stopsTruly {name name' err : String} {k : Nat} {b : Bool} :
    ¬ StopsTruly (h ++ [.published (.failed name err k b), .published (.stopped name')]) := by
  intro ht
  obtain ⟨pre, mid, j, t, hpre, -, hm⟩ := ht (h ++ [.published (.failed name err k b)]) [] name' (by simp)
  rcases Log.split_concat hpre with ⟨-, he, -⟩ | ⟨mid', -, rfl⟩
  · cases he
  · cases hm _ (List.mem_append_right _ List.mem_cons_self)

end WalaStack.Spec.Supervision

namespace WalaStack.Proof.Supervision

open WalaStack.Rust WalaStack.Impl.Runtime WalaStack.Spec.Supervision WalaStack.Transition

variable {svc : Supervised} {sc : Script}

/-- The history since the announcement of the attempt, by the state of its
root task. -/
def Since (k : Nat) (mid : List Entry) : Option JoinResult → Prop
  | none => mid = []
  | some r => ∃ t, mid = [.exited k r t]

theorem Since.endsAttempt {k : Nat} {mid : List Entry} {result : Option JoinResult} (hs : Since k mid result) :
    ∀ e ∈ mid, endsAttempt e = false := by
  cases result with
  | none => rw [hs]; nofun
  | some r =>
    obtain ⟨t, rfl⟩ := hs
    intro e he
    rw [List.mem_singleton.mp he]
    rfl

/-- What holds of a watcher at each await, when no restart fails that would be
followed by another. -/
def AttemptInv (svc : Supervised) (sc : Script) (w : Watcher) : Prop :=
  match w.phase with
  | .starting => calls w.history = 1 ∧ w.handle = ⟨true, none⟩
  | .refused | .returned => True
  | .watching =>
    w.handle.root = true ∧ sc.restartedBefore svc.policy (calls w.history) ∧
      sc.starts (calls w.history) = .ok () ∧
      (∀ r, w.handle.result = some r → sc.exits (calls w.history) = some r) ∧
      ∃ pre mid, w.history = pre ++ .published (.started svc.name w.attempt) :: mid ∧
        Since w.attempt mid w.handle.result
  | .backingOff _ => sc.restartedBefore svc.policy (calls w.history + 1)
  | .restarting => 2 ≤ calls w.history ∧ sc.restartedBefore svc.policy (calls w.history)

structure StopInv (svc : Supervised) (sc : Script) (w : Watcher) : Prop where
  calls_pos : 1 ≤ calls w.history
  attempt_eq : w.attempt = min (calls w.history) u32Max
  truly : StopsTruly w.history
  attempt : AttemptInv svc sc w

theorem stopInv_init (k : Kernel) : StopInv svc sc (Watcher.init k) := by
  have ht : StopsTruly [.called 1 k.now] := stopsTruly_nil.concat nofun
  exact ⟨by simp [Watcher.init], by simp [Watcher.init], ht, by simp [Watcher.init], rfl⟩

theorem restartedBefore_one (p : RestartPolicy) : sc.restartedBefore p 1 := fun _ h1 hlt =>
  absurd h1 (Nat.not_le_of_lt hlt)

theorem restartedBefore_succ {p : RestartPolicy} {n : Nat} (hb : sc.restartedBefore p n)
    (hs : sc.starts n = .ok ()) {r : JoinResult} (he : sc.exits n = some r) (hr : restartsAfter p n r = true) :
    sc.restartedBefore p (n + 1) := by
  intro j hj hlt
  rcases Nat.lt_succ_iff_lt_or_eq.mp hlt with hlt | rfl
  · exact hb j hj hlt
  · exact ⟨hs, r, he, hr⟩

/-- A step of the watcher keeps its history truthful. -/
theorem stopInv_steps (hf : ¬ sc.failsRetried svc.policy) {k : Kernel} {w w' : Watcher} {a : WatcherAction}
    (hi : StopInv svc sc w) (hok : sc.allows ⟨k, w⟩ (.watch a)) (hs : w.Steps svc k a w') :
    StopInv svc sc w' := by
  obtain ⟨hpos, hatt, ht, hi⟩ := hi
  obtain ⟨hpos', hatt'⟩ := steps_attempt hs hpos hatt
  refine ⟨hpos', hatt', ?_, ?_⟩
  · -- Only the two joins of a clean exit announce `ServiceStopped`.
    cases hs with
    | joinStopped hp hr _ | joinDone hp hr _ =>
      simp only [AttemptInv, hp, hr] at hi
      obtain ⟨-, -, -, -, pre, mid, hh, hsince⟩ := hi
      have hm := hsince.endsAttempt
      obtain ⟨t, rfl⟩ := hsince
      exact ht.stop hh List.mem_cons_self hm
    | firstStart | restart | retry | giveUp =>
      rw [List.append_cons]
      exact (ht.concat (by simp)).concat (by simp)
    | refuse | rootExit | wake | abortRoot | joinPanicked | joinFailed => exact ht.concat (by simp)
    | placeholderExit | joinCancelled | leaveHandle | leaveBackoff => exact ht
  · cases hs with
    | firstStart hp =>
      simp only [AttemptInv, hp] at hi ⊢
      obtain ⟨h1, hh⟩ := hi
      have hst : sc.starts 1 = .ok () := by simpa [Script.allows, h1] using hok.symm
      have hone : w.attempt = 1 := by rw [hatt, h1]; rfl
      refine ⟨by rw [hh], by simpa [h1] using restartedBefore_one _, by simp [h1, hst], by simp [hh],
        w.history ++ [.resolved w.attempt (.ok ())], [], by simp [hone], by simp [hh, Since]⟩
    | restart hp =>
      simp only [AttemptInv, hp] at hi ⊢
      obtain ⟨h2, hb⟩ := hi
      have hst : sc.starts (calls w.history) = .ok () := by simpa [Script.allows] using hok.symm
      exact ⟨trivial, by simpa using hb, by simpa using hst, by simp,
        w.history ++ [.resolved w.attempt (.ok ())], [], by simp, rfl⟩
    | @retry e hp hr =>
      simp only [AttemptInv, hp] at hi
      obtain ⟨h2, hb⟩ := hi
      have hst : sc.starts (calls w.history) = .error e := by simpa [Script.allows] using hok.symm
      rw [hatt, permits_min] at hr
      exact absurd ⟨_, h2, hb, hr, e, hst⟩ hf
    | @rootExit r hp hh =>
      simp only [AttemptInv, hp, hh] at hi ⊢
      obtain ⟨-, hb, hst, -, pre, mid, hhist, hsince⟩ := hi
      have hex : sc.exits (calls w.history) = some r := hok (by simp [hh])
      obtain rfl : mid = [] := hsince
      exact ⟨trivial, by simpa using hb, by simpa using hst, by simpa using hex, pre,
        [.exited w.attempt r k.now], by simp [hhist], k.now, rfl⟩
    | placeholderExit hp hh =>
      simp only [AttemptInv, hp, hh] at hi
      cases hi.1
    | joinStopped hp hr hal =>
      simp only [AttemptInv, hp, hr] at hi ⊢
      obtain ⟨-, hb, hst, hex, -⟩ := hi
      simpa using restartedBefore_succ hb hst (hex _ rfl) hal
    | joinPanicked hp hr hw =>
      simp only [AttemptInv, hp, hr] at hi ⊢
      obtain ⟨-, hb, hst, hex, -⟩ := hi
      rw [hatt, permits_min] at hw
      simpa using restartedBefore_succ hb hst (hex _ rfl) hw
    | wake hp hu =>
      simp only [AttemptInv, hp] at hi ⊢
      exact ⟨by simp only [calls_append, calls_called, calls_nil]; omega, by simpa using hi⟩
    | refuse | giveUp | joinDone | joinFailed | joinCancelled | abortRoot | leaveHandle | leaveBackoff =>
      trivial

theorem stopInv_of_reachable (hf : ¬ sc.failsRetried svc.policy) {s : System} (hr : Reachable svc sc s) :
    StopInv svc sc s.watcher := by
  refine System.watcher_invariant (I := StopInv svc sc) ?_ (fun hi hok hw => stopInv_steps hf hi hok hw) hr
  rintro s ⟨now, rfl⟩
  exact stopInv_init _

/-- Where a restart fails that the policy follows by another, the exit of the
placeholder is announced as the service's. -/
theorem exists_phantom (hf : sc.failsRetried svc.policy) :
    ∃ s h k e, Reachable svc sc s ∧
      s.watcher.history = h ++ [.published (.failed svc.name e k true), .published (.stopped svc.name)] := by
  obtain ⟨k, h2, hb, hperm, e, hst⟩ := hf
  obtain ⟨s, ⟨hr, -, ha, hc⟩, hp⟩ := exists_restarting h2 hb
  have hperm' : svc.policy.permitsRestartAfter s.watcher.attempt true = true := by rw [ha, permits_min, hperm]
  have h₁ := reach_watch hr (.retry (e := e) hp hperm') (by simp [Script.allows, hc, hst])
  have h₂ := reach_watch h₁ (.placeholderExit rfl rfl) fun hf => by cases hf
  let h := s.watcher.history ++ [.resolved s.watcher.attempt (.error e)]
  cases hal : svc.policy.isAlways with
  | true =>
    exact ⟨_, h, _, e, reach_watch (b := .joined 0) h₂ (.joinStopped rfl rfl hal) trivial, by simp [h]; rfl⟩
  | false =>
    exact ⟨_, h, _, e, reach_watch (b := .joined 0) h₂ (.joinDone rfl rfl hal) trivial, by simp [h]; rfl⟩

/-- Every `ServiceStopped` is the clean exit of a root task of the service,
exactly if no restart fails to start that the policy follows by another. -/
theorem stops_truly_iff (svc : Supervised) (sc : Script) :
    (∀ s, Reachable svc sc s → StopsTruly s.watcher.history) ↔ ¬ sc.failsRetried svc.policy := by
  constructor
  · intro h hf
    obtain ⟨s, h₀, k, e, hr, hh⟩ := exists_phantom hf
    exact not_stopsTruly (hh ▸ h s hr)
  · intro hf s hr
    exact (stopInv_of_reachable hf hr).truly

theorem refused_failsRetried : refused.failsRetried flaky.policy :=
  ⟨2, Nat.le_refl 2, fun j h1 h2 => by
    obtain rfl : j = 1 := by omega
    exact ⟨rfl, _, rfl, rfl⟩, rfl, _, rfl⟩

/-- The database of `flaky` is reported as stopped, whose root task panicked. -/
theorem phantom_stopped : ¬ ∀ s, Reachable flaky refused s → StopsTruly s.watcher.history := by
  intro h
  obtain ⟨s, h₀, k, e, hr, hh⟩ := exists_phantom refused_failsRetried
  exact not_stopsTruly (hh ▸ h s hr)

end WalaStack.Proof.Supervision
