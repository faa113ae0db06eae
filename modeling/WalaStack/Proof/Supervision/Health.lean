import Mathlib.Data.List.Induction
import WalaStack.Impl.Observability
import WalaStack.Proof.Supervision.Restart

/-!
# The health registry over a watcher's events

`ObservabilityState` folds the lifecycle events. A service's status is
decided by the last event about it (`status_of_last`), whatever the events of
other services around; so the registry is right about a dead service exactly
if the watcher's last word is a final failure. `health_truthful_iff` puts
this together with the invariant of the watcher.
-/

namespace WalaStack.Impl.Observability.ObservabilityState

open WalaStack.Impl.Runtime

variable {st : ObservabilityState} {e : LifecycleEvent} {n : String}

/-- Events about other services leave a service alone. -/
theorem service_apply_of_ne (h : e.name ≠ n) : (st.apply e).service n = st.service n := by
  cases e with
  | started name k => exact AList.lookup_insert_ne (Ne.symm h)
  | stopped name =>
    simp only [apply, onServiceStopped, service]
    split
    · exact AList.lookup_insert_ne (Ne.symm h)
    · rfl
  | failed name err k b => exact AList.lookup_insert_ne (Ne.symm h)

/-- The status that a service has after an event about it, when it is known to
the registry. -/
def statusAfter : LifecycleEvent → HealthStatus
  | .started _ _ | .stopped _ => .ok
  | .failed _ _ _ true => .degraded
  | .failed _ _ _ false => .failed

theorem status_apply (h : e.name = n) :
    ∀ sh ∈ (st.apply e).service n, sh.status = statusAfter e := by
  subst h
  intro sh hsh
  cases e with
  | started name k =>
    simp only [LifecycleEvent.name] at hsh
    rw [show (st.apply (.started name k)).service name = some _ from AList.lookup_insert _] at hsh
    cases hsh; rfl
  | stopped name =>
    simp only [LifecycleEvent.name, apply, onServiceStopped, service, Option.mem_def] at hsh
    split at hsh
    · rw [AList.lookup_insert] at hsh
      cases hsh; rfl
    · rename_i hn
      rw [hn] at hsh; cases hsh
  | failed name err k b =>
    simp only [LifecycleEvent.name] at hsh
    rw [show (st.apply (.failed name err k b)).service name = some _ from AList.lookup_insert _] at hsh
    cases hsh
    cases b <;> rfl

/-- A failure makes its service known. -/
theorem isSome_service_failed (st : ObservabilityState) (name err : String) (k : Nat) (b : Bool) :
    ((st.apply (.failed name err k b)).service name).isSome = true := by
  rw [show (st.apply (.failed name err k b)).service name = some _ from AList.lookup_insert _]
  rfl

/-- A service's health is decided by the last event about it. -/
theorem service_foldl (st : ObservabilityState) (evs : List LifecycleEvent)
    (h : (evs.filter fun e => e.name = n).getLast? = some e) :
    ∃ st', (evs.foldl apply st).service n = (apply st' e).service n := by
  induction evs using List.reverseRecOn with
  | nil => simp at h
  | append_singleton evs x ih =>
    rw [List.foldl_append, List.foldl_cons, List.foldl_nil]
    by_cases hx : x.name = n
    · simp only [List.filter_append, List.filter_cons, hx, decide_true, ite_true, List.filter_nil,
        List.getLast?_append, List.getLast?_singleton, Option.some_or, Option.some.injEq] at h
      exact ⟨_, by rw [h]⟩
    · simp only [List.filter_append, List.filter_cons, hx, decide_false, Bool.false_eq_true, ite_false,
        List.filter_nil, List.append_nil] at h
      obtain ⟨st', hst⟩ := ih h
      exact ⟨st', by rw [service_apply_of_ne hx, hst]⟩

/-- The status after events the last of which about `n` is a failure. -/
theorem status_of_last (st : ObservabilityState) {evs : List LifecycleEvent} {err : String} {k : Nat} {b : Bool}
    (h : (evs.filter fun e => e.name = n).getLast? = some (.failed n err k b)) :
    ∃ sh, (evs.foldl apply st).service n = some sh ∧ sh.status = statusAfter (.failed n err k b) := by
  obtain ⟨st', hst⟩ := service_foldl st evs h
  obtain ⟨sh, hsh⟩ := Option.isSome_iff_exists.mp (isSome_service_failed st' n err k b)
  exact ⟨sh, by rw [hst, hsh], status_apply rfl sh hsh⟩

/-- One failed service makes the overall status `Failed`. -/
theorem overall_failed {sh : ServiceHealth} (h : st.service n = some sh) (hs : sh.status = .failed) :
    st.overall = .failed := by
  have hm : HealthStatus.failed ∈ st.services.entries.map fun e => e.2.status :=
    List.mem_map.mpr ⟨⟨n, sh⟩, AList.mem_lookup_iff.mp h, hs⟩
  simp only [overall]
  rw [if_neg (List.ne_nil_of_mem hm), if_pos hm]

end WalaStack.Impl.Observability.ObservabilityState

namespace WalaStack.Proof.Supervision

open WalaStack.Impl.Runtime WalaStack.Impl.Observability WalaStack.Spec.Supervision

variable {svc : Supervised} {sc : Script}

/-- The registry reports the service, and the whole, as failed, once the
watcher's events are applied in publish order to whatever it held, among
events of other services. -/
def ReportedFailed (svc : Supervised) (h : List Entry) : Prop :=
  ∀ (st : ObservabilityState) (evs : List LifecycleEvent),
    (evs.filter fun e => e.name = svc.name) = events h →
    (∃ sh, (evs.foldl .apply st).service svc.name = some sh ∧ sh.status = .failed) ∧
      (evs.foldl .apply st).overall = .failed

theorem FinalFailure.reported {h : List Entry} (hf : FinalFailure svc h) : ReportedFailed svc h := by
  intro st evs hevs
  obtain ⟨err, k, hl⟩ := hf
  obtain ⟨sh, hsh, hs⟩ := ObservabilityState.status_of_last st (hevs ▸ hl)
  exact ⟨⟨sh, hsh, hs⟩, ObservabilityState.overall_failed hsh hs⟩

/-- Every event of a watcher is about its service. -/
theorem events_name {s : System} (h : Reachable svc sc s) :
    ∀ e ∈ events s.watcher.history, e.name = svc.name := by
  refine System.watcher_invariant (I := fun w => ∀ e ∈ events w.history, e.name = svc.name) ?_ ?_ h
  · rintro s ⟨now, rfl⟩ e he
    simp [System.init, Watcher.init] at he
  · intro s b w hi _ hw
    cases hw <;> simp only [events_append, events_resolved, events_published, events_exited,
      events_called, events_aborted, events_nil, List.append_nil, List.mem_append, List.mem_singleton]
    all_goals first | exact hi | (rintro e (he | rfl); exacts [hi e he, rfl])

/-- A watcher whose last event is `ServiceStopped` leaves its service `Ok`. -/
theorem not_reported_of_stopped {h : List Entry} (hn : ∀ e ∈ events h, e.name = svc.name)
    (hl : (events h).getLast? = some (.stopped svc.name)) : ¬ ReportedFailed svc h := by
  intro hr
  have hf : (events h).filter (fun e => e.name = svc.name) = events h :=
    List.filter_eq_self.mpr fun e he => by simpa using hn e he
  obtain ⟨⟨sh, hsh, hs⟩, -⟩ := hr .default (events h) hf
  obtain ⟨st', hst⟩ := ObservabilityState.service_foldl .default (events h) (hf.symm ▸ hl)
  have := ObservabilityState.status_apply (e := .stopped svc.name) rfl sh (hst ▸ hsh)
  rw [hs] at this
  cases this

/-- A service that ended in failure is reported as failed, once its watcher
ended without shutdown, exactly if its restarts do not fail under `OnFailure`
while attempts remain. -/
theorem health_truthful_iff (svc : Supervised) (sc : Script) :
    (∀ s, Reachable svc sc s → s.watcher.phase = .returned → s.kernel.shutdown = false →
      FailedLast s.watcher.history → ReportedFailed svc s.watcher.history) ↔ sc.spares svc.policy := by
  constructor
  · intro h
    by_contra hsp
    obtain ⟨max, backoff, hp, hf⟩ := not_spares hsp
    obtain ⟨s, h₀, n, e, hr, hup, hret, hh⟩ := exists_broken hp hf
    have hlast : FailedLast s.watcher.history := by simp [FailedLast, hh]
    have hev : (events s.watcher.history).getLast? = some (.stopped svc.name) := by simp [hh]
    exact not_reported_of_stopped (events_name hr) hev (h s hr hret hup hlast)
  · intro hsp s hr hret hup hlast
    have hi := (inv_of_reachable hsp hr).phase
    simp only [PhaseInv, hret, hup, Bool.false_eq_true, false_or] at hi
    exact (hi.2 hlast).reported

/-- The service of `flaky` is down, and its registry says `Ok`. -/
theorem health_of_flaky : ¬ ∀ s, Reachable flaky refused s → s.watcher.phase = .returned →
    s.kernel.shutdown = false → FailedLast s.watcher.history → ReportedFailed flaky s.watcher.history := by
  intro h
  obtain ⟨s, h₀, n, e, hr, hup, hret, hh⟩ :=
    exists_broken (show flaky.policy = .onFailure _ _ from rfl) refused_failsRestart
  have hlast : FailedLast s.watcher.history := by simp [FailedLast, hh]
  have hev : (events s.watcher.history).getLast? = some (.stopped flaky.name) := by simp [hh]
  exact not_reported_of_stopped (events_name hr) hev (h s hr hret hup hlast)

end WalaStack.Proof.Supervision
