import Mathlib.Data.List.Induction
import WalaStack.Proof.Observability
import WalaStack.Proof.Shutdown
import WalaStack.Spec.Phase

/-!
# The phase at the end of a run

The phase is that of the last kernel event which the observer received
(`runtimePhase_eq`), and `RuntimeStopped` is not among these before
`shutdown_gracefully` has published it (`PhaseInv`). So it is `Stopped` at the
end exactly if the root task outlives the drain.
-/

namespace WalaStack.Proof.Observability

open WalaStack.Transition WalaStack.Channels WalaStack.Impl.Runtime WalaStack.Impl.Observability
open WalaStack.Spec.Health

variable {s s' : ObservedRuntime} {a : ObservedAction} {e : Observed} {evs : List Observed}

/-! ## The phase of what was received -/

/-- The phase that a kernel event sets. -/
def phaseOf : RuntimeEvent → RuntimePhase
  | .started => .running
  | .stopping => .stopping
  | .stopped => .stopped

theorem phaseOf_eq_stopped {e : RuntimeEvent} : phaseOf e = .stopped ↔ e = .stopped := by
  cases e <;> simp [phaseOf]

theorem lastPhase_concat (evs : List Observed) (e : Observed) :
    lastPhase (evs ++ [e]) = (runtimeEvent? e).or (lastPhase evs) := by
  cases h : runtimeEvent? e <;> simp [lastPhase, List.filterMap_append, h]

theorem mem_of_lastPhase {e : RuntimeEvent} (h : lastPhase evs = some e) : .runtime e ∈ evs := by
  obtain ⟨x, hx, he⟩ := List.mem_filterMap.mp (List.mem_of_getLast? h)
  cases x with
  | runtime e' =>
    cases he
    exact hx
  | service _ | task _ => cases he

theorem phaseAfter_eq (p : RuntimePhase) (e : Observed) : phaseAfter p e = (runtimeEvent? e).elim p phaseOf := by
  cases e with
  | service e | task e => rfl
  | runtime e => cases e <;> rfl

theorem foldl_phaseAfter (p : RuntimePhase) (evs : List Observed) :
    evs.foldl phaseAfter p = (lastPhase evs).elim p phaseOf := by
  induction evs using List.reverseRecOn with
  | nil => rfl
  | append_singleton evs e ih =>
    rw [List.foldl_concat, ih, phaseAfter_eq, lastPhase_concat]
    cases runtimeEvent? e <;> rfl

/-! ## Invariants -/

/-- The event has been published to the observer, who may have received it. -/
def Sent (s : ObservedRuntime) (e : Observed) : Prop :=
  e ∈ s.received ∨ ∃ o, s.observer = some o ∧ ∃ k, e ∈ o.receivers.unread k

structure PhaseInv (s : ObservedRuntime) : Prop where
  fresh : s.observer = none → s.received = []
  state : ∀ o, s.observer = some o → o.receivers.state = s.received.foldl ObservabilityState.observe .default
  /-- `RuntimeStopped` is published by `shutdown_gracefully` only. -/
  stopped : s.shutdown.returned = 0 → ¬ Sent s (.runtime .stopped)

theorem phaseInv_new : PhaseInv .new where
  fresh _ := rfl
  state o h := by cases h
  stopped _ h := by
    rcases h with h | ⟨o, h, -⟩ <;> cases h

theorem runtimePhase_eq (hi : PhaseInv s) : s.runtimePhase = (lastPhase s.received).elim .initializing phaseOf := by
  cases ho : s.observer with
  | none =>
    rw [ObservedRuntime.runtimePhase, ho, hi.fresh ho]
    rfl
  | some o =>
    rw [ObservedRuntime.runtimePhase, ho, ← foldl_phaseAfter]
    exact (congrArg ObservabilityState.phase (hi.state o ho)).trans (phase_foldl _ _)

theorem runtimePhase_eq_stopped (hi : PhaseInv s) : s.runtimePhase = .stopped ↔ lastPhase s.received = some .stopped := by
  rw [runtimePhase_eq hi]
  cases lastPhase s.received with
  | none => simp
  | some e => simp [phaseOf_eq_stopped]

/-! ## Steps -/

/-- What a step does to the observer. -/
inductive PhaseSteps (s : ObservedRuntime) : ObservedAction → ObservedRuntime → Prop
  | kept {a : ObservedAction} {s' : ObservedRuntime} : OutlivesDrain s a → s'.observer = s.observer →
    s'.received = s.received → s'.shutdown.returned = s.shutdown.returned → PhaseSteps s a s'
  | published {a : ObservedAction} {s' : ObservedRuntime} (e : Observed) : OutlivesDrain s a →
    e ≠ .runtime .stopped → s'.observer = (s.publish e).observer → s'.received = s.received →
    s'.shutdown.returned = s.shutdown.returned → PhaseSteps s a s'
  | stop {s' : ObservedRuntime} : s'.observer = (s.publish (.runtime .stopped)).observer →
    s'.received = s.received → s'.shutdown.returned = s.shutdown.returned + 1 →
    PhaseSteps s (.shutdown .stop) s'
  | startService : s.observer = none → PhaseSteps s .startService s.startService
  | recv {o : Observer} {k : Channel} {e : Observed} {es : List Observed} : s.observer = some o → o.running = true →
    o.receivers.unread k = e :: es →
    PhaseSteps s (.recv k)
      { s with
        observer := some ⟨⟨Function.update o.receivers.unread k es, o.receivers.state.observe e⟩, true⟩
        received := s.received ++ [e] }
  | ends {a : ObservedAction} : a = .breaks ∨ a = .cancelled → s.running = true → PhaseSteps s a s.endTask

theorem phaseSteps_of_step (h : s.step a = some s') : PhaseSteps s a s' := by
  cases a with
  | shutdown b =>
    simp only [ObservedRuntime.step] at h
    split at h
    · cases h
    · obtain ⟨sh, hs, rfl⟩ := Option.map_eq_some_iff.mp h
      have hret := Runtime.returned_of_step hs
      cases b with
      | publish i => exact .published (.runtime .stopping) trivial (by simp) rfl rfl hret
      | stop => exact .stop rfl rfl hret
      | check | signalled =>
        simp only [ObservedRuntime.onShutdown]
        split <;> exact .kept trivial rfl rfl hret
      | call | read i | set i | gracefully | drained | drop => exact .kept trivial rfl rfl hret
  | startService =>
    simp only [ObservedRuntime.step] at h
    split at h
    · rename_i hn
      cases h
      exact .startService (Option.isNone_iff_eq_none.mp hn.2)
    · cases h
  | started =>
    simp only [ObservedRuntime.step] at h
    split at h
    · cases h
      exact .published (.runtime .started) trivial (by simp) rfl rfl rfl
    · cases h
  | serviceEvent e =>
    cases h
    exact .published (.service e) trivial (by simp) rfl rfl rfl
  | taskEvent e =>
    cases h
    exact .published (.task e) trivial (by simp) rfl rfl rfl
  | recv k =>
    simp only [ObservedRuntime.step, ObservedRuntime.recv] at h
    split at h
    · rename_i o ho
      obtain ⟨o', hs, rfl⟩ := Option.map_eq_some_iff.mp h
      simp only [Observer.step] at hs
      split at hs
      · rename_i hrun
        obtain ⟨r, hr, rfl⟩ := Option.map_eq_some_iff.mp hs
        simp only [Reader.step] at hr
        split at hr
        · cases hr
        · rename_i e es hu
          cases hr
          rw [hu, hrun]
          exact .recv ho hrun hu
      · cases hs
    · cases h
  | breaks | cancelled =>
    simp only [ObservedRuntime.step] at h
    split at h
    · rename_i hr
      cases h
      exact .ends (by simp) hr.2
    · cases h
  | joins =>
    simp only [ObservedRuntime.step] at h
    split at h
    · cases h
      exact .published (.service (.stopped "observability")) trivial (by simp) rfl rfl rfl
    · cases h
  | aborts | drained | elapsed | dropped =>
    simp only [ObservedRuntime.step] at h
    split at h
    · cases h
      exact .kept trivial rfl rfl rfl
    · cases h
  | shutdownNow =>
    cases h
    exact .kept trivial rfl rfl rfl

/-! ## What a step keeps -/

theorem sent_publish {e' : Observed} (h : s'.observer = (s.publish e).observer) (hr : s'.received = s.received)
    (hs : Sent s' e') : Sent s e' ∨ e' = e := by
  rcases hs with hm | ⟨o', ho', k, hk⟩
  · exact .inl (.inl (hr ▸ hm))
  · rw [h] at ho'
    obtain ⟨o, ho, rfl⟩ := Option.map_eq_some_iff.mp ho'
    rw [Reader.unread_push] at hk
    rcases List.mem_append.mp hk with hk | hk
    · exact .inl (.inr ⟨o, ho, k, hk⟩)
    · exact .inr (List.mem_singleton.mp (List.mem_filter.mp hk).1)

theorem fresh_publish (hi : PhaseInv s) (h : s'.observer = (s.publish e).observer) (hr : s'.received = s.received)
    (hn : s'.observer = none) : s'.received = [] := by
  rw [h] at hn
  exact hr.trans (hi.fresh (Option.map_eq_none_iff.mp hn))

theorem state_publish (hi : PhaseInv s) (h : s'.observer = (s.publish e).observer) (hr : s'.received = s.received)
    {o : Observer} (ho : s'.observer = some o) :
    o.receivers.state = s'.received.foldl ObservabilityState.observe .default := by
  rw [h] at ho
  obtain ⟨o₀, ho₀, rfl⟩ := Option.map_eq_some_iff.mp ho
  rw [hr]
  exact hi.state o₀ ho₀

theorem phaseInv_step (hi : PhaseInv s) (h : PhaseSteps s a s') : PhaseInv s' := by
  cases h with
  | kept _ ho hr hn =>
    refine ⟨fun h => hr.trans (hi.fresh (ho ▸ h)), fun o h => ?_, fun h hs => hi.stopped (hn ▸ h) ?_⟩
    · rw [hr]
      exact hi.state o (ho ▸ h)
    · unfold Sent at hs
      rwa [ho, hr] at hs
  | published e _ hne ho hr hn =>
    refine ⟨fresh_publish hi ho hr, fun o => state_publish hi ho hr, fun h hs => ?_⟩
    rcases sent_publish ho hr hs with hs | he
    · exact hi.stopped (hn ▸ h) hs
    · exact hne he.symm
  | stop ho hr hn =>
    exact ⟨fresh_publish hi ho hr, fun o => state_publish hi ho hr, fun h => by omega⟩
  | startService hn =>
    have hrec := hi.fresh hn
    refine ⟨fun _ => hrec, fun o ho => ?_, fun h hs => ?_⟩
    · cases ho
      show ObservabilityState.default = s.received.foldl ObservabilityState.observe .default
      rw [hrec]
      rfl
    · rcases hs with hm | ⟨o, ho, k, hk⟩
      · have hm : Observed.runtime .stopped ∈ s.received := hm
        rw [hrec] at hm
        cases hm
      · cases ho
        rw [Reader.unread_push] at hk
        simp [Observer.init, Reader.init] at hk
  | recv ho hrun hu =>
    rename_i o k e es
    refine ⟨fun hn => absurd hn (by simp), fun o' ho' => ?_, fun h hs => hi.stopped h ?_⟩
    · cases ho'
      rw [List.foldl_concat, ← hi.state _ ho]
    · have hold : ∀ {k' x}, x ∈ o.receivers.unread k' → Sent s x := fun hx => .inr ⟨o, ho, _, hx⟩
      rcases hs with hm | ⟨o', ho', k', hk⟩
      · rcases List.mem_append.mp hm with hm | hm
        · exact .inl hm
        · rw [List.mem_singleton.mp hm]
          exact hold (hu ▸ List.mem_cons_self)
      · cases ho'
        simp only [Function.update_apply] at hk
        split at hk
        · exact hold (hu ▸ List.mem_cons_of_mem _ hk)
        · exact hold hk
  | ends _ hrun =>
    refine ⟨fun h => hi.fresh (Option.map_eq_none_iff.mp h), fun o ho => ?_, fun h hs => hi.stopped h ?_⟩
    · obtain ⟨o₀, ho₀, rfl⟩ := Option.map_eq_some_iff.mp ho
      exact hi.state o₀ ho₀
    · rcases hs with hm | ⟨o, ho, hk⟩
      · exact .inl hm
      · obtain ⟨o₀, ho₀, rfl⟩ := Option.map_eq_some_iff.mp ho
        exact .inr ⟨o₀, ho₀, hk⟩

theorem ended_publish (h : s'.observer = (s.publish e).observer) : s'.ended = s.ended := by
  rw [ObservedRuntime.ended, h, ObservedRuntime.ended, ObservedRuntime.publish, Option.any_map]

/-- What is received decides the phase, so a step that leaves it alone keeps
`StoppedAtEnd`. -/
theorem stoppedAtEnd_of_kept (hi : PhaseInv s) (hi' : PhaseInv s') (hp : StoppedAtEnd s)
    (he : s'.ended = s.ended) (hr : s'.received = s.received) (hn : 0 < s.shutdown.returned) : StoppedAtEnd s' := by
  intro _ hend
  rw [runtimePhase_eq_stopped hi', hr, ← runtimePhase_eq_stopped hi]
  exact hp hn (he ▸ hend)

theorem stoppedAtEnd_step (hi : PhaseInv s) (hp : StoppedAtEnd s) (h : PhaseSteps s a s') :
    StoppedAtEnd s' ↔ OutlivesDrain s a := by
  have hi' := phaseInv_step hi h
  cases h with
  | kept hok ho hr hn =>
    have he : s'.ended = s.ended := by rw [ObservedRuntime.ended, ho, ObservedRuntime.ended]
    exact iff_of_true (fun hpos => stoppedAtEnd_of_kept hi hi' hp he hr (hn ▸ hpos) hpos) hok
  | published e hok _ ho hr hn =>
    exact iff_of_true (fun hpos => stoppedAtEnd_of_kept hi hi' hp (ended_publish ho) hr (hn ▸ hpos) hpos) hok
  | stop ho hr hn =>
    rcases Nat.eq_zero_or_pos s.shutdown.returned with hz | hpos
    · -- nothing has been received that says `Stopped`
      have hne : s'.runtimePhase ≠ .stopped := by
        rw [ne_eq, runtimePhase_eq_stopped hi', hr]
        exact fun hl => hi.stopped hz (.inl (mem_of_lastPhase hl))
      constructor
      · intro hp' _
        rw [← ended_publish ho]
        exact Bool.eq_false_iff.mpr fun he => hne (hp' (by omega) he)
      · intro hok _ he
        rw [ended_publish ho, hok hz] at he
        cases he
    · refine iff_of_true (fun _ => stoppedAtEnd_of_kept hi hi' hp (ended_publish ho) hr hpos ?_) fun hz => ?_
      · omega
      · omega
  | startService hn => exact iff_of_true (fun _ he => by cases he) trivial
  | recv ho hrun hu =>
    refine iff_of_true (fun _ he => ?_) trivial
    simp [ObservedRuntime.ended] at he
  | ends hor hrun =>
    have he : s.endTask.ended = true := by
      cases ho : s.observer <;> simp_all [ObservedRuntime.ended, ObservedRuntime.endTask, ObservedRuntime.running]
    have hphase : StoppedAtEnd s.endTask ↔ (0 < s.shutdown.returned → lastPhase s.received = some .stopped) := by
      refine ⟨fun hp' hpos => (runtimePhase_eq_stopped hi').mp (hp' hpos he), fun hl hpos _ => ?_⟩
      exact (runtimePhase_eq_stopped hi').mpr (hl hpos)
    rw [hphase]
    rcases hor with rfl | rfl <;> rfl

/-- In every run, the phase is `Stopped` in each state in which
`shutdown_gracefully` has returned and the root task has ended, exactly if each
step of the run meets `OutlivesDrain`. -/
theorem stopped_at_end_iff {as : List ObservedAction} (h : exec ObservedRuntime.step .new as = some s) :
    AlongStates ObservedRuntime.step StoppedAtEnd .new as ↔ AlongSteps ObservedRuntime.step OutlivesDrain .new as :=
  alongStates_iff_alongSteps (fun hi hs => phaseInv_step hi (phaseSteps_of_step hs))
    (fun hi hp hs => stoppedAtEnd_step hi hp (phaseSteps_of_step hs)) phaseInv_new
    (fun hpos => absurd hpos (Nat.lt_irrefl 0)) h

/-! ## The watcher's abort -/

/-- The service is started, and a call of `shutdown_gracefully` has raised the
signal. -/
def signalled : List ObservedAction :=
  [.startService, .started, .recv (.runtime .started), .shutdown .gracefully, .shutdown .check, .shutdown (.read 0),
    .shutdown (.set 0), .shutdown (.publish 0), .recv (.runtime .stopping), .shutdown .signalled]

/-- The watcher aborts the task, and the drain returns. -/
theorem stopping_at_end :
    ¬ ∀ as s, exec ObservedRuntime.step .new as = some s → StoppedAtEnd s := by
  intro h
  have hphase := h (signalled ++ [.aborts, .cancelled, .drained, .shutdown .drained, .shutdown .stop]) _ rfl
  exact absurd (hphase (by decide) rfl) (by decide)

/-- The drain gives the watcher up, and the task ends after `RuntimeStopped`. -/
theorem stopped_at_end_elapsed :
    AlongStates ObservedRuntime.step StoppedAtEnd .new
      (signalled ++ [.elapsed, .shutdown .drained, .shutdown .stop, .recv (.runtime .stopped), .breaks]) :=
  (stopped_at_end_iff rfl).mpr (by decide)

end WalaStack.Proof.Observability
