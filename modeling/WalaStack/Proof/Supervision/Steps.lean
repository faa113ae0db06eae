import WalaStack.Framework.Transition
import WalaStack.Impl.Runtime.Supervision

/-!
# What one step of a watcher does

`Watcher.Steps` lists the steps of `start_service` and `supervise`, one
constructor for each way through the code between two awaits, with what it
adds to the history. `Watcher.steps_of_step` is the inversion of
`Watcher.step`; the invariants of the watcher are proved from it.
-/

namespace WalaStack.Impl.Runtime

open WalaStack.Rust

/-- An `Always` policy restarts after any exit. -/
theorem RestartPolicy.permits_of_isAlways {p : RestartPolicy} (h : p.isAlways = true) (k : Nat) (b : Bool) :
    p.permitsRestartAfter k b = true := by
  cases p <;> simp_all [isAlways, permitsRestartAfter]

namespace Watcher

variable {svc : Supervised} {k : Kernel} {w w' : Watcher} {a : WatcherAction}

/-- The steps of a watcher, by the way through the code. -/
inductive Steps (svc : Supervised) (k : Kernel) (w : Watcher) : WatcherAction → Watcher → Prop
  | firstStart : w.phase = .starting →
    Steps svc k w (.started (.ok ()))
      { w with
        phase := .watching
        history := w.history ++ [.resolved w.attempt (.ok ()), .published (.started svc.name 1)] }
  | refuse {e : String} : w.phase = .starting →
    Steps svc k w (.started (.error e))
      { w with phase := .refused, history := w.history ++ [.resolved w.attempt (.error e)] }
  | restart : w.phase = .restarting →
    Steps svc k w (.started (.ok ()))
      { w with
        phase := .watching
        handle := ⟨true, none⟩
        history := w.history ++ [.resolved w.attempt (.ok ()), .published (.started svc.name w.attempt)] }
  | retry {e : String} : w.phase = .restarting → svc.policy.permitsRestartAfter w.attempt true = true →
    Steps svc k w (.started (.error e))
      { w with
        phase := .watching
        handle := ⟨false, none⟩
        history := w.history ++
          [.resolved w.attempt (.error e), .published (.failed svc.name e w.attempt true)] }
  | giveUp {e : String} : w.phase = .restarting → svc.policy.permitsRestartAfter w.attempt true = false →
    Steps svc k w (.started (.error e))
      { w with
        phase := .returned
        history := w.history ++
          [.resolved w.attempt (.error e), .published (.failed svc.name e w.attempt false)] }
  | rootExit {r : JoinResult} : w.phase = .watching → w.handle = ⟨true, none⟩ →
    Steps svc k w (.exits r)
      { w with handle := ⟨true, some r⟩, history := w.history ++ [.exited w.attempt r k.now] }
  | placeholderExit : w.phase = .watching → w.handle = ⟨false, none⟩ →
    Steps svc k w (.exits .ok) { w with handle := ⟨false, some .ok⟩ }
  | joinStopped {ns : Nat} : w.phase = .watching → w.handle.result = some .ok →
    svc.policy.isAlways = true →
    Steps svc k w (.joined ns)
      { w with
        phase := .backingOff (k.now + (svc.policy.backoffForAttempt ns w.attempt).nanos)
        history := w.history ++ [.published (.stopped svc.name)] }
  | joinDone {ns : Nat} : w.phase = .watching → w.handle.result = some .ok →
    svc.policy.isAlways = false →
    Steps svc k w (.joined ns)
      { w with phase := .returned, history := w.history ++ [.published (.stopped svc.name)] }
  | joinPanicked {ns : Nat} {err : String} : w.phase = .watching → w.handle.result = some (.panic err) →
    svc.policy.permitsRestartAfter w.attempt true = true →
    Steps svc k w (.joined ns)
      { w with
        phase := .backingOff (k.now + (svc.policy.backoffForAttempt ns w.attempt).nanos)
        history := w.history ++
          [.published (.failed svc.name ("service task panicked: " ++ err) w.attempt true)] }
  | joinFailed {ns : Nat} {err : String} : w.phase = .watching → w.handle.result = some (.panic err) →
    svc.policy.permitsRestartAfter w.attempt true = false →
    Steps svc k w (.joined ns)
      { w with
        phase := .returned
        history := w.history ++
          [.published (.failed svc.name ("service task panicked: " ++ err) w.attempt false)] }
  | joinCancelled {ns : Nat} : w.phase = .watching → w.handle.result = some .cancelled →
    Steps svc k w (.joined ns) { w with phase := .returned }
  | wake {u : Nat} : w.phase = .backingOff u → u ≤ k.now →
    Steps svc k w .slept
      { w with
        phase := .restarting
        attempt := saturatingAdd w.attempt 1
        history := w.history ++ [.called (saturatingAdd w.attempt 1) k.now] }
  | abortRoot : w.phase = .watching → k.shutdown = true → w.handle = ⟨true, none⟩ →
    Steps svc k w .shutdown
      { w with
        phase := .returned
        handle := ⟨true, some .cancelled⟩
        history := w.history ++ [.aborted w.attempt k.now] }
  | leaveHandle : w.phase = .watching → k.shutdown = true → w.handle ≠ ⟨true, none⟩ →
    Steps svc k w .shutdown { w with phase := .returned }
  | leaveBackoff {u : Nat} : w.phase = .backingOff u → k.shutdown = true →
    Steps svc k w .shutdown { w with phase := .returned }

theorem handle_eq {b : Bool} {r : Option JoinResult} (hb : w.handle.root = b) (hr : w.handle.result = r) :
    w.handle = ⟨b, r⟩ := by
  rw [← hb, ← hr]

theorem steps_of_started {r : Except String Unit} (h : w.step svc k (.started r) = some w') :
    Steps svc k w (.started r) w' := by
  simp only [step] at h
  split at h <;> rename_i hp
  · cases h
    rcases r with e | ⟨⟨⟩⟩
    · exact .refuse hp
    · convert Steps.firstStart hp using 1
      simp [onFirstStart, publish, log]
  · cases h
    rcases r with e | ⟨⟨⟩⟩
    · simp only [onRestart]
      cases hr : svc.policy.permitsRestartAfter w.attempt true
      · convert Steps.giveUp hp hr using 1
        simp [publish, log, goto]
      · convert Steps.retry hp hr using 1
        simp [publish, log]
    · convert Steps.restart hp using 1
      simp [onRestart, publish, log]
  · cases h

theorem steps_of_joined {ns : Nat} (h : w.step svc k (.joined ns) = some w') :
    Steps svc k w (.joined ns) w' := by
  simp only [step] at h
  split at h
  · rename_i r hp hr
    cases h
    cases r with
    | ok =>
      simp only [onJoin]
      split
      · rename_i ha
        simp only [backOff, RestartPolicy.permits_of_isAlways ha, ite_true]
        exact .joinStopped hp hr ha
      · rename_i ha
        exact .joinDone hp hr (by simpa using ha)
    | panic err =>
      simp only [onJoin]
      cases hw : svc.policy.permitsRestartAfter w.attempt true
      · exact .joinFailed hp hr hw
      · exact .joinPanicked hp hr hw
    | cancelled => exact .joinCancelled hp hr
  · cases h

theorem steps_of_shutdown (h : w.step svc k .shutdown = some w') : Steps svc k w .shutdown w' := by
  simp only [step] at h
  split at h
  · rename_i hk
    split at h <;> rename_i hp
    · cases h
      unfold abort
      split
      · rename_i hh
        exact .abortRoot hp hk (handle_eq hh.1 hh.2)
      · rename_i hh
        exact .leaveHandle hp hk fun e => hh (by simp [e])
    · cases h; exact .leaveBackoff hp hk
    · cases h
  · cases h

/-- Every step is one of `Steps`. -/
theorem steps_of_step (h : w.step svc k a = some w') : Steps svc k w a w' := by
  cases a with
  | started r => exact steps_of_started h
  | exits r =>
    simp only [step] at h
    split at h
    · rename_i hc
      obtain ⟨hp, hr, hroot⟩ := hc
      cases h
      cases hb : w.handle.root
      · simp only [hb, Bool.false_eq_true, false_or] at hroot
        subst hroot
        simp only [onExit, hb, Bool.false_eq_true, ite_false]
        exact .placeholderExit hp (handle_eq hb hr)
      · simp only [onExit, hb, ite_true]
        exact .rootExit hp (handle_eq hb hr)
    · cases h
  | joined ns => exact steps_of_joined h
  | slept =>
    simp only [step] at h
    split at h
    · rename_i u hp
      split at h
      · rename_i hu
        cases h
        exact .wake hp hu
      · cases h
    · cases h
  | shutdown => exact steps_of_shutdown h

/-- `Steps` lists nothing but steps. -/
theorem step_of_steps (h : Steps svc k w a w') : w.step svc k a = some w' := by
  cases h with
  | firstStart hp => simp [step, hp, onFirstStart, publish, log]
  | refuse hp => simp [step, hp, onFirstStart, log, goto]
  | restart hp => simp [step, hp, onRestart, publish, log]
  | retry hp hr => simp [step, hp, onRestart, hr, publish, log]
  | giveUp hp hr => simp [step, hp, onRestart, hr, publish, log, goto]
  | rootExit hp hh => simp [step, hp, hh, onExit, log]
  | placeholderExit hp hh => simp [step, hp, hh, onExit]
  | joinStopped hp hr ha =>
    simp [step, hp, hr, onJoin, ha, backOff, RestartPolicy.permits_of_isAlways ha, publish, log, goto]
  | joinDone hp hr ha => simp [step, hp, hr, onJoin, ha, publish, log, goto]
  | joinPanicked hp hr hw => simp [step, hp, hr, onJoin, hw, backOff, publish, log, goto]
  | joinFailed hp hr hw => simp [step, hp, hr, onJoin, hw, backOff, publish, log, goto]
  | joinCancelled hp hr => simp [step, hp, hr, onJoin, goto]
  | wake hp hu => simp [step, hp, hu, log, goto]
  | abortRoot hp hk hh => simp [step, hp, hk, hh, abort, log, goto]
  | leaveHandle hp hk hh =>
    have : ¬ (w.handle.root = true ∧ w.handle.result = none) := fun e => hh (handle_eq e.1 e.2)
    simp [step, hp, hk, abort, this, goto]
  | leaveBackoff hp hk => simp [step, hp, hk, goto]

end Watcher

/-- A step of the system is the passing of time, the signal, or a step of
the watcher. -/
theorem System.step_cases {svc : Supervised} {s s' : System} {a : SystemAction}
    (h : s.step svc a = some s') :
    (∃ d, a = .tick d ∧ s' = { s with kernel := { s.kernel with now := s.kernel.now + d } }) ∨
    (a = .signal ∧ s' = { s with kernel := { s.kernel with shutdown := true } }) ∨
    ∃ b w, a = .watch b ∧ s.watcher.Steps svc s.kernel b w ∧ s' = { s with watcher := w } := by
  cases a with
  | tick d => exact .inl ⟨d, rfl, by simpa [step] using h.symm⟩
  | signal => exact .inr (.inl ⟨rfl, by simpa [step] using h.symm⟩)
  | watch b =>
    simp only [step, Option.map_eq_some_iff] at h
    obtain ⟨w, hw, rfl⟩ := h
    exact .inr (.inr ⟨b, w, rfl, Watcher.steps_of_step hw, rfl⟩)

/-- What holds of the watcher at the start, and is kept by its steps, holds of it
in every reachable state. -/
theorem System.watcher_invariant {svc : Supervised} {init : System → Prop} {ok : System → SystemAction → Prop}
    {I : Watcher → Prop} (hinit : ∀ {s}, init s → I s.watcher)
    (hstep : ∀ {s b w}, I s.watcher → ok s (.watch b) → s.watcher.Steps svc s.kernel b w → I w) {s : System}
    (h : Transition.Reach (System.step svc) init ok s) : I s.watcher := by
  refine h.invariant (I := fun s => I s.watcher) hinit fun hi hok hs => ?_
  rcases System.step_cases hs with ⟨d, rfl, rfl⟩ | ⟨rfl, rfl⟩ | ⟨b, w, rfl, hw, rfl⟩
  · exact hi
  · exact hi
  · exact hstep hi hok hw

theorem System.step_watch {svc : Supervised} {s : System} {b : WatcherAction} {w : Watcher}
    (h : s.watcher.Steps svc s.kernel b w) :
    s.step svc (.watch b) = some { s with watcher := w } := by
  simp [step, Watcher.step_of_steps h]

end WalaStack.Impl.Runtime
