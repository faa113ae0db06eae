import WalaStack.Proof.Supervision.Steps
import WalaStack.Spec.HttpDrain

/-!
# When the HTTP service drains

The accept loop does not wait for the tasks that it has spawned, nor does the
watcher for the loop. After the signal no request is newly half served
(`halfServed_step`), so all depends on the moment at which the loop returns, and
on that at which the drain counts the watcher.
-/

namespace WalaStack.Proof.Http

open WalaStack.Impl.Runtime WalaStack.Impl.Http WalaStack.Spec.Http WalaStack.Transition

variable {svc : Supervised} {s s' : HttpService} {a : HttpAction} {k : Kernel} {w w' : Watcher}

/-! ## Connections -/

/-- After the signal no request is newly half served. -/
theorem halfServed_step {down : Bool} {task task' : ConnectionTask} {b : ConnectionAction}
    (h : task.step down b = some task') (hs : halfServed task' = true) : down = false ∨ halfServed task = true := by
  unfold ConnectionTask.step at h
  split at h
  · cases h
    left
    simpa [halfServed] using hs
  · cases h
    exact .inr hs
  all_goals cases h <;> cases hs

/-! ## The watcher -/

/-- Nothing has ended yet: the service starts, or its first accept loop runs. -/
def Unended (w : Watcher) : Prop :=
  (w.phase = .starting ∨ w.phase = .refused ∨ w.phase = .watching) ∧ w.handle = ⟨true, none⟩

theorem unended_step {b : WatcherAction} (hw : Unended w) (hdown : k.shutdown = false) (ho : w.owns b = true)
    (h : w.Steps svc k b w') : Unended w' := by
  obtain ⟨hphase, hhandle⟩ := hw
  cases h with
  | firstStart hp => exact ⟨.inr (.inr rfl), hhandle⟩
  | refuse hp => exact ⟨.inr (.inl rfl), hhandle⟩
  | rootExit => simp [Watcher.owns, hhandle] at ho
  | abortRoot _ hd | leaveHandle _ hd | leaveBackoff _ hd =>
    rw [hdown] at hd
    cases hd
  | _ => simp_all

/-! ## Steps -/

/-- The steps of the service. -/
inductive HttpSteps (svc : Supervised) (s : HttpService) : HttpAction → HttpService → Prop
  | tick (d : Nat) :
    HttpSteps svc s (.system (.tick d))
      { s with system := { s.system with kernel := { s.system.kernel with now := s.system.kernel.now + d } } }
  | signal :
    HttpSteps svc s (.system .signal)
      { s with system := { s.system with kernel := { s.system.kernel with shutdown := true } } }
  | watch {b : WatcherAction} {w : Watcher} : s.system.watcher.owns b = true →
    s.system.watcher.Steps svc s.system.kernel b w →
    HttpSteps svc s (.system (.watch b)) { s with system := { s.system with watcher := w } }
  | accepted : HttpSteps svc s .accepted { s with connections := s.connections ++ [.idle] }
  | acceptFailed : HttpSteps svc s .acceptFailed s
  | breaks {w : Watcher} : s.system.kernel.shutdown = true →
    HttpSteps svc s .breaks { s with system := { s.system with watcher := w }, ended := true }
  | connection {i : Nat} {b : ConnectionAction} {task task' : ConnectionTask} : s.connections[i]? = some task →
    task.step s.system.kernel.shutdown b = some task' →
    HttpSteps svc s (.connection i b) { s with connections := s.connections.set i task' }
  | drained : s.system.watcher.phase = .returned → HttpSteps svc s .drained { s with graceful := true }

theorem httpSteps_of_step (h : s.step svc a = some s') : HttpSteps svc s a s' := by
  cases a with
  | system b =>
    cases b with
    | tick d =>
      cases h
      exact .tick d
    | signal =>
      cases h
      exact .signal
    | watch b =>
      obtain ⟨ho, h⟩ := Option.ite_none_right_eq_some.mp h
      obtain ⟨system, hs, rfl⟩ := Option.map_eq_some_iff.mp h
      rcases System.step_cases hs with ⟨d, hb, -⟩ | ⟨hb, -⟩ | ⟨b', w, hb, hw, rfl⟩
      · cases hb
      · cases hb
      · cases hb
        exact .watch ho hw
  | accepted =>
    obtain ⟨-, heq⟩ := Option.ite_none_right_eq_some.mp h
    cases heq
    exact .accepted
  | acceptFailed =>
    obtain ⟨-, heq⟩ := Option.ite_none_right_eq_some.mp h
    cases heq
    exact .acceptFailed
  | breaks =>
    obtain ⟨hr, h⟩ := Option.ite_none_right_eq_some.mp h
    obtain ⟨system, hs, rfl⟩ := Option.map_eq_some_iff.mp h
    obtain ⟨w, -, rfl⟩ := Option.map_eq_some_iff.mp hs
    rw [Bool.and_eq_true] at hr
    exact .breaks hr.2
  | connection i b =>
    simp only [HttpService.step] at h
    split at h
    · rename_i task htask
      obtain ⟨task', hs, rfl⟩ := Option.map_eq_some_iff.mp h
      exact .connection htask hs
    · cases h
  | drained =>
    obtain ⟨hp, heq⟩ := Option.ite_none_right_eq_some.mp h
    cases heq
    exact .drained hp

/-! ## The invariant -/

structure HttpInv (s : HttpService) : Prop where
  unended : s.system.kernel.shutdown = false → Unended s.system.watcher
  down : s.ended = true ∨ s.graceful = true → s.system.kernel.shutdown = true

theorem httpInv_init (k : Kernel) : HttpInv (.init k) where
  unended _ := ⟨.inl rfl, rfl⟩
  down h := by rcases h with h | h <;> cases h

theorem httpInv_step (hi : HttpInv s) (h : HttpSteps svc s a s') : HttpInv s' := by
  cases h with
  | tick | accepted | acceptFailed | connection => exact ⟨hi.unended, hi.down⟩
  | signal => exact ⟨fun hd => (by cases hd), fun _ => rfl⟩
  | watch ho hw => exact ⟨fun hd => unended_step (hi.unended hd) hd ho hw, hi.down⟩
  | breaks hdown =>
    refine ⟨fun hd => ?_, fun _ => hdown⟩
    rw [show s.system.kernel.shutdown = false from hd] at hdown
    cases hdown
  | drained hp =>
    -- Without the signal, the watcher has not returned.
    have hdown : s.system.kernel.shutdown = true := by
      by_contra hd
      have hun := (hi.unended (by simpa using hd)).1
      rw [hp] at hun
      simp at hun
    exact ⟨hi.unended, fun _ => hdown⟩

theorem allServed_set {i : Nat} {task : ConnectionTask} (h : AllServed s) (htask : halfServed task = false) :
    AllServed { s with connections := s.connections.set i task } := by
  intro t ht
  rcases List.mem_or_eq_of_mem_set ht with ht | rfl
  · exact h t ht
  · exact htask

theorem drains_step (hi : HttpInv s) (hd : HttpDrains s) (h : HttpSteps svc s a s') :
    HttpDrains s' ↔ EndsServed s a := by
  cases h with
  | tick | signal | watch | acceptFailed =>
    exact iff_of_true ⟨hd.ended, hd.graceful⟩ trivial
  | accepted =>
    have hnew : AllServed s → AllServed { s with connections := s.connections ++ [.idle] } := by
      intro hall t ht
      rcases List.mem_append.mp ht with ht | ht
      · exact hall t ht
      · rw [List.mem_singleton.mp ht]
        rfl
    exact iff_of_true ⟨fun he => hnew (hd.ended he), fun hg => hnew (hd.graceful hg)⟩ trivial
  | @connection i b task task' htask hs =>
    have hkept : (s.ended = true ∨ s.graceful = true) → AllServed s →
        AllServed { s with connections := s.connections.set i task' } := by
      intro hover hall
      refine allServed_set hall (Bool.eq_false_iff.mpr fun ht => ?_)
      rcases halfServed_step hs ht with hdown | hold
      · rw [hi.down hover] at hdown
        cases hdown
      · rw [hall task (List.mem_of_getElem? htask)] at hold
        cases hold
    exact iff_of_true ⟨fun he => hkept (.inl he) (hd.ended he), fun hg => hkept (.inr hg) (hd.graceful hg)⟩ trivial
  | breaks =>
    constructor
    · intro hd'
      exact hd'.ended rfl
    · intro hok
      exact ⟨fun _ => hok, hd.graceful⟩
  | drained =>
    constructor
    · intro hd'
      exact hd'.graceful rfl
    · intro hok
      exact ⟨hd.ended, fun _ => hok⟩

/-- In every run of the service, no request is half served once the accept loop
has ended on its own, or a drain has counted the service, exactly if none is
when the loop takes its shutdown branch and when the drain counts the watcher. -/
theorem http_drains_iff {as : List HttpAction} (h : exec (HttpService.step svc) (.init k) as = some s) :
    AlongStates (HttpService.step svc) HttpDrains (.init k) as ↔
      AlongSteps (HttpService.step svc) EndsServed (.init k) as := by
  refine alongStates_iff_alongSteps (fun hi hs => ?_) (fun hi hd hs => ?_) (httpInv_init k) ?_ h
  · exact httpInv_step hi (httpSteps_of_step hs)
  · exact drains_step hi hd (httpSteps_of_step hs)
  · exact ⟨fun he => (by cases he), fun hg => (by cases hg)⟩

/-! ## A handler at the signal -/

def httpService : Supervised := ⟨"http", .oneShot⟩

/-- A connection is accepted, and a request on it is with its handler. -/
def accepts : List HttpAction :=
  [.system (.watch (.started (.ok ()))), .accepted, .connection 0 .head, .connection 0 (.collected true)]

/-- The loop returns beside the handler. -/
theorem ended_half_served :
    ¬ ∀ svc k as s, exec (HttpService.step svc) (.init k) as = some s → HttpDrains s := by
  intro h
  have hdrains := h httpService ⟨0, false⟩ (accepts ++ [.system .signal, .breaks]) _ rfl
  exact absurd (hdrains.ended rfl) (by decide)

/-- The handler responds before the loop is polled. -/
theorem responded_before_end :
    AlongStates (HttpService.step httpService) HttpDrains (.init ⟨0, false⟩)
      (accepts ++ [.system .signal, .connection 0 .responded, .breaks]) :=
  (http_drains_iff rfl).mpr (by decide)

end WalaStack.Proof.Http
