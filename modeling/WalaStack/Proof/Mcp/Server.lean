import WalaStack.Proof.Supervision.Steps
import WalaStack.Spec.Server

/-!
# Unhealthy servers

A failed ping ends the per-server task normally, after its clean-up; the
watcher takes that for a clean exit, which `OnFailure` does not restart. The
first ping that fails leads to such an end (`reach_unhealthy`), and a server
whose pings are all answered is never reported (`healthy_of_reachable`), so that
the promise holds exactly if no ping ever fails (`unhealthy_restarts_iff`).
-/

namespace WalaStack.Proof.Mcp

open WalaStack.Rust WalaStack.Impl.Runtime WalaStack.Impl.Mcp WalaStack.Spec.Mcp WalaStack.Transition

variable {svc : McpServerService} {pings : Nat → Except String Unit} {s s' : Server}

/-! ## Steps of the service -/

/-- The steps of the service, by the way through the code; the watcher's own
steps are those of `Watcher.Steps`. -/
inductive ServerSteps (svc : McpServerService) (s : Server) : ServerAction → Server → Prop
  | tick {d : Nat} : ServerSteps svc s (.tick d) { s with kernel := { s.kernel with now := s.kernel.now + d } }
  | signal : ServerSteps svc s .signal { s with kernel := { s.kernel with shutdown := true } }
  | watch {a : WatcherAction} {w : Watcher} : s.watcher.owns a = true →
    s.watcher.Steps svc.supervised s.kernel a w → ServerSteps svc s (.watch a) (s.onWatch svc w a)
  | slept {wake : Nat} : s.task = some (.selecting wake) → wake ≤ s.kernel.now →
    ServerSteps svc s .slept { s with task := some .pinging }
  | answered : s.task = some .pinging →
    ServerSteps svc s (.answered (.ok ()))
      { s with
        pings := s.pings + 1
        task := some (.selecting (s.kernel.now + svc.pingInterval.nanos)) }
  | failed {e : String} : s.task = some .pinging →
    ServerSteps svc s (.answered (.error e))
      { s.publish (.unhealthy svc.id e) with pings := s.pings + 1, task := some .closing }
  | shutdown {wake : Nat} : s.task = some (.selecting wake) → s.kernel.shutdown = true →
    ServerSteps svc s .shutdown { s with task := some .closing }
  | closed : s.task = some .closing → ServerSteps svc s .closed { s with task := some .removing }
  | removed {w : Watcher} : s.task = some .removing → s.watcher.Steps svc.supervised s.kernel (.exits .ok) w →
    ServerSteps svc s .removed
      { ({ s with connection := none }).publish (.disconnected svc.id none) with
        watcher := w
        task := none }

theorem serverSteps_of_step {a : ServerAction} (h : s.step svc a = some s') : ServerSteps svc s a s' := by
  cases a with
  | tick d =>
    obtain rfl := Option.some.inj h
    exact .tick
  | signal =>
    obtain rfl := Option.some.inj h
    exact .signal
  | watch a =>
    simp only [Server.step] at h
    split at h
    · rename_i ho
      obtain ⟨w, hw, rfl⟩ := Option.map_eq_some_iff.mp h
      exact .watch ho (Watcher.steps_of_step hw)
    · cases h
  | slept =>
    simp only [Server.step] at h
    split at h
    · rename_i wake ht
      split at h
      · rename_i hw
        obtain rfl := Option.some.inj h
        exact .slept ht hw
      · cases h
    · cases h
  | answered result =>
    simp only [Server.step] at h
    split at h
    · rename_i ht
      obtain rfl := Option.some.inj h
      exact .answered ht
    · rename_i e ht
      obtain rfl := Option.some.inj h
      exact .failed ht
    · cases h
  | shutdown =>
    simp only [Server.step] at h
    split at h
    · rename_i wake ht
      split at h
      · rename_i hs
        obtain rfl := Option.some.inj h
        exact .shutdown ht hs
      · cases h
    · cases h
  | closed =>
    simp only [Server.step] at h
    split at h
    · rename_i ht
      obtain rfl := Option.some.inj h
      exact .closed ht
    · cases h
  | removed =>
    simp only [Server.step] at h
    split at h
    · rename_i ht
      obtain ⟨w, hw, rfl⟩ := Option.map_eq_some_iff.mp h
      exact .removed ht (Watcher.steps_of_step hw)
    · cases h

/-! ## Reaching a failed ping -/

/-- The per-server task is in its loop, after `n` pings. -/
structure Serving (s : Server) (n : Nat) : Prop where
  looping : ∃ wake, s.task = some (.selecting wake)
  pings_eq : s.pings = n
  running : s.kernel.shutdown = false
  phase : s.watcher.phase = .watching
  handle : s.watcher.handle = ⟨true, none⟩

/-- The state at the `n`th ping. -/
def atPing (s : Server) (wake : Nat) : Server :=
  { s with
    kernel := { s.kernel with now := s.kernel.now + wake }
    task := some .pinging }

theorem reach_atPing {wake : Nat} (h : Reachable svc pings s) (ht : s.task = some (.selecting wake)) :
    Reachable svc pings (atPing s wake) := by
  have ticked := h.step (a := ServerAction.tick wake) trivial rfl
  refine ticked.step (a := ServerAction.slept) trivial ?_
  simp [Server.step, ht, atPing]

/-- The loop goes on while pings are answered. -/
theorem reach_serving (svc : McpServerService) (n : Nat) (hok : ∀ j < n, pings j = .ok ()) :
    ∃ s, Reachable svc pings s ∧ Serving s n := by
  induction n with
  | zero =>
    have start : Reachable svc pings (Server.init ⟨0, false⟩) := .init ⟨0, rfl⟩
    exact ⟨_, start.step (a := ServerAction.watch (.started (.ok ()))) trivial rfl, ⟨_, rfl⟩, rfl, rfl, rfl, rfl⟩
  | succ n ih =>
    obtain ⟨s, hr, hs⟩ := ih fun j hj => hok j (Nat.lt_succ_of_lt hj)
    obtain ⟨wake, ht⟩ := hs.looping
    have answer : Except.ok () = pings (atPing s wake).pings := by
      rw [show (atPing s wake).pings = n from hs.pings_eq, hok n (Nat.lt_succ_self n)]
    refine ⟨_, (reach_atPing hr ht).step (a := ServerAction.answered (.ok ())) answer rfl, ⟨_, rfl⟩, ?_, hs.running,
      hs.phase, hs.handle⟩
    exact congrArg (· + 1) hs.pings_eq

theorem step_watch {a : WatcherAction} {w : Watcher} (ho : s.watcher.owns a = true)
    (hs : s.watcher.Steps svc.supervised s.kernel a w) :
    s.step svc (.watch a) = some (s.onWatch svc w a) := by
  simp only [Server.step, ho, ite_true, Watcher.step_of_steps hs, Option.map_some]

/-- The clean-up runs to its end, and the watcher ends with it. -/
theorem reach_returned (hr : Reachable svc pings s) (ht : s.task = some .closing)
    (hp : s.watcher.phase = .watching) (hh : s.watcher.handle = ⟨true, none⟩) :
    ∃ s', Reachable svc pings s' ∧ s'.watcher.phase = .returned ∧ s'.kernel = s.kernel ∧
      s'.starts = s.starts ∧ ∀ x ∈ s.events, x ∈ s'.events := by
  have closed : s.step svc .closed = some { s with task := some .removing } := by simp only [Server.step, ht]
  have exit : s.watcher.Steps svc.supervised s.kernel (.exits .ok) _ := .rootExit hp hh
  obtain ⟨s₂, hs₂⟩ : ∃ s₂, Server.step svc { s with task := some .removing } .removed = some s₂ := by
    simp only [Server.step, Watcher.step_of_steps exit, Option.map_some]
    exact ⟨_, rfl⟩
  have hr₂ := (hr.step (a := ServerAction.closed) trivial closed).step (a := ServerAction.removed) trivial hs₂
  simp only [Server.step, Watcher.step_of_steps exit, Option.map_some, Option.some.injEq] at hs₂
  subst hs₂
  refine ⟨_, hr₂.step (a := ServerAction.watch (.joined 0)) trivial (step_watch rfl (.joinDone hp rfl rfl)),
    rfl, rfl, rfl, fun x hx => List.mem_append_left _ hx⟩

/-- A ping that fails ends the server for good. -/
theorem reach_unhealthy {n : Nat} (hr : Reachable svc pings s) (hs : Serving s n) {e : String}
    (he : pings n = .error e) : ∃ s', Reachable svc pings s' ∧ ¬ UnhealthyRestarts s' := by
  obtain ⟨wake, ht⟩ := hs.looping
  have answer : Except.error e = pings (atPing s wake).pings := by
    rw [show (atPing s wake).pings = n from hs.pings_eq, he]
  have failed := (reach_atPing hr ht).step (a := ServerAction.answered (.error e)) answer rfl
  obtain ⟨s', hr', hret, hk, hstarts, hev⟩ := reach_returned failed rfl hs.phase hs.handle
  refine ⟨s', hr', fun hu => Nat.lt_irrefl s'.starts ?_⟩
  refine hu svc.id e s'.starts (hev _ ?_) hret (by rw [hk]; exact hs.running)
  rw [hstarts]
  exact List.mem_append_right _ (List.mem_singleton.mpr rfl)

/-! ## The promise -/

/-- `McpServerUnhealthy` is published for a failed ping only. -/
theorem unhealthy_of_steps {a : ServerAction} {server reason : String} {n : Nat} (h : ServerSteps svc s a s')
    (hm : (.unhealthy server reason, n) ∈ s'.events) :
    (.unhealthy server reason, n) ∈ s.events ∨ a = .answered (.error reason) := by
  cases h with
  | tick | signal | slept | answered | shutdown | closed => exact .inl hm
  | @watch a w =>
    rcases a with (_ | ⟨⟨⟩⟩) | _ | _ | _ | _ <;> simpa [Server.onWatch, Server.publish] using hm
  | failed =>
    simp only [Server.publish, List.mem_append, List.mem_singleton, Prod.mk.injEq,
      McpEvent.unhealthy.injEq] at hm
    exact hm.imp_right fun e => by rw [e.1.2]
  | removed => simpa [Server.publish] using hm

/-- A server whose pings are all answered is never reported unhealthy. -/
theorem healthy_of_reachable (hok : ∀ n, pings n = .ok ()) (h : Reachable svc pings s) :
    ∀ server reason n, (.unhealthy server reason, n) ∉ s.events := by
  refine h.invariant (I := fun s => ∀ server reason n, (McpEvent.unhealthy server reason, n) ∉ s.events) ?_ ?_
  · rintro s ⟨now, rfl⟩ server reason n hm
    cases hm
  · intro s a s' hi ha hs server reason n hm
    rcases unhealthy_of_steps (serverSteps_of_step hs) hm with hm | rfl
    · exact hi server reason n hm
    · have : Except.error reason = pings s.pings := ha
      rw [hok] at this
      cases this

/-- Every server that `McpServerUnhealthy` was published for is started again,
unless the kernel shuts down, exactly if no ping fails. -/
theorem unhealthy_restarts_iff (svc : McpServerService) (pings : Nat → Except String Unit) :
    (∀ s, Reachable svc pings s → UnhealthyRestarts s) ↔ ∀ n, pings n = .ok () := by
  constructor
  · intro h
    by_contra hf
    have hex : ∃ n, pings n ≠ .ok () := not_forall.mp hf
    obtain ⟨n, hn, hlt⟩ : ∃ n, pings n ≠ .ok () ∧ ∀ j < n, pings j = .ok () := by
      classical
      exact ⟨Nat.find hex, Nat.find_spec hex, fun j hj => not_not.mp (Nat.find_min hex hj)⟩
    obtain ⟨e, he⟩ : ∃ e, pings n = .error e := by
      rcases hp : pings n with e | ⟨⟨⟩⟩
      · exact ⟨e, rfl⟩
      · exact absurd hp hn
    obtain ⟨s, hr, hs⟩ := reach_serving svc n hlt
    obtain ⟨s', hr', hu⟩ := reach_unhealthy hr hs he
    exact hu (h s' hr')
  · exact fun hok s hr server reason n hm => absurd hm (healthy_of_reachable hok hr server reason n)

/-- The first ping of a server fails, and its watcher returns. -/
theorem unhealthy_not_restarted :
    ∃ s, Reachable ⟨"fs", Duration.fromSecs 30⟩ (fun _ => .error "timed out") s ∧ ¬ UnhealthyRestarts s := by
  obtain ⟨s, hr, hs⟩ := reach_serving ⟨"fs", Duration.fromSecs 30⟩ 0
    (show ∀ j < 0, (fun _ : Nat => Except.error "timed out") j = .ok () from nofun)
  exact reach_unhealthy hr hs rfl

end WalaStack.Proof.Mcp
