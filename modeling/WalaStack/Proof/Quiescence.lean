import WalaStack.Proof.Scheduler.Steps
import WalaStack.Proof.Supervision.Tree
import WalaStack.Spec.Quiescence

/-!
# What runs on after the runtime has stopped

`quiesced_step`: where there is nothing left to run, no step is an activity,
and only a new service or schedule changes that. `exists_activity`: everywhere
else the run can go on to one. `quiescent_iff` is the two together, along
every run.
-/

namespace WalaStack.Proof.Runtime

open WalaStack.Rust WalaStack.Impl.Runtime WalaStack.Spec.Runtime WalaStack.Spec.Supervision
  WalaStack.Proof.Supervision WalaStack.Transition

variable {r r' : Runtime} {a : RuntimeAction} {c c' : Child} {k : Kernel} {cfg : Scheduled} {clock : Clock}
  {s s' : Schedule}

/-! ## Services -/

theorem not_rootRuns_iff :
    c.rootRuns = false ↔ (c.watcher.phase = .watching → c.watcher.handle ≠ ⟨true, none⟩) := by
  simp [Child.rootRuns]

/-- A final watcher whose root task does not run starts none, and stays
final. -/
theorem final_step {svc : Supervised} {w w' : Watcher} {b : WatcherAction} (h : Final svc w)
    (hr : w.phase = .watching → w.handle ≠ ⟨true, none⟩) (hs : w.Steps svc k b w') :
    Final svc w' ∧ (w'.phase = .watching → w'.handle ≠ ⟨true, none⟩) := by
  unfold Final at h ⊢
  cases hs with
  | firstStart hp | refuse hp | restart hp | retry hp | giveUp hp | wake hp | leaveBackoff hp => simp [hp] at h
  | rootExit hp hh => exact absurd hh (hr hp)
  | placeholderExit hp hh =>
    refine ⟨?_, by simp⟩
    simpa [hp, hh] using h
  | joinStopped hp hr ha => simp [hp, hr, restartsAfter, ha] at h
  | joinPanicked hp hr hw => simp [hp, hr, restartsAfter, hw] at h
  | joinDone | joinFailed | joinCancelled | abortRoot | leaveHandle => simp

/-- A spent service stays spent. -/
theorem childSpent_step (h : ChildSpent c) (hs : ChildSteps k c c') : ChildSpent c' := by
  cases hs with
  | same => exact h
  | aborted => exact ⟨h.idle, h.final⟩
  | cancelled => exact ⟨h.idle, .inl rfl⟩
  | @watch b w ha hw =>
    have hidle := not_rootRuns_iff.mp h.idle
    rcases h.final with hc | hf
    · -- Of a dropped watcher only the exit of its root task is left.
      refine ⟨not_rootRuns_iff.mpr ?_, .inl hc⟩
      cases hw with
      | rootExit | placeholderExit => simp
      | _ => simp [Child.allows, hc] at ha
    · obtain ⟨hf, hr⟩ := final_step hf hidle hw
      exact ⟨not_rootRuns_iff.mpr hr, .inr hf⟩

/-! ## Schedules -/

/-- A spent schedule stays spent, and does nothing. -/
theorem scheduleSpent_step {a : ScheduleAction} (h : ScheduleSpent s) (hs : s.step cfg clock a = some s') :
    ScheduleSpent s' ∧ s'.history = s.history := by
  have hafter : ∀ s : Schedule, s.cancelled = true →
      ScheduleSpent (s.afterFire cfg clock) ∧ (s.afterFire cfg clock).history = s.history := fun s hc => by
    unfold Schedule.afterFire
    split
    · exact ⟨trivial, rfl⟩
    · exact ⟨hc, rfl⟩
  unfold ScheduleSpent at h
  cases Scheduler.scheduleSteps_of_step hs with
  | stop | leaveWait | shutdown => exact ⟨trivial, rfl⟩
  | fire hp _ hlive =>
    simp only [hp] at h
    exact absurd (h.symm.trans hlive) Bool.noConfusion
  | retry hp =>
    simp only [hp] at h
    simp only [Schedule.beginAttempt, h, ite_true]
    exact hafter s h
  | leaveBackoff hp =>
    simp only [hp] at h
    exact hafter _ h
  | returned hp | timedOut hp | panicked hp => simp only [hp] at h
  | cancel =>
    refine ⟨?_, rfl⟩
    unfold ScheduleSpent
    cases hp : s.phase with
    | waiting | backingOff => rfl
    | calling => simp only [hp] at h
    | returned => trivial

/-! ## Steps of a runtime -/

/-- The steps of a runtime, by what takes them. -/
inductive RuntimeSteps (r : Runtime) : RuntimeAction → Runtime → Prop
  | setWall {wall : DateTime} : RuntimeSteps r (.setWall wall) { r with wall := wall }
  | signal : RuntimeSteps r .signal r.shutdown
  | treeSignal : RuntimeSteps r (.tree .signal) r.shutdown
  | tree {b : TreeAction} {t : SupervisionTree} : r.tree.step b = some t →
    RuntimeSteps r (.tree b) { r with tree := t }
  | work {i : Nat} {c : Child} : r.tree.calls i = some c → c.rootRuns = true →
    RuntimeSteps r (.work i) { r with log := r.log ++ [.worked i] }
  | register {trigger : Trigger} {policies : Policies} :
    RuntimeSteps r (.register trigger policies) (r.register trigger policies)
  | schedule {k : Nat} {b : ScheduleAction} {cfg : Scheduled} {s s' : Schedule} : (cfg, s) ∈ r.schedules →
    s.step cfg r.clock b = some s' → RuntimeSteps r (.schedule k b) (r.onSchedule k cfg s s')
  | attempt {k attempt firedAt startedAt : Nat} {cfg : Scheduled} {s : Schedule} : (cfg, s) ∈ r.schedules →
    s.phase = .calling attempt firedAt startedAt →
    RuntimeSteps r (.attempt k) { r with log := r.log ++ [.attempted k] }
  | shutdownGracefully {order : List Nat} {t : SupervisionTree} {j : Nat} :
    r.shutdown.tree.step (.drain r.shutdown.shutdownDeadline order) = some t →
    RuntimeSteps r (.shutdownGracefully order) { r.shutdown with tree := t, draining := some j }
  | stopped : RuntimeSteps r .stopped { r with draining := none, log := r.log ++ [.stopped] }

theorem runtimeSteps_of_step (h : r.step a = some r') : RuntimeSteps r a r' := by
  cases a with
  | setWall =>
    cases h
    exact .setWall
  | register =>
    cases h
    exact .register
  | signal =>
    cases h
    exact .signal
  | tree b =>
    cases b with
    | signal =>
      cases h
      exact .treeSignal
    | _ =>
      simp only [Runtime.step, Option.map_eq_some_iff] at h
      obtain ⟨t, ht, rfl⟩ := h
      exact .tree ht
  | work i =>
    simp only [Runtime.step, Option.any_eq_true] at h
    split at h
    · rename_i hw
      obtain ⟨c, hc, hr⟩ := hw
      cases h
      exact .work hc hr
    · cases h
  | schedule k b =>
    simp only [Runtime.step] at h
    split at h
    · rename_i cfg s he
      obtain ⟨s', hs, rfl⟩ := Option.map_eq_some_iff.mp h
      exact .schedule (List.mem_of_getElem? he) hs
    · cases h
  | attempt k =>
    simp only [Runtime.step] at h
    split at h
    · rename_i cfg s he
      split at h
      · rename_i hp
        cases h
        exact .attempt (List.mem_of_getElem? he) hp
      · cases h
    · cases h
  | shutdownGracefully order =>
    simp only [Runtime.step, Option.map_eq_some_iff] at h
    obtain ⟨t, ht, rfl⟩ := h
    exact .shutdownGracefully ht
  | stopped =>
    simp only [Runtime.step] at h
    split at h
    · split at h
      · cases h
        exact .stopped
      · cases h
    · cases h

/-! ## The tree of a runtime -/

theorem shutdown_calls : r.shutdown.tree.calls = r.tree.calls ∧ r.shutdown.tree.next = r.tree.next := by
  unfold Runtime.shutdown
  split <;> exact ⟨rfl, rfl⟩

theorem drain_calls {t t' : SupervisionTree} {deadline : Duration} {order : List Nat}
    (h : t.step (.drain deadline order) = some t') : t'.calls = t.calls ∧ t'.next = t.next := by
  cases treeMoves_of_step h with
  | drain => exact ⟨rfl, rfl⟩

/-- A step of the runtime leaves the calls as they are, or is a step of the
tree. -/
theorem tree_of_step (h : RuntimeSteps r a r') :
    (r'.tree.calls = r.tree.calls ∧ r'.tree.next = r.tree.next) ∨
      ∃ b, a = .tree b ∧ r.tree.step b = some r'.tree := by
  cases h with
  | setWall | work | register | schedule | attempt | stopped => exact .inl ⟨rfl, rfl⟩
  | signal | treeSignal => exact .inl shutdown_calls
  | tree ht => exact .inr ⟨_, rfl, ht⟩
  | shutdownGracefully ht =>
    obtain ⟨hc, hn⟩ := drain_calls ht
    exact .inl ⟨hc.trans shutdown_calls.1, hn.trans shutdown_calls.2⟩

/-- `children_step` for a step of the runtime. -/
theorem runtime_children_step {P : Child → Prop} (hstep : ∀ {k c c'}, ChildSteps k c c' → P c → P c')
    (hins : ∀ {c}, P c → P { c with inserted := true })
    (hnew : ∀ svc k, registers a = true → P (.new svc k)) (hf : Fresh r.tree) (h : RuntimeSteps r a r')
    (hp : ∀ i c, r.tree.calls i = some c → P c) : ∀ i c, r'.tree.calls i = some c → P c := by
  rcases tree_of_step h with ⟨hc, -⟩ | ⟨b, rfl, hb⟩
  · rwa [hc]
  · refine children_step hstep hins (fun svc hsvc => hnew svc _ ?_) hf hb hp
    rw [hsvc]
    rfl

/-- The calls are numbered, and a new service has its first root task to
come. -/
structure RuntimeInv (r : Runtime) : Prop where
  fresh : Fresh r.tree
  first : ∀ i c, r.tree.calls i = some c → c.watcher.phase = .starting → c.watcher.handle = ⟨true, none⟩

theorem runtimeInv_init (h : Built r) : RuntimeInv r := by
  obtain ⟨k, wall, deadline, rfl⟩ := h
  refine ⟨fun _ _ => rfl, fun i c hc => ?_⟩
  cases hc

theorem runtimeInv_step (hi : RuntimeInv r) (h : RuntimeSteps r a r') : RuntimeInv r' := by
  constructor
  · rcases tree_of_step h with ⟨hc, hn⟩ | ⟨b, -, hb⟩
    · intro i hle
      rw [hc]
      exact hi.fresh i (hn ▸ hle)
    · exact fresh_step hi.fresh hb
  · refine runtime_children_step (P := fun c => c.watcher.phase = .starting → c.watcher.handle = ⟨true, none⟩)
      (fun hs hp => ?_) id (fun _ _ _ _ => rfl) hi.fresh h hi.first
    cases hs with
    | same | aborted | cancelled => exact hp
    | watch _ hw => cases hw <;> simp_all

/-! ## Quiesced states -/

theorem shutdown_quiet : r.shutdown.schedules = r.schedules ∧
    ∃ es, r.shutdown.log = r.log ++ es ∧ ∀ e ∈ es, isActivity e = false := by
  unfold Runtime.shutdown
  split
  · exact ⟨rfl, [], by simp, nofun⟩
  · exact ⟨rfl, [.stopping], rfl, by simp [isActivity]⟩

/-- A step that is no activity, and leaves the schedules spent. -/
def StepsQuietly (r r' : Runtime) : Prop :=
  (∀ e ∈ r'.schedules, ScheduleSpent e.2) ∧ ∃ es, r'.log = r.log ++ es ∧ ∀ e ∈ es, isActivity e = false

theorem StepsQuietly.of_eq (hq : Quiesced r) (hs : r'.schedules = r.schedules) (hl : r'.log = r.log) :
    StepsQuietly r r' :=
  ⟨by rw [hs]; exact hq.schedules, [], by rw [hl, List.append_nil], nofun⟩

theorem stepsQuietly_shutdown (hq : Quiesced r) : StepsQuietly r r.shutdown :=
  ⟨by rw [shutdown_quiet.1]; exact hq.schedules, shutdown_quiet.2⟩

theorem stepsQuietly_schedule {k : Nat} {b : ScheduleAction} (hq : Quiesced r) (he : (cfg, s) ∈ r.schedules)
    (hs : s.step cfg r.clock b = some s') : StepsQuietly r (r.onSchedule k cfg s s') := by
  obtain ⟨hs', hh⟩ := scheduleSpent_step (hq.schedules _ he) hs
  refine ⟨fun e hm => ?_, [], ?_, nofun⟩
  · rcases List.mem_or_eq_of_mem_set hm with hm | rfl
    · exact hq.schedules e hm
    · exact hs'
  · simp [Runtime.onSchedule, hh]

theorem stepsQuietly_of_quiesced (hq : Quiesced r) (ha : registers a = false) (h : RuntimeSteps r a r') :
    StepsQuietly r r' := by
  cases h with
  | setWall | tree => exact .of_eq hq rfl rfl
  | register => cases ha
  | signal | treeSignal | shutdownGracefully => exact stepsQuietly_shutdown hq
  | @work i c hc hr =>
    rw [(hq.children i c hc).idle] at hr
    cases hr
  | schedule he hs => exact stepsQuietly_schedule hq he hs
  | attempt he hp =>
    have hs := hq.schedules _ he
    simp only [ScheduleSpent, hp] at hs
  | stopped => exact ⟨hq.schedules, [.stopped], rfl, by simp [isActivity]⟩

/-- Where there is nothing left to run, only a new service or schedule can
change that. -/
theorem quiesced_step (hi : RuntimeInv r) (hq : Quiesced r) (ha : registers a = false)
    (h : RuntimeSteps r a r') :
    Quiesced r' ∧ ∃ es, r'.log = r.log ++ es ∧ ∀ e ∈ es, isActivity e = false := by
  obtain ⟨hs, hl⟩ := stepsQuietly_of_quiesced hq ha h
  refine ⟨⟨?_, hs⟩, hl⟩
  refine runtime_children_step (fun hs hc => childSpent_step hc hs) (fun hc => ⟨hc.idle, hc.final⟩) (fun _ _ hr => ?_)
    hi.fresh h hq.children
  rw [ha] at hr
  cases hr

/-! ## States that are not quiesced -/

/-- The run can go on to an activity, with no new service or schedule. -/
def Stirs (r : Runtime) : Prop :=
  ∃ as r' es e, (∀ a ∈ as, registers a = false) ∧ exec Runtime.step r as = some r' ∧
    r'.log = r.log ++ es ∧ e ∈ es ∧ isActivity e = true

theorem stirs_step (ha : registers a = false) (h : r.step a = some r') (hl : r'.log = r.log)
    (hs : Stirs r') : Stirs r := by
  obtain ⟨as, r'', es, e, has, he, hes, hm, hact⟩ := hs
  refine ⟨a :: as, r'', es, e, ?_, (exec_cons_of h as).trans he, by rw [hes, hl], hm, hact⟩
  exact List.forall_mem_cons.mpr ⟨ha, has⟩

theorem stirs_activity {es : List RuntimeEntry} {e : RuntimeEntry} (ha : registers a = false)
    (h : r.step a = some r') (hl : r'.log = r.log ++ es) (hm : e ∈ es) (hact : isActivity e = true) :
    Stirs r :=
  ⟨[a], r', es, e, by simp [ha], (exec_cons_of h []).trans (exec_nil _), hl, hm, hact⟩

variable {i : Nat}

theorem stirs_root (hc : r.tree.calls i = some c) (h : c.rootRuns = true) : Stirs r := by
  have hs : r.step (.work i) = some { r with log := r.log ++ [.worked i] } := by
    simp [Runtime.step, hc, h]
  exact stirs_activity rfl hs rfl List.mem_cons_self rfl

/-- A step of a watcher leads where the run stirs. -/
theorem stirs_watch {b : WatcherAction} {w : Watcher} (hc : r.tree.calls i = some c)
    (ha : c.allows b = true) (hw : c.watcher.Steps c.svc r.tree.kernel b w)
    (h : ∀ r', r'.tree.calls i = some { c with watcher := w } → r'.tree.kernel = r.tree.kernel → Stirs r') :
    Stirs r := by
  have hs : r.step (.tree (.watch i b)) =
      some { r with tree := r.tree.setCall i { c with watcher := w } } := by
    simp [Runtime.step, SupervisionTree.step, hc, ha, Watcher.step_of_steps hw]
  exact stirs_step rfl hs rfl (h _ (Function.update_self ..) rfl)

theorem stirs_restarting (hc : r.tree.calls i = some c) (hx : c.cancelled = false)
    (hp : c.watcher.phase = .restarting) : Stirs r := by
  apply stirs_watch hc (b := .started (.ok ())) (by simp [Child.allows, hx]) (.restart hp)
  intro r' hc' _
  exact stirs_root hc' (by simp [Child.rootRuns])

theorem stirs_tick (d : Nat)
    (h : ∀ r', r'.tree.calls = r.tree.calls → r'.schedules = r.schedules →
      r'.tree.kernel.now = r.tree.kernel.now + d → Stirs r') : Stirs r :=
  stirs_step (a := .tree (.tick d)) rfl rfl rfl (h _ rfl rfl rfl)

theorem stirs_backingOff {u : Nat} (hc : r.tree.calls i = some c) (hx : c.cancelled = false)
    (hp : c.watcher.phase = .backingOff u) : Stirs r := by
  apply stirs_tick (u - r.tree.kernel.now)
  intro r' hcalls _ hnow
  apply stirs_watch (hcalls ▸ hc) (b := .slept) (by simp [Child.allows, hx]) (.wake hp (by omega))
  intro r'' hc'' _
  exact stirs_restarting hc'' hx rfl

/-- A watcher that the policy has restart what ended stirs. -/
theorem stirs_ended {res : JoinResult} (hc : r.tree.calls i = some c) (hx : c.cancelled = false)
    (hp : c.watcher.phase = .watching) (hr : c.watcher.handle.result = some res)
    (h : restartsAfter c.svc.policy c.watcher.attempt res = true) : Stirs r := by
  have ha : c.allows (.joined 0) = true := by simp [Child.allows, hx]
  cases res with
  | ok =>
    apply stirs_watch hc ha (.joinStopped hp hr h)
    intro r' hc' _
    exact stirs_backingOff hc' hx rfl
  | panic err =>
    apply stirs_watch hc ha (.joinPanicked hp hr h)
    intro r' hc' _
    exact stirs_backingOff hc' hx rfl
  | cancelled => cases h

theorem stirs_child (hi : RuntimeInv r) (hc : r.tree.calls i = some c) (h : ¬ ChildSpent c) : Stirs r := by
  cases hroot : c.rootRuns with
  | true => exact stirs_root hc hroot
  | false =>
    have hidle := not_rootRuns_iff.mp hroot
    have hnot : ¬ (c.cancelled = true ∨ Final c.svc c.watcher) := fun hf => h ⟨hroot, hf⟩
    rw [not_or, Bool.not_eq_true] at hnot
    obtain ⟨hx, hf⟩ := hnot
    unfold Final at hf
    cases hp : c.watcher.phase with
    | starting =>
      apply stirs_watch hc (b := .started (.ok ())) (by simp [Child.allows, hx]) (.firstStart hp)
      intro r' hc' _
      exact stirs_root hc' (by simp [Child.rootRuns, hi.first i c hc hp])
    | restarting => exact stirs_restarting hc hx hp
    | backingOff u => exact stirs_backingOff hc hx hp
    | refused | returned => simp [hp] at hf
    | watching =>
      simp only [hp, Bool.not_eq_false] at hf
      cases hr : c.watcher.handle.result with
      | some res => exact stirs_ended hc hx hp hr (by simpa [hr] using hf)
      | none =>
        -- What runs is a placeholder, and its exit is restarted.
        have hb : c.watcher.handle.root = false := by
          by_contra hb
          exact hidle hp (Watcher.handle_eq (by simpa using hb) hr)
        apply stirs_watch hc (b := .exits .ok) rfl (.placeholderExit hp (Watcher.handle_eq hb hr))
        intro r' hc' _
        exact stirs_ended hc' hx hp rfl (by simpa [hr] using hf)

/-! ### Schedules -/

theorem stirs_called {k : Nat} {b : ScheduleAction} {attempt time : Nat}
    (he : r.schedules[k]? = some (cfg, s)) (h : s.step cfg r.clock b = some s')
    (hm : .called attempt time ∈ s'.history.drop s.history.length) : Stirs r := by
  have hs : r.step (.schedule k b) = some (r.onSchedule k cfg s s') := by
    simp [Runtime.step, he, h]
  exact stirs_activity rfl hs rfl (List.mem_filterMap.mpr ⟨_, hm, rfl⟩) rfl

theorem called_beginAttempt {attempt firedAt : Nat} (hx : s.cancelled = false) :
    (s.beginAttempt cfg clock attempt firedAt).history = s.history ++ [.called attempt clock.now] := by
  simp [Schedule.beginAttempt, hx, Schedule.log, Schedule.goto]

theorem called_fire (hx : s.cancelled = false) :
    .called 1 clock.now ∈ (s.fire cfg clock).history.drop s.history.length := by
  simp only [Schedule.fire, hx, Bool.false_eq_true, ite_false]
  rw [called_beginAttempt]
  · unfold Schedule.publish
    split <;> simp [Schedule.log]
  · unfold Schedule.publish
    split <;> rfl

theorem stirs_schedule {e : Scheduled × Schedule} (hm : e ∈ r.schedules) (h : ¬ ScheduleSpent e.2) :
    Stirs r := by
  obtain ⟨cfg, s⟩ := e
  obtain ⟨k, hk⟩ := List.mem_iff_getElem?.mp hm
  unfold ScheduleSpent at h
  cases hp : s.phase with
  | returned => simp [hp] at h
  | calling attempt firedAt startedAt =>
    have hs : r.step (.attempt k) = some { r with log := r.log ++ [.attempted k] } := by
      simp [Runtime.step, hk, hp]
    exact stirs_activity rfl hs rfl List.mem_cons_self rfl
  | waiting wake =>
    simp only [hp, Bool.not_eq_true] at h
    apply stirs_tick (wake - r.tree.kernel.now)
    intro r' _ hsched hnow
    have hs : s.step cfg r'.clock .slept = some (s.fire cfg r'.clock) := by
      have hw : wake ≤ r'.clock.now := by show wake ≤ r'.tree.kernel.now; omega
      simp [Schedule.step, hp, hw]
    exact stirs_called (hsched ▸ hk) hs (called_fire h)
  | backingOff attempt firedAt wake =>
    simp only [hp, Bool.not_eq_true] at h
    apply stirs_tick (wake - r.tree.kernel.now)
    intro r' _ hsched hnow
    have hs : s.step cfg r'.clock .slept = some (s.beginAttempt cfg r'.clock (attempt + 1) firedAt) := by
      have hw : wake ≤ r'.clock.now := by show wake ≤ r'.tree.kernel.now; omega
      simp [Schedule.step, hp, hw]
    have hcalled : .called (attempt + 1) r'.clock.now ∈
        (s.beginAttempt cfg r'.clock (attempt + 1) firedAt).history.drop s.history.length := by
      simp [called_beginAttempt h]
    exact stirs_called (hsched ▸ hk) hs hcalled

theorem exists_activity (hi : RuntimeInv r) (h : ¬ Quiesced r) : Stirs r := by
  by_cases hc : ∀ i c, r.tree.calls i = some c → ChildSpent c
  · have hs : ¬ ∀ e ∈ r.schedules, ScheduleSpent e.2 := fun hs => h ⟨hc, hs⟩
    simp only [not_forall] at hs
    obtain ⟨e, hm, he⟩ := hs
    exact stirs_schedule hm he
  · simp only [not_forall] at hc
    obtain ⟨i, c, hc, hn⟩ := hc
    exact stirs_child hi hc hn

/-! ## Runs -/

theorem quietAfterStop_append {h es : List RuntimeEntry} (hq : QuietAfterStop h)
    (hes : ∀ e ∈ es, isActivity e = false) : QuietAfterStop (h ++ es) := by
  intro pre post heq e hm
  rcases List.append_eq_append_iff.mp heq with ⟨rest, -, hr⟩ | ⟨rest, hr, hs⟩
  · exact hes e (by rw [hr]; simp [hm])
  · cases rest with
    | nil =>
      rw [List.nil_append] at hs
      exact hes e (by rw [← hs]; simp [hm])
    | cons x rest =>
      rw [List.cons_append, List.cons.injEq] at hs
      obtain ⟨rfl, rfl⟩ := hs
      rcases List.mem_append.mp hm with hm | hm
      · exact hq pre rest hr e hm
      · exact hes e hm

theorem not_quietAfterStop {h es : List RuntimeEntry} {e : RuntimeEntry} (hs : .stopped ∈ h) (hm : e ∈ es)
    (hact : isActivity e = true) : ¬ QuietAfterStop (h ++ es) := by
  intro hq
  obtain ⟨pre, post, rfl⟩ := List.append_of_mem hs
  have he := hq pre (post ++ es) (by simp) e (List.mem_append_right _ hm)
  rw [hact] at he
  cases he

theorem quietAfterStop_of_not_mem {h : List RuntimeEntry} (hs : .stopped ∉ h) : QuietAfterStop h := by
  rintro pre post rfl
  simp at hs

/-- A run from a quiesced state keeps quiet. -/
theorem quiet_of_quiesced {as : List RuntimeAction} (hi : RuntimeInv r) (hq : Quiesced r)
    (hl : QuietAfterStop r.log) (has : ∀ a ∈ as, registers a = false)
    (h : exec Runtime.step r as = some r') : QuietAfterStop r'.log := by
  induction as generalizing r with
  | nil =>
    cases h
    exact hl
  | cons a as ih =>
    obtain ⟨ha, has⟩ := List.forall_mem_cons.mp has
    rw [exec_cons, Option.bind_eq_some_iff] at h
    obtain ⟨r₁, h₁, h₂⟩ := h
    have hs₁ := runtimeSteps_of_step h₁
    obtain ⟨hq₁, es, hes, hact⟩ := quiesced_step hi hq ha hs₁
    refine ih (runtimeInv_step hi hs₁) hq₁ ?_ has h₂
    rw [hes]
    exact quietAfterStop_append hl hact

/-- After a stop with no activity since, the state is quiescent exactly if
there is nothing left to run. -/
theorem quiescent_iff_quiesced (hi : RuntimeInv r) (hs : .stopped ∈ r.log) (hl : QuietAfterStop r.log) :
    Quiescent r ↔ Quiesced r := by
  constructor
  · intro h
    by_contra hq
    obtain ⟨as, r', es, e, has, he, hes, hm, hact⟩ := exists_activity hi hq
    have hquiet := h hs as r' has he
    rw [hes] at hquiet
    exact not_quietAfterStop hs hm hact hquiet
  · exact fun hq _ as r' has he => quiet_of_quiesced hi hq hl has he

theorem stopped_of_shutdown (hm : .stopped ∈ r.shutdown.log) : .stopped ∈ r.log := by
  unfold Runtime.shutdown at hm
  split at hm
  · exact hm
  · simpa using hm

/-- `RuntimeStopped` is published by the end of `shutdown_gracefully` alone. -/
theorem stopped_of_step (h : RuntimeSteps r a r') (hm : .stopped ∈ r'.log) : .stopped ∈ r.log ∨ a = .stopped := by
  cases h with
  | setWall | tree | register => exact .inl hm
  | signal | treeSignal | shutdownGracefully => exact .inl (stopped_of_shutdown hm)
  | work | attempt => exact .inl (by simpa using hm)
  | schedule =>
    rcases List.mem_append.mp hm with hm | hm
    · exact .inl hm
    · obtain ⟨x, -, hx⟩ := List.mem_filterMap.mp hm
      unfold Runtime.activity? at hx
      split at hx <;> cases hx
  | stopped => exact .inr rfl

/-- A new service or schedule is not spent. -/
theorem not_quiesced_of_registers (ha : registers a = true) (h : RuntimeSteps r a r') :
    ¬ Quiesced r' ∧ r'.log = r.log := by
  unfold registers at ha
  split at ha
  · rename_i svc
    cases h with
    | tree ht =>
      cases ht
      refine ⟨fun hq => ?_, rfl⟩
      have hspent := hq.children r.tree.next (.new svc r.tree.kernel) (Function.update_self ..)
      rcases hspent.final with hf | hf <;> cases hf
  · cases h
    refine ⟨fun hq => ?_, rfl⟩
    have hspent := hq.schedules _ (List.mem_append_right _ List.mem_cons_self)
    cases hspent
  · cases ha

/-- `RuntimeStopped` is published for the first time. -/
theorem quiescent_stopped (hi : RuntimeInv r) (hstop : .stopped ∉ r.log) (h : RuntimeSteps r .stopped r') :
    Quiescent r' ↔ Quiesced r := by
  have hi' := runtimeInv_step hi h
  cases h
  have hl : QuietAfterStop (r.log ++ [.stopped]) :=
    quietAfterStop_append (quietAfterStop_of_not_mem hstop) (by simp [isActivity])
  rw [quiescent_iff_quiesced hi' (by simp) hl]
  exact ⟨fun h => ⟨h.children, h.schedules⟩, fun h => ⟨h.children, h.schedules⟩⟩

/-- A step from a quiescent state leads to one exactly if it meets
`StopsQuiesced`. -/
theorem quiescent_step (hi : RuntimeInv r) (hr : Quiescent r) (h : r.step a = some r') :
    Quiescent r' ↔ StopsQuiesced r a := by
  have hs := runtimeSteps_of_step h
  by_cases hstop : .stopped ∈ r.log
  · have hl : QuietAfterStop r.log := hr hstop [] r (by simp) (exec_nil _)
    cases hreg : registers a with
    | true =>
      obtain ⟨hnq, hlog⟩ := not_quiesced_of_registers hreg hs
      have hiff := quiescent_iff_quiesced (runtimeInv_step hi hs) (hlog ▸ hstop) (hlog ▸ hl)
      exact ⟨fun hq => absurd (hiff.mp hq) hnq, fun hok => absurd hstop (hok.2 hreg)⟩
    | false =>
      have hok : StopsQuiesced r a := by
        refine ⟨fun _ => (quiescent_iff_quiesced hi hstop hl).mp hr, fun ht => ?_⟩
        rw [hreg] at ht
        cases ht
      have hr' : Quiescent r' := fun _ as r'' has he =>
        hr hstop (a :: as) r'' (List.forall_mem_cons.mpr ⟨hreg, has⟩) ((exec_cons_of h as).trans he)
      exact iff_of_true hr' hok
  · by_cases ha : a = .stopped
    · subst ha
      rw [quiescent_stopped hi hstop hs]
      exact ⟨fun hq => ⟨fun _ => hq, fun ht => by cases ht⟩, fun hok => hok.1 rfl⟩
    · have hstop' : .stopped ∉ r'.log := fun hm => (stopped_of_step hs hm).elim hstop ha
      have hok : StopsQuiesced r a := ⟨fun h => absurd h ha, fun _ => hstop⟩
      exact iff_of_true (fun hm => absurd hm hstop') hok

/-- In every run, the states after `RuntimeStopped` are all quiescent exactly
if each step of the run meets `StopsQuiesced`. -/
theorem quiescent_iff {r₀ : Runtime} {as : List RuntimeAction} (h₀ : Built r₀)
    (h : exec Runtime.step r₀ as = some r) :
    AlongStates Runtime.step Quiescent r₀ as ↔ AlongSteps Runtime.step StopsQuiesced r₀ as := by
  have hinit : Quiescent r₀ := by
    obtain ⟨k, wall, deadline, rfl⟩ := h₀
    exact nofun
  exact alongStates_iff_alongSteps (fun hi hs => runtimeInv_step hi (runtimeSteps_of_step hs)) quiescent_step
    (runtimeInv_init h₀) hinit h

/-! ## A schedule that outlives the runtime -/

/-- A runtime without services. -/
def idle : Runtime := .new ⟨0, false⟩ DateTime.epoch (Duration.fromSecs 30)

/-- A schedule of one fire a minute. -/
def heartbeat : RuntimeAction := .register (.fixedRate (Duration.fromSecs 60)) ⟨none, none⟩

/-- The schedule fires a minute after it was registered, and `RuntimeStopped`
was published before. -/
theorem fires_after_stop :
    ¬ ∀ r₀ as r, Built r₀ → exec Runtime.step r₀ as = some r → QuietAfterStop r.log := by
  intro h
  have hquiet := h idle
    [heartbeat, .shutdownGracefully [], .stopped, .tree (.tick 60000000000), .schedule 0 .slept] _
    ⟨_, _, _, rfl⟩ rfl
  have hfired := hquiet [.stopping] [.fired 0, .attempted 0] rfl (.fired 0) List.mem_cons_self
  cases hfired

/-- Cancelled before the shutdown, it does not. -/
theorem quiescent_cancelled :
    AlongStates Runtime.step Quiescent idle
      [heartbeat, .schedule 0 .cancel, .shutdownGracefully [], .stopped] := by
  refine (quiescent_iff ⟨_, _, _, rfl⟩ rfl).mpr ⟨⟨nofun, fun _ => nofun⟩, fun r₁ h₁ => ?_⟩
  cases h₁
  refine ⟨⟨nofun, nofun⟩, fun r₂ h₂ => ?_⟩
  cases h₂
  refine ⟨⟨nofun, nofun⟩, fun r₃ h₃ => ?_⟩
  cases h₃
  refine ⟨⟨fun _ => ⟨fun i c hc => ?_, fun e he => ?_⟩, fun hreg => ?_⟩, fun _ _ => trivial⟩
  · cases hc
  · cases List.mem_singleton.mp he
    rfl
  · cases hreg

end WalaStack.Proof.Runtime
