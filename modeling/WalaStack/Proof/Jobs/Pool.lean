import WalaStack.Impl.Jobs.Worker
import WalaStack.Proof.Supervision.Steps
import WalaStack.Proof.Jobs.Desk

/-!
# The worker pool

`PoolSteps` is the inversion of `Pool.step`. A worker's root task runs only
while its watcher waits for it, and the worker holds a record exactly while
`dispatch_one` runs (`PoolInv`). Every step of the pool is none, one or two
steps of the store and its callers, which decide as `dispatch_one` does
(`deciding_of_pool`): the pool is one of the systems of callers that the
results on handing out jobs are about.
-/

namespace WalaStack.Proof.Jobs

open WalaStack.Rust WalaStack.Impl.Runtime WalaStack.Impl.Jobs WalaStack.Spec.Jobs WalaStack.Transition

variable {S : JobStore} {config : JobsConfig} {dispatcher : JobsDispatcher} {s s' : Pool S}
  {a : PoolAction S.Env} {i : Nat}

/-! ## Steps -/

/-- The record that a worker holds is dropped with its task. -/
def dropTask (s : Pool S) (i : Nat) (w : Watcher) : Pool S :=
  { s with desk := { s.desk with held := Function.update s.desk.held i none } }.setWorker i ⟨w, none⟩

/-- The steps of the pool, by the way through the code. -/
inductive PoolSteps (config : JobsConfig) (dispatcher : JobsDispatcher) (s : Pool S) :
    PoolAction S.Env → Pool S → Prop
  | tick {d : Nat} : PoolSteps config dispatcher s (.tick d)
      { s with kernel := { s.kernel with now := s.kernel.now + d } }
  | signal : PoolSteps config dispatcher s .signal { s with kernel := { s.kernel with shutdown := true } }
  | enqueue {job : NewJob} {now : DateTime} {env : S.Env} {desk : Desk S} :
    s.desk.step (.enqueue job now env) = some desk →
    PoolSteps config dispatcher s (.enqueue job now env) { s with desk := desk }
  | submit {metadata : JobMetadata} {name : JobName} {payload : Json.Value} {now : DateTime} {env : S.Env}
      {desk : Desk S} {es : List JobEvent} :
    s.desk.step (.enqueue (stage config metadata name payload now) now env) = some desk →
    PoolSteps config dispatcher s (.submit metadata name payload now env) ({ s with desk := desk }.publish es)
  | spawn {i : Nat} {w : Watcher} :
    (s.workers i).watcher.Steps (workerService i) s.kernel (.started (.ok ())) w →
    PoolSteps config dispatcher s (.watch i (.started (.ok ()))) (s.setWorker i ⟨w, some .polling⟩)
  | abort {i : Nat} {w : Watcher} :
    (s.workers i).watcher.Steps (workerService i) s.kernel .shutdown w →
    PoolSteps config dispatcher s (.watch i .shutdown) (dropTask s i w)
  | watch {i : Nat} {b : WatcherAction} {w : Watcher} : (s.workers i).watcher.owns b = true →
    (s.workers i).watcher.Steps (workerService i) s.kernel b w → b ≠ .started (.ok ()) →
    b ≠ .shutdown →
    PoolSteps config dispatcher s (.watch i b) (s.setWorker i { s.workers i with watcher := w })
  | pulled {i : Nat} {now : DateTime} {env : S.Env} {desk : Desk S} {r : JobRecord} :
    (s.workers i).task = some .polling → s.desk.step (.pull i config.queues now env) = some desk →
    desk.held i = some r →
    PoolSteps config dispatcher s (.pull i now env)
      (({ s with desk := desk }.publish (dispatch dispatcher s.kernel.now r).1).setTask i
        (dispatch dispatcher s.kernel.now r).2)
  | unpulled {i : Nat} {now : DateTime} {env : S.Env} {desk : Desk S} :
    (s.workers i).task = some .polling → s.desk.step (.pull i config.queues now env) = some desk →
    desk.held i = none →
    PoolSteps config dispatcher s (.pull i now env)
      ({ s with desk := desk }.setTask i (.sleeping (s.kernel.now + config.pollInterval.nanos)))
  | leave {i : Nat} {w : Watcher} : s.kernel.shutdown = true →
    (s.workers i).watcher.Steps (workerService i) s.kernel (.exits .ok) w →
    PoolSteps config dispatcher s (.leave i) (dropTask s i w)
  | abandon {i : Nat} {now : DateTime} {env : S.Env} {desk : Desk S} {w : Watcher} : s.kernel.shutdown = true →
    s.desk.step (.pull i config.queues now env) = some desk →
    (s.workers i).watcher.Steps (workerService i) s.kernel (.exits .ok) w →
    PoolSteps config dispatcher s (.abandon i now env) (dropTask { s with desk := desk } i w)
  | slept {i wake : Nat} : (s.workers i).task = some (.sleeping wake) →
    PoolSteps config dispatcher s (.slept i) (s.setTask i .polling)
  | concluded {i startedAt : Nat} {entry : HandlerEntry} {r : JobRecord} {outcome : Outcome} {now : DateTime}
      {ns : Nat} {result : Except String Unit} {m : Mark} {es : List JobEvent} :
    (s.workers i).task = some (.running entry startedAt) → s.desk.held i = some r →
    outcome.result entry (s.kernel.now - startedAt) r = some (.ok result) →
    conclude config entry (s.kernel.now - startedAt) now ns r result = (es, .ok m) →
    PoolSteps config dispatcher s (.finish i outcome now ns) ((s.publish es).setTask i (.marking m))
  | overflowed {i startedAt : Nat} {entry : HandlerEntry} {r : JobRecord} {outcome : Outcome} {now : DateTime}
      {ns : Nat} {result : Except String Unit} {message : String} {es : List JobEvent} {w : Watcher} :
    (s.workers i).task = some (.running entry startedAt) → s.desk.held i = some r →
    outcome.result entry (s.kernel.now - startedAt) r = some (.ok result) →
    conclude config entry (s.kernel.now - startedAt) now ns r result = (es, .error message) →
    (s.workers i).watcher.Steps (workerService i) s.kernel (.exits (.panic message)) w →
    PoolSteps config dispatcher s (.finish i outcome now ns) (dropTask (s.publish es) i w)
  | panicked {i startedAt : Nat} {entry : HandlerEntry} {r : JobRecord} {outcome : Outcome} {now : DateTime}
      {ns : Nat} {message : String} {w : Watcher} :
    (s.workers i).task = some (.running entry startedAt) → s.desk.held i = some r →
    outcome.result entry (s.kernel.now - startedAt) r = some (.error message) →
    (s.workers i).watcher.Steps (workerService i) s.kernel (.exits (.panic message)) w →
    PoolSteps config dispatcher s (.finish i outcome now ns) (dropTask s i w)
  | marked {i : Nat} {m : Mark} {env : S.Env} {desk : Desk S} : (s.workers i).task = some (.marking m) →
    s.desk.step (.mark i m env) = some desk →
    PoolSteps config dispatcher s (.mark i env) ({ s with desk := desk }.setTask i .polling)

theorem exits_eq_some {result : JoinResult} (h : s.exits i result = some s') :
    ∃ w, (s.workers i).watcher.Steps (workerService i) s.kernel (.exits result) w ∧ s' = dropTask s i w := by
  obtain ⟨w, hw, hd⟩ := Option.bind_eq_some_iff.mp h
  exact ⟨w, Watcher.steps_of_step hw, (Option.some.inj hd).symm⟩

theorem steps_of_watch {b : WatcherAction} (h : s.workerStep config dispatcher i (.watch i b) = some s') :
    PoolSteps config dispatcher s (.watch i b) s' := by
  simp only [Pool.workerStep] at h
  split at h
  · rename_i ho
    obtain ⟨w, hw, hs⟩ := Option.bind_eq_some_iff.mp h
    have hw := Watcher.steps_of_step hw
    match b, hs with
    | .started (.ok ()), hs => obtain rfl := Option.some.inj hs; exact .spawn hw
    | .started (.error e), hs => obtain rfl := Option.some.inj hs; exact .watch ho hw (by simp) (by simp)
    | .exits r, hs => obtain rfl := Option.some.inj hs; exact .watch ho hw (by simp) (by simp)
    | .joined ns, hs => obtain rfl := Option.some.inj hs; exact .watch ho hw (by simp) (by simp)
    | .slept, hs => obtain rfl := Option.some.inj hs; exact .watch ho hw (by simp) (by simp)
    | .shutdown, hs => obtain rfl := Option.some.inj hs; exact .abort hw
  · cases h

theorem steps_of_pullStep {now : DateTime} {env : S.Env}
    (h : s.workerStep config dispatcher i (.pull i now env) = some s') :
    PoolSteps config dispatcher s (.pull i now env) s' := by
  simp only [Pool.workerStep] at h
  split at h
  · rename_i ht
    obtain ⟨desk, hd, rfl⟩ := Option.map_eq_some_iff.mp h
    cases hh : desk.held i with
    | some r => exact .pulled ht hd hh
    | none => exact .unpulled ht hd hh
  · cases h

theorem steps_of_finish {outcome : Outcome} {now : DateTime} {ns : Nat}
    (h : s.workerStep config dispatcher i (.finish i outcome now ns) = some s') :
    PoolSteps config dispatcher s (.finish i outcome now ns) s' := by
  simp only [Pool.workerStep] at h
  split at h
  · rename_i entry startedAt r ht hh
    split at h
    · cases h
    · rename_i message hres
      obtain ⟨w, hw, rfl⟩ := exits_eq_some h
      exact .panicked ht hh hres hw
    · rename_i result hres
      cases hc : conclude config entry (s.kernel.now - startedAt) now ns r result with
      | mk es next =>
        cases next with
        | ok m =>
          simp only [hc] at h
          obtain rfl := Option.some.inj h
          exact .concluded ht hh hres hc
        | error message =>
          simp only [hc] at h
          obtain ⟨w, hw, rfl⟩ := exits_eq_some h
          exact .overflowed ht hh hres hc hw
  · cases h

/-- The steps of a worker. -/
theorem steps_of_workerStep (hw : Pool.worker? a = some i)
    (h : s.workerStep config dispatcher i a = some s') : PoolSteps config dispatcher s a s' := by
  cases a with
  | tick | signal | enqueue | submit => cases hw
  | watch j b => obtain rfl := Option.some.inj hw; exact steps_of_watch h
  | pull j now env => obtain rfl := Option.some.inj hw; exact steps_of_pullStep h
  | leave j =>
    obtain rfl := Option.some.inj hw
    simp only [Pool.workerStep] at h
    split at h
    · split at h
      · obtain ⟨w, hw, rfl⟩ := exits_eq_some h
        exact .leave ‹_› hw
      · cases h
    · split at h
      · obtain ⟨w, hw, rfl⟩ := exits_eq_some h
        exact .leave ‹_› hw
      · cases h
    · cases h
  | abandon j now env =>
    obtain rfl := Option.some.inj hw
    simp only [Pool.workerStep] at h
    split at h
    · split at h
      · obtain ⟨desk, hd, h⟩ := Option.bind_eq_some_iff.mp h
        obtain ⟨w, hw, rfl⟩ := exits_eq_some h
        exact .abandon ‹_› hd hw
      · cases h
    · cases h
  | slept j =>
    obtain rfl := Option.some.inj hw
    simp only [Pool.workerStep] at h
    split at h
    · split at h
      · obtain rfl := Option.some.inj h
        exact .slept ‹_›
      · cases h
    · cases h
  | finish j outcome now ns => obtain rfl := Option.some.inj hw; exact steps_of_finish h
  | mark j env =>
    obtain rfl := Option.some.inj hw
    simp only [Pool.workerStep] at h
    split at h
    · obtain ⟨desk, hd, rfl⟩ := Option.map_eq_some_iff.mp h
      exact .marked ‹_› hd
    · cases h

/-- Every step of the pool is one of `PoolSteps`. -/
theorem poolSteps_of_step (h : s.step config dispatcher a = some s') : PoolSteps config dispatcher s a s' := by
  cases a with
  | tick d => obtain rfl := Option.some.inj h; exact .tick
  | signal => obtain rfl := Option.some.inj h; exact .signal
  | enqueue job now env =>
    simp only [Pool.step] at h
    obtain ⟨desk, hd, rfl⟩ := Option.map_eq_some_iff.mp h
    exact .enqueue hd
  | submit metadata name payload now env =>
    simp only [Pool.step] at h
    obtain ⟨desk, hd, rfl⟩ := Option.map_eq_some_iff.mp h
    exact .submit hd
  | watch j | pull j | leave j | abandon j | slept j | finish j | mark j =>
    simp only [Pool.step, Pool.worker?] at h
    split at h
    · exact steps_of_workerStep rfl h
    · cases h

/-! ## What the workers hold -/

/-- A root task that executes a record: it runs the handler, or reports as
`dispatch_one` decides. -/
def Dispatches (r : JobRecord) : Option WorkerTask → Prop
  | some (.running _ _) => True
  | some (.marking m) => Decides r m
  | _ => False

structure PoolInv (s : Pool S) : Prop where
  starting : ∀ i, (s.workers i).watcher.phase = .starting → (s.workers i).watcher.handle = ⟨true, none⟩
  task : ∀ i t, (s.workers i).task = some t →
    (s.workers i).watcher.phase = .watching ∧ (s.workers i).watcher.handle = ⟨true, none⟩
  held : ∀ i r, s.desk.held i = some r → Dispatches r (s.workers i).task

theorem poolInv_init (k : Kernel) : PoolInv (Pool.init S k) where
  starting _ _ := rfl
  task _ _ ht := by cases ht
  held _ _ hr := by cases hr

/-- A step of one worker. -/
theorem PoolInv.worker (h : PoolInv s) {w : WorkerState} (hw : s'.workers = Function.update s.workers i w)
    (hstart : w.watcher.phase = .starting → w.watcher.handle = ⟨true, none⟩)
    (htask : ∀ t, w.task = some t → w.watcher.phase = .watching ∧ w.watcher.handle = ⟨true, none⟩)
    (hheld : ∀ r, s'.desk.held i = some r → Dispatches r w.task)
    (hother : ∀ j, j ≠ i → s'.desk.held j = s.desk.held j) : PoolInv s' := by
  refine ⟨fun j hp => ?_, fun j t ht => ?_, fun j r hr => ?_⟩ <;> by_cases hj : j = i
  · subst hj
    rw [hw, Function.update_self] at hp ⊢
    exact hstart hp
  · rw [hw, Function.update_of_ne hj] at hp ⊢
    exact h.starting j hp
  · subst hj
    rw [hw, Function.update_self] at ht ⊢
    exact htask t ht
  · rw [hw, Function.update_of_ne hj] at ht ⊢
    exact h.task j t ht
  · subst hj
    rw [hw, Function.update_self]
    exact hheld r hr
  · rw [hw, Function.update_of_ne hj]
    rw [hother j hj] at hr
    exact h.held j r hr

/-- A worker goes on to another await. -/
theorem PoolInv.setTask (h : PoolInv s) {t t' : WorkerTask} (ht : (s.workers i).task = some t)
    (hw : s'.workers = Function.update s.workers i { s.workers i with task := some t' })
    (hheld : ∀ r, s'.desk.held i = some r → Dispatches r (some t'))
    (hother : ∀ j, j ≠ i → s'.desk.held j = s.desk.held j) : PoolInv s' :=
  h.worker hw (h.starting i) (fun _ _ => h.task i t ht) hheld hother

theorem held_of_enqueue {d d' : Desk S} {job : NewJob} {now : DateTime} {env : S.Env}
    (h : d.step (.enqueue job now env) = some d') : d'.held = d.held := by
  simp only [Desk.step, Desk.enqueue] at h
  split at h <;> (obtain rfl := Option.some.inj h; rfl)

theorem held_of_pull {d d' : Desk S} {queues : List String} {now : DateTime} {env : S.Env}
    (h : d.step (.pull i queues now env) = some d') : d.held i = none ∧ ∀ j, j ≠ i → d'.held j = d.held j := by
  simp only [Desk.step] at h
  split at h
  · cases h
  · rename_i hn
    refine ⟨hn, fun j hj => ?_⟩
    split at h <;> obtain rfl := Option.some.inj h
    · exact Function.update_of_ne hj _ _
    · rfl
    · rfl

theorem held_of_mark {d d' : Desk S} {m : Mark} {env : S.Env} (h : d.step (.mark i m env) = some d') :
    d'.held = Function.update d.held i none := by
  simp only [Desk.step] at h
  split at h
  · cases h
  · split at h <;> (obtain rfl := Option.some.inj h; rfl)

/-- While a root task runs, its watcher takes no step of its own but for shutdown. -/
theorem PoolInv.no_task (h : PoolInv s) {b : WatcherAction} {w : Watcher}
    (ho : (s.workers i).watcher.owns b = true)
    (hs : (s.workers i).watcher.Steps (workerService i) s.kernel b w) (hb : b ≠ .shutdown) :
    (s.workers i).task = none := by
  cases ht : (s.workers i).task with
  | none => rfl
  | some t =>
    obtain ⟨hp, hh⟩ := h.task i t ht
    cases hs <;> simp_all [Watcher.owns]

theorem phase_ne_starting {svc : Supervised} {k : Kernel} {w w' : Watcher} {b : WatcherAction}
    (hs : w.Steps svc k b w') : w'.phase ≠ .starting := by
  cases hs <;> simp_all

theorem conclude_decides {entry : HandlerEntry} {elapsed : Nat} {now : DateTime} {ns : Nat} {r : JobRecord}
    {result : Except String Unit} {es : List JobEvent} {m : Mark}
    (h : conclude config entry elapsed now ns r result = (es, .ok m)) : Decides r m := by
  unfold conclude at h
  split at h
  · obtain ⟨-, hm⟩ := Prod.mk.inj h
    obtain rfl := Except.ok.inj hm
    trivial
  · split at h
    · obtain ⟨-, hm⟩ := Prod.mk.inj h
      obtain rfl := Except.ok.inj hm
      trivial
    · split at h
      · obtain ⟨-, hm⟩ := Prod.mk.inj h
        cases hm
      · obtain ⟨-, hm⟩ := Prod.mk.inj h
        obtain rfl := Except.ok.inj hm
        exact Nat.lt_of_not_le ‹_›

theorem dispatches_dispatch (now : Nat) (r : JobRecord) : Dispatches r (some (dispatch dispatcher now r).2) := by
  unfold dispatch
  split <;> trivial

theorem PoolInv.dropTask (h : PoolInv s) {w : Watcher} (hw : w.phase ≠ .starting) :
    PoolInv (Jobs.dropTask s i w) := by
  refine h.worker rfl (fun hp => absurd hp hw) (fun t ht => by cases ht) (fun r hr => ?_)
    fun j hj => Function.update_of_ne hj _ _
  rw [show (Jobs.dropTask s i w).desk.held i = none from Function.update_self ..] at hr
  cases hr

theorem poolInv_step (h : PoolInv s) (hs : PoolSteps config dispatcher s a s') : PoolInv s' := by
  cases hs with
  | tick | signal => exact ⟨h.starting, h.task, h.held⟩
  | enqueue hd | submit hd =>
    exact ⟨h.starting, h.task, fun i r hr => h.held i r ((congrFun (held_of_enqueue hd) i).symm.trans hr)⟩
  | @spawn i w hs =>
    have hn := h.no_task rfl hs nofun
    have hrun : w.phase = .watching ∧ w.handle = ⟨true, none⟩ := by
      cases hs with
      | firstStart hp => exact ⟨rfl, h.starting i hp⟩
      | restart hp => exact ⟨rfl, rfl⟩
    refine h.worker rfl (fun _ => hrun.2) (fun _ _ => hrun) (fun r hr => ?_) fun _ _ => rfl
    have := h.held i r hr
    rw [hn] at this
    exact this
  | abort hs => exact h.dropTask (phase_ne_starting hs)
  | @watch i b w ho hs _ hb =>
    have hn := h.no_task ho hs hb
    refine h.worker rfl (fun hp => absurd hp (phase_ne_starting hs)) (fun t ht => ?_) (h.held i) fun _ _ => rfl
    rw [hn] at ht
    cases ht
  | pulled ht hd hr =>
    refine h.setTask ht rfl (fun r' hr' => ?_) (held_of_pull hd).2
    obtain rfl := Option.some.inj (hr.symm.trans hr')
    exact dispatches_dispatch _ _
  | unpulled ht hd hr =>
    refine h.setTask ht rfl (fun r' hr' => ?_) (held_of_pull hd).2
    cases hr.symm.trans hr'
  | leave _ hs => exact h.dropTask (phase_ne_starting hs)
  | @abandon i now env desk w _ hd hs =>
    refine h.worker rfl (fun hp => absurd hp (phase_ne_starting hs)) (fun t ht => by cases ht)
      (fun r hr => ?_) fun j hj => ?_
    · have hnone : (dropTask { s with desk := desk } i w).desk.held i = none := Function.update_self ..
      cases hnone.symm.trans hr
    · rw [← (held_of_pull hd).2 j hj]
      exact Function.update_of_ne hj _ _
  | slept ht =>
    refine h.setTask ht rfl (fun r hr => ?_) fun _ _ => rfl
    have := h.held _ r hr
    rw [ht] at this
    exact this
  | concluded ht hh _ hc =>
    refine h.setTask ht rfl (fun r' hr' => ?_) fun _ _ => rfl
    obtain rfl := Option.some.inj (hh.symm.trans hr')
    exact conclude_decides hc
  | @overflowed _ _ _ _ _ _ _ _ _ es _ _ _ _ _ hs =>
    have hp : PoolInv (s.publish es) := ⟨h.starting, h.task, h.held⟩
    exact hp.dropTask (phase_ne_starting hs)
  | panicked _ _ _ hs => exact h.dropTask (phase_ne_starting hs)
  | @marked i m env desk ht hd =>
    have hheld : desk.held = Function.update s.desk.held i none := held_of_mark hd
    refine h.setTask ht rfl (fun r hr => ?_) fun j hj => ?_
    · have hnone : desk.held i = none := by rw [hheld, Function.update_self]
      cases hnone.symm.trans hr
    · exact (congrFun hheld j).trans (Function.update_of_ne hj _ _)

/-! ## The pool and the callers of the store -/

/-- The calls of the store that the pool makes. -/
theorem deciding_step (h : PoolInv s) (hd : DecidingReachable S s.desk)
    (hs : PoolSteps config dispatcher s a s') : DecidingReachable S s'.desk := by
  have crash : ∀ {d : Desk S} (i : Nat), DecidingReachable S d →
      DecidingReachable S { d with held := Function.update d.held i none } := fun i hd =>
    hd.step (a := DeskAction.crash i) trivial rfl
  cases hs with
  | tick | signal | spawn | watch | slept | concluded => exact hd
  | enqueue hs | submit hs => exact hd.step (by trivial) hs
  | pulled _ hs | unpulled _ hs => exact hd.step (by trivial) hs
  | abort | leave | overflowed | panicked => exact crash _ hd
  | abandon _ hs => exact crash _ (hd.step (by trivial) hs)
  | @marked i m env desk ht hs =>
    refine hd.step (a := DeskAction.mark i m env) (fun r hr => ?_) hs
    have := h.held i r hr
    rw [ht] at this
    exact this

/-- The states of a pool. -/
abbrev PoolReachable (S : JobStore) (config : JobsConfig) (dispatcher : JobsDispatcher) : Pool S → Prop :=
  Reach (Pool.step config dispatcher) (fun s => ∃ k, s = Pool.init S k) fun _ _ => True

/-- The workers of a pool are callers of the store that decide as
`dispatch_one` does. -/
theorem deciding_of_pool (h : PoolReachable S config dispatcher s) :
    PoolInv s ∧ DecidingReachable S s.desk := by
  refine h.invariant (I := fun s => PoolInv s ∧ DecidingReachable S s.desk) ?_ ?_
  · rintro s ⟨k, rfl⟩
    exact ⟨poolInv_init k, .init rfl⟩
  · rintro s a s' ⟨hi, hd⟩ - hs
    have hs := poolSteps_of_step hs
    exact ⟨poolInv_step hi hs, deciding_step hi hd hs⟩

end WalaStack.Proof.Jobs
