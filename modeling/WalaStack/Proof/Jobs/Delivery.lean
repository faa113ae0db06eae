import WalaStack.Proof.Jobs.InMemory
import WalaStack.Proof.Jobs.Pool
import WalaStack.Spec.Delivery

/-!
# At-least-once delivery

Among the callers of a store, a job that is `Running` stays in someone's
hands unless a pull loses it, a mark fails, or the worker that holds it dies
(`attended_iff_keeps`). In the pool these are the steps that `Spares` leaves
out, so a run delivers every job exactly if all its steps are spared
(`at_least_once_iff`). A handler that panics is not: the worker comes back,
the job does not (`panicked_stranded`).
-/

namespace WalaStack.Proof.Jobs

open WalaStack.Rust WalaStack.Impl.Runtime WalaStack.Impl.Jobs WalaStack.Spec.Jobs WalaStack.Transition

variable {P : Provider} {d d' : Desk P.toJobStore} {b : DeskAction P.Env} {id : JobId} {r : JobRecord}
  {v : JobView} {config : JobsConfig} {dispatcher : JobsDispatcher} {s s' : Pool P.toJobStore}
  {a : PoolAction P.Env} {i : Nat}

/-! ## The callers of the store -/

/-- Every job that is `Running` is held by someone. -/
def Attended (P : Provider) (d : Desk P.toJobStore) : Prop :=
  ∀ id v, P.view d.store id = some v → v.status = .running → ∃ i r, d.held i = some r ∧ r.id = id

/-- The calls after which nobody has let go of a job that is `Running`. -/
def Keeps (P : Provider) (d : Desk P.toJobStore) : DeskAction P.Env → Prop
  | .enqueue _ _ _ => True
  | .pull _ queues now env => P.refuses env ∨ ¬ P.loses queues now d.store
  | .mark _ _ env => ¬ P.refuses env
  | .crash i => d.held i = none

theorem attended_new : Attended P (Desk.new P.toJobStore) := by
  intro id v hv
  rw [Desk.new, P.view_new] at hv
  cases hv

/-- The holders of the other jobs, when one job changes hands or status. -/
theorem Attended.frame (h : Attended P d) (id : JobId)
    (hother : ∀ id' v', id' ≠ id → P.view d'.store id' = some v' → P.view d.store id' = some v')
    (hkept : ∀ j r', r'.id ≠ id → d.held j = some r' → d'.held j = some r')
    (hself : ∀ v', P.view d'.store id = some v' → v'.status = .running → ∃ j r', d'.held j = some r' ∧ r'.id = id) :
    Attended P d' := by
  intro id' v' hv' hrun
  by_cases hid : id' = id
  · subst hid
    exact hself v' hv' hrun
  · obtain ⟨j, r', hr', hrid⟩ := h id' v' (hother id' v' hid hv') hrun
    have hne : r'.id ≠ id := by rw [hrid]; exact hid
    exact ⟨j, r', hkept j r' hne hr', hrid⟩

/-- A job that is `Running` and in nobody's hands. -/
theorem not_attended (hv : P.view d.store id = some v) (hrun : v.status = .running)
    (hn : ∀ i r, d.held i = some r → r.id ≠ id) : ¬ Attended P d := by
  intro h
  obtain ⟨i, r, hr, hid⟩ := h id v hv hrun
  exact hn i r hr hid

/-- A worker that lets go of a job that is `Running` was the only one to hold it. -/
theorem not_attended_drop (hi : Inv P d) (hh : d.held i = some r) :
    ¬ Attended P { d with held := Function.update d.held i none } := by
  obtain ⟨v, hv, hrun, -, -⟩ := hi.running i r hh
  refine not_attended (v := v) hv hrun fun j r' hr' hid => ?_
  obtain ⟨hj, hr'⟩ := held_of_drop hr'
  exact hj (hi.apart i j r r' hh hr' hid)

theorem attended_iff_keeps (hi : Inv P d) (h : Attended P d) (hs : Steps P d b d') :
    Attended P d' ↔ Keeps P d b := by
  cases hs with
  | rejected => exact iff_of_true h trivial
  | @enqueued job now env id s hs hn hu =>
    refine iff_of_true (h.frame id (fun id' v' hid hv' => ?_) (fun j r' _ hr' => hr') ?_) trivial
    · rwa [hu, Function.update_of_ne hid] at hv'
    · intro v' hv' hrun
      rw [hu, Function.update_self] at hv'
      obtain rfl := Option.some.inj hv'
      cases hrun
  | idle hh hor => exact iff_of_true h hor
  | @lost i queues now env id v s hh hr hl hs hv hw hu =>
    refine iff_of_false ?_ (not_or.mpr ⟨hr, not_not.mpr hl⟩)
    have hfree := hi.not_held hv hw
    exact not_attended (v := bumped P v) (by rw [hu, Function.update_self]) rfl hfree
  | @pulled i queues now env r v s hh hr hl hs hv hw ha hm hu =>
    refine iff_of_true (h.frame r.id (fun id' v' hid hv' => ?_) (fun j r' _ hr' => ?_) ?_) (.inr hl)
    · rwa [hu, Function.update_of_ne hid] at hv'
    · have hj : j ≠ i := by
        rintro rfl
        cases hh.symm.trans hr'
      rw [← hr']
      exact Function.update_of_ne hj _ _
    · intro _ _ _
      exact ⟨i, r, Function.update_self .., rfl⟩
  | unmarked hh hr => exact iff_of_false (not_attended_drop hi hh) (not_not.mpr hr)
  | @marked i m env r v s hh hr hs hv hrun hu =>
    refine iff_of_true (h.frame r.id (fun id' v' hid hv' => ?_) (fun j r' hne hr' => ?_) ?_) hr
    · rwa [hu, Function.update_of_ne hid] at hv'
    · have hj : j ≠ i := by
        rintro rfl
        exact hne (congrArg JobRecord.id (Option.some.inj (hr'.symm.trans hh)))
      rw [← hr']
      exact Function.update_of_ne hj _ _
    · intro v' hv' hrun'
      rw [hu, Function.update_self] at hv'
      obtain rfl := Option.some.inj hv'
      exact absurd hrun' (markStatus_ne_running m)
  | @crashed i =>
    cases hh : d.held i with
    | some r => exact iff_of_false (not_attended_drop hi hh) (by rw [Keeps, hh]; exact Option.some_ne_none r)
    | none =>
      have hsame : Function.update d.held i none = d.held := Function.update_eq_self_iff.mpr hh.symm
      rw [hsame]
      exact iff_of_true h hh

/-! ## The pool -/

theorem executes_of_held (h : PoolInv s) (hr : s.desk.held i = some r) : Executes (s.workers i) := by
  have hd := h.held i r hr
  unfold Dispatches at hd
  split at hd
  · rename_i entry startedAt ht
    exact ⟨(h.task i _ ht).2, .inl ⟨entry, startedAt, ht⟩⟩
  · rename_i m ht
    exact ⟨(h.task i _ ht).2, .inr ⟨m, ht⟩⟩
  · cases hd

/-- Who holds a job executes it. -/
theorem delivered_iff_attended (h : PoolInv s) : Delivered P s ↔ Attended P s.desk := by
  constructor
  · intro hd id v hv hrun
    obtain ⟨i, r, hr, hid, -⟩ := hd id v hv hrun
    exact ⟨i, r, hr, hid⟩
  · intro ha id v hv hrun
    obtain ⟨i, r, hr, hid⟩ := ha id v hv hrun
    exact ⟨i, r, hr, hid, executes_of_held h hr⟩

theorem nextAttemptAt_eq_none {now : DateTime} {delay : Duration} :
    nextAttemptAt now delay = none ↔ ¬ Fits now delay := by
  unfold nextAttemptAt DateTime.add Fits
  split
  · rename_i hle
    exact iff_of_false (Option.some_ne_none _) (not_not.mpr hle)
  · rename_i hle
    exact iff_of_true rfl hle

section

variable {entry : HandlerEntry} {elapsed : Nat} {now : DateTime} {ns : Nat} {outcome : Outcome}
  {result : Except String Unit} {es : List JobEvent}

/-- A timeout is an error of the job. -/
theorem result_timedOut {res : Except String (Except String Unit)}
    (h : Outcome.timedOut.result entry elapsed r = some res) : ∃ e, res = .ok (.error e) := by
  simp only [Outcome.result] at h
  split at h
  · split at h
    · exact ⟨_, (Option.some.inj h).symm⟩
    · cases h
  · cases h

/-- What an outcome settles, by the result that `dispatch_one` goes on with. -/
theorem settles_of_result (h : outcome.result entry elapsed r = some (.ok result)) :
    Settles config entry now ns r outcome ↔
      ∀ e, result = .error e → r.attempt.val < r.maxAttempts.val → Fits now (retryDelay config entry ns r) := by
  cases outcome with
  | returned result' =>
    obtain rfl := Except.ok.inj (Option.some.inj h)
    rcases result' with e | ⟨⟨⟩⟩
    · exact ⟨fun hs _ _ => hs, fun hs => hs e rfl⟩
    · exact iff_of_true trivial (fun e he => by cases he)
  | timedOut =>
    obtain ⟨e, he⟩ := result_timedOut h
    obtain rfl := Except.ok.inj he
    exact ⟨fun hs _ _ => hs, fun hs => hs e rfl⟩
  | panicked message => cases h

theorem fits_of_conclude {m : Mark} (h : conclude config entry elapsed now ns r result = (es, .ok m)) :
    ∀ e, result = .error e → r.attempt.val < r.maxAttempts.val → Fits now (retryDelay config entry ns r) := by
  rintro e rfl hlt
  by_contra hf
  have hnone := nextAttemptAt_eq_none.mpr hf
  have hle : ¬ r.maxAttempts.val ≤ r.attempt.val := Nat.not_le_of_lt hlt
  simp only [conclude, hle, ite_false, hnone] at h
  cases (Prod.mk.inj h).2

theorem not_fits_of_conclude {message : String}
    (h : conclude config entry elapsed now ns r result = (es, .error message)) :
    ∃ e, result = .error e ∧ r.attempt.val < r.maxAttempts.val ∧ ¬ Fits now (retryDelay config entry ns r) := by
  unfold conclude at h
  split at h
  · cases (Prod.mk.inj h).2
  · rename_i e
    split at h
    · cases (Prod.mk.inj h).2
    · rename_i hle
      split at h
      · rename_i hnone
        exact ⟨e, rfl, Nat.lt_of_not_le hle, nextAttemptAt_eq_none.mp hnone⟩
      · cases (Prod.mk.inj h).2

/-- Whether a step is spared that ends the handler of a record. -/
theorem spares_finish {startedAt : Nat} (ht : (s.workers i).task = some (.running entry startedAt))
    (hh : s.desk.held i = some r) :
    Spares P config s (.finish i outcome now ns) ↔ Settles config entry now ns r outcome := by
  refine ⟨fun h => h entry startedAt r ht hh, fun h entry' startedAt' r' ht' hh' => ?_⟩
  obtain ⟨rfl, -⟩ := WorkerTask.running.inj (Option.some.inj (ht.symm.trans ht'))
  obtain rfl := Option.some.inj (hh.symm.trans hh')
  exact h

end

/-- A step of the pool is no call of the store, or one that keeps the jobs in
someone's hands if the step is spared. -/
theorem calls_of_poolSteps (hup : s.kernel.shutdown = false) (ha : a ≠ .signal) (hi : Inv P s.desk)
    (hs : PoolSteps config dispatcher s a s') :
    (s'.desk = s.desk ∧ Spares P config s a) ∨
      ∃ b, Steps P s.desk b s'.desk ∧ (Spares P config s a ↔ Keeps P s.desk b) := by
  have crash : ∀ {i r}, s.desk.held i = some r → ¬ Keeps P s.desk (.crash i) := fun hh hk => by
    cases hh.symm.trans hk
  cases hs with
  | tick | spawn | watch | slept => exact .inl ⟨rfl, trivial⟩
  | signal => exact absurd rfl ha
  | enqueue hd | submit hd => exact .inr ⟨_, steps_of_step hi hd, Iff.rfl⟩
  | abort hs =>
    have hsig : s.kernel.shutdown = true := by cases hs <;> assumption
    exact absurd (hup.symm.trans hsig) Bool.false_ne_true
  | leave hsig | abandon hsig => exact absurd (hup.symm.trans hsig) Bool.false_ne_true
  | pulled _ hd | unpulled _ hd => exact .inr ⟨_, steps_of_step hi hd, Iff.rfl⟩
  | concluded ht hh hres hc =>
    exact .inl ⟨rfl, (spares_finish ht hh).mpr ((settles_of_result hres).mpr (fits_of_conclude hc))⟩
  | @overflowed i startedAt entry r outcome now ns result message es w ht hh hres hc =>
    obtain ⟨e, rfl, hlt, hf⟩ := not_fits_of_conclude hc
    refine .inr ⟨.crash i, .crashed, iff_of_false ?_ (crash hh)⟩
    rw [spares_finish ht hh, settles_of_result hres]
    exact fun hs => hf (hs e rfl hlt)
  | @panicked i startedAt entry r outcome now ns message w ht hh hres =>
    refine .inr ⟨.crash i, .crashed, iff_of_false ?_ (crash hh)⟩
    rw [spares_finish ht hh]
    intro hs
    cases outcome with
    | returned result => cases hres
    | timedOut =>
      obtain ⟨e, he⟩ := result_timedOut hres
      cases he
    | panicked message => exact hs
  | marked ht hd => exact .inr ⟨_, steps_of_step hi hd, Iff.rfl⟩

/-- What holds in every state of a pool that has not been shut down. -/
structure Serving (config : JobsConfig) (dispatcher : JobsDispatcher) (s : Pool P.toJobStore) : Prop where
  up : s.kernel.shutdown = false
  reachable : PoolReachable P.toJobStore config dispatcher s

theorem Serving.poolInv (h : Serving config dispatcher s) : PoolInv s := (deciding_of_pool h.reachable).1

theorem Serving.inv (h : Serving config dispatcher s) : Inv P s.desk :=
  (within_of_reachable (deciding_of_pool h.reachable).2).1

theorem Serving.init (t : Nat) : Serving (P := P) config dispatcher (Pool.init P.toJobStore ⟨t, false⟩) :=
  ⟨rfl, .init ⟨_, rfl⟩⟩

theorem Serving.step (ha : a ≠ .signal) (h : Serving config dispatcher s)
    (hs : s.step config dispatcher a = some s') : Serving config dispatcher s' := by
  refine ⟨?_, h.reachable.step trivial hs⟩
  have hup := h.up
  cases poolSteps_of_step hs <;> first | exact hup | exact absurd rfl ha

/-- A step delivers every job exactly if it is spared. -/
theorem delivered_step (ha : a ≠ .signal) (h : Serving config dispatcher s) (hd : Delivered P s)
    (hs : s.step config dispatcher a = some s') : Delivered P s' ↔ Spares P config s a := by
  rw [delivered_iff_attended (h.step ha hs).poolInv]
  have hatt : Attended P s.desk := (delivered_iff_attended h.poolInv).mp hd
  rcases calls_of_poolSteps h.up ha h.inv (poolSteps_of_step hs) with ⟨hdesk, hsp⟩ | ⟨b, hb, hsp⟩
  · rw [hdesk]
    exact iff_of_true hatt hsp
  · rw [hsp]
    exact attended_iff_keeps h.inv hatt hb

/-- In a pool that is not shut down, each job that is `Running` is executed by
a live worker in every state of a run, exactly if every step of the run is
spared. -/
theorem at_least_once_iff (P : Provider) (config : JobsConfig) (dispatcher : JobsDispatcher) (t : Nat)
    {as : List (PoolAction P.Env)} {s : Pool P.toJobStore} (hup : ∀ a ∈ as, a ≠ .signal)
    (h : exec (Pool.step config dispatcher) (Pool.init P.toJobStore ⟨t, false⟩) as = some s) :
    AlongStates (Pool.step config dispatcher) (Delivered P) (Pool.init P.toJobStore ⟨t, false⟩) as ↔
      AlongSteps (Pool.step config dispatcher) (Spares P config) (Pool.init P.toJobStore ⟨t, false⟩) as := by
  have hstart : Serving (P := P) config dispatcher (Pool.init P.toJobStore ⟨t, false⟩) := .init t
  refine alongStates_iff_alongSteps_of (A := fun a => a ≠ .signal) (I := Serving config dispatcher)
    (fun ha hs h₁ => hs.step ha h₁) (fun ha hs hd h₁ => delivered_step ha hs hd h₁) hup hstart ?_ h
  exact (delivered_iff_attended hstart.poolInv).mpr attended_new

/-! ## A job of one worker -/

/-- A job for the default queue, with a second attempt. -/
def newsletter : NewJob := ⟨⟨"newsletter"⟩, .null, "default", 2, DateTime.epoch⟩

def oneWorker : JobsConfig where
  workerCount := 1
  queues := ["default"]
  defaultQueue := "default"
  defaultMaxAttempts := 2
  defaultBackoff := .linear (Duration.fromSecs 1) (Duration.fromSecs 1)
  pollInterval := Duration.fromSecs 1

/-- A handler for every job. -/
def anyJob : JobsDispatcher := fun _ => some ⟨none, none, none, none⟩

/-- The job is enqueued and pulled, and its handler ends. -/
def dispatched (outcome : Outcome) : List (PoolAction Unit) :=
  [.enqueue newsletter DateTime.epoch (), .watch 0 (.started (.ok ())), .pull 0 DateTime.epoch (),
    .finish 0 outcome DateTime.epoch 0]

theorem dispatched_up (outcome : Outcome) : ∀ a ∈ dispatched outcome, a ≠ .signal := by
  intro a ha
  simp only [dispatched, List.mem_cons, List.not_mem_nil, or_false] at ha
  rcases ha with rfl | rfl | rfl | rfl <;> exact fun h => (by cases h)

/-- The worker puts the job back whose handler returned an error. -/
theorem at_least_once_refused : ∃ s : Pool InMemoryJobStore,
    exec (Pool.step oneWorker anyJob) (Pool.init InMemoryJobStore ⟨0, false⟩)
      (dispatched (.returned (.error "refused"))) = some s ∧
    AlongStates (Pool.step oneWorker anyJob) (Delivered inMemory) (Pool.init InMemoryJobStore ⟨0, false⟩)
      (dispatched (.returned (.error "refused"))) := by
  refine ⟨_, rfl, (at_least_once_iff inMemory oneWorker anyJob 0 (dispatched_up _) rfl).mpr ?_⟩
  refine ⟨trivial, fun s h => ?_⟩
  obtain rfl := Option.some.inj h
  refine ⟨trivial, fun s h => ?_⟩
  obtain rfl := Option.some.inj h
  refine ⟨.inr id, fun s h => ?_⟩
  obtain rfl := Option.some.inj h
  refine ⟨fun entry startedAt r ht hh _ => ?_, fun s h => trivial⟩
  obtain ⟨rfl, -⟩ := WorkerTask.running.inj (Option.some.inj ht)
  obtain rfl := Option.some.inj hh
  decide

/-- The job whose handler panicked stays `Running`, held by no one. -/
theorem panicked_stranded :
    ¬ ∀ (config : JobsConfig) (dispatcher : JobsDispatcher) (as : List (PoolAction Unit)) (s : Pool InMemoryJobStore),
      (∀ a ∈ as, a ≠ .signal) →
      exec (Pool.step config dispatcher) (Pool.init InMemoryJobStore ⟨0, false⟩) as = some s →
      AlongStates (Pool.step config dispatcher) (Delivered inMemory) (Pool.init InMemoryJobStore ⟨0, false⟩) as := by
  intro h
  have hall := h oneWorker anyJob (dispatched (.panicked "refused")) _ (dispatched_up _) rfl
  have hlast := alongStates_iff_prefix.mp hall (dispatched (.panicked "refused")) [] _ rfl rfl
  obtain ⟨i, r, hr, hid, -⟩ := hlast ⟨1⟩ ⟨.running, 1, 2⟩ rfl rfl
  cases i with
  | zero => cases hr
  | succ i => cases hr

end WalaStack.Proof.Jobs
