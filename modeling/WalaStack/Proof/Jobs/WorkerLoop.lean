import WalaStack.Proof.Jobs.HandOut
import WalaStack.Proof.Jobs.Pool
import WalaStack.Spec.WorkerLoop

/-!
# The jobs that a worker pulls

The worker holds a record exactly while its future or `dispatch_one` does
(`LoopInv`). A step of the loop runs a pull, passes the record on, leaves the
loop or does nothing to jobs (`Effect`), and each keeps every pulled job
exactly if it meets `KeepsPull`; so a run drops none exactly if all its steps
do (`no_pull_dropped_iff`).
-/

namespace WalaStack.Proof.Jobs

open WalaStack.Rust WalaStack.Impl.Runtime WalaStack.Impl.Jobs WalaStack.Spec.Jobs WalaStack.Transition WalaStack.Log

variable {P : Provider} {mode : PullMode} {config : JobsConfig} {s s' : WorkerLoop P.toJobStore}
  {a : LoopAction P.Env} {id : JobId} {r : JobRecord}

/-! ## Steps -/

/-- The steps of the loop, by the way through the code. -/
inductive LoopSteps (mode : PullMode) (config : JobsConfig) (s : WorkerLoop P.toJobStore) :
    LoopAction P.Env → WorkerLoop P.toJobStore → Prop
  | tick {d : Nat} : LoopSteps mode config s (.tick d) { s with kernel := { s.kernel with now := s.kernel.now + d } }
  | signal : LoopSteps mode config s .signal { s with kernel := { s.kernel with shutdown := true } }
  | other {b : DeskAction P.Env} {desk : Desk P.toJobStore} : b.worker? ≠ some WorkerLoop.me →
    s.desk.step b = some desk → LoopSteps mode config s (.other b) { s with desk := desk }
  | leave : s.point = .head → LoopSteps mode config s .check (s.stop false)
  | stay : s.point = .head → LoopSteps mode config s .check { s with point := .calling }
  | called {now : DateTime} {env : P.Env} {s₁ : WorkerLoop P.toJobStore} : s.point = .calling → mode = .atCall →
    s.pull config now env = some s₁ → LoopSteps mode config s (.call now env)
      { s₁ with point := .selecting (.ready (s₁.desk.held WorkerLoop.me)) }
  | created {now : DateTime} {env : P.Env} : s.point = .calling → mode = .polled →
    LoopSteps mode config s (.call now env) { s with point := .selecting .created }
  | poll : s.point = .selecting .created → LoopSteps mode config s .poll { s with point := .selecting .sent }
  | executed {now : DateTime} {env : P.Env} {s₁ : WorkerLoop P.toJobStore} : s.point = .selecting .sent →
    s.pull config now env = some s₁ → LoopSteps mode config s (.execute now env)
      { s₁ with point := .selecting (.ready (s₁.desk.held WorkerLoop.me)) }
  | orphan {now : DateTime} {env : P.Env} {s₁ : WorkerLoop P.toJobStore} : s.orphaned = true →
    s.pull config now env = some s₁ → LoopSteps mode config s (.executeOrphan now env) (s₁.stop false)
  | taken {r : JobRecord} : s.point = .selecting (.ready (some r)) →
    LoopSteps mode config s .takePull { s with point := .dispatching r, log := s.log ++ [.dispatched r] }
  | idle : s.point = .selecting (.ready none) →
    LoopSteps mode config s .takePull { s with point := .sleeping (s.kernel.now + config.pollInterval.nanos) }
  | shutdown {orphaned : Bool} : LoopSteps mode config s .takeShutdown (s.stop orphaned)
  | slept {wake : Nat} : s.point = .sleeping wake → LoopSteps mode config s .takeSleep { s with point := .head }
  | returned {r : JobRecord} {m : Mark} {env : P.Env} {desk : Desk P.toJobStore} : s.point = .dispatching r →
    s.desk.step (.mark WorkerLoop.me m env) = some desk →
    LoopSteps mode config s (.dispatchReturns m env) { s with desk := desk, point := .head }
  | abort {orphaned : Bool} : LoopSteps mode config s .abort (s.stop orphaned)

/-- Every step is one of `LoopSteps`. -/
theorem loopSteps_of_step (hs : s.step mode config a = some s') : LoopSteps mode config s a s' := by
  cases a with
  | tick d => cases hs; exact .tick
  | signal => cases hs; exact .signal
  | other b =>
    simp only [WorkerLoop.step] at hs
    split at hs
    · cases hs
    · rename_i hb
      obtain ⟨desk, hd, rfl⟩ := Option.map_eq_some_iff.mp hs
      exact .other hb hd
  | check =>
    simp only [WorkerLoop.step] at hs
    split at hs
    · rename_i hp
      cases hs
      split
      · exact .leave hp
      · exact .stay hp
    · cases hs
  | call now env =>
    simp only [WorkerLoop.step] at hs
    split at hs
    · rename_i hp
      obtain ⟨s₁, h₁, rfl⟩ := Option.map_eq_some_iff.mp hs
      exact .called hp rfl h₁
    · rename_i hp
      cases hs
      exact .created hp rfl
    · cases hs
  | poll =>
    simp only [WorkerLoop.step] at hs
    split at hs
    · rename_i hp
      cases hs
      exact .poll hp
    · cases hs
  | execute now env =>
    simp only [WorkerLoop.step] at hs
    split at hs
    · rename_i hp
      obtain ⟨s₁, h₁, rfl⟩ := Option.map_eq_some_iff.mp hs
      exact .executed hp h₁
    · cases hs
  | executeOrphan now env =>
    simp only [WorkerLoop.step] at hs
    split at hs
    · rename_i ho
      obtain ⟨s₁, h₁, rfl⟩ := Option.map_eq_some_iff.mp hs
      exact .orphan ho h₁
    · cases hs
  | takePull =>
    simp only [WorkerLoop.step] at hs
    split at hs
    · rename_i hp
      cases hs
      exact .taken hp
    · rename_i hp
      cases hs
      exact .idle hp
    · cases hs
  | takeShutdown =>
    simp only [WorkerLoop.step] at hs
    split at hs
    · split at hs
      · cases hs; exact .shutdown
      · cases hs; exact .shutdown
      · cases hs
    · cases hs
  | takeSleep =>
    simp only [WorkerLoop.step] at hs
    split at hs
    · rename_i hp
      split at hs
      · cases hs
        exact .slept hp
      · cases hs
    · cases hs
  | dispatchReturns m env =>
    simp only [WorkerLoop.step] at hs
    split at hs
    · rename_i hp
      obtain ⟨desk, hd, rfl⟩ := Option.map_eq_some_iff.mp hs
      exact .returned hp hd
    · cases hs
  | abort =>
    simp only [WorkerLoop.step] at hs
    split at hs
    · cases hs; exact .abort
    · cases hs; exact .abort
    · cases hs; exact .abort
    · cases hs; exact .abort
    · cases hs

/-! ## Pulls -/

theorem not_moves_self (st : P.State) (id : JobId) : ¬ Moves P st st id := by
  rintro ⟨⟨v, hv, hw⟩, v', hv', hr⟩
  rw [Option.some.inj (hv.symm.trans hv'), hr] at hw
  cases hw

/-- A change of the view of one job moves no other. -/
theorem eq_of_moves {before after : P.State} {id' : JobId} {v' : JobView}
    (hu : P.view after = Function.update (P.view before) id (some v')) (h : Moves P before after id') : id' = id := by
  by_contra hne
  obtain ⟨⟨v, hv, hw⟩, v₁, hv₁, hr⟩ := h
  rw [hu, Function.update_of_ne hne, hv] at hv₁
  rw [Option.some.inj hv₁, hr] at hw
  cases hw

theorem moves_of_update {before after : P.State} {v : JobView} (hv : P.view before id = some v)
    (hw : v.status.waiting = true) (hu : P.view after = Function.update (P.view before) id (some (bumped P v))) :
    Moves P before after id :=
  ⟨⟨v, hv, hw⟩, bumped P v, by rw [hu, Function.update_self], rfl⟩

/-- A pull that loses nothing moves the job that the worker gets, or none. -/
theorem held_of_moves {d d' : Desk P.toJobStore} {i : Nat} {queues : List String} {now : DateTime} {env : P.Env}
    (hi : Inv P d) (h : d.step (.pull i queues now env) = some d')
    (hok : P.refuses env ∨ ¬ P.loses queues now d.store) (hm : Moves P d.store d'.store id) :
    ∃ r, d'.held i = some r ∧ r.id = id := by
  cases steps_of_pull hi h with
  | idle => exact absurd hm (not_moves_self _ _)
  | lost _ hr hl => exact absurd hok (not_or.mpr ⟨hr, not_not.mpr hl⟩)
  | pulled _ _ _ _ _ _ _ _ hu => exact ⟨_, Function.update_self .., (eq_of_moves hu hm).symm⟩

/-- A pull that loses a job moves it, and the worker gets nothing. -/
theorem exists_moves_of_loses {d d' : Desk P.toJobStore} {i : Nat} {queues : List String} {now : DateTime}
    {env : P.Env} (hi : Inv P d) (h : d.step (.pull i queues now env) = some d')
    (hl : ¬ (P.refuses env ∨ ¬ P.loses queues now d.store)) :
    (∃ id, Moves P d.store d'.store id) ∧ d'.held i = none := by
  obtain ⟨hr, hl⟩ := not_or.mp hl
  cases steps_of_pull hi h with
  | idle _ hok => exact absurd hok (not_or.mpr ⟨hr, hl⟩)
  | lost hh _ _ _ hv hw hu => exact ⟨⟨_, moves_of_update hv hw hu⟩, hh⟩
  | pulled _ _ hn => exact absurd hn hl

/-- The worker that gets a job had it moved. -/
theorem moves_of_held {d d' : Desk P.toJobStore} {i : Nat} {queues : List String} {now : DateTime} {env : P.Env}
    (hi : Inv P d) (h : d.step (.pull i queues now env) = some d') (hr : d'.held i = some r) :
    Moves P d.store d'.store r.id := by
  cases steps_of_pull hi h with
  | idle hh => cases hh.symm.trans hr
  | lost hh => cases hh.symm.trans hr
  | pulled _ _ _ _ hv hw _ _ hu =>
    simp only [Function.update_self, Option.some.injEq] at hr
    subst hr
    exact moves_of_update hv hw hu

/-- The store after a pull. -/
theorem store_of_pull {d d' : Desk P.toJobStore} {i : Nat} {queues : List String} {now : DateTime} {env : P.Env}
    (h : d.step (.pull i queues now env) = some d') : d'.store = (P.pullNext queues now env d.store).2 := by
  simp only [Desk.step] at h
  split at h
  · cases h
  · split at h <;> (cases h; rename_i he; rw [he])

/-- A call by someone else leaves what the worker holds. -/
theorem held_of_other_call {d d' : Desk P.toJobStore} {i : Nat} {b : DeskAction P.Env} (h : d.step b = some d')
    (hb : b.worker? ≠ some i) : d'.held i = d.held i := by
  cases b with
  | enqueue job now env => rw [held_of_enqueue h]
  | pull j queues now env => exact (held_of_pull h).2 i fun e => hb (by rw [e]; rfl)
  | mark j m env =>
    rw [held_of_mark h]
    exact Function.update_of_ne (fun e => hb (by rw [e]; rfl)) _ _
  | crash j =>
    cases h
    exact Function.update_of_ne (fun e => hb (by rw [e]; rfl)) _ _

/-! ## The invariant -/

/-- The record that the worker holds at a point. -/
def heldAt : LoopPoint → Option JobRecord
  | .selecting (.ready pulled) => pulled
  | .dispatching r => some r
  | _ => none

structure LoopInv (s : WorkerLoop P.toJobStore) : Prop where
  desk : Inv P s.desk
  held : s.desk.held WorkerLoop.me = heldAt s.point
  pending : ∀ r, s.point = .selecting (.ready (some r)) → (moved P).Pending s.log r.id
  orphaned : s.orphaned = true → s.point = .stopped

theorem loopInv_init (k : Kernel) : LoopInv (P := P) (WorkerLoop.init P.toJobStore k) where
  desk := inv_new
  held := rfl
  pending _ h := by cases h
  orphaned h := by cases h

theorem inv_of_deskStep {d d' : Desk P.toJobStore} {b : DeskAction P.Env} (hi : Inv P d) (h : d.step b = some d') :
    Inv P d' :=
  inv_step hi (steps_of_step hi h)

/-- The loop is left. -/
theorem LoopInv.stop (h : LoopInv s) (orphaned : Bool) : LoopInv (s.stop orphaned) where
  desk := inv_of_deskStep (b := .crash WorkerLoop.me) h.desk rfl
  held := by simp [WorkerLoop.stop, heldAt]
  pending _ hp := by cases hp
  orphaned _ := rfl

/-- The loop goes on to a point with the same record in hand. -/
theorem LoopInv.move (h : LoopInv s) {p p' : LoopPoint} (hs : s.point = p) (hp : heldAt p' = heldAt p)
    (hr : ∀ r, p' ≠ .selecting (.ready (some r))) (hne : p ≠ .stopped) : LoopInv { s with point := p' } where
  desk := h.desk
  held := by rw [h.held, hs, hp]
  pending r hpr := absurd hpr (hr r)
  orphaned ho := absurd (hs ▸ h.orphaned ho) hne

/-- A pull of the worker. -/
theorem LoopInv.pulled (h : LoopInv s) {now : DateTime} {env : P.Env} (hp : s.pull config now env = some s')
    (hs : s.point ≠ .stopped) : LoopInv { s' with point := .selecting (.ready (s'.desk.held WorkerLoop.me)) } := by
  obtain ⟨desk, hd, rfl⟩ := Option.map_eq_some_iff.mp hp
  refine ⟨inv_of_deskStep h.desk hd, rfl, fun r hr => ?_, fun ho => absurd (h.orphaned ho) hs⟩
  have hr : desk.held WorkerLoop.me = some r := by
    simpa using hr
  exact Obligation.pending_concat.mpr (.inl ⟨_, _, rfl, moves_of_held h.desk hd hr⟩)

theorem loopInv_step (h : LoopInv s) (hs : LoopSteps mode config s a s') : LoopInv s' := by
  cases hs with
  | tick | signal => exact ⟨h.desk, h.held, h.pending, h.orphaned⟩
  | other hb hd => exact ⟨inv_of_deskStep h.desk hd, (held_of_other_call hd hb).trans h.held, h.pending, h.orphaned⟩
  | leave | shutdown | abort => exact h.stop _
  | stay hp | created hp | poll hp | idle hp | slept hp => exact h.move hp rfl (by simp) (by simp)
  | called hp _ h₁ => exact h.pulled h₁ (by simp [hp])
  | executed hp h₁ => exact h.pulled h₁ (by simp [hp])
  | orphan _ h₁ =>
    obtain ⟨desk, hd, rfl⟩ := Option.map_eq_some_iff.mp h₁
    refine ⟨inv_of_deskStep (b := .crash WorkerLoop.me) (inv_of_deskStep h.desk hd) rfl, ?_, fun r hp => (by cases hp),
      fun _ => rfl⟩
    simp [WorkerLoop.stop, heldAt]
  | taken hp =>
    refine ⟨h.desk, by rw [h.held, hp]; rfl, fun r hr => (by cases hr), fun ho => ?_⟩
    cases hp.symm.trans (h.orphaned ho)
  | returned hp hd =>
    refine ⟨inv_of_deskStep h.desk hd, ?_, fun r hr => (by cases hr), fun ho => ?_⟩
    · exact (congrFun (held_of_mark hd) _).trans (Function.update_self ..)
    · cases hp.symm.trans (h.orphaned ho)

/-! ## Keeping what was pulled -/

theorem not_inHand (h : ∀ r, s.point ≠ .selecting (.ready (some r))) : ¬ InHand s id := by
  rintro ⟨r, hr, -⟩
  exact h r hr

/-- A pull in a state with nothing in hand keeps every pulled job exactly if
the job that it moves, if any, is in hand afterwards. -/
theorem kept_of_ran {st : P.State} (hk : Kept P s) (hn : ∀ r, s.point ≠ .selecting (.ready (some r)))
    (hlog : s'.log = s.log ++ [.ran s.desk.store st]) :
    Kept P s' ↔ ∀ id, Moves P s.desk.store st id → InHand s' id := by
  constructor
  · intro h id hm
    exact h id (by rw [hlog]; exact Obligation.pending_concat.mpr (.inl ⟨_, _, rfl, hm⟩))
  · intro h id hp
    rw [hlog] at hp
    rcases Obligation.pending_concat.mp hp with ⟨_, _, he, hm⟩ | ⟨hp, -⟩
    · obtain ⟨rfl, rfl⟩ := LoopEntry.ran.inj he
      exact h id hm
    · exact absurd (hk id hp) (not_inHand hn)

/-- A pull in the loop's own future. -/
theorem kept_of_pull (h : LoopInv s) (hk : Kept P s) {now : DateTime} {env : P.Env}
    (hp : s.pull config now env = some s') (hn : ∀ r, s.point ≠ .selecting (.ready (some r))) :
    Kept P { s' with point := .selecting (.ready (s'.desk.held WorkerLoop.me)) } ↔
      (P.refuses env ∨ ¬ P.loses config.queues now s.desk.store) := by
  obtain ⟨desk, hd, rfl⟩ := Option.map_eq_some_iff.mp hp
  rw [kept_of_ran hk hn rfl]
  constructor
  · intro hall
    by_contra hl
    obtain ⟨⟨id, hm⟩, hheld⟩ := exists_moves_of_loses h.desk hd hl
    obtain ⟨r, hr, -⟩ := hall id hm
    simp [hheld] at hr
  · intro hok id hm
    obtain ⟨r, hr, hid⟩ := held_of_moves h.desk hd hok hm
    exact ⟨r, by rw [hr], hid⟩

/-- The loop is left. -/
theorem kept_of_stop (h : LoopInv s) (hk : Kept P s) (orphaned : Bool) :
    Kept P (s.stop orphaned) ↔ ∀ r, s.point ≠ .selecting (.ready (some r)) := by
  constructor
  · intro hs r hr
    obtain ⟨r', hr', -⟩ := hs r.id (h.pending r hr)
    cases hr'
  · intro hn id hp
    exact absurd (hk id hp) (not_inHand hn)

/-- A step keeps every pulled job exactly if it meets `KeepsPull`. -/
theorem kept_step (h : LoopInv s) (hk : Kept P s) (hs : LoopSteps mode config s a s') :
    Kept P s' ↔ KeepsPull P mode config s a := by
  -- a step that leaves the log and goes on with nothing in hand
  have quiet : ∀ {p p'}, s.point = p → (∀ r, p ≠ .selecting (.ready (some r))) → Kept P { s with point := p' } := by
    intro p p' hp hne id hpend
    exact absurd (hk id hpend) (not_inHand (by rw [hp]; exact hne))
  cases hs with
  | tick | signal | other => exact iff_of_true hk trivial
  | leave hp =>
    refine iff_of_true ((kept_of_stop h hk _).mpr ?_) trivial
    simp [hp]
  | stay hp | poll hp | idle hp | slept hp => exact iff_of_true (quiet hp (by simp)) trivial
  | created hp hm => exact iff_of_true (quiet hp (by simp)) fun hm' => by rw [hm] at hm'; cases hm'
  | called hp hm h₁ =>
    rw [kept_of_pull h hk h₁ (by simp [hp]), KeepsPull, hm]
    exact ⟨fun hok _ => hok, fun hok => hok rfl⟩
  | executed hp h₁ => exact kept_of_pull h hk h₁ (by simp [hp])
  | orphan ho h₁ =>
    obtain ⟨desk, hd, rfl⟩ := Option.map_eq_some_iff.mp h₁
    have hp := h.orphaned ho
    rw [kept_of_ran hk (by simp [hp]) rfl, KeepsPull, Finds, ← store_of_pull hd, not_exists]
    refine forall_congr' fun id => ⟨fun hm hmv => ?_, fun hn hmv => (hn hmv).elim⟩
    obtain ⟨r, hr, -⟩ := hm hmv
    cases hr
  | @taken r hp =>
    refine iff_of_true (fun id hpend => ?_) trivial
    obtain ⟨hpend, hc⟩ := hpend.of_concat (by rintro ⟨_, _, he, -⟩; cases he)
    obtain ⟨r', hr', hid⟩ := hk id hpend
    obtain rfl : r = r' := by simpa [hp] using hr'
    exact absurd ⟨r, rfl, hid⟩ hc
  | shutdown => exact kept_of_stop h hk _
  | returned hp => exact iff_of_true (fun id hpend => absurd (hk id hpend) (not_inHand (by simp [hp]))) trivial
  | abort => exact kept_of_stop h hk _

/-- In a run of the loop, over either provider, every job that a pull of the
worker moved to `Running` is passed to `dispatch_one` or about to be, in every
state, exactly if every step of the run meets `KeepsPull`. -/
theorem no_pull_dropped_iff (P : Provider) (mode : PullMode) (config : JobsConfig) (k : Kernel)
    {as : List (LoopAction P.Env)} {s : WorkerLoop P.toJobStore}
    (h : exec (WorkerLoop.step mode config) (WorkerLoop.init P.toJobStore k) as = some s) :
    AlongStates (WorkerLoop.step mode config) (Kept P) (WorkerLoop.init P.toJobStore k) as ↔
      AlongSteps (WorkerLoop.step mode config) (KeepsPull P mode config) (WorkerLoop.init P.toJobStore k) as := by
  have hinit : Kept P (WorkerLoop.init P.toJobStore k) := fun id hp => absurd hp Obligation.not_pending_nil
  exact alongStates_iff_alongSteps (fun hi h₁ => loopInv_step hi (loopSteps_of_step h₁))
    (fun hi hk h₁ => kept_step hi hk (loopSteps_of_step h₁)) (loopInv_init k) hinit h

/-! ## A job pulled as shutdown is signalled -/

/-- The job is enqueued and the loop calls `pull_next`, just before and just
after the signal. -/
def pullAtSignal : List (LoopAction Unit) :=
  [.other (.enqueue mail DateTime.epoch ()), .check, .signal, .call DateTime.epoch ()]

def mailWorker : JobsConfig where
  workerCount := 1
  queues := ["default"]
  defaultQueue := "default"
  defaultMaxAttempts := 1
  defaultBackoff := .linear (Duration.fromSecs 1) (Duration.fromSecs 1)
  pollInterval := Duration.fromSecs 1

/-- The select takes the branch of the pull. -/
theorem no_pull_dropped_mail : ∃ s : WorkerLoop InMemoryJobStore,
    exec (WorkerLoop.step .atCall mailWorker) (WorkerLoop.init InMemoryJobStore ⟨0, false⟩)
      (pullAtSignal ++ [.takePull]) = some s ∧
    AlongStates (WorkerLoop.step .atCall mailWorker) (Kept inMemory) (WorkerLoop.init InMemoryJobStore ⟨0, false⟩)
      (pullAtSignal ++ [.takePull]) := by
  refine ⟨_, rfl, (no_pull_dropped_iff inMemory .atCall mailWorker ⟨0, false⟩ rfl).mpr ?_⟩
  refine ⟨trivial, fun s h => ⟨trivial, fun s h => ⟨trivial, fun s h => ⟨fun _ => .inr id, fun s h => ?_⟩⟩⟩⟩
  exact ⟨trivial, fun s h => trivial⟩

/-- It takes the branch of the signal: the job stays `Running`, and is never
dispatched. -/
theorem pulled_job_dropped : ¬ ∀ (mode : PullMode) (config : JobsConfig) (as : List (LoopAction Unit))
    (s : WorkerLoop InMemoryJobStore),
    exec (WorkerLoop.step mode config) (WorkerLoop.init InMemoryJobStore ⟨0, false⟩) as = some s →
    AlongStates (WorkerLoop.step mode config) (Kept inMemory) (WorkerLoop.init InMemoryJobStore ⟨0, false⟩) as := by
  intro h
  have hall := h .atCall mailWorker (pullAtSignal ++ [.takeShutdown]) _ rfl
  have hlast := alongStates_iff_prefix.mp hall _ [] _ (List.append_nil _).symm rfl
  have hmoved : Moves inMemory (InMemoryStoreInner.enqueue mail DateTime.epoch .empty).2
      (InMemoryStoreInner.pullNext ["default"] DateTime.epoch
        (InMemoryStoreInner.enqueue mail DateTime.epoch .empty).2).2 ⟨1⟩ := ⟨⟨_, rfl, rfl⟩, _, rfl, rfl⟩
  obtain ⟨r, hr, -⟩ := hlast ⟨1⟩ ⟨[], _, [], rfl, ⟨_, _, rfl, hmoved⟩, List.forall_mem_nil _⟩
  cases hr

end WalaStack.Proof.Jobs
