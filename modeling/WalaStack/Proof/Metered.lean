import WalaStack.Spec.Metered
import WalaStack.Proof.Lag
import WalaStack.Proof.Scheduler.Waits
import WalaStack.Framework.Parties

/-!
# Accounts of the fires

A step of a schedule publishes nothing, or the event of a fire that begins, goes
on or ends (`PublishSteps`); so the fires of a schedule are those completed and
failed, and one more while the last is open (`Balanced`). What the schedules
have published is what was sent to the channels of the loop (`MeterInv`).
-/

namespace WalaStack.Proof.Health

open WalaStack.Rust WalaStack.Transition WalaStack.Parties WalaStack.Broadcast WalaStack.Impl.Runtime
  WalaStack.Impl.Observability WalaStack.Spec.Health WalaStack.Proof.Scheduler

variable {cfg : Scheduled} {clock : Clock} {s s' : Schedule} {a : ScheduleAction} {evs es : List TaskEvent}

/-! ## Balance -/

/-- The events of a channel. -/
def countOn (k : Channel) (evs : List TaskEvent) : Nat := evs.countP fun e => (Observed.task e).channel = k

@[simp] theorem countOn_append (k : Channel) (evs es : List TaskEvent) : countOn k (evs ++ es) = countOn k evs + countOn k es :=
  List.countP_append

def Balanced (evs : List TaskEvent) : Prop :=
  countOn .taskFired evs = countOn .taskCompleted evs + countOn .taskFailed evs + if openFire evs then 1 else 0

@[simp] theorem openFire_concat (evs : List TaskEvent) (e : TaskEvent) : openFire (evs ++ [e]) = openFire [e] := by
  simp [openFire]

theorem balanced_nil : Balanced [] := rfl

/-- The two ends of a fire. -/
def endsFire : TaskEvent → Bool
  | .completed _ _ | .failed _ _ _ => true
  | .fired _ _ | .retrying _ _ _ => false

def beginsFire : TaskEvent → Bool
  | .fired _ _ => true
  | .completed _ _ | .failed _ _ _ | .retrying _ _ _ => false

theorem openFire_singleton (e : TaskEvent) : openFire [e] = !endsFire e := by cases e <;> rfl

/-- A fire begins where none is open, and goes on or ends where one is. -/
theorem balanced_concat {e : TaskEvent} (h : Balanced evs) (ho : openFire evs = !beginsFire e) : Balanced (evs ++ [e]) := by
  unfold Balanced at h ⊢
  rw [ho] at h
  simp only [countOn_append, openFire_concat, openFire_singleton]
  simp only [countOn] at h ⊢
  cases e with
  | fired | completed | failed | retrying =>
    simp only [beginsFire, endsFire, Observed.channel, List.countP_singleton, reduceCtorEq, decide_true, decide_false,
      Bool.not_true, Bool.not_false, Bool.false_eq_true, ite_true, ite_false] at h ⊢
    omega

/-! ## What a step publishes -/

/-- The event, if there is a bus. -/
def heardOf (cfg : Scheduled) (e : TaskEvent) : List TaskEvent := if cfg.wired then [e] else []

/-- The history grows, by entries that publish `es`. -/
def Adds (s s' : Schedule) (es : List TaskEvent) : Prop := ∃ hs, s'.history = s.history ++ hs ∧ publishedOf hs = es

theorem adds_nil (h : s'.history = s.history) : Adds s s' [] := ⟨[], by rw [h, List.append_nil], rfl⟩

theorem Adds.trans {s'' : Schedule} (h : Adds s s' evs) (h' : Adds s' s'' es) : Adds s s'' (evs ++ es) := by
  obtain ⟨hs, hh, rfl⟩ := h
  obtain ⟨hs', hh', rfl⟩ := h'
  exact ⟨hs ++ hs', by rw [hh', hh, List.append_assoc], List.filterMap_append⟩

theorem adds_publish (cfg : Scheduled) (s : Schedule) (e : TaskEvent) : Adds s (s.publish cfg e) (heardOf cfg e) := by
  unfold Schedule.publish heardOf
  split
  · exact ⟨[.published e], rfl, rfl⟩
  · exact adds_nil rfl

theorem adds_afterFire (cfg : Scheduled) (clock : Clock) (s : Schedule) : Adds s (s.afterFire cfg clock) [] := by
  unfold Schedule.afterFire
  split <;> exact adds_nil rfl

theorem adds_beginAttempt (cfg : Scheduled) (clock : Clock) (attempt firedAt : Nat) (s : Schedule) :
    Adds s (s.beginAttempt cfg clock attempt firedAt) [] := by
  unfold Schedule.beginAttempt
  split
  · exact adds_afterFire cfg clock s
  · exact ⟨[.called attempt clock.now], rfl, rfl⟩

theorem cancelled_afterFire (cfg : Scheduled) (clock : Clock) (s : Schedule) :
    (s.afterFire cfg clock).cancelled = s.cancelled := by
  unfold Schedule.afterFire
  split <;> rfl

theorem not_atWork_afterFire (cfg : Scheduled) (clock : Clock) (s : Schedule) : ¬ AtWork (s.afterFire cfg clock) := by
  unfold Schedule.afterFire
  split <;> exact id

/-- What a step publishes, by what it does to the fire. -/
inductive PublishSteps (cfg : Scheduled) (s s' : Schedule) : List TaskEvent → Prop
  | quiet : (AtWork s' → AtWork s) → (Waiting s' → Waiting s) → PublishSteps cfg s s' []
  | begins {e : TaskEvent} : Waiting s → ¬ Waiting s' → beginsFire e = true → PublishSteps cfg s s' (heardOf cfg e)
  | goesOn {e : TaskEvent} : AtWork s → ¬ Waiting s' → beginsFire e = false → endsFire e = false →
      PublishSteps cfg s s' (heardOf cfg e)
  | ends {e : TaskEvent} : AtWork s → ¬ AtWork s' → endsFire e = true → PublishSteps cfg s s' (heardOf cfg e)

/-- Where the receiver has not seen the last change, the schedule is cancelled. -/
def Seen (s : Schedule) : Prop := s.unseen = true → s.cancelled = true

theorem not_waiting_of_cancelled (h : s.cancelled = true) : ¬ Waiting s := fun hw => by cases hw.1.symm.trans h

/-- The schedule is at work, or cancelled. -/
theorem not_waiting_beginAttempt (attempt firedAt : Nat) : ¬ Waiting (s.beginAttempt cfg clock attempt firedAt) := by
  unfold Schedule.beginAttempt
  split
  · rename_i hc
    exact not_waiting_of_cancelled ((cancelled_afterFire cfg clock s).trans hc)
  · rintro ⟨-, wake, hp⟩
    cases hp

/-- The fire is counted and announced. -/
def announced (cfg : Scheduled) (clock : Clock) (s : Schedule) : Schedule :=
  ({ s with triggerCount := saturatingAdd s.triggerCount 1, lastFire := some clock.now } : Schedule).publish cfg
    (.fired cfg.id (saturatingAdd s.triggerCount 1))

theorem adds_announced (cfg : Scheduled) (clock : Clock) (s : Schedule) :
    Adds s (announced cfg clock s) (heardOf cfg (.fired cfg.id (saturatingAdd s.triggerCount 1))) := by
  obtain ⟨hs, hh, hp⟩ := adds_publish cfg
    { s with triggerCount := saturatingAdd s.triggerCount 1, lastFire := some clock.now }
    (.fired cfg.id (saturatingAdd s.triggerCount 1))
  exact ⟨hs, hh, hp⟩

/-- The first attempt begins, or is cancelled. -/
theorem publishSteps_first {s₁ : Schedule} (hw : Waiting s) (hh : s₁.history = (announced cfg clock s).history) :
    ∃ es, Adds s (s₁.beginAttempt cfg clock 1 clock.now) es ∧ PublishSteps cfg s (s₁.beginAttempt cfg clock 1 clock.now) es := by
  obtain ⟨hs, hs₁, hpub⟩ := adds_announced cfg clock s
  have hadds := Adds.trans ⟨hs, hh.trans hs₁, hpub⟩ (adds_beginAttempt cfg clock 1 clock.now s₁)
  rw [List.append_nil] at hadds
  exact ⟨_, hadds, .begins hw (not_waiting_beginAttempt 1 clock.now) rfl⟩

theorem adds_onResult (hw : AtWork s) (attempt firedAt subsecNanos : Nat) (result : Except String Unit) :
    ∃ es, Adds s (s.onResult cfg clock attempt firedAt subsecNanos result) es ∧
      PublishSteps cfg s (s.onResult cfg clock attempt firedAt subsecNanos result) es := by
  have hended : ∀ e, endsFire e = true → ∃ es, Adds s ((s.publish cfg e).afterFire cfg clock) es ∧
      PublishSteps cfg s ((s.publish cfg e).afterFire cfg clock) es := fun e he => by
    refine ⟨_, ?_, .ends hw (not_atWork_afterFire cfg clock _) he⟩
    have hadds := (adds_publish cfg s e).trans (adds_afterFire cfg clock _)
    rwa [List.append_nil] at hadds
  cases result with
  | ok => exact hended _ rfl
  | error err =>
    simp only [Schedule.onResult]
    split
    · obtain ⟨hs, hh, hp⟩ := adds_publish cfg s (.retrying cfg.id (attempt + 1) (cfg.policies.retryDelay subsecNanos attempt))
      refine ⟨_, ⟨hs, hh, hp⟩, .goesOn hw ?_ rfl rfl⟩
      rintro ⟨-, wake, hp⟩
      cases hp
    · exact hended _ rfl

theorem publishSteps_of_steps (hu : Seen s) (h : ScheduleSteps cfg clock s a s') :
    ∃ es, Adds s s' es ∧ PublishSteps cfg s s' es := by
  cases h with
  | stop hp _ _ =>
    refine ⟨[], adds_nil rfl, .quiet (fun h => h.elim) ?_⟩
    rintro ⟨-, _, h⟩
    cases h
  | @fire wake hp _ hc =>
    rw [Schedule.fire, if_neg (by simp [hc])]
    exact publishSteps_first ⟨hc, wake, hp⟩ rfl
  | @retry attempt firedAt _ hp _ =>
    exact ⟨[], adds_beginAttempt cfg clock (attempt + 1) firedAt s,
      .quiet (fun _ => atWork_backingOff hp) fun h => absurd h (not_waiting_beginAttempt (attempt + 1) firedAt)⟩
  | leaveWait hp _ =>
    refine ⟨[], adds_nil rfl, .quiet (fun h => h.elim) ?_⟩
    rintro ⟨-, _, h⟩
    cases h
  | leaveBackoff hp hun =>
    obtain ⟨hs, hh, hpub⟩ := adds_afterFire cfg clock { s with unseen := false }
    refine ⟨[], ⟨hs, hh, hpub⟩, .quiet (fun h => absurd h (not_atWork_afterFire cfg clock _)) fun h => ?_⟩
    exact absurd h (not_waiting_of_cancelled ((cancelled_afterFire cfg clock _).trans (hu hun)))
  | @returned attempt firedAt _ subsecNanos result hp =>
    exact adds_onResult (atWork_calling hp) attempt firedAt subsecNanos result
  | @timedOut attempt firedAt _ subsecNanos _ hp _ _ =>
    exact adds_onResult (atWork_calling hp) attempt firedAt subsecNanos _
  | panicked hp =>
    refine ⟨[], adds_nil rfl, .quiet (fun h => h.elim) ?_⟩
    rintro ⟨-, _, h⟩
    cases h
  | cancel => exact ⟨[], adds_nil rfl, .quiet id fun h => by cases h.1⟩
  | shutdown => exact ⟨[], adds_nil rfl, .quiet (fun h => h.elim) fun h => by cases h.1⟩

theorem publishSteps_of_interrupt (h : s.interrupt cfg clock = some s') :
    ∃ es, Adds s s' es ∧ PublishSteps cfg s s' es := by
  unfold Schedule.interrupt at h
  split at h
  · rename_i wake hp
    split at h
    · rename_i hc
      obtain rfl := Option.some.inj h
      exact publishSteps_first ⟨hc.2, wake, hp⟩ rfl
    · cases h
  · cases h

/-! ## One schedule -/

@[simp] theorem unseen_afterFire (cfg : Scheduled) (clock : Clock) (s : Schedule) :
    (s.afterFire cfg clock).unseen = s.unseen := by
  unfold Schedule.afterFire
  split <;> rfl

theorem seen_congr (h : Seen s) (hc : s'.cancelled = s.cancelled) (hu : s'.unseen = s.unseen) : Seen s' := by
  unfold Seen
  rw [hc, hu]
  exact h

theorem seen_beginAttempt (h : Seen s) (attempt firedAt : Nat) : Seen (s.beginAttempt cfg clock attempt firedAt) := by
  unfold Schedule.beginAttempt
  split
  · exact seen_congr h (cancelled_afterFire cfg clock s) (unseen_afterFire cfg clock s)
  · exact h

theorem seen_onResult (h : Seen s) (attempt firedAt subsecNanos : Nat) (result : Except String Unit) :
    Seen (s.onResult cfg clock attempt firedAt subsecNanos result) := by
  have hended : ∀ e, Seen ((s.publish cfg e).afterFire cfg clock) := fun e =>
    seen_congr h (by rw [cancelled_afterFire, publish_cancelled]) (by rw [unseen_afterFire, publish_unseen])
  cases result with
  | ok => exact hended _
  | error err =>
    simp only [Schedule.onResult]
    split
    · exact seen_congr h (publish_cancelled s _) (publish_unseen s _)
    · exact hended _

theorem seen_of_steps (h : Seen s) (hs : ScheduleSteps cfg clock s a s') : Seen s' := by
  cases hs with
  | stop | panicked => exact h
  | fire _ _ hc =>
    rw [Schedule.fire, if_neg (by simp [hc])]
    refine seen_beginAttempt ?_ 1 clock.now
    exact seen_congr h (publish_cancelled _ _) (publish_unseen _ _)
  | retry => exact seen_beginAttempt h _ _
  | leaveWait => exact fun hu => by cases hu
  | leaveBackoff => exact fun hu => by rw [unseen_afterFire] at hu; cases hu
  | returned => exact seen_onResult h _ _ _ _
  | timedOut => exact seen_onResult h _ _ _ _
  | cancel | shutdown => exact fun _ => rfl

theorem seen_of_interrupt (h : s.interrupt cfg clock = some s') : Seen s' := by
  unfold Schedule.interrupt at h
  split at h
  · split at h
    · obtain rfl := Option.some.inj h
      exact seen_beginAttempt (fun _ => rfl) 1 clock.now
    · cases h
  · cases h

structure FireInv (cfg : Scheduled) (s : Schedule) : Prop where
  seen : Seen s
  balanced : Balanced (publishedOf s.history)
  unwired : cfg.wired = false → publishedOf s.history = []
  working : AtWork s → cfg.wired = true → openFire (publishedOf s.history) = true
  resting : Waiting s → openFire (publishedOf s.history) = false

theorem fireInv_init (cfg : Scheduled) (clock : Clock) : FireInv cfg (.init cfg clock) where
  seen := fun h => by cases h
  balanced := balanced_nil
  unwired _ := rfl
  working h := h.elim
  resting _ := rfl

/-- Without a bus, nothing is published. -/
theorem fireInv_unwired (hseen : Seen s) (hw : cfg.wired = false) (hnone : publishedOf s.history = []) : FireInv cfg s where
  seen := hseen
  balanced := by rw [hnone]; exact balanced_nil
  unwired _ := hnone
  working _ h := by cases h.symm.trans hw
  resting _ := by rw [hnone]; rfl

/-- An event is published, and leaves the fire open or closed as the schedule
goes on. -/
theorem fireInv_concat {e : TaskEvent} (hi : FireInv cfg s) (hseen : Seen s') (hw : cfg.wired = true)
    (hall : publishedOf s'.history = publishedOf s.history ++ [e]) (hopen : openFire (publishedOf s.history) = !beginsFire e)
    (hwork : AtWork s' → endsFire e = false) (hrest : Waiting s' → endsFire e = true) : FireInv cfg s' where
  seen := hseen
  balanced := by rw [hall]; exact balanced_concat hi.balanced hopen
  unwired h := by cases h.symm.trans hw
  working h _ := by rw [hall, openFire_concat, openFire_singleton, hwork h]; rfl
  resting h := by rw [hall, openFire_concat, openFire_singleton, hrest h]; rfl

theorem endsFire_of_beginsFire {e : TaskEvent} (h : beginsFire e = true) : endsFire e = false := by
  cases e with
  | fired => rfl
  | completed | failed | retrying => cases h

theorem fireInv_step (hi : FireInv cfg s) (hseen : Seen s') (ha : Adds s s' es) (h : PublishSteps cfg s s' es) :
    FireInv cfg s' := by
  obtain ⟨hs, hh, hpub⟩ := ha
  have hall : publishedOf s'.history = publishedOf s.history ++ es := by
    rw [hh, publishedOf, List.filterMap_append, ← hpub]
    rfl
  cases hw : cfg.wired with
  | false =>
    refine fireInv_unwired hseen hw ?_
    rw [hall, hi.unwired hw]
    cases h with
    | quiet => rfl
    | begins | goesOn | ends => simp [heardOf, hw]
  | true =>
    have hheard : ∀ e, heardOf cfg e = [e] := fun e => by simp [heardOf, hw]
    cases h with
    | quiet hwork hwait =>
      rw [List.append_nil] at hall
      exact ⟨hseen, hall ▸ hi.balanced, fun hw => hall ▸ hi.unwired hw, fun hw hb => hall ▸ hi.working (hwork hw) hb,
        fun hw => hall ▸ hi.resting (hwait hw)⟩
    | @begins e hs hs' he =>
      rw [hheard] at hall
      exact fireInv_concat hi hseen hw hall (by rw [hi.resting hs, he]; rfl) (fun _ => endsFire_of_beginsFire he)
        fun h => absurd h hs'
    | @goesOn e hs hs' hbegin hend =>
      rw [hheard] at hall
      exact fireInv_concat hi hseen hw hall (by rw [hi.working hs hw, hbegin]; rfl) (fun _ => hend) fun h => absurd h hs'
    | @ends e hs hs' he =>
      have hbegin : beginsFire e = false := by
        cases h : beginsFire e with
        | false => rfl
        | true => cases (endsFire_of_beginsFire h).symm.trans he
      rw [hheard] at hall
      exact fireInv_concat hi hseen hw hall (by rw [hi.working hs hw, hbegin]; rfl) (fun h => absurd h hs') fun _ => he

/-! ## All schedules -/

def isTask : Channel → Bool
  | .taskFired | .taskCompleted | .taskFailed | .taskRetrying => true
  | _ => false

/-- What the schedules have published on a channel. -/
def publishedOn (k : Channel) (ps : List (Scheduled × Schedule)) : Nat :=
  (ps.map fun p => countOn k (publishedOf p.2.history)).sum

structure MeterInv (m : Metered) : Prop where
  schedules : ∀ p ∈ m.schedules, FireInv p.1 p.2
  sent : ∀ k, isTask k = true → (m.loop.sent k).length = publishedOn k m.schedules
  loop : LoopInv m.loop

theorem meterInv_init : MeterInv .init where
  schedules _ h := absurd h List.not_mem_nil
  sent _ _ := rfl
  loop := loopInv_init

theorem length_sent_publish (l : ObservabilityLoop) (e : Observed) (k : Channel) :
    ((l.publish e).sent k).length = (l.sent k).length + if e.channel = k then 1 else 0 := by
  by_cases hk : k = e.channel
  · subst hk
    simp [ObservabilityLoop.publish]
  · simp [ObservabilityLoop.publish, Function.update_of_ne hk, Ne.symm hk]

theorem publish_all (es : List TaskEvent) {l : ObservabilityLoop} (hl : LoopInv l) :
    LoopInv (es.foldl (fun l e => l.publish (.task e)) l) ∧ ∀ k,
      ((es.foldl (fun l e => l.publish (.task e)) l).sent k).length = (l.sent k).length + countOn k es := by
  induction es generalizing l with
  | nil => exact ⟨hl, fun _ => rfl⟩
  | cons e es ih =>
    obtain ⟨hinv, hlen⟩ := ih (loopInv_publish hl (.task e))
    refine ⟨hinv, fun k => ?_⟩
    rw [List.foldl_cons, hlen, length_sent_publish, countOn, countOn, List.countP_cons]
    simp only [decide_eq_true_eq]
    omega

theorem meterInv_advance {m : Metered} {i : Nat} {p : Scheduled × Schedule} (hi : MeterInv m)
    (hp : m.schedules[i]? = some p) (ha : Adds p.2 s' es) (hf : FireInv p.1 s') : MeterInv (m.advance i p s') := by
  obtain ⟨hs, hh, hpub⟩ := ha
  have hnew : publishedOf (s'.history.drop p.2.history.length) = es := by rw [hh, List.drop_left, hpub]
  have hall : publishedOf s'.history = publishedOf p.2.history ++ es := by
    rw [hh, publishedOf, List.filterMap_append, ← hpub]
    rfl
  obtain ⟨hloop, hlen⟩ := publish_all es hi.loop
  refine ⟨fun q hq => ?_, fun k hk => ?_, by rw [Metered.advance, hnew]; exact hloop⟩
  · rcases List.mem_or_eq_of_mem_set hq with hq | rfl
    · exact hi.schedules q hq
    · exact hf
  · have hsum := sum_map_set_add hp (p.1, s') fun q => countOn k (publishedOf q.2.history)
    simp only [hall, countOn_append] at hsum
    rw [Metered.advance, hnew, hlen, hi.sent k hk]
    simp only [publishedOn]
    omega

theorem meterInv_step {size : Nat} {m m' : Metered} {a : MeteredAction} (hi : MeterInv m) (h : m.step size a = some m') :
    MeterInv m' := by
  have hread : ∀ {a l}, m.loop.step size a = some l → (∀ e, a ≠ .publish e) → MeterInv { m with loop := l } := by
    intro a l hl hne
    have hstep := loopSteps_of_step hl
    refine ⟨hi.schedules, fun k hk => ?_, loopInv_step hi.loop hstep⟩
    cases hstep with
    | published e => exact absurd rfl (hne e)
    | read | ended => exact hi.sent k hk
  cases a with
  | schedule cfg clock =>
    obtain rfl := Option.some.inj h
    refine ⟨fun p hp => ?_, fun k hk => ?_, hi.loop⟩
    · rcases List.mem_append.mp hp with hp | hp
      · exact hi.schedules p hp
      · obtain rfl := List.mem_singleton.mp hp
        exact fireInv_init cfg clock
    · simp only [publishedOn, List.map_append, List.sum_append, List.map_singleton, List.sum_singleton]
      exact hi.sent k hk
  | task i clock a =>
    simp only [Metered.step] at h
    split at h
    · rename_i p hp
      obtain ⟨s', hs, rfl⟩ := Option.map_eq_some_iff.mp h
      have hf := hi.schedules p (List.mem_of_getElem? hp)
      have hsteps := scheduleSteps_of_step hs
      obtain ⟨es, ha, hpub⟩ := publishSteps_of_steps hf.seen hsteps
      exact meterInv_advance hi hp ha (fireInv_step hf (seen_of_steps hf.seen hsteps) ha hpub)
    · cases h
  | interrupted i clock =>
    simp only [Metered.step] at h
    split at h
    · rename_i p hp
      obtain ⟨s', hs, rfl⟩ := Option.map_eq_some_iff.mp h
      have hf := hi.schedules p (List.mem_of_getElem? hp)
      obtain ⟨es, ha, hpub⟩ := publishSteps_of_interrupt hs
      exact meterInv_advance hi hp ha (fireInv_step hf (seen_of_interrupt hs) ha hpub)
    · cases h
  | other e =>
    simp only [Metered.step] at h
    split at h
    · cases h
    · rename_i hne
      obtain rfl := Option.some.inj h
      refine ⟨hi.schedules, fun k hk => ?_, loopInv_publish hi.loop e⟩
      have hchannel : e.channel ≠ k := by
        rintro rfl
        match e with
        | .service (.started _ _) | .service (.stopped _) | .service (.failed _ _ _ _) | .runtime _ => cases hk
        | .task e => exact hne e rfl
      rw [length_sent_publish, if_neg hchannel, hi.sent k hk]
      rfl
  | recv k =>
    obtain ⟨l, hl, rfl⟩ := Option.map_eq_some_iff.mp h
    exact hread hl fun e he => by cases he
  | shutdown =>
    obtain ⟨l, hl, rfl⟩ := Option.map_eq_some_iff.mp h
    exact hread hl fun e he => by cases he

/-! ## The accounts -/

theorem balanced_all {ps : List (Scheduled × Schedule)} (h : ∀ p ∈ ps, FireInv p.1 p.2) :
    publishedOn .taskFired ps = publishedOn .taskCompleted ps + publishedOn .taskFailed ps +
      ps.countP fun p => openFire (publishedOf p.2.history) := by
  induction ps with
  | nil => rfl
  | cons p ps ih =>
    have hp := (h p List.mem_cons_self).balanced
    have hps := ih fun q hq => h q (List.mem_cons_of_mem _ hq)
    unfold Balanced at hp
    simp only [publishedOn, List.map_cons, List.sum_cons, List.countP_cons] at hps ⊢
    omega

/-- However the schedules of a scheduler fire, end, are cancelled or panic, and
whatever the meter reads when: each fire is completed, failed, or the last of its
schedule, which is then not waiting; and the totals say so once the meter has
caught up. -/
theorem fires_accounted {size : Nat} {m : Metered} {as : List MeteredAction}
    (h : exec (Metered.step size) .init as = some m) : Accounted m := by
  have hi : MeterInv m := exec_invariant (fun hi hs => meterInv_step hi hs) meterInv_init h
  have hfires : (m.loop.sent .taskFired).length =
      (m.loop.sent .taskCompleted).length + (m.loop.sent .taskFailed).length + openFires m := by
    rw [hi.sent _ rfl, hi.sent _ rfl, hi.sent _ rfl]
    exact balanced_all hi.schedules
  refine ⟨hfires, fun p hp hw => (hi.schedules p hp).resting hw, fun hcaught hmax => ?_⟩
  have htotal : ∀ k n, total? m.loop.state.counts k = some n → n = min (m.loop.sent k).length u64Max := fun k n hn => by
    obtain ⟨hnext, hmissed⟩ := hcaught k
    rw [totals_of_inv hi.loop hn, hnext, hmissed, Nat.sub_zero]
  have hfired := htotal .taskFired _ rfl
  have hcompleted := htotal .taskCompleted _ rfl
  have hfailed := htotal .taskFailed _ rfl
  omega

/-- Two schedules: the first completes at its second attempt, the second panics,
and the meter reads it all. -/
def oneCompletes : List MeteredAction :=
  [.schedule twoAttempts (atSecond 0), .schedule twoAttempts (atSecond 0), .task 0 (atSecond 1) .slept,
    .task 0 (atSecond 1) (.resolved (.returned (.error "refused")) 0), .task 1 (atSecond 1) .slept,
    .task 1 (atSecond 1) (.resolved .panicked 0), .task 0 (atSecond 2) .slept,
    .task 0 (atSecond 2) (.resolved (.returned (.ok ())) 0), .recv .taskFired, .recv .taskCompleted, .recv .taskRetrying,
    .recv .taskFired]

theorem fires_accounted_panicked : ∃ m, exec (Metered.step 256) .init oneCompletes = some m ∧
    m.loop.state.counts.tasksFired = 2 ∧ m.loop.state.counts.tasksCompleted = 1 ∧ openFires m = 1 ∧ Accounted m := by
  obtain ⟨m, hrun, hfired, hcompleted, hopen⟩ : ∃ m, exec (Metered.step 256) .init oneCompletes = some m ∧
      m.loop.state.counts.tasksFired = 2 ∧ m.loop.state.counts.tasksCompleted = 1 ∧ openFires m = 1 := ⟨_, rfl, rfl, rfl, rfl⟩
  exact ⟨m, hrun, hfired, hcompleted, hopen, fires_accounted hrun⟩

end WalaStack.Proof.Health
