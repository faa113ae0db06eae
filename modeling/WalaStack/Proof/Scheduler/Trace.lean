import WalaStack.Proof.Scheduler.Steps
import WalaStack.Spec.FireTrace

/-!
# The trace of a schedule

`opening cfg o n k` is the trace of the `n`th fire up to the end of the backoff
after its `k`th attempt, all of them failed: the fire goes on from it by one
attempt at a time (`opening_succ`), and ends with a success or the last attempt
(`fireTrace_of_success`, `fireTrace_of_failure`). `Inv` says where in its trace
a schedule is at each of its awaits; `inv_step` is its step lemma, by the cases
of `ScheduleSteps`.
-/

namespace WalaStack.Proof.Scheduler

open WalaStack.Rust WalaStack.Impl.Runtime WalaStack.Transition WalaStack.Spec.Scheduler

variable {cfg : Scheduled} {o : Nat → Attempt} {env : Nat → Nat → Attempt} {clock : Clock} {s s' : Schedule}
  {n k fires : Nat} {es : List TaskEntry}

/-! ## Attempts -/

/-- The first `k` attempts fail. -/
def Fails (o : Nat → Attempt) (k : Nat) : Prop := ∀ j, 1 ≤ j → j ≤ k → (o j).succeeds = false

theorem fails_zero : Fails o 0 := fun j h₁ h₂ => by omega

theorem Fails.succ (h : Fails o k) (hk : (o (k + 1)).succeeds = false) : Fails o (k + 1) := by
  intro j h₁ h₂
  rcases Nat.lt_or_ge k j with hj | hj
  · obtain rfl : j = k + 1 := by omega
    exact hk
  · exact h j h₁ hj

theorem one_le_maxAttempts (policies : Policies) : 1 ≤ policies.maxAttempts := by
  unfold Policies.maxAttempts
  split
  · exact Nat.le_refl 1
  · exact Nat.le_max_right _ _

/-- The first success is the last attempt. -/
theorem attemptCount_of_success (h : Fails o k) (hk : k < cfg.policies.maxAttempts)
    (hok : (o (k + 1)).succeeds = true) : attemptCount cfg o = k + 1 := by
  have hfind : (List.range' 1 cfg.policies.maxAttempts).find? (fun j => (o j).succeeds) = some (k + 1) := by
    refine List.find?_range'_eq_some.mpr ⟨hok, ?_, fun j h₁ h₂ => ?_⟩
    · rw [List.mem_range'_1]
      omega
    · rw [h j h₁ (by omega)]
      rfl
  rw [attemptCount, hfind, Option.getD_some]

theorem attemptCount_of_fails (h : Fails o cfg.policies.maxAttempts) :
    attemptCount cfg o = cfg.policies.maxAttempts := by
  have hfind : (List.range' 1 cfg.policies.maxAttempts).find? (fun j => (o j).succeeds) = none := by
    refine List.find?_range'_eq_none.mpr fun j h₁ h₂ => ?_
    rw [h j h₁ (by omega)]
    rfl
  rw [attemptCount, hfind, Option.getD_none]

/-- Failed attempts are followed by another one. -/
theorem lt_attemptCount (cfg : Scheduled) (h : Fails o k) (hk : k < cfg.policies.maxAttempts) : k < attemptCount cfg o := by
  unfold attemptCount
  cases hfind : (List.range' 1 cfg.policies.maxAttempts).find? (fun j => (o j).succeeds) with
  | none => exact hk
  | some j =>
    have hok : (o j).succeeds = true := List.find?_some (p := fun j => (o j).succeeds) hfind
    have hm := List.mem_range'_1.mp (List.mem_of_find?_eq_some hfind)
    rw [Option.getD_some]
    by_contra hle
    rw [h j hm.1 (by omega)] at hok
    cases hok

/-! ## The trace of a fire, by attempts -/

theorem attemptTrace_of_retry (hf : (o k).succeeds = false) (hk : k < cfg.policies.maxAttempts) :
    attemptTrace cfg o k = [.called k 0,
      .published (.retrying cfg.id (k + 1) (cfg.policies.retryDelay (o k).subsecNanos k))] := by
  rw [attemptTrace, if_pos ⟨hf, hk⟩]

theorem attemptTrace_of_last (h : (o k).succeeds = true ∨ cfg.policies.maxAttempts ≤ k) :
    attemptTrace cfg o k = [.called k 0] := by
  rw [attemptTrace, if_neg]
  rintro ⟨hf, hk⟩
  rcases h with h | h
  · rw [h] at hf
    cases hf
  · omega

theorem opening_succ (hf : (o (k + 1)).succeeds = false) (hk : k + 1 < cfg.policies.maxAttempts) :
    opening cfg o n (k + 1) = opening cfg o n k ++ [.called (k + 1) 0] ++
      [.published (.retrying cfg.id (k + 2) (cfg.policies.retryDelay (o (k + 1)).subsecNanos (k + 1)))] := by
  rw [opening, opening, List.range'_1_concat, List.flatMap_append, List.flatMap_singleton, Nat.add_comm 1 k,
    attemptTrace_of_retry hf hk, List.append_assoc]
  rfl

/-- The last attempt of a fire. -/
theorem fireTrace_of_last (hm : attemptCount cfg o = k + 1)
    (hlast : (o (k + 1)).succeeds = true ∨ cfg.policies.maxAttempts ≤ k + 1) :
    fireTrace cfg o n = opening cfg o n k ++ [.called (k + 1) 0] ++ [fireEnd cfg o (k + 1)] := by
  rw [fireTrace, hm, List.range'_1_concat, List.flatMap_append, List.flatMap_singleton, Nat.add_comm 1 k,
    attemptTrace_of_last hlast, opening, List.append_assoc, List.append_assoc]
  rfl

theorem fireTrace_of_success (h : Fails o k) (hk : k < cfg.policies.maxAttempts)
    (hok : (o (k + 1)).succeeds = true) :
    fireTrace cfg o n = opening cfg o n k ++ [.called (k + 1) 0] ++ [fireEnd cfg o (k + 1)] :=
  fireTrace_of_last (attemptCount_of_success h hk hok) (.inl hok)

theorem fireTrace_of_failure (h : Fails o (k + 1)) (hk : cfg.policies.maxAttempts = k + 1) :
    fireTrace cfg o n = opening cfg o n k ++ [.called (k + 1) 0] ++ [fireEnd cfg o (k + 1)] :=
  fireTrace_of_last ((attemptCount_of_fails (hk ▸ h)).trans hk) (.inr hk.le)

/-- A fire whose first attempts have failed goes on to the next. -/
theorem opening_isPrefix (h : Fails o k) (hk : k < cfg.policies.maxAttempts) :
    opening cfg o n k ++ [.called (k + 1) 0] <+: fireTrace cfg o n := by
  obtain ⟨d, hd⟩ := Nat.exists_eq_add_of_lt (lt_attemptCount cfg h hk)
  have hsplit : List.range' 1 (attemptCount cfg o) = List.range' 1 k ++ (k + 1) :: List.range' (k + 2) d := by
    rw [hd, show k + d + 1 = k + (d + 1) from rfl, ← List.range'_append_1, List.range'_succ, Nat.add_comm 1 k]
  refine ⟨(attemptTrace cfg o (k + 1)).tail ++ ((List.range' (k + 2) d).flatMap (attemptTrace cfg o) ++
    [fireEnd cfg o (attemptCount cfg o)]), ?_⟩
  rw [fireTrace, hsplit, opening, List.flatMap_append, List.flatMap_cons]
  simp [attemptTrace]

/-! ## What a schedule has recorded -/

theorem publish_history (s : Schedule) (e : TaskEvent) :
    (s.publish cfg e).history.map untimed =
      s.history.map untimed ++ [untimed (.published e)].filter (heard cfg) := by
  have hheard : heard cfg (untimed (.published e)) = cfg.wired := by cases e <;> rfl
  unfold Schedule.publish
  cases hw : cfg.wired <;> simp [Schedule.log, hheard, hw]

/-- The history is the trace `es`, of `fires` fires. -/
structure Recorded (cfg : Scheduled) (fires : Nat) (es : List TaskEntry) (s : Schedule) : Prop where
  history : s.history.map untimed = es.filter (heard cfg)
  counted : s.triggerCount = min fires u32Max
  unseen : s.unseen = true → s.cancelled = true
  once : cfg.trigger.isOneShot = true → fires ≤ 1

theorem Recorded.goto (h : Recorded cfg fires es s) (p : SchedulePhase) : Recorded cfg fires es (s.goto p) :=
  ⟨h.history, h.counted, h.unseen, h.once⟩

theorem Recorded.cancel (h : Recorded cfg fires es s) :
    Recorded cfg fires es { s with cancelled := true, unseen := true } :=
  ⟨h.history, h.counted, fun _ => rfl, h.once⟩

theorem Recorded.seen (h : Recorded cfg fires es s) : Recorded cfg fires es { s with unseen := false } :=
  ⟨h.history, h.counted, fun hu => Bool.noConfusion hu, h.once⟩

theorem Recorded.publish {x : TaskEntry} (h : Recorded cfg fires es s) (e : TaskEvent)
    (hx : untimed (.published e) = x) : Recorded cfg fires (es ++ [x]) (s.publish cfg e) := by
  refine ⟨?_, by simpa using h.counted, by simpa using h.unseen, h.once⟩
  rw [publish_history, hx, h.history, List.filter_append]

theorem Recorded.called (h : Recorded cfg fires es s) (attempt time : Nat) :
    Recorded cfg fires (es ++ [.called attempt 0]) (s.log (.called attempt time)) := by
  refine ⟨?_, h.counted, h.unseen, h.once⟩
  rw [Schedule.log, List.map_append, h.history, List.filter_append]
  rfl

/-! ## Where a schedule is in its trace -/

/-- All fires but the last are complete. -/
def Cut (cfg : Scheduled) (env : Nat → Nat → Attempt) (fires : Nat) (es : List TaskEntry) : Prop :=
  fireTraces cfg env (fires - 1) <+: es ∧ es <+: fireTraces cfg env fires

theorem cut_full (cfg : Scheduled) (env : Nat → Nat → Attempt) (fires : Nat) :
    Cut cfg env fires (fireTraces cfg env fires) := by
  refine ⟨?_, List.prefix_rfl⟩
  cases fires with
  | zero => exact List.prefix_rfl
  | succ n => exact List.prefix_append _ _

theorem cut_of_isPrefix (h : es <+: fireTrace cfg (env (n + 1)) (n + 1)) :
    Cut cfg env (n + 1) (fireTraces cfg env n ++ es) :=
  ⟨List.prefix_append _ _, (List.prefix_append_right_inj _).mpr h⟩

/-- A fire is cut short after attempts that failed. -/
theorem cut_of_fails (hf : Fails (env (n + 1)) k) (hk : k < cfg.policies.maxAttempts) :
    Cut cfg env (n + 1) (fireTraces cfg env n ++ opening cfg (env (n + 1)) (n + 1) k) :=
  cut_of_isPrefix ((List.prefix_append _ _).trans (opening_isPrefix hf hk))

/-- The await of a schedule, and how far its trace has come there. -/
def Within (cfg : Scheduled) (env : Nat → Nat → Attempt) (fires : Nat) (cancelled : Bool) (es : List TaskEntry) :
    SchedulePhase → Prop
  | .calling attempt _ _ => ∃ n k, fires = n + 1 ∧ attempt = k + 1 ∧ k < cfg.policies.maxAttempts ∧
      Fails (env (n + 1)) k ∧
      es = fireTraces cfg env n ++ (opening cfg (env (n + 1)) (n + 1) k ++ [.called (k + 1) 0])
  | .backingOff k _ _ => ∃ n, fires = n + 1 ∧ k < cfg.policies.maxAttempts ∧ Fails (env (n + 1)) k ∧
      es = fireTraces cfg env n ++ opening cfg (env (n + 1)) (n + 1) k
  | .waiting _ | .returned => Cut cfg env fires es ∧ (cancelled = false → es = fireTraces cfg env fires)

theorem Within.cut {cancelled : Bool} {p : SchedulePhase} (h : Within cfg env fires cancelled es p) :
    Cut cfg env fires es := by
  cases p with
  | waiting | returned => exact h.1
  | calling =>
    obtain ⟨n, k, rfl, -, hk, hf, rfl⟩ := h
    exact cut_of_isPrefix (opening_isPrefix hf hk)
  | backingOff =>
    obtain ⟨n, rfl, hk, hf, rfl⟩ := h
    exact cut_of_fails hf hk

/-- The fires of a one-shot trigger. -/
def OnceFired (fires : Nat) (cancelled : Bool) : SchedulePhase → Prop
  | .waiting _ => fires = 0
  | .returned => cancelled = false → fires = 1
  | _ => True

structure Inv (cfg : Scheduled) (env : Nat → Nat → Attempt) (fires : Nat) (s : Schedule) : Prop where
  recorded : ∃ es, Recorded cfg fires es s ∧ Within cfg env fires s.cancelled es s.phase
  once : cfg.trigger.isOneShot = true → OnceFired fires s.cancelled s.phase

/-- `run_attempts` has returned. -/
theorem inv_afterFire (h : Recorded cfg (n + 1) es s) (hcut : Cut cfg env (n + 1) es)
    (hfull : s.cancelled = false → es = fireTraces cfg env (n + 1)) :
    Inv cfg env (n + 1) (s.afterFire cfg clock) := by
  unfold Schedule.afterFire
  split
  · rename_i hone
    refine ⟨⟨es, h.goto _, hcut, hfull⟩, fun _ _ => ?_⟩
    have hle := h.once hone
    omega
  · rename_i hone
    exact ⟨⟨es, h.goto _, hcut, hfull⟩, fun hc => absurd hc hone⟩

theorem inv_beginAttempt (firedAt : Nat) (hk : k < cfg.policies.maxAttempts) (hf : Fails (env (n + 1)) k)
    (h : Recorded cfg (n + 1) (fireTraces cfg env n ++ opening cfg (env (n + 1)) (n + 1) k) s) :
    Inv cfg env (n + 1) (s.beginAttempt cfg clock (k + 1) firedAt) := by
  unfold Schedule.beginAttempt
  split
  · rename_i hc
    refine inv_afterFire h (cut_of_fails hf hk) fun hc' => ?_
    rw [hc] at hc'
    cases hc'
  · have hcalled := (h.called (k + 1) clock.now).goto (.calling (k + 1) firedAt clock.now)
    rw [List.append_assoc] at hcalled
    exact ⟨⟨_, hcalled, n, k, rfl, rfl, hk, hf, rfl⟩, fun _ => trivial⟩

/-- A fire is announced. -/
theorem recorded_fired (h : Recorded cfg fires (fireTraces cfg env fires) s)
    (hone : cfg.trigger.isOneShot = true → fires = 0) :
    Recorded cfg (fires + 1) (fireTraces cfg env fires ++ opening cfg (env (fires + 1)) (fires + 1) 0)
      ({ s with triggerCount := saturatingAdd s.triggerCount 1, lastFire := some clock.now }.publish cfg
        (.fired cfg.id (saturatingAdd s.triggerCount 1))) := by
  have hcount : saturatingAdd s.triggerCount 1 = min (fires + 1) u32Max := by
    rw [h.counted, saturatingAdd]
    omega
  refine ⟨?_, ?_, ?_, fun h₁ => by rw [hone h₁]⟩
  · rw [publish_history, h.history, hcount, List.filter_append]
    rfl
  · rw [publish_triggerCount]
    exact hcount
  · rw [publish_unseen, publish_cancelled]
    exact h.unseen

theorem inv_fire (h : Recorded cfg fires (fireTraces cfg env fires) s) (hc : s.cancelled = false)
    (hone : cfg.trigger.isOneShot = true → fires = 0) : Inv cfg env (fires + 1) (s.fire cfg clock) := by
  unfold Schedule.fire
  rw [if_neg (by rw [hc]; exact Bool.false_ne_true)]
  exact inv_beginAttempt clock.now (one_le_maxAttempts cfg.policies) fails_zero (recorded_fired h hone)

theorem inv_fireInterrupted (h : Recorded cfg fires (fireTraces cfg env fires) s)
    (hone : cfg.trigger.isOneShot = true → fires = 0) : Inv cfg env (fires + 1) (s.fireInterrupted cfg clock) :=
  inv_beginAttempt clock.now (one_le_maxAttempts cfg.policies) fails_zero (recorded_fired h hone).cancel

/-- An attempt has ended. -/
theorem inv_onResult (clock : Clock) (firedAt : Nat) {a : Attempt} (hk : k < cfg.policies.maxAttempts) (hf : Fails (env (n + 1)) k)
    (ha : env (n + 1) (k + 1) = a)
    (h : Recorded cfg (n + 1) (fireTraces cfg env n ++ (opening cfg (env (n + 1)) (n + 1) k ++ [.called (k + 1) 0])) s) :
    Inv cfg env (n + 1) (s.onResult cfg clock (k + 1) firedAt a.subsecNanos a.result) := by
  -- The last attempt, with the event that ends the fire.
  have hend : ∀ e, untimed (.published e) = fireEnd cfg (env (n + 1)) (k + 1) →
      fireTrace cfg (env (n + 1)) (n + 1) =
        opening cfg (env (n + 1)) (n + 1) k ++ [.called (k + 1) 0] ++ [fireEnd cfg (env (n + 1)) (k + 1)] →
      Inv cfg env (n + 1) ((s.publish cfg e).afterFire cfg clock) := by
    intro e he htrace
    have hdone := h.publish e he
    rw [List.append_assoc, ← htrace] at hdone
    exact inv_afterFire hdone (cut_full cfg env (n + 1)) fun _ => rfl
  cases hresult : a.result with
  | ok u =>
    refine hend _ ?_ (fireTrace_of_success hf hk ?_)
    · rw [fireEnd, ha, hresult]
      rfl
    · rw [ha, Attempt.succeeds, hresult]
  | error e =>
    have hfail : (env (n + 1) (k + 1)).succeeds = false := by rw [ha, Attempt.succeeds, hresult]
    unfold Schedule.onResult
    by_cases hlt : k + 1 < cfg.policies.maxAttempts
    · simp only [if_pos hlt]
      let delay := cfg.policies.retryDelay a.subsecNanos (k + 1)
      let e : TaskEvent := .retrying cfg.id (k + 2) delay
      have hretry := (h.publish (x := .published e) e rfl).goto
        (.backingOff (k + 1) firedAt (clock.now + delay.nanos))
      have hopening := opening_succ (n := n + 1) hfail hlt
      rw [ha] at hopening
      rw [List.append_assoc, ← hopening] at hretry
      exact ⟨⟨_, hretry, n, rfl, hlt, hf.succ hfail, rfl⟩, fun _ => trivial⟩
    · simp only [if_neg hlt]
      have hlast : cfg.policies.maxAttempts = k + 1 := by omega
      refine hend _ ?_ (fireTrace_of_failure (hf.succ hfail) hlast)
      rw [fireEnd, ha, hresult, hlast]
      rfl

/-! ## Steps -/

/-- An attempt whose result is the one of `env` has ended. -/
theorem inv_resolved {attempt firedAt startedAt subsecNanos : Nat} {outcome : TaskOutcome} {result : Except String Unit}
    (h : Inv cfg env fires s) (hp : s.phase = .calling attempt firedAt startedAt)
    (hresult : resultOf cfg.policies outcome = some result)
    (ha : Answers cfg env ⟨s, fires⟩ (.task clock (.resolved outcome subsecNanos))) :
    Inv cfg env fires (s.onResult cfg clock attempt firedAt subsecNanos result) := by
  obtain ⟨⟨es, hr, hw⟩, -⟩ := h
  rw [hp] at hw
  obtain ⟨n, k, rfl, rfl, hk, hf, rfl⟩ := hw
  obtain ⟨hanswer, rfl⟩ := ha _ _ _ hp
  rw [hresult, Option.some.injEq] at hanswer
  rw [hanswer]
  exact inv_onResult clock firedAt hk hf rfl hr

theorem inv_task {a : ScheduleAction} (h : Inv cfg env fires s) (ha : Answers cfg env ⟨s, fires⟩ (.task clock a))
    (hs : s.step cfg clock a = some s') : Inv cfg env (fires + if starts s a then 1 else 0) s' := by
  have hinv := h
  obtain ⟨⟨es, hr, hw⟩, hone⟩ := h
  -- Of a cancelled schedule nothing more is asked.
  have hlive : ∀ {P : Prop}, s.cancelled = true → s.cancelled = false → P := fun hc hc' =>
    absurd (hc.symm.trans hc') Bool.noConfusion
  cases scheduleSteps_of_step hs with
  | @stop wake hp _ hc =>
    rw [hp] at hw
    rw [show starts s .slept = false by simp [starts, hp, hc]]
    exact ⟨⟨es, hr.goto _, hw⟩, fun _ => hlive hc⟩
  | @fire wake hp _ hc =>
    rw [hp] at hw hone
    obtain rfl := hw.2 hc
    rw [show starts s .slept = true by simp [starts, hp, hc]]
    exact inv_fire hr hc hone
  | @retry k firedAt wake hp =>
    rw [hp] at hw
    obtain ⟨n, rfl, hk, hf, rfl⟩ := hw
    rw [show starts s .slept = false by simp [starts, hp]]
    exact inv_beginAttempt firedAt hk hf hr
  | @leaveWait wake hp hu =>
    rw [hp] at hw
    exact ⟨⟨es, hr.seen.goto _, hw.1, hlive (hr.unseen hu)⟩, fun _ => hlive (hr.unseen hu)⟩
  | @leaveBackoff k firedAt wake hp hu =>
    rw [hp] at hw
    obtain ⟨n, rfl, hk, hf, rfl⟩ := hw
    exact inv_afterFire hr.seen (cut_of_fails hf hk) (hlive (hr.unseen hu))
  | returned hp => exact inv_resolved hinv hp rfl ha
  | timedOut hp hd => exact inv_resolved hinv hp (by rw [resultOf, hd]; rfl) ha
  | panicked hp =>
    obtain ⟨hresult, -⟩ := ha _ _ _ hp
    cases hresult
  | cancel =>
    refine ⟨⟨es, hr.cancel, ?_⟩, fun h₁ => ?_⟩
    · cases hp : s.phase <;> rw [hp] at hw
      case waiting => exact ⟨hw.1, fun hc => Bool.noConfusion hc⟩
      case returned => exact ⟨hw.1, fun hc => Bool.noConfusion hc⟩
      all_goals exact hw
    · have hfired := hone h₁
      cases hp : s.phase <;> rw [hp] at hfired
      case returned => exact fun hc => Bool.noConfusion hc
      all_goals exact hfired
  | shutdown =>
    exact ⟨⟨es, hr.cancel.goto .returned, hw.cut, fun hc => Bool.noConfusion hc⟩, fun _ hc => Bool.noConfusion hc⟩

theorem inv_step {s s' : Firing} {a : FiringAction} (h : Inv cfg env s.fires s.schedule) (ha : Answers cfg env s a)
    (hs : s.step cfg a = some s') : Inv cfg env s'.fires s'.schedule := by
  obtain ⟨⟨es, hr, hw⟩, hone⟩ := h
  cases a with
  | interrupted clock =>
    simp only [Firing.step, Option.map_eq_some_iff] at hs
    obtain ⟨s₁, hs₁, rfl⟩ := hs
    unfold Schedule.interrupt at hs₁
    split at hs₁
    · rename_i wake hp
      split at hs₁
      · rename_i hready
        cases hs₁
        rw [hp] at hw hone
        obtain rfl := hw.2 hready.2
        exact inv_fireInterrupted hr hone
      · cases hs₁
    · cases hs₁
  | task clock a =>
    simp only [Firing.step, Option.map_eq_some_iff] at hs
    obtain ⟨s₁, hs₁, rfl⟩ := hs
    exact inv_task ⟨⟨es, hr, hw⟩, hone⟩ ha hs₁

/-! ## Runs -/

theorem inv_init (cfg : Scheduled) (env : Nat → Nat → Attempt) (clock : Clock) :
    Inv cfg env 0 (.init cfg clock) := by
  refine ⟨⟨[], ⟨rfl, rfl, fun hu => Bool.noConfusion hu, fun _ => Nat.zero_le 1⟩, cut_full cfg env 0, fun _ => rfl⟩, ?_⟩
  exact fun _ => rfl

theorem inv_run {s s' : Firing} {as : List FiringAction} (h : Inv cfg env s.fires s.schedule)
    (ha : AlongSteps (Firing.step cfg) (Answers cfg env) s as) (hs : exec (Firing.step cfg) s as = some s') :
    Inv cfg env s'.fires s'.schedule :=
  ha.invariant (I := fun s => Inv cfg env s.fires s.schedule) inv_step h hs

/-- A task that is due after a second, and has two attempts. -/
def twoAttempts : Scheduled :=
  ⟨1, .after (.fromSecs 1), ⟨none, some ⟨2, .linear (.fromSecs 1) .zero⟩⟩, true⟩

/-- The clocks, some seconds after the epoch. -/
def atSecond (secs : Nat) : Clock := ⟨secs * 1000000000, .epoch⟩

end WalaStack.Proof.Scheduler
