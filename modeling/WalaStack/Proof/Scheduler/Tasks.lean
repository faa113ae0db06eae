import Mathlib.Data.Set.Card
import WalaStack.Spec.SchedulerTasks

/-!
# The tasks that a scheduler counts

Every active task that was inserted is in the map (`Inv.listed`), so the map is
right unless it holds the entry of a task that is over (`countsActive_iff`).
Only an insertion and a panic can make it hold one (`sound_step`).
-/

namespace WalaStack.Proof.Scheduler

open WalaStack.Rust WalaStack.Impl.Runtime WalaStack.Transition WalaStack.Spec.Scheduler

variable {r r' : SchedulerTasks} {id id' : Nat} {t t' : SpawnedTask} {a : SchedulerAction}

/-! ## One task -/

/-- A step that changes one task. -/
def SetsTask (r r' : SchedulerTasks) (id : Nat) (t' : SpawnedTask) : Prop :=
  r'.spawned = Function.update r.spawned id (some t')

theorem SetsTask.self (h : SetsTask r r' id t') : r'.spawned id = some t' := by
  rw [h, Function.update_self]

theorem SetsTask.of_ne (h : SetsTask r r' id t') (hne : id' ≠ id) : r'.spawned id' = r.spawned id' := by
  rw [h, Function.update_of_ne hne]

theorem over_iff (h : r.spawned id = some t) : Over r id ↔ t.stage = .finished ∨ t.stage = .panicked := by
  constructor
  · rintro ⟨t₁, h₁, ho⟩
    rw [h] at h₁
    cases h₁
    exact ho
  · exact fun ho => ⟨t, h, ho⟩

theorem SetsTask.over_of_ne (h : SetsTask r r' id t') (hne : id' ≠ id) : Over r' id' ↔ Over r id' := by
  rw [Over, Over, h.of_ne hne]

/-- The step leaves the calls in progress as they are. -/
theorem SetsTask.callInProgress (h : SetsTask r r' id t') (ht : r.spawned id = some t)
    (hi : t'.inserted = t.inserted) : CallInProgress r' ↔ CallInProgress r := by
  constructor
  · rintro ⟨id', t₁, h₁, hin⟩
    by_cases hid : id' = id
    · subst hid
      rw [h.self] at h₁
      cases h₁
      exact ⟨id', t, ht, hi ▸ hin⟩
    · exact ⟨id', t₁, (h.of_ne hid).symm.trans h₁, hin⟩
  · rintro ⟨id', t₁, h₁, hin⟩
    by_cases hid : id' = id
    · subst hid
      rw [ht] at h₁
      cases h₁
      exact ⟨id', t', h.self, hi.trans hin⟩
    · exact ⟨id', t₁, (h.of_ne hid).trans h₁, hin⟩

/-! ## The map -/

structure Listed (r : SchedulerTasks) : Prop where
  fresh : ∀ id, r.next ≤ id → r.spawned id = none
  entry : ∀ id ∈ r.tasks, ∃ t, r.spawned id = some t ∧ t.inserted = true ∧ t.aborted = false
  listed : ∀ id t, r.spawned id = some t → t.inserted = true → t.active = true → id ∈ r.tasks
  /-- Only tasks with an entry are aborted, and only aborted ones are dropped. -/
  early : ∀ id t, r.spawned id = some t → t.inserted = false → t.aborted = false
  dropped : ∀ id t, r.spawned id = some t → t.stage = .dropped → t.aborted = true

theorem listed_new : Listed .new := by
  have hnone : ∀ id t, SchedulerTasks.new.spawned id ≠ some t := fun _ t => (Option.some_ne_none t).symm
  exact ⟨fun _ _ => rfl, fun id hm => absurd hm (Finset.notMem_empty id), fun id t ht => absurd ht (hnone id t),
    fun id t ht => absurd ht (hnone id t), fun id t ht => absurd ht (hnone id t)⟩

theorem Listed.lt_next (h : Listed r) (ht : r.spawned id = some t) : id < r.next := by
  by_contra hle
  rw [h.fresh id (Nat.le_of_not_lt hle)] at ht
  cases ht

theorem Listed.entry_of (h : Listed r) (ht : r.spawned id = some t) (hm : id ∈ r.tasks) :
    t.inserted = true ∧ t.aborted = false := by
  obtain ⟨t₁, h₁, hentry⟩ := h.entry id hm
  rw [ht] at h₁
  cases h₁
  exact hentry

theorem Listed.sets (h : Listed r) (hs : SetsTask r r' id t') (hnext : r.next ≤ r'.next) (hid : id < r'.next)
    (htasks : ∀ id', id' ≠ id → (id' ∈ r'.tasks ↔ id' ∈ r.tasks))
    (hentry : id ∈ r'.tasks → t'.inserted = true ∧ t'.aborted = false)
    (hlisted : t'.inserted = true → t'.active = true → id ∈ r'.tasks)
    (hearly : t'.inserted = false → t'.aborted = false) (hdropped : t'.stage = .dropped → t'.aborted = true) :
    Listed r' := by
  have hcases : ∀ id' t₁, r'.spawned id' = some t₁ →
      (id' = id ∧ t₁ = t') ∨ (id' ≠ id ∧ r.spawned id' = some t₁) := by
    intro id' t₁ h₁
    by_cases he : id' = id
    · subst he
      rw [hs.self] at h₁
      exact .inl ⟨rfl, (Option.some.inj h₁).symm⟩
    · exact .inr ⟨he, (hs.of_ne he).symm.trans h₁⟩
  refine ⟨fun id' hle => ?_, fun id' hm => ?_, fun id' t₁ h₁ hin hact => ?_, fun id' t₁ h₁ hin => ?_,
    fun id' t₁ h₁ hd => ?_⟩
  · rw [hs.of_ne (by omega)]
    exact h.fresh id' (Nat.le_trans hnext hle)
  · by_cases he : id' = id
    · subst he
      exact ⟨t', hs.self, hentry hm⟩
    · rw [hs.of_ne he]
      exact h.entry id' ((htasks id' he).mp hm)
  · rcases hcases id' t₁ h₁ with ⟨rfl, rfl⟩ | ⟨he, h₁⟩
    · exact hlisted hin hact
    · exact (htasks id' he).mpr (h.listed id' t₁ h₁ hin hact)
  · rcases hcases id' t₁ h₁ with ⟨rfl, rfl⟩ | ⟨-, h₁⟩
    · exact hearly hin
    · exact h.early id' t₁ h₁ hin
  · rcases hcases id' t₁ h₁ with ⟨rfl, rfl⟩ | ⟨-, h₁⟩
    · exact hdropped hd
    · exact h.dropped id' t₁ h₁ hd

/-- No entry is that of a task that is over, unless a call is in progress. -/
def Sound (r : SchedulerTasks) : Prop := CallInProgress r ∨ ∀ id ∈ r.tasks, ¬ Over r id

theorem countsActive_iff (h : Listed r) : CountsActive r ↔ Sound r := by
  constructor
  · intro hc
    by_cases hp : CallInProgress r
    · exact .inl hp
    · refine .inr fun id hm ho => ?_
      obtain ⟨t, ht, hact⟩ := (hc hp id).mp hm
      rw [over_iff ht] at ho
      rcases ho with ho | ho <;> simp [SpawnedTask.active, ho] at hact
  · rintro (hp | hno) hp'
    · exact absurd hp hp'
    · refine fun id => ⟨fun hm => ?_, ?_⟩
      · obtain ⟨t, ht, -, ha⟩ := h.entry id hm
        refine ⟨t, ht, ?_⟩
        have ho := hno id hm
        rw [over_iff ht] at ho
        cases hst : t.stage with
        | running | leaving => simp [SpawnedTask.active, hst, ha]
        | finished => exact absurd (.inl hst) ho
        | panicked => exact absurd (.inr hst) ho
        | dropped =>
          rw [h.dropped id t ht hst] at ha
          cases ha
      · rintro ⟨t, ht, hact⟩
        refine h.listed id t ht ?_ hact
        by_contra hin
        exact hp' ⟨id, t, ht, Bool.eq_false_iff.mpr hin⟩

/-! ## Steps -/

/-- The steps of a scheduler, by what takes them. -/
inductive TaskSteps (r : SchedulerTasks) : SchedulerAction → SchedulerTasks → Prop
  | spawn {trigger : Trigger} {policies : Policies} {clock : Clock} {t' : SpawnedTask} :
    t'.stage = .running → t'.inserted = false → t'.aborted = false →
    TaskSteps r (.spawn trigger policies clock) { r.set r.next t' with next := r.next + 1 }
  | insert {id : Nat} {t : SpawnedTask} : r.spawned id = some t → t.inserted = false →
    TaskSteps r (.insert id) { r.set id { t with inserted := true } with tasks := insert id r.tasks }
  | run {id : Nat} {t : SpawnedTask} {clock : Clock} {a : ScheduleAction} {s : Schedule} : r.spawned id = some t →
    t.stage = .running →
    TaskSteps r (.run id clock a) (r.set id { t with schedule := s, stage := SpawnedTask.stageAfter a s })
  | remove {id : Nat} {t : SpawnedTask} : r.spawned id = some t → t.stage = .leaving →
    TaskSteps r (.remove id) { r.set id { t with stage := .finished } with tasks := r.tasks.erase id }
  | drop {id : Nat} {t : SpawnedTask} : r.spawned id = some t → t.stage = .running → t.aborted = true →
    TaskSteps r (.drop id) (r.set id { t with stage := .dropped })
  | shutdown : TaskSteps r .shutdown { r with
      spawned := fun id => if id ∈ r.tasks then (r.spawned id).map SpawnedTask.abort else r.spawned id
      tasks := ∅ }

theorem taskSteps_of_step (h : r.step a = some r') : TaskSteps r a r' := by
  cases a with
  | spawn trigger policies clock =>
    cases h
    exact .spawn rfl rfl rfl
  | insert id =>
    simp only [SchedulerTasks.step] at h
    split at h
    · rename_i t ht
      split at h
      · cases h
      · rename_i hin
        cases h
        exact .insert ht (Bool.eq_false_iff.mpr hin)
    · cases h
  | run id clock a =>
    simp only [SchedulerTasks.step] at h
    split at h
    · rename_i t ht
      split at h
      · rename_i hrun
        obtain ⟨s, -, rfl⟩ := Option.map_eq_some_iff.mp h
        exact .run ht hrun.1
      · cases h
    · cases h
  | remove id =>
    simp only [SchedulerTasks.step] at h
    split at h
    · rename_i t ht
      split at h
      · rename_i hst
        cases h
        exact .remove ht hst
      · cases h
    · cases h
  | drop id =>
    simp only [SchedulerTasks.step] at h
    split at h
    · rename_i t ht
      split at h
      · rename_i hst
        cases h
        exact .drop ht hst.1 hst.2
      · cases h
    · cases h
  | shutdown =>
    cases h
    exact .shutdown

theorem stageAfter_ne (a : ScheduleAction) (s : Schedule) :
    SpawnedTask.stageAfter a s ≠ .finished ∧ SpawnedTask.stageAfter a s ≠ .dropped := by
  unfold SpawnedTask.stageAfter
  split
  · exact ⟨nofun, nofun⟩
  · split <;> exact ⟨nofun, nofun⟩

theorem stageAfter_eq_panicked {a : ScheduleAction} {s : Schedule} :
    SpawnedTask.stageAfter a s = .panicked ↔ ∃ n, a = .resolved .panicked n := by
  constructor
  · intro h
    unfold SpawnedTask.stageAfter at h
    split at h
    · exact ⟨_, rfl⟩
    · split at h <;> cases h
  · rintro ⟨n, rfl⟩
    rfl

theorem active_iff : t.active = true ↔ (t.stage = .running ∨ t.stage = .leaving) ∧ t.aborted = false := by
  simp [SpawnedTask.active]

/-- The shutdown aborts the tasks of the map, and empties it. -/
theorem listed_shutdown (h : Listed r) : Listed { r with
    spawned := fun id => if id ∈ r.tasks then (r.spawned id).map SpawnedTask.abort else r.spawned id
    tasks := ∅ } := by
  -- What a task was before the shutdown.
  have hback : ∀ id t, (if id ∈ r.tasks then (r.spawned id).map SpawnedTask.abort else r.spawned id) = some t →
      (id ∈ r.tasks ∧ t.aborted = true) ∨ (id ∉ r.tasks ∧ r.spawned id = some t) := by
    intro id t ht
    split at ht
    · rename_i hm
      obtain ⟨t₀, -, rfl⟩ := Option.map_eq_some_iff.mp ht
      exact .inl ⟨hm, rfl⟩
    · rename_i hm
      exact .inr ⟨hm, ht⟩
  refine ⟨fun id hle => ?_, fun id hm => absurd hm (Finset.notMem_empty id), fun id t ht hin hact => ?_,
    fun id t ht hin => ?_, fun id t ht hd => ?_⟩
  · simp only [h.fresh id hle, Option.map_none, ite_self]
  · rcases hback id t ht with ⟨-, ha⟩ | ⟨hm, ht⟩
    · rw [(active_iff.mp hact).2] at ha
      cases ha
    · exact absurd (h.listed id t ht hin hact) hm
  · rcases hback id t ht with ⟨hm, -⟩ | ⟨-, ht₀⟩
    · obtain ⟨t₀, ht₀, hin₀, -⟩ := h.entry id hm
      simp only [if_pos hm, ht₀] at ht
      cases ht
      exact absurd (hin₀.symm.trans hin) Bool.noConfusion
    · exact h.early id t ht₀ hin
  · rcases hback id t ht with ⟨-, ha⟩ | ⟨-, ht⟩
    · exact ha
    · exact h.dropped id t ht hd

theorem listed_step (h : Listed r) (hs : TaskSteps r a r') : Listed r' := by
  cases hs with
  | @spawn _ _ _ t' hst hin ha =>
    have hsets : SetsTask r { r.set r.next t' with next := r.next + 1 } r.next t' := rfl
    refine h.sets hsets (Nat.le_succ _) (Nat.lt_succ_self _) (fun _ _ => Iff.rfl)
      (fun hm => ?_) (fun hin' => ?_) (fun _ => ha) (fun hd => ?_)
    · obtain ⟨t, ht, -⟩ := h.entry r.next hm
      exact absurd (h.lt_next ht) (lt_irrefl _)
    · rw [hin] at hin'
      cases hin'
    · rw [hst] at hd
      cases hd
  | @insert id t ht hin =>
    have hsets : SetsTask r { r.set id { t with inserted := true } with tasks := insert id r.tasks } id
        { t with inserted := true } := rfl
    exact h.sets hsets (Nat.le_refl _) (h.lt_next ht)
      (fun id' hne => by simp [hne]) (fun _ => ⟨rfl, h.early id t ht hin⟩)
      (fun _ _ => Finset.mem_insert_self id r.tasks) (fun hc => by cases hc) (h.dropped id t ht)
  | @run id t clock a s ht hst =>
    have hsets : SetsTask r (r.set id { t with schedule := s, stage := SpawnedTask.stageAfter a s }) id
        { t with schedule := s, stage := SpawnedTask.stageAfter a s } := rfl
    have hentry : id ∈ r.tasks → t.inserted = true ∧ t.aborted = false := h.entry_of ht
    refine h.sets hsets (Nat.le_refl _) (h.lt_next ht) (fun _ _ => Iff.rfl) hentry
      (fun hin hact => ?_) (h.early id t ht) (fun hd => absurd hd (stageAfter_ne a s).2)
    exact h.listed id t ht hin (active_iff.mpr ⟨.inl hst, (active_iff.mp hact).2⟩)
  | @remove id t ht hst =>
    have hsets : SetsTask r { r.set id { t with stage := .finished } with tasks := r.tasks.erase id } id
        { t with stage := .finished } := rfl
    refine h.sets hsets (Nat.le_refl _) (h.lt_next ht)
      (fun id' hne => by simp [hne]) (fun hm => ?_) (fun _ hact => ?_) (h.early id t ht) nofun
    · exact absurd rfl (Finset.mem_erase.mp hm).1
    · rcases (active_iff.mp hact).1 with hc | hc <;> cases hc
  | @drop id t ht hst ha =>
    have hsets : SetsTask r (r.set id { t with stage := .dropped }) id { t with stage := .dropped } := rfl
    have hentry : id ∈ r.tasks → t.inserted = true ∧ t.aborted = false := h.entry_of ht
    refine h.sets hsets (Nat.le_refl _) (h.lt_next ht) (fun _ _ => Iff.rfl) hentry
      (fun _ hact => ?_) (h.early id t ht) (fun _ => ha)
    rcases (active_iff.mp hact).1 with hc | hc <;> cases hc
  | shutdown => exact listed_shutdown h

/-- A step of a task that is not over and does not panic leaves the map right. -/
theorem Sound.sets (h : Sound r) (hs : SetsTask r r' id t') (ht : r.spawned id = some t)
    (hi : t'.inserted = t.inserted) (htasks : ∀ id', id' ∈ r'.tasks → id' ∈ r.tasks)
    (hover : id ∈ r'.tasks → ¬ (t'.stage = .finished ∨ t'.stage = .panicked)) : Sound r' := by
  refine h.imp (hs.callInProgress ht hi).mpr fun hno id' hm ho => ?_
  by_cases he : id' = id
  · subst he
    exact hover hm ((over_iff hs.self).mp ho)
  · exact hno id' (htasks id' hm) ((hs.over_of_ne he).mp ho)

/-- The map stays right exactly in the steps that keep the count. -/
theorem sound_step (hr : Sound r) (hs : TaskSteps r a r') : Sound r' ↔ KeepsCount r a := by
  cases hs with
  | @spawn _ _ _ t' _ hin _ =>
    exact iff_of_true (.inl ⟨r.next, t', Function.update_self _ _ _, hin⟩) trivial
  | @insert id t ht hin =>
    have hsets : SetsTask r { r.set id { t with inserted := true } with tasks := insert id r.tasks } id
        { t with inserted := true } := rfl
    have hover : ∀ id', Over { r.set id { t with inserted := true } with tasks := insert id r.tasks } id' ↔
        Over r id' := by
      intro id'
      by_cases he : id' = id
      · subst he
        rw [over_iff hsets.self, over_iff ht]
      · exact hsets.over_of_ne he
    by_cases hlast : ∀ id' t, r.spawned id' = some t → t.inserted = false → id' = id
    · have hidle : ¬ CallInProgress { r.set id { t with inserted := true } with tasks := insert id r.tasks } := by
        rintro ⟨id', t₁, h₁, hin₁⟩
        by_cases he : id' = id
        · subst he
          rw [hsets.self] at h₁
          cases h₁
          cases hin₁
        · exact he (hlast id' t₁ ((hsets.of_ne he).symm.trans h₁) hin₁)
      simp only [Sound, hidle, false_or, hover, Finset.mem_insert, KeepsCount]
      exact ⟨fun hno _ => hno, fun hk => hk hlast⟩
    · refine iff_of_true (.inl ?_) fun hl => absurd hl hlast
      simp only [not_forall] at hlast
      obtain ⟨id', t₁, h₁, hin₁, he⟩ := hlast
      exact ⟨id', t₁, (hsets.of_ne he).trans h₁, hin₁⟩
  | @run id t clock a s ht hst =>
    have hsets : SetsTask r (r.set id { t with schedule := s, stage := SpawnedTask.stageAfter a s }) id
        { t with schedule := s, stage := SpawnedTask.stageAfter a s } := rfl
    by_cases hp : SpawnedTask.stageAfter a s = .panicked
    · obtain ⟨n, rfl⟩ := stageAfter_eq_panicked.mp hp
      refine ⟨fun hr' hm => ?_, fun hk => ?_⟩
      · rcases hr' with hc | hno
        · exact (hsets.callInProgress ht rfl).mp hc
        · exact absurd ((over_iff hsets.self).mpr (.inr hp)) (hno id hm)
      · by_cases hm : id ∈ r.tasks
        · exact .inl ((hsets.callInProgress ht rfl).mpr (hk hm))
        · exact hr.sets hsets ht rfl (fun _ hm' => hm') fun hm' => absurd hm' hm
    · refine iff_of_true (hr.sets hsets ht rfl (fun _ hm => hm) fun _ => ?_) ?_
      · rintro (ho | ho)
        · exact (stageAfter_ne a s).1 ho
        · exact hp ho
      · cases a with
        | resolved outcome n =>
          cases outcome with
          | panicked => exact absurd rfl hp
          | _ => trivial
        | _ => trivial
  | @remove id t ht hst =>
    have hsets : SetsTask r { r.set id { t with stage := .finished } with tasks := r.tasks.erase id } id
        { t with stage := .finished } := rfl
    refine iff_of_true (hr.sets hsets ht rfl
      (fun _ hm => Finset.mem_of_mem_erase hm) fun hm => ?_) trivial
    exact absurd rfl (Finset.mem_erase.mp hm).1
  | @drop id t ht hst ha =>
    have hsets : SetsTask r (r.set id { t with stage := .dropped }) id { t with stage := .dropped } := rfl
    refine iff_of_true (hr.sets hsets ht rfl (fun _ hm => hm) ?_) trivial
    rintro - (ho | ho) <;> cases ho
  | shutdown => exact iff_of_true (.inr fun id hm => absurd hm (Finset.notMem_empty id)) trivial

/-! ## Runs -/

theorem countsActive_step (h : Listed r) (hr : CountsActive r) (hs : r.step a = some r') :
    CountsActive r' ↔ KeepsCount r a := by
  have hsteps := taskSteps_of_step hs
  rw [countsActive_iff (listed_step h hsteps)]
  exact sound_step ((countsActive_iff h).mp hr) hsteps

/-- `pending_count` is then the number of active tasks. -/
theorem pendingCount_of_countsActive (h : CountsActive r) (hidle : ¬ CallInProgress r) :
    r.pendingCount = Set.ncard {id | Active r id} := by
  have hset : {id | Active r id} = (r.tasks : Set Nat) := Set.ext fun id => (h hidle id).symm
  rw [hset, Set.ncard_coe_finset]
  rfl

theorem countsActive_new : CountsActive .new :=
  (countsActive_iff listed_new).mpr (.inr fun id hm => absurd hm (Finset.notMem_empty id))

/-- The map counts the active tasks in every state of a run exactly if no step
leaves the entry of a task that is over behind the last call. -/
theorem counts_active_iff (as : List SchedulerAction) (r : SchedulerTasks)
    (hrun : exec SchedulerTasks.step .new as = some r) :
    AlongStates SchedulerTasks.step CountsActive .new as ↔ AlongSteps SchedulerTasks.step KeepsCount .new as :=
  alongStates_iff_alongSteps (I := Listed) (fun h hs => listed_step h (taskSteps_of_step hs)) countsActive_step
    listed_new countsActive_new hrun

/-- The steps of a task that is due at once, and succeeds. -/
def quickRun : List SchedulerAction :=
  [.run 1 ⟨0, .epoch⟩ .slept, .run 1 ⟨0, .epoch⟩ (.resolved (.returned (.ok ())) 0), .remove 1]

/-- Its call. -/
def quickCall : SchedulerAction := .spawn (.after .zero) ⟨none, none⟩ ⟨0, .epoch⟩

/-- The task is inserted before it runs. -/
theorem counts_active_inserted :
    AlongStates SchedulerTasks.step CountsActive .new (quickCall :: .insert 1 :: quickRun) := by
  refine (counts_active_iff _ _ rfl).mpr ?_
  refine (alongSteps_cons_of rfl _).mpr ⟨trivial, (alongSteps_cons_of rfl _).mpr ⟨fun _ id' hid ho => ?_, ?_⟩⟩
  · rcases hid with rfl | hm
    · rw [over_iff rfl] at ho
      rcases ho with ho | ho <;> cases ho
    · exact absurd hm (Finset.notMem_empty id')
  · refine (alongSteps_cons_of rfl _).mpr ⟨trivial, (alongSteps_cons_of rfl _).mpr ⟨trivial, ?_⟩⟩
    exact (alongSteps_cons_of rfl _).mpr ⟨trivial, trivial⟩

/-- The task has removed itself before it is inserted. -/
theorem not_counts_active_late : ¬ ∀ as r, exec SchedulerTasks.step .new as = some r → CountsActive r := by
  intro h
  obtain ⟨r, hr⟩ : ∃ r, exec SchedulerTasks.step .new (quickCall :: quickRun) = some r := ⟨_, rfl⟩
  obtain ⟨r', hr'⟩ : ∃ r', r.step (.insert 1) = some r' := by
    cases hr
    exact ⟨_, rfl⟩
  have hlisted : Listed r := exec_invariant (fun h hs => listed_step h (taskSteps_of_step hs)) listed_new hr
  have hexec : exec SchedulerTasks.step .new (quickCall :: quickRun ++ [.insert 1]) = some r' := by
    rw [exec_append_of hr, exec_cons_of hr', exec_nil]
  have hkeeps := (countsActive_step hlisted (h _ _ hr) hr').mp (h _ _ hexec)
  cases hr
  refine hkeeps (fun id' t ht _ => ?_) 1 (.inl rfl) ⟨_, rfl, .inl rfl⟩
  have hlt : id' < 2 := hlisted.lt_next ht
  rcases Nat.eq_zero_or_pos id' with rfl | hpos
  · cases ht
  · omega

end WalaStack.Proof.Scheduler
