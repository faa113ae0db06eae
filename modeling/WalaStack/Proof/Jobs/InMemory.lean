import WalaStack.Spec.JobStore
import Mathlib.Data.List.Perm.Basic

/-!
# The in-memory job store

`Inv.count` says how often an id occurs in a queue, by the id's record: once
in the record's own queue while the job waits, and never otherwise. Each
method keeps it, for the marks if the job is running; `represents` is the
invariant in the words of the store's structure. `inMemory` is the provider.
-/

namespace WalaStack.Proof.Jobs

open WalaStack.Rust WalaStack.Impl.Jobs WalaStack.Spec.Jobs WalaStack.Transition

namespace InMemory

variable {inner : InMemoryStoreInner} {id : Nat} {r : JobRecord}

/-! ## Queues and records -/

@[simp] theorem records_insert_self (inner : InMemoryStoreInner) (id : Nat) (r : JobRecord) :
    (inner.insert id r).records id = some r :=
  Function.update_self ..

theorem records_insert_of_ne (inner : InMemoryStoreInner) {id id' : Nat} (r : JobRecord) (h : id' ≠ id) :
    (inner.insert id r).records id' = inner.records id' :=
  Function.update_of_ne h ..

theorem queues_pushBack_self (inner : InMemoryStoreInner) (queue : String) (id : Nat) :
    (inner.pushBack queue id).queues queue = inner.queues queue ++ [id] :=
  Function.update_self ..

theorem queues_pushBack_of_ne (inner : InMemoryStoreInner) {queue queue' : String} (id : Nat) (h : queue' ≠ queue) :
    (inner.pushBack queue id).queues queue' = inner.queues queue' :=
  Function.update_of_ne h ..

theorem queues_removeAt_self (inner : InMemoryStoreInner) (queue : String) (idx : Nat) :
    (inner.removeAt queue idx).queues queue = (inner.queues queue).eraseIdx idx :=
  Function.update_self ..

theorem queues_removeAt_of_ne (inner : InMemoryStoreInner) {queue queue' : String} (idx : Nat) (h : queue' ≠ queue) :
    (inner.removeAt queue idx).queues queue' = inner.queues queue' :=
  Function.update_of_ne h ..

theorem mem_pushBack {queue queue' : String} {id' : Nat} :
    id' ∈ (inner.pushBack queue id).queues queue' ↔ id' ∈ inner.queues queue' ∨ (queue' = queue ∧ id' = id) := by
  by_cases hq : queue' = queue
  · subst hq
    simp [InMemoryStoreInner.pushBack]
  · simp [InMemoryStoreInner.pushBack, hq]

theorem mem_of_mem_removeAt {queue queue' : String} {idx id' : Nat}
    (h : id' ∈ (inner.removeAt queue idx).queues queue') : id' ∈ inner.queues queue' := by
  by_cases hq : queue' = queue
  · subst hq
    simp only [InMemoryStoreInner.removeAt, Function.update_self] at h
    exact List.mem_of_mem_eraseIdx h
  · simpa [InMemoryStoreInner.removeAt, hq] using h

/-- How often an id is in a queue, by its record. -/
def occurrences (record : Option JobRecord) (queue : String) : Nat :=
  if record.any fun r => r.status.waiting && r.queue == queue then 1 else 0

@[simp] theorem occurrences_none (queue : String) : occurrences none queue = 0 := rfl

theorem occurrences_waiting (h : r.status.waiting = true) (queue : String) :
    occurrences (some r) queue = if r.queue = queue then 1 else 0 := by
  simp [occurrences, h]

theorem occurrences_not_waiting (h : r.status.waiting = false) (queue : String) :
    occurrences (some r) queue = 0 := by
  simp [occurrences, h]

theorem count_pushBack (inner : InMemoryStoreInner) (queue queue' : String) (id id' : Nat) :
    ((inner.pushBack queue id).queues queue').count id' =
      (inner.queues queue').count id' + if queue = queue' ∧ id = id' then 1 else 0 := by
  by_cases hq : queue = queue'
  · subst hq
    simp [InMemoryStoreInner.pushBack, List.count_singleton]
  · simp [InMemoryStoreInner.pushBack, Function.update_of_ne (Ne.symm hq), hq]

theorem count_removeAt {queue : String} {idx : Nat} (h : (inner.queues queue)[idx]? = some id)
    (queue' : String) (id' : Nat) :
    ((inner.removeAt queue idx).queues queue').count id' + (if queue = queue' ∧ id = id' then 1 else 0) =
      (inner.queues queue').count id' := by
  by_cases hq : queue = queue'
  · subst hq
    obtain ⟨hlt, rfl⟩ := List.getElem?_eq_some_iff.mp h
    rw [← (List.getElem_cons_eraseIdx_perm hlt).count_eq id']
    simp [InMemoryStoreInner.removeAt, List.count_cons]
  · simp [InMemoryStoreInner.removeAt, Function.update_of_ne (Ne.symm hq), hq]

/-- The queues follow from the records; ids are given out in order. -/
structure Inv (inner : InMemoryStoreInner) : Prop where
  count : ∀ queue id, (inner.queues queue).count id = occurrences (inner.records id) queue
  fresh : ∀ id, inner.nextId < id → inner.records id = none
  ids : ∀ id r, inner.records id = some r → r.id.val = id

theorem inv_empty : Inv .empty := ⟨fun _ _ => rfl, fun _ _ => rfl, fun _ _ h => by (cases h)⟩

theorem Inv.le_nextId (h : Inv inner) (hr : inner.records id = some r) : id ≤ inner.nextId := by
  by_contra hlt
  rw [h.fresh id (Nat.lt_of_not_le hlt)] at hr
  cases hr

theorem Inv.not_mem (h : Inv inner) (hr : inner.records id = some r) (hs : r.status.waiting = false)
    (queue : String) : (inner.queues queue).count id = 0 := by
  rw [h.count, hr, occurrences_not_waiting hs]

/-- A record replaced by one of its own id, with the queues to match. -/
theorem Inv.insert {inner' : InMemoryStoreInner} {r' : JobRecord} (h : Inv inner)
    (hr : inner.records id = some r) (hrec : inner'.records = Function.update inner.records id (some r'))
    (hid : r'.id = r.id) (hnext : inner'.nextId = inner.nextId)
    (hother : ∀ queue id', id' ≠ id → (inner'.queues queue).count id' = (inner.queues queue).count id')
    (hown : ∀ queue, (inner'.queues queue).count id = occurrences (some r') queue) : Inv inner' := by
  refine ⟨fun queue id' => ?_, fun id' hlt => ?_, fun id' r₁ h₁ => ?_⟩
  · by_cases hi : id' = id
    · rw [hi, hown, hrec, Function.update_self]
    · rw [hother queue id' hi, h.count, hrec, Function.update_of_ne hi]
  · have hi : id' ≠ id := by
      rintro rfl
      have := h.le_nextId hr
      omega
    rw [hrec, Function.update_of_ne hi]
    exact h.fresh id' (by rwa [← hnext])
  · rw [hrec] at h₁
    by_cases hi : id' = id
    · subst hi
      rw [Function.update_self, Option.some.injEq] at h₁
      rw [← h₁, hid]
      exact h.ids id' r hr
    · rw [Function.update_of_ne hi] at h₁
      exact h.ids id' r₁ h₁

/-! ## The methods -/

theorem inv_enqueue (h : Inv inner) (job : NewJob) (now : DateTime) : Inv (inner.enqueue job now).2 := by
  have hnone : inner.records (inner.nextId + 1) = none := h.fresh _ (Nat.lt_succ_self _)
  have hcount : ∀ queue, (inner.queues queue).count (inner.nextId + 1) = 0 := fun queue => by
    rw [h.count, hnone, occurrences_none]
  refine ⟨fun queue id => ?_, fun id hlt => ?_, fun id r hr => ?_⟩
  · have hpush := count_pushBack { inner with nextId := inner.nextId + 1 } job.queue queue (inner.nextId + 1) id
    by_cases hi : id = inner.nextId + 1
    · subst hi
      simp only [InMemoryStoreInner.enqueue, InMemoryStoreInner.pushBack, InMemoryStoreInner.insert,
        Function.update_self] at hpush ⊢
      rw [hpush, hcount, occurrences_waiting rfl, InMemoryStoreInner.newRecord]
      by_cases hq : job.queue = queue <;> simp [hq]
    · simp only [InMemoryStoreInner.enqueue, InMemoryStoreInner.pushBack, InMemoryStoreInner.insert,
        Function.update_of_ne hi, Ne.symm hi, and_false, ite_false] at hpush ⊢
      rw [hpush, Nat.add_zero, h.count]
  · simp only [InMemoryStoreInner.enqueue, InMemoryStoreInner.pushBack, InMemoryStoreInner.insert] at hlt ⊢
    rw [Function.update_of_ne (by omega)]
    exact h.fresh id (by omega)
  · simp only [InMemoryStoreInner.enqueue, InMemoryStoreInner.pushBack, InMemoryStoreInner.insert] at hr
    by_cases hi : id = inner.nextId + 1
    · subst hi
      rw [Function.update_self, Option.some.injEq] at hr
      rw [← hr, InMemoryStoreInner.newRecord]
    · rw [Function.update_of_ne hi] at hr
      exact h.ids id r hr

/-- What `pick` finds. -/
theorem pick_eq_some {now : DateTime} {queue : String} {idx : Nat} (h : inner.pick now queue = some (id, idx)) :
    (inner.queues queue)[idx]? = some id ∧
      ∃ r, inner.records id = some r ∧ InMemoryStoreInner.eligible now r = true := by
  refine ⟨List.mem_zipIdx_iff_getElem?.mp (List.mem_of_find?_eq_some h), ?_⟩
  have := List.find?_some h
  exact (Option.any_eq_true _ _).mp this

/-- `pull_next` takes one eligible id out of its queue, or finds none. -/
theorem pullFrom_cases (now : DateTime) (queues : List String) (inner : InMemoryStoreInner) :
    inner.pullFrom now queues = (none, inner) ∨
    ∃ queue id idx r, (inner.queues queue)[idx]? = some id ∧ inner.records id = some r ∧
      InMemoryStoreInner.eligible now r = true ∧
      inner.pullFrom now queues =
        (some (InMemoryStoreInner.handOut r),
          (inner.removeAt queue idx).insert id (InMemoryStoreInner.handOut r)) := by
  induction queues with
  | nil => exact .inl rfl
  | cons queue queues ih =>
    cases hp : inner.pick now queue with
    | none => simpa only [InMemoryStoreInner.pullFrom, hp] using ih
    | some p =>
      obtain ⟨hget, r, hr, he⟩ := pick_eq_some (show inner.pick now queue = some (p.1, p.2) from hp)
      refine .inr ⟨queue, p.1, p.2, r, hget, hr, he, ?_⟩
      simp only [InMemoryStoreInner.pullFrom, hp, hr]

theorem waiting_of_eligible {now : DateTime} (h : InMemoryStoreInner.eligible now r = true) :
    r.status.waiting = true := by
  simp only [InMemoryStoreInner.eligible, Bool.and_eq_true] at h
  exact h.1

theorem inv_handOut (h : Inv inner) {queue : String} {idx : Nat} (hget : (inner.queues queue)[idx]? = some id)
    (hr : inner.records id = some r) (hw : r.status.waiting = true) :
    Inv ((inner.removeAt queue idx).insert id (InMemoryStoreInner.handOut r)) := by
  refine h.insert hr rfl rfl rfl (fun queue' id' hi => ?_) fun queue' => ?_
  · have := count_removeAt hget queue' id'
    simp only [Ne.symm hi, and_false, ite_false] at this
    exact this
  · have hcount := count_removeAt hget queue' id
    rw [h.count, hr, occurrences_waiting hw] at hcount
    have hown : 0 < (inner.queues queue).count id := List.count_pos_iff.mpr (List.mem_of_getElem? hget)
    rw [h.count, hr, occurrences_waiting hw] at hown
    have hq : queue = r.queue := by
      by_contra hne
      simp [Ne.symm hne] at hown
    subst hq
    rw [occurrences_not_waiting rfl]
    show List.count id ((inner.removeAt r.queue idx).queues queue') = 0
    split at hcount <;> simp_all

theorem inv_pullNext (h : Inv inner) (queues : List String) (now : DateTime) :
    Inv (inner.pullNext queues now).2 := by
  show Inv (inner.pullFrom now queues).2
  rcases pullFrom_cases now queues inner with he | ⟨queue, id, idx, r, hget, hr, hel, he⟩ <;> rw [he]
  · exact h
  · exact inv_handOut h hget hr (waiting_of_eligible hel)

theorem inv_markCompleted (h : Inv inner) {id : JobId} (hr : inner.records id.val = some r)
    (hs : r.status = .running) : Inv (inner.markCompleted id).2 := by
  simp only [InMemoryStoreInner.markCompleted, hr]
  refine h.insert hr rfl rfl rfl (fun _ _ _ => rfl) fun queue => ?_
  rw [occurrences_not_waiting rfl]
  exact h.not_mem hr (by rw [hs]; rfl) queue

theorem inv_markFailed (h : Inv inner) {id : JobId} (error : String) (next : Option DateTime)
    (hr : inner.records id.val = some r) (hs : r.status = .running) :
    Inv (inner.markFailed id error next).2 := by
  have hz := h.not_mem hr (by rw [hs]; rfl)
  cases next with
  | none =>
    simp only [InMemoryStoreInner.markFailed, hr]
    refine h.insert hr rfl rfl rfl (fun _ _ _ => rfl) fun queue => ?_
    rw [occurrences_not_waiting rfl]
    exact hz queue
  | some at_ =>
    simp only [InMemoryStoreInner.markFailed, hr]
    refine h.insert hr rfl rfl rfl (fun queue id' hi => ?_) fun queue => ?_
    · rw [count_pushBack]
      simp only [Ne.symm hi, and_false, ite_false, Nat.add_zero]
      rfl
    · rw [count_pushBack, occurrences_waiting rfl]
      show List.count id.val (inner.queues queue) + _ = _
      rw [hz]
      simp

/-! ## The representation -/

theorem inv_of_storeReachable (h : StoreReachable inner) : Inv inner := by
  refine h.invariant_from inv_empty fun {inner call inner'} hi hok hs => ?_
  cases call <;> cases hs
  case enqueue job now => exact inv_enqueue hi job now
  case pullNext queues now => exact inv_pullNext hi queues now
  case markCompleted id =>
    obtain ⟨r, hr, hrun⟩ := hok
    exact inv_markCompleted hi hr hrun
  case markFailed id error next =>
    obtain ⟨r, hr, hrun⟩ := hok
    exact inv_markFailed hi error next hr hrun

theorem Inv.represents (h : Inv inner) : Represents inner := by
  refine ⟨fun queue id hm => ?_, fun id r hr hs => ?_, fun id r hr hs queue hm => ?_⟩
  · have hpos := List.count_pos_iff.mpr hm
    rw [h.count] at hpos
    cases hr : inner.records id with
    | none => rw [hr] at hpos; cases hpos
    | some r => exact ⟨r, rfl⟩
  · have hw : r.status.waiting = true := by rcases hs with hs | hs <;> rw [hs] <;> rfl
    have hcount : ∀ queue, (inner.queues queue).count id = if r.queue = queue then 1 else 0 := fun queue => by
      rw [h.count, hr, occurrences_waiting hw]
    refine ⟨by rw [hcount, if_pos rfl], fun queue hne => ?_⟩
    rw [← List.count_eq_zero, hcount, if_neg (Ne.symm hne)]
  · have hw : r.status.waiting = false := by rcases hs with hs | hs | hs <;> rw [hs] <;> rfl
    have := h.not_mem hr hw queue
    rw [List.count_eq_zero] at this
    exact this hm

/-- In every state of an `InMemoryJobStore` whose running jobs alone are
marked, the queues hold exactly the jobs that wait. -/
theorem represents_of_storeReachable {inner : InMemoryStoreInner} (h : StoreReachable inner) : Represents inner :=
  (inv_of_storeReachable h).represents

/-- A job pulled, failed and queued again. -/
theorem represents_retried :
    Represents (InMemoryStoreInner.markFailed ⟨1⟩ "refused" (some DateTime.epoch)
      (InMemoryStoreInner.pullNext ["default"] DateTime.epoch
        (InMemoryStoreInner.enqueue ⟨⟨"mail"⟩, .null, "default", U32.max, DateTime.epoch⟩ DateTime.epoch
          .empty).2).2).2 := by
  have start : StoreReachable .empty := .init rfl
  have enqueued := start.step (a := StoreCall.enqueue ⟨⟨"mail"⟩, .null, "default", U32.max, DateTime.epoch⟩
    DateTime.epoch) trivial rfl
  have pulled := enqueued.step (a := StoreCall.pullNext ["default"] DateTime.epoch) trivial rfl
  exact represents_of_storeReachable
    (pulled.step (a := StoreCall.markFailed ⟨1⟩ "refused" (some DateTime.epoch)) ⟨_, rfl, rfl⟩ rfl)

/-! ## The provider -/

/-- What callers see of a record. -/
def viewOf (r : JobRecord) : JobView := ⟨r.status, r.attempt.val, r.maxAttempts⟩

def view (inner : InMemoryStoreInner) (id : JobId) : Option JobView := (inner.records id.val).map viewOf

theorem view_eq_some {id : JobId} {v : JobView} (h : view inner id = some v) :
    ∃ r, inner.records id.val = some r ∧ v = viewOf r := by
  obtain ⟨r, hr, hv⟩ := Option.map_eq_some_iff.mp h
  exact ⟨r, hr, hv.symm⟩

/-- A record replaced changes the view of its id only. -/
theorem view_update {inner' : InMemoryStoreInner} (id : JobId) (r' : JobRecord)
    (h : inner'.records = Function.update inner.records id.val (some r')) :
    view inner' = Function.update (view inner) id (some (viewOf r')) := by
  funext id'
  by_cases hi : id' = id
  · rw [hi, Function.update_self, view, h, Function.update_self, Option.map_some]
  · have hv : id'.val ≠ id.val := fun e => hi (by cases id'; cases id; simpa using e)
    rw [Function.update_of_ne hi, view, h, Function.update_of_ne hv, view]

theorem enqueue_view (h : Inv inner) (job : NewJob) (now : DateTime) :
    view inner ⟨inner.nextId + 1⟩ = none ∧
      view (inner.enqueue job now).2 =
        Function.update (view inner) ⟨inner.nextId + 1⟩ (some ⟨.pending, 0, job.maxAttempts⟩) := by
  refine ⟨?_, view_update ⟨inner.nextId + 1⟩
    (InMemoryStoreInner.newRecord (inner.nextId + 1) job now) rfl⟩
  rw [view, h.fresh _ (Nat.lt_succ_self _), Option.map_none]

theorem pullNext_cases (h : Inv inner) (queues : List String) (now : DateTime) :
    inner.pullNext queues now = (.ok none, inner) ∨
    ∃ r v inner', inner.pullNext queues now = (.ok (some r), inner') ∧ Inv inner' ∧
      view inner r.id = some v ∧ v.status.waiting = true ∧
      r.attempt = U32.cast (saturatingAdd v.attempt 1) ∧ r.maxAttempts = v.maxAttempts ∧
      view inner' = Function.update (view inner) r.id
        (some { v with status := .running, attempt := saturatingAdd v.attempt 1 }) := by
  rcases pullFrom_cases now queues inner with he | ⟨queue, id, idx, r, hget, hr, hel, he⟩
  · exact .inl (by rw [InMemoryStoreInner.pullNext, he])
  · obtain ⟨n, hn⟩ : ∃ n, r.id = ⟨n⟩ := ⟨r.id.val, rfl⟩
    obtain rfl : n = id := by rw [← h.ids id r hr, hn]
    refine .inr ⟨InMemoryStoreInner.handOut r, viewOf r, _, by rw [InMemoryStoreInner.pullNext, he],
      inv_handOut h hget hr (waiting_of_eligible hel), ?_, waiting_of_eligible hel,
      (U32.cast_val _).symm, rfl, ?_⟩
    · rw [InMemoryStoreInner.handOut, hn, view, hr, Option.map_some]
    · rw [show (InMemoryStoreInner.handOut r).id = ⟨n⟩ from hn]
      exact view_update ⟨n⟩ (InMemoryStoreInner.handOut r) rfl

theorem markCompleted_view {id : JobId} {v : JobView} (h : Inv inner) (hv : view inner id = some v)
    (hs : v.status = .running) :
    ∃ inner', inner.markCompleted id = (.ok (), inner') ∧ Inv inner' ∧
      view inner' = Function.update (view inner) id (some { v with status := .completed }) := by
  obtain ⟨r, hr, rfl⟩ := view_eq_some hv
  refine ⟨inner.insert id.val { r with status := .completed }, ?_, ?_,
    view_update id { r with status := .completed } rfl⟩
  · rw [InMemoryStoreInner.markCompleted, hr]
  · have := inv_markCompleted h hr hs
    rwa [InMemoryStoreInner.markCompleted, hr] at this

theorem markFailed_view {id : JobId} {v : JobView} (error : String) (next : Option DateTime) (h : Inv inner)
    (hv : view inner id = some v) (hs : v.status = .running) :
    ∃ inner', inner.markFailed id error next = (.ok (), inner') ∧ Inv inner' ∧
      view inner' = Function.update (view inner) id
        (some { v with status := if next.isSome then .retrying else .dead }) := by
  obtain ⟨r, hr, rfl⟩ := view_eq_some hv
  have hi := inv_markFailed h error next hr hs
  cases next with
  | none =>
    rw [InMemoryStoreInner.markFailed, hr] at hi ⊢
    exact ⟨_, rfl, hi, view_update id { r with status := .dead } rfl⟩
  | some at_ =>
    rw [InMemoryStoreInner.markFailed, hr] at hi ⊢
    exact ⟨_, rfl, hi, view_update id { r with status := .retrying, scheduledAt := at_ } rfl⟩

end InMemory

/-- `InMemoryJobStore` keeps the contract of `JobStore`. -/
def inMemory : Provider where
  toJobStore := InMemoryJobStore
  Inv := InMemory.Inv
  view := InMemory.view
  bump n := saturatingAdd n 1
  refuses _ := False
  loses _ _ _ := False
  inv_new := InMemory.inv_empty
  view_new _ := rfl
  bump_of_lt := saturatingAdd_one_of_lt
  enqueue_cases job now _ h :=
    .inr ⟨_, _, rfl, InMemory.inv_enqueue h job now, InMemory.enqueue_view h job now⟩
  pull_refused _ _ _ h := h.elim
  pull_lost _ _ h := h.elim
  pull_cases {_ queues now _} h _ _ := InMemory.pullNext_cases h queues now
  completed_refused _ _ h := h.elim
  completed_ok h _ hv hs := InMemory.markCompleted_view h hv hs
  failed_refused _ _ _ _ h := h.elim
  failed_ok error next h _ hv hs := InMemory.markFailed_view error next h hv hs

end WalaStack.Proof.Jobs
