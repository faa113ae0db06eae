import WalaStack.Proof.Jobs.Queues
import WalaStack.Proof.Jobs.Substitution
import WalaStack.Spec.Selection

/-!
# The job that a pull of the in-memory store selects

The queues hold the jobs that wait in the order in which they were queued
(`Queued`), whatever the callers do. A pull takes the first due one out of the
first queue that has one (`pullFrom_first`), which is the one queued first.
-/

namespace WalaStack.Proof.Jobs

open WalaStack.Rust WalaStack.Impl.Jobs WalaStack.Spec.Jobs WalaStack.Transition WalaStack.Arrivals

namespace InMemory

variable {inner : InMemoryStoreInner} {s s' : FiledStore} {id : Nat} {r : JobRecord} {now : DateTime}
  {queue : String}

/-! ## The order of the queues -/

/-- The queues are in the order of arrival. -/
structure Queued (s : FiledStore) : Prop where
  inv : Inv s.inner
  order : ∀ queue, InOrder s.arrivals (s.inner.queues queue)

theorem queued_new : Queued ⟨.empty, []⟩ := ⟨inv_empty, fun _ => inOrder_nil⟩

/-- A job that is in no queue is queued. -/
theorem inOrder_pushBack {arrivals : List Nat} (h : ∀ queue, InOrder arrivals (inner.queues queue))
    (hid : ∀ queue, id ∉ inner.queues queue) (queue queue' : String) :
    InOrder (arrivals ++ [id]) ((inner.pushBack queue id).queues queue') := by
  by_cases hq : queue' = queue
  · subst hq
    rw [queues_pushBack_self]
    exact (h queue').join (hid queue')
  · rw [queues_pushBack_of_ne _ _ hq]
    exact (h queue').elsewhere (hid queue')

theorem removeAt_sublist (inner : InMemoryStoreInner) (queue queue' : String) (idx : Nat) :
    ((inner.removeAt queue idx).queues queue').Sublist (inner.queues queue') := by
  by_cases hq : queue' = queue
  · subst hq
    rw [queues_removeAt_self]
    exact List.eraseIdx_sublist _ _
  · rw [queues_removeAt_of_ne _ _ hq]

theorem Inv.not_queued (h : Inv inner) (hr : inner.records id = none ∨ ∃ r, inner.records id = some r ∧
    r.status.waiting = false) (queue : String) : id ∉ inner.queues queue := by
  rw [← List.count_eq_zero]
  rcases hr with hr | ⟨r, hr, hs⟩
  · rw [h.count, hr, occurrences_none]
  · exact h.not_mem hr hs queue

theorem queued_step {call : StoreCall} (h : Queued s) (hok : call.marksRunning s.inner) (hs : s.step call = some s') :
    Queued s' := by
  cases call with
  | enqueue job now =>
    cases hs
    refine ⟨inv_enqueue h.inv job now, fun queue => ?_⟩
    have hnone : s.inner.records (s.inner.nextId + 1) = none := h.inv.fresh _ (Nat.lt_succ_self _)
    let inserted := InMemoryStoreInner.insert (s.inner.nextId + 1)
      (InMemoryStoreInner.newRecord (s.inner.nextId + 1) job now) { s.inner with nextId := s.inner.nextId + 1 }
    have horder : ∀ queue, InOrder s.arrivals (inserted.queues queue) := h.order
    exact inOrder_pushBack horder (h.inv.not_queued (.inl hnone)) job.queue queue
  | pullNext queues now =>
    cases hs
    refine ⟨inv_pullNext h.inv queues now, fun queue => ?_⟩
    show InOrder (s.arrivals ++ []) ((s.inner.pullFrom now queues).2.queues queue)
    rw [List.append_nil]
    rcases pullFrom_cases now queues s.inner with he | ⟨queue', id, idx, r, -, -, -, he⟩ <;> rw [he]
    · exact h.order queue
    · exact (h.order queue).sublist (removeAt_sublist s.inner queue' queue idx)
  | markCompleted id =>
    cases hs
    obtain ⟨r, hr, hrun⟩ := hok
    refine ⟨inv_markCompleted h.inv hr hrun, fun queue => ?_⟩
    show InOrder (s.arrivals ++ []) ((s.inner.markCompleted id).2.queues queue)
    rw [List.append_nil, InMemoryStoreInner.markCompleted, hr]
    exact h.order queue
  | markFailed id error next =>
    obtain ⟨r, hr, hrun⟩ := hok
    have hnot : ∀ queue, id.val ∉ s.inner.queues queue := h.inv.not_queued (.inr ⟨r, hr, by rw [hrun]; rfl⟩)
    cases hs
    refine ⟨inv_markFailed h.inv error next hr hrun, fun queue => ?_⟩
    cases next with
    | none =>
      show InOrder (s.arrivals ++ []) ((s.inner.markFailed id error none).2.queues queue)
      rw [List.append_nil, InMemoryStoreInner.markFailed, hr]
      exact h.order queue
    | some at_ =>
      show InOrder (s.arrivals ++ (StoreCall.arrival s.inner (.markFailed id error (some at_))).toList)
        ((s.inner.markFailed id error (some at_)).2.queues queue)
      rw [StoreCall.arrival, InMemoryStoreInner.markFailed, hr]
      let inserted := s.inner.insert id.val { r with status := .retrying, scheduledAt := at_ }
      have horder : ∀ queue, InOrder s.arrivals (inserted.queues queue) := h.order
      exact inOrder_pushBack horder hnot r.queue queue

theorem queued_of_filedReachable (h : FiledReachable s) : Queued s :=
  h.invariant_from queued_new queued_step

/-! ## The jobs that wait -/

theorem waiting_iff : r.status.waiting = true ↔ r.status = .pending ∨ r.status = .retrying := by
  cases r.status <;> simp [JobStatus.waiting]

theorem eligible_of_waiting (h : Waiting inner now queue r) : InMemoryStoreInner.eligible now r = true := by
  simp [InMemoryStoreInner.eligible, waiting_iff.mpr h.status, h.due]

/-- A job that waits is in its queue. -/
theorem mem_of_waiting (h : Inv inner) (hw : Waiting inner now queue r) : r.id.val ∈ inner.queues queue := by
  have hcount := h.count queue r.id.val
  rw [hw.record, occurrences_waiting (waiting_iff.mpr hw.status), if_pos hw.queue] at hcount
  exact List.count_pos_iff.mp (by omega)

/-- An eligible record of a queue waits in it. -/
theorem waiting_of_mem (h : Inv inner) (hm : id ∈ inner.queues queue) (hr : inner.records id = some r)
    (he : InMemoryStoreInner.eligible now r = true) : Waiting inner now queue r := by
  have hid := h.ids id r hr
  have hw := waiting_of_eligible he
  have hcount := List.count_pos_iff.mpr hm
  rw [h.count, hr, occurrences_waiting hw] at hcount
  simp only [InMemoryStoreInner.eligible, Bool.and_eq_true, decide_eq_true_eq] at he
  refine ⟨by rw [hid, hr], waiting_iff.mp hw, ?_, he.2⟩
  by_contra hq
  rw [if_neg hq] at hcount
  omega

theorem pick_eq_none_iff (h : Inv inner) :
    inner.pick now queue = none ↔ ∀ r, ¬ Waiting inner now queue r := by
  rw [← Option.not_isSome_iff_eq_none, pick_isSome]
  constructor
  · intro hno r hw
    exact hno ⟨r.id.val, mem_of_waiting h hw, r, hw.record, eligible_of_waiting hw⟩
  · rintro hno ⟨id, hm, r, hr, he⟩
    exact hno r (waiting_of_mem h hm hr he)

/-! ## The pull -/

/-- The first queue with a due job, and the job. -/
theorem pullFrom_first (now : DateTime) (queues : List String) (inner : InMemoryStoreInner) :
    ((∀ q ∈ queues, inner.pick now q = none) ∧ inner.pullFrom now queues = (none, inner)) ∨
    ∃ pre queue post id idx r, queues = pre ++ queue :: post ∧ (∀ q ∈ pre, inner.pick now q = none) ∧
      inner.pick now queue = some (id, idx) ∧ inner.records id = some r ∧
      inner.pullFrom now queues = (some (InMemoryStoreInner.handOut r),
        (inner.removeAt queue idx).insert id (InMemoryStoreInner.handOut r)) := by
  induction queues with
  | nil => exact .inl ⟨fun _ h => absurd h List.not_mem_nil, rfl⟩
  | cons queue queues ih =>
    cases hp : inner.pick now queue with
    | none =>
      have hstep : inner.pullFrom now (queue :: queues) = inner.pullFrom now queues := by
        simp only [InMemoryStoreInner.pullFrom, hp]
      rw [hstep]
      rcases ih with ⟨hno, he⟩ | ⟨pre, queue', post, id, idx, r, rfl, hpre, hpick, hr, he⟩
      · exact .inl ⟨List.forall_mem_cons.mpr ⟨hp, hno⟩, he⟩
      · exact .inr ⟨queue :: pre, queue', post, id, idx, r, rfl, List.forall_mem_cons.mpr ⟨hp, hpre⟩, hpick, hr, he⟩
    | some p =>
      obtain ⟨-, r, hr, -⟩ := pick_eq_some (show inner.pick now queue = some (p.1, p.2) from hp)
      refine .inr ⟨[], queue, queues, p.1, p.2, r, rfl, fun _ h => absurd h List.not_mem_nil, hp, hr, ?_⟩
      simp only [InMemoryStoreInner.pullFrom, hp, hr]

/-- The first due job of a queue was queued first. -/
theorem queuedFirst_of_pick {idx : Nat} (h : Queued s) (hp : s.inner.pick now queue = some (id, idx))
    (hr : s.inner.records id = some r) : QueuedFirst s now queue r := by
  obtain ⟨pre, id', post, hq, hr', he, hpre⟩ := Substitution.firstDue_iff.mpr ⟨id, idx, hp, hr⟩
  have hid : r.id.val = id' := h.inv.ids id' r hr'
  have hm : id' ∈ s.inner.queues queue := hq ▸ List.mem_append_right _ List.mem_cons_self
  refine ⟨waiting_of_mem h.inv hm hr' he, fun r₁ hw hne => ?_⟩
  have hm₁ := mem_of_waiting h.inv hw
  rw [hq] at hm₁
  have horder := h.order queue
  rw [hq] at horder
  rw [hid]
  rcases List.mem_append.mp hm₁ with hm₁ | hm₁
  · -- What stands before the job is not due.
    have hno := hpre _ hm₁ r₁ hw.record
    rw [eligible_of_waiting hw] at hno
    cases hno
  · rcases List.mem_cons.mp hm₁ with heq | hm₁
    · have hsame := hw.record
      rw [heq, hr', Option.some.injEq] at hsame
      exact absurd hsame.symm hne
    · exact horder.earlier hm₁

/-- A list without one of its elements, and without one place of it. -/
theorem filter_eraseIdx {l : List Nat} {idx : Nat} (h : l[idx]? = some id) :
    (l.eraseIdx idx).filter (· ≠ id) = l.filter (· ≠ id) := by
  induction l generalizing idx with
  | nil => simp at h
  | cons x l ih =>
    cases idx with
    | zero =>
      obtain rfl : x = id := by simpa using h
      simp
    | succ idx =>
      rw [List.eraseIdx_cons_succ, List.filter_cons, List.filter_cons, ih (by simpa using h)]

theorem othersKept_handOut {idx : Nat} {r' : JobRecord} (hget : (inner.queues queue)[idx]? = some id) :
    OthersKept id inner ((inner.removeAt queue idx).insert id r') := by
  refine ⟨rfl, fun x hx => records_insert_of_ne _ r' hx, fun queue' => ?_⟩
  show ((inner.removeAt queue idx).queues queue').filter (· ≠ id) = _
  by_cases hq : queue' = queue
  · subst hq
    rw [queues_removeAt_self]
    exact filter_eraseIdx hget
  · rw [queues_removeAt_of_ne _ _ hq]

theorem selects_of_queued (h : Queued s) (queues : List String) (now : DateTime) :
    Selects (saturatingAdd · 1) s queues now := by
  have hpull : s.inner.pullNext queues now = (.ok (s.inner.pullFrom now queues).1, (s.inner.pullFrom now queues).2) :=
    rfl
  rcases pullFrom_first now queues s.inner with ⟨hno, he⟩ | ⟨pre, queue, post, id, idx, r, rfl, hpre, hp, hr, he⟩
  · have hnone : ∀ queue ∈ queues, ∀ r, ¬ Waiting s.inner now queue r := fun queue hq =>
      (pick_eq_none_iff h.inv).mp (hno queue hq)
    rw [he] at hpull
    refine ⟨iff_of_true (by rw [hpull]) hnone, fun _ => by rw [hpull], ?_⟩
    rintro ⟨queue, hq, r, hw⟩
    exact absurd hw (hnone queue hq r)
  · obtain ⟨hget, -⟩ := pick_eq_some hp
    have hfirst := queuedFirst_of_pick h hp hr
    obtain rfl : r.id.val = id := h.inv.ids id r hr
    have hinv := inv_pullNext h.inv (pre ++ queue :: post) now
    rw [he] at hpull
    rw [hpull] at hinv
    have hsome : (s.inner.pullNext (pre ++ queue :: post) now).1 ≠ .ok none := by
      rw [hpull]
      exact fun hc => by cases hc
    refine ⟨iff_of_false hsome fun hno => ?_, fun hc => absurd hc hsome, fun _ => ?_⟩
    · exact hno queue (List.mem_append_right _ List.mem_cons_self) r hfirst.1
    · refine ⟨pre, queue, post, r, InMemoryStoreInner.handOut r, rfl, fun q hq => ?_, hfirst, rfl, rfl, ?_⟩
      · exact (pick_eq_none_iff h.inv).mp (hpre q hq)
      · rw [hpull]
        refine ⟨rfl, records_insert_self .., ?_, othersKept_handOut hget⟩
        exact hinv.not_queued (.inr ⟨_, records_insert_self .., rfl⟩)

/-- In every state of an `InMemoryJobStore` whose running jobs alone are
marked, a pull selects the job that was queued first in the first of the queues
in which one is due; its attempt is counted up to `u32::MAX`. -/
theorem pull_selects (h : FiledReachable s) (queues : List String) (now : DateTime) :
    Selects (saturatingAdd · 1) s queues now :=
  selects_of_queued (queued_of_filedReachable h) queues now

/-- A job that is not due does not keep the one behind it from being pulled. -/
theorem selects_behind :
    Selects (saturatingAdd · 1)
      ⟨((InMemoryStoreInner.empty.enqueue ⟨⟨"later"⟩, .null, "mail", 1, ⟨1, by decide, by decide⟩⟩ DateTime.epoch).2.enqueue
        ⟨⟨"now"⟩, .null, "mail", 1, DateTime.epoch⟩ DateTime.epoch).2, [1, 2]⟩ ["news", "mail"] DateTime.epoch := by
  have start : FiledReachable ⟨.empty, []⟩ := .init rfl
  have later := start.step (a := StoreCall.enqueue ⟨⟨"later"⟩, .null, "mail", 1, ⟨1, by decide, by decide⟩⟩
    DateTime.epoch) trivial rfl
  have due := later.step (a := StoreCall.enqueue ⟨⟨"now"⟩, .null, "mail", 1, DateTime.epoch⟩ DateTime.epoch) trivial rfl
  exact pull_selects due ["news", "mail"] DateTime.epoch

/-! ## The last attempt that is counted -/

/-- The one job of the store waits for its pull number `n + 1`. -/
structure Tried (n : Nat) (s : FiledStore) : Prop where
  reach : FiledReachable s
  one : ∀ id, id ≠ 1 → s.inner.records id = none
  waiting : ∃ r, r.id.val = 1 ∧ r.attempt.val = n ∧ Waiting s.inner DateTime.epoch "mail" r

theorem tried_zero : ∃ s, Tried 0 s := by
  have start : FiledReachable ⟨.empty, []⟩ := .init rfl
  let job : NewJob := ⟨⟨"letter"⟩, .null, "mail", 1, DateTime.epoch⟩
  refine ⟨_, start.step (a := StoreCall.enqueue job DateTime.epoch) trivial rfl, fun id hid => ?_,
    InMemoryStoreInner.newRecord 1 job DateTime.epoch, rfl, rfl, ?_⟩
  · exact Function.update_of_ne hid ..
  · exact ⟨rfl, .inl rfl, rfl, Int.le_refl _⟩

theorem Tried.only {n : Nat} (h : Tried n s) (hw : Waiting s.inner now queue r) : r.id.val = 1 ∧ r.attempt.val = n := by
  have hid : r.id.val = 1 := by
    by_contra hne
    have hnone := hw.record
    rw [h.one _ hne] at hnone
    cases hnone
  obtain ⟨r₁, hid₁, hn, hw₁⟩ := h.waiting
  have hsame := hw.record
  rw [hid, ← hid₁, hw₁.record, Option.some.injEq] at hsame
  exact ⟨hid, hsame ▸ hn⟩

/-- The job is pulled, and fails. -/
theorem Tried.succ {n : Nat} (h : Tried n s) : ∃ s', Tried (saturatingAdd n 1) s' := by
  obtain ⟨r, -, -, hw⟩ := h.waiting
  have hsel := selects_of_queued (queued_of_filedReachable h.reach) ["mail"] DateTime.epoch
  obtain ⟨pre, queue, post, r₀, r', hq, -, hfirst, hr', hcount, -, hrec, -, hothers⟩ :=
    hsel.first ⟨"mail", List.mem_cons_self, r, hw⟩
  obtain ⟨hid, hn⟩ := h.only hfirst.1
  have hid' : r'.id.val = 1 := by rw [hr']; exact hid
  have hqueue : r'.queue = "mail" := by
    rw [hr']
    have hmem : queue ∈ ["mail"] := hq ▸ List.mem_append_right _ List.mem_cons_self
    exact hfirst.1.queue.trans (List.mem_singleton.mp hmem)
  rw [hid] at hrec hothers
  have hpulled := h.reach.step (a := StoreCall.pullNext ["mail"] DateTime.epoch) trivial rfl
  have hfailed := hpulled.step (a := StoreCall.markFailed ⟨1⟩ "refused" (some DateTime.epoch))
    ⟨r', hrec, by rw [hr']⟩ rfl
  let failed : JobRecord := { r' with status := .retrying, scheduledAt := DateTime.epoch }
  have hinner : ((s.inner.pullNext ["mail"] DateTime.epoch).2.markFailed ⟨1⟩ "refused" (some DateTime.epoch)).2 =
      ((s.inner.pullNext ["mail"] DateTime.epoch).2.insert 1 failed).pushBack r'.queue 1 := by
    simp only [InMemoryStoreInner.markFailed, hrec, failed]
  refine ⟨_, hfailed, fun id hne => ?_, failed, hid', hcount.trans (by rw [hn]), ?_, .inr rfl, hqueue, Int.le_refl _⟩
  · simp only [hinner]
    exact (records_insert_of_ne _ _ hne).trans ((hothers.2.1 id hne).trans (h.one id hne))
  · rw [show failed.id.val = 1 from hid']
    simp only [hinner]
    rfl

theorem exists_tried (n : Nat) : ∃ s, Tried (min n u32Max) s := by
  induction n with
  | zero => exact tried_zero
  | succ n ih =>
    obtain ⟨s, hs⟩ := ih
    obtain ⟨s', hs'⟩ := hs.succ
    refine ⟨s', ?_⟩
    rwa [show min (n + 1) u32Max = saturatingAdd (min n u32Max) 1 by simp only [saturatingAdd]; omega]

/-- Beyond `u32::MAX` the attempt is not increased. -/
theorem not_selects_succ : ¬ ∀ s, FiledReachable s → ∀ queues now, Selects (· + 1) s queues now := by
  intro h
  obtain ⟨s, hs⟩ := exists_tried u32Max
  obtain ⟨r, -, -, hw⟩ := hs.waiting
  obtain ⟨pre, queue, post, r₀, r', -, -, hfirst, -, hcount, -⟩ :=
    (h s hs.reach ["mail"] DateTime.epoch).first ⟨"mail", List.mem_cons_self, r, hw⟩
  have hmax := r'.attempt.le_max
  rw [hcount, (hs.only hfirst.1).2] at hmax
  omega

end InMemory

end WalaStack.Proof.Jobs
