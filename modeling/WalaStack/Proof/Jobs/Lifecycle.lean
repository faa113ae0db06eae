import WalaStack.Proof.Jobs.Delivery
import WalaStack.Proof.Jobs.HandOut
import WalaStack.Spec.Lifecycle

/-!
# The lifecycle of a job, in a pool over the in-memory store

A record counts the attempts of its job, and the worker that holds it is at
one point of its dispatch. `Traced` ties both to the events published so far:
whole failed attempts (`Rounds`) up to the count of the record while the job
waits, and then what the dispatch under way has published (`Attempt`). Each
of these is a prefix of a `Lifecycle`, and the mark that ends a dispatch
writes what the last event announced.
-/

namespace WalaStack.Proof.Jobs

open WalaStack.Rust WalaStack.Impl.Runtime WalaStack.Impl.Jobs WalaStack.Spec.Jobs WalaStack.Transition

/-! ## The language -/

/-- Attempts up to `a` that failed and are retried. -/
inductive Rounds (handled : Prop) (max : Nat) : Nat → List Stage → Prop
  | zero : Rounds handled max 0 []
  | succ {a : Nat} {at_ : DateTime} {es : List Stage} : Rounds handled max a es → handled → a + 1 < max →
    Rounds handled max (a + 1) (es ++ [.started (a + 1), .failed (a + 1), .retrying (a + 1 + 1) at_])

/-- How far a dispatch is. -/
inductive Point
  | pulled
  | running
  /-- The time of the retry overflowed. -/
  | overflowed
  | marking (m : Mark)

/-- What a dispatch of attempt `a` has published at a point. -/
inductive Attempt (handled : Prop) (max a : Nat) : Point → List Stage → Prop
  | pulled : Attempt handled max a .pulled []
  | running : handled → Attempt handled max a .running [.started a]
  | overflowed : handled → Attempt handled max a .overflowed [.started a, .failed a]
  | completed : handled → Attempt handled max a (.marking .completed) [.started a, .completed a]
  | exhausted {error : String} : handled → max ≤ a →
    Attempt handled max a (.marking (.failed error none)) [.started a, .failed a, .dead a]
  | unhandled {error : String} : ¬ handled →
    Attempt handled max a (.marking (.failed error none)) [.failed a, .dead a]
  | retried {error : String} {at_ : DateTime} : handled → a < max →
    Attempt handled max a (.marking (.failed error (some at_))) [.started a, .failed a, .retrying (a + 1) at_]

/-- A dispatch after the rounds before it. -/
def Dispatched (handled : Prop) (max a : Nat) (p : Point) (es : List Stage) : Prop :=
  ∃ k es₀ es₁, a = k + 1 ∧ Rounds handled max k es₀ ∧ Attempt handled max a p es₁ ∧ es = es₀ ++ es₁

variable {handled : Prop} {max a : Nat} {p : Point} {es tail : List Stage}

theorem Rounds.lifecycle (h : Rounds handled max a es) (ht : Lifecycle handled max (a + 1) tail) :
    Lifecycle handled max 1 (es ++ tail) := by
  induction h generalizing tail with
  | zero => exact ht
  | succ _ hh hlt ih =>
    rw [List.append_assoc]
    exact ih (.retried hh hlt ht)

theorem exists_lifecycle (handled : Prop) (max a : Nat) : ∃ es, Lifecycle handled max a es := by
  by_cases hh : handled
  · exact ⟨_, .completed hh⟩
  · exact ⟨_, .unhandled hh⟩

/-- A dispatch can go on to the end of a life. -/
theorem Attempt.prefix_lifecycle (h : Attempt handled max a p es) :
    ∃ tail, Lifecycle handled max a tail ∧ es <+: tail := by
  cases h with
  | pulled =>
    obtain ⟨tail, ht⟩ := exists_lifecycle handled max a
    exact ⟨tail, ht, List.nil_prefix⟩
  | running hh => exact ⟨_, .completed hh, ⟨_, rfl⟩⟩
  | overflowed hh =>
    by_cases hle : max ≤ a
    · exact ⟨_, .exhausted hh hle, ⟨_, rfl⟩⟩
    · obtain ⟨tail, ht⟩ := exists_lifecycle handled max (a + 1)
      have hlife : Lifecycle handled max a
          (.started a :: .failed a :: .retrying (a + 1) DateTime.epoch :: tail) :=
        .retried hh (Nat.lt_of_not_le hle) ht
      exact ⟨_, hlife, ⟨_, rfl⟩⟩
  | completed hh => exact ⟨_, .completed hh, List.prefix_refl _⟩
  | exhausted hh hle => exact ⟨_, .exhausted hh hle, List.prefix_refl _⟩
  | unhandled hh => exact ⟨_, .unhandled hh, List.prefix_refl _⟩
  | retried hh hlt =>
    obtain ⟨tail, ht⟩ := exists_lifecycle handled max (a + 1)
    exact ⟨_, .retried hh hlt ht, ⟨_, rfl⟩⟩

theorem Dispatched.prefix_lifecycle (h : Dispatched handled max a p es) :
    ∃ full, Lifecycle handled max 1 full ∧ es <+: full := by
  obtain ⟨k, es₀, es₁, rfl, hr, ha, rfl⟩ := h
  obtain ⟨tail, ht, hp⟩ := ha.prefix_lifecycle
  exact ⟨es₀ ++ tail, hr.lifecycle ht, (List.prefix_append_right_inj es₀).mpr hp⟩

theorem Rounds.prefix_lifecycle (h : Rounds handled max a es) :
    ∃ full, Lifecycle handled max 1 full ∧ es <+: full := by
  obtain ⟨tail, ht⟩ := exists_lifecycle handled max (a + 1)
  exact ⟨es ++ tail, h.lifecycle ht, List.prefix_append _ _⟩

/-- The next dispatch of a job that waits. -/
theorem Rounds.dispatched (h : Rounds handled max a es) {es₁ : List Stage} (ha : Attempt handled max (a + 1) p es₁) :
    Dispatched handled max (a + 1) p (es ++ es₁) :=
  ⟨a, es, es₁, rfl, h, ha, rfl⟩

/-- A dispatch goes on from the start of its handler. -/
theorem Dispatched.conclude (h : Dispatched handled max a .running es) {es₁ : List Stage}
    (ha : handled → Attempt handled max a p (.started a :: es₁)) : Dispatched handled max a p (es ++ es₁) := by
  obtain ⟨k, es₀, _, rfl, hr, hrun, rfl⟩ := h
  cases hrun with
  | running hh => exact ⟨k, es₀, _, rfl, hr, ha hh, by rw [List.append_assoc, List.singleton_append]⟩

/-- A dispatch that retries its job ends another round. -/
theorem Dispatched.rounds {error : String} {at_ : DateTime}
    (h : Dispatched handled max a (.marking (.failed error (some at_))) es) : Rounds handled max a es := by
  obtain ⟨k, es₀, _, rfl, hr, ha, rfl⟩ := h
  cases ha with
  | retried hh hlt => exact hr.succ hh hlt

/-! ## Records of the in-memory store -/

variable {d d' : Desk InMemoryJobStore} {id : JobId} {r : JobRecord} {i : Nat}

/-- The records of the store behind a desk. -/
abbrev recordsOf (d : Desk InMemoryJobStore) : Nat → Option JobRecord := InMemoryStoreInner.records d.store

/-- A record as a report leaves it. -/
def markedRecord (r : JobRecord) : Mark → JobRecord
  | .completed => { r with status := .completed }
  | .failed _ none => { r with status := .dead }
  | .failed _ (some at_) => { r with status := .retrying, scheduledAt := at_ }

/-- What an enqueuing does to the records. -/
theorem records_of_enqueue {job : NewJob} {now : DateTime} {env : Unit} (hi : InMemory.Inv d.store)
    (h : d.step (.enqueue job now env) = some d') :
    ∃ id, recordsOf d id = none ∧ d'.held = d.held ∧
      recordsOf d' = Function.update (recordsOf d) id (some (InMemoryStoreInner.newRecord id job now)) := by
  obtain rfl := Option.some.inj h
  exact ⟨_, hi.fresh _ (Nat.lt_succ_self _), rfl, rfl⟩

theorem records_of_pull {queues : List String} {now : DateTime} {env : Unit} (hi : InMemory.Inv d.store)
    (h : d.step (.pull i queues now env) = some d') :
    d' = d ∨ ∃ r, r.status.waiting = true ∧ recordsOf d r.id.val = some r ∧
      d'.held = Function.update d.held i (some (InMemoryStoreInner.handOut r)) ∧
      recordsOf d' = Function.update (recordsOf d) r.id.val (some (InMemoryStoreInner.handOut r)) := by
  cases hh : d.held i with
  | some r =>
    simp only [Desk.step, hh] at h
    cases h
  | none =>
    simp only [Desk.step, hh, InMemoryJobStore, InMemoryStoreInner.pullNext] at h
    rcases InMemory.pullFrom_cases now queues d.store with hp | ⟨queue, id, idx, r, -, hr, hel, hp⟩
    · rw [hp] at h
      cases h
      exact .inl rfl
    · rw [hp] at h
      cases h
      obtain rfl : r.id.val = id := hi.ids id r hr
      exact .inr ⟨r, InMemory.waiting_of_eligible hel, hr, rfl, rfl⟩

theorem records_of_mark {m : Mark} {env : Unit} (hh : d.held i = some r) (hr : recordsOf d r.id.val = some r)
    (h : d.step (.mark i m env) = some d') :
    d'.held = Function.update d.held i none ∧
      recordsOf d' = Function.update (recordsOf d) r.id.val (some (markedRecord r m)) := by
  refine ⟨held_of_mark h, ?_⟩
  simp only [Desk.step, hh, InMemoryJobStore, JobStore.mark] at h
  have hr' : InMemoryStoreInner.records d.store r.id.val = some r := hr
  cases m with
  | completed =>
    simp only [InMemoryStoreInner.markCompleted, hr'] at h
    cases h
    rfl
  | failed error next =>
    cases next <;> simp only [InMemoryStoreInner.markFailed, hr'] at h <;> cases h <;> rfl

/-! ## The invariant -/

variable {dispatcher : JobsDispatcher} {config : JobsConfig} {s s' : Pool InMemoryJobStore}

/-- The point of its dispatch that a task is at. -/
def pointOf : WorkerTask → Option Point
  | .running _ _ => some .running
  | .marking m => some (.marking m)
  | .polling | .sleeping _ => none

/-- A record and the events about its job agree. -/
def Lived (dispatcher : JobsDispatcher) (r : JobRecord) (es : List Stage) : Prop :=
  if r.status.waiting = true then Rounds (Handled dispatcher r) r.maxAttempts.val r.attempt.val es
  else ∃ p, Dispatched (Handled dispatcher r) r.maxAttempts.val r.attempt.val p es

theorem Lived.prefix_lifecycle (h : Lived dispatcher r es) :
    ∃ full, Lifecycle (Handled dispatcher r) r.maxAttempts.val 1 full ∧ es <+: full := by
  rw [Lived] at h
  split at h
  · exact h.prefix_lifecycle
  · obtain ⟨p, hp⟩ := h
    exact hp.prefix_lifecycle

theorem Lived.of_rounds (hw : r.status.waiting = true)
    (h : Rounds (Handled dispatcher r) r.maxAttempts.val r.attempt.val es) : Lived dispatcher r es := by
  rw [Lived, if_pos hw]
  exact h

theorem Lived.of_dispatched (hw : r.status.waiting = false)
    (h : Dispatched (Handled dispatcher r) r.maxAttempts.val r.attempt.val p es) : Lived dispatcher r es := by
  rw [Lived, if_neg (by simp [hw])]
  exact ⟨p, h⟩

/-- A worker that holds a record is in a dispatch of it. -/
def Holds (dispatcher : JobsDispatcher) (s : Pool InMemoryJobStore) (r : JobRecord) (t : WorkerTask) : Prop :=
  recordsOf s.desk r.id.val = some r ∧ r.status.waiting = false ∧ ∃ p, pointOf t = some p ∧
    Dispatched (Handled dispatcher r) r.maxAttempts.val r.attempt.val p (trace r.id s.events)

structure Traced (dispatcher : JobsDispatcher) (s : Pool InMemoryJobStore) : Prop where
  unknown : ∀ id : JobId, recordsOf s.desk id.val = none → trace id s.events = []
  known : ∀ (id : JobId) r, recordsOf s.desk id.val = some r → Lived dispatcher r (trace id s.events)
  held : ∀ i r t, s.desk.held i = some r → (s.workers i).task = some t → Holds dispatcher s r t

theorem traced_init (k : Kernel) : Traced dispatcher (Pool.init InMemoryJobStore k) where
  unknown _ _ := rfl
  known _ _ hr := by cases hr
  held _ _ _ hr := by cases hr

/-- A step that publishes nothing and leaves the records as they are. -/
theorem Traced.keep (h : Traced dispatcher s) (hrec : recordsOf s'.desk = recordsOf s.desk)
    (hev : ∀ id, trace id s'.events = trace id s.events)
    (hheld : ∀ j r t, s'.desk.held j = some r → (s'.workers j).task = some t →
      s.desk.held j = some r ∧ (s.workers j).task = some t) : Traced dispatcher s' := by
  refine ⟨fun id hn => ?_, fun id r hr => ?_, fun j r t hr ht => ?_⟩
  · rw [hev]
    exact h.unknown id (hrec ▸ hn)
  · rw [hev]
    exact h.known id r (hrec ▸ hr)
  · obtain ⟨hr', ht'⟩ := hheld j r t hr ht
    obtain ⟨hl, hw, p, hp, hd⟩ := h.held j r t hr' ht'
    exact ⟨by rw [hrec]; exact hl, hw, p, hp, by rw [hev]; exact hd⟩

/-- A step that changes one job. -/
theorem Traced.update (h : Traced dispatcher s) {id : JobId} {r' : JobRecord}
    (hrec : recordsOf s'.desk = Function.update (recordsOf s.desk) id.val (some r'))
    (hev : ∀ id', id' ≠ id → trace id' s'.events = trace id' s.events)
    (hlived : Lived dispatcher r' (trace id s'.events))
    (hheld : ∀ j r t, s'.desk.held j = some r → (s'.workers j).task = some t →
      Holds dispatcher s' r t ∨ (s.desk.held j = some r ∧ (s.workers j).task = some t ∧ r.id ≠ id)) :
    Traced dispatcher s' := by
  have hne : ∀ id' : JobId, id' ≠ id → recordsOf s'.desk id'.val = recordsOf s.desk id'.val := fun id' hid => by
    have hv : id'.val ≠ id.val := fun e => hid (by cases id'; cases id; simpa using e)
    rw [hrec, Function.update_of_ne hv]
  refine ⟨fun id' hn => ?_, fun id' r hr => ?_, fun j r t hr ht => ?_⟩
  · have hid : id' ≠ id := by
      rintro rfl
      rw [hrec, Function.update_self] at hn
      cases hn
    rw [hev id' hid]
    exact h.unknown id' (hne id' hid ▸ hn)
  · by_cases hid : id' = id
    · subst hid
      rw [hrec, Function.update_self] at hr
      obtain rfl := Option.some.inj hr
      exact hlived
    · rw [hev id' hid]
      exact h.known id' r (hne id' hid ▸ hr)
  · rcases hheld j r t hr ht with hh | ⟨hr', ht', hid⟩
    · exact hh
    · obtain ⟨hl, hw, p, hp, hd⟩ := h.held j r t hr' ht'
      exact ⟨by rw [hne _ hid]; exact hl, hw, p, hp, by rw [hev _ hid]; exact hd⟩

/-! ## What a dispatch publishes -/

theorem trace_append (id : JobId) (es es' : List JobEvent) : trace id (es ++ es') = trace id es ++ trace id es' :=
  List.filterMap_append

theorem trace_announce (id : JobId) (job : NewJob) (result : Except JobsError JobId) :
    trace id (announce job result) = [] := by
  cases result <;> rfl

/-- The start of a dispatch is about its record only. -/
theorem trace_dispatch_of_ne {now : Nat} (h : id ≠ r.id) : trace id (dispatch dispatcher now r).1 = [] := by
  rw [dispatch]
  split <;> simp [trace, stageOf, Ne.symm h]

theorem attempt_dispatch (dispatcher : JobsDispatcher) (now : Nat) (r : JobRecord) :
    ∃ p, pointOf (dispatch dispatcher now r).2 = some p ∧
      Attempt (Handled dispatcher r) r.maxAttempts.val r.attempt.val p (trace r.id (dispatch dispatcher now r).1) := by
  rw [dispatch]
  split
  · rename_i hn
    have hh : ¬ Handled dispatcher r := by simp [Handled, hn]
    refine ⟨_, rfl, ?_⟩
    simpa [trace, stageOf] using Attempt.unhandled hh
  · rename_i entry hs
    have hh : Handled dispatcher r := by simp [Handled, hs]
    refine ⟨_, rfl, ?_⟩
    simpa [trace, stageOf] using Attempt.running hh

section

variable {entry : HandlerEntry} {elapsed ns : Nat} {now : DateTime} {result : Except String Unit}
  {events : List JobEvent}

/-- So is its end. -/
theorem trace_conclude_of_ne {ended : Except String Mark}
    (hc : conclude config entry elapsed now ns r result = (events, ended)) (h : id ≠ r.id) : trace id events = [] := by
  obtain rfl : (conclude config entry elapsed now ns r result).1 = events := congrArg Prod.fst hc
  rw [conclude.eq_def]
  split
  · simp [trace, stageOf, Ne.symm h]
  · split
    · simp [trace, stageOf, Ne.symm h]
    · split <;> simp [trace, stageOf, Ne.symm h]

theorem saturatingSucc_val {n max : U32} (h : n.val < max.val) : n.saturatingSucc.val = n.val + 1 :=
  saturatingAdd_one_of_lt (Nat.lt_of_lt_of_le h max.le_max)

/-- The end of a dispatch that calls the store. -/
theorem attempt_conclude {m : Mark} (hh : handled)
    (h : conclude config entry elapsed now ns r result = (events, .ok m)) :
    Attempt handled r.maxAttempts.val r.attempt.val (.marking m) (.started r.attempt.val :: trace r.id events) := by
  rw [conclude.eq_def] at h
  split at h
  · obtain ⟨rfl, hm⟩ := Prod.mk.inj h
    obtain rfl := Except.ok.inj hm
    simpa [trace, stageOf] using Attempt.completed hh
  · split at h
    · rename_i hle
      obtain ⟨rfl, hm⟩ := Prod.mk.inj h
      obtain rfl := Except.ok.inj hm
      simpa [trace, stageOf] using Attempt.exhausted hh hle
    · rename_i hlt
      split at h
      · cases (Prod.mk.inj h).2
      · obtain ⟨rfl, hm⟩ := Prod.mk.inj h
        obtain rfl := Except.ok.inj hm
        have hlt := Nat.lt_of_not_le hlt
        simpa [trace, stageOf, saturatingSucc_val hlt] using Attempt.retried hh hlt

/-- The end of a dispatch that panics. -/
theorem attempt_overflowed {message : String} (hh : handled)
    (h : conclude config entry elapsed now ns r result = (events, .error message)) :
    Attempt handled r.maxAttempts.val r.attempt.val .overflowed (.started r.attempt.val :: trace r.id events) := by
  rw [conclude.eq_def] at h
  split at h
  · cases (Prod.mk.inj h).2
  · split at h
    · cases (Prod.mk.inj h).2
    · split at h
      · obtain ⟨rfl, -⟩ := Prod.mk.inj h
        simpa [trace, stageOf] using Attempt.overflowed hh
      · cases (Prod.mk.inj h).2

end

/-! ## Steps -/

theorem Rounds.eq_zero_or_lt (h : Rounds handled max a es) : a = 0 ∨ a < max := by
  cases h with
  | zero => exact .inl rfl
  | succ _ _ hlt => exact .inr hlt

/-- The record of a job that waits, handed out once more. -/
theorem Lived.handOut (h : Lived dispatcher r es) (hw : r.status.waiting = true) {es₁ : List Stage}
    (ha : ∀ a, a = (InMemoryStoreInner.handOut r).attempt.val →
      Attempt (Handled dispatcher r) r.maxAttempts.val a p es₁) :
    Dispatched (Handled dispatcher r) r.maxAttempts.val (InMemoryStoreInner.handOut r).attempt.val p (es ++ es₁) := by
  rw [Lived, if_pos hw] at h
  have hval : (InMemoryStoreInner.handOut r).attempt.val = r.attempt.val + 1 := by
    refine saturatingAdd_one_of_lt ?_
    rcases h.eq_zero_or_lt with h0 | hlt
    · rw [h0]
      decide
    · exact Nat.lt_of_lt_of_le hlt r.maxAttempts.le_max
  have := ha _ rfl
  rw [hval] at this ⊢
  exact h.dispatched this

/-- The workers beside the one that steps, when it changes a job that none of
them holds. -/
theorem held_of_other {j : Nat} {r₁ : JobRecord} {t : WorkerTask} {w : WorkerState} (hj : j ≠ i)
    (hdesk : s'.desk.held j = s.desk.held j) (hw : s'.workers = Function.update s.workers i w)
    (hr : s'.desk.held j = some r₁) (ht : (s'.workers j).task = some t)
    (hfree : ∀ j r₁, j ≠ i → s.desk.held j = some r₁ → r₁.id ≠ id) :
    s.desk.held j = some r₁ ∧ (s.workers j).task = some t ∧ r₁.id ≠ id := by
  rw [hdesk] at hr
  rw [hw, Function.update_of_ne hj] at ht
  exact ⟨hr, ht, hfree j r₁ hj hr⟩

/-- A worker drops what it held. -/
theorem Traced.dropTask (h : Traced dispatcher s) (w : Watcher) : Traced dispatcher (dropTask s i w) := by
  refine h.keep rfl (fun _ => rfl) fun j r t hr ht => ?_
  obtain ⟨hj, hr⟩ := held_of_drop (P := inMemory) (d := s.desk) hr
  have hw : (Jobs.dropTask s i w).workers j = s.workers j := Function.update_of_ne hj _ _
  rw [hw] at ht
  exact ⟨hr, ht⟩

/-- A step of one worker that publishes nothing. -/
theorem Traced.keepWorker (h : Traced dispatcher s) {w : WorkerState} (hdesk : s'.desk = s.desk)
    (hev : s'.events = s.events) (hworkers : s'.workers = Function.update s.workers i w)
    (hw : ∀ r t, s.desk.held i = some r → w.task = some t → (s.workers i).task = some t) : Traced dispatcher s' := by
  refine h.keep (by rw [hdesk]) (fun id => by rw [hev]) fun j r t hr ht => ?_
  rw [hdesk] at hr
  rw [hworkers] at ht
  refine ⟨hr, ?_⟩
  by_cases hj : j = i
  · subst hj
    rw [Function.update_self] at ht
    exact hw r t hr ht
  · rwa [Function.update_of_ne hj] at ht

/-- A worker takes a job, and starts on it or drops it. -/
theorem Traced.pulled (h : Traced dispatcher s) (hi : Inv inMemory s.desk) {r : JobRecord}
    {w : WorkerState} (hw : r.status.waiting = true) (hr : recordsOf s.desk r.id.val = some r)
    (hheld : ∀ j, j ≠ i → s'.desk.held j = s.desk.held j)
    (hrec : recordsOf s'.desk = Function.update (recordsOf s.desk) r.id.val (some (InMemoryStoreInner.handOut r)))
    (hworkers : s'.workers = Function.update s.workers i w) {events : List JobEvent}
    (hev : s'.events = s.events ++ events) (hother : ∀ id, id ≠ r.id → trace id events = [])
    (ha : Attempt (Handled dispatcher r) r.maxAttempts.val (InMemoryStoreInner.handOut r).attempt.val p
      (trace r.id events))
    (htask : ∀ r' t, s'.desk.held i = some r' → w.task = some t →
      r' = InMemoryStoreInner.handOut r ∧ pointOf t = some p) : Traced dispatcher s' := by
  have hdisp : Dispatched (Handled dispatcher r) r.maxAttempts.val (InMemoryStoreInner.handOut r).attempt.val p
      (trace r.id s'.events) := by
    rw [hev, trace_append]
    exact (h.known r.id r hr).handOut hw fun a ha' => ha' ▸ ha
  have hfree : ∀ j r₁, j ≠ i → s.desk.held j = some r₁ → r₁.id ≠ r.id := fun j r₁ _ hr₁ =>
    have hv : inMemory.view s.desk.store r.id = some (InMemory.viewOf r) := by
      simp [inMemory, InMemory.view, hr]
    hi.not_held hv hw j r₁ hr₁
  refine h.update hrec (fun id hid => by rw [hev, trace_append, hother id hid, List.append_nil])
    (.of_dispatched rfl hdisp) fun j r₁ t hr₁ ht => ?_
  by_cases hj : j = i
  · subst hj
    rw [hworkers, Function.update_self] at ht
    obtain ⟨rfl, hpt⟩ := htask r₁ t hr₁ ht
    exact .inl ⟨by rw [hrec]; exact Function.update_self .., rfl, p, hpt, hdisp⟩
  · exact .inr (held_of_other hj (hheld j hj) hworkers hr₁ ht hfree)

/-- A new job. -/
theorem Traced.enqueued (h : Traced dispatcher s) (hi : Inv inMemory s.desk) {job : NewJob} {now : DateTime} {env : Unit}
    (hd : s.desk.step (.enqueue job now env) = some s'.desk) (hw : s'.workers = s.workers)
    (hev : ∀ id, trace id s'.events = trace id s.events) : Traced dispatcher s' := by
  obtain ⟨n, hn, hheld, hrec⟩ := records_of_enqueue hi.store hd
  refine h.update hrec (fun id (_ : id ≠ ⟨n⟩) => hev id) ?_ fun j r t hr ht => ?_
  · rw [hev, h.unknown ⟨n⟩ hn]
    exact .of_rounds rfl .zero
  · rw [hheld] at hr
    rw [hw] at ht
    refine .inr ⟨hr, ht, fun hid => ?_⟩
    have hl := (h.held j r t hr ht).1
    rw [hid, hn] at hl
    cases hl

/-- A dispatch goes on with its record as it is stored. -/
theorem Traced.published (h : Traced dispatcher s) (hi : Inv inMemory s.desk) {entry : HandlerEntry} {startedAt : Nat}
    {w : WorkerState} {events : List JobEvent} (ht : (s.workers i).task = some (.running entry startedAt))
    (hr : s.desk.held i = some r) (hrec : recordsOf s'.desk = recordsOf s.desk)
    (hheld : ∀ j, j ≠ i → s'.desk.held j = s.desk.held j) (hworkers : s'.workers = Function.update s.workers i w)
    (hev : s'.events = s.events ++ events) (hother : ∀ id, id ≠ r.id → trace id events = [])
    (ha : Handled dispatcher r → Attempt (Handled dispatcher r) r.maxAttempts.val r.attempt.val p
      (.started r.attempt.val :: trace r.id events))
    (htask : ∀ r' t, s'.desk.held i = some r' → w.task = some t → r' = r ∧ pointOf t = some p) :
    Traced dispatcher s' := by
  obtain ⟨hl, hw, p', hp', hd⟩ := h.held i r _ hr ht
  cases hp'
  have hdisp : Dispatched (Handled dispatcher r) r.maxAttempts.val r.attempt.val p (trace r.id s'.events) := by
    rw [hev, trace_append]
    exact hd.conclude ha
  have hsame : recordsOf s'.desk = Function.update (recordsOf s.desk) r.id.val (some r) := by
    rw [hrec, ← hl, Function.update_eq_self]
  refine h.update hsame (fun id hid => by rw [hev, trace_append, hother id hid, List.append_nil])
    (.of_dispatched hw hdisp) fun j r₁ t hr₁ ht₁ => ?_
  by_cases hj : j = i
  · subst hj
    rw [hworkers, Function.update_self] at ht₁
    obtain ⟨rfl, hpt⟩ := htask r₁ t hr₁ ht₁
    exact .inl ⟨by rw [hrec]; exact hl, hw, p, hpt, hdisp⟩
  · exact .inr (held_of_other hj (hheld j hj) hworkers hr₁ ht₁ fun k r₂ hk hr₂ hid => hk (hi.apart i k r r₂ hr hr₂ hid))

/-- A dispatch returns. -/
theorem Traced.marked (h : Traced dispatcher s) (hi : Inv inMemory s.desk) {m : Mark} {w : WorkerState}
    (ht : (s.workers i).task = some (.marking m)) (hr : s.desk.held i = some r)
    (hrec : recordsOf s'.desk = Function.update (recordsOf s.desk) r.id.val (some (markedRecord r m)))
    (hheld : s'.desk.held = Function.update s.desk.held i none) (hworkers : s'.workers = Function.update s.workers i w)
    (hev : s'.events = s.events) : Traced dispatcher s' := by
  obtain ⟨-, -, p, hp, hd⟩ := h.held i r _ hr ht
  cases hp
  refine h.update hrec (fun id _ => by rw [hev]) ?_ fun j r₁ t hr₁ ht₁ => ?_
  · rw [hev]
    match m, hd with
    | .completed, hd => exact .of_dispatched rfl hd
    | .failed error none, hd => exact .of_dispatched rfl hd
    | .failed error (some at_), hd => exact .of_rounds rfl hd.rounds
  · have hj : j ≠ i := by
      rintro rfl
      rw [hheld, Function.update_self] at hr₁
      cases hr₁
    refine .inr (held_of_other hj ?_ hworkers hr₁ ht₁ fun k r₂ hk hr₂ hid => hk (hi.apart i k r r₂ hr hr₂ hid))
    rw [hheld, Function.update_of_ne hj]

/-- A worker outside of a dispatch holds nothing. -/
theorem not_held_of_idle (hp : PoolInv s) (hr : s.desk.held i = some r)
    (ht : ∀ t ∈ (s.workers i).task, pointOf t = none) : False := by
  have hd := hp.held i r hr
  cases hw : (s.workers i).task with
  | none =>
    rw [hw] at hd
    exact hd
  | some t =>
    rw [hw] at hd ht
    have hidle := ht t rfl
    cases t with
    | polling | sleeping => exact hd
    | running | marking => cases hidle

theorem traced_step (hp : PoolInv s) (hi : Inv inMemory s.desk) (h : Traced dispatcher s)
    {a : PoolAction InMemoryJobStore.Env} (hstep : s.step config dispatcher a = some s') : Traced dispatcher s' := by
  cases poolSteps_of_step hstep with
  | tick | signal => exact h.keep rfl (fun _ => rfl) fun j r t hr ht => ⟨hr, ht⟩
  | enqueue hd => exact h.enqueued hi hd rfl fun _ => rfl
  | submit =>
    simp only [Pool.step] at hstep
    obtain ⟨desk, hd, he⟩ := Option.map_eq_some_iff.mp hstep
    rw [← he]
    refine h.enqueued hi hd rfl fun id => ?_
    rw [Pool.publish, trace_append, trace_announce, List.append_nil]
  | @spawn i w hs =>
    have hn := hp.no_task rfl hs (by simp)
    exact h.keepWorker rfl rfl rfl fun r t hr _ => (not_held_of_idle hp hr (by simp [hn])).elim
  | abort => exact h.dropTask _
  | watch => exact h.keepWorker rfl rfl rfl fun r t _ ht => ht
  | @pulled i now env desk r ht hd hr =>
    obtain ⟨hfree, hother⟩ := held_of_pull hd
    rcases records_of_pull hi.store hd with rfl | ⟨r₀, hw, hr₀, hheld, hrec⟩
    · rw [hfree] at hr
      cases hr
    · rw [hheld, Function.update_self] at hr
      obtain rfl := Option.some.inj hr
      obtain ⟨p, hpt, ha⟩ := attempt_dispatch dispatcher s.kernel.now (InMemoryStoreInner.handOut r₀)
      refine h.pulled hi hw hr₀ hother hrec rfl rfl (fun id hid => trace_dispatch_of_ne hid) ha
        fun r' t hr' ht' => ?_
      obtain rfl := Option.some.inj ht'
      have hr' : desk.held i = some r' := hr'
      rw [hheld, Function.update_self] at hr'
      exact ⟨(Option.some.inj hr').symm, hpt⟩
  | @unpulled i now env desk ht hd hr =>
    rcases records_of_pull hi.store hd with rfl | ⟨r₀, -, -, hheld, -⟩
    · refine h.keepWorker rfl rfl rfl fun r t hr₁ _ => ?_
      cases hr.symm.trans hr₁
    · rw [hheld, Function.update_self] at hr
      cases hr
  | leave => exact h.dropTask _
  | @abandon i now env desk w _ hd =>
    obtain ⟨-, hother⟩ := held_of_pull hd
    rcases records_of_pull hi.store hd with rfl | ⟨r₀, hw, hr₀, hheld, hrec⟩
    · exact h.dropTask w
    · let s' := Jobs.dropTask { s with desk := desk } i w
      have hev : s'.events = s.events ++ [] := (List.append_nil _).symm
      have hnone : s'.desk.held i = none := Function.update_self ..
      refine h.pulled hi hw hr₀ (fun j hj => ?_) hrec rfl hev (fun _ _ => rfl) .pulled fun r' t hr' _ => ?_
      · exact (Function.update_of_ne hj _ _).trans (hother j hj)
      · rw [hnone] at hr'
        cases hr'
  | @slept i wake ht =>
    exact h.keepWorker rfl rfl rfl fun r t hr _ => (not_held_of_idle hp hr (by simp [ht, pointOf])).elim
  | @concluded i startedAt entry r outcome now ns result m es ht hh hres hc =>
    refine h.published hi ht hh rfl (fun _ _ => rfl) rfl rfl (fun id hid => ?_) (fun hd => attempt_conclude hd hc)
      fun r' t hr' ht' => ?_
    · exact trace_conclude_of_ne hc hid
    · obtain rfl := Option.some.inj ht'
      exact ⟨Option.some.inj (hr'.symm.trans hh), rfl⟩
  | @overflowed i startedAt entry r outcome now ns result message es w ht hh hres hc hs =>
    let s' := Jobs.dropTask (s.publish es) i w
    have hev : s'.events = s.events ++ es := rfl
    have hnone : s'.desk.held i = none := Function.update_self ..
    refine h.published hi ht hh rfl (fun j hj => Function.update_of_ne hj _ _) rfl hev (fun id hid => ?_)
      (fun hd => attempt_overflowed hd hc) fun r' t hr' _ => ?_
    · exact trace_conclude_of_ne hc hid
    · rw [hnone] at hr'
      cases hr'
  | panicked => exact h.dropTask _
  | @marked i m env desk ht hd =>
    obtain ⟨r, hh⟩ : ∃ r, s.desk.held i = some r := by
      cases hh : s.desk.held i with
      | none =>
        simp only [Desk.step, hh] at hd
        cases hd
      | some r => exact ⟨r, rfl⟩
    obtain ⟨hheld, hrec⟩ := records_of_mark hh (h.held i r _ hh ht).1 hd
    exact h.marked hi ht hh hrec hheld rfl rfl

theorem traced_of_pool (h : PoolReachable InMemoryJobStore config dispatcher s) : Traced dispatcher s := by
  induction h with
  | init hk =>
    obtain ⟨k, rfl⟩ := hk
    exact traced_init k
  | step hr _ hs ih =>
    obtain ⟨hp, hd⟩ := deciding_of_pool hr
    exact traced_step hp (within_of_reachable (P := inMemory) hd).1 ih hs

/-- A dispatch that reports has announced the report last. -/
theorem Dispatched.announces {m : Mark} (h : Dispatched handled max a (.marking m) es) :
    ∃ e, es.getLast? = some e ∧ ∀ r, Announces e (markedRecord r m) := by
  obtain ⟨k, es₀, es₁, rfl, -, ha, rfl⟩ := h
  cases ha with
  | completed => exact ⟨.completed (k + 1), by simp, fun r => rfl⟩
  | exhausted => exact ⟨.dead (k + 1), by simp, fun r => rfl⟩
  | unhandled => exact ⟨.dead (k + 1), by simp, fun r => rfl⟩
  | @retried _ at_ => exact ⟨.retrying (k + 1 + 1) at_, by simp, fun r => ⟨rfl, rfl⟩⟩

theorem announces_of_mark (h : Traced dispatcher s) {env : InMemoryJobStore.Env} (hr : s.desk.held i = some r)
    (hs : s.step config dispatcher (.mark i env) = some s') :
    ∃ r' e, recordsOf s'.desk r.id.val = some r' ∧ (trace r.id s'.events).getLast? = some e ∧ Announces e r' := by
  cases poolSteps_of_step hs with
  | @marked i m env desk ht hd =>
    obtain ⟨hl, -, p, hp, hdisp⟩ := h.held i r _ hr ht
    cases hp
    obtain ⟨e, he, hann⟩ := hdisp.announces
    refine ⟨markedRecord r m, e, ?_, he, hann r⟩
    show recordsOf desk r.id.val = _
    rw [(records_of_mark hr hl hd).2, Function.update_self]

/-- In every run of a pool over an in-memory store, the worker events about a
job begin one of its lives, those about no job are none, and when a dispatch
returns, the stored record is what the last of them announced. -/
theorem lifecycle_of_pool (h : PoolReachable InMemoryJobStore config dispatcher s) :
    (∀ id r, InMemoryStoreInner.fetch id s.desk.store = .ok (some r) →
      ∃ life, Lifecycle (Handled dispatcher r) r.maxAttempts.val 1 life ∧ trace id s.events <+: life) ∧
    (∀ id, InMemoryStoreInner.fetch id s.desk.store = .ok none → trace id s.events = []) ∧
    (∀ i r env s', s.desk.held i = some r → s.step config dispatcher (.mark i env) = some s' →
      ∃ r' e, InMemoryStoreInner.fetch r.id s'.desk.store = .ok (some r') ∧
        (trace r.id s'.events).getLast? = some e ∧ Announces e r') := by
  have ht := traced_of_pool h
  refine ⟨fun id r hr => ?_, fun id hn => ?_, fun i r env s' hr hs => ?_⟩
  · exact (ht.known id r (Except.ok.inj hr)).prefix_lifecycle
  · exact ht.unknown id (Except.ok.inj hn)
  · obtain ⟨r', e, hr', he, ha⟩ := announces_of_mark ht hr hs
    exact ⟨r', e, congrArg _ hr', he, ha⟩

/-- A job with two attempts, whose first was refused. -/
theorem lifecycle_newsletter : ∃ s : Pool InMemoryJobStore, ∃ at_,
    trace ⟨1⟩ s.events = [.started 1, .failed 1, .retrying 2 at_] ∧
      ∃ life, Lifecycle True 2 1 life ∧ trace ⟨1⟩ s.events <+: life := by
  obtain ⟨s, hx⟩ : ∃ s : Pool InMemoryJobStore, exec (Pool.step oneWorker anyJob)
      (Pool.init InMemoryJobStore ⟨0, false⟩) (dispatched (.returned (.error "refused"))) = some s := ⟨_, rfl⟩
  have hr : PoolReachable InMemoryJobStore oneWorker anyJob s := .of_exec ⟨_, rfl⟩ hx
  obtain ⟨r, hf, hn, hm⟩ : ∃ r, InMemoryStoreInner.fetch ⟨1⟩ s.desk.store = .ok (some r) ∧
      Handled anyJob r ∧ r.maxAttempts = 2 := by
    obtain rfl := Option.some.inj hx
    exact ⟨_, rfl, rfl, rfl⟩
  obtain ⟨life, hl, hp⟩ := (lifecycle_of_pool hr).1 ⟨1⟩ r hf
  rw [hm, eq_true hn] at hl
  refine ⟨s, ?_⟩
  obtain rfl := Option.some.inj hx
  exact ⟨_, rfl, life, hl, hp⟩

end WalaStack.Proof.Jobs
