import Mathlib.Algebra.Order.BigOperators.Group.List
import WalaStack.Proof.Jobs.Queues
import WalaStack.Spec.Polling

/-!
# Which jobs are reached

Each pull at a time when the job is due hands it out, or takes another one from
the queues (`pull_round`), so the pulls reach it if its queue is polled. A pull
returns a job of one of the queues that it was given (`queue_mem_of_pull`), so
they do not otherwise.
-/

namespace WalaStack.Proof.Jobs

open WalaStack.Rust WalaStack.Impl.Runtime WalaStack.Impl.Jobs WalaStack.Spec.Jobs WalaStack.Progress

namespace InMemory

variable {inner : InMemoryStoreInner} {id : JobId} {r : JobRecord} {now at_ : DateTime} {queue : String}
variable {queues : List String}

/-! ## One pull -/

theorem queue_mem_of_pull (h : Filed inner) (hr : (inner.pullNext queues now).1 = .ok (some r)) : r.queue ∈ queues := by
  rw [pullNext_eq] at hr
  obtain ⟨q, hq, hjob⟩ := Option.bind_eq_some_iff.mp (Except.ok.inj hr)
  have hfound := List.find?_some hq
  obtain ⟨r', hjob', hqueue⟩ := job_eq_some h (pick_isSome.mp hfound)
  rw [hjob] at hjob'
  cases hjob'
  rw [hqueue]
  exact List.mem_of_find?_eq_some hq

/-- The job waits in the queue, and is due from `at_` on. -/
structure Waits (queue : String) (id : JobId) (at_ : DateTime) (inner : InMemoryStoreInner) : Prop where
  filed : Filed inner
  mem : id.val ∈ inner.queues queue
  record : ∃ r, inner.records id.val = some r ∧ r.status.waiting = true ∧ r.scheduledAt ≤ at_

/-- How many ids the queues hold. -/
def held (queues : List String) (inner : InMemoryStoreInner) : Nat :=
  (queues.map fun q => (inner.queues q).length).sum

theorem held_removeAt {idx : Nat} (hq : queue ∈ queues) (hlt : idx < (inner.queues queue).length) :
    held queues (inner.removeAt queue idx) < held queues inner := by
  have hle : ∀ q, ((inner.removeAt queue idx).queues q).length ≤ (inner.queues q).length := by
    intro q
    by_cases hqq : q = queue
    · subst hqq
      simp [InMemoryStoreInner.removeAt, List.length_eraseIdx_of_lt hlt]
    · simp [InMemoryStoreInner.removeAt, hqq]
  refine List.sum_lt_sum _ _ (fun q _ => hle q) ⟨queue, hq, ?_⟩
  simp only [InMemoryStoreInner.removeAt, Function.update_self, List.length_eraseIdx_of_lt hlt]
  omega

theorem DateTime_le_trans {a b c : DateTime} (hab : a ≤ b) (hbc : b ≤ c) : a ≤ c := Int.le_trans hab hbc

theorem pull_round (h : Waits queue id at_ inner) (hq : queue ∈ queues) (hnow : at_ ≤ now) :
    PulledAt queues id now inner ∨
      Waits queue id at_ (inner.pullNext queues now).2 ∧
        held queues (inner.pullNext queues now).2 < held queues inner := by
  obtain ⟨r, hr, hw, hle⟩ := h.record
  have hready : Ready inner now queue := by
    refine ⟨id.val, h.mem, r, hr, ?_⟩
    simp [InMemoryStoreInner.eligible, hw, DateTime_le_trans hle hnow]
  have hfiled := filed_pullNext h.filed queues now
  rcases pullFrom_cases now queues inner with he | ⟨queue', id', idx, r', hget, hr', -, he⟩
  · -- The queue is ready, so it is not passed over.
    have hnone : (inner.pullNext queues now).1 = .ok none := by rw [InMemoryStoreInner.pullNext, he]
    rw [pullNext_eq, Except.ok.injEq, Option.bind_eq_none_iff] at hnone
    have hsome : (queues.find? fun q => (inner.pick now q).isSome).isSome = true :=
      List.find?_isSome.mpr ⟨queue, hq, pick_isSome.mpr hready⟩
    obtain ⟨q, hfind⟩ := Option.isSome_iff_exists.mp hsome
    have hfound := List.find?_some hfind
    obtain ⟨rec, hrec, -⟩ := job_eq_some h.filed (pick_isSome.mp hfound)
    rw [hnone q hfind] at hrec
    cases hrec
  · have hpull : inner.pullNext queues now = (.ok (some (InMemoryStoreInner.handOut r')),
        (inner.removeAt queue' idx).insert id' (InMemoryStoreInner.handOut r')) := by
      rw [InMemoryStoreInner.pullNext, he]
    rw [hpull] at hfiled ⊢
    by_cases hid : id' = id.val
    · refine .inl ⟨InMemoryStoreInner.handOut r', by rw [hpull], ?_⟩
      have hval := h.filed.ids id' r' hr'
      rw [hid] at hval
      exact congrArg JobId.mk hval
    · obtain ⟨hlt, -⟩ := List.getElem?_eq_some_iff.mp hget
      obtain ⟨r'', hr'', hqueue⟩ := h.filed.queue queue' id' (List.mem_of_getElem? hget)
      rw [hr'] at hr''
      cases hr''
      have hq' : queue' ∈ queues := by
        have hm := queue_mem_of_pull h.filed (congrArg Prod.fst hpull)
        rwa [← hqueue]
      have hcount := count_removeAt hget queue id.val
      simp only [hid, and_false, ite_false, Nat.add_zero] at hcount
      refine .inr ⟨⟨hfiled, ?_, r, ?_, hw, hle⟩, held_removeAt hq' hlt⟩
      · show id.val ∈ (inner.removeAt queue' idx).queues queue
        rw [← List.count_pos_iff, hcount, List.count_pos_iff]
        exact h.mem
      · exact (records_insert_of_ne _ _ (Ne.symm hid)).trans hr

/-! ## Records keep their queue -/

/-- The record of the job is of this queue. -/
structure Kept (queue : String) (id : JobId) (inner : InMemoryStoreInner) : Prop where
  filed : Filed inner
  record : ∃ r, inner.records id.val = some r ∧ r.queue = queue

theorem kept_pullNext (h : Kept queue id inner) : Kept queue id (inner.pullNext queues now).2 := by
  obtain ⟨r, hr, hqueue⟩ := h.record
  refine ⟨filed_pullNext h.filed queues now, ?_⟩
  show ∃ r, (inner.pullFrom now queues).2.records id.val = some r ∧ r.queue = queue
  rcases pullFrom_cases now queues inner with he | ⟨queue', id', idx, r', -, hr', -, he⟩ <;> rw [he]
  · exact ⟨r, hr, hqueue⟩
  · by_cases hid : id.val = id'
    · rw [← hid, hr] at hr'
      cases hr'
      exact ⟨InMemoryStoreInner.handOut r, by rw [← hid]; exact records_insert_self .., hqueue⟩
    · exact ⟨r, (records_insert_of_ne _ _ hid).trans hr, hqueue⟩

theorem not_pulledAt (h : Kept queue id inner) (hq : queue ∉ queues) : ¬ PulledAt queues id now inner := by
  intro hp
  obtain ⟨rec, hrec, hid⟩ := hp
  obtain ⟨r, hr, hqueue⟩ := h.record
  have hmem := queue_mem_of_pull h.filed hrec
  rcases pullFrom_cases now queues inner with he | ⟨queue', id', idx, r', -, hr', -, he⟩
  · rw [InMemoryStoreInner.pullNext, he] at hrec
    cases hrec
  · rw [InMemoryStoreInner.pullNext, he] at hrec
    cases hrec
    have hval : id.val = id' := by
      rw [← hid]
      exact h.filed.ids id' r' hr'
    rw [← hval, hr] at hr'
    cases hr'
    exact hq (hqueue ▸ hmem)

/-! ## A job just enqueued -/

theorem waits_enqueue (h : Filed inner) (job : NewJob) (now : DateTime) :
    Waits job.queue ⟨inner.nextId + 1⟩ job.scheduledAt (inner.enqueue job now).2 where
  filed := filed_enqueue h job now
  mem := mem_pushBack.mpr (.inr ⟨rfl, rfl⟩)
  record := ⟨_, records_insert_self .., rfl, Int.le_refl _⟩

theorem kept_enqueue (h : Filed inner) (job : NewJob) (now : DateTime) :
    Kept job.queue ⟨inner.nextId + 1⟩ (inner.enqueue job now).2 :=
  ⟨filed_enqueue h job now, _, records_insert_self .., rfl⟩

theorem reached_iff (hw : Waits queue id at_ inner) (hk : Kept queue id inner) :
    Reached queues id at_ inner ↔ queue ∈ queues := by
  constructor
  · intro hreached
    by_contra hq
    obtain ⟨n, hn⟩ := hreached (fun _ => at_) fun _ => Int.le_refl _
    exact not_pulledAt (before_invariant (fun hs => kept_pullNext hs) hk _ n) hq hn
  · intro hq clock hclock
    have hround : ∀ {now : DateTime} {inner : InMemoryStoreInner}, Waits queue id at_ inner → at_ ≤ now →
        PulledAt queues id now inner ∨ Waits queue id at_ (inner.pullNext queues now).2 ∧
          held queues (inner.pullNext queues now).2 < held queues inner :=
      fun hs hnow => pull_round hs hq hnow
    exact exists_met hround hw hclock

end InMemory

/-- A job that `jobs::enqueue` accepts, with a store in any state, is returned
by finitely many pulls of the configured queues exactly if the queue of its
type, or else the default queue, is one of these. -/
theorem accepted_reached_iff {inner inner' : InMemoryStoreInner} {config : JobsConfig} {metadata : JobMetadata}
    {name : JobName} {payload : Except String Json.Value} {now storeNow : DateTime} {events events' : List JobEvent}
    {id : JobId} (hs : CallReachable inner)
    (h : enqueue (S := InMemoryJobStore) ⟨some inner, some config, events⟩ metadata name payload now storeNow () =
      (.ok id, ⟨some inner', some config, events'⟩)) :
    Reached config.queues id now inner' ↔ Polled config metadata := by
  have hf := InMemory.filed_of_callReachable hs
  cases payload with
  | error e => cases h
  | ok payload =>
    let job := stage config metadata name payload now
    cases h
    exact InMemory.reached_iff (InMemory.waits_enqueue hf job storeNow) (InMemory.kept_enqueue hf job storeNow)

/-! ## A list of queues without the default one -/

/-- `JobsConfig::default().with_queues(["emails"])` -/
def emailsConfig : JobsConfig := JobsConfig.default.withQueues ["emails"]

/-- A job type that sets nothing. -/
def plainMetadata : JobMetadata := ⟨none, none, none, none⟩

def plainMail (config : JobsConfig) : NewJob := stage config plainMetadata ⟨"mail"⟩ .null DateTime.epoch

def jobsApp (config : JobsConfig) : RuntimeBuilder Unit (fun _ => InMemoryStoreInner) String :=
  RuntimeBuilder.new.withDefaultCapability () .empty
    |>.withPlugin (JobsPlugin.plugin config (fun _ => "dyn JobStore") ())

/-- Its jobs are staged in `default`, and the workers poll `emails`. -/
theorem default_queue_not_polled :
    ¬ ∀ (config : JobsConfig), (∃ rt, (jobsApp config).build = .ok rt) →
      ∀ inner inner' events events' metadata name payload now storeNow id, CallReachable inner →
        enqueue (S := InMemoryJobStore) ⟨some inner, some config, events⟩ metadata name payload now storeNow () =
          (.ok id, ⟨some inner', some config, events'⟩) →
        Reached config.queues id now inner' := by
  intro h
  have hreached := h emailsConfig ⟨_, rfl⟩ .empty _ [] _ plainMetadata ⟨"mail"⟩ (.ok .null) DateTime.epoch
    DateTime.epoch _ (.init rfl) rfl
  have hwaits := InMemory.waits_enqueue InMemory.filed_empty (plainMail emailsConfig) DateTime.epoch
  have hkept := InMemory.kept_enqueue InMemory.filed_empty (plainMail emailsConfig) DateTime.epoch
  exact absurd ((InMemory.reached_iff hwaits hkept).mp hreached) (by decide)

/-- Under the default configuration it comes out of the store. -/
theorem default_queue_reached :
    Reached JobsConfig.default.queues ⟨1⟩ DateTime.epoch
      (InMemoryStoreInner.empty.enqueue (plainMail JobsConfig.default) DateTime.epoch).2 := by
  have hcall : enqueue (S := InMemoryJobStore) ⟨some .empty, some JobsConfig.default, []⟩ plainMetadata ⟨"mail"⟩
      (.ok .null) DateTime.epoch DateTime.epoch () = (.ok ⟨1⟩, ⟨some _, some _, _⟩) := rfl
  exact (accepted_reached_iff (.init rfl) hcall).mpr (List.mem_singleton.mpr rfl)

end WalaStack.Proof.Jobs
