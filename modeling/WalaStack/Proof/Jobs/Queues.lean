import WalaStack.Proof.Jobs.InMemory
import WalaStack.Impl.Jobs.Sqlite

/-!
# The order of the queue names

`Filed`: an id is queued under its record's queue, whatever is marked. So a
pull returns the job of the first queue in the list that has one
(`pullNext_eq`), and the order of the list decides unless only one has
(`order_free_iff`). SQLite takes the list as a set (`pullNext_perm`).
-/

namespace WalaStack.Proof.Jobs

open WalaStack.Rust WalaStack.Impl.Jobs WalaStack.Spec.Jobs WalaStack.Transition

namespace InMemory

variable {inner : InMemoryStoreInner} {id : Nat} {r : JobRecord} {now : DateTime} {queue : String}

/-! ## The queues of the records -/

/-- What holds of a store whatever its callers mark. -/
structure Filed (inner : InMemoryStoreInner) : Prop where
  queue : ∀ queue, ∀ id ∈ inner.queues queue, ∃ r, inner.records id = some r ∧ r.queue = queue
  fresh : ∀ id, inner.nextId < id → inner.records id = none
  ids : ∀ id r, inner.records id = some r → r.id.val = id

theorem filed_empty : Filed .empty :=
  ⟨fun _ _ h => absurd h List.not_mem_nil, fun _ _ => rfl, fun _ _ h => by cases h⟩

/-- A record inserted under its id, which it replaces or which is new. -/
theorem Filed.insert (h : Filed inner) (hle : id ≤ inner.nextId) (hid : r.id.val = id)
    (hq : ∀ r₀, inner.records id = some r₀ → r.queue = r₀.queue) : Filed (inner.insert id r) := by
  refine ⟨fun queue id' hm => ?_, fun id' hlt => ?_, fun id' r₁ h₁ => ?_⟩
  · obtain ⟨r₁, h₁, hq₁⟩ := h.queue queue id' hm
    by_cases hi : id' = id
    · subst hi
      exact ⟨r, records_insert_self .., (hq r₁ h₁).trans hq₁⟩
    · exact ⟨r₁, (records_insert_of_ne _ _ hi).trans h₁, hq₁⟩
  · have hi : id' ≠ id := Nat.ne_of_gt (Nat.lt_of_le_of_lt hle hlt)
    exact (records_insert_of_ne _ _ hi).trans (h.fresh id' hlt)
  · by_cases hi : id' = id
    · subst hi
      obtain rfl := Option.some.inj ((records_insert_self ..).symm.trans h₁)
      exact hid
    · exact h.ids id' r₁ ((records_insert_of_ne _ _ hi).symm.trans h₁)

/-- A record replaced by one of its own id and queue. -/
theorem Filed.replace {r' : JobRecord} (h : Filed inner) (hr : inner.records id = some r) (hid : r'.id = r.id)
    (hq : r'.queue = r.queue) : Filed (inner.insert id r') := by
  refine h.insert ?_ (hid ▸ h.ids id r hr) fun r₀ h₀ => ?_
  · by_contra hlt
    cases (h.fresh id (Nat.lt_of_not_le hlt)).symm.trans hr
  · rw [hq, Option.some.inj (hr.symm.trans h₀)]

theorem Filed.pushBack (h : Filed inner) (hr : inner.records id = some r) (hq : r.queue = queue) :
    Filed (inner.pushBack queue id) := by
  refine ⟨fun queue' id' hm => ?_, h.fresh, h.ids⟩
  rcases mem_pushBack.mp hm with hm | ⟨rfl, rfl⟩
  · exact h.queue queue' id' hm
  · exact ⟨r, hr, hq⟩

theorem Filed.removeAt (h : Filed inner) (queue : String) (idx : Nat) : Filed (inner.removeAt queue idx) :=
  ⟨fun queue' id' hm => h.queue queue' id' (mem_of_mem_removeAt hm), h.fresh, h.ids⟩

theorem filed_enqueue (h : Filed inner) (job : NewJob) (now : DateTime) : Filed (inner.enqueue job now).2 := by
  have hnone : inner.records (inner.nextId + 1) = none := h.fresh _ (Nat.lt_succ_self _)
  have hnext : Filed { inner with nextId := inner.nextId + 1 } :=
    ⟨h.queue, fun id hlt => h.fresh id (Nat.lt_of_succ_lt hlt), h.ids⟩
  have hins := hnext.insert (r := InMemoryStoreInner.newRecord (inner.nextId + 1) job now) (Nat.le_refl _) rfl
    fun r₀ h₀ => by cases hnone.symm.trans h₀
  exact hins.pushBack (records_insert_self ..) rfl

theorem filed_pullNext (h : Filed inner) (queues : List String) (now : DateTime) :
    Filed (inner.pullNext queues now).2 := by
  show Filed (inner.pullFrom now queues).2
  rcases pullFrom_cases now queues inner with he | ⟨queue, id, idx, r, hget, hr, hel, he⟩ <;> rw [he]
  · exact h
  · exact (h.removeAt queue idx).replace hr rfl rfl

theorem filed_markCompleted (h : Filed inner) (id : JobId) : Filed (inner.markCompleted id).2 := by
  unfold InMemoryStoreInner.markCompleted
  split
  · rename_i r hr
    exact h.replace hr rfl rfl
  · exact h

theorem filed_markFailed (h : Filed inner) (id : JobId) (error : String) (next : Option DateTime) :
    Filed (inner.markFailed id error next).2 := by
  unfold InMemoryStoreInner.markFailed
  split
  · exact h
  · rename_i r hr
    split
    · exact h.replace hr rfl rfl
    · rename_i at_
      let r' : JobRecord := { r with status := .retrying, scheduledAt := at_ }
      have hins := h.replace hr (rfl : r'.id = r.id) (rfl : r'.queue = r.queue)
      exact hins.pushBack (records_insert_self ..) rfl

theorem filed_of_callReachable (h : CallReachable inner) : Filed inner := by
  refine h.invariant_from filed_empty fun {inner call inner'} hi _ hs => ?_
  cases call <;> cases hs
  case enqueue job now => exact filed_enqueue hi job now
  case pullNext queues now => exact filed_pullNext hi queues now
  case markCompleted id => exact filed_markCompleted hi id
  case markFailed id error next => exact filed_markFailed hi id error next

/-! ## The queue that is pulled from -/

theorem ready_of_pick {p : Nat × Nat} (h : inner.pick now queue = some p) : Ready inner now queue := by
  obtain ⟨hget, r, hr, he⟩ := pick_eq_some (show inner.pick now queue = some (p.1, p.2) from h)
  exact ⟨p.1, List.mem_of_getElem? hget, r, hr, he⟩

theorem pick_isSome : (inner.pick now queue).isSome = true ↔ Ready inner now queue := by
  constructor
  · intro h
    obtain ⟨p, hp⟩ := Option.isSome_iff_exists.mp h
    exact ready_of_pick hp
  · rintro ⟨id, hm, r, hr, he⟩
    obtain ⟨idx, hget⟩ := List.getElem?_of_mem hm
    refine List.find?_isSome.mpr ⟨(id, idx), List.mem_zipIdx_iff_getElem?.mpr hget, ?_⟩
    exact (Option.any_eq_true _ _).mpr ⟨r, hr, he⟩

/-- The job that a queue hands out. -/
def job (inner : InMemoryStoreInner) (now : DateTime) (queue : String) : Option JobRecord :=
  (inner.pick now queue).bind fun p => (inner.records p.1).map InMemoryStoreInner.handOut

theorem job_eq_some (h : Filed inner) (hr : Ready inner now queue) :
    ∃ r, job inner now queue = some r ∧ r.queue = queue := by
  obtain ⟨p, hp⟩ := Option.isSome_iff_exists.mp (pick_isSome.mpr hr)
  obtain ⟨hget, r, hrec, -⟩ := pick_eq_some (show inner.pick now queue = some (p.1, p.2) from hp)
  obtain ⟨r', hrec', hq⟩ := h.queue queue p.1 (List.mem_of_getElem? hget)
  obtain rfl := Option.some.inj (hrec.symm.trans hrec')
  exact ⟨InMemoryStoreInner.handOut r, by rw [job, hp, Option.bind_some, hrec, Option.map_some], hq⟩

/-- A pull returns the job of the first queue that has one. -/
theorem pullNext_eq (queues : List String) :
    (inner.pullNext queues now).1 =
      .ok ((queues.find? fun q => (inner.pick now q).isSome).bind (job inner now)) := by
  show Except.ok (inner.pullFrom now queues).1 = _
  congr 1
  induction queues with
  | nil => rfl
  | cons queue queues ih =>
    cases hp : inner.pick now queue with
    | none => simpa [InMemoryStoreInner.pullFrom, hp] using ih
    | some p =>
      obtain ⟨-, r, hr, -⟩ := pick_eq_some (show inner.pick now queue = some (p.1, p.2) from hp)
      simp [InMemoryStoreInner.pullFrom, hp, hr, job]

theorem pullNext_cons (hr : Ready inner now queue) (queues : List String) :
    (inner.pullNext (queue :: queues) now).1 = .ok (job inner now queue) := by
  simp only [pullNext_eq, List.find?_cons, pick_isSome.mpr hr, Option.bind_some]

/-- Lists of the same queues lead to the same one, if only one is ready. -/
theorem find_perm {queues queues' : List String} (hp : queues'.Perm queues) (h1 : OneReady inner now queues) :
    (queues'.find? fun q => (inner.pick now q).isSome) = queues.find? fun q => (inner.pick now q).isSome := by
  cases hq : queues.find? fun q => (inner.pick now q).isSome with
  | none =>
    rw [List.find?_eq_none] at hq ⊢
    exact fun q hm => hq q (hp.mem_iff.mp hm)
  | some q =>
    obtain ⟨hm, hr⟩ := And.intro (List.mem_of_find?_eq_some hq) (List.find?_some hq)
    have hsome : (queues'.find? fun q => (inner.pick now q).isSome).isSome = true :=
      List.find?_isSome.mpr ⟨q, hp.mem_iff.mpr hm, hr⟩
    obtain ⟨q', hq'⟩ := Option.isSome_iff_exists.mp hsome
    rw [hq']
    have hr' := List.find?_some hq'
    exact congrArg some (h1 q' (hp.mem_iff.mp (List.mem_of_find?_eq_some hq')) q hm (pick_isSome.mp hr')
      (pick_isSome.mp hr))

theorem orderFree_iff (h : Filed inner) (now : DateTime) (queues : List String) :
    OrderFree (fun queues => (inner.pullNext queues now).1) queues ↔ OneReady inner now queues := by
  constructor
  · intro ho q hq q' hq' hr hr'
    -- Either queue may stand at the head of the list.
    have hhead : ∀ {q}, q ∈ queues → Ready inner now q → (inner.pullNext queues now).1 = .ok (job inner now q) :=
      fun {q} hm hr => (ho (q :: queues.erase q) (List.perm_cons_erase hm).symm).symm.trans (pullNext_cons hr _)
    obtain ⟨r, hj, rfl⟩ := job_eq_some h hr
    obtain ⟨r', hj', rfl⟩ := job_eq_some h hr'
    have hsame := Except.ok.inj ((hhead hq hr).symm.trans (hhead hq' hr'))
    rw [Option.some.inj (hj.symm.trans (hsame.trans hj'))]
  · intro h1 queues' hp
    show (inner.pullNext queues' now).1 = (inner.pullNext queues now).1
    rw [pullNext_eq, pullNext_eq, find_perm hp h1]

end InMemory

/-! ## Both providers -/

/-- SQLite's `IN` takes the queue names as a set. -/
theorem pullNext_perm (codec : Codec) (now : DateTime) (fault : Option String) (t : SqliteTable)
    {queues queues' : List String} (hp : queues'.Perm queues) :
    SqliteTable.pullNext codec queues' now fault t = SqliteTable.pullNext codec queues now fault t := by
  have hmatch : SqliteTable.matchesPull queues' = SqliteTable.matchesPull queues := by
    funext nowIso row
    have hc : queues'.contains row.queue = queues.contains row.queue := by
      rw [Bool.eq_iff_iff, List.contains_iff_mem, List.contains_iff_mem, hp.mem_iff]
    rw [SqliteTable.matchesPull, SqliteTable.matchesPull, hc]
  have hempty : queues'.isEmpty = queues.isEmpty := by
    rw [Bool.eq_iff_iff, List.isEmpty_iff, List.isEmpty_iff]
    exact ⟨fun h => (h ▸ hp).nil_eq.symm, fun h => (h ▸ hp).eq_nil⟩
  unfold SqliteTable.pullNext SqliteTable.pick
  rw [hempty, hmatch]

/-- What a pull returns does not depend on the order of the queue names, in
memory exactly if at most one of the queues has a job to hand out, and in
SQLite always. -/
theorem order_free_iff (now : DateTime) (queues : List String) :
    (∀ inner, CallReachable inner →
      (OrderFree (fun queues => (inner.pullNext queues now).1) queues ↔ OneReady inner now queues)) ∧
    ∀ (codec : Codec) (t : SqliteTable) (fault : Option String),
      OrderFree (fun queues => (SqliteTable.pullNext codec queues now fault t).1) queues := by
  constructor
  · intro inner h
    exact InMemory.orderFree_iff (InMemory.filed_of_callReachable h) now queues
  · intro codec t fault queues' hp
    exact congrArg Prod.fst (pullNext_perm codec now fault t hp)

/-! ## Two queues -/

def letter (queue : String) : NewJob := ⟨⟨"letter"⟩, .null, queue, 1, DateTime.epoch⟩

/-- A store after one job was enqueued to each of the queues. -/
def enqueued (queues : List String) : InMemoryStoreInner :=
  queues.foldl (fun inner queue => (inner.enqueue (letter queue) DateTime.epoch).2) .empty

theorem callReachable_enqueued (queues : List String) : CallReachable (enqueued queues) := by
  have hstep : ∀ (queues : List String) {inner : InMemoryStoreInner}, CallReachable inner →
      CallReachable (queues.foldl (fun inner queue => (inner.enqueue (letter queue) DateTime.epoch).2) inner) := by
    intro queues
    induction queues with
    | nil => exact fun h => h
    | cons queue queues ih =>
      exact fun h => ih (h.step (a := StoreCall.enqueue (letter queue) DateTime.epoch) trivial rfl)
  exact hstep queues (.init rfl)

/-- One of two queues has a job. -/
theorem order_free_mail :
    OrderFree (fun queues => ((enqueued ["mail"]).pullNext queues DateTime.epoch).1) ["mail", "news"] := by
  refine ((order_free_iff _ _).1 _ (callReachable_enqueued _)).mpr ?_
  have hnews : ¬ Ready (enqueued ["mail"]) DateTime.epoch "news" := by
    rintro ⟨id, hm, -⟩
    cases hm
  intro q hq q' hq' hr hr'
  simp only [List.mem_cons, List.not_mem_nil, or_false] at hq hq'
  rcases hq with rfl | rfl
  · rcases hq' with rfl | rfl
    · rfl
    · exact absurd hr' hnews
  · exact absurd hr hnews

/-- The first of two queues with a job each comes first. -/
theorem not_order_free :
    ¬ ((∀ inner, CallReachable inner → ∀ (now : DateTime) (queues : List String),
        OrderFree (fun queues => (inner.pullNext queues now).1) queues) ∧
      ∀ (codec : Codec) (t : SqliteTable) (now : DateTime) (fault : Option String) (queues : List String),
        OrderFree (fun queues => (SqliteTable.pullNext codec queues now fault t).1) queues) := by
  rintro ⟨h, -⟩
  have hsame := h _ (callReachable_enqueued ["mail", "news"]) DateTime.epoch ["mail", "news"] ["news", "mail"]
    (.swap _ _ _)
  have hid := congrArg (fun result => result.toOption.join.map fun r => r.id.val) hsame
  exact absurd hid (by decide)

end WalaStack.Proof.Jobs
