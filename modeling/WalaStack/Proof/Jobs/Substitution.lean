import Mathlib.Data.String.Basic
import WalaStack.Proof.Jobs.Queues
import WalaStack.Proof.Jobs.Sqlite
import WalaStack.Spec.Substitution

/-!
# When the providers agree

`Paired` ties the table to the records of the in-memory store, row by row. The
two stores then choose among the same jobs (`matches_iff`); the table takes the
earliest of them (`pick_least`), the queue the one that stands first.
`sameAnswer_iff` compares the answers of one call, and `same_answers_iff` those
of a whole run.
-/

namespace WalaStack.Proof.Jobs

open WalaStack.Rust WalaStack.Impl.Jobs WalaStack.Spec.Jobs WalaStack.Transition

namespace Substitution

variable {codec : Codec} {p p' : Stores} {r r' : JobRecord} {row row' : SqliteJobRow} {now : DateTime}
  {queue : String} {id : Nat}

/-! ## Rows -/

/-- The text of a status. -/
def statusText : JobStatus → String
  | .pending => "Pending"
  | .running => "Running"
  | .completed => "Completed"
  | .retrying => "Retrying"
  | .dead => "Dead"

theorem parseStatus_statusText (codec : Codec) (status : JobStatus) :
    parseStatus codec (statusText status) = .ok status := by
  cases status <;> rfl

theorem waiting_statusText (status : JobStatus) :
    (statusText status == "Pending" || statusText status == "Retrying") = status.waiting := by
  cases status <;> decide

/-- The row of a record. -/
structure RowOf (codec : Codec) (r : JobRecord) (row : SqliteJobRow) : Prop where
  id : row.id = r.id.val
  payload : codec.toString r.payload = .ok row.payload
  queue : row.queue = r.queue
  attempt : row.attempt = r.attempt.val
  status : row.status = statusText r.status
  enqueued : r.enqueuedAt.InYears ∧ row.enqueuedAt = r.enqueuedAt.toRfc3339
  scheduled : r.scheduledAt.InYears ∧ row.scheduledAt = r.scheduledAt.toRfc3339

/-- The attempt of a record is far from the end of the column. -/
theorem RowOf.succAttempt (h : RowOf codec r row) :
    SqliteTable.succAttempt row.attempt = (r.attempt.val + 1 : Nat) := by
  have hmax := r.attempt.le_max
  have hi : u32Max ≤ i64Max := by decide
  rw [SqliteTable.succAttempt, h.attempt]
  omega

theorem RowOf.attempt_le (h : RowOf codec r row) : row.attempt ≤ i64Max := by
  have hmax := r.attempt.le_max
  have hi : u32Max ≤ i64Max := by decide
  rw [h.attempt]
  omega

theorem parseTs_toRfc3339 (hc : PrintsRfc3339 codec) {t : DateTime} (ht : t.InYears) :
    ∃ u, parseTs codec t.toRfc3339 = .ok u := by
  obtain ⟨u, hu⟩ := hc.parses t ht
  exact ⟨u, by rw [parseTs, hu]; rfl⟩

/-- A row with readable columns decodes exactly if its payload does. -/
theorem intoRecord_of_columns {status : JobStatus} {u v : DateTime} (ha : row.attempt ≤ i64Max)
    (hs : parseStatus codec row.status = .ok status)
    (hu : parseTs codec row.enqueuedAt = .ok u) (hv : parseTs codec row.scheduledAt = .ok v) :
    (∃ e w, codec.fromStr row.payload = .error e ∧ row.intoRecord codec = .error w) ∨
    ∃ payload rec, codec.fromStr row.payload = .ok payload ∧ row.intoRecord codec = .ok rec ∧
      rec.id = idOfI64 row.id ∧ rec.attempt = U32.ofI64 row.attempt ∧ rec.status = status := by
  have hf : row.fromRow = .ok () := if_pos ha
  cases hp : codec.fromStr row.payload with
  | error e =>
    refine .inl ⟨e, .serialization e, rfl, ?_⟩
    simp only [SqliteJobRow.intoRecord, hf, hp]
    rfl
  | ok payload =>
    refine .inr ⟨payload, ⟨idOfI64 row.id, ⟨row.name⟩, payload, row.queue, U32.ofI64 row.attempt,
      U32.ofI64 row.maxAttempts, status, u, v⟩, rfl, ?_, rfl, rfl, rfl⟩
    simp only [SqliteJobRow.intoRecord, hf, hp, hs, hu, hv]
    rfl

/-! ### The order of the rows -/

theorem before_eq_false {a b : SqliteJobRow} : SqliteTable.before a b = false ↔
    b.scheduledAt < a.scheduledAt ∨ b.scheduledAt = a.scheduledAt ∧ b.id ≤ a.id := by
  simp only [SqliteTable.before, Bool.or_eq_false_iff, decide_eq_false_iff_not, Bool.and_eq_false_iff,
    beq_eq_false_iff_ne, ne_eq, not_lt]
  constructor
  · rintro ⟨hle, h⟩
    rcases lt_or_eq_of_le hle with hlt | heq
    · exact .inl hlt
    · exact .inr ⟨heq, h.resolve_left fun hne => hne heq.symm⟩
  · rintro (hlt | ⟨heq, hid⟩)
    · exact ⟨hlt.le, .inl hlt.ne'⟩
    · exact ⟨heq.le, .inr hid⟩

theorem not_before_of_before {a b : SqliteJobRow} (h : SqliteTable.before a b = true) :
    SqliteTable.before b a = false := by
  simp only [SqliteTable.before, Bool.or_eq_true, decide_eq_true_eq, Bool.and_eq_true, beq_iff_eq] at h
  rw [before_eq_false]
  exact h.imp_right fun h => ⟨h.1, h.2.le⟩

theorem not_before_self (a : SqliteJobRow) : SqliteTable.before a a = false :=
  before_eq_false.mpr (.inr ⟨rfl, le_refl _⟩)

theorem not_before_trans {a b c : SqliteJobRow} (hab : SqliteTable.before b a = false)
    (hbc : SqliteTable.before c b = false) : SqliteTable.before c a = false := by
  rw [before_eq_false] at hab hbc ⊢
  rcases hab with hab | ⟨hab, hid⟩
  · rcases hbc with hbc | ⟨hbc, -⟩
    · exact .inl (hab.trans hbc)
    · exact .inl (hbc ▸ hab)
  · rcases hbc with hbc | ⟨hbc, hid'⟩
    · exact .inl (hab ▸ hbc)
    · exact .inr ⟨hab.trans hbc, hid.trans hid'⟩

/-- There is a first row, unless there is none. -/
theorem first_isSome {rows : List SqliteJobRow} : (SqliteTable.first rows).isSome = true ↔ rows ≠ [] := by
  cases rows with
  | nil => simp [SqliteTable.first]
  | cons row rows =>
    simp only [SqliteTable.first]
    split
    · simp
    · split <;> simp

/-- No row comes before the first one. -/
theorem not_before_first {rows : List SqliteJobRow} (h : SqliteTable.first rows = some row) :
    ∀ row' ∈ rows, SqliteTable.before row' row = false := by
  induction rows generalizing row with
  | nil => cases h
  | cons row₀ rows ih =>
    simp only [SqliteTable.first] at h
    intro row' hm
    split at h
    · rename_i hnone
      obtain rfl := Option.some.inj h
      have hnil : rows = [] := by
        by_contra hne
        have hsome := first_isSome.mpr hne
        rw [hnone] at hsome
        cases hsome
      rw [hnil, List.mem_singleton] at hm
      rw [hm]
      exact not_before_self _
    · rename_i row₁ h₁
      split at h
      · rename_i hb
        obtain rfl := Option.some.inj h
        rcases List.mem_cons.mp hm with rfl | hm
        · exact not_before_of_before hb
        · exact ih h₁ row' hm
      · rename_i hb
        obtain rfl := Option.some.inj h
        rcases List.mem_cons.mp hm with rfl | hm
        · exact not_before_self _
        · exact not_before_trans (Bool.not_eq_true _ ▸ hb) (ih h₁ row' hm)

/-! ## The relation -/

/-- The table holds the records of the in-memory store, whose queues hold every
job that waits. -/
structure Paired (codec : Codec) (p : Stores) : Prop where
  filed : InMemory.Filed p.mem
  queued : ∀ id r, p.mem.records id = some r → r.status.waiting = true → id ∈ p.mem.queues r.queue
  sequence : p.sql.sequence = p.mem.nextId
  bound : p.mem.nextId ≤ i64Max
  rows : ∀ row ∈ p.sql.rows, ∃ r, p.mem.records r.id.val = some r ∧ RowOf codec r row
  recorded : ∀ id r, p.mem.records id = some r → ∃ row ∈ p.sql.rows, RowOf codec r row

theorem paired_new (codec : Codec) : Paired codec .new where
  filed := InMemory.filed_empty
  queued _ _ h := by cases h
  sequence := rfl
  bound := Nat.zero_le _
  rows _ h := by cases h
  recorded _ _ h := by cases h

theorem Paired.le_bound (h : Paired codec p) (hr : p.mem.records id = some r) : id ≤ i64Max := by
  refine Nat.le_trans ?_ h.bound
  by_contra hlt
  rw [h.filed.fresh id (Nat.lt_of_not_le hlt)] at hr
  cases hr

/-- An id that fits names the row of its record, and no other. -/
theorem idToI64_eq_iff {a b : Nat} (ha : a ≤ u64Max) (hb : b ≤ i64Max) : (b : Int) = idToI64 ⟨a⟩ ↔ a = b := by
  show (b : Int) = (if a ≤ i64Max then (a : Int) else a - 2 ^ 64) ↔ a = b
  have hi : i64Max = 9223372036854775807 := rfl
  have hu : u64Max = 18446744073709551615 := rfl
  split <;> omega

/-! ## Due jobs -/

/-- A record of the queue that may be handed out. -/
structure Due (inner : InMemoryStoreInner) (now : DateTime) (queue : String) (r : JobRecord) : Prop where
  mem : r.id.val ∈ inner.queues queue
  record : inner.records r.id.val = some r
  eligible : InMemoryStoreInner.eligible now r = true

/-- The record that the queue hands out is that of the job that stands first. -/
theorem firstDue_iff {inner : InMemoryStoreInner} :
    FirstDue inner now queue r ↔ ∃ id idx, inner.pick now queue = some (id, idx) ∧ inner.records id = some r := by
  constructor
  · rintro ⟨pre, id, post, hq, hr, he, hpre⟩
    refine ⟨id, pre.length, List.find?_eq_some_iff_append.mpr ⟨?_, pre.zipIdx, post.zipIdx (pre.length + 1), ?_, ?_⟩, hr⟩
    · simp [hr, he]
    · rw [hq, List.zipIdx_append, List.zipIdx_cons, Nat.zero_add]
    · rintro ⟨x, n⟩ hx
      have hx := hpre x (List.mem_of_getElem? (List.mem_zipIdx_iff_getElem?.mp hx))
      cases hrec : inner.records x with
      | none => rfl
      | some r' => simp [hx r' hrec]
  · rintro ⟨id, idx, hp, hr⟩
    obtain ⟨hany, as, bs, hz, has⟩ := List.find?_eq_some_iff_append.mp hp
    have hmap := congrArg (List.map Prod.fst) hz
    rw [List.zipIdx_map_fst, List.map_append, List.map_cons] at hmap
    refine ⟨as.map Prod.fst, id, bs.map Prod.fst, hmap, hr, by simpa [hr] using hany, fun x hx r' hr' => ?_⟩
    obtain ⟨⟨y, n⟩, hy, rfl⟩ := List.mem_map.mp hx
    have hno := has (y, n) hy
    simpa [hr'] using hno

theorem FirstDue.due {inner : InMemoryStoreInner} (hf : InMemory.Filed inner) (h : FirstDue inner now queue r) :
    Due inner now queue r := by
  obtain ⟨pre, id, post, hq, hr, he, -⟩ := h
  have hid := hf.ids id r hr
  refine ⟨?_, by rw [hid, hr], he⟩
  rw [hid, hq]
  exact List.mem_append_right _ List.mem_cons_self

theorem Due.queue_eq {inner : InMemoryStoreInner} (hf : InMemory.Filed inner) (h : Due inner now queue r) :
    r.queue = queue := by
  obtain ⟨r', hr', hq⟩ := hf.queue queue r.id.val h.mem
  rw [h.record, Option.some.injEq] at hr'
  exact hr' ▸ hq

/-- The statement selects the rows of the due jobs. -/
theorem matches_iff (hc : PrintsRfc3339 codec) (hnow : now.InYears) (hrow : RowOf codec r row) :
    SqliteTable.matchesPull [queue] (codec.toRfc3339 now) row = true ↔
      r.queue = queue ∧ InMemoryStoreInner.eligible now r = true := by
  simp only [SqliteTable.matchesPull, InMemoryStoreInner.eligible, Bool.and_eq_true, decide_eq_true_eq,
    hrow.status, waiting_statusText, hrow.queue, hrow.scheduled.2, hc.text now hnow,
    DateTime.toRfc3339_le_iff hrow.scheduled.1 hnow, List.contains_cons, List.contains_nil, Bool.or_false,
    beq_iff_eq, and_assoc]

/-- Rows come in the order of their jobs' times and ids. -/
theorem notAfter_iff (hrow : RowOf codec r row) (hrow' : RowOf codec r' row') :
    SqliteTable.before row' row = false ↔ NotAfter r r' := by
  rw [before_eq_false, hrow.scheduled.2, hrow'.scheduled.2, hrow.id, hrow'.id, Int.ofNat_le,
    DateTime.toRfc3339_lt_iff hrow.scheduled.1 hrow'.scheduled.1]
  refine or_congr_right (and_congr_left fun _ => ⟨?_, fun h => by rw [h]⟩)
  exact DateTime.toRfc3339_inj hrow.scheduled.1 hrow'.scheduled.1

theorem due_of_row (h : Paired codec p) (hc : PrintsRfc3339 codec) (hnow : now.InYears) (hm : row ∈ p.sql.rows)
    (hmatch : SqliteTable.matchesPull [queue] (codec.toRfc3339 now) row = true) :
    ∃ r, Due p.mem now queue r ∧ RowOf codec r row := by
  obtain ⟨r, hr, hrow⟩ := h.rows row hm
  obtain ⟨rfl, he⟩ := (matches_iff hc hnow hrow).mp hmatch
  refine ⟨r, ⟨h.queued _ r hr ?_, hr, he⟩, hrow⟩
  simp only [InMemoryStoreInner.eligible, Bool.and_eq_true] at he
  exact he.1

theorem row_of_due (h : Paired codec p) (hc : PrintsRfc3339 codec) (hnow : now.InYears)
    (hd : Due p.mem now queue r) : ∃ row ∈ p.sql.rows.filter (SqliteTable.matchesPull [queue] (codec.toRfc3339 now)),
      RowOf codec r row := by
  obtain ⟨row, hm, hrow⟩ := h.recorded _ r hd.record
  refine ⟨row, List.mem_filter.mpr ⟨hm, ?_⟩, hrow⟩
  exact (matches_iff hc hnow hrow).mpr ⟨hd.queue_eq h.filed, hd.eligible⟩

/-- The table takes the earliest of the due jobs. -/
theorem pick_least (h : Paired codec p) (hc : PrintsRfc3339 codec) (hnow : now.InYears)
    (hp : p.sql.pick [queue] (codec.toRfc3339 now) = some row) :
    ∃ r, Due p.mem now queue r ∧ RowOf codec r row ∧ ∀ r', Due p.mem now queue r' → NotAfter r r' := by
  obtain ⟨hm, hmatch⟩ := List.mem_filter.mp (Sqlite.first_mem hp)
  obtain ⟨r, hd, hrow⟩ := due_of_row h hc hnow hm hmatch
  refine ⟨r, hd, hrow, fun r' hd' => ?_⟩
  obtain ⟨row', hm', hrow'⟩ := row_of_due h hc hnow hd'
  exact (notAfter_iff hrow hrow').mp (not_before_first hp row' hm')

theorem pick_isSome_iff (h : Paired codec p) (hc : PrintsRfc3339 codec) (hnow : now.InYears) :
    (p.sql.pick [queue] (codec.toRfc3339 now)).isSome = true ↔ ∃ r, Due p.mem now queue r := by
  constructor
  · intro hs
    obtain ⟨row, hp⟩ := Option.isSome_iff_exists.mp hs
    obtain ⟨r, hd, -⟩ := pick_least h hc hnow hp
    exact ⟨r, hd⟩
  · rintro ⟨r, hd⟩
    obtain ⟨row, hm, -⟩ := row_of_due h hc hnow hd
    exact first_isSome.mpr (List.ne_nil_of_mem hm)

/-! ## Calls -/

/-- The record of one job and its row are changed together. -/
theorem Paired.replace {mem : InMemoryStoreInner} {key : Int} {set : SqliteJobRow → SqliteJobRow} (h : Paired codec p)
    (hr : p.mem.records id = some r) (hf : InMemory.Filed mem) (hnext : mem.nextId = p.mem.nextId)
    (hrec : mem.records = Function.update p.mem.records id (some r')) (hid : r'.id = r.id)
    (hqueued : r'.status.waiting = true → id ∈ mem.queues r'.queue)
    (hother : ∀ queue x, x ≠ id → x ∈ p.mem.queues queue → x ∈ mem.queues queue)
    (hkey : ∀ r₀ row, p.mem.records r₀.id.val = some r₀ → RowOf codec r₀ row → (row.id = key ↔ r₀.id.val = id))
    (hset : ∀ row, RowOf codec r row → RowOf codec r' (set row)) : Paired codec ⟨mem, p.sql.update key set⟩ := by
  have hself : mem.records id = some r' := by rw [hrec, Function.update_self]
  have hne : ∀ {x : Nat}, x ≠ id → mem.records x = p.mem.records x := fun hx => by
    rw [hrec, Function.update_of_ne hx]
  have hr' : ∀ {r₀ : JobRecord}, p.mem.records r₀.id.val = some r₀ → r₀.id.val = id → r₀ = r := fun h₀ he => by
    rw [he, hr, Option.some.injEq] at h₀
    exact h₀.symm
  refine ⟨hf, fun x r₀ h₀ hw => ?_, h.sequence.trans hnext.symm, by rw [hnext]; exact h.bound, fun row' hm => ?_,
    fun x r₀ h₀ => ?_⟩
  · by_cases hx : x = id
    · subst hx
      obtain rfl := Option.some.inj (hself.symm.trans h₀)
      exact hqueued hw
    · exact hother _ x hx (h.queued x r₀ ((hne hx).symm.trans h₀) hw)
  · obtain ⟨row, hrow, rfl⟩ := List.mem_map.mp hm
    obtain ⟨r₀, h₀, hro⟩ := h.rows row hrow
    split
    · rename_i hk
      obtain rfl := hr' h₀ ((hkey r₀ row h₀ hro).mp hk)
      exact ⟨r', by rw [hid, h.filed.ids id r₀ hr, hself], hset row hro⟩
    · rename_i hk
      exact ⟨r₀, (hne fun he => hk ((hkey r₀ row h₀ hro).mpr he)).trans h₀, hro⟩
  · by_cases hx : x = id
    · subst hx
      obtain rfl := Option.some.inj (hself.symm.trans h₀)
      obtain ⟨row, hm, hrow⟩ := h.recorded x r hr
      have hid' := h.filed.ids x r hr
      exact ⟨set row, List.mem_map.mpr ⟨row, hm, if_pos ((hkey r row (hid' ▸ hr) hrow).mpr hid')⟩, hset row hrow⟩
    · have h₀' := (hne hx).symm.trans h₀
      obtain ⟨row, hm, hrow⟩ := h.recorded x r₀ h₀'
      have hid' := h.filed.ids x r₀ h₀'
      refine ⟨row, List.mem_map.mpr ⟨row, hm, if_neg fun hk => hx ?_⟩, hrow⟩
      rw [← hid', (hkey r₀ row (hid' ▸ h₀') hrow).mp hk]

/-- The key of a mark, in the table. -/
theorem Paired.key_iff (h : Paired codec p) {id : JobId} (hid : id.val ≤ u64Max) {r₀ : JobRecord}
    (h₀ : p.mem.records r₀.id.val = some r₀) (hrow : RowOf codec r₀ row) :
    row.id = idToI64 id ↔ r₀.id.val = id.val := by
  rw [hrow.id, eq_comm (a := r₀.id.val)]
  exact idToI64_eq_iff hid (h.le_bound h₀)

/-- A mark of an id that no job has. -/
theorem update_of_none (h : Paired codec p) {id : JobId} (hid : id.val ≤ u64Max) (hr : p.mem.records id.val = none)
    (set : SqliteJobRow → SqliteJobRow) : p.sql.update (idToI64 id) set = p.sql := by
  have hmap : (p.sql.rows.map fun row => if row.id = idToI64 id then set row else row) = p.sql.rows := by
    refine (List.map_congr_left fun row hm => ?_).trans (List.map_id _)
    obtain ⟨r₀, h₀, hrow⟩ := h.rows row hm
    refine if_neg fun hk => ?_
    rw [(h.key_iff hid h₀ hrow).mp hk, hr] at h₀
    cases h₀
  rw [SqliteTable.update, hmap]

theorem paired_markCompleted (h : Paired codec p) {id : JobId} (hid : id.val ≤ u64Max) :
    Paired codec ⟨(p.mem.markCompleted id).2, (SqliteTable.markCompleted id none p.sql).2⟩ := by
  have hf := InMemory.filed_markCompleted h.filed id
  cases hr : p.mem.records id.val with
  | none =>
    simp only [InMemoryStoreInner.markCompleted, SqliteTable.markCompleted, hr, update_of_none h hid hr]
    exact h
  | some r =>
    simp only [InMemoryStoreInner.markCompleted, SqliteTable.markCompleted, hr] at hf ⊢
    refine h.replace hr hf rfl rfl rfl (fun hw => by cases hw) (fun _ _ _ hm => hm) (fun r₀ row => h.key_iff hid)
      fun row hrow => ?_
    exact { hrow with status := rfl }

theorem paired_markFailed (h : Paired codec p) (hc : PrintsRfc3339 codec) {id : JobId} {error : String}
    {next : Option DateTime} (hid : id.val ≤ u64Max) (hnext : ∀ t, next = some t → t.InYears) :
    Paired codec ⟨(p.mem.markFailed id error next).2, (SqliteTable.markFailed codec id error next none p.sql).2⟩ := by
  have hf := InMemory.filed_markFailed h.filed id error next
  cases hr : p.mem.records id.val with
  | none =>
    cases next <;>
    · simp only [InMemoryStoreInner.markFailed, SqliteTable.markFailed, hr, update_of_none h hid hr]
      exact h
  | some r =>
    cases next with
    | none =>
      simp only [InMemoryStoreInner.markFailed, SqliteTable.markFailed, hr] at hf ⊢
      refine h.replace hr hf rfl rfl rfl (fun hw => by cases hw) (fun _ _ _ hm => hm) (fun r₀ row => h.key_iff hid)
        fun row hrow => ?_
      exact { hrow with status := rfl }
    | some t =>
      simp only [InMemoryStoreInner.markFailed, SqliteTable.markFailed, hr] at hf ⊢
      refine h.replace hr hf rfl rfl rfl (fun _ => ?_) (fun queue x _ hm => ?_) (fun r₀ row => h.key_iff hid)
        fun row hrow => ?_
      · exact InMemory.mem_pushBack.mpr (.inr ⟨rfl, rfl⟩)
      · exact InMemory.mem_pushBack.mpr (.inl hm)
      · exact { hrow with
          status := rfl
          scheduled := ⟨hnext t rfl, hc.text t (hnext t rfl)⟩ }

theorem rowOf_newRow (hc : PrintsRfc3339 codec) {job : NewJob} {payload : String} (hjob : job.scheduledAt.InYears)
    (hnow : now.InYears) (hp : codec.toString job.payload = .ok payload) (id : Nat) :
    RowOf codec (InMemoryStoreInner.newRecord id job now) (SqliteTable.newRow codec id job payload now) where
  id := rfl
  payload := hp
  queue := rfl
  attempt := rfl
  status := rfl
  enqueued := ⟨hnow, hc.text now hnow⟩
  scheduled := ⟨hjob, hc.text _ hjob⟩

theorem enqueue_sql (h : Paired codec p) {job : NewJob} {payload : String} (hlt : p.mem.nextId < i64Max)
    (hp : codec.toString job.payload = .ok payload) :
    SqliteTable.enqueue codec job now none p.sql =
      (.ok ⟨p.mem.nextId + 1⟩,
        ⟨p.mem.nextId + 1, p.sql.rows ++ [SqliteTable.newRow codec (p.mem.nextId + 1) job payload now]⟩) := by
  have hid : idOfI64 ((p.mem.nextId + 1 : Nat) : Int) = ⟨p.mem.nextId + 1⟩ := Sqlite.idOfI64_eq hlt
  simp only [SqliteTable.enqueue, hp, h.sequence, if_pos hlt]
  rw [hid]

theorem paired_enqueue (h : Paired codec p) (hc : PrintsRfc3339 codec) {job : NewJob} {payload : String}
    (hjob : job.scheduledAt.InYears) (hnow : now.InYears) (hlt : p.mem.nextId < i64Max)
    (hp : codec.toString job.payload = .ok payload) :
    Paired codec ⟨(p.mem.enqueue job now).2, (SqliteTable.enqueue codec job now none p.sql).2⟩ := by
  have hrow := rowOf_newRow hc hjob hnow hp (p.mem.nextId + 1)
  have hself : (p.mem.enqueue job now).2.records (p.mem.nextId + 1) =
      some (InMemoryStoreInner.newRecord (p.mem.nextId + 1) job now) := Function.update_self ..
  have hne : ∀ {x : Nat}, x ≠ p.mem.nextId + 1 → (p.mem.enqueue job now).2.records x = p.mem.records x :=
    fun hx => Function.update_of_ne hx ..
  rw [enqueue_sql h hlt hp]
  refine ⟨InMemory.filed_enqueue h.filed job now, fun x r₀ h₀ hw => ?_, rfl, hlt, fun row hm => ?_, fun x r₀ h₀ => ?_⟩
  · by_cases hx : x = p.mem.nextId + 1
    · subst hx
      obtain rfl := Option.some.inj (hself.symm.trans h₀)
      exact InMemory.mem_pushBack.mpr (.inr ⟨rfl, rfl⟩)
    · exact InMemory.mem_pushBack.mpr (.inl (h.queued x r₀ ((hne hx).symm.trans h₀) hw))
  · rcases List.mem_append.mp hm with hm | hm
    · obtain ⟨r₀, h₀, hro⟩ := h.rows row hm
      refine ⟨r₀, (hne fun he => ?_).trans h₀, hro⟩
      rw [he, h.filed.fresh _ (Nat.lt_succ_self _)] at h₀
      cases h₀
    · rw [List.mem_singleton.mp hm]
      exact ⟨_, hself, hrow⟩
  · by_cases hx : x = p.mem.nextId + 1
    · subst hx
      obtain rfl := Option.some.inj (hself.symm.trans h₀)
      exact ⟨_, List.mem_append_right _ List.mem_cons_self, hrow⟩
    · obtain ⟨row, hm, hro⟩ := h.recorded x r₀ ((hne hx).symm.trans h₀)
      exact ⟨row, List.mem_append_left _ hm, hro⟩

theorem sameAnswer_enqueue (h : Paired codec p) {job : NewJob} :
    SameAnswer codec p (.enqueue job now) ↔
      p.mem.nextId < i64Max ∧ ∃ text, codec.toString job.payload = .ok text := by
  have hmem : (p.mem.enqueue job now).1 = .ok ⟨p.mem.nextId + 1⟩ := rfl
  simp only [SameAnswer, JobCall.run, InMemoryJobStore, SqliteJobStore, JobAnswer.enqueued.injEq, hmem]
  cases hp : codec.toString job.payload with
  | error e => simp [SqliteTable.enqueue, hp]
  | ok payload =>
    by_cases hlt : p.mem.nextId < i64Max
    · simp [enqueue_sql h hlt hp, hlt]
    · simp [SqliteTable.enqueue, hp, h.sequence, hlt]

/-! ### Pulls -/

/-- A row that differs from a record's in its status and attempt decodes if
the payload is portable. -/
theorem intoRecord_of_row {status : JobStatus} (hc : PrintsRfc3339 codec) (hrow : RowOf codec r row)
    (ha : row'.attempt ≤ i64Max) (hs : parseStatus codec row'.status = .ok status)
    (hsame : row'.payload = row.payload ∧ row'.enqueuedAt = row.enqueuedAt ∧ row'.scheduledAt = row.scheduledAt) :
    (¬ Portable codec r.payload ∧ ∃ w, row'.intoRecord codec = .error w) ∨
    (Portable codec r.payload ∧ ∃ rec, row'.intoRecord codec = .ok rec ∧ rec.id = idOfI64 row'.id ∧
      rec.attempt = U32.ofI64 row'.attempt ∧ rec.status = status) := by
  obtain ⟨hpay, henq, hsch⟩ := hsame
  obtain ⟨u, hu⟩ := parseTs_toRfc3339 hc hrow.enqueued.1
  obtain ⟨v, hv⟩ := parseTs_toRfc3339 hc hrow.scheduled.1
  rw [← hrow.enqueued.2, ← henq] at hu
  rw [← hrow.scheduled.2, ← hsch] at hv
  rcases intoRecord_of_columns ha hs hu hv with ⟨e, w, he, hw⟩ | ⟨payload, rec, hp, hrec, hids⟩
  · refine .inl ⟨?_, w, hw⟩
    rintro ⟨text, x, htext, hx⟩
    rw [hrow.payload, Except.ok.injEq] at htext
    rw [← htext, ← hpay, he] at hx
    cases hx
  · exact .inr ⟨⟨row.payload, payload, hrow.payload, hpay ▸ hp⟩, rec, hrec, hids⟩

theorem intoRecord_handOut (hc : PrintsRfc3339 codec) (hrow : RowOf codec r row) :
    (¬ Portable codec r.payload ∧ ∃ w, (SqliteTable.handOut row).intoRecord codec = .error w) ∨
    (Portable codec r.payload ∧ ∃ rec, (SqliteTable.handOut row).intoRecord codec = .ok rec ∧
      rec.id = idOfI64 row.id ∧ rec.attempt = U32.cast (r.attempt.val + 1) ∧ rec.status = .running) := by
  have hsucc : SqliteTable.succAttempt row.attempt = (r.attempt.val + 1 : Nat) := hrow.succAttempt
  have hle : SqliteTable.succAttempt row.attempt ≤ i64Max := by
    have hmax := r.attempt.le_max
    have hi : u32Max + 1 ≤ i64Max := by decide
    omega
  rw [← U32.ofI64_natCast, ← hsucc]
  exact intoRecord_of_row hc hrow hle rfl ⟨rfl, rfl, rfl⟩

theorem due_of_ready {inner : InMemoryStoreInner} (hf : InMemory.Filed inner) :
    Ready inner now queue ↔ ∃ r, Due inner now queue r := by
  constructor
  · rintro ⟨id, hm, r, hr, he⟩
    have hid := hf.ids id r hr
    exact ⟨r, hid ▸ hm, hid ▸ hr, he⟩
  · rintro ⟨r, hd⟩
    exact ⟨r.id.val, hd.mem, r, hd.record, hd.eligible⟩

/-- What the two stores choose: nothing, or the job that stands first and the
job that is earliest. -/
theorem pick_cases (h : Paired codec p) (hc : PrintsRfc3339 codec) (hnow : now.InYears) (queue : String) :
    (p.mem.pick now queue = none ∧ p.sql.pick [queue] (codec.toRfc3339 now) = none ∧
      ∀ r, ¬ FirstDue p.mem now queue r) ∨
    ∃ id idx r row r', p.mem.pick now queue = some (id, idx) ∧ p.mem.records id = some r ∧
      p.sql.pick [queue] (codec.toRfc3339 now) = some row ∧ RowOf codec r' row ∧ Due p.mem now queue r' ∧
      Due p.mem now queue r ∧ (∀ r₀, FirstDue p.mem now queue r₀ ↔ r₀ = r) ∧
      ∀ r₀, Due p.mem now queue r₀ → NotAfter r' r₀ := by
  cases hp : p.mem.pick now queue with
  | none =>
    have hno : ¬ ∃ r, Due p.mem now queue r := fun hd => by
      have hs := InMemory.pick_isSome.mpr ((due_of_ready h.filed).mpr hd)
      rw [hp] at hs
      cases hs
    refine .inl ⟨rfl, ?_, fun r hr => hno ⟨r, FirstDue.due h.filed hr⟩⟩
    by_contra hs
    exact hno ((pick_isSome_iff h hc hnow).mp (Option.isSome_iff_ne_none.mpr hs))
  | some pick =>
    obtain ⟨id, idx⟩ := pick
    obtain ⟨-, r, hr, -⟩ := InMemory.pick_eq_some hp
    have hfirst : FirstDue p.mem now queue r := firstDue_iff.mpr ⟨id, idx, hp, hr⟩
    have hd := FirstDue.due h.filed hfirst
    obtain ⟨row, hrow⟩ := Option.isSome_iff_exists.mp ((pick_isSome_iff h hc hnow).mpr ⟨r, hd⟩)
    obtain ⟨r', hd', hro, hleast⟩ := pick_least h hc hnow hrow
    refine .inr ⟨id, idx, r, row, r', rfl, hr, hrow, hro, hd', hd, fun r₀ => ⟨fun h₀ => ?_, ?_⟩, hleast⟩
    · obtain ⟨id', idx', hp', hr'⟩ := firstDue_iff.mp h₀
      rw [hp, Option.some.injEq, Prod.mk.injEq] at hp'
      rw [← hp'.1, hr, Option.some.injEq] at hr'
      exact hr'.symm
    · rintro rfl
      exact hfirst

theorem pull_mem {idx : Nat} (hp : p.mem.pick now queue = some (id, idx)) (hr : p.mem.records id = some r) :
    p.mem.pullNext [queue] now =
      (.ok (some (InMemoryStoreInner.handOut r)),
        (p.mem.removeAt queue idx).insert id (InMemoryStoreInner.handOut r)) := by
  simp only [InMemoryStoreInner.pullNext, InMemoryStoreInner.pullFrom, hp, hr]

theorem pull_mem_none (hp : p.mem.pick now queue = none) :
    p.mem.pullNext [queue] now = (.ok none, p.mem) := by
  simp only [InMemoryStoreInner.pullNext, InMemoryStoreInner.pullFrom, hp]

theorem pull_sql_none (hp : p.sql.pick [queue] (codec.toRfc3339 now) = none) :
    SqliteTable.pullNext codec [queue] now none p.sql = (.ok none, p.sql) := by
  simp only [SqliteTable.pullNext, List.isEmpty_cons, Bool.false_eq_true, ite_false, hp]

/-- The counts of the attempt agree, below the end of `u32`. -/
theorem saturatingSucc_eq_cast_iff {a : U32} : a.saturatingSucc = U32.cast (a.val + 1) ↔ a.val < u32Max := by
  have hmax := a.le_max
  constructor
  · intro he
    by_contra hlt
    have heq : a.val = u32Max := by omega
    have hval := congrArg U32.val he
    rw [heq] at hval
    have hl : (U32.saturatingSucc a).val = u32Max := by
      show saturatingAdd a.val 1 = u32Max
      rw [heq]
      rfl
    rw [hl] at hval
    exact absurd hval (by decide)
  · intro hlt
    apply U32.ext
    rw [U32.cast_of_le hlt]
    exact saturatingAdd_one_of_lt hlt

theorem NotAfter.antisymm_id (h : NotAfter r r') (h' : NotAfter r' r) : r.id.val = r'.id.val := by
  unfold NotAfter at h h'
  rcases h with h | ⟨he, h⟩
  · rcases h' with h' | ⟨he', -⟩
    · omega
    · rw [he'] at h
      omega
  · rcases h' with h' | ⟨-, h'⟩
    · rw [he] at h'
      omega
    · omega

theorem Due.eq_of_id {inner : InMemoryStoreInner} (h : Due inner now queue r) (h' : Due inner now queue r')
    (he : r.id.val = r'.id.val) : r = r' := by
  have hr := h.record
  rw [he, h'.record, Option.some.injEq] at hr
  exact hr.symm

theorem sameAnswer_pullNext (h : Paired codec p) (hc : PrintsRfc3339 codec) (hnow : now.InYears) :
    SameAnswer codec p (.pullNext queue now) ↔ PullsInStep codec p.mem queue now := by
  rcases pick_cases h hc hnow queue with ⟨hm, hs, hno⟩ | ⟨id, idx, r, row, r', hm, hr, hs, hro, hd', hd, hfirst, hleast⟩
  · refine ⟨fun _ r hr => absurd hr (hno r), fun _ => ?_⟩
    simp only [SameAnswer, JobCall.run, InMemoryJobStore, SqliteJobStore, pull_mem_none hm, pull_sql_none hs]
  · have hid : idOfI64 row.id = r'.id := by
      rw [hro.id, Sqlite.idOfI64_eq (h.le_bound hd'.record)]
    have hanswer : SameAnswer codec p (.pullNext queue now) ↔
        ((SqliteTable.handOut row).intoRecord codec).map (fun rec => (rec.id, rec.attempt)) =
          .ok (r.id, r.attempt.saturatingSucc) := by
      simp only [SameAnswer, JobCall.run, InMemoryJobStore, SqliteJobStore, pull_mem hm hr,
        Sqlite.pullNext_of_pick now (List.cons_ne_nil _ _) hs, JobAnswer.pulled.injEq]
      cases (SqliteTable.handOut row).intoRecord codec with
      | error e => simp [Except.map]
      | ok rec => simp [Except.map, InMemoryStoreInner.handOut, eq_comm]
    have hin : PullsInStep codec p.mem queue now ↔
        (∀ r₀, Due p.mem now queue r₀ → NotAfter r r₀) ∧ r.attempt.val < u32Max ∧ Portable codec r.payload := by
      constructor
      · intro hstep
        obtain ⟨hl, ha, hp⟩ := hstep r ((hfirst r).mpr rfl)
        exact ⟨fun r₀ h₀ => hl _ h₀.mem r₀ h₀.record h₀.eligible, ha, hp⟩
      · rintro ⟨hl, ha, hp⟩ r₀ h₀
        obtain rfl := (hfirst r₀).mp h₀
        refine ⟨fun x hx r₁ h₁ he => hl r₁ ?_, ha, hp⟩
        have hx₁ := h.filed.ids x r₁ h₁
        exact ⟨hx₁ ▸ hx, hx₁ ▸ h₁, he⟩
    rw [hanswer, hin]
    rcases intoRecord_handOut hc hro with
      ⟨hport, w, hw⟩ | ⟨hport, rec, hrec, hrid, hra, -⟩
    · rw [hw]
      constructor
      · intro heq
        cases heq
      · rintro ⟨hl, -, hp⟩
        obtain rfl := hd.eq_of_id hd' (NotAfter.antisymm_id (hl r' hd') (hleast r hd))
        exact absurd hp hport
    · have hrid' : rec.id = r'.id := by rw [hrid, hid]
      rw [hrec]
      simp only [Except.map, Except.ok.injEq, Prod.mk.injEq, hrid', hra]
      constructor
      · rintro ⟨hids, hat⟩
        obtain rfl := hd.eq_of_id hd' (by rw [hids])
        exact ⟨hleast, saturatingSucc_eq_cast_iff.mp hat.symm, hport⟩
      · rintro ⟨hl, ha, -⟩
        obtain rfl := hd.eq_of_id hd' (NotAfter.antisymm_id (hl r' hd') (hleast r hd))
        exact ⟨rfl, (saturatingSucc_eq_cast_iff.mpr ha).symm⟩

theorem paired_pullNext (h : Paired codec p) (hc : PrintsRfc3339 codec) (hnow : now.InYears)
    (hstep : PullsInStep codec p.mem queue now) :
    Paired codec ⟨(p.mem.pullNext [queue] now).2, (SqliteTable.pullNext codec [queue] now none p.sql).2⟩ := by
  have hf := InMemory.filed_pullNext h.filed [queue] now
  rcases pick_cases h hc hnow queue with ⟨hm, hs, -⟩ | ⟨id, idx, r, row, r', hm, hr, hs, hro, hd', hd, hfirst, hleast⟩
  · rw [pull_mem_none hm, pull_sql_none hs]
    exact h
  · obtain ⟨hl, ha, -⟩ := hstep r ((hfirst r).mpr rfl)
    have hid := h.filed.ids id r hr
    obtain rfl : r = r' := hd.eq_of_id hd'
      (NotAfter.antisymm_id (hl _ hd'.mem r' hd'.record hd'.eligible) (hleast r hd))
    rw [pull_mem hm hr] at hf ⊢
    rw [Sqlite.pullNext_of_pick now (List.cons_ne_nil _ _) hs]
    refine h.replace hr hf rfl rfl rfl (fun hw => by cases hw) (fun q x hx hmx => ?_) (fun r₀ row₀ h₀ hro₀ => ?_)
      fun row₀ hro₀ => ?_
    · have hcount := InMemory.count_removeAt (InMemory.pick_eq_some hm).1 q x
      rw [if_neg fun he => hx he.2.symm, Nat.add_zero] at hcount
      exact List.count_pos_iff.mp (hcount ▸ List.count_pos_iff.mpr hmx)
    · rw [hro₀.id, hro.id, hid, Int.natCast_inj]
    · exact { hro₀ with
        attempt := by
          show SqliteTable.succAttempt row₀.attempt = (saturatingAdd r.attempt.val 1 : Nat)
          rw [hro₀.succAttempt, saturatingAdd_one_of_lt ha]
        status := rfl }

/-! ### Fetches -/

theorem sameAnswer_fetch (h : Paired codec p) (hc : PrintsRfc3339 codec) {id : JobId} (hid : id.val ≤ u64Max) :
    SameAnswer codec p (.fetch id) ↔ ∀ r, p.mem.records id.val = some r → Portable codec r.payload := by
  simp only [SameAnswer, JobCall.run, InMemoryJobStore, SqliteJobStore, InMemoryStoreInner.fetch,
    SqliteTable.fetch]
  cases hf : p.sql.rows.find? fun row => row.id = idToI64 id with
  | none =>
    have hnone : p.mem.records id.val = none := by
      by_contra hs
      obtain ⟨r, hr⟩ := Option.ne_none_iff_exists'.mp hs
      obtain ⟨row, hm, hrow⟩ := h.recorded _ r hr
      have hne := List.find?_eq_none.mp hf row hm
      have hkey := h.key_iff hid ((h.filed.ids _ r hr).symm ▸ hr) hrow
      rw [decide_eq_true_eq, hkey] at hne
      exact hne (h.filed.ids _ r hr)
    simp [hnone, Except.map]
  | some row =>
    have hk := List.find?_some hf
    rw [decide_eq_true_eq] at hk
    obtain ⟨r, hr, hrow⟩ := h.rows row (List.mem_of_find?_eq_some hf)
    rw [(h.key_iff hid hr hrow).mp hk] at hr
    rcases intoRecord_of_row hc hrow hrow.attempt_le (hrow.status ▸ parseStatus_statusText codec r.status) ⟨rfl, rfl, rfl⟩ with
      ⟨hport, w, hw⟩ | ⟨hport, rec, hrec, -, -, hst⟩
    · simp [hr, hw, Except.map, hport]
    · simp [hr, hrec, Except.map, hport, hst]

/-! ## Runs -/

/-- The stores answer a call alike exactly if it meets the condition. -/
theorem sameAnswer_iff (hc : PrintsRfc3339 codec) {call : JobCall} (hcall : call.InRange) (h : Paired codec p) :
    SameAnswer codec p call ↔ InStep codec p call := by
  cases call with
  | enqueue job now => exact sameAnswer_enqueue h
  | pullNext queue now => exact sameAnswer_pullNext h hc hcall
  | markCompleted id =>
    refine iff_of_true ?_ trivial
    simp only [SameAnswer, JobCall.run, InMemoryJobStore, SqliteJobStore, InMemoryStoreInner.markCompleted,
      SqliteTable.markCompleted]
    cases p.mem.records id.val <;> rfl
  | markFailed id error next =>
    refine iff_of_true ?_ trivial
    simp only [SameAnswer, JobCall.run, InMemoryJobStore, SqliteJobStore, InMemoryStoreInner.markFailed,
      SqliteTable.markFailed]
    cases p.mem.records id.val <;> cases next <;> rfl
  | fetch id => exact sameAnswer_fetch h hc hcall

/-- A call that meets the condition keeps the stores paired. -/
theorem paired_step (hc : PrintsRfc3339 codec) {call : JobCall} (hcall : call.InRange) (h : Paired codec p)
    (hok : InStep codec p call) (hs : p.step codec call = some p') : Paired codec p' := by
  cases hs
  cases call with
  | enqueue job now =>
    obtain ⟨hlt, payload, hp⟩ := hok
    exact paired_enqueue h hc hcall.1 hcall.2 hlt hp
  | pullNext queue now => exact paired_pullNext h hc hcall hok
  | markCompleted id => exact paired_markCompleted h hcall
  | markFailed id error next => exact paired_markFailed h hc hcall.1 hcall.2
  | fetch id => exact h

theorem alongSteps_iff (hc : PrintsRfc3339 codec) {calls : List JobCall} (hcalls : ∀ call ∈ calls, call.InRange) :
    AlongSteps (Stores.step codec) (SameAnswer codec) .new calls ↔
      AlongSteps (Stores.step codec) (InStep codec) .new calls := by
  apply alongSteps_iff_alongSteps (A := JobCall.InRange) (I := Paired codec)
  · exact fun hcall h hok hs => paired_step hc hcall h hok hs
  · exact fun hcall h => sameAnswer_iff hc hcall h
  · exact hcalls
  · exact paired_new codec

end Substitution

/-- Along every run of calls, the two providers give the same answers exactly
if every call meets the condition in the state where it is made. -/
theorem same_answers_iff (codec : Codec) (hc : PrintsRfc3339 codec) (calls : List JobCall)
    (hcalls : ∀ call ∈ calls, call.InRange) :
    AlongSteps (Stores.step codec) (SameAnswer codec) .new calls ↔
      AlongSteps (Stores.step codec) (InStep codec) .new calls :=
  Substitution.alongSteps_iff hc hcalls

/-! ## Letters -/

/-- The text of an empty payload, and of the epoch. -/
def nullCodec : Codec where
  toString _ := .ok "null"
  fromStr _ := .ok .null
  toRfc3339 := DateTime.toRfc3339
  parseFromRfc3339 _ := .ok DateTime.epoch
  debugStr s := s

theorem printsRfc3339_nullCodec : PrintsRfc3339 nullCodec := ⟨fun _ _ => rfl, fun _ _ => ⟨_, rfl⟩⟩

/-- A letter is sent. -/
def sent : List JobCall :=
  [.enqueue (letter "mail") DateTime.epoch, .pullNext "mail" DateTime.epoch, .markCompleted ⟨1⟩, .fetch ⟨1⟩]

theorem portable_null (payload : Json.Value) : Portable nullCodec payload := ⟨"null", .null, rfl, rfl⟩

/-- The one letter of the queue is the first and the earliest. -/
theorem pullsInStep_one : PullsInStep nullCodec (enqueued ["mail"]) "mail" DateTime.epoch := by
  have hq : (enqueued ["mail"]).queues "mail" = [1] := rfl
  have hrec : (enqueued ["mail"]).records 1 =
      some (InMemoryStoreInner.newRecord 1 (letter "mail") DateTime.epoch) := rfl
  rintro r ⟨pre, id, post, hsplit, hr, -⟩
  rw [hq] at hsplit
  obtain rfl : id = 1 := List.mem_singleton.mp (hsplit ▸ List.mem_append_right pre List.mem_cons_self)
  obtain rfl := Option.some.inj (hrec.symm.trans hr)
  refine ⟨fun x hx r' hr' _ => ?_, by decide, portable_null _⟩
  rw [hq] at hx
  obtain rfl := List.mem_singleton.mp hx
  obtain rfl := Option.some.inj (hrec.symm.trans hr')
  exact .inr ⟨rfl, Nat.le_refl _⟩

theorem same_answers_sent : AlongSteps (Stores.step nullCodec) (SameAnswer nullCodec) .new sent := by
  have hrange : ∀ call ∈ sent, call.InRange := by simp [sent, JobCall.InRange, letter]; decide
  refine (same_answers_iff nullCodec printsRfc3339_nullCodec sent hrange).mpr ?_
  refine ⟨⟨by decide, "null", rfl⟩, fun p₁ h₁ => ?_⟩
  cases h₁
  refine ⟨pullsInStep_one, fun p₂ _ => ⟨trivial, fun p₃ _ => ⟨fun r _ => portable_null _, fun _ _ => trivial⟩⟩⟩

/-- Two letters of one time, of which the first is retried at once. -/
def retriedLetter : List JobCall :=
  [.enqueue (letter "mail") DateTime.epoch, .enqueue (letter "mail") DateTime.epoch,
    .pullNext "mail" DateTime.epoch, .markFailed ⟨1⟩ "down" (some DateTime.epoch),
    .pullNext "mail" DateTime.epoch]

/-- The second letter stands before the retried one, which has the lower id. -/
theorem not_same_answers :
    ¬ ∀ codec, PrintsRfc3339 codec → ∀ calls : List JobCall, (∀ call ∈ calls, call.InRange) →
      AlongSteps (Stores.step codec) (SameAnswer codec) .new calls := by
  intro h
  have hrange : ∀ call ∈ retriedLetter, call.InRange := by simp [retriedLetter, JobCall.InRange, letter]; decide
  have hsame := h nullCodec printsRfc3339_nullCodec retriedLetter hrange
  have hstep := (Substitution.alongSteps_iff printsRfc3339_nullCodec hrange).mp hsame
  have hpull := ((((hstep.2 _ rfl).2 _ rfl).2 _ rfl).2 _ rfl).1
  have hafter := (hpull (InMemoryStoreInner.newRecord 2 (letter "mail") DateTime.epoch)
    ⟨[], 2, [1], rfl, rfl, rfl, nofun⟩).1 1 (List.mem_cons_of_mem _ List.mem_cons_self) _ rfl rfl
  rcases hafter with hlt | ⟨-, hle⟩
  · exact absurd hlt (Int.lt_irrefl _)
  · exact absurd hle (by decide)

end WalaStack.Proof.Jobs
