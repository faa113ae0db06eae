import WalaStack.Impl.Jobs.Sqlite
import WalaStack.Spec.JobStore
import Mathlib.Data.List.Nodup

/-!
# The SQLite job store

`sqlite codec` is the provider. Its table keeps ids apart and within `i64`,
and statuses readable (`Inv`); a statement that updates the row of one id
changes the view of that job only (`view_update`). A pull loses its job where
the row does not decode after the update.
-/

namespace WalaStack.Proof.Jobs

open WalaStack.Rust WalaStack.Impl.Jobs WalaStack.Spec.Jobs

namespace Sqlite

variable {codec : Codec} {t : SqliteTable} {row : SqliteJobRow} {id : JobId}

/-! ## Ids -/

theorem idToI64_of_le (h : id.val ≤ i64Max) : idToI64 id = id.val := if_pos h

theorem idOfI64_eq {n : Nat} (h : n ≤ i64Max) : idOfI64 n = ⟨n⟩ := by
  have hm : i64Max = 9223372036854775807 := rfl
  have he : ((n : Int) % 2 ^ 64).toNat = n := by omega
  rw [idOfI64, he]

/-! ## What callers see -/

def viewOf (codec : Codec) (row : SqliteJobRow) : Option JobView :=
  (parseStatus codec row.status).toOption.map fun status => ⟨status, row.attempt.toNat, U32.ofI64 row.maxAttempts⟩

/-- The row of an id. -/
def rowOf (t : SqliteTable) (id : JobId) : Option SqliteJobRow := t.rows.find? fun row => row.id = id.val

def view (codec : Codec) (t : SqliteTable) (id : JobId) : Option JobView :=
  if id.val ≤ i64Max then (rowOf t id).bind (viewOf codec) else none

structure Inv (codec : Codec) (t : SqliteTable) : Prop where
  nodup : (t.rows.map (·.id)).Nodup
  range : ∀ row ∈ t.rows, 1 ≤ row.id ∧ row.id ≤ t.sequence
  sequence_le : t.sequence ≤ i64Max
  readable : ∀ row ∈ t.rows, ∃ status, parseStatus codec row.status = .ok status
  counted : ∀ row ∈ t.rows, 0 ≤ row.attempt

theorem inv_new : Inv codec ⟨0, []⟩ := ⟨List.nodup_nil, nofun, Nat.zero_le _, nofun, nofun⟩

theorem view_eq_some {v : JobView} (h : view codec t id = some v) :
    id.val ≤ i64Max ∧ ∃ row, rowOf t id = some row ∧ viewOf codec row = some v := by
  unfold view at h
  split at h
  · rename_i hid
    obtain ⟨row, hr, hv⟩ := Option.bind_eq_some_iff.mp h
    exact ⟨hid, row, hr, hv⟩
  · cases h

/-- A row in the table is the row of its id. -/
theorem Inv.rowOf_mem (h : Inv codec t) (hm : row ∈ t.rows) :
    ∃ id : JobId, (id.val : Int) = row.id ∧ id.val ≤ i64Max ∧ rowOf t id = some row := by
  obtain ⟨h₁, h₂⟩ := h.range row hm
  have h₃ := h.sequence_le
  have hid : ((row.id.toNat : Nat) : Int) = row.id := Int.toNat_of_nonneg (by omega)
  have hle : row.id.toNat ≤ i64Max := by omega
  refine ⟨⟨row.id.toNat⟩, hid, hle, ?_⟩
  have hex : (rowOf t ⟨row.id.toNat⟩).isSome = true := by
    rw [rowOf, List.find?_isSome]
    exact ⟨row, hm, by simp only [hid, decide_true]⟩
  obtain ⟨row', hr'⟩ := Option.isSome_iff_exists.mp hex
  have heq : row'.id = row.id := by
    have := List.find?_some hr'
    rw [decide_eq_true_eq] at this
    rw [this, hid]
  rw [hr', List.inj_on_of_nodup_map h.nodup (List.mem_of_find?_eq_some hr') hm heq]

/-! ## Updates of one row -/

section

variable {set : SqliteJobRow → SqliteJobRow} (hset : ∀ row, (set row).id = row.id)

include hset

theorem rowOf_update (id' : Int) :
    rowOf (t.update id' set) id = (rowOf t id).map fun row => if row.id = id' then set row else row := by
  have hg : ∀ row : SqliteJobRow, (if row.id = id' then set row else row).id = row.id := fun row => by
    split
    · exact hset row
    · rfl
  simp only [rowOf, SqliteTable.update, List.find?_map, Function.comp_def, hg]

/-- The update of one row changes the view of its id only. -/
theorem view_update {v : JobView} (hid : id.val ≤ i64Max) (hr : rowOf t id = some row)
    (hv : viewOf codec (set row) = some v) :
    view codec (t.update id.val set) = Function.update (view codec t) id (some v) := by
  have hrow : row.id = id.val := by
    have := List.find?_some hr
    rwa [decide_eq_true_eq] at this
  funext id'
  by_cases hi : id' = id
  · rw [hi, Function.update_self, view, if_pos hid, rowOf_update hset, hr, Option.map_some, if_pos hrow,
      Option.bind_some, hv]
  · rw [Function.update_of_ne hi, view, view, rowOf_update hset]
    cases hr' : rowOf t id' with
    | none => rfl
    | some row' =>
      have hrow' : row'.id = id'.val := by
        have := List.find?_some hr'
        rwa [decide_eq_true_eq] at this
      have hne : row'.id ≠ id.val := fun e => hi (by
        have : id'.val = id.val := by omega
        cases id'; cases id; simpa using this)
      rw [Option.map_some, if_neg hne]

theorem Inv.update {id' : Int} (h : Inv codec t)
    (hread : ∀ row, ∃ status, parseStatus codec (set row).status = .ok status)
    (hcount : ∀ row, 0 ≤ row.attempt → 0 ≤ (set row).attempt) : Inv codec (t.update id' set) := by
  have hid : ((t.update id' set).rows.map (·.id)) = t.rows.map (·.id) := by
    simp only [SqliteTable.update, List.map_map]
    refine List.map_congr_left fun row _ => ?_
    simp only [Function.comp_apply]
    split
    · exact hset row
    · rfl
  refine ⟨by rw [hid]; exact h.nodup, fun row' hm => ?_, h.sequence_le, fun row' hm => ?_, fun row' hm => ?_⟩ <;>
    obtain ⟨row, hrow, rfl⟩ := List.mem_map.mp hm
  · have := h.range row hrow
    split
    · rw [hset]; exact this
    · exact this
  · split
    · exact hread row
    · exact h.readable row hrow
  · split
    · exact hcount row (h.counted row hrow)
    · exact h.counted row hrow

end

/-! ## The methods -/

theorem intoRecord_eq_ok {r : JobRecord} (h : row.intoRecord codec = .ok r) :
    row.attempt ≤ i64Max ∧ r.id = idOfI64 row.id ∧ r.attempt = U32.ofI64 row.attempt ∧
      r.maxAttempts = U32.ofI64 row.maxAttempts := by
  have hread : row.attempt ≤ i64Max := by
    by_contra hlt
    simp only [SqliteJobRow.intoRecord, SqliteJobRow.fromRow, if_neg hlt] at h
    cases h
  simp only [SqliteJobRow.intoRecord, bind, Except.bind, pure, Except.pure] at h
  repeat' split at h
  all_goals first | cases h; exact ⟨hread, rfl, rfl, rfl⟩ | cases h

theorem first_mem {rows : List SqliteJobRow} (h : SqliteTable.first rows = some row) : row ∈ rows := by
  induction rows generalizing row with
  | nil => cases h
  | cons row₀ rows ih =>
    simp only [SqliteTable.first] at h
    split at h
    · cases h; exact List.mem_cons_self
    · rename_i row₁ h₁
      split at h <;> cases h
      · exact List.mem_cons_of_mem _ (ih h₁)
      · exact List.mem_cons_self

/-- The row that a pull moves waits in one of the queues. -/
theorem pick_eq_some {queues : List String} {nowIso : String} (h : t.pick queues nowIso = some row) :
    row ∈ t.rows ∧ (row.status = "Pending" ∨ row.status = "Retrying") := by
  obtain ⟨hm, hp⟩ := List.mem_filter.mp (first_mem h)
  simp only [SqliteTable.matchesPull, Bool.and_eq_true, Bool.or_eq_true, beq_iff_eq] at hp
  exact ⟨hm, hp.1.2⟩

theorem viewOf_waiting (codec : Codec) (h : row.status = "Pending" ∨ row.status = "Retrying") :
    ∃ v, viewOf codec row = some v ∧ v.status.waiting = true ∧ v.attempt = row.attempt.toNat ∧
      v.maxAttempts = U32.ofI64 row.maxAttempts := by
  rcases h with h | h <;> rw [viewOf, h] <;> exact ⟨_, rfl, rfl, rfl, rfl⟩

theorem handOut_id (row : SqliteJobRow) : (SqliteTable.handOut row).id = row.id := rfl

/-- How the store counts an attempt. -/
def bump (n : Nat) : Nat := min (n + 1) (i64Max + 1)

theorem bump_of_lt {n : Nat} (h : n < u32Max) : bump n = n + 1 := by
  have hle : u32Max ≤ i64Max := by decide
  exact Nat.min_eq_left (by omega)

theorem succAttempt_toNat {attempt : Int} (h : 0 ≤ attempt) :
    (SqliteTable.succAttempt attempt).toNat = bump attempt.toNat := by
  unfold SqliteTable.succAttempt bump
  omega

theorem succAttempt_nonneg {attempt : Int} (h : 0 ≤ attempt) : 0 ≤ SqliteTable.succAttempt attempt := by
  unfold SqliteTable.succAttempt
  omega

theorem ofI64_of_nonneg {n : Int} (h : 0 ≤ n) : U32.ofI64 n = U32.cast n.toNat := by
  obtain ⟨m, rfl⟩ := Int.eq_ofNat_of_zero_le h
  rw [U32.ofI64_natCast, Int.toNat_natCast]

/-- A pull that selects a row moves its job. -/
theorem handOut_view (h : Inv codec t) {queues : List String} {nowIso : String}
    (hp : t.pick queues nowIso = some row) :
    ∃ id v, (id.val : Int) = row.id ∧ id.val ≤ i64Max ∧ Inv codec (t.update row.id SqliteTable.handOut) ∧
      view codec t id = some v ∧ v.status.waiting = true ∧ v.attempt = row.attempt.toNat ∧
      v.maxAttempts = U32.ofI64 row.maxAttempts ∧
      view codec (t.update row.id SqliteTable.handOut) =
        Function.update (view codec t) id (some { v with status := .running, attempt := bump v.attempt }) := by
  obtain ⟨hm, hs⟩ := pick_eq_some hp
  obtain ⟨id, hid, hle, hr⟩ := h.rowOf_mem hm
  obtain ⟨v, hv, hw, ha, hmax⟩ := viewOf_waiting codec hs
  refine ⟨id, v, hid, hle, Inv.update handOut_id h (fun _ => ⟨.running, rfl⟩) fun _ => succAttempt_nonneg, ?_, hw, ha,
    hmax, ?_⟩
  · rw [view, if_pos hle, hr, Option.bind_some, hv]
  · rw [← hid]
    refine view_update handOut_id hle hr ?_
    rw [ha, hmax, ← succAttempt_toNat (h.counted row hm)]
    rfl

/-- A row inserted under the next id. -/
theorem insert_view (h : Inv codec t) (hlt : t.sequence < i64Max) (new : SqliteJobRow) (v : JobView)
    (hid : new.id = (t.sequence + 1 : Nat)) (hv : viewOf codec new = some v)
    (hread : ∃ status, parseStatus codec new.status = .ok status) (hcount : 0 ≤ new.attempt) :
    Inv codec ⟨t.sequence + 1, t.rows ++ [new]⟩ ∧ view codec t ⟨t.sequence + 1⟩ = none ∧
      view codec ⟨t.sequence + 1, t.rows ++ [new]⟩ =
        Function.update (view codec t) ⟨t.sequence + 1⟩ (some v) := by
  have hnew : ∀ row ∈ t.rows, row.id ≠ (t.sequence + 1 : Nat) := fun row hm e => by
    have := h.range row hm
    omega
  have hnone : rowOf t ⟨t.sequence + 1⟩ = none :=
    List.find?_eq_none.mpr fun row hm => by simpa only [decide_eq_true_eq] using hnew row hm
  refine ⟨⟨?_, fun row hm => ?_, hlt, fun row hm => ?_, fun row hm => ?_⟩, ?_, ?_⟩
  · rw [List.map_append, List.map_singleton, List.nodup_append]
    refine ⟨h.nodup, List.nodup_singleton _, fun i hi j hj => ?_⟩
    obtain ⟨row, hm, rfl⟩ := List.mem_map.mp hi
    rw [List.mem_singleton.mp hj, hid]
    exact hnew row hm
  · show 1 ≤ row.id ∧ row.id ≤ (t.sequence + 1 : Nat)
    rcases List.mem_append.mp hm with hm | hm
    · have := h.range row hm
      omega
    · rw [List.mem_singleton.mp hm, hid]
      omega
  · rcases List.mem_append.mp hm with hm | hm
    · exact h.readable row hm
    · rw [List.mem_singleton.mp hm]
      exact hread
  · rcases List.mem_append.mp hm with hm | hm
    · exact h.counted row hm
    · rw [List.mem_singleton.mp hm]
      exact hcount
  · rw [view, hnone, Option.bind_none, ite_self]
  · funext id
    have happ : rowOf ⟨t.sequence + 1, t.rows ++ [new]⟩ id =
        (rowOf t id).or (if new.id = id.val then some new else none) := by
      rw [rowOf, List.find?_append, rowOf, List.find?_singleton]
      simp only [decide_eq_true_eq]
    by_cases hi : id = ⟨t.sequence + 1⟩
    · subst hi
      have hfits : (⟨t.sequence + 1⟩ : JobId).val ≤ i64Max := hlt
      rw [Function.update_self, view, if_pos hfits, happ, hnone, Option.none_or, if_pos hid,
        Option.bind_some, hv]
    · have hne : new.id ≠ id.val := fun e => hi (by cases id; simp at e ⊢; omega)
      rw [Function.update_of_ne hi, view, happ, if_neg hne, Option.or_none, view]

theorem enqueue_cases (h : Inv codec t) (job : NewJob) (now : DateTime) (fault : Option String) :
    (∃ e, SqliteTable.enqueue codec job now fault t = (.error e, t)) ∨
    ∃ id t', SqliteTable.enqueue codec job now fault t = (.ok id, t') ∧ Inv codec t' ∧ view codec t id = none ∧
      view codec t' = Function.update (view codec t) id (some ⟨.pending, 0, job.maxAttempts⟩) := by
  unfold SqliteTable.enqueue
  split
  · exact .inl ⟨_, rfl⟩
  · exact .inl ⟨_, rfl⟩
  · rename_i payload _
    split
    · rename_i hlt
      obtain ⟨hi, hn, hv⟩ := insert_view h hlt (SqliteTable.newRow codec (t.sequence + 1) job payload now)
        ⟨.pending, 0, job.maxAttempts⟩ rfl (by rw [viewOf, SqliteTable.newRow, U32.ofI64_natCast, U32.cast_val]; rfl)
        ⟨.pending, rfl⟩ (Int.le_refl _)
      exact .inr ⟨⟨t.sequence + 1⟩, _, Prod.ext (congrArg Except.ok (idOfI64_eq hlt)) rfl, hi, hn, hv⟩
    · exact .inl ⟨_, rfl⟩

/-- The rows on which a pull fails after its statement. -/
def Loses (codec : Codec) (queues : List String) (now : DateTime) (t : SqliteTable) : Prop :=
  queues ≠ [] ∧ ∃ row e, t.pick queues (codec.toRfc3339 now) = some row ∧
    (SqliteTable.handOut row).intoRecord codec = .error e

theorem pullNext_of_pick {queues : List String} (now : DateTime) (hq : queues ≠ [])
    (hp : t.pick queues (codec.toRfc3339 now) = some row) :
    SqliteTable.pullNext codec queues now none t =
      (((SqliteTable.handOut row).intoRecord codec).map some, t.update row.id SqliteTable.handOut) := by
  have hne : queues.isEmpty = false := by rwa [List.isEmpty_eq_false_iff]
  unfold SqliteTable.pullNext
  rw [hne, hp]
  rfl

theorem pull_refused (codec : Codec) (queues : List String) (now : DateTime) (e : String) (t : SqliteTable) :
    ∃ result, SqliteTable.pullNext codec queues now (some e) t = (result, t) ∧ ∀ r, result ≠ .ok (some r) := by
  cases hq : queues.isEmpty with
  | true => exact ⟨.ok none, by unfold SqliteTable.pullNext; rw [hq]; rfl, fun r hr => (by simp at hr)⟩
  | false => exact ⟨.error (.store e), by unfold SqliteTable.pullNext; rw [hq]; rfl, fun r hr => (by simp at hr)⟩

theorem pull_lost {queues : List String} {now : DateTime} (h : Inv codec t) (hl : Loses codec queues now t) :
    ∃ e id v t', SqliteTable.pullNext codec queues now none t = (.error e, t') ∧ Inv codec t' ∧
      view codec t id = some v ∧ v.status.waiting = true ∧
      view codec t' = Function.update (view codec t) id
        (some { v with status := .running, attempt := bump v.attempt }) := by
  obtain ⟨hq, row, e, hp, he⟩ := hl
  obtain ⟨id, v, -, -, hi, hv, hw, -, -, hu⟩ := handOut_view h hp
  exact ⟨e, id, v, _, by rw [pullNext_of_pick now hq hp, he]; rfl, hi, hv, hw, hu⟩

theorem pull_cases {queues : List String} {now : DateTime} (h : Inv codec t) (hl : ¬ Loses codec queues now t) :
    SqliteTable.pullNext codec queues now none t = (.ok none, t) ∨
    ∃ r v t', SqliteTable.pullNext codec queues now none t = (.ok (some r), t') ∧ Inv codec t' ∧
      view codec t r.id = some v ∧ v.status.waiting = true ∧ r.attempt = U32.cast (bump v.attempt) ∧
      r.maxAttempts = v.maxAttempts ∧
      view codec t' = Function.update (view codec t) r.id
        (some { v with status := .running, attempt := bump v.attempt }) := by
  by_cases hq : queues = []
  · subst hq
    exact .inl rfl
  · cases hp : t.pick queues (codec.toRfc3339 now) with
    | none =>
      have hne : queues.isEmpty = false := by rwa [List.isEmpty_eq_false_iff]
      exact .inl (by unfold SqliteTable.pullNext; rw [hne, hp]; rfl)
    | some row =>
      cases he : (SqliteTable.handOut row).intoRecord codec with
      | error e => exact absurd ⟨hq, row, e, hp, he⟩ hl
      | ok r =>
        obtain ⟨id, v, hid, hle, hi, hv, hw, ha, hmax, hu⟩ := handOut_view h hp
        obtain ⟨-, hrid, hra, hrm⟩ := intoRecord_eq_ok he
        have hrid' : r.id = id := by
          rw [hrid, handOut_id, ← hid, idOfI64_eq hle]
        refine .inr ⟨r, v, _, by rw [pullNext_of_pick now hq hp, he]; rfl, hi, ?_, hw, ?_, ?_, ?_⟩
        · rw [hrid', hv]
        · have hcount := h.counted row (pick_eq_some hp).1
          rw [hra, ha, ← succAttempt_toNat hcount]
          exact ofI64_of_nonneg (succAttempt_nonneg hcount)
        · rw [hrm, hmax]; rfl
        · rw [hrid', hu]

/-- A statement that sets the status of one row. -/
theorem Inv.mark {set : SqliteJobRow → SqliteJobRow} {id' : Int} {status : JobStatus} (h : Inv codec t)
    (hset : ∀ row, (set row).id = row.id) (hstatus : ∀ row, parseStatus codec (set row).status = .ok status)
    (hattempt : ∀ row, (set row).attempt = row.attempt) : Inv codec (t.update id' set) :=
  Inv.update hset h (fun row => ⟨status, hstatus row⟩) fun row hrow => by rw [hattempt row]; exact hrow

/-- What such a statement does to the view. -/
theorem set_view {set : SqliteJobRow → SqliteJobRow} {v : JobView} {status : JobStatus} (h : Inv codec t)
    (hv : view codec t id = some v) (hset : ∀ row, (set row).id = row.id)
    (hstatus : ∀ row, parseStatus codec (set row).status = .ok status)
    (hkeep : ∀ row, (set row).attempt = row.attempt ∧ (set row).maxAttempts = row.maxAttempts) :
    Inv codec (t.update (idToI64 id) set) ∧
      view codec (t.update (idToI64 id) set) =
        Function.update (view codec t) id (some { v with status := status }) := by
  obtain ⟨hle, row, hr, hrow⟩ := view_eq_some hv
  refine ⟨h.mark hset hstatus fun row => (hkeep row).1, ?_⟩
  rw [idToI64_of_le hle]
  refine view_update hset hle hr ?_
  obtain ⟨status', -, rfl⟩ := Option.map_eq_some_iff.mp hrow
  rw [viewOf, hstatus, (hkeep row).1, (hkeep row).2]
  rfl

end Sqlite

/-- `SqliteJobStore` keeps the contract of `JobStore`, up to the rows that do
not decode. -/
def sqlite (codec : Codec) : Provider where
  toJobStore := SqliteJobStore codec
  Inv := Sqlite.Inv codec
  view := Sqlite.view codec
  bump := Sqlite.bump
  refuses fault := fault ≠ none
  loses := Sqlite.Loses codec
  inv_new := Sqlite.inv_new
  view_new _ := ite_self _
  bump_of_lt := Sqlite.bump_of_lt
  enqueue_cases job now fault h := Sqlite.enqueue_cases h job now fault
  pull_refused {fault} queues now t hf := by
    obtain ⟨e, rfl⟩ := Option.ne_none_iff_exists'.mp hf
    exact Sqlite.pull_refused codec queues now e t
  pull_lost {fault _ _ _} h hf hl := by
    obtain rfl := not_not.mp hf
    exact Sqlite.pull_lost h hl
  pull_cases {fault _ _ _} h hf hl := by
    obtain rfl := not_not.mp hf
    exact Sqlite.pull_cases h hl
  completed_refused {fault} id t hf := by
    obtain ⟨e, rfl⟩ := Option.ne_none_iff_exists'.mp hf
    exact ⟨_, rfl⟩
  completed_ok {fault id t v} h hf hv _ := by
    obtain rfl := not_not.mp hf
    exact ⟨_, rfl, Sqlite.set_view h hv (fun _ => rfl) (fun _ => rfl) fun _ => ⟨rfl, rfl⟩⟩
  failed_refused {fault} id error next t hf := by
    obtain ⟨e, rfl⟩ := Option.ne_none_iff_exists'.mp hf
    exact ⟨_, rfl⟩
  failed_ok {fault id t v} error next h hf hv _ := by
    obtain rfl := not_not.mp hf
    cases next with
    | none => exact ⟨_, rfl, Sqlite.set_view h hv (fun _ => rfl) (fun _ => rfl) fun _ => ⟨rfl, rfl⟩⟩
    | some at_ => exact ⟨_, rfl, Sqlite.set_view h hv (fun _ => rfl) (fun _ => rfl) fun _ => ⟨rfl, rfl⟩⟩

end WalaStack.Proof.Jobs
