import WalaStack.Proof.Jobs.Decoding

/-!
# The round trip of a job through the table

`KeptRow` is the row of a job: what `enqueue` wrote, the last time that it was
scheduled for, and the number of its pulls. Every call keeps it (`kept_step`),
and the job is read back from it exactly under conditions on what was written
(`intact_iff`). So a whole run keeps the job readable exactly if each of its
steps does (`round_trip_iff`).
-/

namespace WalaStack.Proof.Jobs

open WalaStack.Rust WalaStack.Impl.Jobs WalaStack.Spec.Jobs WalaStack.Transition

namespace Sqlite

variable {codec : Codec} {t : SqliteTable} {row : SqliteJobRow} {now u : DateTime} {id : JobId} {job : NewJob}
  {text : String} {reread : Rat → Rat} {s s' : Stored}

/-! ## Text -/

/-- The text of an instant is read back in the years 0 to 9999 only. -/
theorem parse_toRfc3339 (hc : Chrono codec) (hu : u.InYears) :
    codec.parseFromRfc3339 (codec.toRfc3339 u) = .ok u :=
  hc.parses _ u (by rw [hc.prints, DateTime.parseRfc3339_printRfc3339 hu])

theorem inYears_of_parse {w : DateTime} (hc : Chrono codec)
    (h : codec.parseFromRfc3339 (codec.toRfc3339 u) = .ok w) : u.InYears := by
  by_contra hu
  obtain ⟨c, rest, htext, hsign⟩ := DateTime.signed_printRfc3339 hu
  obtain ⟨e, he⟩ := hc.refuses _ c rest htext hsign
  rw [hc.prints, he] at h
  cases h

theorem fromStr_eq_ok_iff (hp : ReadsBack codec reread job.payload) (htext : codec.toString job.payload = .ok text) :
    codec.fromStr text = .ok job.payload ↔ Readable reread job.payload := by
  by_cases hd : job.payload.depth < 128
  · rw [hp.reads text htext hd, Except.ok.injEq, Readable]
    exact (and_iff_right hd).symm
  · obtain ⟨e, he⟩ := hp.limit text htext (Nat.le_of_not_lt hd)
    rw [he]
    exact iff_of_false (fun hc => by cases hc) fun h => hd h.1

/-! ## The row of a job -/

/-- The row holds what was written of the job. -/
structure KeptRow (codec : Codec) (id : JobId) (job : NewJob) (now : DateTime) (text : String) (u : DateTime)
    (s : Stored) (row : SqliteJobRow) : Prop where
  found : rowOf s.table id = some row
  name : row.name = job.name.val
  payload : row.payload = text
  queue : row.queue = job.queue
  maxAttempts : row.maxAttempts = job.maxAttempts.val
  attempt : row.attempt = (min s.pulls (i64Max + 1) : Nat)
  status : ∃ status, parseStatus codec row.status = .ok status
  enqueuedAt : row.enqueuedAt = codec.toRfc3339 now
  scheduledAt : row.scheduledAt = codec.toRfc3339 u

theorem KeptRow.id_eq (h : KeptRow codec id job now text u s row) : row.id = id.val := by
  have hfound := List.find?_some h.found
  rwa [decide_eq_true_eq] at hfound

theorem KeptRow.idOfI64_eq (h : KeptRow codec id job now text u s row) (hle : id.val ≤ i64Max) :
    idOfI64 row.id = id := by
  rw [h.id_eq, Sqlite.idOfI64_eq hle]

theorem KeptRow.fetch (h : KeptRow codec id job now text u s row) (hle : id.val ≤ i64Max) :
    SqliteTable.fetch codec id none s.table = (row.intoRecord codec).map some := by
  have hfind : s.table.rows.find? (fun row => row.id = idToI64 id) = some row := by
    rw [idToI64_of_le hle]
    exact h.found
  simp only [SqliteTable.fetch, hfind]

theorem KeptRow.attempt_eq (h : KeptRow codec id job now text u s row) (hn : s.pulls ≤ u32Max) :
    row.attempt ≤ i64Max ∧ (U32.ofI64 row.attempt).val = s.pulls := by
  have hmax : u32Max ≤ i64Max := by decide
  rw [h.attempt, Nat.min_eq_left (by omega), U32.ofI64_natCast, U32.cast_of_le hn]
  exact ⟨by omega, rfl⟩

/-- What `fetch` returns, where it can. -/
theorem KeptRow.fetch_eq {status : JobStatus} (hc : Chrono codec) (hp : ReadsBack codec reread job.payload)
    (htext : codec.toString job.payload = .ok text) (hle : id.val ≤ i64Max)
    (h : KeptRow codec id job now text u s row) (hstatus : parseStatus codec row.status = .ok status)
    (hread : Readable reread job.payload) (hnow : now.InYears) (hu : u.InYears) (hn : s.pulls ≤ u32Max) :
    SqliteTable.fetch codec id none s.table = .ok (some { storedRecord id job now with
      attempt := U32.ofI64 row.attempt, status := status, scheduledAt := u }) := by
  have hrecord : row.intoRecord codec = .ok { storedRecord id job now with
      attempt := U32.ofI64 row.attempt, status := status, scheduledAt := u } := by
    refine intoRecord_eq_ok_iff.mpr ⟨(h.attempt_eq hn).1, ?_, hstatus, ?_, ?_, (h.idOfI64_eq hle).symm, ?_,
      h.queue.symm, rfl, ?_⟩
    · rw [h.payload]
      exact (fromStr_eq_ok_iff hp htext).mpr hread
    · rw [h.enqueuedAt]
      exact parse_toRfc3339 hc hnow
    · rw [h.scheduledAt]
      exact parse_toRfc3339 hc hu
    · rw [h.name]
      rfl
    · rw [h.maxAttempts, U32.ofI64_natCast, U32.cast_val]
      rfl
  rw [h.fetch hle, hrecord]
  rfl

theorem intact_iff (hc : Chrono codec) (hp : ReadsBack codec reread job.payload)
    (htext : codec.toString job.payload = .ok text) (hle : id.val ≤ i64Max)
    (h : KeptRow codec id job now text u s row) :
    Intact codec id job s ↔ Readable reread job.payload ∧ now.InYears ∧ u.InYears ∧ s.pulls ≤ u32Max := by
  constructor
  · rintro ⟨r, hfetch, -, -, hpayload, -, -, hattempt⟩
    rw [h.fetch hle] at hfetch
    cases hr : row.intoRecord codec with
    | error e =>
      rw [hr] at hfetch
      cases hfetch
    | ok r' =>
      rw [hr] at hfetch
      cases hfetch
      obtain ⟨-, hv, -, he, hsch, -⟩ := intoRecord_eq_ok_iff.mp hr
      rw [h.payload, hpayload, fromStr_eq_ok_iff hp htext] at hv
      rw [h.enqueuedAt] at he
      rw [h.scheduledAt] at hsch
      exact ⟨hv, inYears_of_parse hc he, inYears_of_parse hc hsch, hattempt ▸ r.attempt.le_max⟩
  · rintro ⟨hread, hnow, hu, hn⟩
    obtain ⟨status, hstatus⟩ := h.status
    exact ⟨_, h.fetch_eq hc hp htext hle hstatus hread hnow hu hn, rfl, rfl, rfl, rfl, rfl, (h.attempt_eq hn).2⟩

/-! ## Calls -/

/-- A call that leaves the row as it is. -/
theorem KeptRow.unchanged (h : KeptRow codec id job now text u s row) (hrow : rowOf s'.table id = some row)
    (hpulls : s'.pulls = s.pulls) : KeptRow codec id job now text u s' row :=
  { h with found := hrow, attempt := hpulls ▸ h.attempt }

theorem KeptRow.found_update (h : KeptRow codec id job now text u s row) (set : SqliteJobRow → SqliteJobRow)
    (hset : ∀ row, (set row).id = row.id) (id' : Int) :
    rowOf (s.table.update id' set) id = some (if row.id = id' then set row else row) := by
  rw [rowOf_update hset, h.found]
  rfl

/-- A statement that sets the status of one row. -/
theorem KeptRow.setStatus (h : KeptRow codec id job now text u s row) (id' : Int) (status : String)
    (lastError : SqliteJobRow → Option String) (hread : ∃ st, parseStatus codec status = .ok st) :
    ∃ row', KeptRow codec id job now text u
      ⟨s.table.update id' fun row => { row with status := status, lastError := lastError row }, s.pulls⟩ row' := by
  have hfound := h.found_update
    (fun row => { row with status := status, lastError := lastError row }) (fun _ => rfl) id'
  by_cases hid : row.id = id'
  · rw [if_pos hid] at hfound
    exact ⟨_, hfound, h.name, h.payload, h.queue, h.maxAttempts, h.attempt, hread, h.enqueuedAt, h.scheduledAt⟩
  · rw [if_neg hid] at hfound
    exact ⟨row, h.unchanged hfound rfl⟩

theorem KeptRow.enqueue (h : KeptRow codec id job now text u s row) (job' : NewJob) (now' : DateTime)
    (fault : Option String) :
    KeptRow codec id job now text u ⟨(SqliteTable.enqueue codec job' now' fault s.table).2, s.pulls⟩ row := by
  refine h.unchanged ?_ rfl
  unfold SqliteTable.enqueue
  split
  · exact h.found
  · exact h.found
  · split
    · rw [rowOf, List.find?_append]
      show (rowOf s.table id).or _ = some row
      rw [h.found, Option.some_or]
    · exact h.found

/-- A pull that moves a row counts it. -/
theorem KeptRow.handOut (h : KeptRow codec id job now text u s row) (hle : id.val ≤ i64Max) (row₁ : SqliteJobRow) :
    ∃ row', KeptRow codec id job now text u
      ⟨s.table.update row₁.id SqliteTable.handOut, s.pulls + if row₁.id = idToI64 id then 1 else 0⟩ row' := by
  have hfound := h.found_update SqliteTable.handOut handOut_id row₁.id
  by_cases hid : row₁.id = row.id
  · rw [if_pos hid.symm] at hfound
    have hcount : SqliteTable.succAttempt row.attempt = (min (s.pulls + 1) (i64Max + 1) : Nat) := by
      rw [h.attempt, SqliteTable.succAttempt]
      omega
    rw [idToI64_of_le hle, ← h.id_eq, if_pos hid]
    exact ⟨_, hfound, h.name, h.payload, h.queue, h.maxAttempts, hcount, ⟨.running, rfl⟩, h.enqueuedAt,
      h.scheduledAt⟩
  · rw [if_neg (Ne.symm hid)] at hfound
    rw [idToI64_of_le hle, ← h.id_eq, if_neg hid]
    exact ⟨row, h.unchanged hfound rfl⟩

theorem KeptRow.retry (h : KeptRow codec id job now text u s row) (hle : id.val ≤ i64Max) (id' : JobId)
    (error : String) (at_ : DateTime) :
    ∃ row', KeptRow codec id job now text (if idToI64 id' = idToI64 id then at_ else u)
      ⟨(SqliteTable.markFailed codec id' error (some at_) none s.table).2, s.pulls⟩ row' := by
  have hfound := h.found_update (fun row =>
    { row with status := "Retrying", lastError := some error, scheduledAt := codec.toRfc3339 at_ }) (fun _ => rfl)
    (idToI64 id')
  by_cases hid : idToI64 id' = idToI64 id
  · rw [if_pos (by rw [hid, h.id_eq, idToI64_of_le hle])] at hfound
    rw [if_pos hid]
    exact ⟨_, hfound, h.name, h.payload, h.queue, h.maxAttempts, h.attempt, ⟨.retrying, rfl⟩, h.enqueuedAt, rfl⟩
  · rw [if_neg (by rw [h.id_eq, ← idToI64_of_le hle]; exact Ne.symm hid)] at hfound
    rw [if_neg hid]
    exact ⟨row, h.unchanged hfound rfl⟩

/-- Every call keeps the row, and keeps it readable exactly under its
condition. -/
theorem kept_step {call : SqlCall} (hle : id.val ≤ i64Max) (h : KeptRow codec id job now text u s row)
    (hs : Stored.step codec id s call = some s') :
    ∃ u' row', KeptRow codec id job now text u' s' row' ∧
      (u.InYears → s.pulls ≤ u32Max → (u'.InYears ∧ s'.pulls ≤ u32Max ↔ KeepsIntact codec id s call)) := by
  have same : u.InYears → s.pulls ≤ u32Max → (u.InYears ∧ s.pulls ≤ u32Max ↔ (False → s.pulls < u32Max)) :=
    fun hu hn => iff_of_true ⟨hu, hn⟩ False.elim
  cases call with
  | enqueue job' now' fault =>
    cases hs
    refine ⟨u, row, h.enqueue job' now' fault, ?_⟩
    simpa [KeepsIntact, SqlCall.takes] using same
  | markCompleted id' fault =>
    cases hs
    cases fault with
    | some e => exact ⟨u, row, h, by simpa [KeepsIntact, SqlCall.takes] using same⟩
    | none =>
      obtain ⟨row', hkept⟩ := h.setStatus (idToI64 id') "Completed" (·.lastError) ⟨.completed, rfl⟩
      exact ⟨u, row', hkept, by simpa [KeepsIntact, SqlCall.takes] using same⟩
  | markFailed id' error next fault =>
    cases hs
    cases fault with
    | some e => exact ⟨u, row, h, by cases next <;> simpa [KeepsIntact, SqlCall.takes] using same⟩
    | none =>
      cases next with
      | none =>
        obtain ⟨row', hkept⟩ := h.setStatus (idToI64 id') "Dead" (fun _ => some error) ⟨.dead, rfl⟩
        exact ⟨u, row', hkept, by simpa [KeepsIntact, SqlCall.takes] using same⟩
      | some at_ =>
        obtain ⟨row', hkept⟩ := h.retry hle id' error at_
        refine ⟨_, row', hkept, fun hu hn => ?_⟩
        by_cases hid : idToI64 id' = idToI64 id
        · simp only [KeepsIntact, hid, forall_const]
          exact and_iff_left hn
        · simp only [KeepsIntact, hid, IsEmpty.forall_iff, iff_true]
          exact ⟨hu, hn⟩
  | pullNext queues now' fault =>
    cases hs
    cases fault with
    | some e =>
      obtain ⟨result, hpull, -⟩ := pull_refused codec queues now' e s.table
      rw [hpull]
      exact ⟨u, row, h, by simpa [KeepsIntact, SqlCall.takes] using same⟩
    | none =>
      by_cases hq : queues = []
      · subst hq
        exact ⟨u, row, h, by simpa [KeepsIntact, SqlCall.takes] using same⟩
      · cases hp : s.table.pick queues (codec.toRfc3339 now') with
        | none =>
          rw [pullNext_of_none now' hp]
          refine ⟨u, row, h.unchanged h.found (by simp [SqlCall.takes, hp]), fun hu hn => ?_⟩
          simp [KeepsIntact, SqlCall.takes, hp, hu, hn]
        | some row₁ =>
          rw [pullNext_of_pick now' hq hp]
          obtain ⟨row', hkept⟩ := h.handOut hle row₁
          have htakes : (SqlCall.pullNext queues now' none).takes codec id s.table = decide (row₁.id = idToI64 id) := by
            simp [SqlCall.takes, hp, hq]
          refine ⟨u, row', ?_, fun hu hn => ?_⟩
          · simpa only [htakes, decide_eq_true_eq] using hkept
          · simp only [KeepsIntact, htakes, decide_eq_true_eq, and_iff_right hu]
            split <;> omega

/-! ## Runs -/

theorem exec_stored (codec : Codec) (id : JobId) (s : Stored) (calls : List SqlCall) :
    ∃ s', exec (Stored.step codec id) s calls = some s' := by
  induction calls generalizing s with
  | nil => exact ⟨s, rfl⟩
  | cons call calls ih =>
    have hrun : ∃ t', call.run codec s.table = some t' := by cases call <;> exact ⟨_, rfl⟩
    obtain ⟨t', ht'⟩ := hrun
    obtain ⟨s', hs'⟩ := ih ⟨t', s.pulls + if call.takes codec id s.table then 1 else 0⟩
    have hstep : Stored.step codec id s call = some ⟨t', s.pulls + if call.takes codec id s.table then 1 else 0⟩ := by
      rw [Stored.step, ht', Option.map_some]
    exact ⟨s', by rw [exec_cons_of hstep, hs']⟩

/-- `enqueue` appends the row of a new id. -/
theorem enqueue_eq_ok {t₁ : SqliteTable} {fault : Option String} (h : Inv codec t)
    (henq : SqliteTable.enqueue codec job now fault t = (.ok id, t₁)) :
    ∃ text, codec.toString job.payload = .ok text ∧ id.val ≤ i64Max ∧
      rowOf t₁ id = some (SqliteTable.newRow codec id.val job text now) := by
  unfold SqliteTable.enqueue at henq
  split at henq
  · cases henq
  · cases henq
  · rename_i text htext
    split at henq
    · rename_i hlt
      have hid : idOfI64 (t.sequence + 1 : Nat) = ⟨t.sequence + 1⟩ := Sqlite.idOfI64_eq hlt
      obtain ⟨rfl, rfl⟩ : idOfI64 (t.sequence + 1 : Nat) = id ∧ _ = t₁ := by simpa using henq
      rw [hid]
      refine ⟨text, htext, hlt, ?_⟩
      have hnew : t.rows.find? (fun row => row.id = ((t.sequence + 1 : Nat) : Int)) = none := by
        refine List.find?_eq_none.mpr fun row hm => ?_
        have hle := (h.range row hm).2
        simp only [decide_eq_true_eq]
        omega
      rw [rowOf, List.find?_append, hnew, Option.none_or]
      simp [SqliteTable.newRow]
    · cases henq

theorem keptRow_newRow {t₁ : SqliteTable}
    (hrow : rowOf t₁ id = some (SqliteTable.newRow codec id.val job text now)) :
    KeptRow codec id job now text job.scheduledAt ⟨t₁, 0⟩ (SqliteTable.newRow codec id.val job text now) :=
  ⟨hrow, rfl, rfl, rfl, rfl, rfl, ⟨.pending, rfl⟩, rfl, rfl⟩

end Sqlite

/-- A job just enqueued is read back as it was, and stays so in a run of any
calls, exactly if its payload is readable, its times are in the years 0 to
9999, and it is pulled no more often than a `u32` counts. -/
theorem round_trip_iff (codec : Codec) (hc : Chrono codec) (job : NewJob) (reread : Rat → Rat)
    (hp : ReadsBack codec reread job.payload) (t : SqliteTable) (ht : TableReachable codec t) (now : DateTime)
    (fault : Option String) (id : JobId) (t₁ : SqliteTable)
    (henq : SqliteTable.enqueue codec job now fault t = (.ok id, t₁)) (calls : List SqlCall) :
    (SqliteTable.fetch codec id none t₁ = .ok (some (storedRecord id job now)) ∧
        AlongStates (Stored.step codec id) (Intact codec id job) ⟨t₁, 0⟩ calls) ↔
      (Readable reread job.payload ∧ now.InYears ∧ job.scheduledAt.InYears) ∧
        AlongSteps (Stored.step codec id) (KeepsIntact codec id) ⟨t₁, 0⟩ calls := by
  obtain ⟨text, htext, hle, hrow⟩ := Sqlite.enqueue_eq_ok (Sqlite.inv_of_reach ht) henq
  have hkept := Sqlite.keptRow_newRow hrow
  have hstart := Sqlite.intact_iff hc hp htext hle hkept
  obtain ⟨s', hexec⟩ := Sqlite.exec_stored codec id ⟨t₁, 0⟩ calls
  let Kept : Stored → Prop := fun s => ∃ u row, Sqlite.KeptRow codec id job now text u s row
  have keep : ∀ {s call s'}, Kept s → Stored.step codec id s call = some s' → Kept s' := by
    rintro s call s' ⟨u, row, h⟩ hs
    obtain ⟨u', row', h', -⟩ := Sqlite.kept_step hle h hs
    exact ⟨u', row', h'⟩
  have exact_step : ∀ {s call s'}, Kept s → Intact codec id job s → Stored.step codec id s call = some s' →
      (Intact codec id job s' ↔ KeepsIntact codec id s call) := by
    rintro s call s' ⟨u, row, h⟩ hintact hs
    obtain ⟨u', row', h', hiff⟩ := Sqlite.kept_step hle h hs
    obtain ⟨hread, hnow, hu, hn⟩ := (Sqlite.intact_iff hc hp htext hle h).mp hintact
    rw [Sqlite.intact_iff hc hp htext hle h', ← hiff hu hn, and_iff_right hread, and_iff_right hnow]
  have hrun : Intact codec id job ⟨t₁, 0⟩ → (AlongStates (Stored.step codec id) (Intact codec id job) ⟨t₁, 0⟩ calls ↔
      AlongSteps (Stored.step codec id) (KeepsIntact codec id) ⟨t₁, 0⟩ calls) := fun hintact =>
    alongStates_iff_alongSteps keep exact_step ⟨_, _, hkept⟩ hintact hexec
  constructor
  · rintro ⟨-, halong⟩
    obtain ⟨hread, hnow, hu, -⟩ := hstart.mp halong.head
    exact ⟨⟨hread, hnow, hu⟩, (hrun halong.head).mp halong⟩
  · rintro ⟨⟨hread, hnow, hu⟩, hsteps⟩
    have hintact := hstart.mpr ⟨hread, hnow, hu, Nat.zero_le _⟩
    refine ⟨?_, (hrun hintact).mpr hsteps⟩
    exact Sqlite.KeptRow.fetch_eq hc hp htext hle hkept rfl hread hnow hu (Nat.zero_le _)

/-! ## Nested payloads -/

theorem chrono_nestedCodec : Chrono nestedCodec where
  prints _ := rfl
  parses text t h := by simp only [nestedCodec, h]
  refuses text c s h hc := ⟨"input contains invalid characters", by
    simp only [nestedCodec, parseRfc3339_of_sign h hc]⟩

theorem readsBack_nested (n : Nat) : ReadsBack nestedCodec id (.nested n) where
  reads text htext hd := by
    obtain rfl : brackets (Json.Value.nested n).depth = text := Except.ok.inj htext
    rw [Json.Value.depth_nested] at hd ⊢
    rw [fromStr_brackets, if_pos hd, Json.Value.mapFloats_nested]
  limit text htext hd := by
    obtain rfl : brackets (Json.Value.nested n).depth = text := Except.ok.inj htext
    rw [Json.Value.depth_nested] at hd ⊢
    rw [fromStr_brackets, if_neg (Nat.not_lt.mpr hd)]
    exact ⟨_, rfl⟩

theorem enqueue_nested (n : Nat) :
    SqliteTable.enqueue nestedCodec (nestedLetter n) DateTime.epoch none ⟨0, []⟩ = (.ok ⟨1⟩, nestedTable n) := by
  have htext : nestedCodec.toString (nestedLetter n).payload = .ok (brackets n) :=
    congrArg (fun m => Except.ok (brackets m)) (Json.Value.depth_nested n)
  unfold SqliteTable.enqueue
  rw [htext]
  rfl

/-- A job that is pulled, and retried. -/
theorem round_trip_retried :
    SqliteTable.fetch nestedCodec ⟨1⟩ none (nestedTable 0) =
        .ok (some (storedRecord ⟨1⟩ (nestedLetter 0) DateTime.epoch)) ∧
      AlongStates (Stored.step nestedCodec ⟨1⟩) (Intact nestedCodec ⟨1⟩ (nestedLetter 0)) ⟨nestedTable 0, 0⟩
        [.pullNext ["mail"] DateTime.epoch none, .markFailed ⟨1⟩ "timed out" (some DateTime.epoch) none] := by
  have hread : Readable id (nestedLetter 0).payload := ⟨by decide, Json.Value.mapFloats_nested id 0⟩
  refine (round_trip_iff nestedCodec chrono_nestedCodec (nestedLetter 0) id (readsBack_nested 0) ⟨0, []⟩ (.init rfl)
    DateTime.epoch none ⟨1⟩ (nestedTable 0) (enqueue_nested 0) _).mpr ⟨⟨hread, inYears_epoch, inYears_epoch⟩, ?_⟩
  exact ⟨fun _ => by decide, fun s' _ => ⟨fun _ => inYears_epoch, fun _ _ => trivial⟩⟩

/-- A payload that `enqueue` prints, and that `fetch` refuses. -/
theorem not_round_trip_nested : ¬ ∀ (codec : Codec), Chrono codec → ∀ (job : NewJob) (reread : Rat → Rat),
    ReadsBack codec reread job.payload → ∀ t, TableReachable codec t → ∀ now fault id t₁,
    SqliteTable.enqueue codec job now fault t = (.ok id, t₁) → ∀ calls,
    SqliteTable.fetch codec id none t₁ = .ok (some (storedRecord id job now)) ∧
      AlongStates (Stored.step codec id) (Intact codec id job) ⟨t₁, 0⟩ calls := by
  intro h
  have hp := readsBack_nested 128
  obtain ⟨-, hintact⟩ := h nestedCodec chrono_nestedCodec (nestedLetter 128) id hp ⟨0, []⟩ (.init rfl) DateTime.epoch
    none ⟨1⟩ (nestedTable 128) (enqueue_nested 128) []
  obtain ⟨text, htext, hle, hrow⟩ := Sqlite.enqueue_eq_ok Sqlite.inv_new (enqueue_nested 128)
  obtain ⟨⟨hd, -⟩, -⟩ := (Sqlite.intact_iff chrono_nestedCodec hp htext hle (Sqlite.keptRow_newRow hrow)).mp hintact
  rw [show (nestedLetter 128).payload.depth = 128 from Json.Value.depth_nested 128] at hd
  exact absurd hd (by decide)

end WalaStack.Proof.Jobs
