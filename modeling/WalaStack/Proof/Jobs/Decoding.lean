import WalaStack.Proof.Jobs.Chronology
import WalaStack.Spec.Decoding

/-!
# Rows that are read back

`intoRecord_eq_ok_iff` says which rows are decoded, and to what. A pull decodes
the row that its statement has moved, so an error of the decoder comes too late
(`atomic_on_error_iff`).
-/

namespace WalaStack.Proof.Jobs

open WalaStack.Rust WalaStack.Impl.Jobs WalaStack.Spec.Jobs WalaStack.Transition

namespace Sqlite

variable {codec : Codec} {t : SqliteTable} {row : SqliteJobRow} {now : DateTime} {queues : List String}

theorem mapError_eq_ok {α ε ε' : Type} {f : ε → ε'} {x : Except ε α} {a : α} :
    x.mapError f = .ok a ↔ x = .ok a := by
  cases x <;> simp [Except.mapError]

theorem parseTs_eq_ok {text : String} {u : DateTime} : parseTs codec text = .ok u ↔ codec.parseFromRfc3339 text = .ok u :=
  mapError_eq_ok

theorem bind_eq_ok {α β ε : Type} {x : Except ε α} {f : α → Except ε β} {b : β} :
    x.bind f = .ok b ↔ ∃ a, x = .ok a ∧ f a = .ok b := by
  cases x <;> simp [Except.bind]

theorem fromRow_eq_ok : row.fromRow = .ok () ↔ row.attempt ≤ i64Max := by
  unfold SqliteJobRow.fromRow
  split
  · rename_i h
    exact iff_of_true rfl h
  · rename_i h
    exact iff_of_false (fun hc => by cases hc) h

/-- The columns of a row, and its record. -/
theorem intoRecord_eq_ok_iff {r : JobRecord} : row.intoRecord codec = .ok r ↔
    row.attempt ≤ i64Max ∧ codec.fromStr row.payload = .ok r.payload ∧ parseStatus codec row.status = .ok r.status ∧
      codec.parseFromRfc3339 row.enqueuedAt = .ok r.enqueuedAt ∧
      codec.parseFromRfc3339 row.scheduledAt = .ok r.scheduledAt ∧
      r.id = idOfI64 row.id ∧ r.name = ⟨row.name⟩ ∧ r.queue = row.queue ∧ r.attempt = U32.ofI64 row.attempt ∧
      r.maxAttempts = U32.ofI64 row.maxAttempts := by
  obtain ⟨id, name, payload, queue, attempt, maxAttempts, status, enqueuedAt, scheduledAt⟩ := r
  simp only [SqliteJobRow.intoRecord, bind, pure, Except.pure, bind_eq_ok, mapError_eq_ok, parseTs_eq_ok,
    Except.ok.injEq, JobRecord.mk.injEq]
  constructor
  · rintro ⟨_, hf, v, hv, st, hst, u, hu, w, hw, rfl, rfl, rfl, rfl, rfl, rfl, rfl, rfl, rfl⟩
    exact ⟨fromRow_eq_ok.mp hf, hv, hst, hu, hw, rfl, rfl, rfl, rfl, rfl⟩
  · rintro ⟨hf, hv, hst, hu, hw, rfl, rfl, rfl, rfl, rfl⟩
    exact ⟨(), fromRow_eq_ok.mpr hf, _, hv, _, hst, _, hu, _, hw, rfl, rfl, rfl, rfl, rfl, rfl, rfl, rfl, rfl⟩

/-! ## Pulls that fail -/

end Sqlite

/-- The text of `null` in arrays. -/
def brackets (n : Nat) : String := String.ofList (List.replicate n '[' ++ "null".toList ++ List.replicate n ']')

/-- The texts of nested arrays, and of instants. -/
def nestedCodec : Codec where
  toString payload := .ok (brackets payload.depth)
  fromStr text :=
    let n := (text.toList.takeWhile (· == '[')).length
    if n < 128 then .ok (.nested n) else .error "recursion limit exceeded at line 1 column 128"
  toRfc3339 := DateTime.printRfc3339
  parseFromRfc3339 text :=
    match parseRfc3339 text with
    | some t => .ok t
    | none => .error "input contains invalid characters"
  debugStr s := "\"" ++ s ++ "\""

theorem length_brackets (n : Nat) : ((brackets n).toList.takeWhile (· == '[')).length = n := by
  rw [brackets, String.toList_ofList, List.append_assoc, List.takeWhile_append_of_pos]
  · simp
  · intro c hc
    rw [List.eq_of_mem_replicate hc]
    rfl

theorem fromStr_brackets (n : Nat) : nestedCodec.fromStr (brackets n) =
    if n < 128 then .ok (.nested n) else .error "recursion limit exceeded at line 1 column 128" := by
  simp only [nestedCodec, length_brackets]

theorem inYears_epoch : DateTime.epoch.InYears := by decide

/-- A letter with a nested payload. -/
def nestedLetter (n : Nat) : NewJob := { letter "mail" with payload := .nested n }

/-- The table with the row of such a letter. -/
def nestedTable (n : Nat) : SqliteTable :=
  ⟨1, [SqliteTable.newRow nestedCodec 1 (nestedLetter n) (brackets n) DateTime.epoch]⟩

end WalaStack.Proof.Jobs
