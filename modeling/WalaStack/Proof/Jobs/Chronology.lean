import WalaStack.Proof.Jobs.Substitution
import WalaStack.Spec.Selection

/-!
# The row that a pull of the SQLite store moves

The text of the years 0 to 9999 sorts by time, so the rows that the statement
compares by their text are compared by their instants (`before_iff`), and the
one that it moves is the least (`leastRow_of_pick`).
-/

namespace WalaStack.Proof.Jobs

open WalaStack.Rust WalaStack.Impl.Jobs WalaStack.Spec.Jobs WalaStack.Transition

namespace Sqlite

variable {codec : Codec} {t : SqliteTable} {row row' : SqliteJobRow} {now u u' : DateTime} {queues : List String}

/-- The statement selects the rows that wait. -/
theorem matches_iff (hc : PrintsYears codec) (hnow : now.InYears) (hu : ScheduledFor codec row u) (hm : row ∈ t.rows) :
    SqliteTable.matchesPull queues (codec.toRfc3339 now) row = true ↔ WaitingRow codec t queues now row u := by
  have hle : row.scheduledAt ≤ codec.toRfc3339 now ↔ u ≤ now := by
    rw [hu.2, hc u hu.1, hc now hnow, DateTime.toRfc3339_le_iff hu.1 hnow]
  simp only [SqliteTable.matchesPull, Bool.and_eq_true, Bool.or_eq_true, beq_iff_eq, decide_eq_true_eq,
    List.contains_iff_mem, hle]
  constructor
  · rintro ⟨⟨hq, hs⟩, hdue⟩
    exact ⟨hm, hu, hs, hq, hdue⟩
  · intro h
    exact ⟨⟨h.queue, h.status⟩, h.due⟩

/-- Rows come in the order of their instants, and then of their ids. -/
theorem not_before_iff (hc : PrintsYears codec) (hu : ScheduledFor codec row u) (hu' : ScheduledFor codec row' u') :
    SqliteTable.before row' row = false ↔ u.nanos < u'.nanos ∨ u = u' ∧ row.id ≤ row'.id := by
  rw [Substitution.before_eq_false, hu.2, hu'.2, hc u hu.1, hc u' hu'.1, DateTime.toRfc3339_lt_iff hu.1 hu'.1]
  refine or_congr_right (and_congr_left fun _ => ⟨?_, fun h => by rw [h]⟩)
  exact DateTime.toRfc3339_inj hu.1 hu'.1

theorem id_inj (hw : Written codec t) (hm : row ∈ t.rows) (hm' : row' ∈ t.rows) (hid : row.id = row'.id) :
    row = row' :=
  List.inj_on_of_nodup_map hw.key hm hm' hid

theorem leastRow_of_pick (hc : PrintsYears codec) (hw : Written codec t) (hnow : now.InYears)
    (hp : t.pick queues (codec.toRfc3339 now) = some row) : ∃ u, LeastRow codec t queues now row u := by
  obtain ⟨hm, hmatch⟩ := List.mem_filter.mp (first_mem hp)
  obtain ⟨u, hu⟩ := hw.scheduled row hm
  refine ⟨u, (matches_iff hc hnow hu hm).mp hmatch, fun row' u' hwait hne => ?_⟩
  have hm' : row' ∈ t.rows.filter (SqliteTable.matchesPull queues (codec.toRfc3339 now)) :=
    List.mem_filter.mpr ⟨hwait.mem, (matches_iff hc hnow hwait.scheduled hwait.mem).mpr hwait⟩
  have hbefore := (not_before_iff hc hu hwait.scheduled).mp (Substitution.not_before_first hp row' hm')
  refine hbefore.imp_right (And.imp_right fun hle => lt_of_le_of_ne hle fun hid => ?_)
  exact hne (id_inj hw hm hwait.mem hid).symm

/-- The statement matches none of the rows. -/
theorem not_matches_of_pick {nowIso : String} (hp : t.pick queues nowIso = none) (hm : row ∈ t.rows) :
    ¬ SqliteTable.matchesPull queues nowIso row = true := by
  intro hmatch
  have hsome := Substitution.first_isSome.mpr (List.ne_nil_of_mem (List.mem_filter.mpr ⟨hm, hmatch⟩))
  rw [show SqliteTable.first _ = none from hp] at hsome
  cases hsome

theorem pick_eq_none (hc : PrintsYears codec) (hnow : now.InYears)
    (hp : t.pick queues (codec.toRfc3339 now) = none) : ∀ row u, ¬ WaitingRow codec t queues now row u := by
  intro row u hwait
  exact not_matches_of_pick hp hwait.mem ((matches_iff hc hnow hwait.scheduled hwait.mem).mpr hwait)

/-- The update of a row by its key. -/
theorem moved_update (hw : Written codec t) (hm : row ∈ t.rows) : Moved row t (t.update row.id SqliteTable.handOut) := by
  obtain ⟨pre, post, hrows⟩ := List.append_of_mem hm
  have hkey := hw.key
  rw [hrows, List.map_append, List.map_cons, List.nodup_append] at hkey
  obtain ⟨-, hpost, hpre⟩ := hkey
  have hkeep : ∀ rows : List SqliteJobRow, (∀ x ∈ rows, x.id ≠ row.id) →
      rows.map (fun x => if x.id = row.id then SqliteTable.handOut x else x) = rows := fun rows hne =>
    (List.map_congr_left fun x hx => if_neg (hne x hx)).trans (List.map_id' rows)
  refine ⟨rfl, pre, post, hrows, ?_⟩
  rw [SqliteTable.update, hrows, List.map_append, List.map_cons, if_pos rfl, hkeep pre, hkeep post]
  · rfl
  · exact fun x hx hid => (List.nodup_cons.mp hpost).1 (hid ▸ List.mem_map_of_mem hx)
  · exact fun x hx hid => hpre _ (List.mem_map_of_mem hx) _ List.mem_cons_self hid

/-! ## Tables that calls lead to -/

theorem inv_run {call : SqlCall} {t' : SqliteTable} (h : Inv codec t) (hs : call.run codec t = some t') :
    Inv codec t' := by
  cases call with
  | enqueue job now fault =>
    cases hs
    rcases enqueue_cases h job now fault with ⟨e, he⟩ | ⟨id, t', he, hi, -⟩ <;> rw [he]
    · exact h
    · exact hi
  | pullNext queues now fault =>
    cases hs
    cases fault with
    | some e =>
      obtain ⟨result, he, -⟩ := pull_refused codec queues now e t
      rw [he]
      exact h
    | none =>
      by_cases hl : Loses codec queues now t
      · obtain ⟨e, id, v, t', he, hi, -⟩ := pull_lost h hl
        rw [he]
        exact hi
      · rcases pull_cases h hl with he | ⟨r, v, t', he, hi, -⟩ <;> rw [he]
        · exact h
        · exact hi
  | markCompleted id fault =>
    cases hs
    cases fault with
    | some e => exact h
    | none =>
      show Inv codec (t.update (idToI64 id) fun row => { row with status := "Completed" })
      exact h.mark (fun _ => rfl) (fun _ => rfl) fun _ => rfl
  | markFailed id error next fault =>
    cases hs
    cases fault with
    | some e => exact h
    | none =>
      cases next with
      | none =>
        show Inv codec (t.update (idToI64 id) fun row => { row with status := "Dead", lastError := some error })
        exact h.mark (fun _ => rfl) (fun _ => rfl) fun _ => rfl
      | some at_ =>
        show Inv codec (t.update (idToI64 id) fun row =>
          { row with status := "Retrying", lastError := some error, scheduledAt := codec.toRfc3339 at_ })
        exact h.mark (fun _ => rfl) (fun _ => rfl) fun _ => rfl

/-- A statement that leaves the rows' times as they are, or sets them to an
instant of the years. -/
theorem scheduled_update {set : SqliteJobRow → SqliteJobRow} (id : Int)
    (h : ∀ row ∈ t.rows, ∃ u, ScheduledFor codec row u)
    (hset : ∀ row, (∃ u, ScheduledFor codec row u) → ∃ u, ScheduledFor codec (set row) u) :
    ∀ row ∈ (t.update id set).rows, ∃ u, ScheduledFor codec row u := by
  intro row hm
  obtain ⟨row₀, hm₀, rfl⟩ := List.mem_map.mp hm
  split
  · exact hset row₀ (h row₀ hm₀)
  · exact h row₀ hm₀

theorem scheduled_run {call : SqlCall} {t' : SqliteTable} (h : ∀ row ∈ t.rows, ∃ u, ScheduledFor codec row u)
    (hy : call.InYears) (hs : call.run codec t = some t') : ∀ row ∈ t'.rows, ∃ u, ScheduledFor codec row u := by
  cases call with
  | enqueue job now fault =>
    cases hs
    unfold SqliteTable.enqueue
    split
    · exact h
    · exact h
    · split
      · intro row hm
        rcases List.mem_append.mp hm with hm | hm
        · exact h row hm
        · obtain rfl := List.mem_singleton.mp hm
          exact ⟨job.scheduledAt, hy, rfl⟩
      · exact h
  | pullNext queues now fault =>
    cases hs
    unfold SqliteTable.pullNext
    split
    · exact h
    · split
      · exact h
      · exact h
      · exact scheduled_update _ h fun row hu => hu
  | markCompleted id fault =>
    cases hs
    cases fault with
    | some e => exact h
    | none => exact scheduled_update _ h fun row hu => hu
  | markFailed id error next fault =>
    cases hs
    cases fault with
    | some e => exact h
    | none =>
      cases next with
      | none => exact scheduled_update _ h fun row hu => hu
      | some at_ => exact scheduled_update _ h fun row _ => ⟨at_, hy at_ rfl, rfl⟩

theorem inv_of_reach {ok : SqliteTable → SqlCall → Prop}
    (h : Reach (SqlCall.run codec) (· = ⟨0, []⟩) ok t) : Inv codec t :=
  h.invariant_from inv_new fun hi _ hs => inv_run hi hs

/-- What `enqueue` and `mark_failed` write in these years. -/
theorem written_of_sqlReachable (h : SqlReachable codec t) : Written codec t := by
  have hscheduled : ∀ row ∈ t.rows, ∃ u, ScheduledFor codec row u :=
    h.invariant_from (fun row hm => absurd hm List.not_mem_nil) scheduled_run
  exact ⟨(inv_of_reach h).nodup, hscheduled⟩

/-! ## The pull -/

theorem pullNext_of_none (now : DateTime) (hp : t.pick queues (codec.toRfc3339 now) = none) :
    SqliteTable.pullNext codec queues now none t = (.ok none, t) := by
  unfold SqliteTable.pullNext
  rw [hp]
  exact ite_self _

theorem chronological_of_written (hc : PrintsYears codec) (hw : Written codec t) (hnow : now.InYears)
    (hq : queues ≠ []) : Chronological codec t queues now := by
  cases hp : t.pick queues (codec.toRfc3339 now) with
  | none =>
    have hnone := pick_eq_none hc hnow hp
    have hpull := pullNext_of_none now hp
    refine ⟨iff_of_true (by rw [hpull]) hnone, fun _ => by rw [hpull], ?_⟩
    rintro ⟨row, u, hwait⟩
    exact absurd hwait (hnone row u)
  | some row =>
    obtain ⟨u, hleast⟩ := leastRow_of_pick hc hw hnow hp
    have hpull := pullNext_of_pick now hq hp
    have hsome : (SqliteTable.pullNext codec queues now none t).1 ≠ .ok none := by
      rw [hpull]
      cases (SqliteTable.handOut row).intoRecord codec <;> exact fun hc => by cases hc
    refine ⟨iff_of_false hsome fun hno => hno row u hleast.1, fun hc => absurd hc hsome, fun _ => ?_⟩
    refine ⟨row, u, hleast, ?_⟩
    rw [hpull]
    exact moved_update hw hleast.1.mem

/-- A pull of the SQLite store is chronological, although times are stored as
text: for any table whose times were written in the years 0 to 9999. -/
theorem pull_chronological (codec : Codec) (hc : PrintsYears codec) (t : SqliteTable) (hw : Written codec t)
    (queues : List String) (hq : queues ≠ []) (now : DateTime) (hnow : now.InYears) :
    Chronological codec t queues now :=
  chronological_of_written hc hw hnow hq

/-- A job scheduled for a fraction of a second before another one. -/
theorem chronological_fractions :
    Chronological nullCodec
      ⟨2, [SqliteTable.newRow nullCodec 1 (letter "mail") "null" DateTime.epoch,
        SqliteTable.newRow nullCodec 2 { letter "mail" with scheduledAt := ⟨-1, by decide, by decide⟩ } "null"
          DateTime.epoch]⟩ ["mail"] DateTime.epoch := by
  have start : SqlReachable nullCodec ⟨0, []⟩ := .init rfl
  have first := start.step (a := SqlCall.enqueue (letter "mail") DateTime.epoch none)
    (show DateTime.epoch.InYears by decide) rfl
  have second := first.step (a := SqlCall.enqueue { letter "mail" with scheduledAt := ⟨-1, by decide, by decide⟩ }
    DateTime.epoch none) (show DateTime.InYears ⟨-1, by decide, by decide⟩ by decide) rfl
  exact pull_chronological nullCodec (fun _ _ => rfl) _ (written_of_sqlReachable second) ["mail"] (by decide)
    DateTime.epoch (by decide)

end Sqlite

end WalaStack.Proof.Jobs
