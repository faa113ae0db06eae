import Mathlib.Data.List.Basic

/-!
# Cursors on a log of bounded retention

Of a log that grows at its end the last `size` entries are retained. A cursor
reads it entry by entry; one that has fallen behind the entries retained is told
how many it has missed, and goes on at the oldest of them (`read`). `Covers` is
that what a cursor has read accounts for every entry that it has passed, and
`not_lagged_of_le` that a cursor within the retention misses none.
-/

namespace WalaStack.Broadcast

variable {ε : Type*}

inductive Read (ε : Type*)
  | event (e : ε)
  | lagged (missed : Nat)
deriving DecidableEq, Repr

/-- What a cursor at `pos` reads, and where it goes on: `none` at the end of the
log. -/
def read (size : Nat) (log : List ε) (pos : Nat) : Option (Read ε × Nat) :=
  if pos + size < log.length then some (.lagged (log.length - size - pos), log.length - size)
  else
    match log[pos]? with
    | some e => some (.event e, pos + 1)
    | none => none

/-- The entries among what was read. -/
def events : List (Read ε) → List ε :=
  List.filterMap fun
    | .event e => some e
    | .lagged _ => none

/-- The entries missed. -/
def missed : List (Read ε) → Nat
  | [] => 0
  | .event _ :: rs => missed rs
  | .lagged n :: rs => n + missed rs

/-- From `pos` to `pos'`, each entry of the log is read, in its place, or
counted as missed. -/
inductive Covers (log : List ε) (pos : Nat) : List (Read ε) → Nat → Prop
  | nil : Covers log pos [] pos
  | event {rs : List (Read ε)} {pos' : Nat} {e : ε} : Covers log pos rs pos' → log[pos']? = some e →
      Covers log pos (rs ++ [.event e]) (pos' + 1)
  | lagged {rs : List (Read ε)} {pos' n : Nat} : Covers log pos rs pos' → 0 < n → pos' + n ≤ log.length →
      Covers log pos (rs ++ [.lagged n]) (pos' + n)

@[simp] theorem events_append (rs rs' : List (Read ε)) : events (rs ++ rs') = events rs ++ events rs' :=
  List.filterMap_append

@[simp] theorem events_event (e : ε) : events [Read.event e] = [e] := rfl

@[simp] theorem events_lagged (n : Nat) : events [(Read.lagged n : Read ε)] = [] := rfl

@[simp] theorem missed_append (rs rs' : List (Read ε)) : missed (rs ++ rs') = missed rs + missed rs' := by
  induction rs with
  | nil => simp [missed]
  | cons r rs ih =>
    cases r with
    | event e => exact ih
    | lagged n =>
      simp only [List.cons_append, missed, ih]
      omega

@[simp] theorem missed_event (e : ε) : missed [Read.event e] = 0 := rfl

@[simp] theorem missed_lagged (n : Nat) : missed [(Read.lagged n : Read ε)] = n := rfl

variable {size pos pos' : Nat} {log : List ε} {rs : List (Read ε)}

namespace Covers

theorem le (h : Covers log pos rs pos') : pos ≤ pos' := by
  induction h with
  | nil => exact Nat.le_refl _
  | event _ _ ih => omega
  | lagged _ _ _ ih => omega

theorem le_length (h : Covers log pos rs pos') (hpos : pos ≤ log.length) : pos' ≤ log.length := by
  cases h with
  | nil => exact hpos
  | event _ he => exact (List.getElem?_eq_some_iff.mp he).1
  | lagged _ _ hle => exact hle

/-- The log may grow. -/
theorem append (h : Covers log pos rs pos') (es : List ε) : Covers (log ++ es) pos rs pos' := by
  induction h with
  | nil => exact .nil
  | event _ he ih => exact .event ih (by rw [List.getElem?_append_left (List.getElem?_eq_some_iff.mp he).1, he])
  | lagged _ hn hle ih => exact .lagged ih hn (by rw [List.length_append]; omega)

/-- A read. -/
theorem read {r : Read ε} {next : Nat} (h : Covers log pos rs pos') (hr : read size log pos' = some (r, next)) :
    Covers log pos (rs ++ [r]) next := by
  unfold Broadcast.read at hr
  split at hr
  · rename_i hlt
    obtain ⟨rfl, rfl⟩ := Prod.mk.inj (Option.some.inj hr)
    have hnext : log.length - size = pos' + (log.length - size - pos') := by omega
    rw [hnext, Nat.add_sub_cancel_left]
    exact .lagged h (by omega) (by omega)
  · split at hr
    · rename_i e he
      obtain ⟨rfl, rfl⟩ := Prod.mk.inj (Option.some.inj hr)
      exact .event h he
    · cases hr

theorem length_add_missed (h : Covers log pos rs pos') : (events rs).length + missed rs = pos' - pos := by
  induction h with
  | nil => simp [events, missed]
  | event h _ ih =>
    have hle := h.le
    simp only [events_append, events_event, missed_append, missed_event, List.length_append, List.length_singleton]
    omega
  | lagged h _ _ ih =>
    have hle := h.le
    simp only [events_append, events_lagged, missed_append, missed_lagged, List.append_nil]
    omega

end Covers

/-- A cursor within the retention is not told of a lag. -/
theorem not_lagged_of_le {r : Read ε} {next : Nat} (h : log.length ≤ pos + size) (hr : read size log pos = some (r, next)) :
    ∃ e, r = .event e ∧ log[pos]? = some e ∧ next = pos + 1 := by
  unfold read at hr
  rw [if_neg (by omega)] at hr
  split at hr
  · rename_i e he
    obtain ⟨rfl, rfl⟩ := Prod.mk.inj (Option.some.inj hr)
    exact ⟨e, rfl, he, rfl⟩
  · cases hr

theorem mem_of_read {e : ε} {next : Nat} (hr : read size log pos = some (.event e, next)) : e ∈ log := by
  unfold read at hr
  split at hr
  · cases hr
  · split at hr
    · rename_i he
      cases hr
      exact List.mem_of_getElem? he
    · cases hr

/-- A cursor waits only at the end of the log. -/
theorem read_eq_none_iff : read size log pos = none ↔ log.length ≤ pos := by
  unfold read
  split
  · rename_i h
    simp only [reduceCtorEq, false_iff]
    omega
  · split
    · rename_i he
      have hlt := (List.getElem?_eq_some_iff.mp he).1
      simp only [reduceCtorEq, false_iff]
      omega
    · rename_i he
      simpa using he

end WalaStack.Broadcast
