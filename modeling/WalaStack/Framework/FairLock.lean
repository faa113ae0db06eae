import Mathlib.Data.List.Basic

/-!
# Fair reader-writer locks

At most `max` readers or one writer hold a lock. Who cannot have it at once
joins a queue, and is served in the order of the queue: none overtakes the
head (`Sound`). A try does not queue, so that it fails behind any writer that
holds the lock or waits for it (`tryRead_eq_none_iff`).

* `request`, `tryRead`, `leave`: the operations, each with what it keeps of the
  readers.
* `Sound.readers_eq_nil`: a writer excludes the readers.
-/

namespace WalaStack

inductive Mode
  | read
  | write
deriving DecidableEq, Repr

structure FairLock (ι : Type*) where
  readers : List ι
  writer : Option ι
  /-- Who waits, the first to be served first. -/
  queue : List (Mode × ι)
deriving Repr

namespace FairLock

variable {ι : Type*} {max : Nat} {l : FairLock ι} {i j : ι} {mode : Mode}

def new : FairLock ι := ⟨[], none, []⟩

/-- Whether these holders leave room for one more. -/
def Admits (max : Nat) (readers : List ι) (writer : Option ι) : Mode → Prop
  | .read => writer = none ∧ readers.length < max
  | .write => writer = none ∧ readers.length = 0

instance (max : Nat) (readers : List ι) (writer : Option ι) (mode : Mode) : Decidable (Admits max readers writer mode) :=
  match mode with
  | .read => inferInstanceAs (Decidable (_ ∧ _))
  | .write => inferInstanceAs (Decidable (_ ∧ _))

/-- The lock is given to the head of the queue, and again, while it can be. -/
def serve (max : Nat) (readers : List ι) (writer : Option ι) : List (Mode × ι) → FairLock ι
  | [] => ⟨readers, writer, []⟩
  | (mode, i) :: queue =>
    if Admits max readers writer mode then
      match mode with
      | .read => serve max (i :: readers) writer queue
      | .write => serve max readers (some i) queue
    else ⟨readers, writer, (mode, i) :: queue⟩

def request (max : Nat) (l : FairLock ι) (mode : Mode) (i : ι) : FairLock ι :=
  serve max l.readers l.writer (l.queue ++ [(mode, i)])

/-- A try to read. -/
def tryRead (max : Nat) (l : FairLock ι) (i : ι) : Option (FairLock ι) :=
  if l.queue = [] ∧ Admits max l.readers l.writer .read then some { l with readers := i :: l.readers } else none

/-- `i` gives up the lock, or its place in the queue. -/
def leave [DecidableEq ι] (max : Nat) (l : FairLock ι) (i : ι) : FairLock ι :=
  serve max (l.readers.erase i) (if l.writer = some i then none else l.writer) (l.queue.filter fun e => e.2 ≠ i)

/-- A writer holds the lock or waits for it, or there is no room for a reader. -/
def Busy (max : Nat) (l : FairLock ι) : Prop :=
  l.writer.isSome = true ∨ (∃ e ∈ l.queue, e.1 = .write) ∨ max ≤ l.readers.length

instance (max : Nat) (l : FairLock ι) : Decidable (Busy max l) := inferInstanceAs (Decidable (_ ∨ _ ∨ _))

/-! ## Soundness -/

/-- A writer holds the lock alone, and the head of the queue has to wait. -/
structure Sound (max : Nat) (l : FairLock ι) : Prop where
  alone : l.writer.isSome = true → l.readers = []
  waits : ∀ e ∈ l.queue.head?, ¬ Admits max l.readers l.writer e.1

theorem sound_new : Sound max (new : FairLock ι) := ⟨fun _ => rfl, fun e he => by cases he⟩

theorem Sound.readers_eq_nil (h : Sound max l) (hw : l.writer = some i) : l.readers = [] :=
  h.alone (by rw [hw]; rfl)

theorem sound_serve {readers : List ι} {writer : Option ι} {queue : List (Mode × ι)}
    (h : writer.isSome = true → readers = []) : Sound max (serve max readers writer queue) := by
  induction queue generalizing readers writer with
  | nil => exact ⟨h, fun e he => by cases he⟩
  | cons e queue ih =>
    obtain ⟨mode, i⟩ := e
    unfold serve
    split
    · rename_i ha
      cases mode with
      | read =>
        refine ih fun hw => ?_
        rw [ha.1] at hw
        cases hw
      | write => exact ih fun _ => List.length_eq_zero_iff.mp ha.2
    · rename_i ha
      refine ⟨h, fun e he => ?_⟩
      obtain rfl := Option.some.inj he
      exact ha

theorem Sound.request (h : Sound max l) (mode : Mode) (i : ι) : Sound max (l.request max mode i) := sound_serve h.alone

theorem Sound.tryRead {l' : FairLock ι} (h : l.tryRead max i = some l') : Sound max l' := by
  unfold FairLock.tryRead at h
  split at h
  · rename_i ha
    obtain rfl := Option.some.inj h
    refine ⟨fun hw => ?_, fun e he => ?_⟩
    · rw [show l.writer = none from ha.2.1] at hw
      cases hw
    · rw [show l.queue = [] from ha.1] at he
      cases he
  · cases h

theorem Sound.leave [DecidableEq ι] (h : Sound max l) (i : ι) : Sound max (l.leave max i) := by
  refine sound_serve fun hw => ?_
  split at hw
  · cases hw
  · rw [h.alone hw, List.erase_nil]

/-- When a try fails. -/
theorem tryRead_eq_none_iff (h : Sound max l) (i : ι) : l.tryRead max i = none ↔ Busy max l := by
  unfold FairLock.tryRead
  split
  · rename_i ha
    refine ⟨fun hn => absurd hn (Option.some_ne_none _), fun hb => ?_⟩
    rcases hb with hw | ⟨e, he, -⟩ | hm
    · rw [ha.2.1] at hw
      cases hw
    · rw [ha.1] at he
      cases he
    · exact absurd ha.2.2 (by omega)
  · rename_i ha
    refine ⟨fun _ => ?_, fun _ => rfl⟩
    by_contra hb
    simp only [Busy, not_or, Option.not_isSome_iff_eq_none, Nat.not_le] at hb
    obtain ⟨hw, hq, hm⟩ := hb
    refine ha ⟨?_, hw, hm⟩
    cases hqueue : l.queue with
    | nil => rfl
    | cons e queue =>
      have hwaits := h.waits e (by rw [hqueue]; rfl)
      cases hmode : e.1 with
      | read =>
        rw [hmode] at hwaits
        exact absurd ⟨hw, hm⟩ hwaits
      | write => exact absurd ⟨e, by rw [hqueue]; exact List.mem_cons_self, hmode⟩ hq

/-! ## Readers -/

theorem mem_readers_serve {readers : List ι} {writer : Option ι} {queue : List (Mode × ι)} (h : i ∈ readers) :
    i ∈ (serve max readers writer queue).readers := by
  induction queue generalizing readers writer with
  | nil => exact h
  | cons e queue ih =>
    obtain ⟨mode, j⟩ := e
    unfold serve
    split
    · cases mode with
      | read => exact ih (List.mem_cons_of_mem _ h)
      | write => exact ih h
    · exact h

theorem mem_readers_request (h : i ∈ l.readers) : i ∈ (l.request max mode j).readers := mem_readers_serve h

theorem readers_tryRead {l' : FairLock ι} (h : l.tryRead max i = some l') : l'.readers = i :: l.readers := by
  unfold tryRead at h
  split at h
  · obtain rfl := Option.some.inj h
    rfl
  · cases h

variable [DecidableEq ι]

theorem mem_readers_leave (h : i ∈ l.readers) (hij : i ≠ j) : i ∈ (l.leave max j).readers :=
  mem_readers_serve ((List.mem_erase_of_ne hij).mpr h)

end FairLock

end WalaStack
