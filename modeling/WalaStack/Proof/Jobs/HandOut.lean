import WalaStack.Proof.Jobs.Desk
import WalaStack.Proof.Jobs.InMemory
import WalaStack.Proof.Jobs.Sqlite

/-!
# Handing out jobs, by the two providers

`hand_out` for the stores of the crate. The attempts of an `InMemoryJobStore`
stop counting at `u32::MAX`: a job pulled and put back without end is at last
pulled twice with one number (`not_numbered`).
-/

namespace WalaStack.Proof.Jobs

open WalaStack.Rust WalaStack.Impl.Jobs WalaStack.Spec.Jobs WalaStack.Transition

/-- A job is pulled again only after its mark; its pulls are numbered in
order, up to `u32::MAX`; and if the workers decide as `dispatch_one` does,
they are within its budget and all so numbered. -/
theorem hand_out {S : JobStore} (hS : Shipped S) {d : Desk S} (h : DeskReachable S d) :
    Exclusive d.history ∧ NumberedUpTo u32Max d.history ∧
      (DecidingReachable S d → Budgeted d.history ∧ Numbered d.history) := by
  cases hS with
  | inMemory => exact hand_out_of_provider (P := inMemory) h
  | sqlite codec => exact hand_out_of_provider (P := sqlite codec) h

/-- A job for the default queue. -/
def mail : NewJob := ⟨⟨"mail"⟩, .null, "default", U32.max, DateTime.epoch⟩

/-- The job is put back by the worker that pulled it, and another gives it up. -/
theorem hand_out_mail : ∃ d : Desk InMemoryJobStore,
    (pulls d.history ⟨1⟩).map (fun r => r.attempt.val) = [1, 2] ∧ DecidingReachable InMemoryJobStore d ∧
      (Exclusive d.history ∧ NumberedUpTo u32Max d.history ∧
        (DecidingReachable InMemoryJobStore d → Budgeted d.history ∧ Numbered d.history)) := by
  have start : DecidingReachable InMemoryJobStore (Desk.new _) := .init rfl
  have enqueued := start.step (a := DeskAction.enqueue { mail with maxAttempts := 2 } DateTime.epoch ()) trivial rfl
  have pulled := enqueued.step (a := DeskAction.pull 0 ["default"] DateTime.epoch ()) trivial rfl
  have retrying := pulled.step (a := DeskAction.mark 0 (.failed "refused" (some DateTime.epoch)) ())
    (fun r hr => Option.some.inj hr ▸ Nat.one_lt_two) rfl
  have again := retrying.step (a := DeskAction.pull 1 ["default"] DateTime.epoch ()) trivial rfl
  have dead := again.step (a := DeskAction.mark 1 (.failed "refused" none) ()) (fun r hr => trivial) rfl
  exact ⟨_, rfl, dead, hand_out .inMemory (dead.mono fun _ _ _ => trivial)⟩

/-! ## A job that is retried without end -/

/-- The job has been pulled and put back `n` times. -/
structure Round (d : Desk InMemoryJobStore) (n : Nat) : Prop where
  reach : DeskReachable InMemoryJobStore d
  free : d.held 0 = none
  queue : InMemoryStoreInner.queues d.store "default" = [1]
  record : ∃ r, InMemoryStoreInner.records d.store 1 = some r ∧ r.id = ⟨1⟩ ∧ r.queue = "default" ∧
    r.status.waiting = true ∧ r.scheduledAt = DateTime.epoch ∧ r.attempt.val = min n u32Max
  pulled : (pulls d.history ⟨1⟩).length = n

theorem round_zero : ∃ d, Round d 0 := by
  have start : DeskReachable InMemoryJobStore (Desk.new _) := .init rfl
  have enqueued := start.step (a := DeskAction.enqueue mail DateTime.epoch ()) trivial rfl
  exact ⟨_, enqueued, rfl, rfl, ⟨_, rfl, rfl, rfl, rfl, rfl, rfl⟩, rfl⟩

theorem pullNext_single {inner : InMemoryStoreInner} {r : JobRecord} (hq : inner.queues "default" = [1])
    (hr : inner.records 1 = some r) (hw : r.status.waiting = true) (hat : r.scheduledAt = DateTime.epoch) :
    inner.pullNext ["default"] DateTime.epoch =
      (.ok (some (InMemoryStoreInner.handOut r)),
        (inner.removeAt "default" 0).insert 1 (InMemoryStoreInner.handOut r)) := by
  have he : InMemoryStoreInner.eligible DateTime.epoch r = true := by
    rw [InMemoryStoreInner.eligible, hw, hat]
    rfl
  have hp : inner.pick DateTime.epoch "default" = some (1, 0) := by
    simp [InMemoryStoreInner.pick, hq, hr, he]
  simp only [InMemoryStoreInner.pullNext, InMemoryStoreInner.pullFrom, hp, hr]

/-- The record put back. -/
def putBack (r : JobRecord) : JobRecord :=
  { InMemoryStoreInner.handOut r with status := .retrying, scheduledAt := DateTime.epoch }

theorem markFailed_single {inner : InMemoryStoreInner} {r : JobRecord} :
    ((inner.removeAt "default" 0).insert 1 (InMemoryStoreInner.handOut r)).markFailed ⟨1⟩ "refused"
        (some DateTime.epoch) =
      (.ok (), (((inner.removeAt "default" 0).insert 1 (InMemoryStoreInner.handOut r)).insert 1 (putBack r)).pushBack
        r.queue 1) := by
  simp only [InMemoryStoreInner.markFailed, InMemoryStoreInner.insert, Function.update_self]
  rfl

/-- The store after one more pull. -/
def pulledOnce (inner : InMemoryStoreInner) (r : JobRecord) : InMemoryStoreInner :=
  (inner.removeAt "default" 0).insert 1 (InMemoryStoreInner.handOut r)

/-- The callers after one more round. -/
def retried (d : Desk InMemoryJobStore) (r : JobRecord) : Desk InMemoryJobStore where
  store := ((pulledOnce d.store r).insert 1 (putBack r)).pushBack r.queue 1
  held := Function.update (Function.update d.held 0 (some (InMemoryStoreInner.handOut r))) 0 none
  history := (d.history ++ [.pulled 0 (InMemoryStoreInner.handOut r)]) ++ [.marked 0 ⟨1⟩]

theorem Round.reach_retried {d : Desk InMemoryJobStore} {n : Nat} {r : JobRecord} (h : Round d n)
    (hr : InMemoryStoreInner.records d.store 1 = some r) (hid : r.id = ⟨1⟩) (hw : r.status.waiting = true)
    (hat : r.scheduledAt = DateTime.epoch) : DeskReachable InMemoryJobStore (retried d r) := by
  have hpull : d.step (.pull 0 ["default"] DateTime.epoch ()) = some ⟨pulledOnce d.store r,
      Function.update d.held 0 (some (InMemoryStoreInner.handOut r)),
      d.history ++ [.pulled 0 (InMemoryStoreInner.handOut r)]⟩ := by
    simp only [Desk.step, h.free, InMemoryJobStore, pullNext_single h.queue hr hw hat, pulledOnce]
  have pulled := h.reach.step (a := DeskAction.pull 0 ["default"] DateTime.epoch ()) trivial hpull
  refine pulled.step (a := DeskAction.mark 0 (.failed "refused" (some DateTime.epoch)) ()) trivial ?_
  have hid' : (InMemoryStoreInner.handOut r).id = ⟨1⟩ := hid
  simp only [Desk.step, Function.update_self, JobStore.mark, InMemoryJobStore, hid', pulledOnce,
    markFailed_single, retried]

/-- One more round, whose pull is the next one. -/
theorem Round.succ {d : Desk InMemoryJobStore} {n : Nat} (h : Round d n) :
    ∃ d' r, Round d' (n + 1) ∧ (pulls d'.history ⟨1⟩)[n]? = some r ∧ r.attempt.val = min (n + 1) u32Max := by
  obtain ⟨r, hr, hid, hq, hw, hat, ha⟩ := h.record
  have hnext : (InMemoryStoreInner.handOut r).attempt.val = min (n + 1) u32Max := by
    show min (r.attempt.val + 1) u32Max = _
    omega
  have hpulls : pulls (retried d r).history ⟨1⟩ = pulls d.history ⟨1⟩ ++ [InMemoryStoreInner.handOut r] := by
    rw [retried, pulls_marked, ← show (InMemoryStoreInner.handOut r).id = ⟨1⟩ from hid, pulls_pulled_self]
  refine ⟨retried d r, InMemoryStoreInner.handOut r,
    ⟨h.reach_retried hr hid hw hat, ?_, ?_, ⟨putBack r, ?_, hid, hq, rfl, rfl, hnext⟩, ?_⟩, ?_, hnext⟩
  · simp only [retried, Function.update_self]
  · simp [retried, pulledOnce, InMemoryStoreInner.pushBack, InMemoryStoreInner.insert,
      InMemoryStoreInner.removeAt, hq, h.queue]
  · simp [retried, InMemoryStoreInner.pushBack, InMemoryStoreInner.insert]
  · rw [hpulls, List.length_append, h.pulled, List.length_singleton]
  · rw [hpulls, List.getElem?_append_right (Nat.le_of_eq h.pulled), h.pulled, Nat.sub_self]
    rfl

theorem exists_round (n : Nat) : ∃ d, Round d n := by
  induction n with
  | zero => exact round_zero
  | succ n ih =>
    obtain ⟨d, hd⟩ := ih
    obtain ⟨d', -, hd', -⟩ := hd.succ
    exact ⟨d', hd'⟩

/-- The pull number `2 ^ 32` of a job carries the attempt of the one before. -/
theorem not_numbered : ¬ ∀ d, DeskReachable InMemoryJobStore d → Exclusive d.history ∧ Numbered d.history := by
  intro h
  obtain ⟨d, hd⟩ := exists_round u32Max
  obtain ⟨d', r, hd', hr, ha⟩ := hd.succ
  have hn := (h d' hd'.reach).2 ⟨1⟩ u32Max r hr
  rw [ha, Nat.min_eq_right (Nat.le_succ _)] at hn
  exact absurd hn (Nat.ne_of_lt (Nat.lt_succ_self _))

end WalaStack.Proof.Jobs
