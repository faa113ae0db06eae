import WalaStack.Impl.Jobs.Store

/-!
# A job store with its callers

Enqueuers and workers around one store. A worker pulls a job, holds its
record, and marks that job or drops it (a worker that crashes). Each call of
the store is one step.
-/

namespace WalaStack.Impl.Jobs

open WalaStack.Rust

/-- How a worker reports the job it pulled. -/
inductive Mark
  | completed
  | failed (error : String) (nextAttemptAt : Option DateTime)
deriving Repr

/-- The call of the store that a report makes. -/
def JobStore.mark (S : JobStore) (id : JobId) : Mark → S.Env → S.State → Except JobsError Unit × S.State
  | .completed => S.markCompleted id
  | .failed error nextAttemptAt => S.markFailed id error nextAttemptAt

/-- What the store was told, and what it handed out. -/
inductive DeskEntry
  | enqueued (id : JobId) (job : NewJob)
  | pulled (worker : Nat) (record : JobRecord)
  /-- A mark that returned `Ok`. -/
  | marked (worker : Nat) (id : JobId)

structure Desk (S : JobStore) where
  store : S.State
  /-- The record each worker holds. -/
  held : Nat → Option JobRecord
  history : List DeskEntry

inductive DeskAction (Env : Type)
  | enqueue (job : NewJob) (now : DateTime) (env : Env)
  | pull (worker : Nat) (queues : List String) (now : DateTime) (env : Env)
  | mark (worker : Nat) (m : Mark) (env : Env)
  | crash (worker : Nat)

namespace Desk

variable {S : JobStore}

def new (S : JobStore) : Desk S := ⟨S.new, fun _ => none, []⟩

def enqueue (d : Desk S) (job : NewJob) (now : DateTime) (env : S.Env) : Except JobsError JobId × Desk S :=
  match S.enqueue job now env d.store with
  | (.ok id, store) => (.ok id, { d with store := store, history := d.history ++ [.enqueued id job] })
  | (.error e, store) => (.error e, { d with store := store })

def step (d : Desk S) : DeskAction S.Env → Option (Desk S)
  | .enqueue job now env => some (d.enqueue job now env).2
  | .pull i queues now env =>
    match d.held i with
    | some _ => none
    | none =>
      match S.pullNext queues now env d.store with
      | (.ok (some r), store) =>
        some ⟨store, Function.update d.held i (some r), d.history ++ [.pulled i r]⟩
      | (.ok none, store) | (.error _, store) => some { d with store := store }
  | .mark i m env =>
    match d.held i with
    | none => none
    | some r =>
      match S.mark r.id m env d.store with
      | (.ok (), store) => some ⟨store, Function.update d.held i none, d.history ++ [.marked i r.id]⟩
      | (.error _, store) => some { d with store := store, held := Function.update d.held i none }
  | .crash i => some { d with held := Function.update d.held i none }

end Desk

end WalaStack.Impl.Jobs
