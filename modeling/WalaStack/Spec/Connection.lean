import WalaStack.Framework.Transition
import WalaStack.Impl.Mcp.Connection

/-!
# Correlation of requests and responses

What the history of a connection says of its requests: their ids are
distinct, each completes with a response of its own id, and no response
completes two. `NeverLost` has the response arrive by an entry of the
history: where the reader reads it, or where it looks it up.
-/

namespace WalaStack.Spec.Mcp

open WalaStack.Rust WalaStack.Impl.Mcp WalaStack.Transition

/-- The states of a connection that has been opened. -/
abbrev ConnectionReachable (cfg : ConnectionConfig) : Connection → Prop :=
  Reach (Connection.step cfg) (fun s => ∃ now, s = .init now) fun _ _ => True

def isCalled : ConnectionEntry → Bool
  | .called _ => true
  | _ => false

/-- The number of requests made. -/
def requests (h : List ConnectionEntry) : Nat := h.countP isCalled

def DistinctIds (s : Connection) : Prop :=
  ∀ c c', .called c ∈ s.history → .called c' ∈ s.history → (s.calls c).id = (s.calls c').id → c = c'

/-- A request completes with a parsed response of its own id. -/
def OwnResponse (cfg : ConnectionConfig) (s : Connection) : Prop :=
  ∀ c n r, .completed c n r ∈ s.history →
    r.id = (s.calls c).id ∧ ∃ text, .read n text ∈ s.history ∧ Connection.responseOf cfg text = some r

/-- The response of a line completes at most one request. -/
def OneCompletion (s : Connection) : Prop :=
  ∀ c c' n r r', .completed c n r ∈ s.history → .completed c' n r' ∈ s.history → c = c'

/-- The reader reads a response to `id`. -/
def ReadFor (cfg : ConnectionConfig) (id : U64) (e : ConnectionEntry) : Prop :=
  ∃ n text r, e = .read n text ∧ Connection.responseOf cfg text = some r ∧ r.id = id

/-- The reader looks a response to `id` up. -/
def DispatchedFor (id : U64) (e : ConnectionEntry) : Prop :=
  ∃ n r, e = .dispatched n r ∧ r.id = id

/-- A response to `id` arrives after call `c` was written. -/
def Answered (arrives : ConnectionEntry → Prop) (c : Nat) (h : List ConnectionEntry) : Prop :=
  ∃ pre mid post e, h = pre ++ .written c :: (mid ++ e :: post) ∧ arrives e

/-- A request that was answered in time does not time out, nor fail for a
lost connection. -/
def NeverLost (arrives : U64 → ConnectionEntry → Prop) (s : Connection) : Prop :=
  ∀ pre post c x, s.history = pre ++ x :: post → x = .expired c ∨ x = .lost c →
    ¬ Answered (arrives (s.calls c).id) c pre

/-- A request that was answered and still waits has its response at hand. -/
def AtHand (arrives : U64 → ConnectionEntry → Prop) (s : Connection) : Prop :=
  ∀ c deadline, (s.calls c).phase = .waiting deadline → Answered (arrives (s.calls c).id) c s.history →
    ∃ n r, s.channels c = .sent n r

/-- A response that is read after its request timed out completes no request. -/
def LateIgnored (cfg : ConnectionConfig) (s : Connection) : Prop :=
  ∀ pre post c n text r, s.history = pre ++ .expired c :: post → .read n text ∈ post →
    Connection.responseOf cfg text = some r → r.id = (s.calls c).id → ∀ c' r', .completed c' n r' ∉ s.history

end WalaStack.Spec.Mcp
