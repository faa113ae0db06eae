import WalaStack.Impl.Mcp.JsonRpc

/-!
# The grammar of incoming messages

A line from an MCP server is a response to a request of the client, or a
notification. `Accepts` says that a parser's verdict on a value is the
grammar's; `Plain` are the values on which `parse_incoming` gives it.
-/

namespace WalaStack.Spec.JsonRpc

open WalaStack.Rust WalaStack.Rust.Json WalaStack.Impl.Mcp

/-- Exactly one of the members `result` and `error` is present. -/
def OneOutcome (v : Value) : Prop := (v.get "result").isSome ≠ (v.get "error").isSome

/-- A response: an object with a `u64` id, no method, and one outcome. -/
def IsResponse (v : Value) : Prop :=
  (∃ entries, v = .object entries) ∧ (∃ id n, v.get "id" = some id ∧ id.asU64 = some n) ∧
    v.get "method" = none ∧ OneOutcome v

/-- A notification: an object with a string method and no id. -/
def IsNotification (v : Value) : Prop :=
  (∃ entries, v = .object entries) ∧ v.get "id" = none ∧ ∃ method, v.get "method" = some (.string method)

/-- The verdict `out` on `v` is the grammar's. -/
def Accepts (v : Value) (out : Except Error IncomingMessage) : Prop :=
  ((∃ r, out = .ok (.response r)) ↔ IsResponse v) ∧
    ((∃ method params, out = .ok (.notification method params)) ↔ IsNotification v) ∧
    ((∃ e, out = .error e) ↔ ¬ IsResponse v ∧ ¬ IsNotification v)

/-- The `error` member, if there is one and it is not null, decodes as a
`JsonRpcError`: an object with an `i32` code and a string message, or an array
of these. -/
def ErrorDecodes (v : Value) : Prop := ∃ e, optionalError (v.get "error") = .ok e

/-- The values on which looking for an id is enough: an object with a string
method and no id; with an id that is no `u64`; or with a `u64` id, where the
`error` member decodes just if the object is a response. -/
def Plain (v : Value) : Prop :=
  (∃ entries, v = .object entries) ∧
    match v.get "id" with
    | none => ∃ method, v.get "method" = some (.string method)
    | some id => id.asU64 = none ∨ (ErrorDecodes v ↔ v.get "method" = none ∧ OneOutcome v)

end WalaStack.Spec.JsonRpc
