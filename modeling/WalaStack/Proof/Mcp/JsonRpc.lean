import WalaStack.Spec.JsonRpc

/-!
# What `parse_incoming` accepts

`parse_incoming` looks for the key `id`: with it, a line is a response or an
error (`parseIncoming_of_id`), without it a notification whatever else it
holds (`parseIncoming_of_no_id`). `parse_accepts_iff` says on which values that
is the grammar of incoming messages.
-/

namespace WalaStack.Proof.Mcp

open WalaStack.Rust WalaStack.Rust.Json WalaStack.Impl.Mcp WalaStack.Spec.JsonRpc

variable {fromStr : String → Except Error Value} {line : String} {v : Value}

theorem isObject_of_get {key : String} {u : Value} (h : v.get key = some u) :
    ∃ entries, v = .object entries := by
  cases v with
  | object entries => exact ⟨entries, rfl⟩
  | _ => cases h

/-- Without an id every value is a notification. -/
theorem parseIncoming_of_no_id (hv : fromStr line = .ok v) (hid : v.get "id" = none) :
    ∃ method params, parseIncoming fromStr line = .ok (.notification method params) := by
  simp only [parseIncoming, hv, hid, Option.isSome_none, Bool.false_eq_true, ite_false, bind, Except.bind]
  exact ⟨_, _, rfl⟩

/-- With an id that is no `u64`, it is an error. -/
theorem parseIncoming_of_bad_id (hv : fromStr line = .ok v) {id : Value} (hid : v.get "id" = some id)
    (hn : id.asU64 = none) : ∃ e, parseIncoming fromStr line = .error e := by
  obtain ⟨entries, rfl⟩ := isObject_of_get hid
  refine ⟨.invalidType "id", ?_⟩
  simp [parseIncoming, hv, hid, bind, Except.bind, JsonRpcResponse.fromValue, JsonRpcResponse.ofFields,
    required, hn]

/-- With a `u64` id it is a response, unless its `error` member does not
decode. -/
theorem parseIncoming_of_id (hv : fromStr line = .ok v) {id : Value} {n : U64} (hid : v.get "id" = some id)
    (hn : id.asU64 = some n) :
    parseIncoming fromStr line =
      (optionalError (v.get "error")).map fun e => .response ⟨n, optional (v.get "result"), e⟩ := by
  obtain ⟨entries, rfl⟩ := isObject_of_get hid
  simp only [parseIncoming, hv, hid, Option.isSome_some, ite_true, bind, Except.bind,
    JsonRpcResponse.fromValue, JsonRpcResponse.ofFields, required, hn]
  cases optionalError ((Value.object entries).get "error") <;> rfl

section

variable {e : Error} {r : JsonRpcResponse} {method : String} {params : Value}

/-- When a verdict is the grammar's, by kind. -/
theorem accepts_error : Accepts v (.error e) ↔ ¬ IsResponse v ∧ ¬ IsNotification v := by
  simp only [Accepts, reduceCtorEq, exists_false, false_iff, Except.error.injEq, exists_eq', true_iff]
  exact ⟨fun h => h.2.2, fun h => ⟨h.1, h.2, h⟩⟩

theorem not_both (h : IsResponse v) : ¬ IsNotification v := by
  obtain ⟨-, ⟨id, n, hid, -⟩, -⟩ := h
  rintro ⟨-, hno, -⟩
  rw [hid] at hno
  cases hno

theorem accepts_response : Accepts v (.ok (.response r)) ↔ IsResponse v := by
  simp only [Accepts, Except.ok.injEq, IncomingMessage.response.injEq, exists_eq', true_iff, reduceCtorEq,
    exists_false, false_iff]
  exact ⟨fun h => h.1, fun h => ⟨h, not_both h, fun hn => hn.1 h⟩⟩

theorem accepts_notification : Accepts v (.ok (.notification method params)) ↔ IsNotification v := by
  simp only [Accepts, Except.ok.injEq, reduceCtorEq, exists_false, false_iff]
  exact ⟨fun h => h.2.1.mp ⟨method, params, rfl⟩,
    fun h => ⟨fun hr => not_both hr h, ⟨fun _ => h, fun _ => ⟨method, params, rfl⟩⟩, fun hn => hn.2 h⟩⟩

end

/-- `parse_incoming` gives the grammar's verdict on a line that holds the value
`v` exactly if `v` is `Plain`. -/
theorem parse_accepts_iff (hv : fromStr line = .ok v) :
    Accepts v (parseIncoming fromStr line) ↔ Plain v := by
  cases hid : v.get "id" with
  | none =>
    obtain ⟨method, params, hp⟩ := parseIncoming_of_no_id hv hid
    rw [hp, accepts_notification]
    simp only [IsNotification, Plain, hid, true_and]
  | some id =>
    have hobj := isObject_of_get hid
    have hnot : ¬ IsNotification v := fun h => by have := h.2.1; rw [hid] at this; cases this
    cases hn : id.asU64 with
    | none =>
      obtain ⟨e, he⟩ := parseIncoming_of_bad_id hv hid hn
      have hres : ¬ IsResponse v := by
        rintro ⟨-, ⟨id', n, hid', hn'⟩, -⟩
        rw [hid] at hid'
        cases hid'
        rw [hn] at hn'
        cases hn'
      simp only [he, accepts_error, Plain, hid, hn, true_or, hobj, hres, hnot, not_false_eq_true, true_and]
    | some n =>
      have hres : IsResponse v ↔ v.get "method" = none ∧ OneOutcome v := by
        simp only [IsResponse, hobj, true_and]
        exact ⟨fun h => h.2, fun h => ⟨⟨id, n, hid, hn⟩, h⟩⟩
      have hplain : Plain v ↔ (ErrorDecodes v ↔ IsResponse v) := by
        simp only [Plain, hobj, true_and, hid, hn, reduceCtorEq, false_or, hres]
      rw [parseIncoming_of_id hv hid hn, hplain]
      cases he : optionalError (v.get "error") with
      | error e =>
        have : ¬ ErrorDecodes v := by rintro ⟨x, hx⟩; rw [he] at hx; cases hx
        simp only [Except.map, accepts_error, hnot, not_false_eq_true, and_true, this, false_iff]
      | ok e =>
        have : ErrorDecodes v := ⟨e, he⟩
        simp only [Except.map, accepts_response, this, true_iff]

/-- A reader of one line that holds the value `v`. -/
def reads (text : String) (v : Value) (line : String) : Except Error Value :=
  if line = text then .ok v else .error (.malformed "expected value")

theorem reads_self (text : String) (v : Value) : reads text v text = .ok v := if_pos rfl

/-- The id of the client's first request, and of a server's. -/
def firstId : Value := .number (.posInt 1)

/-- A request of the server, `roots/list`. -/
def serverRequest : Value := .object [("id", firstId), ("method", .string "roots/list")]

def serverRequestLine : String := "\x7b\"id\":1,\"method\":\"roots/list\"\x7d"

/-- A response, with the result `null`. -/
def nullResponse : Value := .object [("id", firstId), ("result", .null)]

def nullResponseLine : String := "\x7b\"id\":1,\"result\":null\x7d"

theorem parse_accepts_response :
    Accepts nullResponse (parseIncoming (reads nullResponseLine nullResponse) nullResponseLine) :=
  (parse_accepts_iff (reads_self _ _)).mpr
    ⟨⟨_, rfl⟩, .inr ⟨fun _ => ⟨rfl, fun h => Bool.noConfusion h⟩, fun _ => ⟨none, rfl⟩⟩⟩

/-- The server's request is taken for a response to the client's own. -/
theorem parse_misreads_request :
    ¬ Accepts serverRequest (parseIncoming (reads serverRequestLine serverRequest) serverRequestLine) := by
  rw [parseIncoming_of_id (reads_self _ _) (show serverRequest.get "id" = some firstId from rfl) rfl]
  rintro ⟨h, -⟩
  have hm : serverRequest.get "method" = none := (h.mp ⟨_, rfl⟩).2.2.1
  cases hm

end WalaStack.Proof.Mcp
