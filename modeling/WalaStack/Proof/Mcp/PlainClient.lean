import WalaStack.Proof.Mcp.JsonRpc
import WalaStack.Rust.JsonText
import WalaStack.Spec.Framing

/-!
# A client of one result

Messages have the text of `serde_json` (`toVec`), and of a response the id is
read back from there (`idOf_messageOf`), so that this client can be run. Every
request has its id at this place (`idOf_request`), and no notification has one
(`idOf_notification`).
-/

namespace WalaStack.Proof.Mcp

open WalaStack.Rust WalaStack.Rust.Json WalaStack.Impl.Mcp WalaStack.Spec.Mcp WalaStack.Decimal

/-- What a message with an id begins with. -/
def opening : List Char :=
  ['\x7b', '"', 'j', 's', 'o', 'n', 'r', 'p', 'c', '"', ':', '"', '2', '.', '0', '"', ',', '"', 'i', 'd', '"', ':']

/-- The id on a line. -/
def idOf (line : List Char) : Option U64 :=
  let chars := (line.drop 22).takeWhile isDigit
  if chars = [] then none else (readDigits chars.length 0 chars).map fun n => .cast n.1

/-- A message with an id, and the rest of its line. -/
def messageOf (id : U64) (rest : List Char) : List Char := opening ++ (decimal id.val ++ rest)

theorem idOf_messageOf (id : U64) (rest : List Char) : idOf (messageOf id (',' :: rest)) = some id := by
  have hread : ((messageOf id (',' :: rest)).drop 22).takeWhile isDigit = decimal id.val := by
    have hdrop : (messageOf id (',' :: rest)).drop 22 = decimal id.val ++ ',' :: rest := rfl
    rw [hdrop, decimal, List.takeWhile_append_of_pos fun c hc => mem_digits hc,
      List.takeWhile_cons_of_neg (by decide), List.append_nil]
  have hlength : (decimal id.val).length = Nat.log 10 id.val + 1 := length_digits _ _
  have hne : decimal id.val ≠ [] := List.length_pos_iff.mp (hlength ▸ Nat.succ_pos _)
  have hdigits := readDigits_digits (Nat.lt_pow_succ_log_self (by decide : 1 < 10) id.val) []
  rw [List.append_nil] at hdigits
  rw [idOf, hread, if_neg hne, hlength, decimal, hdigits]
  exact congrArg some (U64.ext (Nat.mod_eq_of_lt (Nat.lt_of_le_of_lt id.le_max (by decide))))

/-- The response to a request. -/
def respond (result : Value) (id : U64) : Value :=
  .object [("jsonrpc", .string "2.0"), ("id", .number (.posInt id)), ("result", result)]

/-- A client that reads the responses with this result. -/
def plainClient (result : Value) : ConnectionConfig where
  serverId := "files"
  requestTimeout := Duration.fromSecs 30
  toVec := toVec
  fromStr text :=
    match idOf text.toList with
    | some id => .ok (respond result id)
    | none => .error (.malformed "expected value at line 1 column 1")

variable {result : Value}

theorem oneLine_plainClient : OneLine (plainClient result) := newline_not_mem_toVec

theorem compact_messageOf (id : U64) (entry : String × Value) (entries : List (String × Value)) :
    ∃ rest, (Value.object (("jsonrpc", .string "2.0") :: ("id", .number (.posInt id)) :: entry :: entries)).compact =
      messageOf id (',' :: rest) := by
  have hjsonrpc : quoted "jsonrpc" = ['"', 'j', 's', 'o', 'n', 'r', 'p', 'c', '"'] := rfl
  have hversion : quoted "2.0" = ['"', '2', '.', '0', '"'] := rfl
  have hid : quoted "id" = ['"', 'i', 'd', '"'] := rfl
  exact ⟨_, by simp [Value.compact, Value.compactEntries, hjsonrpc, hversion, hid, Number.compact, messageOf, opening]; rfl⟩

theorem idOf_request (req : JsonRpcRequest) : idOf req.toValue.compact = some req.id := by
  obtain ⟨rest, hrest⟩ := compact_messageOf req.id ("method", .string req.method) [("params", req.params)]
  exact (congrArg idOf hrest).trans (idOf_messageOf req.id rest)

theorem idOf_respond (id : U64) : idOf (respond result id).compact = some id := by
  obtain ⟨rest, hrest⟩ := compact_messageOf id ("result", result) []
  exact (congrArg idOf hrest).trans (idOf_messageOf id rest)

/-- There is the name of its method instead. -/
theorem idOf_notification (n : JsonRpcNotification) : idOf n.toValue.compact = none := rfl

theorem responseOf_respond (id : U64) :
    Connection.responseOf (plainClient result) (String.ofList (respond result id).compact) =
      some ⟨id, result.asOption, none⟩ := by
  have hblank : Connection.isBlank (String.ofList (respond result id).compact) = false := by
    rw [Connection.isBlank, String.toList_ofList]
    rfl
  have hread : (plainClient result).fromStr (String.ofList (respond result id).compact) = .ok (respond result id) := by
    simp only [plainClient, String.toList_ofList, idOf_respond]
  rw [Connection.responseOf, hblank]
  simp only [Bool.false_eq_true, if_false, parseIncoming_of_id hread rfl rfl]
  rfl

end WalaStack.Proof.Mcp
