import WalaStack.Impl.Mcp.JsonRpc
import Mathlib.Logic.Function.Basic

/-!
# One stdio connection

`StdioConnection` of `walastack-mcp/src/stdio.rs`: any number of calls of
`request` and `notify` around one writer and one map of pending requests, and
the reader task that `open` spawns. A step is what one of them does between
two awaits. The map's lock is never held across an await, so a section under
it is one step; the lock of stdin is.

What the server writes, how many bytes a write takes, when a future is
dropped and which lines arrive are actions. The JSON text formats are
`serde_json`'s: `to_vec` and `from_str` are parameters.
-/

namespace WalaStack.Impl.Mcp

open WalaStack.Rust WalaStack.Rust.Json

/-- The errors that `request` and `notify` return. -/
inductive McpError
  | transport (message : String)
  | timeout (server : String)
  | remoteError (code : Int) (message : String)

/-- What a connection reads of its fields. -/
structure ConnectionConfig where
  serverId : String
  requestTimeout : Duration
  /-- `serde_json::to_vec` -/
  toVec : Value → List UInt8
  /-- `serde_json::from_str` -/
  fromStr : String → Except Error Value

/-! ## Writing a message -/

/-- The writer of a message: the number of a call of `request` or `notify`. -/
inductive Writer
  | request (c : Nat)
  | notify (c : Nat)
deriving DecidableEq, Repr

/-- `stdin: Mutex<ChildStdin>`, and what was written to it. -/
structure Stdin where
  /-- Who holds the lock. -/
  holder : Option Writer
  written : List UInt8

/-- The await of the write path. -/
inductive WritePhase
  /-- `self.stdin.lock()` -/
  | locking
  /-- `stdin.write_all(&payload)`, with the bytes that are left. -/
  | writing (rest : List UInt8)
  /-- `stdin.flush()` -/
  | flushing

/-- What the lock and the pipe do for a writer. -/
inductive WriteAction
  | locked
  /-- Some bytes are written. -/
  | wrote (n : Nat)
  | flushed
  | failed (e : String)

/-- Where the write path is after a step. -/
inductive WriteResult
  | goto (p : WritePhase)
  | done
  | error (e : McpError)

def WritePhase.step (who : Writer) (payload : List UInt8) (stdin : Stdin) :
    WritePhase → WriteAction → Option (WriteResult × Stdin)
  | .locking, .locked =>
    match stdin.holder with
    | none => some (.goto (.writing payload), { stdin with holder := some who })
    | some _ => none
  | .writing rest, .wrote n =>
    if 0 < n ∧ n ≤ rest.length then
      let stdin := { stdin with written := stdin.written ++ rest.take n }
      some (.goto (if n = rest.length then .flushing else .writing (rest.drop n)), stdin)
    else none
  | .writing _, .failed e =>
    some (.error (.transport ("stdin write failed: " ++ e)), { stdin with holder := none })
  | .flushing, .flushed => some (.done, { stdin with holder := none })
  | .flushing, .failed e =>
    some (.error (.transport ("stdin flush failed: " ++ e)), { stdin with holder := none })
  | _, _ => none

/-- A dropped future releases the lock that it holds. -/
def Stdin.release (who : Writer) (stdin : Stdin) : Stdin :=
  if stdin.holder = some who then { stdin with holder := none } else stdin

/-! ## Calls -/

/-- The await that a call of `request` is at. -/
inductive CallPhase
  /-- Not called. -/
  | idle
  /-- `self.pending.lock()`, to insert. -/
  | allocated
  | sending (p : WritePhase)
  /-- `timeout(self.request_timeout, rx)` -/
  | waiting (deadline : Nat)
  /-- `self.pending.lock()`, to remove. -/
  | forgetting (e : McpError)
  | returned (result : Except McpError Value)
  /-- The future was dropped. -/
  | dropped

structure Call where
  phase : CallPhase
  id : U64
  payload : List UInt8

/-- A call that has not been made. -/
def Call.idle : Call := ⟨.idle, ⟨0, Nat.zero_le _⟩, []⟩

/-- The await that a call of `notify` is at. -/
inductive NotifyPhase
  | idle
  | sending (payload : List UInt8) (p : WritePhase)
  | returned (result : Except McpError Unit)
  | dropped

/-- The channel of a call: its one response, with the number of the line. -/
inductive Oneshot
  | empty
  | sent (line : Nat) (response : JsonRpcResponse)
  /-- The sender was dropped. -/
  | closed

/-- The await that the reader task is at. -/
inductive Reader
  /-- `reader.next_line()` -/
  | reading
  /-- `reader_pending.lock()`, for the response on a line. -/
  | holding (line : Nat) (response : JsonRpcResponse)
  | exited

/-- What happened, in order. -/
inductive ConnectionEntry
  | called (c : Nat)
  /-- The request was written and flushed. -/
  | written (c : Nat)
  /-- The reader read its line number `line`. -/
  | read (line : Nat) (text : String)
  /-- The reader looked the response of a line up. -/
  | dispatched (line : Nat) (response : JsonRpcResponse)
  /-- A call took the response of a line. -/
  | completed (c line : Nat) (response : JsonRpcResponse)
  /-- A call's timeout elapsed. -/
  | expired (c : Nat)
  /-- A call found its channel closed. -/
  | lost (c : Nat)

structure Connection where
  /-- The monotonic clock, in nanoseconds. -/
  now : Nat
  nextId : U64
  stdin : Stdin
  /-- The call whose sender is in the map. -/
  pending : U64 → Option Nat
  calls : Nat → Call
  channels : Nat → Oneshot
  notifies : Nat → NotifyPhase
  reader : Reader
  /-- The number of lines read. -/
  lines : Nat
  history : List ConnectionEntry

inductive ConnectionAction
  /-- Time passes. -/
  | tick (d : Nat)
  /-- `request`, up to its first await. -/
  | request (c : Nat) (method : String) (params : Value)
  /-- A call inserts its sender. -/
  | insert (c : Nat)
  | write (c : Nat) (a : WriteAction)
  /-- The timeout's future is ready with the channel's response, or its closing. -/
  | receive (c : Nat)
  | expire (c : Nat)
  /-- A call removes its id. -/
  | remove (c : Nat)
  /-- The future of a call is dropped. -/
  | drop (c : Nat)
  /-- `notify`, up to its first await. -/
  | notify (c : Nat) (method : String) (params : Value)
  | writeNotify (c : Nat) (a : WriteAction)
  | dropNotify (c : Nat)
  | line (text : String)
  | dispatch
  /-- The end of stdout, or a read error. -/
  | eof

namespace Connection

def init (now : Nat) : Connection where
  now := now
  nextId := 1
  stdin := ⟨none, []⟩
  pending _ := none
  calls _ := .idle
  channels _ := .empty
  notifies _ := .idle
  reader := .reading
  lines := 0
  history := []

def log (s : Connection) (e : ConnectionEntry) : Connection := { s with history := s.history ++ [e] }

def goto (s : Connection) (c : Nat) (p : CallPhase) : Connection :=
  { s with calls := Function.update s.calls c { s.calls c with phase := p } }

def setChannel (s : Connection) (c : Nat) (ch : Oneshot) : Connection :=
  { s with channels := Function.update s.channels c ch }

/-- The sender of call `c` is dropped. -/
def dropSender (s : Connection) (c : Nat) : Connection :=
  match s.channels c with
  | .empty => s.setChannel c .closed
  | _ => s

/-- The entry of `id` is taken out of the map, and its sender dropped. -/
def removePending (s : Connection) (id : U64) : Connection :=
  match s.pending id with
  | none => s
  | some c => { s with pending := Function.update s.pending id none }.dropSender c

/-- `pending.insert(id, tx)`, which drops the sender that was there. -/
def insertPending (s : Connection) (id : U64) (c : Nat) : Connection :=
  { s.removePending id with pending := Function.update (s.removePending id).pending id (some c) }

/-- `if line.trim().is_empty()` -/
def isBlank (text : String) : Bool :=
  text.toList.all fun ch =>
    ch.toNat ∈ [0x9, 0xA, 0xB, 0xC, 0xD, 0x20, 0x85, 0xA0, 0x1680, 0x2000, 0x2001, 0x2002, 0x2003, 0x2004, 0x2005,
      0x2006, 0x2007, 0x2008, 0x2009, 0x200A, 0x2028, 0x2029, 0x202F, 0x205F, 0x3000]

/-- The response on a line, if there is one. -/
def responseOf (cfg : ConnectionConfig) (text : String) : Option JsonRpcResponse :=
  if isBlank text then none
  else
    match parseIncoming cfg.fromStr text with
    | .ok (.response r) => some r
    | _ => none

/-- The reader, after a line. -/
def onLine (cfg : ConnectionConfig) (s : Connection) (text : String) : Connection :=
  let s' := { s with lines := s.lines + 1 }.log (.read s.lines text)
  match responseOf cfg text with
  | some r => { s' with reader := .holding s.lines r }
  | none => s'

/-- The reader looks a response up. -/
def onDispatch (s : Connection) (line : Nat) (r : JsonRpcResponse) : Connection :=
  let s := { s with reader := .reading }.log (.dispatched line r)
  match s.pending r.id with
  | some c => { s with pending := Function.update s.pending r.id none }.setChannel c (.sent line r)
  | none => s

/-- The result of a request, from its response. -/
def resultOf (r : JsonRpcResponse) : Except McpError Value :=
  match r.error with
  | some err => .error (.remoteError err.code err.message)
  | none => .ok (r.result.getD .null)

/-- `request` after a step of its write path. -/
def onWrite (cfg : ConnectionConfig) (s : Connection) (c : Nat) : WriteResult → Connection
  | .goto p => s.goto c (.sending p)
  | .done => (s.log (.written c)).goto c (.waiting (s.now + cfg.requestTimeout.nanos))
  | .error e => s.goto c (.returned (.error e))

/-- `notify` after a step of its write path. -/
def onWriteNotify (s : Connection) (c : Nat) (payload : List UInt8) : WriteResult → Connection
  | .goto p => { s with notifies := Function.update s.notifies c (.sending payload p) }
  | .done => { s with notifies := Function.update s.notifies c (.returned (.ok ())) }
  | .error e => { s with notifies := Function.update s.notifies c (.returned (.error e)) }

/-- A dropped call: its sender, if it is not in the map yet, and the lock of
stdin go with it. -/
def onDrop (s : Connection) (c : Nat) : Connection :=
  ({ s with stdin := s.stdin.release (.request c) }).goto c .dropped

/-- The payload of a message: its JSON, and a newline. -/
def frame (cfg : ConnectionConfig) (v : Value) : List UInt8 := cfg.toVec v ++ [10]

def step (cfg : ConnectionConfig) (s : Connection) : ConnectionAction → Option Connection
  | .tick d => some { s with now := s.now + d }
  | .request c method params =>
    match (s.calls c).phase with
    | .idle =>
      let call := ⟨.allocated, s.nextId, frame cfg (JsonRpcRequest.toValue ⟨s.nextId, method, params⟩)⟩
      some ({ s with nextId := s.nextId.wrappingSucc, calls := Function.update s.calls c call }.log (.called c))
    | _ => none
  | .insert c =>
    match (s.calls c).phase with
    | .allocated => some ((s.insertPending (s.calls c).id c).goto c (.sending .locking))
    | _ => none
  | .write c a =>
    match (s.calls c).phase with
    | .sending p =>
      (p.step (.request c) (s.calls c).payload s.stdin a).map fun (res, stdin) =>
        { s with stdin := stdin }.onWrite cfg c res
    | _ => none
  | .receive c =>
    match (s.calls c).phase, s.channels c with
    | .waiting _, .sent line r => some ((s.log (.completed c line r)).goto c (.returned (resultOf r)))
    | .waiting _, .closed =>
      some ((s.log (.lost c)).goto c (.forgetting (.transport "reader task closed before responding")))
    | _, _ => none
  | .expire c =>
    match (s.calls c).phase, s.channels c with
    | .waiting deadline, .empty =>
      if deadline ≤ s.now then some ((s.log (.expired c)).goto c (.forgetting (.timeout cfg.serverId))) else none
    | _, _ => none
  | .remove c =>
    match (s.calls c).phase with
    | .forgetting e => some ((s.removePending (s.calls c).id).goto c (.returned (.error e)))
    | _ => none
  | .drop c =>
    match (s.calls c).phase with
    | .idle | .returned _ | .dropped => none
    | _ => some (s.onDrop c)
  | .notify c method params =>
    match s.notifies c with
    | .idle =>
      let payload := frame cfg (JsonRpcNotification.toValue ⟨method, params⟩)
      some { s with notifies := Function.update s.notifies c (.sending payload .locking) }
    | _ => none
  | .writeNotify c a =>
    match s.notifies c with
    | .sending payload p =>
      (p.step (.notify c) payload s.stdin a).map fun (res, stdin) =>
        { s with stdin := stdin }.onWriteNotify c payload res
    | _ => none
  | .dropNotify c =>
    match s.notifies c with
    | .sending _ _ =>
      some { s with
        stdin := s.stdin.release (.notify c)
        notifies := Function.update s.notifies c .dropped }
    | _ => none
  | .line text =>
    match s.reader with
    | .reading => some (s.onLine cfg text)
    | _ => none
  | .dispatch =>
    match s.reader with
    | .holding line r => some (s.onDispatch line r)
    | _ => none
  | .eof =>
    match s.reader with
    | .reading => some { s with reader := .exited }
    | _ => none

end Connection

end WalaStack.Impl.Mcp
