import Mathlib.Data.List.AList
import WalaStack.Framework.FairLock

/-!
# The registry of MCP connections

`StdioMcp` of `walastack-mcp/src/stdio.rs`: the shared map of connections, and
the calls that any number of tasks make to it. The map is under an async
`RwLock`, `tokio`'s by its documentation: fair, of at most `MAX_READS` readers,
with a `try_read` that does not wait. A call may be interleaved with others at
every step: before it asks for the lock, while it waits, and until its guard is
dropped. What the other methods do with the connection that they look up is
modelled elsewhere.
-/

namespace WalaStack.Impl.Mcp

/-- `Arc<StdioConnection>`: which one, and the name from its handshake. -/
structure StdioConnection where
  connection : Nat
  serverDisplayName : Option String
deriving DecidableEq, Repr

structure ServerDescriptor where
  id : String
  displayName : Option String
  connected : Bool
deriving DecidableEq, Repr

/-- `HashMap<ServerId, Arc<StdioConnection>>` -/
abbrev ConnectionMap := AList fun _ : String => StdioConnection

inductive RegistryOp
  | insert (server : String) (connection : StdioConnection)
  | remove (server : String)
  /-- `connections.read().await.get(&server).cloned()`, as the methods for one
  server begin. -/
  | get (server : String)
  | listServers
deriving DecidableEq, Repr

inductive RegistryResult
  | inserted
  | removed (connection : Option StdioConnection)
  | found (connection : Option StdioConnection)
  | listed (servers : List ServerDescriptor)
deriving DecidableEq, Repr

/-- Where a call is. -/
inductive RegistryPhase
  /-- Before it asks for the lock. -/
  | called
  /-- In the queue of the lock, or before its next poll. -/
  | awaiting
  /-- `list_servers`, with the descriptors so far. -/
  | iterating (servers : List ServerDescriptor)
  /-- Before its guard is dropped. -/
  | holding (result : RegistryResult)
  | returned (result : RegistryResult) (instant : Nat)
  /-- The future of the call was dropped. -/
  | dropped
deriving DecidableEq, Repr

structure RegistryCall where
  op : RegistryOp
  phase : RegistryPhase
  /-- The instant of the call: how many maps there had been. -/
  calledAt : Nat
deriving DecidableEq, Repr

structure StdioMcp where
  connections : ConnectionMap
  lock : FairLock Nat
  calls : List RegistryCall
  /-- The maps that there have been before. -/
  past : List ConnectionMap

inductive RegistryAction
  | call (op : RegistryOp)
  /-- `read()` or `write()` is polled. -/
  | lock (i : Nat)
  /-- The guard is there: what is done with the map. -/
  | enter (i : Nat)
  /-- `try_read()` -/
  | tryRead (i : Nat)
  /-- The iteration yields an entry. -/
  | next (i : Nat) (server : String)
  /-- The iteration has yielded all: `collect`. -/
  | collect (i : Nat)
  /-- The guard is dropped, and the call returns. -/
  | leave (i : Nat)
  /-- The future of a call is dropped before it has the guard. -/
  | abandon (i : Nat)
deriving DecidableEq, Repr

/-- `MAX_READS` of `tokio`: `u32::MAX >> 3` -/
def maxReads : Nat := 536870911

def StdioConnection.descriptor (id : String) (conn : StdioConnection) : ServerDescriptor where
  id := id
  displayName := conn.serverDisplayName
  connected := true

/-- The descriptors of a map's entries. -/
def descriptors (map : ConnectionMap) : List ServerDescriptor :=
  map.entries.map fun entry => entry.2.descriptor entry.1

/-- The mode of an awaited lock. -/
def RegistryOp.mode : RegistryOp → Option Mode
  | .insert _ _ | .remove _ => some .write
  | .get _ => some .read
  | .listServers => none

namespace StdioMcp

def new : StdioMcp := ⟨∅, .new, [], []⟩

/-- All the maps that there have been, the present one last. -/
def instants (s : StdioMcp) : List ConnectionMap := s.past ++ [s.connections]

def goto (s : StdioMcp) (i : Nat) (call : RegistryCall) (phase : RegistryPhase) : StdioMcp :=
  { s with calls := s.calls.set i { call with phase := phase } }

/-- Whether the lock has been given to a call. -/
def granted (s : StdioMcp) (i : Nat) : Option Mode → Bool
  | some .write => s.lock.writer == some i
  | some .read => s.lock.readers.contains i
  | none => false

def replace (s : StdioMcp) (map : ConnectionMap) : StdioMcp :=
  { s with connections := map, past := s.past ++ [s.connections] }

/-- What a call does under its guard. -/
def operate (s : StdioMcp) (i : Nat) (call : RegistryCall) : Option StdioMcp :=
  match call.op with
  | .insert server connection =>
    some ((s.replace (s.connections.insert server connection)).goto i call (.holding .inserted))
  | .remove server =>
    some ((s.replace (s.connections.erase server)).goto i call (.holding (.removed (s.connections.lookup server))))
  | .get server => some (s.goto i call (.holding (.found (s.connections.lookup server))))
  | .listServers => none

def step (s : StdioMcp) : RegistryAction → Option StdioMcp
  | .call op => some { s with calls := s.calls ++ [⟨op, .called, s.past.length⟩] }
  | .lock i =>
    match s.calls[i]? with
    | some call =>
      match call.phase, call.op.mode with
      | .called, some mode => some { s.goto i call .awaiting with lock := s.lock.request maxReads mode i }
      | _, _ => none
    | none => none
  | .enter i =>
    match s.calls[i]? with
    | some call =>
      match call.phase, s.granted i call.op.mode with
      | .awaiting, true => s.operate i call
      | _, _ => none
    | none => none
  | .tryRead i =>
    match s.calls[i]? with
    | some call =>
      match call.phase, call.op with
      | .called, .listServers =>
        match s.lock.tryRead maxReads i with
        | some lock => some { s.goto i call (.iterating []) with lock := lock }
        | none => some (s.goto i call (.returned (.listed []) s.past.length))
      | _, _ => none
    | none => none
  | .next i server =>
    match s.calls[i]? with
    | some call =>
      match call.phase, s.connections.lookup server with
      | .iterating servers, some conn =>
        if server ∈ servers.map (·.id) then none
        else some (s.goto i call (.iterating (servers ++ [conn.descriptor server])))
      | _, _ => none
    | none => none
  | .collect i =>
    match s.calls[i]? with
    | some call =>
      match call.phase with
      | .iterating servers =>
        if ∀ server ∈ s.connections.keys, server ∈ servers.map (·.id) then
          some (s.goto i call (.holding (.listed servers)))
        else none
      | _ => none
    | none => none
  | .leave i =>
    match s.calls[i]? with
    | some call =>
      match call.phase with
      | .holding result =>
        some { s.goto i call (.returned result s.past.length) with lock := s.lock.leave maxReads i }
      | _ => none
    | none => none
  | .abandon i =>
    match s.calls[i]? with
    | some call =>
      match call.phase, call.op.mode with
      | .called, some _ => some (s.goto i call .dropped)
      | .awaiting, some _ => some { s.goto i call .dropped with lock := s.lock.leave maxReads i }
      | _, _ => none
    | none => none

end StdioMcp

end WalaStack.Impl.Mcp
