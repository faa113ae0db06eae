import WalaStack.Impl.Mcp.Registry

/-!
# Listings of the registry

An instant is a map of the registry: the list of servers is to be that of an
instant between the call and its return, and each server that is connected at
all of them is on it (`FaithfulListings`).
-/

namespace WalaStack.Spec.Mcp

open WalaStack.Impl.Mcp

/-- `servers` are the servers of an instant from `first` to `last`, each once. -/
def SnapshotOf (s : StdioMcp) (first last : Nat) (servers : List ServerDescriptor) : Prop :=
  ∃ k map, first ≤ k ∧ k ≤ last ∧ s.instants[k]? = some map ∧ servers.Perm (descriptors map)

/-- What `list_servers` has returned are snapshots. -/
def Snapshots (s : StdioMcp) : Prop :=
  ∀ call ∈ s.calls, ∀ servers instant, call.phase = .returned (.listed servers) instant →
    SnapshotOf s call.calledAt instant servers

/-- The server is connected at every instant from `first` to `last`. -/
def ConnectedThroughout (s : StdioMcp) (first last : Nat) (server : String) : Prop :=
  ∀ k map, first ≤ k → k ≤ last → s.instants[k]? = some map → server ∈ map

/-- They have the servers that were connected throughout the call. -/
def ListsConnected (s : StdioMcp) : Prop :=
  ∀ call ∈ s.calls, ∀ servers instant, call.phase = .returned (.listed servers) instant →
    ∀ server, ConnectedThroughout s call.calledAt instant server → server ∈ servers.map (·.id)

structure FaithfulListings (s : StdioMcp) : Prop where
  snapshots : Snapshots s
  connected : ListsConnected s

/-- At an instant since the call of `list_servers` the map was empty. -/
def EmptySince (s : StdioMcp) (first : Nat) : Prop := ∃ map ∈ s.instants.drop first, map.entries = []

/-- `try_read` finds the lock free for a reader, unless the map has been empty
since the call. -/
def Unhindered (s : StdioMcp) : RegistryAction → Prop
  | .tryRead i => ¬ s.lock.Busy maxReads ∨ ∃ call ∈ s.calls[i]?, EmptySince s call.calledAt
  | _ => True

instance (s : StdioMcp) (first : Nat) : Decidable (EmptySince s first) := inferInstanceAs (Decidable (∃ _ ∈ _, _))

instance (s : StdioMcp) (a : RegistryAction) : Decidable (Unhindered s a) :=
  match a with
  | .tryRead _ => inferInstanceAs (Decidable (_ ∨ _))
  | .call _ | .lock _ | .enter _ | .next _ _ | .collect _ | .leave _ | .abandon _ => isTrue trivial

end WalaStack.Spec.Mcp
