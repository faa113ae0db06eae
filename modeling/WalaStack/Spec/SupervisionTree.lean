import WalaStack.Framework.Log
import WalaStack.Impl.Runtime.SupervisionTree

/-!
# Which watchers are tracked

The tree keeps one watcher for each service name: a later start of the same
name takes the place of an earlier one, whose watcher goes on unattended, and
`drain` and `shutdown_now` take all that there are. `Tracked` is what the map
holds then.

`AllTracked` is that the map holds the running watchers and no others. A
watcher that ends leaves its handle behind, and `KeepsExact` are the steps that
neither do that nor take or replace the handle of a running watcher.
-/

namespace WalaStack.Spec.Supervision

open WalaStack.Rust WalaStack.Impl.Runtime WalaStack.Log

/-- The watcher's handle is in the map. -/
def Held (t : SupervisionTree) (i : Nat) : Prop := ∃ name, t.children.lookup name = some i

/-- The watcher inserted last under a name, until the map is emptied. -/
def registration : Obligation TreeEntry (String × Nat) where
  opens e k := e = .inserted k.1 k.2
  closes e k := e = .emptied ∨ ∃ j, e = .inserted k.1 j

/-- A later start under the same name took the watcher's place. -/
def Replaced (t : SupervisionTree) (name : String) (i : Nat) : Prop :=
  ∃ pre mid post j, t.log = (pre ++ .inserted name i :: mid) ++ .inserted name j :: post ∧ j ≠ i

/-- The map has been emptied since the watcher was inserted. -/
def Taken (t : SupervisionTree) (name : String) (i : Nat) : Prop :=
  ∃ pre mid post, t.log = (pre ++ .inserted name i :: mid) ++ .emptied :: post

/-- What the tree tracks. -/
structure Tracked (t : SupervisionTree) : Prop where
  /-- The map holds the last watcher of each name. -/
  held : ∀ name i, t.children.lookup name = some i ↔ registration.Pending t.log (name, i)
  /-- It was spawned for a service of that name. -/
  spawned : ∀ name i, t.children.lookup name = some i →
    ∃ c, t.calls i = some c ∧ c.svc.name = name ∧ c.spawned = true
  /-- A running watcher is held under the name of its service, unless its
  `start_service` is yet to return, or it was replaced or taken. -/
  running : ∀ i c, t.calls i = some c → c.running = true → c.inserted = true →
    t.children.lookup c.svc.name = some i ∨ Replaced t c.svc.name i ∨ Taken t c.svc.name i
  /-- `supervised_count` counts the names. -/
  count : ∃ names : List String, names.Nodup ∧ names.length = t.supervisedCount ∧
    ∀ name, name ∈ names ↔ ∃ i, registration.Pending t.log (name, i)
  /-- `drain` is going to await every watcher that is held, -/
  drained : ∀ deadline order t', t.step (.drain deadline order) = some t' →
    t'.children = ∅ ∧ ∃ d, t'.drains = t.drains ++ [d] ∧ ∀ i, i ∈ d.pending ↔ Held t i
  /-- and `shutdown_now` aborts every one. -/
  aborted : ∀ t', t.step .shutdownNow = some t' →
    t'.children = ∅ ∧ ∀ i, Held t i → ∃ c, t'.calls i = some c ∧ c.aborted = true

/-! ## The running watchers -/

/-- The watcher has been spawned, and has not finished. It is spawned before it
is inserted, and counts from the end of its `start_service`. -/
def Supervises (t : SupervisionTree) (i : Nat) : Prop :=
  ∃ c, t.calls i = some c ∧ c.running = true ∧ c.inserted = true

/-- The map holds exactly the running watchers. -/
def Exact (t : SupervisionTree) : Prop := ∀ i, Supervises t i ↔ Held t i

/-- Every running watcher is tracked. -/
structure AllTracked (t : SupervisionTree) : Prop where
  exact : Exact t
  /-- `supervised_count` is the number of the services currently supervised, -/
  count : ∃ watchers : List Nat, watchers.Nodup ∧ watchers.length = t.supervisedCount ∧
    ∀ i, i ∈ watchers ↔ Supervises t i
  /-- `drain` is going to await every one of them, -/
  drained : ∀ deadline order t', t.step (.drain deadline order) = some t' →
    ∃ d, t'.drains = t.drains ++ [d] ∧ ∀ i, i ∈ d.pending ↔ Supervises t i
  /-- and `shutdown_now` aborts every one. -/
  aborted : ∀ t', t.step .shutdownNow = some t' →
    ∀ i, Supervises t i → ∃ c, t'.calls i = some c ∧ c.aborted = true

/-- A running watcher returns with this step: the restart has failed and the
policy permits no other, the root task has ended for good, or the shutdown
signal is up. -/
def Leaves (svc : Supervised) (w : Watcher) : WatcherAction → Prop
  | .started result => result ≠ .ok () ∧ svc.policy.permitsRestartAfter w.attempt true = false
  | .joined _ =>
    match w.handle.result with
    | some .ok => svc.policy.isAlways = false
    | some (.panic _) => svc.policy.permitsRestartAfter w.attempt true = false
    | _ => True
  | .shutdown => True
  | .exits _ | .slept => False

/-- No watcher ends while the map holds it. A watcher is inserted before it
ends, and under a name that the map does not hold. And `drain` and
`shutdown_now` find the map empty. -/
def KeepsExact (t : SupervisionTree) : TreeAction → Prop
  | .watch i a => i ∈ t.held → ∀ c, t.calls i = some c → ¬ Leaves c.svc c.watcher a
  | .cancel i => i ∉ t.held
  | .insert i => ∀ c, t.calls i = some c → c.finished = false ∧ t.children.lookup c.svc.name = none
  | .drain _ _ | .shutdownNow => t.held = []
  | _ => True

end WalaStack.Spec.Supervision
