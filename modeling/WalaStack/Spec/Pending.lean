import WalaStack.Spec.Connection

/-!
# The map of pending requests

The entry of a request is to go when the request ends, however it ends
(`NoneLeaked`), and with the reader that would have answered it
(`NoneStranded`). `LeavesNone` and `StrandsNone` are what these ask of a step.
-/

namespace WalaStack.Spec.Mcp

open WalaStack.Rust WalaStack.Impl.Mcp WalaStack.Transition

/-- The future of the call has returned or was dropped. -/
def Ended : CallPhase → Prop
  | .returned _ | .dropped => True
  | _ => False

/-- The id of a call that has ended is not in the map. -/
def NoneLeaked (s : Connection) : Prop :=
  ∀ c, Ended (s.calls c).phase → s.pending (s.calls c).id = none

/-- A call that ends without a look at the map does not leave its id there, and
none inserts the id of one that has ended. -/
def LeavesNone (s : Connection) : ConnectionAction → Prop
  | .write c (.failed _) | .drop c => s.pending (s.calls c).id = none
  | .receive c => (∃ n r, s.channels c = .sent n r) → s.pending (s.calls c).id = none
  | .insert c => ∀ c', Ended (s.calls c').phase → (s.calls c').id ≠ (s.calls c).id
  | _ => True

/-- `LeavesNone` for distinct ids. -/
def EndsOutside (s : Connection) : ConnectionAction → Prop
  | .write c (.failed _) | .drop c => s.pending (s.calls c).id = none
  | _ => True

/-- Once the reader has exited the map is empty, and no request waits for more
than its own turn. -/
def NoneStranded (s : Connection) : Prop :=
  s.reader = .exited → (∀ id, s.pending id = none) ∧
    ∀ c deadline, (s.calls c).phase = .waiting deadline → s.channels c ≠ .empty

/-- The reader exits when no request is pending, and none is made after. -/
def StrandsNone (s : Connection) : ConnectionAction → Prop
  | .eof => ∀ id, s.pending id = none
  | .insert _ => s.reader ≠ .exited
  | _ => True

end WalaStack.Spec.Mcp
