import WalaStack.Framework.Frames
import WalaStack.Impl.Mcp.Connection

/-!
# Framing of what is written

The server reads a message from each line. So stdin should be whole messages,
each with its newline, and at the end at most the part that a writer has
written of its own. `KeepsFrames` says when a step leaves it so.
-/

namespace WalaStack.Spec.Mcp

open WalaStack.Rust WalaStack.Rust.Json WalaStack.Impl.Mcp WalaStack.Frames

/-- A request or a notification, with its newline. -/
def IsMessage (cfg : ConnectionConfig) (m : List UInt8) : Prop :=
  ∃ v, m = Connection.frame cfg v ∧
    ((∃ req : JsonRpcRequest, v = req.toValue) ∨ ∃ n : JsonRpcNotification, v = n.toValue)

/-- `serde_json::to_vec` writes no newline: its format is compact, and control
characters are escaped. -/
def OneLine (cfg : ConnectionConfig) : Prop := ∀ v, 10 ∉ cfg.toVec v

/-- The message that a call of `request` is sending, and the await that it is
at. -/
def requestSends (payload : List UInt8) : CallPhase → Option (List UInt8 × WritePhase)
  | .sending p => some (payload, p)
  | .idle | .allocated | .waiting _ | .forgetting _ | .returned _ | .dropped => none

def notifySends : NotifyPhase → Option (List UInt8 × WritePhase)
  | .sending payload p => some (payload, p)
  | .idle | .returned _ | .dropped => none

def sending (s : Connection) : Writer → Option (List UInt8 × WritePhase)
  | .request c => requestSends (s.calls c).payload (s.calls c).phase
  | .notify c => notifySends (s.notifies c)

/-- What is written of a message, for a writer in `write_all`. -/
def partOf : Option (List UInt8 × WritePhase) → List UInt8
  | some (payload, .writing rest) => payload.take (payload.length - rest.length)
  | _ => []

def partWritten (s : Connection) (who : Writer) : List UInt8 := partOf (sending s who)

/-- The part of a message that is still being written. -/
def unfinished (s : Connection) : List UInt8 :=
  match s.stdin.holder with
  | some who => partWritten s who
  | none => []

/-- Whole messages, and the part of one that is still being written. -/
def WellFramed (cfg : ConnectionConfig) (s : Connection) : Prop :=
  Framed (IsMessage cfg) s.stdin.written (unfinished s)

/-- No call is dropped, and no write fails, when a part of its message is
written. -/
def KeepsFrames (s : Connection) : ConnectionAction → Prop
  | .drop c | .write c (.failed _) => partWritten s (.request c) = []
  | .dropNotify c | .writeNotify c (.failed _) => partWritten s (.notify c) = []
  | _ => True

instance (s : Connection) : DecidablePred (KeepsFrames s)
  | .drop c | .write c (.failed _) => inferInstanceAs (Decidable (partWritten s (.request c) = []))
  | .dropNotify c | .writeNotify c (.failed _) => inferInstanceAs (Decidable (partWritten s (.notify c) = []))
  | .tick _ | .request _ _ _ | .insert _ | .write _ .locked | .write _ (.wrote _) | .write _ .flushed | .receive _
  | .expire _ | .remove _ | .notify _ _ _ | .writeNotify _ .locked | .writeNotify _ (.wrote _)
  | .writeNotify _ .flushed | .line _ | .dispatch | .eof => isTrue trivial

end WalaStack.Spec.Mcp
