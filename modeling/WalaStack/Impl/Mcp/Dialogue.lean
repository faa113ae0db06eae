import WalaStack.Framework.Lines
import WalaStack.Impl.Mcp.Connection
import WalaStack.Rust.Utf8

/-!
# A connection and its server

The subprocess of a `StdioConnection` reads what the connection writes, line by
line, and writes lines that the reader task reads in turn. Of the server there
is a turn of its loop: the line that it writes for a line, if it writes one. A
pipe is everything that was written to it; its reader counts the lines that it
has taken.
-/

namespace WalaStack.Impl.Mcp

open WalaStack.Rust WalaStack.Rust.Json WalaStack.Lines

/-- A server's line in answer to a line. -/
abbrev LineServer := String → Option String

/-- A line without the carriage return before its newline. -/
def chomp (line : String) : String :=
  if line.toList.getLast? = some '\r' then String.ofList line.toList.dropLast else line

/-- The text of a line, for `lines()` of `std` and of `tokio`; invalid UTF-8 is an
error. -/
def lineText (bytes : List UInt8) : Option String := (fromUtf8 bytes).map chomp

structure Dialogue where
  connection : Connection
  /-- The server is in its loop. -/
  serving : Bool
  /-- The number of lines that it has taken from its stdin. -/
  taken : Nat
  /-- What it has written to its stdout. -/
  stdout : List UInt8

inductive DialogueAction
  /-- A step of the client that is not the reading of a line. -/
  | client (a : ConnectionAction)
  /-- `reader.next_line()` is ready with a line, or the error of one. -/
  | line
  /-- The server takes a line, and writes its own. -/
  | serve
  /-- The server ends. -/
  | exit

namespace Dialogue

def init (now : Nat) : Dialogue := ⟨.init now, true, 0, []⟩

/-- What the server writes for a line. -/
def written (server : LineServer) (line : String) : List UInt8 :=
  match server line with
  | some reply => asBytes reply ++ [10]
  | none => []

def step (cfg : ConnectionConfig) (server : LineServer) (d : Dialogue) : DialogueAction → Option Dialogue
  | .client (.line _) => none
  | .client a => (d.connection.step cfg a).map fun connection => { d with connection := connection }
  | .line =>
    match (lines 10 d.stdout)[d.connection.lines]? with
    | some bytes =>
      let a := match lineText bytes with
        | some text => .line text
        | none => .eof
      (d.connection.step cfg a).map fun connection => { d with connection := connection }
    | none => none
  | .serve =>
    if d.serving then
      match (lines 10 d.connection.stdin.written)[d.taken]? with
      | some bytes =>
        match lineText bytes with
        | some text => some { d with taken := d.taken + 1, stdout := d.stdout ++ written server text }
        -- `main` returns the error.
        | none => some { d with serving := false }
      | none => none
    else none
  | .exit => some { d with serving := false }

end Dialogue

end WalaStack.Impl.Mcp
