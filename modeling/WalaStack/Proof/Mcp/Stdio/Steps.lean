import WalaStack.Impl.Mcp.Connection

/-!
# The steps of a connection

`ConnectionSteps` lists the steps, one constructor for each way through the
code between two awaits, with what has to hold for it.
`connectionSteps_of_step` is the inversion of `Connection.step`, the one place
where it is taken apart.
-/

namespace WalaStack.Proof.Mcp.Stdio

open WalaStack.Rust.Json WalaStack.Impl.Mcp

variable {cfg : ConnectionConfig} {s s' : Connection} {a : ConnectionAction}

/-- The steps of a connection, by the way through the code. -/
inductive ConnectionSteps (cfg : ConnectionConfig) (s : Connection) : ConnectionAction → Connection → Prop
  | tick {d : Nat} : ConnectionSteps cfg s (.tick d) { s with now := s.now + d }
  | request {c : Nat} {method : String} {params : Value} : (s.calls c).phase = .idle →
    ConnectionSteps cfg s (.request c method params)
      ({ s with
          nextId := s.nextId.wrappingSucc
          calls := Function.update s.calls c
            ⟨.allocated, s.nextId, Connection.frame cfg (JsonRpcRequest.toValue ⟨s.nextId, method, params⟩)⟩ }.log
        (.called c))
  | insert {c : Nat} : (s.calls c).phase = .allocated →
    ConnectionSteps cfg s (.insert c) ((s.insertPending (s.calls c).id c).goto c (.sending .locking))
  | write {c : Nat} {b : WriteAction} {p : WritePhase} {res : WriteResult} {stdin : Stdin} :
    (s.calls c).phase = .sending p → p.step (.request c) (s.calls c).payload s.stdin b = some (res, stdin) →
    ConnectionSteps cfg s (.write c b) ({ s with stdin := stdin }.onWrite cfg c res)
  | receive {c deadline line : Nat} {r : JsonRpcResponse} : (s.calls c).phase = .waiting deadline →
    s.channels c = .sent line r →
    ConnectionSteps cfg s (.receive c) ((s.log (.completed c line r)).goto c (.returned (Connection.resultOf r)))
  | lose {c deadline : Nat} : (s.calls c).phase = .waiting deadline → s.channels c = .closed →
    ConnectionSteps cfg s (.receive c)
      ((s.log (.lost c)).goto c (.forgetting (.transport "reader task closed before responding")))
  | expire {c deadline : Nat} : (s.calls c).phase = .waiting deadline → s.channels c = .empty → deadline ≤ s.now →
    ConnectionSteps cfg s (.expire c) ((s.log (.expired c)).goto c (.forgetting (.timeout cfg.serverId)))
  | remove {c : Nat} {e : McpError} : (s.calls c).phase = .forgetting e →
    ConnectionSteps cfg s (.remove c) ((s.removePending (s.calls c).id).goto c (.returned (.error e)))
  | drop {c : Nat} : (s.calls c).phase ≠ .idle → (∀ result, (s.calls c).phase ≠ .returned result) →
    (s.calls c).phase ≠ .dropped → ConnectionSteps cfg s (.drop c) (s.onDrop c)
  | notify {c : Nat} {method : String} {params : Value} : s.notifies c = .idle →
    ConnectionSteps cfg s (.notify c method params)
      { s with notifies := Function.update s.notifies c
                (.sending (Connection.frame cfg (JsonRpcNotification.toValue ⟨method, params⟩)) .locking) }
  | writeNotify {c : Nat} {b : WriteAction} {payload : List UInt8} {p : WritePhase} {res : WriteResult} {stdin : Stdin} :
    s.notifies c = .sending payload p → p.step (.notify c) payload s.stdin b = some (res, stdin) →
    ConnectionSteps cfg s (.writeNotify c b) ({ s with stdin := stdin }.onWriteNotify c payload res)
  | dropNotify {c : Nat} {payload : List UInt8} {p : WritePhase} : s.notifies c = .sending payload p →
    ConnectionSteps cfg s (.dropNotify c)
      { s with
        stdin := s.stdin.release (.notify c)
        notifies := Function.update s.notifies c .dropped }
  | line {text : String} : s.reader = .reading → ConnectionSteps cfg s (.line text) (s.onLine cfg text)
  | dispatch {line : Nat} {r : JsonRpcResponse} : s.reader = .holding line r →
    ConnectionSteps cfg s .dispatch (s.onDispatch line r)
  | eof : s.reader = .reading → ConnectionSteps cfg s .eof { s with reader := .exited }

theorem connectionSteps_of_step (h : s.step cfg a = some s') : ConnectionSteps cfg s a s' := by
  cases a with
  | tick d =>
    obtain rfl := Option.some.inj h
    exact .tick
  | request c method params =>
    simp only [Connection.step] at h
    split at h
    · rename_i hp
      obtain rfl := Option.some.inj h
      exact .request hp
    · cases h
  | insert c =>
    simp only [Connection.step] at h
    split at h
    · rename_i hp
      obtain rfl := Option.some.inj h
      exact .insert hp
    · cases h
  | write c b =>
    simp only [Connection.step] at h
    split at h
    · rename_i p hp
      obtain ⟨⟨res, stdin⟩, hw, rfl⟩ := Option.map_eq_some_iff.mp h
      exact .write hp hw
    · cases h
  | receive c =>
    simp only [Connection.step] at h
    split at h
    · rename_i d n r hp hch
      obtain rfl := Option.some.inj h
      exact .receive hp hch
    · rename_i d hp hch
      obtain rfl := Option.some.inj h
      exact .lose hp hch
    · cases h
  | expire c =>
    simp only [Connection.step] at h
    split at h
    · rename_i d hp hch
      split at h
      · rename_i hd
        obtain rfl := Option.some.inj h
        exact .expire hp hch hd
      · cases h
    · cases h
  | remove c =>
    simp only [Connection.step] at h
    split at h
    · rename_i e hp
      obtain rfl := Option.some.inj h
      exact .remove hp
    · cases h
  | drop c =>
    simp only [Connection.step] at h
    split at h
    · cases h
    · cases h
    · cases h
    · rename_i hidle hreturned hdropped
      obtain rfl := Option.some.inj h
      exact .drop hidle hreturned hdropped
  | notify c method params =>
    simp only [Connection.step] at h
    split at h
    · rename_i hn
      obtain rfl := Option.some.inj h
      exact .notify hn
    · cases h
  | writeNotify c b =>
    simp only [Connection.step] at h
    split at h
    · rename_i payload p hn
      obtain ⟨⟨res, stdin⟩, hw, rfl⟩ := Option.map_eq_some_iff.mp h
      exact .writeNotify hn hw
    · cases h
  | dropNotify c =>
    simp only [Connection.step] at h
    split at h
    · rename_i payload p hn
      obtain rfl := Option.some.inj h
      exact .dropNotify hn
    · cases h
  | line text =>
    simp only [Connection.step] at h
    split at h
    · rename_i hr
      obtain rfl := Option.some.inj h
      exact .line hr
    · cases h
  | dispatch =>
    simp only [Connection.step] at h
    split at h
    · rename_i n r hr
      obtain rfl := Option.some.inj h
      exact .dispatch hr
    · cases h
  | eof =>
    simp only [Connection.step] at h
    split at h
    · rename_i hr
      obtain rfl := Option.some.inj h
      exact .eof hr
    · cases h

end WalaStack.Proof.Mcp.Stdio
