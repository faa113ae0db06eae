import WalaStack.Proof.Mcp.Dialogue.Answers
import WalaStack.Spec.Handshake

/-!
# The handshake of a connection

`Sends` is what stdin has of a message at an await of its write path. While
`open` runs, the one call and the one notification are its own, so that what is
written follows from where these are (`Initializing`, `Notifying`); what it
returns is the answer to the call (`handshaken_of_exec`).
-/

namespace WalaStack.Proof.Mcp.Dialogue

open WalaStack.Rust WalaStack.Rust.Json WalaStack.Impl.Mcp WalaStack.Spec.Mcp WalaStack.Proof.Mcp.Stdio
open WalaStack.Transition

variable {cfg : ConnectionConfig} {server : LineServer} {s s' : Connection} {a : ConnectionAction} {c : Nat}
  {o o' : Opening}

/-! ## A message -/

/-- What stdin has of a message, after what it had before. -/
def Sends (before payload written : List UInt8) : WritePhase → Prop
  | .locking => written = before
  | .writing rest => written ++ rest = before ++ payload
  | .flushing => written = before ++ payload

/-- The message after a step of the write path. -/
def SendsAfter (before payload written : List UInt8) : WriteResult → Prop
  | .goto p => Sends before payload written p
  | .done => written = before ++ payload
  | .error e => LocalError e ∧ written <+: before ++ payload

theorem Sends.prefix {before payload written : List UInt8} {p : WritePhase} (h : Sends before payload written p) :
    written <+: before ++ payload := by
  cases p with
  | locking => exact ⟨payload, congrArg (· ++ payload) h⟩
  | writing rest => exact ⟨rest, h⟩
  | flushing => exact ⟨[], (List.append_nil _).trans h⟩

theorem sends_step {before payload : List UInt8} {who : Writer} {p : WritePhase} {b : WriteAction} {res : WriteResult}
    {stdin stdin' : Stdin} (h : Sends before payload stdin.written p)
    (hs : p.step who payload stdin b = some (res, stdin')) : SendsAfter before payload stdin'.written res := by
  cases pathSteps_of_step hs with
  | locked => exact congrArg (· ++ payload) h
  | @wrote rest n =>
    show stdin.written ++ rest.take n ++ rest.drop n = before ++ payload
    rw [List.append_assoc, List.take_append_drop]
    exact h
  | finished => exact h
  | flushed => exact h
  | failed => exact ⟨localError_of_step hs, h.prefix⟩

/-! ## Steps while the connection is not opened -/

/-- Neither calls nor what is written have changed. -/
structure Unchanged (s s' : Connection) : Prop where
  calls : s'.calls = s.calls
  notifies : s'.notifies = s.notifies
  written : s'.stdin.written = s.stdin.written

theorem unchanged_onLine (s : Connection) (text : String) : Unchanged s (s.onLine cfg text) := by
  unfold Connection.onLine
  split <;> exact ⟨rfl, rfl, rfl⟩

theorem unchanged_onDispatch (s : Connection) (n : Nat) (r : JsonRpcResponse) : Unchanged s (s.onDispatch n r) := by
  cases h : s.pending r.id with
  | none => rw [onDispatch_none h]; exact ⟨rfl, rfl, rfl⟩
  | some c => rw [onDispatch_some h]; exact ⟨rfl, rfl, rfl⟩

/-! ### Before the request -/

/-- Nothing has been called. -/
structure Spawned (s : Connection) : Prop where
  calls (c : Nat) : (s.calls c).phase = .idle
  notifies (c : Nat) : s.notifies c = .idle
  written : s.stdin.written = []
  requests : requests s.history = 0

/-- A step that is no call makes no request. -/
theorem requests_of_steps {e : Option ConnectionEntry} (m : Moves cfg s e s') (h : ConnectionSteps cfg s a s')
    (ha : Opening.isCallers (.client a) = false) : requests s'.history = requests s.history := by
  have hnot (c : Nat) : e ≠ some (.called c) := by
    rintro rfl
    obtain ⟨h0, h1, -⟩ := m.logged
    cases callMoves_of_steps h with
    | same hc =>
      rw [rankOf, hc] at h1
      exact absurd (h0.symm.trans h1) Nat.zero_ne_one
    | goes c' p hpos _ hc =>
      have hne : c ≠ c' := by
        rintro rfl
        omega
      rw [rankOf, hc, calls_goto_of_ne s p hne] at h1
      exact absurd (h0.symm.trans h1) Nat.zero_ne_one
    | made c' method params he =>
      subst he
      cases ha
  rw [m.history, Spec.Mcp.requests, List.countP_append, Spec.Mcp.requests, Nat.add_eq_left, List.countP_eq_zero]
  intro x hx
  obtain rfl := Option.mem_toList.mp hx
  cases x with
  | called c => exact absurd rfl (hnot c)
  | _ => exact Bool.false_ne_true

theorem Spawned.of_unchanged (hi : Spawned s) (h : Unchanged s s')
    (hr : Spec.Mcp.requests s'.history = Spec.Mcp.requests s.history) : Spawned s' :=
  ⟨fun c => by rw [h.calls, hi.calls c], fun c => by rw [h.notifies, hi.notifies c], h.written.trans hi.written,
    hr.trans hi.requests⟩

theorem spawned_step {e : Option ConnectionEntry} (hi : Spawned s) (m : Moves cfg s e s')
    (h : ConnectionSteps cfg s a s') (ha : Opening.isCallers (.client a) = false) : Spawned s' := by
  refine hi.of_unchanged ?_ (requests_of_steps m h ha)
  cases h with
  | tick | eof => exact ⟨rfl, rfl, rfl⟩
  | line => exact unchanged_onLine s _
  | dispatch => exact unchanged_onDispatch s _ _
  | request | notify | drop | dropNotify => cases ha
  | insert hc | write hc | receive hc | lose hc | expire hc | remove hc =>
    rw [hi.calls] at hc
    cases hc
  | writeNotify hn =>
    rw [hi.notifies] at hn
    cases hn

/-! ### The request -/

/-- What is written while the `initialize` request is at an await. -/
def Requested (cfg : ConnectionConfig) (written : List UInt8) : CallPhase → Prop
  | .allocated => written = []
  | .sending p => Sends [] (Connection.frame cfg initializeRequest.toValue) written p
  | .waiting _ | .forgetting _ | .returned (.ok _) => written = Connection.frame cfg initializeRequest.toValue
  | .returned (.error _) => written <+: Connection.frame cfg initializeRequest.toValue
  | .idle | .dropped => False

structure Initializing (cfg : ConnectionConfig) (s : Connection) : Prop where
  idle (c : Nat) : c ≠ 0 → (s.calls c).phase = .idle
  notifies (c : Nat) : s.notifies c = .idle
  payload : (s.calls 0).payload = Connection.frame cfg initializeRequest.toValue
  written : Requested cfg s.stdin.written (s.calls 0).phase
  requests : requests s.history = 1

theorem Initializing.eq_zero (hi : Initializing cfg s) {p : CallPhase} (h : (s.calls c).phase = p) (hp : p ≠ .idle) :
    c = 0 := by
  by_contra hc
  exact hp (h.symm.trans (hi.idle c hc))

theorem Initializing.of_unchanged (hi : Initializing cfg s) (h : Unchanged s s')
    (hr : Spec.Mcp.requests s'.history = Spec.Mcp.requests s.history) : Initializing cfg s' where
  idle c hc := by rw [h.calls, hi.idle c hc]
  notifies c := by rw [h.notifies, hi.notifies c]
  payload := by rw [h.calls, hi.payload]
  written := by rw [h.calls, h.written]; exact hi.written
  requests := hr.trans hi.requests

/-- The request goes to its next await. -/
theorem Initializing.goto (hi : Initializing cfg s) (p : CallPhase) (hc : s'.calls = (s.goto 0 p).calls)
    (hn : s'.notifies = s.notifies) (hw : Requested cfg s'.stdin.written p)
    (hr : Spec.Mcp.requests s'.history = Spec.Mcp.requests s.history) : Initializing cfg s' where
  idle c h := by rw [hc, calls_goto_of_ne s p h, hi.idle c h]
  notifies c := by rw [hn, hi.notifies c]
  payload := by rw [hc, payload_goto, hi.payload]
  written := by rw [hc, calls_goto_self]; exact hw
  requests := hr.trans hi.requests

theorem initializing_step {e : Option ConnectionEntry} (hi : Initializing cfg s) (m : Moves cfg s e s')
    (h : ConnectionSteps cfg s a s') (ha : Opening.isCallers (.client a) = false) : Initializing cfg s' := by
  have hr := requests_of_steps m h ha
  have hw := hi.written
  cases h with
  | tick | eof => exact hi.of_unchanged ⟨rfl, rfl, rfl⟩ hr
  | line => exact hi.of_unchanged (unchanged_onLine s _) hr
  | dispatch => exact hi.of_unchanged (unchanged_onDispatch s _ _) hr
  | request | notify | drop | dropNotify => cases ha
  | writeNotify hn =>
    rw [hi.notifies] at hn
    cases hn
  | insert hc =>
    obtain rfl := hi.eq_zero hc (by simp)
    rw [hc] at hw
    obtain ⟨-, hn, hs⟩ := removePending_writers s (s.calls 0).id
    refine hi.goto (.sending .locking) ?_ hn ((congrArg Stdin.written hs).trans hw) hr
    simp only [Connection.goto, calls_insertPending]
  | @write c b p res stdin hc hstep =>
    obtain rfl := hi.eq_zero hc (by simp)
    rw [hc] at hw
    rw [hi.payload] at hstep
    have hsent := sends_step hw hstep
    cases res with
    | goto q => exact hi.goto (.sending q) rfl rfl hsent hr
    | done => exact hi.goto (.waiting _) rfl rfl hsent hr
    | error e => exact hi.goto (.returned (.error e)) rfl rfl hsent.2 hr
  | @receive c deadline line r hc hch =>
    obtain rfl := hi.eq_zero hc (by simp)
    rw [hc] at hw
    refine hi.goto (.returned (Connection.resultOf r)) rfl rfl ?_ hr
    cases Connection.resultOf r with
    | ok v => exact hw
    | error e => exact ⟨[], (List.append_nil _).trans hw⟩
  | lose hc | expire hc =>
    obtain rfl := hi.eq_zero hc (by simp)
    rw [hc] at hw
    exact hi.goto (.forgetting _) rfl rfl hw hr
  | @remove c e hc =>
    obtain rfl := hi.eq_zero hc (by simp)
    rw [hc] at hw
    obtain ⟨hcalls, hn, hs⟩ := removePending_writers s (s.calls 0).id
    refine hi.goto (.returned (.error e)) (by simp only [Connection.goto, hcalls]) hn ?_ hr
    exact ⟨[], (List.append_nil _).trans ((congrArg Stdin.written hs).trans hw)⟩

theorem initializing_of_request (hi : Spawned s) {e : Option ConnectionEntry} (m : Moves cfg s e s')
    (hid : s.nextId = 1) (h : ConnectionSteps cfg s (.request 0 "initialize" initParams) s') : Initializing cfg s' := by
  cases h with
  | request hc =>
    refine ⟨fun c hne => ?_, hi.notifies, ?_, ?_, ?_⟩
    · exact (congrArg Call.phase (Function.update_of_ne hne ..)).trans (hi.calls c)
    · simp only [Connection.log, Function.update_self, hid]
      rfl
    · simp only [Connection.log, Function.update_self]
      exact hi.written
    · show Spec.Mcp.requests (s.history ++ [.called 0]) = 1
      rw [Spec.Mcp.requests, List.countP_append]
      exact congrArg (· + 1) hi.requests

/-! ### The notification -/

/-- What is written while the `initialized` notification is at an await. -/
def Notified (cfg : ConnectionConfig) (written : List UInt8) : NotifyPhase → Prop
  | .sending payload p => payload = Connection.frame cfg initializedNotification.toValue ∧
    Sends (Connection.frame cfg initializeRequest.toValue) payload written p
  | .returned (.ok _) => written = handshake cfg
  | .returned (.error e) => LocalError e ∧ written <+: handshake cfg
  | .idle | .dropped => False

/-- The request has returned. -/
structure Notifying (cfg : ConnectionConfig) (s : Connection) : Prop where
  calls (c : Nat) : (s.calls c).phase = .idle ∨ ∃ result, (s.calls c).phase = .returned result
  idle (c : Nat) : c ≠ 0 → s.notifies c = .idle
  written : Notified cfg s.stdin.written (s.notifies 0)

theorem Notifying.of_unchanged (hi : Notifying cfg s) (h : Unchanged s s') : Notifying cfg s' where
  calls c := by rw [h.calls]; exact hi.calls c
  idle c hc := by rw [h.notifies, hi.idle c hc]
  written := by rw [h.notifies, h.written]; exact hi.written

theorem Notifying.goto (hi : Notifying cfg s) (p : NotifyPhase) (hc : s'.calls = s.calls)
    (hn : s'.notifies = Function.update s.notifies 0 p) (hw : Notified cfg s'.stdin.written p) : Notifying cfg s' where
  calls c := by rw [hc]; exact hi.calls c
  idle c h := by rw [hn, Function.update_of_ne h, hi.idle c h]
  written := by rw [hn, Function.update_self]; exact hw

theorem notifying_step (hi : Notifying cfg s) (h : ConnectionSteps cfg s a s')
    (ha : Opening.isCallers (.client a) = false) : Notifying cfg s' := by
  have hw := hi.written
  cases h with
  | tick | eof => exact hi.of_unchanged ⟨rfl, rfl, rfl⟩
  | line => exact hi.of_unchanged (unchanged_onLine s _)
  | dispatch => exact hi.of_unchanged (unchanged_onDispatch s _ _)
  | request | notify | drop | dropNotify => cases ha
  | insert hc | write hc | receive hc | lose hc | expire hc | remove hc =>
    rcases hi.calls _ with hp | ⟨result, hp⟩ <;>
    · rw [hp] at hc
      cases hc
  | @writeNotify c b payload p res stdin hn hstep =>
    obtain rfl : c = 0 := by
      by_contra hne
      rw [hi.idle c hne] at hn
      cases hn
    rw [hn] at hw
    obtain ⟨hpay, hsends⟩ := hw
    have hsent := sends_step hsends hstep
    subst hpay
    cases res with
    | goto q => exact hi.goto (.sending _ q) rfl rfl ⟨rfl, hsent⟩
    | done => exact hi.goto (.returned (.ok ())) rfl rfl hsent
    | error e => exact hi.goto (.returned (.error e)) rfl rfl hsent

theorem notifying_of_notify (hi : Initializing cfg s) {result : Value} (hp : (s.calls 0).phase = .returned (.ok result))
    (h : ConnectionSteps cfg s (.notify 0 "notifications/initialized" (.object [])) s') : Notifying cfg s' := by
  have hw := hi.written
  rw [hp] at hw
  cases h with
  | notify hn =>
    refine ⟨fun c => ?_, fun c hc => (Function.update_of_ne hc ..).trans (hi.notifies c), ?_⟩
    · by_cases hc : c = 0
      · exact .inr ⟨_, hc ▸ hp⟩
      · exact .inl (hi.idle c hc)
    · simp only [Function.update_self]
      exact ⟨rfl, hw⟩

/-! ## The answer -/

/-- What the request returns is made of the server's answer to it. -/
theorem answer_of_returned (hl : OneLine cfg) (hb : WellBehaved cfg server) {d : Dialogue} (hd : DialogueInv cfg server d)
    (hi : Initializing cfg d.connection) {result : Except McpError Value}
    (hp : (d.connection.calls 0).phase = .returned result) :
    initializeAnswer cfg server = some result ∨ ∃ e, result = .error e ∧ LocalError e := by
  have hle : requests d.connection.history ≤ 2 ^ 64 := by
    rw [hi.requests]
    decide
  have hrank : 1 ≤ rankOf d.connection 0 := by
    rw [rankOf, hp]
    exact Nat.le_add_left 1 4
  have hid : (d.connection.calls 0).id = 1 := by
    obtain ⟨j, hj, hj', hval⟩ := (hd.unique hle).1.numbered 0 hrank
    obtain rfl : j = 1 := Nat.le_antisymm (hi.requests ▸ hj') hj
    exact U64.ext hval
  have hasked : Asked cfg d.connection 0 "initialize" initParams := ⟨hrank, by rw [hi.payload, hid]; rfl⟩
  refine (hd.client.calls.returned 0 result hp).imp_left ?_
  rintro ⟨n, r, hch, rfl⟩
  have hx := exchange_of_sent hl hb hd hle hasked hch
  rw [requestOf, hid] at hx
  rw [initializeAnswer, initializeRequest, hx, Option.map_some]

/-! ## Runs -/

/-- What `open` has come to. -/
def Reached (cfg : ConnectionConfig) (server : LineServer) (s : Connection) : OpenPhase → Prop
  | .spawned => Spawned s
  | .initializing => Initializing cfg s
  | .notifying name => Notifying cfg s ∧ ∃ result, initializeAnswer cfg server = some (.ok result) ∧
    name = displayName result
  | .opened name => handshake cfg <+: s.stdin.written ∧
    ∃ result, initializeAnswer cfg server = some (.ok result) ∧ name = displayName result
  | .failed e => s.stdin.written <+: handshake cfg ∧ (LocalError e ∨ initializeAnswer cfg server = some (.error e))

structure OpeningInv (cfg : ConnectionConfig) (server : LineServer) (o : Opening) : Prop where
  dialogue : DialogueInv cfg server o.dialogue
  reached : Reached cfg server o.dialogue.connection o.phase

theorem openingInv_init (now : Nat) : OpeningInv cfg server (.init now) :=
  ⟨dialogueInv_init now, fun _ => rfl, fun _ => rfl, rfl, rfl⟩

/-- A step of the connection that is no call of a caller's. -/
theorem own_step {d d' : Dialogue} {b : DialogueAction} (h : DialogueSteps cfg server d b d')
    (hb : Opening.isCallers b = false) : d'.connection = d.connection ∨
      ∃ a, d.connection.step cfg a = some d'.connection ∧ Opening.isCallers (.client a) = false := by
  cases h with
  | client _ hs => exact .inr ⟨_, hs, hb⟩
  | line _ _ hs | garbled _ hs => exact .inr ⟨_, hs, rfl⟩
  | serve | fails | exit => exact .inl rfl

theorem reached_step {b : DialogueAction} {d' : Dialogue} (hi : OpeningInv cfg server o) (hp : o.permits b = true)
    (hk : LeavesWhole o.dialogue b) (h : o.dialogue.step cfg server b = some d') :
    Reached cfg server d'.connection o.phase := by
  have hsteps := dialogueSteps_of_step h
  have hreached := hi.reached
  unfold Opening.permits at hp
  generalize o.phase = phase at hp hreached ⊢
  cases phase with
  | opened name =>
    obtain ⟨hpre, hanswer⟩ := hreached
    refine ⟨hpre.trans ?_, hanswer⟩
    rcases connection_step hsteps with hsame | ⟨a, hs, ha⟩
    · exact hsame ▸ List.prefix_refl _
    · have hm := stdinMoves_of_pipeSteps hi.dialogue.client.pipe (pipeSteps_of_step hi.dialogue.client.pipe.payloads hs).1
        (ha hk)
      obtain ⟨xs, hxs⟩ := hm.written_append
      exact ⟨xs, hxs.symm⟩
  | failed e => cases hp
  | spawned =>
    rcases own_step hsteps (by simpa using hp) with hsame | ⟨a, hs, ha⟩
    · rwa [hsame]
    · obtain ⟨e, m⟩ := moves_of_step hi.dialogue.client.inv.owned hs
      exact spawned_step hreached m (connectionSteps_of_step hs) ha
  | initializing =>
    rcases own_step hsteps (by simpa using hp) with hsame | ⟨a, hs, ha⟩
    · rwa [hsame]
    · obtain ⟨e, m⟩ := moves_of_step hi.dialogue.client.inv.owned hs
      exact initializing_step hreached m (connectionSteps_of_step hs) ha
  | notifying name =>
    rcases own_step hsteps (by simpa using hp) with hsame | ⟨a, hs, ha⟩
    · rwa [hsame]
    · exact ⟨notifying_step hreached.1 (connectionSteps_of_step hs) ha, hreached.2⟩

/-- A step of the connection's own is one of both. -/
theorem client_step (hl : OneLine cfg) (hb : WellBehaved cfg server) {d d' : Dialogue} (hi : DialogueInv cfg server d)
    (hk : KeepsFrames d.connection a) (h : d.step cfg server (.client a) = some d') :
    DialogueInv cfg server d' ∧ d.connection.step cfg a = some d'.connection := by
  refine ⟨dialogueInv_step hl hb hi (b := .client a) hk h, ?_⟩
  cases dialogueSteps_of_step h with
  | client _ hs => exact hs

theorem openingInv_step {b : OpenAction} (hl : OneLine cfg) (hb : WellBehaved cfg server) (hi : OpeningInv cfg server o)
    (hk : OpensWhole o b) (h : o.step cfg server b = some o') : OpeningInv cfg server o' := by
  have hreached := hi.reached
  cases b with
  | dialogue b =>
    simp only [Opening.step] at h
    split at h
    · rename_i hp
      obtain ⟨d', hd, rfl⟩ := Option.map_eq_some_iff.mp h
      have hreached' := reached_step hi hp hk hd
      exact ⟨dialogueInv_step hl hb hi.dialogue hk hd, hreached'⟩
    · cases h
  | begin =>
    simp only [Opening.step] at h
    split at h
    · rename_i hp
      obtain ⟨d', hd, rfl⟩ := Option.map_eq_some_iff.mp h
      rw [hp] at hreached
      obtain ⟨hd', hs⟩ := client_step (a := .request 0 "initialize" initParams) hl hb hi.dialogue trivial hd
      obtain ⟨e, m⟩ := moves_of_step hi.dialogue.client.inv.owned hs
      have hid : o.dialogue.connection.nextId = 1 := by
        refine U64.ext (hi.dialogue.client.inv.nextId.trans ?_)
        rw [hreached.requests]
        rfl
      exact ⟨hd', initializing_of_request hreached m hid (connectionSteps_of_step hs)⟩
    · cases h
  | answered =>
    simp only [Opening.step] at h
    split at h
    · rename_i result hp hret
      obtain ⟨d', hd, rfl⟩ := Option.map_eq_some_iff.mp h
      rw [hp] at hreached
      obtain ⟨hd', hs⟩ :=
        client_step (a := .notify 0 "notifications/initialized" (.object [])) hl hb hi.dialogue trivial hd
      refine ⟨hd', notifying_of_notify hreached hret (connectionSteps_of_step hs), result, ?_, rfl⟩
      refine (answer_of_returned hl hb hi.dialogue hreached hret).resolve_right ?_
      rintro ⟨e, he, -⟩
      cases he
    · rename_i e hp hret
      cases h
      rw [hp] at hreached
      have hw := hreached.written
      rw [hret] at hw
      refine ⟨hi.dialogue, hw.trans (List.prefix_append _ _), ?_⟩
      rcases answer_of_returned hl hb hi.dialogue hreached hret with hanswer | ⟨e', he, hlocal⟩
      · exact .inr hanswer
      · cases he
        exact .inl hlocal
    · cases h
  | notified =>
    simp only [Opening.step] at h
    split at h
    · rename_i name hp hret
      cases h
      rw [hp] at hreached
      have hw := hreached.1.written
      rw [hret] at hw
      exact ⟨hi.dialogue, ⟨[], (List.append_nil _).trans hw.symm⟩, hreached.2⟩
    · rename_i name e hp hret
      cases h
      rw [hp] at hreached
      have hw := hreached.1.written
      rw [hret] at hw
      exact ⟨hi.dialogue, hw.2, .inl hw.1⟩
    · cases h

/-- What has been written before the connection is opened. -/
theorem written_of_reached {phase : OpenPhase} (h : Reached cfg server s phase) (hp : ∀ name, phase ≠ .opened name) :
    s.stdin.written <+: handshake cfg := by
  cases phase with
  | spawned =>
    rw [h.written]
    exact List.nil_prefix
  | initializing =>
    refine List.IsPrefix.trans ?_ (List.prefix_append _ _)
    have hw := h.written
    cases hphase : (s.calls 0).phase with
    | returned result =>
      rw [hphase] at hw
      rcases result with e | v
      · exact hw
      · exact ⟨[], (List.append_nil _).trans hw⟩
    | allocated =>
      rw [hphase] at hw
      have hw : s.stdin.written = [] := hw
      rw [hw]
      exact List.nil_prefix
    | sending p =>
      rw [hphase] at hw
      have hw : Sends [] (Connection.frame cfg initializeRequest.toValue) s.stdin.written p := hw
      exact hw.prefix
    | waiting | forgetting =>
      rw [hphase] at hw
      exact ⟨[], (List.append_nil _).trans hw⟩
    | idle | dropped =>
      rw [hphase] at hw
      exact hw.elim
  | notifying name =>
    have hw := h.1.written
    cases hphase : s.notifies 0 with
    | returned result =>
      rw [hphase] at hw
      rcases result with e | v
      · exact hw.2
      · exact ⟨[], (List.append_nil _).trans hw⟩
    | sending payload p =>
      rw [hphase] at hw
      obtain ⟨rfl, hw⟩ := hw
      exact hw.prefix
    | idle | dropped =>
      rw [hphase] at hw
      exact hw.elim
  | opened name => exact absurd rfl (hp name)
  | failed e => exact h.1

/-- In every run of `open` and what follows it, the server is asked to
initialize first, and what `open` returns is made of the answer. -/
theorem handshaken {as : List OpenAction} {now : Nat} (hl : OneLine cfg) (hb : WellBehaved cfg server)
    (h : exec (Opening.step cfg server) (.init now) as = some o)
    (hok : AlongSteps (Opening.step cfg server) OpensWhole (.init now) as) : Handshaken cfg server o := by
  have hi : OpeningInv cfg server o := hok.invariant (openingInv_step hl hb) (openingInv_init now) h
  have hreached := hi.reached
  refine ⟨written_of_reached hreached, fun name hp => ?_, fun e hp => ?_⟩
  · rw [hp] at hreached
    exact hreached
  · rw [hp] at hreached
    exact hreached.2

/-! ## Opening to a server that answers requests -/

/-- `open` without a delay, up to the answer. -/
def asks (cfg : ConnectionConfig) : List OpenAction :=
  .begin :: ((answered cfg "initialize" initParams).drop 1 ++ [.client (.receive 0)] : List DialogueAction).map .dialogue ++ [.answered]

/-- The notification after that. -/
def notifies (cfg : ConnectionConfig) : List OpenAction :=
  let n := (Connection.frame cfg initializedNotification.toValue).length
  [.dialogue (.client (.writeNotify 0 .locked)), .dialogue (.client (.writeNotify 0 (.wrote n))),
    .dialogue (.client (.writeNotify 0 .flushed)), .notified]

theorem opensWhole_opens (cfg : ConnectionConfig) : ∀ b ∈ asks cfg ++ notifies cfg, ∀ o, OpensWhole o b := by
  simp [asks, answered, notifies, OpensWhole, LeavesWhole, KeepsFrames]

theorem length_frame_pos (cfg : ConnectionConfig) (v : Value) : 0 < (Connection.frame cfg v).length := by
  rw [Connection.frame, List.length_append]
  exact Nat.lt_add_left _ Nat.one_pos

theorem exec_asks {r : JsonRpcResponse} {result : Value} (hl : OneLine cfg) (hb : WellBehaved cfg server)
    (hx : exchange cfg server initializeRequest.toValue = some r) (hr : Connection.resultOf r = .ok result) :
    ∃ o, exec (Opening.step cfg server) (.init 0) (asks cfg) = some o ∧ o.phase = .notifying (displayName result) ∧
      o.dialogue.connection.notifies 0 =
        .sending (Connection.frame cfg initializedNotification.toValue) .locking ∧
      o.dialogue.connection.stdin.holder = none := by
  have hid : r.id = 1 := hb.own _ r hx
  simp only [exchange, bind, Option.bind_eq_some_iff] at hx
  obtain ⟨line, hline, reply, hserver, text, htext, hresp⟩ := hx
  have hlen := length_frame_pos cfg initializeRequest.toValue
  have hsent : Lines.lines 10 (Connection.frame cfg initializeRequest.toValue) =
      [cfg.toVec initializeRequest.toValue] := Lines.lines_cons (hl _) []
  have hreplied : Lines.lines 10 (asBytes reply ++ [10]) = [asBytes reply] :=
    Lines.lines_cons (hb.oneLine line reply hserver) []
  have hreq : JsonRpcRequest.mk 1 "initialize" initParams = initializeRequest := rfl
  have hnot : JsonRpcNotification.mk "notifications/initialized" (.object []) = initializedNotification := rfl
  simp [asks, answered, exec, Opening.step, Opening.init, Opening.permits, Opening.isCallers, Dialogue.step,
    Connection.step, Dialogue.init, Connection.init, Call.idle, Connection.log, Connection.goto,
    Connection.insertPending, Connection.removePending, WritePhase.step, Connection.onWrite, Dialogue.written,
    Connection.onLine, Connection.onDispatch, Connection.setChannel, hlen, hreq, hnot, hsent, hreplied, hline, hserver,
    htext, hresp, hid, hr]

theorem exec_notifies {name : Option String} (hp : o.phase = .notifying name)
    (hn : o.dialogue.connection.notifies 0 = .sending (Connection.frame cfg initializedNotification.toValue) .locking)
    (hh : o.dialogue.connection.stdin.holder = none) :
    ∃ o', exec (Opening.step cfg server) o (notifies cfg) = some o' ∧ o'.phase = .opened name := by
  have hlen := length_frame_pos cfg initializedNotification.toValue
  simp [notifies, exec, Opening.step, Opening.permits, Opening.isCallers, hp, Dialogue.step, Connection.step, hn,
    WritePhase.step, hh, Connection.onWriteNotify, hlen]

/-- The answer of a server to the request. -/
def initResult : Value :=
  .object [("capabilities", .object []), ("protocolVersion", .string "2024-11-05"),
    ("serverInfo", .object [("name", .string "walastack-mcp-fake-server"), ("version", .string "0.1.0")])]

theorem handshaken_named : ∃ o,
    exec (Opening.step (plainClient initResult) (plainServer initResult)) (.init 0)
        (asks (plainClient initResult) ++ notifies (plainClient initResult)) = some o ∧
      o.phase = .opened (some "walastack-mcp-fake-server") ∧
      Handshaken (plainClient initResult) (plainServer initResult) o := by
  obtain ⟨o, hasks, hp, hn, hh⟩ :
      ∃ o, exec (Opening.step (plainClient initResult) (plainServer initResult)) (.init 0)
          (asks (plainClient initResult)) = some o ∧ o.phase = .notifying (some "walastack-mcp-fake-server") ∧
        o.dialogue.connection.notifies 0 =
          .sending (Connection.frame (plainClient initResult) initializedNotification.toValue) .locking ∧
        o.dialogue.connection.stdin.holder = none :=
    exec_asks oneLine_plainClient wellBehaved_plain (exchange_plain _) rfl
  obtain ⟨o', hnotifies, hp'⟩ : ∃ o',
      exec (Opening.step (plainClient initResult) (plainServer initResult)) o (notifies (plainClient initResult)) = some o' ∧
        o'.phase = .opened (some "walastack-mcp-fake-server") := exec_notifies hp hn hh
  have hrun := (exec_append_of hasks (notifies (plainClient initResult))).trans hnotifies
  exact ⟨o', hrun, hp', handshaken oneLine_plainClient wellBehaved_plain hrun (.of_forall (opensWhole_opens _) _)⟩

end WalaStack.Proof.Mcp.Dialogue
