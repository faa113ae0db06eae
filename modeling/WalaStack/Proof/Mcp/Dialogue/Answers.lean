import WalaStack.Proof.Mcp.Dialogue.Reader
import WalaStack.Proof.Mcp.Dialogue.Stdin
import WalaStack.Proof.Mcp.PlainClient

/-!
# Answers

The server's stdout is its replies to the lines that it has taken, and the
reader has read the first of these (`PipesInv`). So a response that the reader
has parsed is the answer to a message that a call has sent (`exists_asker`),
and that is the call that gets it.
-/

namespace WalaStack.Proof.Mcp.Dialogue

open WalaStack.Rust WalaStack.Rust.Json WalaStack.Impl.Mcp WalaStack.Spec.Mcp WalaStack.Proof.Mcp.Stdio
open WalaStack.Lines WalaStack.Transition

variable {cfg : ConnectionConfig} {server : LineServer} {d d' : Dialogue} {b : DialogueAction}

/-! ## Steps -/

/-- The steps of a connection and its server. -/
inductive DialogueSteps (cfg : ConnectionConfig) (server : LineServer) (d : Dialogue) : DialogueAction → Dialogue → Prop
  | client {a : ConnectionAction} {s' : Connection} : (∀ text, a ≠ .line text) → d.connection.step cfg a = some s' →
    DialogueSteps cfg server d (.client a) { d with connection := s' }
  | line {bytes : List UInt8} {text : String} {s' : Connection} : (lines 10 d.stdout)[d.connection.lines]? = some bytes →
    lineText bytes = some text → d.connection.step cfg (.line text) = some s' →
    DialogueSteps cfg server d .line { d with connection := s' }
  | garbled {bytes : List UInt8} {s' : Connection} : lineText bytes = none → d.connection.step cfg .eof = some s' →
    DialogueSteps cfg server d .line { d with connection := s' }
  | serve {bytes : List UInt8} {text : String} : d.serving = true →
    (lines 10 d.connection.stdin.written)[d.taken]? = some bytes → lineText bytes = some text →
    DialogueSteps cfg server d .serve
      { d with taken := d.taken + 1, stdout := d.stdout ++ Dialogue.written server text }
  | fails : DialogueSteps cfg server d .serve { d with serving := false }
  | exit : DialogueSteps cfg server d .exit { d with serving := false }

theorem dialogueSteps_of_step (h : d.step cfg server b = some d') : DialogueSteps cfg server d b d' := by
  cases b with
  | client a =>
    have hmap (ha : ∀ text, a ≠ .line text)
        (h : ((d.connection.step cfg a).map fun s' => { d with connection := s' }) = some d') :
        DialogueSteps cfg server d (.client a) d' := by
      obtain ⟨s', hs, rfl⟩ := Option.map_eq_some_iff.mp h
      exact .client ha hs
    cases a with
    | line text => cases h
    | _ => exact hmap (by simp) h
  | line =>
    simp only [Dialogue.step] at h
    split at h
    · rename_i bytes hb
      cases ht : lineText bytes with
      | some text =>
        rw [ht] at h
        obtain ⟨s', hs, rfl⟩ := Option.map_eq_some_iff.mp h
        exact .line hb ht hs
      | none =>
        rw [ht] at h
        obtain ⟨s', hs, rfl⟩ := Option.map_eq_some_iff.mp h
        exact .garbled ht hs
    · cases h
  | serve =>
    simp only [Dialogue.step] at h
    split at h
    · rename_i hserving
      split at h
      · rename_i bytes hb
        split at h
        · rename_i text ht
          cases h
          exact .serve hserving hb ht
        · cases h
          exact .fails
      · cases h
    · cases h
  | exit =>
    cases h
    exact .exit

/-- The step of the connection in a step of both. -/
theorem connection_step (h : DialogueSteps cfg server d b d') : d'.connection = d.connection ∨
    ∃ a, d.connection.step cfg a = some d'.connection ∧ (LeavesWhole d b → KeepsFrames d.connection a) := by
  cases h with
  | client ha hs => exact .inr ⟨_, hs, id⟩
  | line _ _ hs | garbled _ hs => exact .inr ⟨_, hs, fun _ => trivial⟩
  | serve | fails | exit => exact .inl rfl

/-! ## The client -/

/-- What holds of the connection by itself. -/
structure ClientInv (cfg : ConnectionConfig) (s : Connection) : Prop where
  inv : Stdio.Inv cfg s
  pipe : PipeInv cfg s
  calls : CallsInv cfg s
  stdin : StdinInv cfg s
  reader : ReaderInv cfg s

theorem clientInv_init (now : Nat) : ClientInv cfg (.init now) :=
  ⟨Stdio.inv_init now, pipeInv_init now, callsInv_init now, stdinInv_init now, readerInv_init now⟩

theorem clientInv_step {s s' : Connection} {a : ConnectionAction} (hl : OneLine cfg) (hi : ClientInv cfg s)
    (h : s.step cfg a = some s') (hk : KeepsFrames s a) : ClientInv cfg s' := by
  obtain ⟨e, m⟩ := moves_of_step hi.inv.owned h
  obtain ⟨hpipe, hpay⟩ := pipeSteps_of_step hi.pipe.payloads h
  have hsteps := connectionSteps_of_step h
  have hcalls := callMoves_of_steps hsteps
  exact ⟨inv_move hi.inv m, pipeInv_step hi.pipe hpipe hpay, callsInv_step hi.calls m hsteps,
    stdinInv_step hl hi.pipe hi.calls hi.stdin m hcalls hpipe hk, readerInv_step hi.reader (readerSteps_of_steps hsteps)⟩

/-! ## The pipes -/

/-- The server's replies to its lines. -/
def replies (server : LineServer) (ls : List (List UInt8)) : List String :=
  ls.filterMap fun bytes => (lineText bytes).bind server

/-- The replies so far. -/
def replied (server : LineServer) (d : Dialogue) : List String :=
  replies server ((lines 10 d.connection.stdin.written).take d.taken)

structure PipesInv (server : LineServer) (d : Dialogue) : Prop where
  taken : d.taken ≤ (lines 10 d.connection.stdin.written).length
  stdout : d.stdout = unlines 10 ((replied server d).map asBytes)
  read (n : Nat) (text : String) : .read n text ∈ d.connection.history →
    ∃ reply, (replied server d)[n]? = some reply ∧ lineText (asBytes reply) = some text

theorem pipesInv_init (now : Nat) : PipesInv server (.init now) where
  taken := Nat.zero_le _
  stdout := rfl
  read n text h := by cases h

theorem lines_grow_of_step {s s' : Connection} {a : ConnectionAction} (hi : ClientInv cfg s) (h : s.step cfg a = some s')
    (hk : KeepsFrames s a) : lines 10 s.stdin.written <+: lines 10 s'.stdin.written :=
  (stdinMoves_of_pipeSteps hi.pipe (pipeSteps_of_step hi.pipe.payloads h).1 hk).lines_grow

theorem lines_stdout (hb : WellBehaved cfg server) (hp : PipesInv server d) :
    lines 10 d.stdout = (replied server d).map asBytes := by
  rw [hp.stdout, ← List.append_nil (unlines _ _)]
  refine lines_unlines (fun bytes hm => ?_) List.not_mem_nil
  obtain ⟨reply, hr, rfl⟩ := List.mem_map.mp hm
  obtain ⟨line, -, hline⟩ := List.mem_filterMap.mp hr
  obtain ⟨text, -, hserver⟩ := Option.bind_eq_some_iff.mp hline
  exact hb.oneLine text reply hserver

/-- The replies after a step of the connection. -/
theorem replied_of_grow {s' : Connection} (ht : d.taken ≤ (lines 10 d.connection.stdin.written).length)
    (hg : lines 10 d.connection.stdin.written <+: lines 10 s'.stdin.written) :
    replied server { d with connection := s' } = replied server d := by
  obtain ⟨more, hmore⟩ := hg
  show replies server ((lines 10 s'.stdin.written).take d.taken) = _
  rw [← hmore, List.take_append_of_le_length ht, replied]

/-- A line that the reader has read is a reply, if the next one is. -/
theorem pipesInv_of_client {s' : Connection} {a : ConnectionAction} (hi : ClientInv cfg d.connection)
    (hp : PipesInv server d) (h : d.connection.step cfg a = some s') (hk : KeepsFrames d.connection a)
    (hline : ∀ text, a = .line text →
      ∃ reply, (replied server d)[d.connection.lines]? = some reply ∧ lineText (asBytes reply) = some text) :
    PipesInv server { d with connection := s' } := by
  have hg := lines_grow_of_step hi h hk
  have hsame : replied server { d with connection := s' } = replied server d := replied_of_grow hp.taken hg
  refine ⟨hp.taken.trans hg.length_le, by rw [hsame]; exact hp.stdout, fun n text hm => ?_⟩
  rw [hsame]
  rcases (readerSteps_of_steps (connectionSteps_of_step h)).read hm with hm | ⟨ha, rfl⟩
  · exact hp.read n text hm
  · exact hline text ha

theorem pipesInv_serve {bytes : List UInt8} {text : String} (hp : PipesInv server d)
    (hb : (lines 10 d.connection.stdin.written)[d.taken]? = some bytes) (ht : lineText bytes = some text) :
    PipesInv server { d with taken := d.taken + 1, stdout := d.stdout ++ Dialogue.written server text } := by
  have hreplied : replied server { d with taken := d.taken + 1, stdout := d.stdout ++ Dialogue.written server text } =
      replied server d ++ (server text).toList := by
    show replies server ((lines 10 d.connection.stdin.written).take (d.taken + 1)) = _
    rw [List.take_add_one, hb, replied, replies, replies, List.filterMap_append, Option.toList_some]
    cases hs : server text <;> simp [ht, hs]
  refine ⟨(List.getElem?_eq_some_iff.mp hb).1, ?_, fun n t hm => ?_⟩
  · rw [hreplied, List.map_append, unlines_append, ← hp.stdout]
    refine congrArg (d.stdout ++ ·) ?_
    unfold Dialogue.written
    cases server text with
    | none => rfl
    | some reply => exact (unlines_singleton _).symm
  · obtain ⟨reply, hr, hread⟩ := hp.read n t hm
    rw [hreplied]
    exact ⟨reply, List.getElem?_append_left (List.getElem?_eq_some_iff.mp hr).1 ▸ hr, hread⟩

theorem pipesInv_step (hb : WellBehaved cfg server) (hi : ClientInv cfg d.connection) (hp : PipesInv server d)
    (h : DialogueSteps cfg server d b d') (hk : LeavesWhole d b) : PipesInv server d' := by
  cases h with
  | client ha hs => exact pipesInv_of_client hi hp hs hk fun text he => absurd he (ha text)
  | line hbytes ht hs =>
    refine pipesInv_of_client hi hp hs trivial fun text he => ?_
    cases he
    rw [lines_stdout hb hp, List.getElem?_map, Option.map_eq_some_iff] at hbytes
    obtain ⟨reply, hr, rfl⟩ := hbytes
    exact ⟨reply, hr, ht⟩
  | garbled _ hs => exact pipesInv_of_client hi hp hs trivial nofun
  | serve _ hbytes ht => exact pipesInv_serve hp hbytes ht
  | fails | exit => exact ⟨hp.taken, hp.stdout, hp.read⟩

/-! ## The call of an answer -/

/-- The server's answer to the message of a call. -/
def Answers (cfg : ConnectionConfig) (server : LineServer) (s : Connection) (c : Nat) (r : JsonRpcResponse) : Prop :=
  ∃ method params, Asked cfg s c method params ∧
    exchange cfg server (JsonRpcRequest.toValue ⟨(s.calls c).id, method, params⟩) = some r

theorem Answers.id {s : Connection} {c : Nat} {r : JsonRpcResponse} (hb : WellBehaved cfg server)
    (h : Answers cfg server s c r) : r.id = (s.calls c).id := by
  obtain ⟨method, params, -, hx⟩ := h
  exact hb.own _ r hx

/-- A response that was parsed answers a call that has sent its message. -/
theorem exists_asker (hl : OneLine cfg) (hb : WellBehaved cfg server) (hi : ClientInv cfg d.connection)
    (hp : PipesInv server d) {n : Nat} {r : JsonRpcResponse} (h : Parsed cfg d.connection n r) :
    ∃ c, 2 ≤ rankOf d.connection c ∧ Answers cfg server d.connection c r := by
  obtain ⟨text, hread, hresp⟩ := h
  obtain ⟨reply, hr, htext⟩ := hp.read n text hread
  obtain ⟨bytes, hbytes, hserver⟩ := List.mem_filterMap.mp (List.mem_of_getElem? hr)
  obtain ⟨line, hline, hreply⟩ := Option.bind_eq_some_iff.mp hserver
  have hanswer (v : Value) (hv : bytes ++ [10] = Connection.frame cfg v) : exchange cfg server v = some r := by
    obtain rfl : bytes = cfg.toVec v := List.append_cancel_right hv
    simp [exchange, hline, hreply, htext, hresp]
  have hmem := List.mem_of_mem_take hbytes
  rcases ((exists_lines hl hi.pipe hi.calls hi.stdin).1 bytes hmem).2 with ⟨c, h2, hpay⟩ | ⟨notification, hpay⟩
  · obtain ⟨method, params, hasked⟩ := hi.calls.asked c (by omega)
    exact ⟨c, h2, method, params, hasked, hanswer _ (hpay.trans hasked.2)⟩
  · have hquiet := hb.quiet notification
    rw [hanswer _ hpay] at hquiet
    cases hquiet

/-- A response that was looked up answered a call, which has its response unless
it was past waiting for one. -/
def LookedUp (s : Connection) : Prop :=
  ∀ n r, .dispatched n r ∈ s.history →
    ∃ c, 2 ≤ rankOf s c ∧ (s.calls c).id = r.id ∧ (rankOf s c ≤ 3 → ∃ n r, s.channels c = .sent n r)

theorem lookedUp_step {s' : Connection} {a : ConnectionAction} (hl : OneLine cfg) (hb : WellBehaved cfg server)
    (hi : ClientInv cfg d.connection) (hp : PipesInv server d) (hlive : Live d.connection) (h : LookedUp d.connection)
    (hs : d.connection.step cfg a = some s') : LookedUp s' := by
  intro n r hm
  obtain ⟨e, m⟩ := moves_of_step hi.inv.owned hs
  rcases (mem_history m).mp hm with hm | rfl
  · obtain ⟨c, h2, hid, hsent⟩ := h n r hm
    have hmono := m.rank_le c
    refine ⟨c, by omega, (m.id c (by omega)).trans hid, fun h3 => ?_⟩
    obtain ⟨n', r', hch⟩ := hsent (by omega)
    exact ⟨n', r', m.sent hch⟩
  · obtain ⟨hr, hnew⟩ := m.logged
    obtain ⟨c, h2, hanswer⟩ := exists_asker hl hb hi hp (hi.inv.holding n r hr).1
    have hid := hanswer.id hb
    have hmono := m.rank_le c
    refine ⟨c, by omega, (m.id c (by omega)).trans hid.symm, fun h3 => ?_⟩
    rcases hlive.live c h2 (by omega) with ⟨n', r', hch⟩ | hpend
    · exact ⟨n', r', m.sent hch⟩
    · exact ⟨n, r, hnew c (hid ▸ hpend)⟩

/-! ## Runs -/

structure DialogueInv (cfg : ConnectionConfig) (server : LineServer) (d : Dialogue) : Prop where
  client : ClientInv cfg d.connection
  pipes : PipesInv server d
  /-- While the ids are distinct. -/
  unique : requests d.connection.history ≤ 2 ^ 64 → Live d.connection ∧ LookedUp d.connection

theorem dialogueInv_init (now : Nat) : DialogueInv cfg server (.init now) :=
  ⟨clientInv_init now, pipesInv_init now, fun _ => ⟨live_init now, fun n r h => by cases h⟩⟩

theorem dialogueInv_step (hl : OneLine cfg) (hb : WellBehaved cfg server) (hi : DialogueInv cfg server d)
    (hk : LeavesWhole d b) (h : d.step cfg server b = some d') : DialogueInv cfg server d' := by
  have hsteps := dialogueSteps_of_step h
  have hpipes := pipesInv_step hb hi.client hi.pipes hsteps hk
  rcases connection_step hsteps with hsame | ⟨a, hs, ha⟩
  · exact ⟨hsame ▸ hi.client, hpipes, hsame ▸ hi.unique⟩
  · refine ⟨clientInv_step hl hi.client hs (ha hk), hpipes, fun hle => ?_⟩
    obtain ⟨e, m⟩ := moves_of_step hi.client.inv.owned hs
    obtain ⟨hlive, hlooked⟩ := hi.unique ((requests_mono m).trans hle)
    exact ⟨live_move hi.client.inv hlive m hle, lookedUp_step hl hb hi.client hi.pipes hlive hlooked hs⟩

/-- A call keeps its request. -/
theorem asked_step (hi : DialogueInv cfg server d) (h : d.step cfg server b = some d') {c : Nat} {method : String}
    {params : Value} (ha : Asked cfg d.connection c method params) : Asked cfg d'.connection c method params := by
  rcases connection_step (dialogueSteps_of_step h) with hsame | ⟨a, hs, -⟩
  · exact hsame ▸ ha
  · obtain ⟨e, m⟩ := moves_of_step hi.client.inv.owned hs
    exact ha.step m (callMoves_of_steps (connectionSteps_of_step hs))

theorem asked_of_mem {as : List DialogueAction} (hl : OneLine cfg) (hb : WellBehaved cfg server)
    (hi : DialogueInv cfg server d) (hok : AlongSteps (Dialogue.step cfg server) LeavesWhole d as)
    (h : exec (Dialogue.step cfg server) d as = some d') {c : Nat} {method : String} {params : Value}
    (hm : .client (.request c method params) ∈ as ∨ Asked cfg d.connection c method params) :
    Asked cfg d'.connection c method params := by
  induction as generalizing d with
  | nil =>
    cases h
    exact hm.resolve_left List.not_mem_nil
  | cons b as ih =>
    rw [exec_cons, Option.bind_eq_some_iff] at h
    obtain ⟨d₁, h₁, h₂⟩ := h
    refine ih (dialogueInv_step hl hb hi hok.1 h₁) (hok.2 d₁ h₁) h₂ ?_
    rcases hm with hm | ha
    · refine (List.mem_cons.mp hm).symm.imp_right fun hb' => ?_
      subst hb'
      cases dialogueSteps_of_step h₁ with
      | client _ hs => exact asked_of_request hs
    · exact .inr (asked_step hi h₁ ha)

/-- What the channel of a call holds is the server's answer to its request. -/
theorem exchange_of_sent (hl : OneLine cfg) (hb : WellBehaved cfg server) (hi : DialogueInv cfg server d)
    (hle : requests d.connection.history ≤ 2 ^ 64) {c n : Nat} {r : JsonRpcResponse} {method : String} {params : Value}
    (ha : Asked cfg d.connection c method params) (hch : d.connection.channels c = .sent n r) :
    exchange cfg server (requestOf d c method params).toValue = some r := by
  obtain ⟨hid, hparsed⟩ := hi.client.inv.sent c n r hch
  obtain ⟨c', h2, hanswer⟩ := exists_asker hl hb hi.client hi.pipes hparsed
  obtain rfl : c' = c := (hi.unique hle).1.distinct c' c (by omega) ha.1 ((hanswer.id hb).symm.trans hid)
  obtain ⟨method', params', ha', hx⟩ := hanswer
  have hsame : cfg.toVec (requestOf d c' method params).toValue =
      cfg.toVec (JsonRpcRequest.toValue ⟨(d.connection.calls c').id, method', params'⟩) :=
    List.append_cancel_right (ha.2.symm.trans ha'.2)
  rw [← hx, exchange, exchange, hsame]

/-- In every run of a connection and its server, however the calls interleave
and whatever the pipes hold back, a call that returns has the server's answer to
its own request, or fails on the client's side. -/
theorem own_answers {as : List DialogueAction} {now : Nat} (hl : OneLine cfg) (hb : WellBehaved cfg server)
    (h : exec (Dialogue.step cfg server) (.init now) as = some d)
    (hok : AlongSteps (Dialogue.step cfg server) LeavesWhole (.init now) as)
    (hle : requests d.connection.history ≤ 2 ^ 64) : OwnAnswers cfg server as d := by
  intro c method params hm result hret
  have hi : DialogueInv cfg server d := hok.invariant (dialogueInv_step hl hb) (dialogueInv_init now) h
  have ha := asked_of_mem hl hb (dialogueInv_init now) hok h (.inl hm)
  refine (hi.client.calls.returned c result hret).imp_left ?_
  rintro ⟨n, r, hch, hr⟩
  exact ⟨r, exchange_of_sent hl hb hi hle ha hch, hr⟩

/-- Once the server and the reader have taken all their lines, every call that
waits for what the server has answered has the answer at hand: no response is
lost between the two. -/
theorem none_unanswered {as : List DialogueAction} {now : Nat} (hl : OneLine cfg) (hb : WellBehaved cfg server)
    (h : exec (Dialogue.step cfg server) (.init now) as = some d)
    (hok : AlongSteps (Dialogue.step cfg server) LeavesWhole (.init now) as)
    (hle : requests d.connection.history ≤ 2 ^ 64) : NoneUnanswered cfg server as d := by
  intro hsettled c method params hm deadline hwait r hx
  have hi : DialogueInv cfg server d := hok.invariant (dialogueInv_step hl hb) (dialogueInv_init now) h
  have ha := asked_of_mem hl hb (dialogueInv_init now) hok h (.inl hm)
  have hrank : rankOf d.connection c = 3 := by rw [rankOf, hwait]; rfl
  obtain ⟨hlive, hlooked⟩ := hi.unique hle
  have hreplied : ∃ (n : Nat) (reply text : String), (replied server d)[n]? = some reply ∧ lineText (asBytes reply) = some text ∧
      Connection.responseOf cfg text = some r := by
    -- The server has taken the message of the call.
    obtain ⟨bytes, hbytes, hpay⟩ := hi.client.stdin.waiting c deadline hwait
    obtain rfl : cfg.toVec (requestOf d c method params).toValue = bytes :=
      List.append_cancel_right (ha.2.symm.trans hpay)
    simp only [exchange, bind, Option.bind_eq_some_iff] at hx
    obtain ⟨line, hline, reply, hserver, text, htext, hresp⟩ := hx
    have hmem : reply ∈ replied server d := by
      rw [replied, hsettled.taken, List.take_length]
      exact List.mem_filterMap.mpr ⟨_, hbytes, by rw [hline, Option.bind_some, hserver]⟩
    obtain ⟨n, hn⟩ := List.getElem?_of_mem hmem
    exact ⟨n, reply, text, hn, htext, hresp⟩
  obtain ⟨n, reply, text, hn, htext, hresp⟩ := hreplied
  -- The reader has read the reply, and looked it up.
  have hlines : n < d.connection.lines := by
    rw [hsettled.read, lines_stdout hb hi.pipes, List.length_map]
    exact (List.getElem?_eq_some_iff.mp hn).1
  obtain ⟨text', hread⟩ := hi.client.reader.all_read n hlines
  obtain ⟨reply', hn', htext'⟩ := hi.pipes.read n text' hread
  obtain rfl := Option.some.inj (hn.symm.trans hn')
  obtain rfl := Option.some.inj (htext.symm.trans htext')
  have hdispatched : .dispatched n r ∈ d.connection.history :=
    (hi.client.reader.handled n text r hread hresp).resolve_left fun hold => by cases hsettled.reading.symm.trans hold
  obtain ⟨c', h2, hid, hsent⟩ := hlooked n r hdispatched
  obtain rfl : c' = c := hlive.distinct c' c (by omega) ha.1 (hid.trans (hb.own _ r hx))
  obtain ⟨n', r', hch⟩ := hsent (by omega)
  obtain rfl := Option.some.inj ((exchange_of_sent hl hb hi hle ha hch).symm.trans hx)
  exact ⟨n', hch⟩

/-! ## A server that answers requests -/

/-- A server that answers every request with one result. -/
def plainServer (result : Value) : LineServer := fun line =>
  (idOf line.toList).map fun id => String.ofList (respond result id).compact

variable {result : Value}

/-- The text of an object is the line that it is written on. -/
theorem lineText_toVec (entries : List (String × Value)) :
    lineText (toVec (.object entries)) = some (String.ofList (Value.object entries).compact) := by
  have hlast : (Value.object entries).compact.getLast? = some '\x7d' := by
    rw [Value.compact, ← List.cons_append, List.getLast?_concat]
  rw [lineText, toVec, fromUtf8_asBytes, Option.map_some, chomp, String.toList_ofList, hlast, if_neg (by decide)]

theorem exchange_plain (req : JsonRpcRequest) :
    exchange (plainClient result) (plainServer result) req.toValue = some ⟨req.id, result.asOption, none⟩ := by
  have hline : lineText ((plainClient result).toVec req.toValue) = some (String.ofList req.toValue.compact) :=
    lineText_toVec _
  have hserver : plainServer result (String.ofList req.toValue.compact) =
      some (String.ofList (respond result req.id).compact) := by
    rw [plainServer, String.toList_ofList, idOf_request, Option.map_some]
  have hreply : lineText (asBytes (String.ofList (respond result req.id).compact)) =
      some (String.ofList (respond result req.id).compact) := lineText_toVec _
  simp only [exchange, hline, hserver, hreply, responseOf_respond, Option.bind_eq_bind, Option.bind_some]

theorem wellBehaved_plain : WellBehaved (plainClient result) (plainServer result) where
  own req r h := by
    rw [exchange_plain] at h
    cases h
    rfl
  quiet n := by
    have hline : lineText ((plainClient result).toVec n.toValue) = some (String.ofList n.toValue.compact) :=
      lineText_toVec _
    have hserver : plainServer result (String.ofList n.toValue.compact) = none := by
      rw [plainServer, String.toList_ofList, idOf_notification, Option.map_none]
    simp only [exchange, hline, hserver, Option.bind_eq_bind, Option.bind_some, Option.bind_none]
  oneLine line reply h := by
    obtain ⟨id, -, rfl⟩ := Option.map_eq_some_iff.mp h
    exact newline_not_mem_toVec (respond result id)

/-- A request, up to its response. -/
def answered (cfg : ConnectionConfig) (method : String) (params : Value) : List DialogueAction :=
  let n := (Connection.frame cfg (JsonRpcRequest.toValue ⟨1, method, params⟩)).length
  [.client (.request 0 method params), .client (.insert 0), .client (.write 0 .locked), .client (.write 0 (.wrote n)),
    .client (.write 0 .flushed), .serve, .line, .client .dispatch]

theorem leavesWhole_answered (cfg : ConnectionConfig) (method : String) (params : Value) :
    ∀ b ∈ answered cfg method params, ∀ d, LeavesWhole d b := by
  simp [answered, LeavesWhole, KeepsFrames]

theorem exec_answered {method : String} {params : Value} {r : JsonRpcResponse} (hl : OneLine cfg)
    (hb : WellBehaved cfg server) (hx : exchange cfg server (JsonRpcRequest.toValue ⟨1, method, params⟩) = some r) :
    ∃ d, exec (Dialogue.step cfg server) (.init 0) (answered cfg method params) = some d ∧ Settled d ∧
      (d.connection.calls 0).phase = .waiting cfg.requestTimeout.nanos ∧ (d.connection.calls 0).id = 1 ∧
      d.connection.channels 0 = .sent 0 r ∧ requests d.connection.history = 1 := by
  have hid : r.id = 1 := hb.own _ r hx
  simp only [exchange, bind, Option.bind_eq_some_iff] at hx
  obtain ⟨line, hline, reply, hserver, text, htext, hresp⟩ := hx
  have hlen : 0 < (Connection.frame cfg (JsonRpcRequest.toValue ⟨1, method, params⟩)).length := by
    rw [Connection.frame, List.length_append]
    exact Nat.lt_add_left _ Nat.one_pos
  have hsent : lines 10 (Connection.frame cfg (JsonRpcRequest.toValue ⟨1, method, params⟩)) =
      [cfg.toVec (JsonRpcRequest.toValue ⟨1, method, params⟩)] := lines_cons (hl _) []
  have hreplied : lines 10 (asBytes reply ++ [10]) = [asBytes reply] := lines_cons (hb.oneLine line reply hserver) []
  suffices h : ∃ d, exec (Dialogue.step cfg server) (.init 0) (answered cfg method params) = some d ∧
      (d.taken = (lines 10 d.connection.stdin.written).length ∧ d.connection.reader = .reading ∧
        d.connection.lines = (lines 10 d.stdout).length) ∧
      (d.connection.calls 0).phase = .waiting cfg.requestTimeout.nanos ∧ (d.connection.calls 0).id = 1 ∧
      d.connection.channels 0 = .sent 0 r ∧ requests d.connection.history = 1 by
    obtain ⟨d, hrun, ⟨htaken, hreading, hread⟩, hrest⟩ := h
    exact ⟨d, hrun, ⟨htaken, hreading, hread⟩, hrest⟩
  simp [answered, exec, Dialogue.step, Connection.step, Dialogue.init, Connection.init, Call.idle, Connection.log,
    Connection.goto, Connection.insertPending, Connection.removePending, WritePhase.step, Connection.onWrite,
    Dialogue.written, Connection.onLine, Connection.onDispatch, Connection.setChannel, hlen, hsent, hreplied, hline,
    hserver, htext, hresp, hid, requests]
  rfl

abbrev pingClient : ConnectionConfig := plainClient (.object [])

abbrev pingServer : LineServer := plainServer (.object [])

/-- A ping, up to its response. -/
def pinged : List DialogueAction := answered pingClient "ping" (.object [])

theorem exec_pinged : ∃ d, exec (Dialogue.step pingClient pingServer) (.init 0) pinged = some d ∧ Settled d ∧
    (d.connection.calls 0).phase = .waiting pingClient.requestTimeout.nanos ∧ (d.connection.calls 0).id = 1 ∧
    d.connection.channels 0 = .sent 0 ⟨1, some (.object []), none⟩ ∧ requests d.connection.history = 1 :=
  exec_answered oneLine_plainClient wellBehaved_plain (exchange_plain _)

/-- A ping gets its pong. -/
theorem own_answers_ping : ∃ d result,
    exec (Dialogue.step pingClient pingServer) (.init 0) (pinged ++ [.client (.receive 0)]) = some d ∧
      (d.connection.calls 0).phase = .returned result ∧
      OwnAnswers pingClient pingServer (pinged ++ [.client (.receive 0)]) d := by
  obtain ⟨d, hrun, -, hwait, -, hch, hreq⟩ := exec_pinged
  obtain ⟨d', hstep, hret, hreq'⟩ : ∃ d', d.step pingClient pingServer (.client (.receive 0)) = some d' ∧
      (d'.connection.calls 0).phase = .returned (.ok (.object [])) ∧
        requests d'.connection.history = requests d.connection.history := by
    simp [Dialogue.step, Connection.step, hwait, hch, Connection.log, Connection.goto, requests, isCalled,
      Connection.resultOf]
  have hrun' := (exec_append_of hrun [.client (.receive 0)]).trans (exec_cons_of hstep [])
  refine ⟨d', _, hrun', hret, own_answers oneLine_plainClient wellBehaved_plain hrun' (.of_forall ?_ _) ?_⟩
  · intro b hb d
    rcases List.mem_append.mp hb with hb | hb
    · exact leavesWhole_answered _ _ _ b hb d
    · rw [List.mem_singleton.mp hb]
      trivial
  · rw [hreq', hreq]
    decide

/-- Its response is at hand when nothing is on its way any more. -/
theorem none_unanswered_ping : ∃ d n,
    exec (Dialogue.step pingClient pingServer) (.init 0) pinged = some d ∧
      d.connection.channels 0 = .sent n ⟨1, some (.object []), none⟩ := by
  obtain ⟨d, hrun, hsettled, hwait, hid, -, hreq⟩ := exec_pinged
  have hok : AlongSteps (Dialogue.step pingClient pingServer) LeavesWhole (.init 0) pinged :=
    .of_forall (leavesWhole_answered _ _ _) _
  have hrequest : requestOf d 0 "ping" (.object []) = ⟨1, "ping", .object []⟩ := by rw [requestOf, hid]
  obtain ⟨n, hch⟩ := none_unanswered oneLine_plainClient wellBehaved_plain hrun hok (by rw [hreq]; decide) hsettled 0 "ping"
    (.object []) List.mem_cons_self _ hwait _ (by rw [hrequest]; exact exchange_plain _)
  exact ⟨d, n, hrun, hch⟩

end WalaStack.Proof.Mcp.Dialogue
