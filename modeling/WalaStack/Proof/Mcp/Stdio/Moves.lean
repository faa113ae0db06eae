import WalaStack.Spec.Connection
import WalaStack.Proof.Mcp.Stdio.Steps

/-!
# What one step of a connection does

`Moves` collects what a step can do to the calls, the map of pending
requests, the channels and the reader, together with the entry that it adds
to the history; `moves_of_step` says that every step is one of these moves. A
call only goes forward (`rank`), and a channel keeps its response.
-/

namespace WalaStack.Proof.Mcp.Stdio

open WalaStack.Rust WalaStack.Impl.Mcp WalaStack.Spec.Mcp

variable {cfg : ConnectionConfig} {s s' : Connection} {c : Nat} {e : Option ConnectionEntry}

/-- How far a call has come. -/
def rank : CallPhase → Nat
  | .idle => 0
  | .allocated => 1
  | .sending _ => 2
  | .waiting _ => 3
  | .forgetting _ => 4
  | .returned _ | .dropped => 5

theorem rank_le (p : CallPhase) : rank p ≤ 5 := by
  cases p <;> simp [rank]

theorem rank_pos {p : CallPhase} (h : p ≠ .idle) : 1 ≤ rank p := by
  cases p <;> simp_all [rank]

def rankOf (s : Connection) (c : Nat) : Nat := rank (s.calls c).phase

/-- What a step has done that adds an entry to the history. -/
def Logged (s s' : Connection) : Option ConnectionEntry → Prop
  | none => True
  | some (.called c) => rankOf s c = 0 ∧ rankOf s' c = 1 ∧ (s'.calls c).id = s.nextId
  | some (.written c) => rankOf s c = 2 ∧ rankOf s' c = 3
  | some (.read n _) => n = s.lines
  | some (.dispatched n r) => s.reader = .holding n r ∧ ∀ c, s.pending r.id = some c → s'.channels c = .sent n r
  | some (.completed c n r) => s.channels c = .sent n r ∧ rankOf s c = 3 ∧ rankOf s' c = 5
  | some (.expired c) => s.channels c = .empty ∧ rankOf s c = 3 ∧ rankOf s' c = 4
  | some (.lost c) => s.channels c = .closed ∧ rankOf s c = 3 ∧ rankOf s' c = 4

def nextIdAfter (s : Connection) : Option ConnectionEntry → U64
  | some (.called _) => s.nextId.wrappingSucc
  | _ => s.nextId

def linesAfter (s : Connection) : Option ConnectionEntry → Nat
  | some (.read _ _) => s.lines + 1
  | _ => s.lines

structure Moves (cfg : ConnectionConfig) (s : Connection) (e : Option ConnectionEntry) (s' : Connection) : Prop where
  rank_le (c : Nat) : rankOf s c ≤ rankOf s' c
  idle (c : Nat) : rankOf s c = 0 → e ≠ some (.called c) → rankOf s' c = 0
  id (c : Nat) : 1 ≤ rankOf s c → (s'.calls c).id = (s.calls c).id
  sent {c n : Nat} {r : JsonRpcResponse} : s.channels c = .sent n r → s'.channels c = .sent n r
  /-- A channel gets a response from the reader, by way of the map. -/
  new_sent {c n : Nat} {r : JsonRpcResponse} : s'.channels c = .sent n r →
    s.channels c = .sent n r ∨ (s.reader = .holding n r ∧ s.pending r.id = some c ∧ s'.reader = .reading)
  unchanged {c : Nat} : (∀ id, s.pending id ≠ some c) → s'.channels c = s.channels c
  pending {id : U64} {c : Nat} : s'.pending id = some c →
    (s.pending id = some c ∧ s'.channels c = s.channels c) ∨
      (id = (s.calls c).id ∧ rankOf s c = 1 ∧ rankOf s' c = 2)
  /-- An entry leaves the map for its response, or by a call of the same id. -/
  kept {id : U64} {c : Nat} : s.pending id = some c →
    (s'.pending id = some c ∧ s'.channels c = s.channels c) ∨ (∃ n r, s'.channels c = .sent n r) ∨
      ∃ c', (s.calls c').id = id ∧ (rankOf s c' = 1 ∨ rankOf s c' = 4)
  inserted {c : Nat} : rankOf s c ≤ 1 → 2 ≤ rankOf s' c → rankOf s' c ≤ 3 →
    rankOf s c = 1 ∧ s'.pending (s.calls c).id = some c
  holding {n : Nat} {r : JsonRpcResponse} : s'.reader = .holding n r →
    s.reader = .holding n r ∨ ∃ text, n = s.lines ∧ e = some (.read n text) ∧ Connection.responseOf cfg text = some r
  history : s'.history = s.history ++ e.toList
  lines : s'.lines = linesAfter s e
  nextId : s'.nextId = nextIdAfter s e
  logged : Logged s s' e

/-! ## Steps of one call -/

theorem calls_goto_self (s : Connection) (c : Nat) (p : CallPhase) :
    (s.goto c p).calls c = { s.calls c with phase := p } := Function.update_self ..

theorem calls_goto_of_ne (s : Connection) {c c' : Nat} (p : CallPhase) (h : c' ≠ c) :
    (s.goto c p).calls c' = s.calls c' := Function.update_of_ne h _ _

theorem id_goto (s : Connection) (c c' : Nat) (p : CallPhase) : ((s.goto c p).calls c').id = (s.calls c').id := by
  by_cases h : c' = c
  · rw [h, calls_goto_self]
  · rw [calls_goto_of_ne s p h]

theorem rankOf_goto_self (s : Connection) (c : Nat) (p : CallPhase) : rankOf (s.goto c p) c = rank p := by
  rw [rankOf, calls_goto_self]

/-- How far the calls are after a step of call `c`. -/
theorem rankOf_goto {p : CallPhase} (hcalls : s'.calls = (s.goto c p).calls) :
    rankOf s' c = rank p ∧ ∀ c', c' ≠ c → rankOf s' c' = rankOf s c' := by
  refine ⟨by rw [rankOf, hcalls, calls_goto_self], fun c' h => ?_⟩
  rw [rankOf, hcalls, calls_goto_of_ne s p h, rankOf]

/-- A step that changes nothing but the await of one call. -/
theorem moves_of_goto {p : CallPhase} (hpos : 1 ≤ rankOf s c) (hle : rankOf s c ≤ rank p)
    (hins : rankOf s c = 1 → 4 ≤ rank p)
    (hcalls : s'.calls = (s.goto c p).calls) (hch : s'.channels = s.channels) (hp : s'.pending = s.pending)
    (hr : s'.reader = s.reader) (hh : s'.history = s.history ++ e.toList) (hl : s'.lines = linesAfter s e)
    (hn : s'.nextId = nextIdAfter s e) (hlog : Logged s s' e) : Moves cfg s e s' := by
  obtain ⟨hself, hother⟩ := rankOf_goto hcalls
  refine ⟨fun c' => ?_, fun c' h0 _ => ?_, fun c' _ => ?_, ?_, ?_, ?_, ?_, ?_, ?_, ?_, hh, hl, hn, hlog⟩
  · by_cases h : c' = c
    · rw [h, hself]; exact hle
    · rw [hother c' h]
  · have h : c' ≠ c := by rintro rfl; omega
    rw [hother c' h, h0]
  · rw [hcalls, id_goto]
  · intro c' n r h; rw [hch, h]
  · intro c' n r h; rw [hch] at h; exact .inl h
  · intro c' _; rw [hch]
  · intro id c' h
    rw [hp] at h
    exact .inl ⟨h, by rw [hch]⟩
  · intro id c' h
    exact .inl ⟨by rw [hp, h], by rw [hch]⟩
  · intro c' h1 h2 h3
    by_cases h : c' = c
    · subst h
      have h4 := hins (by omega)
      omega
    · rw [hother c' h] at h2
      omega
  · intro n r h; rw [hr] at h; exact .inl h

/-- A step that leaves the calls, their channels and the map as they are. -/
theorem moves_of_quiet (hcalls : s'.calls = s.calls) (hch : s'.channels = s.channels) (hp : s'.pending = s.pending)
    (hr : ∀ n r, s'.reader = .holding n r → s.reader = .holding n r ∨
      ∃ text, n = s.lines ∧ e = some (.read n text) ∧ Connection.responseOf cfg text = some r)
    (hh : s'.history = s.history ++ e.toList) (hl : s'.lines = linesAfter s e)
    (hn : s'.nextId = nextIdAfter s e) (hlog : Logged s s' e) : Moves cfg s e s' := by
  have hrank : ∀ c, rankOf s' c = rankOf s c := fun c => by rw [rankOf, hcalls, rankOf]
  refine ⟨fun c => (hrank c).ge, fun c h _ => (hrank c).trans h, fun c _ => by rw [hcalls], ?_, ?_, ?_, ?_, ?_, ?_,
    hr _ _, hh, hl, hn, hlog⟩
  · intro c n r h; rw [hch, h]
  · intro c n r h; rw [hch] at h; exact .inl h
  · intro c _; rw [hch]
  · intro id c h; rw [hp] at h; exact .inl ⟨h, by rw [hch]⟩
  · intro id c h; exact .inl ⟨by rw [hp, h], by rw [hch]⟩
  · intro c h1 h2 _; rw [hrank] at h2; omega

/-- A step that changes nothing that the requests rest on. -/
theorem moves_of_eq (hcalls : s'.calls = s.calls) (hch : s'.channels = s.channels) (hp : s'.pending = s.pending)
    (hr : s'.reader = s.reader ∨ s'.reader = .exited) (hh : s'.history = s.history) (hl : s'.lines = s.lines)
    (hn : s'.nextId = s.nextId) : Moves cfg s none s' := by
  refine moves_of_quiet hcalls hch hp (fun n r h => ?_) ?_ hl hn trivial
  · rcases hr with hr | hr
    · rw [hr] at h; exact .inl h
    · cases hr.symm.trans h
  · rw [hh, Option.toList_none, List.append_nil]

/-! ## The map of pending requests -/

/-- The map leads from an id to a call of that id, whose channel waits. -/
def Owned (s : Connection) : Prop :=
  ∀ id c, s.pending id = some c → (s.calls c).id = id ∧ 2 ≤ rankOf s c ∧ s.channels c = .empty

/-- A section of the map's lock: the entry of `id` has gone, with its sender. -/
structure Removed (s : Connection) (id : U64) (s' : Connection) : Prop where
  calls : s'.calls = s.calls
  pending : s'.pending = Function.update s.pending id none
  reader : s'.reader = s.reader
  history : s'.history = s.history
  lines : s'.lines = s.lines
  nextId : s'.nextId = s.nextId
  sent {c n : Nat} {r : JsonRpcResponse} : s'.channels c = .sent n r ↔ s.channels c = .sent n r
  other {c : Nat} : s.pending id ≠ some c → s'.channels c = s.channels c

/-- A sender that is dropped closes its channel, unless it has sent. -/
theorem dropSender_eq (s : Connection) (c : Nat) : ∃ f, s.dropSender c = { s with channels := f } ∧
    (∀ c' n r, f c' = .sent n r ↔ s.channels c' = .sent n r) ∧ ∀ c', c' ≠ c → f c' = s.channels c' := by
  unfold Connection.dropSender
  split
  · rename_i hc
    refine ⟨_, rfl, fun c' n r => ?_, fun c' h => Function.update_of_ne h _ _⟩
    by_cases h : c' = c
    · rw [h, Function.update_self, hc]
      exact iff_of_false (fun h => by cases h) (fun h => by cases h)
    · rw [Function.update_of_ne h]
  · exact ⟨s.channels, rfl, fun _ _ _ => Iff.rfl, fun _ _ => rfl⟩

theorem removed_removePending (s : Connection) (id : U64) : Removed s id (s.removePending id) := by
  unfold Connection.removePending
  split
  · rename_i hn
    exact ⟨rfl, (Function.update_eq_self_iff.mpr hn.symm).symm, rfl, rfl, rfl, rfl, Iff.rfl, fun _ => rfl⟩
  · rename_i c hc
    obtain ⟨f, hf, hsent, hother⟩ := dropSender_eq { s with pending := Function.update s.pending id none } c
    rw [hf]
    refine ⟨rfl, rfl, rfl, rfl, rfl, rfl, hsent _ _ _, fun h => hother _ ?_⟩
    rintro rfl
    exact h hc

/-- The calls that stay in the map when the entry of `id` goes. -/
theorem Removed.stays (h : Removed s id₀ s') (ho : Owned s) {id : U64} {c : Nat} (hne : id ≠ id₀)
    (hc : s.pending id = some c) : s'.channels c = s.channels c := by
  refine h.other fun hc' => hne ?_
  rw [← (ho id c hc).1, (ho id₀ c hc').1]

/-- A call inserts its sender, or removes its id. -/
theorem moves_of_section {t : Connection} {p : CallPhase} {v : Option Nat} (ho : Owned s)
    (hrem : Removed s (s.calls c).id t)
    (hv : (v = some c ∧ rankOf s c = 1 ∧ rank p = 2) ∨ (v = none ∧ rankOf s c = 4 ∧ rank p = 5)) :
    Moves cfg s none ({ t with pending := Function.update t.pending (s.calls c).id v }.goto c p) := by
  generalize hs' : { t with pending := Function.update t.pending (s.calls c).id v }.goto c p = s'
  have hcalls : s'.calls = (s.goto c p).calls := by
    rw [← hs', Connection.goto, Connection.goto, hrem.calls]
  have hpend : s'.pending = Function.update s.pending (s.calls c).id v := by
    rw [← hs']
    show Function.update t.pending _ _ = _
    rw [hrem.pending, Function.update_idem]
  have hch : s'.channels = t.channels := by rw [← hs']; rfl
  obtain ⟨hself, hother⟩ := rankOf_goto hcalls
  refine ⟨fun c' => ?_, fun c' h0 _ => ?_, fun c' _ => ?_, ?_, ?_, ?_, ?_, ?_, ?_, ?_, ?_, ?_, ?_, trivial⟩
  · by_cases h : c' = c
    · rw [h, hself]; omega
    · rw [hother c' h]
  · have h : c' ≠ c := by rintro rfl; omega
    rw [hother c' h, h0]
  · rw [hcalls, id_goto]
  · intro c' n r h; rw [hch]; exact hrem.sent.mpr h
  · intro c' n r h; rw [hch] at h; exact .inl (hrem.sent.mp h)
  · intro c' h; rw [hch]; exact hrem.other (h _)
  · intro id c' h
    rw [hpend] at h
    by_cases hid : id = (s.calls c).id
    · rw [hid, Function.update_self] at h
      rcases hv with ⟨hv, hc, hp⟩ | ⟨hv, -⟩
      · obtain rfl := Option.some.inj (hv.symm.trans h)
        exact .inr ⟨hid, hc, hself.trans hp⟩
      · cases hv.symm.trans h
    · rw [Function.update_of_ne hid] at h
      exact .inl ⟨h, by rw [hch]; exact hrem.stays ho hid h⟩
  · intro id c' h
    by_cases hid : id = (s.calls c).id
    · exact .inr (.inr ⟨c, hid.symm, hv.imp (fun h => h.2.1) (fun h => h.2.1)⟩)
    · exact .inl ⟨by rw [hpend, Function.update_of_ne hid, h], by rw [hch]; exact hrem.stays ho hid h⟩
  · intro c' h1 h2 _
    have h : c' = c := by
      by_contra h
      rw [hother c' h] at h2
      omega
    subst h
    rcases hv with ⟨hv, hc, -⟩ | ⟨-, hc, -⟩
    · exact ⟨hc, by rw [hpend, Function.update_self, hv]⟩
    · omega
  · intro n r h
    rw [← hs'] at h
    exact .inl (hrem.reader.symm.trans h)
  · rw [← hs', Option.toList_none, List.append_nil]; exact hrem.history
  · rw [← hs']; exact hrem.lines
  · rw [← hs']; exact hrem.nextId

theorem moves_of_insert (ho : Owned s) (hc : rankOf s c = 1) :
    Moves cfg s none ((s.insertPending (s.calls c).id c).goto c (.sending .locking)) :=
  moves_of_section ho (removed_removePending s _) (.inl ⟨rfl, hc, rfl⟩)

theorem moves_of_remove {e : McpError} (ho : Owned s) (hc : rankOf s c = 4) :
    Moves cfg s none ((s.removePending (s.calls c).id).goto c (.returned (.error e))) := by
  have hrem := removed_removePending s (s.calls c).id
  have hgone : Function.update (s.removePending (s.calls c).id).pending (s.calls c).id none =
      (s.removePending (s.calls c).id).pending := by
    rw [hrem.pending, Function.update_idem]
  have h : Moves cfg s none ({ s.removePending (s.calls c).id with
      pending := Function.update (s.removePending (s.calls c).id).pending (s.calls c).id none }.goto c
        (.returned (.error e))) := moves_of_section ho hrem (.inr ⟨rfl, hc, rfl⟩)
  rw [hgone] at h
  exact h

/-! ## The other steps -/

theorem moves_of_request {payload : List UInt8} (hc : rankOf s c = 0) :
    Moves cfg s (some (.called c))
      ({ s with
        nextId := s.nextId.wrappingSucc
        calls := Function.update s.calls c ⟨.allocated, s.nextId, payload⟩ }.log (.called c)) := by
  generalize hs' : ({ s with
        nextId := s.nextId.wrappingSucc
        calls := Function.update s.calls c ⟨.allocated, s.nextId, payload⟩ }.log (.called c)) = s'
  have hself : s'.calls c = ⟨.allocated, s.nextId, payload⟩ := by rw [← hs']; exact Function.update_self ..
  have hother : ∀ c', c' ≠ c → s'.calls c' = s.calls c' := fun c' h => by
    rw [← hs']; exact Function.update_of_ne h _ _
  have hrank : rankOf s' c = 1 := by rw [rankOf, hself]; rfl
  have hrank' : ∀ c', c' ≠ c → rankOf s' c' = rankOf s c' := fun c' h => by rw [rankOf, hother c' h, rankOf]
  have hch : s'.channels = s.channels := by rw [← hs']; rfl
  have hpend : s'.pending = s.pending := by rw [← hs']; rfl
  refine ⟨fun c' => ?_, fun c' h0 he => ?_, fun c' h1 => ?_, ?_, ?_, ?_, ?_, ?_, ?_, ?_, by rw [← hs']; rfl,
    by rw [← hs']; rfl, by rw [← hs']; rfl, hc, hrank, by rw [hself]⟩
  · by_cases h : c' = c
    · rw [h, hrank, hc]; exact Nat.zero_le 1
    · rw [hrank' c' h]
  · have h : c' ≠ c := by rintro rfl; exact he rfl
    rw [hrank' c' h, h0]
  · have h : c' ≠ c := by rintro rfl; omega
    rw [hother c' h]
  · intro c' n r h; rw [hch, h]
  · intro c' n r h; rw [hch] at h; exact .inl h
  · intro c' _; rw [hch]
  · intro id c' h; rw [hpend] at h; exact .inl ⟨h, by rw [hch]⟩
  · intro id c' h; exact .inl ⟨by rw [hpend, h], by rw [hch]⟩
  · intro c' h1 h2 _
    by_cases h : c' = c
    · subst h; omega
    · rw [hrank' c' h] at h2; omega
  · intro n r h; rw [← hs'] at h; exact .inl h

theorem moves_of_line {text : String} (hr : s.reader = .reading) :
    Moves cfg s (some (.read s.lines text)) (s.onLine cfg text) := by
  have hfields : (s.onLine cfg text).calls = s.calls ∧ (s.onLine cfg text).channels = s.channels ∧
      (s.onLine cfg text).pending = s.pending ∧ (s.onLine cfg text).history = s.history ++ [.read s.lines text] ∧
      (s.onLine cfg text).lines = s.lines + 1 ∧ (s.onLine cfg text).nextId = s.nextId := by
    unfold Connection.onLine
    split <;> exact ⟨rfl, rfl, rfl, rfl, rfl, rfl⟩
  obtain ⟨hcalls, hch, hpend, hh, hl, hn⟩ := hfields
  refine moves_of_quiet hcalls hch hpend (fun n r h => ?_) hh hl hn rfl
  unfold Connection.onLine at h
  split at h
  · rename_i r' hr'
    obtain ⟨rfl, rfl⟩ := Reader.holding.inj h
    exact .inr ⟨text, rfl, rfl, hr'⟩
  · cases hr.symm.trans h

/-- A response that nobody waits for. -/
theorem onDispatch_none {n : Nat} {r : JsonRpcResponse} (h : s.pending r.id = none) :
    s.onDispatch n r = { s with reader := .reading, history := s.history ++ [.dispatched n r] } := by
  have h' : ({ s with reader := .reading }.log (.dispatched n r)).pending r.id = none := h
  simp only [Connection.onDispatch, h']
  rfl

theorem onDispatch_some {n : Nat} {r : JsonRpcResponse} (h : s.pending r.id = some c) :
    s.onDispatch n r = { s with
      reader := .reading
      pending := Function.update s.pending r.id none
      channels := Function.update s.channels c (.sent n r)
      history := s.history ++ [.dispatched n r] } := by
  have h' : ({ s with reader := .reading }.log (.dispatched n r)).pending r.id = some c := h
  simp only [Connection.onDispatch, h']
  rfl

theorem moves_of_dispatch {n : Nat} {r : JsonRpcResponse} (ho : Owned s) (hr : s.reader = .holding n r) :
    Moves cfg s (some (.dispatched n r)) (s.onDispatch n r) := by
  obtain ⟨s', hs', hcalls, hread, hpend, hh, hl, hn, hself, hother⟩ : ∃ s', s.onDispatch n r = s' ∧
      s'.calls = s.calls ∧ s'.reader = .reading ∧ s'.pending = Function.update s.pending r.id none ∧
      s'.history = s.history ++ [.dispatched n r] ∧ s'.lines = s.lines ∧ s'.nextId = s.nextId ∧
      (∀ c, s.pending r.id = some c → s'.channels c = .sent n r) ∧
      ∀ c, s.pending r.id ≠ some c → s'.channels c = s.channels c := by
    cases hc : s.pending r.id with
    | none =>
      refine ⟨_, onDispatch_none hc, rfl, rfl, (Function.update_eq_self_iff.mpr hc.symm).symm, rfl, rfl, rfl, ?_, ?_⟩
      · intro c h; cases h
      · intro c _; rfl
    | some c₀ =>
      refine ⟨_, onDispatch_some hc, rfl, rfl, rfl, rfl, rfl, rfl, fun c h => ?_, fun c h => ?_⟩
      · obtain rfl := Option.some.inj h
        exact Function.update_self ..
      · exact Function.update_of_ne (fun h' => h (by rw [h'])) _ _
  rw [hs']
  have hrank : ∀ c, rankOf s' c = rankOf s c := fun c => by rw [rankOf, hcalls, rankOf]
  have hstays : ∀ {id c}, id ≠ r.id → s.pending id = some c → s'.channels c = s.channels c := by
    intro id c hid hc
    refine hother c fun hc' => hid ?_
    rw [← (ho id c hc).1, (ho r.id c hc').1]
  refine ⟨fun c => (hrank c).ge, fun c h _ => (hrank c).trans h, fun c _ => by rw [hcalls], ?_, ?_, ?_, ?_, ?_, ?_, ?_,
    hh, hl, hn, hr, hself⟩
  · intro c n' r' h
    rw [hother c fun hc => ?_, h]
    cases h.symm.trans (ho _ _ hc).2.2
  · intro c n' r' h
    by_cases hc : s.pending r.id = some c
    · obtain ⟨rfl, rfl⟩ := Oneshot.sent.inj ((hself c hc).symm.trans h)
      exact .inr ⟨hr, hc, hread⟩
    · rw [hother c hc] at h
      exact .inl h
  · intro c h; exact hother c (h _)
  · intro id c h
    have hid : id ≠ r.id := by
      rintro rfl
      rw [hpend, Function.update_self] at h
      cases h
    rw [hpend, Function.update_of_ne hid] at h
    exact .inl ⟨h, hstays hid h⟩
  · intro id c h
    by_cases hid : id = r.id
    · subst hid
      exact .inr (.inl ⟨n, r, hself c h⟩)
    · exact .inl ⟨by rw [hpend, Function.update_of_ne hid, h], hstays hid h⟩
  · intro c h1 h2 _; rw [hrank] at h2; omega
  · intro n' r' h; cases hread.symm.trans h

theorem moves_of_write {res : WriteResult} {stdin : Stdin} (hc : rankOf s c = 2) :
    ∃ e, Moves cfg s e ({ s with stdin := stdin }.onWrite cfg c res) := by
  cases res with
  | goto p =>
    exact ⟨none, moves_of_goto (p := .sending p) (by omega) (by rw [hc]; exact Nat.le_refl 2) (by omega) rfl rfl rfl rfl
      (List.append_nil _).symm rfl rfl trivial⟩
  | done =>
    exact ⟨some (.written c), moves_of_goto (c := c) (p := .waiting (s.now + cfg.requestTimeout.nanos)) (by omega)
      (by rw [hc]; exact Nat.le_succ 2) (by omega) rfl rfl rfl rfl rfl rfl rfl ⟨hc, rankOf_goto_self _ _ _⟩⟩
  | error e =>
    exact ⟨none, moves_of_goto (p := .returned (.error e)) (by omega) (rank_le _) (by omega) rfl rfl rfl rfl
      (List.append_nil _).symm rfl rfl trivial⟩

/-- A call that has waited for its channel or its timeout. -/
theorem moves_of_wait {p : CallPhase} {x : ConnectionEntry} (hc : rankOf s c = 3) (hp : 3 ≤ rank p)
    (hl : linesAfter s (some x) = s.lines) (hn : nextIdAfter s (some x) = s.nextId)
    (hlog : Logged s ((s.log x).goto c p) (some x)) : Moves cfg s (some x) ((s.log x).goto c p) :=
  moves_of_goto (by omega) (by omega) (by omega) rfl rfl rfl rfl rfl hl.symm hn.symm hlog

/-- Every step is a move. -/
theorem moves_of_step {a : ConnectionAction} (ho : Owned s) (h : s.step cfg a = some s') :
    ∃ e, Moves cfg s e s' := by
  cases connectionSteps_of_step h with
  | request hp => exact ⟨_, moves_of_request (by rw [rankOf, hp]; rfl)⟩
  | insert hp => exact ⟨none, moves_of_insert ho (by rw [rankOf, hp]; rfl)⟩
  | write hp => exact moves_of_write (by rw [rankOf, hp]; rfl)
  | @receive c _ _ _ hp hch | @lose c _ hp hch | @expire c _ hp hch =>
    have hc : rankOf s c = 3 := by rw [rankOf, hp]; rfl
    exact ⟨_, moves_of_wait hc (by simp [rank]) rfl rfl ⟨hch, hc, rankOf_goto_self _ _ _⟩⟩
  | remove hp => exact ⟨none, moves_of_remove ho (by rw [rankOf, hp]; rfl)⟩
  | @drop c hidle =>
    exact ⟨none, moves_of_goto (c := c) (p := .dropped) (rank_pos hidle) (rank_le _) (fun _ => by decide) rfl rfl rfl rfl
      (List.append_nil _).symm rfl rfl trivial⟩
  | tick | notify | dropNotify => exact ⟨none, moves_of_eq rfl rfl rfl (.inl rfl) rfl rfl rfl⟩
  | @writeNotify _ _ _ _ res =>
    refine ⟨none, ?_⟩
    cases res <;> exact moves_of_eq rfl rfl rfl (.inl rfl) rfl rfl rfl
  | line hr => exact ⟨_, moves_of_line hr⟩
  | dispatch hr => exact ⟨_, moves_of_dispatch ho hr⟩
  | eof => exact ⟨none, moves_of_eq rfl rfl rfl (.inr rfl) rfl rfl rfl⟩

end WalaStack.Proof.Mcp.Stdio
