import WalaStack.Framework.Log
import WalaStack.Proof.Mcp.PlainClient
import WalaStack.Proof.Mcp.Stdio.Moves

/-!
# Correlation of requests and responses

A channel only holds a response of its call's id, and no two channels one
response (`Inv`), so that every completion is with a response of the
request's own id. While at most `2 ^ 64` requests have been made their ids
are distinct, and a call that waits is in the map or has its response
(`Live`); then a response that the reader looks up in time is not lost
(`Kept`).

The reader looks a response up one await after it has read it. A request
that times out in between does not get it (`not_correlated`); and the ids
start over after `2 ^ 64` requests.
-/

namespace WalaStack.Proof.Mcp.Stdio

open WalaStack.Rust WalaStack.Impl.Mcp WalaStack.Spec.Mcp WalaStack.Transition WalaStack.Log

variable {cfg : ConnectionConfig} {s s' : Connection} {c : Nat} {e : Option ConnectionEntry}

/-! ## Channels and their responses -/

/-- The reader has parsed response `r` from line `n`. -/
def Parsed (cfg : ConnectionConfig) (s : Connection) (n : Nat) (r : JsonRpcResponse) : Prop :=
  ∃ text, .read n text ∈ s.history ∧ Connection.responseOf cfg text = some r

structure Inv (cfg : ConnectionConfig) (s : Connection) : Prop where
  owned : Owned s
  fresh (c : Nat) : rankOf s c ≤ 1 → s.channels c = .empty
  called (c : Nat) : .called c ∈ s.history ↔ 1 ≤ rankOf s c
  sent (c n : Nat) (r : JsonRpcResponse) : s.channels c = .sent n r → r.id = (s.calls c).id ∧ Parsed cfg s n r
  apart (c c' n : Nat) (r r' : JsonRpcResponse) : s.channels c = .sent n r → s.channels c' = .sent n r' → c = c'
  holding (n : Nat) (r : JsonRpcResponse) : s.reader = .holding n r →
    Parsed cfg s n r ∧ ∀ c r', s.channels c ≠ .sent n r'
  lines (n : Nat) (text : String) : .read n text ∈ s.history → n < s.lines
  texts (n : Nat) (text text' : String) : .read n text ∈ s.history → .read n text' ∈ s.history → text = text'
  completed (c n : Nat) (r : JsonRpcResponse) : .completed c n r ∈ s.history →
    s.channels c = .sent n r ∧ rankOf s c = 5
  expired (c : Nat) : .expired c ∈ s.history → 4 ≤ rankOf s c ∧ ∀ n r, .completed c n r ∉ s.history
  written (c : Nat) : .written c ∈ s.history → 3 ≤ rankOf s c
  nextId : s.nextId.val = (requests s.history + 1) % 2 ^ 64

theorem inv_init (now : Nat) : Inv cfg (.init now) where
  owned _ _ h := by cases h
  fresh _ _ := rfl
  called _ := iff_of_false List.not_mem_nil (Nat.not_succ_le_zero 0)
  sent _ _ _ h := by cases h
  apart _ _ _ _ _ h := by cases h
  holding _ _ h := by cases h
  lines _ _ h := by cases h
  texts _ _ _ h := by cases h
  completed _ _ _ h := by cases h
  expired _ h := by cases h
  written _ h := by cases h
  nextId := rfl

section

variable (h : Inv cfg s) (m : Moves cfg s e s')

include m

theorem mem_history {x : ConnectionEntry} : x ∈ s'.history ↔ x ∈ s.history ∨ e = some x := by
  rw [m.history, List.mem_append]
  exact or_congr Iff.rfl Option.mem_toList

theorem mem_of_mem {x : ConnectionEntry} (hx : x ∈ s.history) : x ∈ s'.history := (mem_history m).mpr (.inl hx)

theorem Moves.parsed {n : Nat} {r : JsonRpcResponse} : Parsed cfg s n r → Parsed cfg s' n r :=
  fun ⟨text, hm, hr⟩ => ⟨text, mem_of_mem m hm, hr⟩

theorem requests_after : requests s'.history = requests s.history + requests e.toList := by
  rw [requests, m.history, List.countP_append, requests, requests]

omit m

/-- An entry that is no call leaves the count and the next id. -/
theorem not_called (he : ∀ c, e ≠ some (.called c)) : requests e.toList = 0 ∧ nextIdAfter s e = s.nextId := by
  match e, he with
  | none, _ => exact ⟨rfl, rfl⟩
  | some (.called c), he => exact absurd rfl (he c)
  | some (.written _), _ | some (.read _ _), _ | some (.dispatched _ _), _ | some (.completed _ _ _), _
  | some (.expired _), _ | some (.lost _), _ => exact ⟨rfl, rfl⟩

include h

theorem not_pending (hc : rankOf s c ≤ 1) (id : U64) : s.pending id ≠ some c := by
  intro hp
  have hle := (h.owned id c hp).2.1
  omega

include m

theorem owned_move : Owned s' := by
  intro id c hp
  rcases m.pending hp with ⟨hp, hch⟩ | ⟨rfl, h1, h2⟩
  · obtain ⟨hid, hle, hempty⟩ := h.owned id c hp
    have hmono := m.rank_le c
    exact ⟨(m.id c (by omega)).trans hid, by omega, hch.trans hempty⟩
  · have hch := m.unchanged (not_pending h (c := c) (by omega))
    exact ⟨m.id c (by omega), by omega, hch.trans (h.fresh c (by omega))⟩

theorem called_move (c : Nat) : .called c ∈ s'.history ↔ 1 ≤ rankOf s' c := by
  have hmono := m.rank_le c
  rw [mem_history m, h.called c]
  constructor
  · rintro (hc | rfl)
    · omega
    · have h1 : rankOf s' c = 1 := m.logged.2.1
      omega
  · intro hc
    by_contra hno
    obtain ⟨h0, he⟩ := not_or.mp hno
    have := m.idle c (by omega) he
    omega

theorem sent_move (c n : Nat) (r : JsonRpcResponse) (hs : s'.channels c = .sent n r) :
    r.id = (s'.calls c).id ∧ Parsed cfg s' n r := by
  rcases m.new_sent hs with hs | ⟨hr, hp, -⟩
  · obtain ⟨hid, hparsed⟩ := h.sent c n r hs
    have hrank : ¬ rankOf s c ≤ 1 := fun hle => by cases hs.symm.trans (h.fresh c hle)
    exact ⟨by rw [m.id c (by omega), hid], m.parsed hparsed⟩
  · obtain ⟨hid, hle, -⟩ := h.owned _ c hp
    exact ⟨by rw [m.id c (by omega), hid], m.parsed (h.holding n r hr).1⟩

theorem apart_move (c c' n : Nat) (r r' : JsonRpcResponse) (hc : s'.channels c = .sent n r)
    (hc' : s'.channels c' = .sent n r') : c = c' := by
  rcases m.new_sent hc with hc | ⟨hr, hp, -⟩ <;> rcases m.new_sent hc' with hc' | ⟨hr', hp', -⟩
  · exact h.apart c c' n r r' hc hc'
  · exact absurd hc ((h.holding n r' hr').2 c r)
  · exact absurd hc' ((h.holding n r hr).2 c' r')
  · obtain ⟨-, rfl⟩ := Reader.holding.inj (hr.symm.trans hr')
    exact Option.some.inj (hp.symm.trans hp')

theorem holding_move (n : Nat) (r : JsonRpcResponse) (hr : s'.reader = .holding n r) :
    Parsed cfg s' n r ∧ ∀ c r', s'.channels c ≠ .sent n r' := by
  -- A response has not been sent before the reader lets go of it.
  have hold : ∀ {c r'}, s'.channels c = .sent n r' → s.channels c = .sent n r' := fun hs =>
    (m.new_sent hs).resolve_right fun ⟨_, _, hr'⟩ => by cases hr.symm.trans hr'
  rcases m.holding hr with hr | ⟨text, rfl, rfl, htext⟩
  · obtain ⟨hparsed, hfree⟩ := h.holding n r hr
    exact ⟨m.parsed hparsed, fun c r' hs => hfree c r' (hold hs)⟩
  · refine ⟨⟨text, (mem_history m).mpr (.inr rfl), htext⟩, fun c r' hs => ?_⟩
    obtain ⟨-, text', hread, -⟩ := h.sent c _ r' (hold hs)
    exact absurd (h.lines _ _ hread) (Nat.lt_irrefl _)

theorem lines_move (n : Nat) (text : String) (hm : .read n text ∈ s'.history) : n < s'.lines := by
  rw [m.lines]
  rcases (mem_history m).mp hm with hm | rfl
  · have hlt := h.lines n text hm
    unfold linesAfter
    split <;> omega
  · have hn : n = s.lines := m.logged
    show n < s.lines + 1
    omega

theorem texts_move (n : Nat) (text text' : String) (hm : .read n text ∈ s'.history)
    (hm' : .read n text' ∈ s'.history) : text = text' := by
  have hnew : ∀ {t t'}, e = some (.read n t) → .read n t' ∉ s.history := by
    rintro t t' rfl hold
    have hn : n = s.lines := m.logged
    have hlt := h.lines n t' hold
    omega
  rcases (mem_history m).mp hm with hm | he <;> rcases (mem_history m).mp hm' with hm' | he'
  · exact h.texts n text text' hm hm'
  · exact absurd hm (hnew he')
  · exact absurd hm' (hnew he)
  · exact (ConnectionEntry.read.inj (Option.some.inj (he.symm.trans he'))).2

theorem completed_move (c n : Nat) (r : JsonRpcResponse) (hm : .completed c n r ∈ s'.history) :
    s'.channels c = .sent n r ∧ rankOf s' c = 5 := by
  rcases (mem_history m).mp hm with hm | rfl
  · obtain ⟨hs, h5⟩ := h.completed c n r hm
    have hmono := m.rank_le c
    have hle : rankOf s' c ≤ 5 := rank_le _
    exact ⟨m.sent hs, by omega⟩
  · obtain ⟨hs, -, h5⟩ : Logged s s' (some (.completed c n r)) := m.logged
    exact ⟨m.sent hs, h5⟩

theorem expired_move (c : Nat) (hm : .expired c ∈ s'.history) :
    4 ≤ rankOf s' c ∧ ∀ n r, .completed c n r ∉ s'.history := by
  have hmono := m.rank_le c
  rcases (mem_history m).mp hm with hm | rfl
  · obtain ⟨h4, hno⟩ := h.expired c hm
    refine ⟨by omega, fun n r hc => ?_⟩
    rcases (mem_history m).mp hc with hc | rfl
    · exact hno n r hc
    · have h3 : rankOf s c = 3 := m.logged.2.1
      omega
  · obtain ⟨-, h3, h4⟩ : Logged s s' (some (.expired c)) := m.logged
    refine ⟨by omega, fun n r hc => ?_⟩
    rcases (mem_history m).mp hc with hc | hc
    · have h5 := (h.completed c n r hc).2
      omega
    · cases hc

theorem written_move (c : Nat) (hm : .written c ∈ s'.history) : 3 ≤ rankOf s' c := by
  have hmono := m.rank_le c
  rcases (mem_history m).mp hm with hm | rfl
  · have h3 := h.written c hm
    omega
  · have h3 : rankOf s' c = 3 := m.logged.2
    omega

theorem nextId_move : s'.nextId.val = (requests s'.history + 1) % 2 ^ 64 := by
  rw [requests_after m, m.nextId]
  by_cases he : ∃ c, e = some (.called c)
  · obtain ⟨c, rfl⟩ := he
    show (s.nextId.val + 1) % 2 ^ 64 = (requests s.history + 1 + 1) % 2 ^ 64
    rw [h.nextId, Nat.mod_add_mod]
  · obtain ⟨hreq, hnext⟩ := not_called (s := s) fun c hc => he ⟨c, hc⟩
    rw [hreq, hnext, h.nextId, Nat.add_zero]

theorem inv_move : Inv cfg s' where
  owned := owned_move h m
  fresh c hc := by
    have hmono := m.rank_le c
    rw [m.unchanged (not_pending h (c := c) (by omega))]
    exact h.fresh c (by omega)
  called := called_move h m
  sent := sent_move h m
  apart := apart_move h m
  holding := holding_move h m
  lines := lines_move h m
  texts := texts_move h m
  completed := completed_move h m
  expired := expired_move h m
  written := written_move h m
  nextId := nextId_move h m

end

/-! ## While the ids are distinct -/

/-- The calls that have been made have the numbers from 1 on, and a call that
waits is in the map or has its response. -/
structure Live (s : Connection) : Prop where
  numbered (c : Nat) : 1 ≤ rankOf s c → ∃ j, 1 ≤ j ∧ j ≤ requests s.history ∧ (s.calls c).id.val = j % 2 ^ 64
  distinct (c c' : Nat) : 1 ≤ rankOf s c → 1 ≤ rankOf s c' → (s.calls c).id = (s.calls c').id → c = c'
  live (c : Nat) : 2 ≤ rankOf s c → rankOf s c ≤ 3 →
    (∃ n r, s.channels c = .sent n r) ∨ s.pending (s.calls c).id = some c

theorem live_init (now : Nat) : Live (.init now) where
  numbered _ h := absurd h (Nat.not_succ_le_zero 0)
  distinct _ _ h := absurd h (Nat.not_succ_le_zero 0)
  live _ h := absurd h (Nat.not_succ_le_zero 1)

section

variable (h : Inv cfg s) (hl : Live s) (m : Moves cfg s e s')

include m in
theorem requests_mono : requests s.history ≤ requests s'.history := by
  rw [requests_after m]
  exact Nat.le_add_right _ _

include h m

/-- A call that a step has made is given the next id. -/
theorem made (h0 : ¬ 1 ≤ rankOf s c) (h1 : 1 ≤ rankOf s' c) : e = some (.called c) ∧
    (s'.calls c).id.val = (requests s.history + 1) % 2 ^ 64 ∧ requests s'.history = requests s.history + 1 := by
  have he : e = some (.called c) := by
    by_contra he
    have h0' := m.idle c (by omega) he
    omega
  subst he
  have hid : (s'.calls c).id = s.nextId := m.logged.2.2
  exact ⟨rfl, by rw [hid, h.nextId], requests_after m⟩

include hl

theorem numbered_move (c : Nat) (h1 : 1 ≤ rankOf s' c) :
    ∃ j, 1 ≤ j ∧ j ≤ requests s'.history ∧ (s'.calls c).id.val = j % 2 ^ 64 := by
  have hmono := requests_mono m
  by_cases h0 : 1 ≤ rankOf s c
  · obtain ⟨j, hj, hle, hid⟩ := hl.numbered c h0
    exact ⟨j, hj, by omega, by rw [m.id c h0, hid]⟩
  · obtain ⟨-, hid, hreq⟩ := made h m h0 h1
    exact ⟨requests s.history + 1, by omega, by omega, hid⟩

/-- The next id is none that is in use. -/
theorem made_ne (hle : requests s'.history ≤ 2 ^ 64) {c c' : Nat} (h0 : ¬ 1 ≤ rankOf s c) (h1 : 1 ≤ rankOf s' c)
    (h1' : 1 ≤ rankOf s c') : (s'.calls c).id ≠ (s'.calls c').id := by
  intro hid
  obtain ⟨-, hnew, hreq⟩ := made h m h0 h1
  obtain ⟨j, hj, hjle, hold⟩ := hl.numbered c' h1'
  have hmod : (requests s.history + 1) % 2 ^ 64 = j % 2 ^ 64 := by
    rw [← hnew, hid, m.id c' h1', hold]
  omega

theorem distinct_move (hle : requests s'.history ≤ 2 ^ 64) (c c' : Nat) (h1 : 1 ≤ rankOf s' c)
    (h1' : 1 ≤ rankOf s' c') (hid : (s'.calls c).id = (s'.calls c').id) : c = c' := by
  by_cases h0 : 1 ≤ rankOf s c <;> by_cases h0' : 1 ≤ rankOf s c'
  · rw [m.id c h0, m.id c' h0'] at hid
    exact hl.distinct c c' h0 h0' hid
  · exact absurd hid.symm (made_ne h hl m hle h0' h1' h0)
  · exact absurd hid (made_ne h hl m hle h0 h1 h0')
  · have he := (made h m h0 h1).1
    have he' := (made h m h0' h1').1
    exact ConnectionEntry.called.inj (Option.some.inj (he.symm.trans he'))

omit h in
theorem live_call (c : Nat) (h2 : 2 ≤ rankOf s' c) (h3 : rankOf s' c ≤ 3) :
    (∃ n r, s'.channels c = .sent n r) ∨ s'.pending (s'.calls c).id = some c := by
  have hmono := m.rank_le c
  by_cases h1 : rankOf s c ≤ 1
  · obtain ⟨hc, hp⟩ := m.inserted h1 h2 h3
    rw [m.id c (by omega)]
    exact .inr hp
  · rw [m.id c (by omega)]
    rcases hl.live c (by omega) (by omega) with ⟨n, r, hs⟩ | hp
    · exact .inl ⟨n, r, m.sent hs⟩
    · rcases m.kept hp with ⟨hp, -⟩ | hs | ⟨c', hid, hrank⟩
      · exact .inr hp
      · exact .inl hs
      · -- Only the call itself has its id, and it is past the insertion and short of the removal.
        have hcc : c' = c := hl.distinct c' c (by omega) (by omega) hid
        subst hcc
        omega

theorem live_move (hle : requests s'.history ≤ 2 ^ 64) : Live s' where
  numbered := numbered_move h hl m
  distinct := distinct_move h hl m hle
  live := live_call hl m

end

/-! ## Responses that are looked up in time -/

theorem written_mem {A : ConnectionEntry → Prop} {l : List ConnectionEntry} (ha : Answered A c l) : .written c ∈ l := by
  obtain ⟨pre, mid, post, x, rfl, -⟩ := ha
  exact List.mem_append_right _ List.mem_cons_self

/-- A call is answered by the last entry, or before. -/
theorem answered_concat {A : ConnectionEntry → Prop} {l : List ConnectionEntry} {x : ConnectionEntry}
    (ha : Answered A c (l ++ [x])) : Answered A c l ∨ (.written c ∈ l ∧ A x) := by
  obtain ⟨pre, mid, post, y, hl, hy⟩ := ha
  rcases split_concat hl with ⟨-, -, hnil⟩ | ⟨rest, rfl, hrest⟩
  · exact absurd hnil (by simp)
  · rcases split_concat hrest.symm with ⟨rfl, rfl, -⟩ | ⟨post', rfl, -⟩
    · exact .inr ⟨List.mem_append_right _ List.mem_cons_self, hy⟩
    · exact .inl ⟨pre, mid, post', y, rfl, hy⟩

theorem answered_after {A : ConnectionEntry → Prop} (m : Moves cfg s e s') (ha : Answered A c s'.history) :
    Answered A c s.history ∨ ∃ x, e = some x ∧ .written c ∈ s.history ∧ A x := by
  rw [m.history] at ha
  cases e with
  | none => rw [Option.toList_none, List.append_nil] at ha; exact .inl ha
  | some x => exact (answered_concat ha).imp_right fun ⟨hw, hx⟩ => ⟨x, rfl, hw, hx⟩

structure Kept (s : Connection) : Prop where
  atHand (c : Nat) : rankOf s c = 3 → Answered (DispatchedFor (s.calls c).id) c s.history →
    ∃ n r, s.channels c = .sent n r
  neverLost : NeverLost DispatchedFor s

theorem kept_init (now : Nat) : Kept (.init now) where
  atHand _ h := by cases h
  neverLost := fun pre post c x he => by cases pre <;> cases he

theorem atHand_move (h : Inv cfg s) (hl : Live s) (hk : Kept s) (m : Moves cfg s e s') (c : Nat) (h3 : rankOf s' c = 3)
    (ha : Answered (DispatchedFor (s'.calls c).id) c s'.history) : ∃ n r, s'.channels c = .sent n r := by
  have hmono := m.rank_le c
  rcases answered_after m ha with ha | ⟨x, rfl, hw, n, r, rfl, hid⟩
  · have hw := h.written c (written_mem ha)
    rw [m.id c (by omega)] at ha
    obtain ⟨n, r, hs⟩ := hk.atHand c (by omega) ha
    exact ⟨n, r, m.sent hs⟩
  · have hw := h.written c hw
    rw [m.id c (by omega)] at hid
    rcases hl.live c (by omega) (by omega) with ⟨n', r', hs⟩ | hp
    · exact ⟨n', r', m.sent hs⟩
    · obtain ⟨-, hdispatched⟩ : Logged s s' (some (.dispatched n r)) := m.logged
      exact ⟨n, r, hdispatched c (by rw [hid]; exact hp)⟩

theorem neverLost_move (h : Inv cfg s) (hk : Kept s) (m : Moves cfg s e s') : NeverLost DispatchedFor s' := by
  intro pre post c x he hx ha
  have hold : ∀ {post'}, s.history = pre ++ x :: post' → False := by
    intro post' hs
    have hw : .written c ∈ s.history := by rw [hs]; exact List.mem_append_left _ (written_mem ha)
    have hrank := h.written c hw
    rw [m.id c (by omega)] at ha
    exact hk.neverLost pre post' c x hs hx ha
  rw [m.history] at he
  cases e with
  | none =>
    rw [Option.toList_none, List.append_nil] at he
    exact hold he
  | some y =>
    rcases split_concat he with ⟨hpre, rfl, -⟩ | ⟨post', hs, -⟩
    · subst hpre
      have hchannel : (∀ n r, s.channels c ≠ .sent n r) ∧ rankOf s c = 3 := by
        rcases hx with rfl | rfl
        · obtain ⟨hempty, h3, -⟩ : Logged s s' (some (.expired c)) := m.logged
          exact ⟨fun n r hs => (by cases hempty.symm.trans hs), h3⟩
        · obtain ⟨hclosed, h3, -⟩ : Logged s s' (some (.lost c)) := m.logged
          exact ⟨fun n r hs => (by cases hclosed.symm.trans hs), h3⟩
      obtain ⟨hno, h3⟩ := hchannel
      rw [m.id c (by omega)] at ha
      obtain ⟨n, r, hs⟩ := hk.atHand c h3 ha
      exact hno n r hs
    · exact hold hs

/-! ## Every connection -/

theorem invariant_of_reachable (h : ConnectionReachable cfg s) :
    Inv cfg s ∧ (requests s.history ≤ 2 ^ 64 → Live s ∧ Kept s) := by
  refine h.invariant (I := fun s => Inv cfg s ∧ (requests s.history ≤ 2 ^ 64 → Live s ∧ Kept s)) ?_ ?_
  · rintro s ⟨now, rfl⟩
    exact ⟨inv_init now, fun _ => ⟨live_init now, kept_init now⟩⟩
  · rintro s a s' ⟨hi, hlk⟩ - hs
    obtain ⟨e, m⟩ := moves_of_step hi.owned hs
    refine ⟨inv_move hi m, fun hle => ?_⟩
    obtain ⟨hl, hk⟩ := hlk (Nat.le_trans (requests_mono m) hle)
    exact ⟨live_move hi hl m hle, atHand_move hi hl hk m, neverLost_move hi hk m⟩

theorem Inv.ownResponse (h : Inv cfg s) : OwnResponse cfg s := by
  intro c n r hm
  obtain ⟨hs, -⟩ := h.completed c n r hm
  exact h.sent c n r hs

theorem Inv.oneCompletion (h : Inv cfg s) : OneCompletion s := by
  intro c c' n r r' hm hm'
  exact h.apart c c' n r r' (h.completed c n r hm).1 (h.completed c' n r' hm').1

theorem Live.distinctIds (hl : Live s) (h : Inv cfg s) : DistinctIds s := fun c c' hc hc' =>
  hl.distinct c c' ((h.called c).mp hc) ((h.called c').mp hc')

theorem Live.lateIgnored (hl : Live s) (h : Inv cfg s) : LateIgnored cfg s := by
  intro pre post c n text r hh hread htext hid c' r' hm
  have hexp : .expired c ∈ s.history := by rw [hh]; exact List.mem_append_right _ List.mem_cons_self
  have hread : .read n text ∈ s.history := by
    rw [hh]
    exact List.mem_append_right _ (List.mem_cons_of_mem _ hread)
  obtain ⟨hid', text', hread', htext'⟩ := h.ownResponse c' n r' hm
  obtain rfl := h.texts n text text' hread hread'
  obtain rfl := Option.some.inj (htext.symm.trans htext')
  have hc : 4 ≤ rankOf s c := (h.expired c hexp).1
  have hc' : rankOf s c' = 5 := (h.completed c' n r hm).2
  obtain rfl : c' = c := hl.distinct c' c (by omega) (by omega) (hid'.symm.trans hid)
  exact (h.expired c' hexp).2 n r hm

theorem Kept.atHand_waiting (hk : Kept s) : AtHand DispatchedFor s := by
  intro c deadline hp ha
  have h3 : rankOf s c = 3 := by rw [rankOf, hp]; rfl
  exact hk.atHand c h3 ha

/-! ## Pings -/

/-- The line of the response to a ping. -/
def pong (id : U64) : String := String.ofList (respond .null id).compact

def pingConfig : ConnectionConfig := plainClient .null

/-- The ping is written, and its response read. -/
def pinged : List ConnectionAction :=
  [.request 0 "ping" .null, .insert 0, .write 0 .locked, .write 0 (.wrote 55), .write 0 .flushed, .line (pong 1)]

theorem reachable_of_exec {as : List ConnectionAction} (h : exec (Connection.step cfg) (.init 0) as = some s) :
    ConnectionReachable cfg s :=
  Reach.of_exec ⟨0, rfl⟩ h

/-- Two pings are written, and the second is answered first. -/
def crossed : List ConnectionAction :=
  [.request 0 "ping" .null, .request 1 "ping" .null, .insert 0, .insert 1, .write 0 .locked, .write 0 (.wrote 55),
    .write 0 .flushed, .write 1 .locked, .write 1 (.wrote 55), .write 1 .flushed, .line (pong 2), .dispatch,
    .line (pong 1), .dispatch, .receive 0, .receive 1]

/-- A request completes with a parsed response of its id, and a response
completes at most one; and as long as no more than `2 ^ 64` requests have been
made, ids are distinct, a response that is looked up before the timeout of its
request is not lost, and one that is read after completes no request. -/
theorem correlation (h : ConnectionReachable cfg s) : OwnResponse cfg s ∧ OneCompletion s ∧
    (requests s.history ≤ 2 ^ 64 →
      DistinctIds s ∧ NeverLost DispatchedFor s ∧ AtHand DispatchedFor s ∧ LateIgnored cfg s) := by
  obtain ⟨hi, hlk⟩ := invariant_of_reachable h
  refine ⟨hi.ownResponse, hi.oneCompletion, fun hle => ?_⟩
  obtain ⟨hl, hk⟩ := hlk hle
  exact ⟨hl.distinctIds hi, hk.neverLost, hk.atHand_waiting, hl.lateIgnored hi⟩

/-- Each ping completes with its own response. -/
theorem correlation_ping : ∃ s, ConnectionReachable pingConfig s ∧ requests s.history = 2 ∧
    .completed 0 1 ⟨1, none, none⟩ ∈ s.history ∧ .completed 1 0 ⟨2, none, none⟩ ∈ s.history ∧
    (OwnResponse pingConfig s ∧ OneCompletion s ∧ (requests s.history ≤ 2 ^ 64 →
      DistinctIds s ∧ NeverLost DispatchedFor s ∧ AtHand DispatchedFor s ∧ LateIgnored pingConfig s)) := by
  have hrun : exec (Connection.step pingConfig) (.init 0) crossed = some _ := rfl
  have hreach := reachable_of_exec hrun
  refine ⟨_, hreach, rfl, ?_, List.mem_append_right _ List.mem_cons_self, correlation hreach⟩
  exact List.mem_append_left _ (List.mem_append_right _ List.mem_cons_self)

/-! ## What fails -/

/-- `n` requests have been made, by the calls below `n`. -/
structure Made (s : Connection) (n : Nat) : Prop where
  reach : ConnectionReachable pingConfig s
  requests : requests s.history = n
  idle : ∀ c, n ≤ c → (s.calls c).phase = .idle
  first : 0 < n → .called 0 ∈ s.history ∧ (s.calls 0).id.val = 1

theorem Made.succ {n : Nat} (hs : Made s n) : ∃ s', Made s' (n + 1) ∧ .called n ∈ s'.history ∧
    (s'.calls n).id.val = (n + 1) % 2 ^ 64 := by
  obtain ⟨s', payload, hstep, hhist, hcalls⟩ : ∃ s' payload, s.step pingConfig (.request n "ping" .null) = some s' ∧
      s'.history = s.history ++ [.called n] ∧
      s'.calls = Function.update s.calls n ⟨.allocated, s.nextId, payload⟩ := by
    simp only [Connection.step, hs.idle n (Nat.le_refl n)]
    exact ⟨_, _, rfl, rfl, rfl⟩
  have hi : Inv pingConfig s := (invariant_of_reachable hs.reach).1
  have hid : (s'.calls n).id = s.nextId := by rw [hcalls, Function.update_self]
  have hother : ∀ c, c ≠ n → s'.calls c = s.calls c := fun c hc => by rw [hcalls, Function.update_of_ne hc]
  have hval : (s'.calls n).id.val = (n + 1) % 2 ^ 64 := by
    rw [hid, hi.nextId, hs.requests]
  have hmem : .called n ∈ s'.history := by
    rw [hhist]
    exact List.mem_append_right _ List.mem_cons_self
  refine ⟨s', ⟨hs.reach.step trivial hstep, ?_, fun c hc => ?_, fun _ => ?_⟩, hmem, hval⟩
  · rw [Spec.Mcp.requests, hhist, List.countP_append]
    exact congrArg (· + 1) hs.requests
  · rw [hother c (Nat.ne_of_gt hc)]
    exact hs.idle c (Nat.le_of_succ_le hc)
  · rcases Nat.eq_zero_or_pos n with rfl | hpos
    · exact ⟨hmem, hval⟩
    · obtain ⟨hcalled, hone⟩ := hs.first hpos
      rw [hother 0 (Nat.ne_of_lt hpos), hhist]
      exact ⟨List.mem_append_left _ hcalled, hone⟩

theorem exists_made (n : Nat) : ∃ s, Made s n := by
  induction n with
  | zero =>
    refine ⟨.init 0, .init ⟨0, rfl⟩, rfl, fun c _ => rfl, fun h => absurd h (Nat.lt_irrefl 0)⟩
  | succ n ih =>
    obtain ⟨s, hs⟩ := ih
    obtain ⟨s', hs', -⟩ := hs.succ
    exact ⟨s', hs'⟩

/-- The request after `2 ^ 64` others has the id of the first; and a response
that was read in time is lost when the timeout elapses before the reader has
looked it up. -/
theorem not_correlated : (¬ ∀ s, ConnectionReachable pingConfig s → DistinctIds s) ∧
    ¬ ∀ s, ConnectionReachable pingConfig s → requests s.history ≤ 2 ^ 64 → NeverLost (ReadFor pingConfig) s := by
  constructor
  · intro h
    obtain ⟨s, hs⟩ := exists_made (2 ^ 64)
    obtain ⟨s', hs', hlast, hid⟩ := hs.succ
    obtain ⟨hfirst, hone⟩ := hs'.first (Nat.succ_pos _)
    have heq := h s' hs'.reach 0 (2 ^ 64) hfirst hlast (U64.ext (hone.trans hid.symm))
    exact absurd heq (by decide)
  · intro h
    have hrun : exec (Connection.step pingConfig) (.init 0) (pinged ++ [.tick 30000000000, .expire 0]) = some _ := rfl
    have hreach := reachable_of_exec hrun
    exact h _ hreach (by decide) [.called 0, .written 0, .read 0 (pong 1)] [] 0 (.expired 0) rfl (.inl rfl)
      ⟨[.called 0], [], [], .read 0 (pong 1), rfl, 0, pong 1, _, rfl, responseOf_respond 1, rfl⟩

end WalaStack.Proof.Mcp.Stdio
