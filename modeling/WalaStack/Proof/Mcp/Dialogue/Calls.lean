import WalaStack.Proof.Mcp.Stdio.Framing
import WalaStack.Proof.Mcp.Stdio.Pending
import WalaStack.Spec.Dialogue

/-!
# Calls and their messages

`CallMoves` is what a step does to the calls: nothing, one goes to another
phase, or one is made. A call keeps the message that it was made with
(`CallsInv.asked`), and what it returns is the response on its channel or an
error of its own (`CallsInv.returned`).
-/

namespace WalaStack.Proof.Mcp.Dialogue

open WalaStack.Rust WalaStack.Rust.Json WalaStack.Impl.Mcp WalaStack.Spec.Mcp WalaStack.Proof.Mcp.Stdio

variable {cfg : ConnectionConfig} {s s' : Connection} {a : ConnectionAction} {c : Nat}

/-- What a call returns: the response on its channel, or an error of the
client's own. -/
def Returns (s : Connection) (c : Nat) (result : Except McpError Value) : Prop :=
  (∃ n r, s.channels c = .sent n r ∧ result = Connection.resultOf r) ∨ ∃ e, result = .error e ∧ LocalError e

/-- What has to hold for a call to go to a phase. -/
def MayEnter (s : Connection) (c : Nat) : CallPhase → Prop
  | .waiting _ => (s.calls c).phase = .sending .flushing
  | .forgetting e => LocalError e
  | .returned result => Returns s c result ∨ ∃ e, result = .error e ∧ (s.calls c).phase = .forgetting e
  | .idle | .allocated => False
  | .sending _ | .dropped => True

inductive CallMoves (cfg : ConnectionConfig) (s : Connection) (a : ConnectionAction) (s' : Connection) : Prop
  | same : s'.calls = s.calls → CallMoves cfg s a s'
  | goes (c : Nat) (p : CallPhase) : 1 ≤ rankOf s c → MayEnter s c p → s'.calls = (s.goto c p).calls →
    CallMoves cfg s a s'
  | made (c : Nat) (method : String) (params : Value) : a = .request c method params → rankOf s c = 0 →
    s'.calls = Function.update s.calls c
      ⟨.allocated, s.nextId, Connection.frame cfg (JsonRpcRequest.toValue ⟨s.nextId, method, params⟩)⟩ →
    CallMoves cfg s a s'

theorem calls_onLine (s : Connection) (text : String) : (s.onLine cfg text).calls = s.calls := by
  unfold Connection.onLine
  split <;> rfl

theorem calls_insertPending (s : Connection) (id : U64) : (s.insertPending id c).calls = s.calls :=
  (removePending_writers s id).1

/-- An error of the write path is the client's own. -/
theorem localError_of_step {p : WritePhase} {who : Writer} {payload : List UInt8} {stdin stdin' : Stdin}
    {b : WriteAction} {e : McpError} (h : p.step who payload stdin b = some (.error e, stdin')) : LocalError e := by
  cases b with
  | failed text =>
    cases p with
    | locking => cases h
    | writing rest | flushing =>
      cases h
      trivial
  | locked =>
    cases p with
    | locking =>
      simp only [WritePhase.step] at h
      split at h <;> cases h
    | writing rest | flushing => cases h
  | wrote n =>
    cases p with
    | writing rest =>
      simp only [WritePhase.step] at h
      split at h <;> cases h
    | locking | flushing => cases h
  | flushed => cases p <;> cases h

theorem callMoves_of_steps (h : ConnectionSteps cfg s a s') : CallMoves cfg s a s' := by
  cases h with
  | tick | notify | dropNotify | eof => exact .same rfl
  | @request c method params hc => exact .made c method params rfl (congrArg rank hc) rfl
  | @insert c hc =>
    refine .goes c (.sending .locking) (by rw [rankOf, hc]; decide) trivial ?_
    simp only [Connection.goto, calls_insertPending]
  | @write c b p res stdin hc hw =>
    have h1 : 1 ≤ rankOf s c := by rw [rankOf, hc]; exact Nat.le_add_left 1 1
    cases res with
    | goto q => exact .goes c (.sending q) h1 trivial rfl
    | done =>
      refine .goes c (.waiting _) h1 ?_ rfl
      cases pathSteps_of_step hw with
      | flushed => exact hc
    | error e => exact .goes c (.returned (.error e)) h1 (.inl (.inr ⟨e, rfl, localError_of_step hw⟩)) rfl
  | @receive c deadline line r hc hch =>
    exact .goes c (.returned _) (by rw [rankOf, hc]; exact Nat.le_add_left 1 2) (.inl (.inl ⟨line, r, hch, rfl⟩)) rfl
  | @lose c deadline hc =>
    refine .goes c _ (by rw [rankOf, hc]; exact Nat.le_add_left 1 2) ?_ rfl
    trivial
  | @expire c deadline hc =>
    refine .goes c _ (by rw [rankOf, hc]; exact Nat.le_add_left 1 2) ?_ rfl
    trivial
  | @remove c e hc =>
    refine .goes c (.returned (.error e)) (by rw [rankOf, hc]; exact Nat.le_add_left 1 3) (.inr ⟨e, rfl, hc⟩) ?_
    simp only [Connection.goto, (removePending_writers s (s.calls c).id).1]
  | @drop c hidle => exact .goes c .dropped (rank_pos hidle) trivial rfl
  | @writeNotify c b payload p res stdin =>
    refine .same ?_
    cases res <;> rfl
  | line => exact .same (calls_onLine s _)
  | dispatch => exact .same (calls_onDispatch s _ _)

theorem payload_goto (s : Connection) (c c' : Nat) (p : CallPhase) :
    ((s.goto c p).calls c').payload = (s.calls c').payload := by
  by_cases h : c' = c
  · rw [h, calls_goto_self]
  · rw [calls_goto_of_ne s p h]

/-- A call keeps its message. -/
theorem CallMoves.payload (m : CallMoves cfg s a s') (h1 : 1 ≤ rankOf s c) :
    (s'.calls c).payload = (s.calls c).payload := by
  cases m with
  | same hc => rw [hc]
  | goes c' p _ _ hc => rw [hc, payload_goto]
  | made c' method params _ h0 hc =>
    have hne : c ≠ c' := by
      rintro rfl
      omega
    rw [hc, Function.update_of_ne hne]

/-- The request that a call was made with. -/
def Asked (cfg : ConnectionConfig) (s : Connection) (c : Nat) (method : String) (params : Value) : Prop :=
  1 ≤ rankOf s c ∧ (s.calls c).payload = Connection.frame cfg (JsonRpcRequest.toValue ⟨(s.calls c).id, method, params⟩)

theorem Asked.step {method : String} {params : Value} (h : Asked cfg s c method params) {e : Option ConnectionEntry}
    (m : Moves cfg s e s') (hc : CallMoves cfg s a s') : Asked cfg s' c method params := by
  refine ⟨h.1.trans (m.rank_le c), ?_⟩
  rw [hc.payload h.1, m.id c h.1]
  exact h.2

theorem asked_of_request {method : String} {params : Value} (h : s.step cfg (.request c method params) = some s') :
    Asked cfg s' c method params := by
  cases connectionSteps_of_step h with
  | request hc =>
    refine ⟨?_, ?_⟩ <;> simp [rankOf, rank, Connection.log]

structure CallsInv (cfg : ConnectionConfig) (s : Connection) : Prop where
  asked (c : Nat) : 1 ≤ rankOf s c → ∃ method params, Asked cfg s c method params
  forgetting (c : Nat) (e : McpError) : (s.calls c).phase = .forgetting e → LocalError e
  returned (c : Nat) (result : Except McpError Value) : (s.calls c).phase = .returned result → Returns s c result
  notifies (c : Nat) (payload : List UInt8) (p : WritePhase) : s.notifies c = .sending payload p →
    ∃ n : JsonRpcNotification, payload = Connection.frame cfg n.toValue

theorem callsInv_init (now : Nat) : CallsInv cfg (.init now) where
  asked _ h := absurd h (Nat.not_succ_le_zero 0)
  forgetting _ _ h := by cases h
  returned _ _ h := by cases h
  notifies _ _ _ h := by cases h

theorem Returns.step {result : Except McpError Value} {e : Option ConnectionEntry} (m : Moves cfg s e s')
    (h : Returns s c result) : Returns s' c result :=
  h.imp_left fun ⟨n, r, hs, hr⟩ => ⟨n, r, m.sent hs, hr⟩

/-- The phase of a call after a step. -/
theorem CallMoves.phase {p : CallPhase} (m : CallMoves cfg s a s') (hp : (s'.calls c).phase = p)
    (hne : p ≠ .allocated) : (s.calls c).phase = p ∨ MayEnter s c p := by
  cases m with
  | same hc =>
    rw [hc] at hp
    exact .inl hp
  | goes c' q _ hq hc =>
    rw [hc] at hp
    by_cases hcc : c = c'
    · subst hcc
      rw [calls_goto_self] at hp
      exact .inr (hp ▸ hq)
    · rw [calls_goto_of_ne s q hcc] at hp
      exact .inl hp
  | made c' method params _ _ hc =>
    rw [hc] at hp
    by_cases hcc : c = c'
    · subst hcc
      rw [Function.update_self] at hp
      exact absurd hp.symm hne
    · rw [Function.update_of_ne hcc] at hp
      exact .inl hp

theorem notifies_of_steps (h : ConnectionSteps cfg s a s') {payload : List UInt8} {p : WritePhase}
    (hn : s'.notifies c = .sending payload p) :
    (∃ q, s.notifies c = .sending payload q) ∨ ∃ n : JsonRpcNotification, payload = Connection.frame cfg n.toValue := by
  cases h with
  | tick | request | receive | lose | expire | drop | eof => exact .inl ⟨p, hn⟩
  | insert => exact .inl ⟨p, (congrFun (removePending_writers s _).2.1 c).symm.trans hn⟩
  | remove => exact .inl ⟨p, (congrFun (removePending_writers s _).2.1 c).symm.trans hn⟩
  | @write c' b q res stdin => cases res <;> exact .inl ⟨p, hn⟩
  | @notify c' method params =>
    by_cases hcc : c = c'
    · subst hcc
      simp only [Function.update_self, NotifyPhase.sending.injEq] at hn
      exact .inr ⟨⟨method, params⟩, hn.1.symm⟩
    · simp only [Function.update_of_ne hcc] at hn
      exact .inl ⟨p, hn⟩
  | @writeNotify c' b payload' q res stdin hq =>
    by_cases hcc : c = c'
    · subst hcc
      cases res with
      | goto q' =>
        simp only [Connection.onWriteNotify, Function.update_self, NotifyPhase.sending.injEq] at hn
        exact .inl ⟨q, by rw [hq, hn.1]⟩
      | done | error e => simp only [Connection.onWriteNotify, Function.update_self, reduceCtorEq] at hn
    · cases res <;> simp only [Connection.onWriteNotify, Function.update_of_ne hcc] at hn <;> exact .inl ⟨p, hn⟩
  | @dropNotify c' payload' q =>
    by_cases hcc : c = c'
    · subst hcc
      simp only [Function.update_self, reduceCtorEq] at hn
    · simp only [Function.update_of_ne hcc] at hn
      exact .inl ⟨p, hn⟩
  | line =>
    refine .inl ⟨p, hn ▸ congrFun ?_ c⟩
    unfold Connection.onLine
    split <;> rfl
  | @dispatch line r =>
    refine .inl ⟨p, hn ▸ congrFun ?_ c⟩
    cases hp : s.pending r.id with
    | none => rw [onDispatch_none hp]
    | some c' => rw [onDispatch_some hp]

theorem callsInv_step (hi : CallsInv cfg s) {e : Option ConnectionEntry} (m : Moves cfg s e s')
    (h : ConnectionSteps cfg s a s') : CallsInv cfg s' := by
  have hc := callMoves_of_steps h
  refine ⟨fun c h1 => ?_, fun c e hp => ?_, fun c result hp => ?_, fun c payload p hn => ?_⟩
  · by_cases h0 : 1 ≤ rankOf s c
    · obtain ⟨method, params, ha⟩ := hi.asked c h0
      exact ⟨method, params, ha.step m hc⟩
    · cases hc with
      | same hcalls =>
        rw [rankOf, hcalls] at h1
        exact absurd h1 h0
      | goes c' p hpos _ hcalls =>
        have hne : c ≠ c' := by
          rintro rfl
          exact h0 hpos
        rw [rankOf, hcalls, calls_goto_of_ne s p hne] at h1
        exact absurd h1 h0
      | made c' method params _ _ hcalls =>
        by_cases hcc : c = c'
        · subst hcc
          refine ⟨method, params, h1, ?_⟩
          rw [hcalls, Function.update_self]
        · rw [rankOf, hcalls, Function.update_of_ne hcc] at h1
          exact absurd h1 h0
  · rcases hc.phase hp (by simp) with hp | hl
    · exact hi.forgetting c e hp
    · exact hl
  · rcases hc.phase hp (by simp) with hp | hr | ⟨e, rfl, hf⟩
    · exact (hi.returned c result hp).step m
    · exact hr.step m
    · exact .inr ⟨e, rfl, hi.forgetting c e hf⟩
  · rcases notifies_of_steps h hn with ⟨q, hq⟩ | hn
    · exact hi.notifies c payload q hq
    · exact hn

end WalaStack.Proof.Mcp.Dialogue
