import WalaStack.Proof.Mcp.Stdio.Correlation
import WalaStack.Spec.Framing

/-!
# Frames on stdin

`PipeSteps` is what a step means to the pipe: a writer comes, takes a step of
its write path, or is dropped. The lock keeps the writers apart (`PipeInv`), so
that what is written is well framed up to the first writer that leaves a part
of its message behind.
-/

namespace WalaStack.Proof.Mcp.Stdio

open WalaStack.Rust WalaStack.Impl.Mcp WalaStack.Spec.Mcp WalaStack.Transition WalaStack.Frames

variable {cfg : ConnectionConfig} {s s' : Connection} {a : ConnectionAction} {c : Nat} {who : Writer}
variable {payload : List UInt8} {p : WritePhase}

/-! ## Writers -/

/-- Where a writer is after a step of its write path. -/
def nextOf (payload : List UInt8) : WriteResult → Option (List UInt8 × WritePhase)
  | .goto p => some (payload, p)
  | .done | .error _ => none

theorem sending_of_goto {p : CallPhase} (hc : s'.calls = (s.goto c p).calls) (hn : s'.notifies = s.notifies) :
    sending s' = Function.update (sending s) (.request c) (requestSends (s.calls c).payload p) := by
  funext who
  cases who with
  | request c' =>
    by_cases h : c' = c
    · subst h
      rw [Function.update_self, sending, hc, calls_goto_self]
    · rw [Function.update_of_ne (by simpa using h), sending, hc, calls_goto_of_ne s p h, sending]
  | notify c' => rw [Function.update_of_ne (by simp), sending, sending, hn]

theorem sending_of_notifies {n : NotifyPhase} (hc : s'.calls = s.calls)
    (hn : s'.notifies = Function.update s.notifies c n) :
    sending s' = Function.update (sending s) (.notify c) (notifySends n) := by
  funext who
  cases who with
  | request c' => rw [Function.update_of_ne (by simp), sending, sending, hc]
  | notify c' =>
    by_cases h : c' = c
    · subst h
      rw [Function.update_self, sending, hn, Function.update_self]
    · rw [Function.update_of_ne (by simpa using h), sending, hn, Function.update_of_ne h, sending]

/-! ## Steps -/

/-- What a step means to the pipe. -/
inductive PipeSteps (cfg : ConnectionConfig) (s : Connection) (a : ConnectionAction) (s' : Connection) : Prop
  | quiet : KeepsFrames s a → s'.stdin = s.stdin → sending s' = sending s → PipeSteps cfg s a s'
  | starts (who : Writer) (payload : List UInt8) : KeepsFrames s a → sending s who = none → IsMessage cfg payload →
    s'.stdin = s.stdin → sending s' = Function.update (sending s) who (some (payload, .locking)) → PipeSteps cfg s a s'
  | writes (who : Writer) (payload : List UInt8) (p : WritePhase) (b : WriteAction) (res : WriteResult)
    (stdin : Stdin) : sending s who = some (payload, p) → p.step who payload s.stdin b = some (res, stdin) →
    s'.stdin = stdin → sending s' = Function.update (sending s) who (nextOf payload res) →
    (KeepsFrames s a ↔ ∀ e, b = .failed e → partWritten s who = []) → PipeSteps cfg s a s'
  | drops (who : Writer) : s'.stdin = s.stdin.release who → sending s' = Function.update (sending s) who none →
    (KeepsFrames s a ↔ partWritten s who = []) → PipeSteps cfg s a s'

/-- The payload of a call that is about to send it is a message. -/
def Payloads (cfg : ConnectionConfig) (s : Connection) : Prop :=
  ∀ c, (s.calls c).phase = .allocated → IsMessage cfg (s.calls c).payload

theorem payloads_of_goto {p : CallPhase} (hp : Payloads cfg s) (hne : p ≠ .allocated)
    (hc : s'.calls = (s.goto c p).calls) : Payloads cfg s' := by
  intro c' ha
  rw [hc] at ha ⊢
  by_cases h : c' = c
  · rw [h, calls_goto_self] at ha
    exact absurd ha hne
  · rw [calls_goto_of_ne s p h] at ha ⊢
    exact hp c' ha

/-- A step of a call that is not at its write path. -/
theorem pipe_of_goto {p : CallPhase} (hp : Payloads cfg s) (hk : KeepsFrames s a) (hne : p ≠ .allocated)
    (hb : sending s (.request c) = none) (hq : requestSends (s.calls c).payload p = none)
    (hc : s'.calls = (s.goto c p).calls) (hn : s'.notifies = s.notifies) (hs : s'.stdin = s.stdin) :
    PipeSteps cfg s a s' ∧ Payloads cfg s' := by
  refine ⟨.quiet hk hs ?_, payloads_of_goto hp hne hc⟩
  rw [sending_of_goto hc hn, hq, ← hb, Function.update_eq_self]

/-- A step that leaves the writers alone. -/
theorem pipe_of_eq (hp : Payloads cfg s) (hk : KeepsFrames s a) (hc : s'.calls = s.calls)
    (hn : s'.notifies = s.notifies) (hs : s'.stdin = s.stdin) : PipeSteps cfg s a s' ∧ Payloads cfg s' := by
  refine ⟨.quiet hk hs ?_, fun c ha => ?_⟩
  · funext who
    cases who <;> simp only [sending, hc, hn]
  · rw [hc] at ha ⊢
    exact hp c ha

/-- The map of pending requests is apart from the writers. -/
theorem removePending_writers (s : Connection) (id : U64) :
    (s.removePending id).calls = s.calls ∧ (s.removePending id).notifies = s.notifies ∧
      (s.removePending id).stdin = s.stdin := by
  unfold Connection.removePending Connection.dropSender
  split
  · exact ⟨rfl, rfl, rfl⟩
  · split <;> exact ⟨rfl, rfl, rfl⟩

theorem sending_onWrite (s : Connection) (c : Nat) (res : WriteResult) (stdin : Stdin) :
    sending ({ s with stdin := stdin }.onWrite cfg c res) =
      Function.update (sending s) (.request c) (nextOf (s.calls c).payload res) := by
  cases res with
  | goto p => exact sending_of_goto (p := .sending p) rfl rfl
  | done => exact sending_of_goto (p := .waiting _) rfl rfl
  | error e => exact sending_of_goto (p := .returned _) rfl rfl

theorem sending_onWriteNotify (s : Connection) (c : Nat) (payload : List UInt8) (res : WriteResult) (stdin : Stdin) :
    sending ({ s with stdin := stdin }.onWriteNotify c payload res) =
      Function.update (sending s) (.notify c) (nextOf payload res) := by
  cases res with
  | goto p => exact sending_of_notifies (n := .sending payload p) rfl rfl
  | done => exact sending_of_notifies (n := .returned _) rfl rfl
  | error e => exact sending_of_notifies (n := .returned _) rfl rfl

theorem pipeSteps_of_step (hp : Payloads cfg s) (h : s.step cfg a = some s') :
    PipeSteps cfg s a s' ∧ Payloads cfg s' := by
  cases connectionSteps_of_step h with
  | @request c method params hc =>
    refine ⟨.quiet trivial rfl ?_, fun c' ha => ?_⟩
    · funext who
      cases who with
      | request c' =>
        by_cases hcc : c' = c
        · subst hcc
          simp [sending, requestSends, Connection.log, hc]
        · simp [sending, Connection.log, Function.update_of_ne hcc]
      | notify c' => rfl
    · by_cases hcc : c' = c
      · subst hcc
        simp only [Connection.log, Function.update_self]
        exact ⟨_, rfl, .inl ⟨_, rfl⟩⟩
      · simp only [Connection.log, Function.update_of_ne hcc] at ha ⊢
        exact hp c' ha
  | @insert c hc =>
    obtain ⟨hcalls, hnot, hstdin⟩ := removePending_writers s (s.calls c).id
    have hgoto : ((s.insertPending (s.calls c).id c).goto c (.sending .locking)).calls =
        (s.goto c (.sending .locking)).calls := by
      simp only [Connection.goto, Connection.insertPending, hcalls]
    exact ⟨.starts (.request c) _ trivial (by rw [sending, hc]; rfl) (hp c hc) hstdin (sending_of_goto hgoto hnot),
      payloads_of_goto hp (by simp) hgoto⟩
  | @write c b p res stdin hc hw =>
    have hsend : sending s (.request c) = some ((s.calls c).payload, p) := by rw [sending, hc]; rfl
    have hstdin : ({ s with stdin := stdin }.onWrite cfg c res).stdin = stdin := by cases res <;> rfl
    refine ⟨.writes (.request c) _ p b res stdin hsend hw hstdin (sending_onWrite s c res stdin) ?_, ?_⟩
    · cases b <;> simp [KeepsFrames]
    · cases res <;> exact payloads_of_goto (s := s) hp (by simp) rfl
  | receive hc | lose hc | expire hc =>
    exact pipe_of_goto hp trivial (by simp) (by rw [sending, hc]; rfl) rfl rfl rfl rfl
  | @remove c e hc =>
    obtain ⟨hcalls, hnot, hstdin⟩ := removePending_writers s (s.calls c).id
    have hgoto : ((s.removePending (s.calls c).id).goto c (.returned (.error e))).calls =
        (s.goto c (.returned (.error e))).calls := by
      simp only [Connection.goto, hcalls]
    exact pipe_of_goto hp trivial (by simp) (by rw [sending, hc]; rfl) rfl hgoto hnot hstdin
  | @drop c => exact ⟨.drops (.request c) rfl (sending_of_goto rfl rfl) Iff.rfl, payloads_of_goto hp (by simp) rfl⟩
  | @notify c method params hc =>
    exact ⟨.starts (.notify c) _ trivial (by rw [sending, hc]; rfl) ⟨_, rfl, .inr ⟨⟨method, params⟩, rfl⟩⟩ rfl
      (sending_of_notifies (n := .sending _ _) rfl rfl), hp⟩
  | @writeNotify c b payload p res stdin hc hw =>
    have hsend : sending s (.notify c) = some (payload, p) := by rw [sending, hc]; rfl
    have hstdin : ({ s with stdin := stdin }.onWriteNotify c payload res).stdin = stdin := by cases res <;> rfl
    refine ⟨.writes (.notify c) payload p b res stdin hsend hw hstdin
      (sending_onWriteNotify s c payload res stdin) ?_, ?_⟩
    · cases b <;> simp [KeepsFrames]
    · cases res <;> exact hp
  | @dropNotify c =>
    exact ⟨.drops (.notify c) rfl (sending_of_notifies (n := .dropped) rfl rfl) Iff.rfl, hp⟩
  | line hr =>
    unfold Connection.onLine
    split <;> exact pipe_of_eq hp trivial rfl rfl rfl
  | @dispatch n r hr =>
    cases hc : s.pending r.id with
    | none =>
      rw [onDispatch_none hc]
      exact pipe_of_eq hp trivial rfl rfl rfl
    | some c =>
      rw [onDispatch_some hc]
      exact pipe_of_eq hp trivial rfl rfl rfl
  | tick | eof => exact pipe_of_eq hp trivial rfl rfl rfl

/-! ## The write path -/

/-- What a step of the write path does. -/
inductive PathSteps (who : Writer) (payload : List UInt8) (stdin : Stdin) :
    WritePhase → WriteAction → WriteResult → Stdin → Prop
  | locked : stdin.holder = none →
    PathSteps who payload stdin .locking .locked (.goto (.writing payload)) { stdin with holder := some who }
  | wrote {rest : List UInt8} {n : Nat} : 0 < n → n < rest.length →
    PathSteps who payload stdin (.writing rest) (.wrote n) (.goto (.writing (rest.drop n)))
      { stdin with written := stdin.written ++ rest.take n }
  | finished {rest : List UInt8} :
    PathSteps who payload stdin (.writing rest) (.wrote rest.length) (.goto .flushing)
      { stdin with written := stdin.written ++ rest }
  | flushed : PathSteps who payload stdin .flushing .flushed .done { stdin with holder := none }
  | failed {p : WritePhase} {text : String} {e : McpError} : p ≠ .locking →
    PathSteps who payload stdin p (.failed text) (.error e) { stdin with holder := none }

theorem pathSteps_of_step {stdin stdin' : Stdin} {b : WriteAction} {res : WriteResult}
    (h : p.step who payload stdin b = some (res, stdin')) : PathSteps who payload stdin p b res stdin' := by
  cases p with
  | locking =>
    cases b with
    | locked =>
      simp only [WritePhase.step] at h
      split at h
      · rename_i hn
        cases h
        exact .locked hn
      · cases h
    | wrote n | flushed | failed e => cases h
  | writing rest =>
    cases b with
    | wrote n =>
      simp only [WritePhase.step] at h
      split at h
      · rename_i hn
        cases h
        split
        · rename_i he
          subst he
          rw [List.take_length]
          exact .finished
        · exact .wrote hn.1 (by omega)
      · cases h
    | failed e =>
      cases h
      exact .failed (by simp)
    | locked | flushed => cases h
  | flushing =>
    cases b with
    | flushed =>
      cases h
      exact .flushed
    | failed e =>
      cases h
      exact .failed (by simp)
    | locked | wrote n => cases h

/-! ## The lock -/

/-- A writer that is past `lock()` holds the lock, and one in `write_all` has
written what is not left of its message. -/
structure PipeInv (cfg : ConnectionConfig) (s : Connection) : Prop where
  payloads : Payloads cfg s
  message : ∀ who payload p, sending s who = some (payload, p) → IsMessage cfg payload
  held : ∀ who payload p, sending s who = some (payload, p) → p ≠ .locking → s.stdin.holder = some who
  rest : ∀ who payload rest, sending s who = some (payload, .writing rest) → rest ≠ [] ∧ ∃ done, payload = done ++ rest

theorem pipeInv_init (now : Nat) : PipeInv cfg (.init now) where
  payloads c h := by cases h
  message who payload p h := by cases who <;> cases h
  held who payload p h := by cases who <;> cases h
  rest who payload rest h := by cases who <;> cases h

theorem message_ne_nil {m : List UInt8} (hm : IsMessage cfg m) : m ≠ [] := by
  obtain ⟨v, rfl, -⟩ := hm
  simp [Connection.frame]

/-- The writers after one of them went on to `x`. -/
theorem sending_update {x : Option (List UInt8 × WritePhase)} (hs : sending s' = Function.update (sending s) who x)
    {who' : Writer} {y : List UInt8 × WritePhase} (h : sending s' who' = some y) :
    (who' = who ∧ x = some y) ∨ (who' ≠ who ∧ sending s who' = some y) := by
  by_cases hw : who' = who
  · subst hw
    rw [hs, Function.update_self] at h
    exact .inl ⟨rfl, h⟩
  · rw [hs, Function.update_of_ne hw] at h
    exact .inr ⟨hw, h⟩

/-- The invariant after one writer went on to `x`, if the others that are past
`lock()` keep the lock. -/
theorem pipeInv_update {x : Option (List UInt8 × WritePhase)} (hi : PipeInv cfg s) (hp : Payloads cfg s')
    (hs : sending s' = Function.update (sending s) who x)
    (hother : ∀ who', who' ≠ who → s.stdin.holder = some who' → s'.stdin.holder = some who')
    (hx : ∀ payload p, x = some (payload, p) → IsMessage cfg payload ∧
      (p ≠ .locking → s'.stdin.holder = some who) ∧
      ∀ rest, p = .writing rest → rest ≠ [] ∧ ∃ done, payload = done ++ rest) : PipeInv cfg s' := by
  refine ⟨hp, fun who' payload p h => ?_, fun who' payload p h hne => ?_, fun who' payload rest h => ?_⟩
  · rcases sending_update hs h with ⟨-, h⟩ | ⟨-, h⟩
    · exact (hx payload p h).1
    · exact hi.message who' payload p h
  · rcases sending_update hs h with ⟨rfl, h⟩ | ⟨hw, h⟩
    · exact (hx payload p h).2.1 hne
    · exact hother who' hw (hi.held who' payload p h hne)
  · rcases sending_update hs h with ⟨-, h⟩ | ⟨-, h⟩
    · exact (hx payload _ h).2.2 rest rfl
    · exact hi.rest who' payload rest h

theorem pipeInv_step (hi : PipeInv cfg s) (h : PipeSteps cfg s a s') (hp : Payloads cfg s') : PipeInv cfg s' := by
  cases h with
  | quiet _ hstdin hs =>
    refine ⟨hp, ?_, ?_, ?_⟩ <;> rw [hs]
    · exact hi.message
    · rw [hstdin]
      exact hi.held
    · exact hi.rest
  | starts who payload _ _ hm hstdin hs =>
    refine pipeInv_update hi hp hs (fun who' _ h => by rw [hstdin]; exact h) fun payload' p hx => ?_
    cases hx
    exact ⟨hm, fun hne => absurd rfl hne, fun rest hr => by cases hr⟩
  | drops who hstdin hs _ =>
    refine pipeInv_update hi hp hs (fun who' hw h => ?_) fun payload p hx => by cases hx
    rw [hstdin, Stdin.release, if_neg]
    · exact h
    · rw [h]
      simpa using hw
  | writes who payload p b res stdin hsend hw hstdin hs _ =>
    have hm := hi.message who payload p hsend
    cases pathSteps_of_step hw with
    | locked hn =>
      refine pipeInv_update hi hp hs (fun who' _ h => by rw [hn] at h; cases h) fun payload' p' hx => ?_
      cases hx
      refine ⟨hm, fun _ => by rw [hstdin], fun rest hr => ?_⟩
      cases hr
      exact ⟨message_ne_nil hm, [], rfl⟩
    | @wrote rest n hpos hlt =>
      obtain ⟨hne, done, hd⟩ := hi.rest who payload rest hsend
      refine pipeInv_update hi hp hs (fun who' _ h => by rw [hstdin]; exact h) fun payload' p' hx => ?_
      cases hx
      refine ⟨hm, fun _ => ?_, fun rest' hr => ?_⟩
      · rw [hstdin]
        exact hi.held who payload _ hsend (by simp)
      · cases hr
        refine ⟨?_, done ++ rest.take n, ?_⟩
        · intro hnil
          rw [List.drop_eq_nil_iff] at hnil
          omega
        · rw [hd, List.append_assoc, List.take_append_drop]
    | finished =>
      refine pipeInv_update hi hp hs (fun who' _ h => by rw [hstdin]; exact h) fun payload' p' hx => ?_
      cases hx
      refine ⟨hm, fun _ => ?_, fun rest' hr => by cases hr⟩
      rw [hstdin]
      exact hi.held who payload _ hsend (by simp)
    | flushed =>
      have hheld := hi.held who payload _ hsend (by simp)
      refine pipeInv_update hi hp hs (fun who' hw' h => ?_) fun payload' p' hx => by cases hx
      rw [hheld] at h
      exact absurd (Option.some.inj h).symm hw'
    | failed hne =>
      have hheld := hi.held who payload _ hsend hne
      refine pipeInv_update hi hp hs (fun who' hw' h => ?_) fun payload' p' hx => by cases hx
      rw [hheld] at h
      exact absurd (Option.some.inj h).symm hw'

/-! ## What is written -/

theorem unfinished_of_holder (h : s.stdin.holder = some who) : unfinished s = partOf (sending s who) := by
  rw [unfinished, h]
  rfl

theorem unfinished_of_free (h : s.stdin.holder = none) : unfinished s = [] := by
  rw [unfinished, h]

theorem partOf_writing {done rest : List UInt8} : partOf (some (done ++ rest, .writing rest)) = done := by
  simp [partOf]

theorem getLast?_message {m : List UInt8} (hm : IsMessage cfg m) : m.getLast? = some 10 := by
  obtain ⟨v, rfl, -⟩ := hm
  simp [Connection.frame]

/-- What is left of a message has its newline. -/
theorem newline_not_mem (hl : OneLine cfg) {done rest : List UInt8} (hm : IsMessage cfg (done ++ rest))
    (hne : rest ≠ []) : 10 ∉ done := by
  obtain ⟨v, hv, -⟩ := hm
  obtain ⟨init, last, rfl⟩ := List.eq_nil_or_concat rest |>.resolve_left hne
  rw [List.concat_eq_append, ← List.append_assoc, Connection.frame] at hv
  obtain ⟨hv, -⟩ := List.append_inj' hv rfl
  intro hd
  exact hl v (hv ▸ List.mem_append_left _ hd)

theorem newline_not_mem_part (hi : PipeInv cfg s) (hl : OneLine cfg) (who : Writer) : 10 ∉ partWritten s who := by
  unfold partWritten
  cases hs : sending s who with
  | none => simp [partOf]
  | some x =>
    obtain ⟨payload, p⟩ := x
    cases p with
    | writing rest =>
      obtain ⟨hne, done, rfl⟩ := hi.rest who payload rest hs
      rw [partOf_writing]
      exact newline_not_mem hl (hi.message who _ _ hs) hne
    | locking | flushing => simp [partOf]

/-- A writer leaves, and the lock with it. -/
theorem wellFramed_of_left (hi : PipeInv cfg s) (hl : OneLine cfg) (hw : WellFramed cfg s)
    (hh : s.stdin.holder = some who) (hwritten : s'.stdin.written = s.stdin.written) (hfree : s'.stdin.holder = none) :
    WellFramed cfg s' ↔ partWritten s who = [] := by
  have hpart : unfinished s = partWritten s who := unfinished_of_holder hh
  rw [WellFramed, hpart] at hw
  rw [WellFramed, hwritten, unfinished_of_free hfree]
  exact hw.nil_iff (fun _ hm => getLast?_message hm) (newline_not_mem_part hi hl who)

/-- Nothing is written, and whoever holds the lock goes on as before. -/
theorem wellFramed_of_same (hw : WellFramed cfg s) (hstdin : s'.stdin = s.stdin)
    (hs : ∀ who, s.stdin.holder = some who → partOf (sending s' who) = partOf (sending s who)) : WellFramed cfg s' := by
  have hpart : unfinished s' = unfinished s := by
    cases hh : s.stdin.holder with
    | none => rw [unfinished_of_free hh, unfinished_of_free (hstdin ▸ hh)]
    | some who => rw [unfinished_of_holder hh, unfinished_of_holder (hstdin ▸ hh), hs who hh]
  rw [WellFramed, hstdin, hpart]
  exact hw

theorem wellFramed_step (hi : PipeInv cfg s) (hl : OneLine cfg) (hw : WellFramed cfg s) (h : PipeSteps cfg s a s') :
    WellFramed cfg s' ↔ KeepsFrames s a := by
  cases h with
  | quiet hk hstdin hs => exact iff_of_true (wellFramed_of_same hw hstdin fun who _ => by rw [hs]) hk
  | starts who payload hk hnone _ hstdin hs =>
    refine iff_of_true (wellFramed_of_same hw hstdin fun who' _ => ?_) hk
    by_cases hww : who' = who
    · subst hww
      rw [hs, Function.update_self, hnone]
      rfl
    · rw [hs, Function.update_of_ne hww]
  | drops who hstdin hs hk =>
    rw [hk]
    by_cases hh : s.stdin.holder = some who
    · have hrel : s.stdin.release who = { s.stdin with holder := none } := if_pos hh
      exact wellFramed_of_left hi hl hw hh (by rw [hstdin, hrel]) (by rw [hstdin, hrel])
    · have hrel : s.stdin.release who = s.stdin := if_neg hh
      have hnone : partWritten s who = [] := by
        unfold partWritten
        cases hsend : sending s who with
        | none => rfl
        | some x =>
          obtain ⟨payload, p⟩ := x
          cases p with
          | locking | flushing => rfl
          | writing rest => exact absurd (hi.held who payload _ hsend (by simp)) hh
      refine iff_of_true (wellFramed_of_same hw (hstdin.trans hrel) fun who' hh' => ?_) hnone
      have hne : who' ≠ who := fun he => hh (he ▸ hh')
      rw [hs, Function.update_of_ne hne]
  | writes who payload p b res stdin hsend hstep hstdin hs hk =>
    rw [hk]
    have hself : sending s' who = nextOf payload res := by rw [hs, Function.update_self]
    cases pathSteps_of_step hstep with
    | locked hn =>
      refine iff_of_true ?_ fun e he => by cases he
      rw [WellFramed, unfinished_of_free hn] at hw
      have hheld : s'.stdin.holder = some who := by rw [hstdin]
      rw [WellFramed, unfinished_of_holder hheld, hself, hstdin]
      simpa [nextOf, partOf] using hw
    | @wrote rest n hpos hlt =>
      refine iff_of_true ?_ fun e he => by cases he
      obtain ⟨hne, done, rfl⟩ := hi.rest who payload rest hsend
      have hh := hi.held who _ _ hsend (by simp)
      rw [WellFramed, unfinished_of_holder hh, hsend, partOf_writing] at hw
      have hpart : partOf (nextOf (done ++ rest) (.goto (.writing (rest.drop n)))) = done ++ rest.take n := by
        have hsplit : done ++ rest = (done ++ rest.take n) ++ rest.drop n := by
          rw [List.append_assoc, List.take_append_drop]
        rw [nextOf, hsplit, partOf_writing]
      have hheld : s'.stdin.holder = some who := by rw [hstdin]; exact hh
      rw [WellFramed, unfinished_of_holder hheld, hself, hpart, hstdin]
      exact hw.append _
    | @finished rest =>
      refine iff_of_true ?_ fun e he => by cases he
      obtain ⟨hne, done, rfl⟩ := hi.rest who payload rest hsend
      have hh := hi.held who _ _ hsend (by simp)
      rw [WellFramed, unfinished_of_holder hh, hsend, partOf_writing] at hw
      have hheld : s'.stdin.holder = some who := by rw [hstdin]; exact hh
      rw [WellFramed, unfinished_of_holder hheld, hself, hstdin]
      exact (hw.append rest).whole (hi.message who _ _ hsend)
    | flushed =>
      have hh := hi.held who _ _ hsend (by simp)
      have hfree : s'.stdin.holder = none := by rw [hstdin]
      have hleft := wellFramed_of_left hi hl hw hh (by rw [hstdin]) hfree
      refine iff_of_true (hleft.mpr ?_) fun e he => by cases he
      rw [partWritten, hsend]
      rfl
    | @failed p text e hne =>
      have hh := hi.held who _ _ hsend hne
      have hfree : s'.stdin.holder = none := by rw [hstdin]
      rw [wellFramed_of_left hi hl hw hh (by rw [hstdin]) hfree]
      exact ⟨fun hpart _ _ => hpart, fun hpart => hpart text rfl⟩

/-- In every run of a connection, what is written is at every moment whole
messages, followed by at most the part that a writer has written of its own,
exactly if no call is dropped, and no write fails, with a part of its message
written. -/
theorem well_framed_iff {as : List ConnectionAction} {now : Nat} (hl : OneLine cfg)
    (h : exec (Connection.step cfg) (.init now) as = some s) :
    AlongStates (Connection.step cfg) (WellFramed cfg) (.init now) as ↔
      AlongSteps (Connection.step cfg) KeepsFrames (.init now) as := by
  have hkeep : ∀ {s a s'}, PipeInv cfg s → Connection.step cfg s a = some s' → PipeInv cfg s' := by
    intro s a s' hi hs
    obtain ⟨hpipe, hp⟩ := pipeSteps_of_step hi.payloads hs
    exact pipeInv_step hi hpipe hp
  refine alongStates_iff_alongSteps hkeep (fun hi hw hs => ?_) (pipeInv_init now) Framed.nil h
  exact wellFramed_step hi hl hw (pipeSteps_of_step hi.payloads hs).1

/-! ## A request that is dropped -/

/-- The caller's timeout drops the request when ten bytes are written. -/
theorem dropped_midway :
    ¬ ∀ cfg, OneLine cfg → ∀ as s, exec (Connection.step cfg) (.init 0) as = some s → WellFramed cfg s := by
  intro h
  have hframed := h pingConfig oneLine_plainClient
    [.request 0 "ping" .null, .insert 0, .write 0 .locked, .write 0 (.wrote 10), .drop 0] _ rfl
  have hlast := hframed.getLast?_eq (fun _ hm => getLast?_message hm) (by decide)
  exact absurd hlast (by decide)

/-- Dropped when the message is out, or not begun, it leaves the stream whole. -/
theorem dropped_whole :
    AlongStates (Connection.step pingConfig) (WellFramed pingConfig) (.init 0)
      [.request 0 "ping" .null, .insert 0, .write 0 .locked, .write 0 (.wrote 30), .write 0 (.wrote 25), .drop 0] :=
  (well_framed_iff oneLine_plainClient rfl).mpr (by decide)

end WalaStack.Proof.Mcp.Stdio
