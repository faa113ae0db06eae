import WalaStack.Proof.Mcp.Dialogue.Calls

/-!
# The lines that the server gets

While no call leaves a part of its message behind, stdin grows by whole
messages (`StdinMoves`). Each of its lines is the message of a call that has
begun to send, or a notification (`StdinInv.framed`), and the message of a call
that waits is one of them (`StdinInv.waiting`).
-/

namespace WalaStack.Proof.Mcp.Dialogue

open WalaStack.Rust WalaStack.Rust.Json WalaStack.Impl.Mcp WalaStack.Spec.Mcp WalaStack.Proof.Mcp.Stdio
open WalaStack.Frames WalaStack.Lines

variable {cfg : ConnectionConfig} {s s' : Connection} {a : ConnectionAction} {c : Nat}

/-! ## Growth of stdin -/

/-- What a step that leaves no part of a message behind does to stdin, and to the
message that is being written. -/
inductive StdinMoves (s s' : Connection) : Prop
  | same : s'.stdin.written = s.stdin.written → unfinished s' = unfinished s → StdinMoves s s'
  | grows (xs : List UInt8) : s'.stdin.written = s.stdin.written ++ xs → unfinished s' = unfinished s ++ xs →
    StdinMoves s s'
  | finishes (who : Writer) (payload xs : List UInt8) (p : WritePhase) : sending s who = some (payload, p) →
    unfinished s ++ xs = payload → s'.stdin.written = s.stdin.written ++ xs → unfinished s' = [] → StdinMoves s s'

/-- Whoever holds the lock goes on as before. -/
theorem unfinished_of_same (hstdin : s'.stdin = s.stdin)
    (hs : ∀ who, s.stdin.holder = some who → partOf (sending s' who) = partOf (sending s who)) :
    unfinished s' = unfinished s := by
  cases hh : s.stdin.holder with
  | none => rw [unfinished_of_free hh, unfinished_of_free (hstdin ▸ hh)]
  | some who => rw [unfinished_of_holder hh, unfinished_of_holder (hstdin ▸ hh), hs who hh]

theorem stdinMoves_of_pipeSteps (hi : PipeInv cfg s) (h : PipeSteps cfg s a s') (hk : KeepsFrames s a) :
    StdinMoves s s' := by
  cases h with
  | quiet _ hstdin hs => exact .same (by rw [hstdin]) (unfinished_of_same hstdin fun who _ => by rw [hs])
  | starts who payload _ hnone _ hstdin hs =>
    refine .same (by rw [hstdin]) (unfinished_of_same hstdin fun who' _ => ?_)
    by_cases hww : who' = who
    · subst hww
      rw [hs, Function.update_self, hnone]
      rfl
    · rw [hs, Function.update_of_ne hww]
  | drops who hstdin hs hk' =>
    have hpart : partWritten s who = [] := hk'.mp hk
    by_cases hh : s.stdin.holder = some who
    · have hrel : s.stdin.release who = { s.stdin with holder := none } := if_pos hh
      refine .same (by rw [hstdin, hrel]) ?_
      rw [unfinished_of_free (by rw [hstdin, hrel]), unfinished_of_holder hh]
      exact hpart.symm
    · have hrel : s.stdin.release who = s.stdin := if_neg hh
      refine .same (by rw [hstdin, hrel]) (unfinished_of_same (hstdin.trans hrel) fun who' hh' => ?_)
      have hne : who' ≠ who := fun he => hh (he ▸ hh')
      rw [hs, Function.update_of_ne hne]
  | writes who payload p b res stdin hsend hstep hstdin hs hk' =>
    have hself : sending s' who = nextOf payload res := by rw [hs, Function.update_self]
    cases pathSteps_of_step hstep with
    | locked hn =>
      refine .same (by rw [hstdin]) ?_
      have hheld : s'.stdin.holder = some who := by rw [hstdin]
      rw [unfinished_of_free hn, unfinished_of_holder hheld, hself]
      simp [nextOf, partOf]
    | @wrote rest n hpos hlt =>
      obtain ⟨-, done, rfl⟩ := hi.rest who payload rest hsend
      have hh := hi.held who _ _ hsend (by simp)
      have hheld : s'.stdin.holder = some who := by rw [hstdin]; exact hh
      refine .grows (rest.take n) (by rw [hstdin]) ?_
      have hsplit : done ++ rest = (done ++ rest.take n) ++ rest.drop n := by
        rw [List.append_assoc, List.take_append_drop]
      rw [unfinished_of_holder hheld, hself, unfinished_of_holder hh, hsend, partOf_writing, nextOf, hsplit,
        partOf_writing]
    | @finished rest =>
      obtain ⟨-, done, rfl⟩ := hi.rest who payload rest hsend
      have hh := hi.held who _ _ hsend (by simp)
      have hheld : s'.stdin.holder = some who := by rw [hstdin]; exact hh
      refine .finishes who (done ++ rest) rest _ hsend ?_ (by rw [hstdin]) ?_
      · rw [unfinished_of_holder hh, hsend, partOf_writing]
      · rw [unfinished_of_holder hheld, hself]
        rfl
    | flushed =>
      have hh := hi.held who _ _ hsend (by simp)
      refine .same (by rw [hstdin]) ?_
      rw [unfinished_of_free (by rw [hstdin]), unfinished_of_holder hh, hsend]
      rfl
    | @failed p text e hne =>
      have hh := hi.held who _ _ hsend hne
      refine .same (by rw [hstdin]) ?_
      rw [unfinished_of_free (by rw [hstdin]), unfinished_of_holder hh]
      exact (hk'.mp hk text rfl).symm

theorem StdinMoves.written_append (m : StdinMoves s s') : ∃ xs, s'.stdin.written = s.stdin.written ++ xs := by
  cases m with
  | same hw => exact ⟨[], by rw [hw, List.append_nil]⟩
  | grows xs hw => exact ⟨xs, hw⟩
  | finishes who payload xs p _ _ hw => exact ⟨xs, hw⟩

theorem StdinMoves.lines_grow (m : StdinMoves s s') :
    lines 10 s.stdin.written <+: lines 10 s'.stdin.written := by
  obtain ⟨xs, hxs⟩ := m.written_append
  rw [hxs]
  exact prefix_append _ _

/-- The frames on stdin, if the messages that are being sent are frames. -/
theorem StdinMoves.framed {frame : List UInt8 → Prop} (m : StdinMoves s s')
    (hframe : ∀ who payload p, sending s who = some (payload, p) → frame payload)
    (h : Framed frame s.stdin.written (unfinished s)) : Framed frame s'.stdin.written (unfinished s') := by
  cases m with
  | same hw hu => rwa [hw, hu]
  | grows xs hw hu =>
    rw [hw, hu]
    exact h.append xs
  | finishes who payload xs p hsend hp hw hu =>
    rw [hw, hu]
    exact (h.append xs).whole (hp ▸ hframe who payload p hsend)

/-! ## The messages on stdin -/

/-- The message of a call that has begun to send, or a notification. -/
def Sent (cfg : ConnectionConfig) (s : Connection) (m : List UInt8) : Prop :=
  (∃ c, 2 ≤ rankOf s c ∧ m = (s.calls c).payload) ∨ ∃ n : JsonRpcNotification, m = Connection.frame cfg n.toValue

/-- The server gets a message. -/
def Delivered (s : Connection) (m : List UInt8) : Prop := ∃ line ∈ lines 10 s.stdin.written, m = line ++ [10]

structure StdinInv (cfg : ConnectionConfig) (s : Connection) : Prop where
  framed : Framed (Sent cfg s) s.stdin.written (unfinished s)
  flushing (who : Writer) (payload : List UInt8) : sending s who = some (payload, .flushing) → Delivered s payload
  waiting (c deadline : Nat) : (s.calls c).phase = .waiting deadline → Delivered s (s.calls c).payload

theorem stdinInv_init (now : Nat) : StdinInv cfg (.init now) where
  framed := .nil
  flushing who payload h := by cases who <;> cases h
  waiting c deadline h := by cases h

theorem Sent.step {m : List UInt8} {e : Option ConnectionEntry} (mv : Moves cfg s e s') (hc : CallMoves cfg s a s')
    (h : Sent cfg s m) : Sent cfg s' m := by
  refine h.imp_left fun ⟨c, h2, hm⟩ => ⟨c, h2.trans (mv.rank_le c), ?_⟩
  rw [hm, hc.payload (by omega)]

theorem Delivered.step {m : List UInt8} (hm : StdinMoves s s') (h : Delivered s m) : Delivered s' m := by
  obtain ⟨line, hl, rfl⟩ := h
  exact ⟨line, hm.lines_grow.subset hl, rfl⟩

/-- What is being sent is the message of a call, or a notification. -/
theorem sent_of_sending (hc : CallsInv cfg s) {who : Writer} {payload : List UInt8} {p : WritePhase}
    (h : sending s who = some (payload, p)) : Sent cfg s payload := by
  cases who with
  | request c =>
    cases hp : (s.calls c).phase with
    | sending q =>
      rw [sending, hp, requestSends, Option.some.injEq, Prod.mk.injEq] at h
      exact .inl ⟨c, by rw [rankOf, hp]; exact Nat.le_refl 2, h.1.symm⟩
    | _ =>
      rw [sending, hp] at h
      cases h
  | notify c =>
    cases hp : s.notifies c with
    | sending payload' q =>
      rw [sending, hp, notifySends, Option.some.injEq, Prod.mk.injEq] at h
      exact .inr (h.1 ▸ hc.notifies c payload' q hp)
    | _ =>
      rw [sending, hp] at h
      cases h

/-- A message that is sent is one line. -/
theorem line_of_sent (hl : OneLine cfg) (hc : CallsInv cfg s) {m : List UInt8} (h : Sent cfg s m) :
    ∃ line, 10 ∉ line ∧ m = line ++ [10] := by
  rcases h with ⟨c, h2, rfl⟩ | ⟨n, rfl⟩
  · obtain ⟨method, params, -, hp⟩ := hc.asked c (by omega)
    exact ⟨_, hl _, hp⟩
  · exact ⟨_, hl _, rfl⟩

theorem exists_lines (hl : OneLine cfg) (hp : PipeInv cfg s) (hc : CallsInv cfg s) (hi : StdinInv cfg s) :
    (∀ line ∈ lines 10 s.stdin.written, 10 ∉ line ∧ Sent cfg s (line ++ [10])) ∧
      s.stdin.written = unlines 10 (lines 10 s.stdin.written) ++ unfinished s := by
  obtain ⟨ls, hls, hw⟩ := exists_unlines (fun m hm => line_of_sent hl hc hm) hi.framed
  have hpart : 10 ∉ unfinished s := by
    unfold unfinished
    split
    · exact newline_not_mem_part hp hl _
    · exact List.not_mem_nil
  have hlines : lines 10 s.stdin.written = ls := by
    rw [hw]
    exact lines_unlines (fun line hm => (hls line hm).1) hpart
  rw [hlines]
  exact ⟨hls, hw⟩

/-- A message is delivered with its last byte. -/
theorem delivered_of_finished (hl : OneLine cfg) (hp : PipeInv cfg s) (hc : CallsInv cfg s) (hi : StdinInv cfg s)
    {payload xs : List UInt8} (hs : Sent cfg s payload) (hpay : unfinished s ++ xs = payload)
    (hw : s'.stdin.written = s.stdin.written ++ xs) : Delivered s' payload := by
  obtain ⟨hls, hstream⟩ := exists_lines hl hp hc hi
  obtain ⟨line, hline, rfl⟩ := line_of_sent hl hc hs
  have hwritten : s'.stdin.written = unlines 10 (lines 10 s.stdin.written ++ [line]) ++ [] := by
    rw [hw, unlines_append, unlines_singleton, ← hpay, List.append_nil, ← List.append_assoc, ← hstream]
  have hlines : lines 10 s'.stdin.written = lines 10 s.stdin.written ++ [line] := by
    rw [hwritten]
    refine lines_unlines (fun l hm => ?_) List.not_mem_nil
    rcases List.mem_append.mp hm with hm | hm
    · exact (hls l hm).1
    · rw [List.mem_singleton.mp hm]
      exact hline
  exact ⟨line, by rw [hlines]; exact List.mem_append_right _ (List.mem_singleton_self _), rfl⟩

theorem flushing_step (hl : OneLine cfg) (hp : PipeInv cfg s) (hc : CallsInv cfg s) (hi : StdinInv cfg s)
    (h : PipeSteps cfg s a s') (hm : StdinMoves s s') {who : Writer} {payload : List UInt8}
    (hs : sending s' who = some (payload, .flushing)) : Delivered s' payload := by
  have hold (hs : sending s who = some (payload, .flushing)) : Delivered s' payload :=
    (hi.flushing who payload hs).step hm
  cases h with
  | quiet _ _ hsend => exact hold (hsend ▸ hs)
  | starts who' payload' _ _ _ _ hsend =>
    rcases sending_update hsend hs with ⟨-, hx⟩ | ⟨-, hs⟩
    · cases hx
    · exact hold hs
  | drops who' _ hsend =>
    rcases sending_update hsend hs with ⟨-, hx⟩ | ⟨-, hs⟩
    · cases hx
    · exact hold hs
  | writes who' payload' p b res stdin hbusy hstep hstdin hsend =>
    rcases sending_update hsend hs with ⟨rfl, hx⟩ | ⟨-, hs⟩
    · cases pathSteps_of_step hstep with
      | @finished rest =>
        obtain ⟨-, done, rfl⟩ := hp.rest who _ rest hbusy
        have hh := hp.held who _ _ hbusy (by simp)
        cases hx
        refine delivered_of_finished hl hp hc hi (sent_of_sending hc hbusy) ?_ (by rw [hstdin])
        rw [unfinished_of_holder hh, hbusy, partOf_writing]
      | locked | wrote | flushed | failed => cases hx
    · exact hold hs

theorem stdinInv_step (hl : OneLine cfg) (hp : PipeInv cfg s) (hc : CallsInv cfg s) (hi : StdinInv cfg s)
    {e : Option ConnectionEntry} (mv : Moves cfg s e s') (hcalls : CallMoves cfg s a s') (hpipe : PipeSteps cfg s a s')
    (hk : KeepsFrames s a) : StdinInv cfg s' := by
  have hm := stdinMoves_of_pipeSteps hp hpipe hk
  refine ⟨?_, fun who payload hs => flushing_step hl hp hc hi hpipe hm hs, fun c deadline hw => ?_⟩
  · exact (hm.framed (fun who payload p h => sent_of_sending hc h) hi.framed).imp fun m h => h.step mv hcalls
  · rcases hcalls.phase hw (by simp) with hold | hflush
    · rw [hcalls.payload (by rw [rankOf, hold]; exact Nat.le_add_left 1 2)]
      exact (hi.waiting c deadline hold).step hm
    · have hflush : (s.calls c).phase = .sending .flushing := hflush
      rw [hcalls.payload (by rw [rankOf, hflush]; exact Nat.le_add_left 1 1)]
      refine (hi.flushing (.request c) _ ?_).step hm
      rw [sending, hflush]
      rfl

end WalaStack.Proof.Mcp.Dialogue
