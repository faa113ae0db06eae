import WalaStack.Proof.Mcp.Stdio.Correlation

/-!
# The reader and its lines

The reader task holds a response from the line it was on until it has looked
it up; `ReaderSteps` is what a step does to it. So of every line that it has
read the response was looked up, or is about to be (`ReaderInv`).
-/

namespace WalaStack.Proof.Mcp.Dialogue

open WalaStack.Impl.Mcp WalaStack.Proof.Mcp.Stdio

variable {cfg : ConnectionConfig} {s s' : Connection} {a : ConnectionAction}

/-- What a step does to the reader, and to its entries of the history. -/
inductive ReaderSteps (cfg : ConnectionConfig) (s : Connection) (a : ConnectionAction) (s' : Connection) : Prop
  | same (x : Option ConnectionEntry) : (∀ text, a ≠ .line text) → s'.reader = s.reader → s'.lines = s.lines →
    s'.history = s.history ++ x.toList → (∀ n text, x ≠ some (.read n text)) → ReaderSteps cfg s a s'
  | line (text : String) : a = .line text → s.reader = .reading → s' = s.onLine cfg text → ReaderSteps cfg s a s'
  | dispatch (n : Nat) (r : JsonRpcResponse) : a = .dispatch → s.reader = .holding n r → s' = s.onDispatch n r →
    ReaderSteps cfg s a s'
  | exit : a = .eof → s.reader = .reading → s' = { s with reader := .exited } → ReaderSteps cfg s a s'

theorem readerSteps_of_steps (h : ConnectionSteps cfg s a s') : ReaderSteps cfg s a s' := by
  cases h with
  | tick | notify | dropNotify | drop => exact .same none (by simp) rfl rfl (List.append_nil _).symm nofun
  | @request c => exact .same (some (.called c)) (by simp) rfl rfl rfl nofun
  | @receive c deadline line r => exact .same (some (.completed c line r)) (by simp) rfl rfl rfl nofun
  | @lose c => exact .same (some (.lost c)) (by simp) rfl rfl rfl nofun
  | @expire c => exact .same (some (.expired c)) (by simp) rfl rfl rfl nofun
  | @insert c =>
    have hrem := removed_removePending s (s.calls c).id
    exact .same none (by simp) hrem.reader hrem.lines (hrem.history.trans (List.append_nil _).symm) nofun
  | @remove c =>
    have hrem := removed_removePending s (s.calls c).id
    exact .same none (by simp) hrem.reader hrem.lines (hrem.history.trans (List.append_nil _).symm) nofun
  | @write c b p res stdin =>
    cases res with
    | done => exact .same (some (.written c)) (by simp) rfl rfl rfl nofun
    | goto | error => exact .same none (by simp) rfl rfl (List.append_nil _).symm nofun
  | @writeNotify c b payload p res stdin =>
    cases res <;> exact .same none (by simp) rfl rfl (List.append_nil _).symm nofun
  | line hr => exact .line _ rfl hr rfl
  | dispatch hr => exact .dispatch _ _ rfl hr rfl
  | eof hr => exact .exit rfl hr rfl

theorem history_onLine (s : Connection) (text : String) :
    (s.onLine cfg text).history = s.history ++ [.read s.lines text] ∧ (s.onLine cfg text).lines = s.lines + 1 := by
  unfold Connection.onLine
  split <;> exact ⟨rfl, rfl⟩

theorem history_onDispatch (s : Connection) (n : Nat) (r : JsonRpcResponse) :
    (s.onDispatch n r).history = s.history ++ [.dispatched n r] ∧ (s.onDispatch n r).lines = s.lines := by
  cases hp : s.pending r.id with
  | none =>
    rw [onDispatch_none hp]
    exact ⟨rfl, rfl⟩
  | some c =>
    rw [onDispatch_some hp]
    exact ⟨rfl, rfl⟩

/-- Every line up to the last was read, and the response on it is looked up, or
about to be. -/
structure ReaderInv (cfg : ConnectionConfig) (s : Connection) : Prop where
  all_read (n : Nat) : n < s.lines → ∃ text, .read n text ∈ s.history
  handled (n : Nat) (text : String) (r : JsonRpcResponse) : .read n text ∈ s.history →
    Connection.responseOf cfg text = some r → s.reader = .holding n r ∨ .dispatched n r ∈ s.history

theorem readerInv_init (now : Nat) : ReaderInv cfg (.init now) where
  all_read n h := absurd h (Nat.not_lt_zero n)
  handled n text r h := by cases h

theorem readerInv_step (hi : ReaderInv cfg s) (h : ReaderSteps cfg s a s') : ReaderInv cfg s' := by
  cases h with
  | same x _ hr hl hh hx =>
    have hmem {y : ConnectionEntry} (hy : y ∈ s.history) : y ∈ s'.history := hh ▸ List.mem_append_left _ hy
    refine ⟨fun n hn => ?_, fun n text r hm hresp => ?_⟩
    · obtain ⟨text, hm⟩ := hi.all_read n (hl ▸ hn)
      exact ⟨text, hmem hm⟩
    · rw [hh, List.mem_append, Option.mem_toList] at hm
      rw [hr]
      exact (hi.handled n text r (hm.resolve_right (hx n text)) hresp).imp_right hmem
  | line text _ hr hs =>
    subst hs
    obtain ⟨hh, hl⟩ := @history_onLine cfg s text
    refine ⟨fun n hn => ?_, fun n text' r hm hresp => ?_⟩
    · rw [hl] at hn
      rw [hh]
      rcases Nat.lt_succ_iff_lt_or_eq.mp hn with hn | rfl
      · obtain ⟨text', hm⟩ := hi.all_read n hn
        exact ⟨text', List.mem_append_left _ hm⟩
      · exact ⟨text, List.mem_append_right _ (List.mem_singleton_self _)⟩
    · rw [hh, List.mem_append, List.mem_singleton] at hm
      rcases hm with hm | hm
      · -- The reader was at the next line, so it held nothing.
        refine .inr ?_
        rw [hh]
        refine List.mem_append_left _ ((hi.handled n text' r hm hresp).resolve_left fun hold => ?_)
        cases hr.symm.trans hold
      · cases hm
        refine .inl ?_
        simp only [Connection.onLine, hresp]
  | dispatch n r _ hr hs =>
    subst hs
    obtain ⟨hh, hl⟩ := history_onDispatch s n r
    refine ⟨fun n' hn => ?_, fun n' text r' hm hresp => .inr ?_⟩
    · obtain ⟨text, hm⟩ := hi.all_read n' (hl ▸ hn)
      exact ⟨text, hh ▸ List.mem_append_left _ hm⟩
    · rw [hh, List.mem_append, List.mem_singleton] at hm
      rw [hh]
      rcases hi.handled n' text r' (hm.resolve_right nofun) hresp with hold | hd
      · cases hr.symm.trans hold
        exact List.mem_append_right _ (List.mem_singleton_self _)
      · exact List.mem_append_left _ hd
  | exit _ hr hs =>
    subst hs
    refine ⟨hi.all_read, fun n text r hm hresp => .inr ((hi.handled n text r hm hresp).resolve_left fun hold => ?_)⟩
    cases hr.symm.trans hold

/-- A line is read only as the next one. -/
theorem ReaderSteps.read (h : ReaderSteps cfg s a s') {n : Nat} {text : String} (hm : .read n text ∈ s'.history) :
    .read n text ∈ s.history ∨ (a = .line text ∧ n = s.lines) := by
  cases h with
  | same x _ _ _ hh hx =>
    rw [hh, List.mem_append, Option.mem_toList] at hm
    exact .inl (hm.resolve_right (hx n text))
  | line text' ha _ hs =>
    rw [hs, (history_onLine s text').1, List.mem_append, List.mem_singleton] at hm
    refine hm.imp_right fun he => ?_
    cases he
    exact ⟨ha, rfl⟩
  | dispatch n' r _ _ hs =>
    rw [hs, (history_onDispatch s n' r).1, List.mem_append, List.mem_singleton] at hm
    exact .inl (hm.resolve_right nofun)
  | exit _ _ hs =>
    rw [hs] at hm
    exact .inl hm

end WalaStack.Proof.Mcp.Dialogue
