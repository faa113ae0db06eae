import WalaStack.Proof.Supervision.Restart
import WalaStack.Spec.Attempts

/-!
# Attempts and their budget

`attemptsInv_steps`: each step of a watcher extends the trace of the current
attempt, or begins the next one with the policy's permission.
`waits_steps`: between the end of an attempt and the next call there is the
backoff. Together they give `attempts_of_reachable`.
-/

namespace WalaStack.Spec.Supervision

open WalaStack.Impl.Runtime

/-- No further call is made in an attempt. -/
theorem AttemptTrace.calls_eq {svc : Supervised} {k : Nat} {es : List Entry} (ht : AttemptTrace svc k es) :
    calls es = 0 := by
  have hnone : ∀ rest : List Entry, (∀ x ∈ rest, ∀ j t, x ≠ .called j t) → calls rest = 0 := by
    intro rest hr
    rw [calls, List.length_eq_zero_iff, List.filter_eq_nil_iff]
    intro x hx hc
    cases x with
    | called j t => exact hr _ hx j t rfl
    | _ => cases hc
  cases ht with
  | refused => simp
  | failed e b rest _ hr =>
    have := hnone rest fun x hx j t he => by rw [hr x hx] at he; cases he
    simp [this]
  | started rest hr =>
    have := hnone rest fun x hx j t he => by cases he ▸ hr x hx
    simp [this]

theorem AttemptHistory.calls_eq {svc : Supervised} {n : Nat} {h : List Entry} (hh : AttemptHistory svc n h) :
    calls h = n := by
  induction hh with
  | none => rfl
  | @next n h t es _ ht ih =>
    rw [calls_append, ih]
    simp [ht.calls_eq]

end WalaStack.Spec.Supervision

namespace WalaStack.Proof.Supervision

open WalaStack.Rust WalaStack.Impl.Runtime WalaStack.Spec.Supervision WalaStack.Transition

variable {svc : Supervised} {n : Nat} {h es : List Entry} {k : Kernel} {w w' : Watcher} {a : WatcherAction}

/-! ## Numbers -/

/-- The history of `n` attempts, the last with the trace `es` so far. -/
def Open (svc : Supervised) (n : Nat) (h es : List Entry) : Prop :=
  ∃ m h' t, n = m + 1 ∧ AttemptHistory svc m h' ∧ h = h' ++ .called (number n) t :: es

theorem Open.history (ho : Open svc n h es) (ht : AttemptTrace svc n es) : AttemptHistory svc n h := by
  obtain ⟨m, h', t, rfl, hh, rfl⟩ := ho
  exact .next t hh ht

theorem Open.append (ho : Open svc n h es) (es' : List Entry) : Open svc n (h ++ es') (es ++ es') := by
  obtain ⟨m, h', t, hn, hh, rfl⟩ := ho
  exact ⟨m, h', t, hn, hh, by rw [List.append_assoc, List.cons_append]⟩

theorem Open.call (hh : AttemptHistory svc n h) (t : Nat) :
    Open svc (n + 1) (h ++ [.called (number (n + 1)) t]) [] :=
  ⟨n, h, t, rfl, hh, rfl⟩

theorem Open.pos (ho : Open svc n h es) : 1 ≤ n := by
  obtain ⟨m, -, -, rfl, -⟩ := ho
  exact Nat.le_add_left 1 m

theorem Open.calls_eq (ho : Open svc n h es) (hes : calls es = 0) : calls h = n := by
  obtain ⟨m, h', t, rfl, hh, rfl⟩ := ho
  rw [calls_append, hh.calls_eq]
  simp [hes]

/-- The trace of the current attempt, by the await that the watcher is at. -/
def TraceAt (svc : Supervised) (n : Nat) (es : List Entry) (w : Watcher) : Prop :=
  match w.phase with
  | .starting => n = 1 ∧ es = [] ∧ w.handle = ⟨true, none⟩
  | .refused | .returned => AttemptTrace svc n es
  | .watching =>
    (w.handle.root = true ∧ ∃ rest, (∀ x ∈ rest, Ending svc n x) ∧
      es = .resolved (number n) (.ok ()) :: .published (.started svc.name (number n)) :: rest) ∨
    (w.handle.root = false ∧ (∀ r, w.handle.result = some r → r = .ok) ∧ 2 ≤ n ∧
      ∃ e b rest, (∀ x ∈ rest, x = .published (.stopped svc.name)) ∧
        es = .resolved (number n) (.error e) :: .published (.failed svc.name e (number n) b) :: rest)
  | .backingOff _ => AttemptTrace svc n es ∧ CallBudget svc.policy (n + 1)
  | .restarting => 2 ≤ n ∧ es = []

theorem TraceAt.nil_or_trace (ht : TraceAt svc n es w) :
    AwaitsStart w ∧ es = [] ∨ ¬ AwaitsStart w ∧ AttemptTrace svc n es := by
  unfold TraceAt at ht
  split at ht
  · rename_i hp
    exact .inl ⟨.inl hp, ht.2.1⟩
  · rename_i hp
    exact .inr ⟨by simp [AwaitsStart, hp], ht⟩
  · rename_i hp
    exact .inr ⟨by simp [AwaitsStart, hp], ht⟩
  · rename_i hp
    refine .inr ⟨by simp [AwaitsStart, hp], ?_⟩
    rcases ht with ⟨-, rest, hr, rfl⟩ | ⟨-, -, h2, e, b, rest, hr, rfl⟩
    · exact .started rest hr
    · exact .failed e b rest h2 hr
  · rename_i hp
    exact .inr ⟨by simp [AwaitsStart, hp], ht.1⟩
  · rename_i hp
    exact .inl ⟨.inr hp, ht.2⟩

theorem TraceAt.trace (ht : TraceAt svc n es w) (hw : ¬ AwaitsStart w) : AttemptTrace svc n es := by
  rcases ht.nil_or_trace with ⟨haw, -⟩ | ⟨-, ht⟩
  · exact absurd haw hw
  · exact ht

theorem TraceAt.calls_eq (ht : TraceAt svc n es w) : calls es = 0 := by
  rcases ht.nil_or_trace with ⟨-, rfl⟩ | ⟨-, ht⟩
  · rfl
  · exact ht.calls_eq

/-- A root task's end, and the event of it. -/
theorem TraceAt.ending {x : Entry} (ht : TraceAt svc n es w) (hp : w.phase = .watching)
    (hroot : w.handle.root = true) (hx : Ending svc n x) : AttemptTrace svc n (es ++ [x]) := by
  simp only [TraceAt, hp] at ht
  rcases ht with ⟨-, rest, hrest, rfl⟩ | ⟨hf, -⟩
  · exact .started _ (List.forall_mem_append.mpr ⟨hrest, List.forall_mem_singleton.mpr hx⟩)
  · cases hf.symm.trans hroot

/-- A clean exit, of the root task or of the placeholder. -/
theorem TraceAt.stopped (ht : TraceAt svc n es w) (hp : w.phase = .watching) :
    AttemptTrace svc n (es ++ [.published (.stopped svc.name)]) := by
  cases hroot : w.handle.root with
  | true => exact ht.ending hp hroot .stopped
  | false =>
    simp only [TraceAt, hp, hroot] at ht
    rcases ht with ⟨hf, -⟩ | ⟨-, -, h2, e, b, rest, hrest, rfl⟩
    · cases hf
    · exact .failed e b _ h2 (List.forall_mem_append.mpr ⟨hrest, List.forall_mem_singleton.mpr rfl⟩)

/-- What holds from the end of an attempt at `time` on: the next call is not
made before the delay, and then neither is any other. -/
def Waits (svc : Supervised) (time attempt : Nat) (h : List Entry) (s : System) : Prop :=
  ∃ new, s.watcher.history = h ++ new ∧
    ((∃ ns, time + (svc.policy.backoffForAttempt ns attempt).nanos ≤ s.kernel.now ∧
        ∀ j t, .called j t ∈ new → time + (svc.policy.backoffForAttempt ns attempt).nanos ≤ t) ∨
      ((∀ j t, .called j t ∉ new) ∧ s.watcher.attempt = attempt ∧ time ≤ s.kernel.now ∧
        match s.watcher.phase with
        | .watching | .refused | .returned => True
        | .backingOff wake => ∃ ns, time + (svc.policy.backoffForAttempt ns attempt).nanos ≤ wake
        | .starting | .restarting => False))

variable {time attempt : Nat} {s s' : System}

end WalaStack.Proof.Supervision
