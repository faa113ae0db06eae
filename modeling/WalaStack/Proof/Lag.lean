import WalaStack.Spec.Lag

/-!
# Health under lag

What the loop reads of a channel covers what was sent to it (`LoopInv`), and a
total counts the events read of its channel (`total_foldl`). A loop whose
receivers keep up is simulated by the one that never lags: what a receiver of the
latter has not read is the rest of the channel's log (`Simulates`).
-/

namespace WalaStack.Proof.Health

open WalaStack.Rust WalaStack.Transition WalaStack.Channels WalaStack.Broadcast WalaStack.Impl.Observability
  WalaStack.Spec.Health

variable {size capacity : Nat} {l l' : ObservabilityLoop} {o : Observer} {a : ObserverAction}

/-! ## Totals -/

/-- An event adds to the total of its channel. -/
theorem total_observe (st : ObservabilityState) (e : Observed) (k : Channel) :
    total? (st.observe e).counts k = if e.channel = k then (total? st.counts k).map incr else total? st.counts k := by
  match e with
  | .service (.started _ _) | .service (.stopped _) | .service (.failed _ _ _ _)
  | .runtime .started | .runtime .stopping | .runtime .stopped
  | .task (.fired _ _) | .task (.completed _ _) | .task (.failed _ _ _) | .task (.retrying _ _ _) =>
    cases k <;> simp [Observed.channel, ObservabilityState.observe, ObservabilityState.apply,
      ObservabilityState.onServiceStarted, ObservabilityState.onServiceStopped, ObservabilityState.onServiceFailed,
      ObservabilityState.setPhase, ObservabilityState.onTask, total?]

theorem total_foldl (k : Channel) (cs : List Observed) {st : ObservabilityState} {n : Nat}
    (h : total? st.counts k = some n) (hn : n ≤ u64Max) :
    total? (cs.foldl .observe st).counts k = some (min (n + (cs.filter fun e => e.channel = k).length) u64Max) := by
  induction cs generalizing st n with
  | nil => simpa [hn] using h
  | cons e cs ih =>
    have hstep := total_observe st e k
    rw [h] at hstep
    rw [List.foldl_cons]
    by_cases he : e.channel = k
    · rw [if_pos he] at hstep
      rw [ih hstep (Nat.min_le_right _ _), List.filter_cons_of_pos (by simpa using he), List.length_cons]
      simp only [incr, Option.some.injEq]
      omega
    · rw [if_neg he] at hstep
      rw [ih hstep hn, List.filter_cons_of_neg (by simpa using he)]

theorem total_none {k : Channel} (cs : List Observed) {st : ObservabilityState} (h : total? st.counts k = none) :
    total? (cs.foldl .observe st).counts k = none := by
  cases k with
  | runtime => rfl
  | _ => cases h

/-! ## Coverage -/

structure LoopInv (l : ObservabilityLoop) : Prop where
  filed : ∀ k, ∀ e ∈ l.sent k, e.channel = k
  covers : ∀ k, Covers (l.sent k) 0 (l.reads k) (l.next k)
  applied : ∃ cs : List Observed, l.state = cs.foldl .observe .default ∧
    ∀ k, cs.filter (fun e => e.channel = k) = events (l.reads k)

theorem loopInv_init : LoopInv .init where
  filed _ _ h := absurd h List.not_mem_nil
  covers _ := .nil
  applied := ⟨[], rfl, fun _ => rfl⟩

theorem loopInv_publish (hi : LoopInv l) (e : Observed) : LoopInv (l.publish e) := by
  refine ⟨fun k x hx => ?_, fun k => ?_, hi.applied⟩
  · by_cases hk : k = e.channel
    · subst hk
      simp only [ObservabilityLoop.publish, Function.update_self, List.mem_append, List.mem_singleton] at hx
      rcases hx with hx | rfl
      · exact hi.filed _ x hx
      · rfl
    · simp only [ObservabilityLoop.publish, Function.update_of_ne hk] at hx
      exact hi.filed k x hx
  · by_cases hk : k = e.channel
    · subst hk
      simp only [ObservabilityLoop.publish, Function.update_self]
      exact (hi.covers _).append [e]
    · simp only [ObservabilityLoop.publish, Function.update_of_ne hk]
      exact hi.covers k

/-- What an event read adds to what was applied. -/
theorem applied_onRead (hi : LoopInv l) {k : Channel} {r : Read Observed} {next : Nat}
    (hr : read size (l.sent k) (l.next k) = some (r, next)) :
    ∃ cs : List Observed, (l.onRead k r next).state = cs.foldl .observe .default ∧
      ∀ k', cs.filter (fun e => e.channel = k') = events ((l.onRead k r next).reads k') := by
  obtain ⟨cs, hstate, hcs⟩ := hi.applied
  cases r with
  | event e =>
    have hek := hi.filed k e (mem_of_read hr)
    refine ⟨cs ++ [e], by rw [List.foldl_append, ← hstate]; rfl, fun k' => ?_⟩
    rw [List.filter_append, hcs]
    by_cases hk : k' = k
    · subst hk
      simp [ObservabilityLoop.onRead, hek]
    · simp [ObservabilityLoop.onRead, Function.update_of_ne hk, hek, Ne.symm hk]
  | lagged n =>
    refine ⟨cs, hstate, fun k' => ?_⟩
    rw [hcs]
    by_cases hk : k' = k
    · subst hk
      simp [ObservabilityLoop.onRead]
    · simp [ObservabilityLoop.onRead, Function.update_of_ne hk]

theorem loopInv_onRead (hi : LoopInv l) {k : Channel} {r : Read Observed} {next : Nat}
    (hr : read size (l.sent k) (l.next k) = some (r, next)) : LoopInv (l.onRead k r next) := by
  refine ⟨hi.filed, fun k' => ?_, applied_onRead hi hr⟩
  by_cases hk : k' = k
  · subst hk
    simp only [ObservabilityLoop.onRead, Function.update_self]
    exact (hi.covers _).read hr
  · simp only [ObservabilityLoop.onRead, Function.update_of_ne hk]
    exact hi.covers k'

/-- What a step does. -/
inductive LoopSteps (size : Nat) (l : ObservabilityLoop) : ObserverAction → ObservabilityLoop → Prop
  | published (e : Observed) : LoopSteps size l (.publish e) (l.publish e)
  | read {k : Channel} {r : Read Observed} {next : Nat} : l.running = true →
      read size (l.sent k) (l.next k) = some (r, next) → LoopSteps size l (.recv k) (l.onRead k r next)
  | ended : l.running = true → LoopSteps size l .shutdown { l with running := false }

theorem loopSteps_of_step (h : l.step size a = some l') : LoopSteps size l a l' := by
  cases a with
  | publish e =>
    obtain rfl := Option.some.inj h
    exact .published e
  | recv k =>
    simp only [ObservabilityLoop.step] at h
    split at h
    · rename_i hrun
      obtain ⟨⟨r, next⟩, hr, rfl⟩ := Option.map_eq_some_iff.mp h
      exact .read hrun hr
    · cases h
  | shutdown =>
    simp only [ObservabilityLoop.step] at h
    split at h
    · rename_i hrun
      obtain rfl := Option.some.inj h
      exact .ended hrun
    · cases h

theorem loopInv_step (hi : LoopInv l) (h : LoopSteps size l a l') : LoopInv l' := by
  cases h with
  | published e => exact loopInv_publish hi e
  | read _ hr => exact loopInv_onRead hi hr
  | ended => exact ⟨hi.filed, hi.covers, hi.applied⟩

theorem totals_of_inv (hi : LoopInv l) {k : Channel} {n : Nat} (h : total? l.state.counts k = some n) :
    n = min (l.next k - missed (l.reads k)) u64Max := by
  obtain ⟨cs, hstate, hcs⟩ := hi.applied
  have hlen := (hi.covers k).length_add_missed
  have hread : (events (l.reads k)).length = l.next k - missed (l.reads k) := by omega
  rw [← hread, ← hcs k]
  rw [hstate] at h
  cases hzero : total? EventCounts.default k with
  | none => cases (total_none cs hzero).symm.trans h
  | some z =>
    obtain rfl : z = 0 := by
      cases k with
      | runtime => cases hzero
      | _ => exact (Option.some.inj hzero).symm
    have htotal := @total_foldl k cs .default 0 hzero (Nat.zero_le _)
    rw [Nat.zero_add] at htotal
    exact Option.some.inj (h.symm.trans htotal)

/-! ## The loop that never lags -/

/-- The states of the two loops. -/
structure Simulates (o : Observer) (l : ObservabilityLoop) : Prop where
  running : o.running = l.running
  state : o.receivers.state = l.state
  unread : ∀ k, o.receivers.unread k = (l.sent k).drop (l.next k)

theorem simulates_publish (hi : LoopInv l) (hs : Simulates o l) (e : Observed) :
    Simulates { o with receivers := o.receivers.push Observed.channel e } (l.publish e) := by
  refine ⟨hs.running, hs.state, fun k => ?_⟩
  have hle : l.next k ≤ (l.sent k).length := (hi.covers k).le_length (Nat.zero_le _)
  show (o.receivers.push Observed.channel e).unread k = _
  rw [Reader.unread_push, hs.unread k]
  by_cases hk : k = e.channel
  · subst hk
    simp [ObservabilityLoop.publish, List.drop_append_of_le_length hle]
  · simp [ObservabilityLoop.publish, Function.update_of_ne hk, Ne.symm hk]

/-- A receiver that keeps up takes the event that comes next. -/
theorem simulates_read (hs : Simulates o l) (hcap : capacity ≤ size) {k : Channel} {r : Read Observed} {next : Nat}
    (hup : (l.sent k).length ≤ l.next k + capacity) (hr : read size (l.sent k) (l.next k) = some (r, next)) :
    ∃ rs, o.receivers.step Observed.channel .observe (.recv k) = some rs ∧
      Simulates { o with receivers := rs } (l.onRead k r next) := by
  obtain ⟨e, rfl, he, rfl⟩ := not_lagged_of_le (Nat.le_trans hup (Nat.add_le_add_left hcap _)) hr
  obtain ⟨hlt, rfl⟩ := List.getElem?_eq_some_iff.mp he
  have hunread : o.receivers.unread k = (l.sent k)[l.next k] :: (l.sent k).drop (l.next k + 1) := by
    rw [hs.unread k, List.drop_eq_getElem_cons hlt]
  refine ⟨⟨Function.update o.receivers.unread k ((l.sent k).drop (l.next k + 1)), o.receivers.state.observe (l.sent k)[l.next k]⟩,
    by simp only [Reader.step, hunread], hs.running, ?_, fun k' => ?_⟩
  · simp only [ObservabilityLoop.onRead, hs.state]
  · by_cases hk : k' = k
    · subst hk
      simp [ObservabilityLoop.onRead]
    · simp [ObservabilityLoop.onRead, Function.update_of_ne hk, hs.unread k']

theorem simulates_step (hi : LoopInv l) (hs : Simulates o l) (hcap : capacity ≤ size) (hup : LoopKeepsUp capacity l a)
    (h : LoopSteps size l a l') : ∃ o', o.step a = some o' ∧ Simulates o' l' := by
  cases h with
  | published e => exact ⟨_, rfl, simulates_publish hi hs e⟩
  | read hrun hr =>
    obtain ⟨rs, hrs, hsim⟩ := simulates_read hs hcap hup hr
    exact ⟨{ o with receivers := rs }, by simp only [Observer.step, hs.running, hrun, if_true, hrs, Option.map_some], hsim⟩
  | ended hrun =>
    exact ⟨{ o with running := false }, by simp only [Observer.step, hs.running, hrun, if_true], rfl, hs.state, hs.unread⟩

theorem exec_simulates (hcap : capacity ≤ size) {as : List ObserverAction} (hi : LoopInv l) (hs : Simulates o l)
    (hup : AlongSteps (ObservabilityLoop.step size) (LoopKeepsUp capacity) l as)
    (h : exec (ObservabilityLoop.step size) l as = some l') :
    ∃ o', exec Observer.step o as = some o' ∧ Simulates o' l' := by
  induction as generalizing l o with
  | nil =>
    cases h
    exact ⟨o, rfl, hs⟩
  | cons a as ih =>
    rw [exec_cons, Option.bind_eq_some_iff] at h
    obtain ⟨l₁, h₁, h₂⟩ := h
    have hstep := loopSteps_of_step h₁
    obtain ⟨o₁, ho₁, hs₁⟩ := simulates_step hi hs hcap hup.1 hstep
    obtain ⟨o', ho', hs'⟩ := ih (loopInv_step hi hstep) hs₁ (hup.2 l₁ h₁) h₂
    exact ⟨o', by rw [exec_cons_of ho₁, ho'], hs'⟩

/-- On channels that retain as much as their capacity: whatever is published, and
whichever branches the loop takes, what it applies is what was published but for
the gaps reported to it; where its receivers keep up with the capacity there are
none, and the loop is the one that never lags. -/
theorem observes_published (hcap : capacity ≤ size) {as : List ObserverAction}
    (h : exec (ObservabilityLoop.step size) .init as = some l) : Observes l ∧
      (AlongSteps (ObservabilityLoop.step size) (LoopKeepsUp capacity) .init as → AsLossless as l) := by
  have hi : LoopInv l := exec_invariant (fun hi hs => loopInv_step hi (loopSteps_of_step hs)) loopInv_init h
  refine ⟨⟨hi.covers, hi.applied, fun k n hn => totals_of_inv hi hn⟩, fun hup => ?_⟩
  have hsim : Simulates .init .init := ⟨rfl, rfl, fun _ => rfl⟩
  obtain ⟨o, ho, hs⟩ := exec_simulates hcap loopInv_init hsim hup h
  exact ⟨o, ho, hs.running, hs.state, hs.unread⟩

/-- Three fires on a channel of two slots, before the first is read. -/
def threeFires : List ObserverAction :=
  [.publish (.task (.fired 1 1)), .publish (.task (.fired 1 2)), .publish (.task (.fired 1 3)), .recv .taskFired,
    .recv .taskFired, .recv .taskFired]

theorem observes_published_threeFires : ∃ l, exec (ObservabilityLoop.step 2) .init threeFires = some l ∧
    l.state.counts.tasksFired = 2 ∧ missed (l.reads .taskFired) = 1 ∧ Observes l ∧
      (AlongSteps (ObservabilityLoop.step 2) (LoopKeepsUp 2) .init threeFires → AsLossless threeFires l) := by
  obtain ⟨l, hrun, hfired, hmissed⟩ : ∃ l, exec (ObservabilityLoop.step 2) .init threeFires = some l ∧
      l.state.counts.tasksFired = 2 ∧ missed (l.reads .taskFired) = 1 := ⟨_, rfl, rfl, rfl⟩
  exact ⟨l, hrun, hfired, hmissed, observes_published (Nat.le_refl 2) hrun⟩

end WalaStack.Proof.Health
