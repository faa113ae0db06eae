import WalaStack.Framework.Log
import WalaStack.Framework.Parties
import WalaStack.Spec.Shutdown

/-!
# What shutting down publishes

`ShutdownInv` counts the calls of `EventBus::shutdown` by where they are: the
watch is set by those that have passed it, and each `RuntimeStopping` in the
log belongs to one that has returned. So there are as many of these as calls
that read `false`, and `Once` is that there is at most one such call.
`once_step` is what a step does to it.
-/

namespace WalaStack.Proof.Runtime

open WalaStack.Impl.Runtime WalaStack.Spec.Runtime WalaStack.Transition WalaStack.Parties

variable {s s' : Shutdown} {a : ShutdownAction} {i : Nat}

/-! ## Steps -/

theorem advance_eq_some {c c' : BusCall} :
    s.advance i c c' = some s' ↔ s.calls[i]? = some c ∧ s' = { s with calls := s.calls.set i c' } := by
  unfold Shutdown.advance
  split
  · rename_i h
    simp [h, eq_comm]
  · rename_i h
    simp [h]

theorem proceed_eq_some {g g' : GracefulCall} :
    s.proceed g g' = some s' ↔ s.graceful = g ∧ s' = { s with graceful := g' } := by
  unfold Shutdown.proceed
  split
  · rename_i h
    simp [h, eq_comm]
  · rename_i h
    simp [h]

/-- What a step does. -/
inductive ShutdownSteps (s : Shutdown) : ShutdownAction → Shutdown → Prop
  | call : ShutdownSteps s .call s.call
  | skipped {i : Nat} : s.calls[i]? = some .reading → s.down = true →
    ShutdownSteps s (.read i) { s with calls := s.calls.set i .skipped }
  | passed {i : Nat} : s.calls[i]? = some .reading → s.down = false →
    ShutdownSteps s (.read i) { s with calls := s.calls.set i .setting }
  | set {i : Nat} : s.calls[i]? = some .setting →
    ShutdownSteps s (.set i) { s with calls := s.calls.set i .publishing, down := true }
  | publish {i : Nat} : s.calls[i]? = some .publishing →
    ShutdownSteps s (.publish i) { s with calls := s.calls.set i .published, log := s.log ++ [.stopping] }
  | gracefully : s.graceful = .idle → ShutdownSteps s .gracefully { s with graceful := .checking }
  | checkedDown : s.graceful = .checking → s.down = true →
    ShutdownSteps s .check { s with graceful := .draining }
  | checkedUp : s.graceful = .checking → s.down = false →
    ShutdownSteps s .check { s.call with graceful := .signalling s.calls.length }
  | signalled {i : Nat} {c : BusCall} : s.graceful = .signalling i → s.calls[i]? = some c → c.returned = true →
    ShutdownSteps s .signalled { s with graceful := .draining }
  | drained : s.graceful = .draining → ShutdownSteps s .drained { s with graceful := .stopping }
  | dropped : s.graceful = .draining → ShutdownSteps s .drop { s with graceful := .idle }
  | stop : s.graceful = .stopping →
    ShutdownSteps s .stop { s with graceful := .idle, returned := s.returned + 1, log := s.log ++ [.stopped] }

theorem shutdownSteps_of_step (h : s.step a = some s') : ShutdownSteps s a s' := by
  cases a with
  | call =>
    cases h
    exact .call
  | read i =>
    simp only [Shutdown.step] at h
    split at h
    · rename_i hd
      obtain ⟨hc, rfl⟩ := advance_eq_some.mp h
      exact .skipped hc hd
    · rename_i hd
      obtain ⟨hc, rfl⟩ := advance_eq_some.mp h
      exact .passed hc (Bool.eq_false_iff.mpr hd)
  | set i =>
    obtain ⟨_, hs, rfl⟩ := Option.map_eq_some_iff.mp h
    obtain ⟨hc, rfl⟩ := advance_eq_some.mp hs
    exact .set hc
  | publish i =>
    obtain ⟨_, hs, rfl⟩ := Option.map_eq_some_iff.mp h
    obtain ⟨hc, rfl⟩ := advance_eq_some.mp hs
    exact .publish hc
  | gracefully =>
    obtain ⟨hg, rfl⟩ := proceed_eq_some.mp h
    exact .gracefully hg
  | check =>
    simp only [Shutdown.step] at h
    split at h
    · rename_i hd
      obtain ⟨hg, rfl⟩ := proceed_eq_some.mp h
      exact .checkedDown hg hd
    · rename_i hd
      obtain ⟨_, hs, rfl⟩ := Option.map_eq_some_iff.mp h
      obtain ⟨hg, rfl⟩ := proceed_eq_some.mp hs
      exact .checkedUp hg (Bool.eq_false_iff.mpr hd)
  | signalled =>
    simp only [Shutdown.step] at h
    split at h
    · rename_i i hg
      split at h
      · rename_i hr
        cases h
        cases hc : s.calls[i]? with
        | none => simp [hc] at hr
        | some c => exact .signalled hg hc (by simpa [hc] using hr)
      · cases h
    · cases h
  | drained =>
    obtain ⟨hg, rfl⟩ := proceed_eq_some.mp h
    exact .drained hg
  | drop =>
    obtain ⟨hg, rfl⟩ := proceed_eq_some.mp h
    exact .dropped hg
  | stop =>
    obtain ⟨_, hs, rfl⟩ := Option.map_eq_some_iff.mp h
    obtain ⟨hg, rfl⟩ := proceed_eq_some.mp hs
    exact .stop hg

theorem returned_of_step (h : s.step a = some s') :
    s'.returned = s.returned + if a = .stop then 1 else 0 := by
  cases shutdownSteps_of_step h <;> rfl

/-! ## The calls, counted -/

/-- The watch is set by the calls that are past it, and what is in the log was
published by those that returned. -/
structure ShutdownInv (s : Shutdown) : Prop where
  down : s.down = true ↔ 0 < s.calls.count .publishing + s.calls.count .published
  skipped : 0 < s.calls.count .skipped → s.down = true
  stopping : s.log.count .stopping = s.calls.count .published
  stopped : s.log.count .stopped = s.returned
  /-- `shutdown_gracefully` goes on when the watch is set. -/
  signalled : s.graceful = .draining ∨ s.graceful = .stopping → s.down = true

theorem shutdownInv_new : ShutdownInv .new where
  down := by decide
  skipped h := by cases h
  stopping := rfl
  stopped := rfl
  signalled h := by rcases h with h | h <;> cases h

theorem shutdownInv_step (hi : ShutdownInv s) (h : ShutdownSteps s a s') : ShutdownInv s' := by
  obtain ⟨hdown, hskip, hlog, hret, hsig⟩ := hi
  cases h with
  | skipped hc | passed hc | set hc | publish hc => constructor <;> grind [count_set_add hc]
  | call | checkedUp => constructor <;> simp_all [Shutdown.call]
  | @signalled _ c hg hc hr =>
    -- the call set the watch, or read that it is set
    refine ⟨hdown, hskip, hlog, hret, fun _ => ?_⟩
    have hpos := count_pos_of_getElem? hc
    cases c with
    | published => exact hdown.mpr (by omega)
    | skipped => exact hskip hpos
    | reading | setting | publishing => cases hr
  | gracefully | checkedDown | drained | dropped | stop => constructor <;> grind

/-! ## One call that passes -/

/-- At most one call read `false`, and what was published after it is in
order. -/
structure Once (s : Shutdown) : Prop where
  passed : s.calls.count .setting + s.calls.count .publishing + s.calls.count .published ≤ 1
  stopped : s.log.count .stopped ≤ 1
  stoppingFirst : ∀ pre post, s.log = pre ++ .stopped :: post → .stopping ∈ pre

theorem once_new : Once .new where
  passed := by decide
  stopped := by decide
  stoppingFirst pre post h := by
    have hlen := congrArg List.length h
    simp [Shutdown.new] at hlen

/-- `RuntimeStopped` in the log, before and after one more entry. -/
theorem stoppingFirst_concat {h : List ShutdownEvent} {e : ShutdownEvent} :
    (∀ pre post, h ++ [e] = pre ++ .stopped :: post → .stopping ∈ pre) ↔
      (∀ pre post, h = pre ++ .stopped :: post → .stopping ∈ pre) ∧ (e = .stopped → .stopping ∈ h) :=
  Log.forall_before_concat

/-- With one call that passed, `RuntimeStopping` is published when no call is
about to publish it. -/
theorem stopping_mem_iff (hi : ShutdownInv s) (ho : Once s) (hd : s.down = true) :
    .stopping ∈ s.log ↔ .publishing ∉ s.calls := by
  have hpos := hi.down.mp hd
  have hle := ho.passed
  have hlog := hi.stopping
  rw [← List.count_pos_iff, ← List.count_eq_zero]
  omega

theorem once_step (hi : ShutdownInv s) (ho : Once s) (h : ShutdownSteps s a s') :
    Once s' ↔ OneAtATime s a := by
  cases h with
  | skipped hc hd =>
    refine iff_of_true ⟨?_, ho.stopped, ho.stoppingFirst⟩ fun hf => by rw [hd] at hf; cases hf
    have hle := ho.passed
    grind [count_set_add hc]
  | passed hc hd =>
    have hnone : s.calls.count .publishing + s.calls.count .published = 0 := by
      have hzero : ¬ 0 < s.calls.count .publishing + s.calls.count .published := by
        rw [← hi.down, hd]
        exact Bool.false_ne_true
      omega
    have h₁ := count_set_add hc .setting .setting
    have h₂ := count_set_add hc .setting .publishing
    have h₃ := count_set_add hc .setting .published
    simp only [reduceCtorEq, if_false, if_true, Nat.add_zero] at h₁ h₂ h₃
    constructor
    · intro ho' _
      have hle := ho'.passed
      rw [← List.count_eq_zero]
      simp only [h₁] at hle
      omega
    · intro hok
      have hzero := List.count_eq_zero.mpr (hok hd)
      refine ⟨?_, ho.stopped, ho.stoppingFirst⟩
      simp only [h₁, h₂, h₃]
      omega
  | set hc =>
    refine iff_of_true ⟨?_, ho.stopped, ho.stoppingFirst⟩ trivial
    have hle := ho.passed
    grind [count_set_add hc]
  | publish hc =>
    refine iff_of_true ⟨?_, ?_, ?_⟩ trivial
    · have hle := ho.passed
      grind [count_set_add hc]
    · simpa using ho.stopped
    · exact stoppingFirst_concat.mpr ⟨ho.stoppingFirst, nofun⟩
  | stop hg =>
    have hcount : (s.log ++ [ShutdownEvent.stopped]).count .stopped = s.returned + 1 := by
      rw [List.count_append, hi.stopped]
      rfl
    have hmem := stopping_mem_iff hi ho (hi.signalled (.inr hg))
    constructor
    · intro ho'
      have hle := hcount ▸ ho'.stopped
      exact ⟨by omega, hmem.mp ((stoppingFirst_concat.mp ho'.stoppingFirst).2 rfl)⟩
    · intro ⟨hr, hp⟩
      refine ⟨ho.passed, ?_, stoppingFirst_concat.mpr ⟨ho.stoppingFirst, fun _ => hmem.mpr hp⟩⟩
      rw [hcount]
      omega
  | call | checkedUp =>
    refine iff_of_true ⟨?_, ho.stopped, ho.stoppingFirst⟩ trivial
    simpa [Shutdown.call] using ho.passed
  | gracefully | checkedDown | signalled | drained | dropped =>
    exact iff_of_true ⟨ho.passed, ho.stopped, ho.stoppingFirst⟩ trivial

/-! ## Runs -/

variable {as : List ShutdownAction}

/-- A step mends nothing. -/
theorem once_of_step (h : ShutdownSteps s a s') (ho : Once s') : Once s := by
  obtain ⟨hpass, hstop, hfirst⟩ := ho
  cases h with
  | skipped hc | passed hc | set hc => exact ⟨by grind [count_set_add hc], hstop, hfirst⟩
  | publish hc =>
    exact ⟨by grind [count_set_add hc], by simpa using hstop, (stoppingFirst_concat.mp hfirst).1⟩
  | stop => exact ⟨hpass, by grind, (stoppingFirst_concat.mp hfirst).1⟩
  | call | checkedUp => exact ⟨by simpa [Shutdown.call] using hpass, hstop, hfirst⟩
  | gracefully | checkedDown | signalled | drained | dropped => exact ⟨hpass, hstop, hfirst⟩

/-- What the listeners see, when at most one call passed. -/
theorem announcedOnce_of_once (hi : ShutdownInv s) (ho : Once s) : AnnouncedOnce s where
  stoppingOnce := by
    have hle := ho.passed
    rw [hi.stopping]
    omega
  announced hne hret := by
    obtain ⟨c, hc⟩ := List.exists_mem_of_ne_nil _ hne
    have hpos : 0 < s.calls.count c := List.count_pos_iff.mpr hc
    have hnone : s.calls.count .publishing = 0 := List.count_eq_zero.mpr fun hm => by cases hret _ hm
    have hdown : s.down = true := by
      cases c with
      | published => exact hi.down.mpr (by omega)
      | skipped => exact hi.skipped hpos
      | reading | setting | publishing => cases hret _ hc
    have hset := hi.down.mp hdown
    rw [← List.count_pos_iff, hi.stopping]
    omega
  stoppedOnce := ho.stopped
  stoppingFirst := ho.stoppingFirst

/-- When the calls have returned, each that passed has published. -/
theorem once_of_announcedOnce (hi : ShutdownInv s) (hs : Settled s) (ha : AnnouncedOnce s) : Once s where
  passed := by
    have hle := ha.stoppingOnce
    have h₁ : s.calls.count .setting = 0 := List.count_eq_zero.mpr fun hm => by cases hs.calls _ hm
    have h₂ : s.calls.count .publishing = 0 := List.count_eq_zero.mpr fun hm => by cases hs.calls _ hm
    rw [hi.stopping] at hle
    omega
  stopped := ha.stoppedOnce
  stoppingFirst := ha.stoppingFirst

/-- In a run whose steps all meet `OneAtATime`, the shutdown is announced once
in every state; and a run in which it is, with no call under way at its end, is
such a run. -/
theorem announced_once_iff (h : exec Shutdown.step .new as = some s) :
    (AlongSteps Shutdown.step OneAtATime .new as → AlongStates Shutdown.step AnnouncedOnce .new as) ∧
      (Settled s → (AnnouncedOnce s ↔ AlongSteps Shutdown.step OneAtATime .new as)) := by
  have hkeep : ∀ {s a s'}, ShutdownInv s → Shutdown.step s a = some s' → ShutdownInv s' :=
    fun hi hs => shutdownInv_step hi (shutdownSteps_of_step hs)
  have hsteps : AlongStates Shutdown.step Once .new as ↔ AlongSteps Shutdown.step OneAtATime .new as :=
    alongStates_iff_alongSteps hkeep (fun hi ho hs => once_step hi ho (shutdownSteps_of_step hs))
      shutdownInv_new once_new h
  refine ⟨fun hok => (hsteps.mpr hok).imp hkeep announcedOnce_of_once shutdownInv_new, fun hset => ?_⟩
  have hi : ShutdownInv s := exec_invariant hkeep shutdownInv_new h
  have hlast : AlongStates Shutdown.step Once .new as ↔ Once s :=
    alongStates_iff_last (fun hs => once_of_step (shutdownSteps_of_step hs)) h
  rw [← hsteps, hlast]
  exact ⟨once_of_announcedOnce hi hset, announcedOnce_of_once hi⟩

/-! ## Two calls that read `false` -/

/-- Two calls on clones of the bus read the watch before either sets it. -/
theorem stopping_twice :
    ¬ ∀ as s, exec Shutdown.step .new as = some s → AnnouncedOnce s := by
  intro h
  have honce := (h [.call, .call, .read 0, .read 1, .set 0, .publish 0, .set 1, .publish 1] _ rfl).stoppingOnce
  exact absurd honce (by decide)

/-- Of two calls of which the second reads the watch after the first set it,
the first announces the shutdown. -/
theorem announced_once_second_skips :
    AlongStates Shutdown.step AnnouncedOnce .new [.call, .call, .read 0, .set 0, .read 1, .publish 0] :=
  (announced_once_iff rfl).1 (by decide)

end WalaStack.Proof.Runtime
