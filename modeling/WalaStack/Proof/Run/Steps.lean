import WalaStack.Proof.Quiescence
import WalaStack.Spec.Run

/-!
# What a step leaves

The calls of `start_service` go on by their own steps, the clock does not go
back, and the log grows (`Later`); a drain goes on to its next handle
(`DrainGoesOn`). `RunSteps` sorts the steps of a run by the phase that they
leave.
-/

namespace WalaStack.Proof.Run

open WalaStack.Rust WalaStack.Impl.Runtime WalaStack.Spec.Runtime WalaStack.Proof.Supervision WalaStack.Proof.Runtime
  WalaStack.Transition

variable {c c' : Child} {k : Kernel} {t t' : SupervisionTree} {b : TreeAction} {rt rt' : Runtime} {a : RuntimeAction}
  {r r' : Run} {i j : Nat}

/-! ## Calls -/

/-- What a call has come to. -/
structure Onward (c c' : Child) : Prop where
  svc : c'.svc = c.svc
  inserted : c.inserted = true → c'.inserted = true
  refusal : ∀ e, c.refusal? = some e → c'.refusal? = some e
  finished : c.finished = true → c'.finished = true

theorem Onward.refl (c : Child) : Onward c c := ⟨rfl, id, fun _ => id, id⟩

theorem Onward.trans {c'' : Child} (h : Onward c c') (h' : Onward c' c'') : Onward c c'' where
  svc := h'.svc.trans h.svc
  inserted hc := h'.inserted (h.inserted hc)
  refusal e hc := h'.refusal e (h.refusal e hc)
  finished hc := h'.finished (h.finished hc)

theorem phase_of_refusal {e : StartError String} (h : c.refusal? = some e) : c.watcher.phase = .refused := by
  unfold Child.refusal? at h
  split at h
  · assumption
  · cases h

theorem onward_of_childSteps (h : ChildSteps k c c') : Onward c c' := by
  cases h with
  | same => exact .refl c
  | aborted => exact ⟨rfl, id, fun _ => id, id⟩
  | cancelled => exact ⟨rfl, id, fun _ => id, fun _ => rfl⟩
  | @watch b w ha hw =>
    refine ⟨rfl, id, fun e he => ?_, fun hf => ?_⟩
    · have hp := phase_of_refusal he
      cases hw <;> simp_all
    · unfold Child.finished at hf ⊢
      cases hw <;> simp_all

theorem onward_inserted (c : Child) : Onward c { c with inserted := true } := ⟨rfl, fun _ => rfl, fun _ => id, id⟩

theorem onward_of_tree (hf : Fresh t) (h : t.step b = some t') {c : Child} (hc : t.calls i = some c) :
    ∃ c', t'.calls i = some c' ∧ Onward c c' := by
  cases tree_step_cases hf h with
  | quiet _ _ hk | emptied _ _ hk =>
    obtain ⟨c', hc', hs⟩ := hk.next i c hc
    exact ⟨c', hc', onward_of_childSteps hs⟩
  | inserted j d hd _ _ he =>
    subst he
    by_cases hij : i = j
    · subst hij
      obtain rfl : d = c := by simpa [hd] using hc
      exact ⟨_, Function.update_self .., onward_inserted d⟩
    · exact ⟨c, (Function.update_of_ne hij ..).trans hc, .refl c⟩

/-! ## The clock and the log -/

theorem now_of_tree (h : t.step b = some t') : t.kernel.now ≤ t'.kernel.now := by
  cases treeMoves_of_step h with
  | tick => exact Nat.le_add_right ..
  | signal | startService | watch | insert | abandon | cancel | drain | joined | elapsed | shutdownNow =>
    exact Nat.le_refl _

/-- What a step of the runtime leaves. -/
structure Later (rt : Runtime) (a : RuntimeAction) (rt' : Runtime) : Prop where
  calls : ∀ i c, rt.tree.calls i = some c → ∃ c', rt'.tree.calls i = some c' ∧ Onward c c'
  now : rt.tree.kernel.now ≤ rt'.tree.kernel.now
  deadline : rt'.shutdownDeadline = rt.shutdownDeadline
  log : ∃ es, rt'.log = rt.log ++ es ∧ (.stopped ∈ es → a = .stopped)

theorem Later.of_eq (ht : rt'.tree = rt.tree) (hd : rt'.shutdownDeadline = rt.shutdownDeadline)
    {es : List RuntimeEntry} (hl : rt'.log = rt.log ++ es) (hs : .stopped ∈ es → a = .stopped) : Later rt a rt' where
  calls i c hc := ⟨c, by rw [ht, hc], .refl c⟩
  now := by rw [ht]
  deadline := hd
  log := ⟨es, hl, hs⟩

theorem later_shutdown (rt : Runtime) : Later rt a rt.shutdown := by
  unfold Runtime.shutdown
  split
  · exact .of_eq rfl rfl (List.append_nil _).symm nofun
  · exact ⟨fun i c hc => ⟨c, hc, .refl c⟩, Nat.le_refl _, rfl, [.stopping], rfl, nofun⟩

/-- The entries of a schedule's task are activities. -/
theorem stopped_not_mem_activities {k : Nat} {es : List TaskEntry} : .stopped ∉ es.filterMap (Runtime.activity? k) := by
  rw [List.mem_filterMap]
  rintro ⟨e, -, he⟩
  unfold Runtime.activity? at he
  split at he <;> cases he

theorem later_of_tree {t : SupervisionTree} (hf : Fresh rt.tree) (h : rt.tree.step b = some t) :
    Later rt a { rt with tree := t } where
  calls _ _ := onward_of_tree hf h
  now := now_of_tree h
  deadline := rfl
  log := ⟨[], (List.append_nil _).symm, nofun⟩

/-- A signal, and what follows it. -/
theorem Later.trans {rt'' : Runtime} (h : Later rt .signal rt') (h' : Later rt' a rt'') : Later rt a rt'' where
  calls i c hc := by
    obtain ⟨c', hc', hon⟩ := h.calls i c hc
    obtain ⟨c'', hc'', hon'⟩ := h'.calls i c' hc'
    exact ⟨c'', hc'', hon.trans hon'⟩
  now := h.now.trans h'.now
  deadline := h'.deadline.trans h.deadline
  log := by
    obtain ⟨es, hl, hs⟩ := h.log
    obtain ⟨es', hl', hs'⟩ := h'.log
    refine ⟨es ++ es', by rw [hl', hl, List.append_assoc], fun hm => ?_⟩
    exact (List.mem_append.mp hm).elim (fun hm => nomatch hs hm) hs'

theorem later_of_step (hf : Fresh rt.tree) (h : rt.step a = some rt') : Later rt a rt' := by
  cases a with
  | setWall | register =>
    cases h
    exact .of_eq rfl rfl (List.append_nil _).symm (by simp)
  | signal =>
    cases h
    exact later_shutdown rt
  | tree b =>
    by_cases hb : b = .signal
    · subst hb
      cases h
      exact later_shutdown rt
    · have h : (rt.tree.step b).map (fun t => { rt with tree := t }) = some rt' := by
        cases b <;> first | exact absurd rfl hb | exact h
      obtain ⟨t, ht, rfl⟩ := Option.map_eq_some_iff.mp h
      exact later_of_tree hf ht
  | work i =>
    simp only [Runtime.step] at h
    split at h
    · cases h
      exact .of_eq rfl rfl rfl (by simp)
    · cases h
  | schedule k b =>
    simp only [Runtime.step] at h
    split at h
    · obtain ⟨s', -, rfl⟩ := Option.map_eq_some_iff.mp h
      exact .of_eq rfl rfl rfl fun hm => absurd hm stopped_not_mem_activities
    · cases h
  | attempt k =>
    simp only [Runtime.step] at h
    repeat' split at h
    all_goals cases h
    exact .of_eq rfl rfl rfl (by simp)
  | shutdownGracefully order =>
    obtain ⟨t, ht, rfl⟩ := Option.map_eq_some_iff.mp h
    have hf' : Fresh rt.shutdown.tree := by
      intro i hi
      rw [shutdown_calls.1]
      exact hf i (shutdown_calls.2 ▸ hi)
    have hd := later_of_tree (a := .shutdownGracefully order) hf' ht
    exact (later_shutdown rt).trans ⟨hd.calls, hd.now, hd.deadline, hd.log⟩
  | stopped =>
    simp only [Runtime.step] at h
    repeat' split at h
    all_goals cases h
    exact .of_eq rfl rfl rfl fun _ => rfl

/-! ## Drains -/

/-- A drain goes on when its first handle's watcher has finished or its wake
has come. -/
def DrainGoesOn (t : SupervisionTree) (d d' : Drain) : Prop :=
  d' = d ∨ ∃ i rest, d.pending = i :: rest ∧ (t.hasFinished i = true ∨ d.wake ≤ t.kernel.now) ∧
    d'.pending = rest ∧ d'.deadline = d.deadline ∧ d'.wake = t.kernel.now + d.deadline.nanos

theorem getElem?_set_cases {ds : List Drain} {d e : Drain} (hd : ds[j]? = some d) (h : DrainGoesOn t d e) {m : Nat}
    {x : Drain} (hm : ds[m]? = some x) : ∃ x', (ds.set j e)[m]? = some x' ∧ DrainGoesOn t x x' := by
  by_cases hj : j = m
  · subst hj
    obtain rfl : d = x := by simpa [hd] using hm
    exact ⟨e, by simp [(List.getElem?_eq_some_iff.mp hd).1], h⟩
  · exact ⟨x, by rw [List.getElem?_set_ne hj, hm], .inl rfl⟩

theorem drain_of_tree (h : t.step b = some t') {d : Drain} (hd : t.drains[j]? = some d) :
    ∃ d', t'.drains[j]? = some d' ∧ DrainGoesOn t d d' := by
  cases treeMoves_of_step h with
  | tick | signal | startService | watch | insert | abandon | cancel | shutdownNow => exact ⟨d, hd, .inl rfl⟩
  | drain =>
    refine ⟨d, ?_, .inl rfl⟩
    rw [List.getElem?_append_left (List.getElem?_eq_some_iff.mp hd).1, hd]
  | @joined _ i e rest he hp hf =>
    have hgo : DrainGoesOn t e (SupervisionTree.Drain.advance e t.kernel rest (e.graceful + 1)) :=
      .inr ⟨i, rest, hp, .inl hf, rfl, rfl, rfl⟩
    exact getElem?_set_cases he hgo hd
  | @elapsed _ i e rest he hp hw =>
    have hgo : DrainGoesOn t e (SupervisionTree.Drain.advance e t.kernel rest e.graceful) :=
      .inr ⟨i, rest, hp, .inr hw, rfl, rfl, rfl⟩
    exact getElem?_set_cases he hgo hd

/-- Only `run` shuts its runtime down. -/
theorem drain_of_step (h : rt.step a = some rt') (ho : r.owns a = false) {d : Drain}
    (hd : rt.tree.drains[j]? = some d) :
    rt'.draining = rt.draining ∧ ∃ d', rt'.tree.drains[j]? = some d' ∧ DrainGoesOn rt.tree d d' := by
  have hsame : ∀ rt' : Runtime, rt'.draining = rt.draining → rt'.tree.drains = rt.tree.drains →
      rt'.draining = rt.draining ∧ ∃ d', rt'.tree.drains[j]? = some d' ∧ DrainGoesOn rt.tree d d' :=
    fun rt' hr ht => ⟨hr, d, by rw [ht, hd], .inl rfl⟩
  have hshut : rt.shutdown.draining = rt.draining ∧ rt.shutdown.tree.drains = rt.tree.drains := by
    unfold Runtime.shutdown
    split <;> exact ⟨rfl, rfl⟩
  cases runtimeSteps_of_step h with
  | setWall | work | register | schedule | attempt => exact hsame _ rfl rfl
  | signal | treeSignal => exact hsame _ hshut.1 hshut.2
  | tree ht => exact ⟨rfl, drain_of_tree ht hd⟩
  | shutdownGracefully | stopped => cases ho

/-! ## Steps of a run -/

theorem onRuntime_cases (h : r.onRuntime a = some r') : ∃ rt, r.runtime.step a = some rt ∧
    r' = { r with runtime := rt, log := r.log ++ (rt.log.drop r.runtime.log.length).map .runtime } := by
  obtain ⟨rt, hrt, rfl⟩ := Option.map_eq_some_iff.mp h
  exact ⟨rt, hrt, rfl⟩

/-- The next service is started, or there is none. -/
inductive StartsNext (r : Run) : List Supervised → Run → Prop
  | done : StartsNext r [] { r.publish .started with phase := .waiting }
  | start {svc : Supervised} {rest : List Supervised} {r₁ : Run} : r.onRuntime (.tree (.startService svc)) = some r₁ →
    StartsNext r (svc :: rest)
      { r₁ with phase := .starting r.runtime.tree.next rest, calls := r.calls ++ [r.runtime.tree.next] }

theorem startsNext_of_startNext {rest : List Supervised} (h : r.startNext rest = some r') : StartsNext r rest r' := by
  cases rest with
  | nil =>
    cases h
    exact .done
  | cons svc rest =>
    simp only [Run.startNext, Option.map_eq_some_iff] at h
    obtain ⟨r₁, h₁, rfl⟩ := h
    exact .start h₁

/-- The steps of a run, by the phase that they leave. -/
inductive RunSteps (r : Run) : RunAction → Run → Prop
  | other {a : RuntimeAction} {r' : Run} : r.owns a = false → r.onRuntime a = some r' → RunSteps r (.other a) r'
  | begin {r' : Run} : r.phase = .built → StartsNext (r.publish .starting) r.services r' → RunSteps r .begin r'
  | next {i : Nat} {rest : List Supervised} {c : Child} {r' : Run} : r.phase = .starting i rest →
    r.runtime.tree.calls i = some c → c.inserted = true → StartsNext r rest r' → RunSteps r .next r'
  | refused {i : Nat} {rest : List Supervised} {c : Child} {e : StartError String} {order : List Nat} {r₁ : Run} :
    r.phase = .starting i rest → r.runtime.tree.calls i = some c → c.refusal? = some e →
    r.onRuntime (.shutdownGracefully order) = some r₁ →
    RunSteps r (.refused order)
      { r₁ with phase := .draining (.error e), drain := some ⟨r.runtime.tree.kernel.now, order⟩ }
  | signalled {order : List Nat} {r₁ : Run} : r.phase = .waiting →
    r.onRuntime (.shutdownGracefully order) = some r₁ →
    RunSteps r (.signalled order)
      { r₁ with phase := .draining (.ok ()), drain := some ⟨r.runtime.tree.kernel.now, order⟩ }
  | stopped {result : Except (StartError String) Unit} {r₁ : Run} : r.phase = .draining result →
    r.onRuntime .stopped = some r₁ → RunSteps r .stopped { r₁ with phase := .returned result }

theorem runSteps_of_step {a : RunAction} (h : r.step a = some r') : RunSteps r a r' := by
  cases a with
  | other a =>
    simp only [Run.step] at h
    split at h
    · cases h
    · rename_i ho
      exact .other (Bool.eq_false_iff.mpr ho) h
  | begin =>
    simp only [Run.step] at h
    split at h
    · rename_i hp
      exact .begin hp (startsNext_of_startNext h)
    · cases h
  | next =>
    simp only [Run.step] at h
    split at h
    · rename_i hp
      split at h
      · rename_i hc
        obtain ⟨c, hc, hins⟩ := Option.any_eq_true _ _ |>.mp hc
        exact .next hp hc hins (startsNext_of_startNext h)
      · cases h
    · cases h
  | refused order =>
    simp only [Run.step] at h
    split at h
    · rename_i hp
      split at h
      · rename_i e he
        obtain ⟨c, hc, he⟩ := Option.bind_eq_some_iff.mp he
        obtain ⟨r₁, h₁, rfl⟩ := Option.map_eq_some_iff.mp h
        exact .refused hp hc he h₁
      · cases h
    · cases h
  | signalled order =>
    simp only [Run.step] at h
    split at h
    · rename_i hp
      split at h
      · obtain ⟨r₁, h₁, rfl⟩ := Option.map_eq_some_iff.mp h
        exact .signalled hp h₁
      · cases h
    · cases h
  | stopped =>
    simp only [Run.step] at h
    split at h
    · rename_i hp
      obtain ⟨r₁, h₁, rfl⟩ := Option.map_eq_some_iff.mp h
      exact .stopped hp h₁
    · cases h

end WalaStack.Proof.Run
