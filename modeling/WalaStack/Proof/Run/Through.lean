import WalaStack.Proof.Run.Steps

/-!
# A run from its start to its end

`At` is what has been reached in a phase of a run. What others do keeps it
(`at_of_later`), what `run` does itself goes from one phase to the next
(`runInv_startsNext`, `runInv_drains`), and `runs_through` reads off it what is
said of a run.
-/

namespace WalaStack.Proof.Run

open WalaStack.Rust WalaStack.Impl.Runtime WalaStack.Spec.Runtime WalaStack.Proof.Supervision WalaStack.Proof.Runtime
  WalaStack.Transition

variable {rt rt' : Runtime} {a : RuntimeAction} {r r' : Run} {i j : Nat}
  {is : List Nat} {services : List Supervised} {result : Except (StartError String) Unit}

/-! ## What has been reached -/

/-- The calls have returned `Ok`. -/
def AllInserted (t : SupervisionTree) (is : List Nat) : Prop := ∀ i ∈ is, ∃ c, t.calls i = some c ∧ c.inserted = true

theorem AllInserted.of_later (h : AllInserted rt.tree is) (hl : Later rt a rt') : AllInserted rt'.tree is := by
  intro i hi
  obtain ⟨c, hc, hins⟩ := h i hi
  obtain ⟨c', hc', hon⟩ := hl.calls i c hc
  exact ⟨c', hc', hon.inserted hins⟩

/-- How `start` ended. -/
def Ended (services : List Supervised) (r : Run) : Except (StartError String) Unit → Prop
  | .ok () => AllStarted services r
  | .error e => ∃ pre i c, r.calls = pre ++ [i] ∧ AllInserted r.runtime.tree pre ∧
    r.runtime.tree.calls i = some c ∧ c.refusal? = some e

/-- The drain that is awaited has left behind the watchers that have finished,
and those that it has waited for long enough. -/
structure DrainsAt (r : Run) (d : DrainCall) (j : Nat) (dr : Drain) : Prop where
  draining : r.runtime.draining = some j
  drain : r.runtime.tree.drains[j]? = some dr
  deadline : dr.deadline = r.runtime.shutdownDeadline
  since : d.since ≤ r.runtime.tree.kernel.now
  wake : d.since + r.runtime.shutdownDeadline.nanos ≤ dr.wake
  handles : ∀ i ∈ d.handles, i ∈ dr.pending ∨ Awaited r d.since i

/-- What has been reached in the phase of a run. -/
def At (services : List Supervised) (r : Run) : Prop :=
  match r.phase with
  | .built => r.calls = []
  | .starting i rest => ∃ pre, r.calls = pre ++ [i] ∧ AllInserted r.runtime.tree pre ∧
    services.drop r.calls.length = rest
  | .waiting => AllStarted services r
  | .draining result => Ended services r result ∧ ∃ d j dr, r.drain = some d ∧ DrainsAt r d j dr
  | .returned result => Ended services r result ∧ ∃ d, r.drain = some d ∧ ∀ i ∈ d.handles, Awaited r d.since i

/-- What has been published in a phase, `RuntimeStopping` apart. -/
def published : RunPhase → List RunEntry
  | .built => []
  | .starting _ _ | .draining (.error _) => [.starting]
  | .waiting | .draining (.ok _) => [.starting, .started]
  | .returned (.ok _) => [.starting, .started, .runtime .stopped]
  | .returned (.error _) => [.starting, .runtime .stopped]

/-- What a run keeps, wherever it is. -/
structure Kept (services : List Supervised) (r : Run) : Prop where
  same : r.services = services
  runtime : RuntimeInv r.runtime
  calls : ∀ n i : Nat, r.calls[n]? = some i → ∃ c, r.runtime.tree.calls i = some c ∧ services[n]? = some c.svc

structure RunInv (services : List Supervised) (r : Run) : Prop where
  kept : Kept services r
  announced : r.log.filter isAnnouncement = published r.phase
  reached : At services r

/-! ## The others -/

theorem awaited_of_later {since : Nat} (h : Awaited r since i) (hl : Later r.runtime a r'.runtime) :
    Awaited r' since i := by
  refine h.imp (fun hf => ?_) fun hd => ?_
  · obtain ⟨c, hc, hf⟩ := (Option.any_eq_true _ _).mp hf
    obtain ⟨c', hc', hon⟩ := hl.calls i c hc
    exact (Option.any_eq_true _ _).mpr ⟨c', hc', hon.finished hf⟩
  · rw [hl.deadline]
    exact hd.trans hl.now

theorem Ended.of_later (h : Ended services r result) (hl : Later r.runtime a r'.runtime) (hc : r'.calls = r.calls) :
    Ended services r' result := by
  rcases result with e | ⟨⟨⟩⟩
  · obtain ⟨pre, i, c, hcalls, hins, hci, he⟩ := h
    obtain ⟨c', hc', hon⟩ := hl.calls i c hci
    exact ⟨pre, i, c', hc.trans hcalls, hins.of_later hl, hc', hon.refusal e he⟩
  · exact ⟨hc ▸ h.1, hc ▸ AllInserted.of_later h.2 hl⟩

/-- What others do keeps what has been reached. -/
theorem at_of_later (h : At services r) (hl : Later r.runtime a r'.runtime) (hc : r'.calls = r.calls)
    (hp : r'.phase = r.phase) (hd : r'.drain = r.drain)
    (hdrain : ∀ d j dr, r.drain = some d → DrainsAt r d j dr → ∃ dr', DrainsAt r' d j dr') : At services r' := by
  unfold At at h ⊢
  rw [hp]
  cases hphase : r.phase with
  | built => simpa [hphase, hc] using h
  | starting i rest =>
    simp only [hphase] at h
    obtain ⟨pre, hcalls, hins, hrest⟩ := h
    exact ⟨pre, hc.trans hcalls, hins.of_later hl, hc ▸ hrest⟩
  | waiting =>
    simp only [hphase] at h
    have hend : Ended services r (.ok ()) := h
    exact hend.of_later hl hc
  | draining result =>
    simp only [hphase] at h
    obtain ⟨hend, d, j, dr, hd', hdr⟩ := h
    obtain ⟨dr', hdr'⟩ := hdrain d j dr hd' hdr
    exact ⟨hend.of_later hl hc, d, j, dr', hd.trans hd', hdr'⟩
  | returned result =>
    simp only [hphase] at h
    obtain ⟨hend, d, hd', hall⟩ := h
    exact ⟨hend.of_later hl hc, d, hd.trans hd', fun i hi => awaited_of_later (hall i hi) hl⟩

/-- The drain goes on, and awaits a watcher until it has finished or the
deadline has passed. -/
theorem drainsAt_of_other {d : DrainCall} {dr : Drain} (h : DrainsAt r d j dr) (hl : Later r.runtime a r'.runtime)
    (ho : r.owns a = false) (hs : r.runtime.step a = some r'.runtime) : ∃ dr', DrainsAt r' d j dr' := by
  obtain ⟨hdraining, dr', hdr', hgo⟩ := drain_of_step hs ho h.drain
  have hawaited : ∀ i, Awaited r d.since i → Awaited r' d.since i := fun i hi => awaited_of_later hi hl
  have hsince : d.since ≤ r'.runtime.tree.kernel.now := h.since.trans hl.now
  have hdraining := hdraining.trans h.draining
  refine ⟨dr', ?_⟩
  rcases hgo with rfl | ⟨i, rest, hpend, hi, hrest, hdead, hwake⟩
  · exact ⟨hdraining, hdr', h.deadline.trans hl.deadline.symm, hsince, hl.deadline ▸ h.wake, fun i hi =>
      (h.handles i hi).imp_right (hawaited i)⟩
  · have hhead : Awaited r d.since i := hi.imp_right (h.wake.trans ·)
    refine ⟨hdraining, hdr', hdead.trans (h.deadline.trans hl.deadline.symm), hsince, ?_, fun m hm => ?_⟩
    · rw [hwake, h.deadline, hl.deadline]
      exact Nat.add_le_add_right h.since _
    · rcases h.handles m hm with hm | hm
      · rw [hpend, List.mem_cons] at hm
        rcases hm with rfl | hm
        · exact .inr (hawaited m hhead)
        · exact .inl (hrest ▸ hm)
      · exact .inr (hawaited m hm)

/-! ## Steps keep it -/

/-- A step of the runtime as `run` sees it. -/
structure OnRuntime (r : Run) (a : RuntimeAction) (r' : Run) : Prop where
  step : r.runtime.step a = some r'.runtime
  later : Later r.runtime a r'.runtime
  log : ∃ es, r'.log = r.log ++ es.map .runtime ∧ r'.runtime.log = r.runtime.log ++ es ∧ (.stopped ∈ es → a = .stopped)
  same : r'.services = r.services ∧ r'.phase = r.phase ∧ r'.calls = r.calls ∧ r'.drain = r.drain

theorem onRuntime_of (hk : Kept services r) (h : r.onRuntime a = some r') : OnRuntime r a r' := by
  obtain ⟨rt, hrt, rfl⟩ := onRuntime_cases h
  have hl := later_of_step hk.runtime.fresh hrt
  obtain ⟨es, hes, hs⟩ := hl.log
  refine ⟨hrt, hl, ⟨es, ?_, hes, hs⟩, rfl, rfl, rfl, rfl⟩
  rw [hes, List.drop_left]

/-- A step of the runtime keeps it. -/
theorem kept_of_onRuntime (hk : Kept services r) (h : OnRuntime r a r') : Kept services r' := by
  obtain ⟨hservices, -, hcalls, -⟩ := h.same
  refine ⟨hservices.trans hk.same, runtimeInv_step hk.runtime (runtimeSteps_of_step h.step), fun n i hn => ?_⟩
  rw [hcalls] at hn
  obtain ⟨c, hc, hsvc⟩ := hk.calls n i hn
  obtain ⟨c', hc', hon⟩ := h.later.calls i c hc
  exact ⟨c', hc', hsvc.trans (congrArg some hon.svc.symm)⟩

theorem announced_of_onRuntime (h : OnRuntime r a r') (ha : a ≠ .stopped) :
    r'.log.filter isAnnouncement = r.log.filter isAnnouncement := by
  obtain ⟨es, hl, -, hs⟩ := h.log
  have hnone : (es.map RunEntry.runtime).filter isAnnouncement = [] := by
    rw [List.filter_eq_nil_iff]
    intro e he
    obtain ⟨e, hm, rfl⟩ := List.mem_map.mp he
    cases e with
    | stopped => exact absurd (hs hm) ha
    | worked | fired | attempted | stopping => exact Bool.false_ne_true
  rw [hl, List.filter_append, hnone, List.append_nil]

theorem kept_publish (hk : Kept services r) (e : RunEntry) : Kept services (r.publish e) :=
  ⟨hk.same, hk.runtime, hk.calls⟩

theorem length_le (hk : Kept services r) : r.calls.length ≤ services.length := by
  rcases List.eq_nil_or_concat r.calls with h | ⟨pre, i, h⟩
  · simp [h]
  · obtain ⟨c, -, hc⟩ := hk.calls pre.length i (by simp [h])
    have hlt := (List.getElem?_eq_some_iff.mp hc).1
    rw [h, List.length_concat]
    omega

/-- The services are started one by one. -/
theorem runInv_startsNext {rest : List Supervised} (hk : Kept services r) (hann : r.log.filter isAnnouncement = [.starting])
    (hins : AllInserted r.runtime.tree r.calls) (hrest : services.drop r.calls.length = rest)
    (h : StartsNext r rest r') : RunInv services r' := by
  cases h with
  | done =>
    have hlen : r.calls.length = services.length :=
      Nat.le_antisymm (length_le hk) (List.drop_eq_nil_iff.mp hrest)
    have hk' := kept_publish hk .started
    refine ⟨⟨hk'.same, hk'.runtime, hk'.calls⟩, ?_, hlen, hins⟩
    show (r.log ++ [RunEntry.started]).filter isAnnouncement = _
    rw [List.filter_append, hann]
    rfl
  | @start svc rest r₁ h =>
    have hon := onRuntime_of hk h
    have hk₁ := kept_of_onRuntime hk hon
    obtain ⟨-, -, hcalls, -⟩ := hon.same
    obtain ⟨rt, hrt, rfl⟩ := onRuntime_cases h
    have hnew : rt.tree.calls r.runtime.tree.next = some (.new svc r.runtime.tree.kernel) := by
      cases hrt
      exact Function.update_self ..
    have hsvc : services[r.calls.length]? = some svc := by
      rw [← List.head?_drop, hrest]
      rfl
    refine ⟨⟨hk₁.same, hk₁.runtime, fun n i hn => ?_⟩, ?_, r.calls, rfl, hins.of_later hon.later, ?_⟩
    · rcases Nat.lt_trichotomy n r.calls.length with hlt | rfl | hgt
      · exact hk₁.calls n i (by rwa [List.getElem?_append_left hlt] at hn)
      · obtain rfl : r.runtime.tree.next = i := by simpa using hn
        exact ⟨_, hnew, hsvc⟩
      · have hlt := (List.getElem?_eq_some_iff.mp hn).1
        rw [List.length_append, List.length_singleton] at hlt
        omega
    · exact (announced_of_onRuntime hon nofun).trans hann
    · show services.drop (r.calls ++ [r.runtime.tree.next]).length = rest
      rw [List.length_append, ← List.drop_drop, hrest]
      rfl

/-- A drain begins with the handles that it has taken. -/
theorem drain_begins {order : List Nat} (h : rt.step (.shutdownGracefully order) = some rt') :
    rt'.tree.kernel.now = rt.tree.kernel.now ∧ ∃ j dr, rt'.draining = some j ∧
      rt'.tree.drains[j]? = some dr ∧ dr.deadline = rt.shutdownDeadline ∧ dr.pending = order ∧
      dr.wake = rt.tree.kernel.now + rt.shutdownDeadline.nanos := by
  obtain ⟨t, ht, rfl⟩ := Option.map_eq_some_iff.mp h
  cases treeMoves_of_step ht with
  | drain =>
    unfold Runtime.shutdown
    split <;> exact ⟨rfl, _, _, rfl, List.getElem?_concat_length, rfl, rfl, rfl⟩

theorem runInv_drains {order : List Nat} (hk : Kept services r) (hend : Ended services r result)
    (hann : r.log.filter isAnnouncement = published (.draining result))
    (h : r.onRuntime (.shutdownGracefully order) = some r') :
    RunInv services
      { r' with phase := .draining result, drain := some ⟨r.runtime.tree.kernel.now, order⟩ } := by
  have hon := onRuntime_of hk h
  have hk' := kept_of_onRuntime hk hon
  obtain ⟨-, -, hcalls, -⟩ := hon.same
  obtain ⟨hnow, j, dr, hj, hdr, hdead, hpend, hwake⟩ := drain_begins hon.step
  refine ⟨⟨hk'.same, hk'.runtime, hk'.calls⟩, ?_, ?_, _, j, dr, rfl, hj, hdr, ?_, hnow.ge, ?_, fun i hi => .inl (hpend ▸ hi)⟩
  · exact (announced_of_onRuntime hon nofun).trans hann
  · exact hend.of_later hon.later hcalls
  · rw [hdead, hon.later.deadline]
  · rw [hwake, hon.later.deadline]

/-- `shutdown_gracefully` ends when its drain has no handle left. -/
theorem stopped_cases (h : rt.step .stopped = some rt') : ∃ j dr, rt.draining = some j ∧
    rt.tree.drains[j]? = some dr ∧ dr.pending = [] ∧ rt' = { rt with draining := none, log := rt.log ++ [.stopped] } := by
  simp only [Runtime.step] at h
  split at h
  · rename_i j hj
    split at h
    · rename_i hd
      cases h
      obtain ⟨dr, hdr, hp⟩ := (Option.any_eq_true _ _).mp hd
      exact ⟨j, dr, hj, hdr, List.isEmpty_iff.mp hp, rfl⟩
    · cases h
  · cases h

theorem runInv_step {a : RunAction} (hi : RunInv services r) (h : RunSteps r a r') : RunInv services r' := by
  have hreached := hi.reached
  unfold At at hreached
  cases h with
  | @other a r' ho h =>
    have hon := onRuntime_of hi.kept h
    have ha : a ≠ .stopped := by
      rintro rfl
      cases ho
    obtain ⟨hservices, hphase, hcalls, hdrain⟩ := hon.same
    refine ⟨kept_of_onRuntime hi.kept hon, ?_, ?_⟩
    · rw [announced_of_onRuntime hon ha, hphase, hi.announced]
    · exact at_of_later hi.reached hon.later hcalls hphase hdrain fun d j dr _ hd =>
        drainsAt_of_other hd hon.later ho hon.step
  | begin hp h =>
    simp only [hp] at hreached
    have hann := hi.announced
    rw [hp] at hann
    refine runInv_startsNext (kept_publish hi.kept .starting) ?_ ?_ ?_ h
    · show (r.log ++ [RunEntry.starting]).filter isAnnouncement = _
      rw [List.filter_append, hann]
      rfl
    · show AllInserted r.runtime.tree r.calls
      rw [hreached]
      exact nofun
    · show services.drop r.calls.length = r.services
      rw [hreached, hi.kept.same]
      rfl
  | next hp hc hins h =>
    simp only [hp] at hreached
    obtain ⟨pre, hcalls, hpre, hrest⟩ := hreached
    have hann := hi.announced
    rw [hp] at hann
    refine runInv_startsNext hi.kept hann ?_ hrest h
    rw [hcalls]
    intro m hm
    rcases List.mem_append.mp hm with hm | hm
    · exact hpre m hm
    · obtain rfl := List.mem_singleton.mp hm
      exact ⟨_, hc, hins⟩
  | refused hp hc he h =>
    simp only [hp] at hreached
    obtain ⟨pre, hcalls, hpre, -⟩ := hreached
    have hann := hi.announced
    rw [hp] at hann
    have hend : Ended services r (.error _) := ⟨pre, _, _, hcalls, hpre, hc, he⟩
    exact runInv_drains hi.kept hend hann h
  | signalled hp h =>
    simp only [hp] at hreached
    have hann := hi.announced
    rw [hp] at hann
    have hend : Ended services r (.ok ()) := hreached
    exact runInv_drains hi.kept hend hann h
  | @stopped result r₁ hp h =>
    simp only [hp] at hreached
    obtain ⟨hend, d, j, dr, hd, hdr⟩ := hreached
    have hon := onRuntime_of hi.kept h
    have hk₁ := kept_of_onRuntime hi.kept hon
    obtain ⟨-, -, hcalls, hdrain⟩ := hon.same
    obtain ⟨j', dr', hj', hdr', hpend, hrt⟩ := stopped_cases hon.step
    obtain rfl : j' = j := Option.some.inj (hj'.symm.trans hdr.draining)
    obtain rfl : dr' = dr := Option.some.inj (hdr'.symm.trans hdr.drain)
    refine ⟨⟨hk₁.same, hk₁.runtime, hk₁.calls⟩, ?_, ?_, d, hdrain.trans hd, fun i hi => ?_⟩
    · obtain ⟨es, hl, hrl, -⟩ := hon.log
      rw [hrt] at hrl
      obtain rfl : [.stopped] = es := List.append_cancel_left hrl
      have hann := hi.announced
      rw [hp] at hann
      show r₁.log.filter isAnnouncement = _
      rw [hl, List.filter_append, hann]
      rcases result with e | ⟨⟨⟩⟩ <;> rfl
    · exact hend.of_later hon.later hcalls
    · rcases hdr.handles i hi with hi | hi
      · rw [hpend] at hi
        cases hi
      · exact awaited_of_later hi hon.later

theorem runInv_new (services : List Supervised) (now : Nat) (wall : DateTime) (deadline : Duration) :
    RunInv services (.new services now wall deadline) where
  kept := ⟨rfl, runtimeInv_init ⟨_, _, _, rfl⟩, nofun⟩
  announced := rfl
  reached := rfl

/-! ## Runs -/

theorem runInv_of_exec {as : List RunAction} {now : Nat} {wall : DateTime} {deadline : Duration}
    (h : exec Run.step (.new services now wall deadline) as = some r) : RunInv services r :=
  exec_invariant (fun hi hs => runInv_step hi (runSteps_of_step hs)) (runInv_new services now wall deadline) h

/-- Each call but the last has returned `Ok`. -/
theorem inserted_of_at (h : At services r) {n : Nat} (hn : r.calls[n]? = some i) (hlt : n + 1 < r.calls.length) :
    ∃ c, r.runtime.tree.calls i = some c ∧ c.inserted = true := by
  have hpre : ∀ pre m, r.calls = pre ++ [m] → AllInserted r.runtime.tree pre →
      ∃ c, r.runtime.tree.calls i = some c ∧ c.inserted = true := fun pre m hcalls hins => by
    rw [hcalls, List.length_append, List.length_singleton] at hlt
    rw [hcalls, List.getElem?_append_left (by omega)] at hn
    exact hins i (List.mem_of_getElem? hn)
  have hend : ∀ result, Ended services r result → ∃ c, r.runtime.tree.calls i = some c ∧ c.inserted = true := by
    rintro (e | ⟨⟨⟩⟩) hend
    · obtain ⟨pre, m, _, hcalls, hins, -⟩ := hend
      exact hpre pre m hcalls hins
    · exact hend.2 i (List.mem_of_getElem? hn)
  unfold At at h
  split at h
  · rw [h] at hn
    cases hn
  · obtain ⟨pre, hcalls, hins, -⟩ := h
    exact hpre pre _ hcalls hins
  · exact hend (.ok ()) h
  · exact hend _ h.1
  · exact hend _ h.1

/-- `RuntimeStarted` is published when `start` has gone well. -/
theorem started_iff (hi : RunInv services r) : .started ∈ r.log ↔
    r.phase = .waiting ∨ r.phase = .draining (.ok ()) ∨ r.phase = .returned (.ok ()) := by
  have hm : .started ∈ r.log ↔ .started ∈ published r.phase := by
    rw [← hi.announced, List.mem_filter]
    exact ⟨fun h => ⟨h, rfl⟩, And.left⟩
  rw [hm]
  cases r.phase with
  | built | starting | waiting => simp [published]
  | draining result | returned result => rcases result with e | ⟨⟨⟩⟩ <;> simp [published]

theorem allStarted_of_started (hi : RunInv services r) (h : .started ∈ r.log) : AllStarted services r := by
  have hreached := hi.reached
  unfold At at hreached
  rcases (started_iff hi).mp h with hp | hp | hp <;> simp only [hp] at hreached
  · exact hreached
  · exact hreached.1
  · exact hreached.1

theorem returned_of_inv (hi : RunInv services r) (hp : r.phase = .returned result) : Returned services r result := by
  have hreached := hi.reached
  unfold At at hreached
  simp only [hp] at hreached
  obtain ⟨hend, hdrain⟩ := hreached
  have hstarted := started_iff hi
  refine ⟨?_, ?_, ?_, hdrain⟩
  · have hm : .runtime .stopped ∈ r.log.filter isAnnouncement := by
      rw [hi.announced, hp]
      rcases result with e | ⟨⟨⟩⟩ <;> simp [published]
    exact (List.mem_filter.mp hm).1
  · rintro rfl
    exact hstarted.mpr (.inr (.inr hp))
  · rintro e rfl
    obtain ⟨pre, i, c, hcalls, -, hc, he⟩ := hend
    refine ⟨fun hm => ?_, i, c, by rw [hcalls, List.getLast?_concat], hc, he⟩
    rcases hstarted.mp hm with h | h | h <;> rw [hp] at h <;> cases h

/-- Whatever the others do, a run goes from its start to its end as
`RunsThrough` says. -/
theorem runs_through {as : List RunAction} {now : Nat} {wall : DateTime} {deadline : Duration}
    (h : exec Run.step (.new services now wall deadline) as = some r) : RunsThrough services r := by
  have hi : RunInv services r := runInv_of_exec h
  refine ⟨fun n i hn => ?_, ?_, allStarted_of_started hi, fun result hp => returned_of_inv hi hp⟩
  · obtain ⟨c, hc, hsvc⟩ := hi.kept.calls n i hn
    refine ⟨c, hc, hsvc, fun hlt => ?_⟩
    obtain ⟨c', hc', hins⟩ := inserted_of_at hi.reached hn hlt
    obtain rfl : c = c' := Option.some.inj (hc.symm.trans hc')
    exact hins
  · rw [hi.announced]
    cases r.phase with
    | built | starting | waiting => exact .inl (by simp [published])
    | draining result => rcases result with e | ⟨⟨⟩⟩ <;> exact .inl (by simp [published])
    | returned result =>
      rcases result with e | ⟨⟨⟩⟩
      · exact .inr (List.prefix_refl _)
      · exact .inl (List.prefix_refl _)

/-! ## A service that does not start -/

def database : Supervised := ⟨"database", .oneShot⟩
def server : Supervised := ⟨"server", .oneShot⟩

/-- The first service starts, the second does not, and the first is drained. -/
def refusedServer : List RunAction :=
  [.begin, .other (.tree (.watch 0 (.started (.ok ())))), .other (.tree (.insert 0)), .next,
    .other (.tree (.watch 1 (.started (.error "in use")))), .refused [0], .other (.tree (.watch 0 .shutdown)),
    .other (.tree (.joined 0)), .stopped]

theorem runs_through_refused : ∃ r,
    exec Run.step (.new [database, server] 0 .epoch (.fromSecs 10)) refusedServer = some r ∧
      r.phase = .returned (.error ⟨"server", "in use"⟩) ∧ RunsThrough [database, server] r := by
  obtain ⟨r, hrun, hp⟩ : ∃ r, exec Run.step (.new [database, server] 0 .epoch (.fromSecs 10)) refusedServer = some r ∧
      r.phase = .returned (.error ⟨"server", "in use"⟩) := ⟨_, rfl, rfl⟩
  exact ⟨r, hrun, hp, runs_through hrun⟩

end WalaStack.Proof.Run
