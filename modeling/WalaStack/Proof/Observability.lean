import WalaStack.Spec.Health

/-!
# The health surface under reordering

The service may apply the published events in any order that keeps the order
within each type (`consumed_iff`). What it reports about one service is
decided by the events about it (`serviceAfter`), and starts commute with
stops. A failure commutes with neither: whichever is applied last gives the
status. So the reports agree exactly if no event of the run contradicts
another (`same_health_iff`).
-/

namespace WalaStack.Proof.Observability

open WalaStack.Rust WalaStack.Transition WalaStack.Channels WalaStack.Impl.Runtime WalaStack.Impl.Observability
open WalaStack.Spec.Health

variable {st : ObservabilityState} {e : Observed} {n : String} {evs cs : List Observed}

/-! ## The runs of the service -/

@[simp] theorem publishes_publish (e : Observed) (as : List ObserverAction) :
    publishes (.publish e :: as) = e :: publishes as := rfl

@[simp] theorem publishes_recv (k : Channel) (as : List ObserverAction) :
    publishes (.recv k :: as) = publishes as := rfl

@[simp] theorem publishes_shutdown (as : List ObserverAction) :
    publishes (.shutdown :: as) = publishes as := rfl

/-- The receivers of the service are a reader of the channels. -/
theorem exec_receivers {o o' : Observer} {as : List ObserverAction} (h : exec Observer.step o as = some o') :
    ∃ bs, published bs = publishes as ∧
      exec (Reader.step Observed.channel .observe) o.receivers bs = some o'.receivers := by
  induction as generalizing o with
  | nil =>
    cases h
    exact ⟨[], rfl, rfl⟩
  | cons a as ih =>
    rw [exec_cons, Option.bind_eq_some_iff] at h
    obtain ⟨o₁, h₁, h₂⟩ := h
    obtain ⟨bs, hb, hx⟩ := ih h₂
    cases a with
    | publish e =>
      rw [Observer.step, Option.map_eq_some_iff] at h₁
      obtain ⟨r, hr, rfl⟩ := h₁
      exact ⟨.publish e :: bs, by simp [hb], by rw [exec_cons_of hr, hx]⟩
    | recv k =>
      simp only [Observer.step] at h₁
      split at h₁
      · rw [Option.map_eq_some_iff] at h₁
        obtain ⟨r, hr, rfl⟩ := h₁
        exact ⟨.recv k :: bs, by simp [hb], by rw [exec_cons_of hr, hx]⟩
      · cases h₁
    | shutdown =>
      simp only [Observer.step] at h₁
      split at h₁
      · cases h₁
        exact ⟨bs, by simp [hb], hx⟩
      · cases h₁

/-- A run of the reader is one of the service before shutdown. -/
theorem exec_of_receivers {r r' : Reader Channel Observed ObservabilityState} {bs : List (ReaderAction Channel Observed)}
    (h : exec (Reader.step Observed.channel .observe) r bs = some r') :
    ∃ as, publishes as = published bs ∧ exec Observer.step ⟨r, true⟩ as = some ⟨r', true⟩ := by
  induction bs generalizing r with
  | nil =>
    cases h
    exact ⟨[], rfl, rfl⟩
  | cons b bs ih =>
    rw [exec_cons, Option.bind_eq_some_iff] at h
    obtain ⟨r₁, h₁, h₂⟩ := h
    obtain ⟨as, ha, hx⟩ := ih h₂
    cases b with
    | publish e =>
      have hstep : Observer.step ⟨r, true⟩ (.publish e) = some ⟨r₁, true⟩ := by simp [Observer.step, h₁]
      exact ⟨.publish e :: as, by simp [ha], by rw [exec_cons_of hstep, hx]⟩
    | recv k =>
      have hstep : Observer.step ⟨r, true⟩ (.recv k) = some ⟨r₁, true⟩ := by simp [Observer.step, h₁]
      exact ⟨.recv k :: as, by simp [ha], by rw [exec_cons_of hstep, hx]⟩

/-- What the service can make of `evs`: the results of their interleavings. -/
theorem consumed_iff : Consumed evs st ↔ ∃ cs, Interleaves Observed.channel evs cs ∧ st = cs.foldl .observe .default := by
  rw [← Reader.exists_exec_iff]
  constructor
  · rintro ⟨as, o, rfl, hx, hu, rfl⟩
    obtain ⟨bs, hb, hr⟩ := exec_receivers hx
    refine ⟨bs, hb, ?_⟩
    have hnil : o.receivers.unread = fun _ => [] := funext hu
    rw [← hnil]
    exact hr
  · rintro ⟨bs, rfl, hr⟩
    obtain ⟨as, ha, hx⟩ := exec_of_receivers hr
    exact ⟨as, _, ha, hx, fun _ => rfl, rfl⟩

/-! ## One service -/

/-- What an event makes of the report on the service `n`. -/
def serviceAfter (n : String) (o : Option ServiceHealth) : Observed → Option ServiceHealth
  | .service (.started m _) =>
    if m = n then
      let entry := o.getD ⟨n, .ok, 0, 0, none⟩
      some { entry with status := .ok, starts := saturatingAdd entry.starts 1 }
    else o
  | .service (.stopped m) => if m = n then o.map fun entry => { entry with status := .ok } else o
  | .service (.failed m err _ b) =>
    if m = n then
      let entry := o.getD ⟨n, .failed, 0, 0, none⟩
      some { entry with
        failures := saturatingAdd entry.failures 1
        lastError := some err
        status := if b then .degraded else .failed }
    else o
  | .runtime _ | .task _ => o

theorem service_insert (st : ObservabilityState) (m n : String) (entry : ServiceHealth) :
    ({ st with services := st.services.insert m entry } : ObservabilityState).service n =
      if m = n then some entry else st.service n := by
  by_cases h : m = n
  · subst h
    rw [if_pos rfl]
    exact AList.lookup_insert _
  · rw [if_neg h]
    exact AList.lookup_insert_ne (Ne.symm h)

theorem service_observe (st : ObservabilityState) (e : Observed) (n : String) :
    (st.observe e).service n = serviceAfter n (st.service n) e := by
  cases e with
  | service e =>
    cases e with
    | started m k =>
      refine (service_insert st m n _).trans ?_
      exact ite_congr rfl (fun h => by rw [← h]; rfl) fun _ => rfl
    | stopped m =>
      simp only [ObservabilityState.observe, ObservabilityState.apply, ObservabilityState.onServiceStopped,
        ObservabilityState.service, serviceAfter]
      by_cases h : m = n
      · subst h
        cases hl : st.services.lookup m with
        | none => simp [hl]
        | some entry => simp
      · rw [if_neg h]
        split
        · exact AList.lookup_insert_ne (Ne.symm h)
        · rfl
    | failed m err k b =>
      refine (service_insert st m n _).trans ?_
      exact ite_congr rfl (fun h => by rw [← h]; rfl) fun _ => rfl
  | runtime e => cases e <;> rfl
  | task e => cases e <;> rfl

theorem service_foldl (st : ObservabilityState) (evs : List Observed) (n : String) :
    (evs.foldl .observe st).service n = evs.foldl (serviceAfter n) (st.service n) := by
  induction evs generalizing st with
  | nil => rfl
  | cons e evs ih => rw [List.foldl_cons, List.foldl_cons, ih, service_observe]

/-- Starts and failures of `n`. -/
def startOf (n : String) : Observed → Bool
  | .service (.started m _) => decide (m = n)
  | _ => false

def failureOf (n : String) : Observed → Bool
  | .service (.failed m _ _ _) => decide (m = n)
  | _ => false

def stopOf (n : String) : Observed → Bool
  | .service (.stopped m) => decide (m = n)
  | _ => false

theorem channel_of_startOf (h : startOf n e = true) : e.channel = .svcStarted := by
  cases e with
  | service e => cases e <;> first | rfl | cases h
  | runtime e => cases h
  | task e => cases h

theorem channel_of_failureOf (h : failureOf n e = true) : e.channel = .svcFailed := by
  cases e with
  | service e => cases e <;> first | rfl | cases h
  | runtime e => cases h
  | task e => cases h

/-- The events that are not about `n` leave it alone. -/
theorem serviceAfter_other (hs : startOf n e = false) (hp : stopOf n e = false) (hf : failureOf n e = false)
    (o : Option ServiceHealth) : serviceAfter n o e = o := by
  cases e with
  | service e => cases e <;> simp_all [serviceAfter, startOf, stopOf, failureOf]
  | runtime e => rfl
  | task e => rfl

/-- Of a service that does not start or stop, only the failures count. -/
theorem foldl_failures (h : ∀ e ∈ evs, startOf n e = false ∧ stopOf n e = false) (o : Option ServiceHealth) :
    evs.foldl (serviceAfter n) o = (evs.filter (failureOf n)).foldl (serviceAfter n) o := by
  induction evs generalizing o with
  | nil => rfl
  | cons e evs ih =>
    obtain ⟨⟨hs, hp⟩, ht⟩ := List.forall_mem_cons.mp h
    cases hf : failureOf n e with
    | true => rw [List.filter_cons_of_pos hf, List.foldl_cons, List.foldl_cons, ih ht]
    | false => rw [List.filter_cons_of_neg (by simp [hf]), List.foldl_cons, serviceAfter_other hs hp hf, ih ht]

/-- Of a service that does not fail, only the starts count: it is `Ok`
whenever it is known, so that a stop changes nothing. -/
theorem foldl_starts (h : ∀ e ∈ evs, failureOf n e = false) {o : Option ServiceHealth} (ho : ∀ sh ∈ o, sh.status = .ok) :
    evs.foldl (serviceAfter n) o = (evs.filter (startOf n)).foldl (serviceAfter n) o := by
  induction evs generalizing o with
  | nil => rfl
  | cons e evs ih =>
    obtain ⟨hf, ht⟩ := List.forall_mem_cons.mp h
    cases hs : startOf n e with
    | true =>
      rw [List.filter_cons_of_pos hs, List.foldl_cons, List.foldl_cons]
      refine ih ht ?_
      cases e with
      | service e => cases e <;> simp_all [serviceAfter, startOf]
      | runtime e => cases hs
      | task e => cases hs
    | false =>
      have hkeep : serviceAfter n o e = o := by
        cases hp : stopOf n e with
        | false => exact serviceAfter_other hs hp hf o
        | true =>
          cases e with
          | service e =>
            cases e with
            | stopped m =>
              have hok : (o.map fun entry => { entry with status := HealthStatus.ok }) = o := by
                cases o with
                | none => rfl
                | some sh => rw [Option.map_some, ← ho sh rfl]
              simp [serviceAfter, hok]
            | started m k => cases hp
            | failed m err k b => cases hp
          | runtime e => cases hp
          | task e => cases hp
      rw [List.filter_cons_of_neg (by simp [hs]), List.foldl_cons, hkeep, ih ht ho]

/-! ## The runtime phase -/

/-- What an event makes of the phase. -/
def phaseAfter (p : RuntimePhase) : Observed → RuntimePhase
  | .runtime .started => .running
  | .runtime .stopping => .stopping
  | .runtime .stopped => .stopped
  | .service _ | .task _ => p

theorem phase_observe (st : ObservabilityState) (e : Observed) : (st.observe e).phase = phaseAfter st.phase e := by
  cases e with
  | service e =>
    cases e with
    | stopped m => rfl
    | started m k => rfl
    | failed m err k b => rfl
  | runtime e => cases e <;> rfl
  | task e => cases e <;> rfl

theorem phase_foldl (st : ObservabilityState) (evs : List Observed) :
    (evs.foldl .observe st).phase = evs.foldl phaseAfter st.phase := by
  induction evs generalizing st with
  | nil => rfl
  | cons e evs ih => rw [List.foldl_cons, List.foldl_cons, ih, phase_observe]

/-- Without an event of the runtime the phase stays. -/
theorem phase_of_none (h : ∀ r, .runtime r ∉ evs) (p : RuntimePhase) : evs.foldl phaseAfter p = p := by
  induction evs generalizing p with
  | nil => rfl
  | cons e evs ih =>
    have ht : ∀ r, Observed.runtime r ∉ evs := fun r hr => h r (List.mem_cons_of_mem _ hr)
    cases e with
    | runtime r => exact absurd List.mem_cons_self (h r)
    | service e => exact ih ht p
    | task e => exact ih ht p

/-- With events of the runtime of one type only, it is the one of that type. -/
theorem phase_of_one {r : RuntimeEvent} (hm : .runtime r ∈ evs) (h : ∀ r', .runtime r' ∈ evs → r' = r)
    (p q : RuntimePhase) : evs.foldl phaseAfter p = phaseAfter q (.runtime r) := by
  induction evs generalizing p with
  | nil => cases hm
  | cons e evs ih =>
    have ht : ∀ r', Observed.runtime r' ∈ evs → r' = r := fun r' hr => h r' (List.mem_cons_of_mem _ hr)
    rw [List.foldl_cons]
    by_cases hin : Observed.runtime r ∈ evs
    · exact ih hin ht _
    · obtain rfl : Observed.runtime r = e := (List.mem_cons.mp hm).resolve_right hin
      have hnone : ∀ r', Observed.runtime r' ∉ evs := fun r' hr => hin (ht r' hr ▸ hr)
      rw [phase_of_none hnone]
      cases r <;> rfl

/-! ## Events that do not contradict each other -/

theorem failureOf_iff : failureOf n e = true ↔ ∃ err k b, e = .service (.failed n err k b) := by
  cases e with
  | service e => cases e <;> simp [failureOf]
  | runtime e => simp [failureOf]
  | task e => simp [failureOf]

/-- A failure of `n` contradicts its starts and its stops. -/
theorem contradicts_of_failureOf {e e' : Observed} (h : failureOf n e = true) :
    Contradicts e e' ↔ startOf n e' = true ∨ stopOf n e' = true := by
  obtain ⟨err, k, b, rfl⟩ := failureOf_iff.mp h
  cases e' with
  | service e => cases e <;> simp [Contradicts, startOf, stopOf, eq_comm]
  | runtime e => simp [Contradicts, startOf, stopOf]
  | task e => simp [Contradicts, startOf, stopOf]

theorem sameHealth_of_interleaves (h : ∀ e ∈ evs, ∀ e' ∈ evs, ¬ Contradicts e e')
    (hi : Interleaves Observed.channel evs cs) :
    SameHealth (cs.foldl .observe .default) (evs.foldl .observe .default) := by
  have hmem : ∀ {e}, e ∈ cs ↔ e ∈ evs := hi.mem_iff
  constructor
  · intro n
    rw [service_foldl, service_foldl]
    by_cases hf : ∃ e ∈ evs, failureOf n e = true
    · obtain ⟨e, he, hef⟩ := hf
      have hno : ∀ e' ∈ evs, startOf n e' = false ∧ stopOf n e' = false := fun e' he' => by
        have := (contradicts_of_failureOf hef).not.mp (h e he e' he')
        simpa [not_or] using this
      rw [foldl_failures hno, foldl_failures fun e' he' => hno e' (hmem.mp he'),
        hi.filter_eq fun _ => channel_of_failureOf]
    · have hno : ∀ e ∈ evs, failureOf n e = false := fun e he => by
        cases hef : failureOf n e with
        | false => rfl
        | true => exact absurd ⟨e, he, hef⟩ hf
      have hok : ∀ sh ∈ ObservabilityState.default.service n, sh.status = .ok := fun sh hsh => by cases hsh
      rw [foldl_starts hno hok, foldl_starts (fun e' he' => hno e' (hmem.mp he')) hok,
        hi.filter_eq fun _ => channel_of_startOf]
  · rw [phase_foldl, phase_foldl]
    by_cases hr : ∃ r, Observed.runtime r ∈ evs
    · obtain ⟨r, hr⟩ := hr
      have hone : ∀ r', Observed.runtime r' ∈ evs → r' = r := fun r' hr' =>
        not_not.mp fun hne => h _ hr' _ hr hne
      rw [phase_of_one (hmem.mpr hr) (fun r' hr' => hone r' (hmem.mp hr')) _ .initializing,
        phase_of_one hr hone _ .initializing]
    · have hnone : ∀ r, Observed.runtime r ∉ evs := fun r hm => hr ⟨r, hm⟩
      rw [phase_of_none hnone, phase_of_none fun r hm => hnone r (hmem.mp hm)]

/-! ## Events that do -/

/-- After failures alone, one of them of `n`, the service `n` is not `Ok`. -/
theorem status_of_failures (h : ∀ e ∈ evs, e.channel = .svcFailed) {o : Option ServiceHealth}
    (hn : (∃ e ∈ evs, failureOf n e = true) ∨ ∃ sh ∈ o, sh.status ≠ .ok) :
    ∃ sh ∈ evs.foldl (serviceAfter n) o, sh.status ≠ .ok := by
  induction evs generalizing o with
  | nil =>
    rcases hn with ⟨e, he, -⟩ | ho
    · cases he
    · exact ho
  | cons e evs ih =>
    obtain ⟨hc, ht⟩ := List.forall_mem_cons.mp h
    rw [List.foldl_cons]
    refine ih ht ?_
    cases hf : failureOf n e with
    | true =>
      obtain ⟨err, k, b, rfl⟩ := failureOf_iff.mp hf
      exact .inr ⟨_, by simp only [serviceAfter]; rfl, by cases b <;> simp⟩
    | false =>
      have hkeep : serviceAfter n o e = o := by
        refine serviceAfter_other ?_ ?_ hf o
        all_goals cases e with
          | service e => cases e <;> first | rfl | cases hc
          | runtime e => cases hc
          | task e => cases e <;> cases hc
      rw [hkeep]
      refine hn.imp_left ?_
      rintro ⟨e', he', hf'⟩
      rcases List.mem_cons.mp he' with rfl | he'
      · rw [hf] at hf'; cases hf'
      · exact ⟨e', he', hf'⟩

/-- Without a failure, a service that starts or stops ends `Ok`. -/
theorem status_of_no_failure (h : ∀ e ∈ evs, failureOf n e = false) {o : Option ServiceHealth}
    (hn : (∃ e ∈ evs, startOf n e = true ∨ stopOf n e = true) ∨ ∀ sh ∈ o, sh.status = .ok) :
    ∀ sh ∈ evs.foldl (serviceAfter n) o, sh.status = .ok := by
  induction evs generalizing o with
  | nil =>
    rcases hn with ⟨e, he, -⟩ | ho
    · cases he
    · exact ho
  | cons e evs ih =>
    obtain ⟨hf, ht⟩ := List.forall_mem_cons.mp h
    rw [List.foldl_cons]
    refine ih ht ?_
    by_cases he : startOf n e = true ∨ stopOf n e = true
    · refine .inr ?_
      cases e with
      | service e =>
        cases e with
        | started m k =>
          have hm : m = n := by simpa [startOf, stopOf] using he
          rintro sh hsh
          simp only [serviceAfter, if_pos hm, Option.mem_def, Option.some.injEq] at hsh
          rw [← hsh]
        | stopped m =>
          have hm : m = n := by simpa [startOf, stopOf] using he
          rintro sh hsh
          simp only [serviceAfter, if_pos hm, Option.mem_def, Option.map_eq_some_iff] at hsh
          obtain ⟨entry, -, rfl⟩ := hsh
          rfl
        | failed m err k b => simp [startOf, stopOf] at he
      | runtime e => simp [startOf, stopOf] at he
      | task e => simp [startOf, stopOf] at he
    · obtain ⟨hs, hp⟩ := not_or.mp he
      rw [serviceAfter_other (by simpa using hs) (by simpa using hp) hf]
      refine hn.imp_left ?_
      rintro ⟨e', he', hf'⟩
      rcases List.mem_cons.mp he' with rfl | he'
      · exact absurd hf' he
      · exact ⟨e', he', hf'⟩

/-- The events of `evs` with those of one channel last. -/
def withLast (k : Channel) (evs : List Observed) : List Observed :=
  (evs.filter fun e => decide (e.channel = k) == false) ++ evs.filter fun e => decide (e.channel = k) == true

theorem consumed_withLast (k : Channel) (evs : List Observed) :
    Consumed evs ((withLast k evs).foldl .observe .default) :=
  consumed_iff.mpr ⟨_, .partition Observed.channel (fun k' => decide (k' = k)) evs, rfl⟩

theorem mem_last {k : Channel} : e ∈ (evs.filter fun e => decide (e.channel = k) == true) ↔ e ∈ evs ∧ e.channel = k := by
  simp [List.mem_filter]

/-- With the failures last the service is down, and with its starts or its
stops last it is up. -/
theorem not_sameHealth_of_failure {e e' : Observed} (he : e ∈ evs) (he' : e' ∈ evs) (hf : failureOf n e = true)
    (hup : startOf n e' = true ∨ stopOf n e' = true) :
    ¬ SameHealth ((withLast e.channel evs).foldl .observe .default)
      ((withLast e'.channel evs).foldl .observe .default) := by
  intro hsame
  have hsn := hsame.1 n
  rw [service_foldl, service_foldl, withLast, withLast, List.foldl_append, List.foldl_append] at hsn
  obtain ⟨sh, hsh, hdown⟩ := status_of_failures (n := n) (o := _)
    (fun x hx => (mem_last.mp hx).2.trans (channel_of_failureOf hf)) (.inl ⟨e, mem_last.mpr ⟨he, rfl⟩, hf⟩)
  rw [hsn] at hsh
  refine hdown (status_of_no_failure (fun x hx => ?_) (.inl ⟨e', mem_last.mpr ⟨he', rfl⟩, hup⟩) sh hsh)
  have hch := (mem_last.mp hx).2
  cases hx : failureOf n x with
  | false => rfl
  | true =>
    rw [channel_of_failureOf hx] at hch
    cases e' with
    | service e' => cases e' <;> simp [startOf, stopOf] at hup <;> cases hch
    | runtime r => cases hch
    | task t => cases t <;> cases hch

/-- With the events of one phase last, the runtime is in it. -/
theorem phase_withLast {r : RuntimeEvent} (hm : .runtime r ∈ evs) :
    ((withLast (.runtime r) evs).foldl ObservabilityState.observe .default).phase =
      phaseAfter .initializing (.runtime r) := by
  rw [phase_foldl, withLast, List.foldl_append]
  refine phase_of_one (mem_last.mpr ⟨hm, rfl⟩) (fun r' hr' => ?_) _ _
  exact Channel.runtime.inj (mem_last.mp hr').2

theorem not_sameHealth_of_phases {r r' : RuntimeEvent} (hr : .runtime r ∈ evs) (hr' : .runtime r' ∈ evs) (hne : r ≠ r') :
    ¬ SameHealth ((withLast (.runtime r) evs).foldl .observe .default)
      ((withLast (.runtime r') evs).foldl .observe .default) := by
  intro hsame
  have hphase := hsame.2
  rw [phase_withLast hr, phase_withLast hr'] at hphase
  cases r <;> cases r' <;> first | exact hne rfl | cases hphase

/-- Two events that contradict each other: with the one's channel last the
report is another than with the other's. -/
theorem not_orderFree_of_contradicts {e e' : Observed} (he : e ∈ evs) (he' : e' ∈ evs) (hc : Contradicts e e') :
    ¬ OrderFree evs := by
  intro hfree
  have hsame : SameHealth ((withLast e.channel evs).foldl .observe .default)
      ((withLast e'.channel evs).foldl .observe .default) := by
    obtain ⟨hs, hp⟩ := hfree _ (consumed_withLast e.channel evs)
    obtain ⟨hs', hp'⟩ := hfree _ (consumed_withLast e'.channel evs)
    exact ⟨fun n => (hs n).trans (hs' n).symm, hp.trans hp'.symm⟩
  by_cases hf : ∃ n, failureOf n e = true
  · obtain ⟨n, hf⟩ := hf
    exact not_sameHealth_of_failure he he' hf ((contradicts_of_failureOf hf).mp hc) hsame
  · obtain ⟨r, r', rfl, rfl, hne⟩ : ∃ r r', e = .runtime r ∧ e' = .runtime r' ∧ r ≠ r' := by
      cases e with
      | service e => cases e <;> simp_all [Contradicts, failureOf]
      | runtime r =>
        cases e' with
        | runtime r' => exact ⟨r, r', rfl, rfl, hc⟩
        | service e' => exact hc.elim
        | task t => exact hc.elim
      | task t => exact hc.elim
    exact not_sameHealth_of_phases he he' hne hsame

/-- The health surface does not depend on the order of delivery exactly if no
service of which a failure is published also starts or stops, and no two
phases of the runtime are published. -/
theorem same_health_iff (evs : List Observed) : OrderFree evs ↔ ∀ e ∈ evs, ∀ e' ∈ evs, ¬ Contradicts e e' := by
  constructor
  · intro hfree e he e' he' hc
    exact not_orderFree_of_contradicts he he' hc hfree
  · intro h st hst
    obtain ⟨cs, hi, rfl⟩ := consumed_iff.mp hst
    exact sameHealth_of_interleaves h hi

/-- `svc-b` starts and fails for good. Received in the other order, it is
reported as `Ok`. -/
theorem svc_b_reported_ok : ¬ OrderFree
    [.service (.started "svc-b" 1), .service (.failed "svc-b" "down" 1 false)] := by
  refine not_orderFree_of_contradicts (List.mem_cons_of_mem _ List.mem_cons_self) List.mem_cons_self ?_
  rfl

end WalaStack.Proof.Observability
