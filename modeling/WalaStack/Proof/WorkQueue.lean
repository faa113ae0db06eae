import WalaStack.Spec.WorkQueue
import WalaStack.Proof.EventBus

/-!
# The hand-out of a work queue

`QueueSteps` is what a step does to the queues, to the workers and to what calls
have been accepted. The channel of a sending call and of a worker is the one of
their type (`BusInv`), and a channel that is created for a type is empty, so that
`TallyInv` is kept by every step.
-/

namespace WalaStack.Proof.Runtime

open WalaStack.Impl.Runtime WalaStack.Spec.Runtime WalaStack.Transition WalaStack.Parties

variable {Ty Event : Type} {cfg : BusConfig} {bus bus' : EventBus Ty Event} {a : BusAction Ty Event}

/-! ## What has been accepted -/

/-- The call of a movement has returned `Ok`. -/
def Accepts (bus : EventBus Ty Event) (m : Movement Ty Event) : Prop :=
  ∃ call, bus.calls[m.party]? = some call ∧ call.type = m.type ∧ accepted? call = some m.event

theorem accepted?_eq_none {call : OpCall Ty Event} (h : ∀ result, call.phase ≠ .returned result) : accepted? call = none := by
  unfold accepted?
  split
  · rename_i hp
    exact absurd hp (h _)
  · rfl

/-- A call that has not been accepted goes on. -/
theorem accepts_set_iff {i : Nat} {call call' : OpCall Ty Event} (hi : bus.calls[i]? = some call)
    (hnone : accepted? call = none) (hc : bus'.calls = bus.calls.set i call') (htype : call'.type = call.type)
    (m : Movement Ty Event) :
    Accepts bus' m ↔ Accepts bus m ∨ m.party = i ∧ m.type = call.type ∧ accepted? call' = some m.event := by
  unfold Accepts
  rw [hc]
  constructor
  · rintro ⟨c, hm, ht, he⟩
    rcases getElem?_set_cases hi hm with ⟨hp, rfl⟩ | ⟨-, hm⟩
    · exact .inr ⟨hp, by rw [← ht, htype], he⟩
    · exact .inl ⟨c, hm, ht, he⟩
  · rintro (⟨c, hm, ht, he⟩ | ⟨hp, ht, he⟩)
    · have hne : i ≠ m.party := by
        rintro rfl
        obtain rfl := Option.some.inj (hi.symm.trans hm)
        cases hnone.symm.trans he
      exact ⟨c, by rw [List.getElem?_set_ne hne, hm], ht, he⟩
    · rw [hp]
      exact ⟨call', List.getElem?_set_self (List.getElem?_eq_some_iff.mp hi).1, by rw [htype, ht], he⟩

/-- The same, where it is not accepted. -/
theorem accepts_set_of_none {i : Nat} {call call' : OpCall Ty Event} (hi : bus.calls[i]? = some call)
    (hnone : accepted? call = none) (hc : bus'.calls = bus.calls.set i call') (htype : call'.type = call.type)
    (hnone' : accepted? call' = none) (m : Movement Ty Event) : Accepts bus' m ↔ Accepts bus m := by
  rw [accepts_set_iff hi hnone hc htype, hnone']
  simp

theorem accepts_congr (hc : bus'.calls = bus.calls) (m : Movement Ty Event) : Accepts bus' m ↔ Accepts bus m := by
  unfold Accepts
  rw [hc]

/-! ## Steps -/

/-- The workers are there still, with what they have received, and new ones have
received nothing. -/
structure WorkersKept (bus bus' : EventBus Ty Event) : Prop where
  stay (j : Nat) (w : BusHandle Ty Event) : bus.workers[j]? = some w →
    ∃ w' : BusHandle Ty Event, bus'.workers[j]? = some w' ∧ w'.type = w.type
  from_ (j : Nat) (w' : BusHandle Ty Event) : bus'.workers[j]? = some w' →
    (∃ w, bus.workers[j]? = some w ∧ w.type = w'.type ∧ w.received = w'.received) ∨
      bus.workers[j]? = none ∧ w'.received = []

theorem workersKept_of_eq (h : bus'.workers = bus.workers) : WorkersKept bus bus' :=
  ⟨fun _ w hw => ⟨w, h ▸ hw, rfl⟩, fun _ w hw => .inl ⟨w, h ▸ hw, rfl, rfl⟩⟩

theorem workersKept_of_concat {w : BusHandle Ty Event} (h : bus'.workers = bus.workers ++ [w]) (hr : w.received = []) :
    WorkersKept bus bus' := by
  refine ⟨fun j x hx => ⟨x, ?_, rfl⟩, fun j x hx => ?_⟩
  · rw [h, List.getElem?_append_left (List.getElem?_eq_some_iff.mp hx).1, hx]
  · rw [h] at hx
    rcases getElem?_concat_cases hx with hx | ⟨rfl, rfl⟩
    · exact .inl ⟨x, hx, rfl, rfl⟩
    · exact .inr ⟨List.getElem?_eq_none (Nat.le_refl _), hr⟩

theorem workersKept_of_set {j : Nat} {w w' : BusHandle Ty Event} (hj : bus.workers[j]? = some w)
    (h : bus'.workers = bus.workers.set j w') (htype : w'.type = w.type) (hr : w'.received = w.received) :
    WorkersKept bus bus' := by
  refine ⟨fun k x hx => ?_, fun k x hx => ?_⟩
  · rw [h]
    by_cases hk : k = j
    · subst hk
      obtain rfl := Option.some.inj (hj.symm.trans hx)
      exact ⟨w', List.getElem?_set_self (List.getElem?_eq_some_iff.mp hj).1, htype⟩
    · exact ⟨x, by rw [List.getElem?_set_ne (Ne.symm hk), hx], rfl⟩
  · rw [h] at hx
    rcases getElem?_set_cases hj hx with ⟨rfl, rfl⟩ | ⟨-, hx⟩
    · exact .inl ⟨w, hj, htype.symm, hr.symm⟩
    · exact .inl ⟨x, hx, rfl, rfl⟩

/-- What a step does to the work queues. -/
inductive QueueSteps (cfg : BusConfig) (bus : EventBus Ty Event) : BusAction Ty Event → EventBus Ty Event → Prop
  | accepts {i channel : Nat} {call : OpCall Ty Event} {event : Event} {bus' : EventBus Ty Event} :
      bus.calls[i]? = some call → call.phase = .obtained → call.channel = some channel → enqueued? call.op = some event →
      (bus.queues channel).length < cfg.workCapacity →
      bus'.queues = Function.update bus.queues channel (bus.queues channel ++ [event]) → bus'.workers = bus.workers →
      bus'.calls = bus.calls.set i { call with phase := .returned (.enqueued (.ok ())) } →
      bus'.registry = bus.registry → bus'.created = bus.created → QueueSteps cfg bus (.act i) bus'
  | takes {j : Nat} {w : BusHandle Ty Event} {event : Event} {rest : List Event} {bus' : EventBus Ty Event} :
      bus.workers[j]? = some w → bus.queues w.channel = event :: rest →
      bus'.queues = Function.update bus.queues w.channel rest →
      bus'.workers = bus.workers.set j { w with received := w.received ++ [event] } →
      bus'.calls = bus.calls → bus'.registry = bus.registry → bus'.created = bus.created → QueueSteps cfg bus (.recv j) bus'
  | quiet {a : BusAction Ty Event} {bus' : EventBus Ty Event} : bus'.queues = bus.queues → WorkersKept bus bus' →
      (∀ m, Accepts bus' m ↔ Accepts bus m) → Tallied.sent? bus' a = none → Tallied.taken? bus a = none →
      QueueSteps cfg bus a bus'

/-- A call ends without having been accepted. -/
theorem quiet_ends {i channel : Nat} {call : OpCall Ty Event} {joined : EventBus Ty Event} {phase : OpPhase Event}
    (hi : bus.calls[i]? = some call) (hp : call.phase = .obtained) (hj : Joined bus call channel joined)
    (hq : joined.queues = bus.queues) (hw : WorkersKept bus joined)
    (hnone : accepted? { call with phase := phase } = none) (ha : a = .act i ∨ a = .abandon i) :
    QueueSteps cfg bus a (joined.ends i call channel phase) := by
  obtain ⟨arcs, h⟩ := ends_eq joined i call channel phase
  have hbefore : accepted? call = none := accepted?_eq_none fun result h => by cases hp.symm.trans h
  have hcalls : (joined.ends i call channel phase).calls = bus.calls.set i { call with phase := phase } := by rw [h, ← hj.calls]
  refine .quiet (by rw [h, ← hq]) ?_ (accepts_set_of_none hi hbefore hcalls rfl hnone) ?_ ?_
  · rw [h]
    exact ⟨hw.stay, hw.from_⟩
  · rcases ha with rfl | rfl
    · simp only [Tallied.sent?, hcalls, List.getElem?_set_self (List.getElem?_eq_some_iff.mp hi).1, hnone, Option.map_none]
    · rfl
  · rcases ha with rfl | rfl <;> rfl

/-- What an act does with its channel. -/
theorem queueSteps_of_act {i channel : Nat} {call : OpCall Ty Event} (hi : bus.calls[i]? = some call)
    (hp : call.phase = .obtained) (hch : call.channel = some channel) (h : bus.act cfg i call channel = some bus') :
    QueueSteps cfg bus (.act i) bus' := by
  have hself : Joined bus call channel bus := joined_refl bus call channel
  have haccept : ∀ event, enqueued? call.op = some event → (bus.queues channel).length < cfg.workCapacity →
      QueueSteps cfg bus (.act i) ((bus.push channel event).ends i call channel (.returned (.enqueued (.ok ())))) := by
    intro event hop hlt
    obtain ⟨arcs, hends⟩ := ends_eq (bus.push channel event) i call channel (.returned (.enqueued (.ok ())))
    exact .accepts hi hp hch hop hlt (by rw [hends]; rfl) (by rw [hends]; rfl) (by rw [hends]; rfl) (by rw [hends]; rfl)
      (by rw [hends]; rfl)
  have hquiet : ∀ result, accepted? { call with phase := .returned result } = none →
      QueueSteps cfg bus (.act i) (bus.ends i call channel (.returned result)) := fun result hnone =>
    quiet_ends hi hp hself rfl (workersKept_of_eq rfl) hnone (.inl rfl)
  have hjoined := joined_of_act h
  unfold EventBus.act at h
  split at h
  · obtain rfl := Option.some.inj h
    exact hquiet _ rfl
  · obtain rfl := Option.some.inj h
    rename_i hop
    refine quiet_ends hi hp ⟨rfl, rfl, rfl, rfl, fun kind => ?_⟩ rfl (workersKept_of_eq rfl) rfl (.inl rfl)
    cases kind with
    | broadcast => exact .inr ⟨by rw [hop]; rfl, rfl⟩
    | work => exact .inl rfl
  · obtain rfl := Option.some.inj h
    exact hquiet _ rfl
  · rename_i event hop
    split at h
    · obtain rfl := Option.some.inj h
      exact hquiet _ rfl
    · split at h
      · obtain rfl := Option.some.inj h
        exact haccept event (by rw [hop]; rfl) (by assumption)
      · cases h
  · rename_i event hop
    split at h
    · obtain rfl := Option.some.inj h
      exact hquiet _ rfl
    · split at h
      · obtain rfl := Option.some.inj h
        exact haccept event (by rw [hop]; rfl) (by assumption)
      · obtain rfl := Option.some.inj h
        exact hquiet _ rfl
  · obtain rfl := Option.some.inj h
    rename_i hop
    refine quiet_ends hi hp ⟨rfl, rfl, rfl, rfl, fun kind => ?_⟩ rfl (workersKept_of_concat rfl rfl) rfl (.inl rfl)
    cases kind with
    | broadcast => exact .inl rfl
    | work => exact .inr ⟨by rw [hop]; rfl, rfl⟩

/-- A call that is set before it has its channel. -/
theorem quiet_set {i : Nat} {call call' : OpCall Ty Event} (hi : bus.calls[i]? = some call)
    (hnone : accepted? call = none) (hc : bus'.calls = bus.calls.set i call') (htype : call'.type = call.type)
    (hnone' : accepted? call' = none) (hq : bus'.queues = bus.queues) (hw : bus'.workers = bus.workers)
    (ha : a = .read i ∨ a = .write i) : QueueSteps cfg bus a bus' := by
  refine .quiet hq (workersKept_of_eq hw) (accepts_set_of_none hi hnone hc htype hnone') ?_ ?_
  · rcases ha with rfl | rfl <;> rfl
  · rcases ha with rfl | rfl <;> rfl

theorem quiet_obtains {i channel : Nat} {call : OpCall Ty Event} {inserted : EventBus Ty Event}
    (hi : bus.calls[i]? = some call) (hnone : accepted? call = none) (hc : inserted.calls = bus.calls)
    (hq : inserted.queues = bus.queues) (hw : inserted.workers = bus.workers) (ha : a = .read i ∨ a = .write i) :
    QueueSteps cfg bus a (inserted.obtains i call channel) := by
  obtain ⟨arcs, h⟩ := obtains_eq inserted i call channel
  have hcalls : (inserted.obtains i call channel).calls =
      bus.calls.set i { call with phase := .obtained, channel := some channel } := by
    rw [h, ← hc]
  refine quiet_set hi hnone hcalls rfl rfl ?_ ?_ ha
  · rw [h, ← hq]
  · rw [h, ← hw]

variable [DecidableEq Ty]

theorem quiet_read {i : Nat} {call : OpCall Ty Event} (hi : bus.calls[i]? = some call) (hnone : accepted? call = none) :
    QueueSteps cfg bus (.read i) (bus.readLocked i call) := by
  unfold EventBus.readLocked
  split
  · exact quiet_obtains hi hnone rfl rfl rfl (.inl rfl)
  · exact quiet_set hi hnone rfl rfl rfl rfl rfl (.inl rfl)

theorem quiet_write {i : Nat} {call : OpCall Ty Event} (hi : bus.calls[i]? = some call) (hnone : accepted? call = none) :
    QueueSteps cfg bus (.write i) (bus.writeLocked cfg i call) := by
  unfold EventBus.writeLocked
  split
  · exact quiet_obtains hi hnone rfl rfl rfl (.inr rfl)
  · split
    · obtain ⟨arcs, h⟩ := insert_eq bus call.op.kind call.type
      exact quiet_obtains hi hnone (by rw [h]) (by rw [h]) (by rw [h]) (.inr rfl)
    · exact quiet_set hi hnone rfl rfl rfl rfl rfl (.inr rfl)

theorem queueSteps_of_step (h : bus.step cfg a = some bus') : QueueSteps cfg bus a bus' := by
  cases a with
  | call type op =>
    obtain rfl := Option.some.inj h
    refine .quiet rfl (workersKept_of_eq rfl) (fun m => ?_) rfl rfl
    constructor
    · rintro ⟨c, hm, ht, he⟩
      rcases getElem?_concat_cases hm with hm | ⟨-, rfl⟩
      · exact ⟨c, hm, ht, he⟩
      · cases he
    · rintro ⟨c, hm, ht, he⟩
      exact ⟨c, by rw [List.getElem?_append_left (List.getElem?_eq_some_iff.mp hm).1, hm], ht, he⟩
  | read i =>
    simp only [EventBus.step] at h
    split at h
    · rename_i call hi
      split at h
      · rename_i hp
        obtain rfl := Option.some.inj h
        exact quiet_read hi (accepted?_eq_none fun result hr => by cases hp.symm.trans hr)
      · cases h
    · cases h
  | write i =>
    simp only [EventBus.step] at h
    split at h
    · rename_i call hi
      split at h
      · rename_i hp
        obtain rfl := Option.some.inj h
        exact quiet_write hi (accepted?_eq_none fun result hr => by cases hp.symm.trans hr)
      · cases h
    · cases h
  | act i =>
    simp only [EventBus.step] at h
    split at h
    · rename_i call hi
      split at h
      · rename_i hp hch
        exact queueSteps_of_act hi hp hch h
      · cases h
    · cases h
  | abandon i =>
    simp only [EventBus.step] at h
    split at h
    · rename_i call hi
      split at h
      · rename_i hw hch
        obtain rfl := Option.some.inj h
        unfold EventBus.awaits at hw
        split at hw
        · rename_i hp
          exact quiet_ends hi hp (joined_refl bus call _) rfl (workersKept_of_eq rfl) rfl (.inr rfl)
        · cases hw
      · cases h
    · cases h
  | dropSubscriber j =>
    simp only [EventBus.step] at h
    split at h
    · split at h
      · cases h
      · obtain rfl := Option.some.inj h
        exact .quiet rfl (workersKept_of_eq rfl) (accepts_congr rfl) rfl rfl
    · cases h
  | cloneWorker j =>
    simp only [EventBus.step] at h
    split at h
    · split at h
      · cases h
      · obtain rfl := Option.some.inj h
        exact .quiet rfl (workersKept_of_concat rfl rfl) (accepts_congr rfl) rfl rfl
    · cases h
  | dropWorker j =>
    simp only [EventBus.step] at h
    split at h
    · rename_i w hj
      split at h
      · cases h
      · obtain rfl := Option.some.inj h
        exact .quiet rfl (workersKept_of_set hj rfl rfl rfl) (accepts_congr rfl) rfl rfl
    · cases h
  | recv j =>
    simp only [EventBus.step] at h
    split at h
    · rename_i w hj
      split at h
      · cases h
      · split at h
        · rename_i hq
          obtain rfl := Option.some.inj h
          exact .takes hj hq rfl rfl rfl rfl rfl
        · cases h
    · cases h

/-! ## The tally -/

/-- What the tally says of a bus, and that no event waits for a channel that is
yet to be created. -/
structure TallyInv (cfg : BusConfig) (s : Tallied Ty Event) : Prop where
  inOrder : ∀ type, eventsOf type s.accepted = eventsOf type s.taken ++ backlog s.bus type
  accepted : ∀ m, m ∈ s.accepted ↔ Accepts s.bus m
  once : (s.accepted.map Movement.party).Nodup
  received : ∀ j w, s.bus.workers[j]? = some w →
    w.received = (s.taken.filter fun m => decide (m.party = j)).map Movement.event
  takers : ∀ m ∈ s.taken, ∃ w, s.bus.workers[m.party]? = some w ∧ w.type = m.type
  bounded : ∀ channel, (s.bus.queues channel).length ≤ cfg.workCapacity
  fresh : ∀ channel, s.bus.created ≤ channel → s.bus.queues channel = []

theorem tallyInv_new : TallyInv cfg (.new : Tallied Ty Event) where
  inOrder _ := rfl
  accepted m := ⟨fun h => absurd h List.not_mem_nil, fun ⟨_, h, _⟩ => by cases h⟩
  once := List.nodup_nil
  received j w h := by cases h
  takers _ h := absurd h List.not_mem_nil
  bounded _ := Nat.zero_le _
  fresh _ _ := rfl

@[simp] theorem eventsOf_append (type : Ty) (ms ms' : List (Movement Ty Event)) :
    eventsOf type (ms ++ ms') = eventsOf type ms ++ eventsOf type ms' := by
  simp [eventsOf]

theorem eventsOf_singleton (type : Ty) (m : Movement Ty Event) :
    eventsOf type [m] = if m.type = type then [m.event] else [] := by
  by_cases h : m.type = type <;> simp [eventsOf, h]

theorem backlog_of_lookup {type : Ty} {channel : Nat} (h : bus.lookup .work type = some channel) :
    backlog bus type = bus.queues channel := by
  rw [backlog, h]

/-- A channel that is created for a type is empty. -/
theorem backlog_of_queues_eq (hi : BusInv bus) (hr : Registered bus bus') (hq : bus'.queues = bus.queues)
    (hf : ∀ channel, bus.created ≤ channel → bus.queues channel = []) (type : Ty) :
    backlog bus' type = backlog bus type := by
  cases hl : bus.lookup .work type with
  | some channel => rw [backlog_of_lookup hl, backlog_of_lookup (lookup_kept (registry_kept hi hr) hl), hq]
  | none =>
    have hbefore : backlog bus type = [] := by rw [backlog, hl]
    rw [hbefore]
    cases hl' : bus'.lookup .work type with
    | none => rw [backlog, hl']
    | some channel =>
      rw [backlog_of_lookup hl', hq]
      rw [lookup_eq_some] at hl'
      rcases registry_after hr with ⟨heq, -⟩ | ⟨-, kind₀, type₀, hnew⟩
      · rw [heq, ← lookup_eq_some, hl] at hl'
        cases hl'
      · rcases hnew _ _ _ hl' with ho | ⟨-, -, he⟩
        · rw [← lookup_eq_some, hl] at ho
          cases ho
        · obtain rfl : channel = bus.created := congrArg ErasedChannel.channel he
          exact hf _ (Nat.le_refl _)

/-- One queue is changed. -/
theorem backlog_update (hi : BusInv bus) {type₀ : Ty} {channel : Nat} {q : List Event}
    (hl : bus.lookup .work type₀ = some channel) (hreg : bus'.registry = bus.registry)
    (hq : bus'.queues = Function.update bus.queues channel q) (type : Ty) :
    backlog bus' type = if type = type₀ then q else backlog bus type := by
  have hlookup : bus'.lookup .work type = bus.lookup .work type := by rw [EventBus.lookup, EventBus.lookup, hreg]
  by_cases ht : type = type₀
  · subst ht
    rw [backlog_of_lookup (hlookup.trans hl), hq, Function.update_self, if_pos rfl]
  · rw [if_neg ht]
    cases hl' : bus.lookup .work type with
    | none => rw [backlog, backlog, hlookup, hl']
    | some channel' =>
      have hne : channel' ≠ channel := by
        rintro rfl
        exact ht (hi.apart _ _ _ _ _ hl' hl).2
      rw [backlog_of_lookup (hlookup.trans hl'), backlog_of_lookup hl', hq, Function.update_of_ne hne]

theorem accepted_mem {s : Tallied Ty Event} {i : Nat} {call : OpCall Ty Event} (hi : TallyInv cfg s)
    (hcall : s.bus.calls[i]? = some call) (hp : call.phase = .obtained) : i ∉ s.accepted.map Movement.party := by
  intro hm
  obtain ⟨m, hmem, rfl⟩ := List.mem_map.mp hm
  obtain ⟨c, hc, -, he⟩ := (hi.accepted m).mp hmem
  obtain rfl := Option.some.inj (hcall.symm.trans hc)
  cases (accepted?_eq_none fun result h => by cases hp.symm.trans h).symm.trans he

/-- An event is accepted. -/
theorem tallyInv_accepts {s : Tallied Ty Event} {i channel : Nat} {call : OpCall Ty Event} {event : Event}
    (hb : BusInv s.bus) (hi : TallyInv cfg s) (hcall : s.bus.calls[i]? = some call) (hp : call.phase = .obtained)
    (hch : call.channel = some channel) (hop : enqueued? call.op = some event)
    (hlt : (s.bus.queues channel).length < cfg.workCapacity)
    (hq : bus'.queues = Function.update s.bus.queues channel (s.bus.queues channel ++ [event]))
    (hw : bus'.workers = s.bus.workers)
    (hc : bus'.calls = s.bus.calls.set i { call with phase := .returned (.enqueued (.ok ())) })
    (hreg : bus'.registry = s.bus.registry) (hcreated : bus'.created = s.bus.created) :
    TallyInv cfg ⟨bus', s.accepted ++ [⟨i, call.type, event⟩], s.taken⟩ := by
  have hl : s.bus.lookup .work call.type = some channel := by
    rw [← kind_of_enqueued hop]
    exact hb.calls call (List.mem_of_getElem? hcall) channel hch
  have hlt' : channel < s.bus.created := (hb.entry _ _ _ (lookup_eq_some.mp hl)).2
  have hbefore : accepted? call = none := accepted?_eq_none fun result h => by cases hp.symm.trans h
  refine ⟨fun type => ?_, fun m => ?_, ?_, fun j w hj => ?_, fun m hm => ?_, fun ch => ?_, fun ch hge => ?_⟩
  · show eventsOf type (s.accepted ++ _) = eventsOf type s.taken ++ backlog bus' type
    rw [eventsOf_append, eventsOf_singleton, hi.inOrder type, backlog_update hb hl hreg hq, List.append_assoc]
    by_cases ht : type = call.type
    · subst ht
      rw [if_pos rfl, if_pos rfl, backlog_of_lookup hl]
    · rw [if_neg (Ne.symm ht), if_neg ht, List.append_nil]
  · have hiff := accepts_set_iff hcall hbefore hc rfl m
    rw [List.mem_append, hi.accepted m, List.mem_singleton, hiff]
    refine or_congr_right ⟨?_, ?_⟩
    · rintro rfl
      exact ⟨rfl, rfl, hop⟩
    · rintro ⟨hparty, htype, he⟩
      obtain ⟨party, type, ev⟩ := m
      obtain rfl : party = i := hparty
      obtain rfl : type = call.type := htype
      obtain rfl : ev = event := (Option.some.inj (hop.symm.trans he)).symm
      rfl
  · show ((s.accepted ++ [_]).map Movement.party).Nodup
    rw [List.map_append, List.map_singleton, List.nodup_append]
    refine ⟨hi.once, by simp, fun j hj k hk => ?_⟩
    obtain rfl := List.mem_singleton.mp hk
    rintro rfl
    exact accepted_mem hi hcall hp hj
  · exact hi.received j w (hw ▸ hj)
  · obtain ⟨w, hw', ht⟩ := hi.takers m hm
    exact ⟨w, hw ▸ hw', ht⟩
  · show (bus'.queues ch).length ≤ _
    rw [hq]
    by_cases h : ch = channel
    · subst h
      rw [Function.update_self, List.length_append, List.length_singleton]
      exact hlt
    · rw [Function.update_of_ne h]
      exact hi.bounded ch
  · have hne : ch ≠ channel := by
      have hle : s.bus.created ≤ ch := hcreated ▸ hge
      omega
    show bus'.queues ch = []
    rw [hq, Function.update_of_ne hne]
    exact hi.fresh ch (hcreated ▸ hge)

/-- A worker takes an event. -/
theorem tallyInv_takes {s : Tallied Ty Event} {j : Nat} {w : BusHandle Ty Event} {event : Event} {rest : List Event}
    (hb : BusInv s.bus) (hi : TallyInv cfg s) (hj : s.bus.workers[j]? = some w)
    (hhead : s.bus.queues w.channel = event :: rest)
    (hq : bus'.queues = Function.update s.bus.queues w.channel rest)
    (hw : bus'.workers = s.bus.workers.set j { w with received := w.received ++ [event] })
    (hc : bus'.calls = s.bus.calls) (hreg : bus'.registry = s.bus.registry) (hcreated : bus'.created = s.bus.created) :
    TallyInv cfg ⟨bus', s.accepted, s.taken ++ [⟨j, w.type, event⟩]⟩ := by
  have hl : s.bus.lookup .work w.type = some w.channel := hb.handles .work w (List.mem_of_getElem? hj)
  have hlt : w.channel < s.bus.created := (hb.entry _ _ _ (lookup_eq_some.mp hl)).2
  have hset : bus'.workers[j]? = some { w with received := w.received ++ [event] } := by
    rw [hw, List.getElem?_set_self (List.getElem?_eq_some_iff.mp hj).1]
  refine ⟨fun type => ?_, fun m => (hi.accepted m).trans (accepts_congr hc m).symm, hi.once, fun k x hk => ?_,
    fun m hm => ?_, fun ch => ?_, fun ch hge => ?_⟩
  · show eventsOf type s.accepted = eventsOf type (s.taken ++ _) ++ backlog bus' type
    rw [eventsOf_append, eventsOf_singleton, hi.inOrder type, backlog_update hb hl hreg hq, List.append_assoc]
    by_cases ht : type = w.type
    · subst ht
      rw [if_pos rfl, if_pos rfl, backlog_of_lookup hl, hhead, List.singleton_append]
    · rw [if_neg (Ne.symm ht), if_neg ht, List.nil_append]
  · have hk' : (s.bus.workers.set j { w with received := w.received ++ [event] })[k]? = some x := hw ▸ hk
    show x.received = ((s.taken ++ [_]).filter _).map _
    rw [List.filter_append, List.map_append]
    rcases getElem?_set_cases hj hk' with ⟨rfl, rfl⟩ | ⟨hne, hx⟩
    · rw [← hi.received k w hj, List.filter_cons_of_pos (by simp), List.filter_nil, List.map_singleton]
    · rw [← hi.received k x hx, List.filter_cons_of_neg (by simpa using Ne.symm hne), List.filter_nil, List.map_nil,
        List.append_nil]
  · rcases List.mem_append.mp hm with hm | hm
    · obtain ⟨x, hx, ht⟩ := hi.takers m hm
      by_cases hp : m.party = j
      · rw [hp] at hx ⊢
        obtain rfl := Option.some.inj (hj.symm.trans hx)
        exact ⟨_, hset, ht⟩
      · exact ⟨x, by show bus'.workers[m.party]? = _; rw [hw, List.getElem?_set_ne (Ne.symm hp), hx], ht⟩
    · obtain rfl := List.mem_singleton.mp hm
      exact ⟨_, hset, rfl⟩
  · show (bus'.queues ch).length ≤ _
    rw [hq]
    by_cases h : ch = w.channel
    · subst h
      rw [Function.update_self]
      have hle := hi.bounded w.channel
      rw [hhead, List.length_cons] at hle
      omega
    · rw [Function.update_of_ne h]
      exact hi.bounded ch
  · have hne : ch ≠ w.channel := by
      have hle : s.bus.created ≤ ch := hcreated ▸ hge
      omega
    show bus'.queues ch = []
    rw [hq, Function.update_of_ne hne]
    exact hi.fresh ch (hcreated ▸ hge)

/-- Nothing is sent or taken. -/
theorem tallyInv_quiet {s : Tallied Ty Event} (hb : BusInv s.bus) (hi : TallyInv cfg s) (hr : Registered s.bus bus')
    (hq : bus'.queues = s.bus.queues) (hw : WorkersKept s.bus bus') (hm : ∀ m, Accepts bus' m ↔ Accepts s.bus m) :
    TallyInv cfg ⟨bus', s.accepted, s.taken⟩ := by
  have hcreated : s.bus.created ≤ bus'.created := by
    rcases registry_after hr with ⟨-, h⟩ | ⟨h, -⟩ <;> omega
  refine ⟨fun type => ?_, fun m => (hi.accepted m).trans (hm m).symm, hi.once, fun j w hj => ?_, fun m hm => ?_,
    fun ch => ?_, fun ch hge => ?_⟩
  · rw [backlog_of_queues_eq hb hr hq hi.fresh]
    exact hi.inOrder type
  · rcases hw.from_ j w hj with ⟨w₀, hj₀, -, hrec⟩ | ⟨hnone, hrec⟩
    · rw [← hrec]
      exact hi.received j w₀ hj₀
    · have hnot : s.taken.filter (fun m => decide (m.party = j)) = [] := by
        refine List.filter_eq_nil_iff.mpr fun m hm hp => ?_
        obtain ⟨w₀, hw₀, -⟩ := hi.takers m hm
        rw [of_decide_eq_true hp, hnone] at hw₀
        cases hw₀
      rw [hrec]
      show [] = (s.taken.filter _).map _
      rw [hnot, List.map_nil]
  · obtain ⟨w, hw₀, ht⟩ := hi.takers m hm
    obtain ⟨w', hw', ht'⟩ := hw.stay _ w hw₀
    exact ⟨w', hw', ht'.trans ht⟩
  · show (bus'.queues ch).length ≤ _
    rw [hq]
    exact hi.bounded ch
  · show bus'.queues ch = []
    rw [hq]
    exact hi.fresh ch (Nat.le_trans hcreated hge)

theorem tallyInv_step {s s' : Tallied Ty Event} (hb : BusInv s.bus) (hi : TallyInv cfg s) (h : s.step cfg a = some s') :
    TallyInv cfg s' := by
  obtain ⟨bus', hs, rfl⟩ := Option.map_eq_some_iff.mp h
  have hr : Registered s.bus bus' := (moves_of_step (busSteps_of_step hs)).registered
  cases queueSteps_of_step hs with
  | @accepts i channel call event _ hcall hp hch hop hlt hq hw hc hreg hcreated =>
    have hsent : Tallied.sent? bus' (.act i) = some ⟨i, call.type, event⟩ := by
      simp only [Tallied.sent?, hc, List.getElem?_set_self (List.getElem?_eq_some_iff.mp hcall).1, accepted?, hop,
        Option.map_some]
    rw [hsent]
    show TallyInv cfg ⟨bus', s.accepted ++ [_], s.taken ++ []⟩
    rw [List.append_nil]
    exact tallyInv_accepts hb hi hcall hp hch hop hlt hq hw hc hreg hcreated
  | @takes j w event rest _ hj hhead hq hw hc hreg hcreated =>
    have htaken : Tallied.taken? s.bus (.recv j) = some ⟨j, w.type, event⟩ := by
      simp only [Tallied.taken?, hj, hhead, List.head?_cons, Option.map_some]
    rw [htaken]
    show TallyInv cfg ⟨bus', s.accepted ++ [], s.taken ++ [_]⟩
    rw [List.append_nil]
    exact tallyInv_takes hb hi hj hhead hq hw hc hreg hcreated
  | quiet hq hw hm hsent htaken =>
    rw [hsent, htaken, Option.toList_none, List.append_nil, List.append_nil]
    exact tallyInv_quiet hb hi hr hq hw hm

/-! ## The hand-out -/

theorem tallied_of_exec {s : Tallied Ty Event} {as : List (BusAction Ty Event)}
    (h : exec (Tallied.step cfg) .new as = some s) : BusReachable cfg s.bus ∧ TallyInv cfg s := by
  refine exec_invariant (I := fun s => BusReachable cfg s.bus ∧ TallyInv cfg s) (fun hi hs => ?_)
    ⟨.init rfl, tallyInv_new⟩ h
  obtain ⟨bus', hbus, hs'⟩ := Option.map_eq_some_iff.mp hs
  refine ⟨?_, tallyInv_step (busInv_of_reachable hi.1) hi.2 hs⟩
  rw [← hs']
  exact hi.1.step trivial hbus

theorem bounded_backlog {s : Tallied Ty Event} (hi : TallyInv cfg s) (type : Ty) :
    (backlog s.bus type).length ≤ cfg.workCapacity := by
  unfold backlog
  split
  · exact hi.bounded _
  · exact Nat.zero_le _

theorem recv_of_backlog (hb : BusInv bus) {j : Nat} {w : BusHandle Ty Event} (hj : bus.workers[j]? = some w)
    (hlive : w.dropped = false) (hne : backlog bus w.type ≠ []) : (bus.step cfg (.recv j)).isSome = true := by
  rw [backlog_of_lookup (hb.handles .work w (List.mem_of_getElem? hj))] at hne
  obtain ⟨event, rest, hq⟩ := List.exists_cons_of_ne_nil hne
  simp [EventBus.step, hj, hlive, hq]

theorem act_of_room (h : BusReachable cfg bus) {i : Nat} {type : Ty} {event : Event} (hs : Sends bus i type event)
    (hroom : (backlog bus type).length < cfg.workCapacity) :
    ∃ bus' call, bus.step cfg (.act i) = some bus' ∧ bus'.calls[i]? = some call ∧ accepted? call = some event := by
  obtain ⟨call, channel, hi, rfl, hop, hp, hch⟩ := hs
  have hl : bus.lookup .work call.type = some channel := by
    rw [← kind_of_enqueued hop]
    exact (busInv_of_reachable h).calls call (List.mem_of_getElem? hi) channel hch
  rw [backlog_of_lookup hl] at hroom
  obtain ⟨arcs, hends⟩ := ends_eq (bus.push channel event) i call channel (.returned (.enqueued (.ok ())))
  refine ⟨_, { call with phase := .returned (.enqueued (.ok ())) }, by rw [act_open h hi hop hp hch, if_pos hroom], ?_, hop⟩
  rw [hends]
  exact List.getElem?_set_self (List.getElem?_eq_some_iff.mp hi).1

/-- Whatever calls are made on the clones of a bus, in any order of their steps:
each event that a call has sent is handed to one worker of its type, in the order
of the sends, or is in the queue. -/
theorem hands_out {s : Tallied Ty Event} {as : List (BusAction Ty Event)}
    (h : exec (Tallied.step cfg) .new as = some s) : HandsOut cfg s := by
  obtain ⟨hr, hi⟩ := tallied_of_exec h
  exact {
    inOrder := hi.inOrder
    accepted := hi.accepted
    once := hi.once
    received := hi.received
    takers := hi.takers
    bounded := bounded_backlog hi
    flows := fun _ _ hj hlive hne => recv_of_backlog (busInv_of_reachable hr) hj hlive hne
    waits := fun _ _ _ hs hroom => act_of_room hr hs hroom }

/-- Two workers for one type, a sender before both and one after. -/
def twoWorkers : List (BusAction String Nat) :=
  [.call "Email" (.tryEnqueue 1), .call "Email" .worker, .read 0, .read 1, .write 1, .write 0, .act 0, .act 1,
    .call "Email" .worker, .call "Email" (.enqueue 2), .read 2, .read 3, .act 3, .act 2, .recv 1, .recv 0]

theorem hands_out_twoWorkers : ∃ s, exec (Tallied.step .default) .new twoWorkers = some s ∧
    s.bus.workers.map BusHandle.received = [[2], [1]] ∧ HandsOut .default s := by
  obtain ⟨s, hrun, hrec⟩ : ∃ s, exec (Tallied.step .default) .new twoWorkers = some s ∧
      s.bus.workers.map BusHandle.received = [[2], [1]] := ⟨_, rfl, rfl⟩
  exact ⟨s, hrun, hrec, hands_out hrun⟩

end WalaStack.Proof.Runtime
