import WalaStack.Spec.EventBus
import WalaStack.Framework.Parties

/-!
# One channel per event type

`BusSteps` is what a step does, `BusMoves` what of it concerns the registries,
the calls and the handles.
An entry is inserted only where the lookup under the same lock found none, so
that none is replaced (`registry_kept`), and the channel of each call and each
handle is its type's entry (`BusInv`). While a call sends, its `WorkChannel` has
a receiver by itself, so that the work queue never closes (`act_open`).
-/

namespace WalaStack.Proof.Runtime

open WalaStack.Impl.Runtime WalaStack.Spec.Runtime WalaStack.Transition WalaStack.Parties

variable {Ty Event : Type} {cfg : BusConfig} {bus bus' : EventBus Ty Event} {a : BusAction Ty Event}
  {kind : ChannelKind} {type : Ty} {channel : Nat}

/-! ## References -/

theorem retain_eq (bus : EventBus Ty Event) (kind : ChannelKind) (channel : Nat) :
    ∃ arcs, bus.retain kind channel = { bus with arcs := arcs } := by
  cases kind with
  | broadcast => exact ⟨_, rfl⟩
  | work => exact ⟨_, rfl⟩

theorem release_eq (bus : EventBus Ty Event) (kind : ChannelKind) (channel : Nat) :
    ∃ arcs, bus.release kind channel = { bus with arcs := arcs } := by
  cases kind with
  | broadcast => exact ⟨_, rfl⟩
  | work => exact ⟨_, rfl⟩

theorem obtains_eq (bus : EventBus Ty Event) (i : Nat) (call : OpCall Ty Event) (channel : Nat) :
    ∃ arcs, bus.obtains i call channel = { bus with
      arcs := arcs
      calls := bus.calls.set i { call with phase := .obtained, channel := some channel } } := by
  obtain ⟨arcs, h⟩ := retain_eq bus call.op.kind channel
  exact ⟨arcs, by rw [EventBus.obtains, h, EventBus.setCall]⟩

theorem ends_eq (bus : EventBus Ty Event) (i : Nat) (call : OpCall Ty Event) (channel : Nat) (phase : OpPhase Event) :
    ∃ arcs, bus.ends i call channel phase = { bus with
      arcs := arcs
      calls := bus.calls.set i { call with phase := phase } } := by
  obtain ⟨arcs, h⟩ := release_eq bus call.op.kind channel
  exact ⟨arcs, by rw [EventBus.ends, h, EventBus.setCall]⟩

variable [DecidableEq Ty]

theorem insert_eq (bus : EventBus Ty Event) (kind : ChannelKind) (type : Ty) :
    ∃ arcs, bus.insert kind type = { bus with
      arcs := arcs
      registry := Function.update bus.registry kind
        (Function.update (bus.registry kind) type (some ⟨kind, type, bus.created⟩))
      created := bus.created + 1 } := by
  unfold EventBus.insert
  cases bus.registry kind type with
  | none =>
    obtain ⟨arcs, h⟩ := retain_eq bus kind bus.created
    exact ⟨arcs, by simp only [h]⟩
  | some e =>
    obtain ⟨arcs, h⟩ := release_eq bus e.kind e.channel
    obtain ⟨arcs', h'⟩ := retain_eq { bus with arcs := arcs } kind bus.created
    exact ⟨arcs', by simp only [h, h']⟩

theorem registry_insert_self (bus : EventBus Ty Event) (kind : ChannelKind) (type : Ty) :
    (bus.insert kind type).registry kind type = some ⟨kind, type, bus.created⟩ := by
  obtain ⟨arcs, h⟩ := insert_eq bus kind type
  rw [h]
  show Function.update bus.registry kind _ kind type = _
  rw [Function.update_self, Function.update_self]

theorem registry_insert_of_ne (bus : EventBus Ty Event) {kind kind' : ChannelKind} {type type' : Ty}
    (h : ¬ (kind' = kind ∧ type' = type)) : (bus.insert kind type).registry kind' type' = bus.registry kind' type' := by
  obtain ⟨arcs, heq⟩ := insert_eq bus kind type
  rw [heq]
  show Function.update bus.registry kind _ kind' type' = _
  by_cases hk : kind' = kind
  · subst hk
    rw [Function.update_self, Function.update_of_ne fun ht => h ⟨rfl, ht⟩]
  · rw [Function.update_of_ne hk]

theorem lookup_eq_some : bus.lookup kind type = some channel ↔ bus.registry kind type = some ⟨kind, type, channel⟩ := by
  rw [EventBus.lookup, Option.bind_eq_some_iff]
  constructor
  · rintro ⟨⟨k, t, ch⟩, hreg, hdown⟩
    rw [ErasedChannel.downcast] at hdown
    split at hdown
    · rename_i h
      obtain ⟨rfl, rfl⟩ := h
      obtain rfl := Option.some.inj hdown
      exact hreg
    · cases hdown
  · intro hreg
    exact ⟨_, hreg, if_pos ⟨rfl, rfl⟩⟩

/-! ## Steps -/

/-- The bus with what a call adds to it before it ends: an event, or a handle of
its own. -/
structure Joined (bus : EventBus Ty Event) (call : OpCall Ty Event) (channel : Nat) (joined : EventBus Ty Event) : Prop where
  calls : joined.calls = bus.calls
  registry : joined.registry = bus.registry
  created : joined.created = bus.created
  arcs : joined.arcs = bus.arcs
  handles (kind : ChannelKind) : handles joined kind = handles bus kind ∨
    kind = call.op.kind ∧ handles joined kind = handles bus kind ++ [⟨call.type, channel, false, []⟩]

omit [DecidableEq Ty] in
theorem joined_refl (bus : EventBus Ty Event) (call : OpCall Ty Event) (channel : Nat) : Joined bus call channel bus :=
  ⟨rfl, rfl, rfl, rfl, fun _ => .inl rfl⟩

/-- What a step does. -/
inductive BusSteps (cfg : BusConfig) (bus : EventBus Ty Event) : BusAction Ty Event → EventBus Ty Event → Prop
  | called (type : Ty) (op : BusOp Event) :
      BusSteps cfg bus (.call type op) { bus with calls := bus.calls ++ [⟨type, op, .fast, none⟩] }
  | read {i : Nat} {call : OpCall Ty Event} : bus.calls[i]? = some call → call.phase = .fast →
      BusSteps cfg bus (.read i) (bus.readLocked i call)
  | wrote {i : Nat} {call : OpCall Ty Event} : bus.calls[i]? = some call → call.phase = .slow →
      BusSteps cfg bus (.write i) (bus.writeLocked cfg i call)
  | acted {i channel : Nat} {call : OpCall Ty Event} {joined : EventBus Ty Event} {result : BusResult Event} :
      bus.calls[i]? = some call → call.phase = .obtained → call.channel = some channel → Joined bus call channel joined →
      BusSteps cfg bus (.act i) (joined.ends i call channel (.returned result))
  | abandoned {i channel : Nat} {call : OpCall Ty Event} : bus.calls[i]? = some call → call.phase = .obtained →
      call.channel = some channel → BusSteps cfg bus (.abandon i) (bus.ends i call channel .dropped)
  | handled {a : BusAction Ty Event} {bus' : EventBus Ty Event} : bus'.calls = bus.calls →
      bus'.registry = bus.registry → bus'.created = bus.created → bus'.arcs = bus.arcs →
      (∀ kind, ∀ h ∈ handles bus' kind, ∃ h₀ ∈ handles bus kind, h₀.type = h.type ∧ h₀.channel = h.channel) →
      BusSteps cfg bus a bus'

omit [DecidableEq Ty] in
/-- A call that acts ends, after it has added what it adds. -/
theorem joined_of_act {i : Nat} {call : OpCall Ty Event} (h : bus.act cfg i call channel = some bus') :
    ∃ joined result, Joined bus call channel joined ∧ bus' = joined.ends i call channel (.returned result) := by
  have hpush : ∀ event : Event, Joined bus call channel (bus.push channel event) := fun event =>
    ⟨rfl, rfl, rfl, rfl, fun kind => .inl (by cases kind <;> rfl)⟩
  unfold EventBus.act at h
  split at h
  · exact ⟨bus, _, joined_refl bus _ _, (Option.some.inj h).symm⟩
  · rename_i hop
    refine ⟨_, _, ?_, (Option.some.inj h).symm⟩
    refine ⟨rfl, rfl, rfl, rfl, fun kind => ?_⟩
    cases kind with
    | broadcast => exact .inr ⟨by rw [hop]; rfl, rfl⟩
    | work => exact .inl rfl
  · exact ⟨bus, _, joined_refl bus _ _, (Option.some.inj h).symm⟩
  · split at h
    · exact ⟨bus, _, joined_refl bus _ _, (Option.some.inj h).symm⟩
    · split at h
      · exact ⟨_, _, hpush _, (Option.some.inj h).symm⟩
      · cases h
  · split at h
    · exact ⟨bus, _, joined_refl bus _ _, (Option.some.inj h).symm⟩
    · split at h
      · exact ⟨_, _, hpush _, (Option.some.inj h).symm⟩
      · exact ⟨bus, _, joined_refl bus _ _, (Option.some.inj h).symm⟩
  · rename_i hop
    refine ⟨_, _, ?_, (Option.some.inj h).symm⟩
    refine ⟨rfl, rfl, rfl, rfl, fun kind => ?_⟩
    cases kind with
    | broadcast => exact .inl rfl
    | work => exact .inr ⟨by rw [hop]; rfl, rfl⟩

omit [DecidableEq Ty] in
/-- One handle is set, with its type and channel as they were. -/
theorem mem_set_handle {l : List (BusHandle Ty Event)} {j : Nat} {h h' x : BusHandle Ty Event} (hj : l[j]? = some h)
    (hx : x ∈ l.set j h') (htype : h'.type = h.type) (hch : h'.channel = h.channel) :
    ∃ h₀ ∈ l, h₀.type = x.type ∧ h₀.channel = x.channel := by
  rcases List.mem_or_eq_of_mem_set hx with hx | rfl
  · exact ⟨x, hx, rfl, rfl⟩
  · exact ⟨h, List.mem_of_getElem? hj, htype.symm, hch.symm⟩

theorem busSteps_of_step (h : bus.step cfg a = some bus') : BusSteps cfg bus a bus' := by
  cases a with
  | call type op =>
    obtain rfl := Option.some.inj h
    exact .called type op
  | read i =>
    simp only [EventBus.step] at h
    split at h
    · rename_i call hi
      split at h
      · rename_i hp
        obtain rfl := Option.some.inj h
        exact .read hi hp
      · cases h
    · cases h
  | write i =>
    simp only [EventBus.step] at h
    split at h
    · rename_i call hi
      split at h
      · rename_i hp
        obtain rfl := Option.some.inj h
        exact .wrote hi hp
      · cases h
    · cases h
  | act i =>
    simp only [EventBus.step] at h
    split at h
    · rename_i call hi
      split at h
      · rename_i hp hch
        obtain ⟨joined, result, hj, rfl⟩ := joined_of_act h
        exact .acted hi hp hch hj
      · cases h
    · cases h
  | abandon i =>
    simp only [EventBus.step] at h
    split at h
    · rename_i call hi
      split at h
      · rename_i hw hch
        obtain rfl := Option.some.inj h
        unfold EventBus.awaits at hw
        split at hw
        · rename_i hp
          exact .abandoned hi hp hch
        · cases hw
      · cases h
    · cases h
  | dropSubscriber j =>
    simp only [EventBus.step] at h
    split at h
    · rename_i x hj
      split at h
      · cases h
      · obtain rfl := Option.some.inj h
        refine .handled rfl rfl rfl rfl fun kind y hy => ?_
        cases kind with
        | broadcast => exact mem_set_handle hj hy rfl rfl
        | work => exact ⟨y, hy, rfl, rfl⟩
    · cases h
  | cloneWorker j =>
    simp only [EventBus.step] at h
    split at h
    · rename_i x hj
      split at h
      · cases h
      · obtain rfl := Option.some.inj h
        refine .handled rfl rfl rfl rfl fun kind y hy => ?_
        cases kind with
        | broadcast => exact ⟨y, hy, rfl, rfl⟩
        | work =>
          rcases List.mem_append.mp hy with hy | hy
          · exact ⟨y, hy, rfl, rfl⟩
          · obtain rfl := List.mem_singleton.mp hy
            exact ⟨x, List.mem_of_getElem? hj, rfl, rfl⟩
    · cases h
  | dropWorker j =>
    simp only [EventBus.step] at h
    split at h
    · rename_i x hj
      split at h
      · cases h
      · obtain rfl := Option.some.inj h
        refine .handled rfl rfl rfl rfl fun kind y hy => ?_
        cases kind with
        | broadcast => exact ⟨y, hy, rfl, rfl⟩
        | work => exact mem_set_handle hj hy rfl rfl
    · cases h
  | recv j =>
    simp only [EventBus.step] at h
    split at h
    · rename_i x hj
      split at h
      · cases h
      · split at h
        · obtain rfl := Option.some.inj h
          refine .handled rfl rfl rfl rfl fun kind y hy => ?_
          cases kind with
          | broadcast => exact ⟨y, hy, rfl, rfl⟩
          | work => exact mem_set_handle hj hy rfl rfl
        · cases h
    · cases h

/-! ## What moves -/

/-- The registries are as they were, or have a new entry where there was none. -/
inductive Registered (bus bus' : EventBus Ty Event) : Prop
  | same : bus'.registry = bus.registry → bus'.created = bus.created → Registered bus bus'
  | inserted {kind : ChannelKind} {type : Ty} : bus.lookup kind type = none →
      bus'.registry = (bus.insert kind type).registry → bus'.created = bus.created + 1 → Registered bus bus'

/-- The calls go on, and a channel that one of them obtains is in the registry. -/
def CallsObtain (bus bus' : EventBus Ty Event) : Prop :=
  ∀ call ∈ bus'.calls, (∃ call₀ ∈ bus.calls, call₀.op = call.op ∧ call₀.type = call.type ∧ call₀.channel = call.channel) ∨
    ∀ channel, call.channel = some channel → bus'.lookup call.op.kind call.type = some channel

/-- A new handle is on the channel of a call of its type, or of a handle. -/
def HandlesFrom (bus bus' : EventBus Ty Event) : Prop :=
  ∀ kind, ∀ h ∈ handles bus' kind, (∃ h₀ ∈ handles bus kind, h₀.type = h.type ∧ h₀.channel = h.channel) ∨
    ∃ call ∈ bus.calls, call.op.kind = kind ∧ call.type = h.type ∧ call.channel = some h.channel

structure BusMoves (bus bus' : EventBus Ty Event) : Prop where
  registered : Registered bus bus'
  calls : CallsObtain bus bus'
  handles : HandlesFrom bus bus'

omit [DecidableEq Ty] in
theorem handlesFrom_of_eq (hs : bus'.subscribers = bus.subscribers) (hw : bus'.workers = bus.workers) :
    HandlesFrom bus bus' := by
  intro kind h hm
  refine .inl ⟨h, ?_, rfl, rfl⟩
  cases kind with
  | broadcast => rwa [handles, hs] at hm
  | work => rwa [handles, hw] at hm

theorem callsObtain_of_eq (hc : bus'.calls = bus.calls) : CallsObtain bus bus' := fun call hm =>
  .inl ⟨call, hc ▸ hm, rfl, rfl, rfl⟩

/-- Call `i` goes on. -/
theorem callsObtain_of_set {i : Nat} {call call' : OpCall Ty Event} (hi : bus.calls[i]? = some call)
    (hc : bus'.calls = bus.calls.set i call') (hop : call'.op = call.op) (htype : call'.type = call.type)
    (hch : call'.channel = call.channel ∨
      ∀ channel, call'.channel = some channel → bus'.lookup call.op.kind call.type = some channel) :
    CallsObtain bus bus' := by
  intro c hm
  rw [hc] at hm
  rcases List.mem_or_eq_of_mem_set hm with hm | rfl
  · exact .inl ⟨c, hm, rfl, rfl, rfl⟩
  · rcases hch with hch | hch
    · exact .inl ⟨call, List.mem_of_getElem? hi, hop.symm, htype.symm, hch.symm⟩
    · rw [hop, htype]
      exact .inr hch

/-- A call that was set leaves everything else as it was. -/
theorem moves_of_set {i : Nat} {call call' : OpCall Ty Event} (hi : bus.calls[i]? = some call)
    (hc : bus'.calls = bus.calls.set i call') (hop : call'.op = call.op) (htype : call'.type = call.type)
    (hch : call'.channel = call.channel ∨
      ∀ channel, call'.channel = some channel → bus'.lookup call.op.kind call.type = some channel)
    (hreg : bus'.registry = bus.registry) (hcreated : bus'.created = bus.created)
    (hs : bus'.subscribers = bus.subscribers) (hw : bus'.workers = bus.workers) : BusMoves bus bus' :=
  ⟨.same hreg hcreated, callsObtain_of_set hi hc hop htype hch, handlesFrom_of_eq hs hw⟩

theorem moves_of_obtains {i : Nat} {call : OpCall Ty Event} (hi : bus.calls[i]? = some call)
    (hl : bus.lookup call.op.kind call.type = some channel) : BusMoves bus (bus.obtains i call channel) := by
  obtain ⟨arcs, h⟩ := obtains_eq bus i call channel
  rw [h]
  refine moves_of_set hi rfl rfl rfl (.inr fun channel' hc => ?_) rfl rfl rfl rfl
  obtain rfl := Option.some.inj hc
  exact hl

theorem moves_of_read {i : Nat} {call : OpCall Ty Event} (hi : bus.calls[i]? = some call) :
    BusMoves bus (bus.readLocked i call) := by
  unfold EventBus.readLocked
  split
  · rename_i hl
    exact moves_of_obtains hi hl
  · exact moves_of_set hi rfl rfl rfl (.inl rfl) rfl rfl rfl rfl

theorem moves_of_write {i : Nat} {call : OpCall Ty Event} (hi : bus.calls[i]? = some call) :
    BusMoves bus (bus.writeLocked cfg i call) := by
  unfold EventBus.writeLocked
  split
  · rename_i hl
    exact moves_of_obtains hi hl
  · rename_i hl
    split
    · obtain ⟨arcs, hins⟩ := insert_eq bus call.op.kind call.type
      obtain ⟨arcs', hob⟩ := obtains_eq { bus with
        arcs := arcs
        registry := Function.update bus.registry call.op.kind
          (Function.update (bus.registry call.op.kind) call.type (some ⟨call.op.kind, call.type, bus.created⟩))
        created := bus.created + 1 } i call bus.created
      have hself := registry_insert_self bus call.op.kind call.type
      rw [hins] at hself
      rw [hins, hob]
      refine ⟨.inserted hl (by rw [hins]) rfl, callsObtain_of_set hi rfl rfl rfl (.inr fun channel hc => ?_),
        handlesFrom_of_eq rfl rfl⟩
      obtain rfl := Option.some.inj hc
      exact lookup_eq_some.mpr hself
    · exact moves_of_set hi rfl rfl rfl (.inl rfl) rfl rfl rfl rfl

theorem moves_of_act {i : Nat} {call : OpCall Ty Event} {joined : EventBus Ty Event} {phase : OpPhase Event}
    (hi : bus.calls[i]? = some call) (hch : call.channel = some channel) (h : Joined bus call channel joined) :
    BusMoves bus (joined.ends i call channel phase) := by
  obtain ⟨arcs, heq⟩ := ends_eq joined i call channel phase
  rw [heq, h.calls]
  refine ⟨.same h.registry h.created, callsObtain_of_set hi rfl rfl rfl (.inl rfl), fun kind x hx => ?_⟩
  have hx' : x ∈ handles joined kind := by cases kind <;> exact hx
  rcases h.handles kind with heq | ⟨rfl, heq⟩ <;> rw [heq] at hx'
  · exact .inl ⟨x, hx', rfl, rfl⟩
  · rcases List.mem_append.mp hx' with hx' | hx'
    · exact .inl ⟨x, hx', rfl, rfl⟩
    · obtain rfl := List.mem_singleton.mp hx'
      exact .inr ⟨call, List.mem_of_getElem? hi, rfl, rfl, hch⟩

theorem moves_of_step (h : BusSteps cfg bus a bus') : BusMoves bus bus' := by
  cases h with
  | called type op =>
    refine ⟨.same rfl rfl, fun c hm => ?_, handlesFrom_of_eq rfl rfl⟩
    rcases List.mem_append.mp hm with hm | hm
    · exact .inl ⟨c, hm, rfl, rfl, rfl⟩
    · obtain rfl := List.mem_singleton.mp hm
      exact .inr fun channel hc => by cases hc
  | read hi hp => exact moves_of_read hi
  | wrote hi hp => exact moves_of_write hi
  | acted hi hp hch hj => exact moves_of_act hi hch hj
  | abandoned hi hp hch => exact moves_of_act hi hch (joined_refl bus _ _)
  | handled hc hreg hcreated harcs hh => exact ⟨.same hreg hcreated, callsObtain_of_eq hc, fun kind h hm => .inl (hh kind h hm)⟩

/-! ## The entries of the registries -/

structure BusInv (bus : EventBus Ty Event) : Prop where
  entry (kind : ChannelKind) (type : Ty) (e : ErasedChannel Ty) : bus.registry kind type = some e →
    bus.lookup kind type = some e.channel ∧ e.channel < bus.created
  apart (kind kind' : ChannelKind) (type type' : Ty) (channel : Nat) : bus.lookup kind type = some channel →
    bus.lookup kind' type' = some channel → kind = kind' ∧ type = type'
  calls : ∀ call ∈ bus.calls, ∀ channel, call.channel = some channel →
    bus.lookup call.op.kind call.type = some channel
  handles (kind : ChannelKind) : ∀ h ∈ handles bus kind, bus.lookup kind h.type = some h.channel

theorem busInv_new : BusInv (.new : EventBus Ty Event) where
  entry _ _ _ h := by cases h
  apart _ _ _ _ _ h := by cases h
  calls _ h := absurd h List.not_mem_nil
  handles kind _ h := by cases kind <;> exact absurd h List.not_mem_nil

theorem BusInv.entry_none (hi : BusInv bus) (hl : bus.lookup kind type = none) : bus.registry kind type = none := by
  cases hreg : bus.registry kind type with
  | none => rfl
  | some e => cases hl.symm.trans (hi.entry kind type e hreg).1

/-- An entry once inserted is never replaced. -/
theorem registry_kept (hi : BusInv bus) (h : Registered bus bus') : EntriesKept bus bus' := by
  intro kind type e hreg
  cases h with
  | same hr _ => rw [hr, hreg]
  | @inserted kind' type' hl hr _ =>
    have hne : ¬ (kind = kind' ∧ type = type') := by
      rintro ⟨rfl, rfl⟩
      cases (hi.entry_none hl).symm.trans hreg
    rw [hr, registry_insert_of_ne bus hne, hreg]

theorem lookup_kept (h : EntriesKept bus bus') (hl : bus.lookup kind type = some channel) :
    bus'.lookup kind type = some channel := by
  rw [lookup_eq_some] at hl ⊢
  exact h kind type _ hl

/-- A new entry is for the channel that was created with it. -/
theorem registry_after (h : Registered bus bus') : bus'.registry = bus.registry ∧ bus'.created = bus.created ∨
    bus'.created = bus.created + 1 ∧ ∃ kind₀ type₀, ∀ kind type e, bus'.registry kind type = some e →
      bus.registry kind type = some e ∨ (kind = kind₀ ∧ type = type₀ ∧ e = ⟨kind₀, type₀, bus.created⟩) := by
  cases h with
  | same hr hc => exact .inl ⟨hr, hc⟩
  | @inserted kind₀ type₀ hnone hr hc =>
    refine .inr ⟨hc, kind₀, type₀, fun kind type e hreg => ?_⟩
    rw [hr] at hreg
    by_cases hne : kind = kind₀ ∧ type = type₀
    · obtain ⟨rfl, rfl⟩ := hne
      rw [registry_insert_self] at hreg
      exact .inr ⟨rfl, rfl, (Option.some.inj hreg).symm⟩
    · rw [registry_insert_of_ne bus hne] at hreg
      exact .inl hreg

theorem entries_step (hi : BusInv bus) (h : Registered bus bus') (kind : ChannelKind) (type : Ty) (e : ErasedChannel Ty)
    (hreg : bus'.registry kind type = some e) :
    bus'.lookup kind type = some e.channel ∧ e.channel < bus'.created := by
  have hold : bus.registry kind type = some e → bus'.lookup kind type = some e.channel ∧ e.channel < bus.created :=
    fun ho => (hi.entry kind type e ho).imp_left (lookup_kept (registry_kept hi h))
  rcases registry_after h with ⟨hr, hc⟩ | ⟨hc, kind₀, type₀, hnew⟩
  · rw [hr] at hreg
    rw [hc]
    exact hold hreg
  · rw [hc]
    rcases hnew kind type e hreg with ho | ⟨rfl, rfl, rfl⟩
    · exact (hold ho).imp_right (fun hlt => Nat.lt_succ_of_lt hlt)
    · exact ⟨lookup_eq_some.mpr hreg, Nat.lt_succ_self _⟩

theorem apart_step (hi : BusInv bus) (h : Registered bus bus') (kind kind' : ChannelKind) (type type' : Ty)
    (channel : Nat) (hl : bus'.lookup kind type = some channel) (hl' : bus'.lookup kind' type' = some channel) :
    kind = kind' ∧ type = type' := by
  have hlt : ∀ {kind type}, bus.registry kind type = some ⟨kind, type, bus.created⟩ → False := fun hr =>
    Nat.lt_irrefl _ (hi.entry _ _ _ hr).2
  rw [lookup_eq_some] at hl hl'
  rcases registry_after h with ⟨hr, -⟩ | ⟨-, kind₀, type₀, hnew⟩
  · rw [hr] at hl hl'
    exact hi.apart kind kind' type type' channel (lookup_eq_some.mpr hl) (lookup_eq_some.mpr hl')
  · rcases hnew kind type _ hl with ho | ⟨rfl, rfl, he⟩ <;> rcases hnew kind' type' _ hl' with ho' | ⟨rfl, rfl, he'⟩
    · exact hi.apart kind kind' type type' channel (lookup_eq_some.mpr ho) (lookup_eq_some.mpr ho')
    · obtain rfl : channel = bus.created := congrArg ErasedChannel.channel he'
      exact (hlt ho).elim
    · obtain rfl : channel = bus.created := congrArg ErasedChannel.channel he
      exact (hlt ho').elim
    · exact ⟨rfl, rfl⟩

theorem busInv_step (hi : BusInv bus) (h : BusMoves bus bus') : BusInv bus' := by
  have hkept := registry_kept hi h.registered
  refine ⟨entries_step hi h.registered, apart_step hi h.registered, fun call hm channel hch => ?_, fun kind x hx => ?_⟩
  · rcases h.calls call hm with ⟨call₀, hm₀, hop, htype, hch₀⟩ | hl
    · rw [← hop, ← htype]
      exact lookup_kept hkept (hi.calls call₀ hm₀ channel (hch₀.trans hch))
    · exact hl channel hch
  · rcases h.handles kind x hx with ⟨x₀, hx₀, htype, hch⟩ | ⟨call, hm, rfl, htype, hch⟩
    · rw [← htype, ← hch]
      exact lookup_kept hkept (hi.handles kind x₀ hx₀)
    · rw [← htype]
      exact lookup_kept hkept (hi.calls call hm _ hch)

theorem busInv_of_reachable (h : BusReachable cfg bus) : BusInv bus :=
  h.invariant_from busInv_new fun hi _ hs => busInv_step hi (moves_of_step (busSteps_of_step hs))

theorem BusInv.sameChannel (hi : BusInv bus) : SameChannel bus := by
  intro call hm call' hm' hkind htype channel channel' hch hch'
  have hl := hi.calls call hm channel hch
  have hl' := hi.calls call' hm' channel' hch'
  rw [← hkind, ← htype] at hl'
  exact Option.some.inj (hl.symm.trans hl')

theorem BusInv.onChannel (hi : BusInv bus) : OnChannel bus := by
  intro call hm channel hch x hx
  have hl := hi.calls call hm channel hch
  have hx := hi.handles call.op.kind x hx
  constructor
  · rintro rfl
    exact (hi.apart _ _ _ _ _ hx hl).2
  · intro htype
    rw [htype] at hx
    exact Option.some.inj (hx.symm.trans hl)

/-- The entries stay for the rest of any run. -/
theorem entriesKept_of_exec {as : List (BusAction Ty Event)} (hi : BusInv bus)
    (h : exec (EventBus.step cfg) bus as = some bus') : EntriesKept bus bus' := by
  have hboth : BusInv bus' ∧ EntriesKept bus bus' := by
    refine exec_invariant (I := fun b => BusInv b ∧ EntriesKept bus b) ?_ ⟨hi, fun _ _ _ hr => hr⟩ h
    intro b a b' hb hs
    have hm := moves_of_step (busSteps_of_step hs)
    exact ⟨busInv_step hb.1 hm, fun kind type e hr => registry_kept hb.1 hm.registered kind type e (hb.2 kind type e hr)⟩
  exact hboth.2

/-- All calls for one type obtain one channel, on which the handles of the type
are and no others, and no entry is ever replaced. -/
theorem one_channel (cfg : BusConfig) (bus : EventBus Ty Event) (h : BusReachable cfg bus) :
    SameChannel bus ∧ OnChannel bus ∧
      ∀ (as : List (BusAction Ty Event)) (bus' : EventBus Ty Event),
        exec (EventBus.step cfg) bus as = some bus' → EntriesKept bus bus' := by
  have hi := busInv_of_reachable h
  exact ⟨hi.sameChannel, hi.onChannel, fun _ _ hrun => entriesKept_of_exec hi hrun⟩

/-- Two callers that both find no channel for their type. -/
def bothMiss : List (BusAction String Unit) :=
  [.call "Tick" .subscribe, .call "Tick" (.publish ()), .read 0, .read 1, .write 0, .write 1, .act 0, .act 1]

theorem one_channel_bothMiss : ∃ bus, exec (EventBus.step .default) .new bothMiss = some bus ∧
    bus.created = 1 ∧ SameChannel bus ∧ OnChannel bus ∧
      ∀ (as : List (BusAction String Unit)) (bus' : EventBus String Unit),
        exec (EventBus.step .default) bus as = some bus' → EntriesKept bus bus' := by
  have hrun : exec (EventBus.step .default) .new bothMiss = some _ := rfl
  exact ⟨_, hrun, rfl, one_channel .default _ (Reach.of_exec rfl hrun)⟩

/-! ## References to the work channels -/

def isObtained : OpPhase Event → Bool
  | .obtained => true
  | _ => false

/-- Whether a call holds a reference to the work channel. -/
def holds (channel : Nat) (call : OpCall Ty Event) : Bool :=
  decide (call.op.kind = .work) && isObtained call.phase && decide (call.channel = some channel)

/-- Each call that has obtained a work channel is counted in its references. -/
def ArcsInv (bus : EventBus Ty Event) : Prop :=
  ∀ channel, bus.calls.countP (holds channel) ≤ bus.arcs channel

omit [DecidableEq Ty] in
theorem arcs_retain (bus : EventBus Ty Event) (kind : ChannelKind) (channel channel' : Nat) :
    (bus.retain kind channel).arcs channel' =
      bus.arcs channel' + if kind = .work ∧ channel' = channel then 1 else 0 := by
  cases kind with
  | broadcast => rfl
  | work =>
    show Function.update bus.arcs channel _ channel' = _
    by_cases h : channel' = channel
    · subst h
      simp
    · simp [h]

omit [DecidableEq Ty] in
theorem arcs_release (bus : EventBus Ty Event) (kind : ChannelKind) (channel channel' : Nat) :
    (bus.release kind channel).arcs channel' =
      bus.arcs channel' - if kind = .work ∧ channel' = channel then 1 else 0 := by
  cases kind with
  | broadcast => rfl
  | work =>
    show Function.update bus.arcs channel _ channel' = _
    by_cases h : channel' = channel
    · subst h
      simp
    · simp [h]

omit [DecidableEq Ty] in
/-- A call that holds no reference goes on without one. -/
theorem arcsInv_set {i : Nat} {call call' : OpCall Ty Event} (ha : ArcsInv bus) (hi : bus.calls[i]? = some call)
    (hh : ∀ channel, holds channel call' = false) (hcalls : bus'.calls = bus.calls.set i call')
    (harcs : ∀ channel, bus.arcs channel ≤ bus'.arcs channel) : ArcsInv bus' := by
  intro channel
  have hcount := countP_set_add hi call' (holds channel)
  have hle := ha channel
  have hmono := harcs channel
  rw [hh channel] at hcount
  rw [hcalls]
  simp only [Bool.false_eq_true, ite_false] at hcount
  omega

omit [DecidableEq Ty] in
theorem arcsInv_obtains {i : Nat} {call : OpCall Ty Event} (ha : ArcsInv bus) (hi : bus.calls[i]? = some call)
    (hp : isObtained call.phase = false) : ArcsInv (bus.obtains i call channel) := by
  intro channel'
  have hcount := countP_set_add hi { call with phase := .obtained, channel := some channel } (holds channel')
  have hbefore : holds channel' call = false := by simp [holds, hp]
  have hafter : holds channel' { call with phase := .obtained, channel := some channel } =
      decide (call.op.kind = .work ∧ channel' = channel) := by
    simp [holds, isObtained, eq_comm]
  rw [hbefore, hafter] at hcount
  simp only [Bool.false_eq_true, ite_false, decide_eq_true_eq] at hcount
  have hle := ha channel'
  have hcalls : (bus.retain call.op.kind channel).calls = bus.calls := by
    obtain ⟨arcs, h⟩ := retain_eq bus call.op.kind channel
    rw [h]
  show ((bus.retain call.op.kind channel).calls.set i _).countP _ ≤ (bus.retain call.op.kind channel).arcs channel'
  rw [arcs_retain, hcalls]
  omega

omit [DecidableEq Ty] in
theorem arcsInv_ends {i : Nat} {call : OpCall Ty Event} {phase : OpPhase Event} {joined : EventBus Ty Event}
    (ha : ArcsInv bus) (hi : bus.calls[i]? = some call) (hp : isObtained call.phase = true)
    (hch : call.channel = some channel) (hphase : isObtained phase = false) (hcalls : joined.calls = bus.calls)
    (harcs : joined.arcs = bus.arcs) : ArcsInv (joined.ends i call channel phase) := by
  intro channel'
  have hcount := countP_set_add hi { call with phase := phase } (holds channel')
  have hafter : holds channel' { call with phase := phase } = false := by simp [holds, hphase]
  have hbefore : holds channel' call = decide (call.op.kind = .work ∧ channel' = channel) := by
    simp [holds, hp, hch, eq_comm]
  rw [hbefore, hafter] at hcount
  simp only [Bool.false_eq_true, ite_false, decide_eq_true_eq] at hcount
  have hle := ha channel'
  have hsame : (joined.release call.op.kind channel).calls = bus.calls := by
    obtain ⟨arcs, h⟩ := release_eq joined call.op.kind channel
    rw [h, hcalls]
  show ((joined.release call.op.kind channel).calls.set i _).countP _ ≤ (joined.release call.op.kind channel).arcs channel'
  rw [arcs_release, hsame, harcs]
  omega

/-- An entry that is inserted replaces none, so that no reference is lost. -/
theorem arcs_insert (hi : BusInv bus) (hl : bus.lookup kind type = none) (channel : Nat) :
    bus.arcs channel ≤ (bus.insert kind type).arcs channel := by
  have harcs : (bus.insert kind type).arcs = (bus.retain kind bus.created).arcs := by
    rw [EventBus.insert, hi.entry_none hl]
  rw [harcs, arcs_retain]
  omega

theorem calls_insert (bus : EventBus Ty Event) (kind : ChannelKind) (type : Ty) :
    (bus.insert kind type).calls = bus.calls := by
  obtain ⟨arcs, h⟩ := insert_eq bus kind type
  rw [h]

theorem arcsInv_step (hb : BusInv bus) (ha : ArcsInv bus) (h : BusSteps cfg bus a bus') : ArcsInv bus' := by
  cases h with
  | called type op =>
    intro channel
    show (bus.calls ++ [_]).countP (holds channel) ≤ bus.arcs channel
    rw [List.countP_append]
    have hnew : holds channel (⟨type, op, .fast, none⟩ : OpCall Ty Event) = false := by simp [holds]
    simp only [List.countP_singleton, hnew, Bool.false_eq_true, ite_false, Nat.add_zero]
    exact ha channel
  | read hi hp =>
    unfold EventBus.readLocked
    split
    · exact arcsInv_obtains ha hi (by rw [hp]; rfl)
    · exact arcsInv_set ha hi (fun channel => by simp [holds, isObtained]) rfl fun _ => Nat.le_refl _
  | @wrote i call hi hp =>
    have hfree : isObtained call.phase = false := by rw [hp]; rfl
    unfold EventBus.writeLocked
    split
    · exact arcsInv_obtains ha hi hfree
    · rename_i hl
      split
      · have hins : ArcsInv (bus.insert call.op.kind call.type) := fun channel => by
          rw [calls_insert]
          exact Nat.le_trans (ha channel) (arcs_insert hb hl channel)
        exact arcsInv_obtains hins (by rw [calls_insert, hi]) hfree
      · exact arcsInv_set ha hi (fun channel => by simp [holds, isObtained]) rfl fun _ => Nat.le_refl _
  | acted hi hp hch hj => exact arcsInv_ends ha hi (by rw [hp]; rfl) hch rfl hj.calls hj.arcs
  | abandoned hi hp hch => exact arcsInv_ends ha hi (by rw [hp]; rfl) hch rfl rfl rfl
  | handled hc _ _ harcs _ =>
    intro channel
    rw [hc, harcs]
    exact ha channel

theorem arcsInv_of_reachable (h : BusReachable cfg bus) : ArcsInv bus := by
  have hboth : BusInv bus ∧ ArcsInv bus :=
    h.invariant_from (I := fun b => BusInv b ∧ ArcsInv b) ⟨busInv_new, fun _ => Nat.le_refl 0⟩ fun hi _ hs =>
      ⟨busInv_step hi.1 (moves_of_step (busSteps_of_step hs)), arcsInv_step hi.1 hi.2 (busSteps_of_step hs)⟩
  exact hboth.2

/-! ## The work queue does not close -/

/-- The calls that send are of the work registry. -/
theorem kind_of_enqueued {op : BusOp Event} {event : Event} (h : enqueued? op = some event) : op.kind = .work := by
  cases op with
  | enqueue | tryEnqueue => rfl
  | publish | subscribe | subscriberCount | worker => cases h

/-- A call that sends holds a receiver of its channel by itself. -/
theorem open_of_sends (h : BusReachable cfg bus) {i : Nat} {call : OpCall Ty Event} {event : Event}
    (hi : bus.calls[i]? = some call) (hop : enqueued? call.op = some event) (hp : call.phase = .obtained)
    (hch : call.channel = some channel) : bus.closed channel = false := by
  have hholds : holds channel call = true := by simp [holds, kind_of_enqueued hop, hp, isObtained, hch]
  have hpos : 0 < bus.calls.countP (holds channel) := List.countP_pos_iff.mpr ⟨call, List.mem_of_getElem? hi, hholds⟩
  have harcs : bus.arcs channel ≠ 0 := by
    have hle := arcsInv_of_reachable h channel
    omega
  simp [EventBus.closed, EventBus.senders, EventBus.receivers, harcs]

/-- What a call that sends does, whether or not there are workers: its event is
accepted while there is room, and waits or comes back as full else. -/
theorem act_open (h : BusReachable cfg bus) {i : Nat} {call : OpCall Ty Event} {event : Event}
    (hi : bus.calls[i]? = some call) (hop : enqueued? call.op = some event) (hp : call.phase = .obtained)
    (hch : call.channel = some channel) : bus.step cfg (.act i) =
      if (bus.queues channel).length < cfg.workCapacity then
        some ((bus.push channel event).ends i call channel (.returned (.enqueued (.ok ()))))
      else
        match call.op with
        | .enqueue _ => none
        | _ => some (bus.ends i call channel (.returned (.enqueued (.error ⟨event, .full⟩)))) := by
  have hopen := open_of_sends h hi hop hp hch
  simp only [EventBus.step, hi, hp, hch, EventBus.act]
  cases hc : call.op with
  | enqueue e | tryEnqueue e =>
    rw [hc] at hop
    obtain rfl := Option.some.inj hop
    simp [hopen]
  | publish | subscribe | subscriberCount | worker =>
    rw [hc] at hop
    cases hop

theorem not_returnsClosed (h : BusReachable cfg bus) {i : Nat} {event : Event} (hs : Sends bus i type event) :
    ¬ ReturnsClosed cfg bus i event := by
  obtain ⟨call, channel, hi, -, hop, hp, hch⟩ := hs
  rintro ⟨bus', call', hstep, hi', hphase⟩
  have hset : ∀ (joined : EventBus Ty Event) (phase : OpPhase Event), joined.calls = bus.calls →
      (joined.ends i call channel phase).calls[i]? = some { call with phase := phase } := fun joined phase hc => by
    obtain ⟨arcs, heq⟩ := ends_eq joined i call channel phase
    rw [heq, hc]
    exact List.getElem?_set_self (List.getElem?_eq_some_iff.mp hi).1
  rw [act_open h hi hop hp hch] at hstep
  split at hstep
  · obtain rfl := Option.some.inj hstep
    rw [hset (bus.push channel event) _ rfl] at hi'
    obtain rfl := Option.some.inj hi'
    cases hphase
  · split at hstep
    · cases hstep
    · obtain rfl := Option.some.inj hstep
      rw [hset bus _ rfl] at hi'
      obtain rfl := Option.some.inj hi'
      cases hphase

/-- Closure is reported where no one is there to be told. -/
theorem closureReported_iff_noneSent (h : BusReachable cfg bus) : ClosureReported cfg bus ↔ NoneSent bus :=
  ⟨fun hr i type event hs hd => not_returnsClosed h hs (hr i type event hs hd),
    fun hn i type event hs hd => absurd hd (hn i type event hs)⟩

/-- Closure is reported all along a run exactly if no call sends to a deserted
queue in it. -/
theorem closure_reported_iff (cfg : BusConfig) (as : List (BusAction Ty Event)) :
    AlongStates (EventBus.step cfg) (ClosureReported cfg) .new as ↔
      AlongStates (EventBus.step cfg) NoneSent .new as := by
  have hnew : BusReachable cfg (.new : EventBus Ty Event) := .init rfl
  constructor
  · exact AlongStates.imp (fun hr hs => hr.step trivial hs) (fun hr => (closureReported_iff_noneSent hr).mp) hnew
  · exact AlongStates.imp (fun hr hs => hr.step trivial hs) (fun hr => (closureReported_iff_noneSent hr).mpr) hnew

omit [DecidableEq Ty] in
/-- No worker has been dropped. -/
theorem noneSent_of_undropped (h : ∀ w ∈ bus.workers, w.dropped = false) : NoneSent bus := by
  rintro i type event - ⟨⟨w, hw, htype⟩, hall⟩
  cases (h w hw).symm.trans (hall w hw htype)

/-- Events for a worker that is there. -/
theorem closure_reported_served : AlongStates (EventBus.step .default) (ClosureReported .default) .new
    [.call "Email" .worker, .read 0, .write 0, .act 0, .call "Email" (.tryEnqueue ()), .read 1, .act 1, .recv 0] := by
  refine (closure_reported_iff .default _).mpr ?_
  exact AlongStates.imp (I := fun _ => True) (P := fun bus => ∀ w ∈ bus.workers, w.dropped = false)
    (fun _ _ => trivial) (fun _ hu => noneSent_of_undropped hu) trivial (by decide)

/-- A worker is obtained and dropped, and an event enqueued after. -/
def desertedQueue : List (BusAction String Unit) :=
  [.call "Email" .worker, .read 0, .write 0, .act 0, .dropWorker 0, .call "Email" (.tryEnqueue ()), .read 1]

/-- The event is accepted. -/
theorem not_closure_reported_deserted : ¬ ∀ (cfg : BusConfig) (as : List (BusAction String Unit)),
    AlongStates (EventBus.step cfg) (ClosureReported cfg) .new as := by
  intro h
  obtain ⟨bus, hrun, hsends, hdeserted⟩ : ∃ bus, exec (EventBus.step .default) .new desertedQueue = some bus ∧
      Sends bus 1 "Email" () ∧ Deserted bus "Email" :=
    ⟨_, rfl, ⟨_, 0, rfl, rfl, rfl, rfl, rfl⟩, by decide, by decide⟩
  have hreported := alongStates_iff_prefix.mp (h .default desertedQueue) desertedQueue [] bus rfl hrun
  exact not_returnsClosed (Reach.of_exec rfl hrun) hsends (hreported 1 "Email" () hsends hdeserted)

end WalaStack.Proof.Runtime
