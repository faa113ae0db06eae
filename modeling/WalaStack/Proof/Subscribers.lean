import WalaStack.Framework.Parties
import WalaStack.Spec.Subscribers

/-!
# What a subscriber receives

A `recv` reads the channel by its cursor (`recv_cases`), and the other steps let
the log of the channel grow at most, so that what a subscriber has received keeps
accounting for all that was sent since (`ChannelInv`).
-/

namespace WalaStack.Proof.Runtime

open WalaStack.Broadcast WalaStack.Impl.Runtime WalaStack.Spec.Runtime WalaStack.Transition WalaStack.Parties

variable {Event : Type} {size : Nat} {s s' : Subscribers Event} {sub sub' : Subscriber Event}
  {a : SubscribersAction Event}

/-! ## Steps -/

/-- What a call of `recv` returns. -/
inductive Recvs (size : Nat) (s : Subscribers Event) (sub : Subscriber Event) : Subscriber Event → Prop
  | read {result : Except RecvError Event} {r : Read Event} {next : Nat} : readOf result = some r →
      read size s.sent sub.next = some (r, next) →
      Recvs size s sub { sub with next := next, received := sub.received ++ [result] }
  | closed : s.closed = true → s.sent.length ≤ sub.next →
      Recvs size s sub { sub with received := sub.received ++ [.error .closed] }

theorem recv_cases (h : s.recv size sub = some sub') : Recvs size s sub sub' := by
  unfold Subscribers.recv at h
  split at h
  · rename_i hr
    obtain rfl := Option.some.inj h
    exact .read rfl hr
  · rename_i hr
    obtain rfl := Option.some.inj h
    exact .read rfl hr
  · rename_i hr
    split at h
    · rename_i hc
      obtain rfl := Option.some.inj h
      exact .closed hc (read_eq_none_iff.mp hr)
    · cases h

/-- What a step does. -/
inductive ChannelSteps (size : Nat) (s : Subscribers Event) : SubscribersAction Event → Subscribers Event → Prop
  | unsubscribed {event : Event} : s.live = 0 →
      ChannelSteps size s (.publish event) { s with published := s.published ++ [(event, .noSubscribers)] }
  | sent {event : Event} {n : Nat} : s.closed = false → s.live = n + 1 →
      ChannelSteps size s (.publish event)
        { s with sent := s.sent ++ [event], published := s.published ++ [(event, .delivered (n + 1))] }
  | subscribed : ChannelSteps size s .subscribe
      { s with subscribers := s.subscribers ++ [⟨s.sent.length, s.sent.length, false, []⟩] }
  | received {j : Nat} {sub sub' : Subscriber Event} : s.subscribers[j]? = some sub → Recvs size s sub sub' →
      ChannelSteps size s (.recv j) { s with subscribers := s.subscribers.set j sub' }
  | dropped {j : Nat} {sub : Subscriber Event} : s.subscribers[j]? = some sub →
      ChannelSteps size s (.dropSubscriber j) { s with subscribers := s.subscribers.set j { sub with dropped := true } }
  | closed : ChannelSteps size s .dropBus { s with closed := true }

theorem channelSteps_of_step (h : s.step size a = some s') : ChannelSteps size s a s' := by
  cases a with
  | publish event =>
    simp only [Subscribers.step] at h
    split at h
    · cases h
    · rename_i hc
      obtain rfl := Option.some.inj h
      unfold Subscribers.publish
      split
      · rename_i hl
        exact .unsubscribed hl
      · rename_i hl
        obtain ⟨n, hn⟩ := Nat.exists_eq_succ_of_ne_zero hl
        rw [hn]
        exact .sent (Bool.eq_false_iff.mpr hc) hn
  | subscribe =>
    simp only [Subscribers.step] at h
    split at h
    · cases h
    · obtain rfl := Option.some.inj h
      exact .subscribed
  | recv j =>
    simp only [Subscribers.step] at h
    split at h
    · rename_i sub hj
      split at h
      · cases h
      · obtain ⟨sub', hr, rfl⟩ := Option.map_eq_some_iff.mp h
        exact .received hj (recv_cases hr)
    · cases h
  | dropSubscriber j =>
    simp only [Subscribers.step] at h
    split at h
    · rename_i sub hj
      split at h
      · cases h
      · obtain rfl := Option.some.inj h
        exact .dropped hj
    · cases h
  | dropBus =>
    simp only [Subscribers.step] at h
    split at h
    · cases h
    · obtain rfl := Option.some.inj h
      exact .closed

/-! ## The invariant -/

structure ChannelInv (s : Subscribers Event) : Prop where
  receives : ∀ sub ∈ s.subscribers, Receives s sub
  since : ∀ sub ∈ s.subscribers, sub.since ≤ s.sent.length
  sent : s.sent = (s.published.filter fun p => p.2 != .noSubscribers).map Prod.fst

theorem channelInv_new : ChannelInv (.new : Subscribers Event) where
  receives _ h := absurd h List.not_mem_nil
  since _ h := absurd h List.not_mem_nil
  sent := rfl

theorem next_le_of_receives (hr : Receives s sub) (hs : sub.since ≤ s.sent.length) : sub.next ≤ s.sent.length :=
  hr.covers.le_length hs

/-- At the end of the log there is nothing to read. -/
theorem not_closed_of_read (hr : Receives s sub) {r : Read Event} {next : Nat}
    (hread : read size s.sent sub.next = some (r, next)) : .error .closed ∉ sub.received := by
  intro hm
  obtain ⟨-, hend⟩ := hr.closed hm
  cases (read_eq_none_iff.mpr (Nat.le_of_eq hend.symm)).symm.trans hread

theorem receives_of_recvs (hr : Receives s sub) (hs : sub.since ≤ s.sent.length) (h : Recvs size s sub sub') :
    Receives s sub' := by
  cases h with
  | @read result r next hres hread =>
    refine ⟨?_, fun hm => ?_⟩
    · rw [List.filterMap_append, List.filterMap_cons_some hres, List.filterMap_nil]
      exact hr.covers.read hread
    · rcases List.mem_append.mp hm with hm | hm
      · exact absurd hm (not_closed_of_read hr hread)
      · rw [← List.mem_singleton.mp hm] at hres
        cases hres
  | closed hc hend =>
    have hle : sub.next ≤ s.sent.length := next_le_of_receives hr hs
    refine ⟨?_, fun _ => ⟨hc, Nat.le_antisymm hle hend⟩⟩
    rw [List.filterMap_append, List.filterMap_cons_none rfl, List.filterMap_nil, List.append_nil]
    exact hr.covers

/-- The channel goes on. -/
theorem receives_mono (hr : Receives s sub) {es : List Event} (hsent : s'.sent = s.sent ++ es)
    (hclosed : s.closed = true → s'.closed = true ∧ es = []) : Receives s' sub := by
  refine ⟨by rw [hsent]; exact hr.covers.append es, fun hm => ?_⟩
  obtain ⟨hc, hnext⟩ := hr.closed hm
  obtain ⟨hc', rfl⟩ := hclosed hc
  exact ⟨hc', by rw [hnext, hsent, List.append_nil]⟩

theorem receives_congr (hr : Receives s sub) (hsent : s'.sent = s.sent) (hclosed : s'.closed = s.closed) :
    Receives s' sub :=
  receives_mono hr (hsent.trans (List.append_nil _).symm) fun hc => ⟨hclosed.trans hc, rfl⟩

theorem since_of_recvs (h : Recvs size s sub sub') : sub'.since = sub.since := by
  cases h with
  | read | closed => rfl

theorem channelInv_step (hi : ChannelInv s) (h : ChannelSteps size s a s') : ChannelInv s' := by
  cases h with
  | @unsubscribed event hl =>
    refine ⟨fun sub hm => receives_mono (hi.receives sub hm) (List.append_nil _).symm fun hc => ⟨hc, rfl⟩, hi.since, ?_⟩
    rw [List.filter_append, List.filter_cons_of_neg (by simp), List.filter_nil, List.append_nil]
    exact hi.sent
  | @sent event n hopen hl =>
    refine ⟨fun sub hm => receives_mono (hi.receives sub hm) rfl fun hc => ?_, fun sub hm => ?_, ?_⟩
    · cases hopen.symm.trans hc
    · rw [List.length_append]
      exact Nat.le_add_right_of_le (hi.since sub hm)
    · rw [List.filter_append, List.map_append, ← hi.sent, List.filter_cons_of_pos (by simp), List.filter_nil,
        List.map_singleton]
  | subscribed =>
    refine ⟨fun sub hm => ?_, fun sub hm => ?_, hi.sent⟩
    · rcases List.mem_append.mp hm with hm | hm
      · exact receives_congr (hi.receives sub hm) rfl rfl
      · obtain rfl := List.mem_singleton.mp hm
        exact ⟨.nil, fun h => absurd h List.not_mem_nil⟩
    · rcases List.mem_append.mp hm with hm | hm
      · exact hi.since sub hm
      · obtain rfl := List.mem_singleton.mp hm
        exact Nat.le_refl _
  | @received j sub sub' hj hrecv =>
    have hmem := List.mem_of_getElem? hj
    refine ⟨fun x hm => ?_, fun x hm => ?_, hi.sent⟩
    · rcases List.mem_or_eq_of_mem_set hm with hm | rfl
      · exact receives_congr (hi.receives x hm) rfl rfl
      · exact receives_congr (receives_of_recvs (hi.receives sub hmem) (hi.since sub hmem) hrecv) rfl rfl
    · rcases List.mem_or_eq_of_mem_set hm with hm | rfl
      · exact hi.since x hm
      · rw [since_of_recvs hrecv]
        exact hi.since sub hmem
  | @dropped j sub hj =>
    have hmem := List.mem_of_getElem? hj
    refine ⟨fun x hm => ?_, fun x hm => ?_, hi.sent⟩
    · rcases List.mem_or_eq_of_mem_set hm with hm | rfl
      · exact receives_congr (hi.receives x hm) rfl rfl
      · exact ⟨(hi.receives sub hmem).covers, (hi.receives sub hmem).closed⟩
    · rcases List.mem_or_eq_of_mem_set hm with hm | rfl
      · exact hi.since x hm
      · exact hi.since sub hmem
  | closed =>
    exact ⟨fun sub hm => receives_mono (hi.receives sub hm) (List.append_nil _).symm fun _ => ⟨rfl, rfl⟩, hi.since,
      hi.sent⟩

theorem channelInv_of_exec {as : List (SubscribersAction Event)} (h : exec (Subscribers.step size) .new as = some s) :
    ChannelInv s :=
  exec_invariant (fun hi hs => channelInv_step hi (channelSteps_of_step hs)) channelInv_new h

/-! ## Who is subscribed -/

/-- Who is subscribed. -/
def presence (s : Subscribers Event) : List Bool := s.subscribers.map fun sub => !sub.dropped

theorem live_eq (s : Subscribers Event) : s.live = (presence s).count true := by
  rw [Subscribers.live, presence, List.count, List.countP_map]
  exact List.countP_congr fun sub _ => by simp

theorem dropped_of_recvs (h : Recvs size s sub sub') : sub'.dropped = sub.dropped := by
  cases h with
  | read | closed => rfl

theorem presence_recv {j : Nat} (hj : s.subscribers[j]? = some sub) (h : Recvs size s sub sub') :
    presence { s with subscribers := s.subscribers.set j sub' } = presence s := by
  obtain ⟨hlt, rfl⟩ := List.getElem?_eq_some_iff.mp hj
  have hb : j < (presence s).length := by rwa [presence, List.length_map]
  have hsame : (!sub'.dropped) = (presence s)[j] := by
    rw [dropped_of_recvs h]
    simp [presence]
  show (s.subscribers.set j sub').map (fun sub => !sub.dropped) = presence s
  rw [List.map_set, hsame]
  exact List.set_getElem_self hb

/-- A step publishes what it should, and leaves those subscribed who should be. -/
theorem publications_step (h : ChannelSteps size s a s') (as : List (SubscribersAction Event)) :
    s.published ++ publications (presence s) (a :: as) = s'.published ++ publications (presence s') as := by
  cases h with
  | unsubscribed hl =>
    rw [publications, outcomeOf, ← live_eq, if_pos hl, List.append_cons]
    rfl
  | sent _ hl =>
    rw [publications, outcomeOf, ← live_eq, hl, if_neg (Nat.succ_ne_zero _), List.append_cons]
    rfl
  | subscribed => simp [publications, attend, presence]
  | received hj hrecv =>
    rw [presence_recv hj hrecv]
    rfl
  | dropped hj => simp [publications, attend, presence]
  | closed => rfl

theorem publications_of_exec {as : List (SubscribersAction Event)} (h : exec (Subscribers.step size) s as = some s') :
    s'.published = s.published ++ publications (presence s) as := by
  induction as generalizing s with
  | nil =>
    cases h
    exact (List.append_nil _).symm
  | cons a as ih =>
    rw [exec_cons, Option.bind_eq_some_iff] at h
    obtain ⟨s₁, h₁, h₂⟩ := h
    rw [ih h₂, publications_step (channelSteps_of_step h₁)]

/-! ## Without a lag -/

/-- What subscriber `j` has received is all that was sent since. -/
def AllReceived (j : Nat) (s : Subscribers Event) : Prop :=
  ∀ sub, s.subscribers[j]? = some sub → ReceivesAll s sub

theorem receivesAll_of_recvs {capacity : Nat} (hr : Receives s sub) (hcap : capacity ≤ size)
    (hup : s.sent.length ≤ sub.next + capacity) (hall : ReceivesAll s sub) (h : Recvs size s sub sub') : ReceivesAll s sub' := by
  obtain ⟨closings, hrec⟩ := hall
  cases h with
  | @read result r next hres hread =>
    obtain ⟨e, rfl, he, rfl⟩ := not_lagged_of_le (Nat.le_trans hup (Nat.add_le_add_left hcap _)) hread
    obtain rfl : result = .ok e := by
      match result, hres with
      | .ok _, hres => rw [Read.event.inj (Option.some.inj hres)]
      | .error (.lagged _), hres => cases hres
      | .error .closed, hres => cases hres
    have hzero : closings = 0 := by
      rcases Nat.eq_zero_or_pos closings with h | h
      · exact h
      · refine absurd ?_ (not_closed_of_read hr hread)
        rw [hrec]
        exact List.mem_append_right _ (List.mem_replicate.mpr ⟨by omega, rfl⟩)
    obtain ⟨hlt, rfl⟩ := List.getElem?_eq_some_iff.mp he
    have hle := hr.covers.le
    refine ⟨0, ?_⟩
    have hlen : sub.since ≤ (s.sent.take sub.next).length := by
      rw [List.length_take]
      omega
    rw [hrec, hzero, List.take_succ_eq_append_getElem hlt, List.drop_append_of_le_length hlen, List.map_append]
    simp
  | closed hc hend =>
    refine ⟨closings + 1, ?_⟩
    rw [hrec, List.append_assoc, ← List.replicate_succ']

theorem receivesAll_mono (hr : Receives s sub) (hs : sub.since ≤ s.sent.length) (hall : ReceivesAll s sub)
    {es : List Event} (hsent : s'.sent = s.sent ++ es) : ReceivesAll s' sub := by
  obtain ⟨closings, hrec⟩ := hall
  exact ⟨closings, by rw [hrec, hsent, List.take_append_of_le_length (next_le_of_receives hr hs)]⟩

theorem allReceived_step {capacity j : Nat} (hcap : capacity ≤ size) (hi : ChannelInv s) (hall : AllReceived j s)
    (hup : KeepsUp capacity j s a) (h : ChannelSteps size s a s') : AllReceived j s' := by
  have hmono : ∀ {t : Subscribers Event} {es : List Event}, t.sent = s.sent ++ es → t.subscribers = s.subscribers →
      AllReceived j t := fun hsent hsubs sub hj => by
    rw [hsubs] at hj
    have hmem := List.mem_of_getElem? hj
    exact receivesAll_mono (hi.receives sub hmem) (hi.since sub hmem) (hall sub hj) hsent
  cases h with
  | unsubscribed _ => exact hmono (List.append_nil _).symm rfl
  | sent _ _ => exact hmono rfl rfl
  | subscribed =>
    intro sub hj
    rcases getElem?_concat_cases hj with hj | ⟨-, rfl⟩
    · exact hall sub hj
    · exact ⟨0, by simp⟩
  | @received k x x' hk hrecv =>
    intro sub hj
    rcases getElem?_set_cases hk hj with ⟨rfl, rfl⟩ | ⟨-, hj⟩
    · have hmem := List.mem_of_getElem? hk
      obtain ⟨closings, hrec⟩ :=
        receivesAll_of_recvs (hi.receives x hmem) hcap (hup rfl x hk) (hall x hk) hrecv
      exact ⟨closings, hrec⟩
    · exact hall sub hj
  | @dropped k x hk =>
    intro sub hj
    rcases getElem?_set_cases hk hj with ⟨rfl, rfl⟩ | ⟨-, hj⟩
    · obtain ⟨closings, hrec⟩ := hall x hk
      exact ⟨closings, hrec⟩
    · exact hall sub hj
  | closed => exact hmono (List.append_nil _).symm rfl

/-- Whatever is published and subscribed on a channel, and whenever its
subscribers read: each publication is sent unless nobody subscribes, and what each
subscriber receives accounts for all that was sent since it subscribed, and is all
of it where the subscriber keeps up with the capacity. -/
theorem receives_since {capacity : Nat} (hcap : capacity ≤ size) {as : List (SubscribersAction Event)}
    (h : exec (Subscribers.step size) .new as = some s) : Published as s ∧
      ∀ j sub, s.subscribers[j]? = some sub → Receives s sub ∧
        (AlongSteps (Subscribers.step size) (KeepsUp capacity j) .new as → ReceivesAll s sub) := by
  have hi := channelInv_of_exec h
  refine ⟨⟨publications_of_exec h, hi.sent⟩, fun j sub hj => ⟨hi.receives sub (List.mem_of_getElem? hj), fun hup => ?_⟩⟩
  have hboth : ChannelInv s ∧ AllReceived j s :=
    hup.invariant (I := fun s => ChannelInv s ∧ AllReceived j s)
      (fun hi hup hs => ⟨channelInv_step hi.1 (channelSteps_of_step hs),
        allReceived_step hcap hi.1 hi.2 hup (channelSteps_of_step hs)⟩)
      ⟨channelInv_new, fun _ hj => by cases hj⟩ h
  exact hboth.2 sub hj

/-- Of two slots: one subscriber keeps up, the other is told of a lag. -/
def slowSubscriber : List (SubscribersAction Nat) :=
  [.publish 1, .subscribe, .subscribe, .publish 2, .recv 0, .publish 3, .publish 4, .recv 0, .recv 1, .recv 1]

theorem receives_since_slow : ∃ s : Subscribers Nat, exec (Subscribers.step 2) .new slowSubscriber = some s ∧
    s.subscribers.map Subscriber.received = [[.ok 2, .ok 3], [.error (.lagged 1), .ok 3]] ∧
      Published slowSubscriber s ∧ ∀ j sub, s.subscribers[j]? = some sub → Receives s sub ∧
        (AlongSteps (Subscribers.step 2) (KeepsUp 2 j) .new slowSubscriber → ReceivesAll s sub) := by
  obtain ⟨s, hrun, hrec⟩ : ∃ s : Subscribers Nat, exec (Subscribers.step 2) .new slowSubscriber = some s ∧
      s.subscribers.map Subscriber.received = [[.ok 2, .ok 3], [.error (.lagged 1), .ok 3]] := ⟨_, rfl, rfl⟩
  exact ⟨s, hrun, hrec, receives_since (Nat.le_refl 2) hrun⟩

end WalaStack.Proof.Runtime
