import Mathlib.Data.List.Nodup
import WalaStack.Spec.Registry
import WalaStack.Framework.Parties

/-!
# Listings of the registry

`Goes` is what a step of one call leaves of the others, `Reached` the phase that
the call goes to. The map is replaced under the write lock only, which excludes
the readers, so that an iteration sees one map (`RegistryInv.iterating`): what it
collects is a snapshot. A `try_read` that fails returns the empty list, which is
one only where the map was empty (`snapshots_step`).
-/

namespace WalaStack.Proof.Mcp

open WalaStack.Impl.Mcp WalaStack.Spec.Mcp WalaStack.Transition WalaStack.Parties

variable {s s' : StdioMcp} {a : RegistryAction} {i : Nat} {call : RegistryCall} {phase : RegistryPhase}

/-! ## Descriptors -/

theorem mem_descriptors {map : ConnectionMap} {d : ServerDescriptor} :
    d ∈ descriptors map ↔ ∃ conn, map.lookup d.id = some conn ∧ d = conn.descriptor d.id := by
  simp only [descriptors, List.mem_map]
  constructor
  · rintro ⟨⟨id, conn⟩, hm, rfl⟩
    exact ⟨conn, AList.mem_lookup_iff.mpr hm, rfl⟩
  · rintro ⟨conn, hl, hd⟩
    exact ⟨⟨d.id, conn⟩, AList.mem_lookup_iff.mp hl, hd.symm⟩

theorem map_id_descriptors (map : ConnectionMap) : (descriptors map).map (·.id) = map.keys := by
  simp only [descriptors, List.map_map]
  rfl

theorem nodup_descriptors (map : ConnectionMap) : (descriptors map).Nodup :=
  List.Nodup.of_map (·.id) (by rw [map_id_descriptors]; exact map.keys_nodup)

theorem descriptors_eq_nil_iff {map : ConnectionMap} : descriptors map = [] ↔ map.entries = [] := List.map_eq_nil_iff

/-- What an iteration over a map has yielded so far. -/
structure Yielded (map : ConnectionMap) (servers : List ServerDescriptor) : Prop where
  nodup : (servers.map (·.id)).Nodup
  mem : ∀ d ∈ servers, d ∈ descriptors map

theorem yielded_nil (map : ConnectionMap) : Yielded map [] := ⟨List.nodup_nil, fun d hd => by cases hd⟩

theorem Yielded.next {map : ConnectionMap} {servers : List ServerDescriptor} {server : String} {conn : StdioConnection}
    (h : Yielded map servers) (hl : map.lookup server = some conn) (hnew : server ∉ servers.map (·.id)) :
    Yielded map (servers ++ [conn.descriptor server]) := by
  refine ⟨?_, fun d hd => ?_⟩
  · rw [List.map_append, List.map_singleton]
    exact h.nodup.append (List.nodup_singleton _) (List.disjoint_singleton.mpr hnew)
  · rcases List.mem_append.mp hd with hd | hd
    · exact h.mem d hd
    · obtain rfl := List.mem_singleton.mp hd
      exact mem_descriptors.mpr ⟨conn, hl, rfl⟩

/-- At its end. -/
theorem Yielded.perm {map : ConnectionMap} {servers : List ServerDescriptor} (h : Yielded map servers)
    (hall : ∀ server ∈ map.keys, server ∈ servers.map (·.id)) : servers.Perm (descriptors map) := by
  refine (List.perm_ext_iff_of_nodup (List.Nodup.of_map _ h.nodup) (nodup_descriptors map)).mpr fun d => ⟨h.mem d, ?_⟩
  intro hd
  have hkey : d.id ∈ map.keys := by
    rw [← map_id_descriptors]
    exact List.mem_map_of_mem hd
  obtain ⟨d', hd', hid⟩ := List.mem_map.mp (hall d.id hkey)
  obtain ⟨conn, hl, heq⟩ := mem_descriptors.mp hd
  obtain ⟨conn', hl', heq'⟩ := mem_descriptors.mp (h.mem d' hd')
  rw [hid, hl] at hl'
  obtain rfl := Option.some.inj hl'
  rw [heq, ← hid, ← heq']
  exact hd'

/-! ## Steps -/

/-- Call `i` goes on; the others keep the lock where they read, and the map
changes in the hands of its writer only. -/
structure Goes (s s' : StdioMcp) (i : Nat) (call : RegistryCall) (phase : RegistryPhase) : Prop where
  found : s.calls[i]? = some call
  calls : s'.calls = s.calls.set i { call with phase := phase }
  sound : s.lock.Sound maxReads → s'.lock.Sound maxReads
  readers : ∀ j, j ≠ i → j ∈ s.lock.readers → j ∈ s'.lock.readers
  maps : (s'.connections = s.connections ∧ s'.past = s.past) ∨
    (s.lock.writer = some i ∧ s'.past = s.past ++ [s.connections])

/-- The phases that a call goes to. -/
inductive Reached (s s' : StdioMcp) (i : Nat) (call : RegistryCall) : RegistryAction → RegistryPhase → Prop
  | waits : Reached s s' i call (.lock i) .awaiting
  | entered {result : RegistryResult} : (∀ servers, result ≠ .listed servers) →
      Reached s s' i call (.enter i) (.holding result)
  | reads : s.lock.tryRead maxReads i = some s'.lock → Reached s s' i call (.tryRead i) (.iterating [])
  | refused : s.lock.tryRead maxReads i = none → s'.instants = s.instants →
      Reached s s' i call (.tryRead i) (.returned (.listed []) s.past.length)
  | yields {servers : List ServerDescriptor} {server : String} {conn : StdioConnection} :
      call.phase = .iterating servers → s.connections.lookup server = some conn → server ∉ servers.map (·.id) →
      s'.lock = s.lock → s'.connections = s.connections →
      Reached s s' i call (.next i server) (.iterating (servers ++ [conn.descriptor server]))
  | collected {servers : List ServerDescriptor} : call.phase = .iterating servers →
      (∀ server ∈ s.connections.keys, server ∈ servers.map (·.id)) → s'.instants = s.instants →
      Reached s s' i call (.collect i) (.holding (.listed servers))
  | leaves {result : RegistryResult} : call.phase = .holding result →
      Reached s s' i call (.leave i) (.returned result s.past.length)
  | abandoned : Reached s s' i call (.abandon i) .dropped

theorem goes_goto (hi : s.calls[i]? = some call) (phase : RegistryPhase) : Goes s (s.goto i call phase) i call phase :=
  ⟨hi, rfl, id, fun _ _ h => h, .inl ⟨rfl, rfl⟩⟩

/-- With another lock. -/
theorem goes_lock (hi : s.calls[i]? = some call) (phase : RegistryPhase) {lock : FairLock Nat}
    (hsound : s.lock.Sound maxReads → lock.Sound maxReads)
    (hreaders : ∀ j, j ≠ i → j ∈ s.lock.readers → j ∈ lock.readers) :
    Goes s { s.goto i call phase with lock := lock } i call phase :=
  ⟨hi, rfl, hsound, hreaders, .inl ⟨rfl, rfl⟩⟩

theorem goes_replace (hi : s.calls[i]? = some call) (phase : RegistryPhase) (hw : s.lock.writer = some i)
    (map : ConnectionMap) : Goes s ((s.replace map).goto i call phase) i call phase :=
  ⟨hi, rfl, id, fun _ _ h => h, .inr ⟨hw, rfl⟩⟩

theorem goes_operate (hi : s.calls[i]? = some call) (hg : s.granted i call.op.mode = true)
    (h : s.operate i call = some s') :
    ∃ result, Goes s s' i call (.holding result) ∧ ∀ servers, result ≠ .listed servers := by
  unfold StdioMcp.operate at h
  split at h
  · rename_i hop
    obtain rfl := Option.some.inj h
    rw [hop] at hg
    exact ⟨_, goes_replace hi _ (beq_iff_eq.mp hg) _, fun servers he => by cases he⟩
  · rename_i hop
    obtain rfl := Option.some.inj h
    rw [hop] at hg
    exact ⟨_, goes_replace hi _ (beq_iff_eq.mp hg) _, fun servers he => by cases he⟩
  · obtain rfl := Option.some.inj h
    exact ⟨_, goes_goto hi _, fun servers he => by cases he⟩
  · cases h

/-- What a step does. -/
theorem step_cases (h : s.step a = some s') :
    (∃ op, a = .call op ∧ s' = { s with calls := s.calls ++ [⟨op, .called, s.past.length⟩] }) ∨
      ∃ i call phase, Goes s s' i call phase ∧ Reached s s' i call a phase := by
  cases a with
  | call op => exact .inl ⟨op, rfl, (Option.some.inj h).symm⟩
  | lock i =>
    simp only [StdioMcp.step] at h
    split at h
    · rename_i call hi
      split at h
      · rename_i mode _ _
        obtain rfl := Option.some.inj h
        exact .inr ⟨i, call, _, goes_lock hi _ (fun hs => hs.request mode i) fun j _ => FairLock.mem_readers_request, .waits⟩
      · cases h
    · cases h
  | enter i =>
    simp only [StdioMcp.step] at h
    split at h
    · rename_i call hi
      split at h
      · rename_i hg
        obtain ⟨result, hgoes, hne⟩ := goes_operate hi hg h
        exact .inr ⟨i, call, _, hgoes, .entered hne⟩
      · cases h
    · cases h
  | tryRead i =>
    simp only [StdioMcp.step] at h
    split at h
    · rename_i call hi
      split at h
      · split at h
        · rename_i lock hl
          obtain rfl := Option.some.inj h
          refine .inr ⟨i, call, _, goes_lock hi _ (fun _ => FairLock.Sound.tryRead hl) fun j _ hj => ?_, .reads hl⟩
          rw [FairLock.readers_tryRead hl]
          exact List.mem_cons_of_mem i hj
        · rename_i hl
          obtain rfl := Option.some.inj h
          exact .inr ⟨i, call, _, goes_goto hi _, .refused hl rfl⟩
      · cases h
    · cases h
  | next i server =>
    simp only [StdioMcp.step] at h
    split at h
    · rename_i call hi
      split at h
      · rename_i hp hl
        split at h
        · cases h
        · rename_i hnew
          obtain rfl := Option.some.inj h
          exact .inr ⟨i, call, _, goes_goto hi _, .yields hp hl hnew rfl rfl⟩
      · cases h
    · cases h
  | collect i =>
    simp only [StdioMcp.step] at h
    split at h
    · rename_i call hi
      split at h
      · rename_i hp
        split at h
        · rename_i hall
          obtain rfl := Option.some.inj h
          exact .inr ⟨i, call, _, goes_goto hi _, .collected hp hall rfl⟩
        · cases h
      · cases h
    · cases h
  | leave i =>
    simp only [StdioMcp.step] at h
    split at h
    · rename_i call hi
      split at h
      · rename_i hp
        obtain rfl := Option.some.inj h
        exact .inr ⟨i, call, _, goes_lock hi _ (fun hs => hs.leave i) fun j hj hr => FairLock.mem_readers_leave hr hj,
          .leaves hp⟩
      · cases h
    · cases h
  | abandon i =>
    simp only [StdioMcp.step] at h
    split at h
    · rename_i call hi
      split at h
      · obtain rfl := Option.some.inj h
        exact .inr ⟨i, call, _, goes_goto hi _, .abandoned⟩
      · obtain rfl := Option.some.inj h
        exact .inr ⟨i, call, _, goes_lock hi _ (fun hs => hs.leave i) fun j hj hr => FairLock.mem_readers_leave hr hj,
          .abandoned⟩
      · cases h
    · cases h

/-! ## Instants -/

theorem length_instants (s : StdioMcp) : s.instants.length = s.past.length + 1 := by
  simp [StdioMcp.instants]

/-- The instants that have been stay. -/
theorem Goes.instants (h : Goes s s' i call phase) : s.instants <+: s'.instants := by
  unfold StdioMcp.instants
  rcases h.maps with ⟨hc, hp⟩ | ⟨-, hp⟩
  · exact ⟨[], by rw [hc, hp, List.append_nil]⟩
  · rw [hp]
    exact List.prefix_append _ _

theorem Goes.past_le (h : Goes s s' i call phase) : s.past.length ≤ s'.past.length := by
  have hlen := h.instants.length_le
  rw [length_instants, length_instants] at hlen
  omega

theorem SnapshotOf.mono {first last last' : Nat} {servers : List ServerDescriptor} (h : SnapshotOf s first last servers)
    (hi : s.instants <+: s'.instants) (hl : last ≤ last') : SnapshotOf s' first last' servers := by
  obtain ⟨k, map, hf, hk, hmap, hperm⟩ := h
  obtain ⟨later, he⟩ := hi
  refine ⟨k, map, hf, Nat.le_trans hk hl, ?_, hperm⟩
  rw [← he, List.getElem?_append_left (List.getElem?_eq_some_iff.mp hmap).1, hmap]

/-- The present map is an instant. -/
theorem getElem?_instants (s : StdioMcp) : s.instants[s.past.length]? = some s.connections :=
  List.getElem?_concat_length

/-! ## The iterations -/

structure RegistryInv (s : StdioMcp) : Prop where
  sound : s.lock.Sound maxReads
  called : ∀ call ∈ s.calls, call.calledAt ≤ s.past.length
  /-- An iteration has a guard, and has yielded entries of the present map. -/
  iterating : ∀ i call servers, s.calls[i]? = some call → call.phase = .iterating servers →
    i ∈ s.lock.readers ∧ Yielded s.connections servers
  /-- What it has collected is a snapshot. -/
  collected : ∀ call ∈ s.calls, ∀ servers, call.phase = .holding (.listed servers) →
    SnapshotOf s call.calledAt s.past.length servers

theorem registryInv_new : RegistryInv .new where
  sound := FairLock.sound_new
  called := fun call hm => by cases hm
  iterating := fun i call servers hi => by cases hi
  collected := fun call hm => by cases hm

/-- The invariant of the call that goes on, and the others keep theirs. -/
theorem registryInv_goes (h : RegistryInv s) (hg : Goes s s' i call phase)
    (hiter : ∀ servers, phase = .iterating servers → i ∈ s'.lock.readers ∧ Yielded s'.connections servers)
    (hcoll : ∀ servers, phase = .holding (.listed servers) → SnapshotOf s' call.calledAt s'.past.length servers) :
    RegistryInv s' where
  sound := hg.sound h.sound
  called := by
    intro c hm
    rw [hg.calls] at hm
    rcases List.mem_or_eq_of_mem_set hm with hm | rfl
    · exact Nat.le_trans (h.called c hm) hg.past_le
    · exact Nat.le_trans (h.called call (List.mem_of_getElem? hg.found)) hg.past_le
  iterating := by
    intro j c servers hj hp
    rw [hg.calls] at hj
    rcases getElem?_set_cases hg.found hj with ⟨rfl, rfl⟩ | ⟨hne, hj⟩
    · exact hiter servers hp
    · obtain ⟨hr, hy⟩ := h.iterating j c servers hj hp
      refine ⟨hg.readers j hne hr, ?_⟩
      rcases hg.maps with ⟨hc, -⟩ | ⟨hw, -⟩
      · rwa [hc]
      -- the writer would exclude the reader
      · rw [h.sound.readers_eq_nil hw] at hr
        cases hr
  collected := by
    intro c hm servers hp
    rw [hg.calls] at hm
    rcases List.mem_or_eq_of_mem_set hm with hm | rfl
    · exact SnapshotOf.mono (h.collected c hm servers hp) hg.instants hg.past_le
    · exact hcoll servers hp

theorem registryInv_step (h : RegistryInv s) (hs : s.step a = some s') : RegistryInv s' := by
  rcases step_cases hs with ⟨op, rfl, rfl⟩ | ⟨i, call, phase, hg, hr⟩
  · refine ⟨h.sound, fun c hm => ?_, fun j c servers hj hp => ?_, fun c hm servers hp => ?_⟩
    · rcases List.mem_append.mp hm with hm | hm
      · exact h.called c hm
      · obtain rfl := List.mem_singleton.mp hm
        exact Nat.le_refl _
    · rcases getElem?_concat_cases hj with hj | ⟨-, rfl⟩
      · exact h.iterating j c servers hj hp
      · cases hp
    · rcases List.mem_append.mp hm with hm | hm
      · exact h.collected c hm servers hp
      · obtain rfl := List.mem_singleton.mp hm
        cases hp
  · refine registryInv_goes h hg (fun servers hp => ?_) fun servers hp => ?_
    · cases hr with
      | waits | entered | refused | collected | leaves | abandoned => cases hp
      | reads hl =>
        obtain rfl := RegistryPhase.iterating.inj hp
        rw [FairLock.readers_tryRead hl]
        exact ⟨List.mem_cons_self, yielded_nil _⟩
      | yields hphase hl hnew hlock hconn =>
        obtain rfl := RegistryPhase.iterating.inj hp
        obtain ⟨hread, hy⟩ := h.iterating i call _ hg.found hphase
        rw [hlock, hconn]
        exact ⟨hread, hy.next hl hnew⟩
    · cases hr with
      | waits | refused | leaves | abandoned | reads | yields => cases hp
      | entered hne => exact absurd (RegistryPhase.holding.inj hp) (hne servers)
      | collected hphase hall hinst =>
        obtain rfl := RegistryResult.listed.inj (RegistryPhase.holding.inj hp)
        obtain ⟨-, hy⟩ := h.iterating i call _ hg.found hphase
        refine SnapshotOf.mono ?_ hg.instants hg.past_le
        exact ⟨_, _, h.called call (List.mem_of_getElem? hg.found), Nat.le_refl _, getElem?_instants s, hy.perm hall⟩

/-! ## Listings -/

/-- The empty list is a snapshot where the map has been empty. -/
theorem snapshotOf_nil_iff {first : Nat} : SnapshotOf s first s.past.length [] ↔ EmptySince s first := by
  simp only [SnapshotOf, EmptySince, List.nil_perm, descriptors_eq_nil_iff]
  constructor
  · rintro ⟨k, map, hf, -, hmap, hnil⟩
    refine ⟨map, List.mem_of_getElem? (i := k - first) ?_, hnil⟩
    rw [List.getElem?_drop, Nat.add_sub_cancel' hf, hmap]
  · rintro ⟨map, hm, hnil⟩
    obtain ⟨k, hk⟩ := List.mem_iff_getElem?.mp hm
    rw [List.getElem?_drop] at hk
    have hlt := (List.getElem?_eq_some_iff.mp hk).1
    rw [length_instants] at hlt
    exact ⟨first + k, map, Nat.le_add_right _ _, by omega, hk, hnil⟩

/-- The listings that there were stay snapshots. -/
theorem snapshots_goes (h : Snapshots s) (hg : Goes s s' i call phase) :
    Snapshots s' ↔ ∀ servers instant, phase = .returned (.listed servers) instant →
      SnapshotOf s' call.calledAt instant servers := by
  constructor
  · intro hsnap servers instant hp
    refine hsnap { call with phase := phase } ?_ servers instant hp
    rw [hg.calls]
    exact List.mem_set (List.getElem?_eq_some_iff.mp hg.found).1 _
  · intro hnew c hm servers instant hp
    rw [hg.calls] at hm
    rcases List.mem_or_eq_of_mem_set hm with hm | rfl
    · exact SnapshotOf.mono (h c hm servers instant hp) hg.instants (Nat.le_refl _)
    · exact hnew servers instant hp

/-- A step keeps the listings snapshots, unless it is a `try_read` that fails. -/
theorem snapshots_step (hi : RegistryInv s) (h : Snapshots s) (hs : s.step a = some s') :
    Snapshots s' ↔ Unhindered s a := by
  rcases step_cases hs with ⟨op, rfl, rfl⟩ | ⟨i, call, phase, hg, hr⟩
  · refine ⟨fun _ => trivial, fun _ c hm servers instant hp => ?_⟩
    rcases List.mem_append.mp hm with hm | hm
    · exact h c hm servers instant hp
    · obtain rfl := List.mem_singleton.mp hm
      cases hp
  · rw [snapshots_goes h hg]
    cases hr with
    | waits | entered | yields | collected | abandoned =>
      exact ⟨fun _ => trivial, fun _ servers instant hp => by cases hp⟩
    | reads hl =>
      refine ⟨fun _ => .inl fun hb => ?_, fun _ servers instant hp => by cases hp⟩
      rw [(FairLock.tryRead_eq_none_iff hi.sound i).mpr hb] at hl
      cases hl
    | refused hl hinst =>
      have hbusy := (FairLock.tryRead_eq_none_iff hi.sound i).mp hl
      have hempty : SnapshotOf s' call.calledAt s.past.length [] ↔ EmptySince s call.calledAt := by
        rw [← snapshotOf_nil_iff]
        simp only [SnapshotOf, hinst]
      simp only [Unhindered, hbusy, not_true_eq_false, false_or, hg.found, Option.mem_def, Option.some.injEq,
        exists_eq_left', ← hempty]
      refine ⟨fun hall => hall [] _ rfl, fun hsnap servers instant hp => ?_⟩
      obtain ⟨hlisted, rfl⟩ := RegistryPhase.returned.inj hp
      obtain rfl := RegistryResult.listed.inj hlisted
      exact hsnap
    | leaves hphase =>
      refine ⟨fun _ => trivial, fun _ servers instant hp => ?_⟩
      obtain ⟨rfl, rfl⟩ := RegistryPhase.returned.inj hp
      exact SnapshotOf.mono (hi.collected call (List.mem_of_getElem? hg.found) servers hphase) hg.instants (Nat.le_refl _)

/-- A snapshot has the servers that are connected throughout. -/
theorem listsConnected_of_snapshots (h : Snapshots s) : ListsConnected s := by
  intro call hm servers instant hp server hconn
  obtain ⟨k, map, hf, hk, hmap, hperm⟩ := h call hm servers instant hp
  have hkey : server ∈ (descriptors map).map (·.id) := by
    rw [map_id_descriptors]
    exact AList.mem_keys.mp (hconn k map hf hk hmap)
  exact (hperm.map _).mem_iff.mpr hkey

theorem faithfulListings_iff_snapshots : FaithfulListings s ↔ Snapshots s :=
  ⟨FaithfulListings.snapshots, fun h => ⟨h, listsConnected_of_snapshots h⟩⟩

/-- The listings are faithful all along a run exactly if no `try_read` of it is
hindered. -/
theorem faithfulListings_iff {as : List RegistryAction} {s : StdioMcp} (h : exec StdioMcp.step .new as = some s) :
    AlongStates StdioMcp.step FaithfulListings .new as ↔ AlongSteps StdioMcp.step Unhindered .new as := by
  refine alongStates_iff_alongSteps registryInv_step (fun hi hf hs => ?_) registryInv_new ?_ h
  · rw [faithfulListings_iff_snapshots]
    exact snapshots_step hi hf.snapshots hs
  · exact faithfulListings_iff_snapshots.mpr fun call hm => by cases hm

/-- A listing beside a lookup. -/
def listedBesideLookup : List RegistryAction :=
  [.call (.insert "files" ⟨0, none⟩), .lock 0, .enter 0, .leave 0, .call (.get "files"), .call .listServers, .lock 1,
    .tryRead 2, .enter 1, .next 2 "files", .leave 1, .collect 2, .leave 2]

theorem faithfulListings_lookup : AlongStates StdioMcp.step FaithfulListings .new listedBesideLookup := by
  obtain ⟨s, hrun⟩ : ∃ s, exec StdioMcp.step .new listedBesideLookup = some s := ⟨_, rfl⟩
  exact (faithfulListings_iff hrun).mpr (by decide)

/-- A listing beside the insertion of another server. -/
def listedBesideInsertion : List RegistryAction :=
  [.call (.insert "files" ⟨0, none⟩), .lock 0, .enter 0, .leave 0, .call (.insert "search" ⟨1, none⟩), .call .listServers,
    .lock 1, .tryRead 2]

/-- The list is empty, although a server is connected throughout. -/
theorem not_faithfulListings_insertion : ¬ ∀ as s, exec StdioMcp.step .new as = some s →
    AlongStates StdioMcp.step FaithfulListings .new as := by
  intro h
  obtain ⟨s, hrun, hlen, hnever, hm⟩ : ∃ s, exec StdioMcp.step .new listedBesideInsertion = some s ∧
      s.past.length = 1 ∧ ¬ EmptySince s 1 ∧ ⟨.listServers, .returned (.listed []) 1, 1⟩ ∈ s.calls :=
    ⟨_, rfl, rfl, by decide, by decide⟩
  have hall := alongStates_iff_prefix.mp (h _ s hrun) listedBesideInsertion [] s rfl hrun
  have hsnap : SnapshotOf s 1 1 [] := hall.snapshots _ hm [] 1 rfl
  rw [← hlen, snapshotOf_nil_iff, hlen] at hsnap
  exact hnever hsnap

end WalaStack.Proof.Mcp
