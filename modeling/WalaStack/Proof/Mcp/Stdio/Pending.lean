import WalaStack.Spec.Pending
import WalaStack.Proof.Mcp.Stdio.Correlation

/-!
# Leaked and stranded requests

`MapSteps` is what a step does to the calls, their channels and the map. A
request whose write fails, or whose future is dropped, ends without a look at
the map, so its id stays there unless the reader has taken it
(`noneLeaked_iff`). The reader holds one of the two references to the map: when
it exits, the senders stay with the connection, and requests wait for them
until they time out (`noneStranded_iff`).
-/

namespace WalaStack.Proof.Mcp.Stdio

open WalaStack.Rust WalaStack.Impl.Mcp WalaStack.Spec.Mcp WalaStack.Transition

variable {cfg : ConnectionConfig} {s s' : Connection} {c : Nat} {a : ConnectionAction}

theorem ended_iff {p : CallPhase} : Ended p ↔ rank p = 5 := by
  cases p <;> simp [Ended, rank]

/-! ## Sections of the map's lock -/

theorem pending_removePending (s : Connection) (id : U64) :
    (s.removePending id).pending = Function.update s.pending id none := (removed_removePending s id).pending

theorem pending_insertPending (s : Connection) (id : U64) (c : Nat) :
    (s.insertPending id c).pending = Function.update s.pending id (some c) := by
  show Function.update (s.removePending id).pending id (some c) = _
  rw [pending_removePending, Function.update_idem]

/-- The channel of a sender that goes with its entry is not empty any more. -/
theorem empty_of_removePending {id : U64} (h : (s.removePending id).channels c = .empty) :
    s.channels c = .empty ∧ s.pending id ≠ some c := by
  unfold Connection.removePending at h
  split at h
  · rename_i hnone
    exact ⟨h, by rw [hnone]; exact (Option.some_ne_none c).symm⟩
  · rename_i c₀ hc₀
    unfold Connection.dropSender at h
    by_cases hne : c = c₀
    · subst hne
      split at h
      · exact absurd ((Function.update_self ..).symm.trans h) (fun h => by cases h)
      · rename_i hch
        exact absurd h hch
    · have hp : s.pending id ≠ some c := fun hp => hne (Option.some.inj (hp.symm.trans hc₀))
      split at h
      · exact ⟨(Function.update_of_ne hne _ _).symm.trans h, hp⟩
      · exact ⟨h, hp⟩

/-- What the reader's look-up leaves of the map. -/
theorem pending_onDispatch (s : Connection) (n : Nat) (r : JsonRpcResponse) :
    (s.onDispatch n r).pending = Function.update s.pending r.id none := by
  simp only [Connection.onDispatch]
  split
  · rfl
  · rename_i hnone
    exact (Function.update_eq_self_iff.mpr (Eq.symm hnone)).symm

theorem calls_onDispatch (s : Connection) (n : Nat) (r : JsonRpcResponse) :
    (s.onDispatch n r).calls = s.calls := by
  simp only [Connection.onDispatch]
  split <;> rfl

theorem reader_onDispatch (s : Connection) (n : Nat) (r : JsonRpcResponse) :
    (s.onDispatch n r).reader = .reading := by
  simp only [Connection.onDispatch]
  split <;> rfl

theorem empty_of_onDispatch {n : Nat} {r : JsonRpcResponse} (h : (s.onDispatch n r).channels c = .empty) :
    s.channels c = .empty ∧ s.pending r.id ≠ some c := by
  simp only [Connection.onDispatch] at h
  split at h
  · rename_i c₀ hc₀
    by_cases hne : c = c₀
    · subst hne
      exact absurd ((Function.update_self ..).symm.trans h) (fun h => by cases h)
    · exact ⟨(Function.update_of_ne hne _ _).symm.trans h, fun hp => hne (Option.some.inj (hp.symm.trans hc₀))⟩
  · rename_i hnone
    exact ⟨h, fun hp => by cases hnone.symm.trans hp⟩

/-! ## What one step does to the map -/

/-- A step's effect on the calls, the channels, the map and the reader. -/
inductive MapSteps (s : Connection) : ConnectionAction → Connection → Prop
  | inserted {c : Nat} : (s.calls c).phase = .allocated →
      MapSteps s (.insert c) ((s.insertPending (s.calls c).id c).goto c (.sending .locking))
  | removed {c : Nat} {e : McpError} : (s.calls c).phase = .forgetting e →
      MapSteps s (.remove c) ((s.removePending (s.calls c).id).goto c (.returned (.error e)))
  | dispatched {n : Nat} {r : JsonRpcResponse} : s.reader = .holding n r → MapSteps s .dispatch (s.onDispatch n r)
  /-- A call ends, with the map as it is. -/
  | ended {c : Nat} {p : CallPhase} {a : ConnectionAction} {s' : Connection} :
      (LeavesNone s a ↔ s.pending (s.calls c).id = none) → StrandsNone s a → Ended p →
      s'.calls = (s.goto c p).calls → s'.pending = s.pending → s'.channels = s.channels → s'.reader = s.reader →
      MapSteps s a s'
  /-- A call goes on, with the map as it is. -/
  | went {c : Nat} {p : CallPhase} {a : ConnectionAction} {s' : Connection} : LeavesNone s a → StrandsNone s a →
      2 ≤ rankOf s c → rankOf s c ≤ 3 → ¬ Ended p →
      s'.calls = (s.goto c p).calls → s'.pending = s.pending → s'.channels = s.channels → s'.reader = s.reader →
      MapSteps s a s'
  | called {c : Nat} {a : ConnectionAction} {s' : Connection} : LeavesNone s a → StrandsNone s a → rankOf s' c = 1 →
      (∀ c', c' ≠ c → s'.calls c' = s.calls c') → s'.pending = s.pending → s'.channels = s.channels →
      s'.reader = s.reader → MapSteps s a s'
  | left : MapSteps s .eof { s with reader := .exited }
  | stayed {a : ConnectionAction} {s' : Connection} : LeavesNone s a → StrandsNone s a → s'.calls = s.calls →
      s'.pending = s.pending → s'.channels = s.channels → (s'.reader = .exited → s.reader = .exited) →
      MapSteps s a s'

/-- The write path ends in an error exactly if the pipe fails. -/
theorem error_iff_failed {p : WritePhase} {who : Writer} {payload : List UInt8} {stdin stdin' : Stdin} {b : WriteAction}
    {res : WriteResult} (h : p.step who payload stdin b = some (res, stdin')) :
    (∃ e, res = .error e) ↔ ∃ e, b = .failed e := by
  cases p <;> cases b <;> simp only [WritePhase.step] at h <;> try split at h
  all_goals first | (cases h; simp) | cases h

/-- A call at its write path. -/
theorem mapSteps_of_write {b : WriteAction} {p : WritePhase} {res : WriteResult} {stdin : Stdin} (hc : rankOf s c = 2)
    (hstep : p.step (.request c) (s.calls c).payload s.stdin b = some (res, stdin)) :
    MapSteps s (.write c b) ({ s with stdin := stdin }.onWrite cfg c res) := by
  have hfails := error_iff_failed hstep
  have hleaves : (¬ ∃ e, res = .error e) → LeavesNone s (.write c b) := by
    intro hres
    cases b with
    | failed e => exact absurd (hfails.mpr ⟨e, rfl⟩) hres
    | locked | wrote | flushed => exact trivial
  cases res with
  | goto p =>
    exact .went (c := c) (p := .sending p) (hleaves (by simp)) trivial (by omega) (by omega) (fun h => h) rfl rfl rfl rfl
  | done =>
    exact .went (c := c) (p := .waiting _) (hleaves (by simp)) trivial (by omega) (by omega) (fun h => h) rfl rfl rfl rfl
  | error e =>
    obtain ⟨e', rfl⟩ := hfails.mp ⟨e, rfl⟩
    exact .ended (c := c) (p := .returned (.error e)) Iff.rfl trivial trivial rfl rfl rfl rfl

theorem mapSteps_of_step (h : s.step cfg a = some s') : MapSteps s a s' := by
  cases connectionSteps_of_step h with
  | @request c =>
    exact .called (c := c) trivial trivial (by rw [rankOf]; simp [Connection.log, rank])
      (fun c' hne => Function.update_of_ne hne _ _) rfl rfl rfl
  | insert hp => exact .inserted hp
  | write hp hstep => exact mapSteps_of_write (by rw [rankOf, hp]; rfl) hstep
  | @receive c _ n r hp hch =>
    exact .ended (c := c) (p := .returned _) ⟨fun hl => hl ⟨n, r, hch⟩, fun hp _ => hp⟩ trivial trivial rfl rfl rfl rfl
  | @lose c _ hp hch =>
    have hc : rankOf s c = 3 := by rw [rankOf, hp]; rfl
    exact .went (c := c) (p := .forgetting _) (fun hs => by simp [hch] at hs) trivial (by omega) (by omega) (fun h => h)
      rfl rfl rfl rfl
  | @expire c _ hp =>
    have hc : rankOf s c = 3 := by rw [rankOf, hp]; rfl
    exact .went (c := c) (p := .forgetting _) trivial trivial (by omega) (by omega) (fun h => h) rfl rfl rfl rfl
  | remove hp => exact .removed hp
  | @drop c => exact .ended (c := c) (p := .dropped) Iff.rfl trivial trivial rfl rfl rfl rfl
  | tick | notify | dropNotify => exact .stayed trivial trivial rfl rfl rfl id
  | @writeNotify _ _ _ _ res =>
    cases res <;> exact .stayed trivial trivial rfl rfl rfl id
  | line hr =>
    simp only [Connection.onLine]
    split
    · exact .stayed trivial trivial rfl rfl rfl (fun h => by cases h)
    · exact .stayed trivial trivial rfl rfl rfl id
  | dispatch hr => exact .dispatched hr
  | eof => exact .left

/-! ## Leaks -/

/-- A step of one call, after which the others have their ids and phases. -/
theorem noneLeaked_goto {p : CallPhase} (hn : NoneLeaked s) (hcalls : s'.calls = (s.goto c p).calls)
    (hpend : ∀ id, s.pending id = none → s'.pending id = none) (hc : Ended p → s'.pending (s.calls c).id = none) :
    NoneLeaked s' := by
  intro c' he
  rw [hcalls] at he ⊢
  rw [id_goto]
  by_cases h : c' = c
  · subst h
    rw [calls_goto_self] at he
    exact hc he
  · rw [calls_goto_of_ne s p h] at he
    exact hpend _ (hn c' he)

/-- An id that is not in the map is not in it after an entry has gone. -/
theorem update_none {pending : U64 → Option Nat} {id id' : U64} (h : pending id' = none) :
    Function.update pending id none id' = none := by
  by_cases hid : id' = id
  · rw [hid, Function.update_self]
  · rw [Function.update_of_ne hid, h]

theorem noneLeaked_step (hn : NoneLeaked s) (h : MapSteps s a s') : NoneLeaked s' ↔ LeavesNone s a := by
  cases h with
  | @inserted c hp =>
    have hpend := pending_insertPending s (s.calls c).id c
    have hcalls : (s.insertPending (s.calls c).id c).calls = s.calls := (removed_removePending s _).calls
    have hnot : ∀ c', Ended (s.calls c').phase → c' ≠ c := by
      rintro c' he rfl
      rw [hp] at he
      exact he
    constructor
    · intro hn' c' he hid
      have hnone := hn' c' (by rw [calls_goto_of_ne _ _ (hnot c' he), hcalls]; exact he)
      rw [id_goto, hcalls, hid] at hnone
      cases ((congrFun hpend _).trans (Function.update_self ..)).symm.trans hnone
    · intro hfresh c' he
      have hne : c' ≠ c := by
        rintro rfl
        rw [calls_goto_self] at he
        exact he
      rw [calls_goto_of_ne _ _ hne, hcalls] at he ⊢
      have hupdate := (congrFun hpend (s.calls c').id).trans (Function.update_of_ne (hfresh c' he) _ _)
      exact hupdate.trans (hn c' he)
  | @removed c e hp =>
    have hrem := removed_removePending s (s.calls c).id
    refine iff_of_true (noneLeaked_goto (c := c) (p := .returned (.error e)) hn ?_ (fun id hid => ?_) fun _ => ?_) trivial
    · rw [Connection.goto, Connection.goto, hrem.calls]
    · exact (congrFun hrem.pending id).trans (update_none hid)
    · exact (congrFun hrem.pending _).trans (Function.update_self ..)
  | @dispatched n r hr =>
    refine iff_of_true (fun c' he => ?_) trivial
    rw [calls_onDispatch] at he ⊢
    rw [pending_onDispatch]
    exact update_none (hn c' he)
  | @ended c p _ _ hl _ he hcalls hpend _ _ =>
    rw [hl]
    constructor
    · intro hn'
      have hnone := hn' c (by rw [hcalls, calls_goto_self]; exact he)
      rwa [hcalls, id_goto, hpend] at hnone
    · intro hnone
      exact noneLeaked_goto hn hcalls (fun id hid => by rw [hpend, hid]) fun _ => by rw [hpend, hnone]
  | went hl _ _ _ he hcalls hpend _ _ =>
    exact iff_of_true (noneLeaked_goto hn hcalls (fun id hid => by rw [hpend, hid]) fun h => absurd h he) hl
  | @called c _ _ hl _ h1 hother hpend _ _ =>
    refine iff_of_true (fun c' he => ?_) hl
    have hne : c' ≠ c := by
      rintro rfl
      have h5 : rankOf s' c' = 5 := ended_iff.mp he
      omega
    rw [hother c' hne] at he ⊢
    rw [hpend]
    exact hn c' he
  | left => exact iff_of_true hn trivial
  | stayed hl _ hcalls hpend _ _ =>
    refine iff_of_true (fun c' he => ?_) hl
    rw [hcalls] at he ⊢
    rw [hpend]
    exact hn c' he

theorem noneLeaked_init (now : Nat) : NoneLeaked (.init now) := fun _ _ => rfl

/-- While the ids are distinct, a call is not left in the map by its response,
and the id of none that has ended is inserted again. -/
theorem leavesNone_of_distinct (h : ConnectionReachable cfg s) (hle : requests s.history ≤ 2 ^ 64)
    (hs : s.step cfg a = some s') (ha : a = .receive c ∨ a = .insert c) : LeavesNone s a := by
  obtain ⟨hi, hlk⟩ := invariant_of_reachable h
  have hl : Live s := (hlk hle).1
  rcases ha with rfl | rfl
  · rintro ⟨n, r, hch⟩
    refine Option.eq_none_iff_forall_ne_some.mpr fun c' hp => ?_
    obtain ⟨hid, h2, hempty⟩ := hi.owned _ c' hp
    have h1 : 1 ≤ rankOf s c := by
      by_contra h0
      cases hch.symm.trans (hi.fresh c (by omega))
    obtain rfl := hl.distinct c' c (by omega) h1 hid
    cases hch.symm.trans hempty
  · intro c' he hid
    have h1 : rankOf s c = 1 := by
      cases connectionSteps_of_step hs with
      | insert hp =>
        rw [rankOf, hp]
        rfl
    have h5 : rankOf s c' = 5 := ended_iff.mp he
    obtain rfl := hl.distinct c' c (by omega) (by omega) hid
    omega

/-- A run makes no requests undone. -/
theorem requests_le_of_exec {as : List ConnectionAction} (h : ConnectionReachable cfg s)
    (hrun : exec (Connection.step cfg) s as = some s') : requests s.history ≤ requests s'.history := by
  have hboth : ConnectionReachable cfg s' ∧ requests s.history ≤ requests s'.history := by
    refine exec_invariant (I := fun t => ConnectionReachable cfg t ∧ requests s.history ≤ requests t.history) ?_
      ⟨h, Nat.le_refl _⟩ hrun
    intro t a t' ht hstep
    obtain ⟨e, m⟩ := moves_of_step (invariant_of_reachable ht.1).1.owned hstep
    exact ⟨ht.1.step trivial hstep, Nat.le_trans ht.2 (requests_mono m)⟩
  exact hboth.2

/-- Up to `2 ^ 64` requests, only the failed writes and the drops matter. -/
theorem leavesNone_iff_endsOutside {as : List ConnectionAction} (h : ConnectionReachable cfg s)
    (hrun : exec (Connection.step cfg) s as = some s') (hle : requests s'.history ≤ 2 ^ 64) :
    AlongSteps (Connection.step cfg) LeavesNone s as ↔ AlongSteps (Connection.step cfg) EndsOutside s as := by
  induction as generalizing s with
  | nil => exact Iff.rfl
  | cons a as ih =>
    have hnow := Nat.le_trans (requests_le_of_exec h hrun) hle
    rw [exec_cons, Option.bind_eq_some_iff] at hrun
    obtain ⟨s₁, h₁, h₂⟩ := hrun
    rw [alongSteps_cons_of h₁, alongSteps_cons_of h₁, ih (h.step trivial h₁) h₂]
    refine and_congr_left fun _ => ?_
    cases a with
    | receive c => exact iff_of_true (leavesNone_of_distinct h hnow h₁ (.inl rfl)) trivial
    | insert c => exact iff_of_true (leavesNone_of_distinct h hnow h₁ (.inr rfl)) trivial
    | write c b => cases b <;> exact Iff.rfl
    | _ => exact Iff.rfl

/-- No id is leaked all along a run exactly if each call that ends without a look
at the map finds its id out of it already. -/
theorem noneLeaked_iff (cfg : ConnectionConfig) (now : Nat) (as : List ConnectionAction) (s : Connection)
    (h : exec (Connection.step cfg) (.init now) as = some s) :
    AlongStates (Connection.step cfg) NoneLeaked (.init now) as ↔
      AlongSteps (Connection.step cfg) LeavesNone (.init now) as :=
  alongStates_iff_alongSteps (I := fun _ => True) (fun _ _ => trivial)
    (fun _ hn hs => noneLeaked_step hn (mapSteps_of_step hs)) trivial (noneLeaked_init now) h

/-- A ping whose timeout elapses, and whose response comes late. -/
theorem noneLeaked_late : AlongStates (Connection.step pingConfig) NoneLeaked (.init 0)
    (pinged ++ [.tick 30000000000, .expire 0, .remove 0, .dispatch]) := by
  have hrun : exec (Connection.step pingConfig) (.init 0)
      (pinged ++ [.tick 30000000000, .expire 0, .remove 0, .dispatch]) = some _ := rfl
  refine (noneLeaked_iff pingConfig 0 _ _ hrun).mpr ?_
  refine (leavesNone_iff_endsOutside (.init ⟨0, rfl⟩) hrun (by decide)).mpr ?_
  simp [pinged, AlongSteps, EndsOutside]

/-- The pipe breaks while the ping is written. -/
def brokenPipe : List ConnectionAction :=
  [.request 0 "ping" .null, .insert 0, .write 0 .locked, .write 0 (.failed "Broken pipe (os error 32)")]

theorem not_noneLeaked_broken : ¬ ∀ (cfg : ConnectionConfig) (now : Nat) (as : List ConnectionAction) (s : Connection),
    exec (Connection.step cfg) (.init now) as = some s → AlongStates (Connection.step cfg) NoneLeaked (.init now) as := by
  intro h
  have hrun : exec (Connection.step pingConfig) (.init 0) brokenPipe = some _ := rfl
  have hleaks := alongStates_iff_prefix.mp (h pingConfig 0 brokenPipe _ hrun) brokenPipe [] _ rfl hrun 0 trivial
  exact absurd hleaks (by decide)

/-! ## Stranded requests -/

/-- The sender of a request that has neither a response nor lost it is in the map. -/
def Awaited (s : Connection) : Prop :=
  ∀ c, 2 ≤ rankOf s c → rankOf s c ≤ 3 → s.channels c = .empty → s.pending (s.calls c).id = some c

theorem awaited_goto {p : CallPhase} (ha : Awaited s) (hr : 2 ≤ rankOf s c ∧ rankOf s c ≤ 3 ∨ rank p = 5)
    (hcalls : s'.calls = (s.goto c p).calls) (hch : ∀ c', s'.channels c' = .empty → s.channels c' = .empty)
    (hpend : ∀ c', s'.channels c' = .empty → s.pending (s.calls c').id = some c' → s'.pending (s.calls c').id = some c') :
    Awaited s' := by
  obtain ⟨hself, hother⟩ := rankOf_goto hcalls
  intro c' h2 h3 hempty
  rw [hcalls, id_goto]
  refine hpend c' hempty (ha c' ?_ ?_ (hch c' hempty))
  all_goals
    by_cases h : c' = c
    · subst h
      omega
    · rw [← hother c' h]
      omega

/-- What goes out of the map with its sender is not awaited any more. -/
theorem update_pending {pending : U64 → Option Nat} {id id' : U64} (hne : pending id ≠ some c) (h : pending id' = some c) :
    Function.update pending id none id' = some c := by
  have hid : id' ≠ id := by
    rintro rfl
    exact hne h
  rw [Function.update_of_ne hid, h]

theorem awaited_step (ha : Awaited s) (h : MapSteps s a s') : Awaited s' := by
  cases h with
  | @inserted c hp =>
    have hrem := removed_removePending s (s.calls c).id
    have hpend := pending_insertPending s (s.calls c).id c
    have hc : rankOf s c = 1 := by rw [rankOf, hp]; rfl
    have hcalls : ((s.insertPending (s.calls c).id c).goto c (.sending .locking)).calls =
        (s.goto c (.sending .locking)).calls := by
      show Function.update (s.removePending _).calls c { (s.removePending _).calls c with phase := _ } = _
      rw [hrem.calls]
      rfl
    obtain ⟨-, hother⟩ := rankOf_goto hcalls
    intro c' h2 h3 hempty
    rw [hcalls, id_goto]
    refine (congrFun hpend _).trans ?_
    by_cases h : c' = c
    · rw [h, Function.update_self]
    · rw [hother c' h] at h2 h3
      obtain ⟨hempty, hne⟩ := empty_of_removePending hempty
      have hin := ha c' h2 h3 hempty
      have hid : (s.calls c').id ≠ (s.calls c).id := fun hid => hne (by rw [← hid, hin])
      rw [Function.update_of_ne hid, hin]
  | @removed c e hp =>
    have hrem := removed_removePending s (s.calls c).id
    refine awaited_goto (c := c) (p := .returned (.error e)) ha (.inr rfl) ?_ (fun c' h => ?_) fun c' h hin => ?_
    · rw [Connection.goto, Connection.goto, hrem.calls]
    · exact (empty_of_removePending h).1
    · exact (congrFun hrem.pending _).trans (update_pending (empty_of_removePending h).2 hin)
  | @dispatched n r hr =>
    intro c' h2 h3 hempty
    rw [rankOf, calls_onDispatch] at h2 h3
    obtain ⟨hempty, hne⟩ := empty_of_onDispatch hempty
    rw [pending_onDispatch, calls_onDispatch]
    exact update_pending hne (ha c' h2 h3 hempty)
  | ended _ _ he hcalls hpend hch _ =>
    exact awaited_goto ha (.inr (ended_iff.mp he)) hcalls (fun c' h => by rwa [hch] at h) fun c' _ hin => by rwa [hpend]
  | went _ _ h2 h3 _ hcalls hpend hch _ =>
    exact awaited_goto ha (.inl ⟨h2, h3⟩) hcalls (fun c' h => by rwa [hch] at h) fun c' _ hin => by rwa [hpend]
  | @called c _ _ _ _ h1 hother hpend hch _ =>
    intro c' h2 h3 hempty
    have hne : c' ≠ c := by
      rintro rfl
      omega
    rw [rankOf, hother c' hne] at h2 h3
    rw [hch] at hempty
    rw [hother c' hne, hpend]
    exact ha c' h2 h3 hempty
  | left => exact ha
  | stayed _ _ hcalls hpend hch _ =>
    intro c' h2 h3 hempty
    rw [rankOf, hcalls] at h2 h3
    rw [hch] at hempty
    rw [hcalls, hpend]
    exact ha c' h2 h3 hempty

/-- A request that waits for more than its own turn has its sender in the map. -/
theorem noneStranded_iff_empty (ha : Awaited s) :
    NoneStranded s ↔ (s.reader = .exited → ∀ id, s.pending id = none) := by
  refine ⟨fun h hr => (h hr).1, fun h hr => ⟨h hr, fun c deadline hp hempty => ?_⟩⟩
  have hc : rankOf s c = 3 := by rw [rankOf, hp]; rfl
  cases (h hr _).symm.trans (ha c (by omega) (by omega) hempty)

theorem noneStranded_step (ha : Awaited s) (hn : NoneStranded s) (h : MapSteps s a s') :
    NoneStranded s' ↔ StrandsNone s a := by
  have ha' := awaited_step ha h
  rw [noneStranded_iff_empty ha'] at *
  rw [noneStranded_iff_empty ha] at hn
  cases h with
  | @inserted c hp =>
    have hpend := pending_insertPending s (s.calls c).id c
    have hread : (s.insertPending (s.calls c).id c).reader = s.reader := (removed_removePending s _).reader
    constructor
    · intro hn' hr
      have hnone := hn' (hread.trans hr) (s.calls c).id
      cases ((congrFun hpend _).trans (Function.update_self ..)).symm.trans hnone
    · exact fun hr hr' => absurd (hread.symm.trans hr') hr
  | @removed c e hp =>
    have hrem := removed_removePending s (s.calls c).id
    refine iff_of_true (fun hr id => ?_) trivial
    exact (congrFun hrem.pending id).trans (update_none (hn (hrem.reader.symm.trans hr) id))
  | @dispatched n r hr =>
    exact iff_of_true (fun hr' => by cases (reader_onDispatch s n r).symm.trans hr') trivial
  | ended _ hl _ _ hpend _ hr | went _ hl _ _ _ _ hpend _ hr | called _ hl _ _ hpend _ hr =>
    refine iff_of_true (fun hr' => ?_) hl
    rw [hr] at hr'
    rw [hpend]
    exact hn hr'
  | left => exact ⟨fun h => h rfl, fun h _ => h⟩
  | stayed _ hl _ hpend _ hr =>
    refine iff_of_true (fun hr' => ?_) hl
    rw [hpend]
    exact hn (hr hr')

theorem awaited_init (now : Nat) : Awaited (.init now) := fun _ h => absurd h (Nat.not_succ_le_zero 1)

theorem noneStranded_init (now : Nat) : NoneStranded (.init now) := fun h => by cases h

/-- No request is stranded all along a run exactly if none is pending when the
reader exits and none is made after. -/
theorem noneStranded_iff (cfg : ConnectionConfig) (now : Nat) (as : List ConnectionAction) (s : Connection)
    (h : exec (Connection.step cfg) (.init now) as = some s) :
    AlongStates (Connection.step cfg) NoneStranded (.init now) as ↔
      AlongSteps (Connection.step cfg) StrandsNone (.init now) as :=
  alongStates_iff_alongSteps (fun ha hs => awaited_step ha (mapSteps_of_step hs))
    (fun ha hn hs => noneStranded_step ha hn (mapSteps_of_step hs)) (awaited_init now) (noneStranded_init now) h

/-- The server closes its stdout after it has answered. -/
theorem noneStranded_answered : AlongStates (Connection.step pingConfig) NoneStranded (.init 0)
    (pinged ++ [.dispatch, .receive 0, .eof]) := by
  have hrun : exec (Connection.step pingConfig) (.init 0) (pinged ++ [.dispatch, .receive 0, .eof]) = some _ := rfl
  refine (noneStranded_iff pingConfig 0 _ _ hrun).mpr ?_
  simp only [pinged, List.cons_append, List.nil_append]
  refine (alongSteps_cons_of rfl _).mpr ⟨trivial, ?_⟩
  refine (alongSteps_cons_of rfl _).mpr ⟨Reader.noConfusion, ?_⟩
  iterate 6 refine (alongSteps_cons_of rfl _).mpr ⟨trivial, ?_⟩
  refine (alongSteps_cons_of rfl _).mpr ⟨fun id => ?_, trivial⟩
  show Function.update (Function.update (fun _ => none) 1 (some 0)) 1 none id = none
  rw [Function.update_idem, Function.update_eq_self]

/-- The server closes its stdout before it has answered: the ping waits for its
timeout, as one does that is made now. -/
theorem not_noneStranded_closed : ¬ ∀ (cfg : ConnectionConfig) (now : Nat) (as : List ConnectionAction) (s : Connection),
    exec (Connection.step cfg) (.init now) as = some s →
    AlongStates (Connection.step cfg) NoneStranded (.init now) as := by
  intro h
  have hrun : exec (Connection.step pingConfig) (.init 0) (pinged.dropLast ++ [.eof]) = some _ := rfl
  have hstranded := alongStates_iff_prefix.mp (h pingConfig 0 _ _ hrun) _ [] _ (List.append_nil _).symm hrun rfl
  exact absurd (hstranded.1 1) (by decide)

end WalaStack.Proof.Mcp.Stdio
