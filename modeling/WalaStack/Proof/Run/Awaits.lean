import WalaStack.Proof.Run.Through

/-!
# The watchers that are waited for

With names of their own, and a tree that the others leave to the runtime, the
services that `run` has started are the ones whose watchers its drain takes
out of the map (`handles_of_ended`).
-/

namespace WalaStack.Proof.Run

open WalaStack.Rust WalaStack.Impl.Runtime WalaStack.Spec.Runtime WalaStack.Spec.Supervision
  WalaStack.Proof.Supervision WalaStack.Proof.Runtime WalaStack.Transition

variable {t t' : SupervisionTree} {b : TreeAction} {rt rt' : Runtime} {a : RuntimeAction} {r r' : Run} {i j : Nat}
  {services : List Supervised} {result : Except (StartError String) Unit}

/-! ## The tree -/

theorem treeInv_shutdown (hi : TreeInv rt.tree) : TreeInv rt.shutdown.tree := by
  unfold Runtime.shutdown
  split
  · exact hi
  · exact treeInv_step hi (a := .signal) rfl

theorem treeInv_of_runtime (hi : TreeInv rt.tree) (h : rt.step a = some rt') : TreeInv rt'.tree := by
  cases runtimeSteps_of_step h with
  | setWall | work | register | schedule | attempt | stopped => exact hi
  | signal | treeSignal => exact treeInv_shutdown hi
  | tree ht => exact treeInv_step hi ht
  | shutdownGracefully ht => exact treeInv_step (treeInv_shutdown hi) ht

theorem treeInv_onRuntime (ht : TreeInv r.runtime.tree) (h : r.onRuntime a = some r') : TreeInv r'.runtime.tree := by
  obtain ⟨rt, hrt, rfl⟩ := onRuntime_cases h
  exact treeInv_of_runtime ht hrt

theorem treeInv_startsNext {rest : List Supervised} (ht : TreeInv r.runtime.tree) (h : StartsNext r rest r') :
    TreeInv r'.runtime.tree := by
  cases h with
  | done => exact ht
  | start h =>
    have ht := treeInv_onRuntime ht h
    exact ht

/-- The tree has no calls and no watchers but those of `run`. -/
structure OwnTree (t : SupervisionTree) (is : List Nat) : Prop where
  calls : ∀ i c, t.calls i = some c → i ∈ is
  log : ∀ e ∈ t.log, ∃ i c, t.calls i = some c ∧ e = .inserted c.svc.name i

/-- The action starts no service, and takes no watcher. -/
def leaves : TreeAction → Bool
  | .startService _ | .drain _ _ | .shutdownNow => false
  | _ => true

theorem log_of_tree (h : t.step b = some t') (hb : leaves b = true) :
    t'.log = t.log ∨ ∃ i c, t.calls i = some c ∧ t'.log = t.log ++ [.inserted c.svc.name i] := by
  cases treeMoves_of_step h with
  | startService | drain | shutdownNow => cases hb
  | insert hc => exact .inr ⟨_, _, hc, rfl⟩
  | tick | signal | watch | abandon | cancel | joined | elapsed => exact .inl rfl

theorem old_of_tree (hf : Fresh t) (h : t.step b = some t') (hb : leaves b = true) {c' : Child}
    (hc : t'.calls i = some c') : ∃ c, t.calls i = some c := by
  cases tree_step_cases hf h with
  | quiet _ _ hk | emptied _ _ hk =>
    rcases hk.old i c' hc with ⟨c, hc, -⟩ | ⟨svc, rfl, -⟩
    · exact ⟨c, hc⟩
    · cases hb
  | inserted j d hd _ _ he =>
    subst he
    by_cases hij : i = j
    · exact ⟨d, hij ▸ hd⟩
    · exact ⟨c', (Function.update_of_ne hij ..).symm.trans hc⟩

theorem ownTree_of_tree {is : List Nat} (ho : OwnTree t is) (hf : Fresh t) (h : t.step b = some t')
    (hb : leaves b = true) : OwnTree t' is := by
  refine ⟨fun i c' hc' => ?_, fun e he => ?_⟩
  · obtain ⟨c, hc⟩ := old_of_tree hf h hb hc'
    exact ho.calls i c hc
  · have hlog : ∃ i c, t.calls i = some c ∧ e = .inserted c.svc.name i := by
      rcases log_of_tree h hb with hl | ⟨i, c, hc, hl⟩ <;> rw [hl] at he
      · exact ho.log e he
      · rcases List.mem_append.mp he with he | he
        · exact ho.log e he
        · exact ⟨i, c, hc, List.mem_singleton.mp he⟩
    obtain ⟨i, c, hc, rfl⟩ := hlog
    obtain ⟨c', hc', hon⟩ := onward_of_tree hf h hc
    exact ⟨i, c', hc', by rw [hon.svc]⟩

/-- The services have names of their own, and no watcher is replaced. -/
theorem held_of_own (hi : TreeInv t) (ho : OwnTree t r.calls) (hn : (services.map Supervised.name).Nodup)
    (hcalls : ∀ n i : Nat, r.calls[n]? = some i → ∃ c, t.calls i = some c ∧ services[n]? = some c.svc) {c : Child}
    (hc : t.calls i = some c) (hins : c.inserted = true) : Held t i := by
  -- Calls of one name are one call.
  have hname : ∀ i j c d, t.calls i = some c → t.calls j = some d → c.svc.name = d.svc.name → i = j := by
    intro i j c d hci hdj he
    obtain ⟨n, hn'⟩ := List.getElem?_of_mem (ho.calls i c hci)
    obtain ⟨m, hm'⟩ := List.getElem?_of_mem (ho.calls j d hdj)
    obtain ⟨c', hc', hcs⟩ := hcalls n i hn'
    obtain ⟨d', hd', hds⟩ := hcalls m j hm'
    obtain rfl : c = c' := Option.some.inj (hci.symm.trans hc')
    obtain rfl : d = d' := Option.some.inj (hdj.symm.trans hd')
    have hnc : (services.map Supervised.name)[n]? = some c.svc.name := by rw [List.getElem?_map, hcs]; rfl
    have hmd : (services.map Supervised.name)[m]? = some c.svc.name := by rw [List.getElem?_map, hds, he]; rfl
    obtain rfl : n = m := (List.getElem?_inj (List.getElem?_eq_some_iff.mp hnc).1 hn).mp (hnc.trans hmd.symm)
    exact Option.some.inj (hn'.symm.trans hm')
  rcases hi.kept i c hc hins with hh | ⟨pre, mid, post, j, hl, hj⟩ | ⟨pre, mid, post, hl⟩
  · exact ⟨c.svc.name, hh⟩
  · obtain ⟨m, d, hd, he⟩ := ho.log (.inserted c.svc.name j) (by rw [hl]; simp)
    rw [TreeEntry.inserted.injEq] at he
    obtain ⟨hname', rfl⟩ := he
    exact absurd (hname j i d c hd hc hname'.symm) hj
  · obtain ⟨m, d, -, he⟩ := ho.log .emptied (by rw [hl]; simp)
    cases he

/-! ## Runs -/

/-- The drain has taken the watchers of the services that have been started. -/
def HandlesAll (r : Run) : Prop :=
  ∃ d, r.drain = some d ∧ ∀ i ∈ r.calls, i ∈ d.handles ∨ ∃ c e, r.runtime.tree.calls i = some c ∧ c.refusal? = some e

def Owned (r : Run) : Prop :=
  match r.phase with
  | .built | .starting _ _ | .waiting => OwnTree r.runtime.tree r.calls
  | .draining _ | .returned _ => HandlesAll r

structure OwnInv (services : List Supervised) (r : Run) : Prop extends RunInv services r where
  tree : TreeInv r.runtime.tree
  owned : Owned r

theorem handlesAll_of_later (h : HandlesAll r) (hl : Later r.runtime a r'.runtime) (hc : r'.calls = r.calls)
    (hd : r'.drain = r.drain) : HandlesAll r' := by
  obtain ⟨d, hd', hall⟩ := h
  refine ⟨d, hd.trans hd', fun i hi => (hall i (hc ▸ hi)).imp_right fun ⟨c, e, hci, he⟩ => ?_⟩
  obtain ⟨c', hc', hon⟩ := hl.calls i c hci
  exact ⟨c', e, hc', hon.refusal e he⟩

/-- Where `start` has ended, the drain takes all there is. -/
theorem handles_of_ended {order : List Nat} (hk : Kept services r) (ht : TreeInv r.runtime.tree)
    (ho : OwnTree r.runtime.tree r.calls) (hn : (services.map Supervised.name).Nodup)
    (hend : Ended services r result) (h : r.onRuntime (.shutdownGracefully order) = some r') :
    HandlesAll { r' with phase := .draining result, drain := some ⟨r.runtime.tree.kernel.now, order⟩ } := by
  have hon := onRuntime_of hk h
  obtain ⟨-, -, hcalls, -⟩ := hon.same
  have hperm : order.Perm r.runtime.tree.held := by
    obtain ⟨t, ht, -⟩ := Option.map_eq_some_iff.mp hon.step
    cases treeMoves_of_step ht with
    | drain hp =>
      unfold Runtime.shutdown at hp
      split at hp <;> exact hp
  have hheld : ∀ i c, r.runtime.tree.calls i = some c → c.inserted = true → i ∈ order := fun i c hc hins =>
    hperm.mem_iff.mpr (mem_held.mpr (held_of_own ht ho hn hk.calls hc hins))
  refine ⟨_, rfl, fun i (hm : i ∈ r'.calls) => ?_⟩
  rw [hcalls] at hm
  rcases result with e | ⟨⟨⟩⟩
  · obtain ⟨pre, m, c, hpre, hins, hc, he⟩ := hend
    rw [hpre] at hm
    rcases List.mem_append.mp hm with hm | hm
    · obtain ⟨d, hd, hins⟩ := hins i hm
      exact .inl (hheld i d hd hins)
    · obtain rfl := List.mem_singleton.mp hm
      obtain ⟨c', hc', hon'⟩ := hon.later.calls i c hc
      exact .inr ⟨c', e, hc', hon'.refusal e he⟩
  · obtain ⟨d, hd, hins⟩ := hend.2 i hm
    exact .inl (hheld i d hd hins)

/-- A call of `run`'s own is the only one to come. -/
theorem owned_startsNext {rest : List Supervised} (hk : Kept services r) (ho : OwnTree r.runtime.tree r.calls)
    (h : StartsNext r rest r') : Owned r' := by
  cases h with
  | done =>
    show OwnTree r.runtime.tree r.calls
    exact ho
  | @start svc rest r₁ h =>
    obtain ⟨rt, hrt, rfl⟩ := onRuntime_cases h
    show OwnTree rt.tree (r.calls ++ [r.runtime.tree.next])
    cases hrt
    refine ⟨fun i c hc => ?_, fun e he => ?_⟩
    · by_cases hi : i = r.runtime.tree.next
      · exact List.mem_append_right _ (List.mem_singleton.mpr hi)
      · exact List.mem_append_left _ (ho.calls i c ((Function.update_of_ne hi ..).symm.trans hc))
    · obtain ⟨i, c, hc, he⟩ := ho.log e he
      refine ⟨i, c, (Function.update_of_ne ?_ ..).trans hc, he⟩
      rintro rfl
      rw [hk.runtime.fresh _ (Nat.le_refl _)] at hc
      cases hc

/-- The others leave the tree to `run`. -/
theorem owned_other (hi : OwnInv services r) (hl : LeavesTree r (.other a)) (ho : r.owns a = false)
    (h : OnRuntime r a r') : Owned r' := by
  obtain ⟨-, hphase, hcalls, hdrain⟩ := h.same
  have hown : OwnTree r.runtime.tree r.calls → OwnTree r'.runtime.tree r'.calls := by
    intro hown
    rw [hcalls]
    have hshut : OwnTree r.runtime.shutdown.tree r.calls := by
      unfold Runtime.shutdown
      split <;> exact ⟨hown.calls, hown.log⟩
    have hs := h.step
    generalize r'.runtime = rt' at hs ⊢
    cases runtimeSteps_of_step hs with
    | setWall | work | register | schedule | attempt => exact hown
    | signal | treeSignal => exact hshut
    | @tree b t ht =>
      refine ownTree_of_tree hown hi.kept.runtime.fresh ht ?_
      cases b <;> first | rfl | exact hl.elim
    | shutdownGracefully | stopped => cases ho
  have howned := hi.owned
  unfold Owned at howned ⊢
  rw [hphase]
  split at howned
  · exact hown howned
  · exact hown howned
  · exact hown howned
  · exact handlesAll_of_later howned h.later hcalls hdrain
  · exact handlesAll_of_later howned h.later hcalls hdrain

theorem ownInv_step {a : RunAction} (hn : (services.map Supervised.name).Nodup) (hi : OwnInv services r)
    (hl : LeavesTree r a) (hs : RunSteps r a r') : OwnInv services r' := by
  have howned := hi.owned
  unfold Owned at howned
  refine ⟨runInv_step hi.toRunInv hs, ?_, ?_⟩
  · cases hs with
    | other _ h => exact treeInv_onRuntime hi.tree h
    | begin _ h => exact treeInv_startsNext (r := r.publish .starting) hi.tree h
    | next _ _ _ h => exact treeInv_startsNext hi.tree h
    | refused _ _ _ h =>
      have ht := treeInv_onRuntime hi.tree h
      exact ht
    | signalled _ h =>
      have ht := treeInv_onRuntime hi.tree h
      exact ht
    | stopped _ h =>
      have ht := treeInv_onRuntime hi.tree h
      exact ht
  · cases hs with
    | other ho h => exact owned_other hi hl ho (onRuntime_of hi.kept h)
    | begin hp h =>
      simp only [hp] at howned
      exact owned_startsNext (r := r.publish .starting) (kept_publish hi.kept .starting) howned h
    | next hp _ _ h =>
      simp only [hp] at howned
      exact owned_startsNext hi.kept howned h
    | refused hp hc he h =>
      simp only [hp] at howned
      have hreached := hi.reached
      unfold At at hreached
      simp only [hp] at hreached
      obtain ⟨pre, hcalls, hpre, -⟩ := hreached
      have hend : Ended services r (.error _) := ⟨pre, _, _, hcalls, hpre, hc, he⟩
      exact handles_of_ended hi.kept hi.tree howned hn hend h
    | signalled hp h =>
      simp only [hp] at howned
      have hreached := hi.reached
      unfold At at hreached
      simp only [hp] at hreached
      have hend : Ended services r (.ok ()) := hreached
      exact handles_of_ended hi.kept hi.tree howned hn hend h
    | @stopped result r₁ hp h =>
      simp only [hp] at howned
      have hon := onRuntime_of hi.kept h
      exact handlesAll_of_later howned hon.later hon.same.2.2.1 hon.same.2.2.2

/-- If the services have names of their own and the others leave the tree
alone, `run` returns when the watcher of each service that it has started has
finished, or the deadline has passed. -/
theorem awaits_all {as : List RunAction} {now : Nat} {wall : DateTime} {deadline : Duration}
    (hn : (services.map Supervised.name).Nodup)
    (hok : AlongSteps Run.step LeavesTree (.new services now wall deadline) as)
    (h : exec Run.step (.new services now wall deadline) as = some r) : AwaitsAll r := by
  have hinit : OwnInv services (.new services now wall deadline) := by
    refine ⟨runInv_new services now wall deadline, treeInv_init _, fun i c hc => ?_, fun e he => ?_⟩
    · cases hc
    · cases he
  have hi : OwnInv services r := hok.invariant (fun hi hl hs => ownInv_step hn hi hl (runSteps_of_step hs)) hinit h
  intro result hp
  have howned := hi.owned
  have hreached := hi.reached
  unfold Owned at howned
  unfold At at hreached
  simp only [hp] at howned hreached
  obtain ⟨d, hd, hhandles⟩ := howned
  obtain ⟨-, d', hd', hawaited⟩ := hreached
  obtain rfl : d' = d := Option.some.inj (hd'.symm.trans hd)
  refine ⟨d', hd', fun i hi' c hc hins => ?_⟩
  rcases hhandles i hi' with hm | ⟨c', e, hc', he⟩
  · exact hawaited i hm
  · obtain rfl : c = c' := Option.some.inj (hc.symm.trans hc')
    have hspawned := hi.tree.spawned i c hc hins
    rw [Child.spawned, phase_of_refusal he] at hspawned
    cases hspawned

theorem leavesTree_refused : ∀ a ∈ refusedServer, ∀ r, LeavesTree r a := by
  intro a ha r
  simp only [refusedServer, List.mem_cons, List.not_mem_nil, or_false] at ha
  rcases ha with rfl | rfl | rfl | rfl | rfl | rfl | rfl | rfl | rfl <;> trivial

theorem awaits_all_refused : ∃ r,
    exec Run.step (.new [database, server] 0 .epoch (.fromSecs 10)) refusedServer = some r ∧ AwaitsAll r := by
  obtain ⟨r, hrun⟩ : ∃ r, exec Run.step (.new [database, server] 0 .epoch (.fromSecs 10)) refusedServer = some r :=
    ⟨_, rfl⟩
  have hnames : ([database, server].map Supervised.name).Nodup := by decide
  have hok : AlongSteps Run.step LeavesTree (.new [database, server] 0 .epoch (.fromSecs 10)) refusedServer :=
    .of_forall leavesTree_refused _
  exact ⟨r, hrun, awaits_all hnames hok hrun⟩

end WalaStack.Proof.Run
