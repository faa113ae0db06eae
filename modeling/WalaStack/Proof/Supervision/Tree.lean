import WalaStack.Proof.Supervision.Steps
import WalaStack.Spec.SupervisionTree

/-!
# The watchers that the tree tracks

`TreeMoves` lists the steps of a tree, and `tree_step_cases` sorts them by what
they do to the map of its handles: most leave it as it is, the end of
`start_service` inserts a watcher, and `drain` and `shutdown_now` empty it.
`TreeInv` relates the map to the log of these, and `tracked_of_inv` reads off
what is tracked.
-/

namespace WalaStack.Proof.Supervision

open WalaStack.Rust WalaStack.Impl.Runtime WalaStack.Spec.Supervision WalaStack.Transition WalaStack.Log

variable {t t' : SupervisionTree} {a : TreeAction} {name : String} {i : Nat}

/-! ## Steps by their actions -/

/-- The steps of a tree, one constructor for each of its actions. -/
inductive TreeMoves (t : SupervisionTree) : TreeAction → SupervisionTree → Prop
  | tick {d : Nat} : TreeMoves t (.tick d) { t with kernel := { t.kernel with now := t.kernel.now + d } }
  | signal : TreeMoves t .signal { t with kernel := { t.kernel with shutdown := true } }
  | startService {svc : Supervised} :
    TreeMoves t (.startService svc) { t.setCall t.next (.new svc t.kernel) with next := t.next + 1 }
  | watch {i : Nat} {b : WatcherAction} {c : Child} {w : Watcher} : t.calls i = some c → c.allows b = true →
    c.watcher.Steps c.svc t.kernel b w → TreeMoves t (.watch i b) (t.setCall i { c with watcher := w })
  | insert {i : Nat} {c : Child} : t.calls i = some c → c.spawned = true → c.inserted = false →
    TreeMoves t (.insert i) (t.insertChild i c)
  | abandon {i : Nat} {c : Child} : t.calls i = some c → c.watcher.phase = .starting →
    TreeMoves t (.abandon i) (t.setCall i { c with cancelled := true })
  | cancel {i : Nat} {c : Child} : t.calls i = some c → c.aborted = true → c.running = true →
    TreeMoves t (.cancel i) (t.setCall i { c with cancelled := true })
  | drain {deadline : Duration} {order : List Nat} : order.Perm t.held →
    TreeMoves t (.drain deadline order)
      { t.takeChildren with drains := t.drains ++ [⟨deadline, order, t.kernel.now + deadline.nanos, 0⟩] }
  | joined {j i : Nat} {d : Drain} {rest : List Nat} : t.drains[j]? = some d → d.pending = i :: rest →
    t.hasFinished i = true →
    TreeMoves t (.joined j)
      { t with drains := t.drains.set j (SupervisionTree.Drain.advance d t.kernel rest (d.graceful + 1)) }
  | elapsed {j i : Nat} {d : Drain} {rest : List Nat} : t.drains[j]? = some d → d.pending = i :: rest →
    d.wake ≤ t.kernel.now → t.hasFinished i = false →
    TreeMoves t (.elapsed j)
      { t with drains := t.drains.set j (SupervisionTree.Drain.advance d t.kernel rest d.graceful) }
  | shutdownNow : TreeMoves t .shutdownNow
    { t.takeChildren with
      calls := fun i => (t.calls i).map fun c => if i ∈ t.held then { c with aborted := true } else c }

theorem treeMoves_of_step (h : t.step a = some t') : TreeMoves t a t' := by
  cases a with
  | tick d =>
    cases h
    exact .tick
  | signal =>
    cases h
    exact .signal
  | startService svc =>
    cases h
    exact .startService
  | watch i b =>
    simp only [SupervisionTree.step] at h
    split at h
    · rename_i c hc
      obtain ⟨ha, h⟩ := Option.ite_none_right_eq_some.mp h
      obtain ⟨w, hw, rfl⟩ := Option.map_eq_some_iff.mp h
      exact .watch hc ha (Watcher.steps_of_step hw)
    · cases h
  | insert i =>
    simp only [SupervisionTree.step] at h
    split at h
    · rename_i c hc
      obtain ⟨hs, h⟩ := Option.ite_none_right_eq_some.mp h
      cases h
      simp only [Bool.and_eq_true, Bool.not_eq_true'] at hs
      exact .insert hc hs.1 hs.2
    · cases h
  | abandon i =>
    simp only [SupervisionTree.step] at h
    split at h
    · rename_i c hc
      obtain ⟨hp, h⟩ := Option.ite_none_right_eq_some.mp h
      cases h
      exact .abandon hc hp
    · cases h
  | cancel i =>
    simp only [SupervisionTree.step] at h
    split at h
    · rename_i c hc
      obtain ⟨hr, h⟩ := Option.ite_none_right_eq_some.mp h
      cases h
      simp only [Bool.and_eq_true] at hr
      exact .cancel hc hr.1 hr.2
    · cases h
  | drain deadline order =>
    obtain ⟨hp, h⟩ := Option.ite_none_right_eq_some.mp h
    cases h
    exact .drain hp
  | joined j =>
    simp only [SupervisionTree.step] at h
    split at h
    · rename_i d hd
      split at h
      · rename_i i rest hp
        obtain ⟨hf, h⟩ := Option.ite_none_right_eq_some.mp h
        cases h
        exact .joined hd hp hf
      · cases h
    · cases h
  | elapsed j =>
    simp only [SupervisionTree.step] at h
    split at h
    · rename_i d hd
      split at h
      · rename_i i rest hp
        obtain ⟨hw, h⟩ := Option.ite_none_right_eq_some.mp h
        cases h
        exact .elapsed hd hp hw.1 hw.2
      · cases h
    · cases h
  | shutdownNow =>
    cases h
    exact .shutdownNow

/-! ## The calls of `start_service` -/

/-- The steps of a call, its return apart. -/
inductive ChildSteps (k : Kernel) (c : Child) : Child → Prop
  | same : ChildSteps k c c
  | watch {b : WatcherAction} {w : Watcher} : c.allows b = true → c.watcher.Steps c.svc k b w →
    ChildSteps k c { c with watcher := w }
  | aborted : ChildSteps k c { c with aborted := true }
  | cancelled : ChildSteps k c { c with cancelled := true }

variable {c c' : Child} {k : Kernel}

theorem ChildSteps.svc_eq (h : ChildSteps k c c') : c'.svc = c.svc := by cases h <;> rfl

theorem ChildSteps.inserted_eq (h : ChildSteps k c c') : c'.inserted = c.inserted := by cases h <;> rfl

/-- The watcher's task does not go away by a step of its own. -/
theorem ChildSteps.spawned_of (h : ChildSteps k c c') (hs : c.spawned = true) : c'.spawned = true := by
  cases h with
  | same | aborted | cancelled => exact hs
  | watch _ hw =>
    unfold Child.spawned at hs ⊢
    cases hw <;> simp_all

/-- No call has a number that is yet to be given. -/
def Fresh (t : SupervisionTree) : Prop := ∀ i, t.next ≤ i → t.calls i = none

/-- Each call goes on, and the only other one is new. -/
structure CallsKept (t : SupervisionTree) (a : TreeAction) (t' : SupervisionTree) : Prop where
  fresh : Fresh t'
  next : ∀ i c, t.calls i = some c → ∃ c', t'.calls i = some c' ∧ ChildSteps t.kernel c c'
  old : ∀ i c', t'.calls i = some c' → (∃ c, t.calls i = some c ∧ ChildSteps t.kernel c c') ∨
    ∃ svc, a = .startService svc ∧ c' = .new svc t.kernel

theorem CallsKept.of_eq (hf : Fresh t) (hn : t'.next = t.next) (h : t'.calls = t.calls) :
    CallsKept t a t' := by
  refine ⟨fun i hi => ?_, fun i c hc => ⟨c, ?_, .same⟩, fun i c hc => .inl ⟨c, ?_, .same⟩⟩
  · rw [h, hf i (hn ▸ hi)]
  · rw [h, hc]
  · rw [← h, hc]

theorem fresh_update (hf : Fresh t) (hc : t.calls i = some c) (hn : t'.next = t.next)
    (h : t'.calls = Function.update t.calls i (some c')) : Fresh t' := by
  intro j hj
  have hj : t.calls j = none := hf j (hn ▸ hj)
  have hne : j ≠ i := fun e => by simp [← e, hj] at hc
  rw [h, Function.update_of_ne hne, hj]

theorem CallsKept.of_update (hf : Fresh t) (hc : t.calls i = some c) (hcc : ChildSteps t.kernel c c')
    (hn : t'.next = t.next) (h : t'.calls = Function.update t.calls i (some c')) : CallsKept t a t' := by
  refine ⟨fresh_update hf hc hn h, fun j d hd => ?_, fun j d hd => ?_⟩
  · by_cases hj : j = i
    · subst hj
      obtain rfl : c = d := by simpa [hc] using hd
      exact ⟨c', by rw [h, Function.update_self], hcc⟩
    · exact ⟨d, by rw [h, Function.update_of_ne hj, hd], .same⟩
  · by_cases hj : j = i
    · subst hj
      rw [h, Function.update_self, Option.some.injEq] at hd
      subst hd
      exact .inl ⟨c, hc, hcc⟩
    · rw [h, Function.update_of_ne hj] at hd
      exact .inl ⟨d, hd, .same⟩

theorem CallsKept.of_map {f : Nat → Child → Child} (hf : Fresh t)
    (hff : ∀ i c, ChildSteps t.kernel c (f i c)) (hn : t'.next = t.next)
    (h : ∀ i, t'.calls i = (t.calls i).map (f i)) : CallsKept t a t' := by
  refine ⟨fun i hi => ?_, fun i c hc => ?_, fun i c' hc' => ?_⟩
  · rw [h, hf i (hn ▸ hi), Option.map_none]
  · exact ⟨f i c, by rw [h, hc, Option.map_some], hff i c⟩
  · rw [h, Option.map_eq_some_iff] at hc'
    obtain ⟨c, hc, rfl⟩ := hc'
    exact .inl ⟨c, hc, hff i c⟩

theorem CallsKept.of_start (hf : Fresh t) {svc : Supervised} :
    CallsKept t (.startService svc) { t.setCall t.next (.new svc t.kernel) with next := t.next + 1 } := by
  refine ⟨fun i hi => ?_, fun i c hc => ⟨c, ?_, .same⟩, fun i c' hc' => ?_⟩
  · have hlt : t.next < i := hi
    exact (Function.update_of_ne (by omega) ..).trans (hf i (by omega))
  · have hne : i ≠ t.next := fun e => by simp [e, hf t.next (Nat.le_refl _)] at hc
    exact (Function.update_of_ne hne ..).trans hc
  · by_cases hi : i = t.next
    · subst hi
      obtain rfl : Child.new svc t.kernel = c' := by simpa [SupervisionTree.setCall] using hc'
      exact .inr ⟨svc, rfl, rfl⟩
    · exact .inl ⟨c', (Function.update_of_ne hi ..).symm.trans hc', .same⟩

/-! ## Steps -/

/-- What a step does to the map. -/
inductive TreeSteps (t : SupervisionTree) (a : TreeAction) (t' : SupervisionTree) : Prop
  | quiet : t'.children = t.children → t'.log = t.log → CallsKept t a t' → TreeSteps t a t'
  | inserted (i : Nat) (c : Child) : t.calls i = some c → c.spawned = true → c.inserted = false →
    t' = t.insertChild i c → TreeSteps t a t'
  | emptied : t'.children = ∅ → t'.log = t.log ++ [.emptied] → CallsKept t a t' → TreeSteps t a t'

theorem tree_step_cases (hf : Fresh t) (h : t.step a = some t') : TreeSteps t a t' := by
  cases treeMoves_of_step h with
  | tick | signal => exact .quiet rfl rfl (.of_eq hf rfl rfl)
  | startService => exact .quiet rfl rfl (.of_start hf)
  | watch hc ha hw => exact .quiet rfl rfl (.of_update hf hc (.watch ha hw) rfl rfl)
  | insert hc hs hi => exact .inserted _ _ hc hs hi rfl
  | abandon hc | cancel hc => exact .quiet rfl rfl (.of_update hf hc .cancelled rfl rfl)
  | drain => exact .emptied rfl rfl (.of_eq hf rfl rfl)
  | joined | elapsed => exact .quiet rfl rfl (.of_eq hf rfl rfl)
  | shutdownNow =>
    refine .emptied rfl rfl (.of_map hf (fun i c => ?_) rfl fun i => rfl)
    split
    · exact .aborted
    · exact .same

theorem fresh_step (hf : Fresh t) (h : t.step a = some t') : Fresh t' := by
  cases tree_step_cases hf h with
  | quiet _ _ hk | emptied _ _ hk => exact hk.fresh
  | inserted i c hc _ _ he =>
    rw [he]
    exact fresh_update hf hc rfl rfl

/-- What is true of every call, and of a new one, stays true if the steps of
the calls keep it. -/
theorem children_step {P : Child → Prop} (hstep : ∀ {c c'}, ChildSteps t.kernel c c' → P c → P c')
    (hins : ∀ {c}, P c → P { c with inserted := true })
    (hnew : ∀ svc, a = .startService svc → P (.new svc t.kernel)) (hf : Fresh t) (h : t.step a = some t')
    (hp : ∀ i c, t.calls i = some c → P c) : ∀ i c, t'.calls i = some c → P c := by
  intro i c' hc'
  cases tree_step_cases hf h with
  | quiet _ _ hk | emptied _ _ hk =>
    rcases hk.old i c' hc' with ⟨c, hc, hcc⟩ | ⟨svc, hs, rfl⟩
    · exact hstep hcc (hp i c hc)
    · exact hnew svc hs
  | inserted j c hc _ _ he =>
    rw [he] at hc'
    have hc' : Function.update t.calls j (some { c with inserted := true }) i = some c' := hc'
    by_cases hij : i = j
    · subst hij
      rw [Function.update_self, Option.some.injEq] at hc'
      rw [← hc']
      exact hins (hp i c hc)
    · rw [Function.update_of_ne hij] at hc'
      exact hp i c' hc'

/-! ## The invariant -/

/-- The map, the calls and the log of the tree agree. -/
structure TreeInv (t : SupervisionTree) : Prop where
  fresh : Fresh t
  held : ∀ name i, t.children.lookup name = some i ↔ registration.Pending t.log (name, i)
  logged : ∀ name i, t.children.lookup name = some i →
    ∃ c, t.calls i = some c ∧ c.svc.name = name ∧ c.inserted = true
  spawned : ∀ i c, t.calls i = some c → c.inserted = true → c.spawned = true
  kept : ∀ i c, t.calls i = some c → c.inserted = true →
    t.children.lookup c.svc.name = some i ∨ Replaced t c.svc.name i ∨ Taken t c.svc.name i

theorem inserted_of_pending {k : String × Nat} {h : List TreeEntry} (hp : registration.Pending h k) :
    ∃ pre post, h = pre ++ .inserted k.1 k.2 :: post := by
  obtain ⟨pre, x, post, rfl, rfl, -⟩ := hp
  exact ⟨pre, post, rfl⟩

theorem replaced_concat {e : TreeEntry} (h : Replaced t name i) (ht : t'.log = t.log ++ [e]) :
    Replaced t' name i := by
  obtain ⟨pre, mid, post, j, hl, hj⟩ := h
  exact ⟨pre, mid, post ++ [e], j, by rw [ht, hl]; simp, hj⟩

theorem taken_concat {e : TreeEntry} (h : Taken t name i) (ht : t'.log = t.log ++ [e]) :
    Taken t' name i := by
  obtain ⟨pre, mid, post, hl⟩ := h
  exact ⟨pre, mid, post ++ [e], by rw [ht, hl]; simp⟩

theorem treeInv_init (k : Kernel) : TreeInv (.new k) where
  fresh _ _ := rfl
  held name i := by
    show (∅ : AList fun _ : String => Nat).lookup name = some i ↔ registration.Pending [] (name, i)
    rw [AList.lookup_empty]
    exact ⟨nofun, fun h => absurd h Obligation.not_pending_nil⟩
  logged _ _ h := by cases h
  spawned _ _ h := by cases h
  kept _ _ h := by cases h

theorem treeInv_quiet (hi : TreeInv t) (hch : t'.children = t.children) (hl : t'.log = t.log)
    (hk : CallsKept t a t') : TreeInv t' := by
  refine ⟨hk.fresh, fun name i => ?_, fun name i h => ?_, fun i c' hc' hins => ?_, fun i c' hc' hins => ?_⟩
  · rw [hch, hl]
    exact hi.held name i
  · rw [hch] at h
    obtain ⟨c, hc, hn, hins⟩ := hi.logged name i h
    obtain ⟨c', hc', hf⟩ := hk.next i c hc
    exact ⟨c', hc', by rw [hf.svc_eq, hn], by rw [hf.inserted_eq, hins]⟩
  · rcases hk.old i c' hc' with ⟨c, hc, hf⟩ | ⟨svc, -, rfl⟩
    · exact hf.spawned_of (hi.spawned i c hc (hf.inserted_eq ▸ hins))
    · cases hins
  · rcases hk.old i c' hc' with ⟨c, hc, hf⟩ | ⟨svc, -, rfl⟩
    · rw [hf.svc_eq, hch]
      simpa only [Replaced, Taken, hl] using hi.kept i c hc (hf.inserted_eq ▸ hins)
    · cases hins

theorem treeInv_emptied (hi : TreeInv t) (hch : t'.children = ∅) (hl : t'.log = t.log ++ [.emptied])
    (hk : CallsKept t a t') : TreeInv t' := by
  refine ⟨hk.fresh, fun name i => ?_, fun name i h => ?_, fun i c' hc' hins => ?_, fun i c' hc' hins => ?_⟩
  · rw [hch, hl, Obligation.pending_concat, AList.lookup_empty]
    simp [registration]
  · rw [hch, AList.lookup_empty] at h
    cases h
  · rcases hk.old i c' hc' with ⟨c, hc, hf⟩ | ⟨svc, -, rfl⟩
    · exact hf.spawned_of (hi.spawned i c hc (hf.inserted_eq ▸ hins))
    · cases hins
  · rcases hk.old i c' hc' with ⟨c, hc, hf⟩ | ⟨svc, -, rfl⟩
    · rw [hf.svc_eq]
      rcases hi.kept i c hc (hf.inserted_eq ▸ hins) with hh | hr | ht
      · obtain ⟨pre, post, hp⟩ := inserted_of_pending ((hi.held _ _).mp hh)
        exact .inr (.inr ⟨pre, post, [], by rw [hl, hp]⟩)
      · exact .inr (.inl (replaced_concat hr hl))
      · exact .inr (.inr (taken_concat ht hl))
    · cases hins

theorem lookup_insert_iff {s : AList fun _ : String => Nat} {x y : String} {i j : Nat} :
    (s.insert x i).lookup y = some j ↔ (y = x ∧ j = i) ∨ (y ≠ x ∧ s.lookup y = some j) := by
  by_cases h : y = x
  · subst h
    rw [AList.lookup_insert]
    simp [eq_comm]
  · rw [AList.lookup_insert_ne h]
    simp [h]

theorem treeInv_inserted (hi : TreeInv t) (hc : t.calls i = some c) (hs : c.spawned = true) :
    TreeInv (t.insertChild i c) := by
  have hl : (t.insertChild i c).log = t.log ++ [.inserted c.svc.name i] := rfl
  have hcalls : ∀ j d, (t.insertChild i c).calls j = some d →
      (j = i ∧ d = { c with inserted := true }) ∨ (j ≠ i ∧ t.calls j = some d) := fun j d hd => by
    have hd : Function.update t.calls i (some { c with inserted := true }) j = some d := hd
    by_cases hj : j = i
    · subst hj
      rw [Function.update_self, Option.some.injEq] at hd
      exact .inl ⟨rfl, hd.symm⟩
    · exact .inr ⟨hj, by rwa [Function.update_of_ne hj] at hd⟩
  have hself : (t.insertChild i c).calls i = some { c with inserted := true } := Function.update_self ..
  refine ⟨fresh_update hi.fresh hc rfl rfl, fun name j => ?_, fun name j h => ?_, fun j d hd hins => ?_,
    fun j d hd hins => ?_⟩
  · rw [hl, Obligation.pending_concat, ← hi.held]
    show (t.children.insert c.svc.name i).lookup name = some j ↔ _
    rw [lookup_insert_iff]
    simp only [registration, TreeEntry.inserted.injEq, reduceCtorEq, false_or]
    grind
  · rcases lookup_insert_iff.mp h with ⟨rfl, rfl⟩ | ⟨-, h⟩
    · exact ⟨_, hself, rfl, rfl⟩
    · obtain ⟨d, hd, hn, hins⟩ := hi.logged name j h
      by_cases hj : j = i
      · subst hj
        obtain rfl : c = d := by simpa [hc] using hd
        exact ⟨_, hself, hn, rfl⟩
      · exact ⟨d, (Function.update_of_ne hj ..).trans hd, hn, hins⟩
  · rcases hcalls j d hd with ⟨rfl, rfl⟩ | ⟨-, hd⟩
    · exact hs
    · exact hi.spawned j d hd hins
  · rcases hcalls j d hd with ⟨rfl, rfl⟩ | ⟨hj, hd⟩
    · exact .inl (lookup_insert_iff.mpr (.inl ⟨rfl, rfl⟩))
    · rcases hi.kept j d hd hins with hh | hr | ht
      · by_cases hn : d.svc.name = c.svc.name
        · obtain ⟨pre, post, hp⟩ := inserted_of_pending ((hi.held _ _).mp hh)
          exact .inr (.inl ⟨pre, post, [], i, by rw [hl, hp, hn], hj.symm⟩)
        · exact .inl (lookup_insert_iff.mpr (.inr ⟨hn, hh⟩))
      · exact .inr (.inl (replaced_concat hr hl))
      · exact .inr (.inr (taken_concat ht hl))

theorem treeInv_step (hi : TreeInv t) (h : t.step a = some t') : TreeInv t' := by
  cases tree_step_cases hi.fresh h with
  | quiet hch hl hk => exact treeInv_quiet hi hch hl hk
  | inserted i c hc hs _ he =>
    rw [he]
    exact treeInv_inserted hi hc hs
  | emptied hch hl hk => exact treeInv_emptied hi hch hl hk

/-! ## What is tracked -/

theorem mem_held : i ∈ t.held ↔ Held t i := by
  unfold SupervisionTree.held Held
  rw [List.mem_map]
  constructor
  · rintro ⟨⟨name, j⟩, hm, rfl⟩
    exact ⟨name, AList.mem_lookup_iff.mpr hm⟩
  · rintro ⟨name, h⟩
    exact ⟨⟨name, i⟩, AList.mem_lookup_iff.mp h, rfl⟩

theorem drained (deadline : Duration) (order : List Nat) (h : t.step (.drain deadline order) = some t') :
    t'.children = ∅ ∧ ∃ d, t'.drains = t.drains ++ [d] ∧ ∀ i, i ∈ d.pending ↔ Held t i := by
  cases treeMoves_of_step h with
  | drain hp => exact ⟨rfl, _, rfl, fun i => hp.mem_iff.trans mem_held⟩

theorem aborted (hi : TreeInv t) (h : t.step .shutdownNow = some t') :
    t'.children = ∅ ∧ ∀ i, Held t i → ∃ c, t'.calls i = some c ∧ c.aborted = true := by
  cases h
  refine ⟨rfl, fun i hh => ?_⟩
  obtain ⟨name, hn⟩ := hh
  obtain ⟨c, hc, -⟩ := hi.logged name i hn
  exact ⟨{ c with aborted := true }, by simp [hc, mem_held.mpr ⟨name, hn⟩], rfl⟩

/-- The tree tracks the watchers as `Tracked` says. -/
theorem tracked_of_inv (hi : TreeInv t) : Tracked t := by
  constructor
  · exact hi.held
  · intro name i hh
    obtain ⟨c, hc, hn, hins⟩ := hi.logged name i hh
    exact ⟨c, hc, hn, hi.spawned i c hc hins⟩
  · exact fun i c hc _ hins => hi.kept i c hc hins
  · refine ⟨t.children.keys, t.children.keys_nodup, ?_, fun name => ?_⟩
    · simp [SupervisionTree.supervisedCount, AList.keys, List.keys]
    · rw [← AList.mem_keys, ← AList.lookup_isSome, Option.isSome_iff_exists]
      exact exists_congr fun i => hi.held name i
  · exact fun deadline order t' => drained deadline order
  · exact fun t' => aborted hi

end WalaStack.Proof.Supervision
