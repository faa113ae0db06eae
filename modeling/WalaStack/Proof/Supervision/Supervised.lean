import WalaStack.Proof.Supervision.Tree

/-!
# When every running watcher is tracked

`exact_step` goes through the steps of a tree: while the map holds exactly the
running watchers, a step leaves it so exactly if it meets `KeepsExact`.
`all_tracked_iff` is that along a run. The handle of a watcher that has ended
stays in the map, and is counted.
-/

namespace WalaStack.Proof.Supervision

open WalaStack.Rust WalaStack.Impl.Runtime WalaStack.Spec.Supervision WalaStack.Transition

variable {t t' : SupervisionTree} {a : TreeAction} {i : Nat} {c c' : Child}

/-! ## The last step of a watcher -/

theorem leaves_iff {svc : Supervised} {k : Kernel} {w w' : Watcher} {b : WatcherAction}
    (h : w.Steps svc k b w') (hp : w.phase ≠ .starting) : Leaves svc w b ↔ w'.phase = .returned := by
  cases h <;> simp_all [Leaves]

/-- A watcher that has been spawned runs until it returns or is dropped. -/
theorem running_watch {k : Kernel} {w : Watcher} {b : WatcherAction} (h : c.watcher.Steps c.svc k b w)
    (hs : c.spawned = true) (ha : c.allows b = true) :
    { c with watcher := w }.running = true ↔ c.running = true ∧ ¬ Leaves c.svc c.watcher b := by
  have hp : c.watcher.phase ≠ .starting := fun e => by simp [Child.spawned, e] at hs
  have hs' : { c with watcher := w }.spawned = true := (ChildSteps.watch ha h).spawned_of hs
  have hret : c.watcher.phase ≠ .returned := fun e => by cases h <;> simp_all
  rw [leaves_iff h hp]
  simp [Child.running, Child.finished, hs, hs', hret]

/-! ## Steps -/

theorem exact_setCall (hx : Exact t) (i : Nat) (c' : Child) :
    Exact (t.setCall i c') ↔ ((c'.running = true ∧ c'.inserted = true) ↔ Held t i) := by
  have hheld : ∀ j, Held (t.setCall i c') j ↔ Held t j := fun _ => Iff.rfl
  have hself : Supervises (t.setCall i c') i ↔ c'.running = true ∧ c'.inserted = true := by
    simp [Supervises, SupervisionTree.setCall]
  refine ⟨fun h => ?_, fun h j => ?_⟩
  · rw [← hself, ← hheld]
    exact h i
  · by_cases hj : j = i
    · subst hj
      rw [hself, h, hheld]
    · have hne : Supervises (t.setCall i c') j ↔ Supervises t j := by
        simp [Supervises, SupervisionTree.setCall, Function.update_of_ne hj]
      rw [hne, hx j, hheld]

theorem held_iff_of_exact (hx : Exact t) (hc : t.calls i = some c) :
    Held t i ↔ c.running = true ∧ c.inserted = true := by
  rw [← hx i]
  simp [Supervises, hc]

theorem exact_watch {b : WatcherAction} {w : Watcher} (hi : TreeInv t) (hx : Exact t) (hc : t.calls i = some c)
    (ha : c.allows b = true) (hw : c.watcher.Steps c.svc t.kernel b w) :
    Exact (t.setCall i { c with watcher := w }) ↔ KeepsExact t (.watch i b) := by
  have hheld := held_iff_of_exact hx hc
  have hkeeps : KeepsExact t (.watch i b) ↔ (Held t i → ¬ Leaves c.svc c.watcher b) := by
    simp [KeepsExact, mem_held, hc]
  rw [exact_setCall hx, hkeeps, hheld]
  by_cases hin : c.inserted = true
  · have hrun := running_watch hw (hi.spawned i c hc hin) ha
    simp only [hin, and_true] at hrun ⊢
    rw [hrun]
    tauto
  · simp [hin]

theorem held_eq_nil : t.held = [] ↔ ∀ i, ¬ Held t i := by
  rw [List.eq_nil_iff_forall_not_mem]
  exact forall_congr' fun i => not_congr mem_held

/-- The map is emptied, and every watcher goes on. -/
theorem exact_emptied (hx : Exact t) (hch : t'.children = ∅)
    (hs : ∀ i, Supervises t' i ↔ Supervises t i) : Exact t' ↔ t.held = [] := by
  have hno : ∀ i, ¬ Held t' i := fun i ⟨name, hl⟩ => by simp [hch] at hl
  rw [held_eq_nil]
  refine forall_congr' fun i => ?_
  rw [hs, hx i, iff_false_intro (hno i), iff_false]

theorem exact_inserted (hi : TreeInv t) (hx : Exact t) (hc : t.calls i = some c) (hs : c.spawned = true)
    (hin : c.inserted = false) :
    Exact (t.insertChild i c) ↔ c.finished = false ∧ t.children.lookup c.svc.name = none := by
  have hheld : ∀ j, Held (t.insertChild i c) j ↔
      j = i ∨ ∃ name, name ≠ c.svc.name ∧ t.children.lookup name = some j := fun j => by
    refine (exists_congr fun name => lookup_insert_iff).trans ?_
    simp only [exists_or, exists_eq_left]
  have hself : Supervises (t.insertChild i c) i ↔ c.finished = false := by
    have hs' : { c with inserted := true }.spawned = true := hs
    have hf : { c with inserted := true }.finished = c.finished := rfl
    simp [Supervises, SupervisionTree.insertChild, SupervisionTree.setCall, Child.running, hs', hf]
  have hother : ∀ j, j ≠ i → (Supervises (t.insertChild i c) j ↔ Held t j) := fun j hj => by
    rw [← hx j]
    simp [Supervises, SupervisionTree.insertChild, SupervisionTree.setCall, Function.update_of_ne hj]
  constructor
  · intro h
    refine ⟨hself.mp ((h i).mpr ((hheld i).mpr (.inl rfl))), ?_⟩
    -- A watcher of the same name would run on, and its handle be gone.
    rw [Option.eq_none_iff_forall_ne_some]
    intro j hj
    obtain ⟨d, hd, hname, hins⟩ := hi.logged _ _ hj
    have hne : j ≠ i := fun e => by
      subst e
      rw [hc] at hd
      cases hd
      rw [hin] at hins
      cases hins
    rcases (hheld j).mp ((h j).mp ((hother j hne).mpr ⟨_, hj⟩)) with rfl | ⟨name, hn, hl⟩
    · exact hne rfl
    · obtain ⟨d', hd', hname', -⟩ := hi.logged _ _ hl
      rw [hd] at hd'
      cases hd'
      exact hn (hname'.symm.trans hname)
  · rintro ⟨hf, hnone⟩ j
    rw [hheld]
    by_cases hj : j = i
    · subst hj
      simp [hself, hf]
    · rw [hother j hj, Held]
      constructor
      · rintro ⟨name, hl⟩
        refine .inr ⟨name, ?_, hl⟩
        rintro rfl
        rw [hnone] at hl
        cases hl
      · rintro (h | ⟨name, -, hl⟩)
        · exact absurd h hj
        · exact ⟨name, hl⟩

/-- While the map holds exactly the running watchers, the steps that keep it so
are those of `KeepsExact`. -/
theorem exact_step (hi : TreeInv t) (hx : Exact t) (h : t.step a = some t') : Exact t' ↔ KeepsExact t a := by
  cases treeMoves_of_step h with
  | tick | signal | joined | elapsed => exact iff_of_true hx trivial
  | startService =>
    refine iff_of_true ((exact_setCall hx _ _).mpr ?_) trivial
    have hno : ¬ Held t t.next := fun hh => by
      obtain ⟨c, hc, -⟩ := (hx _).mpr hh
      simp [hi.fresh t.next (Nat.le_refl _)] at hc
    simp [hno, Child.new]
  | watch hc ha hw => exact exact_watch hi hx hc ha hw
  | insert hc hs hin =>
    rw [exact_inserted hi hx hc hs hin]
    simp [KeepsExact, hc]
  | abandon hc hp =>
    refine iff_of_true ((exact_setCall hx _ _).mpr ?_) trivial
    rw [held_iff_of_exact hx hc]
    simp [Child.running, Child.spawned, hp]
  | cancel =>
    rw [exact_setCall hx]
    simp [KeepsExact, mem_held, Child.running, Child.finished]
  | drain => exact exact_emptied hx rfl fun _ => Iff.rfl
  | shutdownNow =>
    refine exact_emptied hx rfl fun i => ?_
    cases hc : t.calls i with
    | none => simp [Supervises, hc]
    | some c =>
      by_cases hm : i ∈ t.held
      · have hr : { c with aborted := true }.running = c.running := rfl
        simp [Supervises, hc, hm, hr]
      · simp [Supervises, hc, hm]

/-! ## Runs -/

theorem nodup_held (hi : TreeInv t) : t.held.Nodup := by
  have hinj : ∀ x ∈ t.children.entries, ∀ y ∈ t.children.entries, x.2 = y.2 → x.1 = y.1 := by
    rintro ⟨n, v⟩ hx ⟨n', v'⟩ hy rfl
    obtain ⟨c, hc, hn, -⟩ := hi.logged n v (AList.mem_lookup_iff.mpr hx)
    obtain ⟨c', hc', hn', -⟩ := hi.logged n' v (AList.mem_lookup_iff.mpr hy)
    rw [hc] at hc'
    cases hc'
    exact hn.symm.trans hn'
  have hkeys : (t.children.entries.map Sigma.fst).Nodup := t.children.keys_nodup
  unfold SupervisionTree.held
  rw [List.nodup_map_iff_inj_on (List.Nodup.of_map _ hkeys)]
  exact fun x hx y hy e => List.inj_on_of_nodup_map hkeys hx hy (hinj x hx y hy e)

theorem allTracked_iff (hi : TreeInv t) : AllTracked t ↔ Exact t := by
  refine ⟨AllTracked.exact, fun hx => ⟨hx, ⟨t.held, nodup_held hi, ?_, fun i => ?_⟩, ?_, ?_⟩⟩
  · exact List.length_map ..
  · rw [hx i, mem_held]
  · intro deadline order t' h
    obtain ⟨-, d, hd, hp⟩ := (tracked_of_inv hi).drained deadline order t' h
    exact ⟨d, hd, fun i => (hp i).trans (hx i).symm⟩
  · exact fun t' h i hs => ((tracked_of_inv hi).aborted t' h).2 i ((hx i).mp hs)

theorem allTracked_new (k : Kernel) : AllTracked (.new k) := by
  refine (allTracked_iff (treeInv_init k)).mpr fun i => ?_
  simp [Supervises, Held, SupervisionTree.new]

/-- Every running watcher is tracked in every state of a run exactly if each
step of the run meets `KeepsExact`. -/
theorem all_tracked_iff (k : Kernel) (as : List TreeAction) (t : SupervisionTree)
    (hrun : exec SupervisionTree.step (.new k) as = some t) :
    AlongStates SupervisionTree.step AllTracked (.new k) as ↔
      AlongSteps SupervisionTree.step KeepsExact (.new k) as := by
  refine alongStates_iff_alongSteps (I := TreeInv) treeInv_step ?_ (treeInv_init k) (allTracked_new k) hrun
  intro s a s' hi hs h
  rw [allTracked_iff (treeInv_step hi h)]
  exact exact_step hi hs.exact h

/-! ## A service that ends -/

/-- A service `api` is started, once. -/
def startApi : List TreeAction :=
  [.startService ⟨"api", .oneShot⟩, .watch 0 (.started (.ok ())), .insert 0]

/-- It is tracked while it runs. -/
theorem all_tracked_api : AlongStates SupervisionTree.step AllTracked (.new ⟨0, false⟩) startApi := by
  refine (all_tracked_iff _ _ _ rfl).mpr ?_
  refine (alongSteps_cons_of rfl _).mpr ⟨trivial, (alongSteps_cons_of rfl _).mpr ⟨fun hm => ?_, ?_⟩⟩
  · cases hm
  · refine (alongSteps_cons_of rfl _).mpr ⟨fun c hc => ?_, trivial⟩
    cases hc
    exact ⟨rfl, rfl⟩

/-- Its root task has ended, its watcher has returned, and it is still counted. -/
theorem not_all_tracked_ended :
    ¬ ∀ k as t, exec SupervisionTree.step (.new k) as = some t → AllTracked t := by
  intro h
  have hall := h ⟨0, false⟩ (startApi ++ [.watch 0 (.exits .ok), .watch 0 (.joined 0)]) _ rfl
  obtain ⟨c, hc, hr, -⟩ := (hall.exact 0).mpr ⟨"api", rfl⟩
  cases hc
  cases hr

end WalaStack.Proof.Supervision
