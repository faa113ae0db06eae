import WalaStack.Framework.Log
import WalaStack.Spec.JobStore

/-!
# Handing out jobs

The callers of a provider, from its contract alone. `Steps` is the inversion
of `Desk.step`. A worker holds a job only while the job is `Running`, and no
two workers hold one job (`Inv`); the log agrees with this (`Logged`). So a
pulled job is pulled again only after its mark, and its pulls are numbered in
order; workers that decide as `dispatch_one` does keep within the budget
(`hand_out`).
-/

namespace WalaStack.Proof.Jobs

open WalaStack.Rust WalaStack.Impl.Jobs WalaStack.Spec.Jobs WalaStack.Transition WalaStack.Log

variable {P : Provider} {d d' : Desk P.toJobStore} {a : DeskAction P.Env} {id : JobId} {r : JobRecord}
  {v : JobView} {i : Nat}

/-- The status that a report gives a job. -/
def markStatus : Mark → JobStatus
  | .completed => .completed
  | .failed _ next => if next.isSome then .retrying else .dead

theorem markStatus_ne_running (m : Mark) : markStatus m ≠ .running := by
  rcases m with _ | ⟨error, _ | next⟩ <;> nofun

/-- A job handed out once more. -/
def bumped (P : Provider) (v : JobView) : JobView :=
  { v with status := .running, attempt := P.bump v.attempt }

/-! ## Steps -/

/-- What holds of the records that the workers hold. -/
structure Inv (P : Provider) (d : Desk P.toJobStore) : Prop where
  store : P.Inv d.store
  running : ∀ i r, d.held i = some r → ∃ v, P.view d.store r.id = some v ∧ v.status = .running ∧
    r.attempt = U32.cast v.attempt ∧ r.maxAttempts = v.maxAttempts
  apart : ∀ i j r r', d.held i = some r → d.held j = some r' → r'.id = r.id → j = i

/-- The steps of the callers, by what the store does. -/
inductive Steps (P : Provider) (d : Desk P.toJobStore) : DeskAction P.Env → Desk P.toJobStore → Prop
  | rejected {job : NewJob} {now : DateTime} {env : P.Env} : Steps P d (.enqueue job now env) d
  | enqueued {job : NewJob} {now : DateTime} {env : P.Env} {id : JobId} {s : P.State} : P.Inv s →
    P.view d.store id = none →
    P.view s = Function.update (P.view d.store) id (some ⟨.pending, 0, job.maxAttempts⟩) →
    Steps P d (.enqueue job now env) { d with store := s, history := d.history ++ [.enqueued id job] }
  | idle {i : Nat} {queues : List String} {now : DateTime} {env : P.Env} : d.held i = none →
    (P.refuses env ∨ ¬ P.loses queues now d.store) →
    Steps P d (.pull i queues now env) d
  | lost {i : Nat} {queues : List String} {now : DateTime} {env : P.Env} {id : JobId} {v : JobView}
      {s : P.State} : d.held i = none → ¬ P.refuses env → P.loses queues now d.store → P.Inv s →
    P.view d.store id = some v → v.status.waiting = true →
    P.view s = Function.update (P.view d.store) id (some (bumped P v)) →
    Steps P d (.pull i queues now env) { d with store := s }
  | pulled {i : Nat} {queues : List String} {now : DateTime} {env : P.Env} {r : JobRecord} {v : JobView}
      {s : P.State} : d.held i = none → ¬ P.refuses env → ¬ P.loses queues now d.store → P.Inv s →
    P.view d.store r.id = some v → v.status.waiting = true → r.attempt = U32.cast (P.bump v.attempt) →
    r.maxAttempts = v.maxAttempts →
    P.view s = Function.update (P.view d.store) r.id (some (bumped P v)) →
    Steps P d (.pull i queues now env)
      ⟨s, Function.update d.held i (some r), d.history ++ [.pulled i r]⟩
  | unmarked {i : Nat} {m : Mark} {env : P.Env} {r : JobRecord} : d.held i = some r → P.refuses env →
    Steps P d (.mark i m env) { d with held := Function.update d.held i none }
  | marked {i : Nat} {m : Mark} {env : P.Env} {r : JobRecord} {v : JobView} {s : P.State} :
    d.held i = some r → ¬ P.refuses env → P.Inv s → P.view d.store r.id = some v → v.status = .running →
    P.view s = Function.update (P.view d.store) r.id (some { v with status := markStatus m }) →
    Steps P d (.mark i m env)
      ⟨s, Function.update d.held i none, d.history ++ [.marked i r.id]⟩
  | crashed {i : Nat} : Steps P d (.crash i) { d with held := Function.update d.held i none }

theorem steps_of_pull {queues : List String} {now : DateTime} {env : P.Env} (hi : Inv P d)
    (h : d.step (.pull i queues now env) = some d') : Steps P d (.pull i queues now env) d' := by
  cases hh : d.held i with
  | some r =>
    rw [Desk.step, hh] at h
    cases h
  | none =>
    simp only [Desk.step, hh] at h
    by_cases hr : P.refuses env
    · obtain ⟨result, hp, hne⟩ := P.pull_refused queues now d.store hr
      rw [hp] at h
      match result, hne with
      | .ok none, _ => cases h; exact .idle hh (.inl hr)
      | .error _, _ => cases h; exact .idle hh (.inl hr)
      | .ok (some r), hne => exact absurd rfl (hne r)
    · by_cases hl : P.loses queues now d.store
      · obtain ⟨e, id, v, s, hp, hs, hv, hw, hu⟩ := P.pull_lost hi.store hr hl
        rw [hp] at h
        cases h
        exact .lost hh hr hl hs hv hw hu
      · rcases P.pull_cases hi.store hr hl with hp | ⟨r, v, s, hp, hs, hv, hw, ha, hm, hu⟩
        · rw [hp] at h
          cases h
          exact .idle hh (.inr hl)
        · rw [hp] at h
          cases h
          exact .pulled hh hr hl hs hv hw ha hm hu

theorem mark_refused {env : P.Env} (id : JobId) (m : Mark) (hr : P.refuses env) (s : P.State) :
    ∃ e, P.mark id m env s = (.error e, s) := by
  cases m with
  | completed => exact P.completed_refused id s hr
  | failed error next => exact P.failed_refused id error next s hr

theorem mark_ok {env : P.Env} (m : Mark) {s : P.State} (hs : P.Inv s) (hr : ¬ P.refuses env)
    (hv : P.view s id = some v) (hrun : v.status = .running) :
    ∃ s', P.mark id m env s = (.ok (), s') ∧ P.Inv s' ∧
      P.view s' = Function.update (P.view s) id (some { v with status := markStatus m }) := by
  cases m with
  | completed => exact P.completed_ok hs hr hv hrun
  | failed error next => exact P.failed_ok error next hs hr hv hrun

theorem steps_of_mark {m : Mark} {env : P.Env} (hi : Inv P d) (h : d.step (.mark i m env) = some d') :
    Steps P d (.mark i m env) d' := by
  cases hh : d.held i with
  | none =>
    rw [Desk.step, hh] at h
    cases h
  | some r =>
    simp only [Desk.step, hh] at h
    by_cases hr : P.refuses env
    · obtain ⟨e, hm⟩ := mark_refused r.id m hr d.store
      rw [hm] at h
      cases h
      exact .unmarked hh hr
    · obtain ⟨v, hv, hrun, -, -⟩ := hi.running i r hh
      obtain ⟨s, hm, hs, hu⟩ := mark_ok m hi.store hr hv hrun
      rw [hm] at h
      cases h
      exact .marked hh hr hs hv hrun hu

/-- Every step is one of `Steps`. -/
theorem steps_of_step (hi : Inv P d) (h : d.step a = some d') : Steps P d a d' := by
  cases a with
  | enqueue job now env =>
    simp only [Desk.step, Desk.enqueue] at h
    rcases P.enqueue_cases job now env hi.store with ⟨e, he⟩ | ⟨id, s, he, hs, hn, hu⟩
    · rw [he] at h
      cases h
      exact .rejected
    · rw [he] at h
      cases h
      exact .enqueued hs hn hu
  | pull i queues now env => exact steps_of_pull hi h
  | mark i m env => exact steps_of_mark hi h
  | crash i => cases h; exact .crashed

/-! ## What the workers hold -/

theorem inv_new : Inv P (Desk.new P.toJobStore) where
  store := P.inv_new
  running _ _ hr := by cases hr
  apart _ _ _ _ hr := by cases hr

/-- A job that waits is held by no worker. -/
theorem Inv.not_held (h : Inv P d) (hv : P.view d.store id = some v) (hw : v.status.waiting = true) :
    ∀ i r, d.held i = some r → r.id ≠ id := by
  rintro i r hr rfl
  obtain ⟨v', hv', hrun, -, -⟩ := h.running i r hr
  have hvv : v = v' := Option.some.inj (hv.symm.trans hv')
  rw [hvv, hrun] at hw
  cases hw

/-- The records held by others when worker `i` lays down its own. -/
theorem held_of_drop {j : Nat} (h : Function.update d.held i none j = some r) : j ≠ i ∧ d.held j = some r := by
  by_cases hj : j = i
  · rw [hj, Function.update_self] at h
    cases h
  · rw [Function.update_of_ne hj] at h
    exact ⟨hj, h⟩

theorem held_of_take {r₀ : JobRecord} {j : Nat} (h : Function.update d.held i (some r₀) j = some r) :
    (j = i ∧ r = r₀) ∨ (j ≠ i ∧ d.held j = some r) := by
  by_cases hj : j = i
  · rw [hj, Function.update_self] at h
    exact .inl ⟨hj, (Option.some.inj h).symm⟩
  · rw [Function.update_of_ne hj] at h
    exact .inr ⟨hj, h⟩

/-- A change of the view of a job that no worker holds. -/
theorem Inv.frame (h : Inv P d) {s : P.State} {v' : JobView}
    (hu : P.view s = Function.update (P.view d.store) id (some v')) {i : Nat} {r : JobRecord}
    (hr : d.held i = some r) (hne : r.id ≠ id) :
    ∃ v, P.view s r.id = some v ∧ v.status = .running ∧ r.attempt = U32.cast v.attempt ∧
      r.maxAttempts = v.maxAttempts := by
  rw [hu, Function.update_of_ne hne]
  exact h.running i r hr

theorem inv_step (h : Inv P d) (hs : Steps P d a d') : Inv P d' := by
  cases hs with
  | rejected | idle => exact h
  | enqueued hs hn hu =>
    refine ⟨hs, fun i r hr => h.frame hu hr ?_, h.apart⟩
    rintro rfl
    obtain ⟨v, hv, -⟩ := h.running i r hr
    rw [hn] at hv
    cases hv
  | lost hh hr hl hs hv hw hu =>
    exact ⟨hs, fun i r hr => h.frame hu hr (h.not_held hv hw i r hr), h.apart⟩
  | pulled hh hr hl hs hv hw ha hm hu =>
    have hfree := h.not_held hv hw
    refine ⟨hs, fun j r₁ hr₁ => ?_, fun j k r₁ r₂ h₁ h₂ hid => ?_⟩
    · rcases held_of_take hr₁ with ⟨-, rfl⟩ | ⟨-, hr₁⟩
      · exact ⟨bumped P _, by rw [hu, Function.update_self], rfl, ha, hm⟩
      · exact h.frame hu hr₁ (hfree j r₁ hr₁)
    · rcases held_of_take h₁ with ⟨rfl, rfl⟩ | ⟨-, g₁⟩ <;> rcases held_of_take h₂ with ⟨rfl, rfl⟩ | ⟨-, g₂⟩
      · rfl
      · exact absurd hid (hfree k r₂ g₂)
      · exact absurd hid.symm (hfree j r₁ g₁)
      · exact h.apart j k r₁ r₂ g₁ g₂ hid
  | unmarked | crashed =>
    exact ⟨h.store, fun j r hr => h.running j r (held_of_drop hr).2, fun j k r₁ r₂ h₁ h₂ =>
      h.apart j k r₁ r₂ (held_of_drop h₁).2 (held_of_drop h₂).2⟩
  | marked hh hr hs hv hrun hu =>
    refine ⟨hs, fun j r₁ hr₁ => ?_, fun j k r₁ r₂ h₁ h₂ =>
      h.apart j k r₁ r₂ (held_of_drop h₁).2 (held_of_drop h₂).2⟩
    obtain ⟨hj, hr₁⟩ := held_of_drop hr₁
    exact h.frame hu hr₁ fun hid => hj (h.apart _ _ _ _ hh hr₁ hid)

/-! ## The log -/

/-- The job that a worker pulled, until it marks it. -/
def holding : Obligation DeskEntry (Nat × JobId) where
  opens e k := ∃ r, e = .pulled k.1 r ∧ r.id = k.2
  closes e k := e = .marked k.1 k.2

theorem exclusive_concat {h : List DeskEntry} {e : DeskEntry} (hx : Exclusive h)
    (hn : ∀ j r, e = .pulled j r → ∀ i, ¬ holding.Pending h (i, r.id)) : Exclusive (h ++ [e]) := by
  intro pre mid post i r j r' he hid
  rcases split_concat he with ⟨hh, rfl, -⟩ | ⟨post', hh, rfl⟩
  · by_contra hc
    refine hn j r' rfl i ⟨pre, _, mid, hh, ⟨r, rfl, hid.symm⟩, ?_⟩
    rintro y hy rfl
    exact hc (hid ▸ hy)
  · exact hx pre mid post' i r j r' hh hid

theorem pulls_enqueued (h : List DeskEntry) (id' : JobId) (job : NewJob) :
    pulls (h ++ [.enqueued id' job]) id = pulls h id := by
  rw [pulls, List.filterMap_append]
  exact List.append_nil _

theorem pulls_marked (h : List DeskEntry) (i : Nat) (id' : JobId) :
    pulls (h ++ [.marked i id']) id = pulls h id := by
  rw [pulls, List.filterMap_append]
  exact List.append_nil _

theorem pulls_pulled_self (h : List DeskEntry) (i : Nat) (r : JobRecord) :
    pulls (h ++ [.pulled i r]) r.id = pulls h r.id ++ [r] := by
  simp [pulls]

theorem pulls_pulled_of_ne (h : List DeskEntry) (i : Nat) (hne : id ≠ r.id) :
    pulls (h ++ [.pulled i r]) id = pulls h id := by
  simp [pulls, Ne.symm hne]

/-- What the log says of the store and its callers. -/
structure Logged (P : Provider) (d : Desk P.toJobStore) : Prop where
  running : ∀ i id, holding.Pending d.history (i, id) →
    ∃ v, P.view d.store id = some v ∧ v.status = .running
  owner : ∀ i j r, d.held i = some r → holding.Pending d.history (j, r.id) → j = i
  exclusive : Exclusive d.history
  /-- A job that is `Running` and held by no worker has been lost. -/
  count : ∀ id v, P.view d.store id = some v →
    (v.status ≠ .running ∨ ∃ i r, d.held i = some r ∧ r.id = id) →
    (pulls d.history id).length ≤ u32Max → v.attempt = (pulls d.history id).length
  unknown : ∀ id, P.view d.store id = none → pulls d.history id = []
  numbered : NumberedUpTo u32Max d.history

theorem logged_new : Logged P (Desk.new P.toJobStore) where
  running _ _ hp := absurd hp Obligation.not_pending_nil
  owner _ _ _ _ hp := absurd hp Obligation.not_pending_nil
  exclusive := fun pre mid post i r j r' he => by simp [Desk.new] at he
  count id v hv := by rw [Desk.new, P.view_new] at hv; cases hv
  unknown _ _ := rfl
  numbered _ _ _ hk := by cases hk

/-- An entry that is no pull leaves open at most what was. -/
theorem pending_of_concat {h : List DeskEntry} {e : DeskEntry} {k : Nat × JobId}
    (hp : holding.Pending (h ++ [e]) k) (he : ∀ j r, e ≠ .pulled j r) :
    holding.Pending h k ∧ e ≠ .marked k.1 k.2 :=
  hp.of_concat fun ⟨r, hr, _⟩ => he _ r hr

theorem enqueued_ne (id : JobId) (job : NewJob) (j : Nat) (r : JobRecord) :
    DeskEntry.enqueued id job ≠ .pulled j r := fun h => DeskEntry.noConfusion h

theorem marked_ne (i : Nat) (id : JobId) (j : Nat) (r : JobRecord) : DeskEntry.marked i id ≠ .pulled j r :=
  fun h => DeskEntry.noConfusion h

section

variable {s : P.State} {id' : JobId} {v' v₁ : JobView}
  (hu : P.view s = Function.update (P.view d.store) id (some v'))

include hu

/-- What a changed view shows. -/
theorem view_some (h : P.view s id' = some v₁) :
    (id' = id ∧ v₁ = v') ∨ (id' ≠ id ∧ P.view d.store id' = some v₁) := by
  rw [hu] at h
  by_cases hid : id' = id
  · rw [hid, Function.update_self] at h
    exact .inl ⟨hid, (Option.some.inj h).symm⟩
  · rw [Function.update_of_ne hid] at h
    exact .inr ⟨hid, h⟩

theorem view_none (h : P.view s id' = none) : id' ≠ id ∧ P.view d.store id' = none := by
  have hid : id' ≠ id := by
    rintro rfl
    rw [hu, Function.update_self] at h
    cases h
  rw [hu, Function.update_of_ne hid] at h
  exact ⟨hid, h⟩

/-- A job stays `Running` where the change does not end it. -/
theorem view_running (hrun : id' = id → v'.status = .running)
    (h : id' ≠ id → ∃ v, P.view d.store id' = some v ∧ v.status = .running) :
    ∃ v, P.view s id' = some v ∧ v.status = .running := by
  rw [hu]
  by_cases hid : id' = id
  · exact ⟨v', by rw [hid, Function.update_self], hrun hid⟩
  · rw [Function.update_of_ne hid]
    exact h hid

end

theorem logged_enqueued (h : Logged P d) {job : NewJob} {s : P.State} (hn : P.view d.store id = none)
    (hu : P.view s = Function.update (P.view d.store) id (some ⟨.pending, 0, job.maxAttempts⟩)) :
    Logged P { d with store := s, history := d.history ++ [.enqueued id job] } := by
  have hne := enqueued_ne id job
  refine ⟨fun i id' hp => ?_, fun i j r hr hp => h.owner i j r hr (pending_of_concat hp hne).1,
    exclusive_concat h.exclusive fun j r he => absurd he (hne j r), fun id' v hv hs hle => ?_,
    fun id' hv => ?_, fun id' k r hk hle => ?_⟩
  · have hrun := h.running i id' (pending_of_concat hp hne).1
    refine view_running hu (fun hid => ?_) fun _ => hrun
    obtain ⟨v, hv, -⟩ := hrun
    rw [hid, hn] at hv
    cases hv
  · rw [pulls_enqueued] at hle ⊢
    rcases view_some hu hv with ⟨rfl, rfl⟩ | ⟨-, hv⟩
    · rw [h.unknown id' hn, List.length_nil]
    · exact h.count id' v hv hs hle
  · rw [pulls_enqueued]
    exact h.unknown id' (view_none hu hv).2
  · rw [pulls_enqueued] at hk
    exact h.numbered id' k r hk hle

/-- A pull that fails after it has moved a job. -/
theorem logged_lost (hi : Inv P d) (h : Logged P d) {s : P.State} (hv : P.view d.store id = some v)
    (hw : v.status.waiting = true)
    (hu : P.view s = Function.update (P.view d.store) id (some (bumped P v))) :
    Logged P { d with store := s } := by
  refine ⟨fun i id' hp => view_running hu (fun _ => rfl) fun _ => h.running i id' hp, h.owner, h.exclusive,
    fun id' v' hv' hs hle => ?_, fun id' hv' => h.unknown id' (view_none hu hv').2, h.numbered⟩
  rcases view_some hu hv' with ⟨rfl, rfl⟩ | ⟨-, hv'⟩
  · rcases hs with hs | ⟨i, r, hr, hid⟩
    · exact absurd rfl hs
    · exact absurd hid (hi.not_held hv hw i r hr)
  · exact h.count id' v' hv' hs hle

/-- A job that waits is open for no worker. -/
theorem Logged.not_pending (h : Logged P d) (hv : P.view d.store id = some v) (hw : v.status.waiting = true)
    (i : Nat) : ¬ holding.Pending d.history (i, id) := by
  intro hp
  obtain ⟨v', hv', hrun⟩ := h.running i id hp
  have hvv : v = v' := Option.some.inj (hv.symm.trans hv')
  rw [hvv, hrun] at hw
  cases hw

/-- The count of a job that waits. -/
theorem Logged.count_waiting (h : Logged P d) (hv : P.view d.store id = some v) (hw : v.status.waiting = true)
    (hle : (pulls d.history id).length ≤ u32Max) : v.attempt = (pulls d.history id).length := by
  refine h.count id v hv (.inl fun hrun => ?_) hle
  rw [hrun] at hw
  cases hw

/-- The numbers of the pulls of a job, with one more pull. -/
theorem numbered_pulled {h : List DeskEntry} (hn : NumberedUpTo u32Max h)
    (hr : (pulls h r.id).length + 1 ≤ u32Max → r.attempt.val = (pulls h r.id).length + 1) :
    NumberedUpTo u32Max (h ++ [.pulled i r]) := by
  intro id' k r' hk hle
  by_cases hid : id' = r.id
  · subst hid
    rw [pulls_pulled_self, List.getElem?_append] at hk
    split at hk
    · exact hn r.id k r' hk hle
    · have hlen := (List.getElem?_eq_some_iff.mp hk).1
      rw [List.length_singleton] at hlen
      have hkn : k = (pulls h r.id).length := by omega
      rw [hkn, Nat.sub_self, List.getElem?_cons_zero, Option.some.injEq] at hk
      rw [← hk, hr (by omega), hkn]
  · rw [pulls_pulled_of_ne _ _ hid] at hk
    exact hn id' k r' hk hle

theorem logged_pulled (hi : Inv P d) (h : Logged P d) {s : P.State} (hv : P.view d.store r.id = some v)
    (hw : v.status.waiting = true) (ha : r.attempt = U32.cast (P.bump v.attempt))
    (hu : P.view s = Function.update (P.view d.store) r.id (some (bumped P v))) :
    Logged P ⟨s, Function.update d.held i (some r), d.history ++ [.pulled i r]⟩ := by
  have hfree := hi.not_held hv hw
  have hclosed := h.not_pending hv hw
  have hbump : (pulls d.history r.id).length + 1 ≤ u32Max → P.bump v.attempt = (pulls d.history r.id).length + 1 :=
    fun hle => by
      have hcount := h.count_waiting hv hw (by omega)
      rw [P.bump_of_lt (by omega), hcount]
  refine ⟨fun j id' hp => ?_, fun j k r' hr' hp => ?_, ?_, fun id' v' hv' hs hle => ?_, fun id' hv' => ?_,
    numbered_pulled h.numbered fun hle => ?_⟩
  · refine view_running hu (fun _ => rfl) fun hid => h.running j id' (hp.of_concat ?_).1
    rintro ⟨r', he, hr'⟩
    obtain ⟨-, rfl⟩ := DeskEntry.pulled.inj he
    exact hid hr'.symm
  · rcases Obligation.pending_concat.mp hp with ⟨r₁, he, hid⟩ | ⟨hopen, -⟩
    · obtain ⟨rfl, rfl⟩ := DeskEntry.pulled.inj he
      rcases held_of_take hr' with ⟨hj, -⟩ | ⟨-, hr'⟩
      · exact hj.symm
      · exact absurd hid.symm (hfree j r' hr')
    · rcases held_of_take hr' with ⟨-, rfl⟩ | ⟨-, hr'⟩
      · exact absurd hopen (hclosed k)
      · exact h.owner j k r' hr' hopen
  · refine exclusive_concat h.exclusive fun j r' he => ?_
    obtain ⟨-, rfl⟩ := DeskEntry.pulled.inj he
    exact hclosed
  · rcases view_some hu hv' with ⟨rfl, rfl⟩ | ⟨hid, hv'⟩
    · rw [pulls_pulled_self, List.length_append, List.length_singleton] at hle ⊢
      exact hbump hle
    · rw [pulls_pulled_of_ne _ _ hid] at hle ⊢
      refine h.count id' v' hv' (hs.imp_right ?_) hle
      rintro ⟨j, r', hr', hrid⟩
      rcases held_of_take hr' with ⟨-, rfl⟩ | ⟨-, hr'⟩
      · exact absurd hrid.symm hid
      · exact ⟨j, r', hr', hrid⟩
  · obtain ⟨hid, hv'⟩ := view_none hu hv'
    rw [pulls_pulled_of_ne _ _ hid]
    exact h.unknown id' hv'
  · rw [ha, hbump hle]
    exact U32.cast_of_le hle

/-- A worker that lays down its record with no effect on the store. -/
theorem logged_dropped (h : Logged P d) : Logged P { d with held := Function.update d.held i none } where
  running := h.running
  owner j k r hr hp := h.owner j k r (held_of_drop hr).2 hp
  exclusive := h.exclusive
  count id v hv hs hle := h.count id v hv
    (hs.imp_right fun ⟨j, r, hr, hid⟩ => ⟨j, r, (held_of_drop hr).2, hid⟩) hle
  unknown := h.unknown
  numbered := h.numbered

theorem logged_marked (h : Logged P d) {m : Mark} {s : P.State} (hh : d.held i = some r)
    (hv : P.view d.store r.id = some v)
    (hu : P.view s = Function.update (P.view d.store) r.id (some { v with status := markStatus m })) :
    Logged P ⟨s, Function.update d.held i none, d.history ++ [.marked i r.id]⟩ := by
  have hne := marked_ne i r.id
  refine ⟨fun j id' hp => ?_,
    fun j k r' hr' hp => h.owner j k r' (held_of_drop hr').2 (pending_of_concat hp hne).1,
    exclusive_concat h.exclusive fun j r' he => absurd he (hne j r'), fun id' v' hv' hs hle => ?_,
    fun id' hv' => ?_, fun id' k r' hk hle => ?_⟩
  · obtain ⟨hp, hc⟩ := pending_of_concat hp hne
    have hid : id' ≠ r.id := by
      rintro rfl
      exact hc (by rw [h.owner i j r hh hp])
    exact view_running hu (fun e => absurd e hid) fun _ => h.running j id' hp
  · rw [pulls_marked] at hle ⊢
    rcases view_some hu hv' with ⟨rfl, rfl⟩ | ⟨-, hv'⟩
    · exact h.count r.id v hv (.inr ⟨i, r, hh, rfl⟩) hle
    · exact h.count id' v' hv'
        (hs.imp_right fun ⟨j, r', hr', hrid⟩ => ⟨j, r', (held_of_drop hr').2, hrid⟩) hle
  · rw [pulls_marked]
    exact h.unknown id' (view_none hu hv').2
  · rw [pulls_marked] at hk
    exact h.numbered id' k r' hk hle

theorem logged_step (hi : Inv P d) (h : Logged P d) (hs : Steps P d a d') : Logged P d' := by
  cases hs with
  | rejected | idle => exact h
  | enqueued _ hn hu => exact logged_enqueued h hn hu
  | lost _ _ _ _ hv hw hu => exact logged_lost hi h hv hw hu
  | pulled _ _ _ _ hv hw ha _ hu => exact logged_pulled hi h hv hw ha hu
  | unmarked | crashed => exact logged_dropped h
  | marked hh _ _ hv _ hu => exact logged_marked h hh hv hu

theorem logged_of_reachable (h : DeskReachable P.toJobStore d) : Inv P d ∧ Logged P d := by
  refine h.invariant (I := fun d => Inv P d ∧ Logged P d) ?_ ?_
  · rintro d rfl
    exact ⟨inv_new, logged_new⟩
  · rintro d a d' ⟨hi, hl⟩ - hs
    have hs := steps_of_step hi hs
    exact ⟨inv_step hi hs, logged_step hi hl hs⟩

/-! ## The budget -/

/-- Each job is within its budget, and has some left while it waits. -/
structure Within (P : Provider) (d : Desk P.toJobStore) : Prop where
  known : ∀ id job, .enqueued id job ∈ d.history → ∃ v, P.view d.store id = some v ∧ v.maxAttempts = job.maxAttempts
  budget : ∀ id v, P.view d.store id = some v → (pulls d.history id).length ≤ max 1 v.maxAttempts.val
  left : ∀ id v, P.view d.store id = some v → v.status.waiting = true →
    (pulls d.history id).length < max 1 v.maxAttempts.val

theorem within_new : Within P (Desk.new P.toJobStore) where
  known id job hm := by cases hm
  budget id v hv := by rw [Desk.new, P.view_new] at hv; cases hv
  left id v hv := by rw [Desk.new, P.view_new] at hv; cases hv

/-- A change of the view that keeps the budget of a job. -/
theorem known_of_update {s : P.State} {v' : JobView}
    (hu : P.view s = Function.update (P.view d.store) id (some v'))
    (hmax : ∀ v, P.view d.store id = some v → v.maxAttempts = v'.maxAttempts) {id' : JobId} {job : NewJob}
    (h : ∃ v, P.view d.store id' = some v ∧ v.maxAttempts = job.maxAttempts) :
    ∃ v, P.view s id' = some v ∧ v.maxAttempts = job.maxAttempts := by
  obtain ⟨v, hv, hm⟩ := h
  rw [hu]
  by_cases hid : id' = id
  · subst hid
    exact ⟨v', by rw [Function.update_self], by rw [← hmax v hv, hm]⟩
  · exact ⟨v, by rw [Function.update_of_ne hid, hv], hm⟩

/-- A worker that decides as `dispatch_one` retries only while attempts remain. -/
theorem left_of_decides (hl : Logged P d) (hw : Within P d) (hh : d.held i = some r)
    (hv : P.view d.store r.id = some v) (ha : r.attempt = U32.cast v.attempt)
    (hm : r.maxAttempts = v.maxAttempts) {m : Mark} (hd : Decides r m)
    (hwait : (markStatus m).waiting = true) : (pulls d.history r.id).length < max 1 v.maxAttempts.val := by
  have hbudget := hw.budget r.id v hv
  have hmax := v.maxAttempts.le_max
  have hle : (pulls d.history r.id).length ≤ u32Max := by
    have : u32Max = 4294967295 := rfl
    omega
  have hcount := hl.count r.id v hv (.inr ⟨i, r, hh, rfl⟩) hle
  match m, hwait, hd with
  | .failed _ (some _), _, hd =>
    have hlt : r.attempt.val < r.maxAttempts.val := hd
    rw [ha, hm, hcount, U32.cast_of_le hle] at hlt
    omega

theorem within_step (hi : Inv P d) (hl : Logged P d) (h : Within P d) (hd : Deciding d a)
    (hs : Steps P d a d') : Within P d' := by
  cases hs with
  | rejected | idle => exact h
  | @enqueued job now env id s hs hn hu =>
    refine ⟨fun id' job' hm => ?_, fun id' v hv => ?_, fun id' v hv hw => ?_⟩
    · rcases List.mem_append.mp hm with hm | hm
      · exact known_of_update hu (fun v hv => by rw [hn] at hv; cases hv) (h.known id' job' hm)
      · obtain ⟨rfl, rfl⟩ := DeskEntry.enqueued.inj (List.mem_singleton.mp hm)
        exact ⟨_, by rw [hu, Function.update_self], rfl⟩
    · rw [pulls_enqueued]
      rcases view_some hu hv with ⟨rfl, rfl⟩ | ⟨-, hv⟩
      · rw [hl.unknown id' hn]
        exact Nat.zero_le _
      · exact h.budget id' v hv
    · rw [pulls_enqueued]
      rcases view_some hu hv with ⟨rfl, rfl⟩ | ⟨-, hv⟩
      · rw [hl.unknown id' hn]
        exact Nat.lt_of_lt_of_le Nat.one_pos (Nat.le_max_left _ _)
      · exact h.left id' v hv hw
  | lost hh hr hlose hs hv hw hu =>
    refine ⟨fun id' job' hm => ?_, fun id' v' hv' => ?_, fun id' v' hv' hw' => ?_⟩
    · exact known_of_update hu (fun v' hv' => by rw [Option.some.inj (hv'.symm.trans hv)]; rfl) (h.known id' job' hm)
    · have hbudget := h.budget _ _ hv
      rcases view_some hu hv' with ⟨rfl, rfl⟩ | ⟨-, hv'⟩
      · exact hbudget
      · exact h.budget id' v' hv'
    · rcases view_some hu hv' with ⟨rfl, rfl⟩ | ⟨-, hv'⟩
      · cases hw'
      · exact h.left id' v' hv' hw'
  | @pulled i queues now env r v s hh hr hlose hs hv hw ha hm hu =>
    refine ⟨fun id' job' hm => ?_, fun id' v' hv' => ?_, fun id' v' hv' hw' => ?_⟩
    · rcases List.mem_append.mp hm with hm | hm
      · exact known_of_update hu (fun v' hv' => by rw [Option.some.inj (hv'.symm.trans hv)]; rfl)
          (h.known id' job' hm)
      · cases List.mem_singleton.mp hm
    · rcases view_some hu hv' with ⟨rfl, rfl⟩ | ⟨hid, hv'⟩
      · rw [pulls_pulled_self, List.length_append, List.length_singleton]
        exact h.left r.id v hv hw
      · rw [pulls_pulled_of_ne _ _ hid]
        exact h.budget id' v' hv'
    · rcases view_some hu hv' with ⟨rfl, rfl⟩ | ⟨hid, hv'⟩
      · cases hw'
      · rw [pulls_pulled_of_ne _ _ hid]
        exact h.left id' v' hv' hw'
  | unmarked | crashed => exact ⟨h.known, h.budget, h.left⟩
  | @marked i m env r v s hh hr hs hv hrun hu =>
    obtain ⟨v₀, hv₀, -, ha, hmax⟩ := hi.running i r hh
    obtain rfl : v₀ = v := Option.some.inj (hv₀.symm.trans hv)
    refine ⟨fun id' job' hm => ?_, fun id' v' hv' => ?_, fun id' v' hv' hw' => ?_⟩
    · rcases List.mem_append.mp hm with hm | hm
      · exact known_of_update hu (fun v' hv' => by rw [Option.some.inj (hv'.symm.trans hv)]) (h.known id' job' hm)
      · cases List.mem_singleton.mp hm
    · rw [pulls_marked]
      rcases view_some hu hv' with ⟨rfl, rfl⟩ | ⟨-, hv'⟩
      · exact h.budget r.id v₀ hv
      · exact h.budget id' v' hv'
    · rw [pulls_marked]
      rcases view_some hu hv' with ⟨rfl, rfl⟩ | ⟨-, hv'⟩
      · have hleft := left_of_decides hl h hh hv ha hmax (hd r hh) hw'
        exact hleft
      · exact h.left id' v' hv' hw'

theorem within_of_reachable (h : DecidingReachable P.toJobStore d) : Inv P d ∧ Logged P d ∧ Within P d := by
  refine h.invariant (I := fun d => Inv P d ∧ Logged P d ∧ Within P d) ?_ ?_
  · rintro d rfl
    exact ⟨inv_new, logged_new, within_new⟩
  · rintro d a d' ⟨hi, hl, hw⟩ hok hs
    have hs := steps_of_step hi hs
    exact ⟨inv_step hi hs, logged_step hi hl hs, within_step hi hl hw hok hs⟩

theorem Within.budgeted (h : Within P d) : Budgeted d.history := by
  intro id job hm
  obtain ⟨v, hv, hmax⟩ := h.known id job hm
  rw [← hmax]
  exact h.budget id v hv

/-! ## Handing out -/

/-- What holds of the callers of a provider. -/
theorem hand_out_of_provider (h : DeskReachable P.toJobStore d) :
    Exclusive d.history ∧ NumberedUpTo u32Max d.history ∧
      (DecidingReachable P.toJobStore d → Budgeted d.history ∧ Numbered d.history) := by
  obtain ⟨-, hl⟩ := logged_of_reachable h
  refine ⟨hl.exclusive, hl.numbered, fun hd => ?_⟩
  obtain ⟨-, -, hw⟩ := within_of_reachable hd
  refine ⟨hw.budgeted, fun id k r hk => hl.numbered id k r hk ?_⟩
  have hlen := (List.getElem?_eq_some_iff.mp hk).1
  cases hv : P.view d.store id with
  | none =>
    rw [hl.unknown id hv] at hlen
    cases hlen
  | some v =>
    have hbudget := hw.budget id v hv
    have hmax := v.maxAttempts.le_max
    have hpos : 1 ≤ u32Max := by decide
    omega

end WalaStack.Proof.Jobs
