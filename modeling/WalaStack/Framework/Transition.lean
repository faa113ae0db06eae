import Mathlib.Data.List.Basic

/-!
# Transition systems given by a step function

A system is a partial step function `step : σ → α → Option σ`: the state
after an action, or `none` where the action is not enabled. All the
nondeterminism of a system (which task is polled, what its environment
answers) is in the choice of the action.

* `exec` runs a list of actions; `Reach` is reachability through actions
  that meet a condition where they are taken.
* `Reach.invariant`, `AlongSteps.invariant`: the inductions over reachable
  states and over a run.
* `AlongStates`, `AlongSteps`: a property of every state, or of every step,
  of a run. `alongStates_iff_alongSteps` turns a property that breaks exactly
  at the bad steps into a condition on the steps of the run.
-/

namespace WalaStack.Transition

variable {σ α : Type*} {step : σ → α → Option σ}

/-- The state after the actions `as`. -/
def exec (step : σ → α → Option σ) : σ → List α → Option σ
  | s, [] => some s
  | s, a :: as => (step s a).bind fun s' => exec step s' as

@[simp] theorem exec_nil (s : σ) : exec step s [] = some s := rfl

theorem exec_cons (s : σ) (a : α) (as : List α) :
    exec step s (a :: as) = (step s a).bind fun s' => exec step s' as := rfl

theorem exec_cons_of {s s' : σ} {a : α} (h : step s a = some s') (as : List α) :
    exec step s (a :: as) = exec step s' as := by
  rw [exec_cons, h, Option.bind_some]

theorem exec_append (s : σ) (as bs : List α) :
    exec step s (as ++ bs) = (exec step s as).bind fun s' => exec step s' bs := by
  induction as generalizing s with
  | nil => rfl
  | cons a as ih =>
    rw [List.cons_append, exec_cons, exec_cons, Option.bind_assoc]
    exact congrArg _ (funext fun s' => ih s')

theorem exec_append_of {s s' : σ} {as : List α} (h : exec step s as = some s') (bs : List α) :
    exec step s (as ++ bs) = exec step s' bs := by
  rw [exec_append, h, Option.bind_some]

/-- What holds at the start and is kept by every step holds after a run. -/
theorem exec_invariant {I : σ → Prop} (hstep : ∀ {s a s'}, I s → step s a = some s' → I s')
    {s s' : σ} {as : List α} (hs : I s) (h : exec step s as = some s') : I s' := by
  induction as generalizing s with
  | nil => cases h; exact hs
  | cons a as ih =>
    rw [exec_cons, Option.bind_eq_some_iff] at h
    obtain ⟨s₁, h₁, h₂⟩ := h
    exact ih (hstep hs h₁) h₂

/-- What every step updates by the action alone is folded along a run. -/
theorem exec_foldl {β : Type*} {f : σ → β} {g : β → α → β} (hstep : ∀ {s a s'}, step s a = some s' → f s' = g (f s) a)
    {s s' : σ} {as : List α} (h : exec step s as = some s') : f s' = as.foldl g (f s) := by
  induction as generalizing s with
  | nil => cases h; rfl
  | cons a as ih =>
    rw [exec_cons, Option.bind_eq_some_iff] at h
    obtain ⟨s₁, h₁, h₂⟩ := h
    rw [List.foldl_cons, ← hstep h₁]
    exact ih h₂

/-! ## Reachability -/

/-- The states reachable from `init` by actions that meet `ok` in the state
where they are taken. -/
inductive Reach (step : σ → α → Option σ) (init : σ → Prop) (ok : σ → α → Prop) : σ → Prop
  | init {s : σ} : init s → Reach step init ok s
  | step {s s' : σ} {a : α} : Reach step init ok s → ok s a → step s a = some s' → Reach step init ok s'

namespace Reach

variable {init : σ → Prop} {ok : σ → α → Prop}

/-- What holds initially and is kept by every step holds in every reachable
state. -/
theorem invariant {I : σ → Prop} (hinit : ∀ {s}, init s → I s)
    (hstep : ∀ {s a s'}, I s → ok s a → step s a = some s' → I s') {s : σ}
    (h : Reach step init ok s) : I s := by
  induction h with
  | init hs => exact hinit hs
  | step _ hok hs ih => exact hstep ih hok hs

/-- The same from a single initial state. -/
theorem invariant_from {s₀ : σ} {I : σ → Prop} (hinit : I s₀)
    (hstep : ∀ {s a s'}, I s → ok s a → step s a = some s' → I s') {s : σ}
    (h : Reach step (· = s₀) ok s) : I s :=
  h.invariant (fun {s} (hs : s = s₀) => hs ▸ hinit) hstep

theorem mono {ok' : σ → α → Prop} (hok : ∀ s a, ok s a → ok' s a) {s : σ}
    (h : Reach step init ok s) : Reach step init ok' s := by
  induction h with
  | init hs => exact .init hs
  | step _ ha hs ih => exact .step ih (hok _ _ ha) hs

/-- Reachability by a run. -/
theorem of_exec {s s' : σ} {as : List α} (hs : init s) (h : exec step s as = some s') :
    Reach step init (fun _ _ => True) s' :=
  exec_invariant (fun hr ha => .step hr trivial ha) (.init hs) h

end Reach

/-! ## Properties along a run -/

/-- `P` holds in every state of the run of `as` from `s`. -/
def AlongStates (step : σ → α → Option σ) (P : σ → Prop) : σ → List α → Prop
  | s, [] => P s
  | s, a :: as => P s ∧ ∀ s', step s a = some s' → AlongStates step P s' as

/-- Every step of the run of `as` from `s` meets `ok` in the state where it
is taken. -/
def AlongSteps (step : σ → α → Option σ) (ok : σ → α → Prop) : σ → List α → Prop
  | _, [] => True
  | s, a :: as => ok s a ∧ ∀ s', step s a = some s' → AlongSteps step ok s' as

theorem alongSteps_cons_of {ok : σ → α → Prop} {s s₁ : σ} {a : α} (h : step s a = some s₁) (as : List α) :
    AlongSteps step ok s (a :: as) ↔ ok s a ∧ AlongSteps step ok s₁ as := by
  refine and_congr_right fun _ => ⟨fun ht => ht s₁ h, fun ht s' hs => ?_⟩
  rw [h] at hs
  cases hs
  exact ht

theorem AlongSteps.of_forall {ok : σ → α → Prop} {as : List α} (h : ∀ a ∈ as, ∀ s, ok s a) (s : σ) :
    AlongSteps step ok s as := by
  induction as generalizing s with
  | nil => trivial
  | cons a as ih =>
    exact ⟨h a List.mem_cons_self s, fun s' _ => ih (fun b hb => h b (List.mem_cons_of_mem _ hb)) s'⟩

/-- What the steps that meet `ok` keep holds after a run of them. -/
theorem AlongSteps.invariant {I : σ → Prop} {ok : σ → α → Prop}
    (hstep : ∀ {s a s'}, I s → ok s a → step s a = some s' → I s') {s s' : σ} {as : List α}
    (hok : AlongSteps step ok s as) (hs : I s) (h : exec step s as = some s') : I s' := by
  induction as generalizing s with
  | nil => cases h; exact hs
  | cons a as ih =>
    rw [exec_cons, Option.bind_eq_some_iff] at h
    obtain ⟨s₁, h₁, h₂⟩ := h
    exact ih (hok.2 s₁ h₁) (hstep hs hok.1 h₁) h₂

instance decidableAlongSteps {ok : σ → α → Prop} [∀ s a, Decidable (ok s a)] :
    ∀ s as, Decidable (AlongSteps step ok s as)
  | _, [] => isTrue trivial
  | s, a :: as =>
    match h : step s a with
    | none => decidable_of_iff (ok s a) ⟨fun ha => ⟨ha, fun s' hs => by rw [h] at hs; cases hs⟩, And.left⟩
    | some s₁ =>
      have : Decidable (AlongSteps step ok s₁ as) := decidableAlongSteps s₁ as
      decidable_of_iff (ok s a ∧ AlongSteps step ok s₁ as) (alongSteps_cons_of h as).symm

instance decidableAlongStates {P : σ → Prop} [DecidablePred P] : ∀ s as, Decidable (AlongStates step P s as)
  | s, [] => inferInstanceAs (Decidable (P s))
  | s, a :: as =>
    match h : step s a with
    | none => decidable_of_iff (P s) ⟨fun hp => ⟨hp, fun s' hs => by rw [h] at hs; cases hs⟩, And.left⟩
    | some s₁ =>
      have : Decidable (AlongStates step P s₁ as) := decidableAlongStates s₁ as
      decidable_of_iff (P s ∧ AlongStates step P s₁ as)
        (and_congr_right fun _ => ⟨fun ht s' hs => by rw [h] at hs; cases hs; exact ht, fun ht => ht s₁ h⟩)

theorem AlongStates.head {P : σ → Prop} {s : σ} {as : List α} (h : AlongStates step P s as) : P s := by
  cases as with
  | nil => exact h
  | cons a as => exact h.1

theorem AlongStates.imp {I P Q : σ → Prop} (hI : ∀ {s a s'}, I s → step s a = some s' → I s')
    (hPQ : ∀ {s}, I s → P s → Q s) {s : σ} {as : List α} (hs : I s) (h : AlongStates step P s as) :
    AlongStates step Q s as := by
  induction as generalizing s with
  | nil => exact hPQ hs h
  | cons a as ih => exact ⟨hPQ hs h.1, fun s' hs' => ih (hI hs hs') (h.2 s' hs')⟩

/-- What no step mends holds all along a run if it holds at its end. -/
theorem alongStates_iff_last {P : σ → Prop} (hP : ∀ {s a s'}, step s a = some s' → P s' → P s) {s s' : σ}
    {as : List α} (h : exec step s as = some s') : AlongStates step P s as ↔ P s' := by
  induction as generalizing s with
  | nil =>
    cases h
    exact Iff.rfl
  | cons a as ih =>
    rw [exec_cons, Option.bind_eq_some_iff] at h
    obtain ⟨s₁, h₁, h₂⟩ := h
    refine ⟨fun ha => (ih h₂).mp (ha.2 s₁ h₁), fun hl => ?_⟩
    have ht : AlongStates step P s₁ as := (ih h₂).mpr hl
    refine ⟨hP h₁ ht.head, fun t hs => ?_⟩
    rw [h₁] at hs
    cases hs
    exact ht

/-- `AlongStates` is about the states after the prefixes of the run. -/
theorem alongStates_iff_prefix {P : σ → Prop} {s : σ} {as : List α} :
    AlongStates step P s as ↔ ∀ pre post s', as = pre ++ post → exec step s pre = some s' → P s' := by
  induction as generalizing s with
  | nil =>
    refine ⟨fun h pre post s' hp he => ?_, fun h => h [] [] s rfl rfl⟩
    obtain ⟨rfl, -⟩ := List.append_eq_nil_iff.mp hp.symm
    cases he; exact h
  | cons a as ih =>
    constructor
    · rintro ⟨hs, ht⟩ pre post s' hp he
      rcases List.append_eq_cons_iff.mp hp.symm with ⟨rfl, -⟩ | ⟨pre', rfl, hp'⟩
      · cases he; exact hs
      · rw [exec_cons, Option.bind_eq_some_iff] at he
        obtain ⟨s₁, h₁, h₂⟩ := he
        exact ih.mp (ht s₁ h₁) pre' post s' hp' h₂
    · refine fun h => ⟨h [] _ s rfl rfl, fun s₁ h₁ => ih.mpr fun pre post s' hp he => ?_⟩
      exact h (a :: pre) post s' (by rw [hp, List.cons_append]) (by rw [exec_cons_of h₁, he])

/-- If, among the states that satisfy an invariant `I`, `P` outlives exactly
the steps that meet `ok`, then `P` holds all along a run of actions in `A`
exactly if every step of the run meets `ok`. -/
theorem alongStates_iff_alongSteps_of {A : α → Prop} {I P : σ → Prop} {ok : σ → α → Prop}
    (hI : ∀ {s a s'}, A a → I s → step s a = some s' → I s')
    (hiff : ∀ {s a s'}, A a → I s → P s → step s a = some s' → (P s' ↔ ok s a)) {s s' : σ} {as : List α}
    (hA : ∀ a ∈ as, A a) (hs : I s) (hP : P s) (h : exec step s as = some s') :
    AlongStates step P s as ↔ AlongSteps step ok s as := by
  induction as generalizing s with
  | nil => exact ⟨fun _ => trivial, fun _ => hP⟩
  | cons a as ih =>
    have ha : A a := hA a List.mem_cons_self
    rw [exec_cons, Option.bind_eq_some_iff] at h
    obtain ⟨s₁, h₁, h₂⟩ := h
    have tail : ∀ {Q : σ → Prop}, (∀ t, step s a = some t → Q t) ↔ Q s₁ := fun {Q} =>
      ⟨fun hq => hq s₁ h₁, fun hq t ht => by rw [h₁] at ht; cases ht; exact hq⟩
    simp only [AlongStates, AlongSteps, tail]
    by_cases hok : ok s a
    · simp only [hP, hok, true_and]
      exact ih (fun b hb => hA b (List.mem_cons_of_mem _ hb)) (hI ha hs h₁) ((hiff ha hs hP h₁).mpr hok) h₂
    · exact ⟨fun h => absurd ((hiff ha hs hP h₁).mp h.2.head) hok, fun h => absurd h.1 hok⟩

/-- The same for runs of any actions. -/
theorem alongStates_iff_alongSteps {I P : σ → Prop} {ok : σ → α → Prop}
    (hI : ∀ {s a s'}, I s → step s a = some s' → I s')
    (hiff : ∀ {s a s'}, I s → P s → step s a = some s' → (P s' ↔ ok s a)) {s s' : σ} {as : List α}
    (hs : I s) (hP : P s) (h : exec step s as = some s') :
    AlongStates step P s as ↔ AlongSteps step ok s as :=
  alongStates_iff_alongSteps_of (A := fun _ => True) (fun _ => hI) (fun _ => hiff) (fun _ _ => trivial) hs hP h

/-- Two conditions on steps that agree in the states of an invariant, which the
steps that meet them keep, agree along a run. -/
theorem alongSteps_iff_alongSteps {A : α → Prop} {I : σ → Prop} {ok ok' : σ → α → Prop}
    (hI : ∀ {s a s'}, A a → I s → ok' s a → step s a = some s' → I s')
    (hiff : ∀ {s a}, A a → I s → (ok s a ↔ ok' s a)) {s : σ} {as : List α} (hA : ∀ a ∈ as, A a) (hs : I s) :
    AlongSteps step ok s as ↔ AlongSteps step ok' s as := by
  induction as generalizing s with
  | nil => exact Iff.rfl
  | cons a as ih =>
    have ha : A a := hA a List.mem_cons_self
    have hA' : ∀ b ∈ as, A b := fun b hb => hA b (List.mem_cons_of_mem _ hb)
    constructor
    · rintro ⟨hok, ht⟩
      have hok' := (hiff ha hs).mp hok
      exact ⟨hok', fun s' h => (ih hA' (hI ha hs hok' h)).mp (ht s' h)⟩
    · rintro ⟨hok', ht⟩
      exact ⟨(hiff ha hs).mpr hok', fun s' h => (ih hA' (hI ha hs hok' h)).mpr (ht s' h)⟩

end WalaStack.Transition
