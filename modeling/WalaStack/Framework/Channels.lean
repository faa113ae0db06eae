import WalaStack.Framework.Transition
import Mathlib.Logic.Function.Basic

/-!
# A reader of several channels

Events are published to the channel of their key, and read by one reader that
takes the head of any channel that is not empty. The order within a channel
is kept, the order between channels is not: `Interleaves`. The readings of
such a reader are exactly the interleavings of what was published
(`exists_exec_iff`), so what it computes from them does not depend on the
schedule exactly if all interleavings give the same.
-/

namespace WalaStack.Channels

open WalaStack.Transition

variable {ε κ σ : Type*}

section

variable [DecidableEq κ]

/-- The same events, in the same order on each channel. -/
def Interleaves (key : ε → κ) (es cs : List ε) : Prop :=
  ∀ k, cs.filter (fun e => key e = k) = es.filter (fun e => key e = k)

namespace Interleaves

variable {key : ε → κ} {es cs : List ε}

theorem mem_iff (h : Interleaves key es cs) {e : ε} : e ∈ cs ↔ e ∈ es := by
  have hk : ∀ l : List ε, e ∈ l ↔ e ∈ l.filter fun e' => key e' = key e := fun l => by simp [List.mem_filter]
  rw [hk cs, hk es, h (key e)]

/-- What is selected within one channel. -/
theorem filter_eq (h : Interleaves key es cs) {k : κ} {p : ε → Bool} (hp : ∀ e, p e = true → key e = k) :
    cs.filter p = es.filter p := by
  have hk : ∀ l : List ε, l.filter p = (l.filter fun e => key e = k).filter p := fun l => by
    rw [List.filter_filter]
    refine List.filter_congr fun e _ => ?_
    cases hpe : p e with
    | true => simp [hp e hpe]
    | false => simp
  rw [hk cs, hk es, h k]

/-- The events of one kind of channel may all come last. -/
theorem partition (key : ε → κ) (last : κ → Bool) (es : List ε) :
    Interleaves key es ((es.filter fun e => last (key e) == false) ++ es.filter fun e => last (key e) == true) := by
  intro k
  have hpart : ∀ b : Bool, (es.filter fun e => last (key e) == b).filter (fun e => key e = k) =
      if last k = b then es.filter fun e => key e = k else [] := by
    intro b
    rw [List.filter_filter]
    split
    · rename_i hb
      exact List.filter_congr fun e _ => by by_cases he : key e = k <;> simp [he, hb]
    · rename_i hb
      exact List.filter_eq_nil_iff.mpr fun e _ => by by_cases he : key e = k <;> simp [he, hb]
  rw [List.filter_append, hpart, hpart]
  cases last k <;> simp

end Interleaves

end

/-! ## The reader -/

/-- The events not yet read, by channel, and what was made of those read. -/
structure Reader (κ ε σ : Type*) where
  unread : κ → List ε
  state : σ

inductive ReaderAction (κ ε : Type*)
  | publish (e : ε)
  | recv (k : κ)

/-- What a run publishes. -/
def published : List (ReaderAction κ ε) → List ε :=
  List.filterMap fun
    | .publish e => some e
    | .recv _ => none

@[simp] theorem published_publish (e : ε) (as : List (ReaderAction κ ε)) :
    published (.publish e :: as) = e :: published as := rfl

@[simp] theorem published_recv (k : κ) (as : List (ReaderAction κ ε)) :
    published (.recv k :: as) = published as := rfl

namespace Reader

def init (s : σ) : Reader κ ε σ := ⟨fun _ => [], s⟩

variable [DecidableEq κ]

def push (key : ε → κ) (e : ε) (r : Reader κ ε σ) : Reader κ ε σ :=
  { r with unread := Function.update r.unread (key e) (r.unread (key e) ++ [e]) }

def step (key : ε → κ) (apply : σ → ε → σ) (r : Reader κ ε σ) : ReaderAction κ ε → Option (Reader κ ε σ)
  | .publish e => some (r.push key e)
  | .recv k =>
    match r.unread k with
    | [] => none
    | e :: es => some ⟨Function.update r.unread k es, apply r.state e⟩

variable {key : ε → κ} {apply : σ → ε → σ} {r r' : Reader κ ε σ}

/-- Events are unread on the channels of their keys. -/
def Filed (key : ε → κ) (r : Reader κ ε σ) : Prop := ∀ k, ∀ e ∈ r.unread k, key e = k

theorem unread_push (r : Reader κ ε σ) (e : ε) (k : κ) :
    (r.push key e).unread k = r.unread k ++ [e].filter fun e => key e = k := by
  by_cases hk : key e = k
  · subst hk
    simp [push]
  · simp [push, Function.update_of_ne (Ne.symm hk), hk]

/-- A run reads, channel by channel, what was there and what it publishes. -/
theorem exec_reads {as : List (ReaderAction κ ε)} (hf : Filed key r) (h : exec (step key apply) r as = some r') :
    ∃ cs : List ε, r'.state = cs.foldl apply r.state ∧
      ∀ k, r.unread k ++ (published as).filter (fun e => key e = k) = cs.filter (fun e => key e = k) ++ r'.unread k := by
  induction as generalizing r with
  | nil =>
    cases h
    exact ⟨[], rfl, fun k => List.append_nil _⟩
  | cons a as ih =>
    rw [exec_cons, Option.bind_eq_some_iff] at h
    obtain ⟨r₁, h₁, h₂⟩ := h
    cases a with
    | publish e =>
      obtain rfl := Option.some.inj h₁
      have hf₁ : Filed key (r.push key e) := by
        intro k e' hm
        rw [unread_push] at hm
        rcases List.mem_append.mp hm with hm | hm
        · exact hf k e' hm
        · simpa using (List.mem_filter.mp hm).2
      obtain ⟨cs, hs, hk⟩ := ih hf₁ h₂
      refine ⟨cs, hs, fun k => ?_⟩
      rw [← hk k, unread_push, List.append_assoc, ← List.filter_append, published_publish, List.singleton_append]
    | recv k₀ =>
      simp only [step] at h₁
      split at h₁
      · cases h₁
      · rename_i e es hu
        obtain rfl := Option.some.inj h₁
        have hke : key e = k₀ := hf k₀ e (by rw [hu]; exact List.mem_cons_self)
        have hf₁ : Filed key ⟨Function.update r.unread k₀ es, apply r.state e⟩ := by
          intro k e' hm
          by_cases hk : k = k₀
          · subst hk
            simp only [Function.update_self] at hm
            exact hf k e' (by rw [hu]; exact List.mem_cons_of_mem _ hm)
          · simp only [Function.update_of_ne hk] at hm
            exact hf k e' hm
        obtain ⟨cs, hs, hk⟩ := ih hf₁ h₂
        refine ⟨e :: cs, hs, fun k => ?_⟩
        by_cases hk₀ : k = k₀
        · subst hk₀
          have := hk k
          simp only [Function.update_self] at this
          rw [hu, published_recv, List.cons_append, this, List.filter_cons_of_pos (by simpa using hke), List.cons_append]
        · have := hk k
          simp only [Function.update_of_ne hk₀] at this
          rw [published_recv, this, List.filter_cons_of_neg (by simpa [hke] using Ne.symm hk₀)]

/-- Publishing alone. -/
theorem exec_publish (es : List ε) (r : Reader κ ε σ) :
    exec (step key apply) r (es.map .publish) =
      some { r with unread := fun k => r.unread k ++ es.filter fun e => key e = k } := by
  induction es generalizing r with
  | nil => simp
  | cons e es ih =>
    have hs : step key apply r (.publish e) = some (r.push key e) := rfl
    rw [List.map_cons, exec_cons_of hs, ih]
    congr 2
    funext k
    rw [unread_push, List.append_assoc, ← List.filter_append, List.singleton_append]

/-- Reading alone, in the order of `cs`. -/
theorem exec_recv (cs : List ε) (r : Reader κ ε σ) (h : ∀ k, r.unread k = cs.filter fun e => key e = k) :
    exec (step key apply) r (cs.map fun e => .recv (key e)) = some ⟨fun _ => [], cs.foldl apply r.state⟩ := by
  induction cs generalizing r with
  | nil =>
    have hu : r.unread = fun _ => [] := funext fun k => h k
    rw [List.map_nil, exec_nil, List.foldl_nil, ← hu]
  | cons c cs ih =>
    have hu : r.unread (key c) = c :: cs.filter fun e => key e = key c := by
      rw [h, List.filter_cons_of_pos (by simp)]
    have hstep : r.step key apply (.recv (key c)) =
        some ⟨Function.update r.unread (key c) (cs.filter fun e => key e = key c), apply r.state c⟩ := by
      rw [step, hu]
    rw [List.map_cons, exec_cons_of hstep, ih]
    · rfl
    · intro k
      by_cases hk : k = key c
      · subst hk
        simp
      · simp only [Function.update_of_ne hk, h k]
        rw [List.filter_cons_of_neg (by simpa using Ne.symm hk)]

/-- A reader that has read everything has read an interleaving of it, and can
have read any. -/
theorem exists_exec_iff (s s' : σ) (es : List ε) :
    (∃ as, published as = es ∧ exec (step key apply) (init s) as = some ⟨fun _ => [], s'⟩) ↔
      ∃ cs, Interleaves key es cs ∧ s' = cs.foldl apply s := by
  constructor
  · rintro ⟨as, rfl, h⟩
    obtain ⟨cs, hs, hk⟩ := exec_reads (fun k e hm => absurd hm List.not_mem_nil) h
    refine ⟨cs, fun k => ?_, hs⟩
    have := hk k
    rw [init, List.nil_append, List.append_nil] at this
    exact this.symm
  · rintro ⟨cs, hi, rfl⟩
    refine ⟨es.map .publish ++ cs.map fun e => .recv (key e), ?_, ?_⟩
    · have hpub : ∀ es : List ε, published (es.map (ReaderAction.publish (κ := κ))) = es := fun es => by
        induction es with
        | nil => rfl
        | cons e es ih => rw [List.map_cons, published_publish, ih]
      have hrecv : ∀ cs : List ε, published (cs.map fun e => ReaderAction.recv (ε := ε) (key e)) = [] := fun cs => by
        induction cs with
        | nil => rfl
        | cons c cs ih => rw [List.map_cons, published_recv, ih]
      have happ (as bs : List (ReaderAction κ ε)) : published (as ++ bs) = published as ++ published bs :=
        List.filterMap_append
      rw [happ, hpub, hrecv, List.append_nil]
    · rw [exec_append_of (exec_publish es _), exec_recv cs _ fun k => ?_]
      · rfl
      · show [] ++ es.filter (fun e => key e = k) = cs.filter fun e => key e = k
        rw [List.nil_append, hi k]

end Reader

end WalaStack.Channels
