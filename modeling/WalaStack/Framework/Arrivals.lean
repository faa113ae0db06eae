import Mathlib.Data.List.Basic

/-!
# The order of arrival

A log lists what has arrived, each thing as often as it has. `Earlier` compares
two things by their last arrivals. A queue is `InOrder` if it holds what has
arrived in that order: it stays so when a thing joins it (`InOrder.join`) or
another queue (`InOrder.elsewhere`), and when it shrinks (`InOrder.sublist`).
-/

namespace WalaStack.Arrivals

variable {α : Type*} {log queue queue' : List α} {x y z : α}

/-- The last arrival of `x` comes before that of `y`. -/
def Earlier (log : List α) (x y : α) : Prop := ∃ pre post, log = pre ++ x :: post ∧ x ∉ post ∧ y ∈ post

/-- A thing that has arrived has a last arrival. -/
theorem last_arrival (h : x ∈ log) : ∃ pre post, log = pre ++ x :: post ∧ x ∉ post := by
  obtain ⟨post, pre, he, hx⟩ := List.eq_append_cons_of_mem (List.mem_reverse.mpr h)
  refine ⟨pre.reverse, post.reverse, ?_, fun hm => hx (List.mem_reverse.mp hm)⟩
  rw [← List.reverse_reverse log, he, List.reverse_append, List.reverse_cons, List.append_assoc, List.singleton_append]

theorem Earlier.concat (h : Earlier log x y) (hx : x ≠ z) : Earlier (log ++ [z]) x y := by
  obtain ⟨pre, post, rfl, hpost, hy⟩ := h
  refine ⟨pre, post ++ [z], by rw [List.append_assoc, List.cons_append], ?_, List.mem_append_left _ hy⟩
  rw [List.mem_append, List.mem_singleton]
  exact fun hm => hm.elim hpost hx

/-- What arrives is later than all else. -/
theorem earlier_concat (h : x ∈ log) (hx : x ≠ z) : Earlier (log ++ [z]) x z := by
  obtain ⟨pre, post, rfl, hpost⟩ := last_arrival h
  refine ⟨pre, post ++ [z], by rw [List.append_assoc, List.cons_append], ?_, ?_⟩
  · rw [List.mem_append, List.mem_singleton]
    exact fun hm => hm.elim hpost hx
  · exact List.mem_append_right _ (List.mem_singleton_self z)

/-! ## Queues -/

structure InOrder (log queue : List α) : Prop where
  arrived : ∀ x ∈ queue, x ∈ log
  order : queue.Pairwise (Earlier log)

theorem inOrder_nil : InOrder log [] := ⟨fun _ h => absurd h List.not_mem_nil, List.Pairwise.nil⟩

theorem InOrder.sublist (h : InOrder log queue) (hs : queue'.Sublist queue) : InOrder log queue' :=
  ⟨fun x hx => h.arrived x (hs.subset hx), h.order.sublist hs⟩

/-- Another thing arrives, which is not in the queue. -/
theorem InOrder.elsewhere (h : InOrder log queue) (hz : z ∉ queue) : InOrder (log ++ [z]) queue := by
  refine ⟨fun x hx => List.mem_append_left _ (h.arrived x hx), h.order.imp_of_mem fun {x y} hx _ he => ?_⟩
  exact he.concat fun hxz => hz (hxz ▸ hx)

/-- It joins the queue at the back. -/
theorem InOrder.join (h : InOrder log queue) (hz : z ∉ queue) : InOrder (log ++ [z]) (queue ++ [z]) := by
  have hq := h.elsewhere hz
  refine ⟨fun x hx => ?_, List.pairwise_append.mpr ⟨hq.order, List.pairwise_singleton _ z, fun x hx y hy => ?_⟩⟩
  · rcases List.mem_append.mp hx with hx | hx
    · exact hq.arrived x hx
    · exact List.mem_append_right _ hx
  · obtain rfl := List.mem_singleton.mp hy
    exact earlier_concat (h.arrived x hx) fun hxy => hz (hxy ▸ hx)

/-- What stands behind a thing in the queue arrived later. -/
theorem InOrder.earlier {pre post : List α} (h : InOrder log (pre ++ x :: post)) (hy : y ∈ post) : Earlier log x y :=
  (List.pairwise_cons.mp (List.pairwise_append.mp h.order).2.1).1 y hy

end WalaStack.Arrivals
