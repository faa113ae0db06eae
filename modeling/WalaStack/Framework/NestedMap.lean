import Mathlib.Data.List.Basic
import Mathlib.Data.List.Induction

/-!
# Maps of maps

A map under two keys, as a map of maps that are added as needed.

* `get?_insert`, `mem_entries`: what is found under two keys.
* `apart_entries`: the entries have different keys.
* `perm_entries`: a map that has been filled under different keys has just what
  was inserted.
-/

namespace WalaStack

/-- A map of maps. -/
abbrev NestedMap (α β γ : Type*) [Ord α] [Ord β] := Std.TreeMap α (Std.TreeMap β γ)

namespace NestedMap

open Std (TreeMap)

variable {α β γ : Type*} [Ord α] [Ord β]

/-- Insert under `b` into the map under `a`, or into an empty one. -/
def insert (t : NestedMap α β γ) (a : α) (b : β) (c : γ) : NestedMap α β γ :=
  TreeMap.insert t a ((t.getD a ∅).insert b c)

def get? (t : NestedMap α β γ) (a : α) (b : β) : Option γ := (t.getD a ∅)[b]?

def entries (t : NestedMap α β γ) : List (α × β × γ) := t.toList.flatMap fun p => p.2.toList.map fun q => (p.1, q)

/-- Insert entries one by one. -/
def insertAll (t : NestedMap α β γ) (l : List (α × β × γ)) : NestedMap α β γ :=
  l.foldl (fun t e => t.insert e.1 e.2.1 e.2.2) t

/-- Two entries have different keys. -/
def Apart {α β γ : Type*} (e e' : α × β × γ) : Prop := e.1 ≠ e'.1 ∨ e.2.1 ≠ e'.2.1

theorem nodup_of_apart {α β γ : Type*} {l : List (α × β × γ)} (h : l.Pairwise Apart) : l.Nodup := by
  refine h.imp ?_
  rintro e e' h rfl
  exact h.elim (absurd rfl) (absurd rfl)

variable {t : NestedMap α β γ} {a a' : α} {b b' : β} {c : γ} {l : List (α × β × γ)}
variable [Std.TransOrd α] [Std.TransOrd β]

theorem get?_empty : get? (∅ : NestedMap α β γ) a b = none := by
  rw [get?, TreeMap.getD_emptyc, TreeMap.getElem?_emptyc]

theorem get?_insert_self : (t.insert a b c).get? a b = some c := by
  rw [get?, insert, TreeMap.getD_insert_self, TreeMap.getElem?_insert_self]

theorem apart_toList {α β : Type*} [Ord α] [Std.TransOrd α] (t : TreeMap α β) :
    t.toList.Pairwise fun p p' => p.1 ≠ p'.1 := by
  refine TreeMap.distinct_keys_toList.imp fun h he => h ?_
  rw [he]
  exact Std.ReflCmp.compare_self

theorem apart_entries : t.entries.Pairwise Apart := by
  rw [entries, List.pairwise_flatMap]
  refine ⟨fun p _ => ?_, (apart_toList t).imp fun h => ?_⟩
  · rw [List.pairwise_map]
    exact (apart_toList p.2).imp .inr
  · rintro e he e' he'
    obtain ⟨q, -, rfl⟩ := List.mem_map.mp he
    obtain ⟨q', -, rfl⟩ := List.mem_map.mp he'
    exact .inl h

variable [Std.LawfulEqOrd α] [Std.LawfulEqOrd β]

theorem get?_insert_of_ne (h : a ≠ a' ∨ b ≠ b') : (t.insert a b c).get? a' b' = t.get? a' b' := by
  rw [get?, get?, insert, TreeMap.getD_insert]
  split
  · rename_i ha
    obtain rfl := Std.LawfulEqOrd.eq_of_compare ha
    rw [TreeMap.getElem?_insert, if_neg fun hb => h.elim (absurd rfl) (absurd (Std.LawfulEqOrd.eq_of_compare hb))]
  · rfl

theorem mem_entries : (a, b, c) ∈ t.entries ↔ t.get? a b = some c := by
  simp only [entries, List.mem_flatMap, List.mem_map, Prod.mk.injEq, Prod.exists, TreeMap.mem_toList_iff_getElem?_eq_some]
  rw [get?, TreeMap.getD_eq_getD_getElem?]
  constructor
  · rintro ⟨a, item, hitem, b, c, hc, rfl, rfl, rfl⟩
    rw [hitem]
    exact hc
  · intro hc
    cases hitem : t[a]? with
    | none =>
      rw [hitem, Option.getD_none, TreeMap.getElem?_emptyc] at hc
      cases hc
    | some item =>
      rw [hitem] at hc
      exact ⟨a, item, hitem, b, c, hc, rfl, rfl, rfl⟩

theorem get?_insertAll (h : l.Pairwise Apart) : (insertAll ∅ l).get? a b = some c ↔ (a, b, c) ∈ l := by
  induction l using List.reverseRecOn with
  | nil => simp [insertAll, get?_empty]
  | append_singleton l last ih =>
    obtain ⟨hl, -, hlast⟩ := List.pairwise_append.mp h
    have hfold : insertAll ∅ (l ++ [last]) = (insertAll ∅ l).insert last.1 last.2.1 last.2.2 := by
      rw [insertAll, List.foldl_concat]
      rfl
    rw [hfold, List.mem_append, List.mem_singleton]
    by_cases hkey : Apart last (a, b, c)
    · rw [get?_insert_of_ne hkey, ih hl]
      refine (or_iff_left ?_).symm
      rintro rfl
      exact hkey.elim (absurd rfl) (absurd rfl)
    · -- The entry has the keys of the last one, and no other entry has.
      rw [Apart, not_or, not_not, not_not] at hkey
      obtain ⟨rfl, rfl⟩ := hkey
      have hnew : (last.1, last.2.1, c) ∉ l := fun hmem =>
        (hlast _ hmem last List.mem_cons_self).elim (absurd rfl) (absurd rfl)
      rw [get?_insert_self, or_iff_right hnew]
      constructor
      · intro he
        rw [← Option.some.inj he]
      · intro he
        rw [← he]

theorem perm_entries (h : l.Pairwise Apart) : (insertAll ∅ l).entries.Perm l := by
  rw [List.perm_ext_iff_of_nodup (nodup_of_apart apart_entries) (nodup_of_apart h)]
  intro e
  obtain ⟨a, b, c⟩ := e
  rw [mem_entries, get?_insertAll h]

end NestedMap

end WalaStack
