import WalaStack.Proof.Rotation

/-!
# Turns

The walk of `weighted_pick` looks up the name whose turn it is (`pickFrom_turn`)
and no other, so a lookup finds nothing wherever that name has no provider
(`get_eq_none_iff`), whatever else is registered.
-/

namespace WalaStack.Proof.Capabilities

open WalaStack.Rust WalaStack.Impl.Runtime WalaStack.Spec.Capabilities

variable {TypeId : Type} {Provider : TypeId → Type} [DecidableEq TypeId]
variable {caps : Capabilities TypeId Provider} {c : TypeId} {weights : List (String × U32)} {counter : Nat}

/-! ## The walk -/

theorem totalWeight_concat (taken : List (String × U32)) (e : String × U32) :
    totalWeight (taken ++ [e]) = (totalWeight taken + e.2.val) % 2 ^ 64 := by
  rw [totalWeight, totalWeight, List.foldl_append, List.foldl_cons, List.foldl_nil]

theorem totalWeight_lt (taken : List (String × U32)) : totalWeight taken < 2 ^ 64 := by
  rcases List.eq_nil_or_concat taken with rfl | ⟨init, e, rfl⟩
  · decide
  · rw [List.concat_eq_append, totalWeight_concat]
    exact Nat.mod_lt _ (by decide)

/-- One step of the walk. An entry without a weight leaves the sum as it is,
and so does not end the walk either. -/
theorem pickFrom_cons {P : Type} (bucket : Bucket P) {pick : Nat} {taken : List (String × U32)}
    (e : String × U32) (weights : List (String × U32)) (hle : totalWeight taken ≤ pick) :
    pickFrom bucket pick (totalWeight taken) (e :: weights) =
      if pick < totalWeight (taken ++ [e]) then bucket.lookup e.1
      else pickFrom bucket pick (totalWeight (taken ++ [e])) weights := by
  by_cases hw : e.2.val = 0
  · have hsame : totalWeight (taken ++ [e]) = totalWeight taken := by
      rw [totalWeight_concat, hw, Nat.add_zero, Nat.mod_eq_of_lt (totalWeight_lt taken)]
    rw [hsame, if_neg (by omega), pickFrom, if_pos hw]
  · rw [totalWeight_concat, pickFrom, if_neg hw]

/-- The walk after the entries `taken` looks up the last name of the shortest
part of the others that takes the sum beyond the index. -/
theorem pickFrom_after {P : Type} (bucket : Bucket P) {pick : Nat} (weights taken : List (String × U32))
    (hle : totalWeight taken ≤ pick) : pickFrom bucket pick (totalWeight taken) weights =
      ((weights.inits.find? fun next => decide (pick < totalWeight (taken ++ next))).bind
        fun next => next.getLast?.map Prod.fst).bind fun name => bucket.lookup name := by
  have hnil : ¬ pick < totalWeight (taken ++ []) := by
    rw [List.append_nil]
    omega
  induction weights generalizing taken with
  | nil => simp only [List.inits, List.find?_singleton, decide_eq_true_eq, if_neg hnil, pickFrom, Option.bind_none]
  | cons e weights ih =>
    have hmove : ((fun next => decide (pick < totalWeight (taken ++ next))) ∘ fun next => e :: next) =
        fun next => decide (pick < totalWeight (taken ++ [e] ++ next)) :=
      funext fun next => by rw [Function.comp_apply, List.append_cons]
    rw [List.inits_cons, List.find?_cons_of_neg (by simpa using hnil), List.find?_map, hmove,
      pickFrom_cons bucket e weights hle]
    by_cases hp : pick < totalWeight (taken ++ [e])
    · have hfirst : (weights.inits.find? fun next => decide (pick < totalWeight (taken ++ [e] ++ next))) = some [] := by
        cases weights <;> simp [List.inits, hp]
      rw [if_pos hp, hfirst]
      rfl
    · have hnil' : ¬ pick < totalWeight (taken ++ [e] ++ []) := by rwa [List.append_nil]
      rw [if_neg hp, ih (taken ++ [e]) (Nat.le_of_not_lt hp) hnil']
      cases hfind : weights.inits.find? fun next => decide (pick < totalWeight (taken ++ [e] ++ next)) with
      | none => rfl
      | some next =>
        have hne : next ≠ [] := fun h => hnil' (by simpa [h] using List.find?_some hfind)
        obtain ⟨first, rest, rfl⟩ := List.exists_cons_of_ne_nil hne
        rfl

/-- The walk looks up the name whose turn it is. -/
theorem pickFrom_turn {P : Type} (bucket : Bucket P) (ht : totalWeight weights ≠ 0) (counter : Nat) :
    pickFrom bucket (counter % totalWeight weights) 0 weights =
      (turn weights counter).bind fun name => bucket.lookup name := by
  rw [turn, if_neg ht]
  exact pickFrom_after bucket weights [] (Nat.zero_le _)

/-- Where the weights sum up to a `u64`, it is the turn of the slot of the
counter's index. -/
theorem turn_eq_slot (hpos : 0 < weightSum weights) (hfit : weightSum weights < 2 ^ 64) (counter : Nat) :
    turn weights counter = (slots weights)[counter % weightSum weights]? := by
  rw [← length_slots] at hpos hfit ⊢
  have htotal := totalWeight_eq hfit
  have hslot := Nat.mod_lt counter hpos
  -- The slot's name is the only one that this bucket has.
  obtain ⟨name, hname, -⟩ := exists_slot (∅ : Bucket Unit) hslot hfit
  obtain ⟨_, heq, hpick⟩ := exists_slot ((∅ : Bucket Unit).insert name ()) hslot hfit
  obtain rfl := Option.some.inj (hname.symm.trans heq)
  rw [← htotal, pickFrom_turn _ (by omega), AList.lookup_insert, Option.bind_eq_some_iff] at hpick
  obtain ⟨other, hturn, hlookup⟩ := hpick
  by_cases ho : other = name
  · rw [hturn, ho, hname]
  · rw [AList.lookup_insert_ne ho] at hlookup
    exact absurd hlookup (by simp)

/-- The walk ends at a name that is in the rotation. -/
theorem pickFrom_mem {P : Type} {bucket : Bucket P} {pick accumulated : Nat} {provider : P}
    (h : pickFrom bucket pick accumulated weights = some provider) :
    ∃ e ∈ weights, e.2.val ≠ 0 ∧ bucket.lookup e.1 = some provider := by
  induction weights generalizing accumulated with
  | nil => exact absurd h (by simp [pickFrom])
  | cons e weights ih =>
    have hrest : (∃ accumulated, pickFrom bucket pick accumulated weights = some provider) →
        ∃ e' ∈ e :: weights, e'.2.val ≠ 0 ∧ bucket.lookup e'.1 = some provider := by
      intro h
      obtain ⟨_, hp⟩ := h
      obtain ⟨e', hm, hw, hl⟩ := ih hp
      exact ⟨e', List.mem_cons_of_mem _ hm, hw, hl⟩
    rw [pickFrom] at h
    split at h
    · exact hrest ⟨_, h⟩
    · rename_i hw
      dsimp only at h
      split at h
      · exact ⟨e, List.mem_cons_self, hw, h⟩
      · exact hrest ⟨_, h⟩

/-! ## Lookups that find nothing -/

/-- What a lookup of a rotating capability finds. -/
theorem get_rotating (hweights : caps.strategy c = .weightedRoundRobin weights)
    (hcounter : caps.rotation.lookup c = some counter) :
    (caps.get c).1 = (turn weights counter).bind fun name => caps.getNamed c name := by
  rw [Capabilities.get]
  cases hbucket : caps.providers.lookup c with
  | none => simp [Capabilities.getNamed, hbucket]
  | some bucket =>
    simp only [hweights, Capabilities.weightedPick, Capabilities.getNamed, hbucket, Option.bind_some]
    by_cases ht : totalWeight weights = 0
    · rw [if_pos ht, turn, if_pos ht]
      rfl
    · simp only [if_neg ht, hcounter]
      exact pickFrom_turn bucket ht counter

/-- A lookup finds nothing exactly if the name whose turn it is has no provider. -/
theorem get_eq_none_iff (hweights : caps.strategy c = .weightedRoundRobin weights)
    (hcounter : caps.rotation.lookup c = some counter) :
    (caps.get c).1 = none ↔ ¬ TurnRegistered caps c weights counter := by
  rw [get_rotating hweights hcounter, Option.bind_eq_none_iff, TurnRegistered]
  simp

/-- What a lookup finds is registered under a name that is in the rotation. -/
theorem get_eq_none_of_noneRegistered (hweights : caps.strategy c = .weightedRoundRobin weights)
    (hnone : NoneRegistered caps c weights) : (caps.get c).1 = none := by
  rw [Capabilities.get]
  cases hbucket : caps.providers.lookup c with
  | none => rfl
  | some bucket =>
    simp only [hweights, Capabilities.weightedPick]
    split
    · rfl
    · split
      · rfl
      · refine Option.eq_none_iff_forall_ne_some.mpr fun provider h => ?_
        obtain ⟨e, hm, hw, hlookup⟩ := pickFrom_mem h
        have hnamed := hnone e hm hw
        rw [Capabilities.getNamed, hbucket, Option.bind_some, hlookup] at hnamed
        exact absurd hnamed (by simp)

/-- No weight, so no name in the rotation. -/
theorem noneRegistered_of_weightSum (hsum : weightSum weights = 0) : NoneRegistered caps c weights :=
  fun e hm hw => absurd (List.sum_eq_zero_iff_forall_eq_nat.mp hsum e.2.val (List.mem_map_of_mem hm)) hw

/-- A lookup finds nothing only where it must exactly if nothing in the rotation
is registered, or the name whose turn it is. -/
theorem noneOnlyWhenItMust_iff (caps : Capabilities TypeId Provider) (c : TypeId) (weights : List (String × U32))
    (hweights : caps.strategy c = .weightedRoundRobin weights) (counter : Nat)
    (hcounter : caps.rotation.lookup c = some counter) :
    NoneOnlyWhenItMust caps c weights ↔
      NoneRegistered caps c weights ∨ TurnRegistered caps c weights counter := by
  have hget := get_eq_none_iff hweights hcounter
  have hmust : (weightSum weights = 0 ∨ NoneRegistered caps c weights) ↔ NoneRegistered caps c weights :=
    ⟨fun h => h.elim noneRegistered_of_weightSum id, .inr⟩
  rw [NoneOnlyWhenItMust, hmust]
  by_cases hnone : NoneRegistered caps c weights
  · have hfound := get_eq_none_of_noneRegistered hweights hnone
    exact ⟨fun _ => .inl hnone, fun _ => ⟨fun _ => hnone, fun _ => hfound⟩⟩
  · constructor
    · intro h
      exact .inr (Classical.not_not.mp fun hturn => hnone (h.mp (hget.mpr hturn)))
    · intro h
      have hturn := h.resolve_left hnone
      exact ⟨fun hn => absurd hturn (hget.mp hn), fun hn => absurd hn hnone⟩

/-- A rotation over two names, of which only the second is registered. -/
def missingStore (counter : Nat) : Capabilities String fun _ => String :=
  let reg : CapabilityRegistry String fun _ => String := .new
  let reg := (reg.register "dyn JobStore" "b" "b").1
  { (reg.setStrategy "dyn JobStore" (.weightedRoundRobin [("a", 1), ("b", 1)])).build with
    rotation := (∅ : AList fun _ : String => Nat).insert "dyn JobStore" counter }

/-- The second name's turn. -/
theorem noneOnlyWhenItMust_second :
    NoneOnlyWhenItMust (missingStore 1) "dyn JobStore" [("a", 1), ("b", 1)] :=
  (noneOnlyWhenItMust_iff (missingStore 1) "dyn JobStore" [("a", 1), ("b", 1)] rfl 1 rfl).mpr
    (.inr ⟨"b", by decide, by decide⟩)

/-- The first name's turn. -/
theorem not_noneOnlyWhenItMust_first : ¬ ∀ (caps : Capabilities String fun _ => String) (c : String)
    (weights : List (String × U32)), caps.strategy c = .weightedRoundRobin weights →
    ∀ counter, caps.rotation.lookup c = some counter → NoneOnlyWhenItMust caps c weights := by
  intro h
  have hnone := (h (missingStore 0) "dyn JobStore" [("a", 1), ("b", 1)] rfl 0 rfl).mp (by decide)
  rcases hnone with hsum | hnone
  · exact absurd hsum (by decide)
  · exact absurd (hnone ("b", 1) (by decide) (by decide)) (by decide)

end WalaStack.Proof.Capabilities
