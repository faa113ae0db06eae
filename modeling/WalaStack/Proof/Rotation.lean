import WalaStack.Proof.Capabilities
import WalaStack.Spec.Rotation

/-!
# Proportional rotation

The walk of `weighted_pick` ends at the slot of its index (`pickFrom_eq`), so
the lookups of a round are the slots from the counter's on, all around, up to
the wrap of the counter (`round_eq`).
-/

namespace WalaStack.Proof.Capabilities

open WalaStack.Rust WalaStack.Impl.Runtime WalaStack.Spec.Capabilities

variable {TypeId : Type} {Provider : TypeId → Type} [DecidableEq TypeId]
variable {caps : Capabilities TypeId Provider} {c : TypeId} {weights : List (String × U32)} {counter : Nat}

/-! ## Slots -/

theorem slots_cons (e : String × U32) (weights : List (String × U32)) :
    slots (e :: weights) = List.replicate e.2.val e.1 ++ slots weights :=
  List.flatMap_cons

theorem length_slots (weights : List (String × U32)) :
    (slots weights).length = weightSum weights := by
  induction weights with
  | nil => rfl
  | cons e weights ih =>
    rw [slots_cons, List.length_append, List.length_replicate, ih, weightSum, weightSum, List.map_cons, List.sum_cons]

theorem afterWrap_eq (weights : List (String × U32)) (counter : Nat) :
    afterWrap weights counter = counter + (slots weights).length - 2 ^ 64 :=
  congrArg (fun n => counter + n - 2 ^ 64) (length_slots weights).symm

/-- The sum of the weights, where it is a `u64`. -/
theorem totalWeight_eq (h : (slots weights).length < 2 ^ 64) : totalWeight weights = (slots weights).length := by
  have hfold : ∀ (weights : List (String × U32)) (total : Nat), total + (slots weights).length < 2 ^ 64 →
      weights.foldl (fun total e => (total + e.2.val) % 2 ^ 64) total = total + (slots weights).length := by
    intro weights
    induction weights with
    | nil => exact fun total _ => rfl
    | cons e weights ih =>
      intro total hlt
      rw [slots_cons, List.length_append, List.length_replicate] at hlt ⊢
      rw [List.foldl_cons, Nat.mod_eq_of_lt (by omega), ih _ (by omega)]
      omega
  rw [totalWeight, hfold weights 0 (by omega), Nat.zero_add]

/-- The walk ends at the slot of its index. -/
theorem pickFrom_eq {P : Type} (bucket : Bucket P) {pick accumulated : Nat} (hle : accumulated ≤ pick)
    (hlt : pick < accumulated + (slots weights).length) (hfit : accumulated + (slots weights).length < 2 ^ 64) :
    ∃ name, (slots weights)[pick - accumulated]? = some name ∧
      pickFrom bucket pick accumulated weights = bucket.lookup name := by
  induction weights generalizing accumulated with
  | nil =>
    rw [slots, List.flatMap_nil, List.length_nil] at hlt
    omega
  | cons e weights ih =>
    obtain ⟨name, weight⟩ := e
    rw [slots_cons] at hlt hfit ⊢
    simp only [List.length_append, List.length_replicate] at hlt hfit
    by_cases hw : weight.val = 0
    · simp only [hw, List.replicate_zero, List.nil_append, pickFrom, ite_true]
      exact ih hle (by omega) (by omega)
    · simp only [pickFrom, if_neg hw, Nat.mod_eq_of_lt (show accumulated + weight.val < 2 ^ 64 by omega)]
      by_cases hp : pick < accumulated + weight.val
      · rw [if_pos hp, List.getElem?_append_left (by rw [List.length_replicate]; omega),
          List.getElem?_replicate_of_lt (by omega)]
        exact ⟨name, rfl, rfl⟩
      · rw [if_neg hp, List.getElem?_append_right (by rw [List.length_replicate]; omega), List.length_replicate,
          show pick - accumulated - weight.val = pick - (accumulated + weight.val) by omega]
        exact ih (by omega) (by omega) (by omega)

theorem exists_slot {P : Type} (bucket : Bucket P) {pick : Nat} (hlt : pick < (slots weights).length)
    (hfit : (slots weights).length < 2 ^ 64) :
    ∃ name, (slots weights)[pick]? = some name ∧ pickFrom bucket pick 0 weights = bucket.lookup name :=
  pickFrom_eq bucket (Nat.zero_le pick) (by rwa [Nat.zero_add]) (by rwa [Nat.zero_add])

/-! ## Lookups of one capability -/

/-- The capability rotates, and its counter stands at `counter`. -/
structure RotatesAt (caps : Capabilities TypeId Provider) (c : TypeId) (bucket : Bucket (Provider c))
    (weights : List (String × U32)) (counter : Nat) : Prop where
  bucket : caps.providers.lookup c = some bucket
  weights : caps.strategy c = .weightedRoundRobin weights
  counter : caps.rotation.lookup c = some counter

variable {bucket : Bucket (Provider c)}

theorem RotatesAt.get (h : RotatesAt caps c bucket weights counter) (ht : totalWeight weights ≠ 0) :
    (caps.get c).1 = pickFrom bucket (counter % totalWeight weights) 0 weights ∧
      RotatesAt (caps.get c).2 c bucket weights ((counter + 1) % 2 ^ 64) := by
  have hget : caps.get c = (pickFrom bucket (counter % totalWeight weights) 0 weights,
      { caps with rotation := caps.rotation.insert c ((counter + 1) % 2 ^ 64) }) := by
    rw [Capabilities.get]
    simp only [h.bucket, h.weights, Capabilities.weightedPick, if_neg ht, h.counter]
  rw [hget]
  exact ⟨rfl, h.bucket, h.weights, AList.lookup_insert _⟩

/-- The lookups, by the counter's values. -/
theorem RotatesAt.lookups_eq (h : RotatesAt caps c bucket weights counter) (ht : totalWeight weights ≠ 0)
    (hlt : counter < 2 ^ 64) (n : Nat) : lookups caps c n =
      (List.range n).map fun i => pickFrom bucket ((counter + i) % 2 ^ 64 % totalWeight weights) 0 weights := by
  induction n generalizing caps counter with
  | zero => rfl
  | succ n ih =>
    obtain ⟨hpick, hnext⟩ := h.get ht
    have hhead : (counter + 0) % 2 ^ 64 = counter := Nat.mod_eq_of_lt hlt
    rw [lookups, hpick, ih hnext (Nat.mod_lt _ (by decide)), List.range_succ_eq_map, List.map_cons, List.map_map,
      hhead]
    congr 1
    refine List.map_congr_left fun i _ => ?_
    rw [Function.comp_apply, Nat.mod_add_mod, Nat.add_assoc, Nat.add_comm 1 i]

/-- The elements of a list from the `start`th on, all around, and from the first
on again for the last `m`, where the index has wrapped. -/
theorem getElem?_round {α : Type*} {l : List α} {start wrap m i : Nat} (hm : m = start + l.length - wrap)
    (hstart : start < wrap) (hfit : l.length < wrap) (hi : i < l.length) :
    ((l.rotate start).take (l.length - m) ++ l.take m)[i]? = l[(start + i) % wrap % l.length]? := by
  have hlength : ((l.rotate start).take (l.length - m)).length = l.length - m := by
    rw [List.length_take, List.length_rotate]
    omega
  by_cases hbefore : i < l.length - m
  · rw [List.getElem?_append_left (by omega), List.getElem?_take_of_lt hbefore, List.getElem?_rotate hi,
      Nat.mod_eq_of_lt (show start + i < wrap by omega), Nat.add_comm]
  · have hwrap : (start + i) % wrap = i - (l.length - m) := by
      rw [show start + i = wrap + (i - (l.length - m)) by omega, Nat.add_mod_left]
      exact Nat.mod_eq_of_lt (by omega)
    rw [List.getElem?_append_right (by omega), hlength, List.getElem?_take_of_lt (by omega), hwrap,
      Nat.mod_eq_of_lt (show i - (l.length - m) < l.length by omega)]

/-- The elements that come next without the wrap. -/
theorem drop_rotate {α : Type*} {l : List α} {start wrap m : Nat} (hm : m = start + l.length - wrap)
    (hstart : start < wrap) : (l.rotate start).drop (l.length - m) = (l.rotate wrap).take m := by
  refine List.ext_getElem? fun i => ?_
  rw [List.getElem?_drop]
  by_cases hi : i < m
  · rw [List.getElem?_take_of_lt hi, List.getElem?_rotate (by omega), List.getElem?_rotate (by omega)]
    congr 2
    omega
  · rw [List.getElem?_eq_none (by rw [List.length_rotate]; omega), List.getElem?_eq_none]
    rw [List.length_take]
    omega

/-- A round of lookups goes around from the counter's slot up to the wrap of the
counter, and on from the first slot. -/
theorem RotatesAt.round_eq (h : RotatesAt caps c bucket weights counter) (hpos : 0 < weightSum weights)
    (hfit : weightSum weights < 2 ^ 64) (hlt : counter < 2 ^ 64) :
    lookups caps c (weightSum weights) =
      (((slots weights).rotate counter).take ((slots weights).length - afterWrap weights counter) ++
        (slots weights).take (afterWrap weights counter)).map fun name => bucket.lookup name := by
  rw [← length_slots] at hpos hfit ⊢
  rw [h.lookups_eq (by rw [totalWeight_eq hfit]; omega) hlt, totalWeight_eq hfit]
  have hwrap := afterWrap_eq weights counter
  refine List.ext_getElem? fun i => ?_
  by_cases hi : i < (slots weights).length
  · have hslot := Nat.mod_lt ((counter + i) % 2 ^ 64) hpos
    obtain ⟨name, hname, hpick⟩ := exists_slot bucket hslot hfit
    rw [List.getElem?_map, List.getElem?_range hi, Option.map_some, hpick, List.getElem?_map,
      getElem?_round hwrap hlt hfit hi, hname, Option.map_some]
  · rw [List.getElem?_eq_none (by simpa using hi), List.getElem?_eq_none]
    simp only [List.length_map, List.length_append, List.length_take, List.length_rotate]
    omega

/-! ## Rounds -/

/-- The slots of a name. -/
theorem count_slots (weights : List (String × U32)) (name : String) :
    (slots weights).count name = weightSum (weights.filter fun e => e.1 == name) := by
  induction weights with
  | nil => rfl
  | cons e weights ih =>
    rw [slots_cons, List.count_append, List.count_replicate, ih, List.filter_cons]
    split <;> simp [weightSum]

/-- In a proportional round, a name is picked as many times as its weights say,
if no other name has its provider. -/
theorem count_of_proportional {P : Type} [DecidableEq P] {bucket : Bucket P} {results : List (Option P)}
    (h : Proportional bucket weights results) {name : String}
    (hown : ∀ other ∈ slots weights, bucket.lookup other = bucket.lookup name → other = name) :
    results.count (bucket.lookup name) = weightSum (weights.filter fun e => e.1 == name) := by
  rw [h.count_eq, ← count_slots, List.count, List.countP_map, List.count]
  refine List.countP_congr fun other hm => ?_
  simp only [Function.comp_apply, beq_iff_eq]
  exact ⟨hown other hm, fun he => by rw [he]⟩

/-- The counter does not wrap in the round. -/
theorem sameAfterWrap_of_le {P : Type} (bucket : Bucket P) (h : counter + weightSum weights ≤ 2 ^ 64) :
    SameAfterWrap bucket weights counter := by
  have hzero : afterWrap weights counter = 0 := Nat.sub_eq_zero_of_le h
  rw [SameAfterWrap, hzero]
  exact .nil

/-- The counter wraps between two rounds of the slots. -/
theorem sameAfterWrap_of_dvd {P : Type} (bucket : Bucket P) (h : weightSum weights ∣ 2 ^ 64) :
    SameAfterWrap bucket weights counter := by
  rw [← length_slots] at h
  rw [SameAfterWrap, ← List.rotate_mod, Nat.mod_eq_zero_of_dvd h, List.rotate_zero]

/-- A round of lookups is proportional exactly if the slots after the wrap of the
counter have the providers of those that the wrap skips. -/
theorem proportional_iff (caps : Capabilities TypeId Provider) (c : TypeId) (bucket : Bucket (Provider c))
    (hbucket : caps.providers.lookup c = some bucket) (weights : List (String × U32))
    (hweights : caps.strategy c = .weightedRoundRobin weights) (hpos : 0 < weightSum weights)
    (hfit : weightSum weights < 2 ^ 64) (counter : Nat) (hcounter : caps.rotation.lookup c = some counter)
    (hlt : counter < 2 ^ 64) :
    Proportional bucket weights (lookups caps c (weightSum weights)) ↔ SameAfterWrap bucket weights counter := by
  have hround := RotatesAt.round_eq ⟨hbucket, hweights, hcounter⟩ hpos hfit hlt
  have hwrap := afterWrap_eq weights counter
  have hall := ((slots weights).rotate_perm counter).map fun name => bucket.lookup name
  rw [← List.take_append_drop ((slots weights).length - afterWrap weights counter) ((slots weights).rotate counter),
    List.map_append] at hall
  rw [Proportional, hround, List.map_append, ← hall.congr_right, List.perm_append_left_iff, drop_rotate hwrap hlt]
  rfl

/-- Two stores, of weights one and two. -/
def twoStores (counter : Nat) : Capabilities String fun _ => String :=
  let reg : CapabilityRegistry String fun _ => String := .new
  let reg := ((reg.register "dyn JobStore" "a" "a").1.register "dyn JobStore" "b" "b").1
  { (reg.setStrategy "dyn JobStore" (.weightedRoundRobin [("a", 1), ("b", 2)])).build with
    rotation := (∅ : AList fun _ : String => Nat).insert "dyn JobStore" counter }

/-- Their providers. -/
def twoBucket : Bucket String := ((∅ : Bucket String).insert "a" "a").insert "b" "b"

/-- The first round. -/
theorem proportional_first :
    Proportional twoBucket [("a", 1), ("b", 2)] (lookups (twoStores 0) "dyn JobStore" 3) :=
  (proportional_iff (twoStores 0) "dyn JobStore" twoBucket rfl [("a", 1), ("b", 2)] rfl (by decide)
    (by decide) 0 rfl (by decide)).mpr (sameAfterWrap_of_le _ (by decide))

/-- A round that the counter wraps in: `2 ^ 64 - 1` is a multiple of the total
weight, and so is 0. -/
theorem not_proportional_wrap : ¬ ∀ (caps : Capabilities String fun _ => String) (c : String) (bucket : Bucket String),
    caps.providers.lookup c = some bucket → ∀ weights, caps.strategy c = .weightedRoundRobin weights →
    0 < weightSum weights → (∀ e ∈ weights, e.2.val ≠ 0 → (bucket.lookup e.1).isSome = true) →
    ∀ counter, caps.rotation.lookup c = some counter → counter < 2 ^ 64 →
    Proportional bucket weights (lookups caps c (weightSum weights)) := by
  intro h
  have hperm := h (twoStores (2 ^ 64 - 1)) "dyn JobStore" twoBucket rfl [("a", 1), ("b", 2)] rfl
    (by decide) (by decide) (2 ^ 64 - 1) rfl (by decide)
  have hcount := hperm.count_eq (some "a")
  exact absurd hcount (by decide)

end WalaStack.Proof.Capabilities
