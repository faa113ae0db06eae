import WalaStack.Rust.Num

/-!
# JSON values

`serde_json::Value` and the part of `serde_json::from_value` that the derived
`Deserialize` implementations of the program use, by their documented
behaviour. The text parser is not modelled: a function that reads text takes
it as an argument.
-/

namespace WalaStack.Rust.Json

/-- `serde_json::Number`: a `u64`, a negative `i64` or a finite `f64`. -/
inductive Number
  | posInt (n : U64)
  | negInt (n : Int)
  | float (x : Rat)
deriving DecidableEq, Repr

/-- `serde_json::Value`. The keys of an object are distinct in the source;
`get` reads the first entry of a key. -/
inductive Value
  | null
  | bool (b : Bool)
  | number (n : Number)
  | string (s : String)
  | array (elems : List Value)
  | object (entries : List (String × Value))

/-- Why text or a value is not decoded. -/
inductive Error
  | malformed (message : String)
  | invalidType (what : String)
  | missingField (name : String)
  | invalidLength
deriving DecidableEq, Repr

namespace Value

/-- `value.get(key)`: a member of an object. -/
def get (key : String) : Value → Option Value
  | object entries => entries.lookup key
  | _ => none

/-- `Value::as_str` -/
def asStr : Value → Option String
  | string s => some s
  | _ => none

/-- `value` decoded as a `u64`. -/
def asU64 : Value → Option U64
  | number (.posInt n) => some n
  | _ => none

/-- `value` decoded as an `i32`. -/
def asI32 : Value → Option Int
  | number (.posInt n) => if n.val < 2 ^ 31 then some n.val else none
  | number (.negInt n) => if -2 ^ 31 ≤ n then some n else none
  | _ => none

/-- `value` decoded as an `Option<Value>`. -/
def asOption : Value → Option Value
  | null => none
  | v => some v

/-- `value` decoded as an `i64`. -/
def asI64 : Value → Option Int
  | number (.posInt n) => if n.val ≤ i64Max then some n.val else none
  | number (.negInt n) => if -2 ^ 63 ≤ n then some n else none
  | _ => none

/-- The value that an `i64` is serialized as. -/
def ofI64 : Int → Value
  | .ofNat n => number (.posInt (.cast n))
  | .negSucc n => number (.negInt (.negSucc n))

theorem asI64_ofI64 {n : Nat} (h : n ≤ i64Max) : (ofI64 n).asI64 = some (n : Int) := by
  have hmod : n % 2 ^ 64 = n := Nat.mod_eq_of_lt (Nat.lt_of_le_of_lt h (by decide))
  show (if n % 2 ^ 64 ≤ i64Max then some ((n % 2 ^ 64 : Nat) : Int) else none) = _
  rw [hmod, if_pos h]

/-! ### Equality -/

mutual

/-- Whether two values are equal. -/
def beq : Value → Value → Bool
  | null, null => true
  | bool a, bool b => a == b
  | number a, number b => a == b
  | string a, string b => a == b
  | array vs, array ws => beqList vs ws
  | object es, object fs => beqEntries es fs
  | _, _ => false

def beqList : List Value → List Value → Bool
  | [], [] => true
  | v :: vs, w :: ws => v.beq w && beqList vs ws
  | _, _ => false

def beqEntries : List (String × Value) → List (String × Value) → Bool
  | [], [] => true
  | (k, v) :: es, (l, w) :: fs => k == l && v.beq w && beqEntries es fs
  | _, _ => false

end

mutual

theorem eq_of_beq {v w : Value} (h : v.beq w = true) : v = w := by
  cases v with
  | null => cases w with
    | null => rfl
    | _ => cases h
  | bool a => cases w with
    | bool b => rw [LawfulBEq.eq_of_beq h]
    | _ => cases h
  | number a => cases w with
    | number b => rw [LawfulBEq.eq_of_beq h]
    | _ => cases h
  | string a => cases w with
    | string b => rw [LawfulBEq.eq_of_beq h]
    | _ => cases h
  | array vs => cases w with
    | array ws => rw [eq_of_beqList h]
    | _ => cases h
  | object es => cases w with
    | object fs => rw [eq_of_beqEntries h]
    | _ => cases h

theorem eq_of_beqList {vs ws : List Value} (h : beqList vs ws = true) : vs = ws := by
  cases vs with
  | nil => cases ws with
    | nil => rfl
    | cons w ws => cases h
  | cons v vs => cases ws with
    | nil => cases h
    | cons w ws =>
      obtain ⟨hv, hvs⟩ := Bool.and_eq_true_iff.mp h
      rw [eq_of_beq hv, eq_of_beqList hvs]

theorem eq_of_beqEntries {es fs : List (String × Value)} (h : beqEntries es fs = true) : es = fs := by
  cases es with
  | nil => cases fs with
    | nil => rfl
    | cons f fs => cases h
  | cons e es => cases fs with
    | nil => cases h
    | cons f fs =>
      obtain ⟨k, v⟩ := e
      obtain ⟨l, w⟩ := f
      obtain ⟨hkv, hes⟩ := Bool.and_eq_true_iff.mp h
      obtain ⟨hk, hv⟩ := Bool.and_eq_true_iff.mp hkv
      rw [LawfulBEq.eq_of_beq hk, eq_of_beq hv, eq_of_beqEntries hes]

end

mutual

theorem beq_self (v : Value) : v.beq v = true := by
  cases v with
  | null => rfl
  | bool a | number a | string a => exact beq_self_eq_true a
  | array vs => exact beqList_self vs
  | object es => exact beqEntries_self es

theorem beqList_self (vs : List Value) : beqList vs vs = true := by
  cases vs with
  | nil => rfl
  | cons v vs => exact Bool.and_eq_true_iff.mpr ⟨beq_self v, beqList_self vs⟩

theorem beqEntries_self (es : List (String × Value)) : beqEntries es es = true := by
  cases es with
  | nil => rfl
  | cons e es =>
    obtain ⟨k, v⟩ := e
    exact Bool.and_eq_true_iff.mpr
      ⟨Bool.and_eq_true_iff.mpr ⟨beq_self_eq_true k, beq_self v⟩, beqEntries_self es⟩

end

instance : DecidableEq Value := fun v w =>
  decidable_of_iff (v.beq w = true) ⟨eq_of_beq, fun h => h ▸ beq_self v⟩

/-! ### Nesting -/

mutual

/-- How deep arrays and objects are nested. -/
def depth : Value → Nat
  | array elems => depthList elems + 1
  | object entries => depthEntries entries + 1
  | _ => 0

def depthList : List Value → Nat
  | [] => 0
  | v :: vs => max v.depth (depthList vs)

def depthEntries : List (String × Value) → Nat
  | [] => 0
  | (_, v) :: es => max v.depth (depthEntries es)

end

mutual

/-- The value with each of its floats replaced. -/
def mapFloats (f : Rat → Rat) : Value → Value
  | number (.float x) => number (.float (f x))
  | array elems => array (mapFloatsList f elems)
  | object entries => object (mapFloatsEntries f entries)
  | v => v

def mapFloatsList (f : Rat → Rat) : List Value → List Value
  | [] => []
  | v :: vs => v.mapFloats f :: mapFloatsList f vs

def mapFloatsEntries (f : Rat → Rat) : List (String × Value) → List (String × Value)
  | [] => []
  | (k, v) :: es => (k, v.mapFloats f) :: mapFloatsEntries f es

end

/-- `null` in `n` arrays. -/
def nested : Nat → Value
  | 0 => null
  | n + 1 => array [nested n]

theorem depth_nested (n : Nat) : (nested n).depth = n := by
  induction n with
  | zero => rfl
  | succ n ih => rw [nested, depth, depthList, depthList, ih, Nat.max_zero]

theorem mapFloats_nested (f : Rat → Rat) (n : Nat) : (nested n).mapFloats f = nested n := by
  induction n with
  | zero => rfl
  | succ n ih => rw [nested, mapFloats, mapFloatsList, mapFloatsList, ih]

end Value

/-! ### Objects -/

/-- `serde_json::Map`, which is sorted by its keys. -/
abbrev Map := Std.TreeMap String Value

/-- `Value::Object(map)` -/
def Value.ofMap (map : Map) : Value := .object map.toList

theorem Value.get_ofMap (map : Map) (key : String) : (ofMap map).get key = map[key]? := by
  show map.toList.lookup key = _
  cases hm : map[key]? with
  | none =>
    rw [List.lookup_eq_none_iff]
    intro entry he
    rw [bne_iff_ne]
    rintro rfl
    rw [Std.TreeMap.mem_toList_iff_getElem?_eq_some.mp he] at hm
    cases hm
  | some v =>
    obtain ⟨before, after, hl⟩ := List.append_of_mem (Std.TreeMap.mem_toList_iff_getElem?_eq_some.mpr hm)
    have hkeys : map.toList.Pairwise fun e e' => ¬ compare e.1 e'.1 = .eq := Std.TreeMap.distinct_keys_toList
    rw [hl, List.pairwise_append] at hkeys
    rw [List.lookup_eq_some_iff]
    refine ⟨before, after, hl, fun e he => bne_iff_ne.mpr ?_⟩
    rintro rfl
    exact hkeys.2.2 e he _ List.mem_cons_self Std.ReflCmp.compare_self

/-- A field with `skip_serializing_if = "Option::is_none"`, or an `insert` of a
value that is there. -/
def Map.insertSome (map : Map) (key : String) : Option Value → Map
  | some v => map.insert key v
  | none => map

/-- An array of strings. -/
def Value.strings (texts : List String) : Value := .array (texts.map .string)

/-- `#[serde(default)] Option<String>`, of a field. -/
def optionalString (name : String) : Option Value → Except Error (Option String)
  | none | some .null => .ok none
  | some (.string s) => .ok (some s)
  | some _ => .error (.invalidType name)

end WalaStack.Rust.Json
