import Mathlib.Data.Nat.Log
import WalaStack.Framework.Decimal
import WalaStack.Rust.Json
import WalaStack.Rust.Utf8

/-!
# The text of a JSON value

`serde_json::to_vec` by its documented behaviour: compact text, in which the
control characters of a string are escaped, so that it is one line
(`newline_not_mem_toVec`). The shortest decimals of an `f64` are not modelled: a
float has the text of one that is not finite.
-/

namespace WalaStack.Rust.Json

open WalaStack.Decimal

/-- A character within a string. -/
def escape (c : Char) : List Char :=
  if c = '"' then ['\\', '"']
  else if c = '\\' then ['\\', '\\']
  else if c = '\x08' then ['\\', 'b']
  else if c = '\t' then ['\\', 't']
  else if c = '\n' then ['\\', 'n']
  else if c = '\x0c' then ['\\', 'f']
  else if c = '\r' then ['\\', 'r']
  else if c.toNat < 32 then ['\\', 'u', '0', '0', (c.toNat / 16).digitChar, (c.toNat % 16).digitChar]
  else [c]

def quoted (s : String) : List Char := '"' :: (s.toList.flatMap escape ++ ['"'])

/-- A number in as many digits as it has. -/
def decimal (n : Nat) : List Char := digits (Nat.log 10 n + 1) n

def Number.compact : Number → List Char
  | .posInt n => decimal n.val
  | .negInt n => '-' :: decimal n.natAbs
  | .float _ => ['n', 'u', 'l', 'l']

namespace Value

mutual

/-- The text of a value, without blanks. -/
def compact : Value → List Char
  | null => ['n', 'u', 'l', 'l']
  | bool b => if b then ['t', 'r', 'u', 'e'] else ['f', 'a', 'l', 's', 'e']
  | number n => n.compact
  | string s => quoted s
  | array elems => '[' :: (compactElems elems [] ++ [']'])
  | object entries => '\x7b' :: (compactEntries entries [] ++ ['\x7d'])

/-- Elements, with `before` before the first and a comma before any other. -/
def compactElems : List Value → List Char → List Char
  | [], _ => []
  | v :: elems, before => before ++ (v.compact ++ compactElems elems [','])

def compactEntries : List (String × Value) → List Char → List Char
  | [], _ => []
  | (key, v) :: entries, before => before ++ (quoted key ++ ':' :: (v.compact ++ compactEntries entries [',']))

end

end Value

/-- `serde_json::to_vec` -/
def toVec (v : Value) : List UInt8 := asBytes (String.ofList v.compact)

/-! ## One line -/

theorem newline_not_mem_escape (c : Char) : '\n' ∉ escape c := by
  have hdigit : ∀ n < 16, '\n' ≠ Nat.digitChar n := by decide
  unfold escape
  split_ifs with _ _ _ _ hnewline _ _ hcontrol
  all_goals try decide
  · have hhigh := hdigit (c.toNat / 16) (by omega)
    have hlow := hdigit (c.toNat % 16) (by omega)
    simp [hhigh, hlow]
  · exact fun h => hnewline (List.mem_singleton.mp h).symm

theorem newline_not_mem_quoted (s : String) : '\n' ∉ quoted s := by
  rw [quoted, List.mem_cons, List.mem_append, List.mem_flatMap]
  rintro (h | ⟨c, -, h⟩ | h)
  · exact absurd h (by decide)
  · exact newline_not_mem_escape c h
  · exact absurd h (by decide)

theorem newline_not_mem_decimal (n : Nat) : '\n' ∉ decimal n := fun h => absurd (mem_digits h) (by decide)

theorem newline_not_mem_number (n : Number) : '\n' ∉ n.compact := by
  cases n with
  | posInt n => exact newline_not_mem_decimal n.val
  | negInt n =>
    rw [Number.compact, List.mem_cons, not_or]
    exact ⟨by decide, newline_not_mem_decimal n.natAbs⟩
  | float x => exact show '\n' ∉ ['n', 'u', 'l', 'l'] by decide

mutual

theorem newline_not_mem_compact (v : Value) : '\n' ∉ v.compact := by
  cases v with
  | null => decide
  | bool b => cases b <;> decide
  | number n => exact newline_not_mem_number n
  | string s => exact newline_not_mem_quoted s
  | array elems =>
    have helems := newline_not_mem_elems elems [] (by decide)
    simp [Value.compact, helems]
  | object entries =>
    have hentries := newline_not_mem_entries entries [] (by decide)
    simp [Value.compact, hentries]

theorem newline_not_mem_elems (elems : List Value) (before : List Char) (hb : '\n' ∉ before) :
    '\n' ∉ Value.compactElems elems before := by
  cases elems with
  | nil => exact List.not_mem_nil
  | cons v elems =>
    have hv := newline_not_mem_compact v
    have helems := newline_not_mem_elems elems [','] (by decide)
    simp [Value.compactElems, hb, hv, helems]

theorem newline_not_mem_entries (entries : List (String × Value)) (before : List Char) (hb : '\n' ∉ before) :
    '\n' ∉ Value.compactEntries entries before := by
  cases entries with
  | nil => exact List.not_mem_nil
  | cons entry entries =>
    obtain ⟨key, v⟩ := entry
    have hkey := newline_not_mem_quoted key
    have hv := newline_not_mem_compact v
    have hentries := newline_not_mem_entries entries [','] (by decide)
    simp [Value.compactEntries, hb, hkey, hv, hentries]

end

/-- A value is written on one line. -/
theorem newline_not_mem_toVec (v : Value) : 10 ∉ toVec v := by
  refine newline_not_mem_asBytes ?_
  rw [String.toList_ofList]
  exact newline_not_mem_compact v

end WalaStack.Rust.Json
