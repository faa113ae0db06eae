import Mathlib.Data.List.Basic

/-!
# UTF-8

The bytes of a string, and the strings that bytes are.
-/

namespace WalaStack.Rust

/-- `str::as_bytes` -/
def asBytes (text : String) : List UInt8 := text.toByteArray.data.toList

/-- `String::from_utf8`, without its error. -/
def fromUtf8 (bytes : List UInt8) : Option String := String.fromUTF8? ⟨bytes.toArray⟩

theorem fromUtf8_asBytes (text : String) : fromUtf8 (asBytes text) = some text := by
  have hbytes : (⟨(asBytes text).toArray⟩ : ByteArray) = text.toByteArray := rfl
  rw [fromUtf8, hbytes, String.fromUTF8?, dif_pos text.isValidUTF8]
  rfl

/-! ## Bytes of characters -/

theorem asBytes_eq (text : String) : asBytes text = text.toList.flatMap String.utf8EncodeChar := by
  obtain ⟨chars, rfl⟩ : ∃ chars, text = String.ofList chars := ⟨text.toList, by simp⟩
  rw [asBytes, String.toByteArray_ofList, String.toList_ofList]
  show (chars.flatMap String.utf8EncodeChar).toByteArray.data.toList = _
  simp

theorem toNat_lt (c : Char) : c.val.toNat < 0x110000 := by
  have hc := c.valid
  simp [UInt32.isValidChar, Nat.isValidChar] at hc
  show c.toNat < 0x110000
  omega

theorem ofNat_ne {n : Nat} (h : n < 256) (hn : n ≠ 10) : (10 : UInt8) ≠ UInt8.ofNat n := by
  intro he
  have hval := congrArg UInt8.toNat he
  rw [UInt8.toNat_ofNat_of_lt' h] at hval
  exact hn hval.symm

/-- No byte of a longer character is an ASCII character. -/
theorem not_mem_long (bytes : List Nat) (hb : ∀ n ∈ bytes, 128 ≤ n ∧ n < 256) : (10 : UInt8) ∉ bytes.map UInt8.ofNat := by
  intro h
  obtain ⟨n, hn, he⟩ := List.mem_map.mp h
  have hlong := hb n hn
  exact ofNat_ne hlong.2 (by omega) he.symm

theorem eq_newline {c : Char} (h : (10 : UInt8) ∈ String.utf8EncodeChar c) : c = '\n' := by
  have hc := toNat_lt c
  simp only [String.utf8EncodeChar] at h
  split at h
  · rw [List.mem_singleton] at h
    have hn : c.val.toNat = 10 := by
      by_contra hne
      exact ofNat_ne (by omega) hne h
    exact Char.ext (UInt32.toNat_inj.mp hn)
  · split at h
    · refine absurd h (not_mem_long [c.val.toNat / 64 % 32 + 192, c.val.toNat % 64 + 128] ?_)
      simp only [List.mem_cons, List.not_mem_nil, or_false, forall_eq_or_imp, forall_eq]
      omega
    · split at h
      · refine absurd h (not_mem_long
          [c.val.toNat / 4096 % 16 + 224, c.val.toNat / 64 % 64 + 128, c.val.toNat % 64 + 128] ?_)
        simp only [List.mem_cons, List.not_mem_nil, or_false, forall_eq_or_imp, forall_eq]
        omega
      · refine absurd h (not_mem_long [c.val.toNat / 262144 % 8 + 240, c.val.toNat / 4096 % 64 + 128,
          c.val.toNat / 64 % 64 + 128, c.val.toNat % 64 + 128] ?_)
        simp only [List.mem_cons, List.not_mem_nil, or_false, forall_eq_or_imp, forall_eq]
        omega

/-- A line of text is a line of bytes. -/
theorem newline_not_mem_asBytes {text : String} (h : '\n' ∉ text.toList) : 10 ∉ asBytes text := by
  rw [asBytes_eq, List.mem_flatMap]
  rintro ⟨c, hc, hb⟩
  exact h (eq_newline hb ▸ hc)

end WalaStack.Rust
