import Mathlib.Tactic.Ring

/-! # Words as bytes

A number is a string of bytes, lowest byte first.
-/

namespace Cos.Lib

def wordBytes : Nat → Nat → List UInt8
  | 0, _ => []
  | width + 1, value => UInt8.ofNat value :: wordBytes width (value / 256)

def wordValue : List UInt8 → Nat
  | [] => 0
  | byte :: rest => byte.toNat + 256 * wordValue rest

@[simp] theorem wordBytes_length (width value : Nat) : (wordBytes width value).length = width := by
  induction width generalizing value with
  | zero => rfl
  | succ width ih => rw [wordBytes, List.length_cons, ih]

theorem wordValue_wordBytes {width value : Nat} (small : value < 256 ^ width) :
    wordValue (wordBytes width value) = value := by
  induction width generalizing value with
  | zero =>
      rw [wordBytes, wordValue]
      omega
  | succ width ih =>
      rw [wordBytes, wordValue, ih (by omega), UInt8.toNat_ofNat']
      omega

theorem wordBytes_wordValue (bytes : List UInt8) :
    wordBytes bytes.length (wordValue bytes) = bytes := by
  induction bytes with
  | nil => rfl
  | cons byte rest ih =>
      have small : byte.toNat < 256 := byte.toNat_lt
      rw [List.length_cons, wordBytes, wordValue,
        show (byte.toNat + 256 * wordValue rest) / 256 = wordValue rest by omega, ih]
      congr 1
      apply UInt8.toNat_inj.mp
      rw [UInt8.toNat_ofNat']
      omega

end Cos.Lib
