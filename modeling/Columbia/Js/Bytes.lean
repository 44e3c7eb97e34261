import Columbia.Js.Value
import Mathlib.Data.Nat.Digits.Defs

/-! # Bytes as big-endian numbers -/
namespace Columbia.Js
set_option autoImplicit false

def integerOf (bytes : Bytes) : Nat := Nat.ofDigits 256 (bytes.reverse.map UInt8.toNat)

theorem digits_lt (bytes : Bytes) : ∀ d ∈ bytes.reverse.map UInt8.toNat, d < 256 := by
  intro d hd
  obtain ⟨byte, -, rfl⟩ := List.mem_map.mp hd
  exact byte.toNat_lt

theorem integerOf_injective {a b : Bytes} (hLength : a.length = b.length) (h : integerOf a = integerOf b) : a = b := by
  have hSame := Nat.ofDigits_inj_of_len_eq (by decide) (by simpa using hLength) (digits_lt a) (digits_lt b) h
  have hReverse := List.map_injective_iff.mpr (fun x y => UInt8.toNat_inj.mp) hSame
  exact List.reverse_injective hReverse

theorem integerOf_zero_cons (bytes : Bytes) : integerOf (0 :: bytes) = integerOf bytes := by
  simp [integerOf, Nat.ofDigits_append]

theorem integerOf_lt (bytes : Bytes) : integerOf bytes < 256 ^ bytes.length := by
  simpa [integerOf] using Nat.ofDigits_lt_base_pow_length (by decide) (digits_lt bytes)

theorem integerOf_append (a b : Bytes) : integerOf (a ++ b) = integerOf a * 256 ^ b.length + integerOf b := by
  simp [integerOf, Nat.ofDigits_append, Nat.mul_comm, Nat.add_comm]

theorem integerOf_nil : integerOf [] = 0 := rfl

theorem integerOf_cons (b : UInt8) (bytes : Bytes) :
    integerOf (b :: bytes) = b.toNat * 256 ^ bytes.length + integerOf bytes := by
  have hSum := integerOf_append [b] bytes
  have hFirst : integerOf [b] = b.toNat := by simp [integerOf]
  rwa [List.singleton_append, hFirst] at hSum

/-- `writeUInt16BE` and `writeUInt32BE`, into a buffer of that size. -/
def uint16BE (n : Nat) : Bytes := [UInt8.ofNat (n / 256), UInt8.ofNat n]
def uint32BE (n : Nat) : Bytes :=
  [UInt8.ofNat (n / 16777216), UInt8.ofNat (n / 65536), UInt8.ofNat (n / 256), UInt8.ofNat n]

theorem integerOf_uint16BE {n : Nat} (h : n < 2 ^ 16) : integerOf (uint16BE n) = n := by
  simp only [integerOf, uint16BE, List.reverse_cons, List.reverse_nil, List.nil_append, List.cons_append,
    List.map_cons, List.map_nil, Nat.ofDigits_cons, Nat.ofDigits_nil, UInt8.toNat_ofNat']
  omega

theorem integerOf_uint32BE {n : Nat} (h : n < 2 ^ 32) : integerOf (uint32BE n) = n := by
  simp only [integerOf, uint32BE, List.reverse_cons, List.reverse_nil, List.nil_append, List.cons_append,
    List.map_cons, List.map_nil, Nat.ofDigits_cons, Nat.ofDigits_nil, UInt8.toNat_ofNat']
  omega

end Columbia.Js
