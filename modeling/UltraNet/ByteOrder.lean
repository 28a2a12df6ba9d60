/-
Fixed-width unsigned integers as bytes, least significant byte first.
-/
import Mathlib.Algebra.GroupWithZero.Nat
import Mathlib.Data.List.Basic

namespace UltraNet

/-- The lowest bytes of a number, so many of them. -/
def leBytes : Nat → Nat → List UInt8
  | 0, _ => []
  | width + 1, value => UInt8.ofNat value :: leBytes width (value / 256)

def leNat : List UInt8 → Nat
  | [] => 0
  | byte :: rest => byte.toNat + 256 * leNat rest

@[simp] theorem length_leBytes (width value : Nat) :
    (leBytes width value).length = width := by
  induction width generalizing value with
  | zero => rfl
  | succ width ih => simp [leBytes, ih]

/-- Reading back gives the value modulo the width. -/
theorem leNat_leBytes (width value : Nat) :
    leNat (leBytes width value) = value % 256 ^ width := by
  induction width generalizing value with
  | zero => simp [leBytes, leNat, Nat.mod_one]
  | succ width ih =>
      rw [leBytes, leNat, ih, Nat.pow_succ, Nat.mul_comm _ 256, Nat.mod_mul]
      simp

/-- So many bytes have so large a value. -/
theorem leNat_lt (bytes : List UInt8) : leNat bytes < 256 ^ bytes.length := by
  induction bytes with
  | nil => exact Nat.one_pos
  | cons byte rest ih =>
      have hbyte := byte.toNat_lt
      rw [leNat, List.length_cons, Nat.pow_succ]
      omega

/-- Every string of bytes is the one of its value. -/
theorem leBytes_leNat (bytes : List UInt8) :
    leBytes bytes.length (leNat bytes) = bytes := by
  induction bytes with
  | nil => rfl
  | cons byte rest ih =>
      have hbyte := byte.toNat_lt
      have hlow : UInt8.ofNat (byte.toNat + 256 * leNat rest) = byte := by
        apply UInt8.toNat_inj.mp
        rw [UInt8.toNat_ofNat']
        omega
      have hhigh : (byte.toNat + 256 * leNat rest) / 256 = leNat rest := by omega
      rw [List.length_cons, leNat, leBytes, hlow, hhigh, ih]

theorem leNat_take_lt (bytes : List UInt8) (width : Nat) :
    leNat (bytes.take width) < 256 ^ width := by
  have hlength : (bytes.take width).length ≤ width := List.length_take_le width bytes
  exact Nat.lt_of_lt_of_le (leNat_lt _) (Nat.pow_le_pow_right (by decide) hlength)

/-- The bytes at the front are those of their value. -/
theorem leBytes_leNat_take {bytes : List UInt8} {width : Nat}
    (hwidth : width ≤ bytes.length) :
    leBytes width (leNat (bytes.take width)) = bytes.take width := by
  have hbytes := leBytes_leNat (bytes.take width)
  rwa [List.length_take_of_le hwidth] at hbytes

/-- The first four bytes as a number; bytes that are missing count as 0. -/
def readLeU32 (bytes : List UInt8) : UInt32 :=
  UInt32.ofNat (leNat (bytes.take 4))

def readLeU64 (bytes : List UInt8) : UInt64 :=
  UInt64.ofNat (leNat (bytes.take 8))

/-- What was written is read back, whatever is behind it. -/
theorem readLeU32_leBytes (value : Nat) (rest : List UInt8) :
    readLeU32 (leBytes 4 value ++ rest) = UInt32.ofNat value := by
  rw [readLeU32, List.take_left' (length_leBytes 4 value), leNat_leBytes]
  exact UInt32.ofNat_mod_size

theorem readLeU64_leBytes (value : UInt64) (rest : List UInt8) :
    readLeU64 (leBytes 8 value.toNat ++ rest) = value := by
  have hvalue : value.toNat < 256 ^ 8 := by
    have := value.toNat_lt
    omega
  rw [readLeU64, List.take_left' (length_leBytes 8 _), leNat_leBytes,
    Nat.mod_eq_of_lt hvalue, UInt64.ofNat_toNat]

theorem toNat_readLeU32 (bytes : List UInt8) :
    (readLeU32 bytes).toNat = leNat (bytes.take 4) := by
  rw [readLeU32, UInt32.toNat_ofNat']
  exact Nat.mod_eq_of_lt (leNat_take_lt bytes 4)

theorem toNat_readLeU64 (bytes : List UInt8) :
    (readLeU64 bytes).toNat = leNat (bytes.take 8) := by
  rw [readLeU64, UInt64.toNat_ofNat']
  exact Nat.mod_eq_of_lt (leNat_take_lt bytes 8)

/-- What is read, where all bytes are there, writes them again. -/
theorem leBytes_readLeU32 {bytes : List UInt8} (hbytes : 4 ≤ bytes.length) :
    leBytes 4 (readLeU32 bytes).toNat = bytes.take 4 := by
  rw [toNat_readLeU32, leBytes_leNat_take hbytes]

theorem leBytes_readLeU64 {bytes : List UInt8} (hbytes : 8 ≤ bytes.length) :
    leBytes 8 (readLeU64 bytes).toNat = bytes.take 8 := by
  rw [toNat_readLeU64, leBytes_leNat_take hbytes]

end UltraNet
