/-
The bitwise CRC-32 loop never forgets: every step is injective, so two runs
that differ in one byte end apart.
-/
import UltraNet.RemoteLog
import Mathlib.Logic.Function.Iterate

namespace UltraNet

theorem shiftRight_testBit_top (crc : UInt32) :
    (crc >>> 1).toBitVec.getLsbD 31 = false := by
  simp

/-- The polynomial has its top bit, so the top bit of the result is the low bit
of the argument. -/
theorem crcBit_top (crc : UInt32) :
    (crcBit crc).toBitVec.getLsbD 31 = decide (crc &&& 1 ≠ 0) := by
  rw [crcBit]
  split
  · rename_i hlow
    rw [UInt32.toBitVec_xor, BitVec.getLsbD_xor, shiftRight_testBit_top,
      decide_eq_true hlow]
    rfl
  · rename_i hlow
    rw [shiftRight_testBit_top, decide_eq_false hlow]

theorem low_bit_iff (crc : UInt32) : crc &&& 1 ≠ 0 ↔ crc.toNat % 2 = 1 := by
  have hlow : (crc &&& 1).toNat = crc.toNat % 2 := by
    rw [UInt32.toNat_and]
    exact Nat.and_one_is_mod _
  rw [ne_eq, ← UInt32.toNat_inj, hlow]
  exact Nat.mod_two_ne_zero

theorem eq_of_shiftRight {first second : UInt32}
    (hlow : decide (first &&& 1 ≠ 0) = decide (second &&& 1 ≠ 0))
    (hshift : first >>> 1 = second >>> 1) : first = second := by
  have hhalf : ∀ crc : UInt32, (crc >>> 1).toNat = crc.toNat / 2 := by
    intro crc
    rw [UInt32.toNat_shiftRight]
    exact Nat.shiftRight_eq_div_pow _ 1
  have hnat := congrArg UInt32.toNat hshift
  rw [hhalf, hhalf] at hnat
  rw [decide_eq_decide, low_bit_iff, low_bit_iff] at hlow
  apply UInt32.toNat_inj.mp
  omega

theorem crcBit_injective : Function.Injective crcBit := by
  intro first second hsame
  have hlow : decide (first &&& 1 ≠ 0) = decide (second &&& 1 ≠ 0) := by
    rw [← crcBit_top, ← crcBit_top, hsame]
  apply eq_of_shiftRight hlow
  rw [crcBit, crcBit] at hsame
  by_cases hfirst : first &&& 1 ≠ 0
  · rw [decide_eq_true hfirst, eq_comm, decide_eq_true_eq] at hlow
    rw [if_pos hfirst, if_pos hlow] at hsame
    exact (UInt32.xor_left_inj _).mp hsame
  · rw [decide_eq_false hfirst, eq_comm, decide_eq_false_iff_not] at hlow
    rwa [if_neg hfirst, if_neg hlow] at hsame

/-- One byte of the loop. -/
def crcByte (crc : UInt32) (byte : UInt8) : UInt32 :=
  crcBit^[8] (crc ^^^ byte.toUInt32)

theorem crc32IsoHdlc_eq (data : List UInt8) :
    crc32IsoHdlc data = data.foldl crcByte 0xFFFFFFFF ^^^ 0xFFFFFFFF := rfl

theorem crcByte_state {first second : UInt32} {byte : UInt8}
    (hsame : crcByte first byte = crcByte second byte) : first = second :=
  (UInt32.xor_left_inj _).mp (crcBit_injective.iterate 8 hsame)

theorem crcByte_byte {crc : UInt32} {first second : UInt8}
    (hsame : crcByte crc first = crcByte crc second) : first = second := by
  have hbyte := (UInt32.xor_right_inj _).mp (crcBit_injective.iterate 8 hsame)
  have hnat := congrArg UInt32.toNat hbyte
  rwa [UInt8.toNat_toUInt32, UInt8.toNat_toUInt32, UInt8.toNat_inj] at hnat

/-- Different states stay different over any bytes. -/
theorem foldl_crcByte_injective (data : List UInt8) {first second : UInt32}
    (hsame : data.foldl crcByte first = data.foldl crcByte second) :
    first = second := by
  induction data generalizing first second with
  | nil => exact hsame
  | cons byte data ih => exact crcByte_state (ih hsame)

/-- A single changed byte changes the checksum. -/
theorem crc32IsoHdlc_detects (before after : List UInt8) {byte other : UInt8}
    (hne : byte ≠ other) :
    crc32IsoHdlc (before ++ byte :: after) ≠ crc32IsoHdlc
      (before ++ other :: after) := by
  intro hsame
  rw [crc32IsoHdlc_eq, crc32IsoHdlc_eq, UInt32.xor_left_inj, List.foldl_append,
    List.foldl_append] at hsame
  exact hne (crcByte_byte (foldl_crcByte_injective after hsame))

end UltraNet
