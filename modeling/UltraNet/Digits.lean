/-
Decimal text as bytes: the character classes of the C locale, the value of a
row of digits, and the digits of a number.
-/
import Mathlib.Data.List.TakeWhile
import Mathlib.Data.Nat.Digits.Defs

namespace UltraNet

def isSpace (byte : UInt8) : Bool := byte = 0x20 || 0x09 ≤ byte && byte ≤ 0x0D

def isDigit (byte : UInt8) : Bool := 0x30 ≤ byte && byte ≤ 0x39

/-- The value of a row of digits, the first one the highest. -/
def digitsValue (digits : List UInt8) : Nat :=
  digits.foldl (fun value digit => 10 * value + (digit.toNat - 48)) 0

/-- `std::to_string` of an unsigned number. -/
def decimalText (n : Nat) : List UInt8 :=
  (Nat.toDigits 10 n).map fun digit => UInt8.ofNat digit.toNat

/-- `std::to_string` of a signed number. -/
def signedText (n : Int) : List UInt8 :=
  if n < 0 then 45 :: decimalText n.natAbs else decimalText n.natAbs

/-- A digit keeps its number as a byte. -/
theorem digit_byte {digit : Char} (hdigit : digit.isDigit = true) :
    isDigit (UInt8.ofNat digit.toNat) = true ∧
      (UInt8.ofNat digit.toNat).toNat = digit.toNat := by
  have hrange : 48 ≤ digit.toNat ∧ digit.toNat ≤ 57 := by
    simp only [Char.isDigit, Bool.and_eq_true, decide_eq_true_eq] at hdigit
    exact hdigit
  have hvalue : (UInt8.ofNat digit.toNat).toNat = digit.toNat := by
    rw [UInt8.toNat_ofNat']
    exact Nat.mod_eq_of_lt (by omega)
  refine ⟨?_, hvalue⟩
  simp only [isDigit, UInt8.le_iff_toNat_le, hvalue, Bool.and_eq_true,
    decide_eq_true_eq]
  exact hrange

/-- The digits of a number stand for it. -/
theorem digitsValue_decimalText (n : Nat) : digitsValue (decimalText n) = n := by
  have hfold : ∀ digits : List Char, (∀ digit ∈ digits, digit.isDigit = true) →
      ∀ value, (digits.map fun digit => UInt8.ofNat digit.toNat).foldl
        (fun value digit => 10 * value + (digit.toNat - 48)) value =
          Nat.ofDigitChars 10 digits value := by
    intro digits
    induction digits with
    | nil => simp
    | cons digit digits ih =>
        intro hdigits value
        have hvalue := (digit_byte (hdigits digit (List.mem_cons_self ..))).2
        rw [List.map_cons, List.foldl_cons, hvalue, Nat.ofDigitChars_cons]
        exact ih (fun other hother =>
          hdigits other (List.mem_cons_of_mem _ hother)) _
  rw [digitsValue, decimalText, hfold _ (fun digit hdigit =>
    Nat.isDigit_of_mem_toDigits (by decide) (by decide) hdigit),
    Nat.ofDigitChars_ten_toDigits]

theorem isDigit_of_mem_decimalText {n : Nat} {byte : UInt8}
    (hbyte : byte ∈ decimalText n) : isDigit byte = true := by
  obtain ⟨digit, hdigit, rfl⟩ := List.mem_map.mp hbyte
  exact (digit_byte
    (Nat.isDigit_of_mem_toDigits (by decide) (by decide) hdigit)).1

theorem decimalText_ne_nil (n : Nat) : decimalText n ≠ [] := by
  simp [decimalText, Nat.toDigits_ne_nil]

end UltraNet
