/-
The standard base 64 encoding, with padding.
-/
import Mathlib.Algebra.GroupWithZero.Nat
import UltraNet.Lines

namespace UltraNet.Base64

def alphabet : List UInt8 :=
  ascii "ABCDEFGHIJKLMNOPQRSTUVWXYZabcdefghijklmnopqrstuvwxyz0123456789+/"

/-- The character of a 6-bit value. -/
def digit (value : Nat) : UInt8 := alphabet.getD value 0

/-- Four characters stand for a group of 24 bits.  The last group is filled up
with zero bits to whole characters, and `=` stands for the missing ones. -/
def encode : List UInt8 → List UInt8
  | a :: b :: c :: rest =>
      let group := a.toNat * 2 ^ 16 + b.toNat * 2 ^ 8 + c.toNat
      digit (group / 2 ^ 18) :: digit (group / 2 ^ 12 % 64) ::
        digit (group / 2 ^ 6 % 64) :: digit (group % 64) :: encode rest
  | [a, b] =>
      let group := (a.toNat * 2 ^ 8 + b.toNat) * 2 ^ 2
      [digit (group / 2 ^ 12), digit (group / 2 ^ 6 % 64), digit (group % 64), 61]
  | [a] =>
      let group := a.toNat * 2 ^ 4
      [digit (group / 2 ^ 6), digit (group % 64), 61, 61]
  | [] => []

end UltraNet.Base64
