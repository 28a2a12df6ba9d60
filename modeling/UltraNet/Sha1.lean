/-
The standard hash SHA-1 on strings of bits: padding, blocks of 512 bits, the message
schedule, eighty rounds of each block and the hash of 160 bits.
-/
import Mathlib.Data.BitVec
import Mathlib.Data.List.Basic
import Mathlib.Tactic.Ring

namespace UltraNet

/-- A number in a fixed width, most significant bit first. -/
def bigEndian : Nat → Nat → List Bool
  | 0, _ => []
  | width + 1, value => value.testBit width :: bigEndian width value

def bitsValue (bits : List Bool) : Nat :=
  bits.foldl (fun value bit => 2 * value + bit.toNat) 0

@[simp] theorem length_bigEndian (width value : Nat) :
    (bigEndian width value).length = width := by
  induction width with
  | zero => rfl
  | succ width ih => rw [bigEndian, List.length_cons, ih]

/-- The high digits and the low digits. -/
theorem bigEndian_add (high low value : Nat) :
    bigEndian (high + low) value =
      bigEndian high (value / 2 ^ low) ++ bigEndian low value := by
  induction high with
  | zero => simp [bigEndian]
  | succ high ih =>
      have hsum : high + 1 + low = high + low + 1 := by omega
      rw [hsum, bigEndian, bigEndian, ih, Nat.testBit_div_two_pow, List.cons_append]

theorem bigEndian_mod (width value : Nat) :
    bigEndian width (value % 2 ^ width) = bigEndian width value := by
  have hgeneral : ∀ n, n ≤ width →
      bigEndian n (value % 2 ^ width) = bigEndian n value := by
    intro n hn
    induction n with
    | zero => rfl
    | succ n ih =>
        have hlt : n < width := hn
        rw [bigEndian, bigEndian, ih (by omega), Nat.testBit_mod_two_pow]
        simp [hlt]
  exact hgeneral width (Nat.le_refl width)

theorem bitsValue_append (front back : List Bool) :
    bitsValue (front ++ back) =
      bitsValue front * 2 ^ back.length + bitsValue back := by
  have hfold : ∀ (bits : List Bool) (value : Nat),
      bits.foldl (fun value bit => 2 * value + bit.toNat) value =
        value * 2 ^ bits.length + bitsValue bits := by
    intro bits
    induction bits with
    | nil => simp [bitsValue]
    | cons bit bits ih =>
        intro value
        rw [bitsValue, List.foldl_cons, List.foldl_cons, ih, ih, List.length_cons]
        ring
  rw [bitsValue, List.foldl_append, hfold back]
  rfl

theorem bitsValue_bigEndian (width value : Nat) :
    bitsValue (bigEndian width value) = value % 2 ^ width := by
  induction width with
  | zero => simp [bigEndian, bitsValue, Nat.mod_one]
  | succ width ih =>
      have hcons : bigEndian (width + 1) value =
          [value.testBit width] ++ bigEndian width value := rfl
      have hbit : bitsValue [value.testBit width] = value / 2 ^ width % 2 := by
        rw [Nat.testBit_eq_decide_div_mod_eq]
        obtain hzero | hone := Nat.mod_two_eq_zero_or_one (value / 2 ^ width)
        · rw [hzero]
          rfl
        · rw [hone]
          rfl
      rw [hcons, bitsValue_append, ih, length_bigEndian, hbit, Nat.mod_pow_succ]
      ring

/-- The bits of a string of bytes. -/
def octetBits (bytes : List UInt8) : List Bool :=
  bytes.flatMap fun byte => bigEndian 8 byte.toNat

/-- The bytes of a string of bits. -/
def octets (bits : List Bool) : List UInt8 :=
  (List.range (bits.length / 8)).map fun i =>
    UInt8.ofNat (bitsValue ((bits.drop (8 * i)).take 8))

theorem octetBits_append (front back : List UInt8) :
    octetBits (front ++ back) = octetBits front ++ octetBits back :=
  List.flatMap_append

theorem octetBits_cons (byte : UInt8) (bytes : List UInt8) :
    octetBits (byte :: bytes) = bigEndian 8 byte.toNat ++ octetBits bytes :=
  List.flatMap_cons

@[simp] theorem length_octetBits (bytes : List UInt8) :
    (octetBits bytes).length = 8 * bytes.length := by
  induction bytes with
  | nil => rfl
  | cons byte bytes ih =>
      rw [octetBits_cons, List.length_append, ih, length_bigEndian, List.length_cons]
      omega

theorem octetBits_drop (bytes : List UInt8) (n : Nat) :
    (octetBits bytes).drop (8 * n) = octetBits (bytes.drop n) := by
  induction n generalizing bytes with
  | zero => rfl
  | succ n ih =>
      cases bytes with
      | nil => rfl
      | cons byte bytes =>
          have hsize : 8 * (n + 1) = (bigEndian 8 byte.toNat).length + 8 * n := by
            rw [length_bigEndian]
            omega
          rw [octetBits_cons, hsize, List.drop_length_add_append, ih,
            List.drop_succ_cons]

theorem octetBits_take (bytes : List UInt8) (n : Nat) :
    (octetBits bytes).take (8 * n) = octetBits (bytes.take n) := by
  have hboth : octetBits bytes =
      octetBits (bytes.take n) ++ octetBits (bytes.drop n) := by
    rw [← octetBits_append, List.take_append_drop]
  have hsplit := List.take_append_drop (8 * n) (octetBits bytes)
  rw [octetBits_drop, hboth] at hsplit
  rw [hboth]
  exact List.append_cancel_right hsplit

theorem octets_octetBits (bytes : List UInt8) : octets
    (octetBits bytes) = bytes := by
  have hcount : (octetBits bytes).length / 8 = bytes.length := by
    rw [length_octetBits]
    omega
  rw [octets, hcount]
  refine List.ext_getElem (by simp) fun i hleft hright => ?_
  have hdrop : bytes.drop i = bytes[i] :: bytes.drop (i + 1) :=
    List.drop_eq_getElem_cons hright
  have htake : ((octetBits bytes).drop (8 * i)).take 8 =
      bigEndian 8 bytes[i].toNat := by
    rw [octetBits_drop, hdrop, octetBits_cons,
      List.take_left' (length_bigEndian 8 _)]
  simp only [List.getElem_map, List.getElem_range]
  rw [htake, bitsValue_bigEndian, Nat.mod_eq_of_lt bytes[i].toNat_lt,
    UInt8.ofNat_toNat]

namespace Sha1

abbrev Word := BitVec 32

/-- `f_t`: Ch, Parity, Maj and Parity. -/
def logical (t : Nat) (x y z : Word) : Word :=
  if t < 20 then (x &&& y) ^^^ (~~~x &&& z)
  else if t < 40 then x ^^^ y ^^^ z
  else if t < 60 then (x &&& y) ^^^ (x &&& z) ^^^ (y &&& z)
  else x ^^^ y ^^^ z

/-- `K_t`. -/
def constant (t : Nat) : Word :=
  if t < 20 then 0x5a827999
  else if t < 40 then 0x6ed9eba1
  else if t < 60 then 0x8f1bbcdc
  else 0xca62c1d6

def rotl (n : Nat) (x : Word) : Word := x <<< n ||| x >>> (32 - n)

/-- The number `k` of zero bits: the message, a bit and `k` more end 64 bits
before a multiple of 512. -/
def zeroBits (length : Nat) : Nat := (447 + 512 - length % 512) % 512

theorem zeroBits_unique {length k : Nat} (hk : (length + 1 + k) % 512 = 448)
    (hsmall : k < 512) : zeroBits length = k := by
  unfold zeroBits
  omega

def pad (message : List Bool) : List Bool :=
  message ++ [true] ++ List.replicate (zeroBits message.length) false ++
    bigEndian 64 message.length

/-- The `i`-th block of 512 bits. -/
def block (bits : List Bool) (i : Nat) : List Bool := (bits.drop (512 * i)).take 512

/-- The `t`-th word of a block. -/
def word (block : List Bool) (t : Nat) : Word :=
  BitVec.ofNat 32 (bitsValue ((block.drop (32 * t)).take 32))

/-- `W_t`. -/
def schedule (block : List Bool) (t : Nat) : Word :=
  if t < 16 then word block t
  else rotl 1 (schedule block (t - 3) ^^^ schedule block (t - 8) ^^^
    schedule block (t - 14) ^^^ schedule block (t - 16))
termination_by t

/-- The working variables, and the words of the hash value. -/
structure Words where
  a : Word
  b : Word
  c : Word
  d : Word
  e : Word

def initial : Words :=
  ⟨0x67452301, 0xefcdab89, 0x98badcfe, 0x10325476, 0xc3d2e1f0⟩

def round (block : List Bool) (v : Words) (t : Nat) : Words :=
  ⟨rotl 5 v.a + logical t v.b v.c v.d + v.e + constant t + schedule block t,
    v.a, rotl 30 v.b, v.c, v.d⟩

def compress (hash : Words) (block : List Bool) : Words :=
  let v := (List.range 80).foldl (round block) hash
  ⟨hash.a + v.a, hash.b + v.b, hash.c + v.c, hash.d + v.d, hash.e + v.e⟩

def Words.bits (hash : Words) : List Bool :=
  bigEndian 32 hash.a.toNat ++ bigEndian 32 hash.b.toNat ++
    bigEndian 32 hash.c.toNat ++ bigEndian 32 hash.d.toNat ++
    bigEndian 32 hash.e.toNat

/-- The message digest. -/
def digest (message : List Bool) : List Bool :=
  let padded := pad message
  ((List.range (padded.length / 512)).foldl
    (fun hash i => compress hash (block padded i)) initial).bits

end Sha1

end UltraNet
