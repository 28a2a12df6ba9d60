/-
The value of `Sec-WebSocket-Accept`: `sha1`, `base64_encode` and `ws_accept_key`
of `websocket.hpp`, and that they are the functions of the standards.
-/
import UltraNet.Base64
import UltraNet.Serialization
import UltraNet.Sha1
import Mathlib.Data.List.GetD

namespace UltraNet

/-- The loop that appends zero bytes, up to eight bytes before the end of a block
of 64. -/
def padZeros (buf : List UInt8) : List UInt8 :=
  if (buf.length + 8) % 64 ≠ 0 then padZeros (buf ++ [0]) else buf
termination_by (64 - (buf.length + 8) % 64) % 64
decreasing_by
  simp only [List.length_append, List.length_singleton]
  omega

/-- `bit_len`, the highest byte first. -/
def bitLenBytes (bitLen : UInt64) : List UInt8 :=
  ([7, 6, 5, 4, 3, 2, 1, 0] : List UInt64).map fun i => (bitLen >>> (i * 8)).toUInt8

/-- The message with its padding. -/
def sha1Buffer (input : List UInt8) : List UInt8 :=
  padZeros (input ++ [0x80]) ++ bitLenBytes (UInt64.ofNat input.length * 8)

/-- The word `w[j]` of the block at `i`. -/
def sha1Word (buf : List UInt8) (i j : Nat) : UInt32 :=
  (buf.getD (i + j * 4) 0).toUInt32 <<< 24 |||
    (buf.getD (i + j * 4 + 1) 0).toUInt32 <<< 16 |||
    (buf.getD (i + j * 4 + 2) 0).toUInt32 <<< 8 |||
    (buf.getD (i + j * 4 + 3) 0).toUInt32

/-- The word `w[j]` behind the first sixteen. -/
def sha1Extend (w : List UInt32) (j : Nat) : List UInt32 :=
  let t := w.getD (j - 3) 0 ^^^ w.getD (j - 8) 0 ^^^ w.getD (j - 14) 0 ^^^
    w.getD (j - 16) 0
  w ++ [t <<< 1 ||| t >>> 31]

def sha1Words (buf : List UInt8) (i : Nat) : List UInt32 :=
  (List.range' 16 64).foldl sha1Extend ((List.range 16).map (sha1Word buf i))

/-- The variables `a` to `e`, and the words `h`. -/
structure Sha1State where
  a : UInt32
  b : UInt32
  c : UInt32
  d : UInt32
  e : UInt32

def sha1Round (w : List UInt32) (s : Sha1State) (j : Nat) : Sha1State :=
  let (f, k) : UInt32 × UInt32 :=
    if j < 20 then (s.b &&& s.c ||| ~~~s.b &&& s.d, 0x5A827999)
    else if j < 40 then (s.b ^^^ s.c ^^^ s.d, 0x6ED9EBA1)
    else if j < 60 then
      (s.b &&& s.c ||| s.b &&& s.d ||| s.c &&& s.d, 0x8F1BBCDC)
    else (s.b ^^^ s.c ^^^ s.d, 0xCA62C1D6)
  let t := (s.a <<< 5 ||| s.a >>> 27) + f + s.e + k + w.getD j 0
  ⟨t, s.a, s.b <<< 30 ||| s.b >>> 2, s.c, s.d⟩

/-- One turn of the loop over the blocks. -/
def sha1Block (buf : List UInt8) (h : Sha1State) (i : Nat) : Sha1State :=
  let s := (List.range 80).foldl (sha1Round (sha1Words buf (64 * i))) h
  ⟨h.a + s.a, h.b + s.b, h.c + s.c, h.d + s.d, h.e + s.e⟩

def wordResult (h : UInt32) : List UInt8 :=
  ([3, 2, 1, 0] : List UInt32).map fun j => (h >>> (j * 8) &&& 0xFF).toUInt8

def sha1 (input : List UInt8) : List UInt8 :=
  let buf := sha1Buffer input
  let h := (List.range (buf.length / 64)).foldl (sha1Block buf)
    ⟨0x67452301, 0xEFCDAB89, 0x98BADCFE, 0x10325476, 0xC3D2E1F0⟩
  wordResult h.a ++ wordResult h.b ++ wordResult h.c ++ wordResult h.d ++
    wordResult h.e

/-- An `int` after a shift to the left: bits above the 32 are lost. -/
def wrapInt (n : Int) : Int := n.bmod (2 ^ 32)

def base64Char (value : Int) : UInt8 :=
  (ascii "ABCDEFGHIJKLMNOPQRSTUVWXYZabcdefghijklmnopqrstuvwxyz0123456789+/").getD
    (value % 64).toNat 0

/-- The loop over the digits that are complete. -/
def base64Digits (val valb : Int) (out : List UInt8) : List UInt8 × Int :=
  if 0 ≤ valb then
    base64Digits val (valb - 6) (out ++ [base64Char (val >>> valb.toNat)])
  else (out, valb)
termination_by (valb + 6).toNat
decreasing_by omega

structure Base64State where
  out : List UInt8
  val : Int
  valb : Int

def base64Step (s : Base64State) (c : UInt8) : Base64State :=
  let val := wrapInt (s.val * 2 ^ 8) + c.toNat
  let (out, valb) := base64Digits val (s.valb + 8) s.out
  ⟨out, val, valb⟩

/-- The loop that appends `=`. -/
def padEquals (out : List UInt8) : List UInt8 :=
  if out.length % 4 ≠ 0 then padEquals (out ++ [61]) else out
termination_by (4 - out.length % 4) % 4
decreasing_by
  simp only [List.length_append, List.length_singleton]
  omega

def base64Finish (s : Base64State) : List UInt8 :=
  padEquals (if -6 < s.valb then
    s.out ++ [base64Char (wrapInt (s.val * 2 ^ 8) >>> (s.valb + 8).toNat)]
  else s.out)

def base64Encode (input : List UInt8) : List UInt8 :=
  base64Finish (input.foldl base64Step ⟨[], 0, -6⟩)

def acceptGuid : List UInt8 := ascii "258EAFA5-E914-47DA-95CA-C5AB0DC85B11"

def wsAcceptKey (key : List UInt8) : List UInt8 :=
  base64Encode (sha1 (key ++ acceptGuid))

section Base64

variable {out : List UInt8} {val : Int}

/-- Wrapping keeps the low bits. -/
theorem wrapInt_emod (n : Int) : wrapInt n % 2 ^ 32 = n % 2 ^ 32 :=
  Int.bmod_emod

theorem base64Char_shift (value : Int) (shift : Nat) :
    base64Char (value >>> shift) = Base64.digit (value / 2 ^ shift % 64).toNat := by
  rw [base64Char, Int.shiftRight_eq_div_pow]
  rfl

/-- The first byte of a group completes one digit and leaves two bits. -/
theorem base64Step_first (a : UInt8) :
    ∃ val', base64Step ⟨out, val, -6⟩ a =
        ⟨out ++ [Base64.digit (a.toNat / 2 ^ 2)], val', -4⟩ ∧
      val' % 2 ^ 8 = a.toNat := by
  have hbyte := a.toNat_lt
  have hwrap := wrapInt_emod (val * 2 ^ 8)
  have hmod : (wrapInt (val * 2 ^ 8) + a.toNat) % 2 ^ 8 = a.toNat := by omega
  have hdigit : ((wrapInt (val * 2 ^ 8) + a.toNat) / 2 ^ 2 % 64).toNat =
      a.toNat / 2 ^ 2 := by
    omega
  refine ⟨_, ?_, hmod⟩
  have hloop : base64Digits (wrapInt (val * 2 ^ 8) + a.toNat) (-6 + 8) out =
      (out ++ [Base64.digit (a.toNat / 2 ^ 2)], -4) := by
    rw [base64Digits, if_pos (by decide), base64Digits, if_neg (by decide),
      base64Char_shift, ← hdigit]
    rfl
  rw [base64Step, hloop]

/-- The second byte completes one digit and leaves four bits. -/
theorem base64Step_second {a : Nat} (b : UInt8) (hval : val % 2 ^ 8 = a) :
    ∃ val', base64Step ⟨out, val, -4⟩ b =
        ⟨out ++ [Base64.digit ((a * 2 ^ 8 + b.toNat) / 2 ^ 4 % 64)], val', -2⟩ ∧
      val' % 2 ^ 16 = (a * 2 ^ 8 + b.toNat : Nat) := by
  have hbyte := b.toNat_lt
  have hwrap := wrapInt_emod (val * 2 ^ 8)
  have hmod : (wrapInt (val * 2 ^ 8) + b.toNat) % 2 ^ 16 =
      (a * 2 ^ 8 + b.toNat : Nat) := by
    omega
  have hdigit : ((wrapInt (val * 2 ^ 8) + b.toNat) / 2 ^ 4 % 64).toNat =
      (a * 2 ^ 8 + b.toNat) / 2 ^ 4 % 64 := by
    omega
  refine ⟨_, ?_, hmod⟩
  have hloop : base64Digits (wrapInt (val * 2 ^ 8) + b.toNat) (-4 + 8) out =
      (out ++ [Base64.digit ((a * 2 ^ 8 + b.toNat) / 2 ^ 4 % 64)], -2) := by
    rw [base64Digits, if_pos (by decide), base64Digits, if_neg (by decide),
      base64Char_shift, ← hdigit]
    rfl
  rw [base64Step, hloop]

/-- The third byte completes two digits. -/
theorem base64Step_third {ab : Nat} (c : UInt8) (hval : val % 2 ^ 16 = ab) :
    ∃ val', base64Step ⟨out, val, -2⟩ c =
      ⟨out ++ [Base64.digit ((ab * 2 ^ 8 + c.toNat) / 2 ^ 6 % 64),
        Base64.digit ((ab * 2 ^ 8 + c.toNat) % 64)], val', -6⟩ := by
  have hbyte := c.toNat_lt
  have hwrap := wrapInt_emod (val * 2 ^ 8)
  have hhigh : ((wrapInt (val * 2 ^ 8) + c.toNat) / 2 ^ 6 % 64).toNat =
      (ab * 2 ^ 8 + c.toNat) / 2 ^ 6 % 64 := by
    omega
  have hlow : ((wrapInt (val * 2 ^ 8) + c.toNat) / 2 ^ 0 % 64).toNat =
      (ab * 2 ^ 8 + c.toNat) % 64 := by
    omega
  have hloop : base64Digits (wrapInt (val * 2 ^ 8) + c.toNat) (-2 + 8) out =
      (out ++ [Base64.digit ((ab * 2 ^ 8 + c.toNat) / 2 ^ 6 % 64),
        Base64.digit ((ab * 2 ^ 8 + c.toNat) % 64)], -6) := by
    rw [base64Digits, if_pos (by decide), base64Digits, if_pos (by decide),
      base64Digits, if_neg (by decide), base64Char_shift, base64Char_shift, ← hhigh,
      ← hlow, List.append_assoc]
    rfl
  exact ⟨_, by rw [base64Step, hloop]⟩

theorem padEquals_whole (hout : out.length % 4 = 0) : padEquals out = out := by
  rw [padEquals, if_neg (not_not.mpr hout)]

theorem padEquals_three (x y z : UInt8) : padEquals [x, y, z] = [x, y, z, 61] := by
  rw [padEquals, if_pos (by simp), padEquals_whole (by simp)]
  rfl

theorem padEquals_two (x y : UInt8) : padEquals [x, y] = [x, y, 61, 61] := by
  rw [padEquals, if_pos (by simp)]
  exact padEquals_three x y 61

theorem padEquals_append (hout : out.length % 4 = 0) (digits : List UInt8) :
    padEquals (out ++ digits) = out ++ padEquals digits := by
  fun_induction padEquals digits with
  | case1 digits hmore ih =>
      have hlength : (out ++ digits).length % 4 ≠ 0 := by
        rw [List.length_append]
        omega
      rw [padEquals, if_pos hlength, List.append_assoc, ih]
  | case2 digits hwhole =>
      have hlength : (out ++ digits).length % 4 = 0 := by
        rw [List.length_append]
        omega
      exact padEquals_whole hlength

/-- The encoder on groups of three bytes; `out` holds whole groups. -/
theorem base64Loop_eq (input : List UInt8) (hout : out.length % 4 = 0) :
    base64Finish (input.foldl base64Step ⟨out, val, -6⟩) =
      out ++ Base64.encode input := by
  induction input using Base64.encode.induct generalizing out val with
  | case1 a b c rest ih =>
      obtain ⟨val₁, hfirst, hval₁⟩ := @base64Step_first out val a
      obtain ⟨val₂, hsecond, hval₂⟩ := base64Step_second b hval₁
      obtain ⟨val₃, hthird⟩ := base64Step_third c hval₂
      have ha := a.toNat_lt
      have hb := b.toNat_lt
      have hc := c.toNat_lt
      have hone : (a.toNat * 2 ^ 16 + b.toNat * 2 ^ 8 + c.toNat) / 2 ^ 18 =
          a.toNat / 2 ^ 2 := by
        omega
      have htwo : (a.toNat * 2 ^ 16 + b.toNat * 2 ^ 8 + c.toNat) / 2 ^ 12 % 64 =
          (a.toNat * 2 ^ 8 + b.toNat) / 2 ^ 4 % 64 := by
        omega
      have hthree : a.toNat * 2 ^ 16 + b.toNat * 2 ^ 8 + c.toNat =
          (a.toNat * 2 ^ 8 + b.toNat) * 2 ^ 8 + c.toNat := by
        omega
      rw [List.foldl_cons, List.foldl_cons, List.foldl_cons, hfirst, hsecond, hthird,
        ih (by simp; omega), Base64.encode]
      simp only [hone, htwo, List.append_assoc, List.cons_append, List.nil_append]
      rw [hthree]
  | case2 a b =>
      obtain ⟨val₁, hfirst, hval₁⟩ := @base64Step_first out val a
      obtain ⟨val₂, hsecond, hval₂⟩ := base64Step_second b hval₁
      have ha := a.toNat_lt
      have hb := b.toNat_lt
      have hwrap := wrapInt_emod (val₂ * 2 ^ 8)
      have hlast : (wrapInt (val₂ * 2 ^ 8) / 2 ^ 6 % 64).toNat =
          (a.toNat * 2 ^ 8 + b.toNat) * 2 ^ 2 % 64 := by
        omega
      have hone : (a.toNat * 2 ^ 8 + b.toNat) * 2 ^ 2 / 2 ^ 12 =
          a.toNat / 2 ^ 2 := by
        omega
      have htwo : (a.toNat * 2 ^ 8 + b.toNat) * 2 ^ 2 / 2 ^ 6 % 64 =
          (a.toNat * 2 ^ 8 + b.toNat) / 2 ^ 4 % 64 := by
        omega
      have hvalb : (-6 : Int) < -2 := by decide
      rw [List.foldl_cons, List.foldl_cons, List.foldl_nil, hfirst, hsecond,
        base64Finish]
      simp only [hvalb, if_true, List.append_assoc]
      rw [padEquals_append hout, Base64.encode, hone, htwo, ← hlast,
        ← base64Char_shift]
      exact congrArg (out ++ ·) (padEquals_three _ _ _)
  | case3 a =>
      obtain ⟨val₁, hfirst, hval₁⟩ := @base64Step_first out val a
      have ha := a.toNat_lt
      have hwrap := wrapInt_emod (val₁ * 2 ^ 8)
      have hlast : (wrapInt (val₁ * 2 ^ 8) / 2 ^ 4 % 64).toNat =
          a.toNat * 2 ^ 4 % 64 := by
        omega
      have hone : a.toNat * 2 ^ 4 / 2 ^ 6 = a.toNat / 2 ^ 2 := by omega
      have hvalb : (-6 : Int) < -4 := by decide
      rw [List.foldl_cons, List.foldl_nil, hfirst, base64Finish]
      simp only [hvalb, if_true, List.append_assoc]
      rw [padEquals_append hout, Base64.encode, hone, ← hlast, ← base64Char_shift]
      exact congrArg (out ++ ·) (padEquals_two _ _)
  | case4 =>
      have hvalb : ¬ (-6 : Int) < -6 := by decide
      rw [List.foldl_nil, base64Finish]
      simp only [hvalb, if_false]
      rw [padEquals_whole hout, Base64.encode, List.append_nil]

end Base64

theorem base64Encode_eq (input : List UInt8) :
    base64Encode input = Base64.encode input :=
  base64Loop_eq input rfl

theorem octetBits_beBytes (width value : Nat) :
    octetBits (beBytes width value) = bigEndian (8 * width) value := by
  induction width generalizing value with
  | zero => rfl
  | succ width ih =>
      have hbytes : beBytes (width + 1) value =
          beBytes width (value / 2 ^ 8) ++ [UInt8.ofNat value] := by
        rw [beBytes, leBytes, List.reverse_cons]
        rfl
      have hlast : octetBits [UInt8.ofNat value] = bigEndian 8 value := by
        rw [octetBits_cons, UInt8.toNat_ofNat', bigEndian_mod]
        exact List.append_nil _
      have hwidth : 8 * (width + 1) = 8 * width + 8 := by omega
      rw [hbytes, octetBits_append, ih, hlast, hwidth, bigEndian_add]

theorem bitLenBytes_eq (bitLen : UInt64) :
    bitLenBytes bitLen = beBytes 8 bitLen.toNat := by
  simp [bitLenBytes, beBytes, leBytes, ← UInt8.toNat_inj, Nat.shiftRight_eq_div_pow,
    Nat.div_div_eq_div_mul]

theorem wordResult_eq (h : UInt32) : wordResult h = beBytes 4 h.toNat := by
  have hlow : ∀ n : Nat, n &&& 255 = n % 256 :=
    fun n => Nat.and_two_pow_sub_one_eq_mod n 8
  simp [wordResult, beBytes, leBytes, ← UInt8.toNat_inj, Nat.shiftRight_eq_div_pow,
    Nat.div_div_eq_div_mul, hlow]

theorem padZeros_eq (buf : List UInt8) :
    padZeros buf = buf ++ List.replicate ((64 - (buf.length + 8) % 64) % 64) 0 := by
  fun_induction padZeros buf with
  | case1 buf hmore ih =>
      have hcount : (64 - (buf.length + 8) % 64) % 64 =
          1 + (64 - ((buf ++ [0]).length + 8) % 64) % 64 := by
        rw [List.length_append, List.length_singleton]
        omega
      rw [ih, hcount, List.replicate_add, List.append_assoc]
      rfl
  | case2 buf hwhole =>
      have hcount : (64 - (buf.length + 8) % 64) % 64 = 0 := by omega
      rw [hcount, List.replicate_zero, List.append_nil]

theorem octetBits_zeros (count : Nat) :
    octetBits (List.replicate count 0) = List.replicate (8 * count) false := by
  induction count with
  | zero => rfl
  | succ count ih =>
      have hzero : bigEndian 8 (0 : UInt8).toNat =
          List.replicate 8 false := by decide
      have hcount : 8 * (count + 1) = 8 + 8 * count := by omega
      rw [List.replicate_succ, octetBits_cons, ih, hzero, hcount, List.replicate_add]

/-- The buffer is the padded message, whatever the length modulo 64. -/
theorem octetBits_sha1Buffer {input : List UInt8} (hlength : input.length < 2 ^ 61) :
    octetBits (sha1Buffer input) = Sha1.pad (octetBits input) := by
  have hbit : bigEndian 8 (0x80 : UInt8).toNat =
      [true] ++ List.replicate 7 false := by
    decide
  have hsize : (UInt64.ofNat input.length * 8).toNat = (octetBits input).length := by
    rw [UInt64.toNat_mul, UInt64.toNat_ofNat', length_octetBits]
    have height : (8 : UInt64).toNat = 8 := rfl
    rw [height]
    omega
  have hzeros : Sha1.zeroBits (octetBits input).length =
      7 + 8 * ((64 - ((input ++ [0x80]).length + 8) % 64) % 64) := by
    refine Sha1.zeroBits_unique ?_ ?_
    all_goals
      rw [length_octetBits] at *
      rw [List.length_append, List.length_singleton]
      omega
  rw [sha1Buffer, padZeros_eq, octetBits_append, octetBits_append, octetBits_append,
    octetBits_cons, bitLenBytes_eq, octetBits_beBytes, hsize, octetBits_zeros, hbit,
    Sha1.pad, hzeros, List.replicate_add]
  simp [octetBits]

theorem bitsValue_octetBits (bytes : List UInt8) :
    bitsValue (octetBits bytes) = beNat bytes := by
  have hbytes : bytes = beBytes bytes.length (beNat bytes) := by
    have hreverse := leBytes_leNat bytes.reverse
    rw [List.length_reverse] at hreverse
    rw [beBytes, beNat, hreverse, List.reverse_reverse]
  have hlt := leNat_lt bytes.reverse
  rw [List.length_reverse] at hlt
  have hpow : 2 ^ (8 * bytes.length) = 256 ^ bytes.length := by
    rw [Nat.pow_mul]
  conv_lhs => rw [hbytes]
  rw [octetBits_beBytes, bitsValue_bigEndian, hpow]
  exact Nat.mod_eq_of_lt hlt

/-- The four bytes of a word, joined by shifts. -/
theorem word_eq (b₀ b₁ b₂ b₃ : UInt8) :
    (b₀.toUInt32 <<< 24 ||| b₁.toUInt32 <<< 16 ||| b₂.toUInt32 <<< 8 |||
      b₃.toUInt32).toNat = beNat [b₀, b₁, b₂, b₃] := by
  have h₀ := b₀.toNat_lt
  have h₁ := b₁.toNat_lt
  have h₂ := b₂.toNat_lt
  have h₃ := b₃.toNat_lt
  have hshift : ∀ (b : UInt8) (n : UInt32), n.toNat ≤ 24 →
      (b.toUInt32 <<< n).toNat = b.toNat * 2 ^ n.toNat := by
    intro b n hn
    have hsmall : b.toNat * 2 ^ n.toNat < 2 ^ 32 := by
      calc b.toNat * 2 ^ n.toNat
          < 2 ^ 8 * 2 ^ n.toNat := 
            Nat.mul_lt_mul_of_pos_right b.toNat_lt (Nat.two_pow_pos _)
        _ ≤ 2 ^ 8 * 2 ^ 24 := Nat.mul_le_mul_left _
          (Nat.pow_le_pow_right (by decide) hn)
        _ = 2 ^ 32 := by decide
    have hmod : n.toNat % 32 = n.toNat := Nat.mod_eq_of_lt (by omega)
    rw [UInt32.toNat_shiftLeft, UInt8.toNat_toUInt32, hmod, Nat.shiftLeft_eq,
      Nat.mod_eq_of_lt hsmall]
  have hor : ∀ high low n : Nat, low < 2 ^ n →
      high * 2 ^ n ||| low = high * 2 ^ n + low := by
    intro high low n hlow
    rw [Nat.mul_comm, Nat.two_pow_add_eq_or_of_lt hlow]
  have hfirst := hor b₀.toNat (b₁.toNat * 2 ^ 16) 24 (by omega)
  have hsecond := hor (b₀.toNat * 2 ^ 8 + b₁.toNat) (b₂.toNat * 2 ^ 8) 16 (by omega)
  have hthird := hor (b₀.toNat * 2 ^ 16 + b₁.toNat * 2 ^ 8 + b₂.toNat) b₃.toNat 8
    (by omega)
  have hhigh : b₀.toNat * 2 ^ 24 + b₁.toNat * 2 ^ 16 =
      (b₀.toNat * 2 ^ 8 + b₁.toNat) * 2 ^ 16 := by
    ring
  have hmiddle : (b₀.toNat * 2 ^ 8 + b₁.toNat) * 2 ^ 16 + b₂.toNat * 2 ^ 8 =
      (b₀.toNat * 2 ^ 16 + b₁.toNat * 2 ^ 8 + b₂.toNat) * 2 ^ 8 := by
    ring
  have htwentyfour : (24 : UInt32).toNat = 24 := rfl
  have hsixteen : (16 : UInt32).toNat = 16 := rfl
  have height : (8 : UInt32).toNat = 8 := rfl
  rw [UInt32.toNat_or, UInt32.toNat_or, UInt32.toNat_or, hshift b₀ 24 (by decide),
    hshift b₁ 16 (by decide), hshift b₂ 8 (by decide), htwentyfour, hsixteen, height,
    UInt8.toNat_toUInt32, hfirst, hhigh, hsecond, hmiddle, hthird]
  simp only [beNat, List.reverse_cons, List.reverse_nil, List.nil_append,
    List.cons_append, leNat]
  ring

theorem take_four {bytes : List UInt8} {k : Nat} (hk : k + 4 ≤ bytes.length) :
    (bytes.drop k).take 4 = [bytes.getD k 0, bytes.getD (k + 1) 0,
      bytes.getD (k + 2) 0, bytes.getD (k + 3) 0] := by
  rw [List.drop_eq_getElem_cons (by omega), List.drop_eq_getElem_cons (by omega),
    List.drop_eq_getElem_cons (by omega), List.drop_eq_getElem_cons (by omega),
    List.getD_eq_getElem _ _ (by omega), List.getD_eq_getElem _ _ (by omega),
    List.getD_eq_getElem _ _ (by omega), List.getD_eq_getElem _ _ (by omega)]
  rfl

section Block

variable {buf : List UInt8} {n : Nat}

/-- The first sixteen words of a block. -/
theorem sha1Word_eq (hblock : 64 * n + 64 ≤ buf.length) {j : Nat} (hj : j < 16) :
    (sha1Word buf (64 * n) j).toBitVec =
      Sha1.word (Sha1.block (octetBits buf) n) j := by
  have hbits : ((Sha1.block (octetBits buf) n).drop (32 * j)).take 32 =
      octetBits ((buf.drop (64 * n + j * 4)).take 4) := by
    have hstart : 512 * n = 8 * (64 * n) := by omega
    have hword : 32 * j = 8 * (4 * j) := by omega
    have hrest : min 4 (64 - 4 * j) = 4 := by omega
    have hindex : 64 * n + 4 * j = 64 * n + j * 4 := by omega
    rw [Sha1.block, hstart, octetBits_drop, octetBits_take _ 64, hword,
      octetBits_drop, octetBits_take _ 4, List.drop_take, List.take_take, hrest,
      List.drop_drop, hindex]
  rw [Sha1.word, hbits, take_four (by omega), bitsValue_octetBits, ← word_eq]
  exact (BitVec.ofNat_toNat 32 (sha1Word buf (64 * n) j).toBitVec).symm

theorem rotl_eq (x : UInt32) : (x <<< 1 ||| x >>> 31).toBitVec =
    Sha1.rotl 1 x.toBitVec :=
  rfl

theorem sha1Extend_eq {w : List UInt32} {block : List Bool} {count : Nat}
    (hlength : w.length = 16 + count)
    (hw : ∀ t < 16 + count, (w.getD t 0).toBitVec = Sha1.schedule block t) :
    ∀ t < 16 + (count + 1),
      ((sha1Extend w (16 + count)).getD t 0).toBitVec = Sha1.schedule block t := by
  intro t ht
  by_cases hold : t < 16 + count
  · rw [sha1Extend, List.getD_append _ _ _ _ (by omega), hw t hold]
  · obtain rfl : t = 16 + count := by omega
    have hnew : ((sha1Extend w (16 + count)).getD (16 + count) 0) =
        (w.getD (16 + count - 3) 0 ^^^ w.getD (16 + count - 8) 0 ^^^
          w.getD (16 + count - 14) 0 ^^^ w.getD (16 + count - 16) 0) <<< 1 |||
        (w.getD (16 + count - 3) 0 ^^^ w.getD (16 + count - 8) 0 ^^^
          w.getD (16 + count - 14) 0 ^^^ w.getD (16 + count - 16) 0) >>> 31 := by
      rw [sha1Extend, List.getD_append_right _ _ _ _
        (by omega), hlength, Nat.sub_self]
      rfl
    rw [hnew, rotl_eq, UInt32.toBitVec_xor, UInt32.toBitVec_xor, UInt32.toBitVec_xor,
      hw _ (by omega), hw _ (by omega), hw _ (by omega), hw _ (by omega)]
    conv_rhs => rw [Sha1.schedule, if_neg (by omega)]

theorem sha1Words_eq (hblock : 64 * n + 64 ≤ buf.length) :
    ∀ t < 80, ((sha1Words buf (64 * n)).getD t 0).toBitVec =
      Sha1.schedule (Sha1.block (octetBits buf) n) t := by
  have hcount : ∀ count, ((List.range' 16 count).foldl sha1Extend
        ((List.range 16).map (sha1Word buf (64 * n)))).length = 16 + count ∧
      ∀ t < 16 + count, (((List.range' 16 count).foldl sha1Extend
        ((List.range 16).map (sha1Word buf (64 * n)))).getD t 0).toBitVec =
          Sha1.schedule (Sha1.block (octetBits buf) n) t := by
    intro count
    induction count with
    | zero =>
        refine ⟨by simp, fun t ht => ?_⟩
        have hword : ((List.range 16).map (sha1Word buf (64 * n))).getD t 0 =
            sha1Word buf (64 * n) t := by
          simp [List.getD_eq_getElem?_getD, ht]
        rw [List.range'_zero, List.foldl_nil, hword, sha1Word_eq hblock ht,
          Sha1.schedule, if_pos ht]
    | succ count ih =>
        rw [List.range'_1_concat, List.foldl_append, List.foldl_cons, List.foldl_nil]
        refine ⟨?_, sha1Extend_eq ih.1 ih.2⟩
        rw [sha1Extend, List.length_append, ih.1]
        rfl
  exact (hcount 64).2

theorem foldl_map_eq {A B C : Type} (f : A → C) (g : A → B → A) (g' : C → B → C)
    (items : List B) (hstep : ∀ a, ∀ b ∈ items, f (g a b) = g' (f a) b) (start : A) :
    f (items.foldl g start) = items.foldl g' (f start) := by
  induction items generalizing start with
  | nil => rfl
  | cons item items ih =>
      rw [List.foldl_cons, List.foldl_cons, ← hstep start item List.mem_cons_self]
      exact ih (fun a b hb => hstep a b (List.mem_cons_of_mem _ hb)) _

def Sha1State.words (s : Sha1State) : Sha1.Words :=
  ⟨s.a.toBitVec, s.b.toBitVec, s.c.toBitVec, s.d.toBitVec, s.e.toBitVec⟩

/-- The two terms of `f` have no bit in common. -/
theorem choose_eq (x y z : BitVec 32) :
    (x &&& y ||| ~~~x &&& z) = (x &&& y) ^^^ (~~~x &&& z) := by
  ext i hi
  simp only [BitVec.getElem_or, BitVec.getElem_and, BitVec.getElem_not,
    BitVec.getElem_xor]
  cases x[i] <;> cases y[i] <;> simp

theorem majority_eq (x y z : BitVec 32) :
    (x &&& y ||| x &&& z ||| y &&& z) = (x &&& y) ^^^ (x &&& z) ^^^ (y &&& z) := by
  ext i hi
  simp only [BitVec.getElem_or, BitVec.getElem_and, BitVec.getElem_xor]
  cases x[i] <;> cases y[i] <;> cases z[i] <;> rfl

theorem sha1Round_eq {w : List UInt32} {block : List Bool} {j : Nat}
    (hw : (w.getD j 0).toBitVec = Sha1.schedule block j) (s : Sha1State) :
    (sha1Round w s j).words = Sha1.round block s.words j := by
  have hfive : (s.a <<< 5 ||| s.a >>> 27).toBitVec = Sha1.rotl 5 s.a.toBitVec := rfl
  have hthirty : (s.b <<< 30 ||| s.b >>> 2).toBitVec = Sha1.rotl 30 s.b.toBitVec :=
    rfl
  by_cases htwenty : j < 20
  · simp only [sha1Round, Sha1.round, Sha1State.words, Sha1.logical, Sha1.constant,
      htwenty, if_true, UInt32.toBitVec_add, hfive, hthirty, hw, ← choose_eq]
    rfl
  · by_cases hforty : j < 40
    · simp only [sha1Round, Sha1.round, Sha1State.words, Sha1.logical, Sha1.constant,
        htwenty, hforty, if_true, if_false, UInt32.toBitVec_add, hfive, hthirty, hw]
      rfl
    · by_cases hsixty : j < 60
      · simp only [sha1Round, Sha1.round, Sha1State.words, Sha1.logical,
          Sha1.constant, htwenty, hforty, hsixty, if_true, if_false,
          UInt32.toBitVec_add, hfive, hthirty, hw, ← majority_eq]
        rfl
      · simp only [sha1Round, Sha1.round, Sha1State.words, Sha1.logical,
          Sha1.constant, htwenty, hforty, hsixty, if_false, UInt32.toBitVec_add,
          hfive, hthirty, hw]
        rfl

theorem sha1Block_eq (hblock : 64 * n + 64 ≤ buf.length) (h : Sha1State) :
    (sha1Block buf h n).words =
      Sha1.compress h.words (Sha1.block (octetBits buf) n) := by
  have hrounds := foldl_map_eq Sha1State.words (sha1Round (sha1Words buf (64 * n)))
    (Sha1.round (Sha1.block (octetBits buf) n)) (List.range 80)
    (fun s j hj => sha1Round_eq (sha1Words_eq hblock j (List.mem_range.mp hj)) s) h
  rw [Sha1.compress, ← hrounds]
  rfl

end Block

/-- `sha1` on strings of less than `2^61` bytes, whose bits are counted in 64
bits. -/
theorem sha1_eq {input : List UInt8} (hlength : input.length < 2 ^ 61) :
    octetBits (sha1 input) = Sha1.digest (octetBits input) := by
  have hbuffer := octetBits_sha1Buffer hlength
  have hcount : (Sha1.pad (octetBits input)).length / 512 =
      (sha1Buffer input).length / 64 := by
    rw [← hbuffer, length_octetBits]
    omega
  have hblocks := foldl_map_eq Sha1State.words (sha1Block (sha1Buffer input))
    (fun hash i => Sha1.compress hash (Sha1.block (octetBits (sha1Buffer input)) i))
    (List.range ((sha1Buffer input).length / 64))
    (fun h n hn => sha1Block_eq (by
      have := List.mem_range.mp hn
      omega) h)
    ⟨0x67452301, 0xEFCDAB89, 0x98BADCFE, 0x10325476, 0xC3D2E1F0⟩
  have hinitial : Sha1.initial = Sha1State.words
      ⟨0x67452301, 0xEFCDAB89, 0x98BADCFE, 0x10325476, 0xC3D2E1F0⟩ := rfl
  rw [Sha1.digest, hcount, ← hbuffer, hinitial, ← hblocks, sha1]
  simp only [octetBits_append, wordResult_eq, octetBits_beBytes]
  rfl

set_option maxRecDepth 100000 in
example : sha1 (ascii "abc") =
    [0xA9, 0x99, 0x3E, 0x36, 0x47, 0x06, 0x81, 0x6A, 0xBA, 0x3E, 0x25, 0x71, 0x78,
      0x50, 0xC2, 0x6C, 0x9C, 0xD0, 0xD8, 0x9D] := by
  decide +kernel

/-- The digest of bytes, as bytes. -/
def Sha1.digestOctets (message : List UInt8) : List UInt8 :=
  octets (Sha1.digest (octetBits message))

theorem sha1_eq_digestOctets {input : List UInt8} (hlength : input.length < 2 ^ 61) :
    sha1 input = Sha1.digestOctets input := by
  rw [Sha1.digestOctets, ← sha1_eq hlength, octets_octetBits]

/-- The GUID of the protocol, not read off the code. -/
def protocolGuid : List UInt8 :=
  [0x32, 0x35, 0x38, 0x45, 0x41, 0x46, 0x41, 0x35, 0x2D, 0x45, 0x39, 0x31, 0x34, 0x2D, 0x34,
    0x37, 0x44, 0x41, 0x2D, 0x39, 0x35, 0x43, 0x41, 0x2D, 0x43, 0x35, 0x41, 0x42, 0x30, 0x44,
    0x43, 0x38, 0x35, 0x42, 0x31, 0x31]

/-- The value that RFC 6455 asks for. -/
def acceptValue (key : List UInt8) : List UInt8 :=
  Base64.encode (Sha1.digestOctets (key ++ protocolGuid))

/-- `ws_accept_key` and its parts are what the standards say. -/
theorem ws_accept_key_standard {key : List UInt8} (hkey : key.length < 2 ^ 60) :
    octetBits (sha1 key) = Sha1.digest (octetBits key) ∧
    (∀ input, base64Encode input = Base64.encode input) ∧
    wsAcceptKey key = acceptValue key := by
  have hguid : acceptGuid = protocolGuid := by decide
  have hsize : protocolGuid.length = 36 := by decide
  refine ⟨sha1_eq (by omega), base64Encode_eq, ?_⟩
  rw [wsAcceptKey, base64Encode_eq, hguid, sha1_eq_digestOctets, acceptValue]
  rw [List.length_append, hsize]
  omega

/-- The sample key of RFC 6455, and its answer. -/
def sampleKey : List UInt8 := ascii "dGhlIHNhbXBsZSBub25jZQ=="

def sampleAccept : List UInt8 := ascii "s3pPLMBiTxaQ9kYGzzhZRbK+xOo="

theorem wsAcceptKey_sampleKey : wsAcceptKey sampleKey = sampleAccept := by
  decide +kernel

theorem ws_accept_key_sampleKey : acceptValue sampleKey = sampleAccept := by
  have hstandard : wsAcceptKey sampleKey = acceptValue sampleKey :=
    (ws_accept_key_standard (by decide)).2.2
  rw [← hstandard]
  exact wsAcceptKey_sampleKey

end UltraNet
