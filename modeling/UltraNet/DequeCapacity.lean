/-
How many slots a work-stealing deque has: the rounding to a power of two on the sizes
of 64 bits, the mask of a ring, and what the allocator gives.
-/
import Mathlib.Data.Nat.Bitwise

namespace UltraNet

/-- What the memory allocator does for an array of so many elements.  None has
`2 ^ 63` bytes. -/
structure ArrayHeap where
  allocates : Nat → Bool
  zero : allocates 0 = true
  bounded : ∀ n, allocates n = true → n < 2 ^ 63

/-- Every array that there can be is given. -/
def ArrayHeap.largest : ArrayHeap where
  allocates n := n < 2 ^ 63
  zero := by decide
  bounded n hn := of_decide_eq_true hn

namespace WorkStealingQueue

def minCapacity : Nat := 8

/-- All bits below the highest one are set. -/
def fillBits (n : Nat) : Nat :=
  let n := n ||| n >>> 1
  let n := n ||| n >>> 2
  let n := n ||| n >>> 4
  let n := n ||| n >>> 8
  let n := n ||| n >>> 16
  n ||| n >>> 32

def roundUpToPowerOfTwo (n : Nat) : Nat :=
  if n = 0 then 1 else (fillBits (n - 1) + 1) % 2 ^ 64

/-- `capacity - 1` as a `size_t`, which takes indices modulo a power of two. -/
def slotMask (capacity : Nat) : Nat := (capacity + (2 ^ 64 - 1)) % 2 ^ 64

theorem slotMask_eq {capacity : Nat} (hpos : 0 < capacity) (hlt : capacity < 2 ^ 63) :
    slotMask capacity = capacity - 1 := by
  unfold slotMask
  omega

theorem and_slotMask {capacity k : Nat} (hpower : capacity = 2 ^ k) (hlt : capacity < 2 ^ 63)
    (index : Nat) : index &&& slotMask capacity = index % capacity := by
  have hpos : 0 < capacity := by
    rw [hpower]
    exact Nat.two_pow_pos k
  rw [slotMask_eq hpos hlt, hpower, Nat.and_two_pow_sub_one_eq_mod]

/-- A bit of the second number is set if one of the next ones of the first is. -/
def Spread (n : Nat) (width : Nat) (filled : Nat) : Prop :=
  ∀ i, filled.testBit i = true ↔ ∃ d < width, n.testBit (i + d) = true

theorem Spread.double {n width filled : Nat} (hspread : Spread n width filled) :
    Spread n (width + width) (filled ||| filled >>> width) := by
  intro i
  rw [Nat.testBit_or, Nat.testBit_shiftRight, Bool.or_eq_true, hspread i,
    hspread (width + i)]
  constructor
  · rintro (⟨d, hd, hbit⟩ | ⟨d, hd, hbit⟩)
    · exact ⟨d, by omega, hbit⟩
    · exact ⟨width + d, by omega, by rwa [← Nat.add_assoc, Nat.add_comm i width]⟩
  · rintro ⟨d, hd, hbit⟩
    by_cases hnear : d < width
    · exact .inl ⟨d, hnear, hbit⟩
    · refine .inr ⟨d - width, by omega, ?_⟩
      have hsame : width + i + (d - width) = i + d := by omega
      rwa [hsame]

theorem spread_fillBits (n : Nat) : Spread n 64 (fillBits n) := by
  have hself : Spread n 1 n := by
    intro i
    constructor
    · exact fun hbit => ⟨0, Nat.one_pos, hbit⟩
    · rintro ⟨d, hd, hbit⟩
      obtain rfl : d = 0 := by omega
      exact hbit
  exact hself.double.double.double.double.double.double

theorem fillBits_eq {n : Nat} (hn : n ≠ 0) (hlt : n < 2 ^ 64) :
    fillBits n = 2 ^ (n.log2 + 1) - 1 := by
  have hlog : n.log2 < 64 := (Nat.log2_lt hn).mpr hlt
  apply Nat.eq_of_testBit_eq
  intro i
  rw [Nat.testBit_two_pow_sub_one, Bool.eq_iff_iff, spread_fillBits n i, decide_eq_true_eq]
  constructor
  · rintro ⟨d, -, hbit⟩
    by_contra hhigh
    have hsmall : n < 2 ^ (i + d) := (Nat.log2_lt hn).mp (by omega)
    rw [Nat.testBit_lt_two_pow hsmall] at hbit
    cases hbit
  · intro hi
    refine ⟨n.log2 - i, by omega, ?_⟩
    have hsame : i + (n.log2 - i) = n.log2 := by omega
    rw [hsame]
    exact Nat.testBit_log2 hn

/-- Up to `2 ^ 63` the capacity is rounded up, and from there it is 0. -/
theorem roundUpToPowerOfTwo_eq {n : Nat} (hn : 2 ≤ n) (hlt : n < 2 ^ 64) :
    (n ≤ 2 ^ 63 → ∃ k, roundUpToPowerOfTwo n = 2 ^ k ∧ n ≤ 2 ^ k) ∧
      (2 ^ 63 < n → roundUpToPowerOfTwo n = 0) := by
  have hpred : n - 1 ≠ 0 := by omega
  have hround : roundUpToPowerOfTwo n = 2 ^ ((n - 1).log2 + 1) % 2 ^ 64 := by
    have hpos := Nat.two_pow_pos ((n - 1).log2 + 1)
    rw [roundUpToPowerOfTwo, if_neg (by omega), fillBits_eq hpred (by omega),
      Nat.sub_add_cancel hpos]
  constructor
  · intro hle
    have hlog : (n - 1).log2 < 63 := (Nat.log2_lt hpred).mpr (by omega)
    refine ⟨(n - 1).log2 + 1, ?_, ?_⟩
    · rw [hround]
      exact Nat.mod_eq_of_lt (Nat.pow_lt_pow_right (by decide) (by omega))
    · have hself : n - 1 < 2 ^ ((n - 1).log2 + 1) := Nat.lt_log2_self
      omega
  · intro hlarge
    have hlow : 63 ≤ (n - 1).log2 := (Nat.le_log2 hpred).mpr (by omega)
    have hhigh : (n - 1).log2 < 64 := (Nat.log2_lt hpred).mpr (by omega)
    have hlog : (n - 1).log2 = 63 := by omega
    rw [hround, hlog]
    exact Nat.mod_self _

/-- The constructor's capacity, where it can be rounded up. -/
theorem initialCapacity_eq {capacity : Nat} (hle : capacity ≤ 2 ^ 63) :
    ∃ k, roundUpToPowerOfTwo (max capacity minCapacity) = 2 ^ k ∧ minCapacity ≤ 2 ^ k := by
  have hmin : minCapacity ≤ max capacity minCapacity := Nat.le_max_right ..
  have hmax : max capacity minCapacity ≤ 2 ^ 63 := Nat.max_le.mpr ⟨hle, by decide⟩
  have htwo : 2 ≤ max capacity minCapacity := Nat.le_trans (by decide) hmin
  have hlt : max capacity minCapacity < 2 ^ 64 := Nat.lt_of_le_of_lt hmax (by decide)
  obtain ⟨k, hround, hk⟩ := (roundUpToPowerOfTwo_eq htwo hlt).1 hmax
  exact ⟨k, hround, hmin.trans hk⟩

end WorkStealingQueue

end UltraNet
