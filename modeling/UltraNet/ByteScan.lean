/-
Scans through a pointer into a buffer.  A scan finds something, runs short of
bytes, or does what the language leaves undefined; the pointer is a position in
the buffer, and what is left behind it is told by `At`.
-/
import Mathlib.Algebra.GroupWithZero.Nat
import Mathlib.Data.List.TakeWhile

namespace UltraNet

universe u v

/-- What a scan must not do. -/
inductive ScanFault where
  | overflow
  | outside
  | misplaced
deriving DecidableEq, Repr

inductive Scan (α : Type u) where
  | found (value : α)
  | short
  | fault (what : ScanFault)
deriving DecidableEq, Repr

namespace Scan

def bind {α : Type u} {β : Type v} : Scan α → (α → Scan β) → Scan β
  | .found value, next => next value
  | .short, _ => .short
  | .fault what, _ => .fault what

instance : Monad Scan where
  pure := .found
  bind := bind

section Bind

variable {α β : Type u}

@[simp] theorem found_bind (value : α) (next : α → Scan β) :
    (found value >>= next) = next value :=
  rfl

@[simp] theorem short_bind (next : α → Scan β) :
    ((short : Scan α) >>= next) = short :=
  rfl

@[simp] theorem fault_bind (what : ScanFault) (next : α → Scan β) :
    ((fault what : Scan α) >>= next) = fault what :=
  rfl

@[simp] theorem pure_eq (value : α) : (pure value : Scan α) = found value :=
  rfl

theorem bind_eq_found {scan : Scan α} {next : α → Scan β} {value : β} :
    (scan >>= next) = found value ↔ ∃ a, scan = found a ∧ next a = found value := by
  cases scan with
  | found a => simp
  | short => simp
  | fault what => simp

end Bind

/-- The value of a function that answers 0 when it runs short. -/
def returned : Scan Nat → Except ScanFault Nat
  | .found size => .ok size
  | .short => .ok 0
  | .fault what => .error what

/-- A scan that is not undefined, over a buffer of `size` bytes. -/
def Safe (size : Nat) (scan : Scan Nat) : Prop :=
  ∃ length, scan.returned = .ok length ∧ length ≤ size

/-- `*p` -/
def readAt (data : List UInt8) (p : Nat) : Scan UInt8 :=
  match data[p]? with
  | some byte => .found byte
  | none => .fault .outside

/-- `p += n` -/
def advance (data : List UInt8) (p : Nat) (n : Int) : Scan Nat :=
  if 0 ≤ n ∧ p + n ≤ data.length then .found (p + n.toNat) else .fault .misplaced

theorem advance_found {data : List UInt8} {p q : Nat} {n : Int}
    (hmove : advance data p n = found q) :
    p ≤ q ∧ (q : Int) = p + n ∧ q ≤ data.length := by
  unfold advance at hmove
  split at hmove
  · cases hmove
    omega
  · cases hmove

/-- `if (p >= end || *p != byte) return 0; p++;` -/
def expect (data : List UInt8) (p : Nat) (byte : UInt8) : Scan Nat :=
  if p < data.length then do
    if (← readAt data p) = byte then advance data p 1 else .short
  else .short

/-- `while (p < limit && test(*p)) p++;` -/
def scanWhile (data : List UInt8) (test : UInt8 → Bool) (limit p : Nat) :
    Scan Nat :=
  if p < limit then do
    if test (← readAt data p) then scanWhile data test limit (p + 1) else .found p
  else .found p
termination_by limit - p

end Scan

open Scan

/-- What is left of the buffer at the pointer. -/
structure At (data : List UInt8) (p : Nat) (rest : List UInt8) : Prop where
  le : p ≤ data.length
  drop : data.drop p = rest

namespace At

variable {data rest tail : List UInt8} {p : Nat} {byte : UInt8}

theorem zero (data : List UInt8) : At data 0 data :=
  ⟨Nat.zero_le _, rfl⟩

theorem length (hat : At data p rest) : p + rest.length = data.length := by
  have hle := hat.le
  rw [← hat.drop, List.length_drop]
  omega

theorem eq_sub (hat : At data p rest) : p = data.length - rest.length := by
  have := hat.length
  omega

/-- The pointer behind the first `n` of the bytes that are left. -/
theorem skip (hat : At data p rest) {n : Nat} (hn : n ≤ rest.length) :
    At data (p + n) (rest.drop n) := by
  have hlength := hat.length
  refine ⟨by omega, ?_⟩
  rw [← hat.drop, List.drop_drop]

theorem append {front : List UInt8} (hat : At data p (front ++ tail)) :
    At data (p + front.length) tail := by
  have hskip := hat.skip (n := front.length) (by simp)
  rwa [List.drop_left] at hskip

theorem next (hat : At data p (byte :: tail)) : At data (p + 1) tail := by
  have hfront : At data p ([byte] ++ tail) := hat
  exact hfront.append

theorem lt (hat : At data p (byte :: tail)) : p < data.length := by
  have hlength := hat.length
  rw [List.length_cons] at hlength
  omega

theorem not_lt (hat : At data p []) : ¬ p < data.length := by
  have hlength := hat.length
  rw [List.length_nil] at hlength
  omega

theorem readAt (hat : At data p (byte :: tail)) : readAt data p = .found byte := by
  have hget : data[p]? = some byte := by
    rw [← List.head?_drop, hat.drop]
    rfl
  rw [Scan.readAt, hget]

theorem advance (hat : At data p rest) {n : Nat} (hn : n ≤ rest.length) :
    advance data p n = .found (p + n) := by
  have hlength := hat.length
  rw [Scan.advance, if_pos ⟨Int.natCast_nonneg n, by omega⟩, Int.toNat_natCast]

theorem advance_one (hat : At data p (byte :: tail)) :
    Scan.advance data p 1 = .found (p + 1) :=
  hat.advance (n := 1) (by simp)

theorem expect (hat : At data p (byte :: tail)) :
    expect data p byte = .found (p + 1) := by
  rw [Scan.expect, if_pos hat.lt, hat.readAt, found_bind, if_pos rfl, hat.advance_one]

theorem expect_ne (hat : At data p rest) (hne : rest.head? ≠ some byte) :
    Scan.expect data p byte = .short := by
  cases rest with
  | nil => rw [Scan.expect, if_neg hat.not_lt]
  | cons first tail =>
      rw [Scan.expect, if_pos hat.lt, hat.readAt, found_bind, if_neg]
      exact fun heq => hne (congrArg some heq)

/-- Where a loop over the bytes before `limit` stops. -/
theorem scanWhile {front : List UInt8} (test : UInt8 → Bool)
    (hat : At data p (front ++ tail)) :
    Scan.scanWhile data test (p + front.length) p =
      .found (p + (front.takeWhile test).length) := by
  induction front generalizing p with
  | nil => rw [Scan.scanWhile, if_neg (by simp)]; rfl
  | cons byte front ih =>
      have hlimit : p + (byte :: front).length = p + 1 + front.length := by
        rw [List.length_cons]
        omega
      rw [Scan.scanWhile, if_pos (by simp), hat.readAt, found_bind]
      cases htest : test byte with
      | false =>
          rw [if_neg Bool.false_ne_true, List.takeWhile_cons_of_neg (by simp [htest])]
          rfl
      | true =>
          rw [if_pos rfl, hlimit, ih hat.next, List.takeWhile_cons_of_pos htest,
            List.length_cons]
          congr 1
          omega

end At

namespace Scan

/-- A scan does what a reader of lists expects, unless it overflows. -/
inductive Follows {α : Type u} {β : Type v} (long : Prop) (expected : Option α)
    (rel : α → β → Prop) : Scan β → Prop
  | overflow (hover : long) : Follows long expected rel (.fault .overflow)
  | short (hover : ¬ long) (hnone : expected = none) : Follows long expected rel .short
  | found {a : α} {b : β} (hover : ¬ long) (hsome : expected = some a)
      (hrel : rel a b) : Follows long expected rel (.found b)

namespace Follows

variable {α : Type v} {β γ : Type u} {δ : Type v} {long : Prop} {expected : Option α}
  {rel : α → β → Prop} {scan : Scan β}

theorem congr {long' : Prop} {expected' : Option α}
    (hscan : Follows long expected rel scan) (hover : long ↔ long')
    (hexpected : expected = expected') : Follows long' expected' rel scan := by
  obtain rfl := propext hover
  exact hexpected ▸ hscan

theorem map {rel' : δ → β → Prop} {f : α → δ} (hscan : Follows long expected rel scan)
    (hrel : ∀ a b, expected = some a → rel a b → rel' (f a) b) :
    Follows long (expected.map f) rel' scan := by
  cases hscan with
  | overflow hover => exact .overflow hover
  | short hover hnone => exact .short hover (by rw [hnone]; rfl)
  | found hover hsome hab =>
      exact .found hover (by rw [hsome]; rfl) (hrel _ _ hsome hab)

/-- One scan after another. -/
theorem bind {long' : α → Prop} {expected' : α → Option δ} {rel' : δ → γ → Prop}
    {next : β → Scan γ} (hscan : Follows long expected rel scan)
    (hnext : ∀ a b, expected = some a → rel a b →
      Follows (long' a) (expected' a) rel' (next b)) :
    Follows (long ∨ ∃ a, expected = some a ∧ long' a) (expected.bind expected') rel'
      (scan >>= next) := by
  cases hscan with
  | overflow hover => exact .overflow (.inl hover)
  | short hover hnone => exact .short (by simp [hover, hnone]) (by rw [hnone]; rfl)
  | found hover hsome hrel =>
      refine (hnext _ _ hsome hrel).congr ?_ ?_
      · simp [hover, hsome]
      · rw [hsome]
        rfl

theorem returned {scan : Scan Nat} {expected : Option Nat}
    (hscan : Follows long expected (· = ·) scan) (hover : ¬ long) :
    scan.returned = .ok (expected.getD 0) := by
  cases hscan with
  | overflow hover' => exact absurd hover' hover
  | short _ hnone => rw [hnone]; rfl
  | found _ hsome hrel => rw [hsome, hrel]; rfl

theorem safe_iff {scan : Scan Nat} {expected : Option Nat} {size : Nat}
    (hscan : Follows long expected (· = ·) scan)
    (hle : ∀ length, expected = some length → length ≤ size) :
    scan.Safe size ↔ ¬ long := by
  refine ⟨?_, fun hover => ⟨_, hscan.returned hover, ?_⟩⟩
  · rintro ⟨length, hlength, -⟩ hover
    cases hscan with
    | overflow => cases hlength
    | short hover' => exact hover' hover
    | found hover' => exact hover' hover
  · cases expected with
    | none => exact Nat.zero_le _
    | some length => exact hle length rfl

end Follows

end Scan

section Expect

variable {data rest : List UInt8} {p : Nat}

/-- The bytes behind a first one. -/
def takeByte (byte : UInt8) : List UInt8 → Option (List UInt8)
  | [] => none
  | first :: rest => if first = byte then some rest else none

theorem takeByte_eq_some {byte : UInt8} {tail : List UInt8} :
    takeByte byte rest = some tail ↔ rest = byte :: tail := by
  cases rest with
  | nil => simp [takeByte]
  | cons first rest =>
      rw [takeByte, List.cons.injEq]
      split <;> simp [*]

theorem expect_follows (hat : At data p rest) (byte : UInt8) :
    Follows False (takeByte byte rest) (fun tail q => At data q tail)
      (expect data p byte) := by
  cases rest with
  | nil =>
      rw [hat.expect_ne (by simp)]
      exact .short not_false rfl
  | cons first tail =>
      by_cases hfirst : first = byte
      · subst hfirst
        rw [hat.expect]
        exact .found not_false (if_pos rfl) hat.next
      · rw [hat.expect_ne (by simpa using hfirst)]
        exact .short not_false (if_neg hfirst)

end Expect

end UltraNet
