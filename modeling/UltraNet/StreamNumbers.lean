/-
What the output streams of C++ write for numbers, in the C locale: 64-bit doubles in
the default format and with a fixed precision.
-/
import UltraNet.Json
import Mathlib.Data.List.DropRight
import Mathlib.Data.Nat.Log

namespace UltraNet

/-- A finite number as text. -/
structure Decimal where
  negative : Bool
  whole : Nat
  fraction : List (Fin 10)
  exponent : Option Int

namespace Decimal

def digitByte (digit : Fin 10) : UInt8 := UInt8.ofNat (48 + digit)

def sign (negative : Bool) : List UInt8 := if negative then [45] else []

/-- No point without digits behind it. -/
def fractionText (digits : List (Fin 10)) : List UInt8 :=
  if digits = [] then [] else 46 :: digits.map digitByte

/-- A sign and at least two digits. -/
def exponentText : Option Int → List UInt8
  | none => []
  | some exponent =>
      101 :: (if exponent < 0 then 45 else 43) ::
        ((if exponent.natAbs < 10 then [48] else []) ++ decimalText exponent.natAbs)

def text (n : Decimal) : List UInt8 :=
  sign n.negative ++ (decimalText n.whole ++ (fractionText n.fraction ++ exponentText n.exponent))

def ofInt (n : Int) : Decimal := ⟨n < 0, n.natAbs, [], none⟩

/-- `0.0`. -/
def pointZero : Decimal := ⟨false, 0, [0], none⟩

theorem text_ofInt (n : Int) : (ofInt n).text = signedText n := by
  unfold signedText
  by_cases hneg : n < 0
  · simp [text, ofInt, sign, fractionText, exponentText, hneg]
  · simp [text, ofInt, sign, fractionText, exponentText, hneg]

end Decimal

/-- A double by its bits. -/
structure Double where
  bits : UInt64

namespace Double

def negative (x : Double) : Bool := 2 ^ 63 ≤ x.bits.toNat

def exponentField (x : Double) : Nat := x.bits.toNat / 2 ^ 52 % 2 ^ 11

def fractionField (x : Double) : Nat := x.bits.toNat % 2 ^ 52

def isFinite (x : Double) : Bool := x.exponentField ≠ 2047

def isNan (x : Double) : Bool := x.exponentField = 2047 && x.fractionField ≠ 0

/-- The absolute value is `numerator / denominator`. -/
def numerator (x : Double) : Nat :=
  if x.exponentField = 0 then 2 * x.fractionField
  else (2 ^ 52 + x.fractionField) * 2 ^ x.exponentField

def denominator : Nat := 2 ^ 1075

/-- The nearest whole number, and of two the even one. -/
def roundHalfEven (numerator denominator : Nat) : Nat :=
  let quotient := numerator / denominator
  let remainder := numerator % denominator
  if denominator < 2 * remainder ∨ 2 * remainder = denominator ∧ quotient % 2 = 1 then
    quotient + 1
  else quotient

/-- The last digits of a number, so many of them. -/
def lastDigits : Nat → Nat → List (Fin 10)
  | 0, _ => []
  | count + 1, n => lastDigits count (n / 10) ++ [⟨n % 10, Nat.mod_lt n (by decide)⟩]

/-- `std::fixed` with so many digits behind the point. -/
def fixed (precision : Nat) (x : Double) : Decimal :=
  let scaled := roundHalfEven (x.numerator * 10 ^ precision) denominator
  ⟨x.negative, scaled / 10 ^ precision, lastDigits precision scaled, none⟩

/-- Six digits, and the power of ten by which the first of them counts. -/
def sixDigits (x : Double) : Nat × Int :=
  -- the power of ten, and 400
  let power := Nat.log 10 (x.numerator * 10 ^ 400 / denominator)
  let digits := roundHalfEven (x.numerator * 10 ^ 405) (denominator * 10 ^ power)
  if digits = 10 ^ 6 then (10 ^ 5, power - 399) else (digits, power - 400)

/-- The digits behind a point before the last so many, without zeros at the end. -/
def pointed (negative : Bool) (digits behind : Nat) (exponent : Option Int) : Decimal :=
  ⟨negative, digits / 10 ^ behind, (lastDigits behind digits).rdropWhile (· = 0), exponent⟩

/-- The default format, which is that of `%g`. -/
def general (x : Double) : Decimal :=
  if x.numerator = 0 then ⟨x.negative, 0, [], none⟩
  else
    let (digits, power) := x.sixDigits
    if -4 ≤ power ∧ power < 6 then pointed x.negative digits (5 - power).toNat none
    else pointed x.negative digits 5 (some power)

end Double

/-- A number in a text. -/
inductive Written where
  | decimal (n : Decimal)
  | infinite (negative : Bool)
  | nan (negative : Bool)

namespace Written

def text : Written → List UInt8
  | decimal n => n.text
  | infinite negative => Decimal.sign negative ++ ascii "inf"
  | nan negative => Decimal.sign negative ++ ascii "nan"

def isDecimal : Written → Bool
  | decimal _ => true
  | _ => false

def ofInt (n : Int) : Written := .decimal (Decimal.ofInt n)

/-- A double in the format of the stream. -/
def ofDouble (format : Double → Decimal) (x : Double) : Written :=
  if x.isFinite then .decimal (format x)
  else if x.isNan then .nan x.negative
  else .infinite x.negative

@[simp] theorem isDecimal_decimal (n : Decimal) : (decimal n).isDecimal = true :=
  rfl

@[simp] theorem isDecimal_ofInt (n : Int) : (ofInt n).isDecimal = true :=
  rfl

@[simp] theorem isDecimal_ofDouble (format : Double → Decimal) (x : Double) :
    (ofDouble format x).isDecimal = x.isFinite := by
  unfold ofDouble
  by_cases hfinite : x.isFinite = true
  · rw [if_pos hfinite, hfinite]
    rfl
  · rw [if_neg hfinite, Bool.eq_false_of_not_eq_true hfinite]
    split
    · rfl
    · rfl

end Written

namespace Json

theorem afterDigits_append {digits rest : List UInt8} (hsome : digits ≠ [])
    (hdigits : ∀ byte ∈ digits, isDigit byte = true)
    (hrest : ∀ byte tail, rest = byte :: tail → isDigit byte = false) :
    afterDigits (digits ++ rest) = some rest := by
  cases digits with
  | nil => exact absurd rfl hsome
  | cons byte digits =>
      have hstop : rest.dropWhile isDigit = rest := by
        cases rest with
        | nil => rfl
        | cons first tail => rw [List.dropWhile_cons, hrest first tail rfl]; rfl
      rw [List.cons_append, afterDigits, if_pos (hdigits byte List.mem_cons_self),
        List.dropWhile_append_of_pos fun other hmem =>
          hdigits other (List.mem_cons_of_mem _ hmem), hstop]

end Json

namespace Decimal

theorem isDigit_digitByte (digit : Fin 10) : isDigit (digitByte digit) = true := by
  revert digit
  decide

theorem isExponent_exponentText (exponent : Option Int) :
    Json.isExponent (exponentText exponent) = true := by
  cases exponent with
  | none => rfl
  | some exponent =>
      have hdigits : ∀ byte ∈ (if exponent.natAbs < 10 then [48] else []) ++
          decimalText exponent.natAbs, isDigit byte = true := by
        intro byte hbyte
        rcases List.mem_append.mp hbyte with hzero | htext
        · split at hzero
          · rw [List.mem_singleton.mp hzero]
            rfl
          · cases hzero
        · exact isDigit_of_mem_decimalText htext
      have hsome : (if exponent.natAbs < 10 then [48] else []) ++
          decimalText exponent.natAbs ≠ [] :=
        List.append_ne_nil_of_right_ne_nil _ (decimalText_ne_nil _)
      have hafter := Json.afterDigits_append hsome hdigits
        fun byte tail (hrest : [] = byte :: tail) => by cases hrest
      rw [List.append_nil] at hafter
      have hsign : (if exponent < 0 then 45 else 43 : UInt8) = 43 ∨
          (if exponent < 0 then 45 else 43 : UInt8) = 45 := by
        split
        · exact .inr rfl
        · exact .inl rfl
      rw [exponentText, Json.isExponent, if_pos hsign, hafter]
      rfl

theorem isFraction_text (digits : List (Fin 10)) (exponent : Option Int) :
    Json.isFraction (fractionText digits ++ exponentText exponent) = true := by
  have hexponent := isExponent_exponentText exponent
  cases digits with
  | nil =>
      cases exponent with
      | none => rfl
      | some exponent => exact hexponent
  | cons digit digits =>
      have hafter : Json.afterDigits ((digit :: digits).map digitByte ++
          exponentText exponent) = some (exponentText exponent) := by
        refine Json.afterDigits_append (by simp) ?_ ?_
        · intro byte hbyte
          obtain ⟨other, -, rfl⟩ := List.mem_map.mp hbyte
          exact isDigit_digitByte other
        · intro byte tail htail
          cases exponent with
          | none => cases htail
          | some exponent =>
              obtain rfl := (List.cons.inj htail).1
              rfl
      rw [fractionText, if_neg (List.cons_ne_nil _ _), List.cons_append, Json.isFraction,
        if_pos rfl, hafter]
      exact hexponent

/-- No zero stands before another digit. -/
theorem decimalText_zero_cons {n : Nat} {rest : List UInt8}
    (htext : decimalText n = 48 :: rest) : rest = [] := by
  induction n using Nat.strong_induction_on generalizing rest with
  | h n ih =>
      by_cases hsmall : n < 10
      · rw [decimalText, Nat.toDigits_of_lt_base hsmall] at htext
        exact (List.cons.inj htext).2.symm
      · have hsplit : decimalText n = decimalText (n / 10) ++
            [UInt8.ofNat (n % 10).digitChar.toNat] := by
          rw [decimalText, Nat.toDigits_of_base_le (by decide) (by omega), List.map_append]
          rfl
        rw [hsplit] at htext
        cases hfront : decimalText (n / 10) with
        | nil => exact absurd hfront (decimalText_ne_nil _)
        | cons byte front =>
            rw [hfront] at htext
            obtain ⟨rfl, -⟩ := List.cons.inj htext
            obtain rfl := ih (n / 10) (by omega) hfront
            have hvalue := digitsValue_decimalText (n / 10)
            rw [hfront] at hvalue
            have hzero : n / 10 = 0 := hvalue.symm
            omega

theorem isUnsigned_append {n : Nat} {rest : List UInt8} (hfraction : Json.isFraction rest = true)
    (hrest : ∀ byte tail, rest = byte :: tail → isDigit byte = false) :
    Json.isUnsigned (decimalText n ++ rest) = true := by
  have hafter := Json.afterDigits_append (decimalText_ne_nil n)
    (fun byte hbyte => isDigit_of_mem_decimalText hbyte) hrest
  cases htext : decimalText n with
  | nil => exact absurd htext (decimalText_ne_nil n)
  | cons byte tail =>
      rw [htext] at hafter
      rw [List.cons_append, Json.isUnsigned]
      split
      · rename_i hzero
        rw [hzero] at htext
        rw [decimalText_zero_cons htext]
        exact hfraction
      · rw [← List.cons_append, hafter]
        exact hfraction

theorem isDigit_head_tail (digits : List (Fin 10)) (exponent : Option Int) {byte : UInt8}
    {tail : List UInt8} (htext : fractionText digits ++ exponentText exponent = byte :: tail) :
    isDigit byte = false := by
  cases digits with
  | nil =>
      cases exponent with
      | none => cases htext
      | some exponent =>
          obtain rfl := (List.cons.inj htext).1
          rfl
  | cons digit digits =>
      rw [fractionText, if_neg (List.cons_ne_nil _ _)] at htext
      obtain rfl := (List.cons.inj htext).1
      rfl

theorem isNumber_text (n : Decimal) : Json.isNumber n.text = true := by
  have hunsigned := isUnsigned_append (n := n.whole) (isFraction_text n.fraction n.exponent)
    fun byte tail => isDigit_head_tail n.fraction n.exponent
  unfold text
  cases hnegative : n.negative with
  | true => exact hunsigned
  | false =>
      show Json.isNumber (decimalText n.whole ++ _) = true
      cases hwhole : decimalText n.whole with
      | nil => exact absurd hwhole (decimalText_ne_nil _)
      | cons byte tail =>
          have hdigit : isDigit byte = true :=
            isDigit_of_mem_decimalText (n := n.whole) (by rw [hwhole]; exact List.mem_cons_self)
          rw [hwhole, List.cons_append] at hunsigned
          rw [List.cons_append, Json.isNumber, if_neg ?_]
          · exact hunsigned
          · rintro rfl
            cases hdigit

theorem isNumberByte_text {n : Decimal} {byte : UInt8} (hbyte : byte ∈ n.text) :
    Json.isNumberByte byte = true := by
  have hdigit : ∀ {other : UInt8}, isDigit other = true → Json.isNumberByte other = true := by
    intro other hother
    rw [Json.isNumberByte, hother]
    rfl
  rcases List.mem_append.mp hbyte with hsign | hbyte
  · unfold sign at hsign
    split at hsign
    · rw [List.mem_singleton.mp hsign]
      rfl
    · cases hsign
  rcases List.mem_append.mp hbyte with hwhole | hbyte
  · exact hdigit (isDigit_of_mem_decimalText hwhole)
  rcases List.mem_append.mp hbyte with hfraction | hexponent
  · unfold fractionText at hfraction
    split at hfraction
    · cases hfraction
    rcases List.mem_cons.mp hfraction with rfl | hfraction
    · rfl
    · obtain ⟨digit, -, rfl⟩ := List.mem_map.mp hfraction
      exact hdigit (isDigit_digitByte digit)
  · cases hexp : n.exponent with
    | none =>
        rw [hexp] at hexponent
        cases hexponent
    | some exponent =>
        rw [hexp] at hexponent
        rcases List.mem_cons.mp hexponent with rfl | hexponent
        · rfl
        rcases List.mem_cons.mp hexponent with rfl | hexponent
        · split
          · rfl
          · rfl
        rcases List.mem_append.mp hexponent with hzero | hdigits
        · split at hzero
          · rw [List.mem_singleton.mp hzero]
            rfl
          · cases hzero
        · exact hdigit (isDigit_of_mem_decimalText hdigits)

end Decimal

namespace Json

theorem numeral_text (n : Decimal) {after : List UInt8} (hafter : Ends after) :
    numeral (n.text ++ after) = some (.number n.text, after) := by
  obtain ⟨byte, rest, rfl, hbyte⟩ := hafter
  have hbytes : ∀ other ∈ n.text, isNumberByte other = true :=
    fun other hother => Decimal.isNumberByte_text hother
  have htake : (n.text ++ byte :: rest).takeWhile isNumberByte = n.text := by
    rw [List.takeWhile_append_of_pos hbytes, List.takeWhile_cons, hbyte]
    exact List.append_nil _
  have hdrop : (n.text ++ byte :: rest).dropWhile isNumberByte = byte :: rest := by
    rw [List.dropWhile_append_of_pos hbytes, List.dropWhile_cons, hbyte]
    rfl
  rw [numeral, htake, hdrop, if_pos n.isNumber_text]

/-- A text that starts like a number is read as one. -/
theorem value_numeral {byte : UInt8} (hbyte : isNumberByte byte = true) (fuel : Nat)
    (rest : List UInt8) : value (fuel + 1) (byte :: rest) = numeral (byte :: rest) := by
  have hother : ∀ {other : UInt8}, isNumberByte other = false → byte ≠ other := by
    rintro other hnumber rfl
    rw [hbyte] at hnumber
    cases hnumber
  rw [value, if_neg (hother rfl), if_neg (hother rfl), if_neg (hother rfl),
    if_neg (hother rfl), if_neg (hother rfl), if_neg (hother rfl)]

theorem value_decimal (n : Decimal) {after : List UInt8} (hafter : Ends after) (fuel : Nat) :
    value (fuel + 1) (n.text ++ after) = some (.number n.text, after) := by
  cases htext : n.text with
  | nil =>
      have hnumber := n.isNumber_text
      rw [htext] at hnumber
      cases hnumber
  | cons byte tail =>
      have hbyte : isNumberByte byte = true :=
        Decimal.isNumberByte_text (n := n) (by rw [htext]; exact List.mem_cons_self)
      rw [List.cons_append, value_numeral hbyte, ← List.cons_append, ← htext,
        numeral_text n hafter]

/-- Infinities and what is not a number have no text that is one. -/
theorem value_word {n : Written} (hword : n.isDecimal = false) (after : List UInt8)
    (fuel : Nat) : value fuel (n.text ++ after) = none := by
  cases fuel with
  | zero => rfl
  | succ fuel =>
      cases n with
      | decimal n => cases hword
      | infinite negative =>
          cases negative with
          | true => rfl
          | false => rfl
      | nan negative =>
          cases negative with
          | true => rfl
          | false => rfl

end Json

end UltraNet
