/-
When the scanners of the Redis proxy are defined: they follow the readers of
whole counts, bulk strings and values unless they come to digits whose value
does not fit an `int64_t`.
-/
import UltraNet.RespScan
import UltraNet.RespValue

namespace UltraNet

/-- Digits with a value of 2^63 or more. -/
structure LongRun (text : List UInt8) : Prop where
  digits : text.all isDigit = true
  value : 2 ^ 63 ≤ digitsValue text

/-- A long run of digits is at the front. -/
def StartsLong (data : List UInt8) : Prop :=
  ∃ run rest, LongRun run ∧ data = run ++ rest

section Digits

variable {digits rest : List UInt8} {p value : Nat} {data : List UInt8}

/-- The value after more digits. -/
def addDigits (value : Nat) (digits : List UInt8) : Nat :=
  digits.foldl (fun value digit => 10 * value + (digit.toNat - 48)) value

theorem le_addDigits (value : Nat) (digits : List UInt8) :
    value ≤ addDigits value digits := by
  induction digits generalizing value with
  | nil => exact Nat.le_refl _
  | cons digit digits ih =>
      have := ih (10 * value + (digit.toNat - 48))
      rw [addDigits, List.foldl_cons]
      rw [addDigits] at this
      omega

theorem digitsValue_append (digits rest : List UInt8) :
    digitsValue (digits ++ rest) = addDigits (digitsValue digits) rest := by
  rw [digitsValue, List.foldl_append]
  rfl

/-- All the digits at the front together have a long value. -/
theorem startsLong_iff :
    StartsLong data ↔ 2 ^ 63 ≤ digitsValue (data.takeWhile isDigit) := by
  refine ⟨?_, fun hvalue => ?_⟩
  · rintro ⟨run, rest, hrun, rfl⟩
    rw [List.takeWhile_append_of_pos (List.all_eq_true.mp hrun.digits),
      digitsValue_append]
    exact hrun.value.trans (le_addDigits _ _)
  · exact ⟨data.takeWhile isDigit, data.dropWhile isDigit,
      ⟨List.all_takeWhile, hvalue⟩, List.takeWhile_append_dropWhile.symm⟩

open Scan RespScan

/-- One digit more, unless the value leaves the 63 bits. -/
theorem accumulate_digit {digit : UInt8} (hdigit : isDigit digit = true) (value : Nat) :
    accumulate value digit =
      if 10 * value + (digit.toNat - 48) < 2 ^ 63 then
        .found ((10 * value + (digit.toNat - 48) : Nat) : Int)
      else .fault .overflow := by
  have hlow : 48 ≤ digit.toNat := by
    simp only [isDigit, Bool.and_eq_true, decide_eq_true_eq, UInt8.le_iff_toNat_le]
      at hdigit
    exact hdigit.1
  have hsum : (value : Int) * 10 + ((digit.toNat : Int) - 48) =
      ((10 * value + (digit.toNat - 48) : Nat) : Int) := by
    omega
  rw [accumulate, hsum]
  split
  · rw [if_pos (by omega)]
  · rw [if_neg (by omega)]

/-- The loop over digits up to a byte that is none. -/
theorem scanDigits_run (hat : At data p (digits ++ rest))
    (hdigits : ∀ digit ∈ digits, isDigit digit = true)
    (hrest : ∀ byte ∈ rest.head?, isDigit byte = false) (hvalue : value < 2 ^ 63) :
    scanDigits data p value =
      if addDigits value digits < 2 ^ 63 then
        .found (addDigits value digits, p + digits.length)
      else .fault .overflow := by
  induction digits generalizing p value with
  | nil =>
      rw [addDigits, List.foldl_nil, if_pos hvalue]
      cases rest with
      | nil => rw [scanDigits, if_neg hat.not_lt]; rfl
      | cons byte rest =>
          rw [scanDigits, if_pos hat.lt, hat.readAt, found_bind,
            if_neg (by simp [hrest byte rfl])]
          rfl
  | cons digit digits ih =>
      obtain ⟨hdigit, hdigits⟩ := List.forall_mem_cons.mp hdigits
      rw [scanDigits, if_pos hat.lt, hat.readAt, found_bind, if_pos hdigit,
        accumulate_digit hdigit]
      by_cases hnext : 10 * value + (digit.toNat - 48) < 2 ^ 63
      · rw [if_pos hnext, found_bind, ih hat.next hdigits hnext, List.length_cons,
          addDigits, addDigits, List.foldl_cons, Nat.add_assoc p 1,
          Nat.add_comm 1 digits.length]
      · have := le_addDigits (10 * value + (digit.toNat - 48)) digits
        rw [if_neg hnext, fault_bind, if_neg]
        rw [addDigits, List.foldl_cons]
        rw [addDigits] at this
        omega

/-- A value and the bytes behind it, as a cursor has them. -/
structure CountAt (data : List UInt8) (count : Nat × List UInt8) (reached : Int × Nat) :
    Prop where
  value : reached.1 = count.1
  at_rest : At data reached.2 count.2

/-- The digits at the front, up to a long run. -/
theorem scanDigits_follows (hat : At data p rest) :
    Follows (StartsLong rest)
      (some (digitsValue (rest.takeWhile isDigit), rest.dropWhile isDigit))
      (CountAt data) (scanDigits data p 0) := by
  have hsplit := List.takeWhile_append_dropWhile (p := isDigit) (l := rest)
  have hsplitAt : At data p (rest.takeWhile isDigit ++ rest.dropWhile isDigit) := by
    rw [hsplit]
    exact hat
  have hrest : ∀ byte ∈ (rest.dropWhile isDigit).head?, isDigit byte = false := by
    intro byte hbyte
    have hhead := List.head?_dropWhile_not isDigit rest
    rw [hbyte] at hhead
    exact hhead
  have hscan := scanDigits_run hsplitAt
    (fun digit hdigit => List.mem_takeWhile_imp hdigit) hrest
    (show (0 : Nat) < 2 ^ 63 by decide)
  have hvalue : addDigits 0 (rest.takeWhile isDigit) =
      digitsValue (rest.takeWhile isDigit) := rfl
  rw [Nat.cast_zero, hvalue] at hscan
  rw [hscan]
  by_cases hlong : digitsValue (rest.takeWhile isDigit) < 2 ^ 63
  · rw [if_pos hlong]
    exact .found (fun h => absurd (startsLong_iff.mp h) (by omega)) rfl
      ⟨rfl, hsplitAt.append⟩
  · rw [if_neg hlong]
    exact .overflow (startsLong_iff.mpr (by omega))

/-- The line break at the front. -/
def takeBreak (data : List UInt8) : Option (List UInt8) :=
  (takeByte 13 data).bind (takeByte 10)

theorem takeBreak_eq_some {tail : List UInt8} :
    takeBreak data = some tail ↔ data = 13 :: 10 :: tail := by
  rw [takeBreak, Option.bind_eq_some_iff]
  simp only [takeByte_eq_some]
  refine ⟨?_, fun hdata => ⟨_, hdata, rfl⟩⟩
  rintro ⟨behind, rfl, rfl⟩
  rfl

/-- A count is digits and a line break. -/
theorem takeCount_eq_bind (data : List UInt8) :
    takeCount data = (takeBreak (data.dropWhile isDigit)).map
      fun rest => (digitsValue (data.takeWhile isDigit), rest) := by
  rw [takeCount]
  split
  · rename_i rest hdrop
    rw [hdrop]
    rfl
  · rename_i hnot
    cases hbreak : takeBreak (data.dropWhile isDigit) with
    | none => rfl
    | some rest =>
        exact absurd (takeBreak_eq_some.mp hbreak) (hnot rest)

/-- The cursor looks at two bytes, where both are there. -/
theorem expectBreak_follows (hat : At data p rest) :
    Follows False (takeBreak rest) (fun tail q => At data q tail)
      (expectBreak data p) := by
  have hlength := hat.length
  rw [expectBreak]
  cases rest with
  | nil => rw [if_neg (by simp at hlength; omega)]; exact .short not_false rfl
  | cons first rest =>
      cases rest with
      | nil =>
          rw [if_neg (by simp at hlength; omega)]
          refine .short not_false ?_
          rw [takeBreak, takeByte]
          split <;> rfl
      | cons second rest =>
          rw [if_pos (by simp at hlength; omega), hat.readAt, found_bind]
          by_cases hcr : first = 13
          · rw [if_pos hcr, hat.next.readAt, found_bind]
            by_cases hlf : second = 10
            · rw [if_pos hlf]
              have hmove := hat.advance (n := 2) (by simp)
              rw [Nat.cast_ofNat] at hmove
              rw [hmove, hcr, hlf]
              exact .found not_false rfl hat.next.next
            · rw [if_neg hlf, hcr]
              refine .short not_false ?_
              exact if_neg hlf
          · rw [if_neg hcr]
            refine .short not_false ?_
            rw [takeBreak, takeByte, if_neg hcr]
            rfl

/-- A count by the cursor of the boundary scanner. -/
theorem boundaryCount_follows (hat : At data p rest) :
    Follows (StartsLong rest) (takeCount rest) (CountAt data)
      (boundaryCount data p) := by
  have hbehind : ∀ (count : Nat × List UInt8) (reached : Int × Nat),
      some (digitsValue (rest.takeWhile isDigit), rest.dropWhile isDigit) =
        some count → CountAt data count reached →
      Follows (False ∨ ∃ tail, takeBreak count.2 = some tail ∧ False)
        ((takeBreak count.2).bind fun tail => some (count.1, tail)) (CountAt data)
        (expectBreak data reached.2 >>= fun q => .found (reached.1, q)) := by
    intro count reached _ hreached
    exact (expectBreak_follows hreached.at_rest).bind fun tail q _ hq =>
      .found not_false rfl ⟨hreached.value, hq⟩
  refine ((scanDigits_follows hat).bind hbehind).congr (by simp) ?_
  rw [takeCount_eq_bind, Option.bind_some, Option.map_eq_bind]
  rfl

theorem parseCount_follows (hat : At data p rest) :
    Follows (StartsLong rest) (takeCount rest) (CountAt data) (parseCount data p) := by
  rw [parseCount]
  cases rest with
  | nil =>
      rw [if_neg hat.not_lt]
      exact .short (by rw [startsLong_iff]; decide) rfl
  | cons byte tail =>
      rw [if_pos hat.lt]
      have hbehind : ∀ (count : Nat × List UInt8) (reached : Int × Nat),
          some (digitsValue ((byte :: tail).takeWhile isDigit),
            (byte :: tail).dropWhile isDigit) = some count → CountAt data count reached →
          Follows (False ∨ ∃ rest, takeByte 13 count.2 = some rest ∧
              (False ∨ ∃ tail, takeByte 10 rest = some tail ∧ False))
            ((takeByte 13 count.2).bind fun rest =>
              (takeByte 10 rest).bind fun tail => some (count.1, tail))
            (CountAt data)
            (expect data reached.2 13 >>= fun q =>
              expect data q 10 >>= fun q => .found (reached.1, q)) := by
        intro count reached _ hreached
        exact (expect_follows hreached.at_rest 13).bind fun rest q _ hq =>
          (expect_follows hq 10).bind fun tail q _ hq =>
            .found not_false rfl ⟨hreached.value, hq⟩
      refine ((scanDigits_follows hat).bind hbehind).congr (by simp) ?_
      rw [takeCount_eq_bind, Option.bind_some, Option.map_eq_bind, takeBreak,
        Option.bind_assoc]
      rfl

end Digits

section Request

open Scan RespScan

variable {data rest : List UInt8} {p : Nat}

/-- The length of a bulk string is long. -/
def BulkStartsLong (rest : List UInt8) : Prop :=
  ∃ tail, takeByte 36 rest = some tail ∧ StartsLong tail

/-- A bulk string step by step, as the boundary scanner goes through it. -/
theorem skipBulk_eq_bind (rest : List UInt8) :
    skipBulk rest = (takeByte 36 rest).bind fun tail =>
      (takeCount tail).bind fun count =>
        if count.2.length < count.1 + 2 then none
        else some (count.2.drop (count.1 + 2)) := by
  unfold skipBulk
  split
  · rename_i tail
    cases hcount : takeCount tail with
    | none => simp [takeByte, hcount]
    | some count => simp [takeByte, hcount]
  · rename_i hnot
    cases hfirst : takeByte 36 rest with
    | none => rfl
    | some tail => exact absurd (takeByte_eq_some.mp hfirst) (hnot tail)

/-- The same for the parser, which looks at the ending. -/
theorem takeBulk_eq_bind (rest : List UInt8) :
    takeBulk rest = (takeByte 36 rest).bind fun tail =>
      (takeCount tail).bind fun count =>
        if count.2.length < count.1 + 2 then none
        else (takeBreak (count.2.drop count.1)).map fun behind =>
          (count.2.take count.1, behind) := by
  unfold takeBulk
  split
  · rename_i tail
    cases hcount : takeCount tail with
    | none => simp [takeByte, hcount]
    | some count =>
        simp only [takeByte, hcount, if_true, Option.bind_some]
        split
        · rfl
        · split
          · rename_i behind hdrop
            rw [hdrop]
            rfl
          · rename_i hnot
            cases hbreak : takeBreak (count.2.drop count.1) with
            | none => rfl
            | some behind =>
                exact absurd (takeBreak_eq_some.mp hbreak) (hnot behind)
  · rename_i hnot
    cases hfirst : takeByte 36 rest with
    | none => rfl
    | some tail => exact absurd (takeByte_eq_some.mp hfirst) (hnot tail)

/-- The boundary scanner does not look at the ending. -/
theorem boundaryBulk_follows (hat : At data p rest) :
    Follows (BulkStartsLong rest) (skipBulk rest) (fun tail q => At data q tail)
      (boundaryBulk data p) := by
  have hcontent : ∀ (count : Nat × List UInt8) (reached : Int × Nat),
      CountAt data count reached →
      Follows False (if count.2.length < count.1 + 2 then none
          else some (count.2.drop (count.1 + 2)))
        (fun tail q => At data q tail)
        (if reached.2 + reached.1 + 2 > data.length then .short
          else advance data reached.2 (reached.1 + 2)) := by
    intro count reached hreached
    have hlength := hreached.at_rest.length
    rw [hreached.value]
    by_cases hshort : count.2.length < count.1 + 2
    · rw [if_pos hshort, if_pos (by omega)]
      exact .short not_false rfl
    · have hmove := hreached.at_rest.advance (n := count.1 + 2) (by omega)
      rw [Nat.cast_add, Nat.cast_ofNat] at hmove
      rw [if_neg hshort, if_neg (by omega), hmove]
      exact .found not_false rfl (hreached.at_rest.skip (by omega))
  have hlength : ∀ (tail : List UInt8) (q : Nat), At data q tail →
      Follows (StartsLong tail ∨ ∃ count, takeCount tail = some count ∧ False)
        ((takeCount tail).bind fun count =>
          if count.2.length < count.1 + 2 then none
          else some (count.2.drop (count.1 + 2)))
        (fun tail q => At data q tail)
        (boundaryCount data q >>= fun reached =>
          if reached.2 + reached.1 + 2 > data.length then .short
          else advance data reached.2 (reached.1 + 2)) := by
    intro tail q hq
    exact (boundaryCount_follows hq).bind fun count reached _ hreached =>
      hcontent count reached hreached
  refine ((expect_follows hat 36).bind fun tail q _ hq => hlength tail q hq).congr
    (by simp [BulkStartsLong]) (skipBulk_eq_bind rest).symm

/-- An argument and the bytes behind it, as a cursor has them. -/
structure ArgsAt {α : Type} (data : List UInt8) (args : α × List UInt8)
    (reached : α × Nat) : Prop where
  value : reached.1 = args.1
  at_rest : At data reached.2 args.2

theorem parseBulk_follows (hat : At data p rest) :
    Follows (BulkStartsLong rest) (takeBulk rest) (ArgsAt data) (parseBulk data p) := by
  have hending : ∀ (arg tail : List UInt8) (q : Nat), At data q tail →
      tail ≠ [] →
      Follows (False ∨ ∃ behind, takeByte 10 (tail.drop 1) = some behind ∧ False)
        ((takeBreak tail).map fun behind => (arg, behind)) (ArgsAt data)
        (readAt data q >>= fun byte =>
          if byte = 13 then advance data q 1 >>= fun q =>
            expect data q 10 >>= fun q => .found (arg, q)
          else .short) := by
    intro arg tail q hq htail
    cases tail with
    | nil => exact absurd rfl htail
    | cons byte tail =>
        rw [hq.readAt, found_bind]
        by_cases hcr : byte = 13
        · rw [if_pos hcr, hq.advance_one, found_bind]
          have hfound : ∀ (behind : List UInt8) (q : Nat), At data q behind →
              Follows False (some (arg, behind)) (ArgsAt data)
                (.found (arg, q)) :=
            fun behind q hq => .found not_false rfl ⟨rfl, hq⟩
          refine ((expect_follows hq.next 10).bind fun behind q _ hq =>
            hfound behind q hq).congr Iff.rfl ?_
          rw [takeBreak, takeByte, if_pos hcr, Option.map_eq_bind]
          rfl
        · rw [if_neg hcr]
          refine .short (by simp) ?_
          rw [takeBreak, takeByte, if_neg hcr]
          rfl
  have hcontent : ∀ (count : Nat × List UInt8) (reached : Int × Nat),
      CountAt data count reached →
      Follows False (if count.2.length < count.1 + 2 then none
          else (takeBreak (count.2.drop count.1)).map fun behind =>
            (count.2.take count.1, behind))
        (ArgsAt data)
        (if reached.2 + reached.1 + 2 > data.length then .short
          else advance data reached.2 reached.1 >>= fun q =>
            readAt data q >>= fun byte =>
              if byte = 13 then advance data q 1 >>= fun q =>
                expect data q 10 >>= fun q =>
                  .found ((data.drop reached.2).take reached.1.toNat, q)
              else .short) := by
    intro count reached hreached
    have hlength := hreached.at_rest.length
    rw [hreached.value, Int.toNat_natCast, hreached.at_rest.drop]
    by_cases hshort : count.2.length < count.1 + 2
    · rw [if_pos hshort, if_pos (by omega)]
      exact .short not_false rfl
    · rw [if_neg hshort, if_neg (by omega),
        hreached.at_rest.advance (n := count.1) (by omega), found_bind]
      refine (hending _ _ _ (hreached.at_rest.skip (by omega)) ?_).congr (by simp) rfl
      intro hnil
      have := List.drop_eq_nil_iff.mp hnil
      omega
  have hlength : ∀ (tail : List UInt8) (q : Nat), At data q tail →
      Follows (StartsLong tail ∨ ∃ count, takeCount tail = some count ∧ False)
        ((takeCount tail).bind fun count =>
          if count.2.length < count.1 + 2 then none
          else (takeBreak (count.2.drop count.1)).map fun behind =>
            (count.2.take count.1, behind))
        (ArgsAt data)
        (parseCount data q >>= fun reached =>
          if reached.2 + reached.1 + 2 > data.length then .short
          else advance data reached.2 reached.1 >>= fun q =>
            readAt data q >>= fun byte =>
              if byte = 13 then advance data q 1 >>= fun q =>
                expect data q 10 >>= fun q =>
                  .found ((data.drop reached.2).take reached.1.toNat, q)
              else .short) := by
    intro tail q hq
    exact (parseCount_follows hq).bind fun count reached _ hreached =>
      hcontent count reached hreached
  exact ((expect_follows hat 36).bind fun tail q _ hq => hlength tail q hq).congr
    (by simp [BulkStartsLong]) (takeBulk_eq_bind rest).symm

/-- One of the bulk strings that `next` takes has a long length. -/
def BulksStartLong (next : List UInt8 → Option (List UInt8)) :
    Nat → List UInt8 → Prop
  | 0, _ => False
  | argc + 1, rest =>
      BulkStartsLong rest ∨
        ∃ tail, next rest = some tail ∧ BulksStartLong next argc tail

/-- By induction on the bulk strings to go. -/
theorem boundaryBulks_follows {argc : Nat} (hat : At data p rest) :
    Follows (BulksStartLong skipBulk argc rest) (skipBulks argc rest)
      (fun tail q => At data q tail) (boundaryBulks data argc p) := by
  induction argc generalizing p rest with
  | zero => exact .found not_false rfl hat
  | succ argc ih =>
      refine ((boundaryBulk_follows hat).bind fun tail q _ hq => ih hq).congr
        Iff.rfl ?_
      rw [skipBulks]
      cases skipBulk rest with
      | none => rfl
      | some tail => rfl

/-- The bytes behind the bulk string that the parser takes. -/
def takeBulkRest (rest : List UInt8) : Option (List UInt8) :=
  (takeBulk rest).map Prod.snd

theorem parseBulks_follows {argc : Nat} (hat : At data p rest) :
    Follows (BulksStartLong takeBulkRest argc rest) (takeBulks argc rest)
      (ArgsAt data) (parseBulks data argc p) := by
  induction argc generalizing p rest with
  | zero => exact .found not_false rfl ⟨rfl, hat⟩
  | succ argc ih =>
      have hothers : ∀ (arg : List UInt8 × List UInt8) (reached : List UInt8 × Nat),
          ArgsAt data arg reached →
          Follows (BulksStartLong takeBulkRest argc arg.2)
            ((takeBulks argc arg.2).bind fun args => some (arg.1 :: args.1, args.2))
            (ArgsAt data)
            (parseBulks data argc reached.2 >>= fun others =>
              .found (reached.1 :: others.1, others.2)) := by
        intro arg reached hreached
        have hfound : ∀ (args : List (List UInt8) × List UInt8)
            (others : List (List UInt8) × Nat), ArgsAt data args others →
            Follows False (some (arg.1 :: args.1, args.2)) (ArgsAt data)
              (.found (reached.1 :: others.1, others.2)) :=
          fun args others hothers => .found not_false rfl
            ⟨by rw [hreached.value, hothers.value], hothers.at_rest⟩
        exact ((ih hreached.at_rest).bind fun args others _ hothers =>
          hfound args others hothers).congr (by simp) rfl
      refine ((parseBulk_follows hat).bind fun arg reached _ hreached =>
        hothers arg reached hreached).congr ?_ ?_
      · refine or_congr Iff.rfl ⟨?_, ?_⟩
        · rintro ⟨arg, htake, hlong⟩
          exact ⟨arg.2, by rw [takeBulkRest, htake]; rfl, hlong⟩
        · rintro ⟨tail, htake, hlong⟩
          obtain ⟨arg, harg, rfl⟩ := Option.map_eq_some_iff.mp htake
          exact ⟨arg, harg, hlong⟩
      · rw [takeBulks]
        cases takeBulk rest with
        | none => rfl
        | some arg =>
            obtain ⟨first, tail⟩ := arg
            simp only [Option.bind_some]
            cases takeBulks argc tail with
            | none => rfl
            | some others => rfl

end Request

section Overflow

variable {data rest : List UInt8}

/-- A request scanner comes to a long run: the count is one, or the length
behind as many whole bulk strings as it takes, each with an ending it takes. -/
structure RequestOverflow (ended : SkippedBulk → Prop) (data : List UInt8) : Prop where
  array : data.head? = some 42
  reached : StartsLong data.tail ∨
    ∃ count n bulks tail, DigitRun count n ∧ bulks.length < n ∧
      (∀ bulk ∈ bulks, bulk.Accepted ∧ ended bulk) ∧ StartsLong tail ∧
      data.tail = count ++ crlf ++ (skippedText bulks ++ 36 :: tail)

/-- The bulk strings before the long length are whole, and of the kind that is taken. -/
theorem bulksStartLong_iff {ended : SkippedBulk → Prop}
    {next : List UInt8 → Option (List UInt8)}
    (hnext : ∀ rest tail, next rest = some tail ↔
      ∃ bulk : SkippedBulk, bulk.Accepted ∧ ended bulk ∧ rest = bulk.wire ++ tail)
    (argc : Nat) :
    BulksStartLong next argc rest ↔
      ∃ bulks tail, bulks.length < argc ∧
        (∀ bulk ∈ bulks, bulk.Accepted ∧ ended bulk) ∧ StartsLong tail ∧
        rest = skippedText bulks ++ 36 :: tail := by
  induction argc generalizing rest with
  | zero => simp [BulksStartLong]
  | succ argc ih =>
      refine ⟨?_, ?_⟩
      · rintro (⟨tail, hfirst, hlong⟩ | ⟨behind, hbulk, hlong⟩)
        · exact ⟨[], tail, Nat.succ_pos _, by simp, hlong, takeByte_eq_some.mp hfirst⟩
        · obtain ⟨bulk, haccepted, hended, rfl⟩ := (hnext _ _).mp hbulk
          obtain ⟨bulks, tail, hshort, hbulks, hstarts, rfl⟩ := ih.mp hlong
          exact ⟨bulk :: bulks, tail, Nat.succ_lt_succ hshort,
            List.forall_mem_cons.mpr ⟨⟨haccepted, hended⟩, hbulks⟩, hstarts,
            by simp [skippedText]⟩
      · rintro ⟨bulks, tail, hshort, hbulks, hlong, rfl⟩
        cases bulks with
        | nil => exact .inl ⟨tail, takeByte_eq_some.mpr rfl, hlong⟩
        | cons bulk bulks =>
            obtain ⟨⟨haccepted, hended⟩, hbulks⟩ := List.forall_mem_cons.mp hbulks
            refine .inr ⟨skippedText bulks ++ 36 :: tail,
              (hnext _ _).mpr ⟨bulk, haccepted, hended, by simp [skippedText]⟩, ?_⟩
            exact ih.mpr ⟨bulks, tail, Nat.lt_of_succ_lt_succ hshort, hbulks, hlong,
              rfl⟩

theorem requestOverflow_iff {ended : SkippedBulk → Prop}
    {next : List UInt8 → Option (List UInt8)}
    (hnext : ∀ rest tail, next rest = some tail ↔
      ∃ bulk : SkippedBulk, bulk.Accepted ∧ ended bulk ∧ rest = bulk.wire ++ tail) :
    RequestOverflow ended (42 :: rest) ↔
      StartsLong rest ∨
        ∃ count, takeCount rest = some count ∧ BulksStartLong next count.1 count.2 := by
  refine ⟨?_, fun hlong => ⟨rfl, ?_⟩⟩
  · rintro ⟨-, hlong | ⟨count, n, bulks, tail, hcount, hshort, hbulks, hlong, hrest⟩⟩
    · exact .inl hlong
    · refine .inr ⟨_, takeCount_eq_some.mpr ⟨count, hcount, hrest⟩, ?_⟩
      exact (bulksStartLong_iff hnext n).mpr ⟨bulks, tail, hshort, hbulks, hlong, rfl⟩
  · refine hlong.imp_right ?_
    rintro ⟨⟨n, behind⟩, hcount, hargs⟩
    obtain ⟨count, hrun, rfl⟩ := takeCount_eq_some.mp hcount
    obtain ⟨bulks, tail, hshort, hbulks, hstarts, rfl⟩ :=
      (bulksStartLong_iff hnext n).mp hargs
    exact ⟨count, n, bulks, tail, hrun, hshort, hbulks, hstarts, rfl⟩

/-- The fast scanner takes any two bytes behind a bulk string. -/
theorem skipBulk_next (rest tail : List UInt8) :
    skipBulk rest = some tail ↔
      ∃ bulk : SkippedBulk, bulk.Accepted ∧ True ∧ rest = bulk.wire ++ tail := by
  simp only [true_and]
  exact skipBulk_eq_some

theorem takeBulkRest_next (rest tail : List UInt8) :
    takeBulkRest rest = some tail ↔
      ∃ bulk : SkippedBulk, bulk.Accepted ∧ bulk.ending = crlf ∧
        rest = bulk.wire ++ tail := by
  rw [takeBulkRest, Option.map_eq_some_iff]
  refine ⟨?_, ?_⟩
  · rintro ⟨⟨arg, tail⟩, htake, rfl⟩
    obtain ⟨bulk, haccepted, hending, -, hrest⟩ := takeBulk_eq_some.mp htake
    exact ⟨bulk, haccepted, hending, hrest⟩
  · rintro ⟨bulk, haccepted, hending, rfl⟩
    exact ⟨_, takeBulk_accepted haccepted hending tail, rfl⟩

/-- So many digits add so many places. -/
theorem addDigits_lt {digits : List UInt8} (hdigits : digits.all isDigit = true)
    (value : Nat) : addDigits value digits < (value + 1) * 10 ^ digits.length := by
  induction digits generalizing value with
  | nil => simp [addDigits]
  | cons digit digits ih =>
      rw [List.all_cons, Bool.and_eq_true] at hdigits
      have hhigh : digit.toNat ≤ 57 := by
        have hdigit := hdigits.1
        simp only [isDigit, Bool.and_eq_true, decide_eq_true_eq,
          UInt8.le_iff_toNat_le] at hdigit
        exact hdigit.2
      calc addDigits value (digit :: digits)
          = addDigits (10 * value + (digit.toNat - 48)) digits := rfl
        _ < (10 * value + (digit.toNat - 48) + 1) * 10 ^ digits.length :=
            ih hdigits.2 _
        _ ≤ ((value + 1) * 10) * 10 ^ digits.length :=
            Nat.mul_le_mul_right _ (by omega)
        _ = (value + 1) * 10 ^ (digit :: digits).length := by
            rw [List.length_cons, Nat.pow_succ']
            exact Nat.mul_assoc ..

/-- A long run has 19 digits or more. -/
theorem LongRun.length {run : List UInt8} (hrun : LongRun run) : 19 ≤ run.length := by
  by_contra hshort
  have hlt := addDigits_lt hrun.digits 0
  have hpow : 10 ^ run.length ≤ 10 ^ 18 := Nat.pow_le_pow_right (by decide) (by omega)
  have hvalue : 2 ^ 63 ≤ addDigits 0 run := hrun.value
  omega

theorem StartsLong.length (hlong : StartsLong rest) : 19 ≤ rest.length := by
  obtain ⟨run, tail, hrun, rfl⟩ := hlong
  have := hrun.length
  rw [List.length_append]
  omega

theorem RequestOverflow.length {ended : SkippedBulk → Prop}
    (hover : RequestOverflow ended data) : 19 ≤ data.length := by
  obtain ⟨harray, hlong | ⟨count, n, bulks, tail, -, -, -, hlong, htail⟩⟩ := hover
  · have := hlong.length
    rw [List.length_tail] at this
    omega
  · have hlength := congrArg List.length htail
    have := hlong.length
    simp only [List.length_tail, List.length_append, List.length_cons] at hlength
    omega

end Overflow

section Inline

open Scan RespScan

variable {data line tail rest : List UInt8} {p : Nat}

/-- A line ends at its first CR, if an LF is behind that. -/
theorem takeLine_cr (hline : 13 ∉ line) (tail : List UInt8) :
    takeLine (line ++ 13 :: tail) = (takeByte 10 tail).map fun rest => (line, rest) := by
  have hbytes : ∀ byte ∈ line, (decide (byte ≠ 13)) = true := by
    intro byte hbyte
    exact decide_eq_true fun heq => hline (heq ▸ hbyte)
  have hdrop : (line ++ 13 :: tail).dropWhile (· ≠ 13) = 13 :: tail := by
    rw [List.dropWhile_append_of_pos hbytes]
    simp
  have htake : (line ++ 13 :: tail).takeWhile (· ≠ 13) = line := by
    rw [List.takeWhile_append_of_pos hbytes]
    simp
  rw [takeLine, hdrop, htake]
  cases tail with
  | nil => rfl
  | cons byte tail =>
      by_cases hbyte : byte = 10
      · subst hbyte
        rfl
      · rw [takeByte, if_neg hbyte]
        split
        · rename_i heq
          exact absurd (List.cons.inj (List.cons.inj heq).2).1 hbyte
        · rfl

theorem idxOf_cr {cr : Nat} (hcr : data.idxOf? 13 = some cr) :
    ∃ line tail, data = line ++ 13 :: tail ∧ 13 ∉ line ∧ cr = line.length := by
  obtain ⟨hlt, hbyte, hbefore⟩ := List.idxOf?_eq_some_iff.mp hcr
  refine ⟨data.take cr, data.drop (cr + 1), ?_, ?_, ?_⟩
  · rw [← hbyte, ← List.drop_eq_getElem_cons, List.take_append_drop]
  · intro hmem
    obtain ⟨j, hj, hget⟩ := List.getElem_of_mem hmem
    rw [List.getElem_take] at hget
    rw [List.length_take] at hj
    exact hbefore j (by omega) hget
  · rw [List.length_take]
    omega

theorem takeLine_none (hcr : data.idxOf? 13 = none) : takeLine data = none := by
  cases hfound : takeLine data with
  | none => rfl
  | some found =>
      have hdata := (takeLine_eq hfound).1
      have hnot := List.idxOf?_eq_none_iff.mp hcr
      rw [hdata] at hnot
      simp at hnot

/-- The line that is read, and where its CR is. -/
structure LineAt (data : List UInt8) (found : List UInt8 × List UInt8) (cr : Nat) :
    Prop where
  data : data = found.1 ++ 13 :: 10 :: found.2
  cr : cr = found.1.length

/-- The end of an inline command. -/
theorem inlineEnd_follows (data : List UInt8) :
    Follows False (takeLine data) (LineAt data) (inlineEnd data) := by
  rw [inlineEnd]
  cases hcr : data.idxOf? 13 with
  | none => exact .short not_false (takeLine_none hcr)
  | some cr =>
      obtain ⟨line, tail, rfl, hline, rfl⟩ := idxOf_cr hcr
      have hat := ((At.zero (line ++ 13 :: tail)).append).next
      rw [Nat.zero_add] at hat
      rw [takeLine_cr hline]
      cases tail with
      | nil =>
          simp only [ge_iff_le]
          rw [if_pos (by simp)]
          exact .short not_false rfl
      | cons byte tail =>
          simp only [ge_iff_le, if_neg (Nat.not_le_of_lt hat.lt), hat.readAt, found_bind]
          by_cases hbyte : byte = 10
          · rw [if_pos hbyte, takeByte, if_pos hbyte, hbyte]
            exact .found not_false rfl ⟨rfl, rfl⟩
          · rw [if_neg hbyte, takeByte, if_neg hbyte]
            exact .short not_false rfl

theorem words_space (line : List UInt8) : words (32 :: line) = words line := by
  rw [words, List.splitOn_cons_eq_if_modifyHead,
    if_pos (beq_self_eq_true _)]
  rfl

theorem words_dropWhile (line : List UInt8) :
    words (line.dropWhile (· = 32)) = words line := by
  induction line with
  | nil => rfl
  | cons byte line ih =>
      by_cases hbyte : byte = 32
      · subst hbyte
        rw [List.dropWhile_cons_of_pos (by simp), words_space, ih]
      · rw [List.dropWhile_cons_of_neg (by simpa using hbyte)]

/-- The first word of a line. -/
theorem words_word {word : List UInt8} (hword : 32 ∉ word) (hnonempty : word ≠ [])
    (hrest : rest = [] ∨ ∃ more, rest = 32 :: more) :
    words (word ++ rest) = word :: words rest := by
  have hsplit : ∀ byte ∈ word, (byte == 32) = false := fun byte hbyte =>
    beq_eq_false_iff_ne.mpr fun heq => hword (heq ▸ hbyte)
  obtain rfl | ⟨more, rfl⟩ := hrest
  · rw [List.append_nil, words, List.splitOn_eq_singleton_of_beq_eq_false hsplit]
    simp [hnonempty, words]
  · rw [words_space, words, List.splitOn_eq_splitOnP,
      List.splitOnP_append_cons_of_forall_mem hsplit 32 rfl]
    simp [hnonempty, words, List.splitOn_eq_splitOnP]

/-- The words of a line by the cursor. -/
theorem inlineArgs_eq (hat : At data p (line ++ rest)) :
    inlineArgs data (p + line.length) p = .found (words line) := by
  induction hsize : line.length using Nat.strong_induction_on generalizing line p with
  | _ size ih =>
      subst hsize
      rcases Nat.eq_zero_or_pos line.length with hzero | hpos
      · rw [List.eq_nil_of_length_eq_zero hzero, inlineArgs, dif_neg (by simp)]
        rfl
      -- the spaces before the word, the word, and what is behind it
      have hspaces := List.takeWhile_append_dropWhile (p := (· = (32 : UInt8)))
        (l := line)
      generalize hbefore : line.takeWhile (· = (32 : UInt8)) = spaces at hspaces
      generalize hbehind : line.dropWhile (· = (32 : UInt8)) = behind at hspaces
      have hword := List.takeWhile_append_dropWhile (p := (· ≠ (32 : UInt8)))
        (l := behind)
      generalize hinside : behind.takeWhile (· ≠ (32 : UInt8)) = word at hword
      generalize hmore : behind.dropWhile (· ≠ (32 : UInt8)) = more at hword
      have hfirst := hat.scanWhile (· = (32 : UInt8))
      rw [hbefore] at hfirst
      have hstart : At data (p + spaces.length) (behind ++ rest) := by
        rw [← hspaces, List.append_assoc] at hat
        exact hat.append
      have hend : p + line.length = p + spaces.length + behind.length := by
        rw [← hspaces, List.length_append]
        omega
      have hsecond := hstart.scanWhile (· ≠ (32 : UInt8))
      rw [hinside, ← hend] at hsecond
      have hwords : words line = words behind := by
        rw [← hbehind, words_dropWhile]
      rw [inlineArgs, dif_pos (by omega)]
      split
      · rename_i heq
        rw [hfirst] at heq
        cases heq
      · rename_i heq
        rw [hfirst] at heq
        cases heq
      · rename_i start heq
        rw [hfirst] at heq
        cases heq
        split
        · rename_i hlimit
          have hnil : behind = [] := List.eq_nil_of_length_eq_zero (by omega)
          rw [hwords, hnil]
          rfl
        · rename_i hlimit
          split
          · rename_i heq
            rw [hsecond] at heq
            cases heq
          · rename_i heq
            rw [hsecond] at heq
            cases heq
          · rename_i stop heq
            rw [hsecond] at heq
            cases heq
            have hnonempty : word ≠ [] := by
              rintro rfl
              rw [List.nil_append] at hword
              obtain ⟨byte, tail, rfl⟩ := List.exists_cons_of_length_pos
                (show 0 < behind.length by omega)
              have hhead := List.head?_dropWhile_not (· = (32 : UInt8)) line
              have hhead' := List.head?_dropWhile_not (· ≠ (32 : UInt8)) (byte :: tail)
              rw [hbehind] at hhead
              rw [hmore, hword] at hhead'
              simp only [List.head?_cons, decide_eq_false_iff_not] at hhead hhead'
              exact hhead' hhead
            have hspace : 32 ∉ word := by
              intro hmem
              rw [← hinside] at hmem
              simpa using List.mem_takeWhile_imp hmem
            have hmoreSpace : more = [] ∨ ∃ others, more = 32 :: others := by
              cases more with
              | nil => exact .inl rfl
              | cons byte others =>
                  have hhead := List.head?_dropWhile_not (· ≠ (32 : UInt8)) behind
                  rw [hmore] at hhead
                  simp only [List.head?_cons, decide_eq_false_iff_not, not_not] at hhead
                  exact .inr ⟨others, by rw [hhead]⟩
            have hstop : At data (p + spaces.length + word.length) (more ++ rest) := by
              rw [← hword, List.append_assoc] at hstart
              exact hstart.append
            have hbytes : behind.length = word.length + more.length := by
              rw [← hword, List.length_append]
            have hwordPos := List.length_pos_iff.mpr hnonempty
            have hothers := ih more.length (by omega) hstop rfl
            rw [show p + line.length = p + spaces.length + word.length + more.length by
              omega, hothers, found_bind, hwords, ← hword,
              words_word hspace hnonempty hmoreSpace, hstart.drop, ← hword,
              Nat.add_sub_cancel_left, List.append_assoc, List.take_left]

end Inline

section Requests

open Scan RespScan

variable {data rest : List UInt8}

/-- An array is a count and so many bulk strings. -/
theorem detectRequestBoundary_array (hlong : ¬ (42 :: rest).length < 4) :
    detectRequestBoundary (42 :: rest) = ((takeCount rest).bind fun count =>
      skipBulks count.1 count.2).map fun tail => (42 :: rest).length - tail.length := by
  rw [UltraNet.detectRequestBoundary, if_neg hlong]
  cases takeCount rest with
  | none => rfl
  | some count => rfl

/-- Anything else is a line. -/
theorem detectRequestBoundary_inline {first : UInt8} (hfirst : first ≠ 42)
    (hlong : ¬ (first :: rest).length < 4) :
    detectRequestBoundary (first :: rest) = (takeLine (first :: rest)).map
      fun line => (first :: rest).length - line.2.length := by
  unfold UltraNet.detectRequestBoundary
  rw [if_neg hlong]
  split
  · rename_i heq
    exact absurd (List.cons.inj heq).1 hfirst
  · rfl

theorem parseRequest_array (rest : List UInt8) :
    parseRequest (42 :: rest) = ((takeCount rest).bind fun count =>
      takeBulks count.1 count.2).map fun args =>
        (args.1, (42 :: rest).length - args.2.length) := by
  rw [UltraNet.parseRequest]
  cases takeCount rest with
  | none => rfl
  | some count => rfl

theorem parseRequest_inline {first : UInt8} (hfirst : first ≠ 42) :
    parseRequest (first :: rest) = (takeLine (first :: rest)).map
      fun line => (words line.1, (first :: rest).length - line.2.length) := by
  unfold UltraNet.parseRequest
  split
  · rename_i heq
    cases heq
  · rename_i heq
    exact absurd (List.cons.inj heq).1 hfirst
  · rfl

theorem LineAt.behind {found : List UInt8 × List UInt8} {cr : Nat}
    (hline : LineAt data found cr) : data.length - found.2.length = cr + 2 := by
  have hlength := congrArg List.length hline.data
  rw [hline.cr]
  simp only [List.length_append, List.length_cons] at hlength
  omega

/-- Inline commands have no counts. -/
theorem not_requestOverflow {ended : SkippedBulk → Prop} {first : UInt8}
    (hfirst : first ≠ 42) : ¬ RequestOverflow ended (first :: rest) :=
  fun hover => hfirst (Option.some.inj hover.array)

/-- `detect_request_boundary` does what its reader does, up to a long run. -/
theorem detectRequestBoundary_follows (data : List UInt8) :
    Follows (RequestOverflow (fun _ => True) data) (detectRequestBoundary data)
      (· = ·) (RespScan.detectRequestBoundary data) := by
  rw [RespScan.detectRequestBoundary]
  by_cases hshort : data.length < 4
  · rw [if_pos hshort]
    refine .short (fun hover => ?_) (if_pos hshort)
    have := hover.length
    omega
  · rw [if_neg hshort]
    obtain ⟨first, rest, rfl⟩ := List.exists_cons_of_length_pos
      (show 0 < data.length by omega)
    have hat := At.zero (first :: rest)
    rw [hat.readAt, found_bind]
    by_cases hfirst : first = 42
    · subst hfirst
      have hbulks : ∀ (count : Nat × List UInt8) (reached : Int × Nat),
          CountAt (42 :: rest) count reached →
          Follows (BulksStartLong skipBulk count.1 count.2)
            (skipBulks count.1 count.2) (fun tail q => At (42 :: rest) q tail)
            (boundaryBulks (42 :: rest) reached.1.toNat reached.2) := by
        intro count reached hreached
        rw [hreached.value, Int.toNat_natCast]
        exact boundaryBulks_follows hreached.at_rest
      rw [if_pos rfl, hat.advance_one, found_bind,
        detectRequestBoundary_array hshort]
      refine (((boundaryCount_follows hat.next).bind fun count reached _ hreached =>
        hbulks count reached hreached).congr
          (requestOverflow_iff skipBulk_next).symm rfl).map ?_
      intro tail q _ hq
      exact hq.eq_sub.symm
    · rw [if_neg hfirst, detectRequestBoundary_inline hfirst hshort]
      have hfound : ∀ (line : List UInt8 × List UInt8) (cr : Nat),
          LineAt (first :: rest) line cr →
          Follows False (some ((first :: rest).length - line.2.length)) (· = ·)
            (.found (cr + 2)) :=
        fun line cr hline => .found not_false rfl hline.behind
      refine ((inlineEnd_follows (first :: rest)).bind fun line cr _ hline =>
        hfound line cr hline).congr ?_ Option.map_eq_bind.symm
      simp [not_requestOverflow hfirst]

/-- `parse_request` does what its reader does, up to a long run. -/
theorem parseRequest_follows (data : List UInt8) :
    Follows (RequestOverflow (fun bulk => bulk.ending = crlf) data) (parseRequest data)
      (· = ·) (RespScan.parseRequest data) := by
  rw [RespScan.parseRequest]
  cases data with
  | nil =>
      rw [if_pos List.length_nil]
      exact .short (fun hover => by cases hover.array) rfl
  | cons first rest =>
      have hat := At.zero (first :: rest)
      rw [if_neg (by simp), hat.readAt, found_bind]
      by_cases hfirst : first = 42
      · subst hfirst
        have hbulks : ∀ (count : Nat × List UInt8) (reached : Int × Nat),
            CountAt (42 :: rest) count reached →
            Follows (BulksStartLong takeBulkRest count.1 count.2)
              (takeBulks count.1 count.2) (ArgsAt (42 :: rest))
              (parseBulks (42 :: rest) reached.1.toNat reached.2) := by
          intro count reached hreached
          rw [hreached.value, Int.toNat_natCast]
          exact parseBulks_follows hreached.at_rest
        rw [if_pos rfl, hat.advance_one, found_bind, parseRequest_array]
        refine (((parseCount_follows hat.next).bind fun count reached _ hreached =>
          hbulks count reached hreached).congr
            (requestOverflow_iff takeBulkRest_next).symm rfl).map ?_
        intro args reached _ hreached
        rw [← hreached.at_rest.eq_sub, ← hreached.value]
      · rw [if_neg hfirst, parseRequest_inline hfirst]
        have hfound : ∀ (line : List UInt8 × List UInt8) (cr : Nat),
            LineAt (first :: rest) line cr →
            Follows False
              (some (words line.1, (first :: rest).length - line.2.length)) (· = ·)
              (inlineArgs (first :: rest) cr 0 >>= fun args =>
                .found (args, cr + 2)) := by
          intro line cr hline
          have hfront : At (first :: rest) 0 (line.1 ++ 13 :: 10 :: line.2) := by
            rw [← hline.data]
            exact hat
          have hargs := inlineArgs_eq hfront
          rw [Nat.zero_add, ← hline.cr] at hargs
          rw [hargs, found_bind]
          exact .found not_false rfl (by rw [hline.behind])
        refine ((inlineEnd_follows (first :: rest)).bind fun line cr _ hline =>
          hfound line cr hline).congr ?_ Option.map_eq_bind.symm
        simp [not_requestOverflow hfirst]

end Requests

end UltraNet
