/-
`detect_response` by its cursor: it finds just the whole values, up to a long
run of digits where it looks for a length or a count.
-/
import UltraNet.RespFaults

namespace UltraNet

/-- `detect_response` comes to a long run: the length or the count at the front
is one, or it is in an element behind whole ones. -/
inductive ResponseOverflow : List UInt8 → Prop
  | length (type : UInt8) (negative : Bool) (tail : List UInt8)
      (htype : type = 36 ∨ type = 42) (hlong : StartsLong tail) :
      ResponseOverflow (type :: (signText negative ++ tail))
  | element (count : List UInt8) (n : Nat) (values : List (List UInt8))
      (rest : List UInt8) (hcount : DigitRun count n)
      (hvalues : ∀ value ∈ values, WholeValue value) (hshort : values.length < n)
      (hrest : ResponseOverflow rest) :
      ResponseOverflow (42 :: (count ++ crlf ++ (values.flatten ++ rest)))

open Scan RespScan

section Length

variable {data rest tail : List UInt8} {p : Nat}

theorem responseText_follows (hat : At data p rest) :
    Follows False (findCrlf rest) (fun size q => p + size = q) (responseText data p) := by
  induction rest generalizing p with
  | nil =>
      rw [responseText, if_neg hat.not_lt]
      exact .short not_false rfl
  | cons byte tail ih =>
      have hnext : Follows False ((findCrlf tail).map (· + 1)) (fun size q => p + size = q)
          (responseText data (p + 1)) :=
        (ih hat.next).map fun size q _ hq => by omega
      rw [responseText, if_pos hat.lt, hat.readAt, found_bind]
      cases tail with
      | nil =>
          rw [if_neg (fun hcr => hat.next.not_lt hcr.2), findCrlf]
          · exact hnext
          · intro others _ heq
            cases heq
      | cons second tail =>
          by_cases hcr : byte = 13
          · rw [if_pos ⟨hcr, hat.next.lt⟩, hat.next.readAt, found_bind]
            by_cases hlf : second = 10
            · rw [if_pos hlf, hcr, hlf]
              exact .found not_false rfl rfl
            · rw [if_neg hlf, findCrlf]
              · exact hnext
              · intro others _ heq
                exact hlf (List.cons.inj heq).1
          · rw [if_neg (fun h => hcr h.1), findCrlf]
            · exact hnext
            · intro others heq _
              exact hcr heq

/-- A long run begins with a digit. -/
theorem StartsLong.isDigit {byte : UInt8} (hlong : StartsLong (byte :: tail)) :
    isDigit byte = true := by
  obtain ⟨run, rest, hrun, heq⟩ := hlong
  cases run with
  | nil => exact absurd hrun.length (by decide)
  | cons first run =>
      obtain ⟨rfl, -⟩ := List.cons.inj heq
      exact List.all_eq_true.mp hrun.digits byte List.mem_cons_self

/-- A long run behind a sign that may be there. -/
def SignedStartsLong (data : List UInt8) : Prop :=
  ∃ negative tail, StartsLong tail ∧ data = signText negative ++ tail

theorem signedStartsLong_minus : SignedStartsLong (45 :: tail) ↔ StartsLong tail := by
  refine ⟨?_, fun hlong => ⟨true, tail, hlong, rfl⟩⟩
  rintro ⟨negative, rest, hlong, heq⟩
  cases negative with
  | true => exact (List.cons.inj heq).2 ▸ hlong
  | false =>
      have hrest : 45 :: tail = rest := heq
      rw [← hrest] at hlong
      exact absurd hlong.isDigit (by decide)

theorem signedStartsLong_digits {byte : UInt8} (hbyte : byte ≠ 45) :
    SignedStartsLong (byte :: tail) ↔ StartsLong (byte :: tail) := by
  refine ⟨?_, fun hlong => ⟨false, _, hlong, rfl⟩⟩
  rintro ⟨negative, rest, hlong, heq⟩
  cases negative with
  | true => exact absurd (List.cons.inj heq).1 hbyte
  | false =>
      have hrest : byte :: tail = rest := heq
      exact hrest ▸ hlong

/-- A length with its sign and the bytes behind it, as a cursor has them. -/
structure LengthAt (data : List UInt8) (length : Bool × Nat × List UInt8)
    (reached : Bool × Int × Nat) : Prop where
  negative : reached.1 = length.1
  value : reached.2.1 = length.2.1
  at_rest : At data reached.2.2 length.2.2

theorem responseLength_follows (hat : At data p rest) :
    Follows (SignedStartsLong rest) (takeLength rest) (LengthAt data)
      (responseLength data p) := by
  have hcount : ∀ (negative : Bool) (tail : List UInt8) (q : Nat), At data q tail →
      Follows (StartsLong tail)
        ((takeCount tail).map fun count => (negative, count.1, count.2)) (LengthAt data)
        (boundaryCount data q >>= fun reached =>
          .found (negative, reached.1, reached.2)) := by
    intro negative tail q hq
    have hfound : ∀ (count : Nat × List UInt8) (reached : Int × Nat),
        CountAt data count reached →
        Follows False (some (negative, count.1, count.2)) (LengthAt data)
          (.found (negative, reached.1, reached.2)) :=
      fun count reached hreached => .found not_false rfl
        ⟨rfl, hreached.value, hreached.at_rest⟩
    exact ((boundaryCount_follows hq).bind fun count reached _ hreached =>
      hfound count reached hreached).congr (by simp) Option.map_eq_bind.symm
  rw [responseLength]
  cases rest with
  | nil =>
      rw [if_neg hat.not_lt]
      refine .short ?_ rfl
      rintro ⟨negative, tail, hlong, heq⟩
      have := hlong.length
      have hlength := congrArg List.length heq
      simp only [List.length_nil, List.length_append] at hlength
      omega
  | cons byte tail =>
      rw [if_pos hat.lt, hat.readAt, found_bind, skipSign]
      by_cases hminus : byte = 45
      · rw [if_pos hminus, hat.advance_one, found_bind, decide_eq_true hminus, hminus]
        exact (hcount true tail _ hat.next).congr signedStartsLong_minus.symm rfl
      · rw [if_neg hminus, found_bind, decide_eq_false hminus]
        refine (hcount false _ _ hat).congr (signedStartsLong_digits hminus).symm ?_
        rw [takeLength]
        intro others heq
        exact absurd (List.cons.inj heq).1 hminus

end Length

section Response

variable {data rest tail : List UInt8}

/-- The value of `detect_response`, where 0 is none. -/
def foundResponse (data : List UInt8) : Option Nat :=
  if detectResponse data = 0 then none else some (detectResponse data)

/-- One of the elements behind whole ones comes to a long run. -/
def ElementsOverflow (count : Nat) (data : List UInt8) : Prop :=
  ∃ (values : List (List UInt8)) (rest : List UInt8), values.length < count ∧
    (∀ value ∈ values, WholeValue value) ∧ ResponseOverflow rest ∧ data = values.flatten ++ rest

theorem elementsOverflow_succ {value : List UInt8} {count : Nat}
    (hvalue : WholeValue value) (hover : ¬ ResponseOverflow (value ++ tail)) :
    ElementsOverflow (count + 1) (value ++ tail) ↔ ElementsOverflow count tail := by
  refine ⟨?_, ?_⟩
  · rintro ⟨values, rest, hshort, hvalues, hrest, heq⟩
    cases values with
    | nil => exact absurd (heq ▸ hrest) hover
    | cons first values =>
        obtain ⟨hfirst, hothers⟩ := List.forall_mem_cons.mp hvalues
        rw [List.flatten_cons, List.append_assoc] at heq
        -- both are what `detect_response` finds
        have hlength := detectResponse_whole hvalue tail
        rw [heq, detectResponse_whole hfirst] at hlength
        obtain ⟨rfl, htail⟩ := List.append_inj heq hlength.symm
        exact ⟨values, rest, Nat.lt_of_succ_lt_succ hshort, hothers, hrest, htail⟩
  · rintro ⟨values, rest, hshort, hvalues, hrest, rfl⟩
    exact ⟨value :: values, rest, Nat.succ_lt_succ hshort,
      List.forall_mem_cons.mpr ⟨hvalue, hvalues⟩, hrest, by simp⟩

theorem detectElements_follows {count : Nat}
    (hvalue : ∀ rest : List UInt8, rest.length ≤ data.length →
      Follows (ResponseOverflow rest) (foundResponse rest) (· = ·)
        (RespScan.detectResponse rest)) :
    Follows (ElementsOverflow count data) (detectElements count data) (· = ·)
      (RespScan.detectElements count data) := by
  induction count generalizing data with
  | zero =>
      rw [RespScan.detectElements, UltraNet.detectElements]
      refine .found ?_ rfl rfl
      rintro ⟨values, rest, hshort, -⟩
      exact Nat.not_lt_zero _ hshort
  | succ count ih =>
      have hfirst := hvalue data (Nat.le_refl _)
      rw [RespScan.detectElements]
      generalize hscan : RespScan.detectResponse data = scan at hfirst
      cases hfirst with
      | overflow hover =>
          exact .overflow ⟨[], data, Nat.succ_pos _, by simp, hover, rfl⟩
      | short hover hnone =>
          have hzero : detectResponse data = 0 := by
            by_contra hne
            rw [foundResponse, if_neg hne] at hnone
            cases hnone
          refine .short ?_ (detectElements_none hzero)
          rintro ⟨values, rest, hshort, hvalues, hrest, rfl⟩
          cases values with
          | nil => exact hover hrest
          | cons value values =>
              have hwhole := hvalues value List.mem_cons_self
              rw [List.flatten_cons, List.append_assoc,
                detectResponse_whole hwhole] at hzero
              have := hwhole.length_pos
              omega
      | found hover hsome hrel =>
          rename_i size consumed
          subst hrel
          have hne : detectResponse data ≠ 0 := by
            intro hzero
            rw [foundResponse, if_pos hzero] at hsome
            cases hsome
          rw [foundResponse, if_neg hne, Option.some.injEq] at hsome
          have hpos : 0 < detectResponse data := Nat.pos_of_ne_zero hne
          obtain ⟨value, tail, hwhole, rfl⟩ := exists_whole data hpos
          rw [detectResponse_whole hwhole] at hsome
          subst hsome
          have hmove := (At.zero (value ++ tail)).advance (n := value.length) (by simp)
          rw [Nat.zero_add] at hmove
          simp only [hmove, found_bind]
          have hothers := ih fun rest (hrest : rest.length ≤ tail.length) =>
            hvalue rest (by rw [List.length_append]; omega)
          rw [detectElements_succ hpos, detectResponse_whole hwhole, List.drop_left]
          have hadd : ∀ a b : Nat, a = b →
              Follows False (some (value.length + a)) (· = ·)
                (Scan.found (value.length + b)) :=
            fun a b hab => .found not_false rfl (by rw [hab])
          refine (hothers.bind fun a b _ hab => hadd a b hab).congr ?_ ?_
          · rw [elementsOverflow_succ hwhole hover]
            simp
          · exact Option.map_eq_bind.symm

theorem responseOverflow_bulk :
    ResponseOverflow (36 :: rest) ↔ SignedStartsLong rest := by
  refine ⟨fun hover => ?_, ?_⟩
  · generalize hdata : 36 :: rest = data at hover
    cases hover with
    | length type negative tail htype hlong =>
        exact ⟨negative, tail, hlong, (List.cons.inj hdata).2⟩
    | element count n values behind hcount hvalues hshort hrest => cases hdata
  · rintro ⟨negative, tail, hlong, rfl⟩
    exact .length 36 negative tail (.inl rfl) hlong

theorem responseOverflow_array :
    ResponseOverflow (42 :: rest) ↔ SignedStartsLong rest ∨
      ∃ n tail, takeLength rest = some (false, n, tail) ∧ ElementsOverflow n tail := by
  refine ⟨fun hover => ?_, ?_⟩
  · generalize hdata : 42 :: rest = data at hover
    cases hover with
    | length type negative tail htype hlong =>
        exact .inl ⟨negative, tail, hlong, (List.cons.inj hdata).2⟩
    | element count n values behind hcount hvalues hshort hrest =>
        exact .inr ⟨n, _, takeLength_eq_some.mpr ⟨count, hcount, (List.cons.inj hdata).2⟩,
          values, behind, hshort, hvalues, hrest, rfl⟩
  · rintro (⟨negative, tail, hlong, rfl⟩ | ⟨n, tail, hlength, hover⟩)
    · exact .length 42 negative tail (.inr rfl) hlong
    · obtain ⟨count, hcount, rfl⟩ := takeLength_eq_some.mp hlength
      obtain ⟨values, behind, hshort, hvalues, hrest, rfl⟩ := hover
      exact .element count n values behind hcount hvalues hshort hrest

theorem responseOverflow_type {type : UInt8} (hover : ResponseOverflow (type :: rest)) :
    type = 36 ∨ type = 42 := by
  generalize hdata : type :: rest = data at hover
  cases hover with
  | length other negative tail htype hlong =>
      exact (List.cons.inj hdata).1 ▸ htype
  | element count n values behind hcount hvalues hshort hrest =>
      exact .inr (List.cons.inj hdata).1

theorem foundResponse_bulk (rest : List UInt8) :
    foundResponse (36 :: rest) = (takeLength rest).bind fun length =>
      if length.1 then some ((36 :: rest).length - length.2.2.length)
      else if length.2.2.length < length.2.1 + 2 then none
      else some ((36 :: rest).length - length.2.2.length + length.2.1 + 2) := by
  cases hlength : takeLength rest with
  | none =>
      rw [foundResponse, if_pos (detectResponse_no_length (.inl rfl) hlength)]
      rfl
  | some length =>
      obtain ⟨negative, n, tail⟩ := length
      obtain ⟨text, hrun, rfl⟩ := takeLength_eq_some.mp hlength
      cases negative with
      | true =>
          rw [foundResponse, detectResponse_null (.inl rfl) hlength, if_neg]
          · rfl
          · simp only [List.length_cons, List.length_append]
            omega
      | false =>
          rw [foundResponse, detectResponse_bulk hlength]
          simp only [Option.bind_some, Bool.false_eq_true, if_false]
          split
          · rfl
          · rw [if_neg (by omega)]

theorem detectBulk_follows (hat : At (36 :: rest) 1 rest) :
    Follows (ResponseOverflow (36 :: rest)) (foundResponse (36 :: rest)) (· = ·)
      (responseLength (36 :: rest) 1 >>= fun length =>
        if length.1 then .found length.2.2
        else if length.2.2 + length.2.1 + 2 > (36 :: rest).length then .short
        else .found (length.2.2 + length.2.1 + 2).toNat) := by
  have hcontent : ∀ (length : Bool × Nat × List UInt8) (reached : Bool × Int × Nat),
      LengthAt (36 :: rest) length reached →
      Follows False (if length.1 then some ((36 :: rest).length - length.2.2.length)
          else if length.2.2.length < length.2.1 + 2 then none
          else some ((36 :: rest).length - length.2.2.length + length.2.1 + 2)) (· = ·)
        (if reached.1 then .found reached.2.2
          else if reached.2.2 + reached.2.1 + 2 > (36 :: rest).length then .short
          else .found (reached.2.2 + reached.2.1 + 2).toNat) := by
    intro length reached hreached
    have hend := hreached.at_rest.length
    rw [hreached.negative, hreached.value]
    cases length.1 with
    | true => exact .found not_false rfl hreached.at_rest.eq_sub.symm
    | false =>
        simp only [Bool.false_eq_true, if_false]
        by_cases hshort : length.2.2.length < length.2.1 + 2
        · rw [if_pos hshort, if_pos (by omega)]
          exact .short not_false rfl
        · rw [if_neg hshort, if_neg (by omega)]
          exact .found not_false rfl (by omega)
  exact ((responseLength_follows hat).bind fun length reached _ hreached =>
    hcontent length reached hreached).congr (by simp [responseOverflow_bulk])
      (foundResponse_bulk rest).symm

/-- `detect_response` does what its reader does, up to a long run. -/
theorem detectResponse_follows (data : List UInt8) :
    Follows (ResponseOverflow data) (foundResponse data) (· = ·)
      (RespScan.detectResponse data) := by
  induction hsize : data.length using Nat.strong_induction_on generalizing data with
  | _ size ih =>
      subst hsize
      cases data with
      | nil =>
          rw [RespScan.detectResponse]
          refine .short (fun hover => ?_) (by rw [foundResponse, UltraNet.detectResponse]; rfl)
          cases hover
      | cons type rest =>
          have hat : At (type :: rest) 1 rest := (At.zero (type :: rest)).next
          by_cases htext : type = 43 ∨ type = 45 ∨ type = 58
          · rw [RespScan.detectResponse, if_pos htext]
            have hnot : ¬ ResponseOverflow (type :: rest) := fun hover => by
              rcases responseOverflow_type hover with rfl | rfl
              · exact absurd htext (by decide)
              · exact absurd htext (by decide)
            refine ((responseText_follows hat).map fun size q _ hq =>
              (Nat.add_comm size 1).trans hq).congr (iff_of_false not_false hnot) ?_
            rw [foundResponse, detectResponse_text htext]
            cases findCrlf rest with
            | none => rfl
            | some size => rfl
          · by_cases hbulk : type = 36
            · subst hbulk
              rw [RespScan.detectResponse, if_neg htext, if_pos rfl]
              exact detectBulk_follows hat
            · by_cases harray : type = 42
              · subst harray
                rw [RespScan.detectResponse, if_neg htext, if_neg hbulk, if_pos rfl]
                have hlength := responseLength_follows hat
                split
                · rename_i heq
                  rw [heq] at hlength
                  cases hlength with
                  | short hover hnone =>
                      exact .short (by simp [responseOverflow_array, hover, hnone])
                        (by rw [foundResponse, if_pos
                          (detectResponse_no_length (.inr rfl) hnone)])
                · rename_i what heq
                  rw [heq] at hlength
                  cases hlength with
                  | overflow hover =>
                      exact .overflow (responseOverflow_array.mpr (.inl hover))
                · rename_i value p heq
                  rw [heq] at hlength
                  cases hlength with
                  | found hover hsome hreached =>
                      rename_i length
                      obtain ⟨negative, n, tail⟩ := length
                      obtain rfl : true = negative := hreached.negative
                      have hend : p + tail.length = (42 :: rest).length :=
                        hreached.at_rest.length
                      have hpos : detectResponse (42 :: rest) = p := by
                        rw [detectResponse_null (.inr rfl) hsome]
                        omega
                      have hp := responseLength_lt heq
                      refine .found ?_ (by rw [foundResponse, hpos, if_neg (by omega)]) rfl
                      simp [responseOverflow_array, hover, hsome]
                · rename_i count p heq
                  rw [heq] at hlength
                  cases hlength with
                  | found hover hsome hreached =>
                      rename_i length
                      obtain ⟨negative, n, tail⟩ := length
                      obtain rfl : false = negative := hreached.negative
                      have hend : p + tail.length = (42 :: rest).length :=
                        hreached.at_rest.length
                      have hdrop : (42 :: rest).drop p = tail := hreached.at_rest.drop
                      have hcount : count = (n : Int) := hreached.value
                      have hp := responseLength_lt heq
                      have helements : Follows (ElementsOverflow n tail)
                          (detectElements n tail) (· = ·)
                          (RespScan.detectElements n tail) :=
                        detectElements_follows fun other hother =>
                          ih other.length (by omega) other rfl
                      have hadd : ∀ a b : Nat, a = b →
                          Follows False (some (p + a)) (· = ·) (Scan.found (p + b)) :=
                        fun a b hab => .found not_false rfl (by rw [hab])
                      rw [hdrop, hcount, Int.toNat_natCast]
                      refine (helements.bind fun a b _ hab => hadd a b hab).congr ?_ ?_
                      · simp [responseOverflow_array, hover, hsome]
                      · rw [foundResponse, detectResponse_array hsome]
                        cases detectElements n tail with
                        | none => rfl
                        | some size =>
                            simp only [Option.map_some, Option.getD_some,
                              Option.bind_some]
                            rw [if_neg (by omega), Option.some.injEq]
                            omega
              · have hother : ¬ (type = 36 ∨ type = 42) := not_or.mpr ⟨hbulk, harray⟩
                rw [RespScan.detectResponse, if_neg htext, if_neg hbulk, if_neg harray]
                refine .short (fun hover => hother (responseOverflow_type hover)) ?_
                rw [foundResponse, if_pos (detectResponse_other htext hother)]

end Response

theorem StartsLong.append (hlong : StartsLong rest) (more : List UInt8) :
    StartsLong (rest ++ more) := by
  obtain ⟨run, tail, hrun, rfl⟩ := hlong
  exact ⟨run, tail ++ more, hrun, List.append_assoc ..⟩

/-- More bytes do not take a long run away. -/
theorem ResponseOverflow.append (hover : ResponseOverflow data) (more : List UInt8) :
    ResponseOverflow (data ++ more) := by
  induction hover with
  | length type negative tail htype hlong =>
      have hmore := ResponseOverflow.length type negative _ htype (hlong.append more)
      rwa [← List.append_assoc, ← List.cons_append] at hmore
  | element count n values rest hcount hvalues hshort hrest ih =>
      have hmore := ResponseOverflow.element count n values _ hcount hvalues hshort ih
      simpa using hmore

theorem startsLong_run {text : List UInt8} {n : Nat} (hrun : DigitRun text n)
    (rest : List UInt8) : StartsLong (text ++ crlf ++ rest) ↔ 2 ^ 63 ≤ n := by
  rw [startsLong_iff, takeWhile_run hrun, hrun.value]

theorem signedStartsLong_run {text : List UInt8} {n : Nat} (hrun : DigitRun text n)
    (rest : List UInt8) : SignedStartsLong (text ++ crlf ++ rest) ↔ 2 ^ 63 ≤ n := by
  rw [← startsLong_run hrun rest]
  cases text with
  | nil => exact signedStartsLong_digits (by decide)
  | cons byte text =>
      refine signedStartsLong_digits ?_
      rintro rfl
      have hdigit := List.all_eq_true.mp hrun.digits 45 List.mem_cons_self
      exact absurd hdigit (by decide)

namespace RespValue

theorem length_wires (values : List RespValue) : values.length ≤ (wires values).length := by
  induction values with
  | nil => exact Nat.le_refl _
  | cons value values ih =>
      have := value.wire_length_pos
      rw [wires, List.length_cons, List.length_append]
      omega

theorem not_overflow_null {type : UInt8} (htype : type = 36 ∨ type = 42)
    (rest : List UInt8) : ¬ ResponseOverflow (type :: 45 :: ([49] ++ crlf ++ rest)) := by
  have hshort : ¬ SignedStartsLong (45 :: ([49] ++ crlf ++ rest)) := by
    rw [signedStartsLong_minus, startsLong_run (n := 1) ⟨rfl, rfl⟩]
    decide
  intro hover
  rcases htype with rfl | rfl
  · exact hshort (responseOverflow_bulk.mp hover)
  · rcases responseOverflow_array.mp hover with hlong | ⟨n, tail, hlength, -⟩
    · exact hshort hlong
    · cases hlength

mutual

/-- No length in a value is larger than the value. -/
theorem not_overflow : (value : RespValue) → value.Legal → value.wire.length < 2 ^ 63 →
    (rest : List UInt8) → ¬ ResponseOverflow (value.wire ++ rest)
  | .text type content, _, _, rest => fun hover => by
      have htype := byte_textType type
      rcases responseOverflow_type hover with heq | heq
      · rw [heq] at htype
        exact absurd htype (by decide)
      · rw [heq] at htype
        exact absurd htype (by decide)
  | .nullBulk, _, _, rest => not_overflow_null (.inl rfl) rest
  | .bulk length content, hlegal, hfits, rest => by
      have htext : (bulk length content).wire ++ rest =
          36 :: (length ++ crlf ++ (content ++ crlf ++ rest)) := by
        simp [wire, bulkText]
      rw [htext, responseOverflow_bulk, signedStartsLong_run hlegal.run]
      simp only [wire, bulkText, List.length_cons, List.length_append] at hfits
      omega
  | .nullArray, _, _, rest => not_overflow_null (.inr rfl) rest
  | .array count elements, hlegal, hfits, rest => by
      have htext : (array count elements).wire ++ rest =
          42 :: (count ++ crlf ++ (wires elements ++ rest)) := by
        simp [wire]
      have hcount := length_wires elements
      simp only [wire, List.length_cons, List.length_append] at hfits
      rw [htext, responseOverflow_array, signedStartsLong_run hlegal.1.run]
      rintro (hlong | ⟨n, tail, hlength, hover⟩)
      · omega
      · have htake : takeLength (signText false ++
            (count ++ crlf ++ (wires elements ++ rest))) =
              some (false, elements.length, wires elements ++ rest) :=
          takeLength_run hlegal.1.run _
        rw [show signText false ++ (count ++ crlf ++ (wires elements ++ rest)) =
          count ++ crlf ++ (wires elements ++ rest) from rfl, hlength] at htake
        cases htake
        exact elements_not_overflow elements hlegal.2 (by omega) rest hover

theorem elements_not_overflow : (values : List RespValue) → AllLegal values →
    (wires values).length < 2 ^ 63 → (rest : List UInt8) →
      ¬ ElementsOverflow values.length (wires values ++ rest)
  | [], _, _, rest => fun hover => by
      obtain ⟨values, tail, hshort, -⟩ := hover
      exact Nat.not_lt_zero _ hshort
  | value :: values, hlegal, hfits, rest => by
      rw [wires, List.length_append] at hfits
      rw [wires, List.append_assoc, List.length_cons,
        elementsOverflow_succ (whole_wire value hlegal.1)
          (not_overflow value hlegal.1 (by omega) _)]
      exact elements_not_overflow values hlegal.2 (by omega) rest

end

/-- `detect_response` finds a value with anything behind it, and nothing in a
strict prefix of one.  The cursor does so in every buffer that an `int64_t` can
measure. -/
theorem detect_response_exact {value : RespValue} (hlegal : value.Legal) :
    (∀ rest, detectResponse (value.wire ++ rest) = value.wire.length ∧
      (value.wire.length < 2 ^ 63 →
        (RespScan.detectResponse (value.wire ++ rest)).returned =
          .ok value.wire.length)) ∧
    ∀ part, part <+: value.wire → part ≠ value.wire → detectResponse part = 0 ∧
      (value.wire.length < 2 ^ 63 →
        (RespScan.detectResponse part).returned = .ok 0) := by
  refine ⟨fun rest => ⟨detect_wire hlegal rest, fun hfits => ?_⟩,
    fun part hpart hstrict => ?_⟩
  · have hreturned := (detectResponse_follows _).returned
      (not_overflow value hlegal hfits rest)
    have hpos := value.wire_length_pos
    rw [foundResponse, detect_wire hlegal, if_neg (by omega)] at hreturned
    exact hreturned
  · obtain ⟨more, hsplit⟩ := hpart
    have hmore : more ≠ [] := by
      rintro rfl
      exact hstrict (by simpa using hsplit)
    have hzero := detect_part hlegal hsplit hmore
    refine ⟨hzero, fun hfits => ?_⟩
    have hover : ¬ ResponseOverflow part := fun hover => by
      have hwhole := not_overflow value hlegal hfits []
      rw [List.append_nil, ← hsplit] at hwhole
      exact hwhole (hover.append more)
    have hreturned := (detectResponse_follows part).returned hover
    rw [foundResponse, if_pos hzero] at hreturned
    exact hreturned

/-- A line break in a bulk string and a null in an array. -/
def nestedReply : RespValue :=
  .array (ascii "3") [.bulk (ascii "2") crlf, .nullBulk, .text .simple (ascii "OK")]

theorem detect_response_exact_nested :
    (RespScan.detectResponse (ascii "*3\r\n$2\r\n\r\n\r\n$-1\r\n+OK\r\n:1")).returned =
      .ok 22 := by
  have hlegal : nestedReply.Legal :=
    ⟨⟨by decide, rfl, rfl⟩, ⟨by decide, rfl, rfl⟩, trivial, fun hinside =>
      absurd (hinside.subset List.mem_cons_self) (by decide), trivial⟩
  exact ((detect_response_exact hlegal).1 (ascii ":1")).2 (by decide)

end RespValue

end UltraNet
