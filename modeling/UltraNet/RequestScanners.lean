/-
The fast and the full scanner of requests side by side: the fast one skips the
two bytes behind a bulk string unseen and wants four bytes at least.
-/
import UltraNet.ResponseFaults

namespace UltraNet

open Scan

/-- The bytes that `parse_request` reports as consumed. -/
def RespScan.consumed (data : List UInt8) : Scan Nat := do
  let request ← RespScan.parseRequest data
  .found request.2

theorem consumed_follows (data : List UInt8) :
    Follows (RequestOverflow (fun bulk => bulk.ending = crlf) data)
      ((parseRequest data).map Prod.snd) (· = ·) (RespScan.consumed data) := by
  have hsize : ∀ request reached : List (List UInt8) × Nat, request = reached →
      Follows False (some request.2) (· = ·) (Scan.found reached.2) :=
    fun request reached heq => .found not_false rfl (by rw [heq])
  exact ((parseRequest_follows data).bind fun request reached _ heq =>
    hsize request reached heq).congr (by simp) Option.map_eq_bind.symm

section Agreement

variable {rest : List UInt8}

/-- Both scanners return, and with the same request if with any. -/
def ScannersAgree (data : List UInt8) : Prop :=
  ∃ boundary consumed,
    (RespScan.detectRequestBoundary data).returned = .ok boundary ∧
    (RespScan.consumed data).returned = .ok consumed ∧
    (boundary ≠ 0 ↔ consumed ≠ 0) ∧ (boundary ≠ 0 → boundary = consumed)

/-- A request that is whole but for a bulk string with another ending than a
line break. -/
def BrokenEnding (data : List UInt8) : Prop :=
  ∃ count bulks tail, DigitRun count bulks.length ∧
    (∀ bulk ∈ bulks, SkippedBulk.Accepted bulk) ∧
    (∃ bulk ∈ bulks, bulk.ending ≠ crlf) ∧
    data = 42 :: (count ++ crlf ++ (skippedText bulks ++ tail))

theorem RequestOverflow.any {ended : SkippedBulk → Prop} {data : List UInt8}
    (hover : RequestOverflow ended data) : RequestOverflow (fun _ => True) data := by
  obtain ⟨harray, hreached⟩ := hover
  refine ⟨harray, hreached.imp_right ?_⟩
  rintro ⟨count, n, bulks, tail, hcount, hshort, hbulks, hlong, htail⟩
  exact ⟨count, n, bulks, tail, hcount, hshort,
    fun bulk hbulk => ⟨(hbulks bulk hbulk).1, trivial⟩, hlong, htail⟩

theorem takeBulk_broken {bulk : SkippedBulk} (hbulk : bulk.Accepted)
    (hending : bulk.ending ≠ crlf) (rest : List UInt8) :
    takeBulk (bulk.wire ++ rest) = none := by
  cases htake : takeBulk (bulk.wire ++ rest) with
  | none => rfl
  | some found =>
      obtain ⟨arg, tail⟩ := found
      have htext : bulk.wire ++ rest =
          36 :: (bulk.length ++ crlf ++ (bulk.content ++ (bulk.ending ++ rest))) := by
        simp [SkippedBulk.wire]
      rw [htext, takeBulk_eq_bind, takeByte, if_pos rfl, Option.bind_some,
        takeCount_run hbulk.length, Option.bind_some] at htake
      simp only [List.drop_left] at htake
      split at htake
      · cases htake
      · obtain ⟨behind, hbreak, -⟩ := Option.map_eq_some_iff.mp htake
        have htwo := congrArg (List.take 2) (takeBreak_eq_some.mp hbreak)
        rw [List.take_append_of_le_length (by rw [hbulk.ending]),
          List.take_of_length_le (by rw [hbulk.ending])] at htwo
        exact absurd htwo hending

theorem takeBulks_broken {bulks : List SkippedBulk}
    (hbulks : ∀ bulk ∈ bulks, bulk.Accepted) (hbroken : ∃ bulk ∈ bulks, bulk.ending ≠ crlf)
    (rest : List UInt8) : takeBulks bulks.length (skippedText bulks ++ rest) = none := by
  induction bulks with
  | nil =>
      obtain ⟨bulk, hmem, -⟩ := hbroken
      cases hmem
  | cons bulk bulks ih =>
      obtain ⟨hbulk, hothers⟩ := List.forall_mem_cons.mp hbulks
      have htext : skippedText (bulk :: bulks) ++ rest =
          bulk.wire ++ (skippedText bulks ++ rest) := by
        simp [skippedText]
      rw [htext, List.length_cons, takeBulks]
      by_cases hending : bulk.ending = crlf
      · have hlater : ∃ other ∈ bulks, other.ending ≠ crlf := by
          obtain ⟨other, hmem, hother⟩ := hbroken
          rcases List.mem_cons.mp hmem with rfl | hmem
          · exact absurd hending hother
          · exact ⟨other, hmem, hother⟩
        simp only [takeBulk_accepted hbulk hending, ih hothers hlater, Option.map_none]
      · rw [takeBulk_broken hbulk hending]

/-- A buffer shorter than four bytes has no request but the empty array. -/
theorem parseRequest_short (hshort : (42 :: rest).length < 4) (hrest : rest ≠ crlf) :
    parseRequest (42 :: rest) = none := by
  rw [parseRequest_array]
  cases hcount : takeCount rest with
  | none => rfl
  | some count =>
      obtain ⟨digits, hrun, heq⟩ := takeCount_eq_some.mp hcount
      have hlength := congrArg List.length heq
      simp only [List.length_cons, List.length_append, crlf, List.length_nil]
        at hlength hshort
      have hdigits : digits = [] := List.eq_nil_of_length_eq_zero (by omega)
      have htail : count.2 = [] := List.eq_nil_of_length_eq_zero (by omega)
      rw [hdigits, htail] at heq
      exact absurd heq hrest

/-- With all endings in place both readers find the same. -/
theorem readers_agree (hrest : rest ≠ crlf) (hending : ¬ BrokenEnding (42 :: rest)) :
    detectRequestBoundary (42 :: rest) = (parseRequest (42 :: rest)).map Prod.snd := by
  by_cases hshort : (42 :: rest).length < 4
  · rw [parseRequest_short hshort hrest]
    exact if_pos hshort
  · rw [detectRequestBoundary_array hshort, parseRequest_array, Option.map_map]
    cases hcount : takeCount rest with
    | none => rfl
    | some count =>
        obtain ⟨n, behind⟩ := count
        obtain ⟨digits, hrun, rfl⟩ := takeCount_eq_some.mp hcount
        rw [Option.bind_some, Option.bind_some]
        cases hskip : skipBulks n behind with
        | none =>
            cases htake : takeBulks n behind with
            | none => rfl
            | some args => rw [skipBulks_of_takeBulks htake] at hskip; cases hskip
        | some tail =>
            obtain ⟨bulks, rfl, hbulks, rfl⟩ := skipBulks_eq_some.mp hskip
            have hended : ∀ bulk ∈ bulks, bulk.Accepted ∧ bulk.ending = crlf := by
              intro bulk hbulk
              refine ⟨hbulks bulk hbulk, ?_⟩
              by_contra hother
              exact hending ⟨digits, bulks, tail, hrun, hbulks, ⟨bulk, hbulk, hother⟩, rfl⟩
            rw [takeBulks_eq_some.mpr ⟨bulks, rfl, hended, rfl, rfl⟩]
            rfl

theorem detectRequestBoundary_pos {n : Nat}
    (hfound : detectRequestBoundary (42 :: rest) = some n) : 0 < n := by
  by_cases hshort : (42 :: rest).length < 4
  · have hnone : detectRequestBoundary (42 :: rest) = none := if_pos hshort
    rw [hnone] at hfound
    cases hfound
  · rw [detectRequestBoundary_array hshort] at hfound
    obtain ⟨tail, htail, rfl⟩ := Option.map_eq_some_iff.mp hfound
    obtain ⟨count, hcount, hskip⟩ := Option.bind_eq_some_iff.mp htail
    obtain ⟨bulks, -, -, hrest⟩ := skipBulks_eq_some.mp hskip
    have hlength := takeCount_length hcount
    have hbulks := congrArg List.length hrest
    rw [List.length_append] at hbulks
    rw [List.length_cons]
    omega

/-- The two scanners agree on an array unless a count or a length overflows, the
buffer is just the empty array, or a whole request has a broken ending. -/
theorem request_scanners_agree_iff (rest : List UInt8) :
    ScannersAgree (42 :: rest) ↔
      ¬ RequestOverflow (fun _ => True) (42 :: rest) ∧ rest ≠ crlf ∧
        ¬ BrokenEnding (42 :: rest) := by
  have hboundary := detectRequestBoundary_follows (42 :: rest)
  have hconsumed := consumed_follows (42 :: rest)
  refine ⟨?_, ?_⟩
  · rintro ⟨boundary, consumed, hb, hc, hiff, -⟩
    have hover : ¬ RequestOverflow (fun _ => True) (42 :: rest) := by
      intro hover
      generalize RespScan.detectRequestBoundary (42 :: rest) = scan at hboundary hb
      cases hboundary with
      | overflow => cases hb
      | short hnot => exact hnot hover
      | found hnot => exact hnot hover
    rw [hboundary.returned hover, Except.ok.injEq] at hb
    rw [hconsumed.returned (fun h => hover h.any), Except.ok.injEq] at hc
    refine ⟨hover, ?_, ?_⟩
    · rintro rfl
      rw [show detectRequestBoundary (42 :: crlf) = none from rfl] at hb
      rw [show parseRequest (42 :: crlf) = some ([], 3) from rfl] at hc
      exact hiff.mpr (by rw [← hc]; decide) hb.symm
    · rintro ⟨count, bulks, tail, hcount, hbulks, hbroken, heq⟩
      obtain rfl := (List.cons.inj heq).2
      have hlong : ¬ (42 :: (count ++ crlf ++ (skippedText bulks ++ tail))).length < 4 := by
        obtain ⟨bulk, hmem, -⟩ := hbroken
        have hsize := (List.sublist_flatten_of_mem
          (List.mem_map_of_mem (f := SkippedBulk.wire) hmem)).length_le
        rw [← List.flatMap_def] at hsize
        simp only [SkippedBulk.wire, skippedText, List.length_cons, List.length_append,
          crlf, List.length_nil] at hsize ⊢
        omega
      have hskip : skipBulks bulks.length (skippedText bulks ++ tail) = some tail :=
        skipBulks_eq_some.mpr ⟨bulks, rfl, hbulks, rfl⟩
      have hfound := detectRequestBoundary_array hlong
      have hnone : parseRequest (42 :: (count ++ crlf ++ (skippedText bulks ++ tail))) =
          none := by
        rw [parseRequest_array, takeCount_run hcount, Option.bind_some,
          takeBulks_broken hbulks hbroken]
        rfl
      rw [takeCount_run hcount, Option.bind_some, hskip, Option.map_some] at hfound
      rw [hfound, Option.getD_some] at hb
      rw [hnone] at hc
      have hpos := detectRequestBoundary_pos hfound
      exact hiff.mp (by omega) hc.symm
  · rintro ⟨hover, hrest, hending⟩
    have hsame := readers_agree hrest hending
    refine ⟨_, _, hboundary.returned hover, hconsumed.returned (fun h => hover h.any),
      ?_, ?_⟩
    · rw [hsame]
    · exact fun _ => by rw [hsame]

/-- A bulk string that ends in `XX` is forwarded by the fast scanner and is
never whole for the full one. -/
theorem request_scanners_disagree : ¬ ∀ rest, ScannersAgree (42 :: rest) := by
  intro hagree
  obtain ⟨boundary, consumed, hb, hc, hiff, -⟩ := hagree (ascii "1\r\n$1\r\naXX")
  have hover : ¬ RequestOverflow (fun _ => True) (42 :: ascii "1\r\n$1\r\naXX") :=
    fun hover => absurd hover.length (by decide)
  rw [(detectRequestBoundary_follows _).returned hover, Except.ok.injEq] at hb
  rw [(consumed_follows _).returned (fun h => hover h.any), Except.ok.injEq] at hc
  exact hiff.mp (by rw [← hb]; decide) (by rw [← hc]; decide)

end Agreement

section Safety

variable {data : List UInt8}

theorem detectRequestBoundary_le {n : Nat} (hfound : detectRequestBoundary data = some n) :
    n ≤ data.length := by
  cases data with
  | nil => cases hfound
  | cons first rest =>
      by_cases hshort : (first :: rest).length < 4
      · have hnone : detectRequestBoundary (first :: rest) = none := if_pos hshort
        rw [hnone] at hfound
        cases hfound
      · by_cases hfirst : first = 42
        · subst hfirst
          rw [detectRequestBoundary_array hshort] at hfound
          obtain ⟨tail, -, rfl⟩ := Option.map_eq_some_iff.mp hfound
          exact Nat.sub_le ..
        · rw [detectRequestBoundary_inline hfirst hshort] at hfound
          obtain ⟨line, -, rfl⟩ := Option.map_eq_some_iff.mp hfound
          exact Nat.sub_le ..

theorem parseRequest_le {request : List (List UInt8) × Nat}
    (hfound : parseRequest data = some request) : request.2 ≤ data.length := by
  cases data with
  | nil => cases hfound
  | cons first rest =>
      by_cases hfirst : first = 42
      · subst hfirst
        rw [parseRequest_array] at hfound
        obtain ⟨args, -, rfl⟩ := Option.map_eq_some_iff.mp hfound
        exact Nat.sub_le ..
      · rw [parseRequest_inline hfirst] at hfound
        obtain ⟨line, -, rfl⟩ := Option.map_eq_some_iff.mp hfound
        exact Nat.sub_le ..

theorem foundResponse_le {n : Nat} (hfound : foundResponse data = some n) :
    n ≤ data.length := by
  unfold foundResponse at hfound
  split at hfound
  · cases hfound
  · rename_i hne
    cases hfound
    obtain ⟨value, tail, hvalue, rfl⟩ := exists_whole data (Nat.pos_of_ne_zero hne)
    rw [detectResponse_whole hvalue, List.length_append]
    exact Nat.le_add_right ..

/-- Each scanner is defined, reads inside the buffer and returns a length within
it just when it comes to no long run of digits. -/
theorem resp_scans_safe_iff (data : List UInt8) :
    ((RespScan.consumed data).Safe data.length ↔
      ¬ RequestOverflow (fun bulk => bulk.ending = crlf) data) ∧
    ((RespScan.detectRequestBoundary data).Safe data.length ↔
      ¬ RequestOverflow (fun _ => True) data) ∧
    ((RespScan.detectResponse data).Safe data.length ↔ ¬ ResponseOverflow data) := by
  refine ⟨(consumed_follows data).safe_iff fun length hlength => ?_,
    (detectRequestBoundary_follows data).safe_iff fun length hlength =>
      detectRequestBoundary_le hlength,
    (detectResponse_follows data).safe_iff fun length hlength =>
      foundResponse_le hlength⟩
  obtain ⟨request, hrequest, rfl⟩ := Option.map_eq_some_iff.mp hlength
  exact parseRequest_le hrequest

/-- The count 2^63 overflows in all of them. -/
theorem resp_scans_overflow :
    ¬ (RespScan.consumed (ascii "*9223372036854775808\r\n")).Safe 22 ∧
    ¬ (RespScan.detectRequestBoundary (ascii "*9223372036854775808\r\n")).Safe 22 ∧
    ¬ (RespScan.detectResponse (ascii "*9223372036854775808\r\n")).Safe 22 := by
  have hlong : StartsLong (ascii "9223372036854775808\r\n") :=
    ⟨ascii "9223372036854775808", crlf, ⟨by decide, by decide⟩, by decide⟩
  have hover : RequestOverflow (fun bulk => bulk.ending = crlf)
      (ascii "*9223372036854775808\r\n") := ⟨rfl, .inl hlong⟩
  refine ⟨fun hsafe => ?_, fun hsafe => ?_, fun hsafe => ?_⟩
  · exact ((consumed_follows _).safe_iff (fun length hlength => by
      obtain ⟨request, hrequest, rfl⟩ := Option.map_eq_some_iff.mp hlength
      exact parseRequest_le hrequest)).mp hsafe hover
  · exact ((detectRequestBoundary_follows _).safe_iff fun length hlength =>
      detectRequestBoundary_le hlength).mp hsafe hover.any
  · exact ((detectResponse_follows _).safe_iff fun length hlength =>
      foundResponse_le hlength).mp hsafe (.length 42 false _ (.inr rfl) hlong)

end Safety

end UltraNet
