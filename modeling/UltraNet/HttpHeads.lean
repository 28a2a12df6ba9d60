/-
When the parsers of `http.hpp` take a header block for complete.  The loop over
the header lines ends at the empty line, and it also ends where the data end:
data that stop right behind one of the lines pass for a whole header block.
-/
import UltraNet.HttpText

namespace UltraNet

/-- The lines that the loop has read, and behind them the empty line or the end
of the data. -/
theorem parseHeaders_eq_some {data rest : List UInt8} {headers : List Header}
    (hparse : parseHeaders data = some (headers, rest)) :
    ∃ lines, (∀ line ∈ lines, IsLine line) ∧
      headers = lines.filterMap parseHeader ∧
      (data = linesText lines ++ crlf ++ rest ∨
        data = linesText lines ∧ rest = []) := by
  fun_induction parseHeaders data generalizing headers rest with
  | case1 =>
      cases hparse
      exact ⟨[], by simp, rfl, .inr ⟨rfl, rfl⟩⟩
  | case2 data hdata hblank =>
      cases hparse
      refine ⟨[], by simp, rfl, .inl ?_⟩
      rw [linesText, List.flatMap_nil, List.nil_append, crlf, ← hblank,
        List.take_append_drop]
  | case3 => cases hparse
  | case4 data hdata hblank line tail hline ih =>
      obtain ⟨⟨others, rest⟩, hrest, heq⟩ := Option.map_eq_some_iff.mp hparse
      cases heq
      obtain ⟨lines, hlines, rfl, htail⟩ := ih hrest
      obtain ⟨hsplit, hcr⟩ := takeLine_eq hline
      have hnonempty : line ≠ [] := by
        rintro rfl
        exact hblank (by simp [hsplit])
      refine ⟨line :: lines, ?_, ?_, ?_⟩
      · intro other hother
        obtain rfl | hother := List.mem_cons.mp hother
        · exact ⟨hnonempty, hcr⟩
        · exact hlines other hother
      · cases hheader : parseHeader line with
        | none => simp [hheader]
        | some header => simp [hheader]
      · obtain rfl | ⟨rfl, rfl⟩ := htail
        · exact .inl (by simp [hsplit, linesText, crlf])
        · exact .inr ⟨by simp [hsplit, linesText, crlf], rfl⟩

theorem parseHeaders_lines {lines : List (List UInt8)}
    (hlines : ∀ line ∈ lines, IsLine line) :
    parseHeaders (linesText lines) = some (lines.filterMap parseHeader, []) := by
  have hparse := parseHeaders_linesText hlines []
  rw [List.append_nil, parseHeaders_nil] at hparse
  simpa using hparse

/-- A line break comes before the first line, or the last one ends with it. -/
theorem crlf_linesText (lines : List (List UInt8)) :
    ∃ front, crlf ++ linesText lines = front ++ crlf := by
  obtain rfl | ⟨others, line, rfl⟩ := List.eq_nil_or_concat lines
  · exact ⟨[], by simp [linesText]⟩
  · exact ⟨crlf ++ linesText others ++ line, by simp [linesText]⟩

/-- The header lines up to here announce a body that is not empty. -/
def HttpResponse.announcesBody (data : List UInt8) : Bool :=
  match takeLine data with
  | none => false
  | some (_, rest) =>
      match parseHeaders rest with
      | none => false
      | some (headers, _) => 0 < HttpResponse.contentLength headers

/-- A header block that is cut behind a line is not accepted if a body has been
announced in it. -/
theorem HttpResponse.parse_announcesBody {data : List UInt8}
    (hbody : HttpResponse.announcesBody data = true) (hblank : ¬ blankLine <:+: data) :
    HttpResponse.parse data = none := by
  unfold HttpResponse.announcesBody at hbody
  cases hline : takeLine data with
  | none =>
      rw [hline] at hbody
      cases hbody
  | some found =>
      obtain ⟨line, rest⟩ := found
      cases hheaders : parseHeaders rest with
      | none =>
          simp only [hline, hheaders] at hbody
          cases hbody
      | some parsed =>
          obtain ⟨headers, tail⟩ := parsed
          simp only [hline, hheaders, decide_eq_true_eq] at hbody
          obtain ⟨lines, -, -, hend | ⟨-, rfl⟩⟩ := parseHeaders_eq_some hheaders
          · -- the empty line would have come
            obtain ⟨hsplit, -⟩ := takeLine_eq hline
            obtain ⟨front, hfront⟩ := crlf_linesText lines
            refine absurd ⟨line ++ front, tail, ?_⟩ hblank
            have hdata : data = line ++ (crlf ++ linesText lines) ++ crlf ++ tail := by
              rw [hsplit, hend]
              simp [crlf]
            rw [hdata, hfront]
            simp [blankLine, crlf]
          · have hshort : ([] : List UInt8).length < (HttpResponse.contentLength headers).toNat := by
              rw [List.length_nil]
              omega
            simp only [HttpResponse.parse, hline, hheaders, if_pos hshort]
            split <;> rfl

theorem cutAtSpace_eq {text word rest : List UInt8}
    (hcut : cutAtSpace text = some (word, rest)) :
    text = word ++ 32 :: rest ∧ 32 ∉ word := by
  unfold cutAtSpace at hcut
  split at hcut
  · rename_i byte tail hdrop
    cases hcut
    have hbyte : byte = 32 := by
      have hhead := List.head?_dropWhile_not (· ≠ 32) text
      rw [hdrop] at hhead
      simpa using hhead
    subst hbyte
    refine ⟨?_, ?_⟩
    · rw [← hdrop, List.takeWhile_append_dropWhile]
    · intro hmem
      simpa using List.mem_takeWhile_imp hmem
  · cases hcut

theorem cutAtSpace_isSome {text : List UInt8} (hspace : 32 ∈ text) :
    ∃ word rest, cutAtSpace text = some (word, rest) := by
  obtain ⟨word, rest, rfl, hword⟩ := List.eq_append_cons_of_mem hspace
  exact ⟨word, rest, cutAtSpace_append hword rest⟩

theorem cutAtSpace_twice {start : List UInt8} (hspaces : 2 ≤ start.count 32) :
    ∃ method target path version, cutAtSpace start = some (method, target) ∧
      cutAtSpace target = some (path, version) := by
  have hspace : 32 ∈ start := List.count_pos_iff.mp (by omega)
  obtain ⟨method, target, hmethod⟩ := cutAtSpace_isSome hspace
  obtain ⟨rfl, hword⟩ := cutAtSpace_eq hmethod
  have htarget : 32 ∈ target := by
    rw [List.count_append, List.count_cons_self,
      List.count_eq_zero_of_not_mem hword] at hspaces
    exact List.count_pos_iff.mp (by omega)
  obtain ⟨path, version, hpath⟩ := cutAtSpace_isSome htarget
  exact ⟨method, target, path, version, hmethod, hpath⟩

theorem crlf_behind (start : List UInt8) (lines : List (List UInt8)) :
    crlf <:+ start ++ crlf ++ linesText lines := by
  obtain rfl | ⟨lines, line, rfl⟩ := List.eq_nil_or_concat lines
  · exact ⟨start, by simp [linesText]⟩
  · exact ⟨start ++ crlf ++ linesText lines ++ line, by simp [linesText]⟩

theorem blankLine_behind_lines (start rest : List UInt8)
    (lines : List (List UInt8)) :
    blankLine <:+: start ++ crlf ++ (linesText lines ++ crlf ++ rest) := by
  obtain ⟨front, hfront⟩ := crlf_behind start lines
  refine ⟨front, rest, ?_⟩
  have hblank : blankLine = crlf ++ crlf := rfl
  calc front ++ blankLine ++ rest
      = front ++ crlf ++ (crlf ++ rest) := by simp [hblank]
    _ = start ++ crlf ++ (linesText lines ++ crlf ++ rest) := by
        rw [hfront]
        simp

theorem blankLine_not_end {start : List UInt8} {lines : List (List UInt8)}
    (hcr : 13 ∉ start) (hlines : ∀ line ∈ lines, IsLine line) :
    ¬ blankLine <:+: start ++ crlf ++ linesText lines :=
  blankLine_not_lines hcr hlines (by rw [List.append_assoc]) (by simp [crlf])

namespace HttpRequest

/-- A request line and whole header lines, and nothing behind them. -/
def EndsBehindLine (data : List UInt8) : Prop :=
  ∃ start lines, 13 ∉ start ∧ 2 ≤ start.count 32 ∧
    (∀ line ∈ lines, IsLine line) ∧ data = start ++ crlf ++ linesText lines

/-- What `parse` has read when it accepts. -/
theorem parse_eq_some {data : List UInt8} {request : HttpRequest} {consumed : Nat}
    (hparse : parse data = some (request, consumed)) :
    ∃ start lines rest, 13 ∉ start ∧ 2 ≤ start.count 32 ∧
      (∀ line ∈ lines, IsLine line) ∧
      request.headers = lines.filterMap parseHeader ∧
      (data = start ++ crlf ++ (linesText lines ++ crlf ++ rest) ∨
        data = start ++ crlf ++ linesText lines) := by
  unfold parse at hparse
  split at hparse
  · cases hparse
  rename_i start tail hline
  split at hparse
  · cases hparse
  rename_i method target hmethod
  split at hparse
  · cases hparse
  rename_i path version hpath
  obtain ⟨⟨headers, rest⟩, hheaders, heq⟩ := Option.map_eq_some_iff.mp hparse
  cases heq
  obtain ⟨lines, hlines, rfl, htail⟩ := parseHeaders_eq_some hheaders
  obtain ⟨hdata, hcr⟩ := takeLine_eq hline
  obtain ⟨rfl, -⟩ := cutAtSpace_eq hmethod
  obtain ⟨rfl, -⟩ := cutAtSpace_eq hpath
  refine ⟨_, lines, rest, hcr, ?_, hlines, rfl, ?_⟩
  · simp only [List.count_append, List.count_cons_self]
    omega
  · obtain rfl | ⟨rfl, -⟩ := htail
    · exact .inl (by simp [hdata, crlf])
    · exact .inr (by simp [hdata, crlf])

section

variable {start : List UInt8} {lines : List (List UInt8)}

/-- A request with its header block; the bytes behind it do not matter. -/
theorem parse_block (hcr : 13 ∉ start) (hspaces : 2 ≤ start.count 32)
    (hlines : ∀ line ∈ lines, IsLine line) :
    ∃ request consumed, 0 < consumed ∧ ∀ rest,
      parse (start ++ crlf ++ (linesText lines ++ crlf ++ rest)) =
        some (request, consumed) := by
  obtain ⟨method, target, path, version, hmethod, hpath⟩ :=
    cutAtSpace_twice hspaces
  refine ⟨⟨.ofBytes method, path, version, lines.filterMap parseHeader, []⟩,
    (start ++ crlf ++ (linesText lines ++ crlf)).length, ?_, fun rest => ?_⟩
  · simp [crlf]
  rw [parse, takeLine_line hcr]
  simp only [hmethod, hpath, parseHeaders_block hlines, Option.map_some,
    Option.some.injEq, Prod.mk.injEq, true_and, List.length_append]
  omega

/-- The same header block, taken for complete without the empty line. -/
theorem parse_lines (hcr : 13 ∉ start) (hspaces : 2 ≤ start.count 32)
    (hlines : ∀ line ∈ lines, IsLine line) :
    ∃ request, parse (start ++ crlf ++ linesText lines) =
      some (request, (start ++ crlf ++ linesText lines).length) := by
  obtain ⟨method, target, path, version, hmethod, hpath⟩ :=
    cutAtSpace_twice hspaces
  refine ⟨⟨.ofBytes method, path, version, lines.filterMap parseHeader, []⟩, ?_⟩
  rw [parse, takeLine_line hcr]
  simp only [hmethod, hpath, parseHeaders_lines hlines, Option.map_some,
    List.length_nil, Nat.sub_zero]

end

/-- The value that `parse` returns. -/
def parseReturn (data : List UInt8) : Nat := (parse data).elim 0 Prod.snd

theorem parseReturn_ne_zero {data : List UInt8} :
    parseReturn data ≠ 0 ↔ parse data ≠ none := by
  rw [parseReturn]
  cases hparse : parse data with
  | none => simp
  | some parsed =>
      obtain ⟨request, consumed⟩ := parsed
      simp only [Option.elim_some, ne_eq, reduceCtorEq, not_false_eq_true, iff_true]
      obtain ⟨start, lines, rest, hcr, hspaces, hlines, -, rfl | rfl⟩ :=
        parse_eq_some hparse
      · obtain ⟨found, size, hsize, hfound⟩ := parse_block hcr hspaces hlines
        rw [hfound] at hparse
        cases hparse
        omega
      · obtain ⟨found, hfound⟩ := parse_lines hcr hspaces hlines
        rw [hfound] at hparse
        cases hparse
        simp [crlf]

/-- `parse` accepts without the empty line just where the data end behind one of
the lines. -/
theorem parseReturn_waits_iff (data : List UInt8) :
    (parseReturn data ≠ 0 → blankLine <:+: data) ↔ ¬ EndsBehindLine data := by
  rw [parseReturn_ne_zero]
  constructor
  · rintro hwaits ⟨start, lines, hcr, hspaces, hlines, rfl⟩
    obtain ⟨request, hparse⟩ := parse_lines hcr hspaces hlines
    have hblank := hwaits (by
      rw [hparse]
      exact Option.some_ne_none _)
    exact blankLine_not_end hcr hlines hblank
  · intro hends hparse
    obtain ⟨⟨request, consumed⟩, hparse⟩ := Option.ne_none_iff_exists'.mp hparse
    obtain ⟨start, lines, rest, hcr, hspaces, hlines, -, rfl | rfl⟩ :=
      parse_eq_some hparse
    · exact blankLine_behind_lines start rest lines
    · exact absurd ⟨start, lines, hcr, hspaces, hlines, rfl⟩ hends

/-- Behind the empty line nothing is looked at. -/
theorem parse_append {data : List UInt8} (hblank : blankLine <:+: data)
    (more : List UInt8) : parse (data ++ more) = parse data := by
  cases hwhole : parse (data ++ more) with
  | none =>
      by_contra hparse
      obtain ⟨⟨request, consumed⟩, hparse⟩ := Option.ne_none_iff_exists'.mp
        (Ne.symm hparse)
      obtain ⟨start, lines, rest, hcr, hspaces, hlines, -, rfl | rfl⟩ :=
        parse_eq_some hparse
      · obtain ⟨found, size, -, hfound⟩ := parse_block hcr hspaces hlines
        have hmore := hfound (rest ++ more)
        simp only [List.append_assoc] at hmore hwhole
        rw [hwhole] at hmore
        cases hmore
      · exact blankLine_not_end hcr hlines hblank
  | some parsed =>
      obtain ⟨request, consumed⟩ := parsed
      obtain ⟨start, lines, rest, hcr, hspaces, hlines, -, hdata | hdata⟩ :=
        parse_eq_some hwhole
      · obtain ⟨found, size, -, hfound⟩ := parse_block hcr hspaces hlines
        rw [hdata, hfound] at hwhole
        have hsplit : data ++ more =
            start ++ crlf ++ (linesText lines ++ crlf) ++ rest := by
          simp [hdata]
        obtain ⟨tail, htail, hpart⟩ | ⟨tail, rfl, -⟩ := cut_front hsplit
        · exact absurd hblank (blankLine_not_lines hcr hlines hpart htail)
        · have hparse := hfound tail
          simp only [List.append_assoc] at hparse ⊢
          rw [hparse, hwhole]
      · refine absurd (hblank.trans ⟨[], more, ?_⟩) (blankLine_not_end hcr hlines)
        rw [List.nil_append, hdata]

/-- No strict prefix of the header block holds the empty line. -/
theorem blankLine_not_head (request : HttpRequest) (hone : request.OneLine)
    {data : List UInt8} (hpart : data <+: request.head)
    (hstrict : data ≠ request.head) : ¬ blankLine <:+: data := by
  obtain ⟨more, hmore⟩ := hpart
  refine blankLine_not_lines (request.start_cr hone) (request.lines_isLine hone)
    hmore ?_
  rintro rfl
  exact hstrict (by simpa using hmore)

end HttpRequest

namespace HttpResponse

/-- A status line and whole header lines without a positive content length, and
nothing behind them. -/
def EndsBehindLine (data : List UInt8) : Prop :=
  ∃ start lines, 13 ∉ start ∧ 32 ∈ start ∧ (∀ line ∈ lines, IsLine line) ∧
    contentLength (lines.filterMap parseHeader) ≤ 0 ∧
    data = start ++ crlf ++ linesText lines

/-- What `parse` has read when it accepts. -/
theorem parse_eq_some {data : List UInt8} {response : HttpResponse} {consumed : Nat}
    (hparse : parse data = some (response, consumed)) :
    ∃ start lines rest, 13 ∉ start ∧ 32 ∈ start ∧
      (∀ line ∈ lines, IsLine line) ∧
      response.headers = lines.filterMap parseHeader ∧
      (contentLength (lines.filterMap parseHeader)).toNat ≤ rest.length ∧
      (data = start ++ crlf ++ (linesText lines ++ crlf ++ rest) ∨
        data = start ++ crlf ++ linesText lines ∧ rest = []) := by
  unfold parse at hparse
  split at hparse
  · cases hparse
  rename_i start tail hline
  split at hparse
  · cases hparse
  rename_i version status hversion
  split at hparse
  · cases hparse
  rename_i headers rest hheaders
  obtain ⟨lines, hlines, rfl, htail⟩ := parseHeaders_eq_some hheaders
  obtain ⟨hdata, hcr⟩ := takeLine_eq hline
  obtain ⟨rfl, -⟩ := cutAtSpace_eq hversion
  obtain ⟨hsize, heq⟩ := Option.ite_none_left_eq_some.mp hparse
  cases heq
  refine ⟨_, lines, rest, hcr, by simp, hlines, rfl, Nat.le_of_not_lt hsize, ?_⟩
  obtain rfl | ⟨rfl, rfl⟩ := htail
  · exact .inl (by simp [hdata, crlf])
  · exact .inr ⟨by simp [hdata, crlf], rfl⟩

section

variable {start : List UInt8} {lines : List (List UInt8)}

/-- A response with its header block: the body is the part of the bytes behind
it that the content length names. -/
theorem parse_block (hcr : 13 ∉ start) (hspace : 32 ∈ start)
    (hlines : ∀ line ∈ lines, IsLine line) {size : Nat}
    (hsize : (contentLength (lines.filterMap parseHeader)).toNat = size) :
    ∃ response : List UInt8 → HttpResponse, ∀ rest, size ≤ rest.length →
      parse (start ++ crlf ++ (linesText lines ++ crlf ++ rest)) =
        some (response (rest.take size),
          (start ++ crlf ++ (linesText lines ++ crlf)).length + size) := by
  obtain ⟨version, status, hversion⟩ := cutAtSpace_isSome hspace
  refine ⟨fun body =>
    ⟨statusCodeOf ((cutAtSpace status).getD (status, ascii "OK")).1,
      ((cutAtSpace status).getD (status, ascii "OK")).2, version,
      lines.filterMap parseHeader, body⟩, fun rest hrest => ?_⟩
  rw [parse, takeLine_line hcr]
  simp only [hversion, parseHeaders_block hlines, hsize]
  rw [if_neg (Nat.not_lt.mpr hrest)]
  simp only [Option.some.injEq, Prod.mk.injEq, true_and, List.length_append]
  omega

/-- The same header block, taken for complete without the empty line. -/
theorem parse_lines (hcr : 13 ∉ start) (hspace : 32 ∈ start)
    (hlines : ∀ line ∈ lines, IsLine line)
    (hsize : contentLength (lines.filterMap parseHeader) ≤ 0) :
    ∃ response, parse (start ++ crlf ++ linesText lines) =
      some (response, (start ++ crlf ++ linesText lines).length) := by
  obtain ⟨version, status, hversion⟩ := cutAtSpace_isSome hspace
  refine ⟨⟨statusCodeOf ((cutAtSpace status).getD (status, ascii "OK")).1,
      ((cutAtSpace status).getD (status, ascii "OK")).2, version,
      lines.filterMap parseHeader, []⟩, ?_⟩
  rw [parse, takeLine_line hcr]
  simp only [hversion, parseHeaders_lines hlines, Int.toNat_of_nonpos hsize]
  simp

end

/-- The value that `parse` returns. -/
def parseReturn (data : List UInt8) : Nat := (parse data).elim 0 Prod.snd

theorem parseReturn_ne_zero {data : List UInt8} :
    parseReturn data ≠ 0 ↔ parse data ≠ none := by
  rw [parseReturn]
  cases hparse : parse data with
  | none => simp
  | some parsed =>
      obtain ⟨response, consumed⟩ := parsed
      simp only [Option.elim_some, ne_eq, reduceCtorEq, not_false_eq_true, iff_true]
      obtain ⟨start, lines, rest, hcr, hspace, hlines, -, hsize, rfl | ⟨rfl, rfl⟩⟩ :=
        parse_eq_some hparse
      · obtain ⟨found, hfound⟩ := parse_block hcr hspace hlines rfl
        rw [hfound rest hsize] at hparse
        cases hparse
        simp [crlf]
      · obtain ⟨found, hfound⟩ := parse_lines hcr hspace hlines
          (Int.toNat_eq_zero.mp (Nat.le_zero.mp hsize))
        rw [hfound] at hparse
        cases hparse
        simp [crlf]

/-- `parse` accepts without the empty line just where the data end behind one of
the lines and no positive content length has been read. -/
theorem parseReturn_waits_iff (data : List UInt8) :
    (parseReturn data ≠ 0 → blankLine <:+: data) ↔ ¬ EndsBehindLine data := by
  rw [parseReturn_ne_zero]
  constructor
  · rintro hwaits ⟨start, lines, hcr, hspace, hlines, hsize, rfl⟩
    obtain ⟨response, hparse⟩ := parse_lines hcr hspace hlines hsize
    have hblank := hwaits (by
      rw [hparse]
      exact Option.some_ne_none _)
    exact blankLine_not_end hcr hlines hblank
  · intro hends hparse
    obtain ⟨⟨response, consumed⟩, hparse⟩ := Option.ne_none_iff_exists'.mp hparse
    obtain ⟨start, lines, rest, hcr, hspace, hlines, -, hsize, rfl | ⟨rfl, rfl⟩⟩ :=
      parse_eq_some hparse
    · exact blankLine_behind_lines start rest lines
    · exact absurd ⟨start, lines, hcr, hspace, hlines,
        Int.toNat_eq_zero.mp (Nat.le_zero.mp hsize), rfl⟩ hends

/-- Behind the body nothing is looked at. -/
theorem parse_append {data : List UInt8} {parsed : HttpResponse × Nat}
    (hblank : blankLine <:+: data) (hparse : parse data = some parsed)
    (more : List UInt8) : parse (data ++ more) = some parsed := by
  obtain ⟨response, consumed⟩ := parsed
  obtain ⟨start, lines, rest, hcr, hspace, hlines, -, hsize, rfl | ⟨rfl, -⟩⟩ :=
    parse_eq_some hparse
  · obtain ⟨found, hfound⟩ := parse_block hcr hspace hlines rfl
    have hmore := hfound (rest ++ more) (by
      rw [List.length_append]
      omega)
    rw [hfound rest hsize] at hparse
    simp only [List.append_assoc, List.take_append_of_le_length
      hsize] at hmore hparse ⊢
    rw [hmore, hparse]
  · exact absurd hblank (blankLine_not_end hcr hlines)

/-- No strict prefix of the header block holds the empty line. -/
theorem blankLine_not_head (response : HttpResponse) (hone : response.OneLine)
    {data : List UInt8} (hpart : data <+: response.head)
    (hstrict : data ≠ response.head) : ¬ blankLine <:+: data := by
  obtain ⟨more, hmore⟩ := hpart
  refine blankLine_not_lines (response.start_cr hone) (response.lines_isLine hone)
    hmore ?_
  rintro rfl
  exact hstrict (by simpa using hmore)

end HttpResponse

/-- The header block is taken for complete before its empty line just where the
data end behind one of its lines; what stands behind the message makes no
difference. -/
theorem http_parse_waits_iff (data : List UInt8) :
    ((HttpRequest.parseReturn data ≠ 0 → blankLine <:+: data) ↔
      ¬ HttpRequest.EndsBehindLine data) ∧
    ((HttpResponse.parseReturn data ≠ 0 → blankLine <:+: data) ↔
      ¬ HttpResponse.EndsBehindLine data) ∧
    (∀ request : HttpRequest, request.OneLine →
      data <+: request.head → data ≠ request.head →
        (HttpRequest.parseReturn data = 0 ↔ ¬ HttpRequest.EndsBehindLine data)) ∧
    (∀ response : HttpResponse, response.OneLine →
      data <+: response.head → data ≠ response.head →
        (HttpResponse.parseReturn data = 0 ↔
          ¬ HttpResponse.EndsBehindLine data)) ∧
    (blankLine <:+: data → ∀ more,
      HttpRequest.parse (data ++ more) = HttpRequest.parse data) ∧
    ∀ parsed, blankLine <:+: data → HttpResponse.parse data = some parsed →
      ∀ more, HttpResponse.parse (data ++ more) = some parsed := by
  have hrequest := HttpRequest.parseReturn_waits_iff data
  have hresponse := HttpResponse.parseReturn_waits_iff data
  refine ⟨hrequest, hresponse, ?_, ?_, HttpRequest.parse_append,
    fun parsed => HttpResponse.parse_append⟩
  · intro request hline hpart hstrict
    have hblank := request.blankLine_not_head hline hpart hstrict
    tauto
  · intro response hline hpart hstrict
    have hblank := response.blankLine_not_head hline hpart hstrict
    tauto

def hostRequest : HttpRequest :=
  ⟨.get, ascii "/", ascii "HTTP/1.1", [⟨ascii "Host", ascii "a"⟩], []⟩

theorem http_parse_waits_hostRequest :
    HttpRequest.parseReturn (ascii "GET / HTTP/1.1\r\nHo") = 0 ∧
      HttpRequest.parse (hostRequest.head ++ ascii "POST") =
        HttpRequest.parse hostRequest.head := by
  obtain ⟨-, -, hpart, -, -, -⟩ :=
    http_parse_waits_iff (ascii "GET / HTTP/1.1\r\nHo")
  obtain ⟨-, -, -, -, hmore, -⟩ := http_parse_waits_iff hostRequest.head
  refine ⟨(hpart hostRequest ?_ ⟨ascii "st: a\r\n\r\n", ?_⟩ ?_).mpr ?_,
    hmore ⟨ascii "GET / HTTP/1.1\r\nHost: a", [], ?_⟩ _⟩
  · unfold HttpRequest.OneLine Header.OneLine hostRequest
    decide
  · decide
  · decide
  · rintro ⟨start, lines, -, -, -, hdata⟩
    obtain ⟨front, hfront⟩ := crlf_behind start lines
    rw [← hdata] at hfront
    have hlast := congrArg List.getLast? hfront
    simp [crlf, ascii] at hlast
  · decide

theorem requestLine_endsBehindLine :
    HttpRequest.EndsBehindLine (ascii "GET / HTTP/1.1\r\n") :=
  ⟨ascii "GET / HTTP/1.1", [], by decide, by decide, by simp, by decide⟩

theorem statusLine_endsBehindLine :
    HttpResponse.EndsBehindLine (ascii "HTTP/1.1 200 OK\r\n") :=
  ⟨ascii "HTTP/1.1 200 OK", [], by decide, by decide, by simp, by decide, by decide⟩

/-- Two messages that are cut behind the start line. -/
theorem http_parse_not_waiting :
    (HttpRequest.parseReturn (ascii "GET / HTTP/1.1\r\n") ≠ 0 ∧
      ¬ blankLine <:+: ascii "GET / HTTP/1.1\r\n") ∧
    HttpResponse.parseReturn (ascii "HTTP/1.1 200 OK\r\n") ≠ 0 ∧
      ¬ blankLine <:+: ascii "HTTP/1.1 200 OK\r\n" := by
  refine ⟨Classical.not_imp.mp fun hwaits => ?_,
    Classical.not_imp.mp fun hwaits => ?_⟩
  · exact (HttpRequest.parseReturn_waits_iff _).mp hwaits requestLine_endsBehindLine
  · exact (HttpResponse.parseReturn_waits_iff _).mp hwaits statusLine_endsBehindLine

end UltraNet
