/-
What the zero bytes between short reads do to the response of `HttpClient::send`.
The response comes out as it was sent just if they stand within the status code,
without changing its value, or behind all that has to come.
-/
import UltraNet.HttpClient

namespace UltraNet

/-- The data without the zero bytes in them. -/
def nonZero (data : List UInt8) : List UInt8 := data.filter (· ≠ 0)

@[simp] theorem nonZero_append (front rest : List UInt8) :
    nonZero (front ++ rest) = nonZero front ++ nonZero rest :=
  List.filter_append ..

theorem mem_nonZero {byte : UInt8} (hbyte : byte ≠ 0) {data : List UInt8} :
    byte ∈ nonZero data ↔ byte ∈ data := by
  simp [nonZero, hbyte]

@[simp] theorem nonZero_crlf : nonZero crlf = crlf := by decide

theorem nonZero_linesText (lines : List (List UInt8)) :
    nonZero (linesText lines) = linesText (lines.map nonZero) := by
  induction lines with
  | nil => rfl
  | cons line lines ih =>
      have hcons : ∀ line lines, linesText (line :: lines) =
          line ++ crlf ++ linesText lines := fun _ _ => rfl
      rw [List.map_cons, hcons, hcons, nonZero_append, nonZero_append,
        nonZero_crlf, ih]

theorem HttpClient.nonZero_gapped (before : List (List UInt8)) (last : List UInt8) :
    nonZero (gapped before last) = nonZero (before.flatten ++ last) := by
  have hzeros : ∀ n, nonZero (zeros n) = [] := fun n => by
    simp [nonZero, zeros]
  induction before with
  | nil => rfl
  | cons read before ih =>
      rw [gapped_cons, padded, nonZero_append, nonZero_append, hzeros, ih]
      simp

/-- The first line of two texts that agree. -/
theorem first_line_eq {line other rest behind : List UInt8} (hcr : 13 ∉ line)
    (hother : 13 ∉ other) (heq : line ++ crlf ++ rest = other ++ crlf ++ behind) :
    line = other ∧ rest = behind := by
  have hline := takeLine_line hcr rest
  rw [heq, takeLine_line hother] at hline
  obtain ⟨rfl, rfl⟩ := Prod.mk.inj (Option.some.inj hline)
  exact ⟨rfl, rfl⟩

theorem parseHeader_eq_some {line : List UInt8} {header : Header}
    (hparse : parseHeader line = some header) :
    ∃ pad, line = header.name ++ 58 :: (List.replicate pad 32 ++ header.value) := by
  unfold parseHeader at hparse
  split at hparse
  · rename_i byte value hdrop
    cases hparse
    have hbyte : byte = 58 := by
      have hhead := List.head?_dropWhile_not (· ≠ 58) line
      rw [hdrop] at hhead
      simpa using hhead
    have hpad : value.takeWhile (· = 32) =
        List.replicate (value.takeWhile (· = 32)).length 32 :=
      List.eq_replicate_of_mem fun byte hbyte => by
        simpa using List.mem_takeWhile_imp hbyte
    subst hbyte
    refine ⟨(value.takeWhile (· = 32)).length, ?_⟩
    rw [← hpad, List.takeWhile_append_dropWhile, ← hdrop]
    exact (List.takeWhile_append_dropWhile).symm
  · cases hparse

theorem parseHeader_ne_none {line : List UInt8} (hcolon : 58 ∈ line) :
    ∃ header, parseHeader line = some header := by
  obtain ⟨name, value, rfl, hname⟩ := List.eq_append_cons_of_mem hcolon
  exact ⟨_, parseHeader_colon hname value⟩

theorem parseHeader_eq_none {line : List UInt8} (hcolon : 58 ∉ line) :
    parseHeader line = none := by
  cases hparse : parseHeader line with
  | none => rfl
  | some header =>
      obtain ⟨pad, rfl⟩ := parseHeader_eq_some hparse
      exact absurd (by simp) hcolon

theorem count_nonZero {byte : UInt8} (hbyte : byte ≠ 0) (data : List UInt8) :
    (nonZero data).count byte = data.count byte := by
  rw [nonZero, List.count_filter (by simpa using hbyte)]

/-- The header holds all of its line but the spaces, and these are counted. -/
theorem line_of_header {field : HeaderField} {line : List UInt8}
    (hline : nonZero line = nonZero field.line)
    (hparse : parseHeader line = some field.header) : line = field.line := by
  obtain ⟨pad, hpad⟩ := parseHeader_eq_some hparse
  have hcount : line.count 32 = field.line.count 32 := by
    rw [← count_nonZero (by decide), hline, count_nonZero (by decide)]
  rw [hpad, HeaderField.line] at hcount
  simp [HeaderField.header] at hcount
  rw [hpad, HeaderField.line, hcount]
  rfl

/-- Zero bytes in the header lines are seen in the headers: where the headers
come out as they were sent, there are none. -/
theorem lines_of_headers {fields : List HeaderField} {lines : List (List UInt8)}
    {rest behind : List UInt8} (hlines : ∀ line ∈ lines, IsLine line)
    (hheaders : lines.filterMap parseHeader = fields.map HeaderField.header)
    (heq : linesText (lines.map nonZero) ++ rest =
      nonZero (fieldsText fields) ++ behind) :
    ∃ more, lines = fields.map HeaderField.line ++ more ∧
      linesText (more.map nonZero) ++ rest = behind := by
  induction fields generalizing lines with
  | nil => exact ⟨lines, rfl, heq⟩
  | cons field fields ih =>
      cases lines with
      | nil => cases hheaders
      | cons line lines =>
          obtain ⟨⟨-, hcr⟩, hlines⟩ := List.forall_mem_cons.mp hlines
          have hfields : nonZero (fieldsText (field :: fields)) =
              nonZero field.line ++ crlf ++ nonZero (fieldsText fields) := by
            simp [fieldsText]
          have htext : nonZero line ++ crlf ++
              (linesText (lines.map nonZero) ++ rest) =
              nonZero field.line ++ crlf ++
                (nonZero (fieldsText fields) ++ behind) := by
            rw [hfields] at heq
            simpa [linesText] using heq
          obtain ⟨hline, hrest⟩ := first_line_eq
            ((mem_nonZero (by decide)).not.mpr hcr)
            ((mem_nonZero (by decide)).not.mpr field.line_cr) htext
          have hcolon : 58 ∈ line := by
            rw [← mem_nonZero (by decide), hline, mem_nonZero (by decide)]
            simp [HeaderField.line]
          obtain ⟨header, hparse⟩ := parseHeader_ne_none hcolon
          rw [List.filterMap_cons_some hparse, List.map_cons] at hheaders
          obtain ⟨rfl, htail⟩ := List.cons.inj hheaders
          have hsame := line_of_header hline hparse
          obtain ⟨more, rfl, hmore⟩ := ih hlines htail hrest
          exact ⟨more, by rw [hsame]; rfl, hmore⟩

/-- The status code of a status line, and its message, "OK" without one. -/
def statusWords (status : List UInt8) : List UInt8 × List UInt8 :=
  (cutAtSpace status).getD (status, ascii "OK")

theorem cutAtSpace_eq_none {text : List UInt8} (hspace : 32 ∉ text) :
    cutAtSpace text = none := by
  cases hcut : cutAtSpace text with
  | none => rfl
  | some words =>
      obtain ⟨hsplit, -⟩ := cutAtSpace_eq hcut
      exact absurd (by rw [hsplit]; simp) hspace

namespace ResponseText

def code (response : ResponseText) : List UInt8 :=
  response.status.takeWhile (· ≠ 32)

/-- The message, with the space in front of it. -/
def message (response : ResponseText) : List UInt8 :=
  response.status.dropWhile (· ≠ 32)

theorem status_eq (response : ResponseText) :
    response.status = response.code ++ response.message :=
  (List.takeWhile_append_dropWhile).symm

theorem code_space (response : ResponseText) : 32 ∉ response.code := by
  intro hmem
  simpa using List.mem_takeWhile_imp hmem

theorem message_eq (response : ResponseText) :
    response.message = [] ∨ ∃ text, response.message = 32 :: text := by
  unfold message
  cases hdrop : response.status.dropWhile (· ≠ 32) with
  | nil => exact .inl rfl
  | cons byte text =>
      have hhead := List.head?_dropWhile_not (· ≠ 32) response.status
      rw [hdrop] at hhead
      refine .inr ⟨text, ?_⟩
      simpa using hhead

/-- The status line and the header lines, with other bytes for the code. -/
def linesWith (response : ResponseText) (code : List UInt8) : List UInt8 :=
  response.version ++ 32 :: (code ++ response.message) ++ crlf ++
    fieldsText response.fields

/-- What has to come for the response: with a body the empty line and the body,
too. -/
def neededWith (response : ResponseText) (code : List UInt8) : List UInt8 :=
  response.linesWith code ++
    if response.payload = [] then [] else crlf ++ response.payload

section

variable {response : ResponseText}

theorem statusWords_with {code : List UInt8} (hspace : 32 ∉ code) :
    statusWords (code ++ response.message) =
      (code, (statusWords response.status).2) := by
  rw [statusWords, statusWords, response.status_eq]
  obtain hmessage | ⟨text, hmessage⟩ := response.message_eq
  · rw [hmessage, List.append_nil, List.append_nil, cutAtSpace_eq_none hspace,
      cutAtSpace_eq_none response.code_space]
    rfl
  · rw [hmessage, cutAtSpace_append hspace, cutAtSpace_append response.code_space]
    rfl

theorem parsed_eq (body : List UInt8) :
    response.parsed body =
      ⟨statusCodeOf response.code, (statusWords response.status).2,
        response.version, response.fields.map HeaderField.header, body⟩ := by
  have hwords : statusWords (response.code ++ response.message) =
      (response.code, (statusWords response.status).2) :=
    statusWords_with response.code_space
  rw [← response.status_eq] at hwords
  unfold parsed
  rw [← statusWords, hwords]

/-- A status with zero bytes in it has the message only if they are in the code. -/
theorem status_of_message {status : List UInt8}
    (hstatus : nonZero status = nonZero response.status)
    (hmessage : (statusWords status).2 = (statusWords response.status).2) :
    ∃ code, 32 ∉ code ∧ nonZero code = nonZero response.code ∧
      status = code ++ response.message := by
  obtain hnone | ⟨text, htext⟩ := response.message_eq
  · have hcode : response.status = response.code := by
      rw [response.status_eq, hnone, List.append_nil]
    refine ⟨status, ?_, by rw [hstatus, hcode], by rw [hnone, List.append_nil]⟩
    rw [← mem_nonZero (by decide), hstatus, hcode, mem_nonZero (by decide)]
    exact response.code_space
  · have hsplit : response.status = response.code ++ 32 :: text := by
      rw [response.status_eq, htext]
    have hspace : 32 ∈ status := by
      rw [← mem_nonZero (by decide), hstatus, mem_nonZero (by decide), hsplit]
      simp
    obtain ⟨code, found, hcut⟩ := cutAtSpace_isSome hspace
    obtain ⟨rfl, hcode⟩ := cutAtSpace_eq hcut
    have hfound : found = text := by
      rw [statusWords, statusWords, hcut, hsplit,
        cutAtSpace_append response.code_space] at hmessage
      exact hmessage
    subst hfound
    refine ⟨code, hcode, ?_, by rw [htext]⟩
    rw [nonZero_append, hsplit, nonZero_append] at hstatus
    exact (List.append_left_inj _).mp hstatus

end

theorem wire_nonZero (response : ResponseText) :
    nonZero response.wire =
      nonZero response.start ++ crlf ++ (nonZero (fieldsText response.fields) ++
        (crlf ++ nonZero response.payload)) := by
  simp [wire, head, headText]

theorem nonZero_linesWith {response : ResponseText} {code : List UInt8}
    (hcode : nonZero code = nonZero response.code) :
    nonZero (response.linesWith code) =
      nonZero response.start ++ crlf ++ nonZero (fieldsText response.fields) := by
  have hspace : ∀ text, nonZero (32 :: text) = 32 :: nonZero text := fun _ => rfl
  rw [linesWith, start, response.status_eq]
  simp only [nonZero_append, hspace, nonZero_crlf, hcode]

/-- The body follows the header lines at once: lines in between would take bytes
that are missing behind them. -/
theorem body_behind {more : List (List UInt8)} {behind payload rest : List UInt8}
    (hpayload : payload <+: behind)
    (hlines : linesText (more.map nonZero) ++ (nonZero (crlf ++ behind) ++ rest) =
      crlf ++ nonZero payload) : more = [] := by
  obtain ⟨tail, rfl⟩ := hpayload
  cases more with
  | nil => rfl
  | cons line more =>
      have hlength := congrArg List.length hlines
      simp only [linesText, List.map_cons, List.flatMap_cons, nonZero_append,
        nonZero_crlf, List.length_append] at hlength
      have hcrlf : crlf.length = 2 := rfl
      omega

/-- The response comes out of data with zero bytes in them only if these are in
the status code, or behind what has to come. -/
theorem neededWith_of_result {response : ResponseText} {data : List UInt8}
    (hdata : nonZero data <+: nonZero response.wire) (hline : takeLine data ≠ none)
    (hresult : (HttpResponse.fresh.parseInto data).1 =
      response.parsed response.payload) :
    ∃ code, nonZero code = nonZero response.code ∧
      statusCodeOf code = statusCodeOf response.code ∧
      response.neededWith code <+: data := by
  obtain ⟨⟨line, rest⟩, hline⟩ := Option.ne_none_iff_exists'.mp hline
  obtain ⟨hsplit, hcr⟩ := takeLine_eq hline
  obtain ⟨tail, htail⟩ := hdata
  have htext : nonZero line ++ crlf ++ (nonZero rest ++ tail) =
      nonZero response.start ++ crlf ++ (nonZero (fieldsText response.fields) ++
        (crlf ++ nonZero response.payload)) := by
    rw [← wire_nonZero, ← htail, hsplit]
    simp [nonZero, crlf]
  obtain ⟨hstart, hrest⟩ := first_line_eq ((mem_nonZero (by decide)).not.mpr hcr)
    ((mem_nonZero (by decide)).not.mpr response.start_cr) htext
  have hspace : 32 ∈ line := by
    rw [← mem_nonZero (by decide), hstart, mem_nonZero (by decide), start]
    simp
  obtain ⟨version, status, hcut⟩ := cutAtSpace_isSome hspace
  rw [HttpResponse.parseInto_start hline hcut, HttpResponse.parseBody_headers,
    parsed_eq] at hresult
  obtain ⟨hcode, hmessage, rfl, hheaders, hbody⟩ := HttpResponse.mk.inj hresult
  obtain ⟨rfl, -⟩ := cutAtSpace_eq hcut
  have hsame : nonZero status = nonZero response.status := by
    rw [nonZero_append, start, nonZero_append] at hstart
    exact (List.cons.inj ((List.append_right_inj _).mp hstart)).2
  obtain ⟨code, hplain, hnonZero, rfl⟩ := status_of_message hsame hmessage
  have hvalue : statusCodeOf (statusWords (code ++ response.message)).1 =
      statusCodeOf response.code := hcode
  rw [statusWords_with hplain] at hvalue
  obtain ⟨lines, behind, hlines, rfl, hpush, hbehind⟩ := pushHeaders_eq rest
  rw [hpush] at hheaders
  rw [nonZero_append, nonZero_linesText, List.append_assoc] at hrest
  obtain ⟨more, rfl, hmore⟩ := lines_of_headers hlines hheaders hrest
  have hlinesText : linesText (response.fields.map HeaderField.line ++ more) =
      fieldsText response.fields ++ linesText more := by
    rw [fieldsText_eq, linesText, List.flatMap_append]
    rfl
  have hlong : data = response.linesWith code ++ (linesText more ++ behind) := by
    rw [hsplit, hlinesText, linesWith]
    simp [crlf]
  refine ⟨code, hnonZero, hvalue, ?_⟩
  rw [neededWith, hlong]
  refine (List.prefix_append_right_inj _).mpr ?_
  split
  · exact List.nil_prefix
  · rename_i hpayload
    rw [← hbody] at hpayload
    obtain ⟨body, hsome, hbegins⟩ := HttpResponse.parseBody_body rfl hpayload
    rw [hbody] at hbegins hpayload
    obtain rfl | rfl := hbehind body hsome
    · obtain rfl := body_behind hbegins hmore
      exact (List.prefix_append_right_inj _).mpr hbegins
    · exact absurd (List.prefix_nil.mp hbegins) hpayload

section

variable {response : ResponseText} {code : List UInt8}

theorem start_with (hcode : nonZero code = nonZero response.code) :
    32 ∉ code ∧ 13 ∉ response.version ++ 32 :: (code ++ response.message) := by
  have hstatus := response.status_cr
  rw [response.status_eq, List.mem_append, not_or, ← mem_nonZero (by decide),
    ← hcode, mem_nonZero (by decide)] at hstatus
  refine ⟨?_, by simp [response.version_cr, hstatus]⟩
  rw [← mem_nonZero (by decide), hcode, mem_nonZero (by decide)]
  exact response.code_space

theorem parseInto_with (hcode : nonZero code = nonZero response.code)
    (rest : List UInt8) :
    HttpResponse.fresh.parseInto (response.linesWith code ++ rest) =
      HttpResponse.parseBody ⟨statusCodeOf code, (statusWords response.status).2,
        response.version,
        response.fields.map HeaderField.header ++ (pushHeaders rest).1, []⟩
        (response.linesWith code ++ rest).length (pushHeaders rest).2 := by
  obtain ⟨hspace, hcr⟩ := start_with hcode
  have hline : takeLine (response.linesWith code ++ rest) =
      some (response.version ++ 32 :: (code ++ response.message),
        fieldsText response.fields ++ rest) := by
    rw [linesWith, List.append_assoc]
    exact takeLine_line hcr _
  have hwords : (cutAtSpace (code ++ response.message)).getD
      (code ++ response.message, HttpResponse.fresh.statusMessage) =
        (code, (statusWords response.status).2) := statusWords_with hspace
  rw [HttpResponse.parseInto_start hline
    (cutAtSpace_append response.version_space _),
    hwords, pushHeaders_fieldsText]
  rfl

/-- Without a body all is there with the header lines. -/
theorem parseInto_bare (hcode : nonZero code = nonZero response.code)
    (hvalue : statusCodeOf code = statusCodeOf response.code) {rest : List UInt8}
    (hlength : HttpResponse.contentLength
      (response.fields.map HeaderField.header) ≤ 0)
    (hrest : nonZero rest <+: crlf) :
    (HttpResponse.fresh.parseInto (response.linesWith code ++ rest)).1 =
      response.parsed [] := by
  have hnone : (pushHeaders rest).1 = [] := by
    obtain ⟨lines, behind, -, hlines, hheaders, -⟩ := pushHeaders_eq rest
    rw [hheaders, List.filterMap_eq_nil_iff]
    intro line hline
    refine parseHeader_eq_none fun hcolon => ?_
    have hmem : 58 ∈ rest := by
      rw [hlines, linesText, List.mem_append, List.mem_flatMap]
      exact .inl ⟨line, hline, List.mem_append_left _ hcolon⟩
    have := hrest.subset ((mem_nonZero (by decide)).mpr hmem)
    simp [crlf] at this
  rw [parseInto_with hcode, hnone, List.append_nil, parsed_eq, ← hvalue]
  unfold HttpResponse.parseBody
  split
  · rfl
  · simp [Int.toNat_of_nonpos hlength]

theorem prefix_crlf {data rest : List UInt8} (hbegins : data <+: crlf ++ rest) :
    data = [] ∨ data = [13] ∨ ∃ tail, data = crlf ++ tail ∧ tail <+: rest := by
  cases data with
  | nil => exact .inl rfl
  | cons first data =>
      obtain ⟨rfl, hdata⟩ := List.cons_prefix_cons.mp hbegins
      cases data with
      | nil => exact .inr (.inl rfl)
      | cons second tail =>
          obtain ⟨rfl, htail⟩ := List.cons_prefix_cons.mp hdata
          exact .inr (.inr ⟨tail, rfl, htail⟩)

theorem pushHeaders_blank (rest : List UInt8) :
    pushHeaders (crlf ++ rest) = ([], some rest) := by
  rw [pushHeaders, if_neg (by simp [crlf]), if_pos (by simp [crlf])]
  rfl

theorem pushHeaders_behind {data rest : List UInt8} (hdata : data <+: crlf ++ rest) :
    pushHeaders data = ([], none) ∨
      ∃ behind, pushHeaders data = ([], some behind) ∧ behind <+: rest := by
  obtain rfl | rfl | ⟨behind, rfl, hbehind⟩ := prefix_crlf hdata
  · refine .inr ⟨[], ?_, List.nil_prefix⟩
    rw [pushHeaders, if_pos rfl]
  · refine .inl ?_
    rw [pushHeaders, if_neg (by simp), if_neg (by simp)]
    split
    · rfl
    · rename_i hsome
      simp [takeLine] at hsome
  · exact .inr ⟨behind, pushHeaders_blank behind, hbehind⟩

/-- Where the header lines are followed by what was sent, `parse` waits for the
body or has it. -/
theorem parseInto_body (hcode : nonZero code = nonZero response.code)
    (hvalue : statusCodeOf code = statusCodeOf response.code)
    (hlength : (HttpResponse.contentLength
      (response.fields.map HeaderField.header)).toNat = response.payload.length)
    {data rest : List UInt8} (hdata : data <+: crlf ++ (response.payload ++ rest))
    (hpos : 0 < (HttpResponse.fresh.parseInto (response.linesWith code ++ data)).2) :
    (HttpResponse.fresh.parseInto (response.linesWith code ++ data)).1 =
      response.parsed response.payload := by
  rw [parseInto_with hcode] at hpos ⊢
  obtain hpush | ⟨behind, hpush, hbehind⟩ := pushHeaders_behind hdata
  · simp [hpush, HttpResponse.parseBody] at hpos
  · simp only [hpush, HttpResponse.parseBody, List.append_nil, hlength] at hpos ⊢
    split at hpos
    · simp at hpos
    · rename_i hlong
      rw [if_neg hlong, parsed_eq, hvalue]
      have hbody : behind.take response.payload.length = response.payload := by
        obtain ⟨more, hmore⟩ := hbehind
        have htake := congrArg (List.take response.payload.length) hmore
        rwa [List.take_append_of_le_length (Nat.le_of_not_lt hlong),
          List.take_left] at htake
      rw [hbody]

theorem parseInto_needed (hcode : nonZero code = nonZero response.code)
    (hlength : (HttpResponse.contentLength
      (response.fields.map HeaderField.header)).toNat = response.payload.length)
    (rest : List UInt8) :
    0 < (HttpResponse.fresh.parseInto (response.linesWith code ++
      (crlf ++ (response.payload ++ rest)))).2 := by
  have hshort : ¬ (response.payload ++ rest).length < response.payload.length := by
    simp
  rw [parseInto_with hcode, pushHeaders_blank]
  simp only [HttpResponse.parseBody, List.append_nil, hlength, if_neg hshort]
  simp [crlf]
  omega

end

end ResponseText

namespace HttpClient

/-- The zero bytes of short reads do no harm: all that has to come stands in the
buffer with zero bytes only within the status code, whose value is the same, and
no read ends behind one of the lines in front of the last header line. -/
def GapsHarmless (response : ResponseText) (before : List (List UInt8))
    (last : List UInt8) : Prop :=
  ∃ code, nonZero code = nonZero response.code ∧
    statusCodeOf code = statusCodeOf response.code ∧
    response.neededWith code <+: gapped before last ∧
    ∀ front read behind, before ++ [last] = front ++ read :: behind →
      HttpResponse.EndsBehindLine (gapped front read) →
        response.linesWith code <+: gapped front read

/-- No status line is found, and the response is what `send` starts with. -/
def NothingParsed (response : ResponseText) (before : List (List UInt8))
    (last : List UInt8) : Prop :=
  response.parsed response.payload = .fresh ∧ takeLine (gapped before last) = none

section

variable {response : ResponseText} {before : List (List UInt8)} {last : List UInt8}
  {front behind : List (List UInt8)} {read : List UInt8}

theorem endsBehindLine_parse {data : List UInt8}
    (hends : HttpResponse.EndsBehindLine data) : HttpResponse.parse data ≠ none := by
  obtain ⟨start, lines, hcr, hspace, hlines, hsize, rfl⟩ := hends
  obtain ⟨found, hparse⟩ := HttpResponse.parse_lines hcr hspace hlines hsize
  rw [hparse]
  exact Option.some_ne_none _

theorem takeLine_part_none {data whole : List UInt8} (hbegins : data <+: whole)
    (hnone : takeLine whole = none) : takeLine data = none := by
  obtain ⟨more, rfl⟩ := hbegins
  by_contra hline
  obtain ⟨⟨line, rest⟩, hline⟩ := Option.ne_none_iff_exists'.mp hline
  rw [takeLine_append hline] at hnone
  cases hnone

theorem gapped_nonZero (hreads : before.flatten ++ last = response.wire)
    {data : List UInt8} (hbegins : data <+: gapped before last) :
    nonZero data <+: nonZero response.wire := by
  rw [← hreads, ← nonZero_gapped]
  exact hbegins.filter _

/-- Of the result it follows that the gaps do no harm. -/
theorem gapsHarmless_of_result (hreads : before.flatten ++ last = response.wire)
    (hends : EndsAt [] (before ++ [last]) front read behind)
    (hresult : (HttpResponse.fresh.parseInto (gapped front read)).1 =
      response.parsed response.payload) :
    GapsHarmless response before last ∨ NothingParsed response before last := by
  have hbegins := gapped_begins hends.split
  by_cases hline : takeLine (gapped front read) = none
  · refine .inr ⟨?_, ?_⟩
    · rw [← hresult, HttpResponse.parseInto, hline]
    · obtain hstops | rfl := hends.stops
      · exact absurd (by simp [HttpResponse.parse, hline]) hstops
      · obtain ⟨rfl, hlast⟩ := List.append_inj' hends.split rfl
        cases hlast
        exact hline
  obtain ⟨code, hcode, hvalue, hneeded⟩ := ResponseText.neededWith_of_result
    (gapped_nonZero hreads hbegins) hline hresult
  refine .inl ⟨code, hcode, hvalue, hneeded.trans hbegins, ?_⟩
  intro others piece tail hsplit hbehind
  have hlines : response.linesWith code <+: gapped front read :=
    (List.prefix_append _ _).trans hneeded
  rw [hends.split, List.append_eq_append_iff] at hsplit
  obtain ⟨mid, rfl, hmid⟩ | ⟨mid, hfront, hmid⟩ := hsplit
  · cases mid with
    | nil =>
        obtain ⟨rfl, -⟩ := List.cons.inj hmid
        simpa using hlines
    | cons first mid =>
        obtain ⟨rfl, -⟩ := List.cons.inj hmid
        have hsplit : front ++ read :: mid ++ [piece] =
            front ++ read :: (mid ++ [piece]) := by
          simp
        exact hlines.trans (gapped_begins hsplit)
  · cases mid with
    | nil =>
        obtain ⟨rfl, -⟩ := List.cons.inj hmid
        rw [List.append_nil] at hfront
        rwa [← hfront]
    | cons first mid =>
        obtain ⟨rfl, -⟩ := List.cons.inj hmid
        refine absurd ?_ (endsBehindLine_parse hbehind)
        simpa using hends.waits others piece mid hfront

/-- The run does not end before the header lines are there. -/
theorem linesWith_begins {code : List UInt8} (hcode : nonZero code =
    nonZero response.code)
    (hends : EndsAt [] (before ++ [last]) front read behind)
    (hneeded : response.neededWith code <+: gapped before last)
    (hlines : HttpResponse.EndsBehindLine (gapped front read) →
      response.linesWith code <+: gapped front read) :
    response.linesWith code <+: gapped front read := by
  have hwhole := (List.prefix_append _ _).trans hneeded
  obtain hstops | rfl := hends.stops
  · by_contra hpart
    have hblank : blankLine <:+: gapped front read := by
      by_contra hblank
      refine hpart (hlines ?_)
      by_contra hend
      exact hblank ((HttpResponse.parseReturn_waits_iff _).mpr hend
        (HttpResponse.parseReturn_ne_zero.mpr (by simpa using hstops)))
    obtain hshort | hlong :=
      List.prefix_or_prefix_of_prefix (gapped_begins hends.split) hwhole
    · obtain ⟨tail, htail⟩ := hshort
      have hsplit : gapped front read ++ (tail ++ crlf) =
          response.version ++ 32 :: (code ++ response.message) ++ crlf ++
            (linesText (response.fields.map HeaderField.line) ++ crlf) := by
        rw [← List.append_assoc, htail, ResponseText.linesWith, fieldsText_eq]
        simp
      exact blankLine_not_lines (ResponseText.start_with hcode).2
        (HeaderField.isLine response.fields) hsplit (by simp [crlf]) hblank
    · exact hpart hlong
  · obtain ⟨rfl, hlast⟩ := List.append_inj' hends.split rfl
    cases hlast
    exact hwhole

theorem gapped_full (hfull : ∀ read ∈ before, read.length = 4096) :
    gapped before last = before.flatten ++ last := by
  induction before with
  | nil => rfl
  | cons read before ih =>
      obtain ⟨hread, hothers⟩ := List.forall_mem_cons.mp hfull
      rw [gapped_cons, padded, hread, Nat.sub_self, ih hothers]
      simp [zeros]

/-- Full reads leave no gaps; what remains is a read that ends behind a line. -/
theorem gapsHarmless_of_full (hreads : before.flatten ++ last = response.wire)
    (hfull : ∀ read ∈ before, read.length = 4096)
    (hcuts : ∀ front read behind, before ++ [last] = front ++ read :: behind →
      HttpResponse.EndsBehindLine (front.flatten ++ read) →
        response.linesWith response.code <+: front.flatten ++ read) :
    GapsHarmless response before last := by
  have hwire : response.wire =
      response.linesWith response.code ++ (crlf ++ response.payload) := by
    rw [ResponseText.wire, ResponseText.head, headText, ResponseText.start,
      ResponseText.linesWith, ← response.status_eq]
    simp
  refine ⟨response.code, rfl, rfl, ?_, ?_⟩
  · rw [gapped_full hfull, hreads, hwire, ResponseText.neededWith]
    refine (List.prefix_append_right_inj _).mpr ?_
    split
    · exact List.nil_prefix
    · exact List.prefix_refl _
  · intro front read behind hsplit hends
    have hfront : gapped front read = front.flatten ++ read := by
      refine gapped_full fun piece hpiece => hfull piece ?_
      obtain ⟨rfl, -, -⟩ | ⟨others, rfl⟩ := split_reads hsplit
      · exact hpiece
      · exact List.mem_append_left _ hpiece
    rw [hfront] at hends ⊢
    exact hcuts front read behind hsplit hends

theorem result_of_gapsHarmless (hframed : response.Framed)
    (hreadable : ReadableLength response.fields)
    (hreads : before.flatten ++ last = response.wire)
    (hends : EndsAt [] (before ++ [last]) front read behind)
    (hharmless : GapsHarmless response before last) :
    (HttpResponse.fresh.parseInto (gapped front read)).1 =
      response.parsed response.payload := by
  obtain ⟨code, hcode, hvalue, hneeded, hlater⟩ := hharmless
  have hlength : (HttpResponse.contentLength
      (response.fields.map HeaderField.header)).toNat = response.payload.length :=
    contentLength_of_find hframed hreadable fun field _ => rfl
  have hbegins := gapped_begins hends.split
  obtain ⟨data, hdata⟩ := linesWith_begins hcode hends hneeded
    (hlater front read behind hends.split)
  by_cases hpayload : response.payload = []
  · have hrest : nonZero data <+: crlf := by
      obtain ⟨tail, htail⟩ := gapped_nonZero hreads hbegins
      rw [← hdata, ResponseText.wire_nonZero, hpayload] at htail
      rw [nonZero_append, ResponseText.nonZero_linesWith hcode] at htail
      refine ⟨tail, ?_⟩
      simpa [nonZero] using htail
    rw [← hdata, hpayload]
    rw [hpayload] at hlength
    exact ResponseText.parseInto_bare hcode hvalue
      (Int.toNat_eq_zero.mp hlength) hrest
  · obtain ⟨rest, hrest⟩ := hneeded
    rw [ResponseText.neededWith, if_neg hpayload] at hrest
    have hbehind : data <+: crlf ++ (response.payload ++ rest) := by
      rw [← hdata, ← hrest, List.append_assoc,
        List.prefix_append_right_inj] at hbegins
      rwa [← List.append_assoc]
    rw [← hdata]
    refine ResponseText.parseInto_body hcode hvalue hlength hbehind ?_
    obtain hstops | rfl := hends.stops
    · rw [HttpResponse.parseInto_pos_iff, hdata]
      simpa using hstops
    · obtain ⟨rfl, hlast⟩ := List.append_inj' hends.split rfl
      cases hlast
      rw [hdata, ← hrest, List.append_assoc, List.append_assoc]
      exact ResponseText.parseInto_needed hcode hlength rest

theorem result_of_nothingParsed
    (hends : EndsAt [] (before ++ [last]) front read behind)
    (hnothing : NothingParsed response before last) :
    (HttpResponse.fresh.parseInto (gapped front read)).1 =
      response.parsed response.payload := by
  obtain ⟨hfresh, hnone⟩ := hnothing
  have hline := takeLine_part_none (gapped_begins hends.split) hnone
  rw [HttpResponse.parseInto, hline, hfresh]

end

/-- Whatever the host and the request, once it is written: `send` returns the
response as it is parsed at once just if the gaps do no harm. -/
theorem send_chunked_iff {response : ResponseText} (hframed : response.Framed)
    (hreadable : ReadableLength response.fields)
    {before : List (List UInt8)} {last : List UInt8}
    (hsizes : ∀ read ∈ before ++ [last], 1 ≤ read.length ∧ read.length ≤ 4096)
    (hreads : before.flatten ++ last = response.wire)
    (hostHeader : List UInt8) (request : HttpRequest) {writes : List (Except E Nat)}
    (hwritten : writeLoop (addHeaders hostHeader request).serialize 0 writes =
      some (.ok ())) :
    HttpResponse.parse response.wire =
      some (response.parsed response.payload, response.wire.length) ∧
    (send hostHeader request writes
        ((before ++ [last]).map .ok ++ [.ok []] : List (Except E (List UInt8))) =
      .returned (response.parsed response.payload) ↔
      GapsHarmless response before last ∨ NothingParsed response before last) := by
  refine ⟨ResponseText.parse_wire hframed hreadable, ?_⟩
  have hsome : ∀ read ∈ before ++ [last], read ≠ [] := fun read hread =>
    List.length_pos_iff.mp (hsizes read hread).1
  have hfresh : ∀ more, HttpResponse.fresh.parseInto ([].flatMap padded ++ more) =
      HttpResponse.fresh.parseInto ([].flatMap padded ++ more) := fun _ => rfl
  obtain ⟨front, read, behind, hends, hrun⟩ :=
    readLoop_eq (E := E) (by simp) hsome hfresh
  rw [List.flatMap_nil, List.nil_append, List.nil_append] at hrun
  rw [send, hwritten]
  dsimp only
  rw [hrun, SendOutcome.returned.injEq]
  constructor
  · exact gapsHarmless_of_result hreads hends
  · rintro (hharmless | hnothing)
    · exact result_of_gapsHarmless hframed hreadable hreads hends hharmless
    · exact result_of_nothingParsed hends hnothing

theorem lengthResponse_framed : lengthResponse.Framed := by
  unfold ResponseText.Framed
  decide

theorem lengthResponse_single :
    GapsHarmless lengthResponse [] lengthResponse.wire := by
  have hcuts : ∀ front read behind, [] ++ [lengthResponse.wire] =
      front ++ read :: behind →
      HttpResponse.EndsBehindLine (front.flatten ++ read) →
        lengthResponse.linesWith lengthResponse.code <+: front.flatten ++ read := by
    intro front read behind hsplit _
    obtain ⟨rfl, rfl, -⟩ | ⟨others, hothers⟩ := split_reads hsplit
    · decide
    · simp at hothers
  exact gapsHarmless_of_full rfl (by simp) hcuts

theorem send_lengthResponse :
    send [] hostRequest [.ok 40, .ok 6]
        ([.ok lengthResponse.wire, .ok []] : List (Except Nat (List UInt8))) =
      .returned (lengthResponse.parsed (ascii "hi")) := by
  have hsizes : ∀ read ∈ [] ++ [lengthResponse.wire],
      1 ≤ read.length ∧ read.length ≤ 4096 := by
    simp only [List.nil_append, List.mem_singleton, forall_eq]
    decide
  exact ((send_chunked_iff lengthResponse_framed (by decide) hsizes rfl []
    hostRequest rfl).2).mpr (.inl lengthResponse_single)

/-- A body that comes in two reads: its second byte is read as zero. -/
theorem send_torn_body :
    (lengthResponse.head ++ ascii "h") ++ ascii "i" = lengthResponse.wire ∧
    send [] hostRequest [.ok 40, .ok 6]
        ([.ok (lengthResponse.head ++ ascii "h"), .ok (ascii "i"), .ok []] :
          List (Except Nat (List UInt8))) =
      .returned (lengthResponse.parsed [104, 0]) ∧
    lengthResponse.parsed [104, 0] ≠ lengthResponse.parsed (ascii "hi") := by
  have hsize : (lengthResponse.head ++ ascii "h").length = 63 := by decide
  have hfirst : (HttpResponse.fresh.parseInto
      (gapped [] (lengthResponse.head ++ ascii "h"))).2 = 0 := by
    refine Nat.eq_zero_of_not_pos ?_
    rw [HttpResponse.parseInto_pos_iff, not_not, gapped, List.flatMap_nil,
      List.nil_append, ResponseText.parse_head lengthResponse_framed (by decide)]
    rfl
  have hdata : gapped [lengthResponse.head ++ ascii "h"] (ascii "i") =
      lengthResponse.head ++ (104 :: 0 :: (zeros 4032 ++ ascii "i")) := by
    have hzeros : zeros 4033 = 0 :: zeros 4032 := List.replicate_succ
    rw [gapped, List.flatMap_singleton, padded, hsize, hzeros]
    simp [ascii]
  have hsecond : HttpResponse.fresh.parseInto
      (gapped [lengthResponse.head ++ ascii "h"] (ascii "i")) =
        (lengthResponse.parsed [104, 0], lengthResponse.wire.length) := by
    have hlong : ¬ (104 :: 0 :: (zeros 4032 ++ ascii "i")).length <
        lengthResponse.payload.length := by
      rw [List.length_cons, List.length_cons]
      have hpayload : lengthResponse.payload.length = 2 := rfl
      omega
    have hparse := ResponseText.parse_head lengthResponse_framed (by decide)
      (104 :: 0 :: (zeros 4032 ++ ascii "i"))
    rw [if_neg hlong, ← hdata] at hparse
    obtain ⟨hnone, -⟩ | hsome := HttpResponse.parse_eq_parseInto
      (gapped [lengthResponse.head ++ ascii "h"] (ascii "i"))
    · rw [hnone] at hparse
      cases hparse
    · rw [hsome] at hparse
      exact Option.some.inj hparse
  have hwritten : writeLoop (E := Nat) (addHeaders [] hostRequest).serialize 0
      [.ok 40, .ok 6] = some (.ok ()) := rfl
  refine ⟨rfl, ?_, fun heq => ?_⟩
  · rw [send, hwritten]
    dsimp only
    have hagain : (HttpResponse.fresh.parseInto
        (gapped [] (lengthResponse.head ++ ascii "h"))).1.parseInto
          (gapped ([] ++ [lengthResponse.head ++ ascii "h"]) (ascii "i")) =
        HttpResponse.fresh.parseInto
          (gapped ([] ++ [lengthResponse.head ++ ascii "h"]) (ascii "i")) := by
      have hmore := HttpResponse.parseInto_again hfirst (zeros 4033 ++ ascii "i")
      have hsame : gapped ([] ++ [lengthResponse.head ++ ascii "h"]) (ascii "i") =
          gapped [] (lengthResponse.head ++ ascii "h") ++
            (zeros 4033 ++ ascii "i") := by
        rw [List.nil_append, gapped, List.flatMap_singleton, padded, hsize,
          List.append_assoc]
        rfl
      rwa [← hsame] at hmore
    have hempty : zeros 4096 = [].flatMap padded ++ zeros 4096 :=
      (List.nil_append _).symm
    rw [hempty, readLoop_read (by decide) rfl, hfirst, if_neg (Nat.lt_irrefl 0),
      readLoop_read (by decide) hagain, List.nil_append, hsecond, if_pos (by decide)]
  · have hbody : ([104, 0] : List UInt8) = ascii "hi" :=
      congrArg HttpResponse.body heq
    simp [ascii] at hbody

end HttpClient

end UltraNet
