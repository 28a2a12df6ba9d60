/-
HTTP messages as they stand on the wire, and what the parsers of `http.hpp`
make of a message and of the beginning of one.  A header block that is cut
right behind one of its lines passes for a whole one.
-/
import UltraNet.Http

namespace UltraNet

theorem dropSpaces_eq {value : List UInt8} (hhead : value.head? ≠ some 32) :
    value.dropWhile (· = 32) = value := by
  cases value with
  | nil => rfl
  | cons byte rest => simpa using hhead

theorem parseHeader_colon {name : List UInt8} (hcolon : 58 ∉ name)
    (value : List UInt8) :
    parseHeader (name ++ 58 :: value) =
      some ⟨name, value.dropWhile (· = 32)⟩ := by
  have hname : ∀ byte ∈ name, (decide (byte ≠ 58)) = true := by
    intro byte hbyte
    exact decide_eq_true fun heq => hcolon (heq ▸ hbyte)
  have hdrop : (name ++ 58 :: value).dropWhile (· ≠ 58) = 58 :: value := by
    rw [List.dropWhile_append_of_pos hname]
    simp
  have htake : (name ++ 58 :: value).takeWhile (· ≠ 58) = name := by
    rw [List.takeWhile_append_of_pos hname]
    simp
  rw [parseHeader, hdrop]
  simp only [htake]

/-- A header line: a name, a colon, spaces and a value. -/
structure HeaderField where
  name : List UInt8
  pad : Nat
  value : List UInt8
  name_nonempty : name ≠ []
  name_colon : 58 ∉ name
  name_cr : 13 ∉ name
  value_cr : 13 ∉ value
  value_head : value.head? ≠ some 32

namespace HeaderField

def line (field : HeaderField) : List UInt8 :=
  field.name ++ 58 :: (List.replicate field.pad 32 ++ field.value)

def header (field : HeaderField) : Header := ⟨field.name, field.value⟩

theorem line_cr (field : HeaderField) : 13 ∉ field.line := by
  simp [line, field.name_cr, field.value_cr]

theorem line_nonempty (field : HeaderField) : field.line ≠ [] := by
  simp [line]

theorem parseHeader_line (field : HeaderField) :
    parseHeader field.line = some field.header := by
  have hvalue : (List.replicate field.pad 32 ++ field.value).dropWhile (· = 32) =
      field.value := by
    rw [List.dropWhile_append_of_pos (by simp)]
    exact dropSpaces_eq field.value_head
  rw [line, parseHeader_colon field.name_colon, hvalue]
  rfl

end HeaderField

def fieldsText (fields : List HeaderField) : List UInt8 :=
  fields.flatMap fun field => field.line ++ crlf

/-- A start line, the header lines and the empty line. -/
def headText (start : List UInt8) (fields : List HeaderField) : List UInt8 :=
  start ++ crlf ++ fieldsText fields ++ crlf

theorem parseHeaders_nil : parseHeaders [] = some ([], []) := by
  rw [parseHeaders, if_pos rfl]

theorem parseHeaders_blank (rest : List UInt8) :
    parseHeaders (crlf ++ rest) = some ([], rest) := by
  rw [parseHeaders, if_neg (by simp [crlf]), if_pos (by simp [crlf])]
  rfl

theorem take_two_ne_crlf {line data : List UInt8} (hnonempty : line ≠ [])
    (hcr : 13 ∉ line) (hdata : data ≠ []) (hstart : data <+: line ++ [13] ∨
      line <+: data) : data.take 2 ≠ [13, 10] := by
  intro htake
  obtain ⟨byte, line, rfl⟩ := List.exists_cons_of_ne_nil hnonempty
  obtain ⟨first, data, rfl⟩ := List.exists_cons_of_ne_nil hdata
  have hfirst : first = 13 := by simpa using congrArg List.head? htake
  have hbyte : first = byte := by
    obtain ⟨tail, htail⟩ | ⟨tail, htail⟩ := hstart
    · exact (List.cons.inj htail).1
    · exact (List.cons.inj htail).1.symm
  exact hcr (by rw [← hbyte, hfirst]; exact List.mem_cons_self)

theorem parseHeaders_line {line : List UInt8} (hnonempty : line ≠ [])
    (hcr : 13 ∉ line) (rest : List UInt8) :
    parseHeaders (line ++ crlf ++ rest) =
      (parseHeaders rest).map fun (headers, rest) =>
        ((parseHeader line).toList ++ headers, rest) := by
  have hline := takeLine_line hcr rest
  have hne : line ++ crlf ++ rest ≠ [] := by simp [hnonempty]
  rw [parseHeaders, if_neg hne, if_neg (take_two_ne_crlf hnonempty hcr hne
    (.inr ⟨crlf ++ rest, by rw [List.append_assoc]⟩))]
  split
  · rename_i hnone
    rw [hline] at hnone
    cases hnone
  · rename_i found tail hsome
    rw [hline] at hsome
    obtain ⟨rfl, rfl⟩ := Prod.mk.inj (Option.some.inj hsome)
    rfl

theorem parseHeaders_cut_line {line data : List UInt8} (hnonempty : line ≠ [])
    (hcr : 13 ∉ line) (hdata : data ≠ []) (hstart : data <+: line ++ [13]) :
    parseHeaders data = none := by
  rw [parseHeaders, if_neg hdata,
    if_neg (take_two_ne_crlf hnonempty hcr hdata (.inl hstart))]
  split
  · rfl
  · rename_i hsome
    rw [takeLine_part hcr hstart] at hsome
    cases hsome

/-- What stands before a line break. -/
def IsLine (line : List UInt8) : Prop := line ≠ [] ∧ 13 ∉ line

def linesText (lines : List (List UInt8)) : List UInt8 :=
  lines.flatMap fun line => line ++ crlf

theorem parseHeaders_linesText {lines : List (List UInt8)}
    (hlines : ∀ line ∈ lines, IsLine line) (rest : List UInt8) :
    parseHeaders (linesText lines ++ rest) =
      (parseHeaders rest).map fun (headers, rest) =>
        (lines.filterMap parseHeader ++ headers, rest) := by
  induction lines with
  | nil => simp [linesText]
  | cons line lines ih =>
      have htext : linesText (line :: lines) ++ rest =
          line ++ crlf ++ (linesText lines ++ rest) := by
        simp [linesText]
      obtain ⟨hnonempty, hcr⟩ := hlines line List.mem_cons_self
      rw [htext, parseHeaders_line hnonempty hcr,
        ih fun line hline => hlines line (List.mem_cons_of_mem _ hline)]
      cases parseHeaders rest with
      | none => rfl
      | some parsed =>
          cases hheader : parseHeader line with
          | none => simp [hheader]
          | some header => simp [hheader]

theorem parseHeaders_block {lines : List (List UInt8)}
    (hlines : ∀ line ∈ lines, IsLine line) (rest : List UInt8) :
    parseHeaders (linesText lines ++ crlf ++ rest) =
      some (lines.filterMap parseHeader, rest) := by
  rw [List.append_assoc, parseHeaders_linesText hlines, parseHeaders_blank]
  simp

theorem fieldsText_eq (fields : List HeaderField) :
    fieldsText fields = linesText (fields.map HeaderField.line) := by
  rw [fieldsText, linesText, List.flatMap_map]

theorem HeaderField.isLine (fields : List HeaderField) :
    ∀ line ∈ fields.map HeaderField.line, IsLine line := by
  intro line hline
  obtain ⟨field, -, rfl⟩ := List.mem_map.mp hline
  exact ⟨field.line_nonempty, field.line_cr⟩

/-- The header lines up to the empty line. -/
theorem parseHeaders_fieldsText (fields : List HeaderField) (rest : List UInt8) :
    parseHeaders (fieldsText fields ++ crlf ++ rest) =
      some (fields.map HeaderField.header, rest) := by
  have hfield : parseHeader ∘ HeaderField.line = some ∘ HeaderField.header :=
    funext fun field => field.parseHeader_line
  rw [fieldsText_eq, parseHeaders_block (HeaderField.isLine fields),
    List.filterMap_map, hfield, List.filterMap_eq_map]

/-- A header block that is cut is not accepted, unless it is cut right behind a
line. -/
theorem parseHeaders_part {fields : List HeaderField} {data more : List UInt8}
    (hsplit : data ++ more = fieldsText fields ++ crlf) (hmore : more ≠ [])
    (hdata : data ≠ []) (hend : ¬ crlf <:+ data) : parseHeaders data = none := by
  induction fields generalizing data with
  | nil =>
      have hsplit : data ++ more = [] ++ crlf ++ [] := by
        simpa [fieldsText] using hsplit
      obtain ⟨tail, htail⟩ | ⟨tail, rfl, -⟩ := cut_line hsplit
      · have hone : data = [13] := by
          cases data with
          | nil => exact absurd rfl hdata
          | cons byte data =>
              have hcons := List.cons.inj htail
              rw [(List.append_eq_nil_iff.mp hcons.2).1, hcons.1]
        rw [hone, parseHeaders, if_neg (by simp), if_neg (by simp)]
        split
        · rfl
        · rename_i hsome
          simp [takeLine] at hsome
      · refine absurd ?_ hmore
        have hlength := congrArg List.length hsplit
        simp only [List.length_append, List.length_nil, crlf,
          List.length_cons] at hlength
        exact List.length_eq_zero_iff.mp (by omega)
  | cons field fields ih =>
      have htext : fieldsText (field :: fields) ++ crlf =
          field.line ++ crlf ++ (fieldsText fields ++ crlf) := by
        simp [fieldsText]
      rw [htext] at hsplit
      obtain hline | ⟨tail, rfl, htail⟩ := cut_line hsplit
      · exact parseHeaders_cut_line field.line_nonempty field.line_cr hdata hline
      · rw [parseHeaders_line field.line_nonempty field.line_cr]
        have hnonempty : tail ≠ [] := by
          rintro rfl
          exact hend ⟨field.line, by simp⟩
        rw [ih htail hnonempty fun hsuffix =>
          hend (hsuffix.trans (List.suffix_append _ _))]
        rfl

def blankLine : List UInt8 := [13, 10, 13, 10]

/-- An empty line in a text stands behind its first line or further on. -/
theorem blankLine_behind {line rest before behind : List UInt8} (hcr : 13 ∉ line)
    (htext : before ++ blankLine ++ behind = line ++ crlf ++ rest) :
    rest = crlf ++ behind ∨
      ∃ tail, before = line ++ crlf ++ tail ∧
        tail ++ blankLine ++ behind = rest := by
  rw [List.append_assoc, List.append_assoc, List.append_eq_append_iff] at htext
  obtain ⟨tail, hline, htail⟩ | ⟨tail, hbefore, htail⟩ := htext
  · cases tail with
    | nil => exact .inl (by simpa [blankLine, crlf] using htail.symm)
    | cons byte tail =>
        have hbyte : byte = 13 := (List.cons.inj htail).1.symm
        exact absurd (by simp [hline, hbyte]) hcr
  · cases tail with
    | nil => exact .inl (by simpa [blankLine, crlf] using htail)
    | cons first tail =>
        cases tail with
        | nil => simp [blankLine, crlf] at htail
        | cons second tail =>
            simp only [crlf, List.cons_append, List.nil_append,
              List.cons.injEq] at htail
            obtain ⟨rfl, rfl, hrest⟩ := htail
            refine .inr ⟨tail, ?_, ?_⟩
            · rw [hbefore, crlf, List.append_assoc]
              rfl
            · rw [hrest, List.append_assoc]

/-- The empty line is the end of the header block. -/
theorem blankLine_not_lines {start : List UInt8} {lines : List (List UInt8)}
    {data more : List UInt8} (hcr : 13 ∉ start)
    (hlines : ∀ line ∈ lines, IsLine line)
    (hsplit : data ++ more = start ++ crlf ++ (linesText lines ++ crlf))
    (hmore : more ≠ []) : ¬ blankLine <:+: data := by
  rintro ⟨before, behind, rfl⟩
  rw [List.append_assoc] at hsplit
  induction lines generalizing start before with
  | nil =>
      obtain hrest | ⟨tail, -, htail⟩ := blankLine_behind hcr hsplit
      · have hnil : behind ++ more = [] := by simpa [linesText] using hrest.symm
        exact hmore (List.append_eq_nil_iff.mp hnil).2
      · have hlength := congrArg List.length htail
        simp [linesText, blankLine, crlf] at hlength
        omega
  | cons line lines ih =>
      obtain ⟨hnonempty, hline⟩ := hlines line List.mem_cons_self
      have htext : linesText (line :: lines) ++ crlf =
          line ++ crlf ++ (linesText lines ++ crlf) := by
        simp [linesText]
      rw [htext] at hsplit
      obtain hrest | ⟨tail, -, htail⟩ := blankLine_behind hcr hsplit
      · obtain ⟨byte, line, rfl⟩ := List.exists_cons_of_ne_nil hnonempty
        have hbyte : byte = 13 := by
          simp only [crlf, List.cons_append, List.cons.injEq] at hrest
          exact hrest.1
        exact hline (by rw [hbyte]; exact List.mem_cons_self)
      · exact ih hline (fun line hline => hlines line (List.mem_cons_of_mem _ hline))
          tail htail

theorem blankLine_not_part {start : List UInt8} {fields : List HeaderField}
    {data more : List UInt8} (hcr : 13 ∉ start)
    (hsplit : data ++ more = headText start fields) (hmore : more ≠ []) :
    ¬ blankLine <:+: data := by
  refine blankLine_not_lines hcr (HeaderField.isLine fields) ?_ hmore
  rw [hsplit, headText, fieldsText_eq, List.append_assoc]

/-- Of a header block that is cut, and not right behind a line, the first line
is not found or the header lines are refused. -/
theorem headText_part {start : List UInt8} {fields : List HeaderField}
    {data more : List UInt8} (hcr : 13 ∉ start)
    (hsplit : data ++ more = headText start fields) (hmore : more ≠ [])
    (hcut : crlf <:+ data → blankLine <:+: data) :
    takeLine data = none ∨
      ∃ rest, takeLine data = some (start, rest) ∧ parseHeaders rest = none := by
  have hend : ¬ crlf <:+ data := fun hend =>
    blankLine_not_part hcr hsplit hmore (hcut hend)
  have htext : data ++ more = start ++ crlf ++ (fieldsText fields ++ crlf) := by
    simp [hsplit, headText]
  obtain hline | ⟨rest, rfl, hrest⟩ := cut_line htext
  · exact .inl (takeLine_part hcr hline)
  · have hnonempty : rest ≠ [] := by
      rintro rfl
      exact hend ⟨start, by simp⟩
    refine .inr ⟨rest, takeLine_line hcr rest, ?_⟩
    exact parseHeaders_part hrest hmore hnonempty fun hsuffix =>
      hend (hsuffix.trans (List.suffix_append _ _))

/-- Of a number `safe_stoll` copies all, within 31 bytes. -/
theorem stollText_eq {text : List UInt8} (hlength : text.length ≤ 31)
    (hbytes : ∀ byte ∈ text, byte = 45 ∨ isDigit byte = true) :
    ((text.take 31).takeWhile (· ≠ 0)).dropWhile isSpace = text := by
  have hzero : (text.take 31).takeWhile (· ≠ 0) = text := by
    rw [List.take_of_length_le hlength, List.takeWhile_eq_self_iff]
    intro byte hbyte
    refine decide_eq_true ?_
    rintro rfl
    simpa [isDigit] using hbytes 0 hbyte
  rw [hzero]
  cases text with
  | nil => rfl
  | cons byte rest =>
      have hspace : isSpace byte = false := by
        obtain rfl | hdigit := hbytes byte List.mem_cons_self
        · rfl
        · simp only [isDigit, Bool.and_eq_true, decide_eq_true_eq] at hdigit
          simp only [isSpace, Bool.or_eq_false_iff, Bool.and_eq_false_iff,
            decide_eq_false_iff_not]
          grind
      rw [List.dropWhile_cons, hspace]
      rfl

/-- The value of a content length is read as it is written, within the 31 bytes
that `safe_stoll` copies. -/
theorem safeStoll_digits {value : List UInt8} (hnonempty : value ≠ [])
    (hdigits : value.all isDigit = true) (hlength : value.length ≤ 31)
    (hsmall : digitsValue value < 2 ^ 63) :
    safeStoll value = some (digitsValue value : Int) := by
  have hbytes := List.all_eq_true.mp hdigits
  rw [safeStoll, stollText_eq hlength fun byte hbyte => .inr (hbytes byte hbyte)]
  obtain ⟨byte, rest, rfl⟩ := List.exists_cons_of_ne_nil hnonempty
  have hminus : byte ≠ 45 := by
    rintro rfl
    simpa [isDigit] using hbytes 45 List.mem_cons_self
  have hplus : byte ≠ 43 := by
    rintro rfl
    simpa [isDigit] using hbytes 43 List.mem_cons_self
  simp [hminus, hplus, hdigits]
  omega

def HeaderField.isContentLength (field : HeaderField) : Bool :=
  field.name.map toLower = ascii "content-length"

/-- The content length, which is there if the body is not empty. -/
def FramesBody (fields : List HeaderField) (size : Nat) : Prop :=
  (∀ field ∈ fields, field.isContentLength →
    field.value ≠ [] ∧ field.value.all isDigit = true ∧
      digitsValue field.value = size) ∧
  (size ≠ 0 → ∃ field ∈ fields, field.isContentLength = true)

instance (fields : List HeaderField) (size : Nat) :
    Decidable (FramesBody fields size) :=
  inferInstanceAs (Decidable (_ ∧ _))

/-- `safe_stoll` reads the content length: it has at most 31 digits and fits in
64 bits. -/
def ReadableLength (fields : List HeaderField) : Prop :=
  ∀ field ∈ fields, field.isContentLength →
    field.value.length ≤ 31 ∧ digitsValue field.value < 2 ^ 63

instance (fields : List HeaderField) : Decidable (ReadableLength fields) :=
  inferInstanceAs (Decidable (∀ field ∈ fields, _))

/-- The first content length is the size of the body. -/
theorem contentLength_of_find {fields : List HeaderField} {size : Nat}
    (hframed : FramesBody fields size) (hreadable : ReadableLength fields)
    {isLength : Header → Bool}
    (hsame : ∀ field ∈ fields, isLength field.header = field.isContentLength) :
    (match (fields.map HeaderField.header).find? isLength with
      | some header => (safeStoll header.value).getD (-1)
      | none => -1).toNat = size := by
  cases hfind : (fields.map HeaderField.header).find? isLength with
  | none =>
      have hnone : ∀ field ∈ fields, field.isContentLength = false := by
        intro field hfield
        have := List.find?_eq_none.mp hfind _ (List.mem_map_of_mem hfield)
        rw [hsame field hfield] at this
        exact eq_false_of_ne_true this
      by_contra hne
      obtain ⟨field, hfield, hlength⟩ :=
          hframed.2 (fun hzero => hne (by simp [hzero]))
      rw [hnone field hfield] at hlength
      cases hlength
  | some header =>
      obtain ⟨field, hfield, rfl⟩ := List.mem_map.mp
          (List.mem_of_find?_eq_some hfind)
      have hlength := List.find?_some hfind
      rw [hsame field hfield] at hlength
      obtain ⟨hnonempty, hdigits, hvalue⟩ := hframed.1 field hfield hlength
      obtain ⟨hshort, hsmall⟩ := hreadable field hfield hlength
      simp only [HeaderField.header, safeStoll_digits hnonempty hdigits
        hshort hsmall,
        Option.getD_some, hvalue, Int.toNat_natCast]

theorem cutAtSpace_append {word : List UInt8} (hspace : 32 ∉ word)
    (rest : List UInt8) : cutAtSpace (word ++ 32 :: rest) = some (word, rest) := by
  have hword : ∀ byte ∈ word, (decide (byte ≠ 32)) = true := by
    intro byte hbyte
    exact decide_eq_true fun heq => hspace (heq ▸ hbyte)
  have hdrop : (word ++ 32 :: rest).dropWhile (· ≠ 32) = 32 :: rest := by
    rw [List.dropWhile_append_of_pos hword]
    simp
  have htake : (word ++ 32 :: rest).takeWhile (· ≠ 32) = word := by
    rw [List.takeWhile_append_of_pos hword]
    simp
  rw [cutAtSpace, hdrop]
  simp only [htake]

/-- The header lines of `serialize`. -/
def serializedLines (headers : List Header) (body : List UInt8) :
    List (List UInt8) :=
  (headers.map fun header => header.name ++ ascii ": " ++ header.value) ++
    if body ≠ [] then [ascii "Content-Length: " ++ decimalText body.length] else []

theorem headersText_eq (headers : List Header) (body : List UInt8) :
    headersText headers body =
      linesText (serializedLines headers body) ++ crlf ++ body := by
  by_cases hbody : body = []
  · simp [headersText, serializedLines, linesText, List.flatMap_map, hbody]
  · simp [headersText, serializedLines, linesText, List.flatMap_map, hbody]

def Header.OneLine (header : Header) : Prop :=
  13 ∉ header.name ∧ 13 ∉ header.value

theorem decimalText_not_mem {n : Nat} {byte : UInt8}
    (hbyte : isDigit byte = false) : byte ∉ decimalText n := by
  intro hmem
  rw [isDigit_of_mem_decimalText hmem] at hbyte
  cases hbyte

theorem signedText_not_mem {n : Int} {byte : UInt8}
    (hdigit : isDigit byte = false) (hminus : byte ≠ 45) :
    byte ∉ signedText n := by
  rw [signedText]
  split
  · rw [List.mem_cons, not_or]
    exact ⟨hminus, decimalText_not_mem hdigit⟩
  · exact decimalText_not_mem hdigit

theorem serializedLines_isLine {headers : List Header} (body : List UInt8)
    (hheaders : ∀ header ∈ headers, header.OneLine) :
    ∀ line ∈ serializedLines headers body, IsLine line := by
  intro line hline
  obtain hline | hline := List.mem_append.mp hline
  · obtain ⟨header, hheader, rfl⟩ := List.mem_map.mp hline
    obtain ⟨hname, hvalue⟩ := hheaders header hheader
    exact ⟨by simp [ascii], by simp [ascii, hname, hvalue]⟩
  · split at hline
    · obtain rfl := List.mem_singleton.mp hline
      refine ⟨by simp [ascii], ?_⟩
      rw [List.mem_append, not_or]
      exact ⟨by decide, decimalText_not_mem (by decide)⟩
    · cases hline

/-- The start line is one line; so is every header line. -/
def HttpRequest.OneLine (request : HttpRequest) : Prop :=
  13 ∉ request.path ∧ 13 ∉ request.httpVersion ∧
    ∀ header ∈ request.headers, header.OneLine

def HttpResponse.OneLine (response : HttpResponse) : Prop :=
  13 ∉ response.httpVersion ∧ 13 ∉ response.statusMessage ∧
    ∀ header ∈ response.headers, header.OneLine

namespace HttpRequest

def start (request : HttpRequest) : List UInt8 :=
  methodString request.method ++ ascii " " ++ request.path ++ ascii " " ++
    request.httpVersion

def lines (request : HttpRequest) : List (List UInt8) :=
  serializedLines request.headers request.body

/-- The header block of `serialize`. -/
def head (request : HttpRequest) : List UInt8 :=
  request.start ++ crlf ++ (linesText request.lines ++ crlf)

theorem serialize_eq (request : HttpRequest) :
    request.serialize = request.head ++ request.body := by
  simp [serialize, headersText_eq, head, start, lines]

theorem start_cr (request : HttpRequest) (hone : request.OneLine) :
    13 ∉ request.start := by
  have hmethod : 13 ∉ methodString request.method := by
    cases request.method <;> decide
  simp [start, ascii, hmethod, hone.1, hone.2.1]

theorem lines_isLine (request : HttpRequest) (hone : request.OneLine) :
    ∀ line ∈ request.lines, IsLine line :=
  serializedLines_isLine request.body hone.2.2

end HttpRequest

namespace HttpResponse

def start (response : HttpResponse) : List UInt8 :=
  response.httpVersion ++ ascii " " ++ signedText response.statusCode ++
    ascii " " ++ response.statusMessage

def lines (response : HttpResponse) : List (List UInt8) :=
  serializedLines response.headers response.body

/-- The header block of `serialize`. -/
def head (response : HttpResponse) : List UInt8 :=
  response.start ++ crlf ++ (linesText response.lines ++ crlf)

theorem serialize_eq (response : HttpResponse) :
    response.serialize = response.head ++ response.body := by
  simp [serialize, headersText_eq, head, start, lines]

theorem start_cr (response : HttpResponse) (hone : response.OneLine) :
    13 ∉ response.start := by
  have hcode : 13 ∉ signedText response.statusCode :=
    signedText_not_mem (by decide) (by decide)
  simp [start, ascii, hcode, hone.1, hone.2.1]

theorem lines_isLine (response : HttpResponse) (hone : response.OneLine) :
    ∀ line ∈ response.lines, IsLine line :=
  serializedLines_isLine response.body hone.2.2

end HttpResponse

/-- A request as the client sends it. -/
structure RequestText where
  method : List UInt8
  target : List UInt8
  version : List UInt8
  fields : List HeaderField
  body : List UInt8
  method_space : 32 ∉ method
  method_cr : 13 ∉ method
  target_space : 32 ∉ target
  target_cr : 13 ∉ target
  version_cr : 13 ∉ version

namespace RequestText

def start (request : RequestText) : List UInt8 :=
  request.method ++ 32 :: (request.target ++ 32 :: request.version)

def head (request : RequestText) : List UInt8 :=
  headText request.start request.fields

def wire (request : RequestText) : List UInt8 := request.head ++ request.body

def headers (request : RequestText) : List Header :=
  request.fields.map HeaderField.header

/-- The body is framed by its content length. -/
def Framed (request : RequestText) : Prop :=
  FramesBody request.fields request.body.length

theorem start_cr (request : RequestText) : 13 ∉ request.start := by
  simp [start, request.method_cr, request.target_cr, request.version_cr]

theorem wire_nonempty (request : RequestText) : request.wire ≠ [] := by
  simp [wire, head, headText, crlf]

/-- What `parse` makes of a request; the body is left to the caller. -/
def parsed (request : RequestText) : HttpRequest :=
  ⟨.ofBytes request.method, request.target, request.version, request.headers, []⟩

theorem parse_head (request : RequestText) (rest : List UInt8) :
    HttpRequest.parse (request.head ++ rest) =
      some (request.parsed, request.head.length) := by
  have htext : request.head ++ rest = request.start ++ crlf ++
      (fieldsText request.fields ++ crlf ++ rest) := by
    simp [head, headText]
  rw [HttpRequest.parse, htext, takeLine_line request.start_cr]
  simp only [start, cutAtSpace_append request.method_space,
    cutAtSpace_append request.target_space, parseHeaders_fieldsText,
    Option.map_some, Option.some.injEq, Prod.mk.injEq]
  refine ⟨rfl, ?_⟩
  simp [head, headText, start]
  omega

/-- The beginning of a header block is not accepted, unless it ends right behind
a line. -/
theorem parse_part {request : RequestText} {data more : List UInt8}
    (hsplit : data ++ more = request.head) (hmore : more ≠ [])
    (hcut : crlf <:+ data → blankLine <:+: data) :
    HttpRequest.parse data = none := by
  obtain hnone | ⟨rest, hline, hnone⟩ :=
    headText_part request.start_cr hsplit hmore hcut
  · rw [HttpRequest.parse, hnone]
  · rw [HttpRequest.parse, hline]
    simp only [start, cutAtSpace_append request.method_space,
      cutAtSpace_append request.target_space, hnone, Option.map_none]

end RequestText

/-- A response as the backend sends it. -/
structure ResponseText where
  version : List UInt8
  status : List UInt8
  fields : List HeaderField
  payload : List UInt8
  version_space : 32 ∉ version
  version_cr : 13 ∉ version
  status_cr : 13 ∉ status

namespace ResponseText

def start (response : ResponseText) : List UInt8 :=
  response.version ++ 32 :: response.status

def head (response : ResponseText) : List UInt8 :=
  headText response.start response.fields

def wire (response : ResponseText) : List UInt8 :=
  response.head ++ response.payload

/-- The body is framed by its content length. -/
def Framed (response : ResponseText) : Prop :=
  FramesBody response.fields response.payload.length

def hexText (n : Nat) : List UInt8 :=
  (Nat.toDigits 16 n).map fun digit => UInt8.ofNat digit.toNat

/-- Each chunk behind its size, and the empty chunk. -/
def chunkedText (chunks : List (List UInt8)) : List UInt8 :=
  chunks.flatMap (fun chunk => hexText chunk.length ++ crlf ++ chunk ++ crlf) ++
    ascii "0\r\n\r\n"

/-- The body is framed by `Transfer-Encoding: chunked`. -/
def Chunked (response : ResponseText) : Prop :=
  (∃ field ∈ response.fields,
    field.name.map toLower = ascii "transfer-encoding" ∧
      field.value.map toLower = ascii "chunked") ∧
  (∀ field ∈ response.fields, field.isContentLength = false) ∧
  ∃ chunks, (∀ chunk ∈ chunks, chunk ≠ []) ∧ response.payload = chunkedText chunks

theorem start_cr (response : ResponseText) : 13 ∉ response.start := by
  simp [start, response.version_cr, response.status_cr]

theorem wire_nonempty (response : ResponseText) : response.wire ≠ [] := by
  simp [wire, head, headText, crlf]

/-- What `parse` makes of a response with a body. -/
def parsed (response : ResponseText) (body : List UInt8) : HttpResponse :=
  let (code, message) :=
    (cutAtSpace response.status).getD (response.status, ascii "OK")
  ⟨statusCodeOf code, message, response.version,
    response.fields.map HeaderField.header, body⟩

theorem parse_head {response : ResponseText} (hframed : response.Framed)
    (hreadable : ReadableLength response.fields) (rest : List UInt8) :
    HttpResponse.parse (response.head ++ rest) =
      if rest.length < response.payload.length then none
      else some (response.parsed (rest.take response.payload.length),
        response.wire.length) := by
  have htext : response.head ++ rest = response.start ++ crlf ++
      (fieldsText response.fields ++ crlf ++ rest) := by
    simp [head, headText]
  have hlength : (HttpResponse.contentLength
      (response.fields.map HeaderField.header)).toNat = response.payload.length :=
    contentLength_of_find hframed hreadable fun field _ => rfl
  have hsize : (response.head ++ rest).length - rest.length +
      response.payload.length = response.wire.length := by
    simp only [wire, List.length_append]
    omega
  rw [HttpResponse.parse, htext, takeLine_line response.start_cr, ← htext]
  simp only [start, cutAtSpace_append response.version_space,
    parseHeaders_fieldsText, hlength, hsize]
  rfl

theorem parse_wire {response : ResponseText} (hframed : response.Framed)
    (hreadable : ReadableLength response.fields) :
    HttpResponse.parse response.wire =
      some (response.parsed response.payload, response.wire.length) := by
  have hparse := parse_head hframed hreadable response.payload
  rwa [if_neg (Nat.lt_irrefl _), List.take_length] at hparse

/-- The beginning of a response is not accepted, unless its header block is cut
right behind a line. -/
theorem parse_part {response : ResponseText} {data more : List UInt8}
    (hframed : response.Framed) (hreadable : ReadableLength response.fields)
    (hsplit : data ++ more = response.wire) (hmore : more ≠ [])
    (hcut : crlf <:+ data → blankLine <:+: data) :
    HttpResponse.parse data = none := by
  obtain ⟨tail, hnonempty, htail⟩ | ⟨tail, rfl, htail⟩ := cut_front hsplit
  · obtain hnone | ⟨rest, hline, hnone⟩ :=
      headText_part response.start_cr htail hnonempty hcut
    · rw [HttpResponse.parse, hnone]
    · rw [HttpResponse.parse, hline]
      simp only [start, cutAtSpace_append response.version_space, hnone]
  · have hshort : tail.length < response.payload.length := by
      rw [← htail, List.length_append]
      have := List.length_pos_iff.mpr hmore
      omega
    rw [parse_head hframed hreadable, if_pos hshort]

end ResponseText

def hostField : HeaderField :=
  ⟨ascii "Host", 1, ascii "a", by decide, by decide, by decide, by decide,
    by decide⟩

/-- `Content-Length: 2`. -/
def lengthField : HeaderField :=
  ⟨ascii "Content-Length", 1, ascii "2", by decide, by decide, by decide,
    by decide, by decide⟩

def closeField : HeaderField :=
  ⟨ascii "Connection", 1, ascii "close", by decide, by decide, by decide,
    by decide, by decide⟩

def keepAliveField : HeaderField :=
  ⟨ascii "Connection", 1, ascii "keep-alive", by decide, by decide, by decide,
    by decide, by decide⟩

def chunkedField : HeaderField :=
  ⟨ascii "Transfer-Encoding", 1, ascii "chunked", by decide, by decide, by decide,
    by decide, by decide⟩

/-- `GET / HTTP/1.1` with header fields. -/
def getRequest (fields : List HeaderField) : RequestText :=
  ⟨ascii "GET", ascii "/", ascii "HTTP/1.1", fields, [], by decide, by decide,
    by decide, by decide, by decide⟩

def postRequest : RequestText :=
  ⟨ascii "POST", ascii "/", ascii "HTTP/1.1", [lengthField],
    ascii "hi", by decide, by decide, by decide, by decide, by decide⟩

def lengthResponse : ResponseText :=
  ⟨ascii "HTTP/1.1", ascii "200 OK", [lengthField, keepAliveField], ascii "hi",
    by decide, by decide, by decide⟩

def chunkedResponse : ResponseText :=
  ⟨ascii "HTTP/1.1", ascii "200 OK", [chunkedField, keepAliveField],
    ResponseText.chunkedText [ascii "hi"], by decide, by decide, by decide⟩

end UltraNet
