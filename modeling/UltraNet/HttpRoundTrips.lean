/-
What `parse` makes of the messages that `serialize` of `http.hpp` writes.  A
response comes back whole; a request comes back if its method is one of those
that `parse` knows.
-/
import UltraNet.HttpHeads

namespace UltraNet

theorem decimalText_length {n : Nat} (hsmall : n < 10 ^ 30) :
    (decimalText n).length ≤ 30 := by
  rw [decimalText, List.length_map, Nat.length_toDigits_le_iff
    (by decide) (by decide)]
  exact hsmall

theorem decimalText_all (n : Nat) : (decimalText n).all isDigit = true :=
  List.all_eq_true.mpr fun _ hbyte => isDigit_of_mem_decimalText hbyte

theorem safeStoll_decimalText {n : Nat} (hsmall : n < 2 ^ 63) :
    safeStoll (decimalText n) = some (n : Int) := by
  have hlength := decimalText_length (n := n) (by omega)
  have hvalue := digitsValue_decimalText n
  rw [safeStoll_digits (decimalText_ne_nil n) (decimalText_all n) (by omega)
    (by omega), hvalue]

theorem safeStoll_signedText {n : Int} (hmin : -2 ^ 63 ≤ n) (hmax : n < 2 ^ 63) :
    safeStoll (signedText n) = some n := by
  by_cases hneg : n < 0
  · have hlength := decimalText_length (n := n.natAbs) (by omega)
    rw [signedText, if_pos hneg, safeStoll, stollText_eq]
    · simp only [decimalText_ne_nil, decimalText_all, digitsValue_decimalText,
        Bool.not_true, Bool.false_eq_true, or_self, if_false, if_true]
      have hvalue : -((n.natAbs : Nat) : Int) = n := by omega
      rw [hvalue, if_pos ⟨hmin, hmax⟩]
    · rw [List.length_cons]
      omega
    · intro byte hbyte
      obtain rfl | hdigit := List.mem_cons.mp hbyte
      · exact .inl rfl
      · exact .inr (isDigit_of_mem_decimalText hdigit)
  · rw [signedText, if_neg hneg, safeStoll_decimalText (by omega)]
    exact congrArg some (by omega)

/-- `std::to_string` and the cast back to an `int`. -/
theorem statusCodeOf_signedText {n : Int} (hmin : -2 ^ 31 ≤ n) (hmax : n < 2 ^ 31) :
    statusCodeOf (signedText n) = n := by
  rw [statusCodeOf, safeStoll_signedText (by omega) (by omega)]
  exact Int.bmod_eq_of_le (by omega) (by omega)

/-- A header that its line gives back. -/
def Header.Written (header : Header) : Prop :=
  58 ∉ header.name ∧ 13 ∉ header.name ∧ 13 ∉ header.value ∧
    header.value.head? ≠ some 32

theorem Header.Written.oneLine {header : Header} (hwritten : header.Written) :
    header.OneLine :=
  ⟨hwritten.2.1, hwritten.2.2.1⟩

/-- The header that `serialize` adds. -/
def lengthHeaders (body : List UInt8) : List Header :=
  if body ≠ [] then [⟨ascii "Content-Length", decimalText body.length⟩] else []

theorem parseHeader_serialized {header : Header} (hcolon : 58 ∉ header.name)
    (hhead : header.value.head? ≠ some 32) :
    parseHeader (header.name ++ ascii ": " ++ header.value) = some header := by
  have htext : header.name ++ ascii ": " ++ header.value =
      header.name ++ 58 :: (List.replicate 1 32 ++ header.value) := by
    rw [List.append_assoc]
    rfl
  rw [htext, parseHeader_colon hcolon, List.dropWhile_append_of_pos (by simp),
    dropSpaces_eq hhead]

theorem decimalText_head (n : Nat) : (decimalText n).head? ≠ some 32 := by
  intro hhead
  have hdigit := isDigit_of_mem_decimalText (List.mem_of_mem_head? hhead)
  cases hdigit

theorem serializedLines_headers {headers : List Header} (body : List UInt8)
    (hwritten : ∀ header ∈ headers, header.Written) :
    (serializedLines headers body).filterMap parseHeader =
      headers ++ lengthHeaders body := by
  rw [serializedLines, List.filterMap_append]
  congr 1
  · induction headers with
    | nil => rfl
    | cons header headers ih =>
        obtain ⟨hcolon, -, -, hhead⟩ := hwritten header List.mem_cons_self
        rw [List.map_cons, List.filterMap_cons_some
          (parseHeader_serialized hcolon hhead)]
        rw [ih fun other hother => hwritten other (List.mem_cons_of_mem _ hother)]
  · rw [lengthHeaders]
    have hcolon : 58 ∉ ascii "Content-Length" := by decide
    split
    · exact List.filterMap_cons_some (@parseHeader_serialized
        ⟨ascii "Content-Length", decimalText body.length⟩ hcolon (decimalText_head _))
    · rfl

namespace HttpRequest

/-- A request whose lines keep the parts of the message apart. -/
structure Written (request : HttpRequest) : Prop where
  path_space : 32 ∉ request.path
  path_cr : 13 ∉ request.path
  version_cr : 13 ∉ request.httpVersion
  headers : ∀ header ∈ request.headers, header.Written

theorem Written.oneLine {request : HttpRequest} (hwritten : request.Written) :
    request.OneLine :=
  ⟨hwritten.path_cr, hwritten.version_cr,
    fun header hheader => (hwritten.headers header hheader).oneLine⟩

/-- What `parse` makes of a request; the body is left to the caller. -/
theorem parse_serialize {request : HttpRequest} (hwritten : request.Written) :
    parse request.serialize =
      some (⟨.ofBytes (methodString request.method), request.path,
        request.httpVersion, request.headers ++ lengthHeaders request.body, []⟩,
        request.head.length) := by
  have hone := hwritten.oneLine
  have htext : request.serialize = request.start ++ crlf ++
      (linesText request.lines ++ crlf ++ request.body) := by
    simp [serialize_eq, head]
  have hmethod : 32 ∉ methodString request.method := by
    cases request.method <;> decide
  have hstart : request.start =
      methodString request.method ++ 32 ::
        (request.path ++ 32 :: request.httpVersion) := by
    simp [start, ascii]
  have hheaders := serializedLines_headers request.body hwritten.headers
  rw [htext, parse, takeLine_line (request.start_cr hone), hstart]
  simp only [cutAtSpace_append hmethod, cutAtSpace_append hwritten.path_space,
    parseHeaders_block (request.lines_isLine hone), Option.map_some,
    Option.some.injEq, Prod.mk.injEq]
  refine ⟨?_, ?_⟩
  · rw [lines, hheaders]
  · rw [head, hstart]
    simp only [List.length_append, List.length_cons]
    omega

/-- A request comes back just if `parse` knows its method. -/
theorem request_round_trip_iff {request : HttpRequest} (hwritten : request.Written) :
    parse request.serialize =
      some (⟨request.method, request.path, request.httpVersion,
        request.headers ++ lengthHeaders request.body, []⟩, request.head.length) ↔
    request.method = .get ∨ request.method = .post ∨ request.method = .put ∨
      request.method = .delete ∨ request.method = .head := by
  rw [parse_serialize hwritten]
  simp only [Option.some.injEq, Prod.mk.injEq, mk.injEq, and_true]
  cases request.method <;> decide

def postNote : HttpRequest :=
  ⟨.post, ascii "/", ascii "HTTP/1.1", [⟨ascii "Host", ascii "a"⟩], ascii "hi"⟩

def patchNote : HttpRequest := { postNote with method := .patch }

theorem postNote_written : postNote.Written :=
  ⟨by decide, by decide, by decide, by
    unfold Header.Written
    decide⟩

theorem patchNote_written : patchNote.Written :=
  ⟨by decide, by decide, by decide, by
    unfold Header.Written
    decide⟩

theorem request_round_trip_postNote :
    parse postNote.serialize =
      some (⟨.post, ascii "/", ascii "HTTP/1.1",
        [⟨ascii "Host", ascii "a"⟩, ⟨ascii "Content-Length", ascii "2"⟩], []⟩,
        postNote.head.length) :=
  (request_round_trip_iff postNote_written).mpr (.inr (.inl rfl))

/-- A PATCH request comes back as a GET request. -/
theorem patchNote_parse :
    patchNote.Written ∧ patchNote.method = .patch ∧
      (parse patchNote.serialize).map (fun parsed => parsed.1.method) =
        some .get := by
  rw [parse_serialize patchNote_written]
  exact ⟨patchNote_written, rfl, by decide⟩

end HttpRequest

namespace HttpResponse

/-- A response whose lines keep the parts of the message apart; the status code
is an `int`, the size of the body that of a `std::string`. -/
structure Written (response : HttpResponse) : Prop where
  code_min : -2 ^ 31 ≤ response.statusCode
  code_max : response.statusCode < 2 ^ 31
  version_space : 32 ∉ response.httpVersion
  version_cr : 13 ∉ response.httpVersion
  message_cr : 13 ∉ response.statusMessage
  headers : ∀ header ∈ response.headers, header.Written
  no_length : ∀ header ∈ response.headers,
    header.name.map toLower ≠ ascii "content-length"
  body_size : response.body.length < 2 ^ 63

theorem Written.oneLine {response : HttpResponse} (hwritten : response.Written) :
    response.OneLine :=
  ⟨hwritten.version_cr, hwritten.message_cr,
    fun header hheader => (hwritten.headers header hheader).oneLine⟩

/-- The content length that `parse` finds is that of the body. -/
theorem contentLength_serialized {response : HttpResponse}
    (hwritten : response.Written) :
    (contentLength (response.headers ++ lengthHeaders response.body)).toNat =
      response.body.length := by
  have hnone : (response.headers.find? fun header =>
      decide (header.name.map toLower = ascii "content-length")) = none :=
    List.find?_eq_none.mpr fun header hheader =>
      by simpa using hwritten.no_length header hheader
  rw [contentLength, List.find?_append, hnone, Option.none_or, lengthHeaders]
  by_cases hbody : response.body = []
  · rw [if_neg (not_not.mpr hbody), hbody]
    rfl
  · have hname : (ascii "Content-Length").map toLower = ascii "content-length" := by
      decide
    rw [if_pos hbody, List.find?_cons_of_pos (by simp [hname])]
    simp only [safeStoll_decimalText hwritten.body_size, Option.getD_some,
      Int.toNat_natCast]

theorem response_round_trip {response : HttpResponse} (hwritten : response.Written)
    (rest : List UInt8) :
    parse (response.serialize ++ rest) =
      some (⟨response.statusCode, response.statusMessage, response.httpVersion,
        response.headers ++ lengthHeaders response.body, response.body⟩,
        response.serialize.length) := by
  have hone := hwritten.oneLine
  have htext : response.serialize ++ rest = response.start ++ crlf ++
      (linesText response.lines ++ crlf ++ (response.body ++ rest)) := by
    simp [serialize_eq, head]
  have hcode : 32 ∉ signedText response.statusCode :=
    signedText_not_mem (by decide) (by decide)
  have hstart : response.start =
      response.httpVersion ++ 32 ::
        (signedText response.statusCode ++ 32 :: response.statusMessage) := by
    simp [start, ascii]
  have hheaders : response.lines.filterMap parseHeader =
      response.headers ++ lengthHeaders response.body :=
    serializedLines_headers response.body hwritten.headers
  have hsize := contentLength_serialized hwritten
  rw [htext, parse, takeLine_line (response.start_cr hone), hstart]
  simp only [cutAtSpace_append hcode, cutAtSpace_append hwritten.version_space,
    parseHeaders_block (response.lines_isLine hone), Option.getD_some,
    hheaders, hsize, statusCodeOf_signedText hwritten.code_min hwritten.code_max]
  rw [if_neg (by simp), List.take_left]
  refine congrArg some (Prod.ext rfl ?_)
  rw [serialize_eq, head, hstart]
  simp only [List.length_append, List.length_cons]
  omega

def okResponse : HttpResponse :=
  ⟨200, ascii "OK", ascii "HTTP/1.1", [⟨ascii "Server", ascii "a"⟩], ascii "hi"⟩

theorem okResponse_written : okResponse.Written :=
  ⟨by decide, by decide, by decide, by decide, by decide, by
    unfold Header.Written
    decide, by decide, by decide⟩

theorem response_round_trip_okResponse :
    parse (okResponse.serialize ++ ascii "HTTP/1.1 500") =
      some (⟨200, ascii "OK", ascii "HTTP/1.1",
        [⟨ascii "Server", ascii "a"⟩, ⟨ascii "Content-Length", ascii "2"⟩],
        ascii "hi"⟩, okResponse.serialize.length) :=
  response_round_trip okResponse_written _

end HttpResponse

end UltraNet
