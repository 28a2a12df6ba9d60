/-
The HTTP messages of `http.hpp`, written and parsed: request line or status line,
header lines, and for a response the body of its content length.  Text is a list
of bytes.
-/
import UltraNet.Digits
import UltraNet.Lines

namespace UltraNet

/-- The C locale's `std::tolower`. -/
def toLower (c : UInt8) : UInt8 := if 65 ≤ c ∧ c ≤ 90 then c + 32 else c

/-- `strtoll` over the first 31 bytes, up to a zero byte. -/
def safeStoll (sv : List UInt8) : Option Int :=
  let text := ((sv.take 31).takeWhile (· ≠ 0)).dropWhile isSpace
  let (negative, digits) :=
    match text with
    | 45 :: digits => (true, digits)
    | 43 :: digits => (false, digits)
    | digits => (false, digits)
  if digits = [] ∨ !digits.all isDigit then none
  else
    let value : Int := if negative then -digitsValue digits else digitsValue digits
    if -2 ^ 63 ≤ value ∧ value < 2 ^ 63 then some value else none

inductive Method where
  | get
  | post
  | put
  | delete
  | head
  | patch
  | options
  | connect
  | trace
deriving DecidableEq

def methodString : Method → List UInt8
  | .get => ascii "GET"
  | .post => ascii "POST"
  | .put => ascii "PUT"
  | .delete => ascii "DELETE"
  | .head => ascii "HEAD"
  | .patch => ascii "PATCH"
  | .options => ascii "OPTIONS"
  | .connect => ascii "CONNECT"
  | .trace => ascii "TRACE"

/-- `parse` takes a method that it does not know for `GET`. -/
def Method.ofBytes (text : List UInt8) : Method :=
  if text = ascii "GET" then .get
  else if text = ascii "POST" then .post
  else if text = ascii "PUT" then .put
  else if text = ascii "DELETE" then .delete
  else if text = ascii "HEAD" then .head
  else .get

structure Header where
  name : List UInt8
  value : List UInt8
deriving DecidableEq

/-- A line without a colon is no header. -/
def parseHeader (line : List UInt8) : Option Header :=
  match line.dropWhile (· ≠ 58) with
  | _ :: value => some ⟨line.takeWhile (· ≠ 58), value.dropWhile (· = 32)⟩
  | [] => none

/-- The loop over the header lines: it ends at an empty line, or where the data
end. -/
def parseHeaders (data : List UInt8) : Option (List Header × List UInt8) :=
  if data = [] then some ([], [])
  else if data.take 2 = [13, 10] then some ([], data.drop 2)
  else
    match _hline : takeLine data with
    | none => none
    | some (line, rest) =>
        (parseHeaders rest).map fun (headers, rest) =>
          ((parseHeader line).toList ++ headers, rest)
termination_by data.length
decreasing_by
  obtain ⟨hdata, -⟩ := takeLine_eq ‹takeLine data = _›
  have := congrArg List.length hdata
  simp only [List.length_append, List.length_cons] at this
  omega

/-- The part before the first space and the part behind it. -/
def cutAtSpace (text : List UInt8) : Option (List UInt8 × List UInt8) :=
  match text.dropWhile (· ≠ 32) with
  | _ :: rest => some (text.takeWhile (· ≠ 32), rest)
  | [] => none

/-- `header(name)`: the first value for a name, whatever its case. -/
def findHeader (headers : List Header) (name : List UInt8) : List UInt8 :=
  match headers.find? fun header =>
      header.name.map toLower = name.map toLower with
  | some header => header.value
  | none => []

/-- The header lines of `serialize`, the content length of a body, the empty
line and the body. -/
def headersText (headers : List Header) (body : List UInt8) : List UInt8 :=
  (headers.flatMap fun header =>
    header.name ++ ascii ": " ++ header.value ++ crlf) ++
  (if body ≠ [] then ascii "Content-Length: " ++ decimalText body.length ++ crlf
    else []) ++
  crlf ++ body

structure HttpRequest where
  method : Method
  path : List UInt8
  httpVersion : List UInt8
  headers : List Header
  body : List UInt8
deriving DecidableEq

def HttpRequest.serialize (request : HttpRequest) : List UInt8 :=
  methodString request.method ++ ascii " " ++ request.path ++ ascii " " ++
    request.httpVersion ++ crlf ++ headersText request.headers request.body

/-- The request and the bytes consumed; `none` is the return value 0. -/
def HttpRequest.parse (data : List UInt8) : Option (HttpRequest × Nat) :=
  match takeLine data with
  | none => none
  | some (line, rest) =>
      match cutAtSpace line with
      | none => none
      | some (method, target) =>
          match cutAtSpace target with
          | none => none
          | some (path, version) =>
              (parseHeaders rest).map fun (headers, rest) =>
                (⟨.ofBytes method, path, version, headers, []⟩,
                  data.length - rest.length)

structure HttpResponse where
  statusCode : Int
  statusMessage : List UInt8
  httpVersion : List UInt8
  headers : List Header
  body : List UInt8

def HttpResponse.serialize (response : HttpResponse) : List UInt8 :=
  response.httpVersion ++ ascii " " ++ signedText response.statusCode ++
    ascii " " ++ response.statusMessage ++ crlf ++
    headersText response.headers response.body

/-- The status code is cast to a 32-bit `int`. -/
def statusCodeOf (code : List UInt8) : Int :=
  match safeStoll code with
  | some n => n.bmod (2 ^ 32)
  | none => 0

/-- The value of the first content length header, -1 without one. -/
def HttpResponse.contentLength (headers : List Header) : Int :=
  match headers.find? fun header =>
      header.name.map toLower = ascii "content-length" with
  | some header => (safeStoll header.value).getD (-1)
  | none => -1

def HttpResponse.parse (data : List UInt8) : Option (HttpResponse × Nat) :=
  match takeLine data with
  | none => none
  | some (line, rest) =>
      match cutAtSpace line with
      | none => none
      | some (version, status) =>
          match parseHeaders rest with
          | none => none
          | some (headers, rest) =>
              -- a status line without a message is code only
              let (code, message) := (cutAtSpace status).getD (status, ascii "OK")
              let length := HttpResponse.contentLength headers
              if rest.length < length.toNat then none
              else
                some (⟨statusCodeOf code, message, version, headers,
                  rest.take length.toNat⟩,
                  data.length - rest.length + length.toNat)

/-- `text` matches the lower case reference, byte for byte, when bit 5 is set
everywhere. -/
def matchesLower (text reference : List UInt8) : Bool :=
  text.length = reference.length &&
    (text.zip reference).all fun (c, r) => c ||| 0x20 = r ||| 0x20

def HttpResponse.isKeepalive (response : HttpResponse) : Bool :=
  let value := findHeader response.headers (ascii "connection")
  (List.range value.length).any fun i =>
    matchesLower ((value.drop i).take 10) (ascii "keep-alive")

end UltraNet
