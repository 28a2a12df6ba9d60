/-
`HttpServer::handle_client`: every read is taken for one request.
-/
import UltraNet.HttpText
import Mathlib.Data.List.Forall2

namespace UltraNet

/-- `raw.find(text) != npos`. -/
def containsText (raw text : List UInt8) : Bool :=
  raw.tails.any text.isPrefixOf

/-- What a client gets: a call of the handler, with the response that it is
given (does it carry `Connection: close`), or the default answer. -/
inductive ServerReply where
  | called (request : HttpRequest) (closing : Bool)
  | default (closing : Bool)
deriving DecidableEq

namespace HttpServer

/-- The bytes of one read. -/
def serveRead (handler : Bool) (raw : List UInt8) : List ServerReply :=
  let keepAlive := !containsText raw (ascii "Connection: close")
  if handler then
    match HttpRequest.parse raw with
    | some (request, _) => [.called request !keepAlive]
    | none => []
  else [.default !keepAlive]

/-- The read loop, over the results of the reads; one that is empty is the end
of the stream.  Returns the replies and `keep_alive`. -/
def handleClient (handler : Bool) :
    List (List UInt8) → List ServerReply × Bool
  | [] => ([], true)
  | raw :: reads =>
      if raw = [] then ([], true)
      else if containsText raw (ascii "Connection: close") then
        (serveRead handler raw, false)
      else
        let (replies, keepAlive) := handleClient handler reads
        (serveRead handler raw ++ replies, keepAlive)

end HttpServer

/-- The members of a comma separated header value. -/
def valueTokens (value : List UInt8) : List (List UInt8) :=
  (value.splitOn 44).map fun part =>
    ((part.dropWhile isSpace).reverse.dropWhile isSpace).reverse

namespace RequestText

/-- The `Connection` header has the token `close`. -/
def closes (request : RequestText) : Bool :=
  request.fields.any fun field =>
    field.name.map toLower = ascii "connection" &&
      (valueTokens field.value).any fun token =>
        token.map toLower = ascii "close"

/-- The requests up to the first that closes. -/
def upToClose : List RequestText → List RequestText
  | [] => []
  | request :: requests =>
      if request.closes then [request] else request :: upToClose requests

/-- A reply is the handler's, called with the request. -/
def CalledWith (reply : ServerReply) (request : RequestText) : Prop :=
  ∃ called closing, reply = .called called closing ∧
    methodString called.method = request.method ∧
    called.path = request.target ∧ called.headers = request.headers ∧
    called.body = request.body

/-- One call for each request up to the first that closes, and the end of
keep-alive there. -/
def Served (requests : List RequestText) (run : List ServerReply × Bool) : Prop :=
  List.Forall₂ CalledWith run.1 (upToClose requests) ∧
    run.2 = !requests.any closes

/-- The methods that `parse` knows. -/
def knownMethods : List (List UInt8) :=
  [ascii "GET", ascii "POST", ascii "PUT", ascii "DELETE", ascii "HEAD"]

/-- What `handle_client` gets right by itself: a request without a body, of a
known method, that spells `Connection: close` in its bytes when it closes and
else never. -/
def Plain (request : RequestText) : Prop :=
  request.body = [] ∧ request.method ∈ knownMethods ∧
    containsText request.wire (ascii "Connection: close") = request.closes

theorem methodString_ofBytes (method : List UInt8) :
    methodString (.ofBytes method) = method ↔ method ∈ knownMethods := by
  refine ⟨?_, ?_⟩
  · intro heq
    unfold Method.ofBytes at heq
    simp only [knownMethods, List.mem_cons, List.not_mem_nil, or_false]
    grind [methodString]
  · intro hmem
    simp only [knownMethods, List.mem_cons, List.not_mem_nil, or_false] at hmem
    rcases hmem with rfl | rfl | rfl | rfl | rfl
    all_goals decide

theorem serveRead_wire (request : RequestText) :
    HttpServer.serveRead true request.wire =
      [.called request.parsed
        (containsText request.wire (ascii "Connection: close"))] := by
  have hparse := request.parse_head request.body
  rw [← wire] at hparse
  rw [HttpServer.serveRead, if_pos rfl, hparse, Bool.not_not]

theorem calledWith_parsed (request : RequestText) (closing : Bool) :
    CalledWith (.called request.parsed closing) request ↔
      request.body = [] ∧ request.method ∈ knownMethods := by
  rw [← methodString_ofBytes]
  refine ⟨?_, ?_⟩
  · rintro ⟨called, _, heq, hmethod, -, -, hbody⟩
    cases heq
    exact ⟨hbody.symm, hmethod⟩
  · rintro ⟨hbody, hmethod⟩
    exact ⟨request.parsed, closing, rfl, hmethod, rfl, rfl, hbody.symm⟩

/-- Each read that holds one request makes a call. -/
theorem keepAlive_of_no_call {requests : List RequestText}
    (hnone : (HttpServer.handleClient true (requests.map wire)).1 = []) :
    (HttpServer.handleClient true (requests.map wire)).2 = true := by
  cases requests with
  | nil => rfl
  | cons request requests =>
      rw [List.map_cons, HttpServer.handleClient, if_neg request.wire_nonempty,
        serveRead_wire] at hnone
      split at hnone
      all_goals cases hnone

theorem eq_nil_of_upToClose {requests : List RequestText}
    (hnone : upToClose requests = []) : requests = [] := by
  cases requests with
  | nil => rfl
  | cons request requests =>
      rw [upToClose] at hnone
      split at hnone
      all_goals cases hnone

theorem forall_plain_cons (request : RequestText) (requests : List RequestText) :
    (∀ other ∈ upToClose (request :: requests), other.Plain) ↔
      request.Plain ∧
        (request.closes = false → ∀ other ∈ upToClose requests, other.Plain) := by
  cases hcloses : request.closes with
  | true => simp [upToClose, hcloses]
  | false => simp [upToClose, hcloses]

end RequestText

/-- The handler is called once for each request up to the first that closes,
and keep-alive ends there, when the requests arrive one in a read and are plain;
of requests that arrive so, no others will do. -/
theorem served_iff_plain {requests : List RequestText} {reads : List (List UInt8)}
    (hreads : reads = requests.map RequestText.wire) :
    RequestText.Served requests (HttpServer.handleClient true reads) ↔
      ∀ request ∈ RequestText.upToClose requests, request.Plain := by
  subst hreads
  induction requests with
  | nil => simp [RequestText.Served, RequestText.upToClose, HttpServer.handleClient]
  | cons request requests ih =>
      have hcall := request.calledWith_parsed
        (containsText request.wire (ascii "Connection: close"))
      rw [RequestText.forall_plain_cons, RequestText.Plain, List.map_cons,
        HttpServer.handleClient, if_neg request.wire_nonempty,
        RequestText.serveRead_wire]
      by_cases hraw : containsText request.wire (ascii "Connection: close") = true
      · rw [if_pos hraw, hraw]
        rw [hraw] at hcall
        by_cases hcloses : request.closes = true
        · simp [RequestText.Served, RequestText.upToClose, hcloses, hcall]
        · -- the loop ends too early
          refine ⟨?_, fun hplain => absurd hplain.1.2.2.symm hcloses⟩
          rintro ⟨hcalls, hkeep⟩
          rw [RequestText.upToClose, if_neg hcloses] at hcalls
          obtain ⟨-, hrest⟩ := List.forall₂_cons.mp hcalls
          have hnil := RequestText.eq_nil_of_upToClose
              (List.forall₂_nil_left_iff.mp hrest)
          simp [hnil, hcloses] at hkeep
      · have hraw := eq_false_of_ne_true hraw
        rw [hraw]
        rw [hraw] at hcall
        by_cases hcloses : request.closes = true
        · -- the loop goes on too far
          refine ⟨?_, fun hplain => absurd (hplain.1.2.2.trans hcloses) (by simp)⟩
          rintro ⟨hcalls, hkeep⟩
          rw [RequestText.upToClose, if_pos hcloses] at hcalls
          obtain ⟨-, hrest⟩ := List.forall₂_cons.mp hcalls
          have htrue := RequestText.keepAlive_of_no_call
            (List.forall₂_nil_right_iff.mp hrest)
          simp [htrue, hcloses] at hkeep
        · have hcloses := eq_false_of_ne_true hcloses
          rw [RequestText.Served] at ih
          simp [RequestText.Served, RequestText.upToClose, hcloses, hcall, ← ih,
            and_assoc]

set_option maxRecDepth 100000 in
/-- Two requests, the second with `Connection: close`, and a third one behind
it. -/
theorem served_iff_plain_closed :
    RequestText.Served
      [getRequest [hostField], getRequest [hostField, closeField], getRequest []]
      (HttpServer.handleClient true
        [(getRequest [hostField]).wire, (getRequest [hostField, closeField]).wire,
          (getRequest []).wire]) := by
  refine (served_iff_plain rfl).mpr ?_
  have hup : RequestText.upToClose
      [getRequest [hostField], getRequest [hostField, closeField],
        getRequest []] =
      [getRequest [hostField], getRequest [hostField, closeField]] := by
    have hopen : (getRequest [hostField]).closes = false := by decide
    have hcloses : (getRequest [hostField, closeField]).closes = true := by
      decide
    simp [RequestText.upToClose, hopen, hcloses]
  intro request hrequest
  rw [hup] at hrequest
  simp only [List.mem_cons, List.not_mem_nil, or_false] at hrequest
  rcases hrequest with rfl | rfl
  · exact ⟨rfl, by decide, by decide⟩
  · exact ⟨rfl, by decide, by decide⟩

set_option maxRecDepth 100000 in
/-- A request that is cut within its request line is not served at all. -/
theorem cutRequest_unserved :
    [ascii "GET / HT", ascii "TP/1.1\r\n\r\n"].flatten = (getRequest []).wire ∧
      (getRequest []).Framed ∧
      HttpServer.handleClient true [ascii "GET / HT", ascii "TP/1.1\r\n\r\n"] =
        ([], true) ∧
      ¬ RequestText.Served [getRequest []]
        (HttpServer.handleClient true
          [ascii "GET / HT", ascii "TP/1.1\r\n\r\n"]) := by
  have hrun : HttpServer.handleClient true
      [ascii "GET / HT", ascii "TP/1.1\r\n\r\n"] = ([], true) := by
    decide
  refine ⟨by decide, ?_, hrun, ?_⟩
  · exact ⟨fun field hfield => absurd hfield List.not_mem_nil,
      fun hbody => absurd rfl hbody⟩
  · rw [hrun]
    rintro ⟨hcalls, -⟩
    have hnil := RequestText.eq_nil_of_upToClose
      (List.forall₂_nil_left_iff.mp hcalls)
    cases hnil

end UltraNet
