/-
What the server's `HttpResponse` sends, and what the parser of `http.hpp` reads
of it.  The calls of the handlers on one connection are one run: they build a
response and send it, any number of times, and each `write` takes some of its
bytes or fails.  `send_body` prints its head into 256 bytes, whatever the
status message.
-/
import UltraNet.AppendFile
import UltraNet.GuardedRun
import UltraNet.HttpRoundTrips

namespace UltraNet

/-- `HttpResponse` of `http_server.hpp`. -/
structure ServerResponse where
  status : Int
  statusMsg : List UInt8
  headers : List Header
  body : List UInt8

/-- Whoever reads response after response reads these, up to the end. -/
inductive ReadsReplies : List UInt8 → List HttpResponse → Prop
  | done : ReadsReplies [] []
  | next {data : List UInt8} {response : HttpResponse} {size : Nat}
      {responses : List HttpResponse} :
      HttpResponse.parse data = some (response, size) →
        ReadsReplies (data.drop size) responses →
        ReadsReplies data (response :: responses)

namespace ServerResponse

def fresh : ServerResponse := ⟨200, ascii "OK", [], []⟩

def defaultMessage (code : Int) : List UInt8 :=
  if code = 200 then ascii "OK"
  else if code = 404 then ascii "Not Found"
  else if code = 500 then ascii "Internal Server Error"
  else []

def setStatus (r : ServerResponse) (code : Int) (msg : List UInt8) : ServerResponse :=
  { r with
    status := code
    statusMsg := if msg = [] then defaultMessage code else msg }

def setHeader (r : ServerResponse) (key val : List UInt8) : ServerResponse :=
  { r with headers := r.headers ++ [⟨key, val⟩] }

def setBody (r : ServerResponse) (body : List UInt8) : ServerResponse :=
  { r with body := body }

def serialize (r : ServerResponse) : List UInt8 :=
  ascii "HTTP/1.1 " ++ signedText r.status ++ ascii " " ++ r.statusMsg ++ crlf ++
    (if r.headers = [] then ascii "Content-Type: text/plain" ++ crlf
      else r.headers.flatMap fun header =>
        header.name ++ ascii ": " ++ header.value ++ crlf) ++
    (ascii "Content-Length: " ++ decimalText r.body.length ++ crlf) ++
    crlf ++ r.body

/-- What `send_body` prints before the body; `%s` ends at a zero byte. -/
def bodyHead (r : ServerResponse) (body : List UInt8) : List UInt8 :=
  ascii "HTTP/1.1 " ++ signedText r.status ++ ascii " " ++
    r.statusMsg.takeWhile (· ≠ 0) ++ crlf ++ ascii "Content-Type: text/plain" ++ crlf ++
    ascii "Content-Length: " ++ decimalText body.length ++ crlf ++ crlf

/-- The response that `send_body` sends: it leaves out the headers that were
set. -/
def withBody (r : ServerResponse) (body : List UInt8) : ServerResponse :=
  ⟨r.status, r.statusMsg.takeWhile (· ≠ 0), [], body⟩

/-- The headers on the wire, without the content length. -/
def shownHeaders (r : ServerResponse) : List Header :=
  if r.headers = [] then [⟨ascii "Content-Type", ascii "text/plain"⟩] else r.headers

/-- The response as a client has it. -/
def shown (r : ServerResponse) : HttpResponse :=
  ⟨r.status, r.statusMsg, ascii "HTTP/1.1",
    r.shownHeaders ++ [⟨ascii "Content-Length", decimalText r.body.length⟩], r.body⟩

/-- The lines keep the parts of the response apart, and the handler leaves the
content length to the server. -/
structure Legible (r : ServerResponse) : Prop where
  code_min : -2 ^ 31 ≤ r.status
  code_max : r.status < 2 ^ 31
  message_cr : 13 ∉ r.statusMsg
  headers : ∀ header ∈ r.headers, header.Written
  no_length : ∀ header ∈ r.headers, header.name.map toLower ≠ ascii "content-length"
  body_size : r.body.length < 2 ^ 63

def start (r : ServerResponse) : List UInt8 :=
  ascii "HTTP/1.1" ++ 32 :: (signedText r.status ++ 32 :: r.statusMsg)

def lines (r : ServerResponse) : List (List UInt8) :=
  serializedLines r.shownHeaders [] ++
    [ascii "Content-Length: " ++ decimalText r.body.length]

theorem serialize_eq (r : ServerResponse) :
    r.serialize = r.start ++ crlf ++ (linesText r.lines ++ crlf ++ r.body) := by
  have hheaders : linesText (serializedLines r.shownHeaders []) =
      if r.headers = [] then ascii "Content-Type: text/plain" ++ crlf
      else r.headers.flatMap fun header =>
        header.name ++ ascii ": " ++ header.value ++ crlf := by
    unfold shownHeaders
    split
    · rfl
    · simp [serializedLines, linesText, List.flatMap_map]
  have hstart : ascii "HTTP/1.1 " ++ signedText r.status ++ ascii " " ++ r.statusMsg =
      r.start := by
    simp [start, ascii]
  have hlines : linesText r.lines = linesText (serializedLines r.shownHeaders []) ++
      (ascii "Content-Length: " ++ decimalText r.body.length ++ crlf) := by
    simp [lines, linesText]
  rw [serialize, hlines, hheaders, hstart]
  simp only [List.append_assoc]

theorem bodyHead_append (r : ServerResponse) (body : List UInt8) :
    r.bodyHead body ++ body = (r.withBody body).serialize := by
  simp [bodyHead, withBody, serialize]

section Legible

variable {r : ServerResponse}

theorem Legible.shownHeaders (hr : r.Legible) : ∀ header ∈ r.shownHeaders,
    header.Written ∧ header.name.map toLower ≠ ascii "content-length" := by
  intro header hheader
  unfold ServerResponse.shownHeaders at hheader
  split at hheader
  · obtain rfl := List.mem_singleton.mp hheader
    exact ⟨⟨by decide, by decide, by decide, by decide⟩, by decide⟩
  · exact ⟨hr.headers header hheader, hr.no_length header hheader⟩

theorem Legible.isLine (hr : r.Legible) : ∀ line ∈ r.lines, IsLine line := by
  intro line hline
  obtain hheader | hlength := List.mem_append.mp hline
  · exact serializedLines_isLine []
      (fun header hheader => (hr.shownHeaders header hheader).1.oneLine) line hheader
  · obtain rfl := List.mem_singleton.mp hlength
    refine ⟨by simp [ascii], ?_⟩
    rw [List.mem_append, not_or]
    exact ⟨by decide, decimalText_not_mem (by decide)⟩

theorem Legible.start_cr (hr : r.Legible) : 13 ∉ r.start := by
  have hcode : 13 ∉ signedText r.status := signedText_not_mem (by decide) (by decide)
  simp [start, ascii, hcode, hr.message_cr]

/-- The header lines are read as the headers. -/
theorem Legible.parseHeaders (hr : r.Legible) :
    r.lines.filterMap parseHeader = r.shown.headers := by
  have hcolon : 58 ∉ ascii "Content-Length" := by decide
  have hlength : parseHeader (ascii "Content-Length: " ++ decimalText r.body.length) =
      some ⟨ascii "Content-Length", decimalText r.body.length⟩ :=
    @parseHeader_serialized ⟨ascii "Content-Length", decimalText r.body.length⟩
      hcolon (decimalText_head _)
  rw [lines, List.filterMap_append, serializedLines_headers []
    fun header hheader => (hr.shownHeaders header hheader).1, lengthHeaders,
    if_neg (not_not.mpr rfl), List.append_nil, List.filterMap_cons_some hlength]
  rfl

theorem Legible.contentLength (hr : r.Legible) :
    (HttpResponse.contentLength r.shown.headers).toNat = r.body.length := by
  have hnone : (r.shownHeaders.find? fun header =>
      decide (header.name.map toLower = ascii "content-length")) = none :=
    List.find?_eq_none.mpr fun header hheader => by
      simpa using (hr.shownHeaders header hheader).2
  have hname : (ascii "Content-Length").map toLower = ascii "content-length" := by
    decide
  rw [HttpResponse.contentLength, shown, List.find?_append, hnone, Option.none_or,
    List.find?_cons_of_pos (by simp [hname])]
  simp only [safeStoll_decimalText hr.body_size, Option.getD_some, Int.toNat_natCast]

/-- A client reads what the server wrote, whatever follows. -/
theorem Legible.parse_serialize (hr : r.Legible) (rest : List UInt8) :
    HttpResponse.parse (r.serialize ++ rest) = some (r.shown, r.serialize.length) := by
  have htext : r.serialize ++ rest =
      r.start ++ crlf ++ (linesText r.lines ++ crlf ++ (r.body ++ rest)) := by
    rw [serialize_eq]
    simp only [List.append_assoc]
  have hversion : 32 ∉ ascii "HTTP/1.1" := by decide
  have hcode : 32 ∉ signedText r.status := signedText_not_mem (by decide) (by decide)
  have hsize := hr.contentLength
  rw [htext, HttpResponse.parse, takeLine_line hr.start_cr, start]
  simp only [cutAtSpace_append hversion, cutAtSpace_append hcode,
    parseHeaders_block hr.isLine, Option.getD_some, hr.parseHeaders, hsize,
    statusCodeOf_signedText hr.code_min hr.code_max]
  rw [if_neg (by simp), List.take_left]
  refine congrArg some (Prod.ext rfl ?_)
  rw [serialize_eq, start]
  simp only [List.length_append, List.length_cons]
  omega

end Legible

theorem serialize_reads {responses : List ServerResponse}
    (hlegible : ∀ r ∈ responses, r.Legible) :
    ReadsReplies (responses.flatMap serialize) (responses.map shown) := by
  induction responses with
  | nil => exact .done
  | cons r rest ih =>
      obtain ⟨hr, hrest⟩ := List.forall_mem_cons.mp hlegible
      rw [List.flatMap_cons, List.map_cons]
      refine .next (hr.parse_serialize _) ?_
      rw [List.drop_left]
      exact ih hrest

end ServerResponse

inductive ReplyAction where
  -- the response of the next request; `closing` sets `Connection: close`
  | respond (closing : Bool)
  | setStatus (code : Int) (msg : List UInt8)
  | setHeader (key val : List UInt8)
  | setBody (body : List UInt8)
  | send (writes : List WriteAnswer)
  | sendBody (body : List UInt8) (headWrites bodyWrites : List WriteAnswer)

/-- The bytes on a connection; `sent` is a ghost with what `send` and `send_body`
were to send. -/
structure ReplyStream where
  response : ServerResponse
  wire : List UInt8
  sent : List ServerResponse

namespace ReplyStream

/-- A `write` that fails ends the loop. -/
def sendPolicy : WritePolicy := ⟨false, false⟩

/-- The loop over the writes: the bytes that are written. -/
def written (text : List UInt8) (writes : List WriteAnswer) : List UInt8 :=
  (writeLoop sendPolicy text writes).1

/-- The bytes of `hdr` that `send_body` writes: `snprintf` leaves at most 255 and
a zero byte. -/
def headBytes (head : List UInt8) : List UInt8 :=
  if head.length ≤ 255 then head else head.take 255 ++ [0]

/-- The read of `hdr` stays inside its 256 bytes. -/
def HeadInside (s : ReplyStream) : ReplyAction → Prop
  | .sendBody body _ _ => (s.response.bodyHead body).length ≤ 256
  | _ => True

instance (s : ReplyStream) : (action : ReplyAction) → Decidable (s.HeadInside action)
  | .sendBody _ _ _ => inferInstanceAs (Decidable (_ ≤ _))
  | .respond _ | .setStatus _ _ | .setHeader _ _ | .setBody _ | .send _ => isTrue trivial

/-- A read outside of `hdr` is undefined and has no step. -/
def step (s : ReplyStream) : ReplyAction → Option ReplyStream
  | .respond closing =>
      some { s with
        response := if closing then
            ServerResponse.fresh.setHeader (ascii "Connection") (ascii "close")
          else .fresh }
  | .setStatus code msg => some { s with response := s.response.setStatus code msg }
  | .setHeader key val => some { s with response := s.response.setHeader key val }
  | .setBody body => some { s with response := s.response.setBody body }
  | .send writes =>
      some { s with
        wire := s.wire ++ written s.response.serialize writes
        sent := s.sent ++ [s.response] }
  | .sendBody body headWrites bodyWrites =>
      if (s.response.bodyHead body).length ≤ 256 then
        some { s with
          wire := s.wire ++ (written (headBytes (s.response.bodyHead body)) headWrites ++
            written body bodyWrites)
          sent := s.sent ++ [s.response.withBody body] }
      else none

def machine : Machine ReplyStream ReplyAction := ⟨⟨.fresh, [], []⟩, step⟩

/-- No write fails, and the head fits. -/
def Whole (s : ReplyStream) : ReplyAction → Prop
  | .send writes =>
      (writeLoop sendPolicy s.response.serialize writes).2 = .returned true
  | .sendBody body headWrites bodyWrites =>
      (s.response.bodyHead body).length ≤ 255 ∧
        (writeLoop sendPolicy (s.response.bodyHead body) headWrites).2 = .returned true ∧
        (writeLoop sendPolicy body bodyWrites).2 = .returned true
  | _ => True

instance (s : ReplyStream) : (action : ReplyAction) → Decidable (s.Whole action)
  | .send _ => inferInstanceAs (Decidable (_ = _))
  | .sendBody _ _ _ => inferInstanceAs (Decidable (_ ∧ _))
  | .respond _ | .setStatus _ _ | .setHeader _ _ | .setBody _ => isTrue trivial

/-- The texts of what was sent. -/
def owed (s : ReplyStream) : List UInt8 := s.sent.flatMap ServerResponse.serialize

/-- A stream that is not the texts of what was sent, and will not be. -/
def Damaged (s : ReplyStream) : Prop := s.wire.length ≤ s.owed.length ∧ s.wire ≠ s.owed

theorem length_written (text : List UInt8) (writes : List WriteAnswer) :
    (written text writes).length ≤ text.length := by
  have hfront := writeLoop_prefix sendPolicy text writes
  exact hfront.length_le

theorem written_iff (text : List UInt8) (writes : List WriteAnswer) :
    written text writes = text ↔
      (writeLoop sendPolicy text writes).2 = .returned true :=
  ⟨writeLoop_returned sendPolicy text writes, writeLoop_complete sendPolicy text writes⟩

/-- Parts that are no longer than their wholes make up the whole only if each of
them is its whole. -/
theorem append_eq_iff {front first back second : List UInt8}
    (hfront : front.length ≤ first.length) (hback : back.length ≤ second.length) :
    front ++ back = first ++ second ↔ front = first ∧ back = second := by
  refine ⟨fun heq => ?_, fun ⟨hfirst, hsecond⟩ => by rw [hfirst, hsecond]⟩
  have hlength := congrArg List.length heq
  simp only [List.length_append] at hlength
  exact List.append_inj heq (by omega)

theorem length_headBytes {head : List UInt8} (hinside : head.length ≤ 256) :
    (headBytes head).length ≤ head.length := by
  unfold headBytes
  split
  · exact Nat.le_refl _
  · simp only [List.length_append, List.length_take, List.length_singleton]
    omega

/-- A head of 256 bytes loses its last one. -/
theorem headBytes_eq_iff (r : ServerResponse) (body : List UInt8) :
    headBytes (r.bodyHead body) = r.bodyHead body ↔ (r.bodyHead body).length ≤ 255 := by
  refine ⟨fun heq => ?_, fun hfits => if_pos hfits⟩
  by_contra hlong
  rw [headBytes, if_neg hlong] at heq
  have hlast : (r.bodyHead body).getLast? = some 10 := by
    rw [ServerResponse.bodyHead, List.getLast?_append]
    rfl
  rw [← heq, List.getLast?_concat] at hlast
  cases hlast

/-- What a step adds to the stream, and to what is owed. -/
theorem step_adds {s next : ReplyStream} {action : ReplyAction}
    (hstep : s.step action = some next) :
    ∃ part text, next.wire = s.wire ++ part ∧ next.owed = s.owed ++ text ∧
      part.length ≤ text.length ∧ (part = text ↔ s.Whole action) := by
  cases action with
  | respond | setStatus | setHeader | setBody =>
      obtain rfl := Option.some.inj hstep
      exact ⟨[], [], (List.append_nil _).symm, (List.append_nil _).symm, Nat.le_refl _,
        iff_of_true rfl trivial⟩
  | send writes =>
      obtain rfl := Option.some.inj hstep
      refine ⟨written s.response.serialize writes, s.response.serialize, rfl, ?_,
        length_written _ _, written_iff _ _⟩
      simp only [owed, List.flatMap_append, List.flatMap_singleton]
  | sendBody body headWrites bodyWrites =>
      obtain ⟨hinside, hnext⟩ := Option.ite_none_right_eq_some.mp hstep
      obtain rfl := Option.some.inj hnext
      have hhead := Nat.le_trans (length_written _ headWrites) (length_headBytes hinside)
      have hbody := length_written body bodyWrites
      refine ⟨_, s.response.bodyHead body ++ body, rfl, ?_, ?_, ?_⟩
      · simp only [owed, List.flatMap_append, List.flatMap_singleton,
          ServerResponse.bodyHead_append]
      · simp only [List.length_append]
        omega
      · rw [append_eq_iff hhead hbody, written_iff body bodyWrites, Whole, ← and_assoc]
        refine and_congr_left fun _ => ⟨fun heq => ?_, fun ⟨hfits, hreturned⟩ => ?_⟩
        · -- the head is written as it was printed
          have hprinted : headBytes (s.response.bodyHead body) = s.response.bodyHead body := by
            have hfront := writeLoop_prefix sendPolicy (headBytes (s.response.bodyHead body))
              headWrites
            rw [written] at heq
            rw [heq] at hfront
            exact (hfront.eq_of_length_le (length_headBytes hinside)).symm
          rw [hprinted] at heq
          exact ⟨(headBytes_eq_iff _ _).mp hprinted, (written_iff _ _).mp heq⟩
        · rw [(headBytes_eq_iff _ _).mpr hfits]
          exact (written_iff _ _).mpr hreturned

variable {word : List ReplyAction} {last : ReplyStream}

/-- The stream is what was sent as long as all of it is written, and damaged from
then on. -/
theorem stream_split (hrun : machine.run word = some last) :
    (machine.Meets Whole word → last.wire = last.owed) ∧
      (¬ machine.Meets Whole word → last.Damaged) := by
  have hkeep : ∀ s action next, s.wire = s.owed → s.Whole action →
      machine.step s action = some next → next.wire = next.owed := by
    intro s action next hwire hwhole hstep
    obtain ⟨part, text, hpart, htext, -, hiff⟩ := step_adds hstep
    rw [hpart, htext, hwire, hiff.mpr hwhole]
  have hbreak : ∀ s action next, s.wire = s.owed → ¬ s.Whole action →
      machine.step s action = some next → next.Damaged := by
    intro s action next hwire hcut hstep
    obtain ⟨part, text, hpart, htext, hlength, hiff⟩ := step_adds hstep
    rw [Damaged, hpart, htext, hwire]
    refine ⟨by simpa using hlength, fun heq => hcut (hiff.mp ?_)⟩
    exact List.append_cancel_left heq
  have hstays : ∀ s action next, s.Damaged → machine.step s action = some next →
      next.Damaged := by
    rintro s action next ⟨hshort, hne⟩ hstep
    obtain ⟨part, text, hpart, htext, hlength, -⟩ := step_adds hstep
    rw [Damaged, hpart, htext]
    refine ⟨?_, fun heq => hne ((append_eq_iff hshort hlength).mp heq).1⟩
    simp only [List.length_append]
    omega
  exact machine.runFrom_split hkeep hbreak hstays word rfl hrun

theorem isSome_step (s : ReplyStream) (action : ReplyAction) :
    (s.step action).isSome ↔ s.HeadInside action := by
  cases action with
  | sendBody body headWrites bodyWrites =>
      rw [step, HeadInside]
      split
      · rename_i hinside
        exact iff_of_true rfl hinside
      · rename_i hoverrun
        exact iff_of_false (by simp) hoverrun
  | respond | setStatus | setHeader | setBody | send => exact iff_of_true rfl trivial

/-- A run goes on for as long as no head overruns its buffer. -/
theorem isSome_runFrom (s : ReplyStream) (word : List ReplyAction) :
    (machine.runFrom s word).isSome ↔ machine.MeetsFrom HeadInside s word := by
  induction word generalizing s with
  | nil => exact iff_of_true rfl trivial
  | cons action rest ih =>
      have hfirst := isSome_step s action
      rw [Machine.runFrom, Machine.MeetsFrom, ← hfirst]
      cases hstep : machine.step s action with
      | none =>
          have hnone : s.step action = none := hstep
          simp [hnone]
      | some next =>
          have hsome : s.step action = some next := hstep
          simpa [hsome] using ih next

/-- Whatever the handlers call, and however their bytes are taken: `send_body` reads
outside of its buffer just where a head is longer than 256 bytes; the stream is the
responses that were sent, one behind the other, just as long as no write fails and no
head is longer than 255 bytes; and then a client reads exactly these responses. -/
theorem replies_read (word : List ReplyAction) :
    ((machine.run word).isSome ↔ machine.Meets HeadInside word) ∧
      ∀ last, machine.run word = some last →
        (machine.Meets Whole word ↔ last.wire = last.owed) ∧
        (machine.Meets Whole word → (∀ r ∈ last.sent, r.Legible) →
          ReadsReplies last.wire (last.sent.map ServerResponse.shown)) := by
  refine ⟨isSome_runFrom machine.start word, fun last hrun => ?_⟩
  obtain ⟨hwhole, hdamaged⟩ := stream_split hrun
  refine ⟨⟨hwhole, fun heq => ?_⟩, fun hmeets hlegible => ?_⟩
  · by_contra hnot
    exact (hdamaged hnot).2 heq
  · rw [hwhole hmeets]
    exact ServerResponse.serialize_reads hlegible

/-- A page that is not found, written in three pieces, and the last answer of the
connection. -/
def twoReplies : List ReplyAction :=
  [.respond false, .setStatus 404 [], .setBody (ascii "no"), .send [.wrote 5, .wrote 20],
    .respond true, .setBody (ascii "ok"), .send []]

theorem replies_read_twoReplies :
    ∃ last, machine.run twoReplies = some last ∧
      ReadsReplies last.wire (last.sent.map ServerResponse.shown) ∧
      last.sent.map ServerResponse.shown =
        [⟨404, ascii "Not Found", ascii "HTTP/1.1",
            [⟨ascii "Content-Type", ascii "text/plain"⟩,
              ⟨ascii "Content-Length", ascii "2"⟩], ascii "no"⟩,
          ⟨200, ascii "OK", ascii "HTTP/1.1",
            [⟨ascii "Connection", ascii "close"⟩, ⟨ascii "Content-Length", ascii "2"⟩],
            ascii "ok"⟩] := by
  obtain ⟨last, hrun, hsent⟩ : ∃ last, machine.run twoReplies = some last ∧
      last.sent = [⟨404, ascii "Not Found", [], ascii "no"⟩,
        ⟨200, ascii "OK", [⟨ascii "Connection", ascii "close"⟩], ascii "ok"⟩] :=
    ⟨_, rfl, rfl⟩
  refine ⟨last, hrun, ((replies_read twoReplies).2 last hrun).2 (by decide) ?_, ?_⟩
  · rw [hsent]
    intro r hr
    simp only [List.mem_cons, List.not_mem_nil, or_false] at hr
    obtain rfl | rfl := hr
    · exact ⟨by decide, by decide, by decide, by simp, by simp, by decide⟩
    · refine ⟨by decide, by decide, by decide, ?_, by decide, by decide⟩
      unfold Header.Written
      decide
  · rw [hsent]
    rfl

end ReplyStream

end UltraNet
