/-
The WebSocket handshake of `websocket.hpp` and `ws_server.hpp` and the first call
of `read_frame` behind it.  Both sides parse what a single read has returned, and
what else that read holds is dropped.
-/
import UltraNet.AcceptKey
import UltraNet.HttpClient
import UltraNet.RingFrames

namespace UltraNet

open WebSocketFrame (decode wire)

/-- The error of a socket, or one that the handshake makes. -/
inductive HandshakeCode (E : Type) where
  | io (code : E)
  | econnreset
  | eproto

/-- `returned` is `handle_client` that returns without a connection. -/
inductive Handshake (E : Type) where
  | opened (reads : List (Except E (List UInt8)))
  | thrown (code : HandshakeCode E) (what : String)
  | returned
  | waiting

namespace WebSocket

variable {E : Type}

/-- The request that `connect` sends. -/
def upgradeRequest (host : List UInt8) (port : Nat) (path key : List UInt8) :
    HttpRequest :=
  ⟨.get, path, ascii "HTTP/1.1",
    [⟨ascii "Host", host ++ ascii ":" ++ decimalText port⟩,
      ⟨ascii "Upgrade", ascii "websocket"⟩, ⟨ascii "Connection", ascii "Upgrade"⟩,
      ⟨ascii "Sec-WebSocket-Key", key⟩, ⟨ascii "Sec-WebSocket-Version", ascii "13"⟩],
    []⟩

/-- The loop that reads the response; each read goes to the front of the buffer. -/
def awaitResponse (key : List UInt8) (resp : HttpResponse) :
    List (Except E (List UInt8)) → Handshake E
  | [] => .waiting
  | .error _ :: _ => .thrown .econnreset "handshake read failed"
  | .ok [] :: _ => .thrown .econnreset "handshake read failed"
  | .ok bytes :: reads =>
      let (resp, consumed) := resp.parseInto bytes
      if consumed = 0 then awaitResponse key resp reads
      else if resp.statusCode ≠ 101 then
        .thrown .eproto ("handshake rejected: " ++ toString resp.statusCode)
      else if findHeader resp.headers (ascii "sec-websocket-accept") ≠
          wsAcceptKey key then
        .thrown .eproto "Sec-WebSocket-Accept mismatch"
      else .opened reads

/-- `connect` with the key that it has generated. -/
def connect (host : List UInt8) (port : Nat) (path key : List UInt8)
    (writes : List (Except E Nat)) (reads : List (Except E (List UInt8))) :
    Handshake E :=
  match HttpClient.writeLoop (upgradeRequest host port path key).serialize 0
      writes with
  | none => .waiting
  | some (.error code) => .thrown (.io code) "websocket handshake write failed"
  | some (.ok ()) => awaitResponse key .fresh reads

/-- The response of `accept`. -/
def switchingProtocols (key : List UInt8) : HttpResponse :=
  ⟨101, ascii "Switching Protocols", ascii "HTTP/1.1",
    [⟨ascii "Upgrade", ascii "websocket"⟩, ⟨ascii "Connection", ascii "Upgrade"⟩,
      ⟨ascii "Sec-WebSocket-Accept", wsAcceptKey key⟩], []⟩

def accept (req : HttpRequest) (writes : List (Except E Nat)) :
    Option (Except (HandshakeCode E) Unit) :=
  let upgrade := findHeader req.headers (ascii "upgrade")
  let connection := findHeader req.headers (ascii "connection")
  let key := findHeader req.headers (ascii "sec-websocket-key")
  let version := findHeader req.headers (ascii "sec-websocket-version")
  if ¬ ascii "websocket" <:+: upgrade.map toLower ∨
      ¬ ascii "upgrade" <:+: connection.map toLower ∨
      key = [] ∨ version ≠ ascii "13" then
    some (.error .eproto)
  else
    (HttpClient.writeLoop (switchingProtocols key).serialize 0 writes).map
      fun result => result.mapError .io

/-- `handle_client` up to the open connection. -/
def handleClient (writes : List (Except E Nat)) :
    List (Except E (List UInt8)) → Handshake E
  | [] => .waiting
  | .error _ :: _ => .returned
  | .ok [] :: _ => .returned
  | .ok bytes :: reads =>
      match HttpRequest.parse bytes with
      | none => .returned
      | some (req, _) =>
          match accept req writes with
          | none => .waiting
          | some (.error _) => .returned
          | some (.ok ()) => .opened reads

/-- The result of `read_frame`, with the frames that it has written. -/
inductive FrameResult (E : Type) where
  | returned (frame : WebSocketFrame) (written : List WebSocketFrame)
  | thrown (code : HandshakeCode E) (what : String)
  -- a frame that is too long for a string
  | tooLong
  | waiting

/-- `read_frame`, over the results of `read`; after a ping it reads again before
it looks at what is left in the buffer. -/
def readFrame (buffer : List UInt8) (written : List WebSocketFrame) :
    List (Except E (List UInt8)) → FrameResult E
  | [] => .waiting
  | .error code :: _ => .thrown (.io code) "websocket read failed"
  | .ok [] :: _ => .thrown .econnreset "websocket connection closed"
  | .ok bytes :: reads =>
      let buffer := buffer ++ bytes
      match decode buffer with
      | .more => readFrame buffer written reads
      | .tooLong => .tooLong
      | .frame frame consumed =>
          if frame.opcode = .ping then
            readFrame (buffer.drop consumed) (written ++ [.pong frame.payload]) reads
          else if frame.opcode = .close then
            .returned frame (written ++ [.close 1000 []])
          else .returned frame written

/-- The reads of a run without errors. -/
def bytesRead (reads : List (List UInt8)) : List (Except E (List UInt8)) :=
  reads.map .ok

theorem bytesRead_injective {reads later : List (List UInt8)}
    (heq : (bytesRead reads : List (Except E (List UInt8))) = bytesRead later) :
    reads = later :=
  List.map_injective_iff.mpr (fun _ _ => Except.ok.inj) heq

/-- The first frame of a stream that is no ping is the first that is returned,
and it is returned without more reads if it is the first of all. -/
def FirstFrame (frames : List WebSocketFrame) (result : FrameResult E) : Prop :=
  (∀ frame written, result = .returned frame written →
    (withoutPings frames).head? = some frame) ∧
  ∀ frame, frames.head? = some frame → frame.opcode ≠ .ping →
    ∃ written, result = .returned frame written

/-- The connection is open, no byte of the frames is lost, and `read_frame`
returns the first of them. -/
def HandsOver (frames : List WebSocketFrame) (result : Handshake E) : Prop :=
  ∃ later, result = .opened (bytesRead later) ∧
    later.flatten = frames.flatMap wire ∧
    FirstFrame frames (readFrame [] [] (bytesRead later) : FrameResult E)

section

variable {frames : List WebSocketFrame} {reads : List (List UInt8)}
  {buffer : List UInt8}

theorem readFrame_read {read : List UInt8} (hread : read ≠ [])
    (written : List WebSocketFrame) (reads : List (Except E (List UInt8))) :
    readFrame buffer written (.ok read :: reads) =
      match decode (buffer ++ read) with
      | .more => readFrame (buffer ++ read) written reads
      | .tooLong => .tooLong
      | .frame frame consumed =>
          if frame.opcode = .ping then
            readFrame ((buffer ++ read).drop consumed)
              (written ++ [.pong frame.payload]) reads
          else if frame.opcode = .close then
            .returned frame (written ++ [.close 1000 []])
          else .returned frame written :=
  readFrame.eq_4 _ _ _ _ hread

/-- What the buffer holds behind a read: a part of a frame, or the first frame. -/
theorem decode_cases (hlegal : ∀ frame ∈ frames, frame.Legal)
    {more : List UInt8} (hstream : buffer ++ more = frames.flatMap wire) :
    decode buffer = .more ∧ (more = [] → frames = []) ∨
      ∃ frame rest, frames = frame :: rest ∧
        decode buffer = .frame frame frame.wire.length ∧
        buffer.drop frame.wire.length ++ more = rest.flatMap wire := by
  have hlong := WebSocketFrame.decode_ne_tooLong hlegal hstream
  obtain ⟨frame, rest, tail, rfl, rfl, hdecode, htail⟩ | ⟨hpart, hend⟩ :=
    WebSocketFrame.frameCodec.next hlegal hstream
  · refine .inr ⟨frame, rest, rfl, WebSocketFrame.decodeFrame_eq_some.mp hdecode, ?_⟩
    rw [List.drop_left, htail]
  · refine .inl ⟨?_, hend⟩
    by_cases hempty : buffer = []
    · rw [hempty]
      rfl
    · have hnone := hpart hempty
      unfold WebSocketFrame.decodeFrame at hnone
      cases hdecode : decode buffer with
      | more => rfl
      | tooLong => exact absurd hdecode hlong
      | frame frame size =>
          rw [hdecode] at hnone
          cases hnone

/-- Pings are answered; what is returned is the first other frame. -/
theorem readFrame_returned (hlegal : ∀ frame ∈ frames, frame.Legal)
    (hsome : ∀ read ∈ reads, read ≠ [])
    (hstream : buffer ++ reads.flatten = frames.flatMap wire)
    {frame : WebSocketFrame} {written final : List WebSocketFrame}
    (hresult : (readFrame buffer written (bytesRead reads) : FrameResult E) =
      .returned frame final) :
    (withoutPings frames).head? = some frame := by
  induction reads generalizing buffer frames written with
  | nil => cases hresult
  | cons read reads ih =>
      obtain ⟨hread, hothers⟩ := List.forall_mem_cons.mp hsome
      rw [List.flatten_cons, ← List.append_assoc] at hstream
      rw [bytesRead, List.map_cons, readFrame_read hread] at hresult
      obtain ⟨hmore, -⟩ | ⟨first, rest, rfl, hframe, htail⟩ :=
        decode_cases hlegal hstream
      · rw [hmore] at hresult
        exact ih hlegal hothers hstream hresult
      · rw [hframe] at hresult
        dsimp only at hresult
        have hrest := (List.forall_mem_cons.mp hlegal).2
        by_cases hping : first.opcode = .ping
        · rw [if_pos hping] at hresult
          have hskip : withoutPings (first :: rest) = withoutPings rest := by
            simp [withoutPings, hping]
          rw [hskip]
          exact ih hrest hothers htail hresult
        · rw [if_neg hping] at hresult
          rw [withoutPings_cons hping, List.head?_cons]
          split at hresult
          · cases hresult
            rfl
          · cases hresult
            rfl

/-- The first frame is returned with the read that completes it. -/
theorem readFrame_returns {frame : WebSocketFrame} {rest : List WebSocketFrame}
    (hlegal : ∀ other ∈ frame :: rest, other.Legal) (hping : frame.opcode ≠ .ping)
    (hsome : ∀ read ∈ reads, read ≠ []) (hmore : decode buffer = .more)
    (hstream : buffer ++ reads.flatten = (frame :: rest).flatMap wire)
    (written : List WebSocketFrame) :
    ∃ final, (readFrame buffer written (bytesRead reads) : FrameResult E) =
      .returned frame final := by
  induction reads generalizing buffer with
  | nil =>
      obtain ⟨-, hend⟩ | ⟨first, others, -, hframe, -⟩ := decode_cases hlegal hstream
      · cases hend rfl
      · rw [hmore] at hframe
        cases hframe
  | cons read reads ih =>
      obtain ⟨hread, hothers⟩ := List.forall_mem_cons.mp hsome
      rw [List.flatten_cons, ← List.append_assoc] at hstream
      rw [bytesRead, List.map_cons, readFrame_read hread]
      obtain ⟨hpart, -⟩ | ⟨first, others, hsplit, hframe, -⟩ :=
        decode_cases hlegal hstream
      · rw [hpart]
        exact ih hothers hpart hstream
      · obtain ⟨rfl, -⟩ := List.cons.inj hsplit
        rw [hframe]
        dsimp only
        rw [if_neg hping]
        split
        · exact ⟨_, rfl⟩
        · exact ⟨_, rfl⟩

theorem firstFrame_of_stream (hlegal : ∀ frame ∈ frames, frame.Legal)
    (hsome : ∀ read ∈ reads, read ≠ [])
    (hstream : reads.flatten = frames.flatMap wire) :
    FirstFrame frames (readFrame [] [] (bytesRead reads) : FrameResult E) := by
  refine ⟨fun frame written => readFrame_returned hlegal hsome hstream, ?_⟩
  intro frame hhead hping
  obtain ⟨rest, rfl⟩ := List.head?_eq_some_iff.mp hhead
  exact readFrame_returns hlegal hping hsome rfl hstream []

end

/-- A read that is by itself a 101 response with the accept value of the key. -/
def Confirms (key read : List UInt8) : Prop :=
  ∃ response consumed, HttpResponse.parse read = some (response, consumed) ∧
    response.statusCode = 101 ∧
    findHeader response.headers (ascii "sec-websocket-accept") = wsAcceptKey key

theorem confirms_iff {key read : List UInt8} {response : HttpResponse} {consumed : Nat}
    (hparse : HttpResponse.parse read = some (response, consumed)) :
    Confirms key read ↔ response.statusCode = 101 ∧
      findHeader response.headers (ascii "sec-websocket-accept") = wsAcceptKey key := by
  constructor
  · rintro ⟨found, size, hfound, hconfirm⟩
    rw [hparse] at hfound
    obtain ⟨rfl, -⟩ := Prod.mk.inj (Option.some.inj hfound)
    exact hconfirm
  · exact fun hconfirm => ⟨response, consumed, hparse, hconfirm⟩

theorem not_confirms {key read : List UInt8} (hparse : HttpResponse.parse read = none) :
    ¬ Confirms key read := by
  rintro ⟨response, consumed, hsome, -⟩
  rw [hparse] at hsome
  cases hsome

theorem awaitResponse_read {read : List UInt8} (hread : read ≠ [])
    (key : List UInt8) (resp : HttpResponse) (reads : List (Except E (List UInt8))) :
    awaitResponse key resp (.ok read :: reads) =
      if (resp.parseInto read).2 = 0 then
        awaitResponse key (resp.parseInto read).1 reads
      else if (resp.parseInto read).1.statusCode ≠ 101 then
        .thrown .eproto
          ("handshake rejected: " ++ toString (resp.parseInto read).1.statusCode)
      else if findHeader (resp.parseInto read).1.headers
          (ascii "sec-websocket-accept") ≠ wsAcceptKey key then
        .thrown .eproto "Sec-WebSocket-Accept mismatch"
      else .opened reads :=
  awaitResponse.eq_4 _ _ _ _ hread

/-- The reads before the accepted one are parsed by themselves, and so is that
one. -/
theorem awaitResponse_opened_iff {key : List UInt8} {reads later : List (List UInt8)}
    (hsome : ∀ read ∈ reads, read ≠ []) (resp : HttpResponse) :
    (awaitResponse key resp (bytesRead reads) : Handshake E) =
        .opened (bytesRead later) ↔
      ∃ before last, reads = before ++ last :: later ∧
        (∀ read ∈ before, HttpResponse.parse read = none) ∧ Confirms key last := by
  induction reads generalizing resp with
  | nil => simp [bytesRead, awaitResponse]
  | cons read reads ih =>
      obtain ⟨hread, hothers⟩ := List.forall_mem_cons.mp hsome
      rw [bytesRead, List.map_cons, awaitResponse_read hread]
      obtain ⟨hreturn, hfound⟩ := HttpResponse.parseInto_any resp read
      obtain ⟨hnone, hzero⟩ | hparse := HttpResponse.parse_eq_parseInto read
      · rw [if_pos (hreturn.trans hzero)]
        refine (ih hothers _).trans ?_
        constructor
        · rintro ⟨before, last, rfl, hbefore, hlast⟩
          exact ⟨read :: before, last, rfl,
            List.forall_mem_cons.mpr ⟨hnone, hbefore⟩, hlast⟩
        · rintro ⟨before, last, hsplit, hbefore, hlast⟩
          cases before with
          | nil =>
              obtain ⟨rfl, -⟩ := List.cons.inj hsplit
              exact absurd hlast (not_confirms hnone)
          | cons first before =>
              obtain ⟨rfl, rfl⟩ := List.cons.inj hsplit
              exact ⟨before, last, rfl, (List.forall_mem_cons.mp hbefore).2, hlast⟩
      · have hpos := HttpResponse.parse_pos hparse
        obtain ⟨hcode, hheaders⟩ := hfound hpos
        rw [if_neg (by omega), hcode, hheaders]
        have hconfirms : Confirms key read ↔
            (HttpResponse.fresh.parseInto read).1.statusCode = 101 ∧
              findHeader (HttpResponse.fresh.parseInto read).1.headers
                (ascii "sec-websocket-accept") = wsAcceptKey key :=
          confirms_iff hparse
        constructor
        · intro hopened
          split at hopened
          · cases hopened
          rename_i hcode
          split at hopened
          · cases hopened
          rename_i haccept
          obtain rfl := bytesRead_injective (Handshake.opened.inj hopened)
          refine ⟨[], read, rfl, by simp, hconfirms.mpr ?_⟩
          exact ⟨not_not.mp hcode, not_not.mp haccept⟩
        · rintro ⟨before, last, hsplit, hbefore, hlast⟩
          cases before with
          | nil =>
              obtain ⟨rfl, rfl⟩ := List.cons.inj hsplit
              obtain ⟨hcode, haccept⟩ := hconfirms.mp hlast
              rw [if_neg (not_not.mpr hcode), if_neg (not_not.mpr haccept)]
              rfl
          | cons first before =>
              obtain ⟨rfl, -⟩ := List.cons.inj hsplit
              have hnone := (List.forall_mem_cons.mp hbefore).1
              rw [hparse] at hnone
              cases hnone

/-- The response to an upgrade request with the key. -/
structure Switches (key : List UInt8) (response : ResponseText) : Prop where
  payload : response.payload = []
  framed : response.Framed
  readable : ReadableLength response.fields
  code : (response.parsed []).statusCode = 101
  accepts : findHeader (response.fields.map HeaderField.header)
    (ascii "sec-websocket-accept") = wsAcceptKey key

/-- The headers of an upgrade request. -/
structure Upgrades (request : RequestText) : Prop where
  upgrade : ascii "websocket" <:+:
    (findHeader request.headers (ascii "upgrade")).map toLower
  connection : ascii "upgrade" <:+:
    (findHeader request.headers (ascii "connection")).map toLower
  key : findHeader request.headers (ascii "sec-websocket-key") ≠ []
  version : findHeader request.headers (ascii "sec-websocket-version") = ascii "13"

section

variable {frames : List WebSocketFrame} {reads : List (List UInt8)}

/-- The reads of the client: one ends with the header block.  If others come
before it, none of them ends behind a line, and it confirms the key by itself. -/
def ClientReads (key : List UInt8) (response : ResponseText)
    (reads : List (List UInt8)) : Prop :=
  ∃ before last later, reads = before ++ last :: later ∧
    before.flatten ++ last = response.head ∧
    (∀ read ∈ before, ¬ HttpResponse.EndsBehindLine read) ∧
    (before ≠ [] → Confirms key last)

theorem handsOver_iff (hlegal : ∀ frame ∈ frames, frame.Legal)
    (hsome : ∀ read ∈ reads, read ≠ []) {result : Handshake E}
    (hopened : ∀ later, result = .opened (bytesRead later) → later <:+ reads) :
    HandsOver frames result ↔
      ∃ later, result = .opened (bytesRead later) ∧
        later.flatten = frames.flatMap wire := by
  constructor
  · rintro ⟨later, hresult, hstream, -⟩
    exact ⟨later, hresult, hstream⟩
  · rintro ⟨later, hresult, hstream⟩
    have hlater : ∀ read ∈ later, read ≠ [] := fun read hread =>
      hsome read ((hopened later hresult).subset hread)
    exact ⟨later, hresult, hstream, firstFrame_of_stream hlegal hlater hstream⟩

/-- A part of the header block passes for a whole one just if it ends behind a
line. -/
theorem parse_eq_none_iff {response : ResponseText} {before : List (List UInt8)}
    {last : List UInt8} (hlast : last ≠ [])
    (hhead : before.flatten ++ last = response.head) {read : List UInt8}
    (hread : read ∈ before) :
    HttpResponse.parse read = none ↔ ¬ HttpResponse.EndsBehindLine read := by
  obtain ⟨front, behind, rfl⟩ := List.mem_iff_append.mp hread
  have hblank : ¬ blankLine <:+: read := by
    intro hblank
    have hsplit : (front.flatten ++ read) ++ (behind.flatten ++ last) =
        headText response.start response.fields := by
      rw [← ResponseText.head, ← hhead]
      simp
    refine blankLine_not_part response.start_cr hsplit ?_
      (hblank.trans (List.suffix_append _ _).isInfix)
    simp [hlast]
  have hwaits := HttpResponse.parseReturn_waits_iff read
  rw [HttpResponse.parseReturn_ne_zero] at hwaits
  tauto

theorem Switches.confirms {key : List UInt8} {response : ResponseText}
    (hswitches : Switches key response) : Confirms key response.head := by
  have hparse := ResponseText.parse_wire hswitches.framed hswitches.readable
  have hwire : response.wire = response.head := by
    rw [ResponseText.wire, hswitches.payload, List.append_nil]
  rw [hwire, hswitches.payload] at hparse
  exact ⟨_, _, hparse, hswitches.code, hswitches.accepts⟩

/-- The client. -/
theorem connect_hands_over_iff {key : List UInt8} {response : ResponseText}
    (hswitches : Switches key response) (hlegal : ∀ frame ∈ frames, frame.Legal)
    (hsome : ∀ read ∈ reads, read ≠ [])
    (hreads : reads.flatten = response.head ++ frames.flatMap wire)
    {host path : List UInt8} {port : Nat} {writes : List (Except E Nat)}
    (hwritten : HttpClient.writeLoop (upgradeRequest host port path key).serialize 0
      writes = some (.ok ())) :
    HandsOver frames (connect host port path key writes (bytesRead reads)) ↔
      ClientReads key response reads := by
  have hconnect : connect host port path key writes (bytesRead reads) =
      awaitResponse key .fresh (bytesRead reads) := by
    rw [connect, hwritten]
  have hopened : ∀ later, (awaitResponse key .fresh (bytesRead reads) :
      Handshake E) =
      .opened (bytesRead later) ↔ _ :=
    fun later => awaitResponse_opened_iff hsome .fresh
  rw [hconnect, handsOver_iff hlegal hsome fun later hresult => ?_]
  · constructor
    · rintro ⟨later, hresult, hstream⟩
      obtain ⟨before, last, rfl, hbefore, hlast⟩ := (hopened later).mp hresult
      have hhead : before.flatten ++ last = response.head := by
        rw [List.flatten_append, List.flatten_cons, hstream,
          ← List.append_assoc] at hreads
        exact (List.append_left_inj _).mp hreads
      have hnonempty : last ≠ [] := hsome last (by simp)
      refine ⟨before, last, later, rfl, hhead, fun read hread => ?_, fun _ => hlast⟩
      exact (parse_eq_none_iff hnonempty hhead hread).mp (hbefore read hread)
    · rintro ⟨before, last, later, rfl, hhead, hbefore, hlast⟩
      have hnonempty : last ≠ [] := hsome last (by simp)
      refine ⟨later, (hopened later).mpr ⟨before, last, rfl, ?_, ?_⟩, ?_⟩
      · exact fun read hread =>
          (parse_eq_none_iff hnonempty hhead hread).mpr (hbefore read hread)
      · by_cases hempty : before = []
        · subst hempty
          rw [List.flatten_nil, List.nil_append] at hhead
          rw [hhead]
          exact hswitches.confirms
        · exact hlast hempty
      · rw [List.flatten_append, List.flatten_cons, ← List.append_assoc,
          hhead] at hreads
        exact (List.append_right_inj _).mp hreads
  · obtain ⟨before, last, rfl, -⟩ := (hopened later).mp hresult
    exact ⟨before ++ [last], by simp⟩

theorem accept_upgrade {request : RequestText} (hupgrades : Upgrades request)
    {writes : List (Except E Nat)}
    (hwritten : HttpClient.writeLoop (switchingProtocols
      (findHeader request.headers (ascii "sec-websocket-key"))).serialize 0 writes =
        some (.ok ())) :
    accept request.parsed writes = some (.ok ()) := by
  obtain ⟨hupgrade, hconnection, hkey, hversion⟩ := hupgrades
  have hheaders : request.parsed.headers = request.headers := rfl
  unfold accept
  simp only [hheaders, hupgrade, hconnection, hkey, hversion, not_true_eq_false,
    ne_eq, or_false, if_false, hwritten]
  rfl

theorem handleClient_opened {writes : List (Except E Nat)}
    {later : List (List UInt8)}
    (hopened : handleClient writes (bytesRead reads) = .opened (bytesRead later)) :
    ∃ first, reads = first :: later := by
  cases reads with
  | nil => cases hopened
  | cons first rest =>
      cases first with
      | nil => cases hopened
      | cons byte bytes =>
          simp only [bytesRead, List.map_cons, handleClient] at hopened
          split at hopened
          · cases hopened
          split at hopened
          · cases hopened
          · cases hopened
          · obtain rfl := bytesRead_injective (Handshake.opened.inj hopened)
            exact ⟨_, rfl⟩

/-- The server: the first read has to be the header block. -/
theorem handleClient_hands_over_iff {request : RequestText}
    (hupgrades : Upgrades request) (hlegal : ∀ frame ∈ frames, frame.Legal)
    (hsome : ∀ read ∈ reads, read ≠ [])
    (hreads : reads.flatten = request.head ++ frames.flatMap wire)
    {writes : List (Except E Nat)}
    (hwritten : HttpClient.writeLoop (switchingProtocols
      (findHeader request.headers (ascii "sec-websocket-key"))).serialize 0 writes =
        some (.ok ())) :
    HandsOver frames (handleClient writes (bytesRead reads)) ↔
      ∃ later, reads = request.head :: later := by
  rw [handsOver_iff hlegal hsome fun later hresult => ?_]
  · constructor
    · rintro ⟨later, hresult, hstream⟩
      obtain ⟨first, rfl⟩ := handleClient_opened hresult
      rw [List.flatten_cons, hstream] at hreads
      exact ⟨later, by rw [(List.append_left_inj _).mp hreads]⟩
    · rintro ⟨later, rfl⟩
      have hparse := request.parse_head []
      rw [List.append_nil] at hparse
      refine ⟨later, ?_, ?_⟩
      · rw [bytesRead, List.map_cons,
          handleClient.eq_4 _ _ _ (hsome _ List.mem_cons_self), hparse]
        dsimp only
        rw [accept_upgrade hupgrades hwritten]
        rfl
      · rw [List.flatten_cons] at hreads
        exact (List.append_right_inj _).mp hreads
  · obtain ⟨first, rfl⟩ := handleClient_opened hresult
    exact List.suffix_cons _ _

end

/-- Both sides, whatever the reads and whatever frames follow. -/
theorem handshake_hands_over_iff {frames : List WebSocketFrame}
    {reads : List (List UInt8)} (hlegal : ∀ frame ∈ frames, frame.Legal)
    (hsome : ∀ read ∈ reads, read ≠ []) :
    (∀ (key : List UInt8) (response : ResponseText) (host : List UInt8) (port : Nat)
        (path : List UInt8) (writes : List (Except E Nat)),
      Switches key response →
      reads.flatten = response.head ++ frames.flatMap wire →
      HttpClient.writeLoop (upgradeRequest host port path key).serialize 0 writes =
        some (.ok ()) →
      (HandsOver frames (connect host port path key writes (bytesRead reads)) ↔
        ClientReads key response reads)) ∧
    ∀ (request : RequestText) (writes : List (Except E Nat)), Upgrades request →
      reads.flatten = request.head ++ frames.flatMap wire →
      HttpClient.writeLoop (switchingProtocols (findHeader request.headers
        (ascii "sec-websocket-key"))).serialize 0 writes = some (.ok ()) →
      (HandsOver frames (handleClient writes (bytesRead reads)) ↔
        ∃ later, reads = request.head :: later) :=
  ⟨fun _ _ _ _ _ _ hswitches hreads hwritten =>
    connect_hands_over_iff hswitches hlegal hsome hreads hwritten,
  fun _ _ hupgrades hreads hwritten =>
    handleClient_hands_over_iff hupgrades hlegal hsome hreads hwritten⟩

def upgradeField : HeaderField :=
  ⟨ascii "Upgrade", 1, ascii "websocket", by decide, by decide, by decide, by decide,
    by decide⟩

def connectionField : HeaderField :=
  { closeField with
    value := ascii "Upgrade"
    value_cr := by decide
    value_head := by decide }

def acceptField : HeaderField :=
  ⟨ascii "Sec-WebSocket-Accept", 1, sampleAccept, by decide, by decide, by decide,
    by decide, by decide⟩

def keyField : HeaderField :=
  ⟨ascii "Sec-WebSocket-Key", 1, sampleKey, by decide, by decide, by decide,
    by decide, by decide⟩

def versionField : HeaderField :=
  ⟨ascii "Sec-WebSocket-Version", 1, ascii "13", by decide, by decide, by decide,
    by decide, by decide⟩

def sampleSwitch : ResponseText :=
  { lengthResponse with
    status := ascii "101 Switching Protocols"
    fields := [upgradeField, connectionField, acceptField]
    payload := []
    status_cr := by decide }

def sampleUpgrade : RequestText :=
  getRequest [hostField, upgradeField, connectionField, keyField, versionField]

theorem sampleSwitch_switches : Switches sampleKey sampleSwitch := by
  refine ⟨rfl, ?_, by decide, by decide, ?_⟩
  · unfold ResponseText.Framed
    decide
  · rw [wsAcceptKey_sampleKey]
    decide

theorem sampleUpgrade_upgrades : Upgrades sampleUpgrade := by
  refine ⟨⟨[], [], by decide⟩, ⟨[], [], by decide⟩, by decide, by decide⟩

def greeting : WebSocketFrame := ⟨true, .text, false, 0, ascii "hi"⟩

theorem greeting_legal : ∀ frame ∈ [greeting], frame.Legal := by
  intro frame hframe
  obtain rfl := List.mem_singleton.mp hframe
  exact ⟨by simp [greeting], by decide, fun _ => rfl⟩

def sampleWrites : List (Except Nat Nat) :=
  [.ok (upgradeRequest (ascii "a") 80 (ascii "/") sampleKey).serialize.length]

def sampleAnswer : List (Except Nat Nat) :=
  [.ok (switchingProtocols sampleKey).serialize.length]

/-- The header block in one read, the frame in the next one. -/
theorem handshake_hands_over_greeting :
    HandsOver [greeting] (connect (ascii "a") 80 (ascii "/") sampleKey sampleWrites
      (bytesRead [sampleSwitch.head, greeting.wire])) ∧
    HandsOver [greeting] (handleClient sampleAnswer
      (bytesRead [sampleUpgrade.head, greeting.wire])) := by
  have hswitch : ∀ read ∈ [sampleSwitch.head, greeting.wire], read ≠ [] := by decide
  have hupgrade : ∀ read ∈ [sampleUpgrade.head, greeting.wire],
      read ≠ [] := by decide
  have hreads : ClientReads sampleKey sampleSwitch
      [sampleSwitch.head, greeting.wire] :=
    ⟨[], sampleSwitch.head, [greeting.wire], rfl, rfl, by simp, by simp⟩
  exact ⟨((handshake_hands_over_iff greeting_legal hswitch).1 sampleKey sampleSwitch
      (ascii "a") 80 (ascii "/") sampleWrites sampleSwitch_switches (by simp)
      (HttpClient.writeLoop_whole _)).mpr hreads,
    ((handshake_hands_over_iff greeting_legal hupgrade).2 sampleUpgrade sampleAnswer
      sampleUpgrade_upgrades (by simp) (HttpClient.writeLoop_whole _)).mpr
        ⟨[greeting.wire], rfl⟩⟩

/-- The frame in the read of the response, and a request in two reads. -/
theorem handshake_loses :
    (Switches sampleKey sampleSwitch ∧
      ¬ HandsOver [greeting] (connect (ascii "a") 80 (ascii "/") sampleKey
        sampleWrites (bytesRead [sampleSwitch.head ++ greeting.wire]))) ∧
    Upgrades sampleUpgrade ∧
      ascii "GET / HT" ++ sampleUpgrade.head.drop 8 = sampleUpgrade.head ∧
      ¬ HandsOver [] (handleClient sampleAnswer
        (bytesRead [ascii "GET / HT", sampleUpgrade.head.drop 8])) := by
  refine ⟨⟨sampleSwitch_switches, fun hover => ?_⟩,
    sampleUpgrade_upgrades, by decide,
    fun hover => ?_⟩
  · obtain ⟨before, last, later, hsplit, hhead, -⟩ := (connect_hands_over_iff
      sampleSwitch_switches greeting_legal (by decide) (by simp)
      (HttpClient.writeLoop_whole _)).mp hover
    cases before with
    | nil =>
        obtain ⟨rfl, -⟩ := List.cons.inj hsplit
        revert hhead
        decide
    | cons first before => simp at hsplit
  · obtain ⟨later, hlater⟩ := (handleClient_hands_over_iff sampleUpgrade_upgrades
      (by simp) (by decide) (by decide) (HttpClient.writeLoop_whole _)).mp hover
    obtain ⟨hfirst, -⟩ := List.cons.inj hlater
    revert hfirst
    decide

end WebSocket

end UltraNet
