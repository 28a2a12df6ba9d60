/-
The client side of `proxy_session` of the HTTP proxy: requests are collected
from the reads and handed to `forward_one` one by one.
-/
import UltraNet.HeaderWords
import UltraNet.HttpForward
import UltraNet.HttpText
import Mathlib.Data.List.Infix

namespace UltraNet

/-- What `proxy_session` waits for: bytes of a header block, bytes of a body, or
the end of `forward_one` and its second attempt. -/
inductive ClientPhase where
  | head
  | body (request : HttpRequest) (totalReq : Nat)
  | forwarding (request : HttpRequest) (totalReq : Nat)
  | closed

inductive ClientInput where
  -- no bytes are the end of the stream
  | read (bytes : List UInt8)
  | enobufs
  | error
  | forwarded (ok : Bool)

/-- `received` and `forwarded` are ghosts: the bytes that the session has read,
and the requests that it has handed to `forward_one`. -/
structure ProxyClient where
  phase : ClientPhase
  maxBuf : Nat
  clientBuf : SlidingBuffer
  received : List UInt8
  forwarded : List (List UInt8)

namespace ProxyClient

def init (maxBuf : Nat) : ProxyClient := ⟨.head, maxBuf, .empty, [], []⟩

/-- The loop that waits for the body. -/
def awaitBody (s : ProxyClient) (request : HttpRequest) (totalReq : Nat) :
    ProxyClient :=
  if s.clientBuf.remaining < totalReq then
    { s with phase := .body request totalReq }
  else
    { s with
      phase := .forwarding request totalReq
      forwarded := s.forwarded ++ [s.clientBuf.head.take totalReq] }

/-- The loop around `req.parse`. -/
def tryParse (s : ProxyClient) : ProxyClient :=
  match HttpRequest.parse s.clientBuf.head with
  | some (request, consumed) =>
      s.awaitBody request (consumed + (getContentLength request.headers).toNat)
  | none => s

def append (s : ProxyClient) (bytes : List UInt8) : ProxyClient :=
  { s with
    clientBuf := s.clientBuf.append bytes
    received := s.received ++ bytes }

/-- `forward_one` has succeeded. -/
def finish (s : ProxyClient) (request : HttpRequest) (totalReq : Nat) :
    ProxyClient :=
  let buf := s.clientBuf.consume totalReq
  { s with
    clientBuf := if buf.remaining = 0 then .empty else buf
    phase := if requestKeepalive request then .head else .closed }

def step (s : ProxyClient) (input : ClientInput) : Option ProxyClient :=
  match s.phase, input with
  | .head, .read bytes =>
      if bytes = [] then some { s with phase := .closed }
      else if (s.append bytes).clientBuf.data.length > s.maxBuf then
        some { s.append bytes with phase := .closed }
      else some (s.append bytes).tryParse
  | .body request totalReq, .read bytes =>
      if bytes = [] then some { s with phase := .closed }
      else if (s.append bytes).clientBuf.data.length > s.maxBuf then
        some { s.append bytes with phase := .closed }
      else some ((s.append bytes).awaitBody request totalReq)
  -- the read is tried again
  | .head, .enobufs | .body .., .enobufs => some s
  | .head, .error | .body .., .error => some { s with phase := .closed }
  | .forwarding request totalReq, .forwarded true =>
      some (s.finish request totalReq)
  | .forwarding .., .forwarded false => some { s with phase := .closed }
  | _, _ => none

def machine (maxBuf : Nat) : Machine ProxyClient ClientInput :=
  ⟨init maxBuf, step⟩

end ProxyClient

namespace RequestText

/-- The requests of a stream whose bytes are all among its first `size`. -/
def completed : List RequestText → Nat → List RequestText
  | [], _ => []
  | request :: requests, size =>
      if request.wire.length ≤ size then
        request :: completed requests (size - request.wire.length)
      else []

theorem completed_append (done rest : List RequestText) (size : Nat) :
    completed (done ++ rest) ((done.flatMap wire).length + size) =
      done ++ completed rest size := by
  induction done with
  | nil => simp
  | cons request done ih =>
      have hsize : ((request :: done).flatMap wire).length + size =
          request.wire.length + ((done.flatMap wire).length + size) := by
        simp only [List.flatMap_cons, List.length_append]
        omega
      rw [hsize, List.cons_append, completed, if_pos (Nat.le_add_right _ _),
        Nat.add_sub_cancel_left, ih, List.cons_append]

theorem completed_all (requests : List RequestText) :
    completed requests (requests.flatMap wire).length = requests := by
  have hall := completed_append requests [] 0
  simpa [completed] using hall

/-- The next request has not arrived as a whole. -/
def Unfinished (rest : List RequestText) (part : List UInt8) : Prop :=
  completed rest part.length = []

theorem unfinished_of_lt {request : RequestText} {rest : List RequestText}
    {part : List UInt8} (hpart : part.length < request.wire.length) :
    Unfinished (request :: rest) part := by
  rw [Unfinished, completed, if_neg (by omega)]

theorem unfinished_nil (rest : List RequestText) : Unfinished rest [] := by
  cases rest with
  | nil => rfl
  | cons request rest =>
      exact unfinished_of_lt (List.length_pos_iff.mpr request.wire_nonempty)

theorem getContentLength_eq {request : RequestText} (hframed : request.Framed)
    (hreadable : ReadableLength request.fields) :
    (getContentLength request.headers).toNat = request.body.length := by
  refine contentLength_of_find hframed hreadable ?_
  intro field _
  rw [HeaderField.header, HeaderField.isContentLength]
  exact matchesLower_eq field.name_cr (by decide)

end RequestText

namespace ProxyClient

/-- The reads are those of a stream, without an error, and `forward_one`
succeeds. -/
def feeds (requests : List RequestText) (s : ProxyClient) : ClientInput → Bool
  | .read bytes =>
      bytes ≠ [] ∧ s.received ++ bytes <+: requests.flatMap RequestText.wire
  | .enobufs => true
  | .error => false
  | .forwarded ok => ok

/-- A read fits in the buffer and brings the last byte of at most one request.
While the header block is awaited, what is buffered ends with a line break only
if the empty line is there. -/
def wellCut (requests : List RequestText) (s : ProxyClient) : ClientInput → Bool
  | .read bytes =>
      s.clientBuf.data.length + bytes.length ≤ s.maxBuf &&
      (RequestText.completed requests (s.received ++ bytes).length).length ≤
        (RequestText.completed requests s.received.length).length + 1 &&
      match s.phase with
      | .head =>
          !crlf.isSuffixOf (s.clientBuf.head ++ bytes) ||
            decide (blankLine <:+: s.clientBuf.head ++ bytes)
      | _ => true
  | _ => true

/-- What the buffer holds: the bytes of the request that comes next, behind
those of the one that is being forwarded. -/
def Holds (done rest : List RequestText) (part : List UInt8) (s : ProxyClient) :
    Prop :=
  match s.phase with
  | .head => s.clientBuf.head = part
  | .body request totalReq => s.clientBuf.head = part ∧
      ∃ next others, rest = next :: others ∧ request = next.parsed ∧
        totalReq = next.wire.length
  | .forwarding request totalReq =>
      ∃ current, done.getLast? = some current ∧ request = current.parsed ∧
        totalReq = current.wire.length ∧
        s.clientBuf.head = current.wire ++ part
  | .closed => rest = []

/-- The session has read the requests `done` and a part of the next one. -/
structure Collects (requests done rest : List RequestText) (part : List UInt8)
    (s : ProxyClient) : Prop where
  requests_eq : requests = done ++ rest
  received_eq : s.received = done.flatMap RequestText.wire ++ part
  stream : part <+: rest.flatMap RequestText.wire
  unfinished : RequestText.Unfinished rest part
  forwarded_eq : s.forwarded = done.map RequestText.wire
  offset : s.clientBuf.offset ≤ s.clientBuf.data.length
  holds : s.Holds done rest part

variable {requests done rest : List RequestText} {part : List UInt8}
  {s s' : ProxyClient}

theorem Collects.completed (hcollects : Collects requests done rest part s) :
    RequestText.completed requests s.received.length = done := by
  rw [hcollects.requests_eq, hcollects.received_eq, List.length_append,
    RequestText.completed_append, hcollects.unfinished, List.append_nil]

/-- The next request is complete, or its body is awaited. -/
theorem awaitBody_collects {next : RequestText}
    (hrequests : requests = done ++ next :: rest)
    (hreceived : s.received = done.flatMap RequestText.wire ++ part)
    (hstream : part <+: (next :: rest).flatMap RequestText.wire)
    (hforwarded : s.forwarded = done.map RequestText.wire)
    (hoffset : s.clientBuf.offset ≤ s.clientBuf.data.length)
    (hhead : s.clientBuf.head = part)
    (hone : (RequestText.completed requests s.received.length).length ≤
      done.length + 1) :
    ∃ done rest part,
      Collects requests done rest part (s.awaitBody next.parsed
        next.wire.length) := by
  unfold awaitBody
  rw [← SlidingBuffer.length_head, hhead]
  split
  · rename_i hshort
    refine ⟨done, next :: rest, part, hrequests, hreceived, hstream,
      RequestText.unfinished_of_lt hshort, hforwarded, hoffset, hhead, ?_⟩
    exact ⟨next, rest, rfl, rfl, rfl⟩
  · rename_i hlong
    rw [List.flatMap_cons] at hstream
    obtain ⟨tail, rfl⟩ : next.wire <+: part :=
      List.prefix_of_prefix_length_le (List.prefix_append _ _) hstream (by omega)
    have hreceived : s.received =
        (done ++ [next]).flatMap RequestText.wire ++ tail := by
      rw [hreceived, List.flatMap_append, List.flatMap_singleton, List.append_assoc]
    have hrequests : requests = (done ++ [next]) ++ rest := by
      rw [hrequests, List.append_assoc, List.singleton_append]
    refine ⟨done ++ [next], rest, tail, hrequests, hreceived,
      (List.prefix_append_right_inj _).mp hstream, ?_, ?_, hoffset, ?_⟩
    · rw [hreceived, hrequests, List.length_append,
        RequestText.completed_append] at hone
      simp only [List.length_append, List.length_singleton] at hone
      exact List.length_eq_zero_iff.mp (by omega)
    · simp [hforwarded]
    · exact ⟨next, by simp, rfl, rfl, hhead⟩

/-- The header block is complete, or more of it is awaited. -/
theorem tryParse_collects {next : RequestText} (hframed : next.Framed)
    (hreadable : ReadableLength next.fields)
    (hphase : s.phase = .head)
    (hrequests : requests = done ++ next :: rest)
    (hreceived : s.received = done.flatMap RequestText.wire ++ part)
    (hstream : part <+: (next :: rest).flatMap RequestText.wire)
    (hforwarded : s.forwarded = done.map RequestText.wire)
    (hoffset : s.clientBuf.offset ≤ s.clientBuf.data.length)
    (hhead : s.clientBuf.head = part)
    (hone : (RequestText.completed requests s.received.length).length ≤
      done.length + 1)
    (hcut : crlf <:+ part → blankLine <:+: part) :
    ∃ done rest part, Collects requests done rest part s.tryParse := by
  have hnext : next.head <+: (next :: rest).flatMap RequestText.wire := by
    rw [List.flatMap_cons, RequestText.wire, List.append_assoc]
    exact List.prefix_append _ _
  by_cases hshort : part.length < next.head.length
  · obtain ⟨more, hmore⟩ :=
      List.prefix_of_prefix_length_le hstream hnext (by omega)
    have hnonempty : more ≠ [] := by
      rintro rfl
      rw [List.append_nil] at hmore
      rw [hmore] at hshort
      omega
    have hnone : HttpRequest.parse part = none :=
      RequestText.parse_part hmore hnonempty hcut
    have hsame : s.tryParse = s := by
      rw [tryParse, hhead, hnone]
    have hwire : next.head.length ≤ next.wire.length := by
      rw [RequestText.wire, List.length_append]
      omega
    refine ⟨done, next :: rest, part, ?_⟩
    rw [hsame]
    refine ⟨hrequests, hreceived, hstream, RequestText.unfinished_of_lt (by omega),
      hforwarded, hoffset, ?_⟩
    rw [Holds, hphase]
    exact hhead
  · obtain ⟨tail, htail⟩ : next.head <+: part :=
      List.prefix_of_prefix_length_le hnext hstream (by omega)
    have hparse := next.parse_head tail
    rw [htail, ← hhead] at hparse
    have htotal : next.head.length + (getContentLength next.parsed.headers).toNat =
        next.wire.length := by
      rw [RequestText.wire, List.length_append]
      exact congrArg _ (RequestText.getContentLength_eq hframed hreadable)
    rw [tryParse, hparse]
    simp only [htotal]
    exact awaitBody_collects hrequests hreceived hstream hforwarded
      hoffset hhead hone

/-- The request has been forwarded. -/
theorem finish_collects {current : RequestText}
    (hkept : ∀ request ∈ requests.dropLast, requestKeepalive request.parsed = true)
    (hcollects : Collects requests done rest part s)
    (hlast : done.getLast? = some current)
    (hhead : s.clientBuf.head = current.wire ++ part) :
    Collects requests done rest part (s.finish current.parsed
      current.wire.length) := by
  have hpart : (s.finish current.parsed current.wire.length).clientBuf.head =
      part := by
    simp only [finish]
    rw [SlidingBuffer.head_reset, SlidingBuffer.head_consume, hhead, List.drop_left]
  refine ⟨hcollects.requests_eq, hcollects.received_eq, hcollects.stream,
    hcollects.unfinished, hcollects.forwarded_eq,
    SlidingBuffer.offset_reset (SlidingBuffer.offset_consume _ _), ?_⟩
  by_cases hkeep : requestKeepalive current.parsed = true
  · simp only [Holds, finish, if_pos hkeep]
    exact hpart
  · simp only [Holds, finish, if_neg hkeep]
    by_contra hrest
    refine hkeep (hkept current ?_)
    rw [hcollects.requests_eq, List.dropLast_append_of_ne_nil hrest]
    exact List.mem_append_left _ (List.mem_of_getLast? hlast)

/-- The bytes of a read are the next ones of the stream. -/
theorem Collects.append {bytes : List UInt8}
    (hcollects : Collects requests done rest part s) (hbytes : bytes ≠ [])
    (hfeeds : s.received ++ bytes <+: requests.flatMap RequestText.wire)
    (hbuffered : s.clientBuf.head = part) :
    (s.append bytes).received = done.flatMap RequestText.wire ++ (part ++ bytes) ∧
      (s.append bytes).clientBuf.head = part ++ bytes ∧
      (s.append bytes).clientBuf.offset ≤ (s.append bytes).clientBuf.data.length ∧
      ∃ next others, rest = next :: others ∧
        part ++ bytes <+: (next :: others).flatMap RequestText.wire := by
  have hreceived : s.received ++ bytes =
      done.flatMap RequestText.wire ++ (part ++ bytes) := by
    rw [hcollects.received_eq, List.append_assoc]
  have hstream : part ++ bytes <+: rest.flatMap RequestText.wire := by
    rw [hreceived, hcollects.requests_eq, List.flatMap_append] at hfeeds
    exact (List.prefix_append_right_inj _).mp hfeeds
  refine ⟨hreceived, ?_, ?_, ?_⟩
  · rw [ProxyClient.append, SlidingBuffer.head_append hcollects.offset, hbuffered]
  · simp only [ProxyClient.append, SlidingBuffer.append, List.length_append]
    exact Nat.le_add_right_of_le hcollects.offset
  · cases rest with
    | nil =>
        have hnil := List.prefix_nil.mp hstream
        exact absurd (List.append_eq_nil_iff.mp hnil).2 hbytes
    | cons next others => exact ⟨next, others, rfl, hstream⟩

theorem step_collects {input : ClientInput}
    (hframed : ∀ request ∈ requests, request.Framed)
    (hreadable : ∀ request ∈ requests, ReadableLength request.fields)
    (hkept : ∀ request ∈ requests.dropLast, requestKeepalive request.parsed = true)
    (hcollects : Collects requests done rest part s)
    (hfeeds : s.feeds requests input = true)
    (hcut : s.wellCut requests input = true) (hstep : s.step input = some s') :
    ∃ done rest part, Collects requests done rest part s' := by
  have hholds := hcollects.holds
  unfold Holds at hholds
  unfold step at hstep
  split at hstep
  case h_1 bytes hphase =>
    simp only [hphase] at hholds
    simp only [feeds, decide_eq_true_eq] at hfeeds
    simp only [wellCut, hphase, Bool.and_eq_true, Bool.or_eq_true,
      Bool.not_eq_true', decide_eq_true_eq, hcollects.completed] at hcut
    obtain ⟨hreceived, hhead, hoffset, next, others, rfl, hstream⟩ :=
      hcollects.append hfeeds.1 hfeeds.2 hholds
    have hmem : next ∈ requests := by
      rw [hcollects.requests_eq]
      exact List.mem_append_right _ List.mem_cons_self
    have hfits : ¬ (s.append bytes).clientBuf.data.length > s.maxBuf := by
      simp only [append, SlidingBuffer.append, List.length_append]
      omega
    rw [if_neg hfeeds.1, if_neg hfits] at hstep
    obtain rfl := Option.some.inj hstep
    refine tryParse_collects (hframed next hmem) (hreadable next hmem) hphase
      hcollects.requests_eq hreceived hstream hcollects.forwarded_eq hoffset hhead
      hcut.1.2 ?_
    intro hend
    rw [hholds] at hcut
    rcases hcut.2 with hnot | hblank
    · rw [List.isSuffixOf_iff_suffix.mpr hend] at hnot
      cases hnot
    · exact hblank
  case h_2 request totalReq bytes hphase =>
    simp only [hphase] at hholds
    simp only [feeds, decide_eq_true_eq] at hfeeds
    simp only [wellCut, hphase, Bool.and_eq_true, decide_eq_true_eq,
      hcollects.completed] at hcut
    obtain ⟨hbuffered, next, others, rfl, rfl, rfl⟩ := hholds
    obtain ⟨hreceived, hhead, hoffset, next, others, hrest, hstream⟩ :=
      hcollects.append hfeeds.1 hfeeds.2 hbuffered
    obtain ⟨rfl, rfl⟩ := List.cons.inj hrest
    have hfits : ¬ (s.append bytes).clientBuf.data.length > s.maxBuf := by
      simp only [append, SlidingBuffer.append, List.length_append]
      omega
    rw [if_neg hfeeds.1, if_neg hfits] at hstep
    obtain rfl := Option.some.inj hstep
    exact awaitBody_collects hcollects.requests_eq hreceived hstream
      hcollects.forwarded_eq hoffset hhead hcut.1.2
  case h_3 =>
    obtain rfl := Option.some.inj hstep
    exact ⟨done, rest, part, hcollects⟩
  case h_4 =>
    obtain rfl := Option.some.inj hstep
    exact ⟨done, rest, part, hcollects⟩
  case h_5 => simp [feeds] at hfeeds
  case h_6 => simp [feeds] at hfeeds
  case h_7 request totalReq hphase =>
    simp only [hphase] at hholds
    obtain ⟨current, hlast, rfl, rfl, hhead⟩ := hholds
    obtain rfl := Option.some.inj hstep
    exact ⟨done, rest, part, finish_collects hkept hcollects hlast hhead⟩
  case h_8 => simp [feeds] at hfeeds
  case h_9 => cases hstep

end ProxyClient

/-- The requests that were forwarded are those whose last byte has been read,
with their bytes, wherever the reads are cut, if each is well cut; and the
session goes on until it has forwarded the last of them. -/
theorem requests_forwarded (maxBuf : Nat) (requests : List RequestText)
    (hframed : ∀ request ∈ requests, request.Framed)
    (hreadable : ∀ request ∈ requests, ReadableLength request.fields)
    (hkept : ∀ request ∈ requests.dropLast, requestKeepalive request.parsed = true)
    (word : List ClientInput) {last : ProxyClient}
    (hmeets : (ProxyClient.machine maxBuf).Meets
      (fun s input => s.feeds requests input = true ∧
        s.wellCut requests input = true) word)
    (hrun : (ProxyClient.machine maxBuf).run word = some last) :
    last.forwarded =
        (RequestText.completed requests last.received.length).map
          RequestText.wire ∧
      (last.received = requests.flatMap RequestText.wire →
        last.forwarded = requests.map RequestText.wire) ∧
      (last.phase = .closed → last.forwarded = requests.map RequestText.wire) := by
  have hinv : ∃ done rest part,
      ProxyClient.Collects requests done rest part last := by
    refine Machine.run_invariant _ (I := fun state => ∃ done rest part,
      ProxyClient.Collects requests done rest part state) ?_ ?_ word hmeets hrun
    · exact ⟨[], requests, [], rfl, rfl, List.nil_prefix,
        RequestText.unfinished_nil requests, rfl, Nat.le_refl 0, rfl⟩
    · rintro state input next ⟨done, rest, part, hcollects⟩ ⟨hfeeds, hcut⟩ hstep
      exact ProxyClient.step_collects hframed hreadable hkept hcollects hfeeds
        hcut hstep
  obtain ⟨done, rest, part, hcollects⟩ := hinv
  have hforwarded : last.forwarded =
      (RequestText.completed requests last.received.length).map
        RequestText.wire := by
    rw [hcollects.completed, hcollects.forwarded_eq]
  refine ⟨hforwarded, ?_, ?_⟩
  · intro hall
    rw [hforwarded, hall, RequestText.completed_all]
  · intro hclosed
    have hrest : rest = [] := by
      have hholds := hcollects.holds
      rwa [ProxyClient.Holds, hclosed] at hholds
    rw [hcollects.forwarded_eq, hcollects.requests_eq, hrest, List.append_nil]

set_option maxRecDepth 100000 in
/-- Two requests in four reads: the first ends within a header line, the second
within the body, and the third brings the beginning of the second request. -/
theorem requests_forwarded_cut :
    ∃ last, (ProxyClient.machine 4096).run
        [.read (ascii "POST / HTTP/1.1\r\nContent-Le"),
          .read (ascii "ngth: 2\r\n\r\nh"), .read (ascii "iGET / HT"),
          .forwarded true, .enobufs, .read (ascii "TP/1.1\r\n\r\n"),
          .forwarded true] = some last ∧
      last.forwarded = [postRequest.wire, (getRequest []).wire] := by
  have hend : ((ProxyClient.machine 4096).run
        [.read (ascii "POST / HTTP/1.1\r\nContent-Le"),
          .read (ascii "ngth: 2\r\n\r\nh"), .read (ascii "iGET / HT"),
          .forwarded true, .enobufs, .read (ascii "TP/1.1\r\n\r\n"),
          .forwarded true]).map ProxyClient.received =
      some ([postRequest, getRequest []].flatMap RequestText.wire) := by
    decide +kernel
  obtain ⟨last, hrun, hreceived⟩ := Option.map_eq_some_iff.mp hend
  refine ⟨last, hrun, ?_⟩
  refine (requests_forwarded 4096 [postRequest, getRequest []] ?_ ?_ ?_ _
    (by decide +kernel) hrun).2.1 hreceived
  · intro request hrequest
    simp only [List.mem_cons, List.not_mem_nil, or_false] at hrequest
    rcases hrequest with rfl | rfl
    · refine ⟨?_, ?_⟩
      · intro field hfield _
        obtain rfl := List.mem_singleton.mp hfield
        exact ⟨by decide, by decide, by decide⟩
      · intro _
        exact ⟨_, List.mem_singleton_self _, by decide⟩
    · exact ⟨fun field hfield => absurd hfield List.not_mem_nil,
        fun hbody => absurd rfl hbody⟩
  · intro request hrequest field hfield _
    simp only [List.mem_cons, List.not_mem_nil, or_false] at hrequest
    rcases hrequest with rfl | rfl
    · obtain rfl := List.mem_singleton.mp hfield
      exact ⟨by decide, by decide⟩
    · exact absurd hfield List.not_mem_nil
  · decide

set_option maxRecDepth 100000 in
/-- A read that ends behind the request line: the line alone is forwarded for a
request. -/
theorem cutRequest_truncated :
    ∃ last, (ProxyClient.machine 4096).run
        [.read (ascii "GET / HTTP/1.1\r\n"), .forwarded true,
          .read (ascii "Host: a\r\n\r\n")] = some last ∧
      last.received = (getRequest [hostField]).wire ∧
      last.forwarded = [ascii "GET / HTTP/1.1\r\n"] ∧
      last.forwarded ≠ [(getRequest [hostField]).wire] := by
  have hend : ((ProxyClient.machine 4096).run
        [.read (ascii "GET / HTTP/1.1\r\n"), .forwarded true,
          .read (ascii "Host: a\r\n\r\n")]).map
        (fun last => (last.received, last.forwarded)) =
      some ((getRequest [hostField]).wire, [ascii "GET / HTTP/1.1\r\n"]) := by
    decide +kernel
  obtain ⟨last, hrun, hlast⟩ := Option.map_eq_some_iff.mp hend
  obtain ⟨hreceived, hforwarded⟩ := Prod.mk.inj hlast
  refine ⟨last, hrun, hreceived, hforwarded, ?_⟩
  rw [hforwarded]
  decide

end UltraNet
