/-
`forward_one` of the HTTP proxy: a request goes to the backend, its response is
read and relayed to the client, and after a failure the caller tries once more
on another connection.  Each I/O outcome is a step.
-/
import UltraNet.GuardedRun
import UltraNet.Http

namespace UltraNet

structure SlidingBuffer where
  data : List UInt8
  offset : Nat
deriving DecidableEq

namespace SlidingBuffer

def empty : SlidingBuffer := ⟨[], 0⟩

def head (b : SlidingBuffer) : List UInt8 := b.data.drop b.offset

def remaining (b : SlidingBuffer) : Nat := b.data.length - b.offset

def append (b : SlidingBuffer) (bytes : List UInt8) : SlidingBuffer :=
  { b with data := b.data ++ bytes }

/-- What is consumed is erased when it is most of the buffer. -/
def consume (b : SlidingBuffer) (n : Nat) : SlidingBuffer :=
  let offset := b.offset + n
  if offset > b.data.length / 2 ∧ offset > (b.data.length - offset) * 4 then
    ⟨b.data.drop offset, 0⟩
  else { b with offset := offset }

variable {b : SlidingBuffer}

theorem length_head (b : SlidingBuffer) : b.head.length = b.remaining := by
  simp [head, remaining]

theorem head_append (hoffset : b.offset ≤ b.data.length) (bytes : List UInt8) :
    (b.append bytes).head = b.head ++ bytes := by
  rw [head, append, List.drop_append_of_le_length hoffset, head]

theorem head_consume (b : SlidingBuffer) (n : Nat) :
    (b.consume n).head = b.head.drop n := by
  unfold consume
  simp only
  split
  · simp [head]
  · simp [head]

theorem offset_consume (b : SlidingBuffer) (n : Nat) :
    (b.consume n).offset ≤ (b.consume n).data.length := by
  unfold consume
  simp only
  split
  · exact Nat.zero_le _
  · simp only
    omega

/-- A buffer with nothing left is reset. -/
theorem head_reset (b : SlidingBuffer) :
    (if b.remaining = 0 then empty else b).head = b.head := by
  split
  · rename_i hnone
    rw [← length_head, List.length_eq_zero_iff] at hnone
    rw [hnone]
    rfl
  · rfl

theorem offset_reset (hoffset : b.offset ≤ b.data.length) :
    (if b.remaining = 0 then empty else b).offset ≤
      (if b.remaining = 0 then empty else b).data.length := by
  split
  · exact Nat.le_refl 0
  · exact hoffset

end SlidingBuffer

def kIOBufSize : Nat := 8192

def maxEnobufsRetries : Nat := 10

/-- What `forward_one` waits for. -/
inductive ForwardPhase where
  | linked
  | writing (written : Nat)
  | writeRetry (written retry : Nat)
  | reading
  | readRetry (enobufs : Nat)
  | relaying (response : HttpResponse) (bytes : List UInt8) (fwd : Nat)
  | relayRetry (response : HttpResponse) (bytes : List UInt8) (fwd retry : Nat)
  -- the first attempt has failed
  | reacquire
  | done
  | closed

/-- The outcome of the operation that is waited for.  Data that are empty are
the end of the stream. -/
inductive ForwardOutcome where
  | data (bytes : List UInt8)
  | wrote (size : Nat)
  | enobufs
  | error
  | acquired
  | refused

/-- One request in `proxy_session`.  `sent` and `relayed` are ghosts: the bytes
that the client got, and the responses of which it got at least one byte. -/
structure Forwarding where
  second : Bool
  phase : ForwardPhase
  totalReq : Nat
  maxBuf : Nat
  backendBuf : SlidingBuffer
  invalid : Bool
  sent : List UInt8
  relayed : List (List UInt8)

namespace Forwarding

/-- `co_return false`: the caller clears the buffer and asks for another
connection, once. -/
def fail (s : Forwarding) : Forwarding :=
  if s.second then { s with phase := .closed }
  else { s with phase := .reacquire, backendBuf := .empty }

def failInvalid (s : Forwarding) : Forwarding :=
  { s with invalid := true }.fail

/-- The loop around `resp.parse`. -/
def tryParse (s : Forwarding) : Forwarding :=
  match HttpResponse.parse s.backendBuf.head with
  | some (response, consumed) =>
      { s with phase :=
          .relaying response (s.backendBuf.head.take consumed) 0 }
  | none => { s with phase := .reading }

def written (s : Forwarding) (total : Nat) : Forwarding :=
  if total < s.totalReq then { s with phase := .writing total } else s.tryParse

def start (s : Forwarding) : Forwarding :=
  if 0 < s.totalReq ∧ s.totalReq ≤ kIOBufSize then { s with phase := .linked }
  else s.written 0

/-- Bytes from the backend. -/
def received (s : Forwarding) (bytes : List UInt8) : Forwarding :=
  if bytes = [] then s.failInvalid
  else
    let s := { s with backendBuf := s.backendBuf.append bytes }
    if s.backendBuf.data.length > s.maxBuf then s.failInvalid else s.tryParse

/-- The whole response has been relayed. -/
def finish (s : Forwarding) (response : HttpResponse) (bytes : List UInt8) :
    Forwarding :=
  let buf := s.backendBuf.consume bytes.length
  { s with
    backendBuf := if buf.remaining = 0 then .empty else buf
    invalid := s.invalid || !response.isKeepalive
    phase := .done }

/-- A write to the client has taken `size` bytes from `fwd` on. -/
def sends (s : Forwarding) (bytes : List UInt8) (fwd size : Nat) : Forwarding :=
  { s with
    sent := s.sent ++ (bytes.drop fwd).take size
    relayed := if fwd = 0 ∧ 0 < size then s.relayed ++ [bytes] else s.relayed }

def step (s : Forwarding) (outcome : ForwardOutcome) : Option Forwarding :=
  match s.phase, outcome with
  | .linked, .data bytes =>
      if bytes = [] then some s.failInvalid
      else some { s with backendBuf := s.backendBuf.append bytes }.tryParse
  | .linked, .enobufs => some (s.written 0)
  | .linked, .error => some s.failInvalid
  | .writing total, .wrote size =>
      if total + size ≤ s.totalReq then some (s.written (total + size)) else none
  | .writing total, .enobufs => some { s with phase := .writeRetry total 0 }
  | .writing _, .error => some s.failInvalid
  | .writeRetry total _, .wrote size =>
      if total + size ≤ s.totalReq then
        if total + size = s.totalReq then some s.tryParse else some s.failInvalid
      else none
  | .writeRetry total retry, .enobufs =>
      if retry + 1 < maxEnobufsRetries then
        some { s with phase := .writeRetry total (retry + 1) }
      else some s.failInvalid
  | .writeRetry .., .error => some s.failInvalid
  | .reading, .data bytes => some (s.received bytes)
  | .reading, .enobufs => some { s with phase := .readRetry 0 }
  | .reading, .error => some s.failInvalid
  | .readRetry _, .data bytes => some (s.received bytes)
  | .readRetry retry, .enobufs =>
      if retry + 1 < maxEnobufsRetries then
        some { s with phase := .readRetry (retry + 1) }
      else some { s with phase := .reading }
  | .readRetry _, .error => some s.failInvalid
  | .relaying response bytes fwd, .wrote size =>
      if fwd + size < bytes.length then
        some { s.sends bytes fwd size with
          phase := .relaying response bytes (fwd + size) }
      else if fwd + size = bytes.length then
        some ((s.sends bytes fwd size).finish response bytes)
      else none
  | .relaying response bytes fwd, .enobufs =>
      some { s with phase := .relayRetry response bytes fwd 0 }
  | .relaying .., .error => some s.fail
  | .relayRetry response bytes fwd _, .wrote size =>
      if fwd + size < bytes.length then some (s.sends bytes fwd size).fail
      else if fwd + size = bytes.length then
        some ((s.sends bytes fwd size).finish response bytes)
      else none
  | .relayRetry response bytes fwd retry, .enobufs =>
      if retry + 1 < maxEnobufsRetries then
        some { s with phase := .relayRetry response bytes fwd (retry + 1) }
      else some s.fail
  | .relayRetry .., .error => some s.fail
  | .reacquire, .acquired => some { s with second := true, invalid := false }.start
  | .reacquire, .refused => some { s with phase := .closed }
  | _, _ => none

/-- A request of `totalReq` bytes, with what the session has buffered from the
backend. -/
def init (totalReq maxBuf : Nat) (backendBuf : SlidingBuffer) : Forwarding :=
  Forwarding.start ⟨false, .reading, totalReq, maxBuf, backendBuf, false, [], []⟩

def machine (totalReq maxBuf : Nat) (backendBuf : SlidingBuffer) :
    Machine Forwarding ForwardOutcome :=
  ⟨init totalReq maxBuf backendBuf, step⟩

/-- The first attempt does not give up the relay after part of the response was
sent: not by an error, nor by the tenth `ENOBUFS`, nor by a retried write that
is short. -/
def keepsRelay (s : Forwarding) (outcome : ForwardOutcome) : Bool :=
  s.second ||
    match s.phase, outcome with
    | .relaying _ _ fwd, .error | .relayRetry _ _ fwd _, .error => fwd = 0
    | .relayRetry _ _ fwd retry, .enobufs =>
        fwd = 0 || retry + 1 < maxEnobufsRetries
    | .relayRetry _ bytes fwd _, .wrote size =>
        fwd + size = 0 || bytes.length ≤ fwd + size
    | _, _ => true

/-- The client has nothing, or the beginning of one response. -/
def OneResponse (s : Forwarding) : Prop :=
  (s.sent = [] ∧ s.relayed = []) ∨
    ∃ response, s.relayed = [response] ∧ s.sent <+: response

/-- What the client has in each phase. -/
def Single (s : Forwarding) : Prop :=
  match s.phase with
  | .relaying _ bytes fwd | .relayRetry _ bytes fwd _ =>
      s.sent = bytes.take fwd ∧ s.relayed = if fwd = 0 then [] else [bytes]
  | .done | .closed => s.OneResponse
  | _ => s.sent = [] ∧ s.relayed = []

variable {s s' : Forwarding}

/-- The client has nothing yet. -/
def Fresh (s : Forwarding) : Prop := s.sent = [] ∧ s.relayed = []

theorem Fresh.tryParse (hfresh : s.Fresh) : s.tryParse.Single := by
  unfold Forwarding.tryParse
  split
  · exact ⟨by rw [List.take_zero]; exact hfresh.1, hfresh.2⟩
  · exact hfresh

theorem Fresh.fail (hfresh : s.Fresh) : s.fail.Single := by
  unfold Forwarding.fail
  split
  · exact .inl hfresh
  · exact hfresh

theorem Fresh.failInvalid (hfresh : s.Fresh) : s.failInvalid.Single :=
  Fresh.fail (s := { s with invalid := true }) hfresh

theorem Fresh.written (hfresh : s.Fresh) (total : Nat) :
    (s.written total).Single := by
  unfold Forwarding.written
  split
  · exact hfresh
  · exact hfresh.tryParse

theorem Fresh.start (hfresh : s.Fresh) : s.start.Single := by
  unfold Forwarding.start
  split
  · exact hfresh
  · exact hfresh.written 0

theorem Fresh.received (hfresh : s.Fresh) (bytes : List UInt8) :
    (s.received bytes).Single := by
  unfold Forwarding.received
  split
  · exact hfresh.failInvalid
  · simp only
    split
    · exact Fresh.failInvalid
        (s := { s with backendBuf := s.backendBuf.append bytes }) hfresh
    · exact Fresh.tryParse
        (s := { s with backendBuf := s.backendBuf.append bytes }) hfresh

/-- A write continues the response that the client has the beginning of. -/
theorem sends_eq {bytes : List UInt8} {fwd : Nat} (size : Nat)
    (hsent : s.sent = bytes.take fwd)
    (hrelayed : s.relayed = if fwd = 0 then [] else [bytes]) :
    (s.sends bytes fwd size).sent = bytes.take (fwd + size) ∧
      (s.sends bytes fwd size).relayed =
        if fwd + size = 0 then [] else [bytes] := by
  refine ⟨?_, ?_⟩
  · simp only [sends, hsent]
    rw [← List.take_add]
  · simp only [sends, hrelayed]
    by_cases hfwd : fwd = 0
    · by_cases hsize : size = 0
      · simp [hfwd, hsize]
      · rw [if_pos ⟨hfwd, Nat.pos_of_ne_zero hsize⟩, if_pos hfwd, if_neg (by omega)]
        rfl
    · rw [if_neg (fun h => hfwd h.1), if_neg hfwd, if_neg (by omega)]

theorem oneResponse_of_take {bytes : List UInt8} {fwd : Nat}
    (hsent : s.sent = bytes.take fwd)
    (hrelayed : s.relayed = if fwd = 0 then [] else [bytes]) : s.OneResponse := by
  by_cases hfwd : fwd = 0
  · subst hfwd
    exact .inl ⟨by rw [hsent, List.take_zero], hrelayed⟩
  · rw [if_neg hfwd] at hrelayed
    exact .inr ⟨bytes, hrelayed, by rw [hsent]; exact List.take_prefix _ _⟩

/-- The relay is given up: by the second attempt, or with nothing sent. -/
theorem fail_relay {bytes : List UInt8} {fwd : Nat}
    (hsent : s.sent = bytes.take fwd)
    (hrelayed : s.relayed = if fwd = 0 then [] else [bytes])
    (hkept : s.second = true ∨ fwd = 0) : s.fail.Single := by
  rcases hkept with hsecond | rfl
  · rw [Forwarding.fail, if_pos hsecond]
    exact oneResponse_of_take (s := s) hsent hrelayed
  · exact Fresh.fail ⟨by rw [hsent, List.take_zero], hrelayed⟩

theorem finish_relay {bytes : List UInt8} {fwd : Nat} (response : HttpResponse)
    (hsent : s.sent = bytes.take fwd)
    (hrelayed : s.relayed = if fwd = 0 then [] else [bytes]) :
    (s.finish response bytes).Single :=
  oneResponse_of_take (s := s) hsent hrelayed

section Phases

variable {outcome : ForwardOutcome}

/-- The request is on its way to the backend. -/
theorem Fresh.linked (hfresh : s.Fresh) (hphase : s.phase = .linked)
    (hstep : s.step outcome = some s') : s'.Single := by
  unfold step at hstep
  rw [hphase] at hstep
  cases outcome with
  | data bytes =>
      dsimp only at hstep
      split at hstep
      all_goals obtain rfl := Option.some.inj hstep
      · exact hfresh.failInvalid
      · exact Fresh.tryParse
          (s := { s with backendBuf := s.backendBuf.append bytes }) hfresh
  | enobufs => exact Option.some.inj hstep ▸ hfresh.written 0
  | error => exact Option.some.inj hstep ▸ hfresh.failInvalid
  | wrote | acquired | refused => cases hstep

theorem Fresh.writing {total : Nat} (hfresh : s.Fresh) (hphase : s.phase = .writing total)
    (hstep : s.step outcome = some s') : s'.Single := by
  unfold step at hstep
  rw [hphase] at hstep
  cases outcome with
  | wrote size =>
      obtain ⟨-, ⟨⟩⟩ := Option.ite_none_right_eq_some.mp hstep
      exact hfresh.written _
  | enobufs => exact Option.some.inj hstep ▸ hfresh
  | error => exact Option.some.inj hstep ▸ hfresh.failInvalid
  | data | acquired | refused => cases hstep

theorem Fresh.writeRetry {total retry : Nat} (hfresh : s.Fresh)
    (hphase : s.phase = .writeRetry total retry) (hstep : s.step outcome = some s') :
    s'.Single := by
  unfold step at hstep
  rw [hphase] at hstep
  cases outcome with
  | wrote size =>
      obtain ⟨-, hnext⟩ := Option.ite_none_right_eq_some.mp hstep
      split at hnext
      all_goals obtain rfl := Option.some.inj hnext
      · exact hfresh.tryParse
      · exact hfresh.failInvalid
  | enobufs =>
      dsimp only at hstep
      split at hstep
      all_goals obtain rfl := Option.some.inj hstep
      · exact hfresh
      · exact hfresh.failInvalid
  | error => exact Option.some.inj hstep ▸ hfresh.failInvalid
  | data | acquired | refused => cases hstep

/-- The answer of the backend is waited for. -/
theorem Fresh.reading (hfresh : s.Fresh) (hphase : s.phase = .reading)
    (hstep : s.step outcome = some s') : s'.Single := by
  unfold step at hstep
  rw [hphase] at hstep
  cases outcome with
  | data bytes =>
      exact Option.some.inj hstep ▸ hfresh.received bytes
  | enobufs => exact Option.some.inj hstep ▸ hfresh
  | error => exact Option.some.inj hstep ▸ hfresh.failInvalid
  | wrote | acquired | refused => cases hstep

theorem Fresh.readRetry {retry : Nat} (hfresh : s.Fresh)
    (hphase : s.phase = .readRetry retry) (hstep : s.step outcome = some s') : s'.Single := by
  unfold step at hstep
  rw [hphase] at hstep
  cases outcome with
  | data bytes =>
      exact Option.some.inj hstep ▸ hfresh.received bytes
  | enobufs =>
      dsimp only at hstep
      split at hstep
      all_goals
        obtain rfl := Option.some.inj hstep
        exact hfresh
  | error => exact Option.some.inj hstep ▸ hfresh.failInvalid
  | wrote | acquired | refused => cases hstep

theorem Fresh.reacquire (hfresh : s.Fresh) (hphase : s.phase = .reacquire)
    (hstep : s.step outcome = some s') : s'.Single := by
  unfold step at hstep
  rw [hphase] at hstep
  cases outcome with
  | acquired =>
      obtain rfl := Option.some.inj hstep
      exact Fresh.start (s := { s with second := true, invalid := false }) hfresh
  | refused =>
      exact Option.some.inj hstep ▸ .inl hfresh
  | data | wrote | enobufs | error => cases hstep

/-- The response is on its way to the client. -/
theorem Single.relaying {response : HttpResponse} {bytes : List UInt8} {fwd : Nat}
    (hsingle : s.Single) (hphase : s.phase = .relaying response bytes fwd)
    (hkept : s.keepsRelay outcome = true) (hstep : s.step outcome = some s') :
    s'.Single := by
  simp only [Single, hphase] at hsingle
  unfold step at hstep
  rw [hphase] at hstep
  cases outcome with
  | wrote size =>
      have hsends := sends_eq size hsingle.1 hsingle.2
      dsimp only at hstep
      split at hstep
      · obtain rfl := Option.some.inj hstep
        exact hsends
      · obtain ⟨-, ⟨⟩⟩ := Option.ite_none_right_eq_some.mp hstep
        exact finish_relay response hsends.1 hsends.2
  | enobufs => exact Option.some.inj hstep ▸ hsingle
  | error =>
      obtain rfl := Option.some.inj hstep
      refine fail_relay hsingle.1 hsingle.2 ?_
      simpa [keepsRelay, hphase] using hkept
  | data | acquired | refused => cases hstep

theorem Single.relayRetry {response : HttpResponse} {bytes : List UInt8} {fwd retry : Nat}
    (hsingle : s.Single) (hphase : s.phase = .relayRetry response bytes fwd retry)
    (hkept : s.keepsRelay outcome = true) (hstep : s.step outcome = some s') :
    s'.Single := by
  simp only [Single, hphase] at hsingle
  unfold step at hstep
  rw [hphase] at hstep
  cases outcome with
  | wrote size =>
      have hsends := sends_eq size hsingle.1 hsingle.2
      dsimp only at hstep
      split at hstep
      · rename_i hshort
        obtain rfl := Option.some.inj hstep
        refine fail_relay hsends.1 hsends.2 ?_
        have hkept' : s.second = true ∨ fwd + size = 0 ∨ bytes.length ≤ fwd + size := by
          simpa [keepsRelay, hphase] using hkept
        rcases hkept' with hsecond | hzero | hlong
        · exact .inl hsecond
        · exact .inr hzero
        · omega
      · obtain ⟨-, ⟨⟩⟩ := Option.ite_none_right_eq_some.mp hstep
        exact finish_relay response hsends.1 hsends.2
  | enobufs =>
      dsimp only at hstep
      split at hstep
      · obtain rfl := Option.some.inj hstep
        exact hsingle
      · rename_i hlast
        obtain rfl := Option.some.inj hstep
        refine fail_relay hsingle.1 hsingle.2 ?_
        simpa [keepsRelay, hphase, hlast] using hkept
  | error =>
      obtain rfl := Option.some.inj hstep
      refine fail_relay hsingle.1 hsingle.2 ?_
      simpa [keepsRelay, hphase] using hkept
  | data | acquired | refused => cases hstep

theorem step_single (hsingle : s.Single) (hkept : s.keepsRelay outcome = true)
    (hstep : s.step outcome = some s') : s'.Single := by
  have hfresh := hsingle
  cases hphase : s.phase <;> simp only [Single, hphase] at hfresh
  case linked => exact Fresh.linked hfresh hphase hstep
  case writing => exact Fresh.writing hfresh hphase hstep
  case writeRetry => exact Fresh.writeRetry hfresh hphase hstep
  case reading => exact Fresh.reading hfresh hphase hstep
  case readRetry => exact Fresh.readRetry hfresh hphase hstep
  case relaying => exact hsingle.relaying hphase hkept hstep
  case relayRetry => exact hsingle.relayRetry hphase hkept hstep
  case reacquire => exact Fresh.reacquire hfresh hphase hstep
  case done | closed => simp [step, hphase] at hstep

end Phases

theorem Single.oneResponse (hsingle : s.Single) : s.OneResponse := by
  unfold Single at hsingle
  split at hsingle
  · exact oneResponse_of_take hsingle.1 hsingle.2
  · exact oneResponse_of_take hsingle.1 hsingle.2
  · exact hsingle
  · exact hsingle
  · exact .inl hsingle

end Forwarding

/-- The client gets the beginning of one response for its request, and no
second one is started, if the first attempt does not give up a relay that it
has begun. -/
theorem one_response (totalReq maxBuf : Nat) (backendBuf : SlidingBuffer)
    (word : List ForwardOutcome) {last : Forwarding}
    (hmeets : (Forwarding.machine totalReq maxBuf backendBuf).Meets
      (fun s outcome => s.keepsRelay outcome = true) word)
    (hrun : (Forwarding.machine totalReq maxBuf backendBuf).run word =
      some last) : last.OneResponse := by
  refine Forwarding.Single.oneResponse ?_
  refine Machine.run_invariant _ ?_ ?_ word hmeets hrun
  · exact Forwarding.Fresh.start
      (s := ⟨false, .reading, totalReq, maxBuf, backendBuf, false, [], []⟩)
      ⟨rfl, rfl⟩
  · intro state outcome next hstate hkept hstep
    exact Forwarding.step_single hstate hkept hstep

def twoByteResponse : List UInt8 :=
  ascii "HTTP/1.1 200 OK\r\nContent-Length: 2\r\n\r\nhi"

set_option maxRecDepth 100000 in
/-- The backend closes the connection before it answers, and answers the second
attempt; the relay meets `ENOBUFS` before its first byte. -/
theorem one_response_retried :
    ∃ last, (Forwarding.machine 20 4096 .empty).run
        [.error, .acquired, .data twoByteResponse, .enobufs, .wrote 40] =
          some last ∧
      last.sent = twoByteResponse ∧ last.OneResponse := by
  have hend : ((Forwarding.machine 20 4096 .empty).run
      [.error, .acquired, .data twoByteResponse, .enobufs, .wrote 40]).map
        Forwarding.sent = some twoByteResponse := by
    decide +kernel
  obtain ⟨last, hrun, hsent⟩ := Option.map_eq_some_iff.mp hend
  exact ⟨last, hrun, hsent, one_response 20 4096 .empty _ (by decide +kernel) hrun⟩

set_option maxRecDepth 100000 in
/-- A write is short after `ENOBUFS`: eight bytes of the response were sent, and
the second attempt sends it from the start. -/
theorem shortRetry_restarts :
    ∃ last, (Forwarding.machine 20 4096 .empty).run
        [.data twoByteResponse, .wrote 5, .enobufs, .wrote 3, .acquired,
          .data twoByteResponse, .wrote 40] = some last ∧
      last.sent = ascii "HTTP/1.1" ++ twoByteResponse ∧
      last.relayed = [twoByteResponse, twoByteResponse] ∧
      ¬ last.OneResponse := by
  have hend : ((Forwarding.machine 20 4096 .empty).run
      [.data twoByteResponse, .wrote 5, .enobufs, .wrote 3, .acquired,
        .data twoByteResponse, .wrote 40]).map
        (fun last => (last.sent, last.relayed)) =
      some (ascii "HTTP/1.1" ++ twoByteResponse,
        [twoByteResponse, twoByteResponse]) := by
    decide +kernel
  obtain ⟨last, hrun, hlast⟩ := Option.map_eq_some_iff.mp hend
  obtain ⟨hsent, hrelayed⟩ := Prod.mk.inj hlast
  refine ⟨last, hrun, hsent, hrelayed, ?_⟩
  rintro (⟨-, hnone⟩ | ⟨response, hone, -⟩)
  · rw [hrelayed] at hnone
    cases hnone
  · rw [hrelayed] at hone
    cases hone

end UltraNet
