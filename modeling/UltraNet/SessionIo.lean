/-
The I/O results of `proxy_session` of the HTTP proxy, branch by branch.  Where the
code asks a result for its error, the result has to hold one: on a result that
holds a value `error()` is undefined behaviour.
-/
import UltraNet.HeaderWords
import UltraNet.HttpForward

namespace UltraNet

inductive IoError where
  | enobufs
  | other
deriving DecidableEq

/-- A value or an error. -/
inductive IoResult (A : Type) where
  | value (result : A)
  | error (code : IoError)

/-- The operation that the session waits for. -/
inductive IoPhase where
  | loopHead
  | request
  | requestRetry (enobufs : Nat)
  | body
  | bodyRetry (enobufs : Nat)
  | acquiring
  | linked
  | writing (written : Nat)
  | writeRetry (written retry : Nat)
  | response
  | responseRetry (enobufs : Nat)
  | relaying (fwd : Nat)
  | relayRetry (fwd retry : Nat)
  | closed
  -- `error()` was called on a result without an error
  | undefined
deriving DecidableEq

inductive SessionInput where
  | turn (shutdown : Bool)
  | read (n : IoResult (List UInt8))
  | wrote (w : IoResult Nat)
  | acquired (ok : Bool)

/-- `second` is the second attempt to forward the request. -/
structure SessionIo where
  phase : IoPhase
  maxBuf : Nat
  clientBuf : SlidingBuffer
  backendBuf : SlidingBuffer
  req : HttpRequest
  totalReq : Nat
  resp : HttpResponse
  respConsumed : Nat
  second : Bool
  connInvalid : Bool

namespace SessionIo

def init (maxBuf : Nat) : SessionIo :=
  ⟨.loopHead, maxBuf, .empty, .empty, ⟨.get, ascii "/", ascii "HTTP/1.1", [], []⟩, 0,
    ⟨200, ascii "OK", ascii "HTTP/1.1", [], []⟩, 0, false, false⟩

def close (s : SessionIo) : SessionIo := { s with phase := .closed }

/-- `n.error()`. -/
def ask {A : Type} (s : SessionIo) (n : IoResult A)
    (next : IoError → SessionIo) : SessionIo :=
  match n with
  | .error code => next code
  | .value _ => { s with phase := .undefined }

/-- `co_return false` of `forward_one`: another connection, once. -/
def fail (s : SessionIo) : SessionIo :=
  if s.second then s.close
  else { s with phase := .acquiring, second := true, backendBuf := .empty }

def failInvalid (s : SessionIo) : SessionIo := { s with connInvalid := true }.fail

/-- The loop around `resp.parse`. -/
def readLoop (s : SessionIo) : SessionIo :=
  match HttpResponse.parse s.backendBuf.head with
  | some (resp, respConsumed) =>
      { s with resp := resp, respConsumed := respConsumed, phase := .relaying 0 }
  | none => { s with phase := .response }

/-- The loop that writes the request. -/
def writeLoop (s : SessionIo) (written : Nat) : SessionIo :=
  if written < s.totalReq then { s with phase := .writing written } else s.readLoop

def forwardOne (s : SessionIo) : SessionIo :=
  if 0 < s.totalReq ∧ s.totalReq ≤ kIOBufSize then { s with phase := .linked }
  else s.writeLoop 0

def onLinked (s : SessionIo) (n : IoResult (List UInt8)) : SessionIo :=
  match n with
  | .value (byte :: bytes) =>
      { s with backendBuf := s.backendBuf.append (byte :: bytes) }.readLoop
  | n => s.ask n fun code =>
      if code ≠ .enobufs then s.failInvalid else s.writeLoop 0

def onWrite (s : SessionIo) (written : Nat) (w : IoResult Nat) : SessionIo :=
  match w with
  | .value size => s.writeLoop (written + size)
  | w => s.ask w fun code =>
      if code = .enobufs then { s with phase := .writeRetry written 0 }
      else s.failInvalid

def onWriteRetry (s : SessionIo) (written retry : Nat) (rw : IoResult Nat) :
    SessionIo :=
  match rw with
  | .value size =>
      if s.totalReq ≤ written + size then s.readLoop else s.failInvalid
  | rw => s.ask rw fun code =>
      if code ≠ .enobufs then s.failInvalid
      else if retry + 1 < maxEnobufsRetries then
        { s with phase := .writeRetry written (retry + 1) }
      else s.failInvalid

/-- Bytes from the backend. -/
def responseReceived (s : SessionIo) (bytes : List UInt8) : SessionIo :=
  let s := { s with backendBuf := s.backendBuf.append bytes }
  if s.backendBuf.data.length > s.maxBuf then s.failInvalid else s.readLoop

def onResponse (s : SessionIo) (n : IoResult (List UInt8)) : SessionIo :=
  match n with
  | .value bytes => if bytes = [] then s.failInvalid else s.responseReceived bytes
  | n => s.ask n fun code =>
      if code = .enobufs then { s with phase := .responseRetry 0 } else s.failInvalid

def onResponseRetry (s : SessionIo) (enobufs : Nat) (rn : IoResult (List UInt8)) :
    SessionIo :=
  match rn with
  | .value (byte :: bytes) => s.responseReceived (byte :: bytes)
  | rn => s.ask rn fun code =>
      if code ≠ .enobufs then s.failInvalid
      else if enobufs + 1 < maxEnobufsRetries then
        { s with phase := .responseRetry (enobufs + 1) }
      else s.readLoop

/-- The response has been relayed. -/
def finish (s : SessionIo) : SessionIo :=
  let backendBuf := s.backendBuf.consume s.respConsumed
  let clientBuf := s.clientBuf.consume s.totalReq
  { s with
    backendBuf := if backendBuf.remaining = 0 then .empty else backendBuf
    clientBuf := if clientBuf.remaining = 0 then .empty else clientBuf
    connInvalid := s.connInvalid || !s.resp.isKeepalive
    phase := if requestKeepalive s.req then .loopHead else .closed }

/-- The loop that writes the response. -/
def relayLoop (s : SessionIo) (fwd : Nat) : SessionIo :=
  if fwd < s.respConsumed then { s with phase := .relaying fwd } else s.finish

def onRelay (s : SessionIo) (fwd : Nat) (w : IoResult Nat) : SessionIo :=
  match w with
  | .value size => s.relayLoop (fwd + size)
  | w => s.ask w fun code =>
      if code = .enobufs then { s with phase := .relayRetry fwd 0 } else s.fail

def onRelayRetry (s : SessionIo) (fwd retry : Nat) (rw : IoResult Nat) : SessionIo :=
  match rw with
  | .value size => if s.respConsumed ≤ fwd + size then s.finish else s.fail
  | rw => s.ask rw fun code =>
      if code ≠ .enobufs then s.fail
      else if retry + 1 < maxEnobufsRetries then
        { s with phase := .relayRetry fwd (retry + 1) }
      else s.fail

/-- The loop that waits for the body. -/
def bodyLoop (s : SessionIo) : SessionIo :=
  if s.clientBuf.remaining < s.totalReq then { s with phase := .body }
  else { s with phase := .acquiring, second := false }

/-- Bytes of the header block. -/
def requestReceived (s : SessionIo) (bytes : List UInt8) : SessionIo :=
  let s := { s with clientBuf := s.clientBuf.append bytes }
  if s.clientBuf.data.length > s.maxBuf then s.close
  else
    match HttpRequest.parse s.clientBuf.head with
    | some (req, consumed) =>
        { s with
          req := req
          totalReq := consumed + (getContentLength req.headers).toNat }.bodyLoop
    | none => { s with phase := .request }

def onRequest (s : SessionIo) (n : IoResult (List UInt8)) : SessionIo :=
  match n with
  | .value bytes => if bytes = [] then s.close else s.requestReceived bytes
  | n => s.ask n fun code =>
      if code = .enobufs then { s with phase := .requestRetry 0 } else s.close

def onRequestRetry (s : SessionIo) (enobufs : Nat) (rn : IoResult (List UInt8)) :
    SessionIo :=
  match rn with
  | .value (byte :: bytes) => s.requestReceived (byte :: bytes)
  | rn => s.ask rn fun code =>
      if code ≠ .enobufs then s.close
      else if enobufs + 1 < maxEnobufsRetries then
        { s with phase := .requestRetry (enobufs + 1) }
      else { s with phase := .request }

/-- Bytes of the body. -/
def bodyReceived (s : SessionIo) (bytes : List UInt8) : SessionIo :=
  let s := { s with clientBuf := s.clientBuf.append bytes }
  if s.clientBuf.data.length > s.maxBuf then s.close else s.bodyLoop

def onBody (s : SessionIo) (n : IoResult (List UInt8)) : SessionIo :=
  match n with
  | .value bytes => if bytes = [] then s.close else s.bodyReceived bytes
  | n => s.ask n fun code =>
      if code = .enobufs then { s with phase := .bodyRetry 0 } else s.close

def onBodyRetry (s : SessionIo) (enobufs : Nat) (rn : IoResult (List UInt8)) :
    SessionIo :=
  match rn with
  | .value (byte :: bytes) => s.bodyReceived (byte :: bytes)
  | rn => s.ask rn fun code =>
      if code ≠ .enobufs then s.close
      else if enobufs + 1 < maxEnobufsRetries then
        { s with phase := .bodyRetry (enobufs + 1) }
      else s.bodyLoop

/-- A write does not take more than it is given. -/
def fits (limit : Nat) : IoResult Nat → Bool
  | .value size => size ≤ limit
  | .error _ => true

def step (s : SessionIo) (input : SessionInput) : Option SessionIo :=
  match s.phase, input with
  | .loopHead, .turn shutdown =>
      some (if shutdown then s.close else { s with phase := .request })
  | .request, .read n => some (s.onRequest n)
  | .requestRetry enobufs, .read rn => some (s.onRequestRetry enobufs rn)
  | .body, .read n => some (s.onBody n)
  | .bodyRetry enobufs, .read rn => some (s.onBodyRetry enobufs rn)
  | .acquiring, .acquired ok =>
      some (if ok then { s with connInvalid := false }.forwardOne else s.close)
  | .linked, .read n => some (s.onLinked n)
  | .writing written, .wrote w =>
      if fits (s.totalReq - written) w then some (s.onWrite written w) else none
  | .writeRetry written retry, .wrote rw =>
      if fits (s.totalReq - written) rw then some (s.onWriteRetry written retry rw)
      else none
  | .response, .read n => some (s.onResponse n)
  | .responseRetry enobufs, .read rn => some (s.onResponseRetry enobufs rn)
  | .relaying fwd, .wrote w =>
      if fits (s.respConsumed - fwd) w then some (s.onRelay fwd w) else none
  | .relayRetry fwd retry, .wrote rw =>
      if fits (s.respConsumed - fwd) rw then some (s.onRelayRetry fwd retry rw)
      else none
  | _, _ => none

def machine (maxBuf : Nat) : Machine SessionIo SessionInput :=
  ⟨init maxBuf, step⟩

/-- The linked read, and the reads that are tried again. -/
def needsBytes : IoPhase → Bool
  | .linked | .requestRetry _ | .bodyRetry _ | .responseRetry _ => true
  | _ => false

def isEmptyRead : SessionInput → Bool
  | .read (.value []) => true
  | _ => false

/-- Such a read brings at least one byte, if it succeeds. -/
def bringsBytes (s : SessionIo) (input : SessionInput) : Prop :=
  ¬ (needsBytes s.phase = true ∧ isEmptyRead input = true)

instance (s : SessionIo) (input : SessionInput) : Decidable (s.bringsBytes input) :=
  inferInstanceAs (Decidable (¬ _))

section Defined

variable (s : SessionIo)

theorem fail_defined : s.fail.phase ≠ .undefined := by
  unfold fail close
  split
  · simp
  · simp

theorem readLoop_defined : s.readLoop.phase ≠ .undefined := by
  unfold readLoop
  split
  · simp
  · simp

theorem writeLoop_defined (written : Nat) :
    (s.writeLoop written).phase ≠ .undefined := by
  unfold writeLoop
  split
  · simp
  · exact s.readLoop_defined

theorem forwardOne_defined : s.forwardOne.phase ≠ .undefined := by
  unfold forwardOne
  split
  · simp
  · exact s.writeLoop_defined 0

theorem responseReceived_defined (bytes : List UInt8) :
    (s.responseReceived bytes).phase ≠ .undefined := by
  unfold responseReceived
  simp only
  split
  · exact fail_defined _
  · exact readLoop_defined _

theorem finish_defined : s.finish.phase ≠ .undefined := by
  unfold finish
  simp only
  split
  · simp
  · simp

theorem relayLoop_defined (fwd : Nat) : (s.relayLoop fwd).phase ≠ .undefined := by
  unfold relayLoop
  split
  · simp
  · exact s.finish_defined

theorem bodyLoop_defined : s.bodyLoop.phase ≠ .undefined := by
  unfold bodyLoop
  split
  · simp
  · simp

theorem requestReceived_defined (bytes : List UInt8) :
    (s.requestReceived bytes).phase ≠ .undefined := by
  unfold requestReceived
  simp only
  split
  · simp [close]
  · split
    · exact bodyLoop_defined _
    · simp

theorem bodyReceived_defined (bytes : List UInt8) :
    (s.bodyReceived bytes).phase ≠ .undefined := by
  unfold bodyReceived
  simp only
  split
  · simp [close]
  · exact bodyLoop_defined _

/-- The branches behind `error()` of a result that holds one. -/
theorem retry_defined {count : Nat} {code : IoError} {stop retry last : SessionIo}
    (hstop : stop.phase ≠ .undefined) (hretry : retry.phase ≠ .undefined)
    (hlast : last.phase ≠ .undefined) :
    (if code ≠ .enobufs then stop
      else if count + 1 < maxEnobufsRetries then retry else last).phase ≠
      .undefined := by
  split
  · exact hstop
  · split
    · exact hretry
    · exact hlast

theorem enobufs_defined {code : IoError} {retry stop : SessionIo}
    (hretry : retry.phase ≠ .undefined) (hstop : stop.phase ≠ .undefined) :
    (if code = .enobufs then retry else stop).phase ≠ .undefined := by
  split
  · exact hretry
  · exact hstop

theorem onRequest_defined (n : IoResult (List UInt8)) :
    (s.onRequest n).phase ≠ .undefined := by
  cases n with
  | value bytes =>
      unfold onRequest
      simp only
      split
      · simp [close]
      · exact s.requestReceived_defined bytes
  | error code => exact enobufs_defined (by simp) (by simp [close])

theorem onBody_defined (n : IoResult (List UInt8)) :
    (s.onBody n).phase ≠ .undefined := by
  cases n with
  | value bytes =>
      unfold onBody
      simp only
      split
      · simp [close]
      · exact s.bodyReceived_defined bytes
  | error code => exact enobufs_defined (by simp) (by simp [close])

theorem onResponse_defined (n : IoResult (List UInt8)) :
    (s.onResponse n).phase ≠ .undefined := by
  cases n with
  | value bytes =>
      unfold onResponse
      simp only
      split
      · exact fail_defined _
      · exact s.responseReceived_defined bytes
  | error code => exact enobufs_defined (by simp) (fail_defined _)

theorem onWrite_defined (written : Nat) (w : IoResult Nat) :
    (s.onWrite written w).phase ≠ .undefined := by
  cases w with
  | value size => exact s.writeLoop_defined (written + size)
  | error code => exact enobufs_defined (by simp) (fail_defined _)

theorem onWriteRetry_defined (written retry : Nat) (rw : IoResult Nat) :
    (s.onWriteRetry written retry rw).phase ≠ .undefined := by
  cases rw with
  | value size =>
      unfold onWriteRetry
      simp only
      split
      · exact s.readLoop_defined
      · exact fail_defined _
  | error code => exact retry_defined (fail_defined _) (by simp) (fail_defined _)

theorem onRelay_defined (fwd : Nat) (w : IoResult Nat) :
    (s.onRelay fwd w).phase ≠ .undefined := by
  cases w with
  | value size => exact s.relayLoop_defined (fwd + size)
  | error code => exact enobufs_defined (by simp) s.fail_defined

theorem onRelayRetry_defined (fwd retry : Nat) (rw : IoResult Nat) :
    (s.onRelayRetry fwd retry rw).phase ≠ .undefined := by
  cases rw with
  | value size =>
      unfold onRelayRetry
      simp only
      split
      · exact s.finish_defined
      · exact s.fail_defined
  | error code => exact retry_defined s.fail_defined (by simp) s.fail_defined

/-- A linked read of no bytes falls through to the error. -/
theorem onLinked_iff (n : IoResult (List UInt8)) :
    (s.onLinked n).phase = .undefined ↔ n = .value [] := by
  obtain (- | ⟨byte, bytes⟩) | code := n
  · exact iff_of_true rfl rfl
  · exact iff_of_false (readLoop_defined _) (by simp)
  · refine iff_of_false ?_ (by simp)
    unfold onLinked ask
    simp only
    split
    · exact fail_defined _
    · exact s.writeLoop_defined 0

theorem onRequestRetry_iff (enobufs : Nat) (rn : IoResult (List UInt8)) :
    (s.onRequestRetry enobufs rn).phase = .undefined ↔ rn = .value [] := by
  obtain (- | ⟨byte, bytes⟩) | code := rn
  · exact iff_of_true rfl rfl
  · exact iff_of_false (s.requestReceived_defined _) (by simp)
  · exact iff_of_false (retry_defined (by
      simp [close]) (by simp) (by simp)) (by simp)

theorem onBodyRetry_iff (enobufs : Nat) (rn : IoResult (List UInt8)) :
    (s.onBodyRetry enobufs rn).phase = .undefined ↔ rn = .value [] := by
  obtain (- | ⟨byte, bytes⟩) | code := rn
  · exact iff_of_true rfl rfl
  · exact iff_of_false (s.bodyReceived_defined _) (by simp)
  · exact iff_of_false
      (retry_defined (by simp [close]) (by simp) s.bodyLoop_defined) (by simp)

theorem onResponseRetry_iff (enobufs : Nat) (rn : IoResult (List UInt8)) :
    (s.onResponseRetry enobufs rn).phase = .undefined ↔ rn = .value [] := by
  obtain (- | ⟨byte, bytes⟩) | code := rn
  · exact iff_of_true rfl rfl
  · exact iff_of_false (s.responseReceived_defined _) (by simp)
  · exact iff_of_false
      (retry_defined (fail_defined _) (by simp) s.readLoop_defined) (by simp)

end Defined

theorem isEmptyRead_read (n : IoResult (List UInt8)) :
    isEmptyRead (.read n) = true ↔ n = .value [] := by
  obtain (- | ⟨byte, bytes⟩) | code := n
  · exact iff_of_true rfl rfl
  · exact iff_of_false (by simp [isEmptyRead]) (by simp)
  · exact iff_of_false (by simp [isEmptyRead]) (by simp)

section Step

variable {s next : SessionIo} {input : SessionInput}

theorem plain_iff (hphase : needsBytes s.phase = false)
    (hnext : next.phase ≠ .undefined) :
    next.phase = .undefined ↔ ¬ s.bringsBytes input := by
  refine iff_of_false hnext fun hnot => ?_
  have hneeds := (not_not.mp hnot).1
  rw [hphase] at hneeds
  cases hneeds

theorem needs_iff {n : IoResult (List UInt8)} (hphase : needsBytes s.phase = true)
    (hnext : next.phase = .undefined ↔ n = .value []) :
    next.phase = .undefined ↔ ¬ s.bringsBytes (.read n) := by
  rw [hnext, bringsBytes, not_not, isEmptyRead_read, and_iff_right hphase]

/-- A step calls `error()` on a value just where a read that brought no bytes
falls through to the error branch. -/
theorem step_undefined_iff (hstep : s.step input = some next) :
    next.phase = .undefined ↔ ¬ s.bringsBytes input := by
  unfold step at hstep
  split at hstep
  · cases hstep
    refine plain_iff (by simp [needsBytes, *]) ?_
    split
    · simp [close]
    · simp
  · cases hstep
    exact plain_iff (by simp [needsBytes, *]) (s.onRequest_defined _)
  · cases hstep
    exact needs_iff (by simp [needsBytes, *]) (s.onRequestRetry_iff _ _)
  · cases hstep
    exact plain_iff (by simp [needsBytes, *]) (s.onBody_defined _)
  · cases hstep
    exact needs_iff (by simp [needsBytes, *]) (s.onBodyRetry_iff _ _)
  · cases hstep
    refine plain_iff (by simp [needsBytes, *]) ?_
    split
    · exact forwardOne_defined _
    · simp [close]
  · cases hstep
    exact needs_iff (by simp [needsBytes, *]) (s.onLinked_iff _)
  · obtain ⟨-, heq⟩ := Option.ite_none_right_eq_some.mp hstep
    cases heq
    exact plain_iff (by simp [needsBytes, *]) (s.onWrite_defined _ _)
  · obtain ⟨-, heq⟩ := Option.ite_none_right_eq_some.mp hstep
    cases heq
    exact plain_iff (by simp [needsBytes, *]) (s.onWriteRetry_defined _ _ _)
  · cases hstep
    exact plain_iff (by simp [needsBytes, *]) (s.onResponse_defined _)
  · cases hstep
    exact needs_iff (by simp [needsBytes, *]) (s.onResponseRetry_iff _ _)
  · obtain ⟨-, heq⟩ := Option.ite_none_right_eq_some.mp hstep
    cases heq
    exact plain_iff (by simp [needsBytes, *]) (s.onRelay_defined _ _)
  · obtain ⟨-, heq⟩ := Option.ite_none_right_eq_some.mp hstep
    cases heq
    exact plain_iff (by simp [needsBytes, *]) (s.onRelayRetry_defined _ _ _)
  · cases hstep

theorem step_undefined (hphase : s.phase = .undefined) : s.step input = none := by
  unfold step
  rw [hphase]

end Step

/-- In a run no result without an error is asked for one, just if all the linked
reads and all the reads that are tried again bring bytes. -/
theorem asks_errors_iff (maxBuf : Nat) (word : List SessionInput) {last : SessionIo}
    (hrun : (machine maxBuf).run word = some last) :
    last.phase ≠ .undefined ↔ (machine maxBuf).Meets bringsBytes word := by
  have hkeep : ∀ (s : SessionIo) input next, s.phase ≠ .undefined →
      bringsBytes s input → (machine maxBuf).step s input = some next →
        next.phase ≠ .undefined :=
    fun s input next _ hbrings hstep hnext =>
      (step_undefined_iff hstep).mp hnext hbrings
  have hbreak : ∀ (s : SessionIo) input next, s.phase ≠ .undefined →
      ¬ bringsBytes s input → (machine maxBuf).step s input = some next →
        next.phase = .undefined :=
    fun s input next _ hempty hstep => (step_undefined_iff hstep).mpr hempty
  have hends : ∀ (s : SessionIo) input next, s.phase = .undefined →
      (machine maxBuf).step s input = some next → next.phase = .undefined := by
    intro s input next hphase hstep
    cases (step_undefined hphase).symm.trans hstep
  have hstart : (machine maxBuf).start.phase ≠ .undefined := by simp [machine, init]
  obtain ⟨hgood, hbad⟩ :=
    (machine maxBuf).runFrom_split hkeep hbreak hends word hstart hrun
  refine ⟨fun hlast => ?_, hgood⟩
  by_contra hnot
  exact hlast (hbad hnot)

def getInput : SessionInput :=
  .read (.value (ascii "GET / HTTP/1.1\r\n\r\n"))

/-- The backend closes the connection behind the request. -/
def closedLink : List SessionInput :=
  [.turn false, getInput, .acquired true, .read (.value [])]

/-- The operation has no submission entry, the request is written and the
response comes after a read that is tried again. -/
def retriedLink : List SessionInput :=
  [.turn false, getInput, .acquired true, .read (.error .enobufs),
    .wrote (.value 18),
    .read (.error .enobufs), .read (.value (ascii "HTTP/1.1 200 OK\r\n\r\n"))]

set_option maxRecDepth 100000 in
theorem closedLink_undefined :
    ((machine 65536).run closedLink).map SessionIo.phase = some .undefined := by
  decide +kernel

set_option maxRecDepth 100000 in
theorem retriedLink_run :
    ((machine 65536).run retriedLink).map SessionIo.phase = some (.relaying 0) := by
  decide +kernel

theorem asks_errors_retriedLink :
    (machine 65536).Meets bringsBytes retriedLink := by
  obtain ⟨last, hrun, hphase⟩ := Option.map_eq_some_iff.mp retriedLink_run
  refine (asks_errors_iff 65536 retriedLink hrun).mp ?_
  rw [hphase]
  decide

end SessionIo

end UltraNet
