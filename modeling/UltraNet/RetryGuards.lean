/-
The retry guards of the sessions of the HTTP proxy and the count of retries that
they share: what each branch of `proxy_session` and `forward_one` does with its
guard, and the sessions of a proxy that take their steps in any order.
-/
import UltraNet.SessionIo
import UltraNet.SharedCount

namespace UltraNet

/-- `disarm` and `unregister` are the two statements of `dismiss`, `destroy` is the
destructor of the innermost guard, and `await` waits for something else. -/
inductive GuardOp where
  | construct
  | register
  | arm
  | disarm
  | unregister
  | destroy
  | await
deriving DecidableEq

/-- What a branch does with the guards, and the session after it. -/
abbrev Traced := List GuardOp × SessionIo

/-- A result without bytes, as a branch takes it that asks it for its error. -/
def IoResult.orStray (n : IoResult (List UInt8)) (stray : IoError) :
    IoResult (List UInt8) :=
  match n with
  | .value [] => .error stray
  | n => n

/-- What the branches go by. -/
def SessionIo.hears (s : SessionIo) (input : SessionInput) (stray : IoError) :
    SessionInput :=
  match input with
  | .read n => if needsBytes s.phase then .read (n.orStray stray) else .read n
  | input => input

namespace Traced

def dismiss : List GuardOp := [.disarm, .unregister]

def enobufsSleep : List GuardOp := .await :: dismiss ++ [.register, .arm]

/-- The way into a retry loop, up to its first try. -/
def enterRetry : List GuardOp := [.register, .arm] ++ enobufsSleep

/-- The scope of the guard is left. -/
def leave (t : Traced) : Traced := (.destroy :: t.1, t.2)

/-- `safe_close` and `co_return` in the scope of a guard. -/
def closeInside (s : SessionIo) : Traced := ([.await, .destroy], s.close)

def closeOutside (s : SessionIo) : Traced := ([.await], s.close)

/-- `co_return false` of `forward_one`; after the second one the client is closed. -/
def fail (s : SessionIo) : Traced := (if s.second then [.await] else [], s.fail)

def failInvalid (s : SessionIo) : Traced := fail { s with connInvalid := true }

/-- `n.error()`: of a result that holds a value it may be anything. -/
def askError {A : Type} (n : IoResult A) (stray : IoError) : IoError :=
  match n with
  | .error code => code
  | .value _ => stray

def onTurn (s : SessionIo) (shutdown : Bool) : Traced :=
  if shutdown then closeOutside s else ([.construct], { s with phase := .request })

def bodyLoop (s : SessionIo) : Traced :=
  if s.clientBuf.remaining < s.totalReq then ([], { s with phase := .body })
  else ([.destroy], { s with phase := .acquiring, second := false })

/-- `loopEnd` is what is still done in the loop that the bytes are read in. -/
def requestReceived (s : SessionIo) (bytes : List UInt8) (loopEnd : List GuardOp) :
    Traced :=
  let s := { s with clientBuf := s.clientBuf.append bytes }
  if s.clientBuf.data.length > s.maxBuf then closeInside s
  else
    match HttpRequest.parse s.clientBuf.head with
    | some (req, consumed) =>
        let t := bodyLoop { s with
          req := req
          totalReq := consumed + (getContentLength req.headers).toNat }
        (loopEnd ++ [.destroy, .construct] ++ t.1, t.2)
    | none => (loopEnd, { s with phase := .request })

def onRequest (s : SessionIo) (n : IoResult (List UInt8)) : Traced :=
  match n with
  | .value bytes => if bytes = [] then closeInside s else requestReceived s bytes []
  | .error code =>
      if code = .enobufs then (enterRetry, { s with phase := .requestRetry 0 })
      else closeInside s

def onRequestRetry (s : SessionIo) (enobufs : Nat) (rn : IoResult (List UInt8))
    (stray : IoError) : Traced :=
  match rn with
  | .value (byte :: bytes) => requestReceived s (byte :: bytes) dismiss
  | rn =>
      if askError rn stray ≠ .enobufs then closeInside s
      else if enobufs + 1 < maxEnobufsRetries then
        (enobufsSleep, { s with phase := .requestRetry (enobufs + 1) })
      else (dismiss, { s with phase := .request })

def bodyReceived (s : SessionIo) (bytes : List UInt8) (loopEnd : List GuardOp) : Traced :=
  let s := { s with clientBuf := s.clientBuf.append bytes }
  if s.clientBuf.data.length > s.maxBuf then closeInside s
  else (loopEnd ++ (bodyLoop s).1, (bodyLoop s).2)

def onBody (s : SessionIo) (n : IoResult (List UInt8)) : Traced :=
  match n with
  | .value bytes => if bytes = [] then closeInside s else bodyReceived s bytes []
  | .error code =>
      if code = .enobufs then (enterRetry, { s with phase := .bodyRetry 0 })
      else closeInside s

def onBodyRetry (s : SessionIo) (enobufs : Nat) (rn : IoResult (List UInt8))
    (stray : IoError) : Traced :=
  match rn with
  | .value (byte :: bytes) => bodyReceived s (byte :: bytes) dismiss
  | rn =>
      if askError rn stray ≠ .enobufs then closeInside s
      else if enobufs + 1 < maxEnobufsRetries then
        (enobufsSleep, { s with phase := .bodyRetry (enobufs + 1) })
      else (dismiss ++ (bodyLoop s).1, (bodyLoop s).2)

def onAcquired (s : SessionIo) (ok : Bool) : Traced :=
  if ok then ([], { s with connInvalid := false }.forwardOne) else closeOutside s

def onLinked (s : SessionIo) (n : IoResult (List UInt8)) (stray : IoError) : Traced :=
  match n with
  | .value (byte :: bytes) =>
      ([], { s with backendBuf := s.backendBuf.append (byte :: bytes) }.readLoop)
  | n => if askError n stray ≠ .enobufs then failInvalid s else ([], s.writeLoop 0)

def onWrite (s : SessionIo) (written : Nat) (w : IoResult Nat) : Traced :=
  match w with
  | .value size => ([], s.writeLoop (written + size))
  | .error code =>
      if code = .enobufs then
        (.construct :: enterRetry, { s with phase := .writeRetry written 0 })
      else failInvalid s

def onWriteRetry (s : SessionIo) (written retry : Nat) (rw : IoResult Nat) : Traced :=
  match rw with
  | .value size =>
      if s.totalReq ≤ written + size then leave ([], s.readLoop) else leave (failInvalid s)
  | .error code =>
      if code ≠ .enobufs then leave (failInvalid s)
      else if retry + 1 < maxEnobufsRetries then
        (enobufsSleep, { s with phase := .writeRetry written (retry + 1) })
      else leave (failInvalid s)

def responseReceived (s : SessionIo) (bytes : List UInt8) : Traced :=
  let s := { s with backendBuf := s.backendBuf.append bytes }
  if s.backendBuf.data.length > s.maxBuf then failInvalid s else ([], s.readLoop)

def onResponse (s : SessionIo) (n : IoResult (List UInt8)) : Traced :=
  match n with
  | .value bytes => if bytes = [] then failInvalid s else responseReceived s bytes
  | .error code =>
      if code = .enobufs then
        (.construct :: enterRetry, { s with phase := .responseRetry 0 })
      else failInvalid s

def onResponseRetry (s : SessionIo) (enobufs : Nat) (rn : IoResult (List UInt8))
    (stray : IoError) : Traced :=
  match rn with
  | .value (byte :: bytes) => leave (responseReceived s (byte :: bytes))
  | rn =>
      if askError rn stray ≠ .enobufs then leave (failInvalid s)
      else if enobufs + 1 < maxEnobufsRetries then
        (enobufsSleep, { s with phase := .responseRetry (enobufs + 1) })
      else leave ([], s.readLoop)

/-- A client that does not keep the connection is closed. -/
def finish (s : SessionIo) : Traced :=
  (if requestKeepalive s.req then [] else [.await], s.finish)

def relayLoop (s : SessionIo) (fwd : Nat) : Traced :=
  if fwd < s.respConsumed then ([], { s with phase := .relaying fwd }) else finish s

def onRelay (s : SessionIo) (fwd : Nat) (w : IoResult Nat) : Traced :=
  match w with
  | .value size => relayLoop s (fwd + size)
  | .error code =>
      if code = .enobufs then
        (.construct :: enterRetry, { s with phase := .relayRetry fwd 0 })
      else fail s

def onRelayRetry (s : SessionIo) (fwd retry : Nat) (rw : IoResult Nat) : Traced :=
  match rw with
  | .value size =>
      if s.respConsumed ≤ fwd + size then leave (finish s) else leave (fail s)
  | .error code =>
      if code ≠ .enobufs then leave (fail s)
      else if retry + 1 < maxEnobufsRetries then
        (enobufsSleep, { s with phase := .relayRetry fwd (retry + 1) })
      else leave (fail s)

def step (s : SessionIo) (input : SessionInput) (stray : IoError) : Option Traced :=
  match s.phase, input with
  | .loopHead, .turn shutdown => some (onTurn s shutdown)
  | .request, .read n => some (onRequest s n)
  | .requestRetry enobufs, .read rn => some (onRequestRetry s enobufs rn stray)
  | .body, .read n => some (onBody s n)
  | .bodyRetry enobufs, .read rn => some (onBodyRetry s enobufs rn stray)
  | .acquiring, .acquired ok => some (onAcquired s ok)
  | .linked, .read n => some (onLinked s n stray)
  | .writing written, .wrote w =>
      if SessionIo.fits (s.totalReq - written) w then some (onWrite s written w) else none
  | .writeRetry written retry, .wrote rw =>
      if SessionIo.fits (s.totalReq - written) rw then some (onWriteRetry s written retry rw)
      else none
  | .response, .read n => some (onResponse s n)
  | .responseRetry enobufs, .read rn => some (onResponseRetry s enobufs rn stray)
  | .relaying fwd, .wrote w =>
      if SessionIo.fits (s.respConsumed - fwd) w then some (onRelay s fwd w) else none
  | .relayRetry fwd retry, .wrote rw =>
      if SessionIo.fits (s.respConsumed - fwd) rw then some (onRelayRetry s fwd retry rw)
      else none
  | _, _ => none

section Projection

variable (s : SessionIo)

/-- A branch that is taken on both sides. -/
theorem ite_io {P : Prop} [Decidable P] {t u : Traced} {a b : SessionIo} (ht : t.2 = a)
    (hu : u.2 = b) : (if P then t else u).2 = if P then a else b := by
  split
  · exact ht
  · exact hu

theorem bodyLoop_io : (bodyLoop s).2 = s.bodyLoop := ite_io rfl rfl

theorem requestReceived_io (bytes : List UInt8) (loopEnd : List GuardOp) :
    (requestReceived s bytes loopEnd).2 = s.requestReceived bytes := by
  refine ite_io rfl ?_
  simp only
  cases HttpRequest.parse (s.clientBuf.append bytes).head with
  | none => rfl
  | some parsed => exact bodyLoop_io _

theorem bodyReceived_io (bytes : List UInt8) (loopEnd : List GuardOp) :
    (bodyReceived s bytes loopEnd).2 = s.bodyReceived bytes :=
  ite_io rfl (bodyLoop_io _)

theorem responseReceived_io (bytes : List UInt8) :
    (responseReceived s bytes).2 = s.responseReceived bytes := ite_io rfl rfl

@[simp]
theorem onRequest_io (n : IoResult (List UInt8)) : (onRequest s n).2 = s.onRequest n := by
  cases n with
  | value bytes => exact ite_io rfl (requestReceived_io s bytes [])
  | error code => exact ite_io rfl rfl

@[simp]
theorem onRequestRetry_io (enobufs : Nat) (rn : IoResult (List UInt8)) (stray : IoError) :
    (onRequestRetry s enobufs rn stray).2 = s.onRequestRetry enobufs (rn.orStray stray) := by
  obtain (- | ⟨byte, bytes⟩) | code := rn
  · exact ite_io rfl (ite_io rfl rfl)
  · exact requestReceived_io s (byte :: bytes) dismiss
  · exact ite_io rfl (ite_io rfl rfl)

@[simp]
theorem onBody_io (n : IoResult (List UInt8)) : (onBody s n).2 = s.onBody n := by
  cases n with
  | value bytes => exact ite_io rfl (bodyReceived_io s bytes [])
  | error code => exact ite_io rfl rfl

@[simp]
theorem onBodyRetry_io (enobufs : Nat) (rn : IoResult (List UInt8)) (stray : IoError) :
    (onBodyRetry s enobufs rn stray).2 = s.onBodyRetry enobufs (rn.orStray stray) := by
  obtain (- | ⟨byte, bytes⟩) | code := rn
  · exact ite_io rfl (ite_io rfl (bodyLoop_io s))
  · exact bodyReceived_io s (byte :: bytes) dismiss
  · exact ite_io rfl (ite_io rfl (bodyLoop_io s))

@[simp]
theorem onLinked_io (n : IoResult (List UInt8)) (stray : IoError) :
    (onLinked s n stray).2 = s.onLinked (n.orStray stray) := by
  obtain (- | ⟨byte, bytes⟩) | code := n
  · exact ite_io rfl rfl
  · rfl
  · exact ite_io rfl rfl

@[simp]
theorem onWrite_io (written : Nat) (w : IoResult Nat) :
    (onWrite s written w).2 = s.onWrite written w := by
  cases w with
  | value size => rfl
  | error code => exact ite_io rfl rfl

@[simp]
theorem onWriteRetry_io (written retry : Nat) (rw : IoResult Nat) :
    (onWriteRetry s written retry rw).2 = s.onWriteRetry written retry rw := by
  cases rw with
  | value size => exact ite_io rfl rfl
  | error code => exact ite_io rfl (ite_io rfl rfl)

@[simp]
theorem onResponse_io (n : IoResult (List UInt8)) :
    (onResponse s n).2 = s.onResponse n := by
  cases n with
  | value bytes => exact ite_io rfl (responseReceived_io s bytes)
  | error code => exact ite_io rfl rfl

@[simp]
theorem onResponseRetry_io (enobufs : Nat) (rn : IoResult (List UInt8)) (stray : IoError) :
    (onResponseRetry s enobufs rn stray).2 = s.onResponseRetry enobufs (rn.orStray stray) := by
  obtain (- | ⟨byte, bytes⟩) | code := rn
  · exact ite_io rfl (ite_io rfl rfl)
  · exact responseReceived_io s (byte :: bytes)
  · exact ite_io rfl (ite_io rfl rfl)

theorem relayLoop_io (fwd : Nat) : (relayLoop s fwd).2 = s.relayLoop fwd := ite_io rfl rfl

@[simp]
theorem onRelay_io (fwd : Nat) (w : IoResult Nat) : (onRelay s fwd w).2 = s.onRelay fwd w := by
  cases w with
  | value size => exact relayLoop_io s (fwd + size)
  | error code => exact ite_io rfl rfl

@[simp]
theorem onRelayRetry_io (fwd retry : Nat) (rw : IoResult Nat) :
    (onRelayRetry s fwd retry rw).2 = s.onRelayRetry fwd retry rw := by
  cases rw with
  | value size => exact ite_io rfl rfl
  | error code => exact ite_io rfl (ite_io rfl rfl)

@[simp]
theorem onTurn_io (shutdown : Bool) :
    (onTurn s shutdown).2 = if shutdown then s.close else { s with phase := .request } :=
  ite_io rfl rfl

@[simp]
theorem onAcquired_io (ok : Bool) :
    (onAcquired s ok).2 =
      if ok then { s with connInvalid := false }.forwardOne else s.close :=
  ite_io rfl rfl

/-- The sessions with guards are the sessions without, where `error()` of a result
without bytes is what it may be. -/
theorem step_io {s : SessionIo} {input : SessionInput} {stray : IoError} {t : Traced}
    (hstep : step s input stray = some t) : s.step (s.hears input stray) = some t.2 := by
  unfold step at hstep
  split at hstep
  · obtain rfl := Option.some.inj hstep
    simp [SessionIo.hears, SessionIo.step, *]
  · obtain rfl := Option.some.inj hstep
    simp [SessionIo.hears, SessionIo.step, SessionIo.needsBytes, *]
  · obtain rfl := Option.some.inj hstep
    simp [SessionIo.hears, SessionIo.step, SessionIo.needsBytes, *]
  · obtain rfl := Option.some.inj hstep
    simp [SessionIo.hears, SessionIo.step, SessionIo.needsBytes, *]
  · obtain rfl := Option.some.inj hstep
    simp [SessionIo.hears, SessionIo.step, SessionIo.needsBytes, *]
  · obtain rfl := Option.some.inj hstep
    simp [SessionIo.hears, SessionIo.step, *]
  · obtain rfl := Option.some.inj hstep
    simp [SessionIo.hears, SessionIo.step, SessionIo.needsBytes, *]
  · obtain ⟨hfits, ht⟩ := Option.ite_none_right_eq_some.mp hstep
    obtain rfl := Option.some.inj ht
    simp [SessionIo.hears, SessionIo.step, *]
  · obtain ⟨hfits, ht⟩ := Option.ite_none_right_eq_some.mp hstep
    obtain rfl := Option.some.inj ht
    simp [SessionIo.hears, SessionIo.step, *]
  · obtain rfl := Option.some.inj hstep
    simp [SessionIo.hears, SessionIo.step, SessionIo.needsBytes, *]
  · obtain rfl := Option.some.inj hstep
    simp [SessionIo.hears, SessionIo.step, SessionIo.needsBytes, *]
  · obtain ⟨hfits, ht⟩ := Option.ite_none_right_eq_some.mp hstep
    obtain rfl := Option.some.inj ht
    simp [SessionIo.hears, SessionIo.step, *]
  · obtain ⟨hfits, ht⟩ := Option.ite_none_right_eq_some.mp hstep
    obtain rfl := Option.some.inj ht
    simp [SessionIo.hears, SessionIo.step, *]
  · cases hstep

end Projection

end Traced

/-- `guards` says of the live guards whether they are armed, the innermost first, and
`ops` is what is left of the branch that was taken in the phase `before`. -/
structure GuardedSession where
  io : SessionIo
  before : IoPhase
  guards : List Bool
  ops : List GuardOp

/-- The session does the next thing with its guards, or the operation that it
waits for ends; `stray` is what `error()` is of a result that holds a value. -/
inductive GuardedAct where
  | op
  | input (input : SessionInput) (stray : IoError)

/-- The change of `retry_count`, and the guards after it. -/
def GuardOp.exec (guards : List Bool) : GuardOp → Option (Int × List Bool)
  | .construct => some (0, false :: guards)
  | .register => some (1, guards)
  | .arm =>
      match guards with
      | [] => none
      | _ :: others => some (0, true :: others)
  | .disarm =>
      match guards with
      | [] => none
      | _ :: others => some (0, false :: others)
  | .unregister => some (-1, guards)
  | .destroy =>
      match guards with
      | [] => none
      | armed :: others => some (if armed then -1 else 0, others)
  | .await => some (0, guards)

namespace GuardedSession

def fresh (maxBuf : Nat) : GuardedSession := ⟨.init maxBuf, .loopHead, [], []⟩

def doOp (s : GuardedSession) : Option (Int × GuardedSession) :=
  match s.ops with
  | [] => none
  | op :: ops =>
      (op.exec s.guards).map fun (change, guards) =>
        (change, { s with guards := guards, ops := ops })

def hear (s : GuardedSession) (input : SessionInput) (stray : IoError) :
    Option (Int × GuardedSession) :=
  match s.ops with
  | _ :: _ => none
  | [] =>
      (Traced.step s.io input stray).map fun (ops, io) =>
        (0, { s with io := io, before := s.io.phase, ops := ops })

def work (s : GuardedSession) : GuardedAct → Option (Int × GuardedSession)
  | .op => s.doOp
  | .input input stray => s.hear input stray

/-- The sessions of a proxy; the counter is `retry_count`. -/
def machine : Machine (SharedCount GuardedSession) (CrewAct Nat GuardedAct) :=
  SharedCount.machine fresh work

end GuardedSession

end UltraNet
