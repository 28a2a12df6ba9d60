/-
The sessions of the HTTP proxy over one connection pool.  A session forwards
its requests one by one, each on a connection that it takes from the pool and
gives back; what it has read from the backend and not relayed stays in its own
buffer, and what it has not read stays on the connection.
-/
import UltraNet.ConnectionPool
import UltraNet.HttpForward
import UltraNet.HttpText
import Mathlib.Logic.Function.Basic

namespace UltraNet

/-- A connection to the backend: the bytes that the backend has sent and nobody
has read, and the request that it has got as a whole and not answered, by its
session and number. -/
structure BackendConn where
  unread : List UInt8
  owes : Option (Nat × Nat)

def BackendConn.clear : BackendConn := ⟨[], none⟩

inductive SessionPhase where
  | waiting
  | acquiring (totalReq : Nat) (keepalive : Bool)
  | forwarding (conn : Nat) (forward : Forwarding) (keepalive : Bool)
  | closed

/-- `log` is a ghost: what was written to the client for each of its requests. -/
structure ProxySession where
  phase : SessionPhase
  backendBuf : SlidingBuffer
  log : List (List UInt8)

/-- `answers` is a ghost: the backend's response to each request. -/
structure HttpProxy where
  sessions : Nat → ProxySession
  conns : Nat → BackendConn
  idle : List Nat
  made : Nat
  answers : Nat → Nat → Option (List UInt8)

/-- There are no I/O errors.  A session gets one of the idle connections or a
new one. -/
inductive ProxyEvent where
  | request (session totalReq : Nat) (keepalive : Bool)
  | acquire (session : Nat) (reused : Option Nat)
  | read (session size : Nat)
  | wrote (session size : Nat)
  | respond (conn : Nat) (response : ResponseText)

namespace HttpProxy

def init : HttpProxy :=
  ⟨fun _ => ⟨.waiting, .empty, []⟩, fun _ => .clear, [], 0, fun _ _ => none⟩

/-- `pool.acquire`. -/
def acquire (p : HttpProxy) : Option Nat → Option (HttpProxy × Nat)
  | some index =>
      (p.idle[index]?).map fun conn =>
        ({ p with idle := p.idle.eraseIdx index }, conn)
  | none =>
      some ({ p with
        made := p.made + 1
        conns := Function.update p.conns p.made .clear }, p.made)

/-- The destructor of `PooledConnection`: a connection that is invalid, or that
the pool has no room for, is closed. -/
def giveBack (p : HttpProxy) (conn : Nat) (invalid : Bool) : HttpProxy :=
  if invalid ∨ idleCapacity ≤ p.idle.length then p
  else { p with idle := p.idle ++ [conn] }

/-- The last byte of the request has been sent. -/
def requestSent (before : ForwardPhase) : ForwardPhase → Bool
  | .linked => true
  | .reading | .relaying .. =>
      match before with
      | .writing _ | .writeRetry .. => true
      | _ => false
  | _ => false

/-- `forward_one` has made a step on a connection. -/
def advance (p : HttpProxy) (session conn : Nat) (before : ForwardPhase)
    (forward : Forwarding) (keepalive : Bool) : HttpProxy :=
  let current := p.sessions session
  let conns :=
    if requestSent before forward.phase then
      Function.update p.conns conn
        { p.conns conn with owes := some (session, current.log.length) }
    else p.conns
  let become (phase : SessionPhase) : Nat → ProxySession :=
    Function.update p.sessions session
      ⟨phase, forward.backendBuf, current.log ++ [forward.sent]⟩
  match forward.phase with
  | .done =>
      HttpProxy.giveBack { p with
        conns := conns
        sessions := become (if keepalive then .waiting else .closed) }
        conn forward.invalid
  | .closed =>
      HttpProxy.giveBack { p with conns := conns, sessions := become .closed }
        conn forward.invalid
  | _ =>
      { p with
        conns := conns
        sessions := Function.update p.sessions session
          { current with phase := .forwarding conn forward keepalive } }

def step (maxBuf : Nat) (p : HttpProxy) : ProxyEvent → Option HttpProxy
  | .request session totalReq keepalive =>
      match (p.sessions session).phase with
      | .waiting =>
          if 0 < totalReq then
            some { p with
              sessions := Function.update p.sessions session
                { p.sessions session with
                  phase := .acquiring totalReq keepalive } }
          else none
      | _ => none
  | .acquire session reused =>
      match (p.sessions session).phase with
      | .acquiring totalReq keepalive =>
          (p.acquire reused).map fun (q, conn) =>
            q.advance session conn .reacquire
              (.init totalReq maxBuf (p.sessions session).backendBuf) keepalive
      | .forwarding conn forward keepalive =>
          -- the second attempt; the first connection is given up
          (p.acquire reused).bind fun (q, other) =>
            (forward.step .acquired).map fun next =>
              (q.advance session other forward.phase next keepalive).giveBack
                conn forward.invalid
      | _ => none
  | .read session size =>
      match (p.sessions session).phase with
      | .forwarding conn forward keepalive =>
          let unread := (p.conns conn).unread
          if 0 < size ∧ size ≤ unread.length then
            (forward.step (.data (unread.take size))).map fun next =>
              HttpProxy.advance { p with
                conns := Function.update p.conns conn
                  { p.conns conn with unread := unread.drop size } }
                session conn forward.phase next keepalive
          else none
      | _ => none
  | .wrote session size =>
      match (p.sessions session).phase with
      | .forwarding conn forward keepalive =>
          (forward.step (.wrote size)).map fun next =>
            p.advance session conn forward.phase next keepalive
      | _ => none
  | .respond conn response =>
      match (p.conns conn).owes with
      | some (session, number) =>
          some { p with
            conns := Function.update p.conns conn
              ⟨(p.conns conn).unread ++ response.wire, none⟩
            answers := Function.update p.answers session
              (Function.update (p.answers session) number
                (some response.wire)) }
      | none => none

def machine (maxBuf : Nat) : Machine HttpProxy ProxyEvent := ⟨init, step maxBuf⟩

end HttpProxy

end UltraNet
