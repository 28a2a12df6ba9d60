/-
`ReliableUdp`: numbered datagrams, and a receiver that buffers them until they
are next in order.
-/
import UltraNet.AssocTable
import UltraNet.ByteOrder
import Mathlib.Data.List.Basic

namespace UltraNet

/-- `kMaxDataSize`. -/
def maxDataSize : Nat := 1472 - 11

def dataFlag : UInt8 := 0x08

def ackFlag : UInt8 := 0x02

structure PacketHeader where
  seq : UInt32
  ack : UInt32
  flags : UInt8
  len : UInt16

namespace PacketHeader

def parse (buf : List UInt8) : PacketHeader where
  seq := readLeU32 buf
  ack := readLeU32 (buf.drop 4)
  flags := buf.getD 8 0
  len := UInt16.ofNat (leNat ((buf.drop 9).take 2))

def write (header : PacketHeader) : List UInt8 :=
  leBytes 4 header.seq.toNat ++ leBytes 4 header.ack.toNat ++ [header.flags] ++
    leBytes 2 header.len.toNat

end PacketHeader

structure ReliableUdp where
  nextSeq : UInt32
  nextRecvSeq : UInt32
  lastRecvSeq : UInt32
  recvBuffer : Table UInt32 (List UInt8)

namespace ReliableUdp

def init : ReliableUdp := ⟨0, 0, 0, ∅⟩

/-- The bytes that `send_packet` puts on the wire. -/
def sendPacket (header : PacketHeader) (data : List UInt8) : List UInt8 :=
  header.write ++
    if header.flags &&& dataFlag ≠ 0 ∧ 0 < header.len then
      data.take header.len.toNat
    else []

/-- The datagram, and the result of `send` with the state. -/
def send (s : ReliableUdp) (data : List UInt8) :
    List (List UInt8) × Bool × ReliableUdp :=
  if maxDataSize < data.length then ([], false, s)
  else
    ([sendPacket ⟨s.nextSeq, s.lastRecvSeq, dataFlag,
      UInt16.ofNat data.length⟩ data],
      true, { s with nextSeq := s.nextSeq + 1 })

def sendAckOnly (s : ReliableUdp) : List UInt8 :=
  sendPacket ⟨0, if 0 < s.nextRecvSeq then s.nextRecvSeq - 1 else 0, ackFlag, 0⟩ []

def handleData (s : ReliableUdp) (header : PacketHeader) (data : List UInt8) :
    ReliableUdp :=
  if s.nextRecvSeq ≤ header.seq then
    { s with
      recvBuffer := s.recvBuffer.insert header.seq (data.take header.len.toNat)
      lastRecvSeq := header.seq }
  else s

/-- What `recv` does with a datagram; acks change nothing. -/
def handle (s : ReliableUdp) (buf : List UInt8) : ReliableUdp :=
  let header := PacketHeader.parse buf
  if header.flags &&& dataFlag ≠ 0 ∧ 0 < header.len then
    s.handleData header (buf.drop 11)
  else s

/-- `recv` while at most `patience` datagrams arrive before its deadline: the
data, or none for a timeout, with the datagrams that are still to come. -/
def recv (s : ReliableUdp) (patience : Nat) (net : List (List UInt8)) :
    Option (List UInt8) × ReliableUdp × List (List UInt8) :=
  match s.recvBuffer.lookup s.nextRecvSeq with
  | some data =>
      (some data,
        { s with
          recvBuffer := s.recvBuffer.erase s.nextRecvSeq
          nextRecvSeq := s.nextRecvSeq + 1 }, net)
  | none =>
      match patience, net with
      | 0, net => (none, s, net)
      | _, [] => (none, s, [])
      | patience + 1, buf :: net =>
          if buf = [] then (none, s, net) else (s.handle buf).recv patience net

/-- Calls of `recv` one after the other. -/
def recvAll (s : ReliableUdp) (net : List (List UInt8)) :
    List Nat → List (Option (List UInt8))
  | [] => []
  | patience :: calls =>
      let (result, s, net) := s.recv patience net
      result :: recvAll s net calls

/-- The datagrams of calls of `send` one after the other; `m_last_recv_seq` is
set by whatever the sender itself receives between them. -/
def sendAll (s : ReliableUdp) : List (UInt32 × List UInt8) → List (List UInt8)
  | [] => []
  | (lastRecvSeq, data) :: rest =>
      let (wire, _, s) := { s with lastRecvSeq := lastRecvSeq }.send data
      wire ++ sendAll s rest

/-- A network that loses nothing: it may repeat datagrams, deliver them in any
order, and mix them with the acks of the peer. -/
structure Lossless (sent net : List (List UInt8)) : Prop where
  complete : ∀ wire ∈ sent, wire ∈ net
  sound : ∀ wire ∈ net, wire ∈ sent ∨ ∃ s : ReliableUdp, wire = s.sendAckOnly

/-- Whatever the network and the deadlines, the calls that do not time out
return the payloads in order, and all of them if enough calls wait until
everything has arrived. -/
def Delivers (payloads : List (UInt32 × List UInt8)) : Prop :=
  ∀ net calls, Lossless (init.sendAll payloads) net →
    let results := (init.recvAll net calls).filterMap id
    results <+: payloads.map Prod.snd ∧
      (payloads.length ≤ calls.countP (net.length ≤ ·) →
        results = payloads.map Prod.snd)

end ReliableUdp

end UltraNet
