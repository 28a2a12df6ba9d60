/-
The DNS resolver: names on the wire, the queries it builds in 512 bytes, and
what it reads out of a response.  Decoding a name is a loop that may run
forever, so whatever decodes names is given the rounds it may take.
-/
import Mathlib.Algebra.GroupWithZero.Nat
import UltraNet.Digits
import UltraNet.Lines
import UltraNet.Loops

namespace UltraNet

namespace Dns

structure DnsHeader where
  id : UInt16
  flags : UInt16
  qdcount : UInt16
  ancount : UInt16
  nscount : UInt16
  arcount : UInt16

def beBytes16 (value : UInt16) : List UInt8 :=
  [(value >>> 8).toUInt8, (value &&& 0xFF).toUInt8]

def DnsHeader.encode (header : DnsHeader) : List UInt8 :=
  beBytes16 header.id ++ beBytes16 header.flags ++ beBytes16 header.qdcount ++
    beBytes16 header.ancount ++ beBytes16 header.nscount ++ beBytes16 header.arcount

section Names

/-- The loop of `encode_name` over what is left of the name. -/
def encodeLabels (rest : List UInt8) : List UInt8 :=
  match _hrest : rest with
  | [] => [0]
  | _ :: _ =>
      let label := rest.takeWhile (· ≠ 46)
      let len := min label.length 63
      UInt8.ofNat len :: (label.take len ++ encodeLabels (rest.drop (label.length + 1)))
termination_by rest.length
decreasing_by
  subst _hrest
  rw [List.length_drop, List.length_cons]
  omega

def encodeName (name : List UInt8) : List UInt8 :=
  encodeLabels name

/-- The variables of the loop in `decode_name`. -/
structure NameScan where
  offset : Nat
  name : List UInt8
  jumped : Bool
  origOffset : Nat

/-- `((len & 0x3f) << 8) | low` -/
def pointerTarget (len low : UInt8) : Nat :=
  256 * (len &&& 0x3F).toNat + low.toNat

/-- A name so far with one more label. -/
def appendLabel (name label : List UInt8) : List UInt8 :=
  (if name = [] then name else name ++ [46]) ++ label

/-- One round of `decode_name`. -/
def nameStep (buf : List UInt8) (scan : NameScan) : NameScan ⊕ NameScan :=
  match buf[scan.offset]? with
  | none => .inr scan
  | some len =>
      if len = 0 then
        .inr (if scan.jumped then scan else { scan with offset := scan.offset + 1 })
      else if len &&& 0xC0 = 0xC0 then
        match buf[scan.offset + 1]? with
        | none => .inr scan
        | some low =>
            .inl { scan with
              offset := pointerTarget len low
              jumped := true
              origOffset := if scan.jumped then scan.origOffset else scan.offset + 2 }
      else if scan.offset + 1 + len.toNat > buf.length then .inr scan
      else
        .inl { scan with
          offset := scan.offset + 1 + len.toNat
          name := appendLabel scan.name
            ((buf.drop (scan.offset + 1)).take len.toNat) }

/-- The name and the offset behind it. -/
def NameScan.result (scan : NameScan) : List UInt8 × Nat :=
  (scan.name, if scan.jumped then scan.origOffset else scan.offset)

def NameScan.start (offset : Nat) : NameScan :=
  ⟨offset, [], false, offset⟩

def decodeName (fuel : Nat) (buf : List UInt8) (offset : Nat) :
    Option (List UInt8 × Nat) :=
  (Loop.run (nameStep buf) fuel (.start offset)).map NameScan.result

end Names

section Queries

/-- Bytes written at a position of an array; `none` when they do not all fall
within it. -/
def writeBytes (array : List UInt8) (pos : Nat) (bytes : List UInt8) :
    Option (List UInt8) :=
  if pos + bytes.length ≤ array.length then
    some (array.take pos ++ bytes ++ array.drop (pos + bytes.length))
  else none

/-- `encode_name` as it writes into an array. -/
def encodeInto (array : List UInt8) (pos : Nat) (rest : List UInt8) :
    Option (List UInt8 × Nat) :=
  match _hrest : rest with
  | [] => (writeBytes array pos [0]).map fun array => (array, pos + 1)
  | _ :: _ =>
      let label := rest.takeWhile (· ≠ 46)
      let len := min label.length 63
      match writeBytes array pos [UInt8.ofNat len] with
      | none => none
      | some array =>
          match writeBytes array (pos + 1) (label.take len) with
          | none => none
          | some array =>
              encodeInto array (pos + 1 + len) (rest.drop (label.length + 1))
termination_by rest.length
decreasing_by
  subst _hrest
  rw [List.length_drop, List.length_cons]
  omega

def queryHeader : DnsHeader :=
  ⟨0x1A2B, 0x0100, 1, 0, 0, 0⟩

/-- The query for a name and a type, and its size. -/
def buildQuery (qtype : UInt8) (name : List UInt8) : Option (List UInt8 × Nat) := do
  let query ← writeBytes (List.replicate 512 0) 0 queryHeader.encode
  let (query, pos) ← encodeInto query 12 name
  let query ← writeBytes query pos [0]
  let query ← writeBytes query (pos + 1) [qtype]
  let query ← writeBytes query (pos + 2) [0]
  let query ← writeBytes query (pos + 3) [1]
  some (query, pos + 4)

/-- The query of `resolve_host`. -/
def hostQuery (hostname : List UInt8) : Option (List UInt8 × Nat) :=
  buildQuery 1 hostname

/-- `service[0] == '_' ? service : "_" + service` -/
def underscored (label : List UInt8) : List UInt8 :=
  if label.head? = some 95 then label else 95 :: label

def srvName (service protocol domain : List UInt8) : List UInt8 :=
  underscored service ++ [46] ++ underscored protocol ++ [46] ++ domain

/-- The query of `resolve_srv`. -/
def srvQuery (service protocol domain : List UInt8) : Option (List UInt8 × Nat) :=
  buildQuery 33 (srvName service protocol domain)

end Queries

section Responses

/-- `(buf[off] << 8) | buf[off + 1]`, which the callers know to be inside. -/
def readU16 (buf : List UInt8) (off : Nat) : Nat :=
  256 * (buf.getD off 0).toNat + (buf.getD (off + 1) 0).toNat

/-- The answer loop: `least` bytes must be left for an answer, and `record` is
what is kept of one. -/
def answers {α : Type} (least : Nat) (record : Nat → Nat → Nat → Option (List α))
    (fuel : Nat) (response : List UInt8) : Nat → Nat → Option (List α)
  | 0, _ => some []
  | count + 1, off =>
      if off + least ≤ response.length then
        match decodeName fuel response off with
        | none => none
        | some (_, off) =>
            if off + 10 > response.length then some []
            else
              let rtype := readU16 response off
              let rdlen := readU16 response (off + 8)
              if off + 10 + rdlen > response.length then some []
              else
                match record rtype rdlen (off + 10) with
                | none => none
                | some kept =>
                    (answers least record fuel response count
                      (off + 10 + rdlen)).map (kept ++ ·)
      else some []

/-- What is done with a response: the question is skipped, the answers are
read. -/
def readResponse {α : Type} (least : Nat)
    (record : Nat → Nat → Nat → Option (List α)) (fuel : Nat)
    (response : List UInt8) : Option (List α) :=
  if response.length < 12 then some []
  else if readU16 response 6 = 0 then some []
  else
    match decodeName fuel response 12 with
    | none => none
    | some (_, off) => answers least record fuel response (readU16 response 6) (off + 4)

/-- `inet_ntop` for an IPv4 address. -/
def addressText (bytes : List UInt8) : List UInt8 :=
  [46].intercalate (bytes.map fun byte => decimalText byte.toNat)

def hostRecord (response : List UInt8) (rtype rdlen off : Nat) :
    Option (List (List UInt8)) :=
  if rtype = 1 ∧ rdlen = 4 then some [addressText ((response.drop off).take 4)]
  else some []

/-- `resolve_host` on one response. -/
def resolveHost (fuel : Nat) (response : List UInt8) : Option (List (List UInt8)) :=
  readResponse 12 (hostRecord response) fuel response

structure SrvRecord where
  priority : Nat
  weight : Nat
  port : Nat
  target : List UInt8

def srvRecord (fuel : Nat) (response : List UInt8) (rtype rdlen off : Nat) :
    Option (List SrvRecord) :=
  if rtype = 33 ∧ 6 ≤ rdlen then
    (decodeName fuel response (off + 6)).map fun name =>
      [⟨readU16 response off, readU16 response (off + 2), readU16 response (off + 4),
        name.1⟩]
  else some []

/-- `resolve_srv` on one response. -/
def resolveSrv (fuel : Nat) (response : List UInt8) : Option (List SrvRecord) :=
  readResponse 10 (srvRecord fuel response) fuel response

end Responses

end Dns

end UltraNet
