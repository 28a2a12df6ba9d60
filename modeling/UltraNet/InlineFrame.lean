/-
`parse_inline_frame`: the header of a WebSocket frame at the front of a buffer,
without a copy of the payload.
-/
import UltraNet.WebSocketFrame

namespace UltraNet

/-- `payloadStart` is where `payload_ptr` points to in the buffer; none is a
null pointer. -/
structure InlineFrameInfo where
  opcode : OpCode := .text
  fin : Bool := true
  masked : Bool := false
  maskKey : UInt32 := 0
  payloadStart : Option Nat := none
  payloadLen : Nat := 0
  headerLen : Nat := 0
  totalConsumed : Nat := 0

namespace InlineFrameInfo

/-- The lengths, once the header has been read.  Their sum is a `size_t`. -/
def withLengths (info : InlineFrameInfo) (pos plen len : Nat) : InlineFrameInfo :=
  { info with
    headerLen := pos
    payloadLen := plen
    totalConsumed := (pos + plen) % 2 ^ 64
    payloadStart := if len < (pos + plen) % 2 ^ 64 then none else some pos }

end InlineFrameInfo

def parseInlineFrame (data : List UInt8) : InlineFrameInfo :=
  match data with
  | first :: second :: rest =>
      let info : InlineFrameInfo :=
        { fin := first &&& 0x80 ≠ 0
          opcode := .ofNat (first &&& 0x0F).toNat
          masked := second &&& 0x80 ≠ 0 }
      let short := (second &&& 0x7F).toNat
      let extended := WebSocketFrame.lengthBytes short
      if rest.length < extended then info
      else
        let plen := if extended = 0 then short else beNat (rest.take extended)
        let rest := rest.drop extended
        if !info.masked then info.withLengths (2 + extended) plen data.length
        else if rest.length < 4 then info
        else
          { info with maskKey := UInt32.ofNat (beNat (rest.take 4)) }.withLengths
            (2 + extended + 4) plen data.length
  | _ => {}

end UltraNet
