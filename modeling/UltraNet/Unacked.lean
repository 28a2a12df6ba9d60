/-
The table `m_unacked` of messages that were accepted and not acknowledged, and
the critical sections that read and change it.
-/
import UltraNet.AssocTable

namespace UltraNet

/-- `unacked_item`.  `sent_at` is not kept: whether an item is old enough for
the ack timeout is answered by the environment. -/
structure UnackedItem where
  frame : List UInt8
  node : UInt64
  needsResend : Bool
deriving DecidableEq

/-- Frames are compared byte by byte. -/
instance decidableMemFrames (frame : List UInt8) (frames : List (List UInt8)) :
    Decidable (frame ∈ frames) :=
  inferInstance

abbrev Unacked := Table UInt64 UnackedItem

namespace Unacked

def trackUnacked (unacked : Unacked) (node msgId : UInt64)
    (frame : List UInt8) : Unacked :=
  unacked.insert msgId ⟨frame, node, false⟩

/-- The last section of `note_ack`. -/
def forget (unacked : Unacked) (msgId : UInt64) : Unacked :=
  unacked.erase msgId

def noteSendFailed (unacked : Unacked) (msgId : UInt64) : Unacked :=
  Table.modify unacked msgId fun item => { item with needsResend := true }

/-- The section of `on_link_dead`: every message of the node is flagged. -/
def flagNode (unacked : Unacked) (node : UInt64) : Unacked :=
  Table.mapVals unacked fun _ item =>
    if item.node = node then { item with needsResend := true } else item

/-- What `resend_unacked` collects. -/
def flagged (unacked : Unacked) (node : UInt64) :
    List (UInt64 × List UInt8) :=
  (unacked.entries.filter fun entry =>
    entry.2.node = node ∧ entry.2.needsResend).map fun entry =>
      (entry.1, entry.2.frame)

/-- `resend_unacked` has posted the frame. -/
def markSent (unacked : Unacked) (msgId : UInt64) : Unacked :=
  Table.modify unacked msgId fun item => { item with needsResend := false }

end Unacked

end UltraNet
