/-
What `recv` of `ReliableUdp` takes from its receive buffer: an array for the
longest datagram, which behind a shorter one keeps what it held before.
-/
import UltraNet.RudpDelivery

namespace UltraNet

universe u

/-- `kMaxPacketSize`. -/
def maxPacketSize : Nat := 1472

/-- `kHeaderSize`. -/
def headerSize : Nat := 11

/-- `buf` when `RecvFrom` has returned. -/
structure ReceiveBuffer where
  datagram : List UInt8
  stale : List UInt8
  full : (datagram ++ stale).length = maxPacketSize

def ReceiveBuffer.bytes (buf : ReceiveBuffer) : List UInt8 :=
  buf.datagram ++ buf.stale

namespace PacketHeader

/-- The fields of a whole header do not depend on what follows it. -/
theorem parse_append {datagram : List UInt8} (hheader : headerSize ≤ datagram.length)
    (rest : List UInt8) : parse (datagram ++ rest) = parse datagram := by
  have hlength : 11 ≤ datagram.length := hheader
  have hdrop : ∀ i ≤ 11, (datagram ++ rest).drop i = datagram.drop i ++ rest :=
    fun i hi => List.drop_append_of_le_length (by omega)
  have htake : ∀ i width, i + width ≤ 11 →
      ((datagram ++ rest).drop i).take width = (datagram.drop i).take width := by
    intro i width hfits
    rw [hdrop i (by omega)]
    refine List.take_append_of_le_length ?_
    rw [List.length_drop]
    omega
  have hseq := htake 0 4 (by decide)
  rw [List.drop_zero, List.drop_zero] at hseq
  have hflags : (datagram ++ rest).getD 8 0 = datagram.getD 8 0 := by
    rw [List.getD_eq_getElem?_getD, List.getD_eq_getElem?_getD,
      List.getElem?_append_left (by omega)]
  rw [parse, parse, readLeU32, readLeU32, readLeU32, readLeU32, hseq,
    htake 4 4 (by decide), htake 9 2 (by decide), hflags]

end PacketHeader

namespace ReliableUdp

/-- `handle_data` is called and finds the number new. -/
def Stores (s : ReliableUdp) (header : PacketHeader) : Prop :=
  header.flags &&& dataFlag ≠ 0 ∧ 0 < header.len ∧ s.nextRecvSeq ≤ header.seq

instance (s : ReliableUdp) (header : PacketHeader) : Decidable (s.Stores header) :=
  inferInstanceAs (Decidable (_ ∧ _ ∧ _))

/-- How far into `buf` the header and the payload reach that `recv` reads. -/
def extent (s : ReliableUdp) (header : PacketHeader) : Nat :=
  if s.Stores header then headerSize + header.len.toNat else headerSize

/-- What a datagram leaves: the bytes of `buf` that were read and the state. -/
structure Turn (P : Type u) where
  used : Nat
  udp : ReliableUdp
  peer : Option P

variable {P : Type u}

/-- The loop of `recv` from one receive to the next; nothing when it reads
behind the end of `buf`. -/
def receive (s : ReliableUdp) (peer : Option P) (source : P) (buf : ReceiveBuffer) :
    Option (Turn P) :=
  if buf.datagram = [] then some ⟨0, s, peer⟩
  else
    let used := s.extent (PacketHeader.parse buf.bytes)
    if maxPacketSize < used then none
    else some ⟨used, s.handle buf.bytes, some (peer.getD source)⟩

/-- A whole header, and all of the payload that it announces. -/
def Complete (datagram : List UInt8) : Prop :=
  headerSize ≤ datagram.length ∧
    (PacketHeader.parse datagram).len.toNat ≤ datagram.length - headerSize

instance (datagram : List UInt8) : Decidable (Complete datagram) :=
  inferInstanceAs (Decidable (_ ∧ _))

/-- The bytes of the datagram that its header announces. -/
def payload (datagram : List UInt8) : List UInt8 :=
  (datagram.drop headerSize).take (PacketHeader.parse datagram).len.toNat

/-- No byte behind the datagram is read, one that is not complete changes
nothing, and one that is complete is handled on its own bytes. -/
def UsesReceived (s : ReliableUdp) (peer : Option P) (source : P)
    (buf : ReceiveBuffer) : Prop :=
  ∃ turn, s.receive peer source buf = some turn ∧
    turn.used ≤ buf.datagram.length ∧
    (¬ Complete buf.datagram → turn.udp = s ∧ turn.peer = peer) ∧
    (Complete buf.datagram →
      (payload buf.datagram).length = (PacketHeader.parse buf.datagram).len.toNat ∧
        turn.udp = s.handle buf.datagram)

/-- What is stored is the payload that the header announces. -/
theorem handle_eq (s : ReliableUdp) (datagram : List UInt8) :
    s.handle datagram =
      if s.Stores (PacketHeader.parse datagram) then
        { s with
          recvBuffer :=
            s.recvBuffer.insert (PacketHeader.parse datagram).seq (payload datagram)
          lastRecvSeq := (PacketHeader.parse datagram).seq }
      else s := by
  rw [handle, handleData]
  split
  · rename_i hdata
    by_cases hseq : s.nextRecvSeq ≤ (PacketHeader.parse datagram).seq
    · have hstores : s.Stores (PacketHeader.parse datagram) := ⟨hdata.1, hdata.2, hseq⟩
      rw [if_pos hseq, if_pos hstores]
      rfl
    · have hold : ¬ s.Stores (PacketHeader.parse datagram) := fun hstores =>
        hseq hstores.2.2
      rw [if_neg hseq, if_neg hold]
  · rename_i hdata
    have hold : ¬ s.Stores (PacketHeader.parse datagram) := fun hstores =>
      hdata ⟨hstores.1, hstores.2.1⟩
    rw [if_neg hold]

theorem Complete.ne_nil {datagram : List UInt8} (hcomplete : Complete datagram) :
    datagram ≠ [] := by
  rintro rfl
  exact absurd hcomplete.1 (by decide)

theorem Complete.length_payload {datagram : List UInt8} (hcomplete : Complete datagram) :
    (payload datagram).length = (PacketHeader.parse datagram).len.toNat := by
  rw [payload, List.length_take, List.length_drop]
  exact Nat.min_eq_left hcomplete.2

theorem Complete.handle_append {datagram : List UInt8} (hcomplete : Complete datagram)
    (s : ReliableUdp) (rest : List UInt8) :
    s.handle (datagram ++ rest) = s.handle datagram := by
  have hparse := PacketHeader.parse_append hcomplete.1 rest
  have hpayload : payload (datagram ++ rest) = payload datagram := by
    rw [payload, payload, hparse, List.drop_append_of_le_length hcomplete.1]
    refine List.take_append_of_le_length ?_
    rw [List.length_drop]
    exact hcomplete.2
  rw [handle_eq, handle_eq, hparse, hpayload]

theorem headerSize_le_extent (s : ReliableUdp) (header : PacketHeader) :
    headerSize ≤ s.extent header := by
  rw [extent]
  split
  · exact Nat.le_add_right _ _
  · exact Nat.le_refl _

theorem Complete.extent_le {datagram : List UInt8} (hcomplete : Complete datagram)
    (s : ReliableUdp) :
    s.extent (PacketHeader.parse datagram) ≤ datagram.length := by
  obtain ⟨hheader, hpayload⟩ := hcomplete
  rw [extent]
  split
  · omega
  · exact hheader

variable {s : ReliableUdp} {peer : Option P} {source : P} {buf : ReceiveBuffer}

theorem length_datagram_le (buf : ReceiveBuffer) :
    buf.datagram.length ≤ maxPacketSize := by
  have hfull := buf.full
  rw [List.length_append] at hfull
  omega

theorem receive_nil (hempty : buf.datagram = []) :
    s.receive peer source buf = some ⟨0, s, peer⟩ := by
  rw [receive, if_pos hempty]

theorem receive_eq (hne : buf.datagram ≠ [])
    (hinside : s.extent (PacketHeader.parse buf.bytes) ≤ maxPacketSize) :
    s.receive peer source buf =
      some ⟨s.extent (PacketHeader.parse buf.bytes), s.handle buf.bytes,
        some (peer.getD source)⟩ := by
  rw [receive, if_neg hne]
  exact if_neg (Nat.not_lt.mpr hinside)

/-- With a datagram that is not empty a turn reads as far as the header in
`buf` says. -/
theorem receive_some {turn : Turn P} (hne : buf.datagram ≠ [])
    (hturn : s.receive peer source buf = some turn) :
    turn = ⟨s.extent (PacketHeader.parse buf.bytes), s.handle buf.bytes,
      some (peer.getD source)⟩ := by
  simp only [receive, if_neg hne] at hturn
  split at hturn
  · cases hturn
  · exact (Option.some.inj hturn).symm

theorem receive_complete (s : ReliableUdp) (peer : Option P) (source : P)
    (hcomplete : Complete buf.datagram) :
    ∃ used ≤ buf.datagram.length, s.receive peer source buf =
      some ⟨used, s.handle buf.datagram, some (peer.getD source)⟩ := by
  have hparse : PacketHeader.parse buf.bytes = PacketHeader.parse buf.datagram :=
    PacketHeader.parse_append hcomplete.1 _
  have hextent := hcomplete.extent_le s
  have hinside := Nat.le_trans hextent (length_datagram_le buf)
  refine ⟨_, hextent, ?_⟩
  rw [receive_eq hcomplete.ne_nil (by rw [hparse]; exact hinside), hparse,
    ReceiveBuffer.bytes, hcomplete.handle_append]

/-- What the other side sends is complete. -/
theorem complete_sendPacket (header : PacketHeader) {data : List UInt8}
    (hlen : header.flags &&& dataFlag ≠ 0 ∨ header.len = 0)
    (hdata : header.len.toNat ≤ data.length) : Complete (sendPacket header data) := by
  have hwrite : header.write.length = headerSize := by
    simp [PacketHeader.write, headerSize]
  obtain ⟨hparse, hdrop⟩ := PacketHeader.parse_write header
    (if header.flags &&& dataFlag ≠ 0 ∧ 0 < header.len then
      data.take header.len.toNat else [])
  rw [Complete, sendPacket, hparse, List.length_append, hwrite, Nat.add_sub_cancel_left]
  refine ⟨Nat.le_add_right _ _, ?_⟩
  by_cases hpayload : header.flags &&& dataFlag ≠ 0 ∧ 0 < header.len
  · rw [if_pos hpayload, List.length_take_of_le hdata]
  · have hzero : header.len = 0 := by
      rcases hlen with hflag | hzero
      · by_contra hlen
        exact hpayload ⟨hflag, UInt16.pos_iff_ne_zero.mpr hlen⟩
      · exact hzero
    rw [hzero]
    exact Nat.zero_le _

theorem complete_datagram (i : Nat) {payload : UInt32 × List UInt8}
    (hsize : payload.2.length ≤ maxDataSize) : Complete (datagram i payload) := by
  have hlen : (UInt16.ofNat payload.2.length).toNat = payload.2.length := by
    rw [UInt16.toNat_ofNat']
    refine Nat.mod_eq_of_lt ?_
    simp only [maxDataSize] at hsize
    omega
  have hflag : dataFlag &&& dataFlag ≠ 0 := by decide
  exact complete_sendPacket _ (.inl hflag) (Nat.le_of_eq hlen)

theorem complete_sendAckOnly (sender : ReliableUdp) : Complete sender.sendAckOnly :=
  complete_sendPacket _ (.inr rfl) (Nat.zero_le _)

/-- `recv` on its array: nothing when a turn reads behind the end of it. -/
def recvInto (s : ReliableUdp) (peer : Option P) (patience : Nat)
    (net : List (P × ReceiveBuffer)) :
    Option (Option (List UInt8) × ReliableUdp × Option P × List (P × ReceiveBuffer)) :=
  match s.recvBuffer.lookup s.nextRecvSeq with
  | some data =>
      some (some data,
        { s with
          recvBuffer := s.recvBuffer.erase s.nextRecvSeq
          nextRecvSeq := s.nextRecvSeq + 1 }, peer, net)
  | none =>
      match patience, net with
      | 0, net => some (none, s, peer, net)
      | _, [] => some (none, s, peer, [])
      | patience + 1, (source, buf) :: net =>
          match s.receive peer source buf with
          | none => none
          | some turn =>
              if buf.datagram = [] then some (none, turn.udp, turn.peer, net)
              else recvInto turn.udp turn.peer patience net

/-- On complete datagrams the array does not show. -/
theorem recvInto_eq (s : ReliableUdp) (peer : Option P) (patience : Nat)
    (net : List (P × ReceiveBuffer))
    (hnet : ∀ entry ∈ net, entry.2.datagram = [] ∨ Complete entry.2.datagram) :
    ∃ known rest, s.recvInto peer patience net =
        some ((s.recv patience (net.map fun entry => entry.2.datagram)).1,
          (s.recv patience (net.map fun entry => entry.2.datagram)).2.1, known, rest) ∧
      rest.map (fun entry => entry.2.datagram) =
        (s.recv patience (net.map fun entry => entry.2.datagram)).2.2 := by
  induction patience generalizing s peer net with
  | zero =>
      rw [recvInto.eq_def, recv.eq_def]
      cases s.recvBuffer.lookup s.nextRecvSeq with
      | some data => exact ⟨peer, net, rfl, rfl⟩
      | none => exact ⟨peer, net, rfl, rfl⟩
  | succ patience ih =>
      rw [recvInto.eq_def, recv.eq_def]
      cases s.recvBuffer.lookup s.nextRecvSeq with
      | some data => exact ⟨peer, net, rfl, rfl⟩
      | none =>
          cases net with
          | nil => exact ⟨peer, [], rfl, rfl⟩
          | cons entry net =>
              obtain ⟨source, buf⟩ := entry
              simp only [List.map_cons]
              rcases hnet (source, buf) List.mem_cons_self with hempty | hcomplete
              · rw [receive_nil hempty]
                simp only [if_pos hempty]
                exact ⟨peer, net, rfl, rfl⟩
              · obtain ⟨used, -, hreceive⟩ := receive_complete s peer source hcomplete
                simp only [hreceive, if_neg hcomplete.ne_nil]
                exact ih (s.handle buf.datagram) (some (peer.getD source)) net
                  fun other hother => hnet other (List.mem_cons_of_mem _ hother)

/-- Header and payload are read before either is compared with the number of
bytes that have come: only a complete datagram is safe, and a whole header of
which nothing is stored, from a peer that is known. -/
theorem uses_received_iff (s : ReliableUdp) (peer : Option P) (source : P)
    (buf : ReceiveBuffer) :
    UsesReceived s peer source buf ↔
      buf.datagram = [] ∨ Complete buf.datagram ∨
        (headerSize ≤ buf.datagram.length ∧ peer ≠ none ∧
          ¬ s.Stores (PacketHeader.parse buf.datagram)) := by
  constructor
  · rintro ⟨turn, hturn, hused, hkept, -⟩
    by_cases hne : buf.datagram = []
    · exact .inl hne
    by_cases hcomplete : Complete buf.datagram
    · exact .inr (.inl hcomplete)
    obtain rfl := receive_some hne hturn
    have hheader := Nat.le_trans (headerSize_le_extent s _) hused
    rw [ReceiveBuffer.bytes, PacketHeader.parse_append hheader] at hused
    refine .inr (.inr ⟨hheader, ?_, ?_⟩)
    · rintro rfl
      cases (hkept hcomplete).2
    · intro hstores
      rw [extent, if_pos hstores] at hused
      exact hcomplete ⟨hheader, Nat.le_sub_of_add_le' hused⟩
  · rintro (hempty | hcomplete | ⟨hheader, hpeer, hstores⟩)
    · have hshort : ¬ Complete buf.datagram := by
        rw [hempty]
        decide
      exact ⟨_, receive_nil hempty, Nat.zero_le _, fun _ => ⟨rfl, rfl⟩,
        fun hcomplete => absurd hcomplete hshort⟩
    · obtain ⟨used, hused, hreceive⟩ := receive_complete s peer source hcomplete
      exact ⟨_, hreceive, hused, fun hshort => absurd hcomplete hshort,
        fun _ => ⟨hcomplete.length_payload, rfl⟩⟩
    · have hne : buf.datagram ≠ [] := by
        intro hempty
        rw [hempty] at hheader
        exact absurd hheader (by decide)
      have hparse : PacketHeader.parse buf.bytes = PacketHeader.parse buf.datagram :=
        PacketHeader.parse_append hheader _
      have hhandle : ∀ bytes, PacketHeader.parse bytes =
          PacketHeader.parse buf.datagram → s.handle bytes = s := by
        intro bytes hbytes
        rw [handle_eq, hbytes, if_neg hstores]
      have hextent : s.extent (PacketHeader.parse buf.bytes) = headerSize := by
        rw [extent, hparse, if_neg hstores]
      obtain ⟨known, rfl⟩ := Option.ne_none_iff_exists'.mp hpeer
      refine ⟨_, receive_eq hne (by rw [hextent]; decide), ?_, fun _ => ?_, ?_⟩
      · exact Nat.le_trans (Nat.le_of_eq hextent) hheader
      · exact ⟨hhandle _ hparse, rfl⟩
      · intro hcomplete
        exact ⟨hcomplete.length_payload, (hhandle _ hparse).trans (hhandle _ rfl).symm⟩

/-- A header alone that announces five bytes: `recv` stores five bytes that
were in the array before. -/
theorem uses_stale_bytes :
    let datagram : List UInt8 := [0, 0, 0, 0, 0, 0, 0, 0, 8, 5, 0]
    ∃ buf : ReceiveBuffer, buf.datagram = datagram ∧
      ¬ UsesReceived init (some ()) () buf ∧
      ∃ turn, init.receive (some ()) () buf = some turn ∧
        turn.udp.recvBuffer.lookup 0 = some [7, 7, 7, 7, 7] := by
  let buf : ReceiveBuffer := ⟨[0, 0, 0, 0, 0, 0, 0, 0, 8, 5, 0],
    List.replicate 1461 7, by rw [List.length_append, List.length_replicate]; rfl⟩
  have hbytes : buf.bytes = buf.datagram ++ List.replicate 1461 7 := rfl
  have hparse : PacketHeader.parse buf.bytes = PacketHeader.parse buf.datagram := by
    rw [hbytes]
    exact PacketHeader.parse_append (by decide) _
  have hstores : init.Stores (PacketHeader.parse buf.datagram) := by decide
  have hextent : init.extent (PacketHeader.parse buf.bytes) = 16 := by
    rw [extent, hparse, if_pos hstores]
    rfl
  have hreceive : init.receive (some ()) () buf =
      some ⟨init.extent (PacketHeader.parse buf.bytes), init.handle buf.bytes, some ()⟩ :=
    receive_eq (by decide) (by rw [hextent]; decide)
  refine ⟨buf, rfl, ?_, _, hreceive, ?_⟩
  · rintro ⟨turn, hturn, hused, -⟩
    rw [hreceive] at hturn
    obtain rfl := Option.some.inj hturn
    simp only [hextent] at hused
    exact absurd hused (by decide)
  · decide

end ReliableUdp

end UltraNet
