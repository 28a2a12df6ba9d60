/-
Delivery of `ReliableUdp`: over a network that loses nothing the payloads are
received in order, unless one of them is empty.
-/
import UltraNet.ReliableUdp

namespace UltraNet

namespace PacketHeader

theorem parse_write (header : PacketHeader) (rest : List UInt8) :
    parse (header.write ++ rest) = header ∧
      (header.write ++ rest).drop 11 = rest := by
  have hlen : UInt16.ofNat (leNat (leBytes 2 header.len.toNat)) = header.len := by
    have hvalue : header.len.toNat < 256 ^ 2 := header.len.toNat_lt
    rw [leNat_leBytes, Nat.mod_eq_of_lt hvalue, UInt16.ofNat_toNat]
  have hshape : header.write ++ rest =
      leBytes 4 header.seq.toNat ++ (leBytes 4 header.ack.toNat ++
        (header.flags :: (leBytes 2 header.len.toNat ++ rest))) := by
    simp [write, List.append_assoc]
  have hack : (header.write ++ rest).drop 4 = leBytes 4 header.ack.toNat ++
      (header.flags :: (leBytes 2 header.len.toNat ++ rest)) := by
    rw [hshape]
    exact List.drop_left' (length_leBytes 4 _)
  have hflags : (header.write ++ rest).drop 8 =
      header.flags :: (leBytes 2 header.len.toNat ++ rest) := by
    rw [← List.drop_drop (i := 4) (j := 4), hack]
    exact List.drop_left' (length_leBytes 4 _)
  have htail : (header.write ++ rest).drop 9 =
      leBytes 2 header.len.toNat ++ rest := by
    rw [← List.drop_drop (i := 1) (j := 8), hflags]
    rfl
  constructor
  · have hseq : readLeU32 (header.write ++ rest) = header.seq := by
      rw [hshape, readLeU32_leBytes, UInt32.ofNat_toNat]
    have hflag : (header.write ++ rest).getD 8 0 = header.flags := by
      rw [List.getD_eq_getElem?_getD, ← List.head?_drop, hflags]
      rfl
    rw [parse, hseq, hack, readLeU32_leBytes, UInt32.ofNat_toNat, hflag, htail,
      List.take_left' (length_leBytes 2 _), hlen]
  · rw [← List.drop_drop (i := 2) (j := 9), htail]
    exact List.drop_left' (length_leBytes 2 _)

end PacketHeader

namespace ReliableUdp

/-- The datagram of the payload with this number. -/
def datagram (i : Nat) (payload : UInt32 × List UInt8) : List UInt8 :=
  sendPacket ⟨UInt32.ofNat i, payload.1, dataFlag, UInt16.ofNat payload.2.length⟩
    payload.2

theorem sendAll_eq {s : ReliableUdp} {k : Nat} (hseq : s.nextSeq = UInt32.ofNat k)
    (payloads : List (UInt32 × List UInt8))
    (hsize : ∀ payload ∈ payloads, payload.2.length ≤ maxDataSize) :
    s.sendAll payloads =
      (payloads.zipIdx k).map fun entry => datagram entry.2 entry.1 := by
  induction payloads generalizing s k with
  | nil => rfl
  | cons payload rest ih =>
      have hfits := hsize payload List.mem_cons_self
      have hnext : s.nextSeq + 1 = UInt32.ofNat (k + 1) := by
        rw [hseq]
        exact (UInt32.ofNat_add k 1).symm
      have hrest := ih (s := { s with lastRecvSeq := payload.1, nextSeq := s.nextSeq + 1 })
        hnext (fun other hother => hsize other (List.mem_cons_of_mem _ hother))
      rw [List.zipIdx_cons, List.map_cons, ← hrest, sendAll, send,
        if_neg (Nat.not_lt.mpr hfits)]
      simp [datagram, hseq]

theorem mem_sendAll {payloads : List (UInt32 × List UInt8)}
    (hsize : ∀ payload ∈ payloads, payload.2.length ≤ maxDataSize)
    {wire : List UInt8} :
    wire ∈ init.sendAll payloads ↔
      ∃ i payload, payloads[i]? = some payload ∧ wire = datagram i payload := by
  rw [sendAll_eq (k := 0) rfl payloads hsize, List.mem_map]
  constructor
  · rintro ⟨⟨payload, i⟩, hmem, rfl⟩
    exact ⟨i, payload, (List.mem_zipIdx_iff_getElem?).mp hmem, rfl⟩
  · rintro ⟨i, payload, hpayload, rfl⟩
    exact ⟨(payload, i), (List.mem_zipIdx_iff_getElem?).mpr hpayload, rfl⟩

/-- A payload is buffered unless it is empty or was received before. -/
theorem handle_datagram (s : ReliableUdp) (i : Nat) {payload : UInt32 × List UInt8}
    (hsize : payload.2.length ≤ maxDataSize) :
    s.handle (datagram i payload) =
      if payload.2 = [] then s
      else if s.nextRecvSeq ≤ UInt32.ofNat i then
        { s with
          recvBuffer := s.recvBuffer.insert (UInt32.ofNat i) payload.2
          lastRecvSeq := UInt32.ofNat i }
      else s := by
  have hlen : (UInt16.ofNat payload.2.length).toNat = payload.2.length := by
    rw [UInt16.toNat_ofNat']
    refine Nat.mod_eq_of_lt ?_
    simp only [maxDataSize] at hsize
    omega
  have hpos : 0 < UInt16.ofNat payload.2.length ↔ payload.2 ≠ [] := by
    rw [UInt16.lt_iff_toNat_lt, hlen]
    exact List.length_pos_iff
  obtain ⟨hparse, hdrop⟩ := PacketHeader.parse_write
    ⟨UInt32.ofNat i, payload.1, dataFlag, UInt16.ofNat payload.2.length⟩
    (if dataFlag &&& dataFlag ≠ 0 ∧ 0 < UInt16.ofNat payload.2.length then
      payload.2.take (UInt16.ofNat payload.2.length).toNat else [])
  rw [handle, datagram, sendPacket, hparse, hdrop]
  by_cases hempty : payload.2 = []
  · simp [hempty]
  · have hflag : dataFlag &&& dataFlag ≠ 0 := by decide
    simp only [hempty, hflag, hpos, hlen, handleData, ne_eq, not_false_eq_true,
      and_self, if_true, if_false, List.take_length]

theorem parse_datagram (i : Nat) (payload : UInt32 × List UInt8) :
    PacketHeader.parse (datagram i payload) =
      ⟨UInt32.ofNat i, payload.1, dataFlag, UInt16.ofNat payload.2.length⟩ := by
  rw [datagram, sendPacket]
  exact (PacketHeader.parse_write _ _).1

theorem parse_sendAckOnly (peer : ReliableUdp) :
    (PacketHeader.parse peer.sendAckOnly).flags = ackFlag := by
  rw [sendAckOnly, sendPacket, (PacketHeader.parse_write _ _).1]

theorem handle_sendAckOnly (s peer : ReliableUdp) :
    s.handle peer.sendAckOnly = s := by
  have hflag : ¬ ackFlag &&& dataFlag ≠ 0 := by decide
  rw [handle]
  refine if_neg fun hdata => hflag ?_
  rw [← parse_sendAckOnly peer]
  exact hdata.1

theorem sendPacket_ne_nil (header : PacketHeader) (data : List UInt8) :
    sendPacket header data ≠ [] := by
  simp [sendPacket, PacketHeader.write]

/-- A datagram that the network can carry. -/
def Carried (payloads : List (UInt32 × List UInt8)) (wire : List UInt8) : Prop :=
  (∃ i payload, payloads[i]? = some payload ∧ wire = datagram i payload) ∨
    ∃ peer : ReliableUdp, wire = peer.sendAckOnly

/-- The receiver has taken out the first `k` payloads; the others that are not
empty are in its buffer or still to come. -/
structure Receiving (payloads : List (UInt32 × List UInt8)) (k : Nat)
    (net : List (List UInt8)) (s : ReliableUdp) : Prop where
  next : s.nextRecvSeq = UInt32.ofNat k
  le : k ≤ payloads.length
  stored : ∀ seq data, s.recvBuffer.lookup seq = some data →
    k ≤ seq.toNat ∧ data ≠ [] ∧
      ∃ payload, payloads[seq.toNat]? = some payload ∧ payload.2 = data
  waiting : ∀ i payload, k ≤ i → payloads[i]? = some payload → payload.2 ≠ [] →
    datagram i payload ∈ net ∨ s.recvBuffer.lookup (UInt32.ofNat i) = some payload.2
  sound : ∀ wire ∈ net, Carried payloads wire

variable {payloads : List (UInt32 × List UInt8)} {k : Nat}
  {wire : List UInt8} {net : List (List UInt8)} {s : ReliableUdp}

theorem Carried.ne_nil (hwire : Carried payloads wire) : wire ≠ [] := by
  obtain ⟨i, payload, -, rfl⟩ | ⟨peer, rfl⟩ := hwire
  · exact sendPacket_ne_nil _ _
  · exact sendPacket_ne_nil _ _

theorem toNat_ofNat_lt (hcount : payloads.length < 2 ^ 32) {i : Nat}
    (hi : i ≤ payloads.length) : (UInt32.ofNat i).toNat = i := by
  rw [UInt32.toNat_ofNat']
  exact Nat.mod_eq_of_lt (by omega)

theorem index_lt {i : Nat} {payload : UInt32 × List UInt8}
    (hpayload : payloads[i]? = some payload) : i < payloads.length :=
  (List.getElem?_eq_some_iff.mp hpayload).1

/-- The datagrams of different payloads differ in their number. -/
theorem datagram_inj (hcount : payloads.length < 2 ^ 32) {i j : Nat}
    {payload other : UInt32 × List UInt8} (hpayload : payloads[i]? = some payload)
    (hother : payloads[j]? = some other)
    (hsame : datagram i payload = datagram j other) : i = j := by
  have hseq := congrArg (fun wire => (PacketHeader.parse wire).seq.toNat) hsame
  simp only [parse_datagram] at hseq
  rwa [toNat_ofNat_lt hcount (Nat.le_of_lt (index_lt hpayload)),
    toNat_ofNat_lt hcount (Nat.le_of_lt (index_lt hother))] at hseq

/-- A datagram is dropped that is of no payload still needed. -/
theorem Receiving.skip (hs : Receiving payloads k (wire :: net) s)
    (hwire : ∀ i payload, k ≤ i → payloads[i]? = some payload → payload.2 ≠ [] →
      wire ≠ datagram i payload) :
    Receiving payloads k net s := by
  refine { hs with waiting := ?_, sound := ?_ }
  · intro i payload hi hpayload hne
    apply (hs.waiting i payload hi hpayload hne).imp_left
    intro hmem
    exact (List.mem_cons.mp hmem).resolve_left
      (hwire i payload hi hpayload hne).symm
  · intro other hother
    exact hs.sound other (List.mem_cons_of_mem _ hother)

/-- A datagram of a payload still needed is buffered. -/
theorem Receiving.insert {i : Nat} {payload : UInt32 × List UInt8}
    (hs : Receiving payloads k (datagram i payload :: net) s)
    (hcount : payloads.length < 2 ^ 32) (hi : k ≤ i)
    (hpayload : payloads[i]? = some payload) (hne : payload.2 ≠ []) :
    Receiving payloads k net
      { s with
        recvBuffer := s.recvBuffer.insert (UInt32.ofNat i) payload.2
        lastRecvSeq := UInt32.ofNat i } := by
  have hindex := toNat_ofNat_lt hcount (Nat.le_of_lt (index_lt hpayload))
  refine { hs with stored := ?_, waiting := ?_, sound := ?_ }
  · intro seq data hstored
    rw [Table.lookup_insert] at hstored
    by_cases hseq : seq = UInt32.ofNat i
    · rw [if_pos hseq] at hstored
      obtain rfl := Option.some.inj hstored
      rw [hseq, hindex]
      exact ⟨hi, hne, payload, hpayload, rfl⟩
    · rw [if_neg hseq] at hstored
      exact hs.stored seq data hstored
  · intro j other hj hother hother'
    rw [Table.lookup_insert]
    by_cases hseq : UInt32.ofNat j = UInt32.ofNat i
    · have hsame : j = i := by
        rw [← toNat_ofNat_lt hcount (Nat.le_of_lt (index_lt hother)), hseq, hindex]
      subst hsame
      rw [hpayload] at hother
      obtain rfl := Option.some.inj hother
      exact .inr (if_pos rfl)
    · rw [if_neg hseq]
      apply (hs.waiting j other hj hother hother').imp_left
      intro hmem
      refine (List.mem_cons.mp hmem).resolve_left fun hsame => hseq ?_
      rw [datagram_inj hcount hother hpayload hsame]
  · intro other hother
    exact hs.sound other (List.mem_cons_of_mem _ hother)

/-- A datagram is taken from the network. -/
theorem Receiving.handle (hs : Receiving payloads k (wire :: net) s)
    (hsize : ∀ payload ∈ payloads, payload.2.length ≤ maxDataSize)
    (hcount : payloads.length < 2 ^ 32) :
    Receiving payloads k net (s.handle wire) := by
  obtain ⟨i, payload, hpayload, rfl⟩ | ⟨peer, rfl⟩ :=
    hs.sound wire List.mem_cons_self
  · rw [handle_datagram s i (hsize payload (List.mem_of_getElem? hpayload))]
    -- the only payload that the datagram can be of
    have honly : ∀ j other, payloads[j]? = some other →
        datagram i payload = datagram j other → i = j ∧ payload = other := by
      intro j other hother hsame
      have hij := datagram_inj hcount hpayload hother hsame
      subst hij
      exact ⟨rfl, Option.some.inj (hpayload.symm.trans hother)⟩
    by_cases hempty : payload.2 = []
    · rw [if_pos hempty]
      apply hs.skip
      intro j other _ hother hne hsame
      exact hne ((honly j other hother hsame).2 ▸ hempty)
    · have hnext : s.nextRecvSeq ≤ UInt32.ofNat i ↔ k ≤ i := by
        rw [hs.next, UInt32.le_iff_toNat_le, toNat_ofNat_lt hcount hs.le,
          toNat_ofNat_lt hcount (Nat.le_of_lt (index_lt hpayload))]
      rw [if_neg hempty]
      by_cases hi : k ≤ i
      · rw [if_pos (hnext.mpr hi)]
        exact hs.insert hcount hi hpayload hempty
      · rw [if_neg (mt hnext.mp hi)]
        apply hs.skip
        intro j other hj hother _ hsame
        exact hi ((honly j other hother hsame).1 ▸ hj)
  · rw [handle_sendAckOnly]
    apply hs.skip
    intro i payload _ _ _ hsame
    have hflags := congrArg (fun wire => (PacketHeader.parse wire).flags) hsame
    simp only [parse_sendAckOnly, parse_datagram] at hflags
    exact absurd hflags (by decide)

/-- The receiver takes out the next payload. -/
theorem Receiving.take {data : List UInt8} (hs : Receiving payloads k net s)
    (hcount : payloads.length < 2 ^ 32)
    (hdata : s.recvBuffer.lookup s.nextRecvSeq = some data) :
    ∃ payload, payloads[k]? = some payload ∧ payload.2 = data ∧ data ≠ [] ∧
      Receiving payloads (k + 1) net
        { s with
          recvBuffer := s.recvBuffer.erase s.nextRecvSeq
          nextRecvSeq := s.nextRecvSeq + 1 } := by
  obtain ⟨-, hne, payload, hpayload, hsame⟩ := hs.stored _ data hdata
  have hindex := toNat_ofNat_lt hcount hs.le
  rw [hs.next, hindex] at hpayload
  refine ⟨payload, hpayload, hsame, hne, ?_⟩
  refine { hs with next := ?_, le := index_lt hpayload, stored := ?_, waiting := ?_ }
  · rw [hs.next]
    exact (UInt32.ofNat_add k 1).symm
  · intro seq other hother
    rw [Table.lookup_erase] at hother
    by_cases hseq : seq = s.nextRecvSeq
    · simp [hseq] at hother
    · rw [if_neg hseq] at hother
      obtain ⟨hle, hne', hrest⟩ := hs.stored seq other hother
      refine ⟨Nat.lt_of_le_of_ne hle ?_, hne', hrest⟩
      intro hk
      refine hseq (UInt32.toNat_inj.mp ?_)
      rw [hs.next, hindex, hk]
  · intro i other hi hother hne'
    have hseq : UInt32.ofNat i ≠ s.nextRecvSeq := by
      intro hsame'
      have hik := congrArg UInt32.toNat hsame'
      rw [hs.next, hindex, toNat_ofNat_lt hcount
        (Nat.le_of_lt (index_lt hother))] at hik
      omega
    rw [Table.lookup_erase, if_neg hseq]
    exact hs.waiting i other (Nat.le_of_succ_le hi) hother hne'

/-- What a call of `recv` does: it times out, and if it could wait for
everything the next payload is empty or there is none; or it returns that
payload. -/
theorem Receiving.recv (hs : Receiving payloads k net s)
    (hsize : ∀ payload ∈ payloads, payload.2.length ≤ maxDataSize)
    (hcount : payloads.length < 2 ^ 32) (patience : Nat) :
    (s.recv patience net).2.2.length ≤ net.length ∧
      (((s.recv patience net).1 = none ∧
          Receiving payloads k (s.recv patience net).2.2 (s.recv patience net).2.1 ∧
          (net.length ≤ patience →
            ∀ payload, payloads[k]? = some payload → payload.2 = [])) ∨
        ∃ payload, payloads[k]? = some payload ∧ payload.2 ≠ [] ∧
          (s.recv patience net).1 = some payload.2 ∧
          Receiving payloads (k + 1) (s.recv patience net).2.2
            (s.recv patience net).2.1) := by
  induction patience generalizing s net with
  | zero =>
      rw [ReliableUdp.recv]
      cases hdata : s.recvBuffer.lookup s.nextRecvSeq with
      | some data =>
          obtain ⟨payload, hpayload, rfl, hne, htaken⟩ := hs.take hcount hdata
          exact ⟨Nat.le_refl _, .inr ⟨payload, hpayload, hne, rfl, htaken⟩⟩
      | none =>
          refine ⟨Nat.le_refl _, .inl ⟨rfl, hs, fun hlen payload hpayload => ?_⟩⟩
          by_contra hne
          have hnil := List.length_eq_zero_iff.mp (Nat.le_zero.mp hlen)
          obtain hmem | hstored := hs.waiting k payload (Nat.le_refl _) hpayload hne
          · rw [hnil] at hmem
            exact absurd hmem List.not_mem_nil
          · rw [← hs.next, hdata] at hstored
            exact absurd hstored (by simp)
  | succ patience ih =>
      rw [ReliableUdp.recv.eq_def]
      cases hdata : s.recvBuffer.lookup s.nextRecvSeq with
      | some data =>
          obtain ⟨payload, hpayload, rfl, hne, htaken⟩ := hs.take hcount hdata
          exact ⟨Nat.le_refl _, .inr ⟨payload, hpayload, hne, rfl, htaken⟩⟩
      | none =>
          cases net with
          | nil =>
              refine ⟨Nat.le_refl _, .inl ⟨rfl, hs, fun _ payload hpayload => ?_⟩⟩
              by_contra hne
              obtain hmem | hstored := hs.waiting k payload
                  (Nat.le_refl _) hpayload hne
              · exact absurd hmem List.not_mem_nil
              · rw [← hs.next, hdata] at hstored
                exact absurd hstored (by simp)
          | cons wire net =>
              have hwire := (hs.sound wire List.mem_cons_self).ne_nil
              obtain ⟨hlen, hresult⟩ := ih (hs.handle hsize hcount)
              simp only [if_neg hwire, List.length_cons, Nat.add_le_add_iff_right]
              exact ⟨Nat.le_succ_of_le hlen, hresult⟩

/-- The calls return the next payloads in order and never an empty one, and all
of them if none is empty and enough calls can wait. -/
theorem Receiving.recvAll (hs : Receiving payloads k net s)
    (hsize : ∀ payload ∈ payloads, payload.2.length ≤ maxDataSize)
    (hcount : payloads.length < 2 ^ 32) {bound : Nat} (hnet : net.length ≤ bound)
    (calls : List Nat) :
    let results := (s.recvAll net calls).filterMap id
    (results <+: (payloads.drop k).map Prod.snd ∧ [] ∉ results) ∧
      ((∀ payload ∈ payloads, payload.2 ≠ []) →
        payloads.length - k ≤ calls.countP (bound ≤ ·) →
        results = (payloads.drop k).map Prod.snd) := by
  induction calls generalizing s net k with
  | nil =>
      refine ⟨⟨List.nil_prefix, List.not_mem_nil⟩, fun _ hcalls => ?_⟩
      rw [List.drop_eq_nil_of_le (Nat.sub_eq_zero_iff_le.mp (Nat.le_zero.mp hcalls))]
      rfl
  | cons patience calls ih =>
      obtain ⟨hlen, hresult⟩ := hs.recv hsize hcount patience
      have hnet' := Nat.le_trans hlen hnet
      obtain ⟨hnone, hrest, hstuck⟩ | ⟨payload, hpayload, hne, hsome,
          hrest⟩ := hresult
      · obtain ⟨hsafe, hall⟩ := ih hrest hnet'
        simp only [ReliableUdp.recvAll, hnone, List.filterMap_cons_none, id_eq]
        refine ⟨hsafe, fun hfull hcalls => hall hfull ?_⟩
        by_cases hpatience : bound ≤ patience
        · -- only after the last payload can such a call time out
          have hend : payloads.length ≤ k := by
            by_contra hlt
            have hget := List.getElem?_eq_getElem (Nat.not_le.mp hlt)
            exact hfull _ (List.getElem_mem _)
              (hstuck (Nat.le_trans hnet hpatience) _ hget)
          omega
        · rwa [List.countP_cons_of_neg (by simpa using hpatience)] at hcalls
      · obtain ⟨⟨hpre, hnil⟩, hall⟩ := ih hrest hnet'
        have hdrop : (payloads.drop k).map Prod.snd =
            payload.2 :: (payloads.drop (k + 1)).map Prod.snd := by
          obtain ⟨hk, rfl⟩ := List.getElem?_eq_some_iff.mp hpayload
          rw [List.drop_eq_getElem_cons hk, List.map_cons]
        have hcons : (s.recvAll net (patience :: calls)).filterMap id =
            payload.2 :: ((s.recv patience net).2.1.recvAll (s.recv patience net).2.2
              calls).filterMap id := by
          simp only [ReliableUdp.recvAll, hsome]
          rfl
        rw [hcons, hdrop]
        refine ⟨⟨List.cons_prefix_cons.mpr ⟨rfl, hpre⟩, ?_⟩, ?_⟩
        · simpa [hne.symm] using hnil
        · intro hfull hcalls
          refine congrArg (payload.2 :: ·) (hall hfull ?_)
          have hcount' := List.countP_cons (p := (bound ≤ ·))
              (a := patience) (l := calls)
          split at hcount' <;> omega

theorem receiving_init (hsize : ∀ payload ∈ payloads, payload.2.length ≤ maxDataSize)
    (hnet : Lossless (init.sendAll payloads) net) :
    Receiving payloads 0 net init where
  next := rfl
  le := Nat.zero_le _
  stored seq data hstored := by simp [init] at hstored
  waiting i payload _ hpayload _ :=
    .inl (hnet.complete _ ((mem_sendAll hsize).mpr ⟨i, payload, hpayload, rfl⟩))
  sound wire hwire := (hnet.sound wire hwire).imp_left (mem_sendAll hsize).mp

/-- The payloads are delivered exactly if none is empty: `send` takes an empty
one and gives it a number, but `recv` ignores its datagram and waits for that
number for ever. -/
theorem delivers_iff (payloads : List (UInt32 × List UInt8))
    (hsize : ∀ payload ∈ payloads, payload.2.length ≤ maxDataSize)
    (hcount : payloads.length < 2 ^ 32) :
    Delivers payloads ↔ ∀ payload ∈ payloads, payload.2 ≠ [] := by
  constructor
  · intro hdelivers payload hpayload hempty
    have hnet : Lossless (init.sendAll payloads) (init.sendAll payloads) :=
      ⟨fun _ hwire => hwire, fun _ hwire => .inl hwire⟩
    let calls := List.replicate payloads.length (init.sendAll payloads).length
    have hresults := (hdelivers _ calls hnet).2
        (by simp [calls, List.countP_replicate])
    have hsafe := (receiving_init hsize hnet).recvAll hsize hcount
        (Nat.le_refl _) calls
    refine hsafe.1.2 ?_
    rw [hresults, ← hempty]
    exact List.mem_map_of_mem hpayload
  · intro hfull net calls hnet
    have hrun := (receiving_init hsize hnet).recvAll hsize hcount
        (Nat.le_refl _) calls
    simp only [List.drop_zero, Nat.sub_zero] at hrun
    exact ⟨hrun.1.1, hrun.2 hfull⟩

theorem delivers_two : Delivers [(0, [1]), (0, [2])] :=
  (delivers_iff _ (by decide) (by decide)).mpr (by decide)

/-- The payloads of one byte around an empty one: only the first arrives. -/
theorem emptyPayload_blocks :
    let payloads : List (UInt32 × List UInt8) := [(0, [1]), (0, []), (0, [2])]
    let net := init.sendAll payloads
    (∀ payload ∈ payloads, payload.2.length ≤ maxDataSize) ∧
      Lossless net net ∧
      init.recvAll net [3, 3, 3, 3] = [some [1], none, none, none] ∧
      ¬ Delivers payloads := by
  intro payloads net
  have hnet : Lossless net net := ⟨fun _ hwire => hwire, fun _ hwire => .inl hwire⟩
  have hresults : init.recvAll net [3, 3, 3, 3] = [some [1], none, none, none] := by
    decide
  refine ⟨by decide, hnet, hresults, fun hdelivers => ?_⟩
  have hall := (hdelivers net [3, 3, 3, 3] hnet).2 (by decide)
  rw [hresults] at hall
  exact absurd hall (by decide)

end ReliableUdp

end UltraNet
