/-
`ReliableUdp` over a network that loses datagrams.  Nothing is sent again, so
a lost datagram ends the delivery just as an empty payload does: its number
never comes.  To the receiver the payloads whose datagrams are lost are empty.
-/
import UltraNet.RudpDelivery

namespace UltraNet

namespace ReliableUdp

/-- A network that may lose datagrams as well as repeat and reorder them, and
mix them with the acks of the peer. -/
def Carries (sent net : List (List UInt8)) : Prop :=
  ∀ wire ∈ net, wire ∈ sent ∨ ∃ s : ReliableUdp, wire = s.sendAckOnly

/-- The network carries this datagram. -/
def carried (net : List (List UInt8)) (wire : List UInt8) : Bool := net.any (· = wire)

/-- The payloads as the receiver sees them, those that are lost being empty;
the first one has the number `first`. -/
def keepArrived (net : List (List UInt8)) :
    Nat → List (UInt32 × List UInt8) → List (UInt32 × List UInt8)
  | _, [] => []
  | first, payload :: rest =>
      (if carried net (datagram first payload) then payload else (payload.1, [])) ::
        keepArrived net (first + 1) rest

/-- The payloads before the first one that is empty or lost. -/
def untilLost (net : List (List UInt8)) :
    Nat → List (UInt32 × List UInt8) → List (List UInt8)
  | _, [] => []
  | first, payload :: rest =>
      if payload.2 ≠ [] ∧ carried net (datagram first payload) then
        payload.2 :: untilLost net (first + 1) rest
      else []

variable {payloads : List (UInt32 × List UInt8)} {net : List (List UInt8)}

theorem carried_iff {wire : List UInt8} : carried net wire = true ↔ wire ∈ net := by
  simp [carried]

theorem length_keepArrived (first : Nat) :
    (keepArrived net first payloads).length = payloads.length := by
  induction payloads generalizing first with
  | nil => rfl
  | cons payload rest ih => rw [keepArrived, List.length_cons, List.length_cons, ih]

theorem getElem?_keepArrived (first i : Nat) :
    (keepArrived net first payloads)[i]? = payloads[i]?.map fun payload =>
      if carried net (datagram (first + i) payload) then payload else (payload.1, []) := by
  induction payloads generalizing first i with
  | nil => rfl
  | cons payload rest ih =>
      cases i with
      | zero => rfl
      | succ i =>
          rw [keepArrived, List.getElem?_cons_succ, List.getElem?_cons_succ, ih,
            Nat.add_right_comm, Nat.add_assoc]

/-- A payload that the receiver sees is one of the sender's, or lost. -/
theorem of_getElem?_keepArrived {i : Nat} {kept : UInt32 × List UInt8}
    (hkept : (keepArrived net 0 payloads)[i]? = some kept) :
    (payloads[i]? = some kept ∧ datagram i kept ∈ net) ∨ kept.2 = [] := by
  rw [getElem?_keepArrived, Nat.zero_add] at hkept
  obtain ⟨payload, hpayload, rfl⟩ := Option.map_eq_some_iff.mp hkept
  by_cases harrived : carried net (datagram i payload) = true
  · rw [if_pos harrived]
    exact .inl ⟨hpayload, carried_iff.mp harrived⟩
  · rw [if_neg harrived]
    exact .inr rfl

theorem size_keepArrived (hsize : ∀ payload ∈ payloads, payload.2.length ≤ maxDataSize) :
    ∀ kept ∈ keepArrived net 0 payloads, kept.2.length ≤ maxDataSize := by
  intro kept hkept
  obtain ⟨i, hi⟩ := List.getElem?_of_mem hkept
  obtain ⟨hpayload, -⟩ | hempty := of_getElem?_keepArrived hi
  · exact hsize kept (List.mem_of_getElem? hpayload)
  · rw [hempty]
    exact Nat.zero_le _

theorem takeWhile_keepArrived (first : Nat) :
    ((keepArrived net first payloads).map Prod.snd).takeWhile (· ≠ []) =
      untilLost net first payloads := by
  induction payloads generalizing first with
  | nil => rfl
  | cons payload rest ih =>
      rw [keepArrived, untilLost, List.map_cons]
      by_cases harrived : carried net (datagram first payload) = true
      · by_cases hempty : payload.2 = []
        · rw [if_pos harrived, if_neg (fun hboth => hboth.1 hempty),
            List.takeWhile_cons_of_neg (by simpa using hempty)]
        · rw [if_pos harrived, if_pos ⟨hempty, harrived⟩,
            List.takeWhile_cons_of_pos (by simpa using hempty), ih]
      · rw [if_neg harrived, if_neg (fun hboth => harrived hboth.2),
          List.takeWhile_cons_of_neg (by simp)]

/-- To the receiver the network loses nothing but empty payloads. -/
theorem receiving_keepArrived
    (hsize : ∀ payload ∈ payloads, payload.2.length ≤ maxDataSize)
    (hnet : Carries (init.sendAll payloads) net) :
    Receiving (keepArrived net 0 payloads) 0 net init where
  next := rfl
  le := Nat.zero_le _
  stored seq data hstored := by simp [init] at hstored
  waiting i kept _ hkept hne :=
    .inl ((of_getElem?_keepArrived hkept).resolve_right hne).2
  sound wire hwire := by
    refine (hnet wire hwire).imp_left fun hsent => ?_
    obtain ⟨i, payload, hpayload, rfl⟩ := (mem_sendAll hsize).mp hsent
    refine ⟨i, payload, ?_, rfl⟩
    rw [getElem?_keepArrived, hpayload, Nat.zero_add, Option.map_some,
      if_pos (carried_iff.mpr hwire)]

/-- By induction on the calls: they return the payloads before the first empty
one, and all of these if enough of the calls can wait. -/
theorem Receiving.recvAll_takeWhile {k : Nat} {s : ReliableUdp}
    (hs : Receiving payloads k net s)
    (hsize : ∀ payload ∈ payloads, payload.2.length ≤ maxDataSize)
    (hcount : payloads.length < 2 ^ 32) {bound : Nat} (hnet : net.length ≤ bound)
    (calls : List Nat) :
    let results := (s.recvAll net calls).filterMap id
    let whole := ((payloads.drop k).map Prod.snd).takeWhile (· ≠ [])
    results <+: whole ∧ (whole.length ≤ calls.countP (bound ≤ ·) → results = whole) := by
  induction calls generalizing s net k with
  | nil =>
      refine ⟨List.nil_prefix, fun hcalls => ?_⟩
      exact (List.length_eq_zero_iff.mp (Nat.le_zero.mp hcalls)).symm
  | cons patience calls ih =>
      obtain ⟨hlen, hresult⟩ := hs.recv hsize hcount patience
      have hnet' := Nat.le_trans hlen hnet
      obtain ⟨hnone, hrest, hstuck⟩ | ⟨payload, hpayload, hne, hsome, hrest⟩ := hresult
      · obtain ⟨hsafe, hall⟩ := ih hrest hnet'
        simp only [ReliableUdp.recvAll, hnone, List.filterMap_cons_none, id_eq]
        refine ⟨hsafe, fun hcalls => hall ?_⟩
        by_cases hpatience : bound ≤ patience
        · -- only before an empty payload, or after the last, can such a call time out
          have hnothing : ((payloads.drop k).map Prod.snd).takeWhile (· ≠ []) = [] := by
            cases hhead : payloads.drop k with
            | nil => rfl
            | cons payload rest =>
                have hpayload : payloads[k]? = some payload := by
                  rw [← List.head?_drop, hhead]
                  rfl
                have hempty := hstuck (Nat.le_trans hnet hpatience) payload hpayload
                rw [List.map_cons, List.takeWhile_cons_of_neg (by simpa using hempty)]
          rw [hnothing]
          exact Nat.zero_le _
        · rwa [List.countP_cons_of_neg (by simpa using hpatience)] at hcalls
      · obtain ⟨hpre, hall⟩ := ih hrest hnet'
        obtain ⟨hk, rfl⟩ := List.getElem?_eq_some_iff.mp hpayload
        have hwhole : ((payloads.drop k).map Prod.snd).takeWhile (· ≠ []) =
            payloads[k].2 ::
              ((payloads.drop (k + 1)).map Prod.snd).takeWhile (· ≠ []) := by
          rw [List.drop_eq_getElem_cons hk, List.map_cons,
            List.takeWhile_cons_of_pos (by simpa using hne)]
        have hcons : (s.recvAll net (patience :: calls)).filterMap id =
            payloads[k].2 :: ((s.recv patience net).2.1.recvAll (s.recv patience net).2.2
              calls).filterMap id := by
          simp only [ReliableUdp.recvAll, hsome]
          rfl
        rw [hcons, hwhole]
        refine ⟨List.cons_prefix_cons.mpr ⟨rfl, hpre⟩, fun hcalls => ?_⟩
        refine congrArg (payloads[k].2 :: ·) (hall ?_)
        have hcount' := List.countP_cons (p := (bound ≤ ·)) (a := patience) (l := calls)
        rw [List.length_cons] at hcalls
        split at hcount' <;> omega

/-- Whatever is lost, repeated and reordered, `recv` returns the payloads in
order up to the first one that is lost or empty, all of these if enough calls
wait until everything has arrived, and nothing behind it. -/
theorem delivers_until_lost (payloads : List (UInt32 × List UInt8))
    (hsize : ∀ payload ∈ payloads, payload.2.length ≤ maxDataSize)
    (hcount : payloads.length < 2 ^ 32) (net : List (List UInt8))
    (hnet : Carries (init.sendAll payloads) net) (calls : List Nat) :
    let results := (init.recvAll net calls).filterMap id
    results <+: untilLost net 0 payloads ∧
      ((untilLost net 0 payloads).length ≤ calls.countP (net.length ≤ ·) →
        results = untilLost net 0 payloads) := by
  have hrun := (receiving_keepArrived hsize hnet).recvAll_takeWhile (size_keepArrived hsize)
    (by rwa [length_keepArrived]) (Nat.le_refl _) calls
  rwa [List.drop_zero, takeWhile_keepArrived] at hrun

/-- The third of four datagrams is lost, and the others come in another order
and twice. -/
def thirdLost : List (List UInt8) :=
  [datagram 3 (0, [4]), datagram 1 (7, [2]), init.sendAckOnly, datagram 1 (7, [2]),
    datagram 0 (0, [1])]

theorem delivers_until_lost_thirdLost :
    (init.recvAll thirdLost [0, 5, 5, 5, 5]).filterMap id = [[1], [2]] := by
  have hlost : untilLost thirdLost 0 [(0, [1]), (7, [2]), (0, [3]), (0, [4])] =
      [[1], [2]] := by
    decide
  rw [← hlost]
  refine (delivers_until_lost [(0, [1]), (7, [2]), (0, [3]), (0, [4])] (by decide)
    (by decide) thirdLost ?_ _).2 (by decide)
  intro wire hwire
  have hcases : ∀ wire ∈ thirdLost, wire ∈ init.sendAll [(0, [1]), (7, [2]), (0, [3]), (0, [4])] ∨
      wire = init.sendAckOnly := by
    decide
  exact (hcases wire hwire).imp_right fun hack => ⟨init, hack⟩

end ReliableUdp

end UltraNet
