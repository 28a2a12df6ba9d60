/-
`apply_gossip` over the bytes of a message.  It never compares a read with the
length of the message, so that a message which is not complete is read past its
end, after the nodes before that place were applied.
-/
import UltraNet.Cluster

namespace UltraNet

namespace Gossip

def nodeBytes (node : NodeInfo) : List UInt8 :=
  leBytes 8 node.id.toNat ++ leBytes 4 node.addr.length ++ node.addr ++
    leBytes 8 node.lastSeen.toNat

/-- The counts fit their fields. -/
structure Encodable (message : Gossip) : Prop where
  nodes : message.nodes.length < 2 ^ 32
  addrs : ∀ node ∈ message.nodes, node.addr.length < 2 ^ 32

/-- Nothing of the documented layout is missing; bytes behind the last node
belong to no field. -/
def Complete (data : List UInt8) : Prop :=
  ∃ (message : Gossip) (rest : List UInt8), message.Encodable ∧
    data = message.toBytes ++ rest

theorem takeU64_eq_some {data rest : List UInt8} {value : UInt64} :
    takeU64 data = some (value, rest) ↔ data = leBytes 8 value.toNat ++ rest := by
  constructor
  · intro htake
    obtain ⟨hlong, hpair⟩ := Option.ite_none_right_eq_some.mp htake
    obtain ⟨hvalue, hrest⟩ := Prod.mk.inj (Option.some.inj hpair)
    rw [← hvalue, ← hrest, leBytes_readLeU64 hlong, List.take_append_drop]
  · rintro rfl
    rw [takeU64, if_pos (by simp), readLeU64_leBytes,
      List.drop_left' (length_leBytes 8 _)]

theorem takeU32_eq_some {data rest : List UInt8} {value : UInt32} :
    takeU32 data = some (value, rest) ↔ data = leBytes 4 value.toNat ++ rest := by
  constructor
  · intro htake
    obtain ⟨hlong, hpair⟩ := Option.ite_none_right_eq_some.mp htake
    obtain ⟨hvalue, hrest⟩ := Prod.mk.inj (Option.some.inj hpair)
    rw [← hvalue, ← hrest, leBytes_readLeU32 hlong, List.take_append_drop]
  · rintro rfl
    rw [takeU32, if_pos (by simp), readLeU32_leBytes, UInt32.ofNat_toNat,
      List.drop_left' (length_leBytes 4 _)]

theorem readNode_eq_some {data rest : List UInt8} {node : NodeInfo} :
    readNode data = some (node, rest) ↔
      node.addr.length < 2 ^ 32 ∧ data = nodeBytes node ++ rest := by
  constructor
  · intro hread
    rw [readNode] at hread
    obtain ⟨⟨id, data₁⟩, hid, hread⟩ := Option.bind_eq_some_iff.mp hread
    obtain ⟨⟨addrLen, data₂⟩, hlen, hread⟩ := Option.bind_eq_some_iff.mp hread
    obtain ⟨hfits, hread⟩ := Option.ite_none_right_eq_some.mp hread
    obtain ⟨⟨seen, tail⟩, hseen, hread⟩ := Option.bind_eq_some_iff.mp hread
    obtain ⟨rfl, rfl⟩ := Prod.mk.inj (Option.some.inj hread)
    have haddr : (data₂.take addrLen.toNat).length = addrLen.toNat := by
      rw [List.length_take]
      exact Nat.min_eq_left hfits
    refine ⟨by rw [haddr]; exact addrLen.toNat_lt, ?_⟩
    rw [takeU64_eq_some.mp hid, takeU32_eq_some.mp hlen, nodeBytes, haddr]
    simp only [List.append_assoc]
    rw [← takeU64_eq_some.mp hseen, List.take_append_drop]
  · rintro ⟨haddr, rfl⟩
    have hlen : (UInt32.ofNat node.addr.length).toNat = node.addr.length := by
      rw [UInt32.toNat_ofNat']
      exact Nat.mod_eq_of_lt haddr
    have hid : takeU64 (nodeBytes node ++ rest) = some (node.id,
        leBytes 4 node.addr.length ++ (node.addr ++
          (leBytes 8 node.lastSeen.toNat ++ rest))) :=
      takeU64_eq_some.mpr (by simp [nodeBytes])
    have hsize : takeU32 (leBytes 4 node.addr.length ++ (node.addr ++
        (leBytes 8 node.lastSeen.toNat ++ rest))) = some (UInt32.ofNat node.addr.length,
          node.addr ++ (leBytes 8 node.lastSeen.toNat ++ rest)) :=
      takeU32_eq_some.mpr (by rw [hlen])
    have hseen : takeU64 (leBytes 8 node.lastSeen.toNat ++ rest) =
        some (node.lastSeen, rest) := takeU64_eq_some.mpr rfl
    rw [readNode, hid, Option.bind_eq_bind, Option.bind_some]
    simp only [hsize, Option.bind_eq_bind, Option.bind_some, hlen,
      List.length_append,
      Nat.le_add_right, if_true, List.drop_left, hseen, List.take_left]

theorem readNodes_eq_some {count : Nat} {data : List UInt8} {nodes : List NodeInfo} :
    readNodes count data = some nodes ↔ nodes.length = count ∧
      (∀ node ∈ nodes, node.addr.length < 2 ^ 32) ∧
      ∃ rest, data = nodes.flatMap nodeBytes ++ rest := by
  induction count generalizing data nodes with
  | zero =>
      constructor
      · intro hread
        obtain rfl := Option.some.inj hread
        exact ⟨rfl, by simp, data, rfl⟩
      · rintro ⟨hlength, -, -⟩
        rw [List.length_eq_zero_iff.mp hlength]
        rfl
  | succ count ih =>
      constructor
      · intro hread
        rw [readNodes] at hread
        obtain ⟨⟨node, data₁⟩, hnode, hread⟩ := Option.bind_eq_some_iff.mp hread
        obtain ⟨others, hothers, hread⟩ := Option.bind_eq_some_iff.mp hread
        obtain rfl := Option.some.inj hread
        obtain ⟨haddr, hdata⟩ := readNode_eq_some.mp hnode
        obtain ⟨hlength, haddrs, rest, hrest⟩ := ih.mp hothers
        refine ⟨by rw [List.length_cons, hlength],
          List.forall_mem_cons.mpr ⟨haddr, haddrs⟩, rest, ?_⟩
        rw [hdata, hrest, List.flatMap_cons, List.append_assoc]
      · rintro ⟨hlength, haddrs, rest, rfl⟩
        cases nodes with
        | nil => exact absurd hlength (by simp)
        | cons node others =>
            obtain ⟨haddr, hothers⟩ := List.forall_mem_cons.mp haddrs
            have hnode : readNode ((node :: others).flatMap nodeBytes ++ rest) =
                some (node, others.flatMap nodeBytes ++ rest) :=
              readNode_eq_some.mpr
                ⟨haddr, by rw [List.flatMap_cons, List.append_assoc]⟩
            have hrest : readNodes count (others.flatMap nodeBytes ++ rest) =
                some others := ih.mpr ⟨Nat.succ.inj hlength, hothers, rest, rfl⟩
            rw [readNodes, hnode, Option.bind_eq_bind, Option.bind_some]
            simp only [hrest, Option.bind_eq_bind, Option.bind_some]

theorem toBytes_eq (message : Gossip) :
    message.toBytes = leBytes 8 message.srcId.toNat ++
      (leBytes 4 message.nodes.length ++ message.nodes.flatMap nodeBytes) := by
  rw [toBytes, List.append_assoc]
  rfl

/-- What is read is what was encoded. -/
theorem parse_eq_some {data : List UInt8} {message : Gossip} :
    parse data = some message ↔
      message.Encodable ∧ ∃ rest, data = message.toBytes ++ rest := by
  constructor
  · intro hparse
    rw [parse] at hparse
    obtain ⟨⟨srcId, data₁⟩, hsrc, hparse⟩ := Option.bind_eq_some_iff.mp hparse
    obtain ⟨⟨count, data₂⟩, hcount, hparse⟩ := Option.bind_eq_some_iff.mp hparse
    obtain ⟨nodes, hnodes, hparse⟩ := Option.bind_eq_some_iff.mp hparse
    obtain rfl := Option.some.inj hparse
    obtain ⟨hlength, haddrs, rest, hrest⟩ := readNodes_eq_some.mp hnodes
    refine ⟨⟨by rw [hlength]; exact count.toNat_lt, haddrs⟩, rest, ?_⟩
    rw [takeU64_eq_some.mp hsrc, takeU32_eq_some.mp hcount, hrest,
      toBytes_eq, hlength,
      List.append_assoc, List.append_assoc]
  · rintro ⟨⟨hlength, haddrs⟩, rest, rfl⟩
    have hlen : (UInt32.ofNat message.nodes.length).toNat =
        message.nodes.length := by
      rw [UInt32.toNat_ofNat']
      exact Nat.mod_eq_of_lt hlength
    have hsrc : takeU64 (message.toBytes ++ rest) = some (message.srcId,
        leBytes 4 message.nodes.length ++
          (message.nodes.flatMap nodeBytes ++ rest)) :=
      takeU64_eq_some.mpr (by rw [toBytes_eq, List.append_assoc, List.append_assoc])
    have hcount : takeU32 (leBytes 4 message.nodes.length ++
        (message.nodes.flatMap nodeBytes ++ rest)) =
          some (UInt32.ofNat message.nodes.length,
            message.nodes.flatMap nodeBytes ++ rest) :=
      takeU32_eq_some.mpr (by rw [hlen])
    have hnodes : readNodes message.nodes.length
        (message.nodes.flatMap nodeBytes ++ rest) = some message.nodes :=
      readNodes_eq_some.mpr ⟨rfl, haddrs, rest, rfl⟩
    rw [parse, hsrc, Option.bind_eq_bind, Option.bind_some]
    simp only [hcount, Option.bind_eq_bind, Option.bind_some, hlen, hnodes]

theorem complete_iff (data : List UInt8) :
    Complete data ↔ ∃ message, parse data = some message := by
  constructor
  · rintro ⟨message, rest, hencodable, hdata⟩
    exact ⟨message, parse_eq_some.mpr ⟨hencodable, rest, hdata⟩⟩
  · rintro ⟨message, hparse⟩
    obtain ⟨hencodable, rest, hdata⟩ := parse_eq_some.mp hparse
    exact ⟨message, rest, hencodable, hdata⟩

end Gossip

/-- The view after `apply_gossip`, or as it was when the first read left the
message. -/
structure Applied where
  cluster : Cluster
  leftMessage : Bool

namespace Cluster

/-- The loop of `apply_gossip`: a node is read and applied before the next. -/
def applyNodes (c : Cluster) : Nat → List UInt8 → Applied
  | 0, _ => ⟨c, false⟩
  | count + 1, data =>
      match Gossip.readNode data with
      | none => ⟨c, true⟩
      | some (node, data) => (c.applyNode node).applyNodes count data

def applyGossipBytes (c : Cluster) (data : List UInt8) (now : UInt64) : Applied :=
  match Gossip.takeU64 data with
  | none => ⟨c, true⟩
  | some (srcId, data) =>
      match Gossip.takeU32 data with
      | none => ⟨c, true⟩
      | some (count, data) =>
          let applied := c.applyNodes count.toNat data
          if applied.leftMessage then applied
          else
            ⟨{ applied.cluster with
                peers := applied.cluster.peers.modify srcId fun info =>
                  { info with lastSeen := now } }, false⟩

theorem applyNodes_eq (c : Cluster) (count : Nat) (data : List UInt8) :
    (∀ nodes, Gossip.readNodes count data = some nodes →
      c.applyNodes count data = ⟨nodes.foldl applyNode c, false⟩) ∧
    (Gossip.readNodes count data = none →
      (c.applyNodes count data).leftMessage = true) := by
  induction count generalizing c data with
  | zero =>
      refine ⟨fun nodes hread => ?_, fun hread => absurd hread
        (by simp [Gossip.readNodes])⟩
      obtain rfl := Option.some.inj hread
      rfl
  | succ count ih =>
      rw [Gossip.readNodes, applyNodes]
      cases hnode : Gossip.readNode data with
      | none => exact ⟨fun nodes hread => absurd hread (by simp), fun _ => rfl⟩
      | some found =>
          obtain ⟨node, rest⟩ := found
          obtain ⟨hdone, hleft⟩ := ih (c.applyNode node) rest
          simp only [Option.bind_eq_bind, Option.bind_some]
          cases hnodes : Gossip.readNodes count rest with
          | none =>
              refine ⟨fun nodes hread => ?_, fun _ => hleft hnodes⟩
              exact absurd hread (by simp)
          | some others =>
              refine ⟨fun nodes hread => ?_, fun hread => absurd hread (by simp)⟩
              obtain rfl := Option.some.inj hread
              exact hdone others hnodes

/-- A message that can be read is applied as a whole; any other is read past
its end. -/
theorem applyGossipBytes_eq (c : Cluster) (data : List UInt8) (now : UInt64) :
    (∀ message, Gossip.parse data = some message →
      c.applyGossipBytes data now = ⟨c.applyGossip message now, false⟩) ∧
    (Gossip.parse data = none → (c.applyGossipBytes data
      now).leftMessage = true) := by
  rw [Gossip.parse, applyGossipBytes]
  cases hsrc : Gossip.takeU64 data with
  | none => exact ⟨fun message hparse => absurd hparse (by simp), fun _ => rfl⟩
  | some found =>
      obtain ⟨srcId, data₁⟩ := found
      simp only [Option.bind_eq_bind, Option.bind_some]
      cases hcount : Gossip.takeU32 data₁ with
      | none => exact ⟨fun message hparse => absurd hparse (by simp), fun _ => rfl⟩
      | some found =>
          obtain ⟨count, data₂⟩ := found
          obtain ⟨hdone, hleft⟩ := applyNodes_eq c count.toNat data₂
          simp only [Option.bind_some]
          cases hnodes : Gossip.readNodes count.toNat data₂ with
          | none =>
              refine ⟨fun message hparse => absurd hparse (by simp), fun _ => ?_⟩
              rw [if_pos (hleft hnodes)]
              exact hleft hnodes
          | some nodes =>
              refine ⟨fun message hparse => ?_,
                fun hparse => absurd hparse (by simp)⟩
              obtain rfl := Option.some.inj hparse
              rw [hdone nodes hnodes]
              rfl

/-- The reads stay inside of complete messages and of no others. -/
theorem leftMessage_eq_false_iff (c : Cluster) (data : List UInt8) (now : UInt64) :
    (c.applyGossipBytes data now).leftMessage = false ↔ Gossip.Complete data := by
  obtain ⟨hdone, hleft⟩ := applyGossipBytes_eq c data now
  rw [Gossip.complete_iff]
  constructor
  · intro hinside
    cases hparse : Gossip.parse data with
    | none =>
        rw [hleft hparse] at hinside
        exact absurd hinside (by simp)
    | some message => exact ⟨message, rfl⟩
  · rintro ⟨message, hparse⟩
    rw [hdone message hparse]

/-- No read leaves the message, and a message that is not complete leaves the
peers as they were. -/
def GossipSafe (c : Cluster) (data : List UInt8) (now : UInt64) : Prop :=
  (c.applyGossipBytes data now).leftMessage = false ∧
    (¬ Gossip.Complete data → (c.applyGossipBytes data now).cluster.peers = c.peers)

/-- Both hold of complete messages and of no others. -/
theorem gossipSafe_iff (c : Cluster) (data : List UInt8) (now : UInt64) :
    c.GossipSafe data now ↔ Gossip.Complete data := by
  rw [GossipSafe, leftMessage_eq_false_iff]
  exact ⟨fun hsafe => hsafe.1, fun hcomplete =>
    ⟨hcomplete, fun hnot => absurd hcomplete hnot⟩⟩

/-- Two nodes are announced and the second is cut: the first is stored. -/
theorem cutGossip_stored :
    let c : Cluster := ⟨⟨1, [], 0⟩, 1, ∅⟩
    let node : NodeInfo := ⟨5, [0x61], 9⟩
    let data := (Gossip.toBytes ⟨2, [node, node]⟩).take 40
    (c.applyGossipBytes data 3).leftMessage = true ∧
      (c.applyGossipBytes data 3).cluster.peers.lookup 5 = some node ∧
      ¬ c.GossipSafe data 3 := by
  intro c node data
  have hleft : (c.applyGossipBytes data 3).leftMessage = true := by decide
  refine ⟨hleft, by decide, fun hsafe => ?_⟩
  rw [hsafe.1] at hleft
  exact absurd hleft (by decide)

end Cluster

end UltraNet
