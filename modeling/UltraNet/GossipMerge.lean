/-
`apply_gossip` of what `build_gossip` has written on another node: of each peer
the newer entry is kept.
-/
import UltraNet.GossipBytes
import UltraNet.NewestWins

namespace UltraNet

namespace NodeInfo

/-- The rank of an entry about a peer. -/
def seen (info : NodeInfo) : Nat := info.lastSeen.toNat

end NodeInfo

namespace Cluster

/-- The message of `build_gossip`. -/
def gossip (c : Cluster) (now : UInt64) : Gossip := ⟨c.id, c.liveNodes 3000 now⟩

/-- What the sender's message does to the receiver's peers: of every other peer
the newest entry is kept, the sender is seen now, the receiver itself is not
entered, and the same message again changes at most the sender's entry. -/
structure Merges (sender receiver : Cluster) (sent now again : UInt64) : Prop where
  inside : (receiver.applyGossipBytes (sender.buildGossip sent)
    now).leftMessage = false
  newest : ∀ id, id ≠ receiver.id → ∃ info,
    IsNewest NodeInfo.seen (receiver.peers.lookup id)
        ((sender.liveNodes 3000 sent).filter (·.id = id)) info ∧
      (receiver.applyGossipBytes (sender.buildGossip sent)
        now).cluster.peers.lookup id =
        if id = sender.id then info.map fun info => { info with lastSeen := now }
        else info
  self : (receiver.applyGossipBytes (sender.buildGossip sent)
    now).cluster.peers.lookup
    receiver.id = receiver.peers.lookup receiver.id
  twice : ∀ id, id ≠ sender.id →
    ((receiver.applyGossipBytes (sender.buildGossip sent)
      now).cluster.applyGossipBytes
        (sender.buildGossip sent) again).cluster.peers.lookup id =
      (receiver.applyGossipBytes (sender.buildGossip sent)
        now).cluster.peers.lookup id

variable {c : Cluster}

theorem applyNode_eq (c : Cluster) (node : NodeInfo) :
    c.applyNode node =
      if node.id = c.id then c
      else { c with peers := c.peers.offer NodeInfo.seen NodeInfo.id node } := by
  unfold applyNode Table.offer
  split
  · rfl
  · cases hknown : c.peers.lookup node.id with
    | none => rfl
    | some known =>
        have hrank : node.lastSeen > known.lastSeen ↔ known.seen < node.seen :=
          UInt64.lt_iff_toNat_lt
        simp only
        by_cases hnewer : known.seen < node.seen
        · rw [if_pos (hrank.mpr hnewer), if_pos hnewer]
        · rw [if_neg (mt hrank.mp hnewer), if_neg hnewer]

/-- The loop over the nodes is a fold of offers. -/
theorem foldl_applyNode (c : Cluster) (nodes : List NodeInfo) :
    nodes.foldl applyNode c =
      { c with
        peers := (nodes.filter (·.id ≠ c.id)).foldl
          (Table.offer NodeInfo.seen NodeInfo.id) c.peers } := by
  induction nodes generalizing c with
  | nil => rfl
  | cons node nodes ih =>
      rw [List.foldl_cons, applyNode_eq]
      by_cases hself : node.id = c.id
      · rw [if_pos hself, ih, List.filter_cons_of_neg (by simpa using hself)]
      · rw [if_neg hself, ih, List.filter_cons_of_pos (by simpa using hself)]
        rfl

/-- The peers after a message. -/
theorem applyGossip_id (c : Cluster) (message : Gossip) (now : UInt64) :
    (c.applyGossip message now).id = c.id := by
  rw [applyGossip, foldl_applyNode]

theorem isNewest_applyGossip (c : Cluster) (message : Gossip) (now : UInt64)
    {id : UInt64}
    (hid : id ≠ c.id) :
    ∃ info, IsNewest NodeInfo.seen (c.peers.lookup id)
        (message.nodes.filter (·.id = id)) info ∧
      (c.applyGossip message now).peers.lookup id =
        if id = message.srcId then info.map fun info => { info with lastSeen := now }
        else info := by
  refine ⟨((message.nodes.filter (·.id ≠ c.id)).foldl
    (Table.offer NodeInfo.seen NodeInfo.id) c.peers).lookup id, ?_, ?_⟩
  · have hnewest := c.peers.isNewest_offers NodeInfo.seen NodeInfo.id
      (message.nodes.filter (·.id ≠ c.id)) id
    have hsame : (message.nodes.filter (·.id ≠ c.id)).filter (·.id = id) =
        message.nodes.filter (·.id = id) := by
      rw [List.filter_filter]
      refine List.filter_congr fun node _ => ?_
      by_cases hnode : node.id = id
      · simp [hnode, hid]
      · simp [hnode]
    rwa [hsame] at hnewest
  · rw [applyGossip, foldl_applyNode, Table.lookup_modify]

theorem applyGossip_self (c : Cluster) (message : Gossip) (now : UInt64)
    (hsrc : message.srcId ≠ c.id) :
    (c.applyGossip message now).peers.lookup c.id = c.peers.lookup c.id := by
  have hnewest := c.peers.isNewest_offers NodeInfo.seen NodeInfo.id
    (message.nodes.filter (·.id ≠ c.id)) c.id
  have hnone : (message.nodes.filter (·.id ≠ c.id)).filter (·.id = c.id) = [] := by
    rw [List.filter_filter, List.filter_eq_nil_iff]
    simp
  rw [hnone] at hnewest
  rw [applyGossip, foldl_applyNode, Table.lookup_modify, if_neg (Ne.symm hsrc),
    hnewest.of_nil]

/-- The same message a second time. -/
theorem applyGossip_again (c : Cluster) (message : Gossip) (now again : UInt64)
    (hsrc : message.srcId ≠ c.id) {id : UInt64} (hid : id ≠ message.srcId) :
    ((c.applyGossip message now).applyGossip message again).peers.lookup id =
      (c.applyGossip message now).peers.lookup id := by
  have hsame := c.applyGossip_id message now
  by_cases hself : id = c.id
  · rw [hself, ← hsame]
    exact applyGossip_self _ message again (by rwa [hsame])
  · obtain ⟨info, hinfo, hlookup⟩ := c.isNewest_applyGossip message now hself
    obtain ⟨other, hother, hlast⟩ := (c.applyGossip message now).isNewest_applyGossip
      message again (by rwa [hsame])
    rw [if_neg hid] at hlookup hlast
    rw [hlookup] at hother ⊢
    rw [hlast]
    exact hinfo.again hother

/-- A message that can be encoded is read as it was written. -/
theorem merges_of_encodable {sender receiver : Cluster} {sent : UInt64}
    (hencodable : (sender.gossip sent).Encodable) (hids : receiver.id ≠ sender.id)
    (now again : UInt64) : sender.Merges receiver sent now again := by
  have hparse : Gossip.parse (sender.buildGossip sent) = some (sender.gossip sent) :=
    Gossip.parse_eq_some.mpr ⟨hencodable, [], (List.append_nil _).symm⟩
  have happly := fun (c : Cluster) (time : UInt64) =>
    (applyGossipBytes_eq c (sender.buildGossip sent) time).1 _ hparse
  have hsrc : (sender.gossip sent).srcId ≠ receiver.id := Ne.symm hids
  constructor
  · rw [happly]
  · intro id hid
    rw [happly]
    exact receiver.isNewest_applyGossip (sender.gossip sent) now hid
  · rw [happly]
    exact receiver.applyGossip_self (sender.gossip sent) now hsrc
  · intro id hid
    rw [happly, happly]
    exact receiver.applyGossip_again (sender.gossip sent) now again hsrc hid

/-- The sender knows of each node once. -/
theorem nodup_liveNodes {c : Cluster} (hkeyed : c.Keyed) (hself : c.self.id = c.id)
    (hown : c.peers.lookup c.id = none) (timeoutMs now : UInt64) :
    ((c.liveNodes timeoutMs now).map (·.id)).Nodup := by
  have hkeys : (c.peers.entries.map (·.2)).map (·.id) = c.peers.keys := by
    rw [List.map_map]
    refine List.map_congr_left fun entry hentry => ?_
    exact hkeyed entry.1 entry.2 ((Table.lookup_eq_some_iff _ _ _).mpr hentry)
  have hlive : (((c.peers.entries.map (·.2)).filter fun info =>
      now - info.lastSeen < timeoutMs).map (·.id)).Sublist c.peers.keys := by
    rw [← hkeys]
    exact List.filter_sublist.map _
  rw [liveNodes, List.map_cons, List.nodup_cons, hself]
  refine ⟨fun hmem => ?_, c.peers.keys_nodup.sublist hlive⟩
  have hkey := AList.lookup_eq_none.mp hown
  exact hkey (hlive.subset hmem)

theorem filter_id_eq {nodes : List NodeInfo} (hnodup : (nodes.map (·.id)).Nodup)
    {node : NodeInfo} (hnode : node ∈ nodes) :
    nodes.filter (·.id = node.id) = [node] := by
  induction nodes with
  | nil => cases hnode
  | cons first nodes ih =>
      rw [List.map_cons, List.nodup_cons] at hnodup
      obtain ⟨hfirst, hrest⟩ := hnodup
      obtain rfl | hmem := List.mem_cons.mp hnode
      · rw [List.filter_cons_of_pos (by simp), List.filter_eq_nil_iff.mpr]
        intro other hother hsame
        simp only [decide_eq_true_eq] at hsame
        exact hfirst (hsame ▸ List.mem_map_of_mem hother)
      · rw [List.filter_cons_of_neg, ih hrest hmem]
        simp only [decide_eq_true_eq]
        intro hsame
        exact hfirst (hsame ▸ List.mem_map_of_mem hmem)

/-- Only the time of an entry is renewed. -/
theorem map_addr_renewed (renewed : Prop) [Decidable renewed]
    (info : Option NodeInfo)
    (now : UInt64) :
    (if renewed then info.map fun info => { info with lastSeen := now }
      else info).map (·.addr) = info.map (·.addr) := by
  split
  · rw [Option.map_map]
    rfl
  · rfl

/-- A cluster that knows of no peer. -/
def fresh (id : UInt64) : Cluster := ⟨⟨id, [], 0⟩, id, ∅⟩

/-- If a fresh receiver has every node, each of them was read, address and
all. -/
theorem read_of_merges {sender : Cluster} {sent id : UInt64}
    (hnodup : ((sender.liveNodes 3000 sent).map (·.id)).Nodup)
    (hmerges : sender.Merges (fresh id) sent 0 0) :
    ∃ message, Gossip.parse (sender.buildGossip sent) = some message ∧
      ∀ node ∈ sender.liveNodes 3000 sent, node.id ≠ id →
        ∃ found ∈ message.nodes, found.id = node.id ∧ found.addr = node.addr := by
  obtain ⟨hread, hleft⟩ := applyGossipBytes_eq (fresh id) (sender.buildGossip sent) 0
  cases hparse : Gossip.parse (sender.buildGossip sent) with
  | none =>
      have hinside := hmerges.inside
      rw [hleft hparse] at hinside
      cases hinside
  | some message =>
      refine ⟨message, rfl, ?_⟩
      intro node hnode hother
      obtain ⟨info, hinfo, hlookup⟩ := hmerges.newest node.id hother
      obtain ⟨found, hfound, hsame⟩ :=
        (fresh id).isNewest_applyGossip message 0 hother
      rw [filter_id_eq hnodup hnode] at hinfo
      obtain rfl := hinfo.single
      rw [hread message hparse, hsame] at hlookup
      have haddr := congrArg (Option.map (·.addr)) hlookup
      rw [map_addr_renewed, map_addr_renewed] at haddr
      cases found with
      | none => cases haddr
      | some found =>
          have hmem := hfound.mem_of_none
          rw [List.mem_filter, decide_eq_true_eq] at hmem
          exact ⟨found, hmem.1, hmem.2, Option.some.inj haddr⟩

/-- The count in the message has 32 bits. -/
theorem count_of_parse {message read : Gossip}
    (hparse : Gossip.parse message.toBytes = some read) :
    read.nodes.length = message.nodes.length % 2 ^ 32 := by
  obtain ⟨hencodable, rest, hbytes⟩ := Gossip.parse_eq_some.mp hparse
  rw [Gossip.toBytes_eq, Gossip.toBytes_eq, List.append_assoc,
    List.append_assoc] at hbytes
  have hfields := (List.append_inj hbytes (by simp)).2
  have hcount := (List.append_inj hfields (by simp)).1
  have hnat := congrArg leNat hcount
  rw [leNat_leBytes, leNat_leBytes] at hnat
  have hfits := hencodable.nodes
  omega

theorem exists_other (first second : UInt64) :
    ∃ id, id ≠ first ∧ id ≠ second := by
  by_cases hzero : 0 ≠ first ∧ 0 ≠ second
  · exact ⟨0, hzero⟩
  · by_cases hone : 1 ≠ first ∧ 1 ≠ second
    · exact ⟨1, hone⟩
    · refine ⟨2, ?_⟩
      grind

/-- A sender whose message is merged by every fresh receiver has a message that
can be encoded. -/
theorem encodable_of_merges {sender : Cluster} {sent : UInt64}
    (hnodup : ((sender.liveNodes 3000 sent).map (·.id)).Nodup)
    (hmerges : ∀ id, id ≠ sender.id → sender.Merges (fresh id) sent 0 0) :
    (sender.gossip sent).Encodable := by
  constructor
  · obtain ⟨id, hid, -⟩ := exists_other sender.id sender.id
    obtain ⟨message, hparse, hread⟩ := read_of_merges hnodup (hmerges id hid)
    have hcount : message.nodes.length =
        (sender.liveNodes 3000 sent).length % 2 ^ 32 := count_of_parse hparse
    -- all ids but the receiver's are among those that were read
    have hsubset : ((sender.liveNodes 3000 sent).map (·.id)).erase id ⊆
        message.nodes.map (·.id) := by
      intro other hother
      obtain ⟨hne, hmem⟩ := hnodup.mem_erase_iff.mp hother
      obtain ⟨node, hnode, rfl⟩ := List.mem_map.mp hmem
      obtain ⟨found, hfound, hsame, -⟩ := hread node hnode hne
      exact List.mem_map.mpr ⟨found, hfound, hsame⟩
    have hlength := (List.subperm_of_subset (hnodup.erase id) hsubset).length_le
    rw [List.length_erase, List.length_map, List.length_map] at hlength
    change (sender.liveNodes 3000 sent).length < 2 ^ 32
    split at hlength
    · omega
    · omega
  · intro node hnode
    obtain ⟨id, hid, hne⟩ := exists_other sender.id node.id
    obtain ⟨message, hparse, hread⟩ := read_of_merges hnodup (hmerges id hid)
    obtain ⟨found, hfound, -, haddr⟩ := hread node hnode (Ne.symm hne)
    rw [← haddr]
    exact (Gossip.parse_eq_some.mp hparse).1.addrs found hfound

end Cluster

namespace ClusterNode

theorem self_run {selfId start : UInt64} {selfAddr : List UInt8} {node : ClusterNode}
    (word : List (UInt64 × ClusterCall))
    (hrun : (machine selfId selfAddr start).run word = some node) :
    node.cluster.self.id = node.cluster.id := by
  refine Machine.run_preserves _ (I := fun node =>
    node.cluster.self.id = node.cluster.id) rfl ?_ word hrun
  rintro node ⟨now, call⟩ next hself hstep
  obtain ⟨-, -, ⟨id, addr, -, hnext⟩ | ⟨data, message, -, -, hnext⟩⟩ :=
    step_cases hstep
  · rw [hnext]
    exact hself
  · rw [hnext, Cluster.applyGossip, Cluster.foldl_applyNode]
    exact hself

end ClusterNode

/-- Whatever a node has seen, its gossip is merged by every other one if the
counts in it fit their fields; and if every other one merges it, they fit. -/
theorem gossip_merges {selfId start : UInt64} {selfAddr : List UInt8}
    {node : ClusterNode} (word : List (UInt64 × ClusterCall))
    (hrun : (ClusterNode.machine selfId selfAddr start).run word = some node)
    (sent : UInt64) :
    ((node.cluster.gossip sent).Encodable →
        ∀ receiver now again, receiver.id ≠ node.cluster.id →
          node.cluster.Merges receiver sent now again) ∧
      (node.cluster.peers.lookup node.cluster.id = none →
        (∀ receiver now again, receiver.id ≠ node.cluster.id →
          node.cluster.Merges receiver sent now again) →
        (node.cluster.gossip sent).Encodable) := by
  constructor
  · intro hencodable receiver now again hids
    exact Cluster.merges_of_encodable hencodable hids now again
  · intro hown hmerges
    have hnodup := Cluster.nodup_liveNodes (ClusterNode.keyed_run word hrun)
      (ClusterNode.self_run word hrun) hown 3000 sent
    exact Cluster.encodable_of_merges hnodup fun id hid => hmerges _ 0 0 hid

/-- Node 1 has seen node 2, and tells node 3, which has seen it later. -/
theorem gossip_merges_threeNodes :
    ∃ node, (ClusterNode.machine 1 [0x61] 10).run [(20, .markSeen 2 [0x62])] =
        some node ∧
      node.cluster.Merges ⟨⟨3, [0x63], 5⟩, 3, (∅ : Table UInt64 NodeInfo).insert 2
        ⟨2, [0x64], 30⟩⟩ 25 40 50 := by
  have hrun : (ClusterNode.machine 1 [0x61] 10).run [(20, .markSeen 2 [0x62])] =
      some ⟨(Cluster.mk ⟨1, [0x61], 10⟩ 1 ∅).markSeen 2 [0x62] 20, 20⟩ := rfl
  exact ⟨_, hrun, (gossip_merges _ hrun 25).1 ⟨by decide, by decide⟩ _ 40 50
    (by decide)⟩

/-- An address of `2^32` bytes: its length is written as 0, and the receiver
does not get the entry. -/
theorem longAddress_unmerged :
    let sender : Cluster := ⟨⟨1, List.replicate (2 ^ 32) 0x61, 10⟩, 1, ∅⟩
    ¬ sender.Merges (Cluster.fresh 2) 25 0 0 := by
  intro sender hmerges
  have hlive : sender.liveNodes 3000 25 = [sender.self] := rfl
  obtain ⟨message, hparse, hread⟩ := Cluster.read_of_merges
    (by rw [hlive]; exact List.nodup_singleton _) hmerges
  obtain ⟨found, hfound, -, haddr⟩ := hread sender.self
    (by rw [hlive]; exact List.mem_singleton_self _)
    (show (1 : UInt64) ≠ 2 by decide)
  have hfits := (Gossip.parse_eq_some.mp hparse).1.addrs found hfound
  rw [haddr, List.length_replicate] at hfits
  exact Nat.lt_irrefl _ hfits

end UltraNet
