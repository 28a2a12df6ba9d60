/-
Gossip between any number of nodes.  Every message that was built may arrive
at any node, at any later time, more than once or never; a node that has ended
only takes no more steps.  All nodes read the same steady clock, as processes
of one machine do; `relayed_ahead_dead` is about clocks that differ.
-/
import UltraNet.GossipMerge

namespace UltraNet

/-- A node has applied a message of another one. -/
structure Hearing where
  time : UInt64
  hearer : UInt64
  source : UInt64

/-- The nodes that were started and the messages that were built.  `heard` is
the history of the messages that were applied. -/
structure GossipNetwork where
  clock : UInt64
  nodes : Table UInt64 Cluster
  sent : List (List UInt8)
  heard : List Hearing

inductive GossipEvent where
  | start (id : UInt64) (addr : List UInt8)
  | gossip (id : UInt64)
  -- a node receives one of the messages
  | receive (id : UInt64) (message : Nat)
  | pass (now : UInt64)

namespace GossipNetwork

/-- There are fewer nodes, and shorter addresses, than 32 bits can count. -/
def step (s : GossipNetwork) : GossipEvent → Option GossipNetwork
  | .start id addr =>
      if s.nodes.lookup id = none ∧ s.nodes.size + 1 < 2 ^ 32 ∧ addr.length < 2 ^ 32 then
        some { s with nodes := s.nodes.insert id ⟨⟨id, addr, s.clock⟩, id, ∅⟩ }
      else none
  | .gossip id =>
      (s.nodes.lookup id).map fun c => { s with sent := s.sent ++ [c.buildGossip s.clock] }
  | .receive id message =>
      (s.nodes.lookup id).bind fun c =>
        s.sent[message]?.map fun data =>
          { s with
            nodes := s.nodes.insert id (c.applyGossipBytes data s.clock).cluster
            heard := s.heard ++ [⟨s.clock, id, readLeU64 data⟩] }
  | .pass now => if s.clock ≤ now then some { s with clock := now } else none

def machine (clock : UInt64) : Machine GossipNetwork GossipEvent :=
  ⟨⟨clock, ∅, [], []⟩, step⟩

/-- The node was seen at this time: it started then, or some node applied a
message of its. -/
def SeenAt (s : GossipNetwork) (id time : UInt64) : Prop :=
  (∃ p, s.nodes.lookup id = some p ∧ p.self.lastSeen = time) ∨
    ∃ h ∈ s.heard, h.source = id ∧ h.time = time

/-- An entry tells the address of a node that was started, and a time at which
that node was seen. -/
structure Genuine (s : GossipNetwork) (info : NodeInfo) : Prop where
  started : ∃ p, s.nodes.lookup info.id = some p ∧ p.self.addr = info.addr
  seen : s.SeenAt info.id info.lastSeen

/-- A node knows itself under its own id, and others by genuine entries. -/
structure KnowsTruth (s : GossipNetwork) (id : UInt64) (c : Cluster) : Prop where
  named : c.id = id
  self : c.self.id = id
  short : c.self.addr.length < 2 ^ 32
  started : c.self.lastSeen ≤ s.clock
  own : c.peers.lookup id = none
  keyed : c.Keyed
  genuine : ∀ peer info, c.peers.lookup peer = some info → s.Genuine info

/-- A message was built by a node that was started, from what it knew. -/
structure Honest (s : GossipNetwork) (message : Gossip) : Prop where
  encodable : message.Encodable
  source : ∃ p, s.nodes.lookup message.srcId = some p
  included : ∃ node ∈ message.nodes, node.id = message.srcId
  genuine : ∀ node ∈ message.nodes, s.Genuine node

structure Sound (s : GossipNetwork) : Prop where
  few : s.nodes.size < 2 ^ 32
  nodes : ∀ id c, s.nodes.lookup id = some c → s.KnowsTruth id c
  sent : ∀ data ∈ s.sent, ∃ message, data = Gossip.toBytes message ∧ s.Honest message
  past : ∀ h ∈ s.heard, h.time ≤ s.clock
  -- who was heard is remembered
  kept : ∀ h ∈ s.heard, h.source ≠ h.hearer →
    ∃ c info, s.nodes.lookup h.hearer = some c ∧ c.peers.lookup h.source = some info ∧
      h.time ≤ info.lastSeen

/-- Nodes keep their own row, and history grows. -/
structure Extends (s t : GossipNetwork) : Prop where
  nodes : ∀ id p, s.nodes.lookup id = some p →
    ∃ q, t.nodes.lookup id = some q ∧ q.self = p.self
  heard : s.heard ⊆ t.heard
  clock : s.clock ≤ t.clock

variable {s t : GossipNetwork} {id : UInt64} {c : Cluster} {info : NodeInfo}

theorem SeenAt.mono {time : UInt64} (hseen : s.SeenAt id time) (hext : s.Extends t) :
    t.SeenAt id time := by
  obtain ⟨p, hp, rfl⟩ | ⟨h, hh, hsource, htime⟩ := hseen
  · obtain ⟨q, hq, hself⟩ := hext.nodes id p hp
    exact .inl ⟨q, hq, by rw [hself]⟩
  · exact .inr ⟨h, hext.heard hh, hsource, htime⟩

theorem Genuine.mono (hinfo : s.Genuine info) (hext : s.Extends t) : t.Genuine info := by
  obtain ⟨p, hp, haddr⟩ := hinfo.started
  obtain ⟨q, hq, hself⟩ := hext.nodes _ p hp
  exact ⟨⟨q, hq, by rw [hself, haddr]⟩, hinfo.seen.mono hext⟩

theorem KnowsTruth.mono (hc : s.KnowsTruth id c) (hext : s.Extends t) : t.KnowsTruth id c :=
  { hc with
    started := UInt64.le_trans hc.started hext.clock
    genuine := fun peer info hinfo => (hc.genuine peer info hinfo).mono hext }

theorem Honest.mono {message : Gossip} (hmessage : s.Honest message) (hext : s.Extends t) :
    t.Honest message := by
  obtain ⟨p, hp⟩ := hmessage.source
  obtain ⟨q, hq, -⟩ := hext.nodes _ p hp
  exact { hmessage with
    source := ⟨q, hq⟩
    genuine := fun node hnode => (hmessage.genuine node hnode).mono hext }

/-- No time lies ahead of the clock. -/
theorem Sound.seenAt_le (hs : s.Sound) {time : UInt64} (hseen : s.SeenAt id time) :
    time ≤ s.clock := by
  obtain ⟨p, hp, rfl⟩ | ⟨h, hh, -, rfl⟩ := hseen
  · exact (hs.nodes id p hp).started
  · exact hs.past h hh

theorem KnowsTruth.self_genuine (hc : s.KnowsTruth id c) (hnode : s.nodes.lookup id = some c) :
    s.Genuine c.self := by
  have hid := hc.self
  refine ⟨⟨c, ?_, rfl⟩, .inl ⟨c, ?_, rfl⟩⟩
  · rw [hid]
    exact hnode
  · rw [hid]
    exact hnode

theorem KnowsTruth.live_genuine (hc : s.KnowsTruth id c) (hnode : s.nodes.lookup id = some c)
    {timeoutMs now : UInt64} {info : NodeInfo} (hinfo : info ∈ c.liveNodes timeoutMs now) :
    s.Genuine info := by
  obtain rfl | hpeer := List.mem_cons.mp hinfo
  · exact hc.self_genuine hnode
  · obtain ⟨entry, hentry, rfl⟩ := List.mem_map.mp (List.mem_filter.mp hpeer).1
    exact hc.genuine entry.1 entry.2 ((Table.lookup_eq_some_iff _ _ _).mpr hentry)

/-- Nobody knows more nodes than were started. -/
theorem KnowsTruth.length_live (hc : s.KnowsTruth id c) (hnode : s.nodes.lookup id = some c)
    (timeoutMs now : UInt64) : (c.liveNodes timeoutMs now).length ≤ s.nodes.size := by
  have hnodup : (id :: c.peers.keys).Nodup :=
    List.nodup_cons.mpr ⟨AList.lookup_eq_none.mp hc.own, c.peers.keys_nodup⟩
  have hsubset : id :: c.peers.keys ⊆ s.nodes.keys := by
    intro peer hpeer
    apply AList.mem_keys.mpr
    apply (Table.mem_iff_lookup s.nodes peer).mpr
    obtain rfl | hmem := List.mem_cons.mp hpeer
    · exact ⟨c, hnode⟩
    · obtain ⟨info, hinfo⟩ := (Table.mem_iff_lookup c.peers peer).mp (AList.mem_keys.mp hmem)
      obtain ⟨p, hp, -⟩ := (hc.genuine peer info hinfo).started
      rw [hc.keyed peer info hinfo] at hp
      exact ⟨p, hp⟩
  have hlength := (List.subperm_of_subset hnodup hsubset).length_le
  rw [List.length_cons, ← Table.size_eq_keys_length, ← Table.size_eq_keys_length] at hlength
  have hfilter : (c.liveNodes timeoutMs now).length ≤ c.peers.size + 1 := by
    have hle := List.length_filter_le (fun info => decide (now - info.lastSeen < timeoutMs))
      (c.peers.entries.map (·.2))
    rw [List.length_map] at hle
    exact Nat.succ_le_succ hle
  exact Nat.le_trans hfilter hlength

theorem Sound.honest (hs : s.Sound) (hnode : s.nodes.lookup id = some c) :
    s.Honest (c.gossip s.clock) := by
  have hc := hs.nodes id c hnode
  have hgenuine : ∀ node ∈ (c.gossip s.clock).nodes, s.Genuine node :=
    fun node hmem => hc.live_genuine hnode hmem
  refine ⟨⟨Nat.lt_of_le_of_lt (hc.length_live hnode _ _) hs.few, ?_⟩, ⟨c, ?_⟩,
    ⟨c.self, List.mem_cons_self, hc.self.trans hc.named.symm⟩, hgenuine⟩
  · intro node hmem
    obtain ⟨p, hp, haddr⟩ := (hgenuine node hmem).started
    rw [← haddr]
    exact (hs.nodes _ p hp).short
  · rw [show (c.gossip s.clock).srcId = c.id from rfl, hc.named]
    exact hnode

/-- What a message leaves of an entry about another node: the entry is genuine,
and no older than before; about the source of the message it is of this moment. -/
structure Learns (s : GossipNetwork) (c : Cluster) (message : Gossip) (peer : UInt64) : Prop where
  kept : ∀ known, c.peers.lookup peer = some known → ∃ info,
    (c.applyGossip message s.clock).peers.lookup peer = some info ∧
      known.lastSeen ≤ info.lastSeen
  entry : ∀ info, (c.applyGossip message s.clock).peers.lookup peer = some info →
    ∃ old, s.Genuine old ∧
      info = if peer = message.srcId then { old with lastSeen := s.clock } else old
  source : peer = message.srcId → ∃ info,
    (c.applyGossip message s.clock).peers.lookup peer = some info ∧ info.lastSeen = s.clock

/-- The newest entry is one of the entries. -/
theorem genuine_of_newest {old new : Option NodeInfo} {offered : List NodeInfo}
    (hnewest : IsNewest NodeInfo.seen old offered new)
    (hold : ∀ known, old = some known → s.Genuine known)
    (hoffered : ∀ row ∈ offered, s.Genuine row) {row : NodeInfo} (hrow : new = some row) :
    s.Genuine row := by
  subst hrow
  obtain hkept | ⟨hmem, -⟩ := hnewest.1
  · exact hold row hkept
  · exact hoffered row hmem

theorem newest_le {known : NodeInfo} {new : Option NodeInfo} {offered : List NodeInfo}
    (hnewest : IsNewest NodeInfo.seen (some known) offered new) :
    ∃ row, new = some row ∧ known.lastSeen ≤ row.lastSeen := by
  cases new with
  | none => cases hnewest.1
  | some row =>
      refine ⟨row, rfl, ?_⟩
      obtain hkept | ⟨-, hnewer⟩ := hnewest.1
      · rw [Option.some.inj hkept]
        exact UInt64.le_refl _
      · exact UInt64.le_of_lt (UInt64.lt_iff_toNat_lt.mpr (hnewer known rfl))

theorem newest_some {old new : Option NodeInfo} {offered : List NodeInfo} {row : NodeInfo}
    (hnewest : IsNewest NodeInfo.seen old offered new) (hrow : row ∈ offered) :
    ∃ found, new = some found := by
  cases new with
  | none =>
      rw [hnewest.2] at hrow
      cases hrow
  | some found => exact ⟨found, rfl⟩

theorem Sound.learns (hs : s.Sound) (hnode : s.nodes.lookup id = some c) {message : Gossip}
    (hmessage : s.Honest message) {peer : UInt64} (hpeer : peer ≠ id) :
    s.Learns c message peer := by
  have hc := hs.nodes id c hnode
  have hgenuine : ∀ row ∈ message.nodes.filter (·.id = peer), s.Genuine row :=
    fun row hrow => hmessage.genuine row (List.mem_of_mem_filter hrow)
  have hother : peer ≠ c.id := by
    rw [hc.named]
    exact hpeer
  obtain ⟨new, hnewest, hlookup⟩ := c.isNewest_applyGossip message s.clock hother
  have hrow : ∀ row, new = some row → s.Genuine row :=
    fun row => genuine_of_newest hnewest (hc.genuine peer) hgenuine
  refine ⟨?_, ?_, ?_⟩
  · intro known hknown
    rw [hknown] at hnewest
    obtain ⟨row, rfl, hle⟩ := newest_le hnewest
    rw [hlookup]
    by_cases hsource : peer = message.srcId
    · rw [if_pos hsource]
      exact ⟨_, rfl, hs.seenAt_le (hc.genuine peer known hknown).seen⟩
    · rw [if_neg hsource]
      exact ⟨row, rfl, hle⟩
  · intro info hinfo
    rw [hlookup] at hinfo
    by_cases hsource : peer = message.srcId
    · rw [if_pos hsource] at hinfo
      obtain ⟨row, hnew, rfl⟩ := Option.map_eq_some_iff.mp hinfo
      exact ⟨row, hrow row hnew, by rw [if_pos hsource]⟩
    · rw [if_neg hsource] at hinfo
      exact ⟨info, hrow info hinfo, by rw [if_neg hsource]⟩
  · intro hsource
    obtain ⟨node, hmem, hid⟩ := hmessage.included
    have hoffered : node ∈ message.nodes.filter (·.id = peer) := by
      refine List.mem_filter.mpr ⟨hmem, ?_⟩
      rw [decide_eq_true_eq, hid, hsource]
    obtain ⟨row, rfl⟩ := newest_some hnewest hoffered
    rw [hlookup, if_pos hsource]
    exact ⟨_, rfl, rfl⟩

/-- A message, its own included, says nothing to a node about itself. -/
theorem own_applyGossip (hown : c.peers.lookup c.id = none) (message : Gossip) (now : UInt64) :
    (c.applyGossip message now).peers.lookup c.id = none := by
  by_cases hsource : message.srcId = c.id
  · have hnodes : ∀ (nodes : List NodeInfo) (c : Cluster), c.peers.lookup c.id = none →
        (nodes.foldl Cluster.applyNode c).peers.lookup c.id = none := by
      intro nodes
      induction nodes with
      | nil => exact fun c hc => hc
      | cons node nodes ih =>
          intro c hc
          have hkept : (c.applyNode node).id = c.id ∧
              (c.applyNode node).peers.lookup c.id = none := by
            rw [Cluster.applyNode_eq]
            by_cases hself : node.id = c.id
            · rw [if_pos hself]
              exact ⟨rfl, hc⟩
            · rw [if_neg hself]
              refine ⟨rfl, ?_⟩
              exact (Table.lookup_offer_ne _ _ _ (Ne.symm hself)).trans hc
          have hrest := ih (c.applyNode node) (by rw [hkept.1]; exact hkept.2)
          rwa [hkept.1] at hrest
    rw [Cluster.applyGossip, Table.lookup_modify, if_pos hsource.symm, hnodes _ c hown]
    rfl
  · rw [c.applyGossip_self message now hsource]
    exact hown

theorem applyGossip_row (c : Cluster) (message : Gossip) (now : UInt64) :
    (c.applyGossip message now).self = c.self := by
  rw [Cluster.applyGossip, Cluster.foldl_applyNode]

/-- A node that has applied a message. -/
def heardBy (s : GossipNetwork) (id : UInt64) (c : Cluster) (message : Gossip) : GossipNetwork :=
  { s with
    nodes := s.nodes.insert id (c.applyGossip message s.clock)
    heard := s.heard ++ [⟨s.clock, id, message.srcId⟩] }

theorem extends_heardBy (hnode : s.nodes.lookup id = some c) (message : Gossip) :
    s.Extends (s.heardBy id c message) := by
  refine ⟨?_, List.subset_append_left _ _, UInt64.le_refl _⟩
  intro other p hp
  show ∃ q, (s.nodes.insert id (c.applyGossip message s.clock)).lookup other = some q ∧ _
  rw [Table.lookup_insert]
  by_cases hother : other = id
  · rw [if_pos hother]
    rw [hother, hnode] at hp
    obtain rfl := Option.some.inj hp
    exact ⟨_, rfl, applyGossip_row c message s.clock⟩
  · rw [if_neg hother]
    exact ⟨p, hp, rfl⟩

theorem Sound.heardBy_knows (hs : s.Sound) (hnode : s.nodes.lookup id = some c)
    {message : Gossip} (hmessage : s.Honest message) :
    (s.heardBy id c message).KnowsTruth id (c.applyGossip message s.clock) := by
  have hc := hs.nodes id c hnode
  have hext := extends_heardBy hnode message
  have hrow := applyGossip_row c message s.clock
  refine ⟨?_, ?_, ?_, ?_, ?_, Cluster.keyed_applyGossip hc.keyed message s.clock, ?_⟩
  · rw [Cluster.applyGossip_id]
    exact hc.named
  · rw [hrow]
    exact hc.self
  · rw [hrow]
    exact hc.short
  · rw [hrow]
    exact hc.started
  · have hown := hc.own
    rw [← hc.named] at hown ⊢
    exact own_applyGossip hown message s.clock
  · intro peer info hinfo
    by_cases hpeer : peer = id
    · have hown := hc.own
      rw [← hc.named] at hown
      have hnone := own_applyGossip hown message s.clock
      rw [hpeer, ← hc.named, hnone] at hinfo
      cases hinfo
    · obtain ⟨old, hold, rfl⟩ := (hs.learns hnode hmessage hpeer).entry info hinfo
      have hkeyed := Cluster.keyed_applyGossip hc.keyed message s.clock peer _ hinfo
      by_cases hsource : peer = message.srcId
      · rw [if_pos hsource] at hkeyed ⊢
        refine ⟨(hold.mono hext).started, .inr ⟨⟨s.clock, id, message.srcId⟩, ?_, ?_, rfl⟩⟩
        · exact List.mem_append_right _ List.mem_cons_self
        · exact hsource.symm.trans hkeyed.symm
      · rw [if_neg hsource]
        exact hold.mono hext

theorem Sound.heardBy (hs : s.Sound) (hnode : s.nodes.lookup id = some c) {message : Gossip}
    (hmessage : s.Honest message) : (s.heardBy id c message).Sound := by
  have hext := extends_heardBy hnode message
  have hknows := hs.heardBy_knows hnode hmessage
  have hlookup : ∀ other, (s.heardBy id c message).nodes.lookup other =
      if other = id then some (c.applyGossip message s.clock) else s.nodes.lookup other :=
    fun other => Table.lookup_insert _ _ _ _
  refine ⟨?_, ?_, ?_, ?_, ?_⟩
  · have hsize := Table.size_insert_of_mem s.nodes (c.applyGossip message s.clock)
      ((Table.mem_iff_lookup _ _).mpr ⟨c, hnode⟩)
    exact lt_of_eq_of_lt hsize hs.few
  · intro other p hp
    rw [hlookup] at hp
    by_cases hother : other = id
    · rw [if_pos hother] at hp
      obtain rfl := Option.some.inj hp
      rw [hother]
      exact hknows
    · rw [if_neg hother] at hp
      exact (hs.nodes other p hp).mono hext
  · intro data hdata
    obtain ⟨built, hbytes, hbuilt⟩ := hs.sent data hdata
    exact ⟨built, hbytes, hbuilt.mono hext⟩
  · intro h hh
    obtain hold | hnew := List.mem_append.mp hh
    · exact hs.past h hold
    · obtain rfl := List.mem_singleton.mp hnew
      exact UInt64.le_refl _
  · intro h hh hother
    obtain hold | hnew := List.mem_append.mp hh
    · obtain ⟨p, info, hp, hinfo, hle⟩ := hs.kept h hold hother
      by_cases hhearer : h.hearer = id
      · rw [hhearer, hnode] at hp
        obtain rfl := Option.some.inj hp
        obtain ⟨newer, hnewer, hlater⟩ :=
          (hs.learns hnode hmessage (hhearer ▸ hother)).kept info hinfo
        refine ⟨_, newer, ?_, hnewer, UInt64.le_trans hle hlater⟩
        rw [hlookup, if_pos hhearer]
      · refine ⟨p, info, ?_, hinfo, hle⟩
        rw [hlookup, if_neg hhearer]
        exact hp
    · obtain rfl := List.mem_singleton.mp hnew
      obtain ⟨info, hinfo, hnow⟩ := (hs.learns hnode hmessage hother).source rfl
      refine ⟨_, info, ?_, hinfo, ?_⟩
      · rw [hlookup, if_pos rfl]
      · rw [hnow]
        exact UInt64.le_refl _

/-- A step that leaves the nodes and their history alone. -/
theorem Sound.later (hs : s.Sound) (hnodes : t.nodes = s.nodes) (hheard : t.heard = s.heard)
    (hclock : s.clock ≤ t.clock)
    (hsent : ∀ data ∈ t.sent, data ∈ s.sent ∨
      ∃ message, data = Gossip.toBytes message ∧ s.Honest message) : t.Sound := by
  have hext : s.Extends t := by
    refine ⟨fun other p hp => ⟨p, by rw [hnodes]; exact hp, rfl⟩, ?_, hclock⟩
    rw [hheard]
    exact List.Subset.refl _
  refine ⟨by rw [hnodes]; exact hs.few, ?_, ?_, ?_, ?_⟩
  · intro other p hp
    rw [hnodes] at hp
    exact (hs.nodes other p hp).mono hext
  · intro data hdata
    obtain hold | ⟨message, hbytes, hhonest⟩ := hsent data hdata
    · obtain ⟨message, hbytes, hhonest⟩ := hs.sent data hold
      exact ⟨message, hbytes, hhonest.mono hext⟩
    · exact ⟨message, hbytes, hhonest.mono hext⟩
  · intro h hh
    rw [hheard] at hh
    exact UInt64.le_trans (hs.past h hh) hclock
  · intro h hh hother
    rw [hheard] at hh
    rw [hnodes]
    exact hs.kept h hh hother

theorem Sound.start (hs : s.Sound) {addr : List UInt8} (hfresh : s.nodes.lookup id = none)
    (hfew : s.nodes.size + 1 < 2 ^ 32) (haddr : addr.length < 2 ^ 32) :
    Sound { s with nodes := s.nodes.insert id ⟨⟨id, addr, s.clock⟩, id, ∅⟩ } := by
  have hother : ∀ other p, s.nodes.lookup other = some p → other ≠ id := by
    rintro other p hp rfl
    rw [hfresh] at hp
    cases hp
  have hext : s.Extends { s with nodes := s.nodes.insert id ⟨⟨id, addr, s.clock⟩, id, ∅⟩ } := by
    refine ⟨fun other p hp => ⟨p, ?_, rfl⟩, List.Subset.refl _, UInt64.le_refl _⟩
    show (s.nodes.insert id _).lookup other = some p
    rw [Table.lookup_insert, if_neg (hother other p hp)]
    exact hp
  refine ⟨?_, ?_, ?_, hs.past, ?_⟩
  · have hsize := Table.size_insert_of_not_mem s.nodes
      (⟨⟨id, addr, s.clock⟩, id, ∅⟩ : Cluster) (AList.lookup_eq_none.mp hfresh)
    exact lt_of_eq_of_lt hsize hfew
  · intro other p hp
    obtain ⟨rfl, rfl⟩ | ⟨-, hold⟩ := Table.of_lookup_insert hp
    · refine ⟨rfl, rfl, haddr, UInt64.le_refl _, rfl, ?_, ?_⟩
      · exact fun peer info hinfo => by simp at hinfo
      · exact fun peer info hinfo => by simp at hinfo
    · exact (hs.nodes other p hold).mono hext
  · intro data hdata
    obtain ⟨message, hbytes, hhonest⟩ := hs.sent data hdata
    exact ⟨message, hbytes, hhonest.mono hext⟩
  · intro h hh hsource
    obtain ⟨p, info, hp, hinfo, hle⟩ := hs.kept h hh hsource
    refine ⟨p, info, ?_, hinfo, hle⟩
    show (s.nodes.insert id _).lookup h.hearer = some p
    rw [Table.lookup_insert, if_neg (hother _ p hp)]
    exact hp

/-- A message that was built is read back as it was. -/
theorem Honest.applied {message : Gossip} (hmessage : s.Honest message) (c : Cluster)
    (now : UInt64) : c.applyGossipBytes message.toBytes now = ⟨c.applyGossip message now, false⟩ := by
  have hparse : Gossip.parse message.toBytes = some message :=
    Gossip.parse_eq_some.mpr ⟨hmessage.encodable, [], (List.append_nil _).symm⟩
  exact (Cluster.applyGossipBytes_eq c message.toBytes now).1 message hparse

theorem readLeU64_toBytes (message : Gossip) : readLeU64 message.toBytes = message.srcId := by
  rw [Gossip.toBytes_eq, readLeU64_leBytes]

theorem Sound.step (hs : s.Sound) {event : GossipEvent} (hstep : s.step event = some t) :
    t.Sound := by
  cases event with
  | start id addr =>
      obtain ⟨⟨hfresh, hfew, haddr⟩, hnext⟩ := Option.ite_none_right_eq_some.mp hstep
      obtain rfl := Option.some.inj hnext
      exact hs.start hfresh hfew haddr
  | gossip id =>
      obtain ⟨c, hnode, rfl⟩ := Option.map_eq_some_iff.mp hstep
      refine hs.later rfl rfl (UInt64.le_refl _) fun data hdata => ?_
      refine (List.mem_append.mp hdata).imp_right fun hnew => ?_
      exact ⟨c.gossip s.clock, List.mem_singleton.mp hnew, hs.honest hnode⟩
  | receive id index =>
      obtain ⟨c, hnode, hnext⟩ := Option.bind_eq_some_iff.mp hstep
      obtain ⟨data, hdata, rfl⟩ := Option.map_eq_some_iff.mp hnext
      obtain ⟨message, rfl, hmessage⟩ := hs.sent data (List.mem_of_getElem? hdata)
      rw [hmessage.applied, readLeU64_toBytes]
      exact hs.heardBy hnode hmessage
  | pass now =>
      obtain ⟨hclock, hnext⟩ := Option.ite_none_right_eq_some.mp hstep
      obtain rfl := Option.some.inj hnext
      exact hs.later rfl rfl hclock fun data hdata => .inl hdata

theorem sound_start (clock : UInt64) : (machine clock).start.Sound := by
  refine ⟨?_, ?_, nofun, nofun, nofun⟩
  · show (0 : Nat) < 2 ^ 32
    decide
  · exact fun id c hnode => by simp [machine] at hnode

/-- A node lists itself and nodes that are started, under their own addresses;
whoever it lists was seen by somebody within the timeout. -/
structure Detects (s : GossipNetwork) (id : UInt64) (c : Cluster) (timeoutMs : UInt64) : Prop where
  started : ∀ info ∈ c.liveNodes timeoutMs s.clock,
    ∃ p, s.nodes.lookup info.id = some p ∧ p.self.addr = info.addr
  recent : ∀ info ∈ c.liveNodes timeoutMs s.clock, info.id ≠ id →
    ∃ time, s.SeenAt info.id time ∧ s.clock.toNat < time.toNat + timeoutMs.toNat
  listed : ∀ h ∈ s.heard, h.hearer = id → h.source ≠ id →
    s.clock.toNat < h.time.toNat + timeoutMs.toNat →
    h.source ∈ (c.liveNodes timeoutMs s.clock).map (·.id)

theorem Sound.detects (hs : s.Sound) (hnode : s.nodes.lookup id = some c) (timeoutMs : UInt64) :
    s.Detects id c timeoutMs := by
  have hc := hs.nodes id c hnode
  refine ⟨fun info hinfo => (hc.live_genuine hnode hinfo).started, ?_, ?_⟩
  · intro info hinfo hother
    have hgenuine := hc.live_genuine hnode hinfo
    refine ⟨info.lastSeen, hgenuine.seen, ?_⟩
    obtain rfl | hpeer := List.mem_cons.mp hinfo
    · exact absurd hc.self hother
    · have hlive := (List.mem_filter.mp hpeer).2
      have hle := hs.seenAt_le hgenuine.seen
      rw [decide_eq_true_eq, UInt64.lt_iff_toNat_lt, UInt64.toNat_sub_of_le _ _ hle] at hlive
      omega
  · intro h hh hhearer hsource hrecent
    obtain ⟨p, info, hp, hinfo, hle⟩ := hs.kept h hh (hhearer ▸ hsource)
    rw [hhearer, hnode] at hp
    obtain rfl := Option.some.inj hp
    have hseen : c.SeenWithin h.source h.time s.clock :=
      ⟨info, hinfo, hc.keyed _ _ hinfo, hle, hs.seenAt_le (hc.genuine _ _ hinfo).seen⟩
    exact Cluster.mem_liveNodes hseen (UInt64.le_refl _) hrecent

end GossipNetwork

/-- Gossip as a failure detector, in every run: no message is read outside its
bytes, every node that anybody lists was started, under that address, and was
seen by somebody within the timeout, so that a node which has ended is listed
nowhere once its last message is as old as that; and a node lists every other
one that it has heard within the timeout, whatever the others say of it. -/
theorem gossip_detects (clock : UInt64) (word : List GossipEvent) {last : GossipNetwork}
    (hrun : (GossipNetwork.machine clock).run word = some last) :
    (∀ data ∈ last.sent, ∀ c : Cluster,
      (c.applyGossipBytes data last.clock).leftMessage = false) ∧
      ∀ id c, last.nodes.lookup id = some c → ∀ timeoutMs, last.Detects id c timeoutMs := by
  have hs : last.Sound := (GossipNetwork.machine clock).run_preserves
    (I := GossipNetwork.Sound) (GossipNetwork.sound_start clock)
    (fun _ _ _ hs hstep => hs.step hstep) word hrun
  refine ⟨?_, fun id c hnode timeoutMs => hs.detects hnode timeoutMs⟩
  intro data hdata c
  obtain ⟨message, rfl, hmessage⟩ := hs.sent data hdata
  rw [hmessage.applied]

/-- Node 1 hears node 2 and tells node 3 of it; then node 2 is silent. -/
def silentNode : List GossipEvent :=
  [.start 1 [0x61], .start 2 [0x62], .pass 1000, .gossip 2, .receive 1 0, .gossip 1,
    .start 3 [0x63], .pass 2000, .receive 3 1, .pass 4500]

theorem gossip_detects_silentNode :
    ∃ last c, (GossipNetwork.machine 0).run silentNode = some last ∧
      last.nodes.lookup 3 = some c ∧
      (c.peers.lookup 2).map (·.lastSeen) = some 1000 ∧
      (c.liveNodes 3000 last.clock).map (·.id) = [3, 1] ∧ last.Detects 3 c 3000 := by
  have hend : ((GossipNetwork.machine 0).run silentNode).bind (fun last =>
      (last.nodes.lookup 3).map fun c =>
        ((c.peers.lookup 2).map (·.lastSeen), (c.liveNodes 3000 last.clock).map (·.id))) =
      some (some 1000, [3, 1]) := by
    decide
  obtain ⟨last, hrun, hlast⟩ := Option.bind_eq_some_iff.mp hend
  obtain ⟨c, hnode, hc⟩ := Option.map_eq_some_iff.mp hlast
  obtain ⟨hseen, hlive⟩ := Prod.mk.inj hc
  exact ⟨last, c, hrun, hnode, hseen, hlive,
    (gossip_detects 0 silentNode hrun).2 3 c hnode 3000⟩

end UltraNet
