/-
The cluster view of a node: peers with the time they were last seen, gossip
that is applied to it, and the peers it takes to be alive.  Times are
milliseconds of the local clock; a read past the end of a message is undefined
and has no step.
-/
import UltraNet.AssocTable
import UltraNet.ByteOrder
import UltraNet.GuardedRun

namespace UltraNet

structure NodeInfo where
  id : UInt64
  addr : List UInt8
  lastSeen : UInt64
deriving DecidableEq

structure Cluster where
  self : NodeInfo
  id : UInt64
  peers : Table UInt64 NodeInfo

/-- A message of `build_gossip`. -/
structure Gossip where
  srcId : UInt64
  nodes : List NodeInfo
deriving DecidableEq

namespace Gossip

def takeU64 (data : List UInt8) : Option (UInt64 × List UInt8) :=
  if 8 ≤ data.length then some (readLeU64 data, data.drop 8) else none

def takeU32 (data : List UInt8) : Option (UInt32 × List UInt8) :=
  if 4 ≤ data.length then some (readLeU32 data, data.drop 4) else none

def readNode (data : List UInt8) : Option (NodeInfo × List UInt8) := do
  let (id, data) ← takeU64 data
  let (addrLen, data) ← takeU32 data
  if addrLen.toNat ≤ data.length then
    let (seen, rest) ← takeU64 (data.drop addrLen.toNat)
    some (⟨id, data.take addrLen.toNat, seen⟩, rest)
  else none

def readNodes : Nat → List UInt8 → Option (List NodeInfo)
  | 0, _ => some []
  | count + 1, data => do
      let (node, data) ← readNode data
      let nodes ← readNodes count data
      some (node :: nodes)

def parse (data : List UInt8) : Option Gossip := do
  let (srcId, data) ← takeU64 data
  let (count, data) ← takeU32 data
  let nodes ← readNodes count.toNat data
  some ⟨srcId, nodes⟩

/-- What `build_gossip` writes. -/
def toBytes (message : Gossip) : List UInt8 :=
  leBytes 8 message.srcId.toNat ++ leBytes 4 message.nodes.length ++
    message.nodes.flatMap fun node =>
      leBytes 8 node.id.toNat ++ leBytes 4 node.addr.length ++ node.addr ++
        leBytes 8 node.lastSeen.toNat

end Gossip

namespace Cluster

/-- `live_nodes` at the local time `now`; the subtraction wraps around. -/
def liveNodes (c : Cluster) (timeoutMs now : UInt64) : List NodeInfo :=
  c.self :: (c.peers.entries.map (·.2)).filter fun info =>
    now - info.lastSeen < timeoutMs

def buildGossip (c : Cluster) (now : UInt64) : List UInt8 :=
  Gossip.toBytes ⟨c.id, c.liveNodes 3000 now⟩

def markSeen (c : Cluster) (id : UInt64) (addr : List UInt8) (now : UInt64) :
    Cluster :=
  { c with peers := c.peers.insert id ⟨id, addr, now⟩ }

/-- One turn of the loop of `apply_gossip`. -/
def applyNode (c : Cluster) (node : NodeInfo) : Cluster :=
  if node.id = c.id then c
  else
    match c.peers.lookup node.id with
    | none => { c with peers := c.peers.insert node.id node }
    | some known =>
        if node.lastSeen > known.lastSeen then
          { c with peers := c.peers.insert node.id node }
        else c

def applyGossip (c : Cluster) (message : Gossip) (now : UInt64) : Cluster :=
  let c := message.nodes.foldl applyNode c
  { c with peers :=
      c.peers.modify message.srcId fun info => { info with lastSeen := now } }

end Cluster

inductive ClusterCall where
  | markSeen (id : UInt64) (addr : List UInt8)
  | applyGossip (data : List UInt8)

/-- The view with the local time of the last call. -/
structure ClusterNode where
  cluster : Cluster
  clock : UInt64

namespace ClusterNode

/-- A call at a local time; the clock does not go back. -/
def step (node : ClusterNode) : UInt64 × ClusterCall → Option ClusterNode
  | (now, call) =>
      if node.clock ≤ now then
        match call with
        | .markSeen id addr => some ⟨node.cluster.markSeen id addr now, now⟩
        | .applyGossip data =>
            (Gossip.parse data).map fun message =>
              ⟨node.cluster.applyGossip message now, now⟩
      else none

/-- The constructor `cluster`, at the local time `now`. -/
def machine (selfId : UInt64) (selfAddr : List UInt8) (now : UInt64) :
    Machine ClusterNode (UInt64 × ClusterCall) where
  start := ⟨⟨⟨selfId, selfAddr, now⟩, selfId, ∅⟩, now⟩
  step := step

end ClusterNode

/-- No entry about the peer carries a time ahead of the local clock. -/
def timely (peer : UInt64) : UInt64 × ClusterCall → Bool
  | (now, .applyGossip data) =>
      match Gossip.parse data with
      | some message => message.nodes.all fun node =>
          node.id = peer → node.lastSeen ≤ now
      | none => true
  | (_, .markSeen ..) => true

/-- The row of every peer carries the peer's id. -/
def Cluster.Keyed (c : Cluster) : Prop :=
  ∀ id info, c.peers.lookup id = some info → info.id = id

/-- The peer was seen between the two times. -/
def Cluster.SeenWithin (c : Cluster) (peer first last : UInt64) : Prop :=
  ∃ info, c.peers.lookup peer = some info ∧ info.id = peer ∧
    first ≤ info.lastSeen ∧ info.lastSeen ≤ last

namespace Cluster

theorem applyNode_cases (c : Cluster) (node : NodeInfo) :
    c.applyNode node = c ∨
      c.applyNode node = { c with peers := c.peers.insert node.id node } ∧
        ∀ known, c.peers.lookup node.id = some known →
          known.lastSeen < node.lastSeen := by
  unfold applyNode
  split
  · exact .inl rfl
  · split
    · rename_i hnone
      refine .inr ⟨rfl, ?_⟩
      intro known hknown
      rw [hnone] at hknown
      cases hknown
    · rename_i known hknown
      split
      · rename_i hnewer
        refine .inr ⟨rfl, ?_⟩
        intro other hother
        obtain rfl := Option.some.inj (hknown.symm.trans hother)
        exact hnewer
      · exact .inl rfl

theorem keyed_insert {c : Cluster} (hkeyed : c.Keyed) {id : UInt64}
    {info : NodeInfo} (hinfo : info.id = id) :
    Keyed { c with peers := c.peers.insert id info } := by
  intro other found hfound
  obtain ⟨hid, rfl⟩ | ⟨-, hold⟩ := Table.of_lookup_insert hfound
  · exact hinfo.trans hid.symm
  · exact hkeyed other found hold

theorem keyed_applyNode {c : Cluster} (hkeyed : c.Keyed) (node : NodeInfo) :
    (c.applyNode node).Keyed := by
  obtain heq | ⟨heq, -⟩ := c.applyNode_cases node
  · rw [heq]
    exact hkeyed
  · rw [heq]
    exact keyed_insert hkeyed rfl

theorem keyed_applyGossip {c : Cluster} (hkeyed : c.Keyed) (message : Gossip)
    (now : UInt64) : (c.applyGossip message now).Keyed := by
  have hnodes : ∀ (nodes : List NodeInfo) (c : Cluster), c.Keyed →
      (nodes.foldl applyNode c).Keyed := by
    intro nodes
    induction nodes with
    | nil => exact fun c hc => hc
    | cons node nodes ih => exact fun c hc => ih _ (keyed_applyNode hc node)
  intro id info hinfo
  simp only [applyGossip, Table.lookup_modify] at hinfo
  split at hinfo
  · obtain ⟨old, hold, rfl⟩ := Option.map_eq_some_iff.mp hinfo
    exact hnodes _ c hkeyed id old hold
  · exact hnodes _ c hkeyed id info hinfo

theorem lookup_applyNode_ne (c : Cluster) {node : NodeInfo} {peer : UInt64}
    (hpeer : peer ≠ node.id) :
    (c.applyNode node).peers.lookup peer = c.peers.lookup peer := by
  obtain heq | ⟨heq, -⟩ := c.applyNode_cases node
  · rw [heq]
  · rw [heq, Table.lookup_insert, if_neg hpeer]

theorem isSome_applyNode {c : Cluster} {peer : UInt64}
    (hknown : (c.peers.lookup peer).isSome) (node : NodeInfo) :
    ((c.applyNode node).peers.lookup peer).isSome := by
  obtain heq | ⟨heq, -⟩ := c.applyNode_cases node
  · rwa [heq]
  · rw [heq, Table.lookup_insert]
    split
    · rfl
    · exact hknown

theorem isSome_foldl_applyNode {c : Cluster} {peer : UInt64}
    (hknown : (c.peers.lookup peer).isSome) (nodes : List NodeInfo) :
    ((nodes.foldl applyNode c).peers.lookup peer).isSome := by
  induction nodes generalizing c with
  | nil => exact hknown
  | cons node nodes ih => exact ih (isSome_applyNode hknown node)

/-- Gossip of a known peer marks it as seen. -/
theorem seenWithin_of_source {c : Cluster} (hkeyed : c.Keyed)
    (message : Gossip) (now : UInt64)
    (hknown : (c.peers.lookup message.srcId).isSome) :
    (c.applyGossip message now).SeenWithin message.srcId now now := by
  obtain ⟨info, hinfo⟩ := Option.isSome_iff_exists.mp
    (isSome_foldl_applyNode hknown message.nodes)
  have hfound : (c.applyGossip message now).peers.lookup message.srcId =
      some { info with lastSeen := now } := by
    simp [applyGossip, Table.lookup_modify, hinfo]
  exact ⟨_, hfound, keyed_applyGossip hkeyed message now _ _ hfound,
    UInt64.le_refl now, UInt64.le_refl now⟩

namespace SeenWithin

variable {c : Cluster} {peer first last now : UInt64}

theorem mono (hseen : c.SeenWithin peer first last) (hlast : last ≤ now) :
    c.SeenWithin peer first now := by
  obtain ⟨info, hinfo, hid, hfirst, hend⟩ := hseen
  exact ⟨info, hinfo, hid, hfirst, UInt64.le_trans hend hlast⟩

theorem markSeen (hseen : c.SeenWithin peer first now) (id : UInt64)
    (addr : List UInt8) :
    (c.markSeen id addr now).SeenWithin peer first now := by
  obtain ⟨info, hinfo, hid, hfirst, hlast⟩ := hseen
  simp only [SeenWithin, Cluster.markSeen, Table.lookup_insert]
  split
  · subst_vars
    exact ⟨_, rfl, rfl, UInt64.le_trans hfirst hlast, UInt64.le_refl now⟩
  · exact ⟨info, hinfo, hid, hfirst, hlast⟩

theorem applyNode (hseen : c.SeenWithin peer first now) {node : NodeInfo}
    (hnode : node.id = peer → node.lastSeen ≤ now) :
    (c.applyNode node).SeenWithin peer first now := by
  obtain ⟨info, hinfo, hid, hfirst, hlast⟩ := hseen
  by_cases hpeer : peer = node.id
  · subst hpeer
    obtain heq | ⟨heq, hnewer⟩ := c.applyNode_cases node
    · rw [heq]
      exact ⟨info, hinfo, hid, hfirst, hlast⟩
    · rw [heq]
      refine ⟨node, by simp, rfl, ?_, hnode rfl⟩
      exact UInt64.le_trans hfirst (UInt64.le_of_lt (hnewer info hinfo))
  · exact ⟨info, by rw [lookup_applyNode_ne c hpeer, hinfo], hid, hfirst, hlast⟩

theorem foldl_applyNode (hseen : c.SeenWithin peer first now)
    {nodes : List NodeInfo}
    (hnodes : ∀ node ∈ nodes, node.id = peer → node.lastSeen ≤ now) :
    (nodes.foldl Cluster.applyNode c).SeenWithin peer first now := by
  induction nodes generalizing c with
  | nil => exact hseen
  | cons node nodes ih =>
      apply ih (hseen.applyNode (hnodes node List.mem_cons_self))
      exact fun other hother => hnodes other (List.mem_cons_of_mem node hother)

theorem applyGossip (hseen : c.SeenWithin peer first now) {message : Gossip}
    (hnodes : ∀ node ∈ message.nodes, node.id = peer → node.lastSeen ≤ now) :
    (c.applyGossip message now).SeenWithin peer first now := by
  obtain ⟨info, hinfo, hid, hfirst, hlast⟩ := hseen.foldl_applyNode hnodes
  simp only [SeenWithin, Cluster.applyGossip, Table.lookup_modify]
  split
  · rw [hinfo, Option.map_some]
    exact ⟨_, rfl, hid, UInt64.le_trans hfirst hlast, UInt64.le_refl now⟩
  · exact ⟨info, hinfo, hid, hfirst, hlast⟩

end SeenWithin

/-- A peer that was seen within the timeout is alive. -/
theorem mem_liveNodes {c : Cluster} {peer first last : UInt64}
    (hseen : c.SeenWithin peer first last) {now timeoutMs : UInt64}
    (hlast : last ≤ now) (hnow : now.toNat < first.toNat + timeoutMs.toNat) :
    peer ∈ (c.liveNodes timeoutMs now).map (·.id) := by
  obtain ⟨info, hinfo, hid, hfirst, hend⟩ := hseen
  have hentry := (Table.lookup_eq_some_iff c.peers peer info).mp hinfo
  refine List.mem_map.mpr ⟨info, List.mem_cons_of_mem _ ?_, hid⟩
  refine List.mem_filter.mpr ⟨List.mem_map.mpr ⟨_, hentry, rfl⟩, ?_⟩
  have hle : info.lastSeen ≤ now := UInt64.le_trans hend hlast
  rw [decide_eq_true_eq, UInt64.lt_iff_toNat_lt, UInt64.toNat_sub_of_le _ _ hle]
  rw [UInt64.le_iff_toNat_le] at hfirst hle
  omega

end Cluster

namespace ClusterNode

variable {node next : ClusterNode} {now : UInt64} {call : ClusterCall}

theorem step_cases (hstep : node.step (now, call) = some next) :
    node.clock ≤ now ∧ next.clock = now ∧
      ((∃ id addr, call = .markSeen id addr ∧
          next.cluster = node.cluster.markSeen id addr now) ∨
        ∃ data message, call = .applyGossip data ∧
          Gossip.parse data = some message ∧
          next.cluster = node.cluster.applyGossip message now) := by
  simp only [step] at hstep
  split at hstep
  · rename_i hclock
    cases call with
    | markSeen id addr =>
        obtain rfl := Option.some.inj hstep
        exact ⟨hclock, rfl, .inl ⟨id, addr, rfl, rfl⟩⟩
    | applyGossip data =>
        obtain ⟨message, hparse, rfl⟩ := Option.map_eq_some_iff.mp hstep
        exact ⟨hclock, rfl, .inr ⟨data, message, rfl, hparse, rfl⟩⟩
  · cases hstep

theorem keyed_step (hkeyed : node.cluster.Keyed)
    (hstep : node.step (now, call) = some next) : next.cluster.Keyed := by
  obtain ⟨-, -, ⟨id, addr, -, hnext⟩ | ⟨data, message, -, -, hnext⟩⟩ :=
    step_cases hstep
  · rw [hnext]
    exact Cluster.keyed_insert hkeyed rfl
  · rw [hnext]
    exact Cluster.keyed_applyGossip hkeyed message now

theorem keyed_run {selfId start : UInt64} {selfAddr : List UInt8}
    (word : List (UInt64 × ClusterCall))
    (hrun : (machine selfId selfAddr start).run word = some node) :
    node.cluster.Keyed := by
  refine Machine.run_preserves _ (I := fun node => node.cluster.Keyed) ?_ ?_ word
    hrun
  · intro id info hinfo
    simp [machine] at hinfo
  · intro node action next hkeyed hstep
    exact keyed_step hkeyed hstep

theorem seenWithin_step {peer first : UInt64}
    (hseen : node.cluster.SeenWithin peer first node.clock)
    (htimely : timely peer (now, call) = true)
    (hstep : node.step (now, call) = some next) :
    next.cluster.SeenWithin peer first next.clock := by
  obtain ⟨hclock, hnext, hcall⟩ := step_cases hstep
  rw [hnext]
  obtain ⟨id, addr, -, hcluster⟩ | ⟨data, message, rfl, hparse, hcluster⟩ := hcall
  · rw [hcluster]
    exact (hseen.mono hclock).markSeen id addr
  · rw [hcluster]
    apply (hseen.mono hclock).applyGossip
    simpa [timely, hparse, ← imp_iff_not_or] using htimely

theorem seenWithin_run {selfId start peer first : UInt64}
    {selfAddr : List UInt8} {last : ClusterNode}
    (hseen : node.cluster.SeenWithin peer first node.clock)
    (word : List (UInt64 × ClusterCall))
    (hmeets : (machine selfId selfAddr start).MeetsFrom
      (fun _ action => timely peer action = true) node word)
    (hrun : (machine selfId selfAddr start).runFrom node word = some last) :
    last.cluster.SeenWithin peer first last.clock := by
  refine Machine.runFrom_invariant _
    (I := fun node => node.cluster.SeenWithin peer first node.clock) ?_ word
    hseen hmeets hrun
  intro node action next hseen htimely hstep
  exact seenWithin_step hseen htimely hstep

end ClusterNode

/-- After gossip of a known peer was applied at `t`, the peer stays alive for
the timeout, provided no entry about it that is applied meanwhile is ahead of
the local clock. -/
theorem peer_stays_live (selfId start : UInt64) (selfAddr : List UInt8)
    {before after : List (UInt64 × ClusterCall)} {node seen last : ClusterNode}
    (hbefore : (ClusterNode.machine selfId selfAddr start).run before = some node)
    {t : UInt64} {data : List UInt8} {message : Gossip}
    (hparse : Gossip.parse data = some message)
    (hknown : (node.cluster.peers.lookup message.srcId).isSome)
    (hstep : node.step (t, .applyGossip data) = some seen)
    (hmeets : (ClusterNode.machine selfId selfAddr start).MeetsFrom
      (fun _ action => timely message.srcId action = true) seen after)
    (hafter : (ClusterNode.machine selfId selfAddr start).runFrom seen after =
      some last)
    {now timeoutMs : UInt64} (hclock : last.clock ≤ now)
    (hnow : now.toNat < t.toNat + timeoutMs.toNat) :
    message.srcId ∈ (last.cluster.liveNodes timeoutMs now).map (·.id) := by
  have hkeyed := ClusterNode.keyed_run before hbefore
  obtain ⟨-, hclock', hcall⟩ := ClusterNode.step_cases hstep
  obtain ⟨id, addr, heq, -⟩ | ⟨_, found, heq, hfound, hcluster⟩ := hcall
  · cases heq
  cases heq
  obtain rfl := Option.some.inj (hfound.symm.trans hparse)
  have hseen : seen.cluster.SeenWithin found.srcId t seen.clock := by
    rw [hcluster, hclock']
    exact Cluster.seenWithin_of_source hkeyed found t hknown
  exact Cluster.mem_liveNodes (ClusterNode.seenWithin_run hseen after hmeets hafter)
    hclock hnow

/-- Node 1 at the local time 1000, when it has marked peer 2 as seen, and
after the gossip of peer 2. -/
def marked : ClusterNode :=
  ⟨Cluster.markSeen ⟨⟨1, [], 0⟩, 1, ∅⟩ 2 [] 1000, 1000⟩

def gossiped : ClusterNode :=
  ⟨marked.cluster.applyGossip ⟨2, []⟩ 1000, 1000⟩

/-- Node 3 has relayed what it knows of peer 2. -/
def relayed (lastSeen : UInt64) : ClusterNode :=
  ⟨gossiped.cluster.applyGossip ⟨3, [⟨2, [], lastSeen⟩]⟩ 1000, 1000⟩

theorem gossiped_step :
    marked.step (1000, .applyGossip (Gossip.toBytes ⟨2, []⟩)) = some gossiped := by
  have hparse : Gossip.parse (Gossip.toBytes ⟨2, []⟩) = some ⟨2, []⟩ := by
    decide
  simp [ClusterNode.step, hparse, marked, gossiped]

theorem relayed_step (lastSeen : UInt64)
    (hparse : Gossip.parse (Gossip.toBytes ⟨3, [⟨2, [], lastSeen⟩]⟩) =
      some ⟨3, [⟨2, [], lastSeen⟩]⟩) :
    gossiped.step
        (1000, .applyGossip (Gossip.toBytes ⟨3, [⟨2, [], lastSeen⟩]⟩)) =
      some (relayed lastSeen) := by
  simp [ClusterNode.step, hparse, gossiped, relayed]

theorem peer_stays_live_relayed :
    2 ∈ ((relayed 900).cluster.liveNodes 3000 3999).map (·.id) := by
  have hbefore : (ClusterNode.machine 1 [] 0).run [(1000, .markSeen 2 [])] =
      some marked := rfl
  have hgossip : Gossip.parse (Gossip.toBytes ⟨2, []⟩) = some ⟨2, []⟩ := by
    decide
  have hrelay : Gossip.parse (Gossip.toBytes ⟨3, [⟨2, [], 900⟩]⟩) =
      some ⟨3, [⟨2, [], 900⟩]⟩ := by
    decide
  have hafter : (ClusterNode.machine 1 [] 0).runFrom gossiped
      [(1000, .applyGossip (Gossip.toBytes ⟨3, [⟨2, [], 900⟩]⟩))] =
        some (relayed 900) := by
    rw [Machine.runFrom]
    simp only [ClusterNode.machine, relayed_step 900 hrelay]
    rfl
  have hmeets : (ClusterNode.machine 1 [] 0).MeetsFrom
      (fun _ action => timely 2 action = true) gossiped
      [(1000, .applyGossip (Gossip.toBytes ⟨3, [⟨2, [], 900⟩]⟩))] := by
    refine ⟨by decide, ?_⟩
    simp only [ClusterNode.machine, relayed_step 900 hrelay]
    trivial
  exact peer_stays_live 1 0 [] hbefore hgossip (by decide) gossiped_step
    hmeets hafter (by decide) (by decide)

/-- Node 3 has been up for longer, so what it relays of peer 2 is ahead of the
local clock, and the peer that has just sent gossip counts as dead. -/
theorem relayed_ahead_dead :
    (ClusterNode.machine 1 [] 0).run [(1000, .markSeen 2 [])] = some marked ∧
      (marked.cluster.peers.lookup 2).isSome ∧
      marked.step (1000, .applyGossip (Gossip.toBytes ⟨2, []⟩)) = some gossiped ∧
      gossiped.step (1000, .applyGossip (Gossip.toBytes ⟨3, [⟨2, [], 5000⟩]⟩)) =
        some (relayed 5000) ∧
      2 ∉ ((relayed 5000).cluster.liveNodes 3000 1000).map (·.id) := by
  refine ⟨rfl, by decide, gossiped_step, relayed_step 5000 ?_, ?_⟩
  · decide
  · decide

end UltraNet
