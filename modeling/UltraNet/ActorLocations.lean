/-
Where actors are: `spawn` registers an actor and announces it, the other nodes
file what they hear, and `find` looks a name up.  Announcements may be lost,
repeated, delayed and reordered, and any other task of a node may run between
two steps of this.
-/
import UltraNet.GuardedRun
import UltraNet.HttpRoundTrips
import UltraNet.InboundFrames
import UltraNet.WireRoundTrips

namespace UltraNet

/-- What an actor is spawned under.  The name of a C++ type has no slash. -/
@[ext] structure ActorLabel where
  type : List UInt8
  name : List UInt8
  no_slash : slash ∉ type
  fits : type.length + name.length < 2 ^ 31
deriving DecidableEq

/-- `actor_uri::make_local` -/
def ActorUri.makeLocal (typeName actorName : List UInt8) : ActorUri :=
  ⟨[0x2A], typeName, actorName⟩

namespace ActorLabel

/-- The URI that `spawn` makes. -/
def here (label : ActorLabel) : ActorUri :=
  .makeLocal label.type label.name

/-- `actor_uri::make` -/
def on (label : ActorLabel) (id : UInt64) : ActorUri :=
  ⟨nodeText id, label.type, label.name⟩

end ActorLabel

section Texts

variable {label other : ActorLabel} {id second : UInt64}

theorem slash_nodeText (id : UInt64) : slash ∉ nodeText id :=
  decimalText_not_mem (by decide)

theorem parse_here (label : ActorLabel) : parseUriFromWire label.here.toBytes = label.here :=
  parseUriFromWire_toBytes (by decide : slash ∉ [(0x2A : UInt8)]) label.no_slash

theorem parse_on (label : ActorLabel) (id : UInt64) :
    parseUriFromWire (label.on id).toBytes = label.on id :=
  parseUriFromWire_toBytes (slash_nodeText id) label.no_slash

theorem nodeText_ne_any (id : UInt64) : nodeText id ≠ [0x2A] := by
  intro heq
  have hdigit : isDigit 0x2A = true := by
    apply isDigit_of_mem_decimalText (n := id.toNat)
    rw [← nodeText_eq, heq]
    exact List.mem_singleton_self _
  cases hdigit

theorem length_on (label : ActorLabel) (id : UInt64) :
    (label.on id).toBytes.length < 2 ^ 32 := by
  have hfits := label.fits
  have hnode : (nodeText id).length ≤ 30 := by
    rw [nodeText_eq]
    exact decimalText_length (lt_of_lt_of_le id.toNat_lt (by decide))
  simp only [ActorUri.toBytes, ActorLabel.on, List.length_append, uriScheme,
    List.length_cons, List.length_nil]
  omega

theorem here_ne_on : label.here.toBytes ≠ (other.on id).toBytes := by
  intro heq
  have hsame := congrArg parseUriFromWire heq
  rw [parse_here, parse_on] at hsame
  exact nodeText_ne_any id (congrArg ActorUri.node hsame).symm

theorem here_injective (heq : label.here.toBytes = other.here.toBytes) :
    label = other := by
  have hsame := congrArg parseUriFromWire heq
  rw [parse_here, parse_here] at hsame
  exact ActorLabel.ext (congrArg ActorUri.type hsame) (congrArg ActorUri.name hsame)

theorem on_injective (heq : (label.on id).toBytes = (other.on second).toBytes) :
    label = other ∧ id = second := by
  have hsame := congrArg parseUriFromWire heq
  rw [parse_on, parse_on] at hsame
  have htext : nodeText id = nodeText second := congrArg ActorUri.node hsame
  have hnumber := stoull_nodeText id
  rw [htext, stoull_nodeText] at hnumber
  exact ⟨ActorLabel.ext (congrArg ActorUri.type hsame) (congrArg ActorUri.name hsame),
    (Option.some.inj hnumber).symm⟩

end Texts

namespace ActorSystem

/-- The registry after `spawn`. -/
def spawn (s : ActorSystem) (uri : ActorUri) (actor : Nat) : ActorSystem :=
  { s with registry := s.registry.insert uri.toBytes (some ⟨uri, some actor⟩) }

/-- The URI that `publish_actor_location` announces. -/
def announcedUri (uri : ActorUri) (id : UInt64) : ActorUri :=
  if uri.node = [] ∨ uri.node = [0x2A] then { uri with node := nodeText id } else uri

/-- `m_remote_actors[uri.to_string()] = {id, uri}` -/
def fileLocation (s : ActorSystem) (uri : ActorUri) (id : UInt64) : ActorSystem :=
  { s with remoteActors := s.remoteActors.insert uri.toBytes (id, uri) }

/-- `publish_actor_location`, and what it hands to the broadcast. -/
def publishActorLocation (s : ActorSystem) (uri : ActorUri) :
    ActorSystem × Option (List UInt8) :=
  match s.cluster with
  | none => (s, none)
  | some cluster =>
      (s.fileLocation (announcedUri uri cluster.id) cluster.id,
        if s.networking then some (packActorLocation (announcedUri uri cluster.id) 3) else none)

/-- The key of a remote actor names this type and this actor. -/
def keyNames (key type name : List UInt8) : Bool :=
  match findFrom key slash 8 with
  | none => false
  | some first =>
      match findFrom key slash (first + 1) with
      | none => false
      | some second =>
          (key.drop (first + 1)).take (second - first - 1) = type ∧
            key.drop (second + 1) = name

/-- The characters `ultra://*/`. -/
def wildcard : List UInt8 := uriScheme ++ [0x2A, slash]

/-- The rows of `m_remote_actors`. -/
abbrev RemoteRow := Sigma fun _ : List UInt8 => UInt64 × ActorUri

/-- The second step of `find`; `order` is the order of the unordered map. -/
def findRemote (s : ActorSystem) (order : List RemoteRow) (text : List UInt8) :
    Option (UInt64 × ActorUri) :=
  match s.remoteActors.lookup text with
  | some row => some row
  | none =>
      if wildcard <+: text then
        match findFrom text slash 10 with
        | none => none
        | some second =>
            (order.find? fun row =>
              keyNames row.1 ((text.drop 10).take (second - 10)) (text.drop (second + 1))).map
                (·.2)
      else none

/-- What `find` returns: a proxy and a URI, or an empty reference. -/
inductive Found where
  | here (proxy : Option RegisteredProxy) (uri : ActorUri)
  -- a remote proxy for the URI, on the connection to the node
  | remote (id : UInt64) (uri : ActorUri)
  | nothing

/-- `find<T>`, where `typeName` is the name of `T`. -/
def find (s : ActorSystem) (order : List RemoteRow) (typeName text : List UInt8) : Found :=
  match s.registry.lookup text with
  -- the whole text becomes the name
  | some proxy => .here proxy (.makeLocal typeName text)
  | none =>
      if s.cluster.isNone then .nothing
      else
        match s.findRemote order text with
        | some row => .remote row.1 row.2
        | none => .nothing

theorem announcedUri_here (label : ActorLabel) (id : UInt64) :
    announcedUri label.here id = label.on id := by
  rw [announcedUri, if_pos (.inr rfl)]
  rfl

/-- A node files what it hears, unless it has a row for that actor. -/
theorem handleActorLocation_announced (s : ActorSystem) (label : ActorLabel)
    (host : UInt64) :
    s.handleActorLocation (packActorLocation (label.on host) 3) =
      (match s.remoteActors.lookup (label.on host).toBytes with
        | none => s.fileLocation (label.on host) host
        | some _ => s, .returned) := by
  have hunpack : unpackActorLocation (packActorLocation (label.on host) 3) =
      some (parseUriFromWire (label.on host).toBytes, 3) :=
    unpackActorLocation_pack (length_on label host)
  rw [parse_on] at hunpack
  have hnode : announcedNode (label.on host) = some host := by
    rw [announcedNode, if_neg]
    · exact stoull_nodeText host
    · rintro (hempty | hany)
      · exact decimalText_ne_nil _ hempty
      · exact nodeText_ne_any host hany
  unfold handleActorLocation
  simp only [hunpack, hnode]
  rw [if_pos (by decide)]
  cases s.remoteActors.lookup (label.on host).toBytes with
  | none => rfl
  | some row => rfl

theorem keyNames_toBytes {uri : ActorUri} (hnode : slash ∉ uri.node)
    (htype : slash ∉ uri.type) (type name : List UInt8) :
    keyNames uri.toBytes type name = true ↔ uri.type = type ∧ uri.name = name := by
  have hparse := parseUriFromWire_toBytes hnode htype
  have hslash : slash ∈ uri.toBytes := by simp [ActorUri.toBytes]
  unfold parseUriFromWire at hparse
  unfold keyNames
  cases hfirst : findFrom uri.toBytes slash 8 with
  | none =>
      rw [hfirst] at hparse
      have hwhole : uri.toBytes = uri.type := congrArg ActorUri.type hparse
      exact absurd (hwhole ▸ hslash) htype
  | some first =>
      rw [hfirst] at hparse
      simp only at hparse ⊢
      cases hsecond : findFrom uri.toBytes slash (first + 1) with
      | none =>
          rw [hsecond] at hparse
          have hwhole : uri.toBytes = uri.type := congrArg ActorUri.type hparse
          exact absurd (hwhole ▸ hslash) htype
      | some second =>
          rw [hsecond] at hparse
          have htypes := congrArg ActorUri.type hparse
          have hnames := congrArg ActorUri.name hparse
          simp only at htypes hnames ⊢
          rw [htypes, hnames, decide_eq_true_eq]

end ActorSystem

structure LocatedNode where
  system : ActorSystem
  -- the URIs of `m_owned_actors`
  owned : List ActorUri

/-- The nodes, by their ids, and the announcements that were broadcast. -/
structure LocationNet where
  nodes : UInt64 → LocatedNode
  sent : List (List UInt8)

inductive LocationEvent where
  | spawn (id : UInt64) (label : ActorLabel) (actor : Nat)
  -- at the end of `spawn`, and in every round of the gossip loop
  | publish (id : UInt64) (owned : Nat)
  | receive (id : UInt64) (message : Nat)
  -- another task of the node, which leaves both tables alone
  | other (id : UInt64) (given : ActorSystem) (peers : Table UInt64 NodeInfo)

namespace LocationNet

def setSystem (net : LocationNet) (id : UInt64) (system : ActorSystem)
    (sent : List (List UInt8)) : LocationNet :=
  ⟨Function.update net.nodes id { net.nodes id with system := system }, net.sent ++ sent⟩

@[simp] theorem setSystem_system (net : LocationNet) (id : UInt64) (system : ActorSystem)
    (sent : List (List UInt8)) : ((net.setSystem id system sent).nodes id).system = system := by
  simp only [setSystem, Function.update_self]

def step (net : LocationNet) : LocationEvent → Option LocationNet
  | .spawn id label actor =>
      some { net with
        nodes := Function.update net.nodes id
          ⟨(net.nodes id).system.spawn label.here actor,
            (net.nodes id).owned ++ [label.here]⟩ }
  | .publish id owned =>
      (net.nodes id).owned[owned]?.map fun uri =>
        net.setSystem id ((net.nodes id).system.publishActorLocation uri).1
          ((net.nodes id).system.publishActorLocation uri).2.toList
  | .receive id message =>
      net.sent[message]?.map fun payload =>
        net.setSystem id ((net.nodes id).system.handleActorLocation payload).1 []
  | .other id given peers =>
      some (net.setSystem id
        { given with
          registry := (net.nodes id).system.registry
          remoteActors := (net.nodes id).system.remoteActors
          cluster := (net.nodes id).system.cluster.map fun c => { c with peers := peers } } [])

/-- Nodes that have just been started, whatever else they were given. -/
def machine (given : UInt64 → ActorSystem) (self : UInt64 → NodeInfo) :
    Machine LocationNet LocationEvent where
  start := ⟨fun id =>
    ⟨{ given id with registry := ∅, remoteActors := ∅, cluster := some ⟨self id, id, ∅⟩ }, []⟩,
    []⟩
  step := step

/-- The node has an actor under this label. -/
def Hosts (net : LocationNet) (id : UInt64) (label : ActorLabel) : Prop :=
  ((net.nodes id).system.registry.lookup label.here.toBytes).isSome = true

/-- The node has a row for the actor of another node, or of itself. -/
def Knows (net : LocationNet) (id host : UInt64) (label : ActorLabel) : Prop :=
  ((net.nodes id).system.remoteActors.lookup (label.on host).toBytes).isSome = true

/-- What holds of a node among others. -/
structure NodeLocated (net : LocationNet) (id : UInt64) (node : LocatedNode) : Prop where
  named : ∃ cluster, node.system.cluster = some cluster ∧ cluster.id = id
  registered : ∀ key proxy, node.system.registry.lookup key = some proxy →
    ∃ label actor, key = (ActorLabel.here label).toBytes ∧ proxy = some ⟨label.here, some actor⟩
  owned : ∀ uri ∈ node.owned, ∃ label, uri = ActorLabel.here label ∧ net.Hosts id label
  learned : ∀ key host uri, node.system.remoteActors.lookup key = some (host, uri) →
    ∃ label, key = uri.toBytes ∧ uri = ActorLabel.on label host ∧ net.Hosts host label

/-- Every row and every announcement is of an actor that its node has. -/
structure Located (net : LocationNet) : Prop where
  node : ∀ id, net.NodeLocated id (net.nodes id)
  sent : ∀ payload ∈ net.sent, ∃ host label,
    payload = packActorLocation (ActorLabel.on label host) 3 ∧ net.Hosts host label

section Steps

variable {net next : LocationNet} {id : UInt64} {node : LocatedNode}

/-- No node has lost an actor. -/
def KeepsActors (net next : LocationNet) : Prop :=
  ∀ id label, net.Hosts id label → next.Hosts id label

theorem NodeLocated.mono (hnode : net.NodeLocated id node) (hkeeps : net.KeepsActors next) :
    next.NodeLocated id node where
  named := hnode.named
  registered := hnode.registered
  owned uri hmem := by
    obtain ⟨label, huri, hhosts⟩ := hnode.owned uri hmem
    exact ⟨label, huri, hkeeps id label hhosts⟩
  learned key host uri hlookup := by
    obtain ⟨label, hkey, huri, hhosts⟩ := hnode.learned key host uri hlookup
    exact ⟨label, hkey, huri, hkeeps host label hhosts⟩

theorem keepsActors_update (hnodes : next.nodes = Function.update net.nodes id node)
    (hregistry : ∀ key, ((net.nodes id).system.registry.lookup key).isSome = true →
      (node.system.registry.lookup key).isSome = true) :
    net.KeepsActors next := by
  intro other label hhosts
  rw [Hosts, hnodes]
  by_cases hsame : other = id
  · subst hsame
    rw [Function.update_self]
    exact hregistry _ hhosts
  · rw [Function.update_of_ne hsame]
    exact hhosts

/-- A step changes one node, and may send something. -/
theorem Located.update (hlocated : net.Located)
    (hnodes : next.nodes = Function.update net.nodes id node) (hkeeps : net.KeepsActors next)
    (hnode : next.NodeLocated id node)
    (hsent : ∀ payload ∈ next.sent, payload ∈ net.sent ∨ ∃ host label,
      payload = packActorLocation (ActorLabel.on label host) 3 ∧ next.Hosts host label) :
    next.Located where
  node other := by
    rw [hnodes]
    by_cases hsame : other = id
    · subst hsame
      rw [Function.update_self]
      exact hnode
    · rw [Function.update_of_ne hsame]
      exact (hlocated.node other).mono hkeeps
  sent payload hmem := by
    obtain hold | hnew := hsent payload hmem
    · obtain ⟨host, label, hpayload, hhosts⟩ := hlocated.sent payload hold
      exact ⟨host, label, hpayload, hkeeps host label hhosts⟩
    · exact hnew

theorem Located.spawn (hlocated : net.Located) {label : ActorLabel} {actor : Nat}
    (hstep : net.step (.spawn id label actor) = some next) :
    next.Located ∧ net.KeepsActors next := by
  have hnext := Option.some.inj hstep
  have hnodes : next.nodes = Function.update net.nodes id
      ⟨(net.nodes id).system.spawn label.here actor,
        (net.nodes id).owned ++ [label.here]⟩ := by
    rw [← hnext]
  have hlookup : ∀ key, ((net.nodes id).system.spawn label.here actor).registry.lookup key =
      if key = label.here.toBytes then some (some ⟨label.here, some actor⟩)
      else (net.nodes id).system.registry.lookup key := fun key =>
    Table.lookup_insert ..
  have hkeeps : net.KeepsActors next := by
    apply keepsActors_update hnodes
    intro key hsome
    simp only [hlookup]
    split
    · rfl
    · exact hsome
  have hhosts : next.Hosts id label := by
    rw [Hosts, hnodes, Function.update_self]
    simp [hlookup]
  have hbefore := (hlocated.node id).mono hkeeps
  refine ⟨hlocated.update hnodes hkeeps ⟨hbefore.named, ?_, ?_, hbefore.learned⟩ ?_, hkeeps⟩
  · intro key proxy hfound
    simp only [hlookup] at hfound
    split at hfound
    · rename_i hkey
      exact ⟨label, actor, hkey, (Option.some.inj hfound).symm⟩
    · exact hbefore.registered key proxy hfound
  · intro uri hmem
    obtain hold | hnew := List.mem_append.mp hmem
    · exact hbefore.owned uri hold
    · exact ⟨label, List.mem_singleton.mp hnew, hhosts⟩
  · intro payload hmem
    rw [← hnext] at hmem
    exact .inl hmem

/-- A row is filed for an actor that its node has. -/
theorem NodeLocated.file {label : ActorLabel} {host : UInt64}
    (hnode : net.NodeLocated id node) (hhosts : net.Hosts host label) :
    net.NodeLocated id { node with system := node.system.fileLocation (label.on host) host } where
  named := hnode.named
  registered := hnode.registered
  owned := hnode.owned
  learned key other uri hlookup := by
    obtain ⟨hkey, hrow⟩ | ⟨-, hold⟩ := Table.of_lookup_insert hlookup
    · cases hrow
      exact ⟨label, hkey, rfl, hhosts⟩
    · exact hnode.learned key other uri hold

/-- A step that leaves the registry of its node alone. -/
theorem Located.setSystem (hlocated : net.Located) {system : ActorSystem}
    {sent : List (List UInt8)}
    (hregistry : system.registry = (net.nodes id).system.registry)
    (hnode : net.NodeLocated id { net.nodes id with system := system })
    (hsent : ∀ payload ∈ sent, ∃ host label,
      payload = packActorLocation (ActorLabel.on label host) 3 ∧ net.Hosts host label) :
    (net.setSystem id system sent).Located ∧ net.KeepsActors (net.setSystem id system sent) := by
  have hkeeps : net.KeepsActors (net.setSystem id system sent) := by
    apply keepsActors_update rfl
    intro key hsome
    simp only [hregistry]
    exact hsome
  refine ⟨hlocated.update rfl hkeeps (hnode.mono hkeeps) ?_, hkeeps⟩
  intro payload hmem
  obtain hold | hnew := List.mem_append.mp hmem
  · exact .inl hold
  · obtain ⟨host, label, hpayload, hhosts⟩ := hsent payload hnew
    exact .inr ⟨host, label, hpayload, hkeeps host label hhosts⟩

theorem Located.publish (hlocated : net.Located) {owned : Nat}
    (hstep : net.step (.publish id owned) = some next) :
    next.Located ∧ net.KeepsActors next := by
  obtain ⟨uri, howned, rfl⟩ := Option.map_eq_some_iff.mp hstep
  have hnode := hlocated.node id
  obtain ⟨label, rfl, hhosts⟩ := hnode.owned uri (List.mem_of_getElem? howned)
  obtain ⟨cluster, hcluster, rfl⟩ := hnode.named
  simp only [ActorSystem.publishActorLocation, hcluster, ActorSystem.announcedUri_here]
  refine hlocated.setSystem ?_ (hnode.file hhosts) ?_
  · rfl
  · intro payload hmem
    have hpayload := Option.mem_toList.mp hmem
    split at hpayload
    · exact ⟨cluster.id, label, (Option.some.inj hpayload).symm, hhosts⟩
    · cases hpayload

theorem Located.receive (hlocated : net.Located) {message : Nat}
    (hstep : net.step (.receive id message) = some next) :
    next.Located ∧ net.KeepsActors next := by
  obtain ⟨payload, hmessage, rfl⟩ := Option.map_eq_some_iff.mp hstep
  have hnode := hlocated.node id
  obtain ⟨host, label, rfl, hhosts⟩ := hlocated.sent payload (List.mem_of_getElem? hmessage)
  rw [ActorSystem.handleActorLocation_announced]
  cases (net.nodes id).system.remoteActors.lookup (label.on host).toBytes with
  | none => exact hlocated.setSystem rfl (hnode.file hhosts) (fun _ hmem => by cases hmem)
  | some row => exact hlocated.setSystem rfl hnode (fun _ hmem => by cases hmem)

theorem Located.other (hlocated : net.Located) {given : ActorSystem}
    {peers : Table UInt64 NodeInfo}
    (hstep : net.step (.other id given peers) = some next) :
    next.Located ∧ net.KeepsActors next := by
  obtain rfl := Option.some.inj hstep
  have hnode := hlocated.node id
  obtain ⟨cluster, hcluster, hid⟩ := hnode.named
  refine hlocated.setSystem ?_ ?_ ?_
  · rfl
  · refine ⟨⟨{ cluster with peers := peers }, ?_, hid⟩, hnode.registered, hnode.owned,
      hnode.learned⟩
    simp only [hcluster, Option.map_some]
  · intro payload hmem
    cases hmem

theorem Located.step {event : LocationEvent} (hlocated : net.Located)
    (hstep : net.step event = some next) : next.Located ∧ net.KeepsActors next := by
  cases event with
  | spawn id label actor => exact hlocated.spawn hstep
  | publish id owned => exact hlocated.publish hstep
  | receive id message => exact hlocated.receive hstep
  | other id given peers => exact hlocated.other hstep

end Steps

section Lookups

variable {net : LocationNet} {id host : UInt64} {label : ActorLabel}

/-- A row stands under the URI of its actor, and tells the node of that URI. -/
theorem Located.row (hlocated : net.Located) (hknows : net.Knows id host label) :
    (net.nodes id).system.remoteActors.lookup (label.on host).toBytes =
      some (host, label.on host) ∧ net.Hosts host label := by
  obtain ⟨⟨other, uri⟩, hlookup⟩ := Option.isSome_iff_exists.mp hknows
  obtain ⟨named, hkey, rfl, hhosts⟩ := (hlocated.node id).learned _ other uri hlookup
  obtain ⟨rfl, rfl⟩ := on_injective hkey
  exact ⟨hlookup, hhosts⟩

/-- The URI with the number of a node is no key of a registry. -/
theorem Located.not_registered (hlocated : net.Located) (id host : UInt64)
    (label : ActorLabel) :
    (net.nodes id).system.registry.lookup (label.on host).toBytes = none := by
  cases hfound : (net.nodes id).system.registry.lookup (label.on host).toBytes with
  | none => rfl
  | some proxy =>
      obtain ⟨other, actor, hother, -⟩ := (hlocated.node id).registered _ proxy hfound
      exact absurd hother.symm here_ne_on

/-- The node of an actor finds it by the URI of a row: it is the one that was
spawned last under that label. -/
theorem Located.findLocal (hlocated : net.Located) (hhosts : net.Hosts host label) :
    ∃ actor, (net.nodes host).system.registry.lookup label.here.toBytes =
        some (some ⟨label.here, some actor⟩) ∧
      (net.nodes host).system.findLocal (label.on host) = some actor := by
  have hregistered := (hlocated.node host).registered
  obtain ⟨proxy, hlookup⟩ := Option.isSome_iff_exists.mp hhosts
  obtain ⟨named, actor, hkey, rfl⟩ := hregistered _ proxy hlookup
  obtain rfl := here_injective hkey
  refine ⟨actor, hlookup, ?_⟩
  have hnone := hlocated.not_registered host host label
  have hmem : (⟨label.here.toBytes, some ⟨label.here, some actor⟩⟩ :
      Sigma fun _ : List UInt8 => Option RegisteredProxy) ∈
      (net.nodes host).system.registry.entries :=
    (Table.lookup_eq_some_iff _ _ _).mp hlookup
  have honly : ∀ proxy ∈ (net.nodes host).system.registry.entries.filterMap (·.2),
      proxy.uri.type = label.type ∧ proxy.uri.name = label.name →
        proxy = ⟨label.here, some actor⟩ := by
    intro proxy hproxy hnames
    obtain ⟨row, hrow, hvalue⟩ := List.mem_filterMap.mp hproxy
    have hfound := (Table.lookup_eq_some_iff _ row.1 row.2).mpr hrow
    obtain ⟨other, second, hplace, hother⟩ := hregistered _ _ hfound
    rw [hvalue, Option.some.injEq] at hother
    subst hother
    obtain rfl : other = label := ActorLabel.ext hnames.1 hnames.2
    rw [hplace, hlookup, hvalue, Option.some.injEq, Option.some.injEq] at hfound
    exact hfound.symm
  rw [ActorSystem.findLocal, ActorSystem.findLocalProxy, hnone]
  cases hfind : ((net.nodes host).system.registry.entries.filterMap (·.2)).find? fun proxy =>
      proxy.uri.type = (label.on host).type ∧ proxy.uri.name = (label.on host).name with
  | none =>
      have hno := List.find?_eq_none.mp hfind ⟨label.here, some actor⟩
        (List.mem_filterMap.mpr ⟨_, hmem, rfl⟩)
      exact absurd (decide_eq_true ⟨rfl, rfl⟩) hno
  | some proxy =>
      have hnames := List.find?_some hfind
      simp only [decide_eq_true_eq] at hnames
      rw [honly proxy (List.mem_of_find?_eq_some hfind) hnames]
      rfl

variable {order : List ActorSystem.RemoteRow} {typeName text : List UInt8} {uri : ActorUri}

/-- A local URI leads only to an actor of exactly its type and its name. -/
theorem Located.of_findLocal (hlocated : net.Located) (htype : slash ∉ typeName)
    {name : List UInt8} {actor : Nat}
    (hlocal : (net.nodes host).system.findLocal (.makeLocal typeName name) = some actor) :
    ∃ label : ActorLabel, label.type = typeName ∧ label.name = name ∧ net.Hosts host label := by
  obtain ⟨proxy, hproxy, -⟩ := Option.bind_eq_some_iff.mp hlocal
  unfold ActorSystem.findLocalProxy at hproxy
  split at hproxy
  · rename_i registered hlookup
    obtain ⟨label, other, hkey, -⟩ := (hlocated.node host).registered _ _ hlookup
    have hsame := congrArg parseUriFromWire hkey
    rw [parse_here, parseUriFromWire_toBytes (by decide : slash ∉ [(0x2A : UInt8)]) htype]
      at hsame
    refine ⟨label, (congrArg ActorUri.type hsame).symm, (congrArg ActorUri.name hsame).symm, ?_⟩
    rw [Hosts, ← hkey, hlookup]
    rfl
  · obtain ⟨row, hrow, hvalue⟩ := List.mem_filterMap.mp (List.mem_of_find?_eq_some hproxy)
    have hlookup := (Table.lookup_eq_some_iff _ row.1 row.2).mpr hrow
    obtain ⟨label, other, hkey, hother⟩ := (hlocated.node host).registered _ _ hlookup
    have hnames := List.find?_some hproxy
    rw [hvalue, Option.some.injEq] at hother
    subst hother
    simp only [decide_eq_true_eq] at hnames
    refine ⟨label, hnames.1, hnames.2, ?_⟩
    rw [Hosts, ← hkey, hlookup]
    rfl

/-- A text that asks for any node names a type and an actor. -/
theorem wildcard_text {second : Nat} (hwildcard : ActorSystem.wildcard <+: text)
    (hsecond : findFrom text slash 10 = some second) :
    text = ActorSystem.wildcard ++ (text.drop 10).take (second - 10) ++
      slash :: text.drop (second + 1) := by
  obtain ⟨rest, rfl⟩ := hwildcard
  obtain ⟨i, hidx, rfl⟩ := Option.map_eq_some_iff.mp hsecond
  have hrest : (ActorSystem.wildcard ++ rest).drop 10 = rest := List.drop_left' rfl
  rw [hrest] at hidx
  obtain ⟨name, hname, -⟩ := take_findIdx hidx
  have hlength : i < rest.length := (List.findIdx?_eq_some_iff_getElem.mp hidx).1
  have htail : (ActorSystem.wildcard ++ rest).drop (i + 10 + 1) = name := by
    rw [show i + 10 + 1 = 10 + (i + 1) by omega, ← List.drop_drop, hrest]
    conv_lhs => rw [hname]
    rw [← List.drop_drop, List.drop_left' (by rw [List.length_take]; omega)]
    rfl
  rw [hrest, htail, Nat.add_sub_cancel, List.append_assoc, ← hname]

theorem wildcard_here (label : ActorLabel) :
    label.here.toBytes = ActorSystem.wildcard ++ label.type ++ slash :: label.name := by
  simp [ActorLabel.here, ActorUri.makeLocal, ActorUri.toBytes, ActorSystem.wildcard]

/-- The remote rows that a search may end with. -/
theorem Located.of_findRemote (hlocated : net.Located)
    (horder : order.Perm (net.nodes id).system.remoteActors.entries)
    (hfind : (net.nodes id).system.findRemote order text = some (host, uri)) :
    ∃ label, uri = ActorLabel.on label host ∧ net.Hosts host label ∧
      (text = uri.toBytes ∨ text = label.here.toBytes) := by
  unfold ActorSystem.findRemote at hfind
  split at hfind
  · rename_i row hlookup
    cases hfind
    obtain ⟨label, hkey, huri, hhosts⟩ := (hlocated.node id).learned _ _ _ hlookup
    exact ⟨label, huri, hhosts, .inl hkey⟩
  · split at hfind
    · rename_i hwildcard
      split at hfind
      · cases hfind
      · rename_i second hsecond
        obtain ⟨row, hrow, hvalue⟩ := Option.map_eq_some_iff.mp hfind
        have hmem := horder.mem_iff.mp (List.mem_of_find?_eq_some hrow)
        have hlookup := (Table.lookup_eq_some_iff _ row.1 row.2).mpr hmem
        rw [hvalue] at hlookup
        obtain ⟨label, hkey, rfl, hhosts⟩ := (hlocated.node id).learned _ _ _ hlookup
        have hnames := List.find?_some hrow
        rw [hkey, ActorSystem.keyNames_toBytes (slash_nodeText host) label.no_slash] at hnames
        refine ⟨label, rfl, hhosts, .inr ?_⟩
        have htext := wildcard_text hwildcard hsecond
        rw [← hnames.1, ← hnames.2] at htext
        rw [wildcard_here]
        exact htext
    · cases hfind

theorem Located.of_find_remote (hlocated : net.Located)
    (horder : order.Perm (net.nodes id).system.remoteActors.entries)
    (hfind : (net.nodes id).system.find order typeName text = .remote host uri) :
    ∃ label, uri = ActorLabel.on label host ∧ net.Hosts host label ∧
      (text = uri.toBytes ∨ text = label.here.toBytes) := by
  unfold ActorSystem.find at hfind
  split at hfind
  · cases hfind
  · split at hfind
    · cases hfind
    · split at hfind
      · rename_i row hrow
        cases hfind
        exact hlocated.of_findRemote horder hrow
      · cases hfind

theorem Located.of_find_here (hlocated : net.Located) {proxy : Option RegisteredProxy}
    (hfind : (net.nodes id).system.find order typeName text = .here proxy uri) :
    (∃ label actor, text = (ActorLabel.here label).toBytes ∧
      proxy = some ⟨label.here, some actor⟩) ∧ uri = .makeLocal typeName text := by
  unfold ActorSystem.find at hfind
  split at hfind
  · rename_i registered hlookup
    cases hfind
    exact ⟨(hlocated.node id).registered text proxy hlookup, rfl⟩
  · split at hfind
    · cases hfind
    · split at hfind
      · cases hfind
      · cases hfind

/-- An actor with a row is found by its own URI. -/
theorem Located.find_on (hlocated : net.Located) (hknows : net.Knows id host label) :
    (net.nodes id).system.find order typeName (label.on host).toBytes =
      .remote host (label.on host) := by
  obtain ⟨cluster, hcluster, -⟩ := (hlocated.node id).named
  rw [ActorSystem.find, hlocated.not_registered id host label]
  simp only [hcluster, Option.isNone_some, Bool.false_eq_true, if_false,
    ActorSystem.findRemote, (hlocated.row hknows).1]

/-- An actor with a row is found by the URI for any node, there or on the node
itself. -/
theorem Located.find_here (hlocated : net.Located)
    (horder : order.Perm (net.nodes id).system.remoteActors.entries)
    (hknows : net.Knows id host label) :
    (net.nodes id).system.find order typeName label.here.toBytes ≠ .nothing := by
  obtain ⟨cluster, hcluster, -⟩ := (hlocated.node id).named
  rw [ActorSystem.find]
  cases hlookup : (net.nodes id).system.registry.lookup label.here.toBytes with
  | some proxy => exact fun hno => by cases hno
  | none =>
      simp only [hcluster, Option.isNone_some, Bool.false_eq_true, if_false]
      have hrow := (Table.lookup_eq_some_iff _ _ _).mp (hlocated.row hknows).1
      have hwildcard : ActorSystem.wildcard <+: label.here.toBytes := by
        rw [wildcard_here, List.append_assoc]
        exact List.prefix_append _ _
      have hafter : label.here.toBytes.drop 10 = label.type ++ slash :: label.name := by
        rw [wildcard_here, List.append_assoc]
        exact List.drop_left' rfl
      have hsecond := findFrom_part label.no_slash hafter
      cases hfound : (net.nodes id).system.findRemote order label.here.toBytes with
      | some row => exact fun hno => by cases hno
      | none =>
          have hname : label.here.toBytes.drop (10 + label.type.length + 1) = label.name := by
            rw [Nat.add_assoc, ← List.drop_drop, hafter, ← List.drop_drop, List.drop_left]
            rfl
          unfold ActorSystem.findRemote at hfound
          split at hfound
          · cases hfound
          · rw [if_pos hwildcard, hsecond] at hfound
            simp only [hafter, hname, Nat.add_sub_cancel_left, List.take_left',
              Option.map_eq_none_iff, List.find?_eq_none] at hfound
            have hno := hfound _ (horder.mem_iff.mpr hrow)
            rw [ActorSystem.keyNames_toBytes (slash_nodeText host) label.no_slash] at hno
            exact absurd ⟨rfl, rfl⟩ hno

end Lookups

section Runs

variable {net next : LocationNet}

/-- No node has lost a row. -/
def KeepsRows (net next : LocationNet) : Prop :=
  ∀ id key, ((net.nodes id).system.remoteActors.lookup key).isSome = true →
    ((next.nodes id).system.remoteActors.lookup key).isSome = true

theorem keepsRows_update {id : UInt64} {node : LocatedNode}
    (hnodes : next.nodes = Function.update net.nodes id node)
    (hrows : ∀ key, ((net.nodes id).system.remoteActors.lookup key).isSome = true →
      (node.system.remoteActors.lookup key).isSome = true) : net.KeepsRows next := by
  intro other key hsome
  rw [hnodes]
  by_cases hsame : other = id
  · subst hsame
    rw [Function.update_self]
    exact hrows key hsome
  · rw [Function.update_of_ne hsame]
    exact hsome

theorem fileLocation_keeps (s : ActorSystem) (uri : ActorUri) (id : UInt64) {key : List UInt8}
    (hsome : (s.remoteActors.lookup key).isSome = true) :
    ((s.fileLocation uri id).remoteActors.lookup key).isSome = true := by
  simp only [ActorSystem.fileLocation, Table.lookup_insert]
  split
  · rfl
  · exact hsome

theorem keepsRows_step {event : LocationEvent} (hlocated : net.Located)
    (hstep : net.step event = some next) : net.KeepsRows next := by
  cases event with
  | spawn id label actor =>
      obtain rfl := Option.some.inj hstep
      exact keepsRows_update rfl fun _ hsome => hsome
  | publish id owned =>
      obtain ⟨uri, howned, rfl⟩ := Option.map_eq_some_iff.mp hstep
      obtain ⟨cluster, hcluster, -⟩ := (hlocated.node id).named
      apply keepsRows_update rfl
      intro key hsome
      simp only [ActorSystem.publishActorLocation, hcluster]
      exact fileLocation_keeps _ _ _ hsome
  | receive id message =>
      obtain ⟨payload, hmessage, rfl⟩ := Option.map_eq_some_iff.mp hstep
      obtain ⟨host, label, rfl, -⟩ := hlocated.sent payload (List.mem_of_getElem? hmessage)
      apply keepsRows_update rfl
      intro key hsome
      rw [ActorSystem.handleActorLocation_announced]
      cases (net.nodes id).system.remoteActors.lookup (label.on host).toBytes with
      | none => exact fileLocation_keeps _ _ _ hsome
      | some row => exact hsome
  | other id given peers =>
      obtain rfl := Option.some.inj hstep
      exact keepsRows_update rfl fun _ hsome => hsome

/-- An announcement that arrives makes its actor known. -/
theorem known_of_receive {id : UInt64} {message : Nat}
    {host : UInt64} {label : ActorLabel}
    (hmessage : net.sent[message]? = some (packActorLocation (label.on host) 3))
    (hstep : net.step (.receive id message) = some next) : next.Knows id host label := by
  obtain ⟨payload, hpayload, rfl⟩ := Option.map_eq_some_iff.mp hstep
  obtain rfl := Option.some.inj (hmessage.symm.trans hpayload)
  rw [Knows, setSystem_system, ActorSystem.handleActorLocation_announced]
  cases hlookup : (net.nodes id).system.remoteActors.lookup (label.on host).toBytes with
  | none => simp [ActorSystem.fileLocation]
  | some row => simp [hlookup]

variable {given : UInt64 → ActorSystem} {self : UInt64 → NodeInfo}

theorem located_start : (machine given self).start.Located where
  node id :=
    { named := ⟨_, rfl, rfl⟩
      registered := fun key proxy hlookup => by cases hlookup
      owned := fun uri hmem => by cases hmem
      learned := fun key host uri hlookup => by cases hlookup }
  sent payload hmem := by cases hmem

theorem located_of_run {word : List LocationEvent}
    (hrun : (machine given self).run word = some net) : net.Located :=
  (machine given self).run_preserves located_start
    (fun _ _ _ hlocated hstep => (hlocated.step hstep).1) word hrun

theorem keepsRows_of_run {more : List LocationEvent} (hlocated : net.Located)
    (hrun : (machine given self).runFrom net more = some next) : net.KeepsRows next := by
  induction more generalizing net with
  | nil =>
      obtain rfl := Option.some.inj hrun
      exact fun _ _ hsome => hsome
  | cons event more ih =>
      simp only [Machine.runFrom] at hrun
      split at hrun
      · cases hrun
      · rename_i middle hstep
        intro id key hsome
        exact ih (hlocated.step hstep).1 hrun id key (keepsRows_step hlocated hstep id key hsome)

/-- What a search on a node of the net gives, in whatever order the rows are. -/
structure FindsActors (net : LocationNet) : Prop where
  here : ∀ id order typeName text proxy uri,
    (net.nodes id).system.find order typeName text = .here proxy uri →
    (∃ label actor, text = (ActorLabel.here label).toBytes ∧
      proxy = some ⟨label.here, some actor⟩) ∧ uri = .makeLocal typeName text
  -- so that the URI of a local actor is that of an actor with another name
  renamed : ∀ host typeName text actor, slash ∉ typeName →
    (net.nodes host).system.findLocal (.makeLocal typeName text) = some actor →
    ∃ label : ActorLabel, label.type = typeName ∧ label.name = text ∧ net.Hosts host label
  remote : ∀ id order typeName text host uri,
    order.Perm (net.nodes id).system.remoteActors.entries →
    (net.nodes id).system.find order typeName text = .remote host uri →
    ∃ label actor, uri = ActorLabel.on label host ∧
      (text = uri.toBytes ∨ text = label.here.toBytes) ∧
      (net.nodes host).system.registry.lookup label.here.toBytes =
        some (some ⟨label.here, some actor⟩) ∧
      (net.nodes host).system.findLocal uri = some actor
  known : ∀ id order typeName host label,
    order.Perm (net.nodes id).system.remoteActors.entries → net.Knows id host label →
    (net.nodes id).system.find order typeName (label.on host).toBytes = .remote host (label.on host) ∧
      (net.nodes id).system.find order typeName label.here.toBytes ≠ .nothing
  hosted : ∀ id order typeName label, net.Hosts id label →
    ∃ actor, (net.nodes id).system.find order typeName label.here.toBytes =
      .here (some ⟨label.here, some actor⟩) (.makeLocal typeName label.here.toBytes)

/-- Whatever a node finds elsewhere is on the node that its URI names, and what it
finds at home it finds with a URI that has the whole text for its name; once an
announcement has arrived its actor is found ever after; no announcement makes the
handler throw. -/
theorem locations_of_run {word : List LocationEvent}
    (hrun : (machine given self).run word = some net) :
    net.FindsActors ∧
      (∀ payload ∈ net.sent, ∃ host label,
        payload = packActorLocation (ActorLabel.on label host) 3 ∧ net.Hosts host label ∧
          ∀ id, ((net.nodes id).system.handleActorLocation payload).2 = .returned) ∧
      (∀ id message host label next,
        net.sent[message]? = some (packActorLocation (ActorLabel.on label host) 3) →
          net.step (.receive id message) = some next → next.Knows id host label) ∧
      ∀ more next, (machine given self).runFrom net more = some next →
        ∀ id host label, net.Knows id host label → next.Knows id host label := by
  have hlocated := located_of_run hrun
  refine ⟨⟨?_, ?_, ?_, ?_, ?_⟩, ?_, ?_, ?_⟩
  · intro id order typeName text proxy uri hfind
    exact hlocated.of_find_here hfind
  · intro host typeName text actor htype hlocal
    exact hlocated.of_findLocal htype hlocal
  · intro id order typeName text host uri horder hfind
    obtain ⟨label, rfl, hhosts, htext⟩ := hlocated.of_find_remote horder hfind
    obtain ⟨actor, hlookup, hlocal⟩ := hlocated.findLocal hhosts
    exact ⟨label, actor, rfl, htext, hlookup, hlocal⟩
  · intro id order typeName host label horder hknows
    exact ⟨hlocated.find_on hknows, hlocated.find_here horder hknows⟩
  · intro id order typeName label hhosts
    obtain ⟨actor, hlookup, -⟩ := hlocated.findLocal hhosts
    exact ⟨actor, by rw [ActorSystem.find, hlookup]⟩
  · intro payload hmem
    obtain ⟨host, label, rfl, hhosts⟩ := hlocated.sent payload hmem
    refine ⟨host, label, rfl, hhosts, fun id => ?_⟩
    rw [ActorSystem.handleActorLocation_announced]
  · intro id message host label next hmessage hstep
    exact known_of_receive hmessage hstep
  · intro more next hmore id host label hknows
    exact keepsRows_of_run hlocated hmore id _ hknows

/-- `calc/a` -/
def calculator : ActorLabel :=
  ⟨[0x63, 0x61, 0x6C, 0x63], [0x61], by decide, by decide⟩

def twoNodes : Machine LocationNet LocationEvent :=
  machine (fun _ => .empty) fun id => ⟨id, [], 0⟩

/-- Node 2 spawns an actor, and node 1 hears of it. -/
theorem locations_of_run_heard :
    ∃ net, twoNodes.run [.spawn 2 calculator 7, .publish 2 0, .receive 1 0] = some net ∧
      (∃ actor, (net.nodes 2).system.findLocal (calculator.on 2) = some actor) ∧
      ∀ order, order.Perm (net.nodes 1).system.remoteActors.entries →
        (net.nodes 1).system.find order calculator.type (calculator.on 2).toBytes =
          .remote 2 (calculator.on 2) := by
  obtain ⟨before, hbefore⟩ : ∃ before,
      twoNodes.run [.spawn 2 calculator 7, .publish 2 0] = some before := ⟨_, rfl⟩
  obtain ⟨net, hrun⟩ : ∃ net,
      twoNodes.run [.spawn 2 calculator 7, .publish 2 0, .receive 1 0] = some net := ⟨_, rfl⟩
  have hsent : (twoNodes.run [.spawn 2 calculator 7, .publish 2 0]).bind (·.sent[0]?) =
      some (packActorLocation (calculator.on 2) 3) := rfl
  rw [hbefore] at hsent
  have hstep : twoNodes.step before (.receive 1 0) = some net := by
    have hconcat := twoNodes.run_concat [.spawn 2 calculator 7, .publish 2 0] (.receive 1 0)
    rw [hbefore] at hconcat
    exact hconcat.symm.trans hrun
  have hknows := (locations_of_run hbefore).2.2.1 1 0 2 calculator net hsent hstep
  have hfinds := (locations_of_run hrun).1
  refine ⟨net, hrun, ?_, fun order horder => (hfinds.known 1 order _ 2 calculator horder hknows).1⟩
  have hfound := (hfinds.known 1 _ calculator.type 2 calculator (List.Perm.refl _) hknows).1
  obtain ⟨label, actor, huri, -, -, hlocal⟩ :=
    hfinds.remote 1 _ _ _ 2 (calculator.on 2) (List.Perm.refl _) hfound
  exact ⟨actor, hlocal⟩

end Runs

end LocationNet

end UltraNet
