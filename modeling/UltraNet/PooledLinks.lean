/-
The connections of a process to its peers, over any number of generations:
`connect_to_node` stores them in `m_connections`, `notify_dead` marks one of
them and calls `on_link_dead`, which erases what it finds under the node id.
The sections are those of `SenderNode`; here they run with the paths that make
a proxy and replay a logged frame.
-/
import UltraNet.FrameDestination

namespace UltraNet

/-- `pooled` is a ghost: the connections that `connect_to_node` has stored. -/
structure RouteState where
  sender : SenderState
  pooled : List Nat

/-- The trigger of a section of the sender is a ghost: the connection whose
`notify_dead` called `on_link_dead`. -/
inductive RouteSection where
  | sender (sec : SenderSection) (trigger : Option Nat)
  | getOrCreateRemoteProxy (uri : ActorUri) (selfNode : UInt64)
  -- `post_original_frame`
  | replayFind (frame : List UInt8)
  | replayPost (node : UInt64) (conn : Nat) (msgId : UInt64)
      (frame : List UInt8)
  | replayTrack (node msgId : UInt64) (frame : List UInt8)
deriving DecidableEq

inductive RouteChoice where
  | sender (choice : SenderChoice)
  -- the first valid connection that the loop over `m_connections` meets
  | first (node : UInt64)
  | noneValid

/-- The node under which `handle_inbound_message` files an announced actor;
`none` when `std::stoull` throws. -/
def announcedNode (uri : ActorUri) : Option UInt64 :=
  if uri.node = [] ∨ uri.node = [0x2A] then some 0 else stoull uri.node

namespace RouteState

def poolAfter (s : RouteState) : SenderSection → List Nat
  | .connectPool node conn =>
      if s.sender.validConn node then s.pooled else conn :: s.pooled
  | _ => s.pooled

def liftSender (s : RouteState) (sec : SenderSection) (trigger : Option Nat)
    (effect : Effect SenderState SenderSection) :
    Effect RouteState RouteSection :=
  let cause := match sec with
    | .notifyDead conn => some conn
    | _ => trigger
  ⟨⟨effect.shared, s.poolAfter sec⟩, effect.next.map (.sender · cause),
    effect.spawned.map (List.map (.sender · none))⟩

def exec (s : RouteState) :
    RouteSection → RouteChoice → Option (Effect RouteState RouteSection)
  | .sender sec trigger, .sender choice =>
      (s.sender.exec sec choice).map (s.liftSender sec trigger)
  | .getOrCreateRemoteProxy uri selfNode, _ =>
      (announcedNode uri).map fun node =>
        let conn := (s.sender.connections.lookup node).filter s.sender.validLink
        .goto s [.sender (.newProxy uri node selfNode conn) none]
  | .replayFind frame, .first node =>
      match unpackRouted frame,
        (s.sender.connections.lookup node).filter s.sender.validLink with
      | some m, some conn =>
          some (.goto s [.replayPost node conn m.msgId frame])
      | _, _ => none
  | .replayFind _, .noneValid => some (.done s)
  | .replayPost node conn msgId frame, _ =>
      if s.sender.validLink conn then
        some (.goto { s with sender := s.sender.post conn frame }
          [.replayTrack node msgId frame])
      else some (.done s)
  | .replayTrack node msgId frame, _ =>
      some (.done { s with sender := s.sender.track node msgId frame })
  | _, _ => none

def init (log : Option RemoteLog) (file : List UInt8) : RouteState :=
  ⟨.init log file, []⟩

/-- `notify_dead` is called by the reader or the writer of a connection, which
only stored connections have. -/
def entry (s : RouteState) : RouteSection → Bool
  | .sender (.notifyDead conn) none => conn ∈ s.pooled
  | .sender (.tryDeliver ..) none | .sender (.connectCheck _) none
  | .sender (.noteAckLog _) none | .getOrCreateRemoteProxy ..
  | .replayFind _ => true
  | .sender sec none => sec = .timeoutCollect
  | _ => false

end RouteState

def routeProgram : Program RouteState RouteSection RouteChoice where
  entry := RouteState.entry
  exec := RouteState.exec

/-- A section that neither stores nor erases a connection, nor kills one. -/
def SenderSection.plain : SenderSection → Bool
  | .connectPool .. | .linkErase .. | .notifyDead .. => false
  | _ => true

namespace SenderState

variable {s : SenderState} {sec : SenderSection} {choice : SenderChoice}
  {effect : Effect SenderState SenderSection}

/-- The section leaves the connections alone, and so will those behind it. -/
structure KeepsLinks (s : SenderState) (effect : Effect SenderState SenderSection) : Prop where
  links : effect.shared.links = s.links
  connections : effect.shared.connections = s.connections
  plain : ∀ after ∈ effect.work, after.plain = true

/-- Sections of one kind come behind it. -/
theorem keepsLinks_map {next : SenderState} {A : Type} (items : List A) {f : A → SenderSection}
    (hlinks : next.links = s.links) (hconnections : next.connections = s.connections)
    (hplain : ∀ item, (f item).plain = true) : s.KeepsLinks (.goto next (items.map f)) := by
  refine ⟨hlinks, hconnections, ?_⟩
  simp only [Effect.goto_work, Multiset.mem_coe, List.mem_map]
  rintro after ⟨item, -, rfl⟩
  exact hplain item

theorem deliver_keepsLinks (hexec : s.deliver sec choice = some effect) : s.KeepsLinks effect := by
  cases sec <;> simp only [deliver, reduceCtorEq] at hexec
  case deliverLog i msg =>
    obtain ⟨proxy, -, hexec⟩ := Option.bind_eq_some_iff.mp hexec
    obtain ⟨⟨ok, next⟩, happend, rfl⟩ := Option.map_eq_some_iff.mp hexec
    rw [appendData_eq happend]
    cases ok <;> exact ⟨rfl, rfl, by simp [SenderSection.plain]⟩
  case deliverTrack i msg =>
    obtain ⟨proxy, -, rfl⟩ := Option.map_eq_some_iff.mp hexec
    exact ⟨rfl, rfl, by simp [SenderSection.plain]⟩
  case deliverProxy i msg =>
    obtain ⟨proxy, -, rfl⟩ := Option.map_eq_some_iff.mp hexec
    repeat' split
    all_goals exact ⟨rfl, rfl, by simp [SenderSection.plain]⟩
  all_goals
    repeat' split at hexec
    all_goals
      obtain rfl := Option.some.inj hexec
      exact ⟨rfl, rfl, by simp [SenderSection.plain]⟩

theorem connect_keepsLinks (hexec : s.connect sec choice = some effect)
    (hdial : ∀ node, sec ≠ .connectDial node)
    (hpool : ∀ node conn, sec ≠ .connectPool node conn) : s.KeepsLinks effect := by
  cases sec <;> simp only [connect, reduceCtorEq] at hexec
  case connectDial node => exact absurd rfl (hdial node)
  case connectPool node conn => exact absurd rfl (hpool node conn)
  case connectProxies node conn =>
    obtain rfl := Option.some.inj hexec
    exact keepsLinks_map _ rfl rfl fun _ => rfl
  case flushSwap i conn =>
    obtain ⟨proxy, -, rfl⟩ := Option.map_eq_some_iff.mp hexec
    split
    · exact keepsLinks_map _ rfl rfl fun _ => rfl
    · exact ⟨rfl, rfl, by simp⟩
  case flushLog i conn msg =>
    obtain ⟨proxy, -, hexec⟩ := Option.bind_eq_some_iff.mp hexec
    obtain ⟨⟨ok, next⟩, happend, rfl⟩ := Option.map_eq_some_iff.mp hexec
    rw [appendData_eq happend]
    cases ok <;> exact ⟨rfl, rfl, by simp [SenderSection.plain]⟩
  case flushTrack i conn msg =>
    obtain ⟨proxy, -, rfl⟩ := Option.map_eq_some_iff.mp hexec
    exact ⟨rfl, rfl, by simp [SenderSection.plain]⟩
  case resendCollect node conn =>
    obtain rfl := Option.some.inj hexec
    exact keepsLinks_map _ rfl rfl fun _ => rfl
  all_goals
    repeat' split at hexec
    all_goals
      obtain rfl := Option.some.inj hexec
      exact ⟨rfl, rfl, by simp [SenderSection.plain]⟩

theorem linkDead_keepsLinks (hexec : s.linkDead sec = some effect)
    (hdies : ∀ conn, sec ≠ .notifyDead conn) (herase : ∀ node, sec ≠ .linkErase node) :
    s.KeepsLinks effect := by
  cases sec <;> simp only [linkDead, reduceCtorEq] at hexec
  case notifyDead conn => exact absurd rfl (hdies conn)
  case linkErase node => exact absurd rfl (herase node)
  case linkFlag node haveAddr =>
    obtain rfl := Option.some.inj hexec
    exact ⟨rfl, rfl, by simp [SenderSection.plain]⟩
  case linkProxies node haveAddr =>
    obtain rfl := Option.some.inj hexec
    refine ⟨rfl, rfl, ?_⟩
    simp only [Effect.goto_work, Multiset.mem_coe, List.mem_append,
      List.mem_map, List.mem_singleton]
    rintro after (⟨i, -, rfl⟩ | rfl) <;> rfl
  case dropConnection i =>
    obtain ⟨proxy, -, rfl⟩ := Option.map_eq_some_iff.mp hexec
    exact ⟨rfl, rfl, by simp⟩
  case linkRecover node haveAddr =>
    repeat' split at hexec
    all_goals obtain rfl := Option.some.inj hexec
    all_goals refine ⟨rfl, rfl, ?_⟩
    all_goals simp [Effect.work, Effect.done, SenderSection.plain]

theorem recover_keepsLinks (hexec : s.recover sec choice = some effect) : s.KeepsLinks effect := by
  cases sec <;> simp only [recover, reduceCtorEq] at hexec
  case recoverSleep node =>
    cases choice <;> simp only [reduceCtorEq] at hexec
    split at hexec <;> obtain rfl := Option.some.inj hexec <;>
      exact ⟨rfl, rfl, by simp [SenderSection.plain]⟩
  all_goals
    repeat' split at hexec
    all_goals
      obtain rfl := Option.some.inj hexec
      exact ⟨rfl, rfl, by simp [SenderSection.plain]⟩

theorem ackTimeout_keepsLinks (hexec : s.ackTimeout sec choice = some effect) :
    s.KeepsLinks effect := by
  cases sec <;> simp only [ackTimeout, reduceCtorEq] at hexec
  case timeoutCollect =>
    cases choice <;> simp only [reduceCtorEq] at hexec
    obtain rfl := Option.some.inj hexec
    exact keepsLinks_map _ rfl rfl fun _ => rfl
  case noteAckLog msgId =>
    obtain ⟨⟨ok, next⟩, happend, rfl⟩ := Option.map_eq_some_iff.mp hexec
    rw [appendAck_eq happend]
    cases ok <;> exact ⟨rfl, rfl, by simp [SenderSection.plain]⟩
  all_goals
    repeat' split at hexec
    all_goals
      obtain rfl := Option.some.inj hexec
      exact ⟨rfl, rfl, by simp [SenderSection.plain]⟩

/-- Everything that a section does to the connections. -/
theorem exec_links (hexec : s.exec sec choice = some effect) :
    effect.shared.links = s.links ∧
        effect.shared.connections = s.connections ∧
        (∀ node conn, sec = .connectPool node conn →
          s.validConn node = true) ∧
        (∀ after ∈ effect.work, after.plain = true) ∨
      (∃ node, sec = .connectDial node ∧
        effect = .goto { s with links := s.links ++ [⟨node, true⟩] }
          [.connectPool node s.links.length]) ∨
      (∃ node conn, sec = .connectPool node conn ∧
        s.validConn node = false ∧ effect =
          .goto { s with connections := s.connections.insert node conn }
            [.connectProxies node conn, .resendCollect node conn]) ∨
      (∃ conn link, sec = .notifyDead conn ∧ s.links[conn]? = some link ∧
        link.valid = true ∧ effect =
          .goto { s with links := s.links.set conn { link with valid := false } }
            [.linkErase link.node]) ∨
      ∃ node, sec = .linkErase node ∧ effect =
        .goto { s with connections := s.connections.erase node }
          [.linkFlag node (s.connections.lookup node).isSome] := by
  have haside : s.KeepsLinks effect → (∀ node conn, sec ≠ .connectPool node conn) →
      effect.shared.links = s.links ∧ effect.shared.connections = s.connections ∧
        (∀ node conn, sec = .connectPool node conn → s.validConn node = true) ∧
        ∀ after ∈ effect.work, after.plain = true :=
    fun hkeeps hother => ⟨hkeeps.links, hkeeps.connections,
      fun node conn heq => absurd heq (hother node conn), hkeeps.plain⟩
  cases sec <;> simp only [exec] at hexec
  case connectDial node =>
    cases choice <;> simp only [connect, reduceCtorEq] at hexec
    split at hexec <;> obtain rfl := Option.some.inj hexec
    · exact Or.inr (Or.inl ⟨node, rfl, rfl⟩)
    · exact Or.inl ⟨rfl, rfl, by simp, by simp⟩
  case connectPool node conn =>
    simp only [connect] at hexec
    split at hexec <;> obtain rfl := Option.some.inj hexec
    · rename_i hvalid
      refine Or.inl ⟨rfl, rfl, ?_, by simp⟩
      rintro other found heq
      cases heq
      exact hvalid
    · rename_i hvalid
      exact Or.inr (Or.inr (Or.inl ⟨node, conn, rfl,
        Bool.eq_false_iff.mpr hvalid, rfl⟩))
  case notifyDead conn =>
    simp only [linkDead] at hexec
    obtain ⟨link, hlink, rfl⟩ := Option.map_eq_some_iff.mp hexec
    split
    · rename_i hvalid
      exact Or.inr (Or.inr (Or.inr (Or.inl ⟨conn, link, rfl, hlink, hvalid,
        rfl⟩)))
    · exact Or.inl ⟨rfl, rfl, by simp, by simp⟩
  case linkErase node =>
    obtain rfl := Option.some.inj hexec
    exact Or.inr (Or.inr (Or.inr (Or.inr ⟨node, rfl, rfl⟩)))
  -- The other sections leave the connections alone.
  all_goals refine .inl (haside ?_ (by simp))
  all_goals first
    | exact deliver_keepsLinks hexec
    | exact connect_keepsLinks hexec (by simp) (by simp)
    | exact linkDead_keepsLinks hexec (by simp) (by simp)
    | exact recover_keepsLinks hexec
    | exact ackTimeout_keepsLinks hexec

end SenderState

namespace RouteState

/-- A valid connection that was stored is still stored. -/
structure LinkInv (s : RouteState) : Prop where
  known : ∀ conn ∈ s.pooled, conn < s.sender.links.length
  current : ∀ conn ∈ s.pooled, ∀ link : Link,
    s.sender.links[conn]? = some link → link.valid = true →
    s.sender.connections.lookup link.node = some conn

/-- What a pending section knows about the connections. -/
def LinkOk (s : RouteState) : RouteSection → Prop
  | .sender (.linkErase node) trigger => ∃ conn, trigger = some conn ∧
      s.sender.connections.lookup node = some conn ∧
      ∃ link : Link, s.sender.links[conn]? = some link ∧ link.valid = false
  | .sender (.connectPool node conn) _ => ∃ link : Link,
      s.sender.links[conn]? = some link ∧ link.node = node
  | .sender (.notifyDead conn) _ => conn ∈ s.pooled
  | _ => True

/-- `connect_to_node` does not replace an entry of `m_connections`: a
connection that has died was erased before the next one is stored. -/
def keepsLinks (s : RouteState) : RouteSection → Bool
  | .sender (.connectPool node _) _ => s.sender.validConn node ||
      (s.sender.connections.lookup node).isNone
  | _ => true

end RouteState

/-- The node whose entry the section is about to erase. -/
def RouteSection.eraseTag : RouteSection → Option UInt64
  | .sender (.linkErase node) _ => some node
  | _ => none

namespace RouteState

variable {s next : RouteState} {sec : RouteSection}
  {effect : Effect RouteState RouteSection}

theorem linkOk_plain {inner : SenderSection} {trigger : Option Nat}
    (hplain : inner.plain = true) :
    s.LinkOk (.sender inner trigger) ∧
      (RouteSection.sender inner trigger).eraseTag = none := by
  cases inner <;> first | exact ⟨trivial, rfl⟩ | cases hplain

/-- An obligation survives a step that erases no entry, keeps the nodes of the
links, and kills connections only. -/
theorem LinkOk.kept (hsec : s.LinkOk sec)
    (hlinks : ∀ (conn : Nat) (link : Link), s.sender.links[conn]? = some link →
      ∃ after : Link, next.sender.links[conn]? = some after ∧
        after.node = link.node ∧ (link.valid = false → after.valid = false))
    (hconnections : ∀ node conn, sec.eraseTag = some node →
      s.sender.connections.lookup node = some conn →
      next.sender.connections.lookup node = some conn)
    (hpooled : s.pooled ⊆ next.pooled) : next.LinkOk sec := by
  unfold LinkOk at hsec ⊢
  split at hsec
  · obtain ⟨conn, htrigger, hlookup, link, hlink, hdead⟩ := hsec
    obtain ⟨after, hafter, -, hstays⟩ := hlinks conn link hlink
    exact ⟨conn, htrigger, hconnections _ _ rfl hlookup, after, hafter,
      hstays hdead⟩
  · obtain ⟨link, hlink, hnode⟩ := hsec
    obtain ⟨after, hafter, hsame, -⟩ := hlinks _ link hlink
    exact ⟨after, hafter, hsame.trans hnode⟩
  · exact hpooled hsec
  · trivial

/-- A step that leaves the connections alone. -/
theorem quietStep (hinv : s.LinkInv)
    (hlinks : effect.shared.sender.links = s.sender.links)
    (hconnections :
      effect.shared.sender.connections = s.sender.connections)
    (hpooled : effect.shared.pooled = s.pooled)
    (hwork : ∀ after ∈ effect.work,
      effect.shared.LinkOk after ∧ after.eraseTag = none) :
    Program.TaggedStep LinkInv LinkOk RouteSection.eraseTag s sec effect where
  inv := by
    constructor
    · rw [hlinks, hpooled]
      exact hinv.known
    · rw [hlinks, hconnections, hpooled]
      exact hinv.current
  work := fun after hafter => (hwork after hafter).1
  unique := uniqueTags_of_none fun after hafter => (hwork after hafter).2
  fresh := by
    intro after hafter t htag
    rw [(hwork after hafter).2] at htag
    cases htag
  others := by
    intro other hother _
    refine hother.kept ?_ ?_ ?_
    · intro conn link hlink
      exact ⟨link, by rw [hlinks, hlink], rfl, fun h => h⟩
    · intro node conn _ hlookup
      rw [hconnections, hlookup]
    · rw [hpooled]
      exact List.Subset.refl _

theorem mem_liftSender_work {inner : SenderSection} {trigger : Option Nat}
    {outcome : Effect SenderState SenderSection} {after : RouteSection}
    (hafter : after ∈ (s.liftSender inner trigger outcome).work) :
    ∃ sec ∈ outcome.work, ∃ cause, after = .sender sec cause := by
  simp only [Effect.work, liftSender, Multiset.mem_add, Multiset.mem_coe,
    List.mem_map, List.mem_flatten] at hafter ⊢
  rcases hafter with ⟨sec, hsec, rfl⟩ | ⟨-, ⟨secs, hsecs, rfl⟩, hafter⟩
  · exact ⟨sec, Or.inl hsec, _, rfl⟩
  · obtain ⟨sec, hsec, rfl⟩ := List.mem_map.mp hafter
    exact ⟨sec, Or.inr ⟨secs, hsecs, hsec⟩, _, rfl⟩

/-- A new link that is not stored yet. -/
theorem dialed_step (hinv : s.LinkInv) (node : UInt64) (trigger : Option Nat) :
    Program.TaggedStep LinkInv LinkOk RouteSection.eraseTag s
      (.sender (.connectDial node) trigger)
      (.goto { s with sender :=
          { s.sender with links := s.sender.links ++ [⟨node, true⟩] } }
        [.sender (.connectPool node s.sender.links.length) trigger]) where
  inv := by
    constructor
    · intro conn hconn
      have := hinv.known conn hconn
      simp only [Effect.goto_shared, List.length_append]
      omega
    · intro conn hconn link hlink
      apply hinv.current conn hconn link
      rwa [Effect.goto_shared,
        List.getElem?_append_left (hinv.known conn hconn)] at hlink
  work := by simp [LinkOk]
  unique := uniqueTags_of_none (by simp [RouteSection.eraseTag])
  fresh := by simp [RouteSection.eraseTag]
  others := by
    intro other hother _
    refine hother.kept ?_ (fun _ _ _ hlookup => hlookup) (List.Subset.refl _)
    intro conn link hlink
    obtain ⟨hlt, -⟩ := List.getElem?_eq_some_iff.mp hlink
    refine ⟨link, ?_, rfl, fun h => h⟩
    rw [Effect.goto_shared, List.getElem?_append_left hlt, hlink]

/-- The connection is stored where no entry was. -/
theorem stored_step (hinv : s.LinkInv) {node : UInt64} {conn : Nat}
    {trigger : Option Nat}
    (hsec : s.LinkOk (.sender (.connectPool node conn) trigger))
    (hfree : s.sender.connections.lookup node = none) :
    Program.TaggedStep LinkInv LinkOk RouteSection.eraseTag s
      (.sender (.connectPool node conn) trigger)
      (.goto ⟨{ s.sender with
          connections := s.sender.connections.insert node conn },
          conn :: s.pooled⟩
        [.sender (.connectProxies node conn) trigger,
          .sender (.resendCollect node conn) trigger]) where
  inv := by
    obtain ⟨found, hfound, hnode⟩ := hsec
    constructor
    · intro other hother
      rcases List.mem_cons.mp hother with rfl | hold
      · exact (List.getElem?_eq_some_iff.mp hfound).1
      · exact hinv.known other hold
    · intro other hother link hlink hvalid
      rw [Effect.goto_shared, Table.lookup_insert]
      rcases List.mem_cons.mp hother with rfl | hold
      · obtain rfl := Option.some.inj (hfound.symm.trans hlink)
        rw [if_pos hnode]
      · have hcurrent := hinv.current other hold link hlink hvalid
        split
        · rename_i heq
          rw [heq, hfree] at hcurrent
          cases hcurrent
        · exact hcurrent
  work := by simp [LinkOk]
  unique := uniqueTags_of_none (by simp [RouteSection.eraseTag])
  fresh := by simp [RouteSection.eraseTag]
  others := by
    intro other hother _
    refine hother.kept (fun _ link hlink => ⟨link, hlink, rfl, fun h => h⟩) ?_
      (List.subset_cons_self _ _)
    intro found entry _ hlookup
    rw [Effect.goto_shared, Table.lookup_insert]
    split
    · rename_i heq
      rw [heq, hfree] at hlookup
      cases hlookup
    · exact hlookup

theorem eraseTag_eq_some {node : UInt64} (htag : sec.eraseTag = some node) :
    ∃ trigger, sec = .sender (.linkErase node) trigger := by
  unfold RouteSection.eraseTag at htag
  split at htag
  · cases htag
    exact ⟨_, rfl⟩
  · cases htag

/-- A stored connection dies; nobody else is about to erase its entry. -/
theorem died_step (hinv : s.LinkInv) {conn : Nat} {trigger : Option Nat}
    {link : Link} (hconn : conn ∈ s.pooled)
    (hlink : s.sender.links[conn]? = some link) (hvalid : link.valid = true) :
    Program.TaggedStep LinkInv LinkOk RouteSection.eraseTag s
      (.sender (.notifyDead conn) trigger)
      (.goto { s with sender := { s.sender with
          links := s.sender.links.set conn { link with valid := false } } }
        [.sender (.linkErase link.node) (some conn)]) := by
  have hstored := hinv.current conn hconn link hlink hvalid
  obtain ⟨hlt, -⟩ := List.getElem?_eq_some_iff.mp hlink
  constructor
  case inv =>
    constructor
    · simpa using hinv.known
    · intro other hother found hfound halive
      by_cases hsame : conn = other
      · subst hsame
        simp only [Effect.goto_shared, List.getElem?_set_self hlt,
          Option.some.injEq] at hfound
        subst hfound
        cases halive
      · rw [Effect.goto_shared, List.getElem?_set_ne hsame] at hfound
        exact hinv.current other hother found hfound halive
  case work =>
    refine Effect.forall_goto ?_
    exact ⟨conn, rfl, hstored, { link with valid := false },
      List.getElem?_set_self hlt, rfl⟩
  case unique =>
    rw [Effect.goto_work, ← Multiset.cons_coe, uniqueTags_cons]
    exact ⟨by simp, uniqueTags_zero _⟩
  case fresh =>
    refine Effect.forall_goto ?_
    intro node hnode
    right
    intro other hother htag
    cases hnode
    obtain ⟨cause, rfl⟩ := eraseTag_eq_some htag
    obtain ⟨found, -, hlookup, dead, hdead, hfalse⟩ := hother
    obtain rfl := Option.some.inj (hstored.symm.trans hlookup)
    obtain rfl := Option.some.inj (hlink.symm.trans hdead)
    rw [hvalid] at hfalse
    cases hfalse
  case others =>
    intro other hother _
    refine hother.kept ?_ (fun _ _ _ hlookup => hlookup) (List.Subset.refl _)
    intro found before hbefore
    by_cases hsame : conn = found
    · subst hsame
      obtain rfl := Option.some.inj (hlink.symm.trans hbefore)
      exact ⟨{ link with valid := false }, List.getElem?_set_self hlt, rfl,
        fun _ => rfl⟩
    · refine ⟨before, ?_, rfl, fun h => h⟩
      rw [Effect.goto_shared, List.getElem?_set_ne hsame, hbefore]

/-- The entry that is erased is the one of the connection that died. -/
theorem erased_step (hinv : s.LinkInv) {node : UInt64} {trigger : Option Nat}
    (hsec : s.LinkOk (.sender (.linkErase node) trigger)) (haveAddr : Bool) :
    Program.TaggedStep LinkInv LinkOk RouteSection.eraseTag s
      (.sender (.linkErase node) trigger)
      (.goto { s with sender := { s.sender with
          connections := s.sender.connections.erase node } }
        [.sender (.linkFlag node haveAddr) trigger]) where
  inv := by
    obtain ⟨conn, -, hlookup, dead, hdead, hfalse⟩ := hsec
    refine ⟨hinv.known, ?_⟩
    intro other hother link hlink hvalid
    have hcurrent := hinv.current other hother link hlink hvalid
    rw [Effect.goto_shared, Table.lookup_erase]
    split
    · rename_i heq
      rw [heq, hlookup] at hcurrent
      obtain rfl := Option.some.inj hcurrent
      obtain rfl := Option.some.inj (hdead.symm.trans hlink)
      rw [hfalse] at hvalid
      cases hvalid
    · exact hcurrent
  work := by simp [LinkOk]
  unique := uniqueTags_of_none (by simp [RouteSection.eraseTag])
  fresh := by simp [RouteSection.eraseTag]
  others := by
    intro other hother htags
    refine hother.kept (fun _ link hlink => ⟨link, hlink, rfl, fun h => h⟩) ?_
      (List.Subset.refl _)
    intro found entry hfound hlookup
    rw [Effect.goto_shared, Table.lookup_erase, if_neg]
    · exact hlookup
    · rintro rfl
      exact htags found rfl hfound

theorem sender_step (hinv : s.LinkInv) {inner : SenderSection}
    {trigger : Option Nat} {choice : SenderChoice}
    {outcome : Effect SenderState SenderSection}
    (hsec : s.LinkOk (.sender inner trigger))
    (hguard : s.keepsLinks (.sender inner trigger) = true)
    (hexec : s.sender.exec inner choice = some outcome) :
    Program.TaggedStep LinkInv LinkOk RouteSection.eraseTag s
      (.sender inner trigger) (s.liftSender inner trigger outcome) := by
  rcases SenderState.exec_links hexec with
    ⟨hlinks, hconnections, hpool, hplain⟩ | ⟨node, rfl, rfl⟩ |
    ⟨node, conn, rfl, hinvalid, rfl⟩ | ⟨conn, link, rfl, hlink, hvalid, rfl⟩ |
    ⟨node, rfl, rfl⟩
  · have hpooled : s.poolAfter inner = s.pooled := by
      unfold poolAfter
      split
      · rw [if_pos (hpool _ _ rfl)]
      · rfl
    refine quietStep hinv hlinks hconnections hpooled ?_
    intro after hafter
    obtain ⟨sec, hmem, cause, rfl⟩ := mem_liftSender_work hafter
    exact linkOk_plain (hplain sec hmem)
  · exact dialed_step hinv node trigger
  · have hfree : s.sender.connections.lookup node = none := by
      simpa [keepsLinks, hinvalid] using hguard
    have hstep := stored_step hinv hsec hfree
    simpa [liftSender, poolAfter, hinvalid, Effect.goto] using hstep
  · exact died_step hinv hsec hlink hvalid
  · exact erased_step hinv hsec _

/-- One section keeps the valid stored connections stored. -/
theorem exec_linkStep (hinv : s.LinkInv) {choice : RouteChoice}
    (hsec : s.LinkOk sec) (hguard : s.keepsLinks sec = true)
    (hexec : s.exec sec choice = some effect) :
    Program.TaggedStep LinkInv LinkOk RouteSection.eraseTag s sec effect := by
  cases sec with
  | sender inner trigger =>
      cases choice <;> simp only [exec, reduceCtorEq] at hexec
      obtain ⟨outcome, houtcome, rfl⟩ := Option.map_eq_some_iff.mp hexec
      exact sender_step hinv hsec hguard houtcome
  | getOrCreateRemoteProxy uri selfNode =>
      obtain ⟨node, -, rfl⟩ := Option.map_eq_some_iff.mp hexec
      exact quietStep hinv rfl rfl rfl (by simp [LinkOk, RouteSection.eraseTag])
  | replayFind frame =>
      cases choice <;> simp only [exec, reduceCtorEq] at hexec
      · split at hexec
        · obtain rfl := Option.some.inj hexec
          exact quietStep hinv rfl rfl rfl
            (by simp [LinkOk, RouteSection.eraseTag])
        · cases hexec
      · obtain rfl := Option.some.inj hexec
        exact quietStep hinv rfl rfl rfl (by simp)
  | replayPost node conn msgId frame =>
      simp only [exec] at hexec
      split at hexec <;> obtain rfl := Option.some.inj hexec
      · exact quietStep hinv rfl rfl rfl
          (by simp [LinkOk, RouteSection.eraseTag])
      · exact quietStep hinv rfl rfl rfl (by simp)
  | replayTrack node msgId frame =>
      obtain rfl := Option.some.inj hexec
      exact quietStep hinv rfl rfl rfl (by simp)

theorem entry_linkOk (hentry : s.entry sec = true) :
    s.LinkOk sec ∧ sec.eraseTag = none := by
  cases sec with
  | sender inner trigger =>
      cases trigger with
      | some conn => cases inner <;> cases hentry
      | none =>
          cases inner
          case notifyDead conn =>
            exact ⟨of_decide_eq_true (p := conn ∈ s.pooled) hentry, rfl⟩
          all_goals first | exact ⟨trivial, rfl⟩ | cases hentry
  | _ => exact ⟨trivial, rfl⟩

/-- Every interleaving in which no entry is replaced. -/
theorem links_of_run {log : Option RemoteLog} {file : List UInt8}
    (word : List (Move RouteSection RouteChoice))
    {last : Config RouteState RouteSection}
    (hmeets : (routeProgram.machine (.init log file)).Meets
      (Program.OnSections fun s _ sec _ => s.keepsLinks sec = true) word)
    (hrun : (routeProgram.machine (.init log file)).run word = some last) :
    Program.Tagged LinkInv LinkOk RouteSection.eraseTag last.shared
      last.pending := by
  have hinit : (init log file).LinkInv := by
    constructor <;> (intro conn hconn; cases hconn)
  refine routeProgram.tagged_invariant hinit ?_ ?_ word hmeets hrun
  · intro s sec _ hentry
    exact entry_linkOk hentry
  · intro s sec choice effect hinv hsec hguard hexec
    exact exec_linkStep hinv hsec hguard hexec

end RouteState

/-- Whatever `on_link_dead` is about to erase is the connection that called
it. -/
def ErasesOwn (cfg : Config RouteState RouteSection) : Prop :=
  ∀ node trigger conn, .sender (.linkErase node) trigger ∈ cfg.pending →
    cfg.shared.sender.connections.lookup node = some conn →
    trigger = some conn

/-- No valid connection of the pool was dropped from it. -/
def KeepsValid (s : RouteState) : Prop :=
  ∀ conn ∈ s.pooled, ∀ link : Link, s.sender.links[conn]? = some link →
    link.valid = true → s.sender.connections.lookup link.node = some conn

/-- As long as `connect_to_node` stores a connection only where no other one
is waiting to be erased, the death of a link removes that link. -/
theorem link_death_erases_own (log : Option RemoteLog) (file : List UInt8)
    (word : List (Move RouteSection RouteChoice))
    (last : Config RouteState RouteSection)
    (hmeets : (routeProgram.machine (.init log file)).Meets
      (Program.OnSections fun s _ sec _ => s.keepsLinks sec = true) word)
    (hrun : (routeProgram.machine (.init log file)).run word = some last) :
    ErasesOwn last ∧ KeepsValid last.shared := by
  obtain ⟨⟨hinv, hok⟩, -⟩ := RouteState.links_of_run word hmeets hrun
  refine ⟨?_, hinv.current⟩
  intro node trigger conn hpending hlookup
  obtain ⟨dead, htrigger, hstored, -⟩ := hok _ hpending
  rw [htrigger, ← hstored, hlookup]

/-- A connection to node 2 is stored and dies; before its `on_link_dead` gets
to `m_connections`, the next connection to node 2 is stored. -/
def staleDeath : List (Move RouteSection RouteChoice) :=
  [.call (.sender (.connectCheck 2) none), .run 0 (.sender .go),
    .run 0 (.sender (.dialed true)), .run 0 (.sender .go),
    .call (.sender (.notifyDead 0) none), .run 1 (.sender .go),
    .call (.sender (.connectCheck 2) none), .run 2 (.sender .go),
    .run 2 (.sender (.dialed true)), .run 2 (.sender .go)]

/-- The death of connection 0 erases connection 1, which is valid. -/
theorem staleDeath_erases_other :
    (∃ last, (routeProgram.machine (.init none [])).run staleDeath =
        some last ∧ ¬ ErasesOwn last) ∧
      ∃ last, (routeProgram.machine (.init none [])).run
        (staleDeath ++ [.run 1 (.sender .go)]) = some last ∧
          ¬ KeepsValid last.shared := by
  constructor
  · have hrun : ((routeProgram.machine (.init none [])).run staleDeath).any
        (fun cfg => cfg.threads[1]? = some [.sender (.linkErase 2) (some 0)] ∧
          cfg.shared.sender.connections.lookup 2 = some 1) = true := by
      decide
    obtain ⟨last, hlast, hfacts⟩ := (Option.any_eq_true _ _).mp hrun
    obtain ⟨hthread, hlookup⟩ := of_decide_eq_true hfacts
    refine ⟨last, hlast, fun hown => ?_⟩
    have hpending : .sender (.linkErase 2) (some 0) ∈ last.pending := by
      simp only [Config.pending, Multiset.mem_coe, List.mem_flatten]
      exact ⟨_, List.mem_of_getElem? hthread, by simp⟩
    simpa using hown 2 (some 0) 1 hpending hlookup
  · have hrun : ((routeProgram.machine (.init none [])).run
        (staleDeath ++ [.run 1 (.sender .go)])).any
        (fun cfg => 1 ∈ cfg.shared.pooled ∧
          cfg.shared.sender.links[1]? = some ⟨2, true⟩ ∧
          cfg.shared.sender.connections.lookup 2 = none) = true := by
      decide
    obtain ⟨last, hlast, hfacts⟩ := (Option.any_eq_true _ _).mp hrun
    obtain ⟨hpooled, hlink, hlookup⟩ := of_decide_eq_true hfacts
    refine ⟨last, hlast, fun hkeeps => ?_⟩
    simpa [hlookup] using hkeeps 1 hpooled ⟨2, true⟩ hlink rfl

/-- The first connection's entry is erased before the second is stored. -/
def orderedDeath : List (Move RouteSection RouteChoice) :=
  [.call (.sender (.connectCheck 2) none), .run 0 (.sender .go),
    .run 0 (.sender (.dialed true)), .run 0 (.sender .go),
    .call (.sender (.notifyDead 0) none), .run 1 (.sender .go),
    .run 1 (.sender .go), .call (.sender (.connectCheck 2) none),
    .run 2 (.sender .go), .run 2 (.sender (.dialed true)),
    .run 2 (.sender .go)]

theorem link_death_erases_own_orderedDeath :
    ∃ last, (routeProgram.machine (.init none [])).run orderedDeath =
        some last ∧ last.shared.pooled = [1, 0] ∧ ErasesOwn last ∧
      KeepsValid last.shared := by
  have hmeets : (routeProgram.machine (.init none [])).Meets
      (Program.OnSections fun s _ sec _ => s.keepsLinks sec = true)
      orderedDeath := by
    decide
  have hrun : ((routeProgram.machine (.init none [])).run orderedDeath).any
      (fun cfg => cfg.shared.pooled = [1, 0]) = true := by
    decide
  obtain ⟨last, hlast, hpooled⟩ := (Option.any_eq_true _ _).mp hrun
  exact ⟨last, hlast, of_decide_eq_true hpooled,
    link_death_erases_own none [] orderedDeath last hmeets hlast⟩

end UltraNet
