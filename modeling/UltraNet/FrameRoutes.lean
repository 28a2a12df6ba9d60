/-
Where a routed frame goes.  A proxy, an entry of `m_unacked` and a pooled
connection each carry a node id; the frame names its destination in the URI.
The two agree on every path that transmits a frame, except the replay of the
log, which takes the first valid connection that it finds.
-/
import UltraNet.PooledLinks

namespace UltraNet

/-- If the frame is for a node at all, it is for this one. -/
def Addressed (node : UInt64) (frame : List UInt8) : Prop :=
  ∀ dest, frameNode frame = some dest → node = dest

namespace Proxy

/-- If the URI names a node at all, the proxy was made for it. -/
def Named (proxy : Proxy) : Prop :=
  ∀ dest, stoull proxy.uri.node = some dest → proxy.node = dest

theorem Named.addressed {proxy : Proxy} (hnamed : proxy.Named)
    (msg : BufferedMessage) : Addressed proxy.node (proxy.packRouted msg) := by
  intro dest hdest
  exact hnamed dest (frameNode_packRouted hdest)

/-- A proxy for the text of a node id is a proxy for that node. -/
theorem Named.node_eq {proxy : Proxy} (hnamed : proxy.Named) {node : UInt64}
    (htarget : proxy.node = node ∨ proxy.uri.node = nodeText node) :
    proxy.node = node := by
  rcases htarget with heq | htext
  · exact heq
  · exact hnamed node (by rw [htext, stoull_nodeText])

end Proxy

namespace RouteState

/-- The connection was stored, and it goes to the node. -/
def Leads (s : RouteState) (conn : Nat) (node : UInt64) : Prop :=
  conn ∈ s.pooled ∧
    ∃ link : Link, s.sender.links[conn]? = some link ∧ link.node = node

def Fits (s : RouteState) (conn : Nat) (frame : List UInt8) : Prop :=
  ∃ node, s.Leads conn node ∧ Addressed node frame

/-- The connection goes to the node of the proxy. -/
def Serves (s : RouteState) (conn i : Nat) : Prop :=
  ∃ proxy, s.sender.proxies[i]? = some proxy ∧ s.Leads conn proxy.node

structure RouteInv (s : RouteState) : Prop where
  stored : ∀ node conn, s.sender.connections.lookup node = some conn →
    s.Leads conn node
  named : ∀ proxy ∈ s.sender.proxies, proxy.Named
  bound : ∀ proxy ∈ s.sender.proxies, ∀ conn, proxy.conn = some conn →
    s.Leads conn proxy.node
  unacked : ∀ msgId item, s.sender.unacked.lookup msgId = some item →
    Addressed item.node item.frame

/-- What a pending section of the sender knows about its connection and its
frame. -/
def SenderOk (s : RouteState) : SenderSection → Prop
  | .newProxy uri node selfNode conn =>
      (Proxy.mk uri node selfNode true conn []).Named ∧
        ∀ found, conn = some found → s.Leads found node
  | .deliverPost conn _ frame | .flushPost conn _ frame
  | .resendPost conn _ frame | .timeoutPost conn frame => s.Fits conn frame
  | .connectPool node conn => ∃ link : Link,
      s.sender.links[conn]? = some link ∧ link.node = node
  | .connectProxies node conn | .resendCollect node conn => s.Leads conn node
  | .flushSwap i conn | .flushLog i conn _ | .flushTrack i conn _ =>
      s.Serves conn i
  | .recoverCheck node conn => ∀ found, conn = some found → s.Leads found node
  | .timeoutLookup node frame => Addressed node frame
  | _ => True

def RouteOk (s : RouteState) : RouteSection → Prop
  | .sender sec _ => s.SenderOk sec
  | .replayPost node conn _ frame => s.Leads conn node ∧ Addressed node frame
  | .replayTrack node _ frame => Addressed node frame
  | _ => True

/-- What no step takes back: connections stay stored and keep their node, and
a proxy stays in its place with its node. -/
structure Grows (s next : RouteState) : Prop where
  pooled : s.pooled ⊆ next.pooled
  links : ∀ (conn : Nat) (link : Link), s.sender.links[conn]? = some link →
    ∃ after : Link, next.sender.links[conn]? = some after ∧
      after.node = link.node
  proxies : ∀ (i : Nat) (proxy : Proxy), s.sender.proxies[i]? = some proxy →
    ∃ after : Proxy, next.sender.proxies[i]? = some after ∧
      after.node = proxy.node

variable {s next : RouteState} {conn : Nat} {node : UInt64}
  {frame : List UInt8}

namespace Grows

variable (hgrows : s.Grows next)
include hgrows

theorem leads (hleads : s.Leads conn node) : next.Leads conn node := by
  obtain ⟨hpooled, link, hlink, hnode⟩ := hleads
  obtain ⟨after, hafter, hsame⟩ := hgrows.links conn link hlink
  exact ⟨hgrows.pooled hpooled, after, hafter, hsame.trans hnode⟩

theorem fits (hfits : s.Fits conn frame) : next.Fits conn frame := by
  obtain ⟨node, hleads, haddressed⟩ := hfits
  exact ⟨node, hgrows.leads hleads, haddressed⟩

theorem serves {i : Nat} (hserves : s.Serves conn i) : next.Serves conn i := by
  obtain ⟨proxy, hproxy, hleads⟩ := hserves
  obtain ⟨after, hafter, hsame⟩ := hgrows.proxies i proxy hproxy
  exact ⟨after, hafter, hsame ▸ hgrows.leads hleads⟩

theorem senderOk {sec : SenderSection} (hsec : s.SenderOk sec) :
    next.SenderOk sec := by
  cases sec <;> simp only [SenderOk] at hsec ⊢
  case newProxy uri node selfNode conn =>
    exact ⟨hsec.1, fun found hfound => hgrows.leads (hsec.2 found hfound)⟩
  case connectPool node conn =>
    obtain ⟨link, hlink, hnode⟩ := hsec
    obtain ⟨after, hafter, hsame⟩ := hgrows.links conn link hlink
    exact ⟨after, hafter, hsame.trans hnode⟩
  case recoverCheck node conn =>
    exact fun found hfound => hgrows.leads (hsec found hfound)
  case connectProxies | resendCollect => exact hgrows.leads hsec
  case flushSwap | flushLog | flushTrack => exact hgrows.serves hsec
  case deliverPost | flushPost | resendPost | timeoutPost =>
    exact hgrows.fits hsec
  case timeoutLookup => exact hsec

theorem routeOk {sec : RouteSection} (hsec : s.RouteOk sec) :
    next.RouteOk sec := by
  cases sec with
  | sender inner trigger => exact hgrows.senderOk hsec
  | replayPost node conn msgId frame => exact ⟨hgrows.leads hsec.1, hsec.2⟩
  | replayTrack node msgId frame => exact hsec
  | getOrCreateRemoteProxy uri selfNode => trivial
  | replayFind frame => trivial

end Grows

/-- A step that changes at most `m_unacked` of what the invariant reads. -/
theorem RouteInv.unchanged (hinv : s.RouteInv) (hpooled : next.pooled = s.pooled)
    (hlinks : next.sender.links = s.sender.links)
    (hconnections : next.sender.connections = s.sender.connections)
    (hproxies : next.sender.proxies = s.sender.proxies)
    (hunacked : ∀ msgId item, next.sender.unacked.lookup msgId = some item →
      Addressed item.node item.frame) : s.Grows next ∧ next.RouteInv := by
  have hgrows : s.Grows next := by
    constructor
    · rw [hpooled]
      exact List.Subset.refl _
    · intro conn link hlink
      exact ⟨link, by rw [hlinks, hlink], rfl⟩
    · intro i proxy hproxy
      exact ⟨proxy, by rw [hproxies, hproxy], rfl⟩
  refine ⟨hgrows, ⟨?_, ?_, ?_, hunacked⟩⟩
  · intro node conn hlookup
    rw [hconnections] at hlookup
    exact hgrows.leads (hinv.stored node conn hlookup)
  · rw [hproxies]
    exact hinv.named
  · intro proxy hproxy conn hconn
    rw [hproxies] at hproxy
    exact hgrows.leads (hinv.bound proxy hproxy conn hconn)

/-- A proxy is bound to a connection of its own node, or to none. -/
theorem RouteInv.setProxy (hinv : s.RouteInv) {i : Nat} {before : Proxy}
    (hbefore : s.sender.proxies[i]? = some before) (after : Proxy)
    (huri : after.uri = before.uri) (hnode : after.node = before.node)
    (hconn : ∀ conn, after.conn = some conn → s.Leads conn after.node) :
    s.Grows { s with sender := s.sender.setProxy i after } ∧
      RouteInv { s with sender := s.sender.setProxy i after } := by
  have hgrows : s.Grows { s with sender := s.sender.setProxy i after } := by
    refine ⟨List.Subset.refl _, fun conn link hlink => ⟨link, hlink, rfl⟩, ?_⟩
    intro j proxy hproxy
    obtain ⟨hlt, -⟩ := List.getElem?_eq_some_iff.mp hbefore
    by_cases hsame : i = j
    · subst hsame
      obtain rfl := Option.some.inj (hbefore.symm.trans hproxy)
      exact ⟨after, List.getElem?_set_self hlt, hnode⟩
    · refine ⟨proxy, ?_, rfl⟩
      rw [SenderState.setProxy, List.getElem?_set_ne hsame, hproxy]
  have hnamed : after.Named := by
    rw [Proxy.Named, huri, hnode]
    exact hinv.named before (List.mem_of_getElem? hbefore)
  refine ⟨hgrows, ⟨?_, ?_, ?_, hinv.unacked⟩⟩
  · intro node conn hlookup
    exact hgrows.leads (hinv.stored node conn hlookup)
  · intro proxy hproxy
    rcases List.mem_or_eq_of_mem_set hproxy with hold | rfl
    · exact hinv.named proxy hold
    · exact hnamed
  · intro proxy hproxy conn hbound
    rcases List.mem_or_eq_of_mem_set hproxy with hold | rfl
    · exact hgrows.leads (hinv.bound proxy hold conn hbound)
    · exact hgrows.leads (hconn conn hbound)

/-- A tracked frame is addressed to the node it is filed under. -/
theorem addressed_track {unacked : Unacked} {msgId : UInt64}
    (hunacked : ∀ id item, unacked.lookup id = some item →
      Addressed item.node item.frame) (haddressed : Addressed node frame) :
    ∀ id item, (unacked.trackUnacked node msgId frame).lookup id = some item →
      Addressed item.node item.frame := by
  intro id item hitem
  obtain ⟨-, rfl⟩ | ⟨-, hold⟩ := Table.of_lookup_insert hitem
  · exact haddressed
  · exact hunacked id item hold

/-- Flags do not matter. -/
theorem addressed_modify {unacked : Unacked} {msgId : UInt64}
    {f : UnackedItem → UnackedItem}
    (hf : ∀ item, (f item).node = item.node ∧ (f item).frame = item.frame)
    (hunacked : ∀ id item, unacked.lookup id = some item →
      Addressed item.node item.frame) :
    ∀ id item, (Table.modify unacked msgId f).lookup id = some item →
      Addressed item.node item.frame := by
  intro id item hitem
  rw [Table.lookup_modify] at hitem
  split at hitem
  · obtain ⟨before, hbefore, rfl⟩ := Option.map_eq_some_iff.mp hitem
    rw [(hf before).1, (hf before).2]
    exact hunacked _ before hbefore
  · exact hunacked id item hitem

/-- What a section of the sender shows. -/
def Routed (s next : RouteState) (work : Multiset SenderSection) : Prop :=
  s.Grows next ∧ next.RouteInv ∧ ∀ after ∈ work, next.SenderOk after

theorem Routed.of {work : Multiset SenderSection}
    (hkept : s.Grows next ∧ next.RouteInv)
    (hwork : ∀ after ∈ work, s.SenderOk after) : Routed s next work :=
  ⟨hkept.1, hkept.2, fun after hafter => hkept.1.senderOk (hwork after hafter)⟩

variable {sec : SenderSection} {choice : SenderChoice}
  {outcome : Effect SenderState SenderSection}

/-- The sections that touch neither a connection, nor a proxy, nor
`m_unacked`. -/
theorem Routed.plain (hinv : s.RouteInv) {after : SenderState}
    {work : Multiset SenderSection} (hlinks : after.links = s.sender.links)
    (hconnections : after.connections = s.sender.connections)
    (hproxies : after.proxies = s.sender.proxies)
    (hunacked : after.unacked = s.sender.unacked)
    (hwork : ∀ sec ∈ work, s.SenderOk sec) :
    Routed s ⟨after, s.pooled⟩ work := by
  refine .of (hinv.unchanged rfl hlinks hconnections hproxies ?_) hwork
  rw [hunacked]
  exact hinv.unacked

theorem deliver_routed (hinv : s.RouteInv) (hsec : s.SenderOk sec)
    (hexec : s.sender.deliver sec choice = some outcome) :
    Routed s ⟨outcome.shared, s.pooled⟩ outcome.work := by
  cases sec <;> simp only [SenderState.deliver, reduceCtorEq] at hexec
  case newProxy uri node selfNode conn =>
    obtain rfl := Option.some.inj hexec
    have hgrows : s.Grows ⟨{ s.sender with proxies := s.sender.proxies ++
        [⟨uri, node, selfNode, true, conn, []⟩] }, s.pooled⟩ := by
      refine ⟨List.Subset.refl _, fun conn link hlink => ⟨link, hlink, rfl⟩, ?_⟩
      intro i proxy hproxy
      obtain ⟨hlt, -⟩ := List.getElem?_eq_some_iff.mp hproxy
      refine ⟨proxy, ?_, rfl⟩
      rw [List.getElem?_append_left hlt, hproxy]
    refine ⟨hgrows, ⟨?_, ?_, ?_, hinv.unacked⟩, by simp⟩
    · intro node conn hlookup
      exact hgrows.leads (hinv.stored node conn hlookup)
    · intro proxy hproxy
      rcases List.mem_append.mp hproxy with hold | hnew
      · exact hinv.named proxy hold
      · rw [List.mem_singleton.mp hnew]
        exact hsec.1
    · intro proxy hproxy found hfound
      rcases List.mem_append.mp hproxy with hold | hnew
      · exact hgrows.leads (hinv.bound proxy hold found hfound)
      · rw [List.mem_singleton.mp hnew] at hfound ⊢
        exact hgrows.leads (hsec.2 found hfound)
  case tryDeliver i msg =>
    split at hexec <;> obtain rfl := Option.some.inj hexec <;>
      exact .plain hinv rfl rfl rfl rfl (by simp [SenderOk])
  case deliverLog i msg =>
    obtain ⟨proxy, -, hexec⟩ := Option.bind_eq_some_iff.mp hexec
    obtain ⟨⟨ok, next⟩, happend, rfl⟩ := Option.map_eq_some_iff.mp hexec
    rw [SenderState.appendData_eq happend]
    cases ok <;> exact .plain hinv rfl rfl rfl rfl (by simp [SenderOk])
  case deliverTrack i msg =>
    obtain ⟨proxy, hproxy, rfl⟩ := Option.map_eq_some_iff.mp hexec
    have hnamed := hinv.named proxy (List.mem_of_getElem? hproxy)
    exact .of (hinv.unchanged rfl rfl rfl rfl
      (addressed_track hinv.unacked (hnamed.addressed msg))) (by simp [SenderOk])
  case deliverProxy i msg =>
    obtain ⟨proxy, hproxy, rfl⟩ := Option.map_eq_some_iff.mp hexec
    have hmem := List.mem_of_getElem? hproxy
    split
    · split
      · exact .plain hinv rfl rfl rfl rfl (by simp)
      · exact .of (hinv.setProxy hproxy _ rfl rfl
          (hinv.bound proxy hmem))
          (by simp)
    · rename_i conn hconn
      split
      · have hleads := hinv.bound proxy hmem conn
          (Option.filter_eq_some_iff.mp hconn).1
        refine .plain hinv rfl rfl rfl rfl ?_
        refine Effect.forall_goto ?_
        exact ⟨proxy.node, hleads, (hinv.named proxy hmem).addressed msg⟩
      · exact .plain hinv rfl rfl rfl rfl (by simp)
  case deliverPost conn msgId frame =>
    split at hexec <;> obtain rfl := Option.some.inj hexec <;>
      exact .plain hinv rfl rfl rfl rfl (by simp [SenderOk])
  case noteSendFailed msgId =>
    obtain rfl := Option.some.inj hexec
    exact .of (hinv.unchanged rfl rfl rfl rfl
      (addressed_modify (fun _ => ⟨rfl, rfl⟩) hinv.unacked)) (by simp)

/-- `m_connections` gets a connection that was dialed for the node. -/
theorem stored_routed (hinv : s.RouteInv)
    (hsec : s.SenderOk (.connectPool node conn)) :
    Routed s ⟨{ s.sender with
        connections := s.sender.connections.insert node conn },
        conn :: s.pooled⟩
      ([.connectProxies node conn, .resendCollect node conn] :
        List SenderSection) := by
  have hgrows : s.Grows ⟨{ s.sender with
      connections := s.sender.connections.insert node conn },
      conn :: s.pooled⟩ :=
    ⟨List.subset_cons_self _ _, fun conn link hlink => ⟨link, hlink, rfl⟩,
      fun i proxy hproxy => ⟨proxy, hproxy, rfl⟩⟩
  have hleads : Leads ⟨{ s.sender with
      connections := s.sender.connections.insert node conn },
      conn :: s.pooled⟩ conn node := ⟨List.mem_cons_self .., hsec⟩
  refine ⟨hgrows, ⟨?_, hinv.named, ?_, hinv.unacked⟩, ?_⟩
  · intro other found hlookup
    obtain ⟨rfl, rfl⟩ | ⟨-, hold⟩ := Table.of_lookup_insert hlookup
    · exact hleads
    · exact hgrows.leads (hinv.stored other found hold)
  · intro proxy hproxy found hfound
    exact hgrows.leads (hinv.bound proxy hproxy found hfound)
  · simp only [Multiset.mem_coe, List.mem_cons, List.not_mem_nil, or_false]
    rintro after (rfl | rfl) <;> exact hleads

theorem dialed_routed (hinv : s.RouteInv) (node : UInt64) :
    Routed s ⟨{ s.sender with links := s.sender.links ++ [⟨node, true⟩] },
        s.pooled⟩
      ([.connectPool node s.sender.links.length] : List SenderSection) := by
  have hgrows : s.Grows ⟨{ s.sender with
      links := s.sender.links ++ [⟨node, true⟩] }, s.pooled⟩ := by
    refine ⟨List.Subset.refl _, ?_, fun i proxy hproxy => ⟨proxy, hproxy, rfl⟩⟩
    intro conn link hlink
    obtain ⟨hlt, -⟩ := List.getElem?_eq_some_iff.mp hlink
    refine ⟨link, ?_, rfl⟩
    rw [List.getElem?_append_left hlt, hlink]
  refine ⟨hgrows, ⟨?_, hinv.named, ?_, hinv.unacked⟩, ?_⟩
  · intro other found hlookup
    exact hgrows.leads (hinv.stored other found hlookup)
  · intro proxy hproxy found hfound
    exact hgrows.leads (hinv.bound proxy hproxy found hfound)
  · simp [SenderOk]

theorem connect_routed (hinv : s.RouteInv) (hsec : s.SenderOk sec)
    (hexec : s.sender.connect sec choice = some outcome) :
    Routed s ⟨outcome.shared, s.poolAfter sec⟩ outcome.work := by
  cases sec <;> simp only [SenderState.connect, reduceCtorEq] at hexec
  case connectCheck node =>
    split at hexec <;> obtain rfl := Option.some.inj hexec <;>
      exact .plain hinv rfl rfl rfl rfl (by simp [SenderOk])
  case connectDial node =>
    cases choice <;> simp only [reduceCtorEq] at hexec
    split at hexec <;> obtain rfl := Option.some.inj hexec
    · simpa [poolAfter] using dialed_routed hinv node
    · exact .plain hinv rfl rfl rfl rfl (by simp)
  case connectPool node conn =>
    split at hexec <;> rename_i hvalid <;> obtain rfl := Option.some.inj hexec
    · simp only [poolAfter, hvalid, if_true]
      exact .plain hinv rfl rfl rfl rfl (by simp)
    · simpa [poolAfter, hvalid] using stored_routed hinv hsec
  case connectProxies node conn =>
    obtain rfl := Option.some.inj hexec
    refine .plain hinv rfl rfl rfl rfl ?_
    simp only [Effect.goto_work, Multiset.mem_coe, List.mem_map,
      List.mem_filter, Option.any_eq_true, decide_eq_true_eq]
    rintro after ⟨i, ⟨-, proxy, hproxy, htarget⟩, rfl⟩
    have hnamed := hinv.named proxy (List.mem_of_getElem? hproxy)
    exact ⟨proxy, hproxy, hnamed.node_eq htarget ▸ hsec⟩
  case flushSwap i conn =>
    obtain ⟨proxy, hproxy, rfl⟩ := Option.map_eq_some_iff.mp hexec
    obtain ⟨found, hfound, hleads⟩ := hsec
    obtain rfl := Option.some.inj (hproxy.symm.trans hfound)
    have hkept := hinv.setProxy hproxy
      { proxy with conn := some conn, buffered := [] } rfl rfl
      (fun other hother => Option.some.inj hother ▸ hleads)
    split
    · refine .of hkept ?_
      simp only [Effect.goto_work, Multiset.mem_coe, List.mem_map]
      rintro after ⟨msg, -, rfl⟩
      exact ⟨proxy, hproxy, hleads⟩
    · exact .of hkept (by simp)
  case flushLog i conn msg =>
    obtain ⟨proxy, -, hexec⟩ := Option.bind_eq_some_iff.mp hexec
    obtain ⟨⟨ok, next⟩, happend, rfl⟩ := Option.map_eq_some_iff.mp hexec
    rw [SenderState.appendData_eq happend]
    cases ok
    · exact .plain hinv rfl rfl rfl rfl (by simp [SenderOk])
    · exact .plain hinv rfl rfl rfl rfl (by simpa [SenderOk] using hsec)
  case flushTrack i conn msg =>
    obtain ⟨proxy, hproxy, rfl⟩ := Option.map_eq_some_iff.mp hexec
    obtain ⟨found, hfound, hleads⟩ := hsec
    obtain rfl := Option.some.inj (hproxy.symm.trans hfound)
    have hnamed := hinv.named proxy (List.mem_of_getElem? hproxy)
    refine .of (hinv.unchanged rfl rfl rfl rfl
      (addressed_track hinv.unacked (hnamed.addressed msg))) ?_
    refine Effect.forall_goto ?_
    exact ⟨proxy.node, hleads, hnamed.addressed msg⟩
  case flushPost conn msgId frame =>
    split at hexec <;> obtain rfl := Option.some.inj hexec <;>
      exact .plain hinv rfl rfl rfl rfl (by simp [SenderOk])
  case resendCollect node conn =>
    obtain rfl := Option.some.inj hexec
    refine .plain hinv rfl rfl rfl rfl ?_
    simp only [Effect.goto_work, Multiset.mem_coe, List.mem_map,
      Unacked.flagged, List.mem_filter, decide_eq_true_eq]
    rintro after ⟨-, ⟨entry, ⟨hentry, hnode, -⟩, rfl⟩, rfl⟩
    have hitem := (Table.lookup_eq_some_iff s.sender.unacked entry.1
      entry.2).mpr hentry
    exact ⟨node, hsec, hnode ▸ hinv.unacked entry.1 entry.2 hitem⟩
  case resendPost conn msgId frame =>
    split at hexec <;> obtain rfl := Option.some.inj hexec <;>
      exact .plain hinv rfl rfl rfl rfl (by simp [SenderOk])
  case resendMark msgId =>
    obtain rfl := Option.some.inj hexec
    exact .of (hinv.unchanged rfl rfl rfl rfl
      (addressed_modify (fun _ => ⟨rfl, rfl⟩) hinv.unacked)) (by simp)

theorem linkDead_routed (hinv : s.RouteInv)
    (hexec : s.sender.linkDead sec = some outcome) :
    Routed s ⟨outcome.shared, s.pooled⟩ outcome.work := by
  cases sec <;> simp only [SenderState.linkDead, reduceCtorEq] at hexec
  case notifyDead conn =>
    obtain ⟨link, hlink, rfl⟩ := Option.map_eq_some_iff.mp hexec
    obtain ⟨hlt, -⟩ := List.getElem?_eq_some_iff.mp hlink
    split
    · have hgrows : s.Grows ⟨{ s.sender with
          links := s.sender.links.set conn { link with valid := false } },
          s.pooled⟩ := by
        refine ⟨List.Subset.refl _, ?_,
          fun i proxy hproxy => ⟨proxy, hproxy, rfl⟩⟩
        intro other found hfound
        by_cases hsame : conn = other
        · subst hsame
          obtain rfl := Option.some.inj (hlink.symm.trans hfound)
          exact ⟨_, List.getElem?_set_self hlt, rfl⟩
        · refine ⟨found, ?_, rfl⟩
          rw [List.getElem?_set_ne hsame, hfound]
      refine ⟨hgrows, ⟨?_, hinv.named, ?_, hinv.unacked⟩, by simp [SenderOk]⟩
      · intro other found hlookup
        exact hgrows.leads (hinv.stored other found hlookup)
      · intro proxy hproxy found hfound
        exact hgrows.leads (hinv.bound proxy hproxy found hfound)
    · exact .plain hinv rfl rfl rfl rfl (by simp)
  case linkErase node =>
    obtain rfl := Option.some.inj hexec
    have hgrows : s.Grows ⟨{ s.sender with
        connections := s.sender.connections.erase node }, s.pooled⟩ :=
      ⟨List.Subset.refl _, fun conn link hlink => ⟨link, hlink, rfl⟩,
        fun i proxy hproxy => ⟨proxy, hproxy, rfl⟩⟩
    refine ⟨hgrows, ⟨?_, hinv.named, ?_, hinv.unacked⟩, by simp [SenderOk]⟩
    · intro other found hlookup
      have hold := (Table.of_lookup_erase hlookup).2
      exact hgrows.leads (hinv.stored other found hold)
    · intro proxy hproxy found hfound
      exact hgrows.leads (hinv.bound proxy hproxy found hfound)
  case linkFlag node haveAddr =>
    obtain rfl := Option.some.inj hexec
    refine .of (hinv.unchanged rfl rfl rfl rfl ?_) (by simp [SenderOk])
    intro msgId item hitem
    simp only [Effect.goto_shared, Unacked.flagNode, Table.lookup_mapVals]
      at hitem
    obtain ⟨before, hbefore, rfl⟩ := Option.map_eq_some_iff.mp hitem
    have haddressed := hinv.unacked msgId before hbefore
    split <;> exact haddressed
  case linkProxies node haveAddr =>
    obtain rfl := Option.some.inj hexec
    refine .plain hinv rfl rfl rfl rfl ?_
    simp only [Effect.goto_work, Multiset.mem_coe, List.mem_append,
      List.mem_map, List.mem_singleton]
    rintro after (⟨i, -, rfl⟩ | rfl) <;> trivial
  case dropConnection i =>
    obtain ⟨proxy, hproxy, rfl⟩ := Option.map_eq_some_iff.mp hexec
    exact .of (hinv.setProxy hproxy { proxy with conn := none } rfl rfl (by simp))
      (by simp)
  case linkRecover node haveAddr =>
    repeat' split at hexec
    all_goals obtain rfl := Option.some.inj hexec
    all_goals refine .plain hinv rfl rfl rfl rfl ?_
    all_goals simp [Effect.work, Effect.done, SenderOk]

theorem recover_routed (hinv : s.RouteInv) (hsec : s.SenderOk sec)
    (hexec : s.sender.recover sec choice = some outcome) :
    Routed s ⟨outcome.shared, s.pooled⟩ outcome.work := by
  cases sec <;> simp only [SenderState.recover, reduceCtorEq] at hexec
  case recoverSleep node =>
    cases choice <;> simp only [reduceCtorEq] at hexec
    split at hexec <;> obtain rfl := Option.some.inj hexec <;>
      exact .plain hinv rfl rfl rfl rfl (by simp [SenderOk])
  case recoverLookup node =>
    obtain rfl := Option.some.inj hexec
    refine .plain hinv rfl rfl rfl rfl ?_
    refine Effect.forall_goto ?_
    exact hinv.stored node
  case recoverCheck node conn =>
    split at hexec <;> rename_i hfilter <;> obtain rfl := Option.some.inj hexec
    · exact .plain hinv rfl rfl rfl rfl (by simp [SenderOk])
    · rename_i valid
      have hleads := hsec valid (Option.filter_eq_some_iff.mp hfilter).1
      refine .plain hinv rfl rfl rfl rfl ?_
      simp only [Effect.goto_work, Multiset.mem_coe, List.mem_cons,
        List.not_mem_nil, or_false]
      rintro after (rfl | rfl)
      · exact hleads
      · trivial
  all_goals
    repeat' split at hexec
    all_goals obtain rfl := Option.some.inj hexec
    all_goals exact .plain hinv rfl rfl rfl rfl (by simp [SenderOk])

theorem ackTimeout_routed (hinv : s.RouteInv) (hsec : s.SenderOk sec)
    (hexec : s.sender.ackTimeout sec choice = some outcome) :
    Routed s ⟨outcome.shared, s.pooled⟩ outcome.work := by
  cases sec <;> simp only [SenderState.ackTimeout, reduceCtorEq] at hexec
  case timeoutCollect =>
    cases choice <;> simp only [reduceCtorEq] at hexec
    obtain rfl := Option.some.inj hexec
    refine .plain hinv rfl rfl rfl rfl ?_
    simp only [Effect.goto_work, Multiset.mem_coe, List.mem_map,
      List.mem_filter]
    rintro after ⟨entry, ⟨hentry, -⟩, rfl⟩
    exact hinv.unacked entry.1 entry.2
      ((Table.lookup_eq_some_iff s.sender.unacked entry.1 entry.2).mpr hentry)
  case timeoutLookup node frame =>
    split at hexec <;> rename_i hlookup <;> obtain rfl := Option.some.inj hexec
    · exact .plain hinv rfl rfl rfl rfl (by simp)
    · refine .plain hinv rfl rfl rfl rfl ?_
      refine Effect.forall_goto ?_
      exact ⟨node, hinv.stored node _ hlookup, hsec⟩
  case timeoutPost conn frame =>
    split at hexec <;> obtain rfl := Option.some.inj hexec <;>
      exact .plain hinv rfl rfl rfl rfl (by simp)
  case noteAckLog msgId =>
    obtain ⟨⟨ok, next⟩, happend, rfl⟩ := Option.map_eq_some_iff.mp hexec
    rw [SenderState.appendAck_eq happend]
    cases ok <;> exact .plain hinv rfl rfl rfl rfl (by simp [SenderOk])
  case noteAckErase msgId =>
    obtain rfl := Option.some.inj hexec
    refine .of (hinv.unchanged rfl rfl rfl rfl ?_) (by simp)
    intro id item hitem
    exact hinv.unacked id item (Table.of_lookup_erase hitem).2

theorem sender_routed (hinv : s.RouteInv) (hsec : s.SenderOk sec)
    (hexec : s.sender.exec sec choice = some outcome) :
    Routed s ⟨outcome.shared, s.poolAfter sec⟩ outcome.work := by
  cases sec <;> simp only [SenderState.exec] at hexec <;> first
    | exact deliver_routed hinv hsec hexec
    | exact connect_routed hinv hsec hexec
    | exact linkDead_routed hinv hexec
    | exact recover_routed hinv hsec hexec
    | exact ackTimeout_routed hinv hsec hexec

end RouteState

/-- The sections that end in `post_frame` of a frame on a connection. -/
def SenderSection.transmits : SenderSection → Option (Nat × List UInt8)
  | .deliverPost conn _ frame | .flushPost conn _ frame
  | .resendPost conn _ frame | .timeoutPost conn frame => some (conn, frame)
  | _ => none

/-- Everything that a section queues on a connection. -/
theorem SenderState.exec_posted {s : SenderState} {sec : SenderSection}
    {choice : SenderChoice} {effect : Effect SenderState SenderSection}
    (hexec : s.exec sec choice = some effect) :
    effect.shared.posted = s.posted ∨
      ∃ conn frame, sec.transmits = some (conn, frame) ∧
        s.validLink conn = true ∧
        effect.shared.posted = s.posted ++ [(conn, frame)] := by
  cases sec <;> simp only [exec, deliver, connect, linkDead, recover,
    ackTimeout] at hexec
  case deliverPost conn msgId frame =>
    split at hexec <;> rename_i hvalid <;> obtain rfl := Option.some.inj hexec
    · exact Or.inr ⟨conn, frame, rfl, hvalid, rfl⟩
    · exact Or.inl rfl
  case flushPost conn msgId frame =>
    split at hexec <;> rename_i hvalid <;> obtain rfl := Option.some.inj hexec
    · exact Or.inr ⟨conn, frame, rfl, hvalid, rfl⟩
    · exact Or.inl rfl
  case resendPost conn msgId frame =>
    split at hexec <;> rename_i hvalid <;> obtain rfl := Option.some.inj hexec
    · exact Or.inr ⟨conn, frame, rfl, hvalid, rfl⟩
    · exact Or.inl rfl
  case timeoutPost conn frame =>
    split at hexec <;> rename_i hvalid <;> obtain rfl := Option.some.inj hexec
    · exact Or.inr ⟨conn, frame, rfl, hvalid, rfl⟩
    · exact Or.inl rfl
  -- The other sections queue nothing.
  all_goals left
  case deliverLog i msg =>
    obtain ⟨proxy, -, hexec⟩ := Option.bind_eq_some_iff.mp hexec
    obtain ⟨⟨ok, next⟩, happend, rfl⟩ := Option.map_eq_some_iff.mp hexec
    rw [appendData_eq happend]
    cases ok <;> rfl
  case flushLog i conn msg =>
    obtain ⟨proxy, -, hexec⟩ := Option.bind_eq_some_iff.mp hexec
    obtain ⟨⟨ok, next⟩, happend, rfl⟩ := Option.map_eq_some_iff.mp hexec
    rw [appendData_eq happend]
    cases ok <;> rfl
  case noteAckLog msgId =>
    obtain ⟨⟨ok, next⟩, happend, rfl⟩ := Option.map_eq_some_iff.mp hexec
    rw [appendAck_eq happend]
    cases ok <;> rfl
  case deliverTrack | deliverProxy | flushSwap | flushTrack | notifyDead |
      dropConnection =>
    obtain ⟨found, -, rfl⟩ := Option.map_eq_some_iff.mp hexec
    repeat' split
    all_goals rfl
  case connectDial | recoverSleep | timeoutCollect =>
    cases choice <;> simp only [reduceCtorEq] at hexec
    all_goals first
      | (obtain rfl := Option.some.inj hexec; rfl)
      | (split at hexec <;> obtain rfl := Option.some.inj hexec <;> rfl)
  all_goals
    repeat' split at hexec
    all_goals obtain rfl := Option.some.inj hexec
    all_goals rfl

namespace RouteState

variable {s : RouteState} {sec : RouteSection} {choice : RouteChoice}
  {effect : Effect RouteState RouteSection}

/-- `post_original_frame` finds a connection of the node that the frame is
for. -/
def replaysToNode : RouteSection → RouteChoice → Bool
  | .replayFind frame, .first node => (frameNode frame).all (· = node)
  | _, _ => true

theorem announcedNode_eq {uri : ActorUri} {node dest : UInt64}
    (hnode : announcedNode uri = some node)
    (hdest : stoull uri.node = some dest) : node = dest := by
  unfold announcedNode at hnode
  split at hnode
  · rename_i hnowhere
    rcases hnowhere with hempty | hany
    · rw [hempty] at hdest
      cases hdest
    · rw [hany] at hdest
      cases hdest
  · exact Option.some.inj (hnode.symm.trans hdest)

theorem exec_routed (hinv : s.RouteInv) (hsec : s.RouteOk sec)
    (hguard : replaysToNode sec choice = true)
    (hexec : s.exec sec choice = some effect) :
    s.Grows effect.shared ∧ effect.shared.RouteInv ∧
      ∀ after ∈ effect.work, effect.shared.RouteOk after := by
  have hquiet : s.Grows s ∧ s.RouteInv :=
    hinv.unchanged rfl rfl rfl rfl hinv.unacked
  cases sec with
  | sender inner trigger =>
      cases choice <;> simp only [exec, reduceCtorEq] at hexec
      obtain ⟨outcome, houtcome, rfl⟩ := Option.map_eq_some_iff.mp hexec
      obtain ⟨hgrows, hnext, hwork⟩ := sender_routed hinv hsec houtcome
      refine ⟨hgrows, hnext, ?_⟩
      intro after hafter
      obtain ⟨sec, hmem, cause, rfl⟩ := mem_liftSender_work hafter
      exact hwork sec hmem
  | getOrCreateRemoteProxy uri selfNode =>
      obtain ⟨node, hnode, rfl⟩ := Option.map_eq_some_iff.mp hexec
      refine ⟨hquiet.1, hquiet.2, ?_⟩
      refine Effect.forall_goto ?_
      constructor
      · intro dest hdest
        exact announcedNode_eq hnode hdest
      · intro found hfound
        exact hinv.stored node found (Option.filter_eq_some_iff.mp hfound).1
  | replayFind frame =>
      cases choice <;> simp only [exec, reduceCtorEq] at hexec
      · split at hexec
        · rename_i m conn hunpack hconn
          obtain rfl := Option.some.inj hexec
          refine ⟨hquiet.1, hquiet.2, ?_⟩
          refine Effect.forall_goto ?_
          refine ⟨hinv.stored _ conn (Option.filter_eq_some_iff.mp hconn).1, ?_⟩
          intro dest hdest
          simpa [replaysToNode, hdest, eq_comm] using hguard
        · cases hexec
      · obtain rfl := Option.some.inj hexec
        exact ⟨hquiet.1, hquiet.2, by simp⟩
  | replayPost node conn msgId frame =>
      simp only [exec] at hexec
      split at hexec <;> obtain rfl := Option.some.inj hexec
      · have hkept : s.Grows ⟨s.sender.post conn frame, s.pooled⟩ ∧
            RouteInv ⟨s.sender.post conn frame, s.pooled⟩ :=
          hinv.unchanged rfl rfl rfl rfl hinv.unacked
        refine ⟨hkept.1, hkept.2, ?_⟩
        simpa [RouteOk] using hsec.2
      · exact ⟨hquiet.1, hquiet.2, by simp⟩
  | replayTrack node msgId frame =>
      obtain rfl := Option.some.inj hexec
      have hkept : s.Grows ⟨s.sender.track node msgId frame, s.pooled⟩ ∧
          RouteInv ⟨s.sender.track node msgId frame, s.pooled⟩ :=
        hinv.unchanged rfl rfl rfl rfl (addressed_track hinv.unacked hsec)
      exact ⟨hkept.1, hkept.2, by simp⟩

theorem routes_of_run {log : Option RemoteLog} {file : List UInt8}
    (word : List (Move RouteSection RouteChoice))
    {last : Config RouteState RouteSection}
    (hmeets : (routeProgram.machine (.init log file)).Meets
      (Program.OnSections fun _ _ sec choice =>
        replaysToNode sec choice = true) word)
    (hrun : (routeProgram.machine (.init log file)).run word = some last) :
    Program.Locally RouteInv RouteOk last.shared last.pending := by
  have hinit : (init log file).RouteInv := by
    constructor
    · intro node conn hlookup
      cases hlookup
    · intro proxy hproxy
      cases hproxy
    · intro proxy hproxy
      cases hproxy
    · intro msgId item hitem
      cases hitem
  refine routeProgram.guarded_local_invariant hinit ?_ ?_ word hmeets hrun
  · intro s sec _ hentry
    cases sec with
    | sender inner trigger =>
        cases trigger <;> cases inner <;> first | exact trivial | cases hentry
    | replayPost | replayTrack => cases hentry
    | getOrCreateRemoteProxy | replayFind => trivial
  · intro s sec choice effect hinv hsec hguard hexec
    obtain ⟨hgrows, hnext, hwork⟩ := exec_routed hinv hsec hguard hexec
    exact ⟨hnext, hwork, fun other hother => hgrows.routeOk hother⟩

/-- A frame is queued on a valid connection that leads to its node. -/
theorem exec_transmits (hsec : s.RouteOk sec)
    (hexec : s.exec sec choice = some effect) {conn : Nat}
    {frame : List UInt8} (hposted : effect.shared.sender.posted =
      s.sender.posted ++ [(conn, frame)]) :
    s.sender.validLink conn = true ∧ s.Fits conn frame := by
  have hnothing : effect.shared.sender.posted ≠ s.sender.posted := by
    simp [hposted]
  cases sec with
  | sender inner trigger =>
      cases choice <;> simp only [exec, reduceCtorEq] at hexec
      obtain ⟨outcome, houtcome, rfl⟩ := Option.map_eq_some_iff.mp hexec
      rcases SenderState.exec_posted houtcome with
        hsame | ⟨found, queued, htransmits, hvalid, happend⟩
      · exact absurd hsame hnothing
      · have heq : (found, queued) = (conn, frame) := by
          simpa using happend.symm.trans hposted
        cases heq
        cases inner <;> cases htransmits <;> exact ⟨hvalid, hsec⟩
  | getOrCreateRemoteProxy uri selfNode =>
      obtain ⟨node, -, rfl⟩ := Option.map_eq_some_iff.mp hexec
      exact absurd rfl hnothing
  | replayFind frame =>
      cases choice <;> simp only [exec, reduceCtorEq] at hexec
      · split at hexec
        · obtain rfl := Option.some.inj hexec
          exact absurd rfl hnothing
        · cases hexec
      · obtain rfl := Option.some.inj hexec
        exact absurd rfl hnothing
  | replayPost node found msgId queued =>
      simp only [exec] at hexec
      split at hexec <;> rename_i hvalid <;> obtain rfl := Option.some.inj hexec
      · have heq : (found, queued) = (conn, frame) := by
          simpa [SenderState.post] using hposted
        cases heq
        exact ⟨hvalid, node, hsec⟩
      · exact absurd rfl hnothing
  | replayTrack node msgId frame =>
      obtain rfl := Option.some.inj hexec
      exact absurd rfl hnothing

end RouteState

/-- `m_connections` has the connection under the node that the frame is
for. -/
def RightConnection (s : RouteState) (conn : Nat) (frame : List UInt8) : Prop :=
  ∀ node, frameNode frame = some node →
    s.sender.connections.lookup node = some conn

/-- Every message is filed under the node that its frame is for. -/
def FiledByNode (s : RouteState) : Prop :=
  ∀ msgId item, s.sender.unacked.lookup msgId = some item →
    ∀ node, frameNode item.frame = some node → item.node = node

/-- What a step queues goes out on the connection of its destination. -/
def TransmitsRight (cfg : Config RouteState RouteSection) : Prop :=
  ∀ move next, routeProgram.stepConfig cfg move = some next →
    ∀ conn frame, next.shared.sender.posted =
        cfg.shared.sender.posted ++ [(conn, frame)] →
      RightConnection cfg.shared conn frame

/-- The replay finds a connection of the frame's own node, and no entry of
`m_connections` is replaced. -/
def routesApart (s : RouteState) (sec : RouteSection) (choice : RouteChoice) :
    Bool :=
  RouteState.replaysToNode sec choice && s.keepsLinks sec

theorem frames_reach_destination (log : Option RemoteLog) (file : List UInt8)
    (word : List (Move RouteSection RouteChoice))
    (last : Config RouteState RouteSection)
    (hmeets : (routeProgram.machine (.init log file)).Meets
      (Program.OnSections fun s _ sec choice =>
        routesApart s sec choice = true) word)
    (hrun : (routeProgram.machine (.init log file)).run word = some last) :
    TransmitsRight last ∧ FiledByNode last.shared := by
  have hreplays : (routeProgram.machine (.init log file)).Meets
      (Program.OnSections fun _ _ sec choice =>
        RouteState.replaysToNode sec choice = true) word := by
    refine Program.meets_mono ?_ hmeets
    intro s pending sec choice hguard
    exact (Bool.and_eq_true_iff.mp hguard).1
  have hkeeps : (routeProgram.machine (.init log file)).Meets
      (Program.OnSections fun s _ sec _ => s.keepsLinks sec = true) word := by
    refine Program.meets_mono ?_ hmeets
    intro s pending sec choice hguard
    exact (Bool.and_eq_true_iff.mp hguard).2
  obtain ⟨hinv, hok⟩ := RouteState.routes_of_run word hreplays hrun
  obtain ⟨⟨hlinks, -⟩, -⟩ := RouteState.links_of_run word hkeeps hrun
  refine ⟨?_, hinv.unacked⟩
  intro move next hstep conn frame hposted node hnode
  rcases routeProgram.stepConfig_cases hstep with
    ⟨sec, -, -, hshared, -⟩ | ⟨thread, choice, sec, rest, others, effect, -, -,
      hpending, hexec, hshared, -⟩
  · rw [hshared] at hposted
    simp at hposted
  · rw [hshared] at hposted
    have hsec := hok sec (by rw [hpending]; exact Multiset.mem_cons_self ..)
    obtain ⟨hvalid, found, ⟨hpooled, link, hlink, rfl⟩, haddressed⟩ :=
      RouteState.exec_transmits hsec hexec hposted
    have halive : link.valid = true := by
      simpa [SenderState.validLink, hlink] using hvalid
    rw [← haddressed node hnode]
    exact hlinks.current conn hpooled link hlink halive

/-- A frame of node 1 for an actor of node 3. -/
def frameForThree : List UInt8 :=
  packRouted ⟨⟨nodeText 3, [0x42], [0x62]⟩, 1, 7, 1, 0, [5]⟩

def connectTo (thread : Nat) (node : UInt64) :
    List (Move RouteSection RouteChoice) :=
  [.call (.sender (.connectCheck node) none), .run thread (.sender .go),
    .run thread (.sender (.dialed true)), .run thread (.sender .go)]

/-- Nodes 2 and 3 are connected; the replay of a frame for node 3 finds a
connection, of the node that is given. -/
def replayTo (node : UInt64) : List (Move RouteSection RouteChoice) :=
  connectTo 0 2 ++ connectTo 1 3 ++
    [.call (.replayFind frameForThree), .run 2 (.first node)]

/-- The frame for node 3 goes out on the connection of node 2, and is filed
under node 2. -/
theorem replayTo_two_misroutes :
    (∃ last, (routeProgram.machine (.init none [])).run (replayTo 2) =
        some last ∧ ¬ TransmitsRight last) ∧
      ∃ last, (routeProgram.machine (.init none [])).run
        (replayTo 2 ++ [.run 2 .noneValid, .run 2 .noneValid]) = some last ∧
          ¬ FiledByNode last.shared := by
  have hframe : frameNode frameForThree = some 3 := by decide
  constructor
  · have hrun : ((routeProgram.machine (.init none [])).run (replayTo 2)).any
        (fun cfg => (routeProgram.stepConfig cfg (.run 2 .noneValid)).any
          (fun next => next.shared.sender.posted =
            cfg.shared.sender.posted ++ [(0, frameForThree)]) ∧
          cfg.shared.sender.connections.lookup 3 = some 1) = true := by
      decide
    obtain ⟨last, hlast, hfacts⟩ := (Option.any_eq_true _ _).mp hrun
    obtain ⟨hstep, hlookup⟩ := of_decide_eq_true hfacts
    obtain ⟨next, hnext, hposted⟩ := (Option.any_eq_true _ _).mp hstep
    refine ⟨last, hlast, fun hright => ?_⟩
    have hwrong := hright _ next hnext 0 frameForThree
      (of_decide_eq_true hposted) 3 hframe
    rw [hlookup] at hwrong
    cases hwrong
  · have hrun : ((routeProgram.machine (.init none [])).run
        (replayTo 2 ++ [.run 2 .noneValid, .run 2 .noneValid])).any
        (fun cfg => cfg.shared.sender.unacked.lookup 7 =
          some ⟨frameForThree, 2, false⟩) = true := by
      decide
    obtain ⟨last, hlast, hfacts⟩ := (Option.any_eq_true _ _).mp hrun
    refine ⟨last, hlast, fun hfiled => ?_⟩
    have hwrong := hfiled 7 _ (of_decide_eq_true hfacts) 3 hframe
    cases hwrong

theorem frames_reach_destination_replayTo :
    ∃ last, (routeProgram.machine (.init none [])).run (replayTo 3) =
        some last ∧
      (∃ next, routeProgram.stepConfig last (.run 2 .noneValid) = some next ∧
        next.shared.sender.posted = [(1, frameForThree)]) ∧
      TransmitsRight last ∧ FiledByNode last.shared := by
  have hmeets : (routeProgram.machine (.init none [])).Meets
      (Program.OnSections fun s _ sec choice =>
        routesApart s sec choice = true) (replayTo 3) := by
    decide
  have hrun : ((routeProgram.machine (.init none [])).run (replayTo 3)).any
      (fun cfg => (routeProgram.stepConfig cfg (.run 2 .noneValid)).any
        (fun next => next.shared.sender.posted = [(1, frameForThree)])) =
        true := by
    decide
  obtain ⟨last, hlast, hstep⟩ := (Option.any_eq_true _ _).mp hrun
  obtain ⟨next, hnext, hposted⟩ := (Option.any_eq_true _ _).mp hstep
  exact ⟨last, hlast, ⟨next, hnext, of_decide_eq_true hposted⟩,
    frames_reach_destination none [] (replayTo 3) last hmeets hlast⟩

end UltraNet
