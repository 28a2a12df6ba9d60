/-
What the sender transmits and what it takes as acked.  A ledger says which
frames may be transmitted and which ids are acked; every section of the sender
keeps to it, and an entry of `m_unacked` is removed only under an acked id.
-/
import UltraNet.LaterSends
import UltraNet.Retransmission

namespace UltraNet

structure Ledger where
  frame : List UInt8 → Prop
  acked : UInt64 → Prop

/-- The later ledger allows what the earlier one allows. -/
def Ledger.Grows (L M : Ledger) : Prop :=
  (∀ frame, L.frame frame → M.frame frame) ∧
    ∀ msgId, L.acked msgId → M.acked msgId

/-- Everything that the sender holds is in the ledger. -/
structure SenderState.Follows (L : Ledger) (s : SenderState) : Prop where
  unacked : ∀ msgId item, s.unacked.lookup msgId = some item →
    frameMsgId item.frame = msgId ∧ L.frame item.frame
  posted : ∀ post ∈ s.posted, L.frame post.2
  buffers : ∀ proxy ∈ s.proxies, ∀ msg ∈ proxy.buffered,
    L.frame (proxy.packRouted msg)
  noted : ∀ msgId ∈ s.noted, L.acked msgId

/-- The message of the section goes out through a proxy that exists. -/
def SenderState.Targets (L : Ledger) (s : SenderState) (i : Nat)
    (msg : BufferedMessage) : Prop :=
  ∃ proxy, s.proxies[i]? = some proxy ∧ L.frame (proxy.packRouted msg)

def SenderSection.Follows (L : Ledger) (s : SenderState) :
    SenderSection → Prop
  | .tryDeliver i msg | .deliverLog i msg | .deliverTrack i msg
  | .deliverProxy i msg | .flushLog i _ msg | .flushTrack i _ msg =>
      s.Targets L i msg
  | .deliverPost _ _ frame | .flushPost _ _ frame | .resendPost _ _ frame
  | .timeoutLookup _ frame | .timeoutPost _ frame => L.frame frame
  | .noteAckLog msgId | .noteAckErase msgId => L.acked msgId
  | _ => True

/-- Every proxy is still there and packs a message as before. -/
def SenderState.KeepsProxies (s next : SenderState) : Prop :=
  ∀ (i : Nat) (proxy : Proxy), s.proxies[i]? = some proxy →
    ∃ after : Proxy, next.proxies[i]? = some after ∧
      after.uri = proxy.uri ∧ after.selfNode = proxy.selfNode

namespace SenderState

variable {L M : Ledger} {s next : SenderState}

theorem Follows.grows (hfollows : s.Follows L) (hgrows : L.Grows M) :
    s.Follows M where
  unacked := by
    intro msgId item hitem
    obtain ⟨hid, hframe⟩ := hfollows.unacked msgId item hitem
    exact ⟨hid, hgrows.1 _ hframe⟩
  posted := fun post hpost => hgrows.1 _ (hfollows.posted post hpost)
  buffers := fun proxy hproxy msg hmsg =>
    hgrows.1 _ (hfollows.buffers proxy hproxy msg hmsg)
  noted := fun msgId hmem => hgrows.2 _ (hfollows.noted msgId hmem)

theorem KeepsProxies.of_eq (hproxies : next.proxies = s.proxies) :
    s.KeepsProxies next := by
  intro i proxy hproxy
  exact ⟨proxy, by rw [hproxies, hproxy], rfl, rfl⟩

theorem KeepsProxies.setProxy {i : Nat} {proxy after : Proxy}
    (hproxy : s.proxies[i]? = some proxy) (huri : after.uri = proxy.uri)
    (hself : after.selfNode = proxy.selfNode) :
    s.KeepsProxies (s.setProxy i after) := by
  intro j other hother
  by_cases hindex : i = j
  · subst hindex
    obtain rfl := Option.some.inj (hproxy.symm.trans hother)
    refine ⟨after, ?_, huri, hself⟩
    simp [SenderState.setProxy, List.getElem?_set_self', hproxy]
  · refine ⟨other, ?_, rfl, rfl⟩
    rw [SenderState.setProxy, List.getElem?_set_ne hindex, hother]

theorem Targets.kept {i : Nat} {msg : BufferedMessage}
    (htargets : s.Targets L i msg) (hkeeps : s.KeepsProxies next) :
    next.Targets L i msg := by
  obtain ⟨proxy, hproxy, hframe⟩ := htargets
  obtain ⟨after, hafter, huri, hself⟩ := hkeeps i proxy hproxy
  refine ⟨after, hafter, ?_⟩
  rwa [Proxy.packRouted, huri, hself]

/-- The proxy of the section packs a frame of the ledger. -/
theorem Targets.frame {i : Nat} {msg : BufferedMessage} {proxy : Proxy}
    (htargets : s.Targets L i msg) (hproxy : s.proxies[i]? = some proxy) :
    L.frame (proxy.packRouted msg) := by
  obtain ⟨other, hother, hframe⟩ := htargets
  obtain rfl := Option.some.inj (hproxy.symm.trans hother)
  exact hframe

end SenderState

theorem SenderSection.Follows.kept {L : Ledger} {s next : SenderState}
    {sec : SenderSection} (hfollows : sec.Follows L s)
    (hkeeps : s.KeepsProxies next) : sec.Follows L next := by
  cases sec with
  | tryDeliver | deliverLog | deliverTrack | deliverProxy | flushLog
  | flushTrack => exact SenderState.Targets.kept hfollows hkeeps
  | _ => exact hfollows

theorem SenderSection.Follows.grows {L M : Ledger} {s : SenderState}
    {sec : SenderSection} (hfollows : sec.Follows L s) (hgrows : L.Grows M) :
    sec.Follows M s := by
  cases sec with
  | tryDeliver | deliverLog | deliverTrack | deliverProxy | flushLog
  | flushTrack =>
      obtain ⟨proxy, hproxy, hframe⟩ := hfollows
      exact ⟨proxy, hproxy, hgrows.1 _ hframe⟩
  | deliverPost | flushPost | resendPost | timeoutLookup | timeoutPost =>
      exact hgrows.1 _ hfollows
  | noteAckLog | noteAckErase => exact hgrows.2 _ hfollows
  | _ => exact trivial

namespace SenderState

variable {L : Ledger} {s next : SenderState}

namespace Follows

/-- A change of `m_unacked` that keeps the frames. -/
theorem modified (hfollows : s.Follows L) {unacked : Unacked}
    (hsame : ∀ msgId item, unacked.lookup msgId = some item →
      ∃ before, s.unacked.lookup msgId = some before ∧
        before.frame = item.frame) :
    SenderState.Follows L { s with unacked := unacked } where
  unacked := by
    intro msgId item hitem
    obtain ⟨before, hbefore, hframe⟩ := hsame msgId item hitem
    exact hframe ▸ hfollows.unacked msgId before hbefore
  posted := hfollows.posted
  buffers := hfollows.buffers
  noted := hfollows.noted

theorem track (hfollows : s.Follows L) {proxy : Proxy}
    {msg : BufferedMessage} (hframe : L.frame (proxy.packRouted msg)) :
    (s.track proxy.node msg.msgId (proxy.packRouted msg)).Follows L where
  unacked := by
    intro msgId item hitem
    rw [SenderState.track, Unacked.trackUnacked, Table.lookup_insert] at hitem
    split at hitem
    · rename_i heq
      obtain rfl := Option.some.inj hitem
      exact ⟨(frameMsgId_packRouted _).trans heq.symm, hframe⟩
    · exact hfollows.unacked msgId item hitem
  posted := hfollows.posted
  buffers := hfollows.buffers
  noted := hfollows.noted

theorem post (hfollows : s.Follows L) (conn : Nat) {frame : List UInt8}
    (hframe : L.frame frame) : (s.post conn frame).Follows L where
  unacked := hfollows.unacked
  posted := by
    intro post hpost
    rcases List.mem_append.mp hpost with hold | hnew
    · exact hfollows.posted post hold
    · obtain rfl := List.mem_singleton.mp hnew
      exact hframe
  buffers := hfollows.buffers
  noted := hfollows.noted

theorem setProxy (hfollows : s.Follows L) (i : Nat) {after : Proxy}
    (hbuffer : ∀ msg ∈ after.buffered, L.frame (after.packRouted msg)) :
    (s.setProxy i after).Follows L where
  unacked := hfollows.unacked
  posted := hfollows.posted
  buffers := by
    intro proxy hproxy
    rcases List.mem_or_eq_of_mem_set hproxy with hold | rfl
    · exact hfollows.buffers proxy hold
    · exact hbuffer
  noted := hfollows.noted

theorem same (hfollows : s.Follows L) (hunacked : next.unacked = s.unacked)
    (hposted : next.posted = s.posted) (hproxies : next.proxies = s.proxies)
    (hnoted : next.noted = s.noted) : next.Follows L where
  unacked := hunacked ▸ hfollows.unacked
  posted := hposted ▸ hfollows.posted
  buffers := hproxies ▸ hfollows.buffers
  noted := hnoted ▸ hfollows.noted

end Follows

/-- What a section of the sender does under a ledger. -/
def StepsUnder (L : Ledger) (s : SenderState)
    (effect : Effect SenderState SenderSection) : Prop :=
  effect.shared.Follows L ∧
    (∀ after ∈ effect.work, after.Follows L effect.shared) ∧
    s.KeepsProxies effect.shared

theorem follows_goto {sec : SenderSection} (hsec : sec.Follows L next) :
    ∀ after ∈ (Effect.goto next [sec]).work, after.Follows L next := by
  simpa using hsec

theorem deliver_steps {sec : SenderSection} {choice : SenderChoice}
    {effect : Effect SenderState SenderSection} (hfollows : s.Follows L)
    (hsec : sec.Follows L s) (hexec : s.deliver sec choice = some effect) :
    s.StepsUnder L effect := by
  cases sec <;> simp only [deliver, reduceCtorEq] at hexec
  case newProxy uri node selfNode conn =>
    obtain rfl := Option.some.inj hexec
    refine ⟨⟨hfollows.unacked, hfollows.posted, ?_, hfollows.noted⟩,
      by simp, ?_⟩
    · intro proxy hproxy
      rcases List.mem_append.mp hproxy with hold | hnew
      · exact hfollows.buffers proxy hold
      · obtain rfl := List.mem_singleton.mp hnew
        simp
    · intro i proxy hproxy
      refine ⟨proxy, ?_, rfl, rfl⟩
      obtain ⟨hlt, -⟩ := List.getElem?_eq_some_iff.mp hproxy
      exact (List.getElem?_append_left hlt).trans hproxy
  case tryDeliver i msg =>
    split at hexec <;> obtain rfl := Option.some.inj hexec
    · exact ⟨hfollows, by simp, .of_eq rfl⟩
    · exact ⟨hfollows, follows_goto hsec, .of_eq rfl⟩
  case deliverLog i msg =>
    obtain ⟨proxy, -, hexec⟩ := Option.bind_eq_some_iff.mp hexec
    obtain ⟨⟨ok, next⟩, happend, rfl⟩ := Option.map_eq_some_iff.mp hexec
    rw [appendData_eq happend]
    cases ok with
    | false => exact ⟨hfollows.same rfl rfl rfl rfl, by simp, .of_eq rfl⟩
    | true =>
        exact ⟨hfollows.same rfl rfl rfl rfl, follows_goto hsec, .of_eq rfl⟩
  case deliverTrack i msg =>
    obtain ⟨proxy, hproxy, rfl⟩ := Option.map_eq_some_iff.mp hexec
    exact ⟨hfollows.track (hsec.frame hproxy), follows_goto hsec, .of_eq rfl⟩
  case deliverProxy i msg =>
    obtain ⟨proxy, hproxy, rfl⟩ := Option.map_eq_some_iff.mp hexec
    have hframe := hsec.frame hproxy
    split
    · split
      · exact ⟨hfollows, by simp, .of_eq rfl⟩
      · refine ⟨hfollows.setProxy i ?_, by simp, .setProxy hproxy rfl rfl⟩
        intro other hother
        rcases List.mem_append.mp hother with hold | hnew
        · exact hfollows.buffers proxy (List.mem_of_getElem? hproxy) other hold
        · obtain rfl := List.mem_singleton.mp hnew
          exact hframe
    · split
      · exact ⟨hfollows, follows_goto hframe, .of_eq rfl⟩
      · exact ⟨hfollows, by simp, .of_eq rfl⟩
  case deliverPost conn msgId frame =>
    split at hexec <;> obtain rfl := Option.some.inj hexec
    · exact ⟨hfollows.post conn hsec, by simp, .of_eq rfl⟩
    · exact ⟨hfollows, follows_goto trivial, .of_eq rfl⟩
  case noteSendFailed msgId =>
    obtain rfl := Option.some.inj hexec
    exact ⟨hfollows.modified fun _ _ => frame_of_noteSendFailed, by simp,
      .of_eq rfl⟩

theorem connect_steps {sec : SenderSection} {choice : SenderChoice}
    {effect : Effect SenderState SenderSection} (hfollows : s.Follows L)
    (hsec : sec.Follows L s) (hexec : s.connect sec choice = some effect) :
    s.StepsUnder L effect := by
  cases sec <;> simp only [connect, reduceCtorEq] at hexec
  case connectCheck node =>
    split at hexec <;> obtain rfl := Option.some.inj hexec
    · exact ⟨hfollows, by simp, .of_eq rfl⟩
    · exact ⟨hfollows, follows_goto trivial, .of_eq rfl⟩
  case connectDial node =>
    cases choice <;> simp only [reduceCtorEq] at hexec
    split at hexec <;> obtain rfl := Option.some.inj hexec
    · exact ⟨hfollows.same rfl rfl rfl rfl, follows_goto trivial, .of_eq rfl⟩
    · exact ⟨hfollows, by simp, .of_eq rfl⟩
  case connectPool node conn =>
    split at hexec <;> obtain rfl := Option.some.inj hexec
    · exact ⟨hfollows, by simp, .of_eq rfl⟩
    · exact ⟨hfollows.same rfl rfl rfl rfl, by simp [SenderSection.Follows],
        .of_eq rfl⟩
  case connectProxies node conn =>
    obtain rfl := Option.some.inj hexec
    refine ⟨hfollows, ?_, .of_eq rfl⟩
    simp only [Effect.goto_work, Multiset.mem_coe, List.mem_map]
    rintro after ⟨i, -, rfl⟩
    exact trivial
  case flushSwap i conn =>
    obtain ⟨proxy, hproxy, rfl⟩ := Option.map_eq_some_iff.mp hexec
    have hkeeps : s.KeepsProxies (s.setProxy i
        { proxy with conn := some conn, buffered := [] }) :=
      .setProxy hproxy rfl rfl
    have hnext : (s.setProxy i
        { proxy with conn := some conn, buffered := [] }).Follows L :=
      hfollows.setProxy i (by simp)
    split
    · refine ⟨hnext, ?_, hkeeps⟩
      simp only [Effect.goto_work, Multiset.mem_coe, List.mem_map]
      -- A message that was swapped out still goes through its own proxy.
      rintro after ⟨msg, hmsg, rfl⟩
      have htargets : s.Targets L i msg := ⟨proxy, hproxy,
        hfollows.buffers proxy (List.mem_of_getElem? hproxy) msg hmsg⟩
      exact htargets.kept hkeeps
    · exact ⟨hnext, by simp, hkeeps⟩
  case flushLog i conn msg =>
    obtain ⟨proxy, -, hexec⟩ := Option.bind_eq_some_iff.mp hexec
    obtain ⟨⟨ok, next⟩, happend, rfl⟩ := Option.map_eq_some_iff.mp hexec
    rw [appendData_eq happend]
    cases ok with
    | false =>
        exact ⟨hfollows.same rfl rfl rfl rfl, follows_goto trivial, .of_eq rfl⟩
    | true =>
        exact ⟨hfollows.same rfl rfl rfl rfl, follows_goto hsec, .of_eq rfl⟩
  case flushTrack i conn msg =>
    obtain ⟨proxy, hproxy, rfl⟩ := Option.map_eq_some_iff.mp hexec
    have hframe := hsec.frame hproxy
    exact ⟨hfollows.track hframe, follows_goto hframe, .of_eq rfl⟩
  case flushPost conn msgId frame =>
    split at hexec <;> obtain rfl := Option.some.inj hexec
    · exact ⟨hfollows.post conn hsec, by simp, .of_eq rfl⟩
    · exact ⟨hfollows, follows_goto trivial, .of_eq rfl⟩
  case resendCollect node conn =>
    obtain rfl := Option.some.inj hexec
    refine ⟨hfollows, ?_, .of_eq rfl⟩
    simp only [Effect.goto_work, Multiset.mem_coe, List.mem_map]
    rintro after ⟨item, hitem, rfl⟩
    obtain ⟨found, hfound, hframe⟩ := mem_of_mem_flagged hitem
    exact hframe ▸ (hfollows.unacked item.1 found hfound).2
  case resendPost conn msgId frame =>
    split at hexec <;> obtain rfl := Option.some.inj hexec
    · exact ⟨hfollows.post conn hsec, follows_goto trivial, .of_eq rfl⟩
    · exact ⟨hfollows, by simp, .of_eq rfl⟩
  case resendMark msgId =>
    obtain rfl := Option.some.inj hexec
    exact ⟨hfollows.modified fun _ _ => frame_of_markSent, by simp,
      .of_eq rfl⟩

theorem frame_of_flagNode {unacked : Unacked} {node msgId : UInt64}
    {item : UnackedItem}
    (hitem : (unacked.flagNode node).lookup msgId = some item) :
    ∃ before, unacked.lookup msgId = some before ∧
      before.frame = item.frame := by
  rw [Unacked.flagNode, Table.lookup_mapVals] at hitem
  obtain ⟨before, hbefore, rfl⟩ := Option.map_eq_some_iff.mp hitem
  refine ⟨before, hbefore, ?_⟩
  split <;> rfl

theorem linkDead_steps {sec : SenderSection}
    {effect : Effect SenderState SenderSection} (hfollows : s.Follows L)
    (hexec : s.linkDead sec = some effect) : s.StepsUnder L effect := by
  cases sec <;> simp only [linkDead, reduceCtorEq] at hexec
  case notifyDead conn =>
    obtain ⟨link, -, rfl⟩ := Option.map_eq_some_iff.mp hexec
    split
    · exact ⟨hfollows.same rfl rfl rfl rfl, follows_goto trivial, .of_eq rfl⟩
    · exact ⟨hfollows, by simp, .of_eq rfl⟩
  case linkErase node =>
    obtain rfl := Option.some.inj hexec
    exact ⟨hfollows.same rfl rfl rfl rfl, follows_goto trivial, .of_eq rfl⟩
  case linkFlag node haveAddr =>
    obtain rfl := Option.some.inj hexec
    exact ⟨hfollows.modified fun _ _ => frame_of_flagNode,
      follows_goto trivial, .of_eq rfl⟩
  case linkProxies node haveAddr =>
    obtain rfl := Option.some.inj hexec
    refine ⟨hfollows, ?_, .of_eq rfl⟩
    simp only [Effect.goto_work, Multiset.mem_coe, List.mem_append,
      List.mem_map, List.mem_singleton]
    rintro after (⟨i, -, rfl⟩ | rfl) <;> exact trivial
  case dropConnection i =>
    obtain ⟨proxy, hproxy, rfl⟩ := Option.map_eq_some_iff.mp hexec
    refine ⟨hfollows.setProxy i ?_, by simp, .setProxy hproxy rfl rfl⟩
    exact hfollows.buffers proxy (List.mem_of_getElem? hproxy)
  case linkRecover node haveAddr =>
    repeat' split at hexec
    all_goals obtain rfl := Option.some.inj hexec
    all_goals refine ⟨hfollows.same rfl rfl rfl rfl, ?_, .of_eq rfl⟩
    all_goals simp [Effect.work, Effect.done, SenderSection.Follows]

theorem recover_steps {sec : SenderSection} {choice : SenderChoice}
    {effect : Effect SenderState SenderSection} (hfollows : s.Follows L)
    (hexec : s.recover sec choice = some effect) : s.StepsUnder L effect := by
  have hquiet : ∀ next secs, next.unacked = s.unacked →
      next.posted = s.posted → next.proxies = s.proxies →
      next.noted = s.noted →
      (∀ sec ∈ secs, sec.Follows L next) →
      s.StepsUnder L (.goto next secs) := by
    intro next secs hunacked hposted hproxies hnoted hsecs
    refine ⟨hfollows.same hunacked hposted hproxies hnoted, ?_,
      .of_eq hproxies⟩
    simpa using hsecs
  cases sec <;> simp only [recover, reduceCtorEq] at hexec
  case recoverSleep node =>
    cases choice <;> simp only [reduceCtorEq] at hexec
    split at hexec <;> obtain rfl := Option.some.inj hexec <;>
      exact hquiet _ _ rfl rfl rfl rfl (by simp [SenderSection.Follows])
  all_goals
    repeat' split at hexec
    all_goals obtain rfl := Option.some.inj hexec
    all_goals
      exact hquiet _ _ rfl rfl rfl rfl (by simp [SenderSection.Follows])

theorem ackTimeout_steps {sec : SenderSection} {choice : SenderChoice}
    {effect : Effect SenderState SenderSection} (hfollows : s.Follows L)
    (hsec : sec.Follows L s) (hexec : s.ackTimeout sec choice = some effect) :
    s.StepsUnder L effect := by
  cases sec <;> simp only [ackTimeout, reduceCtorEq] at hexec
  case timeoutCollect =>
    cases choice <;> simp only [reduceCtorEq] at hexec
    obtain rfl := Option.some.inj hexec
    refine ⟨hfollows, ?_, .of_eq rfl⟩
    simp only [Effect.goto_work, Multiset.mem_coe, List.mem_map,
      List.mem_filter]
    rintro after ⟨⟨msgId, item⟩, ⟨hmem, -⟩, rfl⟩
    have hitem := (Table.lookup_eq_some_iff _ _ _).mpr hmem
    exact (hfollows.unacked msgId item hitem).2
  case timeoutLookup node frame =>
    split at hexec <;> obtain rfl := Option.some.inj hexec
    · exact ⟨hfollows, by simp, .of_eq rfl⟩
    · exact ⟨hfollows, follows_goto hsec, .of_eq rfl⟩
  case timeoutPost conn frame =>
    split at hexec <;> obtain rfl := Option.some.inj hexec
    · exact ⟨hfollows.post conn hsec, by simp, .of_eq rfl⟩
    · exact ⟨hfollows, by simp, .of_eq rfl⟩
  case noteAckLog msgId =>
    obtain ⟨⟨ok, next⟩, happend, rfl⟩ := Option.map_eq_some_iff.mp hexec
    rw [appendAck_eq happend]
    cases ok with
    | false => exact ⟨hfollows.same rfl rfl rfl rfl, by simp, .of_eq rfl⟩
    | true =>
        exact ⟨hfollows.same rfl rfl rfl rfl, follows_goto hsec, .of_eq rfl⟩
  case noteAckErase msgId =>
    obtain rfl := Option.some.inj hexec
    refine ⟨⟨?_, hfollows.posted, hfollows.buffers, ?_⟩, by simp, .of_eq rfl⟩
    · intro other item hitem
      simp only [Effect.done_shared, Unacked.forget, Table.lookup_erase]
        at hitem
      split at hitem
      · cases hitem
      · exact hfollows.unacked other item hitem
    · intro other hother
      rcases List.mem_cons.mp hother with rfl | hold
      · exact hsec
      · exact hfollows.noted other hold

/-- The step lemma of the ledger. -/
theorem exec_steps {sec : SenderSection} {choice : SenderChoice}
    {effect : Effect SenderState SenderSection} (hfollows : s.Follows L)
    (hsec : sec.Follows L s) (hexec : s.exec sec choice = some effect) :
    s.StepsUnder L effect := by
  unfold exec at hexec
  split at hexec
  all_goals first
    | exact deliver_steps hfollows hsec hexec
    | exact connect_steps hfollows hsec hexec
    | exact linkDead_steps hfollows hexec
    | exact recover_steps hfollows hexec
    | exact ackTimeout_steps hfollows hsec hexec

/-- An entry that a section removes was acked before. -/
theorem exec_removes {sec : SenderSection} {choice : SenderChoice}
    {effect : Effect SenderState SenderSection} (hfollows : s.Follows L)
    (hsec : sec.Follows L s) (hexec : s.exec sec choice = some effect)
    {msgId : UInt64} (hmem : msgId ∈ s.unacked)
    (hgone : msgId ∉ effect.shared.unacked) : L.acked msgId := by
  obtain ⟨more, hnoted, hkept⟩ := exec_keeps hexec
  have hmore : msgId ∈ more := (hkept msgId hmem).resolve_left hgone
  apply (exec_steps hfollows hsec hexec).1.noted
  rw [hnoted]
  exact List.mem_append_left _ hmore

end SenderState

end UltraNet
