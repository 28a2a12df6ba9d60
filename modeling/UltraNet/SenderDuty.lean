/-
Who retransmits a message.  An entry of `m_unacked` that is not flagged is
reposted by the ack timeout; a flagged one is in the duty of a pending section
of `resend_unacked`, `on_link_dead` or `recover_node`, or waits for the next
connection to its node.  The duty is handed on from section to section.
-/
import UltraNet.SenderNode

namespace UltraNet

namespace Unacked

/-- The entry of the id belongs to the node and waits for a resend. -/
def waits (unacked : Unacked) (node msgId : UInt64) : Bool :=
  (unacked.lookup msgId).any fun item => item.node = node && item.needsResend

theorem waits_iff (unacked : Unacked) (node msgId : UInt64) :
    unacked.waits node msgId = true ↔ ∃ item,
      unacked.lookup msgId = some item ∧ item.node = node ∧
        item.needsResend = true := by
  simp [waits, Option.any_eq_true]

theorem waits_trackUnacked {unacked : Unacked} {node other msgId id : UInt64}
    {frame : List UInt8}
    (hwaits : (unacked.trackUnacked other id frame).waits node msgId = true) :
    unacked.waits node msgId = true := by
  simp only [waits, trackUnacked, Table.lookup_insert] at hwaits ⊢
  split at hwaits
  · simp at hwaits
  · exact hwaits

theorem waits_forget {unacked : Unacked} {node msgId id : UInt64}
    (hwaits : (unacked.forget id).waits node msgId = true) :
    unacked.waits node msgId = true := by
  simp only [waits, forget, Table.lookup_erase] at hwaits ⊢
  split at hwaits
  · simp at hwaits
  · exact hwaits

theorem waits_noteSendFailed {unacked : Unacked} {node msgId id : UInt64}
    (hwaits : (unacked.noteSendFailed id).waits node msgId = true) :
    unacked.waits node msgId = true ∨ msgId = id ∧ ∃ item,
      unacked.lookup id = some item ∧ item.node = node := by
  rw [waits_iff] at hwaits
  obtain ⟨item, hlookup, hnode, hflag⟩ := hwaits
  rw [noteSendFailed, Table.lookup_modify] at hlookup
  split at hlookup
  · rename_i hid
    subst hid
    obtain ⟨before, hbefore, rfl⟩ := Option.map_eq_some_iff.mp hlookup
    exact Or.inr ⟨rfl, before, hbefore, hnode⟩
  · exact Or.inl ((waits_iff _ _ _).mpr ⟨item, hlookup, hnode, hflag⟩)

theorem waits_flagNode {unacked : Unacked} {node msgId other : UInt64}
    (hwaits : (unacked.flagNode other).waits node msgId = true) :
    unacked.waits node msgId = true ∨ node = other := by
  rw [waits_iff] at hwaits
  obtain ⟨item, hlookup, hnode, hflag⟩ := hwaits
  rw [flagNode, Table.lookup_mapVals, Option.map_eq_some_iff] at hlookup
  obtain ⟨before, hbefore, rfl⟩ := hlookup
  split at hnode
  · rename_i hother
    exact Or.inr (hnode.symm.trans hother)
  · rename_i hother
    rw [if_neg hother] at hflag
    exact Or.inl ((waits_iff _ _ _).mpr ⟨before, hbefore, hnode, hflag⟩)

theorem waits_markSent {unacked : Unacked} {node msgId id : UInt64}
    (hwaits : (unacked.markSent id).waits node msgId = true) :
    unacked.waits node msgId = true ∧ msgId ≠ id := by
  simp only [waits, markSent, Table.lookup_modify] at hwaits ⊢
  split at hwaits
  · simp [Option.any_map] at hwaits
  · rename_i hid
    exact ⟨hwaits, hid⟩

theorem mem_flagged {unacked : Unacked} {node msgId : UInt64}
    (hwaits : unacked.waits node msgId = true) :
    ∃ frame, (msgId, frame) ∈ unacked.flagged node := by
  obtain ⟨item, hlookup, hnode, hflag⟩ := (waits_iff _ _ _).mp hwaits
  have hmem := (Table.lookup_eq_some_iff _ _ _).mp hlookup
  exact ⟨item.frame, List.mem_map.mpr ⟨⟨msgId, item⟩,
    List.mem_filter.mpr ⟨hmem, by simp [hnode, hflag]⟩, rfl⟩⟩

end Unacked

namespace SenderState

/-- The connection leads to the node and is valid. -/
def serves (s : SenderState) (conn : Nat) (node : UInt64) : Bool :=
  s.links[conn]? = some ⟨node, true⟩

/-- The section will still see to it that a flagged message of the node is
sent, or hand on the duty. -/
def covers (s : SenderState) (node msgId : UInt64) : SenderSection → Bool
  | .resendCollect other conn => other = node && s.serves conn node
  | .resendPost conn id _ => id = msgId && s.serves conn node
  | .resendMark id => id = msgId
  | .linkErase other | .linkFlag other _ | .linkProxies other _
  | .linkRecover other _ | .recoverSleep other | .recoverStop other
  | .recoverLookup other | .recoverCheck other _ | .recoverAgain other _
  | .recoverPending other _ _ => other = node
  | .recoverDecide other _ again pending =>
      other = node && (again || pending || s.recoverAgain node)
  | .recoverEnd other => other = node && s.recoverAgain node
  | _ => false

end SenderState

/-- The message waits for the next connection to its node, or a section has
the duty to send it. -/
def Covered (s : SenderState) (pending : Multiset SenderSection)
    (node msgId : UInt64) : Prop :=
  s.validConn node = false ∨ ∃ sec ∈ pending, s.covers node msgId sec = true

instance (s : SenderState) (pending : Multiset SenderSection)
    (node msgId : UInt64) : Decidable (Covered s pending node msgId) :=
  haveI : Decidable (∃ sec ∈ pending, s.covers node msgId sec = true) :=
    Multiset.decidableExistsMultiset
  inferInstanceAs (Decidable (_ ∨ _))

/-- The node whose `recover_node` coroutine a section belongs to. -/
def SenderSection.recoverTag : SenderSection → Option UInt64
  | .recoverSleep node | .recoverStop node | .recoverLookup node
  | .recoverCheck node _ | .recoverAgain node _ | .recoverPending node _ _
  | .recoverDecide node _ _ _ | .recoverEnd node => some node
  | _ => none

/-- A section of `recover_node` has a duty for its own node only. -/
theorem SenderState.covers_tagged {s : SenderState} {sec : SenderSection}
    {node other msgId : UInt64} (htag : sec.recoverTag = some node)
    (hcovers : s.covers other msgId sec = true) : other = node := by
  cases sec <;> cases htag
  case recoverDecide | recoverEnd =>
    simp only [covers, Bool.and_eq_true, decide_eq_true_eq] at hcovers
    exact hcovers.1.symm
  all_goals exact (of_decide_eq_true hcovers).symm

theorem SenderState.covers_mono {s next : SenderState} {node msgId : UInt64}
    {sec : SenderSection}
    (hserves : ∀ conn, s.serves conn node = true → next.serves conn node = true)
    (hagain : sec.recoverTag = some node →
      next.recoverAgain node = s.recoverAgain node)
    (hcovers : s.covers node msgId sec = true) :
    next.covers node msgId sec = true := by
  cases sec with
  | resendCollect other conn =>
      simp only [covers, Bool.and_eq_true] at hcovers ⊢
      exact ⟨hcovers.1, hserves conn hcovers.2⟩
  | resendPost conn id frame =>
      simp only [covers, Bool.and_eq_true] at hcovers ⊢
      exact ⟨hcovers.1, hserves conn hcovers.2⟩
  | recoverDecide other round again pending =>
      simp only [covers, Bool.and_eq_true, decide_eq_true_eq] at hcovers ⊢
      rw [hagain (congrArg some hcovers.1)]
      exact hcovers
  | recoverEnd other =>
      simp only [covers, Bool.and_eq_true, decide_eq_true_eq] at hcovers ⊢
      rw [hagain (congrArg some hcovers.1)]
      exact hcovers
  | _ => exact hcovers

def recoverTags (pending : Multiset SenderSection) : Multiset UInt64 :=
  pending.filterMap SenderSection.recoverTag

structure DutyInv (s : SenderState) (pending : Multiset SenderSection) :
    Prop where
  covered : ∀ node msgId, s.unacked.waits node msgId = true →
    Covered s pending node msgId
  nodup : (recoverTags pending).Nodup
  recovering : ∀ node, s.recovering node = true ↔ node ∈ recoverTags pending
  pooled : ∀ node conn, s.connections.lookup node = some conn →
    conn < s.links.length
  pools : ∀ node conn, .connectPool node conn ∈ pending →
    ∃ valid, s.links[conn]? = some ⟨node, valid⟩

/-- The parts of the state that decide about the duty, the table of messages
apart, are the same; connections may leave the pool. -/
structure SameDuty (s next : SenderState) : Prop where
  links : next.links = s.links
  connections : ∀ node conn, next.connections.lookup node = some conn →
    s.connections.lookup node = some conn
  recovering : next.recovering = s.recovering
  recoverAgain : next.recoverAgain = s.recoverAgain

theorem sameDuty_of_eq {s next : SenderState}
    (hparts : (next.links, next.connections, next.recovering, next.recoverAgain) =
      (s.links, s.connections, s.recovering, s.recoverAgain)) : SameDuty s next := by
  simp only [Prod.mk.injEq] at hparts
  obtain ⟨hlinks, hconnections, hrecovering, hagain⟩ := hparts
  exact ⟨hlinks, by simp [hconnections], hrecovering, hagain⟩

theorem SenderState.validConn_iff (s : SenderState) (node : UInt64) :
    s.validConn node = true ↔ ∃ conn, s.connections.lookup node = some conn ∧
      s.validLink conn = true := by
  simp [validConn, Option.any_eq_true]

/-- A valid connection in the pool was there before. -/
theorem validConn_false_of {s next : SenderState} {node : UInt64}
    (hconnections : ∀ conn, next.connections.lookup node = some conn →
      s.connections.lookup node = some conn)
    (hlinks : ∀ conn, s.connections.lookup node = some conn →
      next.validLink conn = true → s.validLink conn = true)
    (hnone : s.validConn node = false) : next.validConn node = false := by
  by_contra hvalid
  rw [Bool.not_eq_false, SenderState.validConn_iff] at hvalid
  obtain ⟨conn, hlookup, hconn⟩ := hvalid
  have hold := hconnections conn hlookup
  have := (s.validConn_iff node).mpr ⟨conn, hold, hlinks conn hold hconn⟩
  simp [hnone] at this

namespace SameDuty

variable {s next : SenderState}

theorem validLink (hsame : SameDuty s next) (conn : Nat) :
    next.validLink conn = s.validLink conn := by
  rw [SenderState.validLink, SenderState.validLink, hsame.links]

theorem validConn (hsame : SameDuty s next) {node : UInt64}
    (hnone : s.validConn node = false) : next.validConn node = false :=
  validConn_false_of (hsame.connections node)
    (fun conn _ hconn => hsame.validLink conn ▸ hconn) hnone

theorem covers (hsame : SameDuty s next) (node msgId : UInt64)
    (sec : SenderSection) :
    next.covers node msgId sec = s.covers node msgId sec := by
  cases sec <;> simp [SenderState.covers, SenderState.serves, hsame.links,
    hsame.recoverAgain]

theorem covered {pending : Multiset SenderSection} {node msgId : UInt64}
    (hsame : SameDuty s next) (hcovered : Covered s pending node msgId) :
    Covered next pending node msgId := by
  rcases hcovered with hconn | ⟨sec, hsec, hcovers⟩
  · exact Or.inl (hsame.validConn hconn)
  · exact Or.inr ⟨sec, hsec, by rw [hsame.covers, hcovers]⟩

end SameDuty

theorem Covered.mono {s : SenderState} {pending : Multiset SenderSection}
    {node msgId : UInt64} (hcovered : Covered s pending node msgId)
    (more : Multiset SenderSection) :
    Covered s (more + pending) node msgId := by
  rcases hcovered with hconn | ⟨sec, hsec, hcovers⟩
  · exact Or.inl hconn
  · exact Or.inr ⟨sec, Multiset.mem_add.mpr (Or.inr hsec), hcovers⟩

/-- The duty of another section. -/
theorem Covered.of_others {s : SenderState} {others : Multiset SenderSection}
    {sec : SenderSection} {node msgId : UInt64}
    (hcovered : Covered s (sec ::ₘ others) node msgId)
    (hsec : s.covers node msgId sec = false) : Covered s others node msgId := by
  rcases hcovered with hconn | ⟨holder, hholder, hcovers⟩
  · exact Or.inl hconn
  · rcases Multiset.mem_cons.mp hholder with rfl | hother
    · simp [hsec] at hcovers
    · exact Or.inr ⟨holder, hother, hcovers⟩

/-- The duty is with a section that was just started. -/
theorem Covered.of_work {s : SenderState} {work : Multiset SenderSection}
    {node msgId : UInt64} (sec : SenderSection) (hsec : sec ∈ work)
    (hcovers : s.covers node msgId sec = true)
    (others : Multiset SenderSection) : Covered s (work + others) node msgId :=
  Or.inr ⟨sec, Multiset.mem_add.mpr (Or.inl hsec), hcovers⟩

theorem recoverTags_add (work others : Multiset SenderSection) :
    recoverTags (work + others) = recoverTags work + recoverTags others :=
  Multiset.filterMap_add _ _ _

theorem recoverTags_cons (sec : SenderSection)
    (others : Multiset SenderSection) :
    recoverTags (sec ::ₘ others) = recoverTags {sec} + recoverTags others := by
  rw [← Multiset.singleton_add, recoverTags_add]

theorem recoverTags_cons_none {sec : SenderSection}
    (hsec : sec.recoverTag = none) (others : Multiset SenderSection) :
    recoverTags (sec ::ₘ others) = recoverTags others :=
  Multiset.filterMap_cons_none _ _ hsec

theorem recoverTags_cons_some {sec : SenderSection} {node : UInt64}
    (hsec : sec.recoverTag = some node) (others : Multiset SenderSection) :
    recoverTags (sec ::ₘ others) = node ::ₘ recoverTags others :=
  Multiset.filterMap_cons_some _ _ _ hsec

theorem recoverTags_eq_zero {work : Multiset SenderSection}
    (hwork : ∀ sec ∈ work, sec.recoverTag = none) : recoverTags work = 0 := by
  rw [Multiset.eq_zero_iff_forall_notMem]
  intro node hnode
  obtain ⟨sec, hsec, htag⟩ := (Multiset.mem_filterMap _ _).mp hnode
  simp [hwork sec hsec] at htag

namespace DutyInv

variable {s next : SenderState} {others work : Multiset SenderSection}
  {sec : SenderSection}

/-- A section that leaves the links and the recovery as they are; each message
that waits afterwards is in the duty of another section, or was so before. -/
theorem handed (hinv : DutyInv s (sec ::ₘ others)) (hsame : SameDuty s next)
    (htags : recoverTags work = recoverTags {sec})
    (hpools : ∀ node conn, .connectPool node conn ∉ work)
    (hwaits : ∀ node msgId, next.unacked.waits node msgId = true →
      Covered next (work + others) node msgId ∨
        s.unacked.waits node msgId = true ∧
          s.covers node msgId sec = false) :
    DutyInv next (work + others) := by
  constructor
  case covered =>
    intro node msgId hnext
    rcases hwaits node msgId hnext with hcovered | ⟨hold, hsec⟩
    · exact hcovered
    · have hothers := (hinv.covered node msgId hold).of_others hsec
      exact (hsame.covered hothers).mono work
  case nodup =>
    rw [recoverTags_add, htags, ← recoverTags_cons]
    exact hinv.nodup
  case recovering =>
    intro node
    rw [recoverTags_add, htags, ← recoverTags_cons, hsame.recovering]
    exact hinv.recovering node
  case pooled =>
    intro node conn hlookup
    rw [hsame.links]
    exact hinv.pooled node conn (hsame.connections node conn hlookup)
  case pools =>
    intro node conn hmem
    rw [hsame.links]
    rcases Multiset.mem_add.mp hmem with hnew | hold
    · exact absurd hnew (hpools node conn)
    · exact hinv.pools node conn (Multiset.mem_cons_of_mem hold)

/-- A section without a duty. -/
theorem quiet (hinv : DutyInv s (sec ::ₘ others)) (hsame : SameDuty s next)
    (hsec : ∀ node msgId, s.covers node msgId sec = false)
    (htag : sec.recoverTag = none)
    (hwork : ∀ after ∈ work, after.recoverTag = none ∧
      ∀ node conn, after ≠ .connectPool node conn)
    (hwaits : ∀ node msgId, next.unacked.waits node msgId = true →
      s.unacked.waits node msgId = true) : DutyInv next (work + others) := by
  apply hinv.handed hsame
  · rw [recoverTags_eq_zero fun after hafter => (hwork after hafter).1,
      recoverTags_eq_zero (by simpa using htag)]
  · intro node conn hmem
    exact (hwork _ hmem).2 node conn rfl
  · intro node msgId hnext
    exact Or.inr ⟨hwaits node msgId hnext, hsec node msgId⟩

/-- A section that changes the recovery of one node only. -/
theorem renewed (hinv : DutyInv s (sec ::ₘ others)) (node : UInt64)
    (hunacked : next.unacked = s.unacked) (hlinks : next.links = s.links)
    (hconnections : next.connections = s.connections)
    (hagain : ∀ other, other ≠ node →
      next.recoverAgain other = s.recoverAgain other)
    (hsec : ∀ other msgId, other ≠ node → s.covers other msgId sec = false)
    (hnode : ∀ msgId, s.unacked.waits node msgId = true →
      Covered next (work + others) node msgId)
    (hnodup : (recoverTags (work + others)).Nodup)
    (hrecovering : ∀ other, next.recovering other = true ↔
      other ∈ recoverTags (work + others))
    (hpools : ∀ other conn, .connectPool other conn ∉ work) :
    DutyInv next (work + others) := by
  constructor
  case covered =>
    intro other msgId hwaits
    rw [hunacked] at hwaits
    by_cases hother : other = node
    · exact hother ▸ hnode msgId (hother ▸ hwaits)
    · have hothers := (hinv.covered other msgId hwaits).of_others
        (hsec other msgId hother)
      rcases hothers with hconn | ⟨holder, hholder, hcovers⟩
      · left
        refine validConn_false_of (by simp [hconnections]) ?_ hconn
        intro conn _ hvalid
        simpa [SenderState.validLink, hlinks] using hvalid
      · refine Or.inr ⟨holder, Multiset.mem_add.mpr (Or.inr hholder), ?_⟩
        refine SenderState.covers_mono (fun conn hserves => ?_)
          (fun _ => hagain other hother) hcovers
        simpa only [SenderState.serves, hlinks] using hserves
  case nodup => exact hnodup
  case recovering => exact hrecovering
  case pooled =>
    rw [hconnections, hlinks]
    exact hinv.pooled
  case pools =>
    intro other conn hmem
    rw [hlinks]
    rcases Multiset.mem_add.mp hmem with hnew | hold
    · exact absurd hnew (hpools other conn)
    · exact hinv.pools other conn (Multiset.mem_cons_of_mem hold)

end DutyInv

/-- The three places where a duty can get lost: a failed send flags its
message, `on_link_dead` returns because it found no address and no recovery,
and `recover_node` gives up on a node that is not live.  The message must be
covered by something else. -/
def keepsDuty (s : SenderState) (pending : Multiset SenderSection) :
    SenderSection → Bool
  | .noteSendFailed msgId => (s.unacked.lookup msgId).all fun item =>
      Covered s pending item.node msgId
  | .linkRecover node haveAddr => haveAddr || s.recovering node ||
      (s.unacked.flagged node).all fun item =>
        Covered s (pending.erase (.linkRecover node haveAddr)) node item.1
  | .recoverStop node => (s.unacked.flagged node).all fun item =>
      Covered s (pending.erase (.recoverStop node)) node item.1
  | _ => true

theorem SenderState.appendData_same {s next : SenderState} {msgId : UInt64}
    {frame : List UInt8} {choice : SenderChoice} {ok : Bool}
    (happend : s.appendData msgId frame choice = some (ok, next)) :
    SameDuty s next ∧ next.unacked = s.unacked := by
  rw [appendData_eq happend]
  exact ⟨sameDuty_of_eq rfl, rfl⟩

theorem SenderState.appendAck_same {s next : SenderState} {msgId : UInt64}
    {choice : SenderChoice} {ok : Bool}
    (happend : s.appendAck msgId choice = some (ok, next)) :
    SameDuty s next ∧ next.unacked = s.unacked := by
  rw [appendAck_eq happend]
  exact ⟨sameDuty_of_eq rfl, rfl⟩

namespace DutyInv

variable {s : SenderState} {others : Multiset SenderSection}
  {sec : SenderSection} {effect : Effect SenderState SenderSection}
  {choice : SenderChoice}

theorem note_send_failed {msgId : UInt64}
    (hinv : DutyInv s (.noteSendFailed msgId ::ₘ others))
    (hkeeps : keepsDuty s (.noteSendFailed msgId ::ₘ others)
      (.noteSendFailed msgId) = true) :
    DutyInv { s with unacked := s.unacked.noteSendFailed msgId }
      (0 + others) := by
  refine hinv.handed (sameDuty_of_eq rfl) rfl (by simp) ?_
  intro node other hwaits
  rcases Unacked.waits_noteSendFailed hwaits with hold | ⟨rfl, item, hitem, rfl⟩
  · exact Or.inr ⟨hold, rfl⟩
  · left
    simp only [keepsDuty, hitem, Option.all_some, decide_eq_true_eq] at hkeeps
    exact SameDuty.covered (sameDuty_of_eq rfl)
      ((hkeeps.of_others rfl).mono 0)

theorem deliver (hinv : DutyInv s (sec ::ₘ others))
    (hkeeps : keepsDuty s (sec ::ₘ others) sec = true)
    (hexec : s.deliver sec choice = some effect) :
    DutyInv effect.shared (effect.work + others) := by
  cases sec <;> simp only [SenderState.deliver, reduceCtorEq] at hexec
  case newProxy uri node selfNode conn =>
    obtain rfl := Option.some.inj hexec
    exact hinv.quiet (sameDuty_of_eq rfl) (fun _ _ => rfl) rfl
      (by simp) (fun _ _ h => h)
  case tryDeliver proxy msg =>
    split at hexec <;> obtain rfl := Option.some.inj hexec <;>
      exact hinv.quiet (sameDuty_of_eq rfl) (fun _ _ => rfl) rfl
        (by simp [SenderSection.recoverTag]) (fun _ _ h => h)
  case deliverLog i msg =>
    obtain ⟨proxy, -, hexec⟩ := Option.bind_eq_some_iff.mp hexec
    obtain ⟨⟨ok, next⟩, happend, rfl⟩ := Option.map_eq_some_iff.mp hexec
    obtain ⟨hsame, hunacked⟩ := SenderState.appendData_same happend
    dsimp only
    split <;>
      exact hinv.quiet hsame (fun _ _ => rfl) rfl
        (by simp [SenderSection.recoverTag]) (by simp [hunacked])
  case deliverTrack i msg =>
    obtain ⟨proxy, -, rfl⟩ := Option.map_eq_some_iff.mp hexec
    exact hinv.quiet (sameDuty_of_eq rfl) (fun _ _ => rfl) rfl
      (by simp [SenderSection.recoverTag])
      (fun _ _ h => Unacked.waits_trackUnacked h)
  case deliverProxy i msg =>
    obtain ⟨proxy, -, rfl⟩ := Option.map_eq_some_iff.mp hexec
    split
    · split <;>
        exact hinv.quiet (sameDuty_of_eq rfl) (fun _ _ => rfl) rfl
          (by simp) (fun _ _ h => h)
    · split <;>
        exact hinv.quiet (sameDuty_of_eq rfl) (fun _ _ => rfl) rfl
          (by simp [SenderSection.recoverTag]) (fun _ _ h => h)
  case deliverPost conn msgId frame =>
    split at hexec <;> obtain rfl := Option.some.inj hexec <;>
      exact hinv.quiet (sameDuty_of_eq rfl) (fun _ _ => rfl) rfl
        (by simp [SenderSection.recoverTag]) (fun _ _ h => h)
  case noteSendFailed msgId =>
    obtain rfl := Option.some.inj hexec
    exact hinv.note_send_failed hkeeps

/-- A dialed connection is a new link. -/
theorem dialed {node : UInt64} (hinv : DutyInv s (.connectDial node ::ₘ others)) :
    DutyInv { s with links := s.links ++ [⟨node, true⟩] }
      (.connectPool node s.links.length ::ₘ others) := by
  have htags : recoverTags (.connectPool node s.links.length ::ₘ others) =
      recoverTags (.connectDial node ::ₘ others) := by
    rw [recoverTags_cons, recoverTags_cons]
    rfl
  have hold : ∀ (conn : Nat) link, s.links[conn]? = some link →
      (s.links ++ [⟨node, true⟩])[conn]? = some link := by
    grind
  constructor
  case covered =>
    intro other msgId hwaits
    have hothers := (hinv.covered other msgId hwaits).of_others rfl
    rcases hothers with hconn | ⟨holder, hholder, hcovers⟩
    · left
      refine validConn_false_of (s := s) (fun _ h => h) ?_ hconn
      intro conn hlookup hvalid
      have hlength := hinv.pooled other conn hlookup
      simpa [SenderState.validLink, List.getElem?_append_left hlength]
        using hvalid
    · refine Or.inr ⟨holder, Multiset.mem_cons_of_mem hholder, ?_⟩
      refine SenderState.covers_mono (s := s) (fun conn hserves => ?_)
        (fun _ => rfl) hcovers
      simp only [SenderState.serves, decide_eq_true_eq] at hserves ⊢
      exact hold conn _ hserves
  case nodup =>
    rw [htags]
    exact hinv.nodup
  case recovering =>
    rw [htags]
    exact hinv.recovering
  case pooled =>
    intro other conn hlookup
    have := hinv.pooled other conn hlookup
    simp only [List.length_append, List.length_singleton]
    omega
  case pools =>
    intro other conn hmem
    rcases Multiset.mem_cons.mp hmem with heq | hmem
    · simp only [SenderSection.connectPool.injEq] at heq
      obtain ⟨rfl, rfl⟩ := heq
      exact ⟨true, by simp⟩
    · obtain ⟨valid, hlink⟩ :=
        hinv.pools other conn (Multiset.mem_cons_of_mem hmem)
      exact ⟨valid, hold conn _ hlink⟩

/-- The connection enters the pool; the messages that waited for it are
collected after its proxies are flushed. -/
theorem pooled_conn {node : UInt64} {conn : Nat}
    (hinv : DutyInv s (.connectPool node conn ::ₘ others)) :
    DutyInv { s with connections := s.connections.insert node conn }
      ((([.connectProxies node conn, .resendCollect node conn] :
        List SenderSection) : Multiset SenderSection) + others) := by
  obtain ⟨valid, hlink⟩ := hinv.pools node conn (Multiset.mem_cons_self _ _)
  have htags : recoverTags ((([.connectProxies node conn,
      .resendCollect node conn] : List SenderSection) :
        Multiset SenderSection) + others) =
        recoverTags (.connectPool node conn ::ₘ others) := by
    rw [recoverTags_add, recoverTags_cons]
    rfl
  constructor
  case covered =>
    intro other msgId hwaits
    by_cases hother : other = node
    · subst hother
      cases valid with
      | true =>
          exact Covered.of_work (.resendCollect other conn) (by simp)
            (by simp [SenderState.covers, SenderState.serves, hlink]) others
      | false =>
          left
          simp [SenderState.validConn, SenderState.validLink, hlink]
    · have hothers := (hinv.covered other msgId hwaits).of_others rfl
      rcases hothers with hconn | ⟨holder, hholder, hcovers⟩
      · left
        refine validConn_false_of (s := s) ?_ (fun _ _ h => h) hconn
        intro conn hlookup
        simpa [Table.lookup_insert, hother] using hlookup
      · exact Or.inr ⟨holder, Multiset.mem_add.mpr (Or.inr hholder), hcovers⟩
  case nodup =>
    rw [htags]
    exact hinv.nodup
  case recovering =>
    rw [htags]
    exact hinv.recovering
  case pooled =>
    intro other found hlookup
    rw [Table.lookup_insert] at hlookup
    split at hlookup
    · obtain rfl := Option.some.inj hlookup
      exact (List.getElem?_eq_some_iff.mp hlink).1
    · exact hinv.pooled other found hlookup
  case pools =>
    intro other found hmem
    rcases Multiset.mem_add.mp hmem with hnew | hold
    · simp at hnew
    · exact hinv.pools other found (Multiset.mem_cons_of_mem hold)

/-- What is to be sent again is collected, and each of it is to be posted. -/
theorem resend_collected {node : UInt64} {conn : Nat}
    (hinv : DutyInv s (.resendCollect node conn ::ₘ others)) :
    DutyInv s ((Effect.goto s ((s.unacked.flagged node).map fun item =>
      SenderSection.resendPost conn item.1 item.2)).work + others) := by
  have htags : recoverTags (((s.unacked.flagged node).map fun item =>
      SenderSection.resendPost conn item.1 item.2 : List SenderSection) :
        Multiset SenderSection) = 0 := by
    apply recoverTags_eq_zero
    simp only [Multiset.mem_coe, List.mem_map]
    rintro after ⟨item, -, rfl⟩
    rfl
  refine hinv.handed (sameDuty_of_eq rfl) ?_ (by simp) ?_
  · rw [Effect.goto_work, htags]
    rfl
  · intro other msgId hwaits
    cases hsec : s.covers other msgId (.resendCollect node conn) with
    | false => exact Or.inr ⟨hwaits, rfl⟩
    | true =>
        left
        simp only [SenderState.covers, Bool.and_eq_true,
          decide_eq_true_eq] at hsec
        obtain ⟨rfl, hserves⟩ := hsec
        obtain ⟨frame, hframe⟩ := Unacked.mem_flagged hwaits
        refine Covered.of_work (.resendPost conn msgId frame) ?_
          (by simpa [SenderState.covers] using hserves) others
        simp only [Effect.goto_work, Multiset.mem_coe, List.mem_map]
        exact ⟨(msgId, frame), hframe, rfl⟩

/-- The frame is posted, and its mark is to be taken back. -/
theorem resent {conn : Nat} {msgId : UInt64} {frame : List UInt8}
    (hinv : DutyInv s (.resendPost conn msgId frame ::ₘ others)) :
    DutyInv (s.post conn frame)
      ((Effect.goto (s.post conn frame) [SenderSection.resendMark msgId]).work + others) := by
  refine hinv.handed (sameDuty_of_eq rfl) rfl (by simp) ?_
  intro node other hwaits
  cases hsec : s.covers node other (.resendPost conn msgId frame) with
  | false => exact Or.inr ⟨hwaits, rfl⟩
  | true =>
      left
      simp only [SenderState.covers, Bool.and_eq_true,
        decide_eq_true_eq] at hsec
      exact Covered.of_work (.resendMark msgId) (by simp)
        (by simp [SenderState.covers, hsec.1]) others

/-- A dead link serves nobody, so nobody relied on the frame. -/
theorem resend_missed {conn : Nat} {msgId : UInt64} {frame : List UInt8}
    (hinv : DutyInv s (.resendPost conn msgId frame ::ₘ others))
    (hinvalid : ¬ s.validLink conn = true) :
    DutyInv s ((Effect.done s : Effect SenderState SenderSection).work + others) := by
  refine hinv.handed (sameDuty_of_eq rfl) rfl (by simp) ?_
  intro node other hwaits
  refine Or.inr ⟨hwaits, ?_⟩
  have hdead : s.serves conn node = false := by
    by_contra hserves
    simp [SenderState.serves] at hserves
    simp [SenderState.validLink, hserves] at hinvalid
  simp [SenderState.covers, hdead]

theorem connect (hinv : DutyInv s (sec ::ₘ others))
    (hexec : s.connect sec choice = some effect) :
    DutyInv effect.shared (effect.work + others) := by
  cases sec <;> simp only [SenderState.connect, reduceCtorEq] at hexec
  case connectCheck node =>
    split at hexec <;> obtain rfl := Option.some.inj hexec <;>
      exact hinv.quiet (sameDuty_of_eq rfl) (fun _ _ => rfl) rfl
        (by simp [SenderSection.recoverTag]) (fun _ _ h => h)
  case connectDial node =>
    cases choice with
    | dialed ok =>
        dsimp only at hexec
        split at hexec <;> obtain rfl := Option.some.inj hexec
        · simpa using hinv.dialed
        · exact hinv.quiet (sameDuty_of_eq rfl) (fun _ _ => rfl) rfl
            (by simp) (fun _ _ h => h)
    | _ => cases hexec
  case connectPool node conn =>
    split at hexec <;> obtain rfl := Option.some.inj hexec
    · exact hinv.quiet (sameDuty_of_eq rfl) (fun _ _ => rfl) rfl
        (by simp) (fun _ _ h => h)
    · simpa using hinv.pooled_conn
  case connectProxies node conn =>
    obtain rfl := Option.some.inj hexec
    refine hinv.quiet (sameDuty_of_eq rfl) (fun _ _ => rfl) rfl ?_
      (fun _ _ h => h)
    simp only [Effect.goto_work, Multiset.mem_coe, List.mem_map]
    rintro after ⟨i, -, rfl⟩
    exact ⟨rfl, by simp⟩
  case flushSwap i conn =>
    obtain ⟨proxy, -, rfl⟩ := Option.map_eq_some_iff.mp hexec
    split
    · refine hinv.quiet (sameDuty_of_eq rfl) (fun _ _ => rfl) rfl ?_
        (fun _ _ h => h)
      simp only [Effect.goto_work, Multiset.mem_coe, List.mem_map]
      rintro after ⟨msg, -, rfl⟩
      exact ⟨rfl, by simp⟩
    · exact hinv.quiet (sameDuty_of_eq rfl) (fun _ _ => rfl) rfl
        (by simp) (fun _ _ h => h)
  case flushLog i conn msg =>
    obtain ⟨proxy, -, hexec⟩ := Option.bind_eq_some_iff.mp hexec
    obtain ⟨⟨ok, next⟩, happend, rfl⟩ := Option.map_eq_some_iff.mp hexec
    obtain ⟨hsame, hunacked⟩ := SenderState.appendData_same happend
    dsimp only
    split <;>
      exact hinv.quiet hsame (fun _ _ => rfl) rfl
        (by simp [SenderSection.recoverTag]) (by simp [hunacked])
  case flushTrack i conn msg =>
    obtain ⟨proxy, -, rfl⟩ := Option.map_eq_some_iff.mp hexec
    exact hinv.quiet (sameDuty_of_eq rfl) (fun _ _ => rfl) rfl
      (by simp [SenderSection.recoverTag])
      (fun _ _ h => Unacked.waits_trackUnacked h)
  case flushPost conn msgId frame =>
    split at hexec <;> obtain rfl := Option.some.inj hexec <;>
      exact hinv.quiet (sameDuty_of_eq rfl) (fun _ _ => rfl) rfl
        (by simp [SenderSection.recoverTag]) (fun _ _ h => h)
  case resendCollect node conn =>
    obtain rfl := Option.some.inj hexec
    exact hinv.resend_collected
  case resendPost conn msgId frame =>
    split at hexec <;> rename_i hvalid <;> obtain rfl := Option.some.inj hexec
    · exact hinv.resent
    · exact hinv.resend_missed hvalid
  case resendMark msgId =>
    obtain rfl := Option.some.inj hexec
    refine hinv.handed (sameDuty_of_eq rfl) rfl (by simp) ?_
    intro node other hwaits
    obtain ⟨hold, hother⟩ := Unacked.waits_markSent hwaits
    exact Or.inr ⟨hold, by simp [SenderState.covers, hother.symm]⟩

theorem ackTimeout (hinv : DutyInv s (sec ::ₘ others))
    (hexec : s.ackTimeout sec choice = some effect) :
    DutyInv effect.shared (effect.work + others) := by
  cases sec <;> simp only [SenderState.ackTimeout, reduceCtorEq] at hexec
  case timeoutCollect =>
    cases choice with
    | due msgIds =>
        obtain rfl := Option.some.inj hexec
        refine hinv.quiet (sameDuty_of_eq rfl) (fun _ _ => rfl) rfl
          ?_ (fun _ _ h => h)
        simp only [Effect.goto_work, Multiset.mem_coe, List.mem_map]
        rintro after ⟨entry, -, rfl⟩
        exact ⟨rfl, by simp⟩
    | _ => cases hexec
  case noteAckLog msgId =>
    obtain ⟨⟨ok, next⟩, happend, rfl⟩ := Option.map_eq_some_iff.mp hexec
    obtain ⟨hsame, hunacked⟩ := SenderState.appendAck_same happend
    dsimp only
    split <;>
      exact hinv.quiet hsame (fun _ _ => rfl) rfl
        (by simp [SenderSection.recoverTag]) (by simp [hunacked])
  case noteAckErase msgId =>
    obtain rfl := Option.some.inj hexec
    exact hinv.quiet (sameDuty_of_eq rfl) (fun _ _ => rfl) rfl
      (by simp) (fun _ _ h => Unacked.waits_forget h)
  all_goals
    split at hexec <;> obtain rfl := Option.some.inj hexec <;>
      exact hinv.quiet (sameDuty_of_eq rfl) (fun _ _ => rfl) rfl
        (by simp [SenderSection.recoverTag]) (fun _ _ h => h)

/-- A link dies: whoever counted on it now counts on `on_link_dead`. -/
theorem died {conn : Nat} {link : Link}
    (hinv : DutyInv s (.notifyDead conn ::ₘ others))
    (hlink : s.links[conn]? = some link) :
    DutyInv { s with links := s.links.set conn { link with valid := false } }
      (.linkErase link.node ::ₘ others) := by
  have hlength := (List.getElem?_eq_some_iff.mp hlink).1
  have htags : recoverTags (.linkErase link.node ::ₘ others) =
      recoverTags (.notifyDead conn ::ₘ others) := by
    rw [recoverTags_cons, recoverTags_cons]
    rfl
  have hset : ∀ other : Nat,
      (s.links.set conn { link with valid := false })[other]? =
        if other = conn then some { link with valid := false }
        else s.links[other]? := by
    grind
  constructor
  case covered =>
    intro node msgId hwaits
    have hothers := (hinv.covered node msgId hwaits).of_others rfl
    rcases hothers with hconn | ⟨holder, hholder, hcovers⟩
    · left
      refine validConn_false_of (s := s) (fun _ h => h) ?_ hconn
      intro other _ hvalid
      simp only [SenderState.validLink, hset] at hvalid ⊢
      split at hvalid
      · simp at hvalid
      · exact hvalid
    · by_cases hnode : node = link.node
      · exact Or.inr ⟨_, Multiset.mem_cons_self _ _,
          by simp [SenderState.covers, hnode]⟩
      · refine Or.inr ⟨holder, Multiset.mem_cons_of_mem hholder, ?_⟩
        refine SenderState.covers_mono (s := s) (fun other hserves => ?_)
          (fun _ => rfl) hcovers
        simp only [SenderState.serves, decide_eq_true_eq] at hserves ⊢
        have hother : other ≠ conn := by
          rintro rfl
          rw [hlink, Option.some.injEq] at hserves
          simp [hserves] at hnode
        rw [hset, if_neg hother, hserves]
  case nodup =>
    rw [htags]
    exact hinv.nodup
  case recovering =>
    rw [htags]
    exact hinv.recovering
  case pooled =>
    simpa using hinv.pooled
  case pools =>
    intro node other hmem
    rcases Multiset.mem_cons.mp hmem with heq | hmem
    · cases heq
    · obtain ⟨valid, hfound⟩ :=
        hinv.pools node other (Multiset.mem_cons_of_mem hmem)
      rw [hset]
      split
      · exact ⟨false, by simp_all⟩
      · exact ⟨valid, hfound⟩

theorem mem_recoverTags {pending : Multiset SenderSection} {node : UInt64} :
    node ∈ recoverTags pending ↔
      ∃ sec ∈ pending, sec.recoverTag = some node := by
  simp [recoverTags]

/-- `on_link_dead` asks the running recovery for another round. -/
theorem asked_again {node : UInt64} {haveAddr : Bool}
    (hinv : DutyInv s (.linkRecover node haveAddr ::ₘ others))
    (hrecovering : s.recovering node = true) :
    DutyInv { s with recoverAgain := Function.update s.recoverAgain node true }
      (0 + others) := by
  have htags : recoverTags (0 + others) =
      recoverTags (.linkRecover node haveAddr ::ₘ others) := by
    rw [zero_add, recoverTags_cons_none rfl]
  refine hinv.renewed node rfl rfl rfl ?_ ?_ ?_ ?_ ?_ (by simp)
  · intro other hother
    simp [Function.update_of_ne hother]
  · intro other msgId hother
    simp [SenderState.covers, hother.symm]
  · intro msgId _
    have hmem := (hinv.recovering node).mp hrecovering
    rw [← htags, mem_recoverTags] at hmem
    obtain ⟨holder, hholder, htag⟩ := hmem
    refine Or.inr ⟨holder, hholder, ?_⟩
    cases holder <;> simp_all [SenderSection.recoverTag, SenderState.covers]
  · rw [htags]
    exact hinv.nodup
  · rw [htags]
    exact hinv.recovering

/-- `on_link_dead` starts a recovery. -/
theorem started {node : UInt64} {haveAddr : Bool}
    (hinv : DutyInv s (.linkRecover node haveAddr ::ₘ others))
    (hrecovering : s.recovering node = false) :
    DutyInv
      { s with
        recovering := Function.update s.recovering node true
        recoverAgain := Function.update s.recoverAgain node false }
      ({.recoverSleep node} + others) := by
  have htags : recoverTags ({.recoverSleep node} + others) =
      node ::ₘ recoverTags (.linkRecover node haveAddr ::ₘ others) := by
    rw [Multiset.singleton_add, recoverTags_cons_some rfl,
      recoverTags_cons_none rfl]
  have hnew : node ∉ recoverTags (.linkRecover node haveAddr ::ₘ others) := by
    rw [← hinv.recovering]
    simp [hrecovering]
  refine hinv.renewed node rfl rfl rfl ?_ ?_ ?_ ?_ ?_ (by simp)
  · intro other hother
    simp [Function.update_of_ne hother]
  · intro other msgId hother
    simp [SenderState.covers, hother.symm]
  · intro msgId _
    exact Covered.of_work (.recoverSleep node) (by simp)
      (by simp [SenderState.covers]) others
  · rw [htags]
    exact Multiset.nodup_cons.mpr ⟨hnew, hinv.nodup⟩
  · intro other
    rw [htags, Multiset.mem_cons, ← hinv.recovering]
    by_cases hother : other = node
    · simp [hother]
    · simp [hother]

theorem linkDead (hinv : DutyInv s (sec ::ₘ others))
    (hkeeps : keepsDuty s (sec ::ₘ others) sec = true)
    (hexec : s.linkDead sec = some effect) :
    DutyInv effect.shared (effect.work + others) := by
  cases sec <;> simp only [SenderState.linkDead, reduceCtorEq] at hexec
  case notifyDead conn =>
    obtain ⟨link, hlink, rfl⟩ := Option.map_eq_some_iff.mp hexec
    split
    · simpa using hinv.died hlink
    · exact hinv.quiet (sameDuty_of_eq rfl) (fun _ _ => rfl) rfl
        (by simp) (fun _ _ h => h)
  case linkErase node =>
    obtain rfl := Option.some.inj hexec
    have hsame : SameDuty s { s with connections := s.connections.erase node } :=
      ⟨rfl, by
        intro other conn hlookup
        rw [Table.lookup_erase] at hlookup
        split at hlookup
        · cases hlookup
        · exact hlookup, rfl, rfl⟩
    refine hinv.handed hsame rfl (by simp) ?_
    intro other msgId hwaits
    by_cases hother : other = node
    · exact Or.inl (Covered.of_work (.linkFlag node _) (by simp; rfl)
        (by simp [SenderState.covers, hother]) others)
    · exact Or.inr ⟨hwaits, by simp [SenderState.covers, Ne.symm hother]⟩
  case linkFlag node haveAddr =>
    obtain rfl := Option.some.inj hexec
    refine hinv.handed (sameDuty_of_eq rfl) rfl (by simp) ?_
    intro other msgId hwaits
    by_cases hother : other = node
    · exact Or.inl (Covered.of_work (.linkProxies node haveAddr) (by simp)
        (by simp [SenderState.covers, hother]) others)
    · have hold := (Unacked.waits_flagNode hwaits).resolve_right hother
      exact Or.inr ⟨hold, by simp [SenderState.covers, Ne.symm hother]⟩
  case linkProxies node haveAddr =>
    obtain rfl := Option.some.inj hexec
    refine hinv.handed (sameDuty_of_eq rfl) ?_ (by simp) ?_
    · rw [recoverTags_eq_zero, recoverTags_eq_zero]
      · simp [SenderSection.recoverTag]
      · simp only [Effect.goto_work, Multiset.mem_coe, List.mem_append,
          List.mem_map, List.mem_singleton]
        rintro after (⟨i, -, rfl⟩ | rfl) <;> rfl
    · intro other msgId hwaits
      by_cases hother : other = node
      · exact Or.inl (Covered.of_work (.linkRecover node haveAddr) (by simp)
          (by simp [SenderState.covers, hother]) others)
      · exact Or.inr ⟨hwaits, by simp [SenderState.covers, Ne.symm hother]⟩
  case dropConnection i =>
    obtain ⟨proxy, -, rfl⟩ := Option.map_eq_some_iff.mp hexec
    exact hinv.quiet (sameDuty_of_eq rfl) (fun _ _ => rfl) rfl
      (by simp) (fun _ _ h => h)
  case linkRecover node haveAddr =>
    cases hrecovering : s.recovering node with
    | true =>
        simp only [hrecovering, Bool.not_true, Bool.and_false, if_false,
          if_true, Bool.false_eq_true] at hexec
        obtain rfl := Option.some.inj hexec
        exact hinv.asked_again hrecovering
    | false =>
        cases haveAddr with
        | true =>
            simp only [hrecovering] at hexec
            obtain rfl := Option.some.inj hexec
            exact hinv.started hrecovering
        | false =>
            simp only [hrecovering] at hexec
            obtain rfl := Option.some.inj hexec
            refine hinv.handed (sameDuty_of_eq rfl) rfl (by simp) ?_
            intro other msgId hwaits
            by_cases hother : other = node
            · subst hother
              left
              obtain ⟨frame, hframe⟩ := Unacked.mem_flagged hwaits
              simp only [keepsDuty, hrecovering, Bool.false_or,
                List.all_eq_true, Multiset.erase_cons_head,
                decide_eq_true_eq] at hkeeps
              exact (hkeeps _ hframe).mono _
            · exact Or.inr
                ⟨hwaits, by simp [SenderState.covers, Ne.symm hother]⟩

/-- The coroutine of a node goes on in a state that differs, if at all, in the
request for another round, and keeps its duty. -/
theorem went_on {node : UInt64} {again : UInt64 → Bool}
    (hinv : DutyInv s (sec ::ₘ others)) (after : SenderSection)
    (work : Multiset SenderSection) (htag : sec.recoverTag = some node)
    (hafter : after.recoverTag = some node)
    (hwork : ∀ other ∈ work, other.recoverTag = none ∧
      ∀ node conn, other ≠ .connectPool node conn)
    (hpool : ∀ node conn, after ≠ .connectPool node conn)
    (hagain : ∀ other, other ≠ node → again other = s.recoverAgain other)
    (hcovers : ∀ msgId, s.unacked.waits node msgId = true →
      Covered { s with recoverAgain := again } ((after ::ₘ work) + others)
        node msgId) :
    DutyInv { s with recoverAgain := again } ((after ::ₘ work) + others) := by
  have htags : recoverTags ((after ::ₘ work) + others) =
      recoverTags (sec ::ₘ others) := by
    rw [recoverTags_add, recoverTags_cons_some hafter,
      recoverTags_cons_some htag,
      recoverTags_eq_zero fun other hother => (hwork other hother).1]
    simp
  refine hinv.renewed node rfl rfl rfl hagain ?_ hcovers ?_ ?_ ?_
  · intro other msgId hother
    exact Bool.eq_false_iff.mpr fun hcovers =>
      hother (SenderState.covers_tagged htag hcovers)
  · rw [htags]
    exact hinv.nodup
  · rw [htags]
    exact hinv.recovering
  · intro other conn hmem
    rcases Multiset.mem_cons.mp hmem with heq | hmem
    · exact hpool other conn heq.symm
    · exact (hwork _ hmem).2 other conn rfl

/-- The coroutine of a node ends; nothing else of the recovery counts on it. -/
theorem ended {node : UInt64} {again : UInt64 → Bool}
    (hinv : DutyInv s (sec ::ₘ others)) (htag : sec.recoverTag = some node)
    (hagain : ∀ other, other ≠ node → again other = s.recoverAgain other)
    (hcovers : ∀ msgId, s.unacked.waits node msgId = true →
      Covered s others node msgId) :
    DutyInv
      { s with
        recovering := Function.update s.recovering node false
        recoverAgain := again } (0 + others) := by
  have hnodup := hinv.nodup
  rw [recoverTags_cons_some htag, Multiset.nodup_cons] at hnodup
  have hother : ∀ holder ∈ others, holder.recoverTag ≠ some node := by
    intro holder hholder htag
    exact hnodup.1 (mem_recoverTags.mpr ⟨holder, hholder, htag⟩)
  refine hinv.renewed node rfl rfl rfl hagain ?_ ?_ ?_ ?_ (by simp)
  · intro other msgId hother
    exact Bool.eq_false_iff.mpr fun hcovers =>
      hother (SenderState.covers_tagged htag hcovers)
  · intro msgId hwaits
    rcases hcovers msgId hwaits with hconn | ⟨holder, hholder, hholds⟩
    · left
      exact validConn_false_of (s := s) (fun _ h => h) (fun _ _ h => h) hconn
    · refine Or.inr ⟨holder, by simpa using hholder, ?_⟩
      exact SenderState.covers_mono (s := s) (fun _ hserves => hserves)
        (fun htag => absurd htag (hother holder hholder)) hholds
  · rw [zero_add]
    exact hnodup.2
  · intro other
    have hmem := hinv.recovering other
    rw [recoverTags_cons_some htag, Multiset.mem_cons] at hmem
    rw [zero_add]
    by_cases hnode : other = node
    · subst hnode
      simp [hnodup.1]
    · simp only [hnode, false_or] at hmem
      simp [hnode, hmem]

/-- The coroutine of a node goes on and changes nothing. -/
theorem passed {node : UInt64} {work : Multiset SenderSection}
    (hinv : DutyInv s (sec ::ₘ others)) (htag : sec.recoverTag = some node)
    (htags : recoverTags work = recoverTags {sec})
    (hpools : ∀ node conn, .connectPool node conn ∉ work)
    (hcovers : ∀ msgId, s.unacked.waits node msgId = true →
      s.covers node msgId sec = true → Covered s (work + others) node msgId) :
    DutyInv s (work + others) := by
  refine hinv.handed (sameDuty_of_eq rfl) htags hpools ?_
  intro other msgId hwaits
  cases hsec : s.covers other msgId sec with
  | false => exact Or.inr ⟨hwaits, rfl⟩
  | true =>
      obtain rfl := SenderState.covers_tagged htag hsec
      exact Or.inl (hcovers msgId hwaits hsec)

theorem recover (hinv : DutyInv s (sec ::ₘ others))
    (hkeeps : keepsDuty s (sec ::ₘ others) sec = true)
    (hexec : s.recover sec choice = some effect) :
    DutyInv effect.shared (effect.work + others) := by
  cases sec <;> simp only [SenderState.recover, reduceCtorEq] at hexec
  case recoverSleep node =>
    cases choice with
    | live found =>
        dsimp only at hexec
        split at hexec <;> obtain rfl := Option.some.inj hexec
        · exact hinv.passed rfl rfl (by simp) fun msgId _ _ =>
            Covered.of_work (.recoverLookup node) (by simp)
              (by simp [SenderState.covers]) others
        · exact hinv.passed rfl rfl (by simp) fun msgId _ _ =>
            Covered.of_work (.recoverStop node) (by simp)
              (by simp [SenderState.covers]) others
    | _ => cases hexec
  case recoverStop node =>
    obtain rfl := Option.some.inj hexec
    refine hinv.ended rfl ?_ ?_
    · intro other hother
      simp [Function.update_of_ne hother]
    · intro msgId hwaits
      obtain ⟨frame, hframe⟩ := Unacked.mem_flagged hwaits
      simp only [keepsDuty, List.all_eq_true, Multiset.erase_cons_head,
        decide_eq_true_eq] at hkeeps
      exact hkeeps _ hframe
  case recoverLookup node =>
    obtain rfl := Option.some.inj hexec
    exact hinv.passed rfl rfl (by simp) fun msgId _ _ =>
      Covered.of_work (.recoverCheck node (s.connections.lookup node)) (by simp)
        (by simp [SenderState.covers]) others
  case recoverCheck node conn =>
    split at hexec <;> obtain rfl := Option.some.inj hexec
    · exact hinv.passed rfl rfl (by simp) fun msgId _ _ =>
        Covered.of_work (.recoverAgain node conn) (by simp)
          (by simp [SenderState.covers]) others
    · exact hinv.passed rfl rfl (by simp) fun msgId _ _ =>
        Covered.of_work (.recoverAgain node conn) (by simp)
          (by simp [SenderState.covers]) others
  case recoverAgain node conn =>
    obtain rfl := Option.some.inj hexec
    refine hinv.went_on (.recoverPending node conn (s.recoverAgain node)) 0 rfl
      rfl (by simp) (by simp) ?_ ?_
    · intro other hother
      simp [Function.update_of_ne hother]
    · intro msgId _
      exact Covered.of_work (.recoverPending node conn (s.recoverAgain node))
        (by simp) (by simp [SenderState.covers]) others
  case recoverPending node conn again =>
    obtain rfl := Option.some.inj hexec
    refine hinv.passed rfl rfl (by simp) ?_
    intro msgId hwaits _
    obtain ⟨frame, hframe⟩ := Unacked.mem_flagged hwaits
    have hpending : (s.unacked.flagged node).isEmpty = false := by
      cases hlist : s.unacked.flagged node with
      | nil => simp [hlist] at hframe
      | cons => rfl
    exact Covered.of_work (.recoverDecide node conn again true)
      (by simp [hpending]) (by simp [SenderState.covers]) others
  case recoverDecide node conn again pending =>
    split at hexec <;> obtain rfl := Option.some.inj hexec
    · exact hinv.passed rfl rfl (by simp) fun msgId _ _ =>
        Covered.of_work (.recoverSleep node) (by simp)
          (by simp [SenderState.covers]) others
    · rename_i hdone
      refine hinv.passed rfl rfl (by simp) ?_
      intro msgId _ hcovers
      refine Covered.of_work (.recoverEnd node) (by simp) ?_ others
      simp_all [SenderState.covers]
  case recoverEnd node =>
    split at hexec <;> obtain rfl := Option.some.inj hexec
    · refine hinv.went_on (.recoverSleep node) 0 rfl rfl (by simp) (by simp)
        ?_ ?_
      · intro other hother
        simp [Function.update_of_ne hother]
      · intro msgId _
        exact Covered.of_work (.recoverSleep node) (by simp)
          (by simp [SenderState.covers]) others
    · rename_i hagain
      refine hinv.ended rfl (fun _ _ => rfl) ?_
      intro msgId hwaits
      exact (hinv.covered node msgId hwaits).of_others
        (by simpa [SenderState.covers] using hagain)

/-- The step lemma: every section keeps the duties, as long as no flag is
written and no recovery given up without somebody who takes over. -/
theorem exec (hinv : DutyInv s (sec ::ₘ others))
    (hkeeps : keepsDuty s (sec ::ₘ others) sec = true)
    (hexec : s.exec sec choice = some effect) :
    DutyInv effect.shared (effect.work + others) := by
  unfold SenderState.exec at hexec
  split at hexec
  all_goals first
    | exact hinv.deliver hkeeps hexec
    | exact hinv.connect hexec
    | exact hinv.linkDead hkeeps hexec
    | exact hinv.recover hkeeps hexec
    | exact hinv.ackTimeout hexec

theorem call (hinv : DutyInv s others) (hentry : senderEntry sec = true) :
    DutyInv s (sec ::ₘ others) := by
  have htag : sec.recoverTag = none := by
    cases sec <;> first | rfl | cases hentry
  have hpool : ∀ node conn, sec ≠ .connectPool node conn := by
    rintro node conn rfl
    cases hentry
  refine { hinv with covered := ?_, nodup := ?_, recovering := ?_, pools := ?_ }
  · intro node msgId hwaits
    exact (hinv.covered node msgId hwaits).mono {sec}
  · rw [recoverTags_cons_none htag]
    exact hinv.nodup
  · rw [recoverTags_cons_none htag]
    exact hinv.recovering
  · intro node conn hmem
    rcases Multiset.mem_cons.mp hmem with heq | hold
    · exact absurd heq.symm (hpool node conn)
    · exact hinv.pools node conn hold

end DutyInv

theorem dutyInv_init (log : Option RemoteLog) (file : List UInt8) :
    DutyInv (.init log file) 0 where
  covered := by simp [SenderState.init, Unacked.waits]
  nodup := by simp [recoverTags]
  recovering := by simp [SenderState.init, recoverTags]
  pooled := by simp [SenderState.init]
  pools := by simp

end UltraNet
