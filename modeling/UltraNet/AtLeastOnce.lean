/-
At-least-once delivery between two live processes: the sender forgets a
message only after the receiver has run its handler to an end that was not an
exception.  The ledger of the sender holds the frames that were sent and the
ids whose handler run has ended well.
-/
import UltraNet.RemotePair
import UltraNet.SenderLedger

namespace UltraNet

namespace DedupRun

/-- A handler run for the key has ended without throwing. -/
def Ended (s : DedupRun) (key : RecvKey) : Prop :=
  ∃ event ∈ s.history, event.EndsWell key

/-- Only keys whose handler run has ended well are marked as completed. -/
def Truthful (s : DedupRun) : Prop :=
  ∀ key, s.dedup.lookup key = some .completed → s.Ended key

end DedupRun

/-- What a section of `dispatch_envelope` relies on. -/
def DedupSection.Honest (known : Envelope → Prop) (s : DedupRun) :
    DedupSection → Prop
  | .dispatchEnvelope env | .deliverUnkeyed env | .deliver env => known env
  | .finishRemoteDelivery env result =>
      known env ∧ (result ≠ .threw → s.Ended env.key)
  | .postRemoteAck _ msgId =>
      ∃ env, known env ∧ env.correlationId = msgId ∧ s.Ended env.key

namespace DedupRun

variable {known : Envelope → Prop} {cap : Nat} {s next : DedupRun}

theorem Ended.kept {key : RecvKey} (hended : s.Ended key)
    (hhistory : s.history ⊆ next.history) : next.Ended key := by
  obtain ⟨event, hmem, hwell⟩ := hended
  exact ⟨event, hhistory hmem, hwell⟩

/-- A step after which no key is newly completed. -/
theorem Truthful.kept (htruthful : s.Truthful)
    (hhistory : s.history ⊆ next.history)
    (hdedup : ∀ key, next.dedup.lookup key = some .completed →
      s.dedup.lookup key = some .completed) : next.Truthful := by
  intro key hkey
  exact (htruthful key (hdedup key hkey)).kept hhistory

theorem claimed_history (s : DedupRun) (key : RecvKey)
    (outcome : DedupTable.ClaimOutcome) :
    s.history ⊆ (s.claimed key outcome).history := by
  intro event hmem
  simp [claimed, hmem]

/-- A claim completes no key. -/
theorem claimRemote_completed {key other : RecvKey}
    (hother : (DedupTable.claimRemote cap s.dedup key false false).dedup.lookup
      other = some .completed) : s.dedup.lookup other = some .completed := by
  rcases DedupTable.claimRemote_cases cap s.dedup key false false with
    ⟨heq, -⟩ | ⟨heq, -⟩ | ⟨heq, -⟩ | ⟨heq, -⟩ | ⟨victim, heq, -⟩ <;>
      rw [heq] at hother
  · exact hother
  · exact hother
  · exact hother
  · obtain ⟨-, hnew⟩ | ⟨-, hold⟩ := Table.of_lookup_insert hother
    · cases hnew
    · exact hold
  · obtain ⟨-, hnew⟩ | ⟨-, hold⟩ := Table.of_lookup_insert hother
    · cases hnew
    · exact (Table.of_lookup_erase hold).2

theorem completed_of_claim {key : RecvKey}
    (hclaim : (DedupTable.claimRemote cap s.dedup key false false).claim =
      .completed) : s.dedup.lookup key = some .completed := by
  rcases DedupTable.claimRemote_cases cap s.dedup key false false with
    ⟨-, hkey⟩ | ⟨heq, -⟩ | ⟨heq, -⟩ | ⟨heq, -⟩ | ⟨victim, heq, -⟩
  · simpa using hkey
  all_goals rw [heq] at hclaim; cases hclaim

/-- The key that `finish_remote_delivery` marks as completed has ended. -/
theorem Truthful.finish (htruthful : s.Truthful) {key : RecvKey}
    {result : DeliverResult} (hended : result ≠ .threw → s.Ended key)
    (other : RecvKey)
    (hother : (DedupTable.finishDelivery cap s.dedup key result).lookup other =
      some .completed) : s.Ended other := by
  unfold DedupTable.finishDelivery at hother
  split at hother
  · exact htruthful other (Table.of_lookup_erase hother).2
  · rename_i hresult
    have hinserted : (s.dedup.insert key .completed).lookup other =
        some .completed → s.Ended other := by
      intro hfound
      obtain ⟨rfl, -⟩ | ⟨-, hold⟩ := Table.of_lookup_insert hfound
      · exact hended hresult
      · exact htruthful other hold
    split at hother
    · exact hinserted hother
    · split at hother
      · exact hinserted hother
      · exact htruthful other hother

theorem exec_honest {sec : DedupSection} {result : DeliverResult}
    {effect : Effect DedupRun DedupSection} (htruthful : s.Truthful)
    (hsec : sec.Honest known s) (hexec : exec cap s sec result = some effect) :
    effect.shared.Truthful ∧
      (∀ after ∈ effect.work, after.Honest known effect.shared) ∧
      s.history ⊆ effect.shared.history := by
  cases sec with
  | dispatchEnvelope env =>
      simp only [exec] at hexec
      split at hexec
      · obtain rfl := Option.some.inj hexec
        exact ⟨htruthful, by simpa [DedupSection.Honest] using hsec,
          List.Subset.refl _⟩
      · have hhistory := s.claimed_history env.key
          (DedupTable.claimRemote cap s.dedup env.key false false)
        have hnext : (s.claimed env.key (DedupTable.claimRemote cap s.dedup
            env.key false false)).Truthful :=
          htruthful.kept hhistory fun _ => claimRemote_completed
        split at hexec <;> obtain rfl := Option.some.inj hexec
        · rename_i hclaim
          have hended := htruthful _ (completed_of_claim hclaim)
          refine ⟨hnext, ?_, hhistory⟩
          refine Effect.forall_goto ?_
          exact ⟨env, hsec, rfl, hended.kept hhistory⟩
        · exact ⟨hnext, by simp, hhistory⟩
        · exact ⟨hnext, by simp, hhistory⟩
        · exact ⟨hnext, by simpa [DedupSection.Honest] using hsec, hhistory⟩
  | deliverUnkeyed env =>
      obtain rfl := Option.some.inj hexec
      exact ⟨htruthful, by simp, List.Subset.refl _⟩
  | deliver env =>
      obtain rfl := Option.some.inj hexec
      have hhistory : s.history ⊆ s.history ++ [.ended env.key result] :=
        List.subset_append_left _ _
      refine ⟨htruthful.kept hhistory fun _ hkey => hkey, ?_, hhistory⟩
      refine Effect.forall_goto ?_
      refine ⟨hsec, fun hresult => ?_⟩
      refine ⟨.ended env.key result, by simp, ?_⟩
      cases result with
      | ok => exact Or.inl rfl
      | threw => exact absurd rfl hresult
      | deadLetter => exact Or.inr rfl
  | finishRemoteDelivery env ended =>
      obtain ⟨hknown, hended⟩ := hsec
      have hhistory : s.history ⊆ s.history ++ [.finished env.key ended] :=
        List.subset_append_left _ _
      have hnext : DedupRun.Truthful
          { s with
            dedup := DedupTable.finishDelivery cap s.dedup env.key ended
            history := s.history ++ [.finished env.key ended] } := by
        intro other hother
        exact (htruthful.finish hended other hother).kept hhistory
      simp only [exec] at hexec
      split at hexec <;> obtain rfl := Option.some.inj hexec
      · exact ⟨hnext, by simp, hhistory⟩
      · rename_i hresult
        refine ⟨hnext, ?_, hhistory⟩
        refine Effect.forall_goto ?_
        exact ⟨env, hknown, rfl, (hended hresult).kept hhistory⟩
  | postRemoteAck replyConnId msgId =>
      obtain rfl := Option.some.inj hexec
      exact ⟨htruthful, by simp, List.Subset.refl _⟩

end DedupRun

theorem DedupTable.peekDedup_eq_completed {dedup : DedupTable} {key : RecvKey}
    (hview : dedup.peekDedup key = .completed) :
    dedup.lookup key = some .completed := by
  unfold peekDedup at hview
  split at hview
  · cases hview
  · assumption
  · cases hview

namespace PairState

/-- The frames under the id that they were sent with, and the ids whose
message was handled. -/
def ledger (s : PairState) : Ledger where
  frame frame := s.sent.lookup (frameMsgId frame) = some frame
  acked msgId := ∃ frame, s.sent.lookup msgId = some frame ∧
    s.receiver.Ended ⟨frameSender frame, msgId⟩

/-- The envelope of a message that was sent. -/
def Knows (s : PairState) (env : Envelope) : Prop :=
  ∃ frame, s.sent.lookup env.correlationId = some frame ∧
    env.senderNodeId = frameSender frame

structure Sound (s : PairState) : Prop where
  sender : s.sender.Follows s.ledger
  receiver : s.receiver.Truthful
  mailbox : ∀ env ∈ s.mailbox, s.Knows env
  acks : ∀ conn, ∀ bytes ∈ s.acks conn, ∀ msgId,
    unpackAck bytes = some msgId → s.ledger.acked msgId

/-- What a pending section relies on. -/
def Relies (s : PairState) : PairSection → Prop
  | .sender sec => sec.Follows s.ledger s.sender
  | .findLocalProxy env | .peekDedup env | .pushEnvelope env => s.Knows env
  | .receiver sec => sec.Honest s.Knows s.receiver
  | _ => True

/-- What the ledger and the pending sections rely on only grows. -/
structure Grows (s next : PairState) : Prop where
  sent : ∀ msgId frame, s.sent.lookup msgId = some frame →
    next.sent.lookup msgId = some frame
  history : s.receiver.history ⊆ next.receiver.history
  proxies : s.sender.KeepsProxies next.sender

namespace Grows

variable {s next : PairState}

theorem of_eq (hsent : next.sent = s.sent)
    (hreceiver : next.receiver.history = s.receiver.history)
    (hsender : next.sender.proxies = s.sender.proxies) : s.Grows next where
  sent := by simp [hsent]
  history := by simp [hreceiver]
  proxies := .of_eq hsender

theorem ledger (hgrows : s.Grows next) : s.ledger.Grows next.ledger := by
  constructor
  · intro frame hframe
    exact hgrows.sent _ _ hframe
  · rintro msgId ⟨frame, hsent, hended⟩
    exact ⟨frame, hgrows.sent _ _ hsent, hended.kept hgrows.history⟩

theorem knows (hgrows : s.Grows next) {env : Envelope} (hknows : s.Knows env) :
    next.Knows env := by
  obtain ⟨frame, hsent, hsender⟩ := hknows
  exact ⟨frame, hgrows.sent _ _ hsent, hsender⟩

theorem relies (hgrows : s.Grows next) {sec : PairSection}
    (hsec : s.Relies sec) : next.Relies sec := by
  cases sec with
  | sender sec =>
      have hkept := SenderSection.Follows.kept hsec hgrows.proxies
      exact hkept.grows hgrows.ledger
  | findLocalProxy env | peekDedup env | pushEnvelope env =>
      exact hgrows.knows hsec
  | receiver sec =>
      cases sec with
      | finishRemoteDelivery env result =>
          exact ⟨hgrows.knows hsec.1, fun hresult =>
            (hsec.2 hresult).kept hgrows.history⟩
      | postRemoteAck replyConnId msgId =>
          obtain ⟨env, hknows, hid, hended⟩ := hsec
          exact ⟨env, hgrows.knows hknows, hid, hended.kept hgrows.history⟩
      | _ => exact hgrows.knows hsec
  | _ => exact trivial

end Grows

variable {s next : PairState} {cap : Nat} {inboundId : Nat → UInt64}

/-- The end of a known message's run allows its ack. -/
theorem acked_of_ended {env : Envelope} (hknows : s.Knows env)
    (hended : s.receiver.Ended env.key) :
    s.ledger.acked env.correlationId := by
  obtain ⟨frame, hsent, hsender⟩ := hknows
  refine ⟨frame, hsent, ?_⟩
  rwa [Envelope.key, hsender] at hended

/-- The mailboxes and the connections after a step hold what they held, and
what the section was allowed to add. -/
theorem Sound.kept (hsound : s.Sound) (hgrows : s.Grows next)
    (hsender : next.sender.Follows next.ledger)
    (hreceiver : next.receiver.Truthful)
    (hmailbox : ∀ env ∈ next.mailbox, env ∈ s.mailbox ∨ s.Knows env)
    (hacks : ∀ conn, ∀ bytes ∈ next.acks conn, bytes ∈ s.acks conn ∨
      ∃ msgId, bytes = packAck msgId ∧ s.ledger.acked msgId) : next.Sound where
  sender := hsender
  receiver := hreceiver
  mailbox := by
    intro env henv
    rcases hmailbox env henv with hold | hknows
    · exact hgrows.knows (hsound.mailbox env hold)
    · exact hgrows.knows hknows
  acks := by
    intro conn bytes hbytes msgId hunpack
    apply hgrows.ledger.2
    rcases hacks conn bytes hbytes with hold | ⟨other, rfl, hacked⟩
    · exact hsound.acks conn bytes hold msgId hunpack
    · rw [unpackAck_packAck, Option.some.injEq] at hunpack
      exact hunpack ▸ hacked

/-- What one section keeps. -/
def StepsSoundly (s : PairState) (effect : Effect PairState PairSection) :
    Prop :=
  effect.shared.Sound ∧ (∀ after ∈ effect.work, effect.shared.Relies after) ∧
    s.Grows effect.shared

/-- The step leaves both processes alone; the section may have added an
envelope that is known, or an ack that is allowed. -/
structure Quiet (s next : PairState) : Prop where
  sender : next.sender = s.sender
  dedup : next.receiver.dedup = s.receiver.dedup
  history : next.receiver.history = s.receiver.history
  sent : next.sent = s.sent
  mailbox : ∀ env ∈ next.mailbox, env ∈ s.mailbox ∨ s.Knows env
  acks : ∀ conn, ∀ bytes ∈ next.acks conn, bytes ∈ s.acks conn ∨
    ∃ msgId, bytes = packAck msgId ∧ s.ledger.acked msgId

theorem taken_quiet (s : PairState) (conn : Nat) : s.Quiet { s with
    taken := Function.update s.taken conn (s.taken conn + 1) } :=
  ⟨rfl, rfl, rfl, rfl, fun _ h => Or.inl h, fun _ _ h => Or.inl h⟩

theorem skipped_quiet (s : PairState) : s.Quiet { s with receiver :=
    { s.receiver with wireSkips := s.receiver.wireSkips + 1 } } :=
  ⟨rfl, rfl, rfl, rfl, fun _ h => Or.inl h, fun _ _ h => Or.inl h⟩

theorem acks_quiet (s : PairState) (broken : Nat → Bool) (conn : Nat)
    {acks : List (List UInt8)}
    (hacks : ∀ bytes ∈ acks, bytes ∈ s.acks conn ∨
      ∃ msgId, bytes = packAck msgId ∧ s.ledger.acked msgId) :
    s.Quiet { s with
      broken := broken
      acks := Function.update s.acks conn acks } := by
  refine ⟨rfl, rfl, rfl, rfl, fun _ h => Or.inl h, ?_⟩
  intro other bytes hbytes
  by_cases hother : other = conn
  · subst hother
    exact hacks bytes (by simpa using hbytes)
  · exact Or.inl (by simpa [Function.update_of_ne hother] using hbytes)

theorem relies_goto {sec : PairSection} (hsec : next.Relies sec) :
    ∀ after ∈ (Effect.goto next [sec]).work, next.Relies after := by
  simpa using hsec

theorem Sound.quiet (hsound : s.Sound) (hquiet : s.Quiet next) :
    next.Sound ∧ s.Grows next := by
  have hgrows : s.Grows next :=
    .of_eq hquiet.sent hquiet.history (by rw [hquiet.sender])
  refine ⟨hsound.kept hgrows ?_ ?_ hquiet.mailbox hquiet.acks, hgrows⟩
  · rw [hquiet.sender]
    exact hsound.sender.grows hgrows.ledger
  · apply hsound.receiver.kept hgrows.history
    intro key hkey
    rwa [hquiet.dedup] at hkey

theorem send_sound {i : Nat} {msg : BufferedMessage}
    {effect : Effect PairState PairSection} (hsound : s.Sound)
    (hexec : s.send i msg = some effect) : s.StepsSoundly effect := by
  obtain ⟨proxy, hproxy, hexec⟩ := Option.bind_eq_some_iff.mp hexec
  split at hexec
  · rename_i hfresh
    obtain rfl := Option.some.inj hexec
    -- An id that was used before was used for this very frame.
    have hgrows : s.Grows { s with
        sent := s.sent.insert msg.msgId (proxy.packRouted msg) } := by
      refine ⟨?_, List.Subset.refl _, .of_eq rfl⟩
      intro msgId frame hframe
      rw [Table.lookup_insert]
      split
      · rename_i heq
        subst heq
        rw [hframe, Option.all_some, decide_eq_true_eq] at hfresh
        rw [hfresh]
      · exact hframe
    refine ⟨hsound.kept hgrows (hsound.sender.grows hgrows.ledger)
      hsound.receiver (fun _ h => Or.inl h) (fun _ _ h => Or.inl h), ?_, hgrows⟩
    refine relies_goto ⟨proxy, hproxy, ?_⟩
    have hid : frameMsgId (proxy.packRouted msg) = msg.msgId :=
      frameMsgId_packRouted _
    simp [ledger, hid, Table.lookup_insert]
  · cases hexec

theorem inbound_sound {sec : PairSection} {choice : PairChoice}
    {effect : Effect PairState PairSection} (hsound : s.Sound)
    (hsec : s.Relies sec) (hexec : s.inbound inboundId sec choice =
      some effect) : s.StepsSoundly effect := by
  cases sec <;> simp only [inbound, reduceCtorEq] at hexec
  case handleInboundMessage conn =>
    obtain ⟨frame, hframe, rfl⟩ := Option.map_eq_some_iff.mp hexec
    have hposted : ∃ post ∈ s.sender.posted, post.2 = frame := by
      unfold nextFrame at hframe
      split at hframe
      · cases hframe
      · obtain ⟨post, hpost, rfl⟩ :=
          List.mem_map.mp (List.mem_of_getElem? hframe)
        exact ⟨post, List.mem_of_mem_filter hpost, rfl⟩
    obtain ⟨post, hpost, rfl⟩ := hposted
    have hsent := hsound.sender.posted post hpost
    obtain ⟨hnext, hgrows⟩ := hsound.quiet (s.taken_quiet conn)
    split
    · rename_i m hunpack
      obtain ⟨hid, hsender⟩ := unpackRouted_ids hunpack
      exact ⟨hnext, relies_goto ⟨post.2, hid ▸ hsent, hsender⟩, hgrows⟩
    · exact ⟨hnext, by simp, hgrows⟩
  case findLocalProxy env =>
    cases choice <;> simp only [reduceCtorEq] at hexec
    all_goals obtain rfl := Option.some.inj hexec
    · exact ⟨hsound, relies_goto hsec, .of_eq rfl rfl rfl⟩
    · exact ⟨hsound, by simp, .of_eq rfl rfl rfl⟩
  case peekDedup env =>
    obtain ⟨hnext, hgrows⟩ := hsound.quiet s.skipped_quiet
    split at hexec <;> obtain rfl := Option.some.inj hexec
    · rename_i hview
      have hended := hsound.receiver _ (DedupTable.peekDedup_eq_completed hview)
      exact ⟨hnext, relies_goto ⟨env, hsec, rfl, hended⟩, hgrows⟩
    · exact ⟨hnext, by simp, hgrows⟩
    · exact ⟨hsound, relies_goto hsec, .of_eq rfl rfl rfl⟩
  case pushEnvelope env =>
    cases choice <;> simp only [reduceCtorEq] at hexec
    all_goals obtain rfl := Option.some.inj hexec
    · have hquiet : s.Quiet { s with mailbox := s.mailbox ++ [env] } := by
        refine ⟨rfl, rfl, rfl, rfl, ?_, fun _ _ h => Or.inl h⟩
        intro other hother
        rcases List.mem_append.mp hother with hold | hnew
        · exact Or.inl hold
        · obtain rfl := List.mem_singleton.mp hnew
          exact Or.inr hsec
      obtain ⟨hnext, hgrows⟩ := hsound.quiet hquiet
      exact ⟨hnext, by simp, hgrows⟩
    · exact ⟨hsound, by simp, .of_eq rfl rfl rfl⟩

theorem postRemoteAck_sound {replyConnId msgId : UInt64} {choice : PairChoice}
    {effect : Effect PairState PairSection} (hsound : s.Sound)
    (hacked : s.ledger.acked msgId)
    (hexec : s.postRemoteAck inboundId replyConnId msgId choice =
      some effect) : s.StepsSoundly effect := by
  cases choice <;> simp only [postRemoteAck, reduceCtorEq] at hexec
  case refuse =>
    obtain rfl := Option.some.inj hexec
    exact ⟨hsound, by simp, .of_eq rfl rfl rfl⟩
  case inbound conn =>
    split at hexec
    · obtain rfl := Option.some.inj hexec
      exact ⟨hsound, by simp, .of_eq rfl rfl rfl⟩
    · split at hexec
      · cases hexec
      · split at hexec <;> obtain rfl := Option.some.inj hexec
        · exact ⟨hsound, by simp, .of_eq rfl rfl rfl⟩
        · have hadded : ∀ bytes ∈ s.acks conn ++ [packAck msgId],
              bytes ∈ s.acks conn ∨
                ∃ msgId, bytes = packAck msgId ∧ s.ledger.acked msgId := by
            intro bytes hbytes
            rcases List.mem_append.mp hbytes with hold | hnew
            · exact Or.inl hold
            · exact Or.inr ⟨msgId, List.mem_singleton.mp hnew, hacked⟩
          have hquiet := s.acks_quiet s.broken conn hadded
          obtain ⟨hnext, hgrows⟩ := hsound.quiet hquiet
          exact ⟨hnext, by simp, hgrows⟩

theorem readAck_sound {conn : Nat} {effect : Effect PairState PairSection}
    (hsound : s.Sound) (hexec : s.readAck conn = some effect) :
    s.StepsSoundly effect := by
  unfold readAck at hexec
  split at hexec
  · cases hexec
  · rename_i bytes rest hacks
    have hold : ∀ other ∈ rest, other ∈ s.acks conn ∨
        ∃ msgId, other = packAck msgId ∧ s.ledger.acked msgId := by
      intro other hother
      rw [hacks]
      exact Or.inl (List.mem_cons_of_mem _ hother)
    have hquiet := s.acks_quiet s.broken conn hold
    obtain ⟨hnext, hgrows⟩ := hsound.quiet hquiet
    split at hexec <;> obtain rfl := Option.some.inj hexec
    · exact ⟨hnext, by simp, hgrows⟩
    · rename_i msgId hunpack
      have hmem : bytes ∈ s.acks conn := by
        rw [hacks]
        exact List.mem_cons_self ..
      have hacked := hsound.acks conn bytes hmem msgId hunpack
      exact ⟨hnext, relies_goto (hgrows.ledger.2 _ hacked), hgrows⟩

theorem mem_map_work {S I J : Type} {f : I → J} (next : List I)
    (spawned : List (List I)) (shared : S) (after : J)
    (hafter : after ∈ (Effect.mk shared (next.map f)
      (spawned.map (List.map f))).work) :
    ∃ sec ∈ (Effect.mk shared next spawned).work, f sec = after := by
  simp only [Effect.work, Multiset.mem_add, Multiset.mem_coe, List.mem_map,
    List.mem_flatten] at hafter ⊢
  rcases hafter with ⟨sec, hsec, rfl⟩ | ⟨-, ⟨secs, hsecs, rfl⟩, hafter⟩
  · exact ⟨sec, Or.inl hsec, rfl⟩
  · obtain ⟨sec, hsec, rfl⟩ := List.mem_map.mp hafter
    exact ⟨sec, Or.inr ⟨secs, hsecs, hsec⟩, rfl⟩

theorem sender_sound {sec : SenderSection} {choice : SenderChoice}
    {effect : Effect SenderState SenderSection} (hsound : s.Sound)
    (hsec : s.Relies (.sender sec))
    (hexec : s.sender.exec sec choice = some effect) :
    s.StepsSoundly (s.liftSender effect) := by
  obtain ⟨hfollows, hwork, hproxies⟩ :=
    SenderState.exec_steps hsound.sender hsec hexec
  have hgrows : s.Grows { s with sender := effect.shared } :=
    ⟨fun _ _ h => h, List.Subset.refl _, hproxies⟩
  refine ⟨hsound.kept hgrows hfollows hsound.receiver
    (fun _ h => Or.inl h) (fun _ _ h => Or.inl h), ?_, hgrows⟩
  intro after hafter
  obtain ⟨sec, hsec, rfl⟩ := mem_map_work _ _ effect.shared _ hafter
  exact hwork sec hsec

theorem receiver_sound {sec : DedupSection} {result : DeliverResult}
    {effect : Effect DedupRun DedupSection} (hsound : s.Sound)
    (hsec : s.Relies (.receiver sec))
    (hexec : DedupRun.exec cap s.receiver sec result = some effect) :
    s.StepsSoundly (s.liftReceiver effect) := by
  obtain ⟨htruthful, hwork, hhistory⟩ :=
    DedupRun.exec_honest hsound.receiver hsec hexec
  have hgrows : s.Grows { s with receiver := effect.shared } :=
    ⟨fun _ _ h => h, hhistory, .of_eq rfl⟩
  refine ⟨hsound.kept hgrows (hsound.sender.grows hgrows.ledger) htruthful
    (fun _ h => Or.inl h) (fun _ _ h => Or.inl h), ?_, hgrows⟩
  intro after hafter
  obtain ⟨sec, hsec, rfl⟩ := mem_map_work _ _ effect.shared _ hafter
  exact hwork sec hsec

/-- The step lemma of the pair. -/
theorem exec_sound {sec : PairSection} {choice : PairChoice}
    {effect : Effect PairState PairSection} (hsound : s.Sound)
    (hsec : s.Relies sec)
    (hexec : s.exec cap inboundId sec choice = some effect) :
    s.StepsSoundly effect := by
  cases sec with
  | send i msg => exact send_sound hsound hexec
  | sender sec =>
      cases choice <;> simp only [exec, reduceCtorEq] at hexec
      obtain ⟨inner, hinner, rfl⟩ := Option.map_eq_some_iff.mp hexec
      exact sender_sound hsound hsec hinner
  | readAck conn => exact readAck_sound hsound hexec
  | handleInboundMessage conn => exact inbound_sound hsound hsec hexec
  | findLocalProxy env => exact inbound_sound hsound hsec hexec
  | peekDedup env =>
      have hinbound : s.inbound inboundId (.peekDedup env) choice =
        some effect := hexec
      exact inbound_sound hsound hsec hinbound
  | pushEnvelope env => exact inbound_sound hsound hsec hexec
  | pullAndRun =>
      simp only [exec] at hexec
      cases choice <;> simp only [pullAndRun, reduceCtorEq] at hexec
      rename_i position
      obtain ⟨env, henv, rfl⟩ := Option.map_eq_some_iff.mp hexec
      have hknows := hsound.mailbox env (List.mem_of_getElem? henv)
      have hquiet : s.Quiet { s with
          mailbox := s.mailbox.eraseIdx position } :=
        ⟨rfl, rfl, rfl, rfl, fun _ h => Or.inl (List.mem_of_mem_eraseIdx h),
          fun _ _ h => Or.inl h⟩
      obtain ⟨hnext, hgrows⟩ := hsound.quiet hquiet
      exact ⟨hnext, relies_goto hknows, hgrows⟩
  | receiver sec =>
      cases sec with
      | postRemoteAck replyConnId msgId =>
          obtain ⟨env, hknows, rfl, hended⟩ := hsec
          exact postRemoteAck_sound hsound (acked_of_ended hknows hended) hexec
      | _ =>
          cases choice <;> simp only [exec, reduceCtorEq] at hexec
          obtain ⟨inner, hinner, rfl⟩ := Option.map_eq_some_iff.mp hexec
          exact receiver_sound hsound hsec hinner
  | breakConnection conn =>
      obtain rfl := Option.some.inj hexec
      have hquiet : s.Quiet { s with
          broken := Function.update s.broken conn true
          acks := Function.update s.acks conn [] } :=
        s.acks_quiet _ conn fun _ h => by cases h
      obtain ⟨hnext, hgrows⟩ := hsound.quiet hquiet
      exact ⟨hnext, by simp, hgrows⟩

/-- Only sections of the sender touch its state. -/
theorem exec_sender {sec : PairSection} {choice : PairChoice}
    {effect : Effect PairState PairSection}
    (hexec : s.exec cap inboundId sec choice = some effect) :
    effect.shared.sender = s.sender ∨
      ∃ inner inChoice outcome, sec = .sender inner ∧
        s.sender.exec inner inChoice = some outcome ∧
        effect.shared.sender = outcome.shared := by
  cases sec <;> simp only [exec] at hexec
  case sender inner =>
    cases choice <;> simp only [reduceCtorEq] at hexec
    obtain ⟨outcome, houtcome, rfl⟩ := Option.map_eq_some_iff.mp hexec
    exact Or.inr ⟨inner, _, outcome, rfl, houtcome, rfl⟩
  case send i msg =>
    obtain ⟨proxy, -, hexec⟩ := Option.bind_eq_some_iff.mp hexec
    split at hexec <;> cases hexec
    exact Or.inl rfl
  case handleInboundMessage conn =>
    obtain ⟨frame, -, rfl⟩ := Option.map_eq_some_iff.mp hexec
    split <;> exact Or.inl rfl
  case pullAndRun =>
    cases choice <;> simp only [pullAndRun, reduceCtorEq] at hexec
    obtain ⟨env, -, rfl⟩ := Option.map_eq_some_iff.mp hexec
    exact Or.inl rfl
  case receiver inner =>
    cases inner with
    | postRemoteAck replyConnId msgId =>
        simp only [postRemoteAck] at hexec
        repeat' split at hexec
        all_goals cases hexec
        all_goals exact Or.inl rfl
    | _ =>
        cases choice <;> simp only [reduceCtorEq] at hexec
        obtain ⟨outcome, -, rfl⟩ := Option.map_eq_some_iff.mp hexec
        exact Or.inl rfl
  case readAck conn =>
    simp only [readAck] at hexec
    repeat' split at hexec
    all_goals cases hexec
    all_goals exact Or.inl rfl
  case findLocalProxy env | pushEnvelope env =>
    cases choice <;> simp only [inbound, reduceCtorEq] at hexec
    all_goals cases hexec
    all_goals exact Or.inl rfl
  case peekDedup env =>
    simp only [inbound] at hexec
    split at hexec <;> cases hexec <;> exact Or.inl rfl
  case breakConnection conn =>
    cases hexec
    exact Or.inl rfl

theorem exec_removed {sec : PairSection} {choice : PairChoice}
    {effect : Effect PairState PairSection} (hsound : s.Sound)
    (hsec : s.Relies sec)
    (hexec : s.exec cap inboundId sec choice = some effect) {msgId : UInt64}
    (hmem : msgId ∈ s.sender.unacked)
    (hgone : msgId ∉ effect.shared.sender.unacked) :
    s.ledger.acked msgId := by
  rcases exec_sender hexec with
    hsame | ⟨inner, inChoice, outcome, rfl, hinner, hshared⟩
  · rw [hsame] at hgone
    exact absurd hmem hgone
  · rw [hshared] at hgone
    exact SenderState.exec_removes hsound.sender hsec hinner hmem hgone

theorem sound_init : Sound .init where
  sender := by
    constructor <;> simp [init, SenderState.init]
  receiver := by
    intro key hkey
    simp [init, DedupRun.init] at hkey
  mailbox := by simp [init]
  acks := by simp [init]

end PairState

/-- The run lemma of the pair. -/
theorem pair_sound {cap : Nat} {inboundId : Nat → UInt64}
    {word : List (Move PairSection PairChoice)}
    {last : Config PairState PairSection}
    (hrun : ((pairProgram cap inboundId).machine .init).run word =
      some last) :
    Program.Locally PairState.Sound PairState.Relies last.shared
      last.pending := by
  refine (pairProgram cap inboundId).local_invariant PairState.sound_init
    ?_ ?_ word hrun
  · intro s sec _ hentry
    cases sec with
    | sender sec => cases sec <;> first | exact trivial | cases hentry
    | _ => first | exact trivial | cases hentry
  · intro s sec choice effect hsound hsec hexec
    obtain ⟨hnext, hwork, hgrows⟩ := PairState.exec_sound hsound hsec hexec
    exact ⟨hnext, hwork, fun other hother => hgrows.relies hother⟩

/-- What a move from one configuration to the next keeps to. -/
structure DeliveredFirst (cfg : Config PairState PairSection)
    (move : Move PairSection PairChoice)
    (next : Config PairState PairSection) : Prop where
  /-- An entry of `m_unacked` is removed only after the handler run for its
  sender and id has ended with ok or dead letter. -/
  removed : ∀ msgId item,
    cfg.shared.sender.unacked.lookup msgId = some item →
    msgId ∉ next.shared.sender.unacked →
    ∃ event ∈ cfg.shared.receiver.history,
      event.EndsWell ⟨frameSender item.frame, msgId⟩
  /-- So is the message of every ack that is under way or about to be
  posted. -/
  acked : ∀ msgId,
    (∃ conn, packAck msgId ∈ cfg.shared.acks conn) ∨
      (∃ replyConnId, .receiver (.postRemoteAck replyConnId msgId) ∈
        cfg.pending) →
    ∃ frame, cfg.shared.sent.lookup msgId = some frame ∧
      ∃ event ∈ cfg.shared.receiver.history,
        event.EndsWell ⟨frameSender frame, msgId⟩
  /-- A run that threw posts no ack, and leaves no entry that could. -/
  threw : ∀ thread choice env rest,
    cfg.threads[thread]? =
      some (.receiver (.finishRemoteDelivery env .threw) :: rest) →
    move = .run thread choice →
    next.shared.acks = cfg.shared.acks ∧ next.threads[thread]? = some rest ∧
      next.shared.receiver.dedup.lookup env.key = none

theorem at_least_once (cap : Nat) (inboundId : Nat → UInt64)
    (word : List (Move PairSection PairChoice))
    (cfg next : Config PairState PairSection)
    (move : Move PairSection PairChoice)
    (hrun : ((pairProgram cap inboundId).machine .init).run word = some cfg)
    (hstep : (pairProgram cap inboundId).stepConfig cfg move = some next) :
    DeliveredFirst cfg move next := by
  obtain ⟨hsound, hrelies⟩ := pair_sound hrun
  constructor
  · intro msgId item hitem hgone
    have hmem : msgId ∈ cfg.shared.sender.unacked :=
      (Table.mem_iff_lookup _ _).mpr ⟨item, hitem⟩
    rcases (pairProgram cap inboundId).stepConfig_cases hstep with
      ⟨sec, -, -, hshared, -⟩ |
      ⟨thread, choice, sec, rest, others, effect, -, -, hpending, hexec,
        hshared, -⟩
    · rw [hshared] at hgone
      exact absurd hmem hgone
    · rw [hshared] at hgone
      have hsec := hrelies sec (by rw [hpending]; exact Multiset.mem_cons_self ..)
      obtain ⟨frame, hsent, hended⟩ :=
        PairState.exec_removed hsound hsec hexec hmem hgone
      -- The id was used for one frame only, so the run was for this entry.
      obtain ⟨rfl, hframe⟩ := hsound.sender.unacked msgId item hitem
      obtain rfl := Option.some.inj (hsent.symm.trans hframe)
      exact hended
  · rintro msgId (⟨conn, hconn⟩ | ⟨replyConnId, hpost⟩)
    · exact hsound.acks conn _ hconn msgId (unpackAck_packAck msgId)
    · obtain ⟨env, hknows, rfl, hended⟩ := hrelies _ hpost
      exact PairState.acked_of_ended hknows hended
  · rintro thread choice env rest hthread rfl
    simp only [Program.stepConfig, hthread] at hstep
    cases choice <;> simp only [pairProgram, PairState.exec, reduceCtorEq]
      at hstep
    simp only [DedupRun.exec, if_true, Option.map_some] at hstep
    obtain rfl := Option.some.inj hstep
    obtain ⟨hlt, -⟩ := List.getElem?_eq_some_iff.mp hthread
    refine ⟨rfl, ?_, ?_⟩
    · simp [PairState.liftReceiver, Effect.done, List.getElem?_set_self hlt]
    · simp [PairState.liftReceiver, Effect.done, DedupTable.finishDelivery]

def sends (thread count : Nat) : List (Move PairSection PairChoice) :=
  List.replicate count (.run thread (.sender .go))

/-- A message to node 2 is buffered, then flushed on a new connection. -/
def sendAndFlush : List (Move PairSection PairChoice) :=
  [.call (.sender (.newProxy ⟨[0x2A], [0x74], [0x6E]⟩ 2 1 none)),
    .run 0 (.sender .go), .call (.send 0 ⟨3, 1, 0, [9]⟩), .run 1 .go,
    .run 1 (.sender .go), .run 1 (.sender (.wrote ⟨[], .ok⟩))] ++ sends 1 2 ++
  [.call (.sender (.connectCheck 2)), .run 2 (.sender .go),
    .run 2 (.sender (.dialed true))] ++ sends 2 3 ++
  [.run 2 (.sender (.wrote ⟨[], .ok⟩))] ++ sends 2 2

/-- The receiver reads a frame and runs its handler, in two threads. -/
def readAndHandle (thread : Nat) (result : DeliverResult) :
    List (Move PairSection PairChoice) :=
  .call (.handleInboundMessage 0) :: List.replicate 4 (.run thread .go) ++
  [.call .pullAndRun, .run (thread + 1) (.pick 0),
    .run (thread + 1) (.ended .ok), .run (thread + 1) (.ended result),
    .run (thread + 1) (.ended .ok)]

/-- The handler throws, so the ack timeout sends the message again, and the
second run ends with ok.  The ack comes back and is about to be noted. -/
def throwThenOk : List (Move PairSection PairChoice) :=
  sendAndFlush ++ readAndHandle 3 .threw ++
  [.call (.sender .timeoutCollect), .run 5 (.sender (.due [1]))] ++ sends 5 2 ++
  readAndHandle 6 .ok ++
  [.run 7 (.inbound 0), .call (.readAck 0), .run 8 .go,
    .run 8 (.sender (.wrote ⟨[], .ok⟩))]

def firstInboundId (conn : Nat) : UInt64 := UInt64.ofNat (conn + 1)

set_option maxRecDepth 100000 in
theorem at_least_once_throwThenOk :
    ∃ cfg next,
      ((pairProgram 4 firstInboundId).machine .init).run throwThenOk =
        some cfg ∧
      (pairProgram 4 firstInboundId).stepConfig cfg (.run 8 (.sender .go)) =
        some next ∧
      cfg.shared.sender.unacked.lookup 1 =
        some ⟨packRouted ⟨⟨[0x2A], [0x74], [0x6E]⟩, 0, 1, 1, 3, [9]⟩, 2, false⟩ ∧
      1 ∉ next.shared.sender.unacked ∧
      DeliveredFirst cfg (.run 8 (.sender .go)) next := by
  have hvalue : (((pairProgram 4 firstInboundId).machine .init).run
      throwThenOk).map (fun cfg => (cfg.shared.sender.unacked.lookup 1,
        ((pairProgram 4 firstInboundId).stepConfig cfg
          (.run 8 (.sender .go))).map fun next =>
            (next.shared.sender.unacked.lookup 1).isSome)) =
      some (some ⟨packRouted ⟨⟨[0x2A], [0x74], [0x6E]⟩, 0, 1, 1, 3, [9]⟩, 2,
        false⟩, some false) := by
    decide
  obtain ⟨cfg, hrun, heq⟩ := Option.map_eq_some_iff.mp hvalue
  simp only [Prod.mk.injEq, Option.map_eq_some_iff] at heq
  obtain ⟨hentry, next, hstep, hgone⟩ := heq
  refine ⟨cfg, next, hrun, hstep, hentry, ?_,
    at_least_once 4 firstInboundId throwThenOk cfg next _ hrun hstep⟩
  rw [← AList.lookup_isSome, hgone]
  simp

end UltraNet
