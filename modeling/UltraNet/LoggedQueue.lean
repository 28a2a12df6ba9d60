/-
No logged message is stranded.  A message that is marked enqueued and was not
executed is in the hands of a token; when no call is under way the only tokens
are envelopes in a mailbox.
-/
import UltraNet.LoggedAcks

namespace UltraNet

/-- The entry of the key waits to be run from a mailbox. -/
def ReceiverLog.queued (log : ReceiverLog) (key : RecvKey) : Bool :=
  (log.index.lookup key).any fun entry => entry.enqueued && !entry.executed

theorem ReceiverLog.queued_iff (log : ReceiverLog) (key : RecvKey) :
    log.queued key = true ↔ ∃ entry, log.index.lookup key = some entry ∧
      entry.enqueued = true ∧ entry.executed = false := by
  simp [queued, Option.any_eq_true]

def QueueInv (s : LoggedState) (pending : Multiset LoggedSection) : Prop :=
  ∀ key, s.log.queued key = true → key ∈ tokens s.mailbox pending

/-- The change queues no message. -/
def QueuesNone (log next : ReceiverLog) : Prop :=
  ∀ key, next.queued key = true → log.queued key = true

theorem QueuesNone.refl (log : ReceiverLog) : QueuesNone log log :=
  fun _ hkey => hkey

theorem QueuesNone.trans {first second third : ReceiverLog}
    (hfirst : QueuesNone first second) (hsecond : QueuesNone second third) :
    QueuesNone first third := fun key hkey => hfirst key (hsecond key hkey)

theorem QueuesNone.of_map {log next : ReceiverLog}
    {f : RecvKey → RecvEntry → RecvEntry}
    (hmap : ∀ key, next.index.lookup key = (log.index.lookup key).map (f key))
    (hqueued : ∀ key entry, (f key entry).enqueued = true →
      (f key entry).executed = false →
      entry.enqueued = true ∧ entry.executed = false) : QueuesNone log next := by
  intro key hkey
  rw [ReceiverLog.queued_iff] at hkey ⊢
  obtain ⟨after, hafter, henqueued, hexecuted⟩ := hkey
  rw [hmap, Option.map_eq_some_iff] at hafter
  obtain ⟨entry, hentry, rfl⟩ := hafter
  exact ⟨entry, hentry, hqueued key entry henqueued hexecuted⟩

namespace ReceiverLog

theorem bufferHandled_queuesNone (log : ReceiverLog) (key : RecvKey)
    (conn : UInt64) : QueuesNone log (log.bufferHandled key conn) := by
  apply QueuesNone.of_map (bufferHandled_lookup log key conn)
  intro other entry henqueued hexecuted
  split at henqueued <;> simp_all

theorem bufferData_queuesNone (log : ReceiverLog) (key : RecvKey)
    (frame : List UInt8) (conn : UInt64) :
    QueuesNone log (log.bufferData key frame conn).1 := by
  unfold bufferData
  split
  · exact QueuesNone.refl log
  · intro other hother
    rw [queued_iff] at hother ⊢
    obtain ⟨entry, hlookup, henqueued, hexecuted⟩ := hother
    obtain ⟨-, rfl⟩ | ⟨-, hold⟩ := Table.of_lookup_insert hlookup
    · simp at henqueued
    · exact ⟨entry, hold, henqueued, hexecuted⟩

theorem commitIndex_queuesNone (log : ReceiverLog) (batch : List PendingRec) :
    QueuesNone log (log.commitIndex batch).1 := by
  suffices h : ∀ state : ReceiverLog × FlushResult,
      QueuesNone state.1 (batch.foldl commitRecord state).1 from
    h (log, ⟨true, [], []⟩)
  induction batch with
  | nil => exact fun state => QueuesNone.refl state.1
  | cons record batch ih =>
      intro state
      have hrecord : QueuesNone state.1 (commitRecord state record).1 := by
        apply QueuesNone.of_map (commitRecord_lookup state record)
        grind
      exact hrecord.trans (ih _)

theorem rollback_queuesNone (log : ReceiverLog) (batch : List PendingRec) :
    QueuesNone log (log.rollback batch) := by
  unfold rollback
  induction batch generalizing log with
  | nil => exact QueuesNone.refl log
  | cons record batch ih =>
      have hrecord : QueuesNone log (log.rollbackRecord record) := by
        intro key hkey
        rw [queued_iff] at hkey ⊢
        unfold rollbackRecord at hkey
        split at hkey
        · split at hkey
          · exact hkey
          · split at hkey
            · exact hkey
            · simp only [Table.lookup_erase] at hkey
              grind
        · exact hkey
      exact hrecord.trans (ih _)

end ReceiverLog

namespace QueueInv

variable {s next : LoggedState} {others : Multiset LoggedSection}
  {sec : LoggedSection}

theorem mem_tokens_add {mailbox : List Envelope} {key : RecvKey}
    (work : Multiset LoggedSection) (hkey : key ∈ tokens mailbox others) :
    key ∈ tokens mailbox (work + others) := by
  rw [mem_tokens] at hkey ⊢
  rcases hkey with henv | ⟨holder, hmem, htoken⟩
  · exact Or.inl henv
  · exact Or.inr ⟨holder, Multiset.mem_add.mpr (Or.inr hmem), htoken⟩

/-- A section without a token that queues no message. -/
theorem quiet (hinv : QueueInv s (sec ::ₘ others))
    (work : Multiset LoggedSection) (hsec : sec.token = none)
    (hlog : QueuesNone s.log next.log) (hmailbox : next.mailbox = s.mailbox) :
    QueueInv next (work + others) := by
  intro key hkey
  have hheld := hinv key (hlog key hkey)
  rw [tokens_cons_none _ _ hsec] at hheld
  rw [hmailbox]
  exact mem_tokens_add work hheld

/-- The holder of a token moves on. -/
theorem moved (hinv : QueueInv s (sec ::ₘ others)) (after : LoggedSection)
    (htoken : after.token = sec.token) (hlog : next.log = s.log)
    (hmailbox : next.mailbox = s.mailbox) :
    QueueInv next (({after} : Multiset LoggedSection) + others) := by
  intro key hkey
  rw [hlog] at hkey
  have hheld := hinv key hkey
  rw [hmailbox, Multiset.singleton_add]
  rw [mem_tokens] at hheld ⊢
  grind

/-- The holder of a token ends and leaves the key in no queue. -/
theorem released {key : RecvKey} (hinv : QueueInv s (sec ::ₘ others))
    (work : Multiset LoggedSection) (hsec : sec.token = some key)
    (hlog : QueuesNone s.log next.log) (hgone : next.log.queued key = false)
    (hmailbox : next.mailbox = s.mailbox) : QueueInv next (work + others) := by
  intro other hother
  have hheld := hinv other (hlog other hother)
  have hne : other ≠ key := by
    rintro rfl
    simp [hgone] at hother
  rw [tokens_cons_some _ _ hsec, Multiset.mem_cons] at hheld
  rw [hmailbox]
  exact mem_tokens_add work (hheld.resolve_left hne)

end QueueInv

/-- The entry is still as the checks of `try_enqueue_receiver` found it when it
is marked for a push; when it is marked because the dedup table knows the key,
it is not a new entry that waits for its first run; and an envelope that is
taken has a message id. -/
def keepsQueue (s : LoggedState) (sec : LoggedSection)
    (choice : LoggedChoice) : Bool :=
  marksFree s sec &&
    match sec, choice with
    | .enqueueAlready key, _ => !(s.log.index.lookup key).any fun entry =>
        !entry.executed && !entry.enqueued
    | .popEnvelope, .pick position =>
        (s.mailbox[position]?).all (·.correlationId ≠ 0)
    | _, _ => true

namespace QueueInv

variable {s : LoggedState} {others : Multiset LoggedSection}
  {sec : LoggedSection} {effect : Effect LoggedState LoggedSection} {cap : Nat}
  {choice : LoggedChoice}

theorem accept (hinv : QueueInv s (sec ::ₘ others))
    (hexec : s.accept sec = some effect) :
    QueueInv effect.shared (effect.work + others) := by
  cases sec <;> simp only [LoggedState.accept, reduceCtorEq] at hexec
  case acceptBufferHandled key conn =>
    obtain rfl := Option.some.inj hexec
    exact hinv.quiet _ rfl (ReceiverLog.bufferHandled_queuesNone _ key conn) rfl
  case acceptBufferData frame key conn =>
    obtain rfl := Option.some.inj hexec
    exact hinv.quiet _ rfl (ReceiverLog.bufferData_queuesNone _ key frame conn)
      rfl
  all_goals
    split at hexec <;> obtain rfl := Option.some.inj hexec <;>
      exact hinv.quiet _ rfl (QueuesNone.refl _) rfl

theorem set_enqueued {key : RecvKey} {frame : List UInt8}
    (hinv : QueueInv s (.enqueueSet key frame ::ₘ others)) :
    QueueInv { s with log := s.log.setEnqueued key true }
      (.enqueueReply key frame ::ₘ others) := by
  intro other hother
  rw [tokens_cons_some _ _ rfl, Multiset.mem_cons]
  by_cases hkey : other = key
  · exact Or.inl hkey
  · have hheld := hinv other (by
      simpa [ReceiverLog.queued, ReceiverLog.setEnqueued, lookup_modify_map,
        hkey] using hother)
    rw [tokens_cons_none _ _ rfl] at hheld
    exact Or.inr hheld

theorem enqueue (hinv : QueueInv s (sec ::ₘ others))
    (htokens : TokenInv s (sec ::ₘ others))
    (hkeeps : keepsQueue s sec choice = true)
    (hexec : s.enqueue cap sec choice = some effect) :
    QueueInv effect.shared (effect.work + others) := by
  cases sec <;> simp only [LoggedState.enqueue, reduceCtorEq] at hexec
  case enqueueRoom key =>
    split at hexec <;> obtain rfl := Option.some.inj hexec <;>
      exact hinv.quiet _ rfl (QueuesNone.refl _) rfl
  case enqueueAlready key =>
    obtain rfl := Option.some.inj hexec
    refine hinv.quiet _ rfl ?_ rfl
    intro other hother
    rw [ReceiverLog.queued_iff] at hother ⊢
    simp only [Effect.done_shared, ReceiverLog.setEnqueued,
      lookup_modify_map, Option.map_eq_some_iff] at hother
    obtain ⟨after, ⟨entry, hlookup, rfl⟩, henqueued, hexecuted⟩ := hother
    simp only [keepsQueue, marksFree, Bool.true_and, Bool.not_eq_true',
      Option.any_eq_false] at hkeeps
    grind
  case enqueueSet key frame =>
    obtain rfl := Option.some.inj hexec
    simpa using hinv.set_enqueued
  case enqueueReply key frame =>
    obtain rfl := Option.some.inj hexec
    exact hinv.moved (.pushRoutedFrame key frame (s.log.replyConn key)) rfl rfl rfl
  case pushRoutedFrame key frame conn =>
    have hrefused := hinv.moved (.clearEnqueued key) rfl (rfl : s.log = s.log)
      rfl
    split at hexec
    · rename_i m hframe
      obtain rfl := Option.some.inj hexec
      have hkey : Envelope.key ⟨m.msgId, m.senderNodeId, conn⟩ = key :=
        htokens.ok _ (Multiset.mem_cons_self _ _) m hframe
      intro other hother
      have hheld := hinv other hother
      rw [tokens_cons_some _ _ rfl] at hheld
      simpa [tokens_append, hkey] using hheld
    · obtain rfl := Option.some.inj hexec
      exact hrefused
    · obtain rfl := Option.some.inj hexec
      exact hrefused
    · cases hexec
  case clearEnqueued key =>
    obtain rfl := Option.some.inj hexec
    refine hinv.released _ rfl ?_ ?_ rfl
    · apply QueuesNone.of_map (lookup_modify_map s.log.index key _)
      grind
    · simp [ReceiverLog.queued, ReceiverLog.setEnqueued, lookup_modify_map,
        Option.any_map]
  all_goals
    split at hexec <;> obtain rfl := Option.some.inj hexec <;>
      exact hinv.quiet _ rfl (QueuesNone.refl _) rfl

theorem replay_taken {uri : ActorUri}
    (hinv : QueueInv s (.replayTake uri ::ₘ others)) :
    QueueInv { s with log := (takeForActor s.log uri).2 }
      ((((takeForActor s.log uri).1.map fun item =>
        LoggedSection.pushRoutedFrame item.1 item.2 0 : List LoggedSection) :
          Multiset LoggedSection) + others) := by
  intro key hkey
  rw [tokens_pushes, Multiset.mem_add, Multiset.mem_coe]
  rw [ReceiverLog.queued_iff] at hkey
  obtain ⟨after, hafter, henqueued, hexecuted⟩ := hkey
  rw [takeForActor_lookup, Option.map_eq_some_iff] at hafter
  obtain ⟨entry, hlookup, rfl⟩ := hafter
  split at henqueued
  · rename_i htakes
    left
    refine List.mem_map.mpr ⟨(key, entry.frame), ?_, rfl⟩
    have hmem := (Table.lookup_eq_some_iff _ _ _).mp hlookup
    exact List.mem_map.mpr
      ⟨⟨key, entry⟩, List.mem_filter.mpr ⟨hmem, htakes⟩, rfl⟩
  · rename_i htakes
    right
    have hheld := hinv key ((ReceiverLog.queued_iff _ _).mpr
      ⟨entry, hlookup, henqueued, by simpa [htakes] using hexecuted⟩)
    rwa [tokens_cons_none _ _ rfl] at hheld

theorem flush (hinv : QueueInv s (sec ::ₘ others))
    (hexec : s.flush sec choice = some effect) :
    QueueInv effect.shared (effect.work + others) := by
  cases sec <;> simp only [LoggedState.flush, reduceCtorEq] at hexec
  case flushTake =>
    split at hexec
    · obtain rfl := Option.some.inj hexec
      exact hinv.quiet _ rfl (QueuesNone.refl _) rfl
    · rename_i batch log htaken
      obtain rfl := Option.some.inj hexec
      have hindex := ReceiverLog.takeBatch_index htaken
      refine hinv.quiet _ rfl ?_ rfl
      intro key hkey
      simpa [ReceiverLog.queued, hindex] using hkey
  case flushWrite batch =>
    cases choice with
    | wrote io =>
        dsimp only at hexec
        split at hexec
        · cases hexec
        · obtain rfl := Option.some.inj hexec
          exact hinv.quiet _ rfl (QueuesNone.refl _) rfl
        · obtain rfl := Option.some.inj hexec
          exact hinv.quiet _ rfl (QueuesNone.refl _) rfl
    | _ => cases hexec
  case flushCommit batch =>
    obtain rfl := Option.some.inj hexec
    exact hinv.quiet _ rfl (ReceiverLog.commitIndex_queuesNone _ batch) rfl
  case flushRollback batch =>
    obtain rfl := Option.some.inj hexec
    exact hinv.quiet _ rfl (ReceiverLog.rollback_queuesNone _ batch) rfl
  case replayTake uri =>
    obtain rfl := Option.some.inj hexec
    simpa using hinv.replay_taken
  case pumpHold =>
    split at hexec <;> obtain rfl := Option.some.inj hexec <;>
      exact hinv.quiet _ rfl (QueuesNone.refl _) rfl
  case replayHold uri =>
    split at hexec <;> obtain rfl := Option.some.inj hexec <;>
      exact hinv.quiet _ rfl (QueuesNone.refl _) rfl
  all_goals
    obtain rfl := Option.some.inj hexec
    exact hinv.quiet _ rfl (QueuesNone.refl _) rfl

theorem dispatch (hinv : QueueInv s (sec ::ₘ others))
    (htokens : TokenInv s (sec ::ₘ others))
    (hkeeps : keepsQueue s sec choice = true)
    (hexec : s.dispatch cap sec choice = some effect) :
    QueueInv effect.shared (effect.work + others) := by
  cases sec <;> simp only [LoggedState.dispatch, reduceCtorEq] at hexec
  case popEnvelope =>
    cases choice with
    | pick position =>
        dsimp only at hexec
        split at hexec
        · cases hexec
        · rename_i env henv
          have hid : env.correlationId ≠ 0 := by
            simpa [keepsQueue, marksFree, henv] using hkeeps
          rw [if_neg hid] at hexec
          obtain rfl := Option.some.inj hexec
          intro key hkey
          have hheld := hinv key hkey
          rw [tokens_cons_none _ _ rfl, tokens_eraseIdx henv] at hheld
          simp only [Effect.goto_work, Multiset.coe_singleton,
            Multiset.singleton_add]
          rw [tokens_cons_some _ _ rfl]
          exact hheld
    | _ => cases hexec
  case claimExecuted env =>
    obtain rfl := Option.some.inj hexec
    exact hinv.moved (.claimHandled env (s.log.executed env.key)) rfl rfl rfl
  case claimHandled env executed =>
    obtain rfl := Option.some.inj hexec
    exact hinv.moved (.claimDedup env executed
      (s.log.handledDurable env.key)) rfl rfl rfl
  case claimDedup env executed handled =>
    rcases TokenInv.claim cap htokens with heq | ⟨dedup, evicted, heq, -⟩
    · simp only [heq] at hexec
      obtain rfl := Option.some.inj hexec
      exact hinv.moved (.clearEnqueued env.key) rfl rfl rfl
    · simp only [heq] at hexec
      obtain rfl := Option.some.inj hexec
      exact hinv.moved (.deliver env) rfl rfl rfl
  case deliver env =>
    cases choice with
    | ended result =>
        obtain rfl := Option.some.inj hexec
        exact hinv.moved (.finishDedup env result) rfl rfl rfl
    | _ => cases hexec
  case finishDedup env result =>
    split at hexec <;> obtain rfl := Option.some.inj hexec
    · exact hinv.moved (.dropKey env) rfl rfl rfl
    · exact hinv.moved (.markExecuted env) rfl rfl rfl
  case dropKey env =>
    obtain rfl := Option.some.inj hexec
    refine hinv.released _ rfl ?_ ?_ rfl
    · intro key hkey
      rw [ReceiverLog.queued_iff] at hkey ⊢
      simp only [Effect.done_shared, ReceiverLog.dropKey,
        Table.lookup_erase] at hkey
      grind
    · simp [ReceiverLog.queued, ReceiverLog.dropKey]
  case markExecuted env =>
    obtain rfl := Option.some.inj hexec
    refine hinv.released _ rfl ?_ ?_ rfl
    · apply QueuesNone.of_map (lookup_modify_map s.log.index env.key _)
      grind
    · simp [ReceiverLog.queued, ReceiverLog.markExecuted, lookup_modify_map,
        Option.any_map]
  case finishHandled env =>
    split at hexec <;> obtain rfl := Option.some.inj hexec <;>
      exact hinv.quiet _ rfl (QueuesNone.refl _) rfl
  case finishBufferHandled env =>
    obtain rfl := Option.some.inj hexec
    exact hinv.quiet _ rfl
      (ReceiverLog.bufferHandled_queuesNone _ env.key env.replyConnId) rfl
  case deliverUnkeyed env =>
    obtain rfl := Option.some.inj hexec
    exact hinv.quiet _ rfl (QueuesNone.refl _) rfl

end QueueInv

theorem queueInv_exec {s : LoggedState} {others : Multiset LoggedSection}
    {sec : LoggedSection} {effect : Effect LoggedState LoggedSection} {cap : Nat}
    {choice : LoggedChoice} (hinv : QueueInv s (sec ::ₘ others))
    (htokens : TokenInv s (sec ::ₘ others))
    (hkeeps : keepsQueue s sec choice = true)
    (hexec : s.exec cap sec choice = some effect) :
    QueueInv effect.shared (effect.work + others) := by
  unfold LoggedState.exec at hexec
  split at hexec
  · obtain rfl := Option.some.inj hexec
    exact hinv.quiet _ rfl (QueuesNone.refl _) rfl
  all_goals first
    | exact hinv.accept hexec
    | exact hinv.enqueue htokens hkeeps hexec
    | exact hinv.flush hexec
    | exact hinv.dispatch htokens hkeeps hexec

/-- Every message that is persisted and not executed is waiting for
`try_enqueue_receiver`, or an envelope of it is in a mailbox. -/
def LoggedState.NoneStranded (s : LoggedState) : Prop :=
  ∀ key entry, s.log.index.lookup key = some entry → entry.persisted = true →
    entry.executed = false →
    key ∈ s.log.waitingKeys ∨ ∃ env ∈ s.mailbox, env.key = key

theorem ReceiverLog.mem_waitingKeys {log : ReceiverLog} {key : RecvKey}
    {entry : RecvEntry} (hlookup : log.index.lookup key = some entry)
    (hpersisted : entry.persisted = true) (hexecuted : entry.executed = false)
    (henqueued : entry.enqueued = false) : key ∈ log.waitingKeys := by
  have hmem := (Table.lookup_eq_some_iff _ _ _).mp hlookup
  refine List.mem_map.mpr ⟨⟨key, entry⟩, List.mem_filter.mpr ⟨hmem, ?_⟩, rfl⟩
  simp [hpersisted, hexecuted, henqueued]

theorem QueueInv.noneStranded {s : LoggedState} (hinv : QueueInv s 0) :
    s.NoneStranded := by
  intro key entry hlookup hpersisted hexecuted
  cases henqueued : entry.enqueued with
  | false =>
      exact Or.inl (ReceiverLog.mem_waitingKeys hlookup hpersisted hexecuted
        henqueued)
  | true =>
      have hqueued := (ReceiverLog.queued_iff s.log key).mpr
        ⟨entry, hlookup, henqueued, hexecuted⟩
      right
      simpa [tokens] using hinv key hqueued

/-- Both invariants together: a step of the queue uses the tokens. -/
structure LoggedInv (s : LoggedState) (pending : Multiset LoggedSection) :
    Prop where
  held : TokenInv s pending
  queue : QueueInv s pending

theorem loggedInv_opened (file : List UInt8) {log : ReceiverLog}
    (huntouched : Untouched log.index) (hframes : FramesMatch log) :
    LoggedInv (.opened file log) 0 := by
  refine ⟨tokenInv_opened file huntouched hframes, fun key hkey => ?_⟩
  obtain ⟨entry, hlookup, henqueued, -⟩ := (ReceiverLog.queued_iff _ _).mp hkey
  simp [(huntouched key entry hlookup).2] at henqueued

/-- In every run whose steps keep the queue, no message is stranded whenever
no call is under way. -/
theorem logged_none_stranded (cap : Nat) (file : List UInt8) (opened : Bool)
    (log : ReceiverLog) (hlog : ReceiverLog.construct file opened = some log)
    (hframes : FramesMatch log) (word : List (Move LoggedSection LoggedChoice))
    (last : Config LoggedState LoggedSection)
    (hmeets : ((loggedProgram cap).machine (.opened file log)).Meets
      (Program.OnSections fun s _ sec choice => keepsQueue s sec choice = true)
      word)
    (hrun : ((loggedProgram cap).machine (.opened file log)).run word =
      some last) (hidle : last.pending = 0) : last.shared.NoneStranded := by
  have hinv : LoggedInv last.shared last.pending := by
    refine (loggedProgram cap).invariant
      (loggedInv_opened file (untouched_construct hlog) hframes) ?_ ?_ word
      hmeets hrun
    · intro s pending sec hinv hentry
      refine ⟨hinv.held.call hentry, fun key hkey => ?_⟩
      have hheld := hinv.queue key hkey
      rw [mem_tokens] at hheld ⊢
      grind
    · intro s others sec choice effect hinv hkeeps heffect
      have hfree : marksFree s sec = true := by
        simp only [keepsQueue, Bool.and_eq_true] at hkeeps
        exact hkeeps.1
      exact ⟨hinv.held.exec hfree heffect,
        queueInv_exec hinv.queue hinv.held hkeeps heffect⟩
  rw [hidle] at hinv
  exact hinv.queue.noneStranded

open Move LoggedSection LoggedChoice in
/-- One message is queued, runs and throws, is sent again and queued again. -/
def throwAndResend : List (Move LoggedSection LoggedChoice) :=
  acceptToMark ++ runs 0 5 ++
    [call popEnvelope, run 1 (pick 0)] ++ runs 1 3 ++
    [run 1 (ended .threw)] ++ runs 1 2 ++
    [call (acceptExecuted sampleFrame ⟨7, 1⟩ 6)] ++ runs 2 3 ++
    [run 2 aged, run 2 (wrote ⟨[], .ok⟩)] ++ runs 2 13

set_option maxRecDepth 100000 in
theorem logged_none_stranded_throwAndResend :
    ((loggedProgram 4).machine (.opened [] emptyLog)).Meets
        (Program.OnSections fun s _ sec choice =>
          keepsQueue s sec choice = true) throwAndResend ∧
      ∃ last, ((loggedProgram 4).machine (.opened [] emptyLog)).run
          throwAndResend = some last ∧
        last.shared.mailbox = [⟨1, 7, 6⟩] ∧ last.pending = 0 ∧
        last.shared.NoneStranded := by
  have hmeets : ((loggedProgram 4).machine (.opened [] emptyLog)).Meets
      (Program.OnSections fun s _ sec choice =>
        keepsQueue s sec choice = true) throwAndResend := by
    decide
  have hvalue : (((loggedProgram 4).machine (.opened [] emptyLog)).run
      throwAndResend).map (fun cfg => (cfg.shared.mailbox, cfg.threads)) =
        some ([⟨1, 7, 6⟩], [[], [], []]) := by
    decide
  obtain ⟨last, hlast, heq⟩ := Option.map_eq_some_iff.mp hvalue
  simp only [Prod.mk.injEq] at heq
  have hidle : last.pending = 0 := by simp [Config.pending, heq.2]
  exact ⟨hmeets, last, hlast, heq.1, hidle, logged_none_stranded 4 [] true
    emptyLog construct_nil framesMatch_emptyLog throwAndResend last hmeets hlast
    hidle⟩

open Move LoggedSection LoggedChoice in
/-- While the message runs, a resend finds its key in the dedup table.  The run
throws and drops the key; a second resend makes a new entry, and only now the
first one marks it enqueued. -/
def markedAfterDrop : List (Move LoggedSection LoggedChoice) :=
  acceptToMark ++ [call (acceptExecuted sampleFrame ⟨7, 1⟩ 5)] ++ runs 1 9 ++
    runs 0 5 ++ [call popEnvelope, run 2 (pick 0)] ++ runs 2 3 ++
    runs 1 1 ++ [run 2 (ended .threw)] ++ runs 2 2 ++
    [call (acceptExecuted sampleFrame ⟨7, 1⟩ 6)] ++ runs 3 3 ++ runs 1 1 ++
    [run 3 aged, run 3 (wrote ⟨[], .ok⟩)] ++ runs 3 4

set_option maxRecDepth 100000 in
theorem markedAfterDrop_stranded :
    ∃ log last, ReceiverLog.construct [] true = some log ∧ FramesMatch log ∧
      ((loggedProgram 4).machine (.opened [] log)).run markedAfterDrop =
        some last ∧
      last.pending = 0 ∧ ¬ last.shared.NoneStranded := by
  have hvalue : (((loggedProgram 4).machine (.opened [] emptyLog)).run
      markedAfterDrop).map (fun cfg =>
        (cfg.threads, cfg.shared.mailbox, cfg.shared.log.waitingKeys,
          cfg.shared.log.index.lookup ⟨7, 1⟩)) =
        some ([[], [], [], []], [], [],
          some ⟨sampleFrame, 6, true, false, true, false⟩) := by
    decide
  obtain ⟨last, hlast, heq⟩ := Option.map_eq_some_iff.mp hvalue
  simp only [Prod.mk.injEq] at heq
  obtain ⟨hthreads, hmailbox, hwaiting, hentry⟩ := heq
  refine ⟨emptyLog, last, construct_nil, framesMatch_emptyLog, hlast,
    by simp [Config.pending, hthreads], fun hnone => ?_⟩
  have := hnone ⟨7, 1⟩ _ hentry rfl rfl
  simp [hmailbox, hwaiting] at this

end UltraNet
