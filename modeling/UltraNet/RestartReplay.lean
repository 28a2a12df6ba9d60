/-
A receiver that was restarted over its log: the entries that `scan_existing`
found are fed to the actor by `replay_receiver_for`, once it is spawned, and by
`pump_receiver_waiting`.  No frame comes in and no handler throws.  The actor
takes its envelopes in order, one at a time.
-/
import UltraNet.LoggedAcks

namespace UltraNet

/-- The envelope that the actor has taken; `claimed` is a ghost: `claim_remote`
returned fresh for it. -/
structure Dispatch where
  env : Envelope
  payload : List UInt8
  claimed : Bool

/-- `mailbox` holds the payloads too and takes the place of the mailbox of
`logged`.  `runs` is a ghost: the handler runs, oldest first. -/
structure ReplayState where
  logged : LoggedState
  spawned : Bool
  mailbox : List (Envelope × List UInt8)
  current : Option Dispatch
  runs : List (RecvKey × List UInt8)

inductive ReplaySection where
  -- the actor enters `m_registry`, then `replay_receiver_for`
  | spawn
  | pushRoutedFrame (key : RecvKey) (frame : List UInt8) (conn : UInt64)
  -- `dispatch_envelope`
  | popEnvelope
  | deliverUnkeyed (env : Envelope)
  | claimDedup (env : Envelope) (executed handled : Bool)
  | deliver (env : Envelope)
  | markExecuted (env : Envelope)
  | logged (sec : LoggedSection)
deriving DecidableEq

def LoggedSection.toReplay : LoggedSection → ReplaySection
  | .pushRoutedFrame key frame conn => .pushRoutedFrame key frame conn
  | .claimDedup env executed handled => .claimDedup env executed handled
  | .deliver env => .deliver env
  | .markExecuted env => .markExecuted env
  | sec => .logged sec

namespace ReplayState

/-- `find_local_proxy`, when the one actor is in the registry. -/
def finds (s : ReplayState) (uri : ActorUri) (m : Routed) : Bool :=
  s.spawned && (m.uri.toBytes = uri.toBytes ||
    m.uri.type = uri.type && m.uri.name = uri.name)

def liftLogged (s : ReplayState) (current : Option Dispatch)
    (effect : Effect LoggedState LoggedSection) :
    Effect ReplayState ReplaySection :=
  ⟨{ s with logged := effect.shared, current := current },
    effect.next.map LoggedSection.toReplay,
    effect.spawned.map (List.map LoggedSection.toReplay)⟩

/-- What becomes of the dispatch that calls `claim_remote`. -/
def afterClaim (s : ReplayState) (cap : Nat) (key : RecvKey)
    (executed handled : Bool) : Option Dispatch :=
  if (DedupTable.claimRemote cap s.logged.dedup key executed handled).claim =
      .fresh then
    s.current.map fun d => { d with claimed := true }
  else none

def recordRun (s : ReplayState) (key : RecvKey) : ReplayState :=
  { s with runs := s.runs ++ s.current.toList.map fun d => (key, d.payload) }

/-- The actor is free for the next envelope once `mark_executed` is done; what
is left of `finish_remote_delivery` may overlap with it. -/
def exec (cap : Nat) (uri : ActorUri) (s : ReplayState) :
    ReplaySection → LoggedChoice → Option (Effect ReplayState ReplaySection)
  | .spawn, _ =>
      if s.spawned then none
      else some (.goto { s with spawned := true } [.logged (.replayHold uri)])
  | .pushRoutedFrame key frame conn, _ =>
      match (unpackRouted frame).filter (s.finds uri) with
      | some m =>
          some (.done { s with mailbox := s.mailbox ++
            [(⟨m.msgId, m.senderNodeId, conn⟩, m.payload)] })
      | none => some (.goto s [.logged (.clearEnqueued key)])
  | .popEnvelope, _ =>
      match s.current, s.mailbox with
      | none, (env, payload) :: rest =>
          let next :=
            { s with mailbox := rest, current := some ⟨env, payload, false⟩ }
          if env.correlationId = 0 then some (.goto next [.deliverUnkeyed env])
          else some (.goto next [.logged (.claimExecuted env)])
      | _, _ => none
  | .deliverUnkeyed env, _ =>
      some (.done { s.recordRun env.key with current := none })
  | .claimDedup env executed handled, choice =>
      (s.logged.exec cap (.claimDedup env executed handled) choice).map
        (s.liftLogged (s.afterClaim cap env.key executed handled))
  | .deliver env, .ended result =>
      if result = .threw then none
      else
        (s.logged.exec cap (.deliver env) (.ended result)).map
          ((s.recordRun env.key).liftLogged s.current)
  | .markExecuted env, choice =>
      (s.logged.exec cap (.markExecuted env) choice).map (s.liftLogged none)
  | .logged sec, choice =>
      (s.logged.exec cap sec choice).map (s.liftLogged s.current)
  | _, _ => none

/-- The log was opened, and no actor is there yet. -/
def opened (file : List UInt8) (log : ReceiverLog) : ReplayState :=
  ⟨.opened file log, false, [], none, []⟩

/-- The actor is spawned, takes an envelope, the flush loop wakes up or the
waiting entries are pumped. -/
def entry : ReplaySection → Bool
  | .spawn | .popEnvelope => true
  | .logged sec => sec = .flushTake ∨ sec = .pumpHold
  | _ => false

end ReplayState

def replayProgram (cap : Nat) (uri : ActorUri) :
    Program ReplayState ReplaySection LoggedChoice where
  entry _ sec := ReplayState.entry sec
  exec := ReplayState.exec cap uri

/-- The dedup table has room for the section. -/
def hasRoom (cap : Nat) (s : ReplayState) : ReplaySection → Bool
  | .logged (.enqueueRoom key) =>
      DedupTable.dedupRoomFor cap s.logged.dedup key ≠ .full
  | .claimDedup env executed handled =>
      (DedupTable.claimRemote cap s.logged.dedup env.key executed
        handled).claim ≠ .overflow
  | _ => true

/-- What a flush or a mark of the queue leaves as it is. -/
def RecvEntry.core (entry : RecvEntry) : List UInt8 × Bool × Bool :=
  (entry.frame, entry.persisted, entry.executed)

/-- No entry comes, goes or is executed, and only handled records are
buffered. -/
structure SameCore (log next : ReceiverLog) : Prop where
  core : ∀ key, (next.index.lookup key).map RecvEntry.core =
    (log.index.lookup key).map RecvEntry.core
  records : (∀ record ∈ log.pending, record.type = 2) →
    ∀ record ∈ next.pending, record.type = 2

namespace SameCore

variable {log next : ReceiverLog}

theorem refl (log : ReceiverLog) : SameCore log log :=
  ⟨fun _ => rfl, fun h => h⟩

theorem trans {last : ReceiverLog} (hfirst : SameCore log next)
    (hsecond : SameCore next last) : SameCore log last :=
  ⟨fun key => (hsecond.core key).trans (hfirst.core key),
    fun h => hsecond.records (hfirst.records h)⟩

theorem executed (hsame : SameCore log next) (key : RecvKey) :
    next.executed key = log.executed key := by
  have hcore := hsame.core key
  unfold ReceiverLog.executed
  cases hbefore : log.index.lookup key <;>
    cases hafter : next.index.lookup key <;>
    simp_all [RecvEntry.core]

theorem of_map {f : RecvKey → RecvEntry → RecvEntry}
    (hf : ∀ key entry, (f key entry).core = entry.core)
    (hlookup : ∀ key, next.index.lookup key =
      (log.index.lookup key).map (f key))
    (hpending : next.pending = log.pending) : SameCore log next := by
  refine ⟨fun key => ?_, by rw [hpending]; exact fun h => h⟩
  rw [hlookup, Option.map_map]
  cases log.index.lookup key <;> simp [hf]

end SameCore

namespace ReceiverLog

theorem setEnqueued_core (log : ReceiverLog) (key : RecvKey) (value : Bool) :
    SameCore log (log.setEnqueued key value) := by
  refine .of_map ?_ (fun other => lookup_modify_map ..) rfl
  intro other entry
  split <;> rfl

theorem takeForActor_core (log : ReceiverLog) (uri : ActorUri) :
    SameCore log (takeForActor log uri).2 := by
  refine .of_map ?_ (takeForActor_lookup log uri) rfl
  intro key entry
  split <;> rfl

theorem bufferHandled_core (log : ReceiverLog) (key : RecvKey)
    (conn : UInt64) : SameCore log (log.bufferHandled key conn) := by
  have hmodify : ∀ other, ((log.index.modify key fun entry =>
      { entry with replyConnId := conn }).lookup other).map RecvEntry.core =
        (log.index.lookup other).map RecvEntry.core := by
    intro other
    rw [lookup_modify_map, Option.map_map]
    cases log.index.lookup other with
    | none => rfl
    | some entry =>
        simp only [Option.map_some, Function.comp_apply, Option.some.injEq]
        split <;> rfl
  unfold bufferHandled
  split
  · exact .refl log
  · dsimp only
    split
    · exact ⟨hmodify, fun h => h⟩
    · split
      · exact ⟨hmodify, fun h => h⟩
      · refine ⟨hmodify, ?_⟩
        intro hold record hrecord
        rcases List.mem_append.mp hrecord with hmem | hnew
        · exact hold record hmem
        · rw [List.mem_singleton.mp hnew]

theorem commitIndex_core {batch : List PendingRec}
    (hbatch : ∀ record ∈ batch, record.type = 2) (log : ReceiverLog) :
    SameCore log (log.commitIndex batch).1 := by
  suffices h : ∀ state : ReceiverLog × FlushResult,
      SameCore state.1 (batch.foldl commitRecord state).1 from
    h (log, ⟨true, [], []⟩)
  induction batch with
  | nil => exact fun state => .refl state.1
  | cons record batch ih =>
      intro state
      have htype := hbatch record (List.mem_cons_self ..)
      refine .trans ?_ (ih (fun other hother =>
        hbatch other (List.mem_cons_of_mem _ hother)) _)
      simp only [commitRecord, htype, if_true]
      refine .of_map ?_ (fun other => lookup_modify_map ..) rfl
      intro other entry
      split <;> rfl

/-- Only data records are rolled back. -/
theorem rollback_handled {batch : List PendingRec}
    (hbatch : ∀ record ∈ batch, record.type = 2) (log : ReceiverLog) :
    log.rollback batch = log := by
  unfold rollback
  induction batch with
  | nil => rfl
  | cons record batch ih =>
      have hdata : ¬ record.type = 1 := by
        rw [hbatch record (List.mem_cons_self ..)]
        decide
      rw [List.foldl_cons, rollbackRecord, if_neg hdata]
      exact ih fun other hother => hbatch other (List.mem_cons_of_mem _ hother)

theorem takeBatch_core {log next : ReceiverLog} {aged : Bool}
    {batch : List PendingRec} (htake : log.takeBatch aged = some (batch, next)) :
    SameCore log next ∧ batch = log.pending ∧ next.index = log.index := by
  unfold takeBatch at htake
  split at htake
  · cases htake
  · split at htake
    · cases htake
    · cases htake
      exact ⟨⟨fun _ => rfl, fun _ record hrecord => by cases hrecord⟩, rfl, rfl⟩

end ReceiverLog

namespace DedupTable

variable {cap : Nat} {dedup : DedupTable} {key : RecvKey}
  {executed handled : Bool}

/-- A fresh claim is for a key that is neither in the table nor executed. -/
theorem claimRemote_fresh
    (hfresh : (claimRemote cap dedup key executed handled).claim = .fresh) :
    dedup.lookup key = none ∧ executed = false ∧
      ∀ other, (claimRemote cap dedup key executed handled).dedup.lookup other ≠
        none → other = key ∨ dedup.lookup other ≠ none := by
  unfold claimRemote at hfresh ⊢
  split at hfresh
  · cases hfresh
  · cases hfresh
  · rename_i hnone
    cases executed <;> cases handled <;>
      simp only [Bool.false_eq_true, and_true, and_false, if_false, and_self,
        if_true, reduceCtorEq] at hfresh ⊢
    all_goals refine ⟨hnone, trivial, ?_⟩
    all_goals intro other hother
    all_goals split at hother
    all_goals try split at hother
    all_goals simp only [Table.lookup_insert, Table.lookup_erase] at hother
    all_goals grind

theorem claimRemote_other
    (hother : (claimRemote cap dedup key executed handled).claim ≠ .fresh) :
    (claimRemote cap dedup key executed handled).dedup = dedup ∧
      ((claimRemote cap dedup key executed handled).claim ≠ .overflow →
        dedup.lookup key ≠ none ∨ executed = true) := by
  unfold claimRemote at hother ⊢
  split
  · rename_i hlookup
    exact ⟨rfl, fun _ => Or.inl (by simp [hlookup])⟩
  · rename_i hlookup
    exact ⟨rfl, fun _ => Or.inl (by simp [hlookup])⟩
  · cases executed <;> cases handled <;> simp_all <;> grind

theorem finishDelivery_lookup {result : DeliverResult}
    (hresult : result ≠ .threw) (other : RecvKey)
    (hpresent : (finishDelivery cap dedup key result).lookup other ≠ none) :
    other = key ∨ dedup.lookup other ≠ none := by
  simp only [finishDelivery, hresult, if_false] at hpresent
  split at hpresent
  · rw [Table.lookup_insert] at hpresent
    grind
  · split at hpresent
    · rw [Table.lookup_insert] at hpresent
      grind
    · exact Or.inr hpresent

end DedupTable

/-- The payload is the one of the frame that the file has for the key. -/
def PayloadOf (frames : RecvKey → Option (List UInt8)) (key : RecvKey)
    (payload : List UInt8) : Prop :=
  ∃ frame m, frames key = some frame ∧ unpackRouted frame = some m ∧
    m.payload = payload

namespace ReplayState

/-- The actor runs, or is about to run, the handler for the key. -/
def Claimed (s : ReplayState) (key : RecvKey) : Prop :=
  ∃ d, s.current = some d ∧ d.env.key = key ∧ d.claimed = true

/-- The key was run, or the actor is at it. -/
def Begun (s : ReplayState) (key : RecvKey) : Prop :=
  s.logged.log.executed key = true ∨ s.Claimed key

def ran (s : ReplayState) : List RecvKey := s.runs.map (·.1)

structure Inv (frames : RecvKey → Option (List UInt8)) (s : ReplayState) :
    Prop where
  hold : s.logged.holdHandler = false
  entries : ∀ key, (s.logged.log.index.lookup key).map RecvEntry.core =
    (frames key).map fun frame => (frame, true, s.logged.log.executed key)
  records : ∀ record ∈ s.logged.log.pending, record.type = 2
  letters : ∀ letter ∈ s.mailbox, PayloadOf frames letter.1.key letter.2
  taken : ∀ d, s.current = some d → PayloadOf frames d.env.key d.payload
  payloads : ∀ run ∈ s.runs, PayloadOf frames run.1 run.2
  once : ∀ key, key.msgId ≠ 0 → s.ran.count key ≤ 1
  begun : ∀ key ∈ s.ran, key.msgId ≠ 0 → s.Begun key
  deduped : ∀ key, s.logged.dedup.lookup key ≠ none → s.Begun key
  executed : ∀ key, s.logged.log.executed key = true → key ∈ s.ran

/-- The actor has taken the envelope. -/
def Takes (s : ReplayState) (env : Envelope) (claimed : Bool) : Prop :=
  ∃ payload, s.current = some ⟨env, payload, claimed⟩

def LoggedOk (frames : RecvKey → Option (List UInt8)) (s : ReplayState) :
    LoggedSection → Prop
  | .enqueueSet key frame | .enqueueReply key frame => frames key = some frame
  | .enqueueAlready key => s.Begun key
  | .flushWrite batch | .flushCommit batch | .flushRollback batch =>
      ∀ record ∈ batch, record.type = 2
  | .claimExecuted env => s.Takes env false ∧ env.correlationId ≠ 0
  | .claimHandled env executed => s.Takes env false ∧ env.correlationId ≠ 0 ∧
      executed = s.logged.log.executed env.key
  | .finishDedup env result => s.Takes env true ∧ result ≠ .threw ∧
      env.key ∈ s.ran
  -- The sections that never run here, or run as sections of their own.
  | .setHoldHandler _ | .acceptExecuted .. | .acceptHandled ..
  | .acceptBufferHandled .. | .acceptHasData .. | .acceptHold ..
  | .acceptPersisted .. | .acceptEnqueued .. | .acceptBufferData ..
  | .pushRoutedFrame .. | .deliverUnkeyed .. | .claimDedup .. | .deliver ..
  | .dropKey .. | .markExecuted .. => False
  | sec => sec ≠ .popEnvelope

/-- What a pending section knows. -/
def Ok (frames : RecvKey → Option (List UInt8)) (s : ReplayState) :
    ReplaySection → Prop
  | .pushRoutedFrame key frame _ => frames key = some frame
  | .deliverUnkeyed env => s.Takes env false ∧ env.correlationId = 0
  | .claimDedup env executed _ => s.Takes env false ∧ env.correlationId ≠ 0 ∧
      executed = s.logged.log.executed env.key
  | .deliver env => s.Takes env true ∧ env.correlationId ≠ 0 ∧
      env.key ∉ s.ran
  | .markExecuted env => s.Takes env true ∧ env.key ∈ s.ran
  | .logged sec => s.LoggedOk frames sec
  | _ => True

end ReplayState

/-- The sections that have the actor to themselves. -/
def ReplaySection.busyTag : ReplaySection → Option Unit
  | .deliverUnkeyed _ | .claimDedup .. | .deliver _ | .markExecuted _ => some ()
  | .logged (.claimExecuted _) | .logged (.claimHandled ..)
  | .logged (.finishDedup ..) => some ()
  | _ => none

namespace ReplayState

variable {frames : RecvKey → Option (List UInt8)} {cap : Nat} {uri : ActorUri}
  {s next : ReplayState}

theorem Inv.lookup_frame (hinv : s.Inv frames) {key : RecvKey}
    {entry : RecvEntry}
    (hlookup : s.logged.log.index.lookup key = some entry) :
    frames key = some entry.frame ∧ entry.persisted = true := by
  have hentry := hinv.entries key
  rw [hlookup] at hentry
  cases hframe : frames key <;> simp_all [RecvEntry.core]

/-- Every file has an entry for each of its data records. -/
theorem Inv.frame_lookup (hinv : s.Inv frames) {key : RecvKey}
    {frame : List UInt8} (hframe : frames key = some frame) :
    ∃ entry, s.logged.log.index.lookup key = some entry ∧
      entry.frame = frame ∧ entry.persisted = true := by
  have hentry := hinv.entries key
  rw [hframe, Option.map_some] at hentry
  obtain ⟨entry, hlookup, hcore⟩ := Option.map_eq_some_iff.mp hentry
  simp only [RecvEntry.core, Prod.mk.injEq] at hcore
  exact ⟨entry, hlookup, hcore.1, hcore.2.1⟩

/-- Nothing happened to the dispatch under way. -/
structure SameDispatch (s next : ReplayState) : Prop where
  current : next.current = s.current
  runs : next.runs = s.runs
  executed : ∀ key, next.logged.log.executed key = s.logged.log.executed key

theorem SameDispatch.begun (hsame : s.SameDispatch next) (key : RecvKey) :
    next.Begun key ↔ s.Begun key := by
  unfold Begun Claimed
  rw [hsame.executed, hsame.current]

theorem SameDispatch.ok (hsame : s.SameDispatch next) {sec : ReplaySection}
    (hsec : s.Ok frames sec) : next.Ok frames sec := by
  have hran : next.ran = s.ran := by rw [ran, ran, hsame.runs]
  cases sec with
  | logged sec =>
      cases sec <;> simp only [Ok, LoggedOk, Takes, hsame.current,
        hsame.executed, hsame.begun, hran] at hsec ⊢ <;> exact hsec
  | spawn => trivial
  | popEnvelope => trivial
  | _ => simpa only [Ok, Takes, hsame.current, hsame.executed, hran] using hsec

/-- A section that does not have the actor to itself. -/
theorem Ok.idle {sec : ReplaySection} (hsec : s.Ok frames sec)
    (hidle : sec.busyTag = none)
    (hbegun : ∀ key, s.Begun key → next.Begun key) : next.Ok frames sec := by
  cases sec with
  | logged sec =>
      cases sec <;> first | exact hsec | exact hbegun _ hsec | cases hidle
  | _ => first | exact hsec | cases hidle

theorem Ok.busy {sec : ReplaySection} (hsec : s.Ok frames sec)
    (hbusy : sec.busyTag = some ()) : ∃ d, s.current = some d := by
  cases sec with
  | logged sec =>
      cases sec <;> first
        | (cases hbusy; done)
        | (obtain ⟨⟨payload, hcurrent⟩, -⟩ := hsec
           exact ⟨_, hcurrent⟩)
  | _ =>
      first
        | (cases hbusy; done)
        | (obtain ⟨⟨payload, hcurrent⟩, -⟩ := hsec
           exact ⟨_, hcurrent⟩)

variable {sec : ReplaySection} {effect : Effect ReplayState ReplaySection}

theorem idleStep (hnext : effect.shared.Inv frames)
    (hsame : s.SameDispatch effect.shared)
    (hwork : ∀ after ∈ effect.work, s.Ok frames after ∧ after.busyTag = none) :
    Program.TaggedStep (Inv frames) (Ok frames) ReplaySection.busyTag s sec
      effect where
  inv := hnext
  work := fun after hafter => hsame.ok (hwork after hafter).1
  unique := uniqueTags_of_none fun after hafter => (hwork after hafter).2
  fresh := by
    intro after hafter t htag
    rw [(hwork after hafter).2] at htag
    cases htag
  others := fun other hother _ => hsame.ok hother

theorem busyStep (hbusy : sec.busyTag = some ())
    (hnext : effect.shared.Inv frames)
    (hbegun : ∀ key, s.Begun key → effect.shared.Begun key)
    (hwork : ∀ after ∈ effect.work, effect.shared.Ok frames after)
    (hunique : UniqueTags ReplaySection.busyTag effect.work) :
    Program.TaggedStep (Inv frames) (Ok frames) ReplaySection.busyTag s sec
      effect where
  inv := hnext
  work := hwork
  unique := hunique
  fresh := fun _ _ _ _ => Or.inl hbusy
  others := by
    intro other hother htags
    refine hother.idle ?_ hbegun
    cases htag : other.busyTag with
    | none => rfl
    | some t => exact absurd htag (htags t hbusy)

/-- The actor was free, so no pending section has it. -/
theorem freeStep (hfree : s.current = none) (hnext : effect.shared.Inv frames)
    (hbegun : ∀ key, s.Begun key → effect.shared.Begun key)
    (hwork : ∀ after ∈ effect.work, effect.shared.Ok frames after)
    (hunique : UniqueTags ReplaySection.busyTag effect.work) :
    Program.TaggedStep (Inv frames) (Ok frames) ReplaySection.busyTag s sec
      effect := by
  have hothers : ∀ other, s.Ok frames other → other.busyTag = none := by
    intro other hother
    cases htag : other.busyTag with
    | none => rfl
    | some t =>
        obtain ⟨d, hd⟩ := hother.busy htag
        rw [hfree] at hd
        cases hd
  exact
    { inv := hnext
      work := hwork
      unique := hunique
      fresh := fun _ _ _ _ => Or.inr fun other hother htag => by
        rw [hothers other hother] at htag
        cases htag
      others := fun other hother _ =>
        hother.idle (hothers other hother) hbegun }

theorem uniqueTags_goto (shared : ReplayState) (sec : ReplaySection) :
    UniqueTags ReplaySection.busyTag (Effect.goto shared [sec]).work := by
  rw [Effect.goto_work, ← Multiset.cons_coe, uniqueTags_cons]
  exact ⟨by simp, uniqueTags_zero _⟩

/-- A section of the log changed flags of the queue and handled marks only. -/
structure LogKept (frames : RecvKey → Option (List UInt8)) (s : ReplayState)
    (outcome : Effect LoggedState LoggedSection) : Prop where
  core : SameCore s.logged.log outcome.shared.log
  hold : outcome.shared.holdHandler = s.logged.holdHandler
  dedup : outcome.shared.dedup = s.logged.dedup
  work : ∀ after ∈ outcome.work, s.Ok frames after.toReplay ∧ after.toReplay.busyTag = none

section Kept

variable {choice : LoggedChoice} {outcome : Effect LoggedState LoggedSection}

/-- A frame that is there already was run, or the actor is at it. -/
theorem enqueueRoom_kept {key : RecvKey} (hinv : s.Inv frames)
    (hexec : s.logged.exec cap (.enqueueRoom key) choice = some outcome) :
    LogKept frames s outcome := by
  simp only [LoggedState.exec, LoggedState.enqueue] at hexec
  split at hexec <;> rename_i hroom <;> obtain rfl := Option.some.inj hexec
  · exact ⟨.refl _, rfl, rfl, by simp⟩
  · have hpresent : s.logged.dedup.lookup key ≠ none := by
      intro hnone
      simp only [DedupTable.dedupRoomFor, hnone, ne_eq, not_true,
        if_false] at hroom
      repeat' split at hroom
      all_goals cases hroom
    refine ⟨.refl _, rfl, rfl, ?_⟩
    refine Effect.forall_goto ?_
    exact ⟨hinv.deduped key hpresent, rfl⟩
  · exact ⟨.refl _, rfl, rfl, Effect.forall_goto ⟨by rintro ⟨⟩, rfl⟩⟩

theorem enqueueCopy_kept {key : RecvKey} (hinv : s.Inv frames)
    (hexec : s.logged.exec cap (.enqueueCopy key) choice = some outcome) :
    LogKept frames s outcome := by
  simp only [LoggedState.exec, LoggedState.enqueue] at hexec
  split at hexec <;> rename_i hframe <;> obtain rfl := Option.some.inj hexec
  · exact ⟨.refl _, rfl, rfl, by simp⟩
  · refine ⟨.refl _, rfl, rfl, ?_⟩
    refine Effect.forall_goto ?_
    refine ⟨?_, rfl⟩
    cases hlookup : s.logged.log.index.lookup key with
    | none => simp [ReceiverLog.copyFrame, hlookup] at hframe
    | some entry =>
        have hsame := (hinv.lookup_frame hlookup).1
        simpa [LoggedSection.toReplay, Ok, LoggedOk, ReceiverLog.copyFrame,
          hlookup] using hsame

/-- A flush takes the handled marks, and writes them. -/
theorem flushTake_kept (hinv : s.Inv frames)
    (hexec : s.logged.exec cap .flushTake choice = some outcome) :
    LogKept frames s outcome := by
  simp only [LoggedState.exec, LoggedState.flush] at hexec
  split at hexec <;> rename_i htake <;> obtain rfl := Option.some.inj hexec
  · exact ⟨.refl _, rfl, rfl, Effect.forall_goto ⟨by rintro ⟨⟩, rfl⟩⟩
  · obtain ⟨hcore, rfl, -⟩ := ReceiverLog.takeBatch_core htake
    refine ⟨hcore, rfl, rfl, ?_⟩
    refine Effect.forall_goto ?_
    exact ⟨hinv.records, rfl⟩

theorem flushWrite_kept {batch : List PendingRec}
    (hbatch : ∀ record ∈ batch, record.type = 2)
    (hexec : s.logged.exec cap (.flushWrite batch) choice = some outcome) :
    LogKept frames s outcome := by
  simp only [LoggedState.exec, LoggedState.flush] at hexec
  cases choice <;> simp only [reduceCtorEq] at hexec
  split at hexec
  · cases hexec
  all_goals
    obtain rfl := Option.some.inj hexec
    refine ⟨.refl _, rfl, rfl, ?_⟩
    refine Effect.forall_goto ?_
    exact ⟨hbatch, rfl⟩

theorem applyFlush_kept {result : FlushResult}
    (hexec : s.logged.exec cap (.applyFlush result) choice = some outcome) :
    LogKept frames s outcome := by
  simp only [LoggedState.exec, LoggedState.flush] at hexec
  obtain rfl := Option.some.inj hexec
  refine ⟨.refl _, rfl, rfl, ?_⟩
  simp only [Effect.goto_work, Multiset.mem_coe, List.mem_append,
    List.mem_map, List.mem_singleton]
  rintro after ((hkey | ⟨ack, -, rfl⟩) | rfl)
  · split at hkey
    · cases hkey
    · obtain ⟨key, -, rfl⟩ := List.mem_map.mp hkey
      exact ⟨by rintro ⟨⟩, rfl⟩
  · exact ⟨by rintro ⟨⟩, rfl⟩
  · exact ⟨by rintro ⟨⟩, rfl⟩

/-- The frames of an actor that is spawned again are those of the files. -/
theorem replayTake_kept {uri : ActorUri} (hinv : s.Inv frames)
    (hexec : s.logged.exec cap (.replayTake uri) choice = some outcome) :
    LogKept frames s outcome := by
  simp only [LoggedState.exec] at hexec
  obtain rfl := Option.some.inj hexec
  refine ⟨ReceiverLog.takeForActor_core .., rfl, rfl, ?_⟩
  simp only [Effect.goto_work, Multiset.mem_coe, List.mem_map]
  rintro after ⟨item, hitem, rfl⟩
  obtain ⟨entry, hlookup, -, hframe⟩ :=
    (takeForActor_items s.logged.log uri).2 item (List.mem_map.mpr hitem)
  refine ⟨?_, rfl⟩
  have hsame := (hinv.lookup_frame hlookup).1
  simpa [LoggedSection.toReplay, Ok, hframe] using hsame

theorem finishHandled_kept {env : Envelope}
    (hexec : s.logged.exec cap (.finishHandled env) choice = some outcome) :
    LogKept frames s outcome := by
  simp only [LoggedState.exec, LoggedState.dispatch] at hexec
  split at hexec <;> obtain rfl := Option.some.inj hexec
  all_goals
    refine ⟨.refl _, rfl, rfl, ?_⟩
    simp only [Effect.goto_work, Multiset.mem_coe, List.mem_cons,
      List.not_mem_nil, or_false]
    rintro after (rfl | rfl)
    · exact ⟨by rintro ⟨⟩, rfl⟩
    · exact ⟨by rintro ⟨⟩, rfl⟩

/-- A section of the log that does not have the actor to itself keeps what counts. -/
theorem logged_idle {sec : LoggedSection} (hinv : s.Inv frames)
    (hsec : s.LoggedOk frames sec)
    (hidle : (ReplaySection.logged sec).busyTag = none)
    (hexec : s.logged.exec cap sec choice = some outcome) :
    LogKept frames s outcome := by
  cases sec <;> first | exact hsec.elim | (cases hidle; done) | skip
  case popEnvelope => exact absurd rfl hsec
  case enqueueRoom key => exact enqueueRoom_kept hinv hexec
  case enqueueCopy key => exact enqueueCopy_kept hinv hexec
  case flushTake => exact flushTake_kept hinv hexec
  case flushWrite batch => exact flushWrite_kept hsec hexec
  case applyFlush result => exact applyFlush_kept hexec
  case replayTake uri => exact replayTake_kept hinv hexec
  case finishHandled env => exact finishHandled_kept hexec
  all_goals simp only [LoggedState.exec, LoggedState.enqueue,
    LoggedState.flush, LoggedState.dispatch] at hexec
  case enqueueAlready key =>
    obtain rfl := Option.some.inj hexec
    exact ⟨ReceiverLog.setEnqueued_core .., rfl, rfl, by simp⟩
  case enqueueSet key frame =>
    obtain rfl := Option.some.inj hexec
    refine ⟨ReceiverLog.setEnqueued_core .., rfl, rfl, ?_⟩
    refine Effect.forall_goto ?_
    exact ⟨hsec, rfl⟩
  case enqueueReply key frame =>
    obtain rfl := Option.some.inj hexec
    refine ⟨.refl _, rfl, rfl, ?_⟩
    refine Effect.forall_goto ?_
    exact ⟨hsec, rfl⟩
  case clearEnqueued key =>
    obtain rfl := Option.some.inj hexec
    exact ⟨ReceiverLog.setEnqueued_core .., rfl, rfl, by simp⟩
  case flushCommit batch =>
    obtain rfl := Option.some.inj hexec
    exact ⟨ReceiverLog.commitIndex_core hsec _, rfl, rfl, Effect.forall_goto ⟨by rintro ⟨⟩, rfl⟩⟩
  case flushRollback batch =>
    obtain rfl := Option.some.inj hexec
    refine ⟨?_, rfl, rfl, by simp⟩
    rw [Effect.done_shared, ReceiverLog.rollback_handled hsec]
    exact .refl _
  case pumpKeys =>
    obtain rfl := Option.some.inj hexec
    refine ⟨.refl _, rfl, rfl, ?_⟩
    simp only [Effect.goto_work, Multiset.mem_coe, List.mem_map]
    rintro after ⟨key, -, rfl⟩
    exact ⟨by rintro ⟨⟩, rfl⟩
  case finishBufferHandled env =>
    obtain rfl := Option.some.inj hexec
    exact ⟨ReceiverLog.bufferHandled_core .., rfl, rfl, Effect.forall_goto ⟨by rintro ⟨⟩, rfl⟩⟩
  -- The other sections change nothing that counts here.
  all_goals
    repeat' split at hexec
    all_goals obtain rfl := Option.some.inj hexec
    all_goals first
      | exact ⟨.refl _, rfl, rfl, Effect.forall_goto ⟨by rintro ⟨⟩, rfl⟩⟩
      | exact ⟨.refl _, rfl, rfl, by simp⟩

end Kept

theorem mem_liftLogged_work {current : Option Dispatch}
    {outcome : Effect LoggedState LoggedSection} {after : ReplaySection}
    (hafter : after ∈ (s.liftLogged current outcome).work) :
    ∃ sec ∈ outcome.work, after = sec.toReplay := by
  simp only [Effect.work, liftLogged, Multiset.mem_add, Multiset.mem_coe,
    List.mem_map, List.mem_flatten] at hafter ⊢
  rcases hafter with ⟨sec, hsec, rfl⟩ | ⟨-, ⟨secs, hsecs, rfl⟩, hafter⟩
  · exact ⟨sec, Or.inl hsec, rfl⟩
  · obtain ⟨sec, hsec, rfl⟩ := List.mem_map.mp hafter
    exact ⟨sec, Or.inr ⟨secs, hsecs, hsec⟩, rfl⟩

/-- The log and the table may change as an idle section changes them. -/
theorem Inv.relog (hinv : s.Inv frames) {logged : LoggedState}
    (hcore : SameCore s.logged.log logged.log)
    (hhold : logged.holdHandler = s.logged.holdHandler)
    (hdedup : logged.dedup = s.logged.dedup) :
    Inv frames { s with logged := logged } ∧
      s.SameDispatch { s with logged := logged } := by
  have hsame : s.SameDispatch { s with logged := logged } :=
    ⟨rfl, rfl, hcore.executed⟩
  refine ⟨⟨hhold.trans hinv.hold, ?_, hcore.records hinv.records, hinv.letters,
    hinv.taken, hinv.payloads, hinv.once, ?_, ?_, ?_⟩, hsame⟩
  · intro key
    rw [hcore.core, hinv.entries, hcore.executed]
  · intro key hkey hkeyed
    exact (hsame.begun key).mpr (hinv.begun key hkey hkeyed)
  · intro key hpresent
    rw [hdedup] at hpresent
    exact (hsame.begun key).mpr (hinv.deduped key hpresent)
  · intro key hexecuted
    rw [hcore.executed] at hexecuted
    exact hinv.executed key hexecuted

/-- Letters come and the actor appears. -/
theorem Inv.arrive (hinv : s.Inv frames) {mailbox : List (Envelope × List UInt8)}
    (spawned : Bool)
    (hletters : ∀ letter ∈ mailbox, PayloadOf frames letter.1.key letter.2) :
    Inv frames { s with spawned := spawned, mailbox := mailbox } :=
  ⟨hinv.hold, hinv.entries, hinv.records, hletters, hinv.taken, hinv.payloads,
    hinv.once, hinv.begun, hinv.deduped, hinv.executed⟩

/-- The dispatch under way changes hands; a claim that it held has led to an
executed entry. -/
theorem Inv.handOver (hinv : s.Inv frames) (current : Option Dispatch)
    (mailbox : List (Envelope × List UInt8))
    (hletters : ∀ letter ∈ mailbox, PayloadOf frames letter.1.key letter.2)
    (htaken : ∀ d, current = some d → PayloadOf frames d.env.key d.payload)
    (hclaimed : ∀ key, s.Claimed key → s.logged.log.executed key = true) :
    Inv frames { s with mailbox := mailbox, current := current } ∧
      ∀ key, s.Begun key →
        Begun { s with mailbox := mailbox, current := current } key := by
  have hbegun : ∀ key, s.Begun key →
      Begun { s with mailbox := mailbox, current := current } key := by
    rintro key (hexecuted | hclaim)
    · exact Or.inl hexecuted
    · exact Or.inl (hclaimed key hclaim)
  exact ⟨⟨hinv.hold, hinv.entries, hinv.records, hletters, htaken,
    hinv.payloads, hinv.once,
    fun key hkey hkeyed => hbegun key (hinv.begun key hkey hkeyed),
    fun key hpresent => hbegun key (hinv.deduped key hpresent),
    hinv.executed⟩, hbegun⟩

theorem Takes.not_claimed {env : Envelope} (htakes : s.Takes env false)
    (key : RecvKey) : ¬ s.Claimed key := by
  rintro ⟨d, hcurrent, -, hclaimed⟩
  obtain ⟨payload, htaken⟩ := htakes
  obtain rfl := Option.some.inj (hcurrent.symm.trans htaken)
  cases hclaimed

theorem Takes.claimed {env : Envelope} (htakes : s.Takes env true) :
    s.Claimed env.key := by
  obtain ⟨payload, htaken⟩ := htakes
  exact ⟨_, htaken, rfl, rfl⟩

theorem Takes.eq_of_claimed {env : Envelope} {claimed : Bool} {key : RecvKey}
    (htakes : s.Takes env claimed) (hclaimed : s.Claimed key) :
    env.key = key := by
  obtain ⟨d, hcurrent, hkey, -⟩ := hclaimed
  obtain ⟨payload, htaken⟩ := htakes
  obtain rfl := Option.some.inj (hcurrent.symm.trans htaken)
  exact hkey

theorem pushed_step (hinv : s.Inv frames)
    (hframes : ∀ key frame, frames key = some frame → FrameOf key frame)
    {key : RecvKey} {frame : List UInt8} {conn : UInt64}
    {choice : LoggedChoice} (hsec : frames key = some frame)
    (hexec : s.exec cap uri (.pushRoutedFrame key frame conn) choice =
      some effect) :
    Program.TaggedStep (Inv frames) (Ok frames) ReplaySection.busyTag s
      (.pushRoutedFrame key frame conn) effect := by
  have hsame : s.SameDispatch s := ⟨rfl, rfl, fun _ => rfl⟩
  simp only [exec] at hexec
  split at hexec
  · rename_i m hfilter
    obtain rfl := Option.some.inj hexec
    have hunpack := (Option.filter_eq_some_iff.mp hfilter).1
    refine idleStep (hinv.arrive s.spawned ?_) ⟨rfl, rfl, fun _ => rfl⟩
      (by simp)
    intro letter hletter
    rcases List.mem_append.mp hletter with hold | hnew
    · exact hinv.letters letter hold
    · rw [List.mem_singleton.mp hnew]
      have hkey : m.key = key := hframes key frame hsec m hunpack
      exact ⟨frame, m, (congrArg frames hkey).trans hsec, hunpack, rfl⟩
  · obtain rfl := Option.some.inj hexec
    exact idleStep hinv hsame
      (by simp [Ok, LoggedOk, ReplaySection.busyTag])

theorem popped_step (hinv : s.Inv frames) {choice : LoggedChoice}
    (hexec : s.exec cap uri .popEnvelope choice = some effect) :
    Program.TaggedStep (Inv frames) (Ok frames) ReplaySection.busyTag s
      .popEnvelope effect := by
  simp only [exec] at hexec
  split at hexec
  · rename_i env payload rest hcurrent hmailbox
    have hfree : ∀ key, ¬ s.Claimed key := by
      rintro key ⟨d, htaken, -⟩
      rw [hcurrent] at htaken
      cases htaken
    have hletter : PayloadOf frames env.key payload :=
      hinv.letters (env, payload) (by rw [hmailbox]; exact List.mem_cons_self ..)
    obtain ⟨hnext, hbegun⟩ := hinv.handOver (some ⟨env, payload, false⟩) rest
      (fun letter hmem =>
        hinv.letters letter (by rw [hmailbox]; exact List.mem_cons_of_mem _ hmem))
      (by
        intro d hd
        obtain rfl := Option.some.inj hd
        exact hletter)
      (fun key hclaimed => absurd hclaimed (hfree key))
    split at hexec <;> rename_i hzero <;> obtain rfl := Option.some.inj hexec
    · refine freeStep hcurrent hnext hbegun ?_ (uniqueTags_goto _ _)
      refine Effect.forall_goto ?_
      exact ⟨⟨payload, rfl⟩, hzero⟩
    · refine freeStep hcurrent hnext hbegun ?_ (uniqueTags_goto _ _)
      refine Effect.forall_goto ?_
      exact ⟨⟨payload, rfl⟩, hzero⟩
  · cases hexec

theorem unkeyed_step (hinv : s.Inv frames) {env : Envelope}
    {choice : LoggedChoice} (hsec : s.Ok frames (.deliverUnkeyed env))
    (hexec : s.exec cap uri (.deliverUnkeyed env) choice = some effect) :
    Program.TaggedStep (Inv frames) (Ok frames) ReplaySection.busyTag s
      (.deliverUnkeyed env) effect := by
  obtain ⟨htakes, hzero⟩ := hsec
  obtain ⟨payload, hcurrent⟩ := htakes
  have hfree := Takes.not_claimed ⟨payload, hcurrent⟩
  obtain rfl := Option.some.inj hexec
  have hran : ran { s.recordRun env.key with current := none } =
      s.ran ++ [env.key] := by
    simp [ran, recordRun, hcurrent]
  have hbegun : ∀ key, s.Begun key →
      Begun { s.recordRun env.key with current := none } key := by
    rintro key (hexecuted | hclaimed)
    · exact Or.inl hexecuted
    · exact absurd hclaimed (hfree key)
  refine busyStep rfl ⟨hinv.hold, hinv.entries, hinv.records, hinv.letters,
    by rintro _ ⟨⟩, ?_, ?_, ?_, ?_, ?_⟩ hbegun (by simp) (uniqueTags_zero _)
  · intro run hrun
    simp only [Effect.done_shared, recordRun, hcurrent, Option.toList_some,
      List.map_cons, List.map_nil, List.mem_append, List.mem_singleton] at hrun
    rcases hrun with hold | rfl
    · exact hinv.payloads run hold
    · exact hinv.taken _ hcurrent
  · intro key hkeyed
    have hother : env.key ≠ key := by
      rintro rfl
      exact hkeyed hzero
    rw [Effect.done_shared, hran, List.count_append]
    simpa [hother] using hinv.once key hkeyed
  · intro key hkey hkeyed
    rw [Effect.done_shared, hran] at hkey
    rcases List.mem_append.mp hkey with hold | hnew
    · exact hbegun key (hinv.begun key hold hkeyed)
    · rw [List.mem_singleton.mp hnew] at hkeyed
      exact absurd hzero hkeyed
  · intro key hpresent
    exact hbegun key (hinv.deduped key hpresent)
  · intro key hexecuted
    rw [Effect.done_shared, hran]
    exact List.mem_append_left _ (hinv.executed key hexecuted)

theorem delivered_step (hinv : s.Inv frames) {env : Envelope}
    {choice : LoggedChoice} (hsec : s.Ok frames (.deliver env))
    (hexec : s.exec cap uri (.deliver env) choice = some effect) :
    Program.TaggedStep (Inv frames) (Ok frames) ReplaySection.busyTag s
      (.deliver env) effect := by
  obtain ⟨htakes, hkeyed, hfirst⟩ := hsec
  obtain ⟨payload, hcurrent⟩ := htakes
  cases choice <;> simp only [exec, reduceCtorEq] at hexec
  rename_i result
  split at hexec
  · cases hexec
  · rename_i hok
    obtain rfl := Option.some.inj hexec
    have hran : (s.recordRun env.key).ran = s.ran ++ [env.key] := by
      simp [ran, recordRun, hcurrent]
    refine busyStep rfl ⟨hinv.hold, hinv.entries, hinv.records, hinv.letters,
      hinv.taken, ?_, ?_, ?_, hinv.deduped, ?_⟩ (fun _ h => h) ?_
      (uniqueTags_goto _ _)
    · intro run hrun
      simp only [liftLogged, recordRun, hcurrent, Option.toList_some,
        List.map_cons, List.map_nil, List.mem_append, List.mem_singleton] at hrun
      rcases hrun with hold | rfl
      · exact hinv.payloads run hold
      · exact hinv.taken _ hcurrent
    · intro key hmsg
      change (s.recordRun env.key).ran.count key ≤ 1
      rw [hran, List.count_append, List.count_singleton]
      split
      · rename_i heq
        rw [← eq_of_beq heq, List.count_eq_zero.mpr hfirst]
      · exact hinv.once key hmsg
    · intro key hkey hmsg
      change key ∈ (s.recordRun env.key).ran at hkey
      rw [hran] at hkey
      rcases List.mem_append.mp hkey with hold | hnew
      · exact hinv.begun key hold hmsg
      · rw [List.mem_singleton.mp hnew]
        exact Or.inr ⟨_, hcurrent, rfl, rfl⟩
    · intro key hexecuted
      change key ∈ (s.recordRun env.key).ran
      rw [hran]
      exact List.mem_append_left _ (hinv.executed key hexecuted)
    · change ∀ after ∈ (Effect.goto _ [ReplaySection.logged _]).work, _
      refine Effect.forall_goto ?_
      refine ⟨⟨payload, hcurrent⟩, hok, ?_⟩
      change env.key ∈ (s.recordRun env.key).ran
      rw [hran]
      simp

theorem claimed_step (hinv : s.Inv frames) {env : Envelope}
    {executed handled : Bool} {choice : LoggedChoice}
    (hsec : s.Ok frames (.claimDedup env executed handled))
    (hexec : s.exec cap uri (.claimDedup env executed handled) choice =
      some effect) :
    Program.TaggedStep (Inv frames) (Ok frames) ReplaySection.busyTag s
      (.claimDedup env executed handled) effect := by
  obtain ⟨⟨payload, hcurrent⟩, hkeyed, rfl⟩ := hsec
  have hfree := Takes.not_claimed ⟨payload, hcurrent⟩
  have hdone : ∀ key, s.Begun key → s.logged.log.executed key = true :=
    fun key hbegun => hbegun.resolve_right (hfree key)
  obtain ⟨outcome, houtcome, rfl⟩ := Option.map_eq_some_iff.mp hexec
  simp only [LoggedState.exec, LoggedState.dispatch] at houtcome
  by_cases hfresh : (DedupTable.claimRemote cap s.logged.dedup env.key
      (s.logged.log.executed env.key) handled).claim = .fresh
  · obtain ⟨habsent, hnew, hdedup⟩ := DedupTable.claimRemote_fresh hfresh
    simp only [hfresh] at houtcome
    obtain rfl := Option.some.inj houtcome
    have hafter : s.afterClaim cap env.key (s.logged.log.executed env.key)
        handled = some ⟨env, payload, true⟩ := by
      simp [afterClaim, hfresh, hcurrent]
    have hbegun : ∀ key, s.Begun key → Begun (s.liftLogged (s.afterClaim cap
        env.key (s.logged.log.executed env.key) handled) (.goto
          { s.logged with dedup := (DedupTable.claimRemote cap s.logged.dedup
            env.key (s.logged.log.executed env.key) handled).dedup }
          [LoggedSection.deliver env])).shared key :=
      fun key hold => Or.inl (hdone key hold)
    refine busyStep rfl ⟨hinv.hold, hinv.entries, hinv.records, hinv.letters,
      ?_, hinv.payloads, hinv.once,
      fun key hkey hmsg => hbegun key (hinv.begun key hkey hmsg), ?_,
      hinv.executed⟩ hbegun ?_ (uniqueTags_goto _ _)
    · intro d hd
      rw [liftLogged, hafter] at hd
      obtain rfl := Option.some.inj hd
      exact hinv.taken ⟨env, payload, false⟩ hcurrent
    · intro key hpresent
      rcases hdedup key hpresent with rfl | hold
      · exact Or.inr ⟨_, hafter, rfl, rfl⟩
      · exact hbegun key (hinv.deduped key hold)
    · change ∀ after ∈ (Effect.goto _ [ReplaySection.deliver env]).work, _
      refine Effect.forall_goto ?_
      refine ⟨⟨payload, hafter⟩, hkeyed, fun hran => ?_⟩
      have hexecuted := hdone env.key (hinv.begun env.key hran hkeyed)
      rw [hnew] at hexecuted
      cases hexecuted
  · have hsame := (DedupTable.claimRemote_other hfresh).1
    have hafter : s.afterClaim cap env.key (s.logged.log.executed env.key)
        handled = none := by
      simp [afterClaim, hfresh]
    obtain ⟨hnext, hbegun⟩ := hinv.handOver none s.mailbox hinv.letters (by simp)
      (fun key hclaimed => absurd hclaimed (hfree key))
    rw [hafter]
    simp only [hsame] at houtcome
    split at houtcome <;> rename_i hclaim <;>
      obtain rfl := Option.some.inj houtcome
    · refine busyStep rfl hnext hbegun ?_ (uniqueTags_goto _ _)
      change ∀ after ∈ (Effect.goto _ [ReplaySection.logged _]).work, _
      simp [Ok, LoggedOk]
    · refine busyStep rfl hnext hbegun ?_ (uniqueTags_zero _)
      change ∀ after ∈ (Effect.done _ : Effect _ ReplaySection).work, _
      simp
    · refine busyStep rfl hnext hbegun ?_ (uniqueTags_goto _ _)
      change ∀ after ∈ (Effect.goto _ [ReplaySection.logged _]).work, _
      simp [Ok, LoggedOk]
    · exact absurd hclaim hfresh

theorem finished_step (hinv : s.Inv frames) {env : Envelope}
    {result : DeliverResult} {choice : LoggedChoice}
    (hsec : s.Ok frames (.logged (.finishDedup env result)))
    (hexec : s.exec cap uri (.logged (.finishDedup env result)) choice =
      some effect) :
    Program.TaggedStep (Inv frames) (Ok frames) ReplaySection.busyTag s
      (.logged (.finishDedup env result)) effect := by
  obtain ⟨⟨payload, hcurrent⟩, hresult, hran⟩ := hsec
  obtain ⟨outcome, houtcome, rfl⟩ := Option.map_eq_some_iff.mp hexec
  simp only [LoggedState.exec, LoggedState.dispatch, hresult, if_false]
    at houtcome
  obtain rfl := Option.some.inj houtcome
  refine busyStep rfl ⟨hinv.hold, hinv.entries, hinv.records, hinv.letters,
    hinv.taken, hinv.payloads, hinv.once, hinv.begun, ?_, hinv.executed⟩
    (fun _ h => h) ?_ (uniqueTags_goto _ _)
  · intro key hpresent
    rcases DedupTable.finishDelivery_lookup hresult key hpresent with
      rfl | hold
    · exact Or.inr ⟨_, hcurrent, rfl, rfl⟩
    · exact hinv.deduped key hold
  · change ∀ after ∈ (Effect.goto _ [ReplaySection.markExecuted env]).work, _
    refine Effect.forall_goto ?_
    exact ⟨⟨payload, hcurrent⟩, hran⟩

theorem marked_step (hinv : s.Inv frames) {env : Envelope}
    {choice : LoggedChoice} (hsec : s.Ok frames (.markExecuted env))
    (hexec : s.exec cap uri (.markExecuted env) choice = some effect) :
    Program.TaggedStep (Inv frames) (Ok frames) ReplaySection.busyTag s
      (.markExecuted env) effect := by
  obtain ⟨htakes, hran⟩ := hsec
  obtain ⟨payload, hcurrent⟩ := htakes
  obtain ⟨frame, -, hframe, -⟩ := hinv.taken _ hcurrent
  obtain ⟨entry, hlookup, -⟩ := hinv.frame_lookup hframe
  obtain rfl := Option.some.inj hexec
  have hexecuted : ∀ key, (s.logged.log.markExecuted env.key).executed key =
      (s.logged.log.executed key || decide (key = env.key)) := by
    intro key
    rw [ReceiverLog.executed, ReceiverLog.markExecuted, lookup_modify_map,
      ReceiverLog.executed]
    by_cases hkey : key = env.key
    · subst hkey
      simp [hlookup]
    · cases s.logged.log.index.lookup key <;> simp [hkey]
  have hbegun : ∀ key, s.Begun key →
      (s.logged.log.markExecuted env.key).executed key = true := by
    rintro key (hold | hclaimed)
    · simp [hexecuted, hold]
    · have hkey := Takes.eq_of_claimed ⟨payload, hcurrent⟩ hclaimed
      rw [← hkey]
      simp [hexecuted]
  refine busyStep rfl ⟨hinv.hold, ?_, hinv.records, hinv.letters,
    by rintro _ ⟨⟩, hinv.payloads, hinv.once,
    fun key hkey hmsg => Or.inl (hbegun key (hinv.begun key hkey hmsg)),
    fun key hpresent => Or.inl (hbegun key (hinv.deduped key hpresent)), ?_⟩
    (fun key hold => Or.inl (hbegun key hold)) ?_ (uniqueTags_goto _ _)
  · intro key
    have hentry := hinv.entries key
    change ((s.logged.log.markExecuted env.key).index.lookup key).map
      RecvEntry.core = (frames key).map fun frame =>
        (frame, true, (s.logged.log.markExecuted env.key).executed key)
    rw [hexecuted, ReceiverLog.markExecuted, lookup_modify_map, Option.map_map]
    by_cases hkey : key = env.key
    · subst hkey
      rw [hlookup, hframe] at hentry ⊢
      simp_all [RecvEntry.core]
    · simp only [hkey, if_false, decide_false, Bool.or_false]
      rw [← hentry]
      rfl
  · intro key hdone
    change (s.logged.log.markExecuted env.key).executed key = true at hdone
    rw [hexecuted, Bool.or_eq_true, decide_eq_true_eq] at hdone
    rcases hdone with hold | rfl
    · exact hinv.executed key hold
    · exact hran
  · change ∀ after ∈ (Effect.goto _ [ReplaySection.logged _]).work, _
    simp [Ok, LoggedOk]

/-- One section keeps the invariant and the obligations. -/
theorem exec_step (hinv : s.Inv frames)
    (hframes : ∀ key frame, frames key = some frame → FrameOf key frame)
    {choice : LoggedChoice} (hsec : s.Ok frames sec)
    (hexec : s.exec cap uri sec choice = some effect) :
    Program.TaggedStep (Inv frames) (Ok frames) ReplaySection.busyTag s sec
      effect := by
  have hsame : s.SameDispatch s := ⟨rfl, rfl, fun _ => rfl⟩
  cases sec with
  | spawn =>
      simp only [exec] at hexec
      split at hexec
      · cases hexec
      · obtain rfl := Option.some.inj hexec
        exact idleStep (hinv.arrive true hinv.letters) ⟨rfl, rfl, fun _ => rfl⟩
          (by simp [Ok, LoggedOk, ReplaySection.busyTag])
  | pushRoutedFrame key frame conn => exact pushed_step hinv hframes hsec hexec
  | popEnvelope => exact popped_step hinv hexec
  | deliverUnkeyed env => exact unkeyed_step hinv hsec hexec
  | claimDedup env executed handled => exact claimed_step hinv hsec hexec
  | deliver env => exact delivered_step hinv hsec hexec
  | markExecuted env => exact marked_step hinv hsec hexec
  | logged sec =>
      cases htag : (ReplaySection.logged sec).busyTag with
      | none =>
          obtain ⟨outcome, houtcome, rfl⟩ := Option.map_eq_some_iff.mp hexec
          obtain ⟨hcore, hhold, hdedup, hwork⟩ :=
            logged_idle hinv hsec htag houtcome
          obtain ⟨hnext, hkept⟩ := hinv.relog hcore hhold hdedup
          refine idleStep hnext hkept ?_
          intro after hafter
          obtain ⟨inner, hinner, rfl⟩ := mem_liftLogged_work hafter
          exact hwork inner hinner
      | some t =>
          cases sec <;> first | (cases htag; done) | skip
          case finishDedup env result => exact finished_step hinv hsec hexec
          case claimExecuted env =>
            obtain ⟨htakes, hkeyed⟩ := hsec
            obtain rfl := Option.some.inj hexec
            refine busyStep rfl hinv (fun _ h => h) ?_ (uniqueTags_goto _ _)
            change ∀ after ∈ (Effect.goto _ [ReplaySection.logged _]).work, _
            refine Effect.forall_goto ?_
            exact ⟨htakes, hkeyed, rfl⟩
          case claimHandled env executed =>
            obtain rfl := Option.some.inj hexec
            refine busyStep rfl hinv (fun _ h => h) ?_ (uniqueTags_goto _ _)
            change ∀ after ∈ (Effect.goto _ [ReplaySection.claimDedup ..]).work,
              _
            refine Effect.forall_goto ?_
            exact hsec

end ReplayState

end UltraNet
