/-
Every logged message of the actor is run once after a restart.  A message that
is marked enqueued is held by the actor, is on its way to the mailbox, or its
mark is about to be taken back because the actor was not there yet.
-/
import UltraNet.LoggedQueue
import UltraNet.RestartReplay

namespace UltraNet

namespace ReplaySection

/-- The section is on its way to push the key. -/
def carries (key : RecvKey) : ReplaySection → Prop
  | .pushRoutedFrame other _ _ => other = key
  | .logged (.enqueueReply other _) => other = key
  | _ => False

/-- A `try_enqueue_receiver` of the key that has not marked it yet. -/
def offers (key : RecvKey) : ReplaySection → Prop
  | .logged (.enqueueHold other) | .logged (.enqueueExecuted other)
  | .logged (.enqueuePersisted other) | .logged (.enqueueEnqueued other)
  | .logged (.enqueueRoom other) | .logged (.enqueueAlready other)
  | .logged (.enqueueCopy other) | .logged (.enqueueSet other _) => other = key
  | _ => False

end ReplaySection

/-- The file has a data record of the key for the actor. -/
structure Target (frames : RecvKey → Option (List UInt8)) (uri : ActorUri)
    (key : RecvKey) (m : Routed) : Prop where
  keyed : key.msgId ≠ 0
  frame : ∃ frame, frames key = some frame ∧ unpackRouted frame = some m
  type : m.uri.type = uri.type
  name : m.uri.name = uri.name

namespace ReplayState

/-- The actor has run the key, is at it, or has it in its mailbox. -/
def Held (s : ReplayState) (key : RecvKey) : Prop :=
  s.logged.log.executed key = true ∨
    (∃ d, s.current = some d ∧ d.env.key = key) ∨
    ∃ letter ∈ s.mailbox, letter.1.key = key

def Carried (work : Multiset ReplaySection) (key : RecvKey) : Prop :=
  ∃ after ∈ work, after.carries key

/-- Everything that one section does to a message of the actor. -/
structure KeyStep (s : ReplayState) (sec : ReplaySection)
    (effect : Effect ReplayState ReplaySection) (key : RecvKey) : Prop where
  held : s.Held key → effect.shared.Held key
  carried : sec.carries key → effect.shared.Held key ∨
    Carried effect.work key ∨
    s.spawned = false ∧ .logged (.clearEnqueued key) ∈ effect.work
  queued : effect.shared.logged.log.queued key = true →
    s.logged.log.queued key = true ∨ effect.shared.Held key ∨
      Carried effect.work key
  cleared : sec = .logged (.clearEnqueued key) →
    effect.shared.logged.log.queued key = false
  offered : sec.offers key → effect.shared.Held key ∨
    Carried effect.work key ∨ (∃ after ∈ effect.work, after.offers key) ∨
    s.logged.log.queued key = true
  refused : .logged (.clearEnqueued key) ∈ effect.work →
    sec.carries key ∧ s.spawned = false
  spawned : s.spawned = true → effect.shared.spawned = true

variable {frames : RecvKey → Option (List UInt8)} {cap : Nat} {uri : ActorUri}
  {s : ReplayState} {sec : ReplaySection} {key : RecvKey} {m : Routed}
  {effect : Effect ReplayState ReplaySection}

/-- A section that has nothing to do with the queueing of the key. -/
theorem KeyStep.plain (hheld : s.Held key → effect.shared.Held key)
    (hqueued : effect.shared.logged.log.queued key = true →
      s.logged.log.queued key = true)
    (hcarries : ¬ sec.carries key) (hoffers : ¬ sec.offers key)
    (hclears : sec ≠ .logged (.clearEnqueued key))
    (hwork : .logged (.clearEnqueued key) ∉ effect.work)
    (hspawned : effect.shared.spawned = s.spawned) : KeyStep s sec effect key where
  held := hheld
  carried := fun h => absurd h hcarries
  queued := fun h => Or.inl (hqueued h)
  cleared := fun h => absurd h hclears
  offered := fun h => absurd h hoffers
  refused := fun h => absurd h hwork
  spawned := fun h => hspawned.trans h

theorem Held.relog (hheld : s.Held key) {logged : LoggedState}
    (hcore : SameCore s.logged.log logged.log) :
    Held { s with logged := logged } key := by
  rcases hheld with hexecuted | hrest
  · exact Or.inl ((hcore.executed key).trans hexecuted)
  · exact Or.inr hrest

/-- A section that goes on with the key, or has a reason to stop. -/
theorem KeyStep.offering (hheld : s.Held key → effect.shared.Held key)
    (hqueued : effect.shared.logged.log.queued key = true →
      s.logged.log.queued key = true ∨ effect.shared.Held key ∨
        Carried effect.work key)
    (hcarries : ¬ sec.carries key)
    (hclears : sec ≠ .logged (.clearEnqueued key))
    (hoffered : sec.offers key → effect.shared.Held key ∨
      Carried effect.work key ∨ (∃ after ∈ effect.work, after.offers key) ∨
      s.logged.log.queued key = true)
    (hwork : .logged (.clearEnqueued key) ∉ effect.work)
    (hspawned : effect.shared.spawned = s.spawned) : KeyStep s sec effect key where
  held := hheld
  carried := fun h => absurd h hcarries
  queued := hqueued
  cleared := fun h => absurd h hclears
  offered := hoffered
  refused := fun h => absurd h hwork
  spawned := fun h => hspawned.trans h

@[simp] theorem liftLogged_goto_work (current : Option Dispatch)
    (logged : LoggedState) (secs : List LoggedSection) :
    (s.liftLogged current (.goto logged secs)).work =
      (secs.map LoggedSection.toReplay : List ReplaySection) := by
  simp [liftLogged, Effect.work, Effect.goto]

@[simp] theorem liftLogged_done_work (current : Option Dispatch)
    (logged : LoggedState) : (s.liftLogged current (.done logged)).work = 0 := by
  simp [liftLogged, Effect.work, Effect.done]

/-- The call goes on with the key and nothing changes. -/
theorem KeyStep.passes {inner after : LoggedSection}
    (hcarries : ¬ (ReplaySection.logged inner).carries key)
    (hclears : inner ≠ .clearEnqueued key) (hnext : after ≠ .clearEnqueued key)
    (hafter : after.toReplay = .logged after)
    (hoffers : (ReplaySection.logged inner).offers key →
      (ReplaySection.logged after).offers key) :
    KeyStep s (.logged inner) (s.liftLogged s.current (.goto s.logged [after]))
      key := by
  refine .offering (fun h => h) Or.inl hcarries ?_ ?_ ?_ rfl
  · simpa using hclears
  · intro hkey
    exact Or.inr (Or.inr (Or.inl ⟨.logged after, by simp [hafter],
      hoffers hkey⟩))
  · simpa [hafter, eq_comm] using hnext

/-- The call ends and nothing changes, for a good reason. -/
theorem KeyStep.stops {inner : LoggedSection}
    (hcarries : ¬ (ReplaySection.logged inner).carries key)
    (hclears : inner ≠ .clearEnqueued key)
    (hoffers : (ReplaySection.logged inner).offers key →
      s.Held key ∨ s.logged.log.queued key = true) :
    KeyStep s (.logged inner) (s.liftLogged s.current (.done s.logged)) key := by
  refine .offering (fun h => h) Or.inl hcarries (by simpa using hclears) ?_
    (by simp) rfl
  intro hkey
  rcases hoffers hkey with hheld | hqueued
  · exact Or.inl hheld
  · exact Or.inr (Or.inr (Or.inr hqueued))

/-- A mark on the queue changes the entry of its own key only. -/
theorem queued_setEnqueued {log : ReceiverLog} {other : RecvKey} {value : Bool}
    (hother : other ≠ key) :
    (log.setEnqueued other value).queued key = log.queued key := by
  have hkey : key ≠ other := fun h => hother h.symm
  simp [ReceiverLog.queued, ReceiverLog.setEnqueued, Table.lookup_modify, hkey]

theorem queued_setEnqueued_false (log : ReceiverLog) (key : RecvKey) :
    (log.setEnqueued key false).queued key = false := by
  simp only [ReceiverLog.queued, ReceiverLog.setEnqueued, Table.lookup_modify,
    if_true]
  cases log.index.lookup key <;> simp

/-- An entry is queued behind such a mark if it was before, or is the marked one. -/
theorem of_queued_setEnqueued {log : ReceiverLog} {other : RecvKey} {value : Bool}
    (hqueued : (log.setEnqueued other value).queued key = true) :
    log.queued key = true ∨ other = key := by
  by_cases hkey : other = key
  · exact Or.inr hkey
  · rw [queued_setEnqueued hkey] at hqueued
    exact Or.inl hqueued

/-- A marked entry has been run, or is queued. -/
theorem executed_or_queued {log : ReceiverLog} (hmarked : log.enqueued key = true) :
    log.executed key = true ∨ log.queued key = true := by
  unfold ReceiverLog.enqueued at hmarked
  cases hlookup : log.index.lookup key with
  | none => simp [hlookup] at hmarked
  | some entry =>
      rw [hlookup, Option.any_some] at hmarked
      cases hexecuted : entry.executed with
      | true =>
          left
          simp [ReceiverLog.executed, hlookup, hexecuted]
      | false =>
          right
          simp [ReceiverLog.queued, hlookup, hmarked, hexecuted]

theorem Begun.held (hbegun : s.Begun key) : s.Held key := by
  rcases hbegun with hexecuted | ⟨d, hcurrent, hkey, -⟩
  · exact Or.inl hexecuted
  · exact Or.inr (Or.inl ⟨d, hcurrent, hkey⟩)

/-- The entry is marked, and its frame is on its way. -/
theorem enqueueSet_keyStep {other : RecvKey} {body : List UInt8}
    {outcome : Effect LoggedState LoggedSection}
    (houtcome : outcome = .goto { s.logged with log := s.logged.log.setEnqueued other true }
      [.enqueueReply other body])
    (hheld : s.Held key → (s.liftLogged s.current outcome).shared.Held key) :
    KeyStep s (.logged (.enqueueSet other body)) (s.liftLogged s.current outcome) key := by
  subst houtcome
  have hcarried : other = key → Carried (s.liftLogged s.current (.goto
      { s.logged with log := s.logged.log.setEnqueued other true }
      [.enqueueReply other body])).work key := fun hkey =>
    ⟨.logged (.enqueueReply other body), by
      simp [LoggedSection.toReplay], hkey⟩
  refine .offering hheld ?_ (fun h => h) (by simp)
    (fun hkey => Or.inr (Or.inl (hcarried hkey))) (by
      simp [LoggedSection.toReplay]) rfl
  intro hqueued
  exact (of_queued_setEnqueued hqueued).imp_right fun hkey => Or.inr (hcarried hkey)

/-- The mark is taken back. -/
theorem clearEnqueued_keyStep {other : RecvKey} {outcome : Effect LoggedState LoggedSection}
    (houtcome : outcome = .done { s.logged with log := s.logged.log.setEnqueued other false })
    (hheld : s.Held key → (s.liftLogged s.current outcome).shared.Held key) :
    KeyStep s (.logged (.clearEnqueued other)) (s.liftLogged s.current outcome) key := by
  subst houtcome
  refine ⟨hheld, fun h => h.elim, ?_, ?_, fun h => h.elim, by simp, fun h => h⟩
  · intro hqueued
    obtain hold | rfl := of_queued_setEnqueued hqueued
    · exact Or.inl hold
    · change (s.logged.log.setEnqueued other false).queued other = true at hqueued
      rw [queued_setEnqueued_false] at hqueued
      cases hqueued
  · intro hclear
    cases hclear
    exact queued_setEnqueued_false _ _

theorem enqueue_keyStep (hinv : s.Inv frames) (htarget : Target frames uri key m)
    {inner : LoggedSection} {choice : LoggedChoice}
    {outcome : Effect LoggedState LoggedSection}
    (hsec : s.LoggedOk frames inner)
    (hidle : (ReplaySection.logged inner).busyTag = none)
    (hroom : hasRoom cap s (.logged inner) = true)
    (hexec : s.logged.exec cap inner choice = some outcome)
    (henqueue : s.logged.exec cap inner choice =
      s.logged.enqueue cap inner choice) :
    KeyStep s (.logged inner) (s.liftLogged s.current outcome) key := by
  obtain ⟨hcore, -, -, -⟩ := logged_idle hinv hsec hidle hexec
  have hheld : s.Held key → (s.liftLogged s.current outcome).shared.Held key :=
    fun h => h.relog hcore
  obtain ⟨frame, hframe, hunpack⟩ := htarget.frame
  obtain ⟨entry, hlookup, hbody, hpersisted⟩ := hinv.frame_lookup hframe
  rw [henqueue] at hexec
  cases inner <;> simp only [LoggedState.enqueue, reduceCtorEq] at hexec
  case enqueueHold other =>
    simp only [hinv.hold, Bool.false_eq_true, if_false] at hexec
    obtain rfl := Option.some.inj hexec
    exact .passes (fun h => h) (by simp) (by simp) rfl (fun h => h)
  case enqueueExecuted other =>
    split at hexec <;> rename_i hexecuted <;> obtain rfl := Option.some.inj hexec
    · refine .stops (fun h => h) (by simp) ?_
      rintro rfl
      exact Or.inl (Or.inl hexecuted)
    · exact .passes (fun h => h) (by simp) (by simp) rfl (fun h => h)
  case enqueuePersisted other =>
    split at hexec <;> rename_i hkept <;> obtain rfl := Option.some.inj hexec
    · exact .passes (fun h => h) (by simp) (by simp) rfl (fun h => h)
    · refine .stops (fun h => h) (by simp) ?_
      rintro rfl
      refine absurd ?_ hkept
      simp [ReceiverLog.persisted, hlookup, hpersisted]
  case enqueueEnqueued other =>
    split at hexec <;> rename_i hmarked <;> obtain rfl := Option.some.inj hexec
    · refine .stops (fun h => h) (by simp) ?_
      rintro rfl
      exact (executed_or_queued hmarked).imp_left Or.inl
    · exact .passes (fun h => h) (by simp) (by simp) rfl (fun h => h)
  case enqueueRoom other =>
    split at hexec <;> rename_i hfound <;> obtain rfl := Option.some.inj hexec
    · simp [hasRoom, hfound] at hroom
    · exact .passes (fun h => h) (by simp) (by simp) rfl (fun h => h)
    · exact .passes (fun h => h) (by simp) (by simp) rfl (fun h => h)
  case enqueueAlready other =>
    obtain rfl := Option.some.inj hexec
    refine .offering hheld ?_ (fun h => h) (by simp) ?_ (by simp) rfl
    · intro hqueued
      refine (of_queued_setEnqueued hqueued).imp_right ?_
      rintro rfl
      exact Or.inl (hheld (Begun.held hsec))
    · rintro rfl
      exact Or.inl (hheld (Begun.held hsec))
  case enqueueCopy other =>
    split at hexec <;> rename_i hempty <;> obtain rfl := Option.some.inj hexec
    · refine .stops (fun h => h) (by simp) ?_
      rintro rfl
      -- An empty frame does not unpack.
      simp only [ReceiverLog.copyFrame, hlookup, Option.elim_some] at hempty
      rw [← hbody, hempty] at hunpack
      cases hunpack
    · exact .passes (fun h => h) (by simp) (by simp) rfl (fun h => h)
  case enqueueSet other body => exact enqueueSet_keyStep (Option.some.inj hexec).symm hheld
  case enqueueReply other body =>
    obtain rfl := Option.some.inj hexec
    refine ⟨hheld, ?_, Or.inl, by simp, fun h => h.elim, ?_, fun h => h⟩
    · intro hkey
      exact Or.inr (Or.inl ⟨.pushRoutedFrame other body
        (s.logged.log.replyConn other), by
        simp [LoggedSection.toReplay], hkey⟩)
    · simp [LoggedSection.toReplay]
  case clearEnqueued other => exact clearEnqueued_keyStep (Option.some.inj hexec).symm hheld
  case pushRoutedFrame => exact hsec.elim

/-- The sections of the log that queue nothing, but for the replay. -/
theorem quiet_keyStep {inner : LoggedSection}
    {outcome : Effect LoggedState LoggedSection}
    (hcore : SameCore s.logged.log outcome.shared.log)
    (hqueues : QueuesNone s.logged.log outcome.shared.log)
    (hcarries : ¬ (ReplaySection.logged inner).carries key)
    (hoffers : ¬ (ReplaySection.logged inner).offers key)
    (hclears : inner ≠ .clearEnqueued key)
    (hwork : ∀ after ∈ outcome.work, after ≠ .clearEnqueued key) :
    KeyStep s (.logged inner) (s.liftLogged s.current outcome) key := by
  refine .plain (fun h => h.relog hcore) (hqueues key) hcarries hoffers
    (by simpa using hclears) ?_ rfl
  intro hmem
  obtain ⟨after, hafter, heq⟩ := mem_liftLogged_work hmem
  cases after <;> cases heq
  exact hwork _ hafter rfl

theorem replayTake_keyStep {other : ActorUri}
    {choice : LoggedChoice} {outcome : Effect LoggedState LoggedSection}
    (hexec : s.logged.exec cap (.replayTake other) choice = some outcome) :
    KeyStep s (.logged (.replayTake other)) (s.liftLogged s.current outcome)
      key := by
  obtain rfl := Option.some.inj hexec
  refine .offering (fun h => h.relog (ReceiverLog.takeForActor_core ..)) ?_
    (fun h => h) (by simp) (fun h => h.elim) ?_ rfl
  · intro hqueued
    obtain ⟨after, hafter, henqueued, hexecuted⟩ :=
      (ReceiverLog.queued_iff _ _).mp hqueued
    change (takeForActor s.logged.log other).2.index.lookup key = some after
      at hafter
    rw [takeForActor_lookup, Option.map_eq_some_iff] at hafter
    obtain ⟨entry, hlookup, rfl⟩ := hafter
    split at henqueued
    · rename_i htakes
      have hmem := (Table.lookup_eq_some_iff _ _ _).mp hlookup
      have hitem : (key, entry.frame) ∈ (takeForActor s.logged.log other).1 :=
        List.mem_map.mpr ⟨⟨key, entry⟩, List.mem_filter.mpr ⟨hmem, htakes⟩, rfl⟩
      refine Or.inr (Or.inr ⟨.pushRoutedFrame key entry.frame 0, ?_, rfl⟩)
      rw [liftLogged_goto_work, Multiset.mem_coe, List.map_map]
      exact List.mem_map.mpr ⟨(key, entry.frame), hitem, rfl⟩
    · rename_i htakes
      rw [if_neg htakes] at hexecuted
      exact Or.inl ((ReceiverLog.queued_iff _ _).mpr
        ⟨entry, hlookup, henqueued, hexecuted⟩)
  · rw [liftLogged_goto_work, Multiset.mem_coe, List.map_map]
    intro hmem
    obtain ⟨item, -, heq⟩ := List.mem_map.mp hmem
    cases heq

theorem flush_keyStep (hinv : s.Inv frames) {inner : LoggedSection}
    {choice : LoggedChoice} {outcome : Effect LoggedState LoggedSection}
    (hsec : s.LoggedOk frames inner)
    (hidle : (ReplaySection.logged inner).busyTag = none)
    (hexec : s.logged.exec cap inner choice = some outcome)
    (hflush : s.logged.exec cap inner choice = s.logged.flush inner choice) :
    KeyStep s (.logged inner) (s.liftLogged s.current outcome) key := by
  have hcore := (logged_idle hinv hsec hidle hexec).1
  have hplain := hexec
  rw [hflush] at hexec
  cases inner <;> simp only [LoggedState.flush, reduceCtorEq] at hexec
  case replayTake other => exact replayTake_keyStep hplain
  case flushTake =>
    split at hexec <;> rename_i htake <;> obtain rfl := Option.some.inj hexec
    · exact quiet_keyStep hcore (.refl _) (fun h => h) (fun h => h) (by simp)
        (by simp)
    · refine quiet_keyStep hcore ?_ (fun h => h) (fun h => h) (by simp) (by simp)
      obtain ⟨-, -, hindex⟩ := ReceiverLog.takeBatch_core htake
      intro other hother
      rwa [Effect.goto_shared, ReceiverLog.queued, hindex] at hother
  case flushWrite batch =>
    cases choice <;> simp only [reduceCtorEq] at hexec
    split at hexec
    · cases hexec
    · obtain rfl := Option.some.inj hexec
      exact quiet_keyStep hcore (.refl _) (fun h => h) (fun h => h) (by simp)
        (by simp)
    · obtain rfl := Option.some.inj hexec
      exact quiet_keyStep hcore (.refl _) (fun h => h) (fun h => h) (by simp)
        (by simp)
  case flushCommit batch =>
    obtain rfl := Option.some.inj hexec
    exact quiet_keyStep hcore (ReceiverLog.commitIndex_queuesNone _ _)
      (fun h => h) (fun h => h) (by simp) (by simp)
  case flushRollback batch =>
    obtain rfl := Option.some.inj hexec
    exact quiet_keyStep hcore (ReceiverLog.rollback_queuesNone _ _)
      (fun h => h) (fun h => h) (by simp) (by simp)
  case applyFlush result =>
    obtain rfl := Option.some.inj hexec
    refine quiet_keyStep hcore (.refl _) (fun h => h) (fun h => h) (by simp) ?_
    simp only [Effect.goto_work, Multiset.mem_coe, List.mem_append,
      List.mem_map, List.mem_singleton]
    rintro after ((hkey | ⟨ack, -, rfl⟩) | rfl)
    · split at hkey
      · cases hkey
      · obtain ⟨found, -, rfl⟩ := List.mem_map.mp hkey
        simp
    · simp
    · simp
  case pumpKeys =>
    obtain rfl := Option.some.inj hexec
    refine quiet_keyStep hcore (.refl _) (fun h => h) (fun h => h) (by simp) ?_
    simp only [Effect.goto_work, Multiset.mem_coe, List.mem_map]
    rintro after ⟨found, -, rfl⟩
    simp
  all_goals
    repeat' split at hexec
    all_goals obtain rfl := Option.some.inj hexec
    all_goals refine quiet_keyStep hcore (.refl _) ?_ ?_ ?_ ?_
    all_goals simp [ReplaySection.carries, ReplaySection.offers]

theorem logged_keyStep (hinv : s.Inv frames)
    (htarget : Target frames uri key m) {inner : LoggedSection}
    {choice : LoggedChoice} {outcome : Effect LoggedState LoggedSection}
    (hsec : s.LoggedOk frames inner)
    (hidle : (ReplaySection.logged inner).busyTag = none)
    (hroom : hasRoom cap s (.logged inner) = true)
    (hexec : s.logged.exec cap inner choice = some outcome) :
    KeyStep s (.logged inner) (s.liftLogged s.current outcome) key := by
  have hcore := (logged_idle hinv hsec hidle hexec).1
  cases inner <;> first
    | exact enqueue_keyStep hinv htarget hsec hidle hroom hexec rfl
    | exact flush_keyStep hinv hsec hidle hexec rfl
    | exact hsec.elim
    | (cases hidle; done)
    | skip
  case popEnvelope => exact absurd rfl hsec
  case finishHandled env =>
    simp only [LoggedState.exec, LoggedState.dispatch] at hexec
    split at hexec <;> obtain rfl := Option.some.inj hexec <;>
      exact quiet_keyStep hcore (.refl _) (fun h => h) (fun h => h) (by simp)
        (by simp)
  case finishBufferHandled env =>
    obtain rfl := Option.some.inj hexec
    exact quiet_keyStep hcore (ReceiverLog.bufferHandled_queuesNone _ _ _)
      (fun h => h) (fun h => h) (by simp) (by simp)

theorem push_keyStep (htarget : Target frames uri key m)
    (hframes : ∀ key frame, frames key = some frame → FrameOf key frame)
    {other : RecvKey} {frame : List UInt8} {conn : UInt64}
    {choice : LoggedChoice} (hsec : frames other = some frame)
    (hexec : s.exec cap uri (.pushRoutedFrame other frame conn) choice =
      some effect) :
    KeyStep s (.pushRoutedFrame other frame conn) effect key := by
  simp only [exec] at hexec
  split at hexec <;> rename_i hfilter <;> obtain rfl := Option.some.inj hexec
  · rename_i found
    refine ⟨?_, ?_, Or.inl, by simp, fun h => h.elim, by simp, fun h => h⟩
    · rintro (hexecuted | hcurrent | ⟨letter, hletter, hkey⟩)
      · exact Or.inl hexecuted
      · exact Or.inr (Or.inl hcurrent)
      · exact Or.inr (Or.inr ⟨letter, List.mem_append_left _ hletter, hkey⟩)
    · rintro rfl
      have hkey : found.key = other := hframes other frame hsec found
        (Option.filter_eq_some_iff.mp hfilter).1
      exact Or.inl (Or.inr (Or.inr
        ⟨_, List.mem_append_right _ (List.mem_singleton_self _), hkey⟩))
  · -- The actor is found as soon as it is there.
    have habsent : other = key → s.spawned = false := by
      rintro rfl
      obtain ⟨body, hbody, hunpack⟩ := htarget.frame
      obtain rfl := Option.some.inj (hsec.symm.trans hbody)
      rw [Option.filter_eq_none_iff] at hfilter
      have hnot := hfilter m hunpack
      cases hspawned : s.spawned with
      | false => rfl
      | true => simp [finds, hspawned, htarget.type, htarget.name] at hnot
    refine ⟨fun h => h, ?_, Or.inl, by simp, fun h => h.elim, ?_, fun h => h⟩
    · rintro rfl
      exact Or.inr (Or.inr ⟨habsent rfl, by simp⟩)
    · simp only [Effect.goto_work, Multiset.coe_singleton,
        Multiset.mem_singleton, ReplaySection.logged.injEq,
        LoggedSection.clearEnqueued.injEq]
      rintro rfl
      exact ⟨rfl, habsent rfl⟩

theorem pop_keyStep {choice : LoggedChoice}
    (hexec : s.exec cap uri .popEnvelope choice = some effect) :
    KeyStep s .popEnvelope effect key := by
  simp only [exec] at hexec
  split at hexec
  · rename_i env payload rest hcurrent hmailbox
    have hheld : s.Held key → Held { s with
        mailbox := rest, current := some ⟨env, payload, false⟩ } key := by
      rintro (hexecuted | ⟨d, hd, -⟩ | ⟨letter, hletter, hkey⟩)
      · exact Or.inl hexecuted
      · rw [hcurrent] at hd
        cases hd
      · rw [hmailbox] at hletter
        rcases List.mem_cons.mp hletter with rfl | hrest
        · exact Or.inr (Or.inl ⟨_, rfl, hkey⟩)
        · exact Or.inr (Or.inr ⟨letter, hrest, hkey⟩)
    split at hexec <;> obtain rfl := Option.some.inj hexec <;>
      exact .plain hheld (fun h => h) (fun h => h) (fun h => h) (by simp)
        (by simp) rfl
  · cases hexec

theorem claim_keyStep (hinv : s.Inv frames) {env : Envelope}
    {executed handled : Bool} {choice : LoggedChoice}
    (hsec : s.Ok frames (.claimDedup env executed handled))
    (hroom : hasRoom cap s (.claimDedup env executed handled) = true)
    (hexec : s.exec cap uri (.claimDedup env executed handled) choice =
      some effect) :
    KeyStep s (.claimDedup env executed handled) effect key := by
  obtain ⟨⟨payload, hcurrent⟩, -, rfl⟩ := hsec
  have hfree := Takes.not_claimed ⟨payload, hcurrent⟩
  obtain ⟨outcome, houtcome, rfl⟩ := Option.map_eq_some_iff.mp hexec
  have hlog : outcome.shared.log = s.logged.log ∧
      .logged (.clearEnqueued key) ∉ (s.liftLogged (s.afterClaim cap env.key
        (s.logged.log.executed env.key) handled) outcome).work := by
    simp only [LoggedState.exec, LoggedState.dispatch] at houtcome
    simp only [hasRoom, ne_eq, decide_not, Bool.not_eq_true',
      decide_eq_false_iff_not] at hroom
    split at houtcome <;> rename_i hclaim <;>
      obtain rfl := Option.some.inj houtcome
    · exact ⟨rfl, by simp [LoggedSection.toReplay]⟩
    · exact ⟨rfl, by simp⟩
    · exact absurd hclaim hroom
    · exact ⟨rfl, by simp [LoggedSection.toReplay]⟩
  refine .plain ?_ ?_ (fun h => h) (fun h => h) (by simp) hlog.2 rfl
  · rintro (hexecuted | ⟨d, hd, hkey⟩ | hletter)
    · exact Or.inl (by
        rw [liftLogged, hlog.1]
        exact hexecuted)
    · obtain rfl := Option.some.inj (hcurrent.symm.trans hd)
      by_cases hfresh : (DedupTable.claimRemote cap s.logged.dedup env.key
          (s.logged.log.executed env.key) handled).claim = .fresh
      · refine Or.inr (Or.inl ⟨⟨env, payload, true⟩, ?_, hkey⟩)
        simp [liftLogged, afterClaim, hfresh, hcurrent]
      · have hover := by simpa [hasRoom] using hroom
        have hdone : s.logged.log.executed env.key = true := by
          rcases (DedupTable.claimRemote_other hfresh).2 hover with
            hpresent | hexecuted
          · exact (hinv.deduped env.key hpresent).resolve_right (hfree _)
          · exact hexecuted
        refine Or.inl ?_
        rw [liftLogged, hlog.1, ← hkey]
        exact hdone
    · exact Or.inr (Or.inr hletter)
  · intro hqueued
    rwa [liftLogged, hlog.1] at hqueued

theorem mark_keyStep (hinv : s.Inv frames) {env : Envelope}
    {choice : LoggedChoice} (hsec : s.Ok frames (.markExecuted env))
    (hexec : s.exec cap uri (.markExecuted env) choice = some effect) :
    KeyStep s (.markExecuted env) effect key := by
  obtain ⟨⟨payload, hcurrent⟩, -⟩ := hsec
  obtain ⟨frame, -, hframe, -⟩ := hinv.taken _ hcurrent
  obtain ⟨entry, hlookup, -⟩ := hinv.frame_lookup hframe
  have hmark : ∀ other, (s.logged.log.markExecuted env.key).index.lookup other =
      (s.logged.log.index.lookup other).map fun entry =>
        if other = env.key then { entry with executed := true, enqueued := false }
        else entry := fun other => lookup_modify_map ..
  obtain rfl := Option.some.inj hexec
  refine .plain ?_ ?_ (fun h => h) (fun h => h) (by simp)
    (by simp [LoggedSection.toReplay]) rfl
  · rintro (hexecuted | ⟨d, hd, hkey⟩ | hletter)
    · refine Or.inl ?_
      change (s.logged.log.markExecuted env.key).executed key = true
      rw [ReceiverLog.executed, hmark]
      rw [ReceiverLog.executed] at hexecuted
      cases hfound : s.logged.log.index.lookup key with
      | none => simp [hfound] at hexecuted
      | some found =>
          simp only [hfound, Option.any_some] at hexecuted
          simp only [Option.map_some, Option.any_some]
          split <;> simp [hexecuted]
    · obtain rfl := Option.some.inj (hcurrent.symm.trans hd)
      refine Or.inl ?_
      change (s.logged.log.markExecuted env.key).executed key = true
      rw [ReceiverLog.executed, hmark, ← hkey]
      simp [hlookup]
    · exact Or.inr (Or.inr hletter)
  · refine QueuesNone.of_map hmark ?_ key
    intro other found henqueued hexecuted
    split at henqueued
    · cases henqueued
    · rename_i hother
      rw [if_neg hother] at hexecuted
      exact ⟨henqueued, hexecuted⟩

theorem exec_keyStep (hinv : s.Inv frames)
    (hframes : ∀ key frame, frames key = some frame → FrameOf key frame)
    (htarget : Target frames uri key m) {choice : LoggedChoice}
    (hsec : s.Ok frames sec) (hroom : hasRoom cap s sec = true)
    (hexec : s.exec cap uri sec choice = some effect) :
    KeyStep s sec effect key := by
  cases sec with
  | spawn =>
      simp only [exec] at hexec
      split at hexec
      · cases hexec
      · obtain rfl := Option.some.inj hexec
        exact ⟨fun h => h, fun h => h.elim, Or.inl, by simp, fun h => h.elim,
          by simp, fun _ => rfl⟩
  | pushRoutedFrame other frame conn =>
      exact push_keyStep htarget hframes hsec hexec
  | popEnvelope => exact pop_keyStep hexec
  | deliverUnkeyed env =>
      obtain ⟨⟨payload, hcurrent⟩, hzero⟩ := hsec
      obtain rfl := Option.some.inj hexec
      refine .plain ?_ (fun h => h) (fun h => h) (fun h => h) (by simp) (by simp)
        rfl
      rintro (hexecuted | ⟨d, hd, rfl⟩ | hletter)
      · exact Or.inl hexecuted
      · obtain rfl := Option.some.inj (hcurrent.symm.trans hd)
        exact absurd hzero htarget.keyed
      · exact Or.inr (Or.inr hletter)
  | claimDedup env executed handled => exact claim_keyStep hinv hsec hroom hexec
  | deliver env =>
      cases choice <;> simp only [exec, reduceCtorEq] at hexec
      split at hexec
      · cases hexec
      · obtain rfl := Option.some.inj hexec
        exact .plain (fun h => h) (fun h => h) (fun h => h) (fun h => h) (by simp)
          (by simp [LoggedSection.toReplay]) rfl
  | markExecuted env => exact mark_keyStep hinv hsec hexec
  | logged inner =>
      obtain ⟨outcome, houtcome, rfl⟩ := Option.map_eq_some_iff.mp hexec
      cases htag : (ReplaySection.logged inner).busyTag with
      | none => exact logged_keyStep hinv htarget hsec htag hroom houtcome
      | some t =>
          cases inner <;> first | (cases htag; done) | skip
          case claimExecuted | claimHandled =>
            obtain rfl := Option.some.inj houtcome
            exact .plain (fun h => h) (fun h => h) (fun h => h) (fun h => h)
              (by simp) (by simp [LoggedSection.toReplay]) rfl
          case finishDedup env result =>
            simp only [LoggedState.exec, LoggedState.dispatch, hsec.2.1,
              if_false] at houtcome
            obtain rfl := Option.some.inj houtcome
            exact .plain (fun h => h) (fun h => h) (fun h => h) (fun h => h)
              (by simp) (by simp [LoggedSection.toReplay]) rfl

/-- Whatever is marked enqueued and not executed is on its way to the actor,
or its mark is about to be taken back. -/
def Waits (s : ReplayState) (pending : Multiset ReplaySection)
    (key : RecvKey) : Prop :=
  s.logged.log.queued key = true → s.Held key ∨ Carried pending key ∨
    .logged (.clearEnqueued key) ∈ pending

/-- The key is on its way to the actor and no mark will be taken back. -/
structure Settled (s : ReplayState) (pending : Multiset ReplaySection)
    (key : RecvKey) : Prop where
  spawned : s.spawned = true
  kept : .logged (.clearEnqueued key) ∉ pending
  covered : s.Held key ∨ Carried pending key ∨
    ∃ sec ∈ pending, sec.offers key

variable {others : Multiset ReplaySection}

theorem carried_cons :
    Carried (sec ::ₘ others) key ↔ sec.carries key ∨ Carried others key := by
  simp [Carried]

theorem Carried.add_right (hcarried : Carried others key)
    (work : Multiset ReplaySection) : Carried (work + others) key := by
  obtain ⟨after, hafter, hkey⟩ := hcarried
  exact ⟨after, Multiset.mem_add.mpr (Or.inr hafter), hkey⟩

theorem Carried.add_left {work : Multiset ReplaySection}
    (hcarried : Carried work key) : Carried (work + others) key := by
  obtain ⟨after, hafter, hkey⟩ := hcarried
  exact ⟨after, Multiset.mem_add.mpr (Or.inl hafter), hkey⟩

theorem KeyStep.waits (hstep : KeyStep s sec effect key)
    (hwaits : s.Waits (sec ::ₘ others) key) :
    effect.shared.Waits (effect.work + others) key := by
  intro hqueued
  rcases hstep.queued hqueued with hbefore | hheld | hcarried
  · rcases hwaits hbefore with hheld | hcarried | hclear
    · exact Or.inl (hstep.held hheld)
    · rcases carried_cons.mp hcarried with hsec | hothers
      · rcases hstep.carried hsec with hheld | hwork | ⟨-, hwork⟩
        · exact Or.inl hheld
        · exact Or.inr (Or.inl hwork.add_left)
        · exact Or.inr (Or.inr (Multiset.mem_add.mpr (Or.inl hwork)))
      · exact Or.inr (Or.inl (hothers.add_right _))
    · rcases Multiset.mem_cons.mp hclear with heq | hothers
      · rw [hstep.cleared heq.symm] at hqueued
        cases hqueued
      · exact Or.inr (Or.inr (Multiset.mem_add.mpr (Or.inr hothers)))
  · exact Or.inl hheld
  · exact Or.inr (Or.inl hcarried.add_left)

theorem KeyStep.settled (hstep : KeyStep s sec effect key)
    (hwaits : s.Waits (sec ::ₘ others) key)
    (hsettled : s.Settled (sec ::ₘ others) key) :
    effect.shared.Settled (effect.work + others) key := by
  have hkept : .logged (.clearEnqueued key) ∉ others := fun h =>
    hsettled.kept (Multiset.mem_cons_of_mem h)
  -- What carries the key, or waits for its mark, still leads to the actor.
  have hcarried : Carried (sec ::ₘ others) key → effect.shared.Held key ∨
      Carried (effect.work + others) key := by
    intro hcarried
    rcases carried_cons.mp hcarried with hsec | hothers
    · rcases hstep.carried hsec with hheld | hwork | ⟨habsent, -⟩
      · exact Or.inl hheld
      · exact Or.inr hwork.add_left
      · rw [hsettled.spawned] at habsent
        cases habsent
    · exact Or.inr (hothers.add_right _)
  refine ⟨hstep.spawned hsettled.spawned, ?_, ?_⟩
  · intro hclear
    rcases Multiset.mem_add.mp hclear with hwork | hothers
    · have habsent := (hstep.refused hwork).2
      rw [hsettled.spawned] at habsent
      cases habsent
    · exact hkept hothers
  · rcases hsettled.covered with hheld | hbefore | ⟨offer, hoffer, hkey⟩
    · exact Or.inl (hstep.held hheld)
    · rcases hcarried hbefore with hheld | hafter
      · exact Or.inl hheld
      · exact Or.inr (Or.inl hafter)
    · rcases Multiset.mem_cons.mp hoffer with rfl | hothers
      · rcases hstep.offered hkey with hheld | hwork | ⟨after, hafter, hnext⟩ |
          hqueued
        · exact Or.inl hheld
        · exact Or.inr (Or.inl hwork.add_left)
        · exact Or.inr (Or.inr
            ⟨after, Multiset.mem_add.mpr (Or.inl hafter), hnext⟩)
        · rcases hwaits hqueued with hheld | hbefore | hclear
          · exact Or.inl (hstep.held hheld)
          · rcases hcarried hbefore with hheld | hafter
            · exact Or.inl hheld
            · exact Or.inr (Or.inl hafter)
          · exact absurd hclear hsettled.kept
      · exact Or.inr (Or.inr
          ⟨offer, Multiset.mem_add.mpr (Or.inr hothers), hkey⟩)

/-- A pump finds the key waiting, unless it is on its way. -/
theorem pumpKeys_settles (hinv : s.Inv frames)
    (htarget : Target frames uri key m) (hspawned : s.spawned = true)
    (hkept : .logged (.clearEnqueued key) ∉ others)
    (hwaits : s.Waits (.logged .pumpKeys ::ₘ others) key)
    {choice : LoggedChoice}
    (hexec : s.exec cap uri (.logged .pumpKeys) choice = some effect) :
    effect.shared.Settled (effect.work + others) key := by
  obtain rfl := Option.some.inj hexec
  obtain ⟨frame, hframe, -⟩ := htarget.frame
  obtain ⟨entry, hlookup, -, hpersisted⟩ := hinv.frame_lookup hframe
  refine ⟨hspawned, ?_, ?_⟩
  · intro hclear
    rcases Multiset.mem_add.mp hclear with hwork | hothers
    · rw [liftLogged_goto_work, Multiset.mem_coe, List.map_map] at hwork
      obtain ⟨found, -, heq⟩ := List.mem_map.mp hwork
      cases heq
    · exact hkept hothers
  · cases hexecuted : entry.executed with
    | true =>
        refine Or.inl (Or.inl ?_)
        change s.logged.log.executed key = true
        simp [ReceiverLog.executed, hlookup, hexecuted]
    | false =>
        cases henqueued : entry.enqueued with
        | true =>
            have hqueued := (ReceiverLog.queued_iff s.logged.log key).mpr
              ⟨entry, hlookup, henqueued, hexecuted⟩
            rcases hwaits hqueued with hheld | hcarried | hclear
            · exact Or.inl hheld
            · rcases carried_cons.mp hcarried with hsec | hothers
              · exact hsec.elim
              · exact Or.inr (Or.inl (hothers.add_right _))
            · rcases Multiset.mem_cons.mp hclear with heq | hothers
              · cases heq
              · exact absurd hothers hkept
        | false =>
            have hwaiting := ReceiverLog.mem_waitingKeys hlookup hpersisted
              hexecuted henqueued
            refine Or.inr (Or.inr ⟨.logged (.enqueueHold key),
              Multiset.mem_add.mpr (Or.inl ?_), rfl⟩)
            rw [liftLogged_goto_work, Multiset.mem_coe, List.map_map]
            exact List.mem_map.mpr ⟨key, hwaiting, rfl⟩

/-- Nothing is queued or in progress. -/
def Final (cfg : Config ReplayState ReplaySection) : Prop :=
  cfg.pending = 0 ∧ cfg.shared.mailbox = [] ∧ cfg.shared.current = none

theorem Settled.executed {cfg : Config ReplayState ReplaySection}
    (hsettled : cfg.shared.Settled cfg.pending key) (hfinal : Final cfg) :
    cfg.shared.logged.log.executed key = true := by
  obtain ⟨hpending, hmailbox, hcurrent⟩ := hfinal
  rcases hsettled.covered with (hexecuted | ⟨d, hd, -⟩ | ⟨letter, hmem, -⟩) |
    ⟨after, hafter, -⟩ | ⟨after, hafter, -⟩
  · exact hexecuted
  · rw [hcurrent] at hd
    cases hd
  · rw [hmailbox] at hmem
    cases hmem
  · rw [hpending] at hafter
    cases hafter
  · rw [hpending] at hafter
    cases hafter

/-- An executed key was run exactly once, with the payload of its frame. -/
theorem Inv.runs_eq (hinv : s.Inv frames) (htarget : Target frames uri key m)
    (hexecuted : s.logged.log.executed key = true) :
    s.runs.filter (fun run => run.1 = key) = [(key, m.payload)] := by
  have hcount : (s.runs.filter fun run => run.1 = key).length = 1 := by
    have hpositive := List.count_pos_iff.mpr (hinv.executed key hexecuted)
    have hone := hinv.once key htarget.keyed
    have hlength : s.ran.count key =
        (s.runs.filter fun run => run.1 = key).length := by
      rw [ran, List.count_eq_countP, List.countP_map, List.countP_eq_length_filter]
      congr 1
    omega
  rw [List.eq_replicate_of_mem (a := (key, m.payload)) (l := s.runs.filter _),
    hcount]
  · rfl
  · intro run hrun
    obtain ⟨hmem, hkey⟩ := List.mem_filter.mp hrun
    have hkey : run.1 = key := by simpa using hkey
    obtain ⟨frame, found, hframe, hunpack, hpayload⟩ := hinv.payloads run hmem
    obtain ⟨body, hbody, htargeted⟩ := htarget.frame
    rw [hkey] at hframe
    obtain rfl := Option.some.inj (hbody.symm.trans hframe)
    obtain rfl := Option.some.inj (htargeted.symm.trans hunpack)
    exact Prod.ext hkey hpayload.symm

end ReplayState

/-- What `scan_existing` puts into the index is persisted. -/
theorem persisted_foldl_indexRecord (records : List RecvRecord)
    (index : Table RecvKey RecvEntry)
    (hindex : ∀ key entry, index.lookup key = some entry →
      entry.persisted = true) (key : RecvKey) (entry : RecvEntry)
    (hlookup : (records.foldl indexRecord index).lookup key = some entry) :
    entry.persisted = true := by
  induction records generalizing index with
  | nil => exact hindex key entry hlookup
  | cons record records ih =>
      refine ih (indexRecord index record) ?_ hlookup
      intro other found hfound
      unfold indexRecord at hfound
      split at hfound
      · split at hfound
        · obtain ⟨-, rfl⟩ | ⟨-, hold⟩ := Table.of_lookup_insert hfound
          · rfl
          · exact hindex other found hold
        · exact hindex other found hfound
      · split at hfound
        · rw [lookup_modify_map, Option.map_eq_some_iff] at hfound
          obtain ⟨before, hbefore, rfl⟩ := hfound
          split <;> exact hindex other before hbefore
        · exact hindex other found hfound

namespace ReplayState

theorem inv_opened {file : List UInt8} {records : List RecvRecord}
    {opened : Bool} {log : ReceiverLog} (hfile : ReceiverFile file records [])
    (hlog : ReceiverLog.construct file opened = some log) :
    Inv (dataFrame records) (ReplayState.opened file log) := by
  have huntouched := untouched_construct hlog
  have hlog : log = ⟨opened, 0, records.foldl indexRecord ∅, [], false, 0, 0⟩ := by
    simpa [ReceiverLog.construct, hfile.scan_eq] using hlog.symm
  have hexecuted : ∀ key, log.executed key = false := by
    intro key
    unfold ReceiverLog.executed
    cases hlookup : log.index.lookup key with
    | none => rfl
    | some entry => exact (huntouched key entry hlookup).1
  refine ⟨rfl, ?_, ?_, by rintro _ ⟨⟩, by rintro _ ⟨⟩, by rintro _ ⟨⟩,
    fun _ _ => Nat.zero_le _, by rintro _ ⟨⟩, ?_, ?_⟩
  · intro key
    have hframe := frame_foldl_indexRecord records ∅ key
    change (log.index.lookup key).map RecvEntry.core = (dataFrame records
      key).map fun frame => (frame, true, log.executed key)
    rw [hexecuted]
    cases hlookup : log.index.lookup key with
    | none =>
        rw [hlog] at hlookup
        simp only [hlookup, Option.map_none, AList.lookup_empty,
          Option.none_or] at hframe
        rw [← hframe]
        rfl
    | some entry =>
        have hpersisted : entry.persisted = true := by
          rw [hlog] at hlookup
          exact persisted_foldl_indexRecord records ∅ (by simp) key entry hlookup
        have hnot := (huntouched key entry hlookup).1
        rw [hlog] at hlookup
        simp only [hlookup, Option.map_some, AList.lookup_empty,
          Option.map_none, Option.none_or] at hframe
        rw [← hframe]
        simp [RecvEntry.core, hpersisted, hnot]
  · rw [hlog]
    rintro _ ⟨⟩
  · intro key hpresent
    exact absurd rfl hpresent
  · intro key hdone
    change log.executed key = true at hdone
    rw [hexecuted] at hdone
    cases hdone

variable {frames : RecvKey → Option (List UInt8)} {cap : Nat} {uri : ActorUri}

/-- What holds in every state of every run. -/
def RunInv (frames : RecvKey → Option (List UInt8)) (uri : ActorUri)
    (s : ReplayState) (pending : Multiset ReplaySection) : Prop :=
  Program.Tagged (Inv frames) (Ok frames) ReplaySection.busyTag s pending ∧
    ∀ key m, Target frames uri key m → s.Waits pending key

theorem RunInv.call {s : ReplayState} {pending : Multiset ReplaySection}
    {sec : ReplaySection} (hinv : RunInv frames uri s pending)
    (hentry : entry sec = true) : RunInv frames uri s (sec ::ₘ pending) := by
  refine ⟨?_, ?_⟩
  · cases sec with
    | spawn | popEnvelope => exact hinv.1.call trivial rfl
    | logged inner =>
        have hcases : inner = .flushTake ∨ inner = .pumpHold :=
          of_decide_eq_true hentry
        rcases hcases with rfl | rfl <;> exact hinv.1.call (by rintro ⟨⟩) rfl
    | _ => cases hentry
  · intro key m htarget hqueued
    rcases hinv.2 key m htarget hqueued with hheld | hcarried | hclear
    · exact Or.inl hheld
    · exact Or.inr (Or.inl (carried_cons.mpr (Or.inr hcarried)))
    · exact Or.inr (Or.inr (Multiset.mem_cons_of_mem hclear))

theorem RunInv.exec {s : ReplayState} {others : Multiset ReplaySection}
    {sec : ReplaySection} {choice : LoggedChoice}
    {effect : Effect ReplayState ReplaySection}
    (hframes : ∀ key frame, frames key = some frame → FrameOf key frame)
    (hinv : RunInv frames uri s (sec ::ₘ others))
    (hroom : hasRoom cap s sec = true)
    (hexec : s.exec cap uri sec choice = some effect) :
    RunInv frames uri effect.shared (effect.work + others) := by
  have hsec := hinv.1.1.2 sec (Multiset.mem_cons_self sec others)
  refine ⟨(exec_step hinv.1.1.1 hframes hsec hexec).keeps hinv.1, ?_⟩
  intro key m htarget
  exact (exec_keyStep hinv.1.1.1 hframes htarget hsec hroom hexec).waits
    (hinv.2 key m htarget)

theorem runInv_opened {file : List UInt8} {records : List RecvRecord}
    {opened : Bool} {log : ReceiverLog} (hfile : ReceiverFile file records [])
    (hlog : ReceiverLog.construct file opened = some log) :
    RunInv (dataFrame records) uri (ReplayState.opened file log) 0 := by
  refine ⟨⟨⟨inv_opened hfile hlog, by simp⟩, uniqueTags_zero _⟩, ?_⟩
  intro key m _ hqueued
  obtain ⟨entry, hlookup, henqueued, -⟩ :=
    (ReceiverLog.queued_iff _ _).mp hqueued
  rw [(untouched_construct hlog key entry hlookup).2] at henqueued
  cases henqueued

/-- What holds once a pump has taken care of the key. -/
def SettledInv (frames : RecvKey → Option (List UInt8)) (uri : ActorUri)
    (key : RecvKey) (s : ReplayState) (pending : Multiset ReplaySection) :
    Prop :=
  RunInv frames uri s pending ∧ s.Settled pending key

theorem SettledInv.call {key : RecvKey} {s : ReplayState}
    {pending : Multiset ReplaySection} {sec : ReplaySection}
    (hinv : SettledInv frames uri key s pending) (hentry : entry sec = true) :
    SettledInv frames uri key s (sec ::ₘ pending) := by
  obtain ⟨hrun, hsettled⟩ := hinv
  refine ⟨hrun.call hentry, hsettled.spawned, ?_, ?_⟩
  · intro hclear
    rcases Multiset.mem_cons.mp hclear with rfl | hold
    · have hcases : LoggedSection.clearEnqueued key = .flushTake ∨
          LoggedSection.clearEnqueued key = .pumpHold :=
        of_decide_eq_true hentry
      rcases hcases with h | h <;> cases h
    · exact hsettled.kept hold
  · rcases hsettled.covered with hheld | hcarried | ⟨offer, hoffer, hkey⟩
    · exact Or.inl hheld
    · exact Or.inr (Or.inl (carried_cons.mpr (Or.inr hcarried)))
    · exact Or.inr (Or.inr ⟨offer, Multiset.mem_cons_of_mem hoffer, hkey⟩)

theorem SettledInv.exec {key : RecvKey} {m : Routed} {s : ReplayState}
    {others : Multiset ReplaySection} {sec : ReplaySection}
    {choice : LoggedChoice} {effect : Effect ReplayState ReplaySection}
    (hframes : ∀ key frame, frames key = some frame → FrameOf key frame)
    (htarget : Target frames uri key m)
    (hinv : SettledInv frames uri key s (sec ::ₘ others))
    (hroom : hasRoom cap s sec = true)
    (hexec : s.exec cap uri sec choice = some effect) :
    SettledInv frames uri key effect.shared (effect.work + others) := by
  obtain ⟨hrun, hsettled⟩ := hinv
  have hsec := hrun.1.1.2 sec (Multiset.mem_cons_self sec others)
  have hstep := exec_keyStep hrun.1.1.1 hframes htarget hsec hroom hexec
  exact ⟨hrun.exec hframes hroom hexec,
    hstep.settled (hrun.2 key m htarget) hsettled⟩

end ReplayState

/-- In a file that `receiver_log` has written, a frame carries the ids of its
record. -/
def KeysMatch (records : List RecvRecord) : Prop :=
  ∀ record ∈ records, record.type = 1 → FrameOf record.key record.body

theorem KeysMatch.dataFrame {records : List RecvRecord}
    (hkeys : KeysMatch records) (key : RecvKey) (frame : List UInt8)
    (hframe : dataFrame records key = some frame) : FrameOf key frame := by
  obtain ⟨record, hfind, rfl⟩ := Option.map_eq_some_iff.mp hframe
  obtain ⟨htype, hkey⟩ : record.type = 1 ∧ record.key = key := by
    simpa using List.find?_some hfind
  rw [← hkey]
  exact hkeys record (List.mem_of_find?_eq_some hfind) htype

/-- The thread is about to read `waiting_keys` for a pump, the actor is there,
and no push of the key that was refused has still to be undone. -/
def PumpsAfterSpawn (cfg : Config ReplayState ReplaySection) (thread : Nat)
    (key : RecvKey) : Prop :=
  cfg.shared.spawned = true ∧
    (∃ rest, cfg.threads[thread]? = some (.logged .pumpKeys :: rest)) ∧
    .logged (.clearEnqueued key) ∉ cfg.pending

/-- The pump settles the key. -/
theorem PumpsAfterSpawn.settles {frames : RecvKey → Option (List UInt8)}
    {cap : Nat} {uri : ActorUri} {key : RecvKey} {m : Routed} {thread : Nat}
    {choice : LoggedChoice} {cfg next : Config ReplayState ReplaySection}
    (hpumps : PumpsAfterSpawn cfg thread key)
    (hframes : ∀ key frame, frames key = some frame → FrameOf key frame)
    (htarget : Target frames uri key m)
    (hinv : ReplayState.RunInv frames uri cfg.shared cfg.pending)
    (hstep : (replayProgram cap uri).stepConfig cfg (.run thread choice) =
      some next) :
    ReplayState.SettledInv frames uri key next.shared next.pending := by
  obtain ⟨hspawned, ⟨rest, hthread⟩, hkept⟩ := hpumps
  rcases (replayProgram cap uri).stepConfig_cases hstep with
    ⟨sec, heq, -⟩ | ⟨other, pick, sec, tail, others, effect, heq, hsec,
      hpending, hexec, hshared, hnext⟩
  · cases heq
  · cases heq
    rw [hthread] at hsec
    cases hsec
    rw [hpending] at hinv hkept
    rw [hshared, hnext]
    have heffect : cfg.shared.exec cap uri (.logged .pumpKeys) choice =
        some effect := hexec
    have hsettled := ReplayState.pumpKeys_settles hinv.1.1.1 htarget hspawned
      (fun h => hkept (Multiset.mem_cons_of_mem h)) (hinv.2 key m htarget)
      heffect
    exact ⟨hinv.exec hframes rfl heffect, hsettled⟩

/-- After a restart every message of the actor is run at most once at all
times, and exactly once, with the payload of its first data record, when
nothing is left to do and a pump came after the spawn. -/
theorem replay_exactly_once (cap : Nat) (uri : ActorUri) (file : List UInt8)
    (records : List RecvRecord) (opened : Bool) (log : ReceiverLog)
    (hfile : ReceiverFile file records []) (hkeys : KeysMatch records)
    (hlog : ReceiverLog.construct file opened = some log) :
    (∀ word last,
        ((replayProgram cap uri).machine (.opened file log)).Meets
          (Program.OnSections fun s _ sec _ => hasRoom cap s sec = true) word →
        ((replayProgram cap uri).machine (.opened file log)).run word =
          some last →
        ∀ key, key.msgId ≠ 0 → last.shared.ran.count key ≤ 1) ∧
      ∀ first thread choice rest middle last,
        ((replayProgram cap uri).machine (.opened file log)).Meets
          (Program.OnSections fun s _ sec _ => hasRoom cap s sec = true)
          (first ++ .run thread choice :: rest) →
        ((replayProgram cap uri).machine (.opened file log)).run first =
          some middle →
        ((replayProgram cap uri).machine (.opened file log)).run
          (first ++ .run thread choice :: rest) = some last →
        ReplayState.Final last →
        ∀ key m, Target (dataFrame records) uri key m →
          PumpsAfterSpawn middle thread key →
          last.shared.runs.filter (fun run => run.1 = key) =
            [(key, m.payload)] := by
  have hframes := hkeys.dataFrame
  have hstart : ReplayState.RunInv (dataFrame records) uri
      (.opened file log) 0 := ReplayState.runInv_opened hfile hlog
  have hruns : ∀ word last,
      ((replayProgram cap uri).machine (.opened file log)).Meets
        (Program.OnSections fun s _ sec _ => hasRoom cap s sec = true) word →
      ((replayProgram cap uri).machine (.opened file log)).run word =
        some last →
      ReplayState.RunInv (dataFrame records) uri last.shared last.pending :=
    fun word last => (replayProgram cap uri).invariant hstart
      (fun _ _ _ hinv hentry => hinv.call hentry)
      (fun _ _ _ _ _ hinv hroom hexec => hinv.exec hframes hroom hexec) word
  refine ⟨fun word last hmeets hrun => (hruns word last hmeets hrun).1.1.1.once,
    ?_⟩
  intro first thread choice rest middle last hmeets hfirst hrun hfinal key m
    htarget hpumps
  obtain ⟨hbefore, hafter⟩ :=
    ((replayProgram cap uri).machine (.opened file log)).meetsFrom_append hmeets
  have hmiddle := hruns first middle hbefore hfirst
  obtain ⟨-, hrest⟩ := hafter middle hfirst
  rw [Machine.run, Machine.runFrom_append,
    show Machine.runFrom _ _ first = some middle from hfirst, Option.bind_some,
    Machine.runFrom] at hrun
  cases hnext : ((replayProgram cap uri).machine (.opened file log)).step middle
      (.run thread choice) with
  | none => simp [hnext] at hrun
  | some next =>
      rw [hnext] at hrun hrest
      have hsettled := hpumps.settles hframes htarget hmiddle hnext
      have hend := (replayProgram cap uri).invariant_from
        (fun _ _ _ hinv hentry => hinv.call hentry)
        (fun _ _ _ _ _ hinv hroom hexec =>
          hinv.exec hframes htarget hroom hexec) rest hsettled hrest hrun
      exact hend.1.1.1.1.runs_eq htarget (hend.2.executed hfinal)

/-- The log that a file of these records is opened to. -/
def scannedLog (records : List RecvRecord) : ReceiverLog :=
  ⟨true, 0, records.foldl indexRecord ∅, [], false, 0, 0⟩

def recordsFile (records : List RecvRecord) : List UInt8 :=
  receiverFormat.encodeAll (records.map RecvRecord.toFrame)

theorem receiverFile_records (records : List RecvRecord)
    (hbody : ∀ record ∈ records, record.body.length + 29 < 2 ^ 32) :
    ReceiverFile (recordsFile records) records [] ∧
      ReceiverLog.construct (recordsFile records) true =
        some (scannedLog records) := by
  have hfile : ReceiverFile (recordsFile records) records [] := by
    refine ⟨by simp [recordsFile], ?_, Or.inl rfl⟩
    intro frame hframe
    obtain ⟨record, hrecord, rfl⟩ := List.mem_map.mp hframe
    exact RecvRecord.fits (hbody record hrecord)
  refine ⟨hfile, ?_⟩
  simp [ReceiverLog.construct, hfile.scan_eq, scannedLog]

def replayUri : ActorUri := ⟨[0x2A], [0x74], [0x6E]⟩

def replayMessage (msgId : UInt64) : Routed :=
  ⟨replayUri, 0, msgId, 7, 3, [9]⟩

/-- A data record of node 7 for the actor. -/
def replayRecord (msgId : UInt64) : RecvRecord :=
  ⟨1, 7, msgId, packRouted (replayMessage msgId)⟩

def replaySteps (thread count : Nat) : List (Move ReplaySection LoggedChoice) :=
  List.replicate count (.run thread .go)

open Move ReplaySection LoggedSection in
/-- The actor is spawned while a pump is under way, and both push the message
with id 0, for which `dispatch_envelope` makes no claim. -/
def pushedTwice : List (Move ReplaySection LoggedChoice) :=
  [call spawn] ++ replaySteps 0 1 ++ [call (logged pumpHold)] ++
    replaySteps 1 7 ++ replaySteps 0 3 ++ replaySteps 1 4 ++
    [call ReplaySection.popEnvelope] ++ replaySteps 2 2 ++
    [call ReplaySection.popEnvelope] ++ replaySteps 3 2

open Move ReplaySection LoggedSection LoggedChoice in
/-- A pump marks the second message, finds no actor and stops before it takes
the mark back; the actor is spawned, is given the first message only, and runs
it up to the pump at its end. -/
def refusedBeforeSpawn : List (Move ReplaySection LoggedChoice) :=
  [call (logged pumpHold)] ++ replaySteps 0 11 ++
    [call spawn] ++ replaySteps 1 4 ++
    [call ReplaySection.popEnvelope] ++ replaySteps 2 4 ++ [run 2 (ended .ok)] ++
    replaySteps 2 6

/-- The pump finds nothing, and the mark is taken back. -/
def clearedAfterPump : List (Move ReplaySection LoggedChoice) :=
  replaySteps 2 2 ++ replaySteps 0 3

theorem replayMessage_unpacks (msgId : UInt64)
    (hids : msgId = 0 ∨ msgId = 1 ∨ msgId = 2) :
    unpackRouted (replayRecord msgId).body = some (replayMessage msgId) := by
  rcases hids with rfl | rfl | rfl <;> decide

theorem replayRecord_frameOf (msgId : UInt64)
    (hids : msgId = 0 ∨ msgId = 1 ∨ msgId = 2) :
    FrameOf (replayRecord msgId).key (replayRecord msgId).body := by
  intro m hunpack
  rw [replayMessage_unpacks msgId hids] at hunpack
  obtain rfl := Option.some.inj hunpack
  rfl

set_option maxRecDepth 100000 in
/-- Two ways to miss: a message with id 0 is run twice, and a message whose
mark is taken back after the pump is not run. -/
theorem restart_replay_misses :
    (∃ file records log last, ReceiverFile file records [] ∧
      KeysMatch records ∧ ReceiverLog.construct file true = some log ∧
      ((replayProgram 4 replayUri).machine (.opened file log)).Meets
        (Program.OnSections fun s _ sec _ => hasRoom 4 s sec = true)
        pushedTwice ∧
      ((replayProgram 4 replayUri).machine (.opened file log)).run
        pushedTwice = some last ∧
      last.shared.ran.count ⟨7, 0⟩ = 2) ∧
    ∃ file records log middle last, ReceiverFile file records [] ∧
      KeysMatch records ∧ ReceiverLog.construct file true = some log ∧
      ((replayProgram 4 replayUri).machine (.opened file log)).Meets
        (Program.OnSections fun s _ sec _ => hasRoom 4 s sec = true)
        (refusedBeforeSpawn ++ .run 2 .go :: clearedAfterPump) ∧
      ((replayProgram 4 replayUri).machine (.opened file log)).run
        refusedBeforeSpawn = some middle ∧
      middle.shared.spawned = true ∧
      (∃ rest, middle.threads[2]? = some (.logged .pumpKeys :: rest)) ∧
      ((replayProgram 4 replayUri).machine (.opened file log)).run
        (refusedBeforeSpawn ++ .run 2 .go :: clearedAfterPump) = some last ∧
      ReplayState.Final last ∧
      Target (dataFrame records) replayUri ⟨7, 2⟩ (replayMessage 2) ∧
      ⟨7, 2⟩ ∉ last.shared.ran := by
  constructor
  · obtain ⟨hfile, hlog⟩ := receiverFile_records [replayRecord 0]
      (by decide)
    have hmeets : ((replayProgram 4 replayUri).machine
        (.opened (recordsFile [replayRecord 0]) (scannedLog
          [replayRecord 0]))).Meets (Program.OnSections fun s _ sec _ =>
            hasRoom 4 s sec = true) pushedTwice := by
      decide
    have hvalue : (((replayProgram 4 replayUri).machine
        (.opened (recordsFile [replayRecord 0]) (scannedLog
          [replayRecord 0]))).run pushedTwice).map (·.shared.ran.count ⟨7, 0⟩) =
        some 2 := by
      decide
    obtain ⟨last, hlast, hcount⟩ := Option.map_eq_some_iff.mp hvalue
    refine ⟨_, _, _, last, hfile, ?_, hlog, hmeets, hlast, hcount⟩
    intro record hrecord _
    rw [List.mem_singleton.mp hrecord]
    exact replayRecord_frameOf 0 (by simp)
  · obtain ⟨hfile, hlog⟩ := receiverFile_records
      [replayRecord 1, replayRecord 2] (by decide)
    have hmeets : ((replayProgram 4 replayUri).machine
        (.opened (recordsFile [replayRecord 1, replayRecord 2]) (scannedLog
          [replayRecord 1, replayRecord 2]))).Meets
        (Program.OnSections fun s _ sec _ => hasRoom 4 s sec = true)
        (refusedBeforeSpawn ++ .run 2 .go :: clearedAfterPump) := by
      decide
    have hbefore : (((replayProgram 4 replayUri).machine
        (.opened (recordsFile [replayRecord 1, replayRecord 2]) (scannedLog
          [replayRecord 1, replayRecord 2]))).run refusedBeforeSpawn).map
        (fun cfg => (cfg.shared.spawned, cfg.threads[2]?)) =
        some (true, some [.logged .pumpKeys, .logged .pumpHold]) := by
      decide
    have hafter : (((replayProgram 4 replayUri).machine
        (.opened (recordsFile [replayRecord 1, replayRecord 2]) (scannedLog
          [replayRecord 1, replayRecord 2]))).run
        (refusedBeforeSpawn ++ .run 2 .go :: clearedAfterPump)).map
        (fun cfg => (cfg.threads, cfg.shared.mailbox.isEmpty,
          cfg.shared.current.isNone, cfg.shared.ran)) =
        some ([[], [], []], true, true, [⟨7, 1⟩]) := by
      decide
    obtain ⟨middle, hmiddle, hpump⟩ := Option.map_eq_some_iff.mp hbefore
    obtain ⟨last, hlast, hfinal⟩ := Option.map_eq_some_iff.mp hafter
    simp only [Prod.mk.injEq, Option.isNone_iff_eq_none,
      List.isEmpty_iff] at hpump hfinal
    refine ⟨_, _, _, middle, last, hfile, ?_, hlog, hmeets, hmiddle, hpump.1,
      ⟨_, hpump.2⟩, hlast, ⟨?_, hfinal.2.1, hfinal.2.2.1⟩, ?_, ?_⟩
    · intro record hrecord _
      simp only [List.mem_cons, List.not_mem_nil, or_false] at hrecord
      rcases hrecord with rfl | rfl
      · exact replayRecord_frameOf 1 (by simp)
      · exact replayRecord_frameOf 2 (by simp)
    · simp [Config.pending, hfinal.1]
    · refine ⟨by decide, ⟨(replayRecord 2).body, by decide,
        replayMessage_unpacks 2 (by simp)⟩, rfl, rfl⟩
    · rw [hfinal.2.2.2]
      decide

open Move ReplaySection LoggedSection LoggedChoice in
/-- A message that was handled before the restart is run again; a pump comes
after everything else. -/
def replayThenPump : List (Move ReplaySection LoggedChoice) :=
  [call spawn] ++ replaySteps 0 4 ++
    [call ReplaySection.popEnvelope] ++ replaySteps 1 4 ++ [run 1 (ended .ok)] ++
    replaySteps 1 6 ++ [call (logged pumpHold)] ++ replaySteps 2 1

def handledRecords : List RecvRecord := [replayRecord 1, ⟨2, 7, 1, []⟩]

set_option maxRecDepth 100000 in
theorem replay_exactly_once_handled :
    ∃ last, ((replayProgram 4 replayUri).machine (.opened
        (recordsFile handledRecords) (scannedLog handledRecords))).run
          (replayThenPump ++ [.run 2 .go]) = some last ∧
      ReplayState.Final last ∧
      last.shared.runs.filter (fun run => run.1 = ⟨7, 1⟩) = [(⟨7, 1⟩, [9])] := by
  obtain ⟨hfile, hlog⟩ := receiverFile_records handledRecords
    (by decide)
  have hkeys : KeysMatch handledRecords := by
    intro record hrecord hdata
    simp only [handledRecords, List.mem_cons, List.not_mem_nil, or_false]
      at hrecord
    rcases hrecord with rfl | rfl
    · exact replayRecord_frameOf 1 (by simp)
    · cases hdata
  have hmeets : ((replayProgram 4 replayUri).machine (.opened
      (recordsFile handledRecords) (scannedLog handledRecords))).Meets
      (Program.OnSections fun s _ sec _ => hasRoom 4 s sec = true)
      (replayThenPump ++ [.run 2 .go]) := by
    decide
  have hbefore : (((replayProgram 4 replayUri).machine (.opened
      (recordsFile handledRecords) (scannedLog handledRecords))).run
      replayThenPump).map (fun cfg => (cfg.shared.spawned, cfg.threads)) =
      some (true, [[], [], [.logged .pumpKeys]]) := by
    decide
  have hafter : (((replayProgram 4 replayUri).machine (.opened
      (recordsFile handledRecords) (scannedLog handledRecords))).run
      (replayThenPump ++ [.run 2 .go])).map (fun cfg => (cfg.threads,
        cfg.shared.mailbox.isEmpty, cfg.shared.current.isNone)) =
      some ([[], [], []], true, true) := by
    decide
  obtain ⟨middle, hmiddle, hpump⟩ := Option.map_eq_some_iff.mp hbefore
  obtain ⟨last, hlast, hend⟩ := Option.map_eq_some_iff.mp hafter
  simp only [Prod.mk.injEq, Option.isNone_iff_eq_none, List.isEmpty_iff]
    at hpump hend
  have hfinal : ReplayState.Final last :=
    ⟨by simp [Config.pending, hend.1], hend.2.1, hend.2.2⟩
  have htarget : Target (dataFrame handledRecords) replayUri ⟨7, 1⟩
      (replayMessage 1) :=
    ⟨by decide, ⟨(replayRecord 1).body, by decide,
      replayMessage_unpacks 1 (by simp)⟩, rfl, rfl⟩
  have hpumps : PumpsAfterSpawn middle 2 ⟨7, 1⟩ :=
    ⟨hpump.1, ⟨[], by simp [hpump.2]⟩, by simp [Config.pending, hpump.2]⟩
  exact ⟨last, hlast, hfinal, (replay_exactly_once 4 replayUri _ handledRecords
    true _ hfile hkeys hlog).2 replayThenPump 2 .go [] middle last hmeets hmiddle
      hlast hfinal ⟨7, 1⟩ (replayMessage 1) htarget hpumps⟩

end UltraNet
