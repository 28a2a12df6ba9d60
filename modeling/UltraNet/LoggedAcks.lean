/-
Acknowledgements of logged messages.  `post_remote_ack` is reached from four
places; as long as no message is queued twice, each of them comes after a
handled record of the message was written and synced.
-/
import UltraNet.ReceiverTokens

namespace UltraNet

/-- The frames of a log carry the ids under which they are stored, as
`accept_logged_routed` stores them. -/
def FramesMatch (log : ReceiverLog) : Prop :=
  ∀ key entry, log.index.lookup key = some entry → FrameOf key entry.frame

/-- No message was run or queued since the log was read. -/
def Untouched (index : Table RecvKey RecvEntry) : Prop :=
  ∀ key entry, index.lookup key = some entry →
    entry.executed = false ∧ entry.enqueued = false

theorem Untouched.indexRecord {index : Table RecvKey RecvEntry}
    (hindex : Untouched index) (record : RecvRecord) :
    Untouched (indexRecord index record) := by
  unfold UltraNet.indexRecord
  split
  · split
    · intro key entry hlookup
      obtain ⟨-, rfl⟩ | ⟨-, hold⟩ := Table.of_lookup_insert hlookup
      · exact ⟨rfl, rfl⟩
      · exact hindex key entry hold
    · exact hindex
  · split
    · intro key entry hlookup
      rw [lookup_modify_map, Option.map_eq_some_iff] at hlookup
      obtain ⟨before, hbefore, rfl⟩ := hlookup
      split <;> exact hindex key before hbefore
    · exact hindex

theorem untouched_construct {bytes : List UInt8} {opened : Bool}
    {log : ReceiverLog} (hlog : ReceiverLog.construct bytes opened = some log) :
    Untouched log.index := by
  simp only [ReceiverLog.construct, scanExisting, Option.map_map,
    Option.map_eq_some_iff] at hlog
  obtain ⟨⟨frames, torn⟩, -, rfl⟩ := hlog
  suffices h : ∀ (records : List RecvRecord) index, Untouched index →
      Untouched (records.foldl indexRecord index) from
    h _ ∅ (by intro key entry hlookup; simp at hlookup)
  intro records
  induction records with
  | nil => exact fun index hindex => hindex
  | cons record records ih =>
      exact fun index hindex => ih _ (hindex.indexRecord record)

theorem tokenInv_opened (file : List UInt8) {log : ReceiverLog}
    (huntouched : Untouched log.index) (hframes : FramesMatch log) :
    TokenInv (.opened file log) 0 where
  nodup := by simp [tokens, LoggedState.opened]
  held := by simp [tokens, LoggedState.opened]
  progress := by simp [LoggedState.opened]
  completed := by simp [LoggedState.opened]
  log_ok :=
    { executed := by
        intro key entry hlookup hexecuted
        simp [(huntouched key entry hlookup).1] at hexecuted
      frames := hframes
      handled := by
        intro key entry hlookup hhandled
        have hmem := (Table.lookup_eq_some_iff _ _ _).mp hlookup
        exact List.mem_map.mpr
          ⟨⟨key, entry⟩, List.mem_filter.mpr ⟨hmem, hhandled⟩, rfl⟩ }
  ok := by simp
  acked := by simp [LoggedState.opened]

theorem TokenInv.call {s : LoggedState} {pending : Multiset LoggedSection}
    {sec : LoggedSection} (hinv : TokenInv s pending)
    (hentry : loggedEntry sec = true) : TokenInv s (sec ::ₘ pending) := by
  have htoken : sec.token = none := by
    cases sec <;> first | rfl | exact absurd hentry Bool.false_ne_true
  have hok : sec.Ok s.synced := by
    cases sec with
    | acceptExecuted frame key connId =>
        intro m hm
        rw [loggedEntry, hm, Option.any_some] at hentry
        exact of_decide_eq_true hentry
    | _ => first | exact trivial | exact absurd hentry Bool.false_ne_true
  have hmore : ∀ {f : LoggedSection → Option RecvKey} {key},
      (∃ other ∈ pending, f other = some key) →
        ∃ other ∈ sec ::ₘ pending, f other = some key := by
    rintro f key ⟨other, hmem, hother⟩
    exact ⟨other, Multiset.mem_cons_of_mem hmem, hother⟩
  exact
    { hinv with
      nodup := by rw [tokens_cons_none _ _ htoken]; exact hinv.nodup
      held := by rw [tokens_cons_none _ _ htoken]; exact hinv.held
      progress := fun key hkey => hmore (hinv.progress key hkey)
      completed := fun key hkey => (hinv.completed key hkey).imp_right hmore
      ok := Multiset.forall_mem_cons.mpr ⟨hok, hinv.ok⟩ }

/-- The run lemma: tokens stay straight from the opening of the log on. -/
theorem tokenInv_run {cap : Nat} {file : List UInt8} {opened : Bool}
    {log : ReceiverLog} (hlog : ReceiverLog.construct file opened = some log)
    (hframes : FramesMatch log) (word : List (Move LoggedSection LoggedChoice))
    {last : Config LoggedState LoggedSection}
    (hmeets : ((loggedProgram cap).machine (.opened file log)).Meets
      (Program.OnSections fun s _ sec _ => marksFree s sec = true) word)
    (hrun : ((loggedProgram cap).machine (.opened file log)).run word =
      some last) : TokenInv last.shared last.pending := by
  refine (loggedProgram cap).invariant
    (tokenInv_opened file (untouched_construct hlog) hframes) ?_ ?_ word hmeets
    hrun
  · intro s pending sec hinv hentry
    exact hinv.call hentry
  · intro s others sec choice effect hinv hfree heffect
    exact hinv.exec hfree heffect

/-- In every run in which `try_enqueue_receiver` marks only keys that are still
free, every acknowledged message has a synced handled record. -/
theorem logged_acks_synced (cap : Nat) (file : List UInt8) (opened : Bool)
    (log : ReceiverLog) (hlog : ReceiverLog.construct file opened = some log)
    (hframes : FramesMatch log) (word : List (Move LoggedSection LoggedChoice))
    (last : Config LoggedState LoggedSection)
    (hmeets : ((loggedProgram cap).machine (.opened file log)).Meets
      (Program.OnSections fun s _ sec _ => marksFree s sec = true) word)
    (hrun : ((loggedProgram cap).machine (.opened file log)).run word =
      some last) : ∀ key ∈ last.shared.acked, key ∈ last.shared.synced :=
  (tokenInv_run hlog hframes word hmeets hrun).acked

/-- A routed message of node 7 with id 1. -/
def sampleFrame : List UInt8 :=
  packRouted ⟨⟨[0x2A], [0x74], [0x6E]⟩, 0, 1, 7, 3, [9]⟩

def runs (thread count : Nat) : List (Move LoggedSection LoggedChoice) :=
  List.replicate count (.run thread .go)

open Move LoggedSection LoggedChoice in
/-- The frame comes in on connection 5 and its data record is flushed; thread 0
stops before it marks the key enqueued. -/
def acceptToMark : List (Move LoggedSection LoggedChoice) :=
  [call (acceptExecuted sampleFrame ⟨7, 1⟩ 5)] ++ runs 0 3 ++
    [run 0 aged, run 0 (wrote ⟨[], .ok⟩)] ++ runs 0 2 ++ runs 0 6

open Move LoggedSection LoggedChoice in
/-- One envelope is run to its end; the group of its handled record is not
due when `flush_ready` looks. -/
def dispatchOk (thread : Nat) : List (Move LoggedSection LoggedChoice) :=
  [call popEnvelope, run thread (pick 0)] ++ runs thread 3 ++
    [run thread (ended .ok)] ++ runs thread 9

open Move LoggedSection LoggedChoice in
/-- The message is queued, run, and flushed as handled. -/
def acceptOnce : List (Move LoggedSection LoggedChoice) :=
  acceptToMark ++ runs 0 3 ++ dispatchOk 1 ++
    [call flushTake, run 2 aged, run 2 (wrote ⟨[], .ok⟩)] ++ runs 2 3

/-- The log of an empty file. -/
def emptyLog : ReceiverLog := ⟨true, 0, ∅, [], false, 0, 0⟩

theorem construct_nil : ReceiverLog.construct [] true = some emptyLog :=
  rfl

theorem framesMatch_emptyLog : FramesMatch emptyLog := by
  intro key entry hlookup
  simp [emptyLog] at hlookup

set_option maxRecDepth 100000 in
theorem logged_acks_synced_acceptOnce :
    ((loggedProgram 4).machine (.opened [] emptyLog)).Meets
        (Program.OnSections fun s _ sec _ => marksFree s sec = true)
        acceptOnce ∧
      ∃ last, ((loggedProgram 4).machine (.opened [] emptyLog)).run acceptOnce =
          some last ∧
        last.shared.acked = [⟨7, 1⟩] ∧
        ∀ key ∈ last.shared.acked, key ∈ last.shared.synced := by
  have hmeets : ((loggedProgram 4).machine (.opened [] emptyLog)).Meets
      (Program.OnSections fun s _ sec _ => marksFree s sec = true)
      acceptOnce := by
    decide
  have hvalue : (((loggedProgram 4).machine (.opened [] emptyLog)).run
      acceptOnce).map (·.shared.acked) = some [⟨7, 1⟩] := by
    decide
  obtain ⟨last, hlast, hacked⟩ := Option.map_eq_some_iff.mp hvalue
  exact ⟨hmeets, last, hlast, hacked, logged_acks_synced 4 [] true emptyLog
    construct_nil framesMatch_emptyLog acceptOnce last hmeets hlast⟩

/-- A resend of the frame passes the check of `enqueued` before thread 0 sets
it; the message is queued twice, and the second envelope is acknowledged from
the dedup table while the handled record still waits for its flush. -/
def acceptTwice : List (Move LoggedSection LoggedChoice) :=
  acceptToMark ++ [.call (.acceptExecuted sampleFrame ⟨7, 1⟩ 6)] ++ runs 1 11 ++
    runs 0 3 ++ runs 1 3 ++ dispatchOk 2 ++
    [.call .popEnvelope, .run 3 (.pick 0)] ++ runs 3 4

set_option maxRecDepth 100000 in
theorem acceptTwice_acked_unsynced :
    ∃ log last, ReceiverLog.construct [] true = some log ∧ FramesMatch log ∧
      ((loggedProgram 4).machine (.opened [] log)).run acceptTwice =
        some last ∧
      ∃ key ∈ last.shared.acked, key ∉ last.shared.synced := by
  have hvalue : (((loggedProgram 4).machine (.opened [] emptyLog)).run
      acceptTwice).map (fun cfg => (cfg.shared.acked, cfg.shared.synced)) =
        some ([⟨7, 1⟩], []) := by
    decide
  obtain ⟨last, hlast, heq⟩ := Option.map_eq_some_iff.mp hvalue
  simp only [Prod.mk.injEq] at heq
  exact ⟨emptyLog, last, construct_nil, framesMatch_emptyLog, hlast, ⟨7, 1⟩,
    by simp [heq.1], by simp [heq.2]⟩

end UltraNet
