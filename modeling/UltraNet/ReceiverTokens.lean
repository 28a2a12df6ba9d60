/-
Who holds a logged message.  A key that was marked enqueued is held by exactly
one token: an envelope in a mailbox, or the section of a call that is about to
push it, to run it or to release it.  The invariant is shared by the results
about acknowledgements and about stranded messages.
-/
import UltraNet.LoggedReceiver

namespace UltraNet

/-- The stored frame, if it can be unpacked, carries the ids of its key. -/
def FrameOf (key : RecvKey) (frame : List UInt8) : Prop :=
  ∀ m, unpackRouted frame = some m → m.key = key

/-- The entry is in the hands of a token. -/
def RecvEntry.Held (entry : RecvEntry) : Prop :=
  entry.persisted = true ∧ entry.enqueued = true ∧ entry.executed = false

namespace LoggedSection

/-- The key that a section holds. -/
def token : LoggedSection → Option RecvKey
  | .enqueueReply key _ | .pushRoutedFrame key _ _ | .clearEnqueued key =>
      some key
  | .claimExecuted env | .claimHandled env _ | .claimDedup env _ _
  | .deliver env | .finishDedup env _ | .dropKey env | .markExecuted env =>
      some env.key
  | _ => none

/-- The key whose claim is under way in the dedup table. -/
def running : LoggedSection → Option RecvKey
  | .deliver env | .finishDedup env _ => some env.key
  | _ => none

/-- The key that is completed in the dedup table and not yet in the log. -/
def finishing : LoggedSection → Option RecvKey
  | .markExecuted env => some env.key
  | _ => none

/-- What a section carries from the reads before it. -/
def Ok (synced : List RecvKey) : LoggedSection → Prop
  | .acceptExecuted frame key _ | .acceptHasData frame key _
  | .acceptBufferData frame key _ | .enqueueSet key frame
  | .enqueueReply key frame | .pushRoutedFrame key frame _ =>
      FrameOf key frame
  | .claimHandled _ executed | .claimDedup _ executed _ => executed = false
  | .flushCommit batch =>
      ∀ record ∈ batch, record.type = 2 → record.key ∈ synced
  | .applyFlush result =>
      ∀ ack ∈ result.acks, (⟨ack.sender, ack.msgId⟩ : RecvKey) ∈ synced
  | .postRemoteAck key _ => key ∈ synced
  | _ => True

end LoggedSection

def tokens (mailbox : List Envelope) (pending : Multiset LoggedSection) :
    Multiset RecvKey :=
  (mailbox.map Envelope.key : Multiset RecvKey) +
    pending.filterMap LoggedSection.token

theorem mem_tokens (mailbox : List Envelope) (pending : Multiset LoggedSection)
    (key : RecvKey) :
    key ∈ tokens mailbox pending ↔
      (∃ env ∈ mailbox, env.key = key) ∨
        ∃ sec ∈ pending, sec.token = some key := by
  simp [tokens]

theorem tokens_cons_none (mailbox : List Envelope)
    (pending : Multiset LoggedSection) {sec : LoggedSection}
    (hsec : sec.token = none) :
    tokens mailbox (sec ::ₘ pending) = tokens mailbox pending := by
  rw [tokens, Multiset.filterMap_cons_none _ _ hsec, tokens]

theorem tokens_cons_some (mailbox : List Envelope)
    (pending : Multiset LoggedSection) {sec : LoggedSection} {key : RecvKey}
    (hsec : sec.token = some key) :
    tokens mailbox (sec ::ₘ pending) = key ::ₘ tokens mailbox pending := by
  rw [tokens, Multiset.filterMap_cons_some _ _ _ hsec, tokens,
    Multiset.add_cons]

theorem tokens_add_none (mailbox : List Envelope)
    (work others : Multiset LoggedSection)
    (hwork : ∀ sec ∈ work, sec.token = none) :
    tokens mailbox (work + others) = tokens mailbox others := by
  induction work using Multiset.induction with
  | empty => simp
  | cons sec work ih =>
      rw [Multiset.cons_add, tokens_cons_none _ _ (hwork sec (by simp))]
      exact ih fun other hother => hwork other (by simp [hother])

theorem tokens_append (mailbox : List Envelope) (env : Envelope)
    (pending : Multiset LoggedSection) :
    tokens (mailbox ++ [env]) pending = env.key ::ₘ tokens mailbox pending := by
  simp only [tokens, List.map_append, List.map_cons, List.map_nil,
    ← Multiset.coe_add, Multiset.coe_singleton]
  rw [add_right_comm, add_comm, Multiset.singleton_add]

theorem tokens_eraseIdx {mailbox : List Envelope} {position : Nat}
    {env : Envelope} (henv : mailbox[position]? = some env)
    (pending : Multiset LoggedSection) :
    tokens mailbox pending =
      env.key ::ₘ tokens (mailbox.eraseIdx position) pending := by
  have hperm : (mailbox : Multiset Envelope) =
      env ::ₘ (mailbox.eraseIdx position : Multiset Envelope) := by
    obtain ⟨hlength, rfl⟩ := List.getElem?_eq_some_iff.mp henv
    rw [Multiset.cons_coe, Multiset.coe_eq_coe]
    exact (List.getElem_cons_eraseIdx_perm hlength).symm
  simp only [tokens, ← Multiset.map_coe, hperm, Multiset.map_cons,
    Multiset.cons_add]

/-- What the log keeps true by itself. -/
structure LogOk (log : ReceiverLog) (synced : List RecvKey) : Prop where
  executed : ∀ key entry, log.index.lookup key = some entry →
    entry.executed = true → entry.persisted = true
  frames : ∀ key entry, log.index.lookup key = some entry →
    FrameOf key entry.frame
  handled : ∀ key entry, log.index.lookup key = some entry →
    entry.handled = true → key ∈ synced

structure TokenInv (s : LoggedState) (pending : Multiset LoggedSection) :
    Prop where
  nodup : (tokens s.mailbox pending).Nodup
  held : ∀ key ∈ tokens s.mailbox pending,
    ∃ entry, s.log.index.lookup key = some entry ∧ entry.Held
  progress : ∀ key, s.dedup.lookup key = some .inProgress →
    ∃ sec ∈ pending, sec.running = some key
  completed : ∀ key, s.dedup.lookup key = some .completed →
    (∃ entry, s.log.index.lookup key = some entry ∧ entry.executed = true) ∨
      ∃ sec ∈ pending, sec.finishing = some key
  log_ok : LogOk s.log s.synced
  ok : ∀ sec ∈ pending, sec.Ok s.synced
  acked : ∀ key ∈ s.acked, key ∈ s.synced

namespace LoggedSection

theorem token_of_running {sec : LoggedSection} {key : RecvKey}
    (hsec : sec.running = some key) : sec.token = some key := by
  cases sec <;> simp_all [running, token]

theorem token_of_finishing {sec : LoggedSection} {key : RecvKey}
    (hsec : sec.finishing = some key) : sec.token = some key := by
  cases sec <;> simp_all [finishing, token]

theorem running_eq_none {sec : LoggedSection} (hsec : sec.token = none) :
    sec.running = none := by
  cases hrunning : sec.running with
  | none => rfl
  | some key => rw [token_of_running hrunning] at hsec; cases hsec

theorem finishing_eq_none {sec : LoggedSection} (hsec : sec.token = none) :
    sec.finishing = none := by
  cases hfinishing : sec.finishing with
  | none => rfl
  | some key => rw [token_of_finishing hfinishing] at hsec; cases hsec

theorem Ok.mono {sec : LoggedSection} {synced more : List RecvKey}
    (hok : sec.Ok synced) : sec.Ok (synced ++ more) := by
  cases sec <;> simp_all [Ok]

end LoggedSection

namespace TokenInv

variable {s : LoggedState} {others : Multiset LoggedSection}
  {sec : LoggedSection}

/-- A section without a token gives way to sections without a token. -/
theorem quiet (hinv : TokenInv s (sec ::ₘ others))
    (work : Multiset LoggedSection) (hsec : sec.token = none)
    (hwork : ∀ next ∈ work, next.token = none)
    (hok : ∀ next ∈ work, next.Ok s.synced) : TokenInv s (work + others) := by
  have htokens : tokens s.mailbox (work + others) =
      tokens s.mailbox (sec ::ₘ others) := by
    rw [tokens_add_none _ _ _ hwork, tokens_cons_none _ _ hsec]
  have hrunning := LoggedSection.running_eq_none hsec
  have hfinishing := LoggedSection.finishing_eq_none hsec
  refine
    { hinv with
      nodup := htokens ▸ hinv.nodup
      held := htokens ▸ hinv.held
      progress := fun key hkey =>
        exists_mem_work (by simp [hrunning]) (hinv.progress key hkey)
      completed := fun key hkey =>
        (hinv.completed key hkey).imp_right (exists_mem_work (by simp [hfinishing]))
      ok := ?_ }
  intro other hmem
  obtain hnew | hold := Multiset.mem_add.mp hmem
  · exact hok other hnew
  · exact hinv.ok other (Multiset.mem_cons_of_mem hold)

/-- The holder of a token moves on in its call. -/
theorem moved (hinv : TokenInv s (sec ::ₘ others)) (next : LoggedSection)
    (htoken : next.token = sec.token) (hrunning : next.running = sec.running)
    (hfinishing : next.finishing = sec.finishing) (hok : next.Ok s.synced) :
    TokenInv s (next ::ₘ others) := by
  have htokens : tokens s.mailbox (next ::ₘ others) =
      tokens s.mailbox (sec ::ₘ others) := by
    cases hsec : sec.token with
    | none =>
        rw [tokens_cons_none _ _ hsec, tokens_cons_none _ _ (htoken.trans hsec)]
    | some key =>
        rw [tokens_cons_some _ _ hsec, tokens_cons_some _ _ (htoken.trans hsec)]
  exact
    { hinv with
      nodup := htokens ▸ hinv.nodup
      held := htokens ▸ hinv.held
      progress := fun key hkey =>
        exists_mem_replace hrunning.trans (hinv.progress key hkey)
      completed := fun key hkey =>
        (hinv.completed key hkey).imp_right (exists_mem_replace hfinishing.trans)
      ok := Multiset.forall_mem_cons.mpr
        ⟨hok, (Multiset.forall_mem_cons.mp hinv.ok).2⟩ }

end TokenInv

/-- A change of the log that takes nothing from a token and forgets no
execution. -/
structure LogKeeps (log next : ReceiverLog) : Prop where
  held : ∀ key entry, log.index.lookup key = some entry → entry.Held →
    ∃ after, next.index.lookup key = some after ∧ after.Held
  executed : ∀ key entry, log.index.lookup key = some entry →
    entry.executed = true →
    ∃ after, next.index.lookup key = some after ∧ after.executed = true

theorem LogKeeps.refl (log : ReceiverLog) : LogKeeps log log :=
  ⟨fun _ entry hlookup hheld => ⟨entry, hlookup, hheld⟩,
    fun _ entry hlookup hexecuted => ⟨entry, hlookup, hexecuted⟩⟩

theorem LogKeeps.trans {first second third : ReceiverLog}
    (hfirst : LogKeeps first second) (hsecond : LogKeeps second third) :
    LogKeeps first third := by
  refine ⟨fun key entry hlookup hheld => ?_,
    fun key entry hlookup hexecuted => ?_⟩
  · obtain ⟨after, hafter, hkept⟩ := hfirst.held key entry hlookup hheld
    exact hsecond.held key after hafter hkept
  · obtain ⟨after, hafter, hkept⟩ := hfirst.executed key entry hlookup hexecuted
    exact hsecond.executed key after hafter hkept

theorem TokenInv.relog {s : LoggedState} {pending : Multiset LoggedSection}
    {log : ReceiverLog} (hinv : TokenInv s pending)
    (hkeeps : LogKeeps s.log log) (hok : LogOk log s.synced) :
    TokenInv { s with log := log } pending := by
  refine { hinv with held := ?_, completed := ?_, log_ok := hok }
  · intro key hkey
    obtain ⟨entry, hlookup, hheld⟩ := hinv.held key hkey
    exact hkeeps.held key entry hlookup hheld
  · intro key hkey
    rcases hinv.completed key hkey with ⟨entry, hlookup, hexecuted⟩ | hsec
    · exact Or.inl (hkeeps.executed key entry hlookup hexecuted)
    · exact Or.inr hsec

/-- Changes that act on each entry by itself. -/
theorem LogKeeps.of_map {log next : ReceiverLog}
    {f : RecvKey → RecvEntry → RecvEntry}
    (hmap : ∀ key, next.index.lookup key = (log.index.lookup key).map (f key))
    (hheld : ∀ key entry, entry.Held → (f key entry).Held)
    (hexecuted : ∀ key entry, entry.executed = true →
      (f key entry).executed = true) : LogKeeps log next := by
  constructor
  · intro key entry hlookup hentry
    exact ⟨f key entry, by simp [hmap, hlookup], hheld key entry hentry⟩
  · intro key entry hlookup hentry
    exact ⟨f key entry, by simp [hmap, hlookup], hexecuted key entry hentry⟩

theorem LogOk.of_map {log next : ReceiverLog} {synced : List RecvKey}
    {f : RecvKey → RecvEntry → RecvEntry} (hok : LogOk log synced)
    (hmap : ∀ key, next.index.lookup key = (log.index.lookup key).map (f key))
    (hframe : ∀ key entry, (f key entry).frame = entry.frame)
    (hexecuted : ∀ key entry, (f key entry).executed = entry.executed)
    (hpersisted : ∀ key entry, entry.persisted = true →
      (f key entry).persisted = true)
    (hhandled : ∀ key entry, (f key entry).handled = true →
      entry.handled = true ∨ key ∈ synced) : LogOk next synced := by
  constructor
  · intro key after hlookup hafter
    rw [hmap, Option.map_eq_some_iff] at hlookup
    obtain ⟨entry, hentry, rfl⟩ := hlookup
    rw [hexecuted] at hafter
    exact hpersisted key entry (hok.executed key entry hentry hafter)
  · intro key after hlookup
    rw [hmap, Option.map_eq_some_iff] at hlookup
    obtain ⟨entry, hentry, rfl⟩ := hlookup
    rw [hframe]
    exact hok.frames key entry hentry
  · intro key after hlookup hafter
    rw [hmap, Option.map_eq_some_iff] at hlookup
    obtain ⟨entry, hentry, rfl⟩ := hlookup
    rcases hhandled key entry hafter with hold | hnew
    · exact hok.handled key entry hentry hold
    · exact hnew

/-- The change of one entry. -/
theorem LogKeeps.of_modify {log next : ReceiverLog} {key : RecvKey}
    {f : RecvEntry → RecvEntry}
    (hmap : ∀ other, next.index.lookup other = (log.index.lookup other).map
      fun entry => if other = key then f entry else entry)
    (hheld : ∀ entry, entry.Held → (f entry).Held)
    (hexecuted : ∀ entry, entry.executed = true → (f entry).executed = true) :
    LogKeeps log next := by
  refine .of_map hmap (fun other entry hentry => ?_) fun other entry hentry => ?_
  · split
    · exact hheld entry hentry
    · exact hentry
  · split
    · exact hexecuted entry hentry
    · exact hentry

theorem LogOk.of_modify {log next : ReceiverLog} {synced : List RecvKey}
    {key : RecvKey} {f : RecvEntry → RecvEntry} (hok : LogOk log synced)
    (hmap : ∀ other, next.index.lookup other = (log.index.lookup other).map
      fun entry => if other = key then f entry else entry)
    (hframe : ∀ entry, (f entry).frame = entry.frame)
    (hexecuted : ∀ entry, (f entry).executed = entry.executed)
    (hpersisted : ∀ entry, entry.persisted = true → (f entry).persisted = true)
    (hhandled : ∀ entry, (f entry).handled = true →
      entry.handled = true ∨ key ∈ synced) : LogOk next synced := by
  refine hok.of_map hmap (fun other entry => ?_) (fun other entry => ?_)
    (fun other entry hentry => ?_) fun other entry hentry => ?_
  · split
    · exact hframe entry
    · rfl
  · split
    · exact hexecuted entry
    · rfl
  · split
    · exact hpersisted entry hentry
    · exact hentry
  · split at hentry
    · rename_i heq
      exact heq ▸ hhandled entry hentry
    · exact Or.inl hentry

namespace ReceiverLog

variable {log : ReceiverLog} {synced : List RecvKey}

theorem bufferHandled_lookup (log : ReceiverLog) (key : RecvKey)
    (conn : UInt64) (other : RecvKey) :
    (log.bufferHandled key conn).index.lookup other =
      (log.index.lookup other).map fun entry =>
        if other = key then { entry with replyConnId := conn } else entry := by
  unfold bufferHandled
  cases hlookup : log.index.lookup key with
  | none =>
      by_cases hkey : other = key
      · subst hkey
        simp [hlookup]
      · simp [hkey]
  | some entry =>
      have hmodify := Table.lookup_modify log.index key other
        fun entry => { entry with replyConnId := conn }
      dsimp only
      split
      · rw [hmodify]
        split <;> simp_all
      · split
        · rw [hmodify]
          split <;> simp_all
        · rw [hmodify]
          split <;> simp_all

theorem bufferHandled_keeps (log : ReceiverLog) (key : RecvKey)
    (conn : UInt64) : LogKeeps log (log.bufferHandled key conn) :=
  .of_modify (bufferHandled_lookup log key conn) (fun _ hheld => hheld)
    fun _ hexecuted => hexecuted

theorem bufferHandled_ok (hok : LogOk log synced) (key : RecvKey)
    (conn : UInt64) : LogOk (log.bufferHandled key conn) synced :=
  hok.of_modify (bufferHandled_lookup log key conn) (fun _ => rfl) (fun _ => rfl)
    (fun _ hpersisted => hpersisted) fun _ hhandled => Or.inl hhandled

theorem bufferData_keeps (log : ReceiverLog) (key : RecvKey)
    (frame : List UInt8) (conn : UInt64) :
    LogKeeps log (log.bufferData key frame conn).1 := by
  unfold bufferData
  cases hlookup : log.index.lookup key with
  | some entry => exact LogKeeps.refl log
  | none =>
      have hkept : ∀ {other entry}, log.index.lookup other = some entry →
          other ≠ key := by
        rintro other entry hentry rfl
        rw [hlookup] at hentry
        cases hentry
      constructor
      · intro other entry hentry hheld
        refine ⟨entry, ?_, hheld⟩
        rw [Table.lookup_insert, if_neg (hkept hentry), hentry]
      · intro other entry hentry hexecuted
        refine ⟨entry, ?_, hexecuted⟩
        rw [Table.lookup_insert, if_neg (hkept hentry), hentry]

theorem bufferData_ok (hok : LogOk log synced) {key : RecvKey}
    {frame : List UInt8} (hframe : FrameOf key frame) (conn : UInt64) :
    LogOk (log.bufferData key frame conn).1 synced := by
  obtain ⟨hexecuted, hframes, hhandled⟩ := hok
  unfold bufferData
  cases hlookup : log.index.lookup key with
  | some entry => exact ⟨hexecuted, hframes, hhandled⟩
  | none =>
      constructor
      · intro other entry hentry hdone
        obtain ⟨-, rfl⟩ | ⟨-, hold⟩ := Table.of_lookup_insert hentry
        · cases hdone
        · exact hexecuted other entry hold hdone
      · intro other entry hentry
        obtain ⟨hkey, rfl⟩ | ⟨-, hold⟩ := Table.of_lookup_insert hentry
        · exact hkey ▸ hframe
        · exact hframes other entry hold
      · intro other entry hentry hdone
        obtain ⟨-, rfl⟩ | ⟨-, hold⟩ := Table.of_lookup_insert hentry
        · cases hdone
        · exact hhandled other entry hold hdone

theorem commitRecord_lookup (state : ReceiverLog × FlushResult)
    (record : PendingRec) (key : RecvKey) :
    (commitRecord state record).1.index.lookup key =
      (state.1.index.lookup key).map fun entry =>
        if key = record.key then
          if record.type = 1 then { entry with persisted := true }
          else if record.type = 2 then { entry with handled := true }
          else entry
        else entry := by
  obtain ⟨log, result⟩ := state
  dsimp only [commitRecord]
  split
  · rename_i htype
    rw [Table.lookup_modify]
    split <;> simp_all
  · split
    · rename_i htype
      rw [Table.lookup_modify]
      split <;> simp_all
    · split <;> simp

/-- One record of a batch whose handled records are synced. -/
theorem commitRecord_spec {state : ReceiverLog × FlushResult}
    {record : PendingRec} (hok : LogOk state.1 synced)
    (hacks : ∀ ack ∈ state.2.acks, (⟨ack.sender, ack.msgId⟩ : RecvKey) ∈ synced)
    (hrecord : record.type = 2 → record.key ∈ synced) :
    LogKeeps state.1 (commitRecord state record).1 ∧
      LogOk (commitRecord state record).1 synced ∧
      ∀ ack ∈ (commitRecord state record).2.acks,
        (⟨ack.sender, ack.msgId⟩ : RecvKey) ∈ synced := by
  refine ⟨?_, ?_, ?_⟩
  · refine .of_modify (commitRecord_lookup state record) (fun entry hheld => ?_)
      fun entry hexecuted => ?_
    · split
      · exact ⟨rfl, hheld.2⟩
      · split <;> exact hheld
    · split
      · exact hexecuted
      · split <;> exact hexecuted
  · refine hok.of_modify (commitRecord_lookup state record) (fun entry => ?_)
      (fun entry => ?_) (fun entry hpersisted => ?_) fun entry hhandled => ?_
    · split
      · rfl
      · split <;> rfl
    · split
      · rfl
      · split <;> rfl
    · split
      · rfl
      · split <;> exact hpersisted
    · split at hhandled
      · exact Or.inl hhandled
      · split at hhandled
        · exact Or.inr (hrecord (by assumption))
        · exact Or.inl hhandled
  · obtain ⟨log, result⟩ := state
    dsimp only [commitRecord]
    split
    · split
      · exact hacks
      · split <;> exact hacks
    · split
      · rename_i htype
        intro ack hack
        rcases List.mem_append.mp hack with hold | hnew
        · exact hacks ack hold
        · rw [List.mem_singleton] at hnew
          subst hnew
          exact hrecord htype
      · exact hacks

theorem foldl_commitRecord_spec (batch : List PendingRec)
    (state : ReceiverLog × FlushResult) (hok : LogOk state.1 synced)
    (hacks : ∀ ack ∈ state.2.acks, (⟨ack.sender, ack.msgId⟩ : RecvKey) ∈ synced)
    (hbatch : ∀ record ∈ batch, record.type = 2 → record.key ∈ synced) :
    LogKeeps state.1 (batch.foldl commitRecord state).1 ∧
      LogOk (batch.foldl commitRecord state).1 synced ∧
      ∀ ack ∈ (batch.foldl commitRecord state).2.acks,
        (⟨ack.sender, ack.msgId⟩ : RecvKey) ∈ synced := by
  induction batch generalizing state with
  | nil => exact ⟨LogKeeps.refl _, hok, hacks⟩
  | cons record batch ih =>
      obtain ⟨hkeeps, hnext, hmore⟩ := commitRecord_spec hok hacks
        (hbatch record (List.mem_cons_self ..))
      obtain ⟨hrest, hlast, hall⟩ := ih _ hnext hmore fun other hother =>
        hbatch other (List.mem_cons_of_mem _ hother)
      exact ⟨hkeeps.trans hrest, hlast, hall⟩

theorem rollbackRecord_spec (hok : LogOk log synced) (record : PendingRec) :
    LogKeeps log (log.rollbackRecord record) ∧
      LogOk (log.rollbackRecord record) synced := by
  obtain ⟨hexecuted, hframes, hhandled⟩ := hok
  unfold rollbackRecord
  split
  · split
    · exact ⟨LogKeeps.refl log, hexecuted, hframes, hhandled⟩
    · split
      · exact ⟨LogKeeps.refl log, hexecuted, hframes, hhandled⟩
      · rename_i entry hlookup hwritten
        -- the entry was never written, so it is neither held nor executed
        have hkept : ∀ {other found}, log.index.lookup other = some found →
            found.persisted = true →
            (log.index.erase record.key).lookup other = some found := by
          intro other found hfound hpersisted
          have hkey : other ≠ record.key := by
            rintro rfl
            obtain rfl := Option.some.inj (hlookup.symm.trans hfound)
            exact hwritten hpersisted
          rw [Table.lookup_erase, if_neg hkey, hfound]
        have hold : ∀ {other found},
            (log.index.erase record.key).lookup other = some found →
              log.index.lookup other = some found :=
          fun hfound => (Table.of_lookup_erase hfound).2
        refine ⟨⟨fun other found hfound hheld => ?_,
          fun other found hfound hdone => ?_⟩, ⟨?_, ?_, ?_⟩⟩
        · exact ⟨found, hkept hfound hheld.1, hheld⟩
        · exact ⟨found, hkept hfound (hexecuted other found hfound hdone), hdone⟩
        · exact fun other found hfound => hexecuted other found (hold hfound)
        · exact fun other found hfound => hframes other found (hold hfound)
        · exact fun other found hfound => hhandled other found (hold hfound)
  · exact ⟨LogKeeps.refl log, hexecuted, hframes, hhandled⟩

theorem rollback_spec (hok : LogOk log synced) (batch : List PendingRec) :
    LogKeeps log (log.rollback batch) ∧ LogOk (log.rollback batch) synced := by
  unfold rollback
  induction batch generalizing log with
  | nil => exact ⟨LogKeeps.refl log, hok⟩
  | cons record batch ih =>
      obtain ⟨hkeeps, hnext⟩ := rollbackRecord_spec hok record
      obtain ⟨hrest, hlast⟩ := ih hnext
      exact ⟨hkeeps.trans hrest, hlast⟩

end ReceiverLog

theorem lookup_modify_map (index : Table RecvKey RecvEntry) (key : RecvKey)
    (f : RecvEntry → RecvEntry) (other : RecvKey) :
    (index.modify key f).lookup other =
      (index.lookup other).map fun entry =>
        if other = key then f entry else entry := by
  rw [Table.lookup_modify]
  split <;> simp

namespace ReceiverLog

variable {log : ReceiverLog} {synced : List RecvKey}

theorem takeBatch_index {aged : Bool} {batch : List PendingRec}
    {next : ReceiverLog} (htaken : log.takeBatch aged = some (batch, next)) :
    next.index = log.index := by
  unfold takeBatch at htaken
  split at htaken
  · cases htaken
  · split at htaken
    · cases htaken
    · obtain ⟨-, rfl⟩ := Prod.mk.inj (Option.some.inj htaken)
      rfl

theorem setEnqueued_ok (hok : LogOk log synced) (key : RecvKey) (value : Bool) :
    LogOk (log.setEnqueued key value) synced :=
  hok.of_modify (lookup_modify_map _ _ _) (fun _ => rfl) (fun _ => rfl)
    (fun _ hpersisted => hpersisted) fun _ hhandled => Or.inl hhandled

theorem setEnqueued_executed {key other : RecvKey} {value : Bool}
    (hdone : ∃ entry, log.index.lookup other = some entry ∧
      entry.executed = true) :
    ∃ entry, (log.setEnqueued key value).index.lookup other = some entry ∧
      entry.executed = true := by
  obtain ⟨entry, hlookup, hexecuted⟩ := hdone
  rw [setEnqueued, lookup_modify_map, hlookup]
  refine ⟨_, rfl, ?_⟩
  split <;> exact hexecuted

end ReceiverLog

namespace TokenInv

variable {s : LoggedState} {others : Multiset LoggedSection} {key : RecvKey}
  {env : Envelope}

/-- A section that holds a key and ends gives the key up. -/
theorem not_mem_others {sec : LoggedSection}
    (hinv : TokenInv s (sec ::ₘ others)) (hsec : sec.token = some key) :
    key ∉ tokens s.mailbox others ∧ (tokens s.mailbox others).Nodup := by
  have hnodup := hinv.nodup
  rw [tokens_cons_some _ _ hsec, Multiset.nodup_cons] at hnodup
  exact hnodup

theorem held_self {sec : LoggedSection} (hinv : TokenInv s (sec ::ₘ others))
    (hsec : sec.token = some key) :
    ∃ entry, s.log.index.lookup key = some entry ∧ entry.Held := by
  apply hinv.held
  rw [tokens_cons_some _ _ hsec]
  exact Multiset.mem_cons_self _ _

theorem ok_others {sec : LoggedSection} (hinv : TokenInv s (sec ::ₘ others)) :
    ∀ other ∈ others, other.Ok s.synced := fun other hother =>
  hinv.ok other (Multiset.mem_cons_of_mem hother)

theorem set_enqueued {frame : List UInt8} {entry : RecvEntry}
    (hinv : TokenInv s (.enqueueSet key frame ::ₘ others))
    (hlookup : s.log.index.lookup key = some entry)
    (hpersisted : entry.persisted = true) (hexecuted : entry.executed = false)
    (hfree : entry.enqueued = false) :
    TokenInv { s with log := s.log.setEnqueued key true }
      (.enqueueReply key frame ::ₘ others) := by
  have hsame : tokens s.mailbox (.enqueueSet key frame ::ₘ others) =
      tokens s.mailbox others := tokens_cons_none _ _ rfl
  have hheld := hinv.held
  have hnodup := hinv.nodup
  rw [hsame] at hheld hnodup
  have hnew : key ∉ tokens s.mailbox others := by
    intro hmem
    obtain ⟨other, hother, hholds⟩ := hheld key hmem
    simp only [hlookup, Option.some.injEq] at hother
    simp [← hother, RecvEntry.Held, hfree] at hholds
  have hmap := lookup_modify_map s.log.index key
    fun entry => { entry with enqueued := true }
  have hframe : FrameOf key frame := hinv.ok _ (Multiset.mem_cons_self _ _)
  constructor
  case nodup =>
    rw [tokens_cons_some _ _ rfl]
    exact Multiset.nodup_cons.mpr ⟨hnew, hnodup⟩
  case held =>
    intro other hother
    rw [tokens_cons_some _ _ rfl, Multiset.mem_cons] at hother
    simp only [ReceiverLog.setEnqueued, hmap]
    by_cases hkey : other = key
    · subst hkey
      exact ⟨{ entry with enqueued := true }, by simp [hlookup], hpersisted,
        rfl, hexecuted⟩
    · obtain ⟨found, hfound, hholds⟩ := hheld other (by simpa [hkey] using hother)
      exact ⟨found, by simp [hfound, hkey], hholds⟩
  case progress =>
    exact fun other hother =>
      exists_mem_replace (by simp [LoggedSection.running]) (hinv.progress other hother)
  case completed =>
    exact fun other hother => (hinv.completed other hother).imp
      ReceiverLog.setEnqueued_executed
      (exists_mem_replace (by simp [LoggedSection.finishing]))
  case log_ok => exact ReceiverLog.setEnqueued_ok hinv.log_ok key true
  case ok =>
    intro sec hsec
    rcases Multiset.mem_cons.mp hsec with rfl | hold
    · exact hframe
    · exact hinv.ok_others sec hold
  case acked => exact hinv.acked

/-- The key is released: the entry is waiting again. -/
theorem clear_enqueued
    (hinv : TokenInv s (.clearEnqueued key ::ₘ others)) :
    TokenInv { s with log := s.log.setEnqueued key false } others := by
  obtain ⟨hgone, hnodup⟩ := hinv.not_mem_others rfl
  have hmap := lookup_modify_map s.log.index key
    fun entry => { entry with enqueued := false }
  have hheld := hinv.held
  rw [tokens_cons_some _ _ rfl] at hheld
  constructor
  case nodup => exact hnodup
  case held =>
    intro other hother
    obtain ⟨found, hfound, hholds⟩ :=
      hheld other (Multiset.mem_cons_of_mem hother)
    have hkey : other ≠ key := fun h => hgone (h ▸ hother)
    exact ⟨found, by simp [ReceiverLog.setEnqueued, hmap, hfound, hkey], hholds⟩
  case progress =>
    exact fun other hother =>
      exists_mem_end (by simp [LoggedSection.running]) (hinv.progress other hother)
  case completed =>
    exact fun other hother => (hinv.completed other hother).imp
      ReceiverLog.setEnqueued_executed
      (exists_mem_end (by simp [LoggedSection.finishing]))
  case log_ok => exact ReceiverLog.setEnqueued_ok hinv.log_ok key false
  case ok => exact hinv.ok_others
  case acked => exact hinv.acked

/-- The envelope is in the mailbox: it holds the key now. -/
theorem pushed {frame : List UInt8} {conn : UInt64} {m : Routed}
    (hinv : TokenInv s (.pushRoutedFrame key frame conn ::ₘ others))
    (hframe : unpackRouted frame = some m) :
    TokenInv
      { s with mailbox := s.mailbox ++ [⟨m.msgId, m.senderNodeId, conn⟩] }
      others := by
  have hkey : Envelope.key ⟨m.msgId, m.senderNodeId, conn⟩ = key :=
    hinv.ok _ (Multiset.mem_cons_self _ _) m hframe
  have htokens : tokens (s.mailbox ++ [⟨m.msgId, m.senderNodeId, conn⟩]) others =
      tokens s.mailbox (.pushRoutedFrame key frame conn ::ₘ others) := by
    rw [tokens_append, hkey, tokens_cons_some _ _ rfl]
  refine
    { hinv with
      nodup := htokens ▸ hinv.nodup
      held := htokens ▸ hinv.held
      progress := fun other hother =>
        exists_mem_end (by simp [LoggedSection.running]) (hinv.progress other hother)
      completed := fun other hother => (hinv.completed other hother).imp_right
        (exists_mem_end (by simp [LoggedSection.finishing]))
      ok := hinv.ok_others }

/-- The envelope is taken out of the mailbox: the claim holds the key. -/
theorem popped {position : Nat} (hinv : TokenInv s (.popEnvelope ::ₘ others))
    (henv : s.mailbox[position]? = some env) :
    TokenInv { s with mailbox := s.mailbox.eraseIdx position }
      (.claimExecuted env ::ₘ others) := by
  have htokens : tokens (s.mailbox.eraseIdx position)
      (.claimExecuted env ::ₘ others) =
        tokens s.mailbox (.popEnvelope ::ₘ others) := by
    rw [tokens_cons_some _ _ rfl, tokens_cons_none _ _ rfl,
      tokens_eraseIdx henv]
  refine
    { hinv with
      nodup := htokens ▸ hinv.nodup
      held := htokens ▸ hinv.held
      progress := fun other hother =>
        exists_mem_replace (by simp [LoggedSection.running])
          (hinv.progress other hother)
      completed := fun other hother => (hinv.completed other hother).imp_right
        (exists_mem_replace (by simp [LoggedSection.finishing]))
      ok := Multiset.forall_mem_cons.mpr ⟨trivial, hinv.ok_others⟩ }

/-- A claim that is given up drops its key from the tokens. -/
theorem dropped {sec : LoggedSection} (hinv : TokenInv s (sec ::ₘ others))
    (next : LoggedSection) (hsec : sec.token = some key)
    (hrunning : sec.running = none)
    (hfinishing : sec.finishing = none) (hnext : next.token = none)
    (hok : next.Ok s.synced) : TokenInv s (next ::ₘ others) := by
  obtain ⟨-, hnodup⟩ := hinv.not_mem_others hsec
  have hheld := hinv.held
  rw [tokens_cons_some _ _ hsec] at hheld
  have htokens := tokens_cons_none s.mailbox others hnext
  refine
    { hinv with
      nodup := htokens ▸ hnodup
      held := fun other hother =>
        hheld other (Multiset.mem_cons_of_mem (htokens ▸ hother))
      progress := fun other hother =>
        exists_mem_replace (by simp [hrunning]) (hinv.progress other hother)
      completed := fun other hother => (hinv.completed other hother).imp_right
        (exists_mem_replace (by simp [hfinishing]))
      ok := Multiset.forall_mem_cons.mpr ⟨hok, hinv.ok_others⟩ }

/-- No other call works on the key that a claim is about to take. -/
theorem claim_absent {executed handled : Bool}
    (hinv : TokenInv s (.claimDedup env executed handled ::ₘ others)) :
    s.dedup.lookup env.key = none := by
  obtain ⟨hgone, -⟩ := hinv.not_mem_others rfl
  obtain ⟨entry, hlookup, hheld⟩ := hinv.held_self rfl
  have htoken : ∀ sec ∈ others, sec.token ≠ some env.key := by
    intro sec hsec htoken
    exact hgone ((mem_tokens _ _ _).mpr (Or.inr ⟨sec, hsec, htoken⟩))
  cases hstate : s.dedup.lookup env.key with
  | none => rfl
  | some state =>
      cases state with
      | inProgress =>
          obtain ⟨sec, hsec, hrunning⟩ :=
            exists_mem_end (by simp [LoggedSection.running]) (hinv.progress _ hstate)
          exact absurd (LoggedSection.token_of_running hrunning) (htoken sec hsec)
      | completed =>
          rcases hinv.completed _ hstate with ⟨found, hfound, hdone⟩ | hfinishes
          · obtain rfl := Option.some.inj (hlookup.symm.trans hfound)
            exact absurd (hheld.2.2.symm.trans hdone) (by simp)
          · obtain ⟨sec, hsec, hfinishing⟩ :=
              exists_mem_end (by simp [LoggedSection.finishing]) hfinishes
            exact absurd (LoggedSection.token_of_finishing hfinishing)
              (htoken sec hsec)

/-- A fresh claim; a completed key may be evicted for it. -/
theorem claimed {executed handled : Bool} {dedup : DedupTable}
    (hinv : TokenInv s (.claimDedup env executed handled ::ₘ others))
    (hdedup : ∀ key, dedup.lookup key = some .inProgress →
      key = env.key ∨ s.dedup.lookup key = some .inProgress)
    (hcompleted : ∀ key, dedup.lookup key = some .completed →
      s.dedup.lookup key = some .completed) :
    TokenInv { s with dedup := dedup } (.deliver env ::ₘ others) := by
  have htokens : tokens s.mailbox (.deliver env ::ₘ others) =
      tokens s.mailbox (.claimDedup env executed handled ::ₘ others) := by
    rw [tokens_cons_some _ _ rfl, tokens_cons_some _ _ rfl]
  refine
    { hinv with
      nodup := htokens ▸ hinv.nodup
      held := htokens ▸ hinv.held
      progress := ?_
      completed := fun key hkey => (hinv.completed key (hcompleted key hkey)).imp_right
        (exists_mem_replace (by simp [LoggedSection.finishing]))
      ok := Multiset.forall_mem_cons.mpr ⟨trivial, hinv.ok_others⟩ }
  intro key hkey
  rcases hdedup key hkey with rfl | hbefore
  · exact ⟨.deliver env, Multiset.mem_cons_self _ _, rfl⟩
  · exact exists_mem_replace (by simp [LoggedSection.running])
      (hinv.progress key hbefore)

/-- The end of a delivery in the dedup table: the key is out of progress. -/
theorem finished {result : DeliverResult} {next : LoggedSection} {cap : Nat}
    (hinv : TokenInv s (.finishDedup env result ::ₘ others))
    (hnext : next = .dropKey env ∧ result = .threw ∨ next = .markExecuted env) :
    TokenInv
      { s with dedup := DedupTable.finishDelivery cap s.dedup env.key result }
      (next ::ₘ others) := by
  have htoken : next.token = some env.key := by
    rcases hnext with ⟨rfl, -⟩ | rfl <;> rfl
  have htokens : tokens s.mailbox (next ::ₘ others) =
      tokens s.mailbox (.finishDedup env result ::ₘ others) := by
    rw [tokens_cons_some _ _ htoken, tokens_cons_some _ _ rfl]
  have hlookup : ∀ key state,
      (DedupTable.finishDelivery cap s.dedup env.key result).lookup key =
        some state →
      key = env.key ∧ state = .completed ∧ result ≠ .threw ∨
        key ≠ env.key ∧ s.dedup.lookup key = some state := by
    intro key state hfound
    have hinserted : result ≠ .threw →
        (s.dedup.insert env.key .completed).lookup key = some state →
        key = env.key ∧ state = .completed ∧ result ≠ .threw ∨
          key ≠ env.key ∧ s.dedup.lookup key = some state := by
      intro hran hfound
      obtain ⟨hkey, rfl⟩ | hold := Table.of_lookup_insert hfound
      · exact Or.inl ⟨hkey, rfl, hran⟩
      · exact Or.inr hold
    unfold DedupTable.finishDelivery at hfound
    split at hfound
    · exact Or.inr (Table.of_lookup_erase hfound)
    · rename_i hran
      split at hfound
      · exact hinserted hran hfound
      · rename_i hnone
        split at hfound
        · exact hinserted hran hfound
        · refine Or.inr ⟨?_, hfound⟩
          rintro rfl
          rw [hnone] at hfound
          cases hfound
  have hnextOk : next.Ok s.synced := by
    rcases hnext with ⟨rfl, -⟩ | rfl <;> trivial
  refine
    { hinv with
      nodup := htokens ▸ hinv.nodup
      held := htokens ▸ hinv.held
      progress := ?_
      completed := ?_
      ok := Multiset.forall_mem_cons.mpr ⟨hnextOk, hinv.ok_others⟩ }
  · intro key hkey
    rcases hlookup key _ hkey with ⟨-, hstate, -⟩ | ⟨hne, hbefore⟩
    · cases hstate
    · exact exists_mem_replace (by simp [LoggedSection.running, hne.symm])
        (hinv.progress key hbefore)
  · intro key hkey
    rcases hlookup key _ hkey with ⟨rfl, -, hran⟩ | ⟨-, hbefore⟩
    · refine Or.inr ⟨next, Multiset.mem_cons_self _ _, ?_⟩
      rcases hnext with ⟨-, hthrew⟩ | rfl
      · exact absurd hthrew hran
      · rfl
    · exact (hinv.completed key hbefore).imp_right
        (exists_mem_replace (by simp [LoggedSection.finishing]))

/-- A throwing run forgets the message. -/
theorem dropped_key (hinv : TokenInv s (.dropKey env ::ₘ others)) :
    TokenInv { s with log := s.log.dropKey env.key } others := by
  obtain ⟨hgone, hnodup⟩ := hinv.not_mem_others rfl
  obtain ⟨entry, hlookup, hself⟩ := hinv.held_self rfl
  have hheld := hinv.held
  rw [tokens_cons_some _ _ rfl] at hheld
  obtain ⟨hexecuted, hframes, hhandled⟩ := hinv.log_ok
  have herase := Table.lookup_erase s.log.index env.key
  have hkept : ∀ {other found},
      (s.log.dropKey env.key).index.lookup other = some found →
        s.log.index.lookup other = some found := by
    intro other found hfound
    rw [ReceiverLog.dropKey, herase] at hfound
    split at hfound
    · cases hfound
    · exact hfound
  constructor
  case nodup => exact hnodup
  case held =>
    intro other hother
    obtain ⟨found, hfound, hholds⟩ :=
      hheld other (Multiset.mem_cons_of_mem hother)
    have hkey : other ≠ env.key := fun h => hgone (h ▸ hother)
    exact ⟨found, by simp [ReceiverLog.dropKey, herase, hfound, hkey], hholds⟩
  case progress =>
    exact fun other hother =>
      exists_mem_end (by simp [LoggedSection.running]) (hinv.progress other hother)
  case completed =>
    intro other hother
    rcases hinv.completed other hother with ⟨found, hfound, hdone⟩ | hfinishes
    · have hkey : other ≠ env.key := by
        rintro rfl
        obtain rfl := Option.some.inj (hlookup.symm.trans hfound)
        exact absurd (hself.2.2.symm.trans hdone) (by simp)
      refine Or.inl ⟨found, ?_, hdone⟩
      rw [ReceiverLog.dropKey, herase, if_neg hkey, hfound]
    · exact Or.inr (exists_mem_end (by simp [LoggedSection.finishing]) hfinishes)
  case log_ok =>
    exact ⟨fun other found hfound => hexecuted other found (hkept hfound),
      fun other found hfound => hframes other found (hkept hfound),
      fun other found hfound => hhandled other found (hkept hfound)⟩
  case ok => exact hinv.ok_others
  case acked => exact hinv.acked

/-- The message counts as executed: its key is no longer held. -/
theorem marked_executed (hinv : TokenInv s (.markExecuted env ::ₘ others)) :
    TokenInv { s with log := s.log.markExecuted env.key }
      (.finishHandled env ::ₘ others) := by
  obtain ⟨hgone, hnodup⟩ := hinv.not_mem_others rfl
  obtain ⟨entry, hlookup, hself⟩ := hinv.held_self rfl
  have hheld := hinv.held
  rw [tokens_cons_some _ _ rfl] at hheld
  have hmap := lookup_modify_map s.log.index env.key
    fun entry => { entry with executed := true, enqueued := false }
  obtain ⟨hexecuted, hframes, hhandled⟩ := hinv.log_ok
  constructor
  case nodup =>
    rw [tokens_cons_none _ _ rfl]
    exact hnodup
  case held =>
    intro other hother
    rw [tokens_cons_none _ _ rfl] at hother
    obtain ⟨found, hfound, hholds⟩ :=
      hheld other (Multiset.mem_cons_of_mem hother)
    have hkey : other ≠ env.key := fun h => hgone (h ▸ hother)
    exact ⟨found, by simp [ReceiverLog.markExecuted, hmap, hfound, hkey], hholds⟩
  case progress =>
    exact fun other hother =>
      exists_mem_replace (by simp [LoggedSection.running]) (hinv.progress other hother)
  case completed =>
    intro other hother
    by_cases hkey : other = env.key
    · subst hkey
      left
      exact ⟨{ entry with executed := true, enqueued := false },
        by simp [ReceiverLog.markExecuted, hmap, hlookup], rfl⟩
    · rcases hinv.completed other hother with ⟨found, hfound, hdone⟩ | hfinishes
      · left
        exact ⟨found, by simp [ReceiverLog.markExecuted, hmap, hfound, hkey],
          hdone⟩
      · exact Or.inr (exists_mem_replace
          (by simp [LoggedSection.finishing, Ne.symm hkey]) hfinishes)
  case log_ok =>
    constructor
    · intro other found hfound hdone
      rw [ReceiverLog.markExecuted, hmap, Option.map_eq_some_iff] at hfound
      obtain ⟨before, hbefore, rfl⟩ := hfound
      by_cases hkey : other = env.key
      · subst hkey
        obtain rfl := Option.some.inj (hlookup.symm.trans hbefore)
        rw [if_pos rfl]
        exact hself.1
      · rw [if_neg hkey] at hdone ⊢
        exact hexecuted other before hbefore hdone
    · intro other found hfound
      rw [ReceiverLog.markExecuted, hmap, Option.map_eq_some_iff] at hfound
      obtain ⟨before, hbefore, rfl⟩ := hfound
      have hframe := hframes other before hbefore
      split <;> exact hframe
    · intro other found hfound hdone
      rw [ReceiverLog.markExecuted, hmap, Option.map_eq_some_iff] at hfound
      obtain ⟨before, hbefore, rfl⟩ := hfound
      refine hhandled other before hbefore ?_
      split at hdone <;> exact hdone
  case ok =>
    intro sec hsec
    rcases Multiset.mem_cons.mp hsec with rfl | hold
    · trivial
    · exact hinv.ok_others sec hold
  case acked => exact hinv.acked

end TokenInv

theorem tokens_pushes (mailbox : List Envelope)
    (items : List (RecvKey × List UInt8)) (others : Multiset LoggedSection) :
    tokens mailbox (((items.map fun item =>
        LoggedSection.pushRoutedFrame item.1 item.2 0 : List LoggedSection) :
          Multiset LoggedSection) + others) =
      ((items.map Prod.fst : List RecvKey) : Multiset RecvKey) +
        tokens mailbox others := by
  induction items with
  | nil => simp
  | cons item items ih =>
      rw [List.map_cons, List.map_cons, ← Multiset.cons_coe,
        ← Multiset.cons_coe, Multiset.cons_add, Multiset.cons_add,
        tokens_cons_some _ _ rfl, ih]

/-- The entries that `take_for_actor` takes, each once. -/
theorem takeForActor_items (log : ReceiverLog) (uri : ActorUri) :
    ((takeForActor log uri).1.map Prod.fst).Nodup ∧
      ∀ item ∈ (takeForActor log uri).1, ∃ entry,
        log.index.lookup item.1 = some entry ∧ takesEntry uri entry = true ∧
          item.2 = entry.frame := by
  constructor
  · have hsub : ((log.index.entries.filter fun entry =>
        takesEntry uri entry.2).map Sigma.fst).Sublist log.index.keys :=
      List.filter_sublist.map _
    simpa [takeForActor, Function.comp_def] using
      hsub.nodup log.index.nodupKeys
  · intro item hitem
    simp only [takeForActor, List.mem_map, List.mem_filter] at hitem
    obtain ⟨⟨key, entry⟩, ⟨hmem, htakes⟩, rfl⟩ := hitem
    exact ⟨entry, (Table.lookup_eq_some_iff _ _ _).mpr hmem, htakes, rfl⟩

theorem takeForActor_lookup (log : ReceiverLog) (uri : ActorUri)
    (key : RecvKey) :
    (takeForActor log uri).2.index.lookup key =
      (log.index.lookup key).map fun entry =>
        if takesEntry uri entry then { entry with enqueued := true }
        else entry :=
  Table.lookup_mapVals _ _ _

theorem takesEntry_spec {uri : ActorUri} {entry : RecvEntry}
    (htakes : takesEntry uri entry = true) :
    entry.persisted = true ∧ entry.executed = false ∧
      entry.enqueued = false := by
  simp only [takesEntry, Bool.and_eq_true, Bool.not_eq_true'] at htakes
  exact ⟨htakes.1.1.1.1, htakes.1.1.1.2, htakes.1.1.2⟩

/-- Replay takes the waiting entries of an actor, each with its own token. -/
theorem TokenInv.replay_taken {s : LoggedState}
    {others : Multiset LoggedSection} {uri : ActorUri}
    (hinv : TokenInv s (.replayTake uri ::ₘ others)) :
    TokenInv { s with log := (takeForActor s.log uri).2 }
      ((((takeForActor s.log uri).1.map fun item =>
        LoggedSection.pushRoutedFrame item.1 item.2 0 : List LoggedSection) :
          Multiset LoggedSection) + others) := by
  obtain ⟨hdistinct, hitems⟩ := takeForActor_items s.log uri
  have hmap := takeForActor_lookup s.log uri
  have hsame : tokens s.mailbox (.replayTake uri ::ₘ others) =
      tokens s.mailbox others := tokens_cons_none _ _ rfl
  have hheld := hinv.held
  have hnodup := hinv.nodup
  rw [hsame] at hheld hnodup
  have hframes := hinv.log_ok.frames
  constructor
  case nodup =>
    rw [tokens_pushes]
    refine Multiset.nodup_add.mpr ⟨hdistinct, hnodup, ?_⟩
    rw [Multiset.disjoint_left]
    intro key hitem htoken
    obtain ⟨item, hmem, rfl⟩ := List.mem_map.mp (Multiset.mem_coe.mp hitem)
    obtain ⟨entry, hlookup, htakes, -⟩ := hitems item hmem
    obtain ⟨found, hfound, hholds⟩ := hheld _ htoken
    rw [hlookup, Option.some.injEq] at hfound
    subst hfound
    exact absurd ((takesEntry_spec htakes).2.2.symm.trans hholds.2.1) (by simp)
  case held =>
    intro key hkey
    rw [tokens_pushes, Multiset.mem_add, Multiset.mem_coe] at hkey
    simp only [hmap]
    rcases hkey with hitem | hold
    · obtain ⟨item, hmem, rfl⟩ := List.mem_map.mp hitem
      obtain ⟨entry, hlookup, htakes, -⟩ := hitems item hmem
      obtain ⟨hpersisted, hnot, -⟩ := takesEntry_spec htakes
      exact ⟨{ entry with enqueued := true }, by simp [hlookup, htakes],
        hpersisted, rfl, hnot⟩
    · obtain ⟨found, hfound, hholds⟩ := hheld key hold
      refine ⟨if takesEntry uri found then { found with enqueued := true }
        else found, by simp [hfound], ?_⟩
      split
      · exact ⟨hholds.1, rfl, hholds.2.2⟩
      · exact hholds
  case progress =>
    exact fun key hkey =>
      exists_mem_work (by simp [LoggedSection.running]) (hinv.progress key hkey)
  case completed =>
    intro key hkey
    rcases hinv.completed key hkey with ⟨found, hfound, hdone⟩ | hfinishes
    · left
      simp only [hmap]
      refine ⟨if takesEntry uri found then { found with enqueued := true }
        else found, by simp [hfound], ?_⟩
      split <;> exact hdone
    · exact Or.inr (exists_mem_work (by simp [LoggedSection.finishing]) hfinishes)
  case log_ok =>
    refine hinv.log_ok.of_map hmap (fun key entry => ?_) (fun key entry => ?_)
      (fun key entry hentry => ?_) fun key entry hentry => Or.inl ?_
    · split <;> rfl
    · split <;> rfl
    · split <;> exact hentry
    · split at hentry <;> exact hentry
  case ok =>
    intro sec hsec
    rcases Multiset.mem_add.mp hsec with hnew | hold
    · obtain ⟨item, hmem, rfl⟩ := List.mem_map.mp (Multiset.mem_coe.mp hnew)
      obtain ⟨entry, hlookup, -, hframe⟩ := hitems item hmem
      change FrameOf item.1 item.2
      rw [hframe]
      exact hframes item.1 entry hlookup
    · exact hinv.ok_others sec hold
  case acked => exact hinv.acked

/-- When `try_enqueue_receiver` marks a key enqueued, its entry is still as
the checks before found it: persisted, not executed and not enqueued. -/
def marksFree (s : LoggedState) : LoggedSection → Bool
  | .enqueueSet key _ => (s.log.index.lookup key).any fun entry =>
      entry.persisted && !entry.executed && !entry.enqueued
  | _ => true

namespace TokenInv

variable {s : LoggedState} {others : Multiset LoggedSection}
  {sec : LoggedSection} {effect : Effect LoggedState LoggedSection} {cap : Nat}
  {choice : LoggedChoice}

theorem accept (hinv : TokenInv s (sec ::ₘ others))
    (hexec : s.accept sec = some effect) :
    TokenInv effect.shared (effect.work + others) := by
  have hok := hinv.ok sec (Multiset.mem_cons_self _ _)
  cases sec <;> simp only [LoggedState.accept, reduceCtorEq] at hexec
  case acceptExecuted frame key conn =>
    split at hexec <;> obtain rfl := Option.some.inj hexec
    · exact hinv.quiet _ rfl (by simp [LoggedSection.token])
        (by simp [LoggedSection.Ok])
    · exact hinv.quiet _ rfl (by simp [LoggedSection.token])
        (by simpa [LoggedSection.Ok] using hok)
  case acceptHandled key conn =>
    split at hexec <;> obtain rfl := Option.some.inj hexec
    · rename_i hhandled
      have hsynced : key ∈ s.synced := by
        simp only [ReceiverLog.handledDurable, Option.any_eq_true] at hhandled
        obtain ⟨entry, hlookup, hentry⟩ := hhandled
        exact hinv.log_ok.handled key entry hlookup hentry
      exact hinv.quiet _ rfl (by simp [LoggedSection.token])
        (by simpa [LoggedSection.Ok] using hsynced)
    · exact hinv.quiet _ rfl (by simp [LoggedSection.token])
        (by simp [LoggedSection.Ok])
  case acceptBufferHandled key conn =>
    obtain rfl := Option.some.inj hexec
    have hnext := hinv.relog (ReceiverLog.bufferHandled_keeps s.log key conn)
      (ReceiverLog.bufferHandled_ok hinv.log_ok key conn)
    exact hnext.quiet _ rfl (by simp [LoggedSection.token])
      (by simp [LoggedSection.Ok])
  case acceptHasData frame key conn =>
    split at hexec <;> obtain rfl := Option.some.inj hexec
    · exact hinv.quiet _ rfl (by simp [LoggedSection.token])
        (by simp [LoggedSection.Ok])
    · exact hinv.quiet _ rfl (by simp [LoggedSection.token])
        (by simpa [LoggedSection.Ok] using hok)
  case acceptBufferData frame key conn =>
    obtain rfl := Option.some.inj hexec
    have hnext := hinv.relog (ReceiverLog.bufferData_keeps s.log key frame conn)
      (ReceiverLog.bufferData_ok hinv.log_ok hok conn)
    exact hnext.quiet _ rfl (by simp [LoggedSection.token])
      (by simp [LoggedSection.Ok])
  all_goals
    split at hexec <;> obtain rfl := Option.some.inj hexec <;>
      exact hinv.quiet _ rfl (by simp [LoggedSection.token])
        (by simp [LoggedSection.Ok])

theorem enqueue (hinv : TokenInv s (sec ::ₘ others)) (hfree : marksFree s sec = true)
    (hexec : s.enqueue cap sec choice = some effect) :
    TokenInv effect.shared (effect.work + others) := by
  have hok := hinv.ok sec (Multiset.mem_cons_self _ _)
  cases sec <;> simp only [LoggedState.enqueue, reduceCtorEq] at hexec
  case enqueueRoom key =>
    split at hexec <;> obtain rfl := Option.some.inj hexec <;>
      exact hinv.quiet _ rfl (by simp [LoggedSection.token])
        (by simp [LoggedSection.Ok])
  case enqueueAlready key =>
    obtain rfl := Option.some.inj hexec
    have hmap := lookup_modify_map s.log.index key
      fun entry => { entry with enqueued := true }
    have hkeeps : LogKeeps s.log (s.log.setEnqueued key true) :=
      .of_modify hmap (fun _ hheld => ⟨hheld.1, rfl, hheld.2.2⟩)
        fun _ hexecuted => hexecuted
    have hnext := hinv.relog hkeeps (ReceiverLog.setEnqueued_ok hinv.log_ok key true)
    exact hnext.quiet _ rfl (by simp) (by simp)
  case enqueueCopy key =>
    split at hexec <;> obtain rfl := Option.some.inj hexec
    · exact hinv.quiet _ rfl (by simp [LoggedSection.token])
        (by simp [LoggedSection.Ok])
    · rename_i hframe
      have hcopied : FrameOf key (s.log.copyFrame key) := by
        unfold ReceiverLog.copyFrame at hframe ⊢
        cases hlookup : s.log.index.lookup key with
        | none => simp [hlookup] at hframe
        | some entry => exact hinv.log_ok.frames key entry hlookup
      exact hinv.quiet _ rfl (by simp [LoggedSection.token])
        (by simpa [LoggedSection.Ok] using hcopied)
  case enqueueSet key frame =>
    obtain rfl := Option.some.inj hexec
    simp only [marksFree, Option.any_eq_true, Bool.and_eq_true,
      Bool.not_eq_true'] at hfree
    obtain ⟨entry, hlookup, ⟨hpersisted, hexecuted⟩, hfree⟩ := hfree
    simpa using hinv.set_enqueued hlookup hpersisted hexecuted hfree
  case enqueueReply key frame =>
    obtain rfl := Option.some.inj hexec
    have hnext := hinv.moved
      (.pushRoutedFrame key frame (s.log.replyConn key)) rfl rfl rfl hok
    simpa using hnext
  case pushRoutedFrame key frame conn =>
    have hrefused : TokenInv s (.clearEnqueued key ::ₘ others) :=
      hinv.moved (.clearEnqueued key) rfl rfl rfl trivial
    split at hexec
    · rename_i m hframe
      obtain rfl := Option.some.inj hexec
      simpa using hinv.pushed hframe
    · obtain rfl := Option.some.inj hexec
      simpa using hrefused
    · obtain rfl := Option.some.inj hexec
      simpa using hrefused
    · cases hexec
  case clearEnqueued key =>
    obtain rfl := Option.some.inj hexec
    simpa using hinv.clear_enqueued
  all_goals
    split at hexec <;> obtain rfl := Option.some.inj hexec <;>
      exact hinv.quiet _ rfl (by simp [LoggedSection.token])
        (by simp [LoggedSection.Ok])

/-- A successful sync makes more keys durable. -/
theorem synced_more {pending : Multiset LoggedSection}
    (hinv : TokenInv s pending) (file : List UInt8) (more : List RecvKey) :
    TokenInv { s with file := file, synced := s.synced ++ more } pending := by
  refine { hinv with log_ok := ?_, ok := ?_, acked := ?_ }
  · refine { hinv.log_ok with handled := ?_ }
    intro key entry hlookup hhandled
    exact List.mem_append_left _
      (hinv.log_ok.handled key entry hlookup hhandled)
  · intro sec hsec
    exact (hinv.ok sec hsec).mono
  · intro key hkey
    exact List.mem_append_left _ (hinv.acked key hkey)

/-- `take_batch` leaves the index as it is. -/
theorem batch_taken {aged : Bool} {batch : List PendingRec} {log : ReceiverLog}
    {pending : Multiset LoggedSection} (hinv : TokenInv s pending)
    (htaken : s.log.takeBatch aged = some (batch, log)) :
    TokenInv { s with log := log } pending := by
  have hindex := ReceiverLog.takeBatch_index htaken
  refine hinv.relog ⟨?_, ?_⟩ ⟨?_, ?_, ?_⟩
  · rw [hindex]
    exact (LogKeeps.refl s.log).held
  · rw [hindex]
    exact (LogKeeps.refl s.log).executed
  · rw [hindex]
    exact hinv.log_ok.executed
  · rw [hindex]
    exact hinv.log_ok.frames
  · rw [hindex]
    exact hinv.log_ok.handled

/-- The batch is written and synced: the handled records in it are durable. -/
theorem batch_synced {batch : List PendingRec}
    (hinv : TokenInv s (.flushWrite batch ::ₘ others)) (file : List UInt8) :
    TokenInv
      { s with
        file := file
        synced := s.synced ++ (batch.filter (·.type = 2)).map PendingRec.key }
      (.flushCommit batch ::ₘ others) := by
  have hnext := hinv.synced_more file ((batch.filter (·.type = 2)).map PendingRec.key)
  have hcommits := hnext.quiet {.flushCommit batch} rfl (by simp [LoggedSection.token]) ?_
  · rwa [Multiset.singleton_add] at hcommits
  · intro next hmem
    obtain rfl := Multiset.mem_singleton.mp hmem
    intro record hrecord htype
    exact List.mem_append_right _ (List.mem_map_of_mem
      (List.mem_filter.mpr ⟨hrecord, by simpa using htype⟩))

/-- The result of a flush goes on to the queue and to the acks of synced keys. -/
theorem flush_applied {result : FlushResult}
    (hinv : TokenInv s (.applyFlush result ::ₘ others)) (work : List LoggedSection)
    (hwork : ∀ next ∈ work, (∃ key, next = .enqueueHold key) ∨
      (∃ ack ∈ result.acks, next = .postRemoteAck ⟨ack.sender, ack.msgId⟩ ack.replyConnId) ∨
        next = .pumpHold) :
    TokenInv s ((work : Multiset LoggedSection) + others) := by
  have hok := hinv.ok _ (Multiset.mem_cons_self _ _)
  refine hinv.quiet _ rfl ?_ ?_
  · intro next hnext
    obtain ⟨key, rfl⟩ | ⟨ack, -, rfl⟩ | rfl := hwork next (Multiset.mem_coe.mp hnext) <;> rfl
  · intro next hnext
    obtain ⟨key, rfl⟩ | ⟨ack, hmem, rfl⟩ | rfl := hwork next (Multiset.mem_coe.mp hnext)
    · trivial
    · exact hok ack hmem
    · trivial

/-- A key whose handled record is synced is acked. -/
theorem ack_posted {key : RecvKey} {conn : UInt64}
    (hinv : TokenInv s (.postRemoteAck key conn ::ₘ others)) :
    TokenInv { s with acked := s.acked ++ [key] } others := by
  have hsynced : key ∈ s.synced := hinv.ok _ (Multiset.mem_cons_self _ _)
  have hnext : TokenInv s others := by
    simpa using hinv.quiet 0 rfl (by simp) (by simp)
  refine { hnext with acked := ?_ }
  intro other hother
  rcases List.mem_append.mp hother with hold | hnew
  · exact hinv.acked other hold
  · obtain rfl := List.mem_singleton.mp hnew
    exact hsynced

theorem flush (hinv : TokenInv s (sec ::ₘ others))
    (hexec : s.flush sec choice = some effect) :
    TokenInv effect.shared (effect.work + others) := by
  have hok := hinv.ok sec (Multiset.mem_cons_self _ _)
  cases sec <;> simp only [LoggedState.flush, reduceCtorEq] at hexec
  case flushTake =>
    split at hexec
    · obtain rfl := Option.some.inj hexec
      exact hinv.quiet _ rfl (by simp [LoggedSection.token])
        (by simp [LoggedSection.Ok])
    · rename_i batch log htaken
      obtain rfl := Option.some.inj hexec
      exact (hinv.batch_taken htaken).quiet _ rfl (by simp [LoggedSection.token])
        (by simp [LoggedSection.Ok])
  case flushWrite batch =>
    cases choice with
    | wrote io =>
        dsimp only at hexec
        split at hexec
        · cases hexec
        · obtain rfl := Option.some.inj hexec
          have hnext := hinv.synced_more
            (s.file ++ (s.log.writeBatch batch io).1) []
          rw [List.append_nil] at hnext
          exact hnext.quiet _ rfl (by simp [LoggedSection.token])
            (by simp [LoggedSection.Ok])
        · obtain rfl := Option.some.inj hexec
          simpa using hinv.batch_synced (s.file ++ (s.log.writeBatch batch io).1)
    | _ => cases hexec
  case flushCommit batch =>
    obtain rfl := Option.some.inj hexec
    obtain ⟨hkeeps, hlog, hacks⟩ := ReceiverLog.foldl_commitRecord_spec batch
      (s.log, ⟨true, [], []⟩) hinv.log_ok (by simp) hok
    have hnext := hinv.relog hkeeps hlog
    exact hnext.quiet _ rfl (by simp [LoggedSection.token])
      (by simpa [LoggedSection.Ok, ReceiverLog.commitIndex] using hacks)
  case flushRollback batch =>
    obtain rfl := Option.some.inj hexec
    obtain ⟨hkeeps, hlog⟩ := ReceiverLog.rollback_spec hinv.log_ok batch
    exact (hinv.relog hkeeps hlog).quiet _ rfl (by simp) (by simp)
  case applyFlush result =>
    obtain rfl := Option.some.inj hexec
    rw [Effect.goto_work]
    refine hinv.flush_applied _ ?_
    intro next hnext
    obtain hfront | hpump := List.mem_append.mp hnext
    rcases List.mem_append.mp hfront with hkey | hack
    · split at hkey
      · cases hkey
      · obtain ⟨key, -, rfl⟩ := List.mem_map.mp hkey
        exact .inl ⟨key, rfl⟩
    · obtain ⟨ack, hmem, rfl⟩ := List.mem_map.mp hack
      exact .inr (.inl ⟨ack, hmem, rfl⟩)
    · exact .inr (.inr (List.mem_singleton.mp hpump))
  case postRemoteAck key conn =>
    obtain rfl := Option.some.inj hexec
    simpa using hinv.ack_posted
  case pumpKeys =>
    obtain rfl := Option.some.inj hexec
    refine hinv.quiet _ rfl ?_ ?_
    · simp only [Effect.goto_work, Multiset.mem_coe, List.mem_map]
      rintro next ⟨key, -, rfl⟩
      rfl
    · simp only [Effect.goto_work, Multiset.mem_coe, List.mem_map]
      rintro next ⟨key, -, rfl⟩
      trivial
  case replayTake uri =>
    obtain rfl := Option.some.inj hexec
    simpa using hinv.replay_taken
  all_goals
    split at hexec <;> obtain rfl := Option.some.inj hexec <;>
      exact hinv.quiet _ rfl (by simp [LoggedSection.token])
        (by simp [LoggedSection.Ok])

/-- A claim finds the key in no table, so it is fresh or meets a full table. -/
theorem claim (cap : Nat) {env : Envelope} {executed handled : Bool}
    (hinv : TokenInv s (.claimDedup env executed handled ::ₘ others)) :
    DedupTable.claimRemote cap s.dedup env.key executed handled =
        ⟨.overflow, s.dedup, none⟩ ∨
      ∃ dedup evicted,
        DedupTable.claimRemote cap s.dedup env.key executed handled =
          ⟨.fresh, dedup, evicted⟩ ∧
        TokenInv { s with dedup := dedup } (.deliver env ::ₘ others) := by
  have habsent := hinv.claim_absent
  have hnot : executed = false := hinv.ok _ (Multiset.mem_cons_self _ _)
  rcases DedupTable.claimRemote_cases cap s.dedup env.key executed handled with
    ⟨-, hcase⟩ | ⟨-, hcase⟩ | ⟨heq, -⟩ | ⟨heq, -⟩ | ⟨victim, heq, -⟩
  · simp [habsent, hnot] at hcase
  · simp [habsent, hnot] at hcase
  · exact Or.inl heq
  · refine Or.inr ⟨_, _, heq, hinv.claimed ?_ ?_⟩
    · intro key hkey
      exact (Table.of_lookup_insert hkey).imp And.left And.right
    · intro key hkey
      obtain ⟨-, hnew⟩ | ⟨-, hold⟩ := Table.of_lookup_insert hkey
      · cases hnew
      · exact hold
  · have hvictim : ∀ {key state}, (s.dedup.erase victim).lookup key = some state →
        s.dedup.lookup key = some state :=
      fun hkey => (Table.of_lookup_erase hkey).2
    refine Or.inr ⟨_, _, heq, hinv.claimed ?_ ?_⟩
    · intro key hkey
      exact (Table.of_lookup_insert hkey).imp And.left fun hold => hvictim hold.2
    · intro key hkey
      obtain ⟨-, hnew⟩ | ⟨-, hold⟩ := Table.of_lookup_insert hkey
      · cases hnew
      · exact hvictim hold

theorem dispatch (hinv : TokenInv s (sec ::ₘ others))
    (hexec : s.dispatch cap sec choice = some effect) :
    TokenInv effect.shared (effect.work + others) := by
  have hok := hinv.ok sec (Multiset.mem_cons_self _ _)
  cases sec <;> simp only [LoggedState.dispatch, reduceCtorEq] at hexec
  case popEnvelope =>
    cases choice with
    | pick position =>
        dsimp only at hexec
        split at hexec
        · cases hexec
        · rename_i env henv
          have hnext := hinv.popped henv
          split at hexec <;> obtain rfl := Option.some.inj hexec
          · simpa using hnext.dropped (.deliverUnkeyed env) rfl rfl rfl rfl
              trivial
          · simpa using hnext
    | _ => cases hexec
  case claimExecuted env =>
    obtain rfl := Option.some.inj hexec
    obtain ⟨entry, hlookup, hheld⟩ := hinv.held_self rfl
    have hnot : s.log.executed env.key = false := by
      simp [ReceiverLog.executed, hlookup, hheld.2.2]
    simpa using hinv.moved (.claimHandled env (s.log.executed env.key)) rfl rfl
      rfl hnot
  case claimHandled env executed =>
    obtain rfl := Option.some.inj hexec
    simpa using hinv.moved
      (.claimDedup env executed (s.log.handledDurable env.key)) rfl rfl rfl hok
  case claimDedup env executed handled =>
    rcases claim cap hinv with heq | ⟨dedup, evicted, heq, hnext⟩
    · simp only [heq] at hexec
      obtain rfl := Option.some.inj hexec
      simpa using hinv.moved (.clearEnqueued env.key) rfl rfl rfl trivial
    · simp only [heq] at hexec
      obtain rfl := Option.some.inj hexec
      simpa using hnext
  case deliver env =>
    cases choice with
    | ended result =>
        obtain rfl := Option.some.inj hexec
        simpa using hinv.moved (.finishDedup env result) rfl rfl rfl trivial
    | _ => cases hexec
  case finishDedup env result =>
    split at hexec <;> obtain rfl := Option.some.inj hexec
    · rename_i hthrew
      simpa using hinv.finished (Or.inl ⟨rfl, hthrew⟩)
    · simpa using hinv.finished (Or.inr rfl)
  case dropKey env =>
    obtain rfl := Option.some.inj hexec
    simpa using hinv.dropped_key
  case markExecuted env =>
    obtain rfl := Option.some.inj hexec
    simpa using hinv.marked_executed
  case finishHandled env =>
    split at hexec <;> obtain rfl := Option.some.inj hexec
    · rename_i hhandled
      have hsynced : env.key ∈ s.synced := by
        simp only [ReceiverLog.handledDurable, Option.any_eq_true] at hhandled
        obtain ⟨entry, hlookup, hentry⟩ := hhandled
        exact hinv.log_ok.handled env.key entry hlookup hentry
      exact hinv.quiet _ rfl (by simp [LoggedSection.token])
        (by simpa [LoggedSection.Ok] using hsynced)
    · exact hinv.quiet _ rfl (by simp [LoggedSection.token])
        (by simp [LoggedSection.Ok])
  case finishBufferHandled env =>
    obtain rfl := Option.some.inj hexec
    have hnext := hinv.relog
      (ReceiverLog.bufferHandled_keeps s.log env.key env.replyConnId)
      (ReceiverLog.bufferHandled_ok hinv.log_ok env.key env.replyConnId)
    exact hnext.quiet _ rfl (by simp [LoggedSection.token])
      (by simp [LoggedSection.Ok])
  case deliverUnkeyed env =>
    obtain rfl := Option.some.inj hexec
    exact hinv.quiet _ rfl (by simp) (by simp)

/-- The step lemma: every section keeps the tokens straight, as long as no key
is marked enqueued twice. -/
theorem exec (hinv : TokenInv s (sec ::ₘ others)) (hfree : marksFree s sec = true)
    (hexec : s.exec cap sec choice = some effect) :
    TokenInv effect.shared (effect.work + others) := by
  unfold LoggedState.exec at hexec
  split at hexec
  · obtain rfl := Option.some.inj hexec
    exact { hinv.quiet 0 rfl (by simp) (by simp) with }
  all_goals first
    | exact hinv.accept hexec
    | exact hinv.enqueue hfree hexec
    | exact hinv.flush hexec
    | exact hinv.dispatch hexec

end TokenInv

end UltraNet
