/-
The ask/reply rendezvous of `actor_system`: `prepare_ask`, `begin_ask`,
`take_ask_payload`, `cancel_ask`, `finish_ask` and `dispatch_reply`, each
mutex-protected region being one section of the interleaving.
-/
import UltraNet.AssocTable
import UltraNet.Interleaving

namespace UltraNet

/-- `ask_slot` without its mutex and condition variable.  `owner` is ghost
data: the id the slot was made for. -/
structure AskSlot where
  owner : UInt64
  done : Bool
  payload : List UInt8
deriving DecidableEq

/-- What a caller of the ask functions can observe. -/
inductive AskEvent where
  | finishCalled (id : UInt64) (payload : List UInt8)
  | finishReturned (id : UInt64) (payload : List UInt8) (ok : Bool)
  | expired (id : UInt64)
  | taken (id : UInt64) (result : Option (List UInt8))
deriving DecidableEq

/-- The members of `actor_system` that asks share.  A slot pointer is an index
into `slots`; `trace` is the ghost history, newest event last. -/
structure AskState where
  nextMsgId : UInt64
  asks : Table UInt64 Nat
  slots : List AskSlot
  trace : List AskEvent

def AskState.init : AskState := ⟨1, ∅, [], []⟩

def AskState.record (s : AskState) (event : AskEvent) : AskState :=
  { s with trace := s.trace ++ [event] }

inductive AskSection where
  | allocMsgId
  | otherAlloc
  | beginAsk (id : UInt64)
  | pushRequest (id : UInt64)
  | takeLookup (id : UInt64)
  | waitFor (id : UInt64) (slot : Nat)
  | cancelAsk (id : UInt64) (timedOut : Bool)
  | dispatchReply (replyConnId id : UInt64) (payload : List UInt8)
  | finishAsk (id : UInt64) (payload : List UInt8)
  | fillSlot (id : UInt64) (slot : Nat) (payload : List UInt8)
  | notifyOne (id : UInt64) (payload : List UInt8)
deriving DecidableEq

/-- `refuse`: the request is not accepted by the mailbox or the proxy;
`expire`: the timeout of `wait_for` is over. -/
inductive AskChoice where
  | go
  | refuse
  | expire
deriving DecidableEq

/-- `wait_for` has returned true: `out` receives the payload. -/
def AskState.takePayload (s : AskState) (id : UInt64) (slot : Nat)
    (found : AskSlot) : AskState :=
  { s with slots := s.slots.set slot { found with payload := [] } }.record
    (.taken id (some found.payload))

def AskState.exec (s : AskState) :
    AskSection → AskChoice → Option (Effect AskState AskSection)
  | .allocMsgId, _ =>
      some (.goto { s with nextMsgId := s.nextMsgId + 1 }
        [.beginAsk s.nextMsgId])
  | .otherAlloc, _ => some (.done { s with nextMsgId := s.nextMsgId + 1 })
  | .beginAsk id, _ =>
      some (.goto
        { s with
          asks := s.asks.insert id s.slots.length
          slots := s.slots ++ [⟨id, false, []⟩] }
        [.pushRequest id])
  | .pushRequest id, .refuse => some (.goto s [.cancelAsk id false])
  | .pushRequest id, _ => some (.goto s [.takeLookup id])
  | .takeLookup id, _ =>
      match s.asks.lookup id with
      | none => some (.done (s.record (.taken id none)))
      | some slot => some (.goto s [.waitFor id slot])
  | .waitFor id slot, choice =>
      match s.slots[slot]? with
      | none => none
      | some found =>
          -- `wait_for` tests `done` under `slot->mu`, also after the timeout.
          match found.done, choice with
          | true, .expire =>
              some (.done ((s.record (.expired id)).takePayload id slot found))
          | true, _ => some (.done (s.takePayload id slot found))
          | false, .expire =>
              some (.goto (s.record (.expired id)) [.cancelAsk id true])
          | false, _ => none
  | .cancelAsk id timedOut, _ =>
      let erased := { s with asks := s.asks.erase id }
      some (.done
        (if timedOut then erased.record (.taken id none) else erased))
  | .dispatchReply replyConnId id payload, _ =>
      if id = 0 ∨ payload = [] then some (.done s)
      else if replyConnId = 0 then some (.goto s [.finishAsk id payload])
      -- `post_inbound`: the reply leaves for the asking process.
      else some (.done s)
  | .finishAsk id payload, _ =>
      let called := s.record (.finishCalled id payload)
      match s.asks.lookup id with
      | none => some (.done (called.record (.finishReturned id payload false)))
      | some slot =>
          some (.goto { called with asks := s.asks.erase id }
            [.fillSlot id slot payload])
  | .fillSlot id slot payload, _ =>
      match s.slots[slot]? with
      | none => none
      | some found =>
          some (.goto
            { s with
              slots := s.slots.set slot
                { found with done := true, payload := payload } }
            [.notifyOne id payload])
  | .notifyOne id payload, _ =>
      some (.done (s.record (.finishReturned id payload true)))

/-- A thread may call `ask`, allocate an id for something else, reply, or
deliver a reply frame that came in for any id. -/
def askEntry : AskSection → Bool
  | .allocMsgId | .otherAlloc | .dispatchReply .. | .finishAsk .. => true
  | _ => false

def askProgram : Program AskState AskSection AskChoice where
  entry _ sec := askEntry sec
  exec := AskState.exec

/-- `finish_ask(id, payload)` returned true and the timeout of the ask had not
expired at that moment. -/
def TimelyReply (trace : List AskEvent) (id : UInt64)
    (payload : List UInt8) : Prop :=
  ∃ before after,
    trace = before ++ .finishReturned id payload true :: after ∧
      .expired id ∉ before

/-- A reply in time is what `take_ask_payload` returns, a waiting asker is
not blocked once it is there, and no ask obtains a payload that was not sent
to its own id. -/
def AskDelivers (cfg : Config AskState AskSection) : Prop :=
  (∀ id payload, TimelyReply cfg.shared.trace id payload →
    (∀ result, .taken id result ∈ cfg.shared.trace →
      result = some payload) ∧
    ∀ slot, .waitFor id slot ∈ cfg.pending →
      ∃ effect, cfg.shared.exec (.waitFor id slot) .go = some effect ∧
        effect.shared.trace =
          cfg.shared.trace ++ [.taken id (some payload)]) ∧
  ∀ id payload, .taken id (some payload) ∈ cfg.shared.trace →
    .finishCalled id payload ∈ cfg.shared.trace

/-- The condition on a section about to run: the 64-bit id counter has not
wrapped when an id is taken, and `finish_ask` finds an ask only when its
asker no longer has to look its slot up. -/
def AskerLooked (s : AskState) (pending : Multiset AskSection) :
    AskSection → AskChoice → Prop
  | .allocMsgId, _ => s.nextMsgId ≠ 0
  | .otherAlloc, _ => s.nextMsgId ≠ 0
  | .finishAsk id _, _ =>
      s.asks.lookup id ≠ none →
        .pushRequest id ∉ pending ∧ .takeLookup id ∉ pending
  | _, _ => True

instance (s : AskState) (pending : Multiset AskSection) (sec : AskSection)
    (choice : AskChoice) : Decidable (AskerLooked s pending sec choice) := by
  unfold AskerLooked
  split <;> infer_instance

/-- Every section of a running ask carries its id on the asker side, every
section of a `finish_ask` that found the ask carries it on the other side. -/
def AskSection.tag : AskSection → Option (Bool × UInt64)
  | .beginAsk id | .pushRequest id | .takeLookup id | .waitFor id _
  | .cancelAsk id _ => some (true, id)
  | .fillSlot id .. | .notifyOne id .. => some (false, id)
  | _ => none

/-- The request was refused: the asker takes no payload, it only has to
cancel. -/
def Withdrawn (trace : List AskEvent)
    (pending : Multiset AskSection) (id : UInt64) : Prop :=
  (∀ result, .taken id result ∉ trace) ∧
    ∀ sec ∈ pending, sec.tag = some (true, id) → sec = .cancelAsk id false

/-- The id has been handed out by a counter that has not wrapped more than
once. -/
def Issued (next id : UInt64) : Prop :=
  id ≠ 0 ∧ (next = 0 ∨ id < next)

theorem Issued.succ {next id : UInt64} (hnext : next ≠ 0)
    (hid : Issued next id) : Issued (next + 1) id := by
  unfold Issued at *
  grind

theorem issued_self {next : UInt64} (hnext : next ≠ 0) :
    Issued (next + 1) next := by
  unfold Issued
  grind

theorem not_issued_self {next : UInt64} (hnext : next ≠ 0) :
    ¬ Issued next next := by
  unfold Issued
  grind

theorem timelyReply_append (trace : List AskEvent) (event : AskEvent)
    (id : UInt64) (payload : List UInt8) :
    TimelyReply (trace ++ [event]) id payload ↔
      TimelyReply trace id payload ∨
        event = .finishReturned id payload true ∧ .expired id ∉ trace := by
  constructor
  · rintro ⟨before, after, heq, hbefore⟩
    rcases List.eq_nil_or_concat after with rfl | ⟨init, last, rfl⟩
    · have hlast := List.append_inj' heq rfl
      exact Or.inr ⟨by simpa using hlast.2, hlast.1 ▸ hbefore⟩
    · have hsplit : trace ++ [event] =
          (before ++ .finishReturned id payload true :: init) ++ [last] := by
        simpa using heq
      exact Or.inl
        ⟨before, init, (List.append_inj' hsplit rfl).1, hbefore⟩
  · rintro (⟨before, after, rfl, hbefore⟩ | ⟨rfl, hexpired⟩)
    · exact ⟨before, after ++ [event], by simp, hbefore⟩
    · exact ⟨trace, [], rfl, hexpired⟩

/-- What ties running asks, running replies, slots and the trace together in
every run whose sections meet `AskerLooked`. -/
structure AskInv (s : AskState) (pending : Multiset AskSection) : Prop where
  unique : UniqueTags AskSection.tag pending
  issued : ∀ sec ∈ pending, ∀ side id, sec.tag = some (side, id) →
    Issued s.nextMsgId id
  asks_issued : ∀ id slot, s.asks.lookup id = some slot →
    Issued s.nextMsgId id
  taken_issued : ∀ id result, .taken id result ∈ s.trace →
    Issued s.nextMsgId id
  unbegun : ∀ id, .beginAsk id ∈ pending → s.asks.lookup id = none ∧
    ∀ sec ∈ pending, sec.tag ≠ some (false, id)
  open_slot : ∀ id slot, s.asks.lookup id = some slot →
    s.slots[slot]? = some ⟨id, false, []⟩ ∧
      ∀ sec ∈ pending, sec.tag ≠ some (false, id)
  waiting : ∀ id slot, .waitFor id slot ∈ pending →
    ∃ found, s.slots[slot]? = some found ∧ found.owner = id ∧
      (s.asks.lookup id = some slot ∨
        s.asks.lookup id = none ∧
          (found.done = false ∧
              (∃ payload, .fillSlot id slot payload ∈ pending) ∨
            found.done = true ∧ .finishCalled id found.payload ∈ s.trace))
  filling : ∀ id slot payload, .fillSlot id slot payload ∈ pending →
    s.slots[slot]? = some ⟨id, false, []⟩ ∧
      .finishCalled id payload ∈ s.trace ∧
      (.expired id ∈ s.trace ∨ .waitFor id slot ∈ pending ∨
        Withdrawn s.trace pending id)
  notifying : ∀ id payload, .notifyOne id payload ∈ pending →
    .expired id ∈ s.trace ∨ .taken id (some payload) ∈ s.trace ∨
      Withdrawn s.trace pending id ∨
      ∃ slot, .waitFor id slot ∈ pending ∧
        s.slots[slot]? = some ⟨id, true, payload⟩
  taken_once : ∀ id first second, .taken id first ∈ s.trace →
    .taken id second ∈ s.trace → first = second
  taken_gone : ∀ id result, .taken id result ∈ s.trace →
    (∀ sec ∈ pending, sec.tag ≠ some (true, id)) ∧ s.asks.lookup id = none
  answered : ∀ id payload, .taken id (some payload) ∈ s.trace →
    .finishCalled id payload ∈ s.trace
  timed_out : ∀ id, .cancelAsk id true ∈ pending → .expired id ∈ s.trace
  timely : ∀ id payload, TimelyReply s.trace id payload →
    Issued s.nextMsgId id ∧
    (.taken id (some payload) ∈ s.trace ∨ Withdrawn s.trace pending id ∨
      ∃ slot, .waitFor id slot ∈ pending ∧
        s.slots[slot]? = some ⟨id, true, payload⟩)

theorem askInv_init : AskInv AskState.init 0 := by
  constructor
  case unique => exact uniqueTags_zero _
  case timely =>
    rintro id payload ⟨before, after, htrace, -⟩
    simp [AskState.init] at htrace
  all_goals simp [AskState.init]

theorem mem_append_taken {trace : List AskEvent} {id asked : UInt64}
    {ended result : Option (List UInt8)} :
    .taken asked result ∈ trace ++ [AskEvent.taken id ended] ↔
      .taken asked result ∈ trace ∨ asked = id ∧ result = ended := by
  rw [List.mem_append, List.mem_singleton, AskEvent.taken.injEq]

theorem taken_once_append {trace : List AskEvent} {id : UInt64}
    {ended : Option (List UInt8)}
    (honce : ∀ asked first second, .taken asked first ∈ trace →
      .taken asked second ∈ trace → first = second)
    (hnothing : ∀ result, .taken id result ∉ trace) (asked : UInt64)
    (first second : Option (List UInt8))
    (hfirst : .taken asked first ∈ trace ++ [AskEvent.taken id ended])
    (hsecond : .taken asked second ∈ trace ++ [AskEvent.taken id ended]) :
    first = second := by
  rcases mem_append_taken.mp hfirst with hfirst | ⟨heq, rfl⟩
  · rcases mem_append_taken.mp hsecond with hsecond | ⟨heq, -⟩
    · exact honce asked first second hfirst hsecond
    · exact absurd (heq ▸ hfirst) (hnothing first)
  · rcases mem_append_taken.mp hsecond with hsecond | ⟨-, rfl⟩
    · exact absurd (heq ▸ hsecond) (hnothing second)
    · rfl

/-- The asker of a withdrawn ask is not the one that takes its result. -/
theorem Withdrawn.taken {trace : List AskEvent} {sec : AskSection}
    {others : Multiset AskSection} {id asked : UInt64}
    (hnone : Withdrawn trace (sec ::ₘ others) asked)
    (htag : sec.tag = some (true, id)) (hsec : sec ≠ .cancelAsk id false)
    (result : Option (List UInt8)) :
    Withdrawn (trace ++ [.taken id result]) others asked := by
  have hne : asked ≠ id := by
    rintro rfl
    exact hsec (hnone.2 sec (Multiset.mem_cons_self _ _) htag)
  refine ⟨fun taken hmem => ?_, fun other hmem =>
    hnone.2 other (Multiset.mem_cons_of_mem hmem)⟩
  rcases mem_append_taken.mp hmem with hmem | ⟨heq, -⟩
  · exact hnone.1 taken hmem
  · exact hne heq

theorem timelyReply_taken {trace : List AskEvent} {id asked : UInt64}
    {result : Option (List UInt8)} {payload : List UInt8}
    (htimely : TimelyReply (trace ++ [.taken id result]) asked payload) :
    TimelyReply trace asked payload := by
  simpa using (timelyReply_append ..).mp htimely

namespace AskInv

variable {s : AskState} {others : Multiset AskSection} {id : UInt64}

theorem lookup_eq_none {pending : Multiset AskSection}
    (hinv : AskInv s pending) (hid : ¬ Issued s.nextMsgId id) :
    s.asks.lookup id = none := by
  cases hlookup : s.asks.lookup id with
  | none => rfl
  | some slot => exact absurd (hinv.asks_issued id slot hlookup) hid

/-- Nothing knows of the id yet. -/
def Unused (s : AskState) (pending : Multiset AskSection) (id : UInt64) : Prop :=
  s.asks.lookup id = none ∧ (∀ sec ∈ pending, ∀ side, sec.tag ≠ some (side, id)) ∧
    (∀ result, .taken id result ∉ s.trace) ∧
    ∀ payload, ¬ TimelyReply s.trace id payload

/-- A section comes in freely that has no tag, or that begins an ask with an id
that nothing knows of. -/
theorem added (hinv : AskInv s others) (sec : AskSection)
    (hsec : ∀ side id, sec.tag = some (side, id) →
      sec = .beginAsk id ∧ Issued s.nextMsgId id ∧ Unused s others id) :
    AskInv s (sec ::ₘ others) := by
  have hnew : ∀ {other}, other ∈ others → other ∈ sec ::ₘ others :=
    Multiset.mem_cons_of_mem
  have hunused : ∀ {side id}, sec.tag = some (side, id) → Unused s others id :=
    fun htag => (hsec _ _ htag).2.2
  have hside : ∀ {id}, sec.tag ≠ some (false, id) := by
    intro id htag
    obtain ⟨rfl, -⟩ := hsec false id htag
    cases htag
  -- a section with a tag that begins no ask was there before
  have hold : ∀ {other side id}, other.tag = some (side, id) → other ≠ .beginAsk id →
      other ∈ sec ::ₘ others → other ∈ others := by
    intro other side id htag hne hmem
    refine (Multiset.mem_cons.mp hmem).resolve_left ?_
    rintro rfl
    exact hne (hsec side id htag).1
  have hwithdrawn : ∀ {id}, ¬ Unused s others id → Withdrawn s.trace others id →
      Withdrawn s.trace (sec ::ₘ others) id := by
    intro id hused hnone
    refine ⟨hnone.1, fun other hmem htag => ?_⟩
    obtain rfl | hmem := Multiset.mem_cons.mp hmem
    · exact absurd (hunused htag) hused
    · exact hnone.2 other hmem htag
  have hfinisher : ∀ {other id}, other ∈ others → other.tag = some (false, id) →
      ¬ Unused s others id :=
    fun hmem htag hunused => hunused.2.1 _ hmem false htag
  have hopposite : ∀ {id}, (∀ other ∈ others, other.tag ≠ some (false, id)) →
      ∀ other ∈ sec ::ₘ others, other.tag ≠ some (false, id) := by
    intro id hnone other hmem
    obtain rfl | hmem := Multiset.mem_cons.mp hmem
    · exact hside
    · exact hnone other hmem
  constructor
  case unique =>
    rw [uniqueTags_cons]
    refine ⟨?_, hinv.unique⟩
    rintro ⟨side, id⟩ htag other hmem
    exact (hunused htag).2.1 other hmem side
  case issued =>
    intro other hmem side id htag
    obtain rfl | hmem := Multiset.mem_cons.mp hmem
    · exact (hsec side id htag).2.1
    · exact hinv.issued other hmem side id htag
  case asks_issued => exact hinv.asks_issued
  case taken_issued => exact hinv.taken_issued
  case unbegun =>
    intro id hbegins
    obtain rfl | hbegins := Multiset.mem_cons.mp hbegins
    · obtain ⟨hlookup, hnone, -⟩ := (hsec true id rfl).2.2
      exact ⟨hlookup, hopposite fun other hmem => hnone other hmem false⟩
    · obtain ⟨hlookup, hnone⟩ := hinv.unbegun id hbegins
      exact ⟨hlookup, hopposite hnone⟩
  case open_slot =>
    intro id slot hlookup
    obtain ⟨hslot, hnone⟩ := hinv.open_slot id slot hlookup
    exact ⟨hslot, hopposite hnone⟩
  case waiting =>
    intro id slot hwaits
    obtain ⟨found, hfound, howner, hstate⟩ :=
      hinv.waiting id slot (hold rfl (by simp) hwaits)
    refine ⟨found, hfound, howner, hstate.imp_right ?_⟩
    rintro ⟨hclosed, ⟨hdone, payload, hfills⟩ | hcalled⟩
    · exact ⟨hclosed, Or.inl ⟨hdone, payload, hnew hfills⟩⟩
    · exact ⟨hclosed, Or.inr hcalled⟩
  case filling =>
    intro id slot payload hfills
    have hbefore := hold rfl (by simp) hfills
    obtain ⟨hslot, hcalled, hasker⟩ := hinv.filling id slot payload hbefore
    exact ⟨hslot, hcalled,
      hasker.imp_right (Or.imp hnew (hwithdrawn (hfinisher hbefore rfl)))⟩
  case notifying =>
    intro id payload hnotifies
    have hbefore := hold rfl (by simp) hnotifies
    refine (hinv.notifying id payload hbefore).imp_right (Or.imp_right ?_)
    refine Or.imp (hwithdrawn (hfinisher hbefore rfl)) ?_
    rintro ⟨slot, hwaits, hslot⟩
    exact ⟨slot, hnew hwaits, hslot⟩
  case taken_once => exact hinv.taken_once
  case taken_gone =>
    intro id result htaken
    obtain ⟨hnone, hlookup⟩ := hinv.taken_gone id result htaken
    refine ⟨fun other hmem htag => ?_, hlookup⟩
    obtain rfl | hmem := Multiset.mem_cons.mp hmem
    · exact (hunused htag).2.2.1 result htaken
    · exact hnone other hmem htag
  case answered => exact hinv.answered
  case timed_out =>
    exact fun id hcancels => hinv.timed_out id (hold rfl (by simp) hcancels)
  case timely =>
    intro id payload htimely
    obtain ⟨hissued, hreply⟩ := hinv.timely id payload htimely
    have hused : ¬ Unused s others id :=
      fun hunused => hunused.2.2.2 payload htimely
    refine ⟨hissued, hreply.imp_right (Or.imp (hwithdrawn hused) ?_)⟩
    rintro ⟨slot, hwaits, hslot⟩
    exact ⟨slot, hnew hwaits, hslot⟩

theorem add_untagged (hinv : AskInv s others) (sec : AskSection)
    (htag : sec.tag = none) : AskInv s (sec ::ₘ others) :=
  hinv.added sec (by simp [htag])

/-- A section may end that is not needed for the ties of the others. -/
theorem dropped {sec : AskSection} (hinv : AskInv s (sec ::ₘ others))
    (hwaits : ∀ id slot, sec ≠ .waitFor id slot)
    (hfills : ∀ id slot payload, sec ≠ .fillSlot id slot payload) :
    AskInv s others := by
  have hwithdrawn : ∀ {id}, Withdrawn s.trace (sec ::ₘ others) id →
      Withdrawn s.trace others id := fun hnone =>
    ⟨hnone.1, fun other hmem => hnone.2 other (Multiset.mem_cons_of_mem hmem)⟩
  have hnew : ∀ {other}, other ∈ others → other ∈ sec ::ₘ others :=
    Multiset.mem_cons_of_mem
  have hkept : ∀ {other}, other ∈ sec ::ₘ others → sec ≠ other → other ∈ others :=
    fun hmem hne => (Multiset.mem_cons.mp hmem).resolve_left (Ne.symm hne)
  constructor
  case unique => exact ((uniqueTags_cons _ _ _).mp hinv.unique).2
  case issued => exact fun other hmem => hinv.issued other (hnew hmem)
  case asks_issued => exact hinv.asks_issued
  case taken_issued => exact hinv.taken_issued
  case unbegun =>
    intro id hbegins
    obtain ⟨hlookup, hnone⟩ := hinv.unbegun id (hnew hbegins)
    exact ⟨hlookup, fun other hmem => hnone other (hnew hmem)⟩
  case open_slot =>
    intro id slot hlookup
    obtain ⟨hslot, hnone⟩ := hinv.open_slot id slot hlookup
    exact ⟨hslot, fun other hmem => hnone other (hnew hmem)⟩
  case waiting =>
    intro id slot hwaiting
    obtain ⟨found, hfound, howner, hstate⟩ := hinv.waiting id slot (hnew hwaiting)
    refine ⟨found, hfound, howner, hstate.imp_right ?_⟩
    rintro ⟨hclosed, ⟨hdone, payload, hfilling⟩ | hcalled⟩
    · have hmem := hkept hfilling (hfills id slot payload)
      exact ⟨hclosed, Or.inl ⟨hdone, payload, hmem⟩⟩
    · exact ⟨hclosed, Or.inr hcalled⟩
  case filling =>
    intro id slot payload hfilling
    obtain ⟨hslot, hcalled, hasker⟩ :=
      hinv.filling id slot payload (hnew hfilling)
    refine ⟨hslot, hcalled, hasker.imp_right (Or.imp ?_ hwithdrawn)⟩
    exact fun hwaiting => hkept hwaiting (hwaits id slot)
  case notifying =>
    intro id payload hnotifies
    refine (hinv.notifying id payload (hnew hnotifies)).imp_right ?_
    refine Or.imp_right (Or.imp hwithdrawn ?_)
    rintro ⟨slot, hwaiting, hslot⟩
    exact ⟨slot, hkept hwaiting (hwaits id slot), hslot⟩
  case taken_once => exact hinv.taken_once
  case taken_gone =>
    intro id result htaken
    obtain ⟨hnone, hlookup⟩ := hinv.taken_gone id result htaken
    exact ⟨fun other hmem => hnone other (hnew hmem), hlookup⟩
  case answered => exact hinv.answered
  case timed_out => exact fun id hcancels => hinv.timed_out id (hnew hcancels)
  case timely =>
    intro id payload htimely
    obtain ⟨hissued, hreply⟩ := hinv.timely id payload htimely
    refine ⟨hissued, hreply.imp_right (Or.imp hwithdrawn ?_)⟩
    rintro ⟨slot, hwaiting, hslot⟩
    exact ⟨slot, hkept hwaiting (hwaits id slot), hslot⟩

theorem drop_untagged {sec : AskSection} (hinv : AskInv s (sec ::ₘ others))
    (htag : sec.tag = none) : AskInv s others := by
  apply hinv.dropped
  · rintro id slot rfl
    cases htag
  · rintro id slot payload rfl
    cases htag

/-- The end of an ask apart, an event ties nothing, unless it is the return of a
reply in time. -/
theorem recorded {event : AskEvent} (hinv : AskInv s others)
    (hnot : ∀ id result, event ≠ .taken id result)
    (hreply : ∀ id payload, event = .finishReturned id payload true →
      .expired id ∉ s.trace → Issued s.nextMsgId id ∧
        (.taken id (some payload) ∈ s.trace ∨ Withdrawn s.trace others id ∨
          ∃ slot, .waitFor id slot ∈ others ∧
            s.slots[slot]? = some ⟨id, true, payload⟩)) :
    AskInv (s.record event) others := by
  have hold : ∀ {other}, other ∈ s.trace → other ∈ (s.record event).trace :=
    List.mem_append_left _
  have htaken : ∀ {id result}, .taken id result ∈ (s.record event).trace →
      .taken id result ∈ s.trace := by
    intro id result hmem
    refine (List.mem_append.mp hmem).resolve_right fun hnew => ?_
    exact hnot id result (List.mem_singleton.mp hnew).symm
  have hwithdrawn : ∀ {id}, Withdrawn s.trace others id →
      Withdrawn (s.record event).trace others id :=
    fun hnone => ⟨fun result hmem => hnone.1 result (htaken hmem), hnone.2⟩
  constructor
  case unique => exact hinv.unique
  case issued => exact hinv.issued
  case asks_issued => exact hinv.asks_issued
  case taken_issued =>
    exact fun id result hmem => hinv.taken_issued id result (htaken hmem)
  case unbegun => exact hinv.unbegun
  case open_slot => exact hinv.open_slot
  case waiting =>
    intro id slot hwaits
    obtain ⟨found, hfound, howner, hstate⟩ := hinv.waiting id slot hwaits
    refine ⟨found, hfound, howner, ?_⟩
    rcases hstate with hopen | ⟨hclosed, hfilling | ⟨hdone, hcalled⟩⟩
    · exact Or.inl hopen
    · exact Or.inr ⟨hclosed, Or.inl hfilling⟩
    · exact Or.inr ⟨hclosed, Or.inr ⟨hdone, hold hcalled⟩⟩
  case filling =>
    intro id slot payload hfills
    obtain ⟨hslot, hcalled, hasker⟩ := hinv.filling id slot payload hfills
    refine ⟨hslot, hold hcalled, ?_⟩
    exact hasker.imp hold (Or.imp_right hwithdrawn)
  case notifying =>
    intro id payload hnotifies
    refine (hinv.notifying id payload hnotifies).imp hold ?_
    exact Or.imp hold (Or.imp_left hwithdrawn)
  case taken_once =>
    exact fun id first second hfirst hsecond =>
      hinv.taken_once id first second (htaken hfirst) (htaken hsecond)
  case taken_gone =>
    exact fun id result hmem => hinv.taken_gone id result (htaken hmem)
  case answered =>
    exact fun id payload hmem => hold (hinv.answered id payload (htaken hmem))
  case timed_out =>
    exact fun id hcancels => hold (hinv.timed_out id hcancels)
  case timely =>
    intro id payload htimely
    have hissued : Issued s.nextMsgId id ∧
        (.taken id (some payload) ∈ s.trace ∨ Withdrawn s.trace others id ∨
          ∃ slot, .waitFor id slot ∈ others ∧
            s.slots[slot]? = some ⟨id, true, payload⟩) := by
      rcases (timelyReply_append ..).mp htimely with hearlier | ⟨hnow, hintime⟩
      · exact hinv.timely id payload hearlier
      · exact hreply id payload hnow hintime
    exact ⟨hissued.1, hissued.2.imp hold (Or.imp_left hwithdrawn)⟩

/-- The asker goes on from one section to the next and the state is the same.
If it has waited, it waited in vain. -/
theorem moved {sec after : AskSection} (hinv : AskInv s (sec ::ₘ others))
    (hsec : sec.tag = some (true, id)) (hafter : after.tag = some (true, id))
    (hkeeps : sec ≠ .cancelAsk id false) (hbegins : after ≠ .beginAsk id)
    (hwaits : ∀ slot, after = .waitFor id slot → s.asks.lookup id = some slot)
    (hcancels : after = .cancelAsk id true → .expired id ∈ s.trace)
    (hleaves : ∀ slot, sec = .waitFor id slot → .expired id ∈ s.trace ∧
      ∀ payload, s.slots[slot]? ≠ some ⟨id, true, payload⟩) :
    AskInv s (after ::ₘ others) := by
  have hself := Multiset.mem_cons_self sec others
  have hafterSelf := Multiset.mem_cons_self after others
  have hother := ((uniqueTags_cons _ _ _).mp hinv.unique).1 (true, id) hsec
  have hold : ∀ {other}, other ∈ others → other ∈ sec ::ₘ others :=
    Multiset.mem_cons_of_mem
  have hnew : ∀ {other}, other ∈ others → other ∈ after ::ₘ others :=
    Multiset.mem_cons_of_mem
  -- a section of another side or another ask is the same before and after
  have hkept : ∀ {other tag}, other.tag = some tag → tag ≠ (true, id) →
      (other ∈ sec ::ₘ others ↔ other ∈ after ::ₘ others) :=
    mem_replace_iff hsec hafter
  have hfilling : ∀ {id slot payload}, .fillSlot id slot payload ∈ sec ::ₘ others ↔
      .fillSlot id slot payload ∈ after ::ₘ others := hkept rfl (by simp)
  have hwithdrawn : ∀ {id}, Withdrawn s.trace (sec ::ₘ others) id →
      Withdrawn s.trace (after ::ₘ others) id := by
    intro asked hnone
    have hne : asked ≠ id := by
      rintro rfl
      exact hkeeps (hnone.2 sec hself hsec)
    exact ⟨hnone.1, fun other hmem htag =>
      hnone.2 other ((hkept htag (by simpa using hne)).mpr hmem) htag⟩
  -- an asker that has waited either goes on waiting or had `sec` wait
  have hwaiting : ∀ {asked slot}, .waitFor asked slot ∈ sec ::ₘ others →
      .waitFor asked slot ∈ after ::ₘ others ∨
        asked = id ∧ sec = .waitFor id slot := by
    intro asked slot hmem
    rcases Multiset.mem_cons.mp hmem with rfl | hmem
    · obtain rfl : asked = id := by simpa [AskSection.tag] using hsec
      exact Or.inr ⟨rfl, rfl⟩
    · exact Or.inl (hnew hmem)
  have htagged : ∀ {other side asked}, other ∈ after ::ₘ others →
      other.tag = some (side, asked) →
      ∃ same ∈ sec ::ₘ others, same.tag = some (side, asked) :=
    exists_tag_of_replace (hafter.trans hsec.symm)
  constructor
  case unique => exact hinv.unique.replace (hafter.trans hsec.symm)
  case issued =>
    intro other hmem side asked htag
    obtain ⟨same, hsame, htag⟩ := htagged hmem htag
    exact hinv.issued same hsame side asked htag
  case asks_issued => exact hinv.asks_issued
  case taken_issued => exact hinv.taken_issued
  case unbegun =>
    intro asked hbegin
    obtain rfl | hbegin := Multiset.mem_cons.mp hbegin
    · obtain rfl : asked = id := by simpa [AskSection.tag] using hafter
      exact absurd rfl hbegins
    · obtain ⟨hlookup, hnone⟩ := hinv.unbegun asked (hold hbegin)
      refine ⟨hlookup, fun other hmem htag => ?_⟩
      obtain ⟨same, hsame, htag⟩ := htagged hmem htag
      exact hnone same hsame htag
  case open_slot =>
    intro asked slot hlookup
    obtain ⟨hslot, hnone⟩ := hinv.open_slot asked slot hlookup
    refine ⟨hslot, fun other hmem htag => ?_⟩
    obtain ⟨same, hsame, htag⟩ := htagged hmem htag
    exact hnone same hsame htag
  case waiting =>
    intro asked slot hwait
    obtain rfl | hwait := Multiset.mem_cons.mp hwait
    · obtain rfl : asked = id := by simpa [AskSection.tag] using hafter
      have hlookup := hwaits slot rfl
      exact ⟨_, (hinv.open_slot asked slot hlookup).1, rfl, Or.inl hlookup⟩
    · obtain ⟨found, hfound, howner, hstate⟩ := hinv.waiting asked slot (hold hwait)
      refine ⟨found, hfound, howner, hstate.imp_right ?_⟩
      rintro ⟨hclosed, ⟨hdone, payload, hfills⟩ | hcalled⟩
      · exact ⟨hclosed, Or.inl ⟨hdone, payload, hfilling.mp hfills⟩⟩
      · exact ⟨hclosed, Or.inr hcalled⟩
  case filling =>
    intro asked slot payload hfills
    obtain ⟨hslot, hcalled, hasker⟩ :=
      hinv.filling asked slot payload (hfilling.mpr hfills)
    refine ⟨hslot, hcalled, ?_⟩
    rcases hasker with hexpired | hwait | hnone
    · exact Or.inl hexpired
    · rcases hwaiting hwait with hwait | ⟨rfl, hleft⟩
      · exact Or.inr (Or.inl hwait)
      · exact Or.inl (hleaves slot hleft).1
    · exact Or.inr (Or.inr (hwithdrawn hnone))
  case notifying =>
    intro asked payload hnotifies
    rcases hinv.notifying asked payload ((hkept rfl (by simp)).mpr hnotifies) with
      hexpired | htaken | hnone | ⟨slot, hwait, hslot⟩
    · exact Or.inl hexpired
    · exact Or.inr (Or.inl htaken)
    · exact Or.inr (Or.inr (Or.inl (hwithdrawn hnone)))
    · rcases hwaiting hwait with hwait | ⟨rfl, hleft⟩
      · exact Or.inr (Or.inr (Or.inr ⟨slot, hwait, hslot⟩))
      · exact Or.inl (hleaves slot hleft).1
  case taken_once => exact hinv.taken_once
  case taken_gone =>
    intro asked result htaken
    obtain ⟨hnone, hlookup⟩ := hinv.taken_gone asked result htaken
    refine ⟨fun other hmem htag => ?_, hlookup⟩
    obtain ⟨same, hsame, htag⟩ := htagged hmem htag
    exact hnone same hsame htag
  case answered => exact hinv.answered
  case timed_out =>
    intro asked hcancel
    obtain rfl | hcancel := Multiset.mem_cons.mp hcancel
    · obtain rfl : asked = id := by simpa [AskSection.tag] using hafter
      exact hcancels rfl
    · exact hinv.timed_out asked (hold hcancel)
  case timely =>
    intro asked payload htimely
    obtain ⟨hissued, hreply⟩ := hinv.timely asked payload htimely
    refine ⟨hissued, hreply.imp_right (Or.imp hwithdrawn ?_)⟩
    rintro ⟨slot, hwait, hslot⟩
    rcases hwaiting hwait with hwait | ⟨rfl, hleft⟩
    · exact ⟨slot, hwait, hslot⟩
    · exact absurd hslot ((hleaves slot hleft).2 payload)

theorem allocated (hinv : AskInv s others) (hnext : s.nextMsgId ≠ 0) :
    AskInv { s with nextMsgId := s.nextMsgId + 1 } others := by
  have hsucc : ∀ {id}, Issued s.nextMsgId id → Issued (s.nextMsgId + 1) id :=
    fun hid => hid.succ hnext
  refine { hinv with
    issued := ?_, asks_issued := ?_, taken_issued := ?_, timely := ?_ }
  · exact fun sec hsec side id htag => hsucc (hinv.issued sec hsec side id htag)
  · exact fun id slot hlookup => hsucc (hinv.asks_issued id slot hlookup)
  · exact fun id result hmem => hsucc (hinv.taken_issued id result hmem)
  · intro id payload htimely
    exact (hinv.timely id payload htimely).imp_left hsucc

theorem prepared (hinv : AskInv s others) (hnext : s.nextMsgId ≠ 0) :
    AskInv { s with nextMsgId := s.nextMsgId + 1 }
      (.beginAsk s.nextMsgId ::ₘ others) := by
  have hfresh := not_issued_self hnext
  refine (hinv.allocated hnext).added _ ?_
  rintro side id ⟨⟩
  refine ⟨rfl, issued_self hnext, hinv.lookup_eq_none hfresh, ?_, ?_, ?_⟩
  · exact fun sec hsec side htag => hfresh (hinv.issued sec hsec side _ htag)
  · exact fun result hmem => hfresh (hinv.taken_issued _ result hmem)
  · exact fun payload htimely => hfresh (hinv.timely _ payload htimely).1

theorem begun (hinv : AskInv s (.beginAsk id ::ₘ others)) :
    AskInv
      { s with
        asks := s.asks.insert id s.slots.length
        slots := s.slots ++ [⟨id, false, []⟩] }
      (.pushRequest id ::ₘ others) := by
  obtain ⟨hlookup, hnone⟩ := hinv.unbegun id (Multiset.mem_cons_self _ _)
  have hmoved : AskInv s (.pushRequest id ::ₘ others) :=
    hinv.moved rfl rfl (by simp) (by simp) (by simp) (by simp) (by simp)
  have hself := Multiset.mem_cons_self (.pushRequest id) others
  have hother := ((uniqueTags_cons _ _ _).mp hmoved.unique).1 (true, id) rfl
  -- the asker of another section is another one
  have hne : ∀ {sec asked}, sec ≠ .pushRequest id →
      sec ∈ .pushRequest id ::ₘ others → sec.tag = some (true, asked) →
      asked ≠ id := by
    rintro sec asked hsec hmem htag rfl
    exact hother sec ((Multiset.mem_cons.mp hmem).resolve_left hsec) htag
  have hold : ∀ {asked}, asked ≠ id →
      (s.asks.insert id s.slots.length).lookup asked = s.asks.lookup asked := by
    intro asked hasked
    rw [Table.lookup_insert, if_neg hasked]
  have hnew : (s.asks.insert id s.slots.length).lookup id = some s.slots.length := by
    rw [Table.lookup_insert, if_pos rfl]
  have hslots : ∀ {slot : Nat} {found}, s.slots[slot]? = some found →
      (s.slots ++ [⟨id, false, []⟩])[slot]? = some found := by
    intro slot found hfound
    rw [List.getElem?_append_left (List.getElem?_eq_some_iff.mp hfound).1, hfound]
  constructor
  case unique => exact hmoved.unique
  case issued => exact hmoved.issued
  case asks_issued =>
    intro asked slot hasks
    by_cases hasked : asked = id
    · subst hasked
      exact hmoved.issued _ hself true asked rfl
    · exact hmoved.asks_issued asked slot (by rwa [hold hasked] at hasks)
  case taken_issued => exact hmoved.taken_issued
  case unbegun =>
    intro asked hbegins
    obtain ⟨hbefore, hsections⟩ := hmoved.unbegun asked hbegins
    exact ⟨(hold (hne (by simp) hbegins rfl)).trans hbefore, hsections⟩
  case open_slot =>
    intro asked slot hasks
    by_cases hasked : asked = id
    · subst hasked
      obtain rfl := Option.some.inj (hnew.symm.trans hasks)
      refine ⟨List.getElem?_concat_length, fun sec hmem => ?_⟩
      obtain rfl | hmem := Multiset.mem_cons.mp hmem
      · simp [AskSection.tag]
      · exact hnone sec (Multiset.mem_cons_of_mem hmem)
    · rw [hold hasked] at hasks
      obtain ⟨hslot, hsections⟩ := hmoved.open_slot asked slot hasks
      exact ⟨hslots hslot, hsections⟩
  case waiting =>
    intro asked slot hwaits
    obtain ⟨found, hfound, howner, hstate⟩ := hmoved.waiting asked slot hwaits
    rw [← hold (hne (by simp) hwaits rfl)] at hstate
    exact ⟨found, hslots hfound, howner, hstate⟩
  case filling =>
    intro asked slot payload hfills
    obtain ⟨hslot, hcalled, hasker⟩ := hmoved.filling asked slot payload hfills
    exact ⟨hslots hslot, hcalled, hasker⟩
  case notifying =>
    intro asked payload hnotifies
    refine (hmoved.notifying asked payload hnotifies).imp_right ?_
    refine Or.imp_right (Or.imp_right ?_)
    rintro ⟨slot, hwaits, hslot⟩
    exact ⟨slot, hwaits, hslots hslot⟩
  case taken_once => exact hmoved.taken_once
  case taken_gone =>
    intro asked result htaken
    obtain ⟨hgone, hbefore⟩ := hmoved.taken_gone asked result htaken
    have hasked : asked ≠ id := by
      rintro rfl
      exact hgone _ hself rfl
    exact ⟨hgone, (hold hasked).trans hbefore⟩
  case answered => exact hmoved.answered
  case timed_out => exact hmoved.timed_out
  case timely =>
    intro asked payload htimely
    obtain ⟨hissued, hreply⟩ := hmoved.timely asked payload htimely
    refine ⟨hissued, hreply.imp_right (Or.imp_right ?_)⟩
    rintro ⟨slot, hwaits, hslot⟩
    exact ⟨slot, hwaits, hslots hslot⟩

/-- The request was pushed or refused; no shared state changed. -/
theorem pushed {after : AskSection}
    (hinv : AskInv s (.pushRequest id ::ₘ others))
    (hafter : after = .takeLookup id ∨ after = .cancelAsk id false) :
    AskInv s (after ::ₘ others) := by
  rcases hafter with rfl | rfl
  · exact hinv.moved rfl rfl (by simp) (by simp) (by simp) (by simp) (by simp)
  · exact hinv.moved rfl rfl (by simp) (by simp) (by simp) (by simp) (by simp)

theorem looked_up {slot : Nat} (hinv : AskInv s (.takeLookup id ::ₘ others))
    (hlookup : s.asks.lookup id = some slot) :
    AskInv s (.waitFor id slot ::ₘ others) := by
  refine hinv.moved rfl rfl (by simp) (by simp) ?_ (by simp) (by simp)
  rintro at_ ⟨⟩
  exact hlookup

/-- The asker returns false: no timely reply can exist for its id. -/
theorem returned_none {sec : AskSection} (hinv : AskInv s (sec ::ₘ others))
    (htag : sec.tag = some (true, id))
    (hsec : sec = .takeLookup id ∨ sec = .cancelAsk id true)
    (hlookup : s.asks.lookup id = none) :
    AskInv (s.record (.taken id none)) others := by
  have hself := Multiset.mem_cons_self sec others
  have hother := ((uniqueTags_cons _ _ _).mp hinv.unique).1 (true, id) htag
  have hissued := hinv.issued sec hself true id htag
  have hnothing : ∀ result, .taken id result ∉ s.trace := fun result hmem =>
    (hinv.taken_gone id result hmem).1 sec hself htag
  have hrest : AskInv s others := by
    apply hinv.dropped
    · rintro asked slot rfl
      simp at hsec
    · rintro asked slot payload rfl
      simp at hsec
  have hold : ∀ {event}, event ∈ s.trace →
      event ∈ (s.record (.taken id none)).trace :=
    List.mem_append_left _
  have hkeeps : sec ≠ .cancelAsk id false := by
    rintro rfl
    simp at hsec
  have hwithdrawn : ∀ {asked}, Withdrawn s.trace (sec ::ₘ others) asked →
      Withdrawn (s.record (.taken id none)).trace others asked :=
    fun hnone => hnone.taken htag hkeeps none
  have hwaiting : ∀ {asked slot}, .waitFor asked slot ∈ sec ::ₘ others →
      .waitFor asked slot ∈ others := by
    intro asked slot hmem
    refine (Multiset.mem_cons.mp hmem).resolve_left ?_
    rintro rfl
    simp at hsec
  constructor
  case unique => exact hrest.unique
  case issued => exact hrest.issued
  case asks_issued => exact hrest.asks_issued
  case taken_issued =>
    intro asked result hmem
    rcases mem_append_taken.mp hmem with hmem | ⟨rfl, -⟩
    · exact hrest.taken_issued asked result hmem
    · exact hissued
  case unbegun => exact hrest.unbegun
  case open_slot => exact hrest.open_slot
  case waiting =>
    intro asked slot hwaits
    obtain ⟨found, hfound, howner, hstate⟩ := hrest.waiting asked slot hwaits
    refine ⟨found, hfound, howner, hstate.imp_right (And.imp_right ?_)⟩
    exact Or.imp_right (And.imp_right hold)
  case filling =>
    intro asked slot payload hfills
    obtain ⟨hslot, hcalled, hasker⟩ :=
      hinv.filling asked slot payload (Multiset.mem_cons_of_mem hfills)
    exact ⟨hslot, hold hcalled, hasker.imp hold (Or.imp hwaiting hwithdrawn)⟩
  case notifying =>
    intro asked payload hnotifies
    refine (hinv.notifying asked payload (Multiset.mem_cons_of_mem hnotifies)).imp
      hold (Or.imp hold (Or.imp hwithdrawn ?_))
    rintro ⟨slot, hwaits, hslot⟩
    exact ⟨slot, hwaiting hwaits, hslot⟩
  case taken_once => exact taken_once_append hrest.taken_once hnothing
  case taken_gone =>
    intro asked result hmem
    rcases mem_append_taken.mp hmem with hmem | ⟨rfl, -⟩
    · exact hrest.taken_gone asked result hmem
    · exact ⟨hother, hlookup⟩
  case answered =>
    intro asked payload hmem
    rcases mem_append_taken.mp hmem with hmem | ⟨-, heq⟩
    · exact hold (hrest.answered asked payload hmem)
    · cases heq
  case timed_out => exact fun asked hcancels => hold (hrest.timed_out asked hcancels)
  case timely =>
    intro asked payload htimely
    obtain ⟨hissued, hreply⟩ :=
      hinv.timely asked payload (timelyReply_taken htimely)
    refine ⟨hissued, hreply.imp hold (Or.imp hwithdrawn ?_)⟩
    rintro ⟨slot, hwaits, hslot⟩
    exact ⟨slot, hwaiting hwaits, hslot⟩

theorem cancelled {timedOut : Bool}
    (hinv : AskInv s (.cancelAsk id timedOut ::ₘ others)) :
    AskInv { s with asks := s.asks.erase id }
      (.cancelAsk id timedOut ::ₘ others) := by
  have hother := ((uniqueTags_cons _ _ _).mp hinv.unique).1 (true, id) rfl
  have hclosed : ∀ {asked}, s.asks.lookup asked = none →
      (s.asks.erase id).lookup asked = none :=
    fun hlookup => Table.lookup_erase_none hlookup id
  have hopen : ∀ {asked slot}, (s.asks.erase id).lookup asked = some slot →
      s.asks.lookup asked = some slot :=
    fun hlookup => (Table.of_lookup_erase hlookup).2
  refine { hinv with
    asks_issued := ?_, unbegun := ?_, open_slot := ?_, waiting := ?_
    taken_gone := ?_ }
  · exact fun asked slot hlookup => hinv.asks_issued asked slot (hopen hlookup)
  · exact fun asked hbegins => (hinv.unbegun asked hbegins).imp_left hclosed
  · exact fun asked slot hlookup => hinv.open_slot asked slot (hopen hlookup)
  · intro asked slot hwaits
    have hne : asked ≠ id := by
      rintro rfl
      exact hother _ ((Multiset.mem_cons.mp hwaits).resolve_left (by simp)) rfl
    have hsame : (s.asks.erase id).lookup asked = s.asks.lookup asked := by
      rw [Table.lookup_erase, if_neg hne]
    obtain ⟨found, hfound, howner, hstate⟩ := hinv.waiting asked slot hwaits
    rw [← hsame] at hstate
    exact ⟨found, hfound, howner, hstate⟩
  · exact fun asked result htaken =>
      (hinv.taken_gone asked result htaken).imp_right hclosed

theorem ended {timedOut : Bool}
    (hinv : AskInv s (.cancelAsk id timedOut ::ₘ others)) : AskInv s others :=
  hinv.dropped (by simp) (by simp)

theorem expired (hinv : AskInv s others) (id : UInt64) :
    AskInv (s.record (.expired id)) others :=
  hinv.recorded (by simp) (by simp)

theorem gave_up {slot : Nat} (hinv : AskInv s (.waitFor id slot ::ₘ others))
    (hexpired : .expired id ∈ s.trace)
    (hdone : ∀ payload, s.slots[slot]? ≠ some ⟨id, true, payload⟩) :
    AskInv s (.cancelAsk id true ::ₘ others) := by
  refine hinv.moved rfl rfl (by simp) (by simp) (by simp) (fun _ => hexpired) ?_
  rintro at_ ⟨⟩
  exact ⟨hexpired, hdone⟩

/-- A slot is changed; one that holds something else is another one. -/
theorem slot_kept {slots : List AskSlot} {slot at_ : Nat} {before after found : AskSlot}
    (hbefore : slots[slot]? = some before) (hat : slots[at_]? = some found)
    (hne : found ≠ before) : (slots.set slot after)[at_]? = some found := by
  have hdiffers : slot ≠ at_ := by
    rintro rfl
    exact hne (Option.some.inj (hat.symm.trans hbefore))
  exact (List.getElem?_set_ne hdiffers).trans hat

theorem took {slot : Nat} {found : AskSlot}
    (hinv : AskInv s (.waitFor id slot ::ₘ others))
    (hfound : s.slots[slot]? = some found) (hdone : found.done = true) :
    AskInv (s.takePayload id slot found) others := by
  obtain ⟨same, hsame, howner, hstate⟩ :=
    hinv.waiting id slot (Multiset.mem_cons_self _ _)
  obtain rfl : same = found := by simpa [hfound] using hsame.symm
  have hself := Multiset.mem_cons_self (.waitFor id slot) others
  have hother := ((uniqueTags_cons _ _ _).mp hinv.unique).1 (true, id) rfl
  have hissued := hinv.issued _ hself true id rfl
  have hnothing : ∀ result, .taken id result ∉ s.trace := fun result hmem =>
    (hinv.taken_gone id result hmem).1 _ hself rfl
  -- the reply was there before the asker looked, so its slot had been closed
  have hdoneSlot : s.slots[slot]? ≠ some ⟨id, false, []⟩ := by
    rw [hfound]
    rintro ⟨⟩
    cases hdone
  obtain ⟨hclosed, hcalled⟩ : s.asks.lookup id = none ∧
      .finishCalled id same.payload ∈ s.trace := by
    rcases hstate with hopen | ⟨hclosed, ⟨hundone, -⟩ | ⟨-, hcalled⟩⟩
    · exact absurd (hinv.open_slot id slot hopen).1 hdoneSlot
    · exact absurd (hundone.symm.trans hdone) (by simp)
    · exact ⟨hclosed, hcalled⟩
  have hold : ∀ {event}, event ∈ s.trace →
      event ∈ (s.takePayload id slot same).trace := List.mem_append_left _
  have hnew : ∀ {other}, other ∈ others → other ∈ .waitFor id slot ::ₘ others :=
    Multiset.mem_cons_of_mem
  have hslots : ∀ {at_ : Nat} {found}, s.slots[at_]? = some found → found ≠ same →
      (s.takePayload id slot same).slots[at_]? = some found := slot_kept hfound
  have hopened : ∀ {asked}, (⟨asked, false, []⟩ : AskSlot) ≠ same := by
    rintro asked rfl
    cases hdone
  have hwithdrawn : ∀ {asked}, Withdrawn s.trace
      (.waitFor id slot ::ₘ others) asked →
      Withdrawn (s.takePayload id slot same).trace others asked :=
    fun hnone => hnone.taken rfl (by simp) _
  -- the reply that the asker takes is the one in its slot
  have hreplied : ∀ {asked payload},
      (.taken asked (some payload) ∈ s.trace ∨
        Withdrawn s.trace (.waitFor id slot ::ₘ others) asked ∨
          ∃ at_, .waitFor asked at_ ∈ .waitFor id slot ::ₘ others ∧
            s.slots[at_]? = some ⟨asked, true, payload⟩) →
      .taken asked (some payload) ∈ (s.takePayload id slot same).trace ∨
        Withdrawn (s.takePayload id slot same).trace others asked ∨
          ∃ at_, .waitFor asked at_ ∈ others ∧
            (s.takePayload id slot same).slots[at_]? =
              some ⟨asked, true, payload⟩ := by
    rintro asked payload (htaken | hnone | ⟨at_, hwaits, hat⟩)
    · exact Or.inl (hold htaken)
    · exact Or.inr (Or.inl (hwithdrawn hnone))
    · obtain heq | hwaits := Multiset.mem_cons.mp hwaits
      · obtain ⟨rfl, rfl⟩ := AskSection.waitFor.inj heq
        obtain rfl := Option.some.inj (hfound.symm.trans hat)
        exact Or.inl (mem_append_taken.mpr (Or.inr ⟨rfl, rfl⟩))
      · refine Or.inr (Or.inr ⟨at_, hwaits, hslots hat ?_⟩)
        rintro rfl
        exact hother _ hwaits (congrArg (fun asked => some (true, asked)) howner)
  constructor
  case unique => exact ((uniqueTags_cons _ _ _).mp hinv.unique).2
  case issued => exact fun sec hmem => hinv.issued sec (hnew hmem)
  case asks_issued => exact hinv.asks_issued
  case taken_issued =>
    intro asked result hmem
    rcases mem_append_taken.mp hmem with hmem | ⟨rfl, -⟩
    · exact hinv.taken_issued asked result hmem
    · exact hissued
  case unbegun =>
    intro asked hbegins
    obtain ⟨hlookup, hnone⟩ := hinv.unbegun asked (hnew hbegins)
    exact ⟨hlookup, fun sec hmem => hnone sec (hnew hmem)⟩
  case open_slot =>
    intro asked at_ hlookup
    obtain ⟨hat, hnone⟩ := hinv.open_slot asked at_ hlookup
    exact ⟨hslots hat hopened, fun sec hmem => hnone sec (hnew hmem)⟩
  case waiting =>
    intro asked at_ hwaits
    obtain ⟨other, hat, howned, hother'⟩ := hinv.waiting asked at_ (hnew hwaits)
    refine ⟨other, hslots hat ?_, howned, hother'.imp_right ?_⟩
    · rintro rfl
      have hasked : asked = id := howned.symm.trans howner
      exact hother _ hwaits (congrArg (fun asked => some (true, asked)) hasked)
    · rintro ⟨hgone, ⟨hundone, payload, hfills⟩ | ⟨hreplied, hcalls⟩⟩
      · have hmem := (Multiset.mem_cons.mp hfills).resolve_left (by simp)
        exact ⟨hgone, Or.inl ⟨hundone, payload, hmem⟩⟩
      · exact ⟨hgone, Or.inr ⟨hreplied, hold hcalls⟩⟩
  case filling =>
    intro asked at_ payload hfills
    obtain ⟨hat, hcalls, hasker⟩ := hinv.filling asked at_ payload (hnew hfills)
    refine ⟨hslots hat hopened, hold hcalls, hasker.imp hold (Or.imp ?_ hwithdrawn)⟩
    intro hwaits
    refine (Multiset.mem_cons.mp hwaits).resolve_left fun heq => ?_
    obtain ⟨rfl, rfl⟩ := AskSection.waitFor.inj heq
    exact hdoneSlot hat
  case notifying =>
    exact fun asked payload hnotifies =>
      (hinv.notifying asked payload (hnew hnotifies)).imp hold hreplied
  case taken_once => exact taken_once_append hinv.taken_once hnothing
  case taken_gone =>
    intro asked result hmem
    rcases mem_append_taken.mp hmem with hmem | ⟨rfl, -⟩
    · obtain ⟨hnone, hlookup⟩ := hinv.taken_gone asked result hmem
      exact ⟨fun sec hmem => hnone sec (hnew hmem), hlookup⟩
    · exact ⟨hother, hclosed⟩
  case answered =>
    intro asked payload hmem
    rcases mem_append_taken.mp hmem with hmem | ⟨rfl, heq⟩
    · exact hold (hinv.answered asked payload hmem)
    · obtain rfl := Option.some.inj heq
      exact hold hcalled
  case timed_out =>
    exact fun asked hcancels => hold (hinv.timed_out asked (hnew hcancels))
  case timely =>
    intro asked payload htimely
    exact (hinv.timely asked payload (timelyReply_taken htimely)).imp_right hreplied

theorem finish_called (hinv : AskInv s others) (id : UInt64)
    (payload : List UInt8) :
    AskInv (s.record (.finishCalled id payload)) others :=
  hinv.recorded (by simp) (by simp)

theorem finish_missed {payload : List UInt8} (hinv : AskInv s others) :
    AskInv (s.record (.finishReturned id payload false)) others :=
  hinv.recorded (by simp) (by simp)

/-- An asker whose slot is looked up by its id and who is not before the lookup of
its own has given up, waits for that slot or was withdrawn. -/
theorem asker_of_lookup {slot : Nat} (hinv : AskInv s others)
    (hlookup : s.asks.lookup id = some slot) (hpush : .pushRequest id ∉ others)
    (hlook : .takeLookup id ∉ others) :
    .expired id ∈ s.trace ∨ .waitFor id slot ∈ others ∨ Withdrawn s.trace others id := by
  have hnothing : ∀ result, .taken id result ∉ s.trace := fun result hmem => by
    simp [(hinv.taken_gone id result hmem).2] at hlookup
  by_cases hwaits : ∃ at_, .waitFor id at_ ∈ others
  · obtain ⟨at_, hat⟩ := hwaits
    obtain ⟨-, -, -, hopen | ⟨hclosed, -⟩⟩ := hinv.waiting id at_ hat
    · obtain rfl := Option.some.inj (hlookup.symm.trans hopen)
      exact Or.inr (Or.inl hat)
    · exact absurd (hlookup.symm.trans hclosed) (by simp)
  · by_cases hcancel : .cancelAsk id true ∈ others
    · exact Or.inl (hinv.timed_out id hcancel)
    · refine Or.inr (Or.inr ⟨hnothing, fun sec hsec htag => ?_⟩)
      cases sec with
      | beginAsk asked =>
          obtain rfl : asked = id := by simpa [AskSection.tag] using htag
          exact absurd ((hinv.unbegun asked hsec).1.symm.trans hlookup) (by simp)
      | pushRequest asked =>
          obtain rfl : asked = id := by simpa [AskSection.tag] using htag
          exact absurd hsec hpush
      | takeLookup asked =>
          obtain rfl : asked = id := by simpa [AskSection.tag] using htag
          exact absurd hsec hlook
      | waitFor asked at_ =>
          obtain rfl : asked = id := by simpa [AskSection.tag] using htag
          exact absurd ⟨at_, hsec⟩ hwaits
      | cancelAsk asked timedOut =>
          obtain rfl : asked = id := by simpa [AskSection.tag] using htag
          cases timedOut with
          | false => rfl
          | true => exact absurd hsec hcancel
      | _ => simp [AskSection.tag] at htag

theorem finish_found {slot : Nat} {payload : List UInt8}
    (hinv : AskInv s others) (hlookup : s.asks.lookup id = some slot)
    (hcalled : .finishCalled id payload ∈ s.trace)
    (hpush : .pushRequest id ∉ others) (hlook : .takeLookup id ∉ others) :
    AskInv { s with asks := s.asks.erase id }
      (.fillSlot id slot payload ::ₘ others) := by
  obtain ⟨hslot, hnone⟩ := hinv.open_slot id slot hlookup
  have hasker := hinv.asker_of_lookup hlookup hpush hlook
  have hnew : ∀ {other}, other ∈ others →
      other ∈ .fillSlot id slot payload ::ₘ others :=
    Multiset.mem_cons_of_mem
  have hold : ∀ {other}, other.tag ≠ some (false, id) →
      other ∈ .fillSlot id slot payload ::ₘ others → other ∈ others := by
    intro other htag hmem
    refine (Multiset.mem_cons.mp hmem).resolve_left ?_
    rintro rfl
    exact htag rfl
  have hwithdrawn : ∀ {asked}, Withdrawn s.trace others asked →
      Withdrawn s.trace (.fillSlot id slot payload ::ₘ others) asked :=
    fun hgone => ⟨hgone.1, fun other hmem htag =>
      hgone.2 other (hold (by simp [htag]) hmem) htag⟩
  have hreplied : ∀ {asked reply},
      (.taken asked (some reply) ∈ s.trace ∨ Withdrawn s.trace others asked ∨
        ∃ at_, .waitFor asked at_ ∈ others ∧
          s.slots[at_]? = some ⟨asked, true, reply⟩) →
      .taken asked (some reply) ∈ s.trace ∨
        Withdrawn s.trace (.fillSlot id slot payload ::ₘ others) asked ∨
          ∃ at_, .waitFor asked at_ ∈ .fillSlot id slot payload ::ₘ others ∧
            s.slots[at_]? = some ⟨asked, true, reply⟩ :=
    Or.imp_right (Or.imp hwithdrawn fun ⟨at_, hwaits, hat⟩ => ⟨at_,
      hnew hwaits, hat⟩)
  -- the id is looked up only until the slot is found
  have hclosed : ∀ {asked}, s.asks.lookup asked = none →
      (s.asks.erase id).lookup asked = none :=
    fun hgone => Table.lookup_erase_none hgone id
  have hopened : ∀ {asked at_}, (s.asks.erase id).lookup asked = some at_ →
      asked ≠ id ∧ s.asks.lookup asked = some at_ := Table.of_lookup_erase
  constructor
  case unique =>
    rw [uniqueTags_cons]
    refine ⟨?_, hinv.unique⟩
    rintro tag ⟨⟩ other hmem
    exact hnone other hmem
  case issued =>
    intro other hmem side asked htag
    obtain rfl | hmem := Multiset.mem_cons.mp hmem
    · obtain ⟨-, rfl⟩ := Prod.mk.inj (Option.some.inj htag)
      exact hinv.asks_issued id slot hlookup
    · exact hinv.issued other hmem side asked htag
  case asks_issued =>
    exact fun asked at_ hfound => hinv.asks_issued asked at_ (hopened hfound).2
  case taken_issued => exact hinv.taken_issued
  case unbegun =>
    intro asked hbegins
    have hbefore := hold (by simp [AskSection.tag]) hbegins
    obtain ⟨hgone, hsections⟩ := hinv.unbegun asked hbefore
    refine ⟨hclosed hgone, fun other hmem htag => ?_⟩
    obtain rfl | hmem := Multiset.mem_cons.mp hmem
    · obtain ⟨-, rfl⟩ := Prod.mk.inj (Option.some.inj htag)
      exact absurd (hgone.symm.trans hlookup) (by simp)
    · exact hsections other hmem htag
  case open_slot =>
    intro asked at_ hfound
    obtain ⟨hne, hfound⟩ := hopened hfound
    obtain ⟨hat, hsections⟩ := hinv.open_slot asked at_ hfound
    refine ⟨hat, fun other hmem htag => ?_⟩
    obtain rfl | hmem := Multiset.mem_cons.mp hmem
    · obtain ⟨-, rfl⟩ := Prod.mk.inj (Option.some.inj htag)
      exact hne rfl
    · exact hsections other hmem htag
  case waiting =>
    intro asked at_ hwaits
    have hbefore := hold (by simp [AskSection.tag]) hwaits
    obtain ⟨found, hat, howner, hstate⟩ := hinv.waiting asked at_ hbefore
    refine ⟨found, hat, howner, ?_⟩
    rcases hstate with hopen | ⟨hgone, hfilled⟩
    · by_cases hne : asked = id
      · subst hne
        obtain rfl := Option.some.inj (hlookup.symm.trans hopen)
        obtain rfl := Option.some.inj (hslot.symm.trans hat)
        refine Or.inr ⟨?_, Or.inl ⟨rfl, payload, Multiset.mem_cons_self _ _⟩⟩
        rw [Table.lookup_erase, if_pos rfl]
      · exact Or.inl (by rw [Table.lookup_erase, if_neg hne, hopen])
    · refine Or.inr ⟨hclosed hgone, hfilled.imp_left ?_⟩
      exact And.imp_right fun ⟨reply, hfills⟩ => ⟨reply, hnew hfills⟩
  case filling =>
    intro asked at_ reply hfills
    obtain heq | hfills := Multiset.mem_cons.mp hfills
    · obtain ⟨rfl, rfl, rfl⟩ := AskSection.fillSlot.inj heq
      exact ⟨hslot, hcalled, hasker.imp_right (Or.imp hnew hwithdrawn)⟩
    · obtain ⟨hat, hcalls, hwaits⟩ := hinv.filling asked at_ reply hfills
      exact ⟨hat, hcalls, hwaits.imp_right (Or.imp hnew hwithdrawn)⟩
  case notifying =>
    intro asked reply hnotifies
    have hbefore := (Multiset.mem_cons.mp hnotifies).resolve_left (by simp)
    exact (hinv.notifying asked reply hbefore).imp_right hreplied
  case taken_once => exact hinv.taken_once
  case taken_gone =>
    intro asked result htaken
    obtain ⟨hsections, hgone⟩ := hinv.taken_gone asked result htaken
    refine ⟨fun other hmem htag => ?_, hclosed hgone⟩
    exact hsections other (hold (by simp [htag]) hmem) htag
  case answered => exact hinv.answered
  case timed_out =>
    exact fun asked hcancels =>
      hinv.timed_out asked (hold (by simp [AskSection.tag]) hcancels)
  case timely =>
    exact fun asked reply htimely =>
      (hinv.timely asked reply htimely).imp_right hreplied

theorem filled {slot : Nat} {payload : List UInt8}
    (hinv : AskInv s (.fillSlot id slot payload ::ₘ others)) :
    AskInv { s with slots := s.slots.set slot ⟨id, true, payload⟩ }
      (.notifyOne id payload ::ₘ others) := by
  obtain ⟨hslot, hcalled, hasker⟩ :=
    hinv.filling id slot payload (Multiset.mem_cons_self _ _)
  have hself := Multiset.mem_cons_self (.fillSlot id slot payload) others
  have hother := ((uniqueTags_cons _ _ _).mp hinv.unique).1 (false, id) rfl
  have hfull : (s.slots.set slot ⟨id, true, payload⟩)[slot]? =
      some ⟨id, true, payload⟩ :=
    List.getElem?_set_self (List.getElem?_eq_some_iff.mp hslot).1
  have hslots : ∀ {at_ : Nat} {found}, s.slots[at_]? = some found →
      found ≠ ⟨id, false, []⟩ →
      (s.slots.set slot ⟨id, true, payload⟩)[at_]? = some found := slot_kept hslot
  -- the two sections differ for their own ask only
  have hkept : ∀ {other tag}, other.tag = some tag → tag ≠ (false, id) →
      (other ∈ .fillSlot id slot payload ::ₘ others ↔
        other ∈ .notifyOne id payload ::ₘ others) :=
    mem_replace_iff rfl rfl
  have htagged : ∀ {other side asked}, other ∈ .notifyOne id payload ::ₘ others →
      other.tag = some (side, asked) →
      ∃ same ∈ .fillSlot id slot payload ::ₘ others,
        same.tag = some (side, asked) :=
    exists_tag_of_replace rfl
  have hwithdrawn : ∀ {asked},
      Withdrawn s.trace (.fillSlot id slot payload ::ₘ others) asked →
        Withdrawn s.trace (.notifyOne id payload ::ₘ others) asked :=
    fun hnone => ⟨hnone.1, fun other hmem htag =>
      hnone.2 other ((hkept htag (by simp)).mpr hmem) htag⟩
  have hwaiting : ∀ {asked at_},
      .waitFor asked at_ ∈ .fillSlot id slot payload ::ₘ others →
        .waitFor asked at_ ∈ .notifyOne id payload ::ₘ others :=
    (hkept rfl (by simp)).mp
  have hreplied : ∀ {asked reply},
      (.taken asked (some reply) ∈ s.trace ∨
        Withdrawn s.trace (.fillSlot id slot payload ::ₘ others) asked ∨
          ∃ at_, .waitFor asked at_ ∈ .fillSlot id slot payload ::ₘ others ∧
            s.slots[at_]? = some ⟨asked, true, reply⟩) →
      .taken asked (some reply) ∈ s.trace ∨
        Withdrawn s.trace (.notifyOne id payload ::ₘ others) asked ∨
          ∃ at_, .waitFor asked at_ ∈ .notifyOne id payload ::ₘ others ∧
            (s.slots.set slot ⟨id, true, payload⟩)[at_]? =
              some ⟨asked, true, reply⟩ := by
    refine Or.imp_right (Or.imp hwithdrawn ?_)
    rintro ⟨at_, hwaits, hat⟩
    exact ⟨at_, hwaiting hwaits, hslots hat (by simp)⟩
  constructor
  case unique => exact hinv.unique.replace rfl
  case issued =>
    intro other hmem side asked htag
    obtain ⟨same, hsame, htag⟩ := htagged hmem htag
    exact hinv.issued same hsame side asked htag
  case asks_issued => exact hinv.asks_issued
  case taken_issued => exact hinv.taken_issued
  case unbegun =>
    intro asked hbegins
    obtain ⟨hgone, hnone⟩ := hinv.unbegun asked ((hkept rfl (by simp)).mpr hbegins)
    refine ⟨hgone, fun other hmem htag => ?_⟩
    obtain ⟨same, hsame, htag⟩ := htagged hmem htag
    exact hnone same hsame htag
  case open_slot =>
    intro asked at_ hlookup
    obtain ⟨hat, hnone⟩ := hinv.open_slot asked at_ hlookup
    refine ⟨hslots hat ?_, fun other hmem htag => ?_⟩
    · rintro ⟨⟩
      exact hnone _ hself rfl
    · obtain ⟨same, hsame, htag⟩ := htagged hmem htag
      exact hnone same hsame htag
  case waiting =>
    intro asked at_ hwaits
    obtain ⟨found, hat, howner, hstate⟩ :=
      hinv.waiting asked at_ ((hkept rfl (by simp)).mpr hwaits)
    by_cases hsame : at_ = slot
    · subst hsame
      obtain rfl := Option.some.inj (hslot.symm.trans hat)
      subst howner
      refine ⟨_, hfull, rfl, Or.inr ⟨?_, Or.inr ⟨rfl, hcalled⟩⟩⟩
      rcases hstate with hopen | ⟨hgone, -⟩
      · exact absurd rfl ((hinv.open_slot id at_ hopen).2 _ hself)
      · exact hgone
    · refine ⟨found, ?_, howner, hstate.imp_right (And.imp_right (Or.imp_left ?_))⟩
      · exact (List.getElem?_set_ne (Ne.symm hsame)).trans hat
      · rintro ⟨hundone, reply, hfills⟩
        refine ⟨hundone, reply, Multiset.mem_cons_of_mem ?_⟩
        refine (Multiset.mem_cons.mp hfills).resolve_left fun heq => ?_
        exact hsame (AskSection.fillSlot.inj heq).2.1
  case filling =>
    intro asked at_ reply hfills
    have hmem := (Multiset.mem_cons.mp hfills).resolve_left (by simp)
    obtain ⟨hat, hcalls, hwaits⟩ :=
      hinv.filling asked at_ reply (Multiset.mem_cons_of_mem hmem)
    refine ⟨hslots hat ?_, hcalls, hwaits.imp_right (Or.imp hwaiting hwithdrawn)⟩
    rintro ⟨⟩
    exact hother _ hmem rfl
  case notifying =>
    intro asked reply hnotifies
    obtain heq | hmem := Multiset.mem_cons.mp hnotifies
    · obtain ⟨rfl, rfl⟩ := AskSection.notifyOne.inj heq
      rcases hasker with hexpired | hwaits | hnone
      · exact Or.inl hexpired
      · exact Or.inr (Or.inr (Or.inr ⟨slot, hwaiting hwaits, hfull⟩))
      · exact Or.inr (Or.inr (Or.inl (hwithdrawn hnone)))
    · exact (hinv.notifying asked reply (Multiset.mem_cons_of_mem hmem)).imp_right
        hreplied
  case taken_once => exact hinv.taken_once
  case taken_gone =>
    intro asked result htaken
    obtain ⟨hnone, hgone⟩ := hinv.taken_gone asked result htaken
    refine ⟨fun other hmem htag => ?_, hgone⟩
    obtain ⟨same, hsame, htag⟩ := htagged hmem htag
    exact hnone same hsame htag
  case answered => exact hinv.answered
  case timed_out =>
    exact fun asked hcancels =>
      hinv.timed_out asked ((hkept rfl (by simp)).mpr hcancels)
  case timely =>
    exact fun asked reply htimely =>
      (hinv.timely asked reply htimely).imp_right hreplied

theorem notified {payload : List UInt8}
    (hinv : AskInv s (.notifyOne id payload ::ₘ others)) :
    AskInv (s.record (.finishReturned id payload true)) others := by
  have hself := Multiset.mem_cons_self (.notifyOne id payload) others
  have hissued := hinv.issued _ hself false id rfl
  have hrest := hinv.dropped (by simp) (by simp)
  refine hrest.recorded (by simp) ?_
  rintro other reply ⟨⟩ hintime
  refine ⟨hissued, ?_⟩
  rcases hinv.notifying id payload hself with
    hexpired | htaken | hnone | ⟨slot, hwaits, hslot⟩
  · exact absurd hexpired hintime
  · exact Or.inl htaken
  · exact Or.inr (Or.inl ⟨hnone.1, fun sec hmem =>
      hnone.2 sec (Multiset.mem_cons_of_mem hmem)⟩)
  · have hmem := (Multiset.mem_cons.mp hwaits).resolve_left (by simp)
    exact Or.inr (Or.inr ⟨slot, hmem, hslot⟩)

end AskInv

theorem askInv_call (s : AskState) (pending : Multiset AskSection)
    (sec : AskSection) (hinv : AskInv s pending)
    (hentry : askEntry sec = true) : AskInv s (sec ::ₘ pending) := by
  cases sec with
  | allocMsgId => exact hinv.add_untagged _ rfl
  | otherAlloc => exact hinv.add_untagged _ rfl
  | dispatchReply conn id payload => exact hinv.add_untagged _ rfl
  | finishAsk id payload => exact hinv.add_untagged _ rfl
  | _ => simp [askEntry] at hentry

theorem askInv_waitFor {s : AskState} {others : Multiset AskSection}
    {id : UInt64} {slot : Nat} {choice : AskChoice}
    {effect : Effect AskState AskSection}
    (hinv : AskInv s (.waitFor id slot ::ₘ others))
    (hexec : s.exec (.waitFor id slot) choice = some effect) :
    AskInv effect.shared (effect.work + others) := by
  obtain ⟨found, hfound, -⟩ :=
    hinv.waiting id slot (Multiset.mem_cons_self _ _)
  simp only [AskState.exec, hfound] at hexec
  cases hdone : found.done with
  | true =>
      cases choice with
      | expire =>
          simp only [hdone, Option.some.injEq] at hexec
          subst hexec
          have hrecorded := hinv.expired id
          simpa using hrecorded.took hfound hdone
      | go | refuse =>
          simp only [hdone, Option.some.injEq] at hexec
          subst hexec
          simpa using hinv.took hfound hdone
  | false =>
      cases choice with
      | expire =>
          simp only [hdone, Option.some.injEq] at hexec
          subst hexec
          have hrecorded := hinv.expired id
          have hlate : .expired id ∈ (s.record (.expired id)).trace := by
            simp [AskState.record]
          have hnot : ∀ payload,
              (s.record (.expired id)).slots[slot]? ≠
                some ⟨id, true, payload⟩ := by
            intro payload hslot
            obtain rfl := Option.some.inj (hfound.symm.trans hslot)
            cases hdone
          simpa using hrecorded.gave_up hlate hnot
      | go | refuse => simp [hdone] at hexec

theorem askInv_finishAsk {s : AskState} {others : Multiset AskSection}
    {id : UInt64} {payload : List UInt8} {choice : AskChoice}
    {effect : Effect AskState AskSection}
    (hinv : AskInv s (.finishAsk id payload ::ₘ others))
    (hguard : AskerLooked s (.finishAsk id payload ::ₘ others)
      (.finishAsk id payload) choice)
    (hexec : s.exec (.finishAsk id payload) choice = some effect) :
    AskInv effect.shared (effect.work + others) := by
  have hcalled := (hinv.drop_untagged rfl).finish_called id payload
  simp only [AskState.exec] at hexec
  cases hlookup : s.asks.lookup id with
  | none =>
      simp only [hlookup, Option.some.injEq] at hexec
      subst hexec
      simpa using hcalled.finish_missed
  | some slot =>
      simp only [hlookup, Option.some.injEq] at hexec
      subst hexec
      obtain ⟨hpush, hlook⟩ := hguard (by simp [hlookup])
      have hmem : .finishCalled id payload ∈
          (s.record (.finishCalled id payload)).trace := by
        simp [AskState.record]
      have hfound := hcalled.finish_found hlookup hmem
        (fun h => hpush (Multiset.mem_cons_of_mem h))
        (fun h => hlook (Multiset.mem_cons_of_mem h))
      simpa [AskState.record] using hfound

theorem askInv_exec (s : AskState) (others : Multiset AskSection)
    (sec : AskSection) (choice : AskChoice)
    (effect : Effect AskState AskSection) (hinv : AskInv s (sec ::ₘ others))
    (hguard : AskerLooked s (sec ::ₘ others) sec choice)
    (hexec : s.exec sec choice = some effect) :
    AskInv effect.shared (effect.work + others) := by
  cases sec with
  | waitFor id slot => exact askInv_waitFor hinv hexec
  | finishAsk id payload => exact askInv_finishAsk hinv hguard hexec
  | allocMsgId =>
      simp only [AskState.exec, Option.some.injEq] at hexec
      subst hexec
      simpa using (hinv.drop_untagged rfl).prepared hguard
  | otherAlloc =>
      simp only [AskState.exec, Option.some.injEq] at hexec
      subst hexec
      simpa using (hinv.drop_untagged rfl).allocated hguard
  | beginAsk id =>
      simp only [AskState.exec, Option.some.injEq] at hexec
      subst hexec
      simpa using hinv.begun
  | pushRequest id =>
      cases choice with
      | refuse =>
          simp only [AskState.exec, Option.some.injEq] at hexec
          subst hexec
          simpa using hinv.pushed (Or.inr rfl)
      | go | expire =>
          simp only [AskState.exec, Option.some.injEq] at hexec
          subst hexec
          simpa using hinv.pushed (Or.inl rfl)
  | takeLookup id =>
      simp only [AskState.exec] at hexec
      cases hlookup : s.asks.lookup id with
      | none =>
          simp only [hlookup, Option.some.injEq] at hexec
          subst hexec
          simpa using hinv.returned_none rfl (Or.inl rfl) hlookup
      | some slot =>
          simp only [hlookup, Option.some.injEq] at hexec
          subst hexec
          simpa using hinv.looked_up hlookup
  | cancelAsk id timedOut =>
      simp only [AskState.exec, Option.some.injEq] at hexec
      subst hexec
      cases timedOut with
      | false => simpa using hinv.cancelled.ended
      | true =>
          simpa using hinv.cancelled.returned_none rfl (Or.inr rfl)
            (AList.lookup_erase _ _)
  | dispatchReply conn id payload =>
      have hrest := hinv.drop_untagged rfl
      simp only [AskState.exec] at hexec
      split at hexec
      · simp only [Option.some.injEq] at hexec
        subst hexec
        simpa using hrest
      · split at hexec
        · simp only [Option.some.injEq] at hexec
          subst hexec
          simpa using hrest.add_untagged (.finishAsk id payload) rfl
        · simp only [Option.some.injEq] at hexec
          subst hexec
          simpa using hrest
  | fillSlot id slot payload =>
      have hslot :=
        (hinv.filling id slot payload (Multiset.mem_cons_self _ _)).1
      simp only [AskState.exec, hslot, Option.some.injEq] at hexec
      subst hexec
      simpa using hinv.filled
  | notifyOne id payload =>
      simp only [AskState.exec, Option.some.injEq] at hexec
      subst hexec
      simpa using hinv.notified

theorem AskInv.delivers {cfg : Config AskState AskSection}
    (hinv : AskInv cfg.shared cfg.pending) : AskDelivers cfg := by
  refine ⟨fun id payload htimely => ⟨fun result htaken => ?_,
    fun slot hwaits => ?_⟩, hinv.answered⟩
  · rcases (hinv.timely id payload htimely).2 with
      hsome | hwithdrawn | ⟨slot, hwaits, -⟩
    · exact hinv.taken_once id result _ htaken hsome
    · exact absurd htaken (hwithdrawn.1 result)
    · exact absurd rfl ((hinv.taken_gone id result htaken).1 _ hwaits)
  · obtain ⟨other, hother, hslot⟩ : ∃ other,
        .waitFor id other ∈ cfg.pending ∧
          cfg.shared.slots[other]? = some ⟨id, true, payload⟩ := by
      rcases (hinv.timely id payload htimely).2 with
        hsome | hwithdrawn | hthere
      · exact absurd rfl ((hinv.taken_gone id _ hsome).1 _ hwaits)
      · have := hwithdrawn.2 _ hwaits rfl
        simp at this
      · exact hthere
    obtain ⟨rest, hrest⟩ := Multiset.exists_cons_of_mem hwaits
    have hunique := (uniqueTags_cons _ _ _).mp (hrest ▸ hinv.unique)
    have hsame : other = slot := by
      rw [hrest, Multiset.mem_cons] at hother
      rcases hother with heq | hmem
      · simpa using heq
      · exact absurd rfl (hunique.1 _ rfl _ hmem)
    subst hsame
    simp [AskState.exec, hslot, AskState.takePayload, AskState.record,
      Effect.done]

/-- In every interleaving in which `finish_ask` never overtakes the lookup of
the asker, no reply that is in time is lost. -/
theorem ask_delivers (word : List (Move AskSection AskChoice))
    (last : Config AskState AskSection)
    (hmeets : (askProgram.machine .init).Meets
      (Program.OnSections AskerLooked) word)
    (hrun : (askProgram.machine .init).run word = some last) :
    AskDelivers last :=
  (askProgram.invariant askInv_init askInv_call askInv_exec word hmeets
    hrun).delivers

/-- An ask whose reply comes while it waits. -/
def answeredAsk : List (Move AskSection AskChoice) :=
  [.call .allocMsgId, .run 0 .go, .run 0 .go, .run 0 .go, .run 0 .go,
    .call (.dispatchReply 0 1 [7]), .run 1 .go, .run 1 .go, .run 1 .go,
    .run 1 .go, .run 0 .go]

theorem ask_delivers_answeredAsk :
    (askProgram.machine .init).Meets (Program.OnSections AskerLooked)
        answeredAsk ∧
      ∃ last, (askProgram.machine .init).run answeredAsk = some last ∧
        .taken 1 (some [7]) ∈ last.shared.trace ∧ AskDelivers last := by
  have hmeets : (askProgram.machine .init).Meets
      (Program.OnSections AskerLooked) answeredAsk := by decide
  obtain ⟨last, hlast⟩ : ∃ last,
      (askProgram.machine .init).run answeredAsk = some last := ⟨_, rfl⟩
  refine ⟨hmeets, last, hlast, ?_, ask_delivers _ last hmeets hlast⟩
  cases hlast
  decide

/-- The reply comes after the request was pushed and before the asker looks
its slot up: `finish_ask` erases the ask and still returns true. -/
def overtakenAsk : List (Move AskSection AskChoice) :=
  [.call .allocMsgId, .run 0 .go, .run 0 .go, .run 0 .go,
    .call (.dispatchReply 0 1 [7]), .run 1 .go, .run 1 .go, .run 1 .go,
    .run 1 .go, .run 0 .go]

theorem ask_overtaken_reply_lost :
    ∃ last, (askProgram.machine .init).run overtakenAsk = some last ∧
      ¬ AskDelivers last := by
  refine ⟨_, rfl, fun hdelivers => ?_⟩
  have htimely : TimelyReply
      [.finishCalled 1 [7], .finishReturned 1 [7] true, .taken 1 none]
      1 [7] := ⟨[.finishCalled 1 [7]], [.taken 1 none], rfl, by decide⟩
  have hresult := (hdelivers.1 1 [7] htimely).1 none (by decide)
  simp at hresult

end UltraNet
