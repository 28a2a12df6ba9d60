/-
The events of service discovery: `update_endpoints` writes them one by one into a
channel of 64 places, and whatever finds no place is gone.
-/
import UltraNet.Channel
import UltraNet.RunStates
import UltraNet.ServiceDiscovery

namespace UltraNet

instance : Inhabited EndpointEvent := ⟨.ofTable []⟩

/-- The ids of a table. -/
def idSet (table : List Endpoint) : Finset (List UInt8) :=
  (table.map Endpoint.id).toFinset

namespace EndpointEvent

/-- What a consumer makes of an event. -/
def apply (ids : Finset (List UInt8)) (event : EndpointEvent) : Finset (List UInt8) :=
  match event.change with
  | .added => insert event.endpoint.id ids
  | .removed => ids.erase event.endpoint.id
  | .stateChanged => ids
  | .refresh => idSet event.allEndpoints

/-- The ids that a consumer knows of after these events. -/
def view (ids : Finset (List UInt8)) (events : List EndpointEvent) :
    Finset (List UInt8) :=
  events.foldl apply ids

theorem view_append (ids : Finset (List UInt8)) (first second : List EndpointEvent) :
    view ids (first ++ second) = view (view ids first) second :=
  List.foldl_append

theorem view_added (ids : Finset (List UInt8)) (table : List Endpoint) :
    view ids (table.map (.ofEndpoint .added)) = ids ∪ idSet table := by
  induction table generalizing ids with
  | nil => exact (Finset.union_empty ids).symm
  | cons ep rest ih =>
      rw [List.map_cons, view, List.foldl_cons, ← view, ih]
      ext id
      simp only [apply, ofEndpoint, idSet, List.map_cons, List.toFinset_cons,
        Finset.mem_union, Finset.mem_insert, List.mem_toFinset]
      tauto

theorem view_removed (ids : Finset (List UInt8)) (table : List Endpoint) :
    view ids (table.map (.ofEndpoint .removed)) = ids \ idSet table := by
  induction table generalizing ids with
  | nil => exact Finset.sdiff_empty.symm
  | cons ep rest ih =>
      rw [List.map_cons, view, List.foldl_cons, ← view, ih]
      ext id
      simp only [apply, ofEndpoint, idSet, List.map_cons, List.toFinset_cons,
        Finset.mem_sdiff, Finset.mem_erase, Finset.mem_insert, List.mem_toFinset]
      tauto

theorem mem_idSet {table : List Endpoint} {id : List UInt8} :
    id ∈ idSet table ↔ ∃ ep ∈ table, ep.id = id := by
  simp [idSet]

/-- All events of an update turn the old ids into the new ones. -/
theorem view_update (d : ServiceDiscovery) (incoming : List Endpoint) :
    view (idSet d.allEndpoints) (d.updateEndpoints incoming).1 = idSet incoming := by
  rw [ServiceDiscovery.updateEndpoints, view_append, view_added, view_removed]
  ext id
  simp only [Finset.mem_sdiff, Finset.mem_union, mem_idSet,
    ServiceDiscovery.mem_newEndpoints, ServiceDiscovery.mem_lostEndpoints, List.mem_map]
  constructor
  · rintro ⟨⟨ep, hep, rfl⟩ | ⟨ep, ⟨hep, -⟩, rfl⟩, hkept⟩
    · by_contra hlost
      exact hkept ⟨ep, ⟨hep, hlost⟩, rfl⟩
    · exact ⟨ep, hep, rfl⟩
  · rintro ⟨ep, hep, rfl⟩
    refine ⟨?_, ?_⟩
    · by_cases hold : ∃ other ∈ d.allEndpoints, other.id = ep.id
      · exact .inl hold
      · exact .inr ⟨ep, ⟨hep, hold⟩, rfl⟩
    · rintro ⟨other, ⟨-, hlost⟩, hsame⟩
      exact hlost ⟨ep, hep, hsame.symm⟩

end EndpointEvent

/-- Where the coroutine is that reads the events. -/
inductive EventReader where
  | idle
  -- `await_ready` was false
  | asking
  | parked
  | woken
deriving DecidableEq

def EventReader.wake (reader : EventReader) (woken : List (Woken EndpointEvent)) :
    EventReader :=
  if .reader ∈ woken then .woken else reader

def eventCapacity : Nat := 64

/-- Service discovery with the channel of its events and their one consumer.
`updating` holds what is still to be written and what service discovery is then;
`seen` is what the consumer's reads have returned. -/
structure DiscoveryFeed where
  discovery : ServiceDiscovery
  channel : Channel EndpointEvent
  updating : Option (List EndpointEvent × ServiceDiscovery)
  reader : EventReader
  seen : List EndpointEvent

inductive FeedAction where
  | begin (action : DiscoveryAction)
  -- the next event is written
  | write
  -- the lock is released
  | finish
  | shutdown
  | tryRead
  | readReady
  | readSuspend
  | readResume

namespace DiscoveryFeed

def init (start : ServiceDiscovery) : DiscoveryFeed := ⟨start, .empty, none, .idle, []⟩

/-- What service discovery is when the update in progress is done. -/
def target (s : DiscoveryFeed) : ServiceDiscovery :=
  s.updating.elim s.discovery Prod.snd

/-- The events that the update in progress has not written. -/
def unwritten (s : DiscoveryFeed) : List EndpointEvent :=
  s.updating.elim [] Prod.fst

def begin (s : DiscoveryFeed) : DiscoveryAction → Option DiscoveryFeed
  -- `run` pushes its endpoints before it writes its event
  | .run => some { s with
      discovery := s.discovery.startRun.2
      updating := some s.discovery.startRun }
  | .update incoming =>
      if s.discovery.backend = .dnsSrv then
        some { s with updating := some (s.discovery.updateEndpoints incoming) }
      else none
  | .check now ep reachable =>
      some { s with discovery := s.discovery.checkOne now ep reachable }

/-- `try_write`, whatever it returns. -/
def write (s : DiscoveryFeed) (event : EndpointEvent) (rest : List EndpointEvent)
    (after : ServiceDiscovery) : DiscoveryFeed :=
  let result := s.channel.tryWrite eventCapacity event
  { s with
    channel := result.2.1
    updating := some (rest, after)
    reader := s.reader.wake result.2.2 }

/-- The consumer's read returns and leaves this channel. -/
def read (s : DiscoveryFeed) (event : Option EndpointEvent)
    (channel : Channel EndpointEvent) : DiscoveryFeed :=
  { s with channel := channel, reader := .idle, seen := s.seen ++ event.toList }

def tryRead (s : DiscoveryFeed) : DiscoveryFeed :=
  let (event, channel, _) := s.channel.tryRead eventCapacity
  s.read event channel

def readReady (s : DiscoveryFeed) : DiscoveryFeed :=
  match s.channel.readReady eventCapacity with
  | (.ready event, channel, _) => s.read event channel
  | (.blocked, channel, _) => { s with channel := channel, reader := .asking }

def readSuspend (s : DiscoveryFeed) : DiscoveryFeed :=
  match s.channel.readSuspend eventCapacity with
  | (.ready event, channel, _) => s.read event channel
  | (.blocked, channel, _) => { s with channel := channel, reader := .parked }

def readResume (s : DiscoveryFeed) : DiscoveryFeed :=
  let (event, channel, _) := s.channel.readResume eventCapacity
  s.read event channel

def step (s : DiscoveryFeed) : FeedAction → Option DiscoveryFeed
  | .begin action => if s.updating = none then s.begin action else none
  | .write =>
      match s.updating with
      | some (event :: rest, after) => some (s.write event rest after)
      | _ => none
  | .finish =>
      match s.updating with
      | some ([], after) => some { s with discovery := after, updating := none }
      | _ => none
  | .shutdown => some { s with
      channel := s.channel.close.1
      reader := s.reader.wake s.channel.close.2 }
  | .tryRead => if s.reader = .idle then some s.tryRead else none
  | .readReady => if s.reader = .idle then some s.readReady else none
  | .readSuspend => if s.reader = .asking then some s.readSuspend else none
  | .readResume => if s.reader = .woken then some s.readResume else none

def machine (start : ServiceDiscovery) : Machine DiscoveryFeed FeedAction :=
  ⟨init start, step⟩

/-- The consumer has applied every event that its reads returned: it knows the ids
of the table whenever the channel is empty and nobody holds the lock. -/
def Complete (start : ServiceDiscovery) (s : DiscoveryFeed) : Prop :=
  s.updating = none → s.channel.count = 0 →
    EndpointEvent.view (idSet start.allEndpoints) s.seen =
      idSet s.discovery.allEndpoints

/-- Whatever is written finds a place in an open channel. -/
def FindsRoom (s : DiscoveryFeed) (action : FeedAction) : Prop :=
  action = .write → s.channel.closed = false ∧ s.channel.hasRoom eventCapacity = true

/-- What the consumer has read, the events in the channel and those to come lead to
the ids of the table. -/
structure Inv (start : ServiceDiscovery) (s : DiscoveryFeed) : Prop where
  channel : s.channel.Ok eventCapacity
  reserved : s.reader = .woken → 0 < s.channel.readReserved
  view : EndpointEvent.view (idSet start.allEndpoints)
    (s.seen ++ s.channel.buffered eventCapacity ++ s.unwritten) =
      idSet s.target.allEndpoints
  listed : s.target.backend = .static →
    idSet s.target.allEndpoints ⊆ idSet s.target.staticEndpoints

variable {start : ServiceDiscovery} {s next : DiscoveryFeed}

theorem Inv.complete (hinv : Inv start s) : s.Complete start := by
  intro hupdating hcount
  have hview := hinv.view
  simp only [unwritten, target, hupdating, Channel.buffered, hcount, List.range_zero,
    List.map_nil, Option.elim_none, List.append_nil] at hview
  exact hview

/-- The reader side of the channel leaves everything else alone. -/
theorem Inv.reads (hinv : Inv start s) {ch : Channel EndpointEvent}
    {reader : EventReader} {seen : List EndpointEvent} (hok : ch.Ok eventCapacity)
    (hseen : seen ++ ch.buffered eventCapacity =
      s.seen ++ s.channel.buffered eventCapacity)
    (hreserved : reader = .woken → 0 < ch.readReserved) :
    Inv start { s with channel := ch, reader := reader, seen := seen } :=
  ⟨hok, hreserved, by rw [hseen]; exact hinv.view, hinv.listed⟩

/-- A read returns the first event of the channel. -/
theorem Inv.get (hinv : Inv start s) (from_ : Channel EndpointEvent)
    (hring : from_.ring = s.channel.ring) (hcount : 0 < from_.count)
    (hok : (from_.get eventCapacity).1.Ok eventCapacity) :
    Inv start (s.read (some from_.front) (from_.get eventCapacity).1) := by
  obtain ⟨-, -, hpos, -⟩ := Channel.ring_eq hring
  refine hinv.reads hok ?_ nofun
  rw [← Channel.buffered_ring hring,
    Channel.get_buffered (hpos ▸ hinv.channel.pos) hcount, Option.toList_some,
    List.append_assoc, List.singleton_append]

/-- A read returns nothing, and the events stay where they are. -/
theorem Inv.ended (hinv : Inv start s) {ch : Channel EndpointEvent}
    (hring : ch.ring = s.channel.ring) (hok : ch.Ok eventCapacity) :
    Inv start (s.read none ch) := by
  refine hinv.reads hok ?_ nofun
  rw [Channel.buffered_ring hring, Option.toList_none, List.append_nil]

theorem idSet_append (first second : List Endpoint) :
    idSet (first ++ second) = idSet first ∪ idSet second := by
  simp [idSet]

theorem Inv.begin (hinv : Inv start s) (hidle : s.updating = none)
    {action : DiscoveryAction} (hstep : s.begin action = some next) : Inv start next := by
  have hview := hinv.view
  have hlisted := hinv.listed
  simp only [unwritten, target, hidle, Option.elim_none, List.append_nil] at hview hlisted
  cases action with
  | run =>
      obtain rfl := Option.some.inj hstep
      refine ⟨hinv.channel, hinv.reserved, ?_, ?_⟩
      · rw [EndpointEvent.view_append, hview]
        show EndpointEvent.view _ s.discovery.startRun.1 =
          idSet s.discovery.startRun.2.allEndpoints
        cases hbackend : s.discovery.backend with
        | dnsSrv =>
            rw [ServiceDiscovery.startRun_dnsSrv hbackend]
            rfl
        | static =>
            rw [ServiceDiscovery.startRun_static hbackend, idSet_append,
              Finset.union_eq_right.mpr (hlisted hbackend)]
            rfl
      · show s.discovery.startRun.2.backend = .static → _
        cases hbackend : s.discovery.backend with
        | dnsSrv =>
            rw [ServiceDiscovery.startRun_dnsSrv hbackend, hbackend]
            intro hstatic
            cases hstatic
        | static =>
            intro _
            show idSet s.discovery.startRun.2.allEndpoints ⊆
              idSet s.discovery.startRun.2.staticEndpoints
            rw [ServiceDiscovery.startRun_static hbackend, idSet_append]
            exact Finset.union_subset (hlisted hbackend) (Finset.Subset.refl _)
  | update incoming =>
      obtain ⟨hdns, hnext⟩ := Option.ite_none_right_eq_some.mp hstep
      obtain rfl := Option.some.inj hnext
      refine ⟨hinv.channel, hinv.reserved, ?_, ?_⟩
      · rw [EndpointEvent.view_append, hview]
        exact EndpointEvent.view_update s.discovery incoming
      · intro hstatic
        have hstatic : s.discovery.backend = .static := hstatic
        rw [hdns] at hstatic
        cases hstatic
  | check now ep reachable =>
      obtain rfl := Option.some.inj hstep
      have hids : idSet (s.discovery.checkOne now ep reachable).allEndpoints =
          idSet s.discovery.allEndpoints := by
        rw [idSet, ServiceDiscovery.map_id_checkOne, idSet]
      refine ⟨hinv.channel, hinv.reserved, ?_, ?_⟩
      · simp only [unwritten, target, hidle, Option.elim_none, List.append_nil]
        rw [hids]
        exact hview
      · simp only [target, hidle, Option.elim_none]
        rw [hids]
        exact hlisted

/-- A write that finds room moves the event into the channel. -/
theorem Inv.write (hinv : Inv start s) {event : EndpointEvent}
    {rest : List EndpointEvent} {after : ServiceDiscovery}
    (hupdating : s.updating = some (event :: rest, after))
    (hopen : s.channel.closed = false)
    (hroom : s.channel.hasRoom eventCapacity = true) :
    Inv start (s.write event rest after) := by
  have hput : s.channel.tryWrite eventCapacity event =
      (true, s.channel.put eventCapacity event) := by
    simp [Channel.tryWrite, hopen, hroom]
  obtain ⟨n, hwoken, hreserved, -⟩ := Channel.put_cases eventCapacity s.channel event
  have hview := hinv.view
  have hlisted := hinv.listed
  simp only [unwritten, target, hupdating, Option.elim_some] at hview hlisted
  refine ⟨?_, ?_, ?_, hlisted⟩
  · simp only [DiscoveryFeed.write, hput]
    exact hinv.channel.put_free hopen hroom event
  · simp only [DiscoveryFeed.write, hput, hwoken, hreserved, EventReader.wake,
      List.mem_replicate, and_true]
    by_cases hn : n = 0
    · rw [if_neg fun hne => hne hn]
      intro hreader
      exact Nat.lt_of_lt_of_le (hinv.reserved hreader) (Nat.le_add_right _ _)
    · intro _
      omega
  · have hcount : s.channel.count < eventCapacity := by
      have hfree := of_decide_eq_true hroom
      omega
    simp only [DiscoveryFeed.write, hput, unwritten, target, Option.elim_some]
    rw [Channel.put_buffered event hinv.channel.next hcount]
    simpa only [List.append_assoc, List.singleton_append] using hview

theorem Inv.readReady (hinv : Inv start s) : Inv start s.readReady := by
  unfold DiscoveryFeed.readReady Channel.readReady
  by_cases hcount : s.channel.count > s.channel.readReserved
  · rw [if_pos hcount]
    exact hinv.get s.channel rfl (Nat.zero_lt_of_lt hcount) (hinv.channel.get_free hcount)
  · rw [if_neg hcount]
    cases hclosed : s.channel.closed with
    | true => exact hinv.ended rfl hinv.channel
    | false => exact hinv.reads hinv.channel rfl nofun

theorem Inv.readSuspend (hinv : Inv start s) : Inv start s.readSuspend := by
  unfold DiscoveryFeed.readSuspend Channel.readSuspend Channel.readReady
  by_cases hcount : s.channel.count > s.channel.readReserved
  · rw [if_pos hcount]
    exact hinv.get s.channel rfl (Nat.zero_lt_of_lt hcount) (hinv.channel.get_free hcount)
  · rw [if_neg hcount]
    cases hclosed : s.channel.closed with
    | true => exact hinv.ended rfl hinv.channel
    | false => exact hinv.reads (hinv.channel.parkReader hclosed hcount) rfl nofun

theorem Inv.tryRead (hinv : Inv start s) : Inv start s.tryRead := by
  unfold DiscoveryFeed.tryRead Channel.tryRead
  by_cases hcount : s.channel.count ≤ s.channel.readReserved
  · rw [if_pos hcount]
    exact hinv.ended rfl hinv.channel
  · have hcount' := Nat.not_le.mp hcount
    rw [if_neg hcount]
    exact hinv.get s.channel rfl (Nat.zero_lt_of_lt hcount') (hinv.channel.get_free hcount')

theorem Inv.readResume (hinv : Inv start s) (hwoken : s.reader = .woken) :
    Inv start s.readResume := by
  have hreserved := hinv.reserved hwoken
  unfold DiscoveryFeed.readResume Channel.readResume
  by_cases hcount : s.channel.count > 0
  · rw [if_pos hcount]
    exact hinv.get s.channel.unreserveRead rfl hcount
      (hinv.channel.get_reserved hcount hreserved)
  · rw [if_neg hcount]
    cases hclosed : s.channel.closed with
    | true => exact hinv.ended rfl (hinv.channel.unreserveRead hclosed)
    | false => exact hinv.ended rfl hinv.channel

theorem Inv.shutdown (hinv : Inv start s) :
    Inv start { s with
      channel := s.channel.close.1
      reader := s.reader.wake s.channel.close.2 } := by
  refine hinv.reads hinv.channel.close rfl ?_
  intro hwoken
  show 0 < s.channel.readReserved + s.channel.readers
  rw [EventReader.wake] at hwoken
  split at hwoken
  · rename_i hreader
    rcases List.mem_append.mp hreader with hreader | hwriter
    · have hparked := (List.mem_replicate.mp hreader).1
      omega
    · obtain ⟨value, -, heq⟩ := List.mem_map.mp hwriter
      cases heq
  · have hreserved := hinv.reserved hwoken
    omega

theorem Inv.step (hinv : Inv start s) {action : FeedAction}
    (hroom : s.FindsRoom action) (hstep : s.step action = some next) :
    Inv start next := by
  cases action with
  | begin action =>
      obtain ⟨hidle, hbegin⟩ := Option.ite_none_right_eq_some.mp hstep
      exact hinv.begin hidle hbegin
  | write =>
      simp only [DiscoveryFeed.step] at hstep
      split at hstep
      · rename_i event rest after hupdating
        obtain rfl := Option.some.inj hstep
        obtain ⟨hopen, hfree⟩ := hroom rfl
        exact hinv.write hupdating hopen hfree
      · cases hstep
  | finish =>
      simp only [DiscoveryFeed.step] at hstep
      split at hstep
      · rename_i after hupdating
        obtain rfl := Option.some.inj hstep
        have hview := hinv.view
        have hlisted := hinv.listed
        simp only [unwritten, target, hupdating, Option.elim_some] at hview hlisted
        exact ⟨hinv.channel, hinv.reserved, hview, hlisted⟩
      · cases hstep
  | shutdown =>
      obtain rfl := Option.some.inj hstep
      exact hinv.shutdown
  | tryRead =>
      obtain ⟨hidle, hnext⟩ := Option.ite_none_right_eq_some.mp hstep
      obtain rfl := Option.some.inj hnext
      exact hinv.tryRead
  | readReady =>
      obtain ⟨hidle, hnext⟩ := Option.ite_none_right_eq_some.mp hstep
      obtain rfl := Option.some.inj hnext
      exact hinv.readReady
  | readSuspend =>
      obtain ⟨-, hnext⟩ := Option.ite_none_right_eq_some.mp hstep
      obtain rfl := Option.some.inj hnext
      exact hinv.readSuspend
  | readResume =>
      obtain ⟨hwoken, hnext⟩ := Option.ite_none_right_eq_some.mp hstep
      obtain rfl := Option.some.inj hnext
      exact hinv.readResume hwoken

theorem init_inv (hstart : start.backend = .dnsSrv ∨ start.Constructed) :
    Inv start (init start) where
  channel := by
    have hopen : ∀ {P : Prop}, (Channel.empty : Channel EndpointEvent).closed = true → P := by
      intro P hclosed
      cases hclosed
    have hpos : 0 < eventCapacity := by decide
    exact ⟨hpos, rfl, Nat.zero_le _,
      fun _ => ⟨Nat.zero_le _, Nat.le_refl _, fun hne => absurd rfl hne,
        fun hne => absurd rfl hne⟩, hopen⟩
  reserved := fun hwoken => by cases hwoken
  view := rfl
  listed := by
    intro hstatic
    rcases hstart with hdns | ⟨config, rfl⟩ | ⟨table, config, rfl⟩
    · exact absurd (hdns.symm.trans hstatic) (by decide)
    · cases hstatic
    · exact Finset.Subset.refl _

/-- As long as every event finds room, a consumer that has emptied the channel
knows the ids of the table, however it reads. -/
theorem events_complete (start : ServiceDiscovery)
    (hstart : start.backend = .dnsSrv ∨ start.Constructed) (word : List FeedAction)
    (hroom : (machine start).Meets FindsRoom word) :
    (machine start).Throughout (Complete start) word :=
  (machine start).throughoutFrom_of_meets (fun _ hinv => hinv.complete)
    (fun _ _ _ hinv hroom hstep => hinv.step hroom hstep) word (init_inv hstart) hroom

/-- The consumer is parked when the first event comes. -/
theorem events_complete_parked :
    let config : DiscoveryConfig := ⟨30000, 10000, true, 3, 30000⟩
    let ep : Endpoint := ⟨[97], 80, 0, 0, true⟩
    let start := ServiceDiscovery.ofService config
    (machine start).Throughout (Complete start)
      [.readReady, .readSuspend, .begin (.update [ep]), .write, .finish, .readResume] := by
  intro config ep start
  refine events_complete start (.inl rfl) _ ?_
  exact ⟨fun heq => (by cases heq), fun heq => (by cases heq), fun heq => (by cases heq),
    fun _ => ⟨rfl, rfl⟩, fun heq => (by cases heq), fun heq => (by cases heq), trivial⟩

/-- An answer of this many targets. -/
def manyEndpoints (n : Nat) : List Endpoint :=
  (List.range n).map fun i => ⟨[UInt8.ofNat i], 80, 0, 0, true⟩

/-- The 65th new endpoint is never announced. -/
theorem events_lost :
    let start := ServiceDiscovery.ofService ⟨30000, 10000, true, 3, 30000⟩
    let word := [FeedAction.begin (.update (manyEndpoints 65))] ++
      List.replicate 65 .write ++ [.finish] ++ List.replicate 64 .tryRead
    ∃ last, (machine start).run word = some last ∧
      last.updating = none ∧ last.channel.count = 0 ∧ ¬ last.Complete start := by
  intro start word
  have hend : ((machine start).run word).map (fun last =>
      (last.updating.isNone, last.channel.count,
        decide ([64, 58, 56, 48] ∈ EndpointEvent.view ∅ last.seen),
        decide ([64, 58, 56, 48] ∈ idSet last.discovery.allEndpoints))) =
      some (true, 0, false, true) := by
    decide +kernel
  obtain ⟨last, hrun, hlast⟩ := Option.map_eq_some_iff.mp hend
  simp only [Prod.mk.injEq, Option.isNone_iff_eq_none, decide_eq_false_iff_not,
    decide_eq_true_eq] at hlast
  obtain ⟨hupdating, hcount, hunknown, hlisted⟩ := hlast
  refine ⟨last, hrun, hupdating, hcount, fun hcomplete => ?_⟩
  exact hunknown (hcomplete hupdating hcount ▸ hlisted)

end DiscoveryFeed

end UltraNet
