/-
Runs of a channel: any number of awaited and immediate reads and writes and of
`close` calls, with the woken waiters resumed in any order.
-/
import UltraNet.Channel
import UltraNet.Interleaving
import Mathlib.Data.Multiset.Bind
import Mathlib.Tactic.Abel

namespace UltraNet

variable {T : Type}

inductive ChannelSection (T : Type) where
  | writeReady (value : T)
  | writeSuspend (value : T)
  | writeResume (value : T)
  | tryWrite (value : T)
  | readReady
  | readSuspend
  | readResume
  | tryRead
  | close

/-- The section that a woken waiter runs when it is resumed. -/
def Woken.resume : Woken T → ChannelSection T
  | .reader => .readResume
  | .writer value => .writeResume value

/-- The channel with what the calls were given and what they returned: the
values of all writes, of those that returned true, of the awaited ones that
returned false and of the `try_write`s that did; the values that reads of
either kind returned, and the number of awaited reads that returned `nullopt`. -/
structure ChannelState (T : Type) where
  ch : Channel T
  offered : List T
  accepted : List T
  refused : List T
  turnedAway : List T
  returned : List T
  ended : Nat

namespace ChannelState

/-- The channel after a locked section, and the threads of the waiters that
it woke. -/
def after (s : ChannelState T) (result : Channel T × List (Woken T))
    (next : List (ChannelSection T)) :
    Effect (ChannelState T) (ChannelSection T) :=
  ⟨{ s with ch := result.1 }, next, result.2.map fun woken => [woken.resume]⟩

def offer (s : ChannelState T) (value : T) : ChannelState T :=
  { s with offered := s.offered ++ [value] }

/-- The write of this value returns true. -/
def accept (s : ChannelState T) (value : T) : ChannelState T :=
  { s with accepted := s.accepted ++ [value] }

def refuse (s : ChannelState T) (value : T) : ChannelState T :=
  { s with refused := s.refused ++ [value] }

def turnAway (s : ChannelState T) (value : T) : ChannelState T :=
  { s with turnedAway := s.turnedAway ++ [value] }

/-- A read returns this value. -/
def hand (s : ChannelState T) (value : T) : ChannelState T :=
  { s with returned := s.returned ++ [value] }

def endRead (s : ChannelState T) : ChannelState T :=
  { s with ended := s.ended + 1 }

/-- An awaited read returns. -/
def answer (s : ChannelState T) : Option T → ChannelState T
  | some value => s.hand value
  | none => s.endRead

def exec (capacity : Nat) (s : ChannelState T) :
    ChannelSection T → Unit → Option (Effect (ChannelState T) (ChannelSection T))
  | .writeReady value, _ =>
      match s.ch.writeReady capacity value with
      | (.ready true, result) => some (((s.offer value).accept value).after result [])
      | (.ready false, result) =>
          some (((s.offer value).refuse value).after result [])
      | (.blocked, result) =>
          some ((s.offer value).after result [.writeSuspend value])
  | .writeSuspend value, _ =>
      match s.ch.writeSuspend capacity value with
      | (.ready true, result) => some ((s.accept value).after result [])
      | (.ready false, result) => some ((s.refuse value).after result [])
      | (.blocked, result) => some (s.after result [])
  | .writeResume value, _ =>
      match s.ch.writeResume capacity value with
      | (true, result) => some ((s.accept value).after result [])
      | (false, result) => some ((s.refuse value).after result [])
  | .tryWrite value, _ =>
      match s.ch.tryWrite capacity value with
      | (true, result) => some (((s.offer value).accept value).after result [])
      | (false, result) =>
          some (((s.offer value).turnAway value).after result [])
  | .readReady, _ =>
      match s.ch.readReady capacity with
      | (.ready value, result) => some ((s.answer value).after result [])
      | (.blocked, result) => some (s.after result [.readSuspend])
  | .readSuspend, _ =>
      match s.ch.readSuspend capacity with
      | (.ready value, result) => some ((s.answer value).after result [])
      | (.blocked, result) => some (s.after result [])
  | .readResume, _ =>
      let (value, result) := s.ch.readResume capacity
      some ((s.answer value).after result [])
  | .tryRead, _ =>
      match s.ch.tryRead capacity with
      | (some value, result) => some ((s.hand value).after result [])
      | (none, result) => some (s.after result [])
  | .close, _ => some (s.after s.ch.close [])

end ChannelState

/-- Anyone may call any operation at any time. -/
def channelProgram (capacity : Nat) :
    Program (ChannelState T) (ChannelSection T) Unit where
  entry
    | _, .writeReady _ | _, .tryWrite _ | _, .readReady | _, .tryRead
    | _, .close => true
    | _, _ => false
  exec := ChannelState.exec capacity

def ChannelState.init [Inhabited T] : ChannelState T := ⟨.empty, [], [], [], [], [], 0⟩

namespace ChannelSection

/-- One for a reader that was woken and is not resumed yet. -/
def wokenReaders : ChannelSection T → Nat
  | .readResume => 1
  | _ => 0

def wokenWriters : ChannelSection T → Nat
  | .writeResume _ => 1
  | _ => 0

/-- The value of a write that is under way. -/
def value : ChannelSection T → Multiset T
  | .writeSuspend value | .writeResume value => {value}
  | _ => 0

end ChannelSection

/-- What holds between any two locked sections. -/
structure ChannelInv (capacity : Nat) (s : ChannelState T)
    (pending : Multiset (ChannelSection T)) : Prop where
  ok : s.ch.Ok capacity
  fifo : s.accepted = s.returned ++ s.ch.buffered capacity
  readers : s.ch.readReserved = total ChannelSection.wokenReaders pending
  writers : s.ch.writeReserved = total ChannelSection.wokenWriters pending
  values : (s.offered : Multiset T) = s.accepted + s.refused + s.turnedAway +
    s.ch.writers + pending.bind ChannelSection.value
  refused : s.refused ≠ [] → s.ch.closed = true
  ended : s.ended ≠ 0 → s.ch.closed = true

namespace ChannelInv

variable {capacity : Nat} {s : ChannelState T} {sec : ChannelSection T}
  {others : Multiset (ChannelSection T)}

theorem after_work (s : ChannelState T) (result : Channel T × List (Woken T))
    (next : List (ChannelSection T)) :
    (s.after result next).work =
      (next : Multiset (ChannelSection T)) +
        (result.2.map Woken.resume : Multiset (ChannelSection T)) := by
  have hflatten : (result.2.map fun woken => [woken.resume]).flatten =
      result.2.map Woken.resume := by
    induction result.2 with
    | nil => rfl
    | cons woken rest ih => simp [ih]
  rw [Effect.work, ChannelState.after, hflatten]

/-- A section that wakes nobody and goes on with nothing leaves no work. -/
theorem after_quiet (s : ChannelState T) (ch : Channel T) :
    (s.after (ch, []) []).work = 0 := by
  rw [after_work, Multiset.coe_nil, List.map_nil, Multiset.coe_nil, add_zero]

/-- The sections of woken waiters, with what they hold. -/
structure Sections (woken : List (Woken T)) (reads writes : Nat)
    (values : Multiset T) : Prop where
  reads : total ChannelSection.wokenReaders
    (woken.map Woken.resume : Multiset (ChannelSection T)) = reads
  writes : total ChannelSection.wokenWriters
    (woken.map Woken.resume : Multiset (ChannelSection T)) = writes
  values : (woken.map Woken.resume : Multiset (ChannelSection T)).bind
    ChannelSection.value = values

theorem sections_append {first second : List (Woken T)} {n n' m m' : Nat}
    {values values' : Multiset T} (hfirst : Sections first n m values)
    (hsecond : Sections second n' m' values') :
    Sections (first ++ second) (n + n') (m + m') (values + values') := by
  constructor
  · rw [List.map_append, ← Multiset.coe_add, total_add, hfirst.reads,
      hsecond.reads]
  · rw [List.map_append, ← Multiset.coe_add, total_add, hfirst.writes,
      hsecond.writes]
  · rw [List.map_append, ← Multiset.coe_add, Multiset.add_bind, hfirst.values,
      hsecond.values]

theorem sections_readers (n : Nat) :
    Sections (List.replicate n (.reader : Woken T)) n 0 0 := by
  induction n with
  | zero => exact ⟨rfl, rfl, rfl⟩
  | succ n ih =>
      rw [List.replicate_succ']
      exact sections_append ih ⟨rfl, rfl, rfl⟩

theorem sections_writers (values : List T) :
    Sections (values.map Woken.writer) 0 values.length values := by
  induction values with
  | nil => exact ⟨rfl, rfl, rfl⟩
  | cons value values ih =>
      rw [List.map_cons, List.length_cons, Nat.add_comm]
      have hone : Sections [Woken.writer value] 0 1 {value} := ⟨rfl, rfl, rfl⟩
      simpa using sections_append hone ih

/-- The value of the section is written into the ring, and the write returns
true. -/
theorem put {value : T} {from_ : Channel T}
    (hinv : ChannelInv capacity s (sec ::ₘ others)) (hvalue : sec.value = {value})
    (hsec : sec.wokenReaders = 0)
    (hwrites : from_.writeReserved + sec.wokenWriters = s.ch.writeReserved)
    (hsame : from_.closed = s.ch.closed ∧ from_.writers = s.ch.writers ∧
      from_.ring = s.ch.ring ∧ from_.readReserved = s.ch.readReserved)
    (hok : (from_.put capacity value).1.Ok capacity) :
    ChannelInv capacity ((s.accept value).after (from_.put capacity value) []).shared
      (((s.accept value).after (from_.put capacity value) []).work + others) := by
  obtain ⟨hring, hfifo, hreaders, hwriters, hvalues, hrefused, hended⟩ := hinv
  obtain ⟨hclosed, hparked, hsame, hreads⟩ := hsame
  obtain ⟨n, hwoken, hread, hwrite, hparked', hclosed'⟩ :=
    from_.put_cases capacity value
  have hstored : (from_.put capacity value).1.buffered capacity =
      s.ch.buffered capacity ++ [value] := by
    have hroom := (from_.put_count capacity value).1 ▸ hok.size
    obtain ⟨-, hnext, hpos, hcount⟩ := Channel.ring_eq hsame
    rw [← Channel.buffered_ring hsame]
    refine Channel.put_buffered value ?_ hroom
    rw [hnext, hpos, hcount]
    exact hring.next
  obtain ⟨hnreads, hnwrites, hnvalues⟩ := sections_readers (T := T) n
  rw [total_cons] at hreaders hwriters
  rw [after_work, hwoken]
  refine ⟨hok, ?_, ?_, ?_, ?_, ?_, ?_⟩
  · simp only [ChannelState.after, ChannelState.accept]
    rw [hstored, hfifo, List.append_assoc]
  · rw [total_add, total_add, hnreads, Multiset.coe_nil, total_zero]
    simp only [ChannelState.after]
    omega
  · rw [total_add, total_add, hnwrites, Multiset.coe_nil, total_zero]
    simp only [ChannelState.after]
    omega
  · rw [Multiset.cons_bind, hvalue] at hvalues
    simp only [ChannelState.after, ChannelState.accept, hparked', hparked,
      Multiset.add_bind, hnvalues, Multiset.coe_nil, Multiset.zero_bind, hvalues,
      ← Multiset.coe_add, Multiset.coe_singleton]
    abel
  · intro hne
    exact (hclosed'.trans hclosed).trans (hrefused hne)
  · intro hne
    exact (hclosed'.trans hclosed).trans (hended hne)

/-- A section that writes nothing reads a value from the ring and returns it. -/
theorem get {from_ : Channel T}
    (hinv : ChannelInv capacity s (sec ::ₘ others)) (hvalue : sec.value = 0)
    (hsec : sec.wokenWriters = 0)
    (hreads : from_.readReserved + sec.wokenReaders = s.ch.readReserved)
    (hsame : from_.closed = s.ch.closed ∧ from_.writers = s.ch.writers ∧
      from_.ring = s.ch.ring ∧ from_.writeReserved = s.ch.writeReserved)
    (hcount : 0 < from_.count) (hok : (from_.get capacity).1.Ok capacity) :
    ChannelInv capacity ((s.hand s.ch.front).after (from_.get capacity) []).shared
      (((s.hand s.ch.front).after (from_.get capacity) []).work + others) := by
  obtain ⟨hring, hfifo, hreaders, hwriters, hvalues, hrefused, hended⟩ := hinv
  obtain ⟨hclosed, hparked, hsame, hwrites⟩ := hsame
  obtain ⟨values, hwoken, hparked', hwrite, hread, hclosed'⟩ :=
    from_.get_cases capacity
  have hfront : s.ch.buffered capacity =
      s.ch.front :: (from_.get capacity).1.buffered capacity := by
    obtain ⟨-, -, hpos, -⟩ := Channel.ring_eq hsame
    rw [← Channel.buffered_ring hsame, ← Channel.front_ring hsame]
    exact Channel.get_buffered (hpos ▸ hring.pos) hcount
  obtain ⟨hnreads, hnwrites, hnvalues⟩ := sections_writers values
  rw [total_cons] at hreaders hwriters
  rw [after_work, hwoken]
  refine ⟨hok, ?_, ?_, ?_, ?_, ?_, ?_⟩
  · simp only [ChannelState.after, ChannelState.hand]
    rw [hfifo, hfront, List.append_assoc, List.singleton_append]
  · rw [total_add, total_add, hnreads, Multiset.coe_nil, total_zero]
    simp only [ChannelState.after]
    omega
  · rw [total_add, total_add, hnwrites, Multiset.coe_nil, total_zero]
    simp only [ChannelState.after]
    omega
  · rw [Multiset.cons_bind, hvalue, ← hparked, hparked', ← Multiset.coe_add]
      at hvalues
    simp only [ChannelState.after, ChannelState.hand, Multiset.add_bind,
      hnvalues, Multiset.coe_nil, Multiset.zero_bind, hvalues]
    abel
  · intro hne
    exact (hclosed'.trans hclosed).trans (hrefused hne)
  · intro hne
    exact (hclosed'.trans hclosed).trans (hended hne)

/-- A write has begun: its value is under way. -/
theorem offer {value : T} (hinv : ChannelInv capacity s (sec ::ₘ others))
    (hvalue : sec.value = 0) (hreads : sec.wokenReaders = 0)
    (hwrites : sec.wokenWriters = 0) :
    ChannelInv capacity (s.offer value) (.writeSuspend value ::ₘ others) := by
  obtain ⟨hok, hfifo, hreaders, hwriters, hvalues, hrefused, hended⟩ := hinv
  rw [total_cons] at hreaders hwriters
  refine ⟨hok, hfifo, ?_, ?_, ?_, hrefused, hended⟩
  · rw [total_cons]
    simp only [ChannelSection.wokenReaders]
    exact hreaders.trans (by rw [hreads])
  · rw [total_cons]
    simp only [ChannelSection.wokenWriters]
    exact hwriters.trans (by rw [hwrites])
  · rw [Multiset.cons_bind, hvalue] at hvalues
    simp only [ChannelState.offer, Multiset.cons_bind, ChannelSection.value,
      ← Multiset.coe_add, hvalues, Multiset.coe_singleton]
    abel

/-- The value of the section is given back: the write returns false. -/
theorem giveBack {value : T} {s' : ChannelState T}
    (hinv : ChannelInv capacity s (sec ::ₘ others)) (hvalue : sec.value = {value})
    (hreads : sec.wokenReaders = 0)
    (hwrites : s'.ch.writeReserved + sec.wokenWriters = s.ch.writeReserved)
    (hsame : s'.ch.closed = s.ch.closed ∧ s'.ch.writers = s.ch.writers ∧
      s'.ch.ring = s.ch.ring ∧ s'.ch.readReserved = s.ch.readReserved)
    (hcalls : s'.offered = s.offered ∧ s'.accepted = s.accepted ∧
      s'.returned = s.returned ∧ s'.ended = s.ended)
    (hback : (s'.refused = s.refused ++ [value] ∧ s'.turnedAway = s.turnedAway ∧
        s.ch.closed = true) ∨
      (s'.refused = s.refused ∧ s'.turnedAway = s.turnedAway ++ [value]))
    (hok : s'.ch.Ok capacity) : ChannelInv capacity s' others := by
  obtain ⟨-, hfifo, hreaders, hwriters, hvalues, hrefused, hended⟩ := hinv
  obtain ⟨hclosed, hparked, hring, hread⟩ := hsame
  obtain ⟨hoffered, haccepted, hreturned, hends⟩ := hcalls
  rw [total_cons] at hreaders hwriters
  rw [Multiset.cons_bind, hvalue] at hvalues
  refine ⟨hok, ?_, by omega, by omega, ?_, ?_, ?_⟩
  · rw [haccepted, hreturned, Channel.buffered_ring hring, hfifo]
  · rw [hoffered, hvalues, hparked, haccepted]
    obtain ⟨hback, haway, -⟩ | ⟨hback, haway⟩ := hback <;>
      rw [hback, haway, ← Multiset.coe_add, Multiset.coe_singleton] <;> abel
  · intro hne
    rw [hclosed]
    obtain ⟨-, -, hshut⟩ | ⟨hback, -⟩ := hback
    · exact hshut
    · exact hrefused (hback ▸ hne)
  · intro hne
    rw [hclosed]
    exact hended (hends ▸ hne)

/-- A write on a closed channel returns false. -/
theorem refuse {value : T} {ch' : Channel T}
    (hinv : ChannelInv capacity s (sec ::ₘ others)) (hvalue : sec.value = {value})
    (hreads : sec.wokenReaders = 0) (hclosed : s.ch.closed = true)
    (hwrites : ch'.writeReserved + sec.wokenWriters = s.ch.writeReserved)
    (hsame : ch'.closed = s.ch.closed ∧ ch'.writers = s.ch.writers ∧
      ch'.ring = s.ch.ring ∧ ch'.readReserved = s.ch.readReserved)
    (hok : ch'.Ok capacity) :
    ChannelInv capacity ((s.refuse value).after (ch', []) []).shared
      (((s.refuse value).after (ch', []) []).work + others) := by
  rw [after_quiet, zero_add]
  exact hinv.giveBack hvalue hreads hwrites hsame ⟨rfl, rfl, rfl, rfl⟩
    (.inl ⟨rfl, rfl, hclosed⟩) hok

/-- A section that holds nothing ends or goes on, and the ring stays as it
is. -/
theorem goOn {s' : ChannelState T} {next : Multiset (ChannelSection T)}
    (hinv : ChannelInv capacity s (sec ::ₘ others))
    (hreads : s'.ch.readReserved + sec.wokenReaders =
      s.ch.readReserved + total ChannelSection.wokenReaders next)
    (hwrites : s'.ch.writeReserved + sec.wokenWriters =
      s.ch.writeReserved + total ChannelSection.wokenWriters next)
    (hparked : (s.ch.writers : Multiset T) + sec.value =
      s'.ch.writers + next.bind ChannelSection.value)
    (hring : s'.ch.ring = s.ch.ring)
    (hcalls : s'.offered = s.offered ∧ s'.accepted = s.accepted ∧
      s'.refused = s.refused ∧ s'.turnedAway = s.turnedAway ∧
      s'.returned = s.returned)
    (hclosed : s.ch.closed = true → s'.ch.closed = true)
    (hended : s'.ended ≠ 0 → s.ended ≠ 0 ∨ s'.ch.closed = true)
    (hok : s'.ch.Ok capacity) : ChannelInv capacity s' (next + others) := by
  obtain ⟨-, hfifo, hreaders, hwriters, hvalues, hrefused, hended'⟩ := hinv
  obtain ⟨hoffered, haccepted, hback, haway, hreturned⟩ := hcalls
  rw [total_cons] at hreaders hwriters
  refine ⟨hok, ?_, ?_, ?_, ?_, ?_, ?_⟩
  · rw [haccepted, hreturned, Channel.buffered_ring hring, hfifo]
  · rw [total_add]
    omega
  · rw [total_add]
    omega
  · rw [hoffered, hvalues, haccepted, hback, haway, Multiset.add_bind,
      Multiset.cons_bind]
    calc (s.accepted : Multiset T) + s.refused + s.turnedAway + s.ch.writers +
          (sec.value + others.bind ChannelSection.value)
        = s.accepted + s.refused + s.turnedAway +
            (s.ch.writers + sec.value) + others.bind ChannelSection.value := by
          abel
      _ = _ := by
          rw [hparked]
          abel
  · exact fun hne => hclosed (hrefused (hback ▸ hne))
  · intro hne
    obtain hold | hshut := hended hne
    · exact hclosed (hended' hold)
    · exact hshut

/-- A read section ends with `nullopt`, or goes on, with the channel as it
is. -/
theorem readOn {ended : Nat} {next : List (ChannelSection T)}
    (hinv : ChannelInv capacity s (sec ::ₘ others)) (hvalue : sec.value = 0)
    (hreads : sec.wokenReaders = 0) (hwrites : sec.wokenWriters = 0)
    (hnext : next = [] ∨ next = [.readSuspend])
    (hended : ended ≠ 0 → s.ended ≠ 0 ∨ s.ch.closed = true) :
    ChannelInv capacity ({ s with ended := ended }.after (s.ch, []) next).shared
      (({ s with ended := ended }.after (s.ch, []) next).work + others) := by
  rw [after_work]
  obtain rfl | rfl := hnext
  · exact hinv.goOn (by rw [hreads]; rfl) (by rw [hwrites]; rfl)
      (by rw [hvalue]; rfl) rfl ⟨rfl, rfl, rfl, rfl, rfl⟩ id hended hinv.ok
  · exact hinv.goOn (by rw [hreads]; rfl) (by rw [hwrites]; rfl)
      (by rw [hvalue]; rfl) rfl ⟨rfl, rfl, rfl, rfl, rfl⟩ id hended hinv.ok

section Sections

attribute [local simp] ChannelState.exec

theorem writeSuspend {value : T} {choice : Unit}
    {effect : Effect (ChannelState T) (ChannelSection T)}
    (hinv : ChannelInv capacity s (.writeSuspend value ::ₘ others))
    (heffect : s.exec capacity (.writeSuspend value) choice = some effect) :
    ChannelInv capacity effect.shared (effect.work + others) := by
  simp only [ChannelState.exec, Channel.writeSuspend, Channel.writeReady]
    at heffect
  by_cases hclosed : s.ch.closed = true
  · simp only [hclosed, if_true] at heffect
    obtain rfl := Option.some.inj heffect
    exact hinv.refuse rfl rfl hclosed rfl ⟨rfl, rfl, rfl, rfl⟩ hinv.ok
  · have hopen := Bool.eq_false_of_not_eq_true hclosed
    by_cases hroom : s.ch.hasRoom capacity = true
    · simp only [hopen, hroom, if_true] at heffect
      obtain rfl := Option.some.inj heffect
      exact hinv.put rfl rfl rfl ⟨rfl, rfl, rfl, rfl⟩
        (hinv.ok.put_free hopen hroom value)
    · simp only [hopen, hroom] at heffect
      obtain rfl := Option.some.inj heffect
      rw [after_work]
      refine hinv.goOn rfl rfl ?_ rfl
        ⟨rfl, rfl, rfl, rfl, rfl⟩ id .inl (hinv.ok.parkWriter hopen hroom value)
      simp [ChannelState.after, ChannelSection.value, ← Multiset.coe_add]

theorem writeReady {value : T} {choice : Unit}
    {effect : Effect (ChannelState T) (ChannelSection T)}
    (hinv : ChannelInv capacity s (.writeReady value ::ₘ others))
    (heffect : s.exec capacity (.writeReady value) choice = some effect) :
    ChannelInv capacity effect.shared (effect.work + others) := by
  have hinv : ChannelInv capacity (s.offer value)
      (.writeSuspend value ::ₘ others) := hinv.offer rfl rfl rfl
  simp only [ChannelState.exec, Channel.writeReady] at heffect
  by_cases hclosed : s.ch.closed = true
  · simp only [hclosed, if_true] at heffect
    obtain rfl := Option.some.inj heffect
    exact hinv.refuse rfl rfl hclosed rfl ⟨rfl, rfl, rfl, rfl⟩ hinv.ok
  · have hopen := Bool.eq_false_of_not_eq_true hclosed
    by_cases hroom : s.ch.hasRoom capacity = true
    · simp only [hopen, hroom, if_true] at heffect
      obtain rfl := Option.some.inj heffect
      exact hinv.put rfl rfl rfl ⟨rfl, rfl, rfl, rfl⟩
        (hinv.ok.put_free hopen hroom value)
    · simp only [hopen, hroom] at heffect
      obtain rfl := Option.some.inj heffect
      rw [after_work]
      exact hinv.goOn rfl rfl rfl rfl ⟨rfl, rfl, rfl, rfl, rfl⟩ id .inl hinv.ok

theorem writeResume {value : T} {choice : Unit}
    {effect : Effect (ChannelState T) (ChannelSection T)}
    (hinv : ChannelInv capacity s (.writeResume value ::ₘ others))
    (heffect : s.exec capacity (.writeResume value) choice = some effect) :
    ChannelInv capacity effect.shared (effect.work + others) := by
  have hreserved : 0 < s.ch.writeReserved := by
    rw [hinv.writers, total_cons]
    exact Nat.lt_add_right _ Nat.one_pos
  simp only [ChannelState.exec, Channel.writeResume] at heffect
  by_cases hclosed : s.ch.closed = true
  · simp only [hclosed, if_true] at heffect
    obtain rfl := Option.some.inj heffect
    exact hinv.refuse rfl rfl hclosed (Nat.sub_add_cancel hreserved)
      ⟨rfl, rfl, rfl, rfl⟩ (hinv.ok.unreserveWrite hclosed)
  · have hopen := Bool.eq_false_of_not_eq_true hclosed
    simp only [hopen] at heffect
    obtain rfl := Option.some.inj heffect
    exact hinv.put rfl rfl (Nat.sub_add_cancel hreserved) ⟨rfl, rfl, rfl, rfl⟩
      (hinv.ok.put_reserved hopen hreserved value)

theorem tryWrite {value : T} {choice : Unit}
    {effect : Effect (ChannelState T) (ChannelSection T)}
    (hinv : ChannelInv capacity s (.tryWrite value ::ₘ others))
    (heffect : s.exec capacity (.tryWrite value) choice = some effect) :
    ChannelInv capacity effect.shared (effect.work + others) := by
  have hinv : ChannelInv capacity (s.offer value)
      (.writeSuspend value ::ₘ others) := hinv.offer rfl rfl rfl
  simp only [ChannelState.exec, Channel.tryWrite] at heffect
  by_cases hrefuse : (s.ch.closed || !s.ch.hasRoom capacity) = true
  · simp only [hrefuse, if_true] at heffect
    obtain rfl := Option.some.inj heffect
    rw [after_quiet, zero_add]
    exact hinv.giveBack rfl rfl rfl ⟨rfl, rfl, rfl, rfl⟩ ⟨rfl, rfl, rfl, rfl⟩
      (.inr ⟨rfl, rfl⟩) hinv.ok
  · simp only [hrefuse] at heffect
    obtain rfl := Option.some.inj heffect
    simp only [Bool.or_eq_true, Bool.not_eq_true', not_or, Bool.not_eq_true,
      Bool.not_eq_false] at hrefuse
    exact hinv.put rfl rfl rfl ⟨rfl, rfl, rfl, rfl⟩
      (hinv.ok.put_free hrefuse.1 hrefuse.2 value)

theorem readReady {choice : Unit}
    {effect : Effect (ChannelState T) (ChannelSection T)}
    (hinv : ChannelInv capacity s (.readReady ::ₘ others))
    (heffect : s.exec capacity .readReady choice = some effect) :
    ChannelInv capacity effect.shared (effect.work + others) := by
  simp only [ChannelState.exec, Channel.readReady] at heffect
  by_cases hdata : s.ch.count > s.ch.readReserved
  · simp only [hdata, if_true] at heffect
    obtain rfl := Option.some.inj heffect
    exact hinv.get rfl rfl rfl ⟨rfl, rfl, rfl, rfl⟩ (Nat.zero_lt_of_lt hdata)
      (hinv.ok.get_free hdata)
  · by_cases hclosed : s.ch.closed = true
    · simp only [hdata, hclosed, if_false, if_true] at heffect
      obtain rfl := Option.some.inj heffect
      exact hinv.readOn rfl rfl rfl (.inl rfl) fun _ => .inr hclosed
    · simp only [hdata, hclosed, if_false] at heffect
      obtain rfl := Option.some.inj heffect
      exact hinv.readOn rfl rfl rfl (.inr rfl) .inl

theorem readSuspend {choice : Unit}
    {effect : Effect (ChannelState T) (ChannelSection T)}
    (hinv : ChannelInv capacity s (.readSuspend ::ₘ others))
    (heffect : s.exec capacity .readSuspend choice = some effect) :
    ChannelInv capacity effect.shared (effect.work + others) := by
  simp only [ChannelState.exec, Channel.readSuspend, Channel.readReady]
    at heffect
  by_cases hdata : s.ch.count > s.ch.readReserved
  · simp only [hdata, if_true] at heffect
    obtain rfl := Option.some.inj heffect
    exact hinv.get rfl rfl rfl ⟨rfl, rfl, rfl, rfl⟩ (Nat.zero_lt_of_lt hdata)
      (hinv.ok.get_free hdata)
  · by_cases hclosed : s.ch.closed = true
    · simp only [hdata, hclosed, if_false, if_true] at heffect
      obtain rfl := Option.some.inj heffect
      exact hinv.readOn rfl rfl rfl (.inl rfl) fun _ => .inr hclosed
    · simp only [hdata, hclosed, if_false] at heffect
      obtain rfl := Option.some.inj heffect
      rw [after_work]
      exact hinv.goOn rfl rfl rfl rfl ⟨rfl, rfl, rfl, rfl, rfl⟩ id .inl
        (hinv.ok.parkReader (Bool.eq_false_of_not_eq_true hclosed) hdata)

theorem readResume {choice : Unit}
    {effect : Effect (ChannelState T) (ChannelSection T)}
    (hinv : ChannelInv capacity s (.readResume ::ₘ others))
    (heffect : s.exec capacity .readResume choice = some effect) :
    ChannelInv capacity effect.shared (effect.work + others) := by
  have hreserved : 0 < s.ch.readReserved := by
    rw [hinv.readers, total_cons]
    exact Nat.lt_add_right _ Nat.one_pos
  simp only [ChannelState.exec, Channel.readResume] at heffect
  by_cases hdata : s.ch.count > 0
  · simp only [hdata, if_true] at heffect
    obtain rfl := Option.some.inj heffect
    exact hinv.get rfl rfl (Nat.sub_add_cancel hreserved) ⟨rfl, rfl, rfl, rfl⟩ hdata
      (hinv.ok.get_reserved hdata hreserved)
  · by_cases hclosed : s.ch.closed = true
    · simp only [hdata, hclosed, if_false, if_true] at heffect
      obtain rfl := Option.some.inj heffect
      rw [after_work]
      exact hinv.goOn (Nat.sub_add_cancel hreserved) rfl rfl rfl
        ⟨rfl, rfl, rfl, rfl, rfl⟩ id (fun _ => .inr hclosed)
        (hinv.ok.unreserveRead hclosed)
    · -- a woken reader of an open channel finds its value
      have := (hinv.ok.spoken (Bool.eq_false_of_not_eq_true hclosed)).data
      omega

theorem tryRead {choice : Unit}
    {effect : Effect (ChannelState T) (ChannelSection T)}
    (hinv : ChannelInv capacity s (.tryRead ::ₘ others))
    (heffect : s.exec capacity .tryRead choice = some effect) :
    ChannelInv capacity effect.shared (effect.work + others) := by
  simp only [ChannelState.exec, Channel.tryRead] at heffect
  by_cases hdata : s.ch.count ≤ s.ch.readReserved
  · simp only [hdata, if_true] at heffect
    obtain rfl := Option.some.inj heffect
    exact hinv.readOn rfl rfl rfl (.inl rfl) .inl
  · simp only [hdata, if_false] at heffect
    obtain rfl := Option.some.inj heffect
    exact hinv.get rfl rfl rfl ⟨rfl, rfl, rfl, rfl⟩
      (Nat.zero_lt_of_lt (Nat.not_le.mp hdata)) (hinv.ok.get_free (Nat.not_le.mp hdata))

theorem close {choice : Unit}
    {effect : Effect (ChannelState T) (ChannelSection T)}
    (hinv : ChannelInv capacity s (.close ::ₘ others))
    (heffect : s.exec capacity .close choice = some effect) :
    ChannelInv capacity effect.shared (effect.work + others) := by
  obtain rfl := Option.some.inj heffect
  obtain ⟨hreads, hwrites, hvalues⟩ := sections_append
    (sections_readers (T := T) s.ch.readers) (sections_writers s.ch.writers)
  rw [after_work, Multiset.coe_nil, zero_add]
  refine hinv.goOn ?_ ?_ ?_ rfl ⟨rfl, rfl, rfl, rfl, rfl⟩ (fun _ => rfl) .inl
    hinv.ok.close
  · simp only [Channel.close]
    rw [hreads]
    simp [ChannelState.after, ChannelSection.wokenReaders]
  · simp only [Channel.close]
    rw [hwrites]
    simp [ChannelState.after, ChannelSection.wokenWriters]
  · simp only [Channel.close]
    rw [hvalues]
    simp [ChannelState.after, ChannelSection.value]

theorem step {choice : Unit} {effect : Effect (ChannelState T) (ChannelSection T)}
    (hinv : ChannelInv capacity s (sec ::ₘ others))
    (heffect : s.exec capacity sec choice = some effect) :
    ChannelInv capacity effect.shared (effect.work + others) := by
  cases sec with
  | writeReady value => exact hinv.writeReady heffect
  | writeSuspend value => exact hinv.writeSuspend heffect
  | writeResume value => exact hinv.writeResume heffect
  | tryWrite value => exact hinv.tryWrite heffect
  | readReady => exact hinv.readReady heffect
  | readSuspend => exact hinv.readSuspend heffect
  | readResume => exact hinv.readResume heffect
  | tryRead => exact hinv.tryRead heffect
  | close => exact hinv.close heffect

theorem of_run [Inhabited T] (hcapacity : 0 < capacity)
    (word : List (Move (ChannelSection T) Unit))
    {last : Config (ChannelState T) (ChannelSection T)}
    (hrun : ((channelProgram capacity).machine .init).run word = some last) :
    ChannelInv capacity last.shared last.pending := by
  refine Program.invariant_of_run _ ?_ ?_ ?_ word hrun
  · exact ⟨⟨hcapacity, (Nat.zero_mod capacity).symm, Nat.zero_le _,
      fun _ => ⟨Nat.zero_le _, le_rfl, nofun, nofun⟩, nofun⟩,
      rfl, rfl, rfl, rfl, nofun, nofun⟩
  · intro s pending sec hinv hentry
    obtain ⟨hok, hfifo, hreaders, hwriters, hvalues, hrefused, hended⟩ := hinv
    have hweights : sec.wokenReaders = 0 ∧ sec.wokenWriters = 0 ∧
        sec.value = 0 := by
      cases sec <;> first
        | exact ⟨rfl, rfl, rfl⟩
        | cases hentry
    obtain ⟨hreads, hwrites, hvalue⟩ := hweights
    refine ⟨hok, hfifo, ?_, ?_, ?_, hrefused, hended⟩
    · rw [total_cons, hreads, Nat.zero_add, hreaders]
    · rw [total_cons, hwrites, Nat.zero_add, hwriters]
    · rw [Multiset.cons_bind, hvalue, zero_add, hvalues]
  · intro s others sec choice effect hinv heffect
    exact hinv.step heffect

end Sections

end ChannelInv

/-- In every run of a channel, the values of the writes that returned true are
those that the reads returned and then the buffered ones; the reservations count the woken waiters; while it is
open they fit and a waiter is parked only if nothing is left for it; an awaited
read ends without a value and an awaited write returns false only if the
channel is closed, and every value that was offered is accepted, refused or
still under way, only one of these. -/
theorem channel_fifo [Inhabited T] (capacity : Nat) (hcapacity : 0 < capacity)
    (word : List (Move (ChannelSection T) Unit))
    {last : Config (ChannelState T) (ChannelSection T)}
    (hrun : ((channelProgram capacity).machine .init).run word = some last) :
    let s := last.shared
    s.accepted = s.returned ++ s.ch.buffered capacity ∧
      s.ch.writeReserved = total ChannelSection.wokenWriters last.pending ∧
      s.ch.readReserved = total ChannelSection.wokenReaders last.pending ∧
      (s.ch.closed = false →
        s.ch.count + s.ch.writeReserved ≤ capacity ∧
        s.ch.readReserved ≤ s.ch.count ∧
        (s.ch.readers ≠ 0 → s.ch.count = s.ch.readReserved) ∧
        (s.ch.writers ≠ [] → s.ch.count + s.ch.writeReserved = capacity)) ∧
      (s.ended ≠ 0 → s.ch.closed = true) ∧
      (s.refused ≠ [] → s.ch.closed = true) ∧
      (s.offered : Multiset T) = s.accepted + s.refused + s.turnedAway +
        s.ch.writers + last.pending.bind ChannelSection.value := by
  have hinv := ChannelInv.of_run hcapacity word hrun
  refine ⟨hinv.fifo, hinv.writers, hinv.readers, ?_, hinv.ended, hinv.refused,
    hinv.values⟩
  intro hopen
  obtain ⟨hroom, hdata, hreader, hwriter⟩ := hinv.ok.spoken hopen
  exact ⟨hroom, hdata, hreader, hwriter⟩

/-- A parked writer is woken and a `try_write` fails before it is resumed. -/
def reservedSlot : List (Move (ChannelSection Nat) Unit) :=
  [.call (.writeReady 1), .run 0 (), .call (.writeReady 2), .run 1 (), .run 1 (),
    .call .tryRead, .run 2 (), .call (.tryWrite 99), .run 4 ()]

theorem channel_fifo_reserved :
    ∃ last, ((channelProgram 1).machine .init).run reservedSlot = some last ∧
      last.shared.returned = [1] ∧ last.shared.turnedAway = [99] ∧
      last.shared.ch.writeReserved =
        total ChannelSection.wokenWriters last.pending := by
  have hend : (((channelProgram 1).machine .init).run reservedSlot).map
      (fun last => (last.shared.returned, last.shared.turnedAway)) =
        some ([1], [99]) := by
    decide
  obtain ⟨last, hrun, hlast⟩ := Option.map_eq_some_iff.mp hend
  obtain ⟨-, hwriters, -⟩ := channel_fifo 1 Nat.one_pos reservedSlot hrun
  exact ⟨last, hrun, congrArg Prod.fst hlast, congrArg Prod.snd hlast, hwriters⟩

end UltraNet
