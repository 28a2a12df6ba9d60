/-
`ConnectionPool`: connections are counted in `m_total_connections`, idle ones
lie in a channel, and an `acquire` that finds the pool full waits for one that
is released.  Each atomic operation and each locked section of the channel is
a step; the pool is not shut down.
-/
import UltraNet.Channel
import UltraNet.Interleaving

namespace UltraNet

/-- The capacity of `m_idle`. -/
def idleCapacity : Nat := 1024

structure PoolConfig where
  minConnections : Nat
  maxConnections : Nat

/-- `borrowed` is a ghost: the connections that were handed out and not given
back yet. -/
structure Pool where
  idle : Channel Nat
  total : Nat
  acquired : Nat
  released : Nat
  evicted : Nat
  failedCreates : Nat
  borrowed : List Nat

inductive PoolSection where
  | acquire
  | loadTotal
  | casTotal (current : Nat)
  | connect
  | uncount
  | countFailed
  | readIdle
  | suspendRead
  | resumeRead
  | countAcquired (socket : Nat) (reused : Bool)
  -- `pre_warm` with the turns that are left
  | preWarm (turns : Nat)
  | warmCas (current turns : Nat)
  | warmConnect
  | warmRelease (socket : Nat)
  | release (socket : Nat) (valid : Bool)
  | writeIdle (socket : Nat)
  | dropCount
  | invalidate (socket : Nat)
  | evictCount
deriving DecidableEq

/-- How `TcpSocket::connect` ends, and whether a weak compare-exchange fails
for no reason. -/
inductive PoolChoice where
  | run
  | spurious
  | connected (socket : Nat)
  | failed

namespace Pool

structure Stats where
  acquired : Nat
  released : Nat
  totalConnections : Nat

def snapshot (s : Pool) : Stats := ⟨s.acquired, s.released, s.total⟩

def Stats.active (stats : Stats) : Nat :=
  if stats.acquired > stats.released then stats.acquired - stats.released else 0

def Stats.idle (stats : Stats) : Nat :=
  if stats.totalConnections > stats.active then
    stats.totalConnections - stats.active
  else 0

/-- The threads of the waiters that a section of the channel woke. -/
def wake (woken : List (Woken Nat)) : List (List PoolSection) :=
  woken.map fun
    | .reader => [.resumeRead]
    | .writer _ => []

def after (s : Pool) (result : Channel Nat × List (Woken Nat))
    (next : List PoolSection) : Effect Pool PoolSection :=
  ⟨{ s with idle := result.1 }, next, wake result.2⟩

/-- The loop condition of `acquire` on the value it has read. -/
def tryCreate (cfg : PoolConfig) (s : Pool) (current : Nat) :
    Effect Pool PoolSection :=
  if current < cfg.maxConnections then .goto s [.casTotal current]
  else .goto s [.readIdle]

def exec (cfg : PoolConfig) (s : Pool) :
    PoolSection → PoolChoice → Option (Effect Pool PoolSection)
  | .acquire, _ =>
      match s.idle.tryRead idleCapacity with
      | (some socket, result) =>
          some (s.after result [.countAcquired socket true])
      | (none, result) => some (s.after result [.loadTotal])
  | .loadTotal, _ => some (s.tryCreate cfg s.total)
  | .casTotal current, choice =>
      match choice with
      | .spurious => some (s.tryCreate cfg s.total)
      | _ =>
          if s.total = current then
            some (.goto { s with total := current + 1 } [.connect])
          else some (s.tryCreate cfg s.total)
  | .connect, choice =>
      match choice with
      | .connected socket => some (.goto s [.countAcquired socket false])
      | .failed => some (.goto s [.uncount])
      | _ => none
  | .uncount, _ =>
      some (.goto { s with total := s.total - 1 } [.countFailed])
  | .countFailed, _ =>
      some (.done { s with failedCreates := s.failedCreates + 1 })
  | .readIdle, _ =>
      match s.idle.readReady idleCapacity with
      | (.ready (some socket), result) =>
          some (s.after result [.countAcquired socket true])
      | (.ready none, result) => some (s.after result [])
      | (.blocked, result) => some (s.after result [.suspendRead])
  | .suspendRead, _ =>
      match s.idle.readSuspend idleCapacity with
      | (.ready (some socket), result) =>
          some (s.after result [.countAcquired socket true])
      | (_, result) => some (s.after result [])
  | .resumeRead, _ =>
      match s.idle.readResume idleCapacity with
      | (some socket, result) =>
          some (s.after result [.countAcquired socket true])
      | (none, result) => some (s.after result [])
  | .countAcquired socket _, _ =>
      some (.done { s with
        acquired := s.acquired + 1, borrowed := socket :: s.borrowed })
  | .preWarm turns, _ =>
      match turns with
      | 0 => some (.done s)
      | turns + 1 =>
          if s.total ≥ cfg.maxConnections then some (.done s)
          else some (.goto s [.warmCas s.total (turns + 1)])
  | .warmCas current turns, choice =>
      match choice with
      | .spurious => some (.goto s [.preWarm turns])
      | _ =>
          if s.total = current then
            some (.goto { s with total := current + 1 }
              [.warmConnect, .preWarm (turns - 1)])
          else some (.goto s [.preWarm turns])
  | .warmConnect, choice =>
      match choice with
      | .connected socket => some (.goto s [.warmRelease socket])
      | .failed => some (.goto s [.uncount])
      | _ => none
  | .warmRelease socket, _ =>
      some (.goto { s with released := s.released + 1 } [.writeIdle socket])
  | .release socket valid, _ =>
      if socket ∈ s.borrowed then
        let s := { s with borrowed := s.borrowed.erase socket }
        if valid then
          some (.goto { s with released := s.released + 1 } [.writeIdle socket])
        else some (.done s)
      else none
  | .writeIdle socket, _ =>
      match s.idle.tryWrite idleCapacity socket with
      | (true, result) => some (s.after result [])
      | (false, result) => some (s.after result [.dropCount])
  | .dropCount, _ => some (.done { s with total := s.total - 1 })
  | .invalidate socket, _ =>
      if socket ∈ s.borrowed then
        some (.goto { s with
          evicted := s.evicted + 1, borrowed := s.borrowed.erase socket }
          [.evictCount])
      else none
  | .evictCount, _ => some (.done { s with total := s.total - 1 })

def init : Pool := ⟨.empty, 0, 0, 0, 0, 0, []⟩

end Pool

/-- Anyone may acquire, warm the pool up and give a connection back. -/
def poolProgram (cfg : PoolConfig) : Program Pool PoolSection PoolChoice where
  entry
    | _, .acquire | _, .release .. | _, .invalidate _ => true
    | _, .preWarm turns => turns = cfg.minConnections
    | _, _ => false
  exec := Pool.exec cfg

namespace PoolSection

/-- One for a connection on its way between the channel and its user. -/
def passing : PoolSection → Nat
  | .countAcquired _ true | .writeIdle _ | .dropCount => 1
  | _ => 0

/-- One for a connection that is being made, or whose making is not recorded
yet. -/
def connecting : PoolSection → Nat
  | .connect | .uncount | .countAcquired _ false | .warmConnect
  | .warmRelease _ => 1
  | _ => 0

/-- One for an evicted connection that is still counted. -/
def evicting : PoolSection → Nat
  | .evictCount => 1
  | _ => 0

/-- A value that the loop condition has let through. -/
def Below (cfg : PoolConfig) : PoolSection → Prop
  | .casTotal current | .warmCas current _ => current < cfg.maxConnections
  | _ => True

/-- One for a counted connection that is neither idle nor borrowed. -/
def counted (sec : PoolSection) : Nat :=
  sec.passing + sec.connecting + sec.evicting

/-- One for a waiter that was woken and is not resumed yet. -/
def woken : PoolSection → Nat
  | .resumeRead => 1
  | _ => 0

/-- One for an `acquire` that found the pool full and is about to wait. -/
def full : PoolSection → Nat
  | .readIdle | .suspendRead => 1
  | _ => 0

end PoolSection

/-- The number of `acquire`s that wait, or are about to, because they found
the pool full. -/
def waiting (s : Pool) (pending : Multiset PoolSection) : Nat :=
  s.idle.readers + total PoolSection.full pending

/-- A socket that its user has closed is not released. -/
def validRelease : PoolSection → Bool
  | .release _ valid => valid
  | _ => true

/-- The section takes a connection off the count. -/
def uncounts : PoolSection → Bool
  | .uncount | .dropCount | .evictCount => true
  | _ => false

/-- The section changes who holds a connection without the statistics of
`acquire` and `release` following. -/
def unbalances : PoolSection → Bool
  | .warmRelease _ | .evictCount => true
  | .release _ valid => !valid
  | _ => false

/-- The accounting of connections. -/
structure PoolInv (cfg : PoolConfig) (s : Pool)
    (pending : Multiset PoolSection) : Prop where
  ok : s.idle.Ok idleCapacity
  isOpen : s.idle.closed = false
  writers : s.idle.writers = []
  woken : s.idle.readReserved = total PoolSection.woken pending
  count : s.total = s.idle.count + s.borrowed.length +
    total PoolSection.counted pending
  le : s.total ≤ cfg.maxConnections

/-- Whoever waits found the pool full, and it is still full. -/
def PoolFull (cfg : PoolConfig) (s : Pool) (pending : Multiset PoolSection) :
    Prop :=
  0 < waiting s pending → s.total = cfg.maxConnections

/-- What was acquired was released or is borrowed. -/
def PoolBalanced (s : Pool) (pending : Multiset PoolSection) : Prop :=
  s.acquired = s.released + s.borrowed.length + total PoolSection.evicting pending

/-- What one section keeps. -/
structure PoolStep (cfg : PoolConfig) (s : Pool) (sec : PoolSection)
    (others : Multiset PoolSection) (s' : Pool) (next : Multiset PoolSection) :
    Prop where
  inv : PoolInv cfg s' (next + others)
  full : (uncounts sec = true → waiting s (sec ::ₘ others) = 0) →
    PoolFull cfg s (sec ::ₘ others) → PoolFull cfg s' (next + others)
  balanced : unbalances sec = false → PoolBalanced s (sec ::ₘ others) →
    PoolBalanced s' (next + others)

theorem total_counted (pending : Multiset PoolSection) :
    total PoolSection.counted pending =
      total PoolSection.passing pending + total PoolSection.connecting pending +
        total PoolSection.evicting pending := by
  induction pending using Multiset.induction with
  | empty => rfl
  | cons sec pending ih =>
      simp only [total_cons, ih, PoolSection.counted]
      omega

namespace PoolInv

variable {cfg : PoolConfig} {s s' : Pool} {sec : PoolSection}
  {others next : Multiset PoolSection}

/-- What a section must balance: the reservations, the count, and the
statistics; and it may let nobody wait while there is room. -/
theorem move (hinv : PoolInv cfg s (sec ::ₘ others))
    (hok : s'.idle.Ok idleCapacity) (hopen : s'.idle.closed = false)
    (hwriters : s'.idle.writers = [])
    (hwoken : s'.idle.readReserved + sec.woken =
      s.idle.readReserved + total PoolSection.woken next)
    (hcount : s'.total + (s.idle.count + s.borrowed.length + sec.counted) =
      s.total + (s'.idle.count + s'.borrowed.length +
        total PoolSection.counted next))
    (hle : s'.total ≤ cfg.maxConnections)
    (hfull : s'.total = cfg.maxConnections ∨
      (s'.idle.readers + total PoolSection.full next ≤
        s.idle.readers + sec.full ∧
        (s'.total = s.total ∨ uncounts sec = true ∨
          s.total < cfg.maxConnections)))
    (hbalanced : unbalances sec = true ∨
      s'.acquired + (s.released + s.borrowed.length + sec.evicting) =
        s.acquired + (s'.released + s'.borrowed.length +
          total PoolSection.evicting next)) :
    PoolStep cfg s sec others s' next := by
  obtain ⟨-, -, -, hwoken', hcount', -⟩ := hinv
  rw [total_cons] at hwoken' hcount'
  refine ⟨⟨hok, hopen, hwriters, ?_, ?_, hle⟩, ?_, ?_⟩
  · rw [total_add]
    omega
  · rw [total_add]
    omega
  · intro huncounts hold hwaiting
    simp only [PoolFull, waiting, total_cons, total_add] at huncounts hold hwaiting
    obtain hmax | ⟨hless, hsame | huncount | hroom⟩ := hfull
    · exact hmax
    · rw [hsame]
      exact hold (by omega)
    · have := huncounts huncount
      omega
    · have := hold (by omega)
      omega
  · intro hsec hold
    simp only [PoolBalanced, total_cons, total_add] at hold ⊢
    obtain htrue | heq := hbalanced
    · rw [hsec] at htrue
      cases htrue
    · omega

/-- A section that leaves the channel and the number of borrowed connections
alone. -/
theorem plain (hinv : PoolInv cfg s (sec ::ₘ others)) (hidle : s'.idle = s.idle)
    (hborrowed : s'.borrowed = s.borrowed)
    (hwoken : sec.woken = total PoolSection.woken next)
    (hcount : s'.total + sec.counted = s.total + total PoolSection.counted next)
    (hle : s'.total ≤ cfg.maxConnections)
    (hfull : s'.total = cfg.maxConnections ∨
      (total PoolSection.full next ≤ sec.full ∧
        (s'.total = s.total ∨ uncounts sec = true ∨
          s.total < cfg.maxConnections)))
    (hstats : unbalances sec = true ∨
      (s'.acquired = s.acquired ∧ s'.released = s.released ∧
        sec.evicting = total PoolSection.evicting next)) :
    PoolStep cfg s sec others s' next := by
  refine hinv.move ?_ ?_ ?_ ?_ ?_ hle ?_ ?_
  · rw [hidle]
    exact hinv.ok
  · rw [hidle]
    exact hinv.isOpen
  · rw [hidle]
    exact hinv.writers
  · rw [hidle, hwoken]
  · rw [hidle, hborrowed]
    omega
  · rw [hidle]
    obtain hmax | ⟨hless, hrest⟩ := hfull
    · exact .inl hmax
    · exact .inr ⟨Nat.add_le_add_left hless _, hrest⟩
  · obtain htrue | ⟨hacquired, hreleased, hevicting⟩ := hstats
    · exact .inl htrue
    · right
      rw [hborrowed, hacquired, hreleased, hevicting]

theorem after_work (s : Pool) (result : Channel Nat × List (Woken Nat))
    (next : List PoolSection) :
    (s.after result next).work =
      (next : Multiset PoolSection) +
        ((Pool.wake result.2).flatten : Multiset PoolSection) := rfl

/-- The threads of woken readers hold their reservations and nothing else. -/
theorem total_wake (n : Nat) :
    total PoolSection.woken
        ((Pool.wake (List.replicate n .reader)).flatten : Multiset PoolSection) =
      n ∧
    total PoolSection.counted
        ((Pool.wake (List.replicate n .reader)).flatten : Multiset PoolSection) =
      0 ∧
    total PoolSection.full
        ((Pool.wake (List.replicate n .reader)).flatten : Multiset PoolSection) =
      0 ∧
    total PoolSection.evicting
        ((Pool.wake (List.replicate n .reader)).flatten : Multiset PoolSection) =
      0 := by
  induction n with
  | zero => exact ⟨rfl, rfl, rfl, rfl⟩
  | succ n ih =>
      obtain ⟨hwoken, hcounted, hfull, hevicting⟩ := ih
      have hwake : (Pool.wake (List.replicate (n + 1) .reader)).flatten =
          .resumeRead :: (Pool.wake (List.replicate n .reader)).flatten := rfl
      simp only [hwake, ← Multiset.cons_coe, total_cons, hwoken, hcounted, hfull,
        hevicting]
      exact ⟨Nat.add_comm 1 n, rfl, rfl, rfl⟩

/-- A connection is taken out of the channel. -/
theorem get {from_ : Channel Nat} {socket : Nat}
    (hinv : PoolInv cfg s (sec ::ₘ others)) (hcounted : sec.counted = 0)
    (hevicting : sec.evicting = 0) (hcount : 0 < s.idle.count)
    (hwoken : from_.readReserved + sec.woken = s.idle.readReserved)
    (hsame : from_.closed = s.idle.closed ∧ from_.writers = s.idle.writers ∧
      from_.count = s.idle.count ∧ from_.readers = s.idle.readers)
    (hok : (from_.get idleCapacity).1.Ok idleCapacity) :
    PoolStep cfg s sec others
      (s.after (from_.get idleCapacity) [.countAcquired socket true]).shared
      (s.after (from_.get idleCapacity) [.countAcquired socket true]).work := by
  obtain ⟨hclosed, hwriters, hsize, hreaders⟩ := hsame
  obtain ⟨values, hvalues, hparked, -, hreads, hopen⟩ :=
    from_.get_cases idleCapacity
  obtain ⟨hcount', hreaders'⟩ := from_.get_count idleCapacity
  rw [hwriters, hinv.writers] at hparked
  obtain ⟨hnone, hparked⟩ := List.append_eq_nil_iff.mp hparked.symm
  have hwake : (from_.get idleCapacity).2 = [] := by rw [hvalues, hnone]; rfl
  rw [after_work, hwake]
  refine hinv.move hok ((hopen.trans hclosed).trans hinv.isOpen) hparked ?_ ?_
    hinv.le (.inr ⟨?_, .inl rfl⟩) (.inr (by rw [hevicting]; rfl))
  · simp only [Pool.after, hreads, hwoken]
    rfl
  · have hone : total PoolSection.counted
        (([.countAcquired socket true] : List PoolSection) +
          ((Pool.wake []).flatten : Multiset PoolSection)) = 1 := rfl
    rw [hone]
    simp only [Pool.after, hcount', hcounted]
    omega
  · simp only [Pool.after, hreaders', hreaders]
    exact Nat.le_add_right _ _

/-- A connection is put into the channel. -/
theorem put {socket : Nat}
    (hinv : PoolInv cfg s (.writeIdle socket ::ₘ others))
    (hroom : s.idle.hasRoom idleCapacity = true) :
    PoolStep cfg s (.writeIdle socket) others
      (s.after (s.idle.put idleCapacity socket) []).shared
      (s.after (s.idle.put idleCapacity socket) []).work := by
  obtain ⟨n, hvalues, hreads, -, hparked, hopen⟩ :=
    s.idle.put_cases idleCapacity socket
  obtain ⟨hcount, hreaders⟩ := s.idle.put_count idleCapacity socket
  obtain ⟨hwoken, hcounted, hfull, hevicting⟩ := total_wake n
  rw [after_work, hvalues, Multiset.coe_nil, zero_add]
  refine hinv.move (hinv.ok.put_free hinv.isOpen hroom socket)
    (hopen.trans hinv.isOpen) (hparked.trans hinv.writers) ?_ ?_ hinv.le
    (.inr ⟨?_, .inl rfl⟩) (.inr (by rw [hevicting]; rfl))
  · rw [hwoken]
    exact hreads
  · rw [hcounted]
    simp only [Pool.after, hcount]
    have hone : PoolSection.counted (.writeIdle socket) = 1 := rfl
    omega
  · rw [hfull]
    simp only [Pool.after]
    omega

/-- A section that changes nothing but what comes next. -/
theorem goOn (hinv : PoolInv cfg s (sec ::ₘ others))
    (hwoken : sec.woken = total PoolSection.woken next)
    (hcounted : sec.counted = total PoolSection.counted next)
    (hevicting : sec.evicting = total PoolSection.evicting next)
    (hfull : total PoolSection.full next ≤ sec.full) :
    PoolStep cfg s sec others s next :=
  hinv.plain rfl rfl hwoken (by rw [hcounted]) hinv.le (.inr ⟨hfull, .inl rfl⟩)
    (.inr ⟨rfl, rfl, hevicting⟩)

/-- The value that was read decides whether to create a connection or to
wait. -/
theorem tryCreate (hinv : PoolInv cfg s (sec ::ₘ others))
    (hwoken : sec.woken = 0) (hcounted : sec.counted = 0)
    (hevicting : sec.evicting = 0) :
    PoolStep cfg s sec others (s.tryCreate cfg s.total).shared
      (s.tryCreate cfg s.total).work := by
  unfold Pool.tryCreate
  split
  · exact hinv.goOn hwoken hcounted hevicting (Nat.zero_le _)
  · rename_i hmax
    exact hinv.plain rfl rfl hwoken (by rw [hcounted]; rfl) hinv.le
      (.inl (Nat.le_antisymm hinv.le (Nat.not_lt.mp hmax)))
      (.inr ⟨rfl, rfl, hevicting⟩)

theorem length_erase {socket : Nat} (hmem : socket ∈ s.borrowed) :
    (s.borrowed.erase socket).length + 1 = s.borrowed.length := by
  rw [List.length_erase_of_mem hmem]
  have := List.length_pos_of_mem hmem
  omega

/-- A borrowed connection comes back, and what is next holds it. -/
theorem giveBack (hinv : PoolInv cfg s (sec ::ₘ others)) {socket : Nat}
    (hmem : socket ∈ s.borrowed) (hidle : s'.idle = s.idle) (htotal : s'.total = s.total)
    (hborrowed : s'.borrowed = s.borrowed.erase socket)
    (hwoken : sec.woken = total PoolSection.woken next)
    (hcounted : total PoolSection.counted next = sec.counted + 1)
    (hfull : total PoolSection.full next ≤ sec.full)
    (hstats : s'.acquired = s.acquired ∧
      s'.released + total PoolSection.evicting next = s.released + sec.evicting + 1) :
    PoolStep cfg s sec others s' next := by
  have hlength := length_erase hmem
  obtain ⟨hacquired, hreleased⟩ := hstats
  refine hinv.move ?_ ?_ ?_ ?_ ?_ ?_ (.inr ⟨?_, .inl htotal⟩) (.inr ?_)
  · rw [hidle]
    exact hinv.ok
  · rw [hidle]
    exact hinv.isOpen
  · rw [hidle]
    exact hinv.writers
  · rw [hidle, hwoken]
  · rw [hidle, htotal, hborrowed, hcounted]
    omega
  · rw [htotal]
    exact hinv.le
  · rw [hidle]
    exact Nat.add_le_add_left hfull _
  · rw [hacquired, hborrowed]
    omega

/-- The counter does not fall below zero. -/
theorem uncount_le (hinv : PoolInv cfg s (sec ::ₘ others))
    (hcounted : sec.counted = 1) : 1 ≤ s.total := by
  rw [hinv.count, total_cons, hcounted]
  omega

theorem uncount (hinv : PoolInv cfg s (sec ::ₘ others))
    (hcounted : sec.counted = 1) (hwoken : sec.woken = 0)
    (huncounts : uncounts sec = true) {next : Multiset PoolSection}
    (hnext : total PoolSection.woken next = 0 ∧
      total PoolSection.counted next = 0 ∧ total PoolSection.full next = 0)
    (hevicting : unbalances sec = true ∨
      sec.evicting = total PoolSection.evicting next) :
    PoolStep cfg s sec others { s with total := s.total - 1 } next := by
  obtain ⟨hnwoken, hncounted, hnfull⟩ := hnext
  have hpos := hinv.uncount_le hcounted
  have hle := hinv.le
  refine hinv.plain rfl rfl (by rw [hwoken, hnwoken]) ?_ ?_
    (.inr ⟨by rw [hnfull]; exact Nat.zero_le _, .inr (.inl huncounts)⟩)
    (hevicting.imp_right fun heq => ⟨rfl, rfl, heq⟩)
  · rw [hcounted, hncounted]
    exact Nat.sub_add_cancel hpos
  · exact (Nat.sub_le _ _).trans hle

/-- A connection is counted before it is made. -/
theorem count_new (hinv : PoolInv cfg s (sec ::ₘ others))
    (hcounted : sec.counted = 0) (hwoken : sec.woken = 0)
    (hroom : s.total < cfg.maxConnections) (hfull : sec.full = 0)
    {next : Multiset PoolSection}
    (hnext : total PoolSection.woken next = 0 ∧
      total PoolSection.counted next = 1 ∧ total PoolSection.full next = 0)
    (hevicting : sec.evicting = total PoolSection.evicting next) :
    PoolStep cfg s sec others { s with total := s.total + 1 } next := by
  obtain ⟨hnwoken, hncounted, hnfull⟩ := hnext
  refine hinv.plain rfl rfl (by rw [hwoken, hnwoken]) ?_ hroom
    (.inr ⟨by rw [hnfull, hfull], .inr (.inr hroom)⟩) (.inr ⟨rfl, rfl, hevicting⟩)
  rw [hcounted, hncounted]

/-- A connection that no woken reader waits for is taken. -/
theorem takes (hinv : PoolInv cfg s (sec ::ₘ others)) (hcounted : sec.counted = 0)
    (hevicting : sec.evicting = 0) (hwoken : sec.woken = 0)
    (hdata : s.idle.count > s.idle.readReserved) (socket : Nat) :
    PoolStep cfg s sec others
      (s.after (s.idle.get idleCapacity) [.countAcquired socket true]).shared
      (s.after (s.idle.get idleCapacity) [.countAcquired socket true]).work :=
  hinv.get hcounted hevicting (Nat.zero_lt_of_lt hdata) (by rw [hwoken]; rfl)
    ⟨rfl, rfl, rfl, rfl⟩ (hinv.ok.get_free hdata)

section Sections

variable {choice : PoolChoice} {effect : Effect Pool PoolSection}

theorem acquire (hinv : PoolInv cfg s (.acquire ::ₘ others))
    (heffect : s.exec cfg .acquire choice = some effect) :
    PoolStep cfg s .acquire others effect.shared effect.work := by
  unfold Pool.exec at heffect
  simp only [Channel.tryRead] at heffect
  by_cases hdata : s.idle.count ≤ s.idle.readReserved
  · simp only [hdata, if_true] at heffect
    obtain rfl := Option.some.inj heffect
    exact hinv.goOn rfl rfl rfl le_rfl
  · simp only [hdata, if_false] at heffect
    obtain rfl := Option.some.inj heffect
    exact hinv.takes rfl rfl rfl (Nat.not_le.mp hdata) _

/-- A compare-exchange on the count. -/
theorem casTotal {current : Nat} (hinv : PoolInv cfg s (.casTotal current ::ₘ others))
    (hbelow : current < cfg.maxConnections)
    (heffect : s.exec cfg (.casTotal current) choice = some effect) :
    PoolStep cfg s (.casTotal current) others effect.shared effect.work := by
  unfold Pool.exec at heffect
  dsimp only at heffect
  split at heffect
  · obtain rfl := Option.some.inj heffect
    exact hinv.tryCreate rfl rfl rfl
  · split at heffect <;> obtain rfl := Option.some.inj heffect
    · subst_vars
      exact hinv.count_new rfl rfl hbelow rfl ⟨rfl, rfl, rfl⟩ rfl
    · exact hinv.tryCreate rfl rfl rfl

theorem warmCas {current turns : Nat} (hinv : PoolInv cfg s (.warmCas current turns ::ₘ others))
    (hbelow : current < cfg.maxConnections)
    (heffect : s.exec cfg (.warmCas current turns) choice = some effect) :
    PoolStep cfg s (.warmCas current turns) others effect.shared effect.work := by
  unfold Pool.exec at heffect
  dsimp only at heffect
  split at heffect
  · obtain rfl := Option.some.inj heffect
    exact hinv.goOn rfl rfl rfl le_rfl
  · split at heffect <;> obtain rfl := Option.some.inj heffect
    · subst_vars
      exact hinv.count_new rfl rfl hbelow rfl ⟨rfl, rfl, rfl⟩ rfl
    · exact hinv.goOn rfl rfl rfl le_rfl

/-- The reader looks once more, and waits. -/
theorem readIdle (hinv : PoolInv cfg s (.readIdle ::ₘ others))
    (heffect : s.exec cfg .readIdle choice = some effect) :
    PoolStep cfg s .readIdle others effect.shared effect.work := by
  unfold Pool.exec at heffect
  simp only [Channel.readReady] at heffect
  by_cases hdata : s.idle.count > s.idle.readReserved
  · simp only [hdata, if_true] at heffect
    obtain rfl := Option.some.inj heffect
    exact hinv.takes rfl rfl rfl hdata _
  · simp only [hdata, hinv.isOpen, if_false] at heffect
    obtain rfl := Option.some.inj heffect
    exact hinv.goOn rfl rfl rfl le_rfl

theorem suspendRead (hinv : PoolInv cfg s (.suspendRead ::ₘ others))
    (heffect : s.exec cfg .suspendRead choice = some effect) :
    PoolStep cfg s .suspendRead others effect.shared effect.work := by
  unfold Pool.exec at heffect
  simp only [Channel.readSuspend, Channel.readReady] at heffect
  by_cases hdata : s.idle.count > s.idle.readReserved
  · simp only [hdata, if_true] at heffect
    obtain rfl := Option.some.inj heffect
    exact hinv.takes rfl rfl rfl hdata _
  · simp only [hdata, hinv.isOpen, if_false] at heffect
    obtain rfl := Option.some.inj heffect
    exact hinv.move (hinv.ok.parkReader hinv.isOpen hdata) hinv.isOpen
      hinv.writers rfl rfl hinv.le (.inr ⟨le_rfl, .inl rfl⟩) (.inr rfl)

/-- A connection was reserved for the reader that is woken. -/
theorem resumeRead (hinv : PoolInv cfg s (.resumeRead ::ₘ others))
    (heffect : s.exec cfg .resumeRead choice = some effect) :
    PoolStep cfg s .resumeRead others effect.shared effect.work := by
  have hreserved : 0 < s.idle.readReserved := by
    rw [hinv.woken, total_cons]
    exact Nat.lt_add_right _ Nat.one_pos
  have hdata : s.idle.count > 0 :=
    hreserved.trans_le (hinv.ok.spoken hinv.isOpen).data
  unfold Pool.exec at heffect
  simp only [Channel.readResume, hdata, if_true] at heffect
  obtain rfl := Option.some.inj heffect
  exact hinv.get rfl rfl hdata (Nat.sub_add_cancel hreserved)
    ⟨rfl, rfl, rfl, rfl⟩ (hinv.ok.get_reserved hdata hreserved)

theorem countAcquired {socket : Nat} {reused : Bool}
    (hinv : PoolInv cfg s (.countAcquired socket reused ::ₘ others))
    (heffect : s.exec cfg (.countAcquired socket reused) choice = some effect) :
    PoolStep cfg s (.countAcquired socket reused) others effect.shared effect.work := by
  obtain rfl := Option.some.inj heffect
  have hone : PoolSection.counted (.countAcquired socket reused) = 1 := by
    cases reused <;> rfl
  refine hinv.move hinv.ok hinv.isOpen hinv.writers rfl ?_ hinv.le
    (.inr ⟨le_rfl, .inl rfl⟩) (.inr ?_)
  · rw [hone]
    rfl
  · change s.acquired + 1 + (s.released + s.borrowed.length + 0) =
      s.acquired + (s.released + (s.borrowed.length + 1) + 0)
    omega

/-- A connection comes back: into the channel, if it has room. -/
theorem writeIdle {socket : Nat} (hinv : PoolInv cfg s (.writeIdle socket ::ₘ others))
    (heffect : s.exec cfg (.writeIdle socket) choice = some effect) :
    PoolStep cfg s (.writeIdle socket) others effect.shared effect.work := by
  unfold Pool.exec at heffect
  simp only [Channel.tryWrite, hinv.isOpen, Bool.false_or] at heffect
  by_cases hroom : s.idle.hasRoom idleCapacity = true
  · simp only [hroom] at heffect
    obtain rfl := Option.some.inj heffect
    exact hinv.put hroom
  · simp only [hroom] at heffect
    obtain rfl := Option.some.inj heffect
    exact hinv.goOn rfl rfl rfl le_rfl

theorem step (hinv : PoolInv cfg s (sec ::ₘ others)) (hbelow : sec.Below cfg)
    (hvalid : validRelease sec = true)
    (heffect : s.exec cfg sec choice = some effect) :
    PoolStep cfg s sec others effect.shared effect.work := by
  cases sec with
  | acquire => exact hinv.acquire heffect
  | casTotal current => exact hinv.casTotal hbelow heffect
  | warmCas current turns => exact hinv.warmCas hbelow heffect
  | readIdle => exact hinv.readIdle heffect
  | suspendRead => exact hinv.suspendRead heffect
  | resumeRead => exact hinv.resumeRead heffect
  | countAcquired socket reused => exact hinv.countAcquired heffect
  | writeIdle socket => exact hinv.writeIdle heffect
  | loadTotal =>
      obtain rfl := Option.some.inj heffect
      exact hinv.tryCreate rfl rfl rfl
  | connect | warmConnect =>
      cases choice <;> first
        | cases heffect; done
        | obtain rfl := Option.some.inj heffect
          exact hinv.goOn rfl rfl rfl le_rfl
  | uncount | dropCount =>
      obtain rfl := Option.some.inj heffect
      exact hinv.uncount rfl rfl rfl ⟨rfl, rfl, rfl⟩ (.inr rfl)
  | evictCount =>
      obtain rfl := Option.some.inj heffect
      exact hinv.uncount rfl rfl rfl ⟨rfl, rfl, rfl⟩ (.inl rfl)
  | countFailed =>
      obtain rfl := Option.some.inj heffect
      exact hinv.plain rfl rfl rfl rfl hinv.le (.inr ⟨le_rfl, .inl rfl⟩)
        (.inr ⟨rfl, rfl, rfl⟩)
  | preWarm turns =>
      cases turns with
      | zero =>
          obtain rfl := Option.some.inj heffect
          exact hinv.goOn rfl rfl rfl le_rfl
      | succ turns =>
          simp only [Pool.exec] at heffect
          split at heffect <;> obtain rfl := Option.some.inj heffect
          · exact hinv.goOn rfl rfl rfl le_rfl
          · exact hinv.goOn rfl rfl rfl le_rfl
  | warmRelease socket =>
      obtain rfl := Option.some.inj heffect
      exact hinv.plain rfl rfl rfl rfl hinv.le (.inr ⟨le_rfl, .inl rfl⟩) (.inl rfl)
  | release socket valid =>
      obtain rfl : valid = true := hvalid
      obtain ⟨hmem, ⟨⟩⟩ := Option.ite_none_right_eq_some.mp heffect
      exact hinv.giveBack hmem rfl rfl rfl rfl rfl le_rfl ⟨rfl, rfl⟩
  | invalidate socket =>
      obtain ⟨hmem, ⟨⟩⟩ := Option.ite_none_right_eq_some.mp heffect
      exact hinv.giveBack hmem rfl rfl rfl rfl rfl le_rfl ⟨rfl, rfl⟩

end Sections

theorem below_wake (woken : List (Woken Nat)) :
    ∀ sec ∈ (Pool.wake woken).flatten, PoolSection.Below cfg sec := by
  induction woken with
  | nil => nofun
  | cons head tail ih =>
      cases head with
      | reader => exact List.forall_mem_cons.mpr ⟨trivial, ih⟩
      | writer value => exact ih

theorem below_after (s : Pool) (result : Channel Nat × List (Woken Nat))
    {next : List PoolSection} (hnext : ∀ sec ∈ next, PoolSection.Below cfg sec) :
    ∀ sec ∈ (s.after result next).work, PoolSection.Below cfg sec := by
  intro sec hsec
  rw [after_work] at hsec
  rcases Multiset.mem_add.mp hsec with hmem | hmem
  · exact hnext sec (Multiset.mem_coe.mp hmem)
  · exact below_wake result.2 sec (Multiset.mem_coe.mp hmem)

theorem below_goto (s : Pool) {next : List PoolSection}
    (hnext : ∀ sec ∈ next, PoolSection.Below cfg sec) :
    ∀ sec ∈ (Effect.goto s next).work, PoolSection.Below cfg sec := by
  intro sec hsec
  rw [Effect.goto_work] at hsec
  exact hnext sec (Multiset.mem_coe.mp hsec)

theorem below_tryCreate (s : Pool) (current : Nat) :
    ∀ sec ∈ (s.tryCreate cfg current).work, PoolSection.Below cfg sec := by
  unfold Pool.tryCreate
  split
  · exact below_goto s (List.forall_mem_singleton.mpr ‹_›)
  · exact below_goto s (List.forall_mem_singleton.mpr trivial)

theorem below_step {choice : PoolChoice} {effect : Effect Pool PoolSection}
    (heffect : s.exec cfg sec choice = some effect) :
    ∀ after ∈ effect.work, PoolSection.Below cfg after := by
  have hone : ∀ {sec : PoolSection}, sec.Below cfg →
      ∀ other ∈ [sec], PoolSection.Below cfg other := fun hsec =>
    List.forall_mem_singleton.mpr hsec
  cases sec with
  | acquire =>
      simp only [Pool.exec] at heffect
      split at heffect <;> obtain rfl := Option.some.inj heffect
      · exact below_after s _ (hone trivial)
      · exact below_after s _ (hone trivial)
  | loadTotal =>
      obtain rfl := Option.some.inj heffect
      exact below_tryCreate s s.total
  | casTotal current =>
      simp only [Pool.exec] at heffect
      split at heffect
      · obtain rfl := Option.some.inj heffect
        exact below_tryCreate s s.total
      · split at heffect <;> obtain rfl := Option.some.inj heffect
        · exact below_goto _ (hone trivial)
        · exact below_tryCreate s s.total
  | connect =>
      cases choice <;> first
        | cases heffect; done
        | obtain rfl := Option.some.inj heffect
          exact below_goto s (hone trivial)
  | uncount =>
      obtain rfl := Option.some.inj heffect
      exact below_goto _ (hone trivial)
  | readIdle =>
      simp only [Pool.exec] at heffect
      split at heffect <;> obtain rfl := Option.some.inj heffect
      · exact below_after s _ (hone trivial)
      · exact below_after s _ nofun
      · exact below_after s _ (hone trivial)
  | suspendRead =>
      simp only [Pool.exec] at heffect
      split at heffect <;> obtain rfl := Option.some.inj heffect
      · exact below_after s _ (hone trivial)
      · exact below_after s _ nofun
  | resumeRead =>
      simp only [Pool.exec] at heffect
      split at heffect <;> obtain rfl := Option.some.inj heffect
      · exact below_after s _ (hone trivial)
      · exact below_after s _ nofun
  | preWarm turns =>
      cases turns with
      | zero =>
          obtain rfl := Option.some.inj heffect
          nofun
      | succ turns =>
          simp only [Pool.exec] at heffect
          split at heffect <;> obtain rfl := Option.some.inj heffect
          · nofun
          · exact below_goto s (hone (Nat.not_le.mp ‹_›))
  | warmCas current turns =>
      simp only [Pool.exec] at heffect
      split at heffect
      · obtain rfl := Option.some.inj heffect
        exact below_goto s (hone trivial)
      · split at heffect <;> obtain rfl := Option.some.inj heffect
        · exact below_goto _ (List.forall_mem_cons.mpr ⟨trivial, hone trivial⟩)
        · exact below_goto s (hone trivial)
  | warmConnect =>
      cases choice <;> first
        | cases heffect; done
        | obtain rfl := Option.some.inj heffect
          exact below_goto s (hone trivial)
  | warmRelease socket =>
      obtain rfl := Option.some.inj heffect
      exact below_goto _ (hone trivial)
  | release socket valid =>
      simp only [Pool.exec] at heffect
      split at heffect
      · split at heffect <;> obtain rfl := Option.some.inj heffect
        · exact below_goto _ (hone trivial)
        · nofun
      · cases heffect
  | writeIdle socket =>
      simp only [Pool.exec] at heffect
      split at heffect <;> obtain rfl := Option.some.inj heffect
      · exact below_after s _ nofun
      · exact below_after s _ (hone trivial)
  | invalidate socket =>
      simp only [Pool.exec] at heffect
      split at heffect
      · obtain rfl := Option.some.inj heffect
        exact below_goto _ (hone trivial)
      · cases heffect
  | countFailed | countAcquired | dropCount | evictCount =>
      obtain rfl := Option.some.inj heffect
      nofun

/-- A new call holds nothing. -/
theorem call {pending : Multiset PoolSection} (hinv : PoolInv cfg s pending)
    (hentry : (poolProgram cfg).entry s sec = true) :
    PoolInv cfg s (sec ::ₘ pending) ∧ sec.Below cfg ∧ sec.full = 0 ∧
      sec.evicting = 0 := by
  have hweights : sec.woken = 0 ∧ sec.counted = 0 ∧ sec.Below cfg ∧
      sec.full = 0 ∧ sec.evicting = 0 := by
    cases sec <;> first
      | exact ⟨rfl, rfl, trivial, rfl, rfl⟩
      | cases hentry
  obtain ⟨hwoken, hcounted, hrest⟩ := hweights
  obtain ⟨hok, hopen, hwriters, hwoken', hcount, hle⟩ := hinv
  refine ⟨⟨hok, hopen, hwriters, ?_, ?_, hle⟩, hrest⟩
  · rw [total_cons, hwoken, Nat.zero_add, hwoken']
  · rw [total_cons, hcounted, Nat.zero_add, hcount]

theorem init : PoolInv cfg .init 0 :=
  ⟨⟨by decide, rfl, Nat.zero_le _,
      fun _ => ⟨Nat.zero_le _, le_rfl, nofun, nofun⟩, nofun⟩,
    rfl, rfl, rfl, rfl, Nat.zero_le _⟩

end PoolInv

/-- The accounting, and the loop conditions of the pending sections. -/
def PoolOk (cfg : PoolConfig) (s : Pool) (pending : Multiset PoolSection) : Prop :=
  PoolInv cfg s pending ∧ ∀ sec ∈ pending, sec.Below cfg

theorem PoolOk.step {cfg : PoolConfig} {s : Pool} {sec : PoolSection}
    {others : Multiset PoolSection} {choice : PoolChoice}
    {effect : Effect Pool PoolSection} (hok : PoolOk cfg s (sec ::ₘ others))
    (hvalid : validRelease sec = true)
    (heffect : s.exec cfg sec choice = some effect) :
    PoolStep cfg s sec others effect.shared effect.work ∧
      PoolOk cfg effect.shared (effect.work + others) := by
  obtain ⟨hinv, hbelow⟩ := hok
  have hstep := hinv.step (hbelow sec (Multiset.mem_cons_self ..)) hvalid heffect
  refine ⟨hstep, hstep.inv, ?_⟩
  intro other hother
  rcases Multiset.mem_add.mp hother with hnew | hold
  · exact PoolInv.below_step heffect other hnew
  · exact hbelow other (Multiset.mem_cons_of_mem hold)

theorem PoolOk.call {cfg : PoolConfig} {s : Pool} {sec : PoolSection}
    {pending : Multiset PoolSection} (hok : PoolOk cfg s pending)
    (hentry : (poolProgram cfg).entry s sec = true) :
    PoolOk cfg s (sec ::ₘ pending) ∧ sec.full = 0 ∧ sec.evicting = 0 := by
  obtain ⟨hinv, hbelow⟩ := hok
  obtain ⟨hnext, hsec, hrest⟩ := hinv.call hentry
  exact ⟨⟨hnext, Multiset.forall_mem_cons.mpr ⟨hsec, hbelow⟩⟩, hrest⟩

end UltraNet
