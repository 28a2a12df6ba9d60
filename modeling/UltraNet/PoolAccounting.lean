/-
What the counters of a connection pool say: in which runs they agree with the
connections that there are, and in which runs nobody waits for a connection
while the pool could make one.
-/
import UltraNet.ConnectionPool

namespace UltraNet

/-- The idle connections, with those on their way to or from the channel. -/
def idleNow (s : Pool) (pending : Multiset PoolSection) : Nat :=
  s.idle.count + total PoolSection.passing pending

/-- The borrowed connections, with those that are being evicted. -/
def borrowedNow (s : Pool) (pending : Multiset PoolSection) : Nat :=
  s.borrowed.length + total PoolSection.evicting pending

def connectingNow (pending : Multiset PoolSection) : Nat :=
  total PoolSection.connecting pending

theorem PoolInv.total_eq {cfg : PoolConfig} {s : Pool}
    {pending : Multiset PoolSection} (hinv : PoolInv cfg s pending) :
    s.total = idleNow s pending + borrowedNow s pending +
      connectingNow pending := by
  rw [hinv.count, total_counted, idleNow, borrowedNow, connectingNow]
  omega

/-- The accounting with the statistics. -/
def PoolBooked (cfg : PoolConfig) (s : Pool) (pending : Multiset PoolSection) :
    Prop :=
  PoolOk cfg s pending ∧ PoolBalanced s pending

/-- The accounting with those who wait. -/
def PoolKept (cfg : PoolConfig) (s : Pool) (pending : Multiset PoolSection) :
    Prop :=
  PoolOk cfg s pending ∧ PoolFull cfg s pending

theorem Pool.Stats.active_eq {stats : Pool.Stats} {borrowed : Nat}
    (hacquired : stats.acquired = stats.released + borrowed) :
    stats.active = borrowed := by
  unfold Pool.Stats.active
  split <;> omega

theorem Pool.Stats.idle_eq {stats : Pool.Stats} {idle : Nat}
    (htotal : stats.totalConnections = idle + stats.active) :
    stats.idle = idle := by
  unfold Pool.Stats.idle
  split <;> omega

/-- If no connection of `pre_warm` is released, none is invalidated and none
that its user has closed is released, then the count is that of the idle,
borrowed and connecting ones, and the statistics tell the first two apart. -/
theorem pool_accounting (cfg : PoolConfig)
    (word : List (Move PoolSection PoolChoice)) {last : Config Pool PoolSection}
    (hmeets : ((poolProgram cfg).machine .init).Meets
      (Program.OnSections fun _ _ sec _ => unbalances sec = false) word)
    (hrun : ((poolProgram cfg).machine .init).run word = some last) :
    let s := last.shared
    s.total = idleNow s last.pending + borrowedNow s last.pending +
        connectingNow last.pending ∧
      s.total ≤ cfg.maxConnections ∧
      (connectingNow last.pending = 0 →
        s.snapshot.active = borrowedNow s last.pending ∧
        s.snapshot.idle = idleNow s last.pending) := by
  have hinv : PoolBooked cfg last.shared last.pending := by
    refine Program.invariant _ ?_ ?_ ?_ word hmeets hrun
    · exact ⟨⟨PoolInv.init, by simp⟩, rfl⟩
    · rintro s pending sec ⟨hok, hbalanced⟩ hentry
      obtain ⟨hnext, -, hevicting⟩ := hok.call hentry
      refine ⟨hnext, ?_⟩
      rw [PoolBalanced, total_cons, hevicting, Nat.zero_add]
      exact hbalanced
    · rintro s others sec choice effect ⟨hok, hbalanced⟩ hguard heffect
      have hvalid : validRelease sec = true := by
        cases sec <;> first
          | rfl
          | simpa [unbalances, validRelease] using hguard
      obtain ⟨hstep, hnext⟩ := hok.step hvalid heffect
      exact ⟨hnext, hstep.balanced hguard hbalanced⟩
  obtain ⟨⟨hok, -⟩, hbalanced⟩ := hinv
  have htotal := hok.total_eq
  refine ⟨htotal, hok.le, ?_⟩
  intro hconnecting
  have hactive : last.shared.snapshot.active =
      borrowedNow last.shared last.pending :=
    Pool.Stats.active_eq (hbalanced.trans (Nat.add_assoc ..))
  refine ⟨hactive, Pool.Stats.idle_eq ?_⟩
  rw [hactive]
  exact htotal.trans (by rw [hconnecting, Nat.add_zero])

/-- One `acquire` that connects. -/
def firstAcquire : List (Move PoolSection PoolChoice) :=
  [.call .acquire, .run 0 .run, .run 0 .run, .run 0 .run, .run 0 (.connected 5),
    .run 0 .run]

/-- The connection is released and acquired again. -/
def reacquired : List (Move PoolSection PoolChoice) :=
  firstAcquire ++ [.call (.release 5 true), .run 1 .run, .run 1 .run,
    .call .acquire, .run 2 .run, .run 2 .run]

set_option maxRecDepth 100000 in
theorem pool_accounting_reacquired :
    ∃ last, ((poolProgram ⟨0, 1⟩).machine .init).run reacquired = some last ∧
      last.shared.borrowed = [5] ∧ connectingNow last.pending = 0 ∧
      last.shared.snapshot.active = borrowedNow last.shared last.pending := by
  have hend : (((poolProgram ⟨0, 1⟩).machine .init).run reacquired).map
      (fun last => (last.shared.borrowed, connectingNow last.pending)) =
        some ([5], 0) := by
    decide
  obtain ⟨last, hrun, hlast⟩ := Option.map_eq_some_iff.mp hend
  have hzero : connectingNow last.pending = 0 := congrArg Prod.snd hlast
  obtain ⟨-, -, hstats⟩ :=
    pool_accounting ⟨0, 1⟩ reacquired (by decide) hrun
  exact ⟨last, hrun, congrArg Prod.fst hlast, hzero, (hstats hzero).1⟩

set_option maxRecDepth 100000 in
/-- The user has closed the socket that it releases: the connection is gone
and stays counted. -/
theorem closedRelease_leaks :
    ∃ last, ((poolProgram ⟨0, 1⟩).machine .init).run
        (firstAcquire ++ [.call (.release 5 false), .run 1 .run]) = some last ∧
      last.shared.total ≠ idleNow last.shared last.pending +
        borrowedNow last.shared last.pending + connectingNow last.pending := by
  have hend : (((poolProgram ⟨0, 1⟩).machine .init).run
      (firstAcquire ++ [.call (.release 5 false), .run 1 .run])).map
        (fun last => (last.shared.total, idleNow last.shared last.pending +
          borrowedNow last.shared last.pending + connectingNow last.pending)) =
        some (1, 0) := by
    decide
  obtain ⟨last, hrun, hlast⟩ := Option.map_eq_some_iff.mp hend
  have htotal : last.shared.total = 1 := congrArg Prod.fst hlast
  have hsum : idleNow last.shared last.pending +
      borrowedNow last.shared last.pending + connectingNow last.pending = 0 :=
    congrArg Prod.snd hlast
  exact ⟨last, hrun, by rw [htotal, hsum]; exact Nat.one_ne_zero⟩

/-- No connection leaves the count while somebody waits or is about to, and
none that its user has closed is released. -/
def keepsCount (s : Pool) (pending : Multiset PoolSection)
    (sec : PoolSection) : Bool :=
  validRelease sec && (!uncounts sec || waiting s pending = 0)

/-- In the runs that keep the count for those who wait, a parked `acquire`
means that the pool is full and that every counted connection is being
connected, is borrowed, or is in the hands of a running `acquire`, `release` or
`invalidate` or of a waiter that was woken. -/
theorem waiters_mean_full (cfg : PoolConfig)
    (word : List (Move PoolSection PoolChoice)) {last : Config Pool PoolSection}
    (hmeets : ((poolProgram cfg).machine .init).Meets
      (Program.OnSections fun s pending sec _ => keepsCount s pending sec = true)
      word)
    (hrun : ((poolProgram cfg).machine .init).run word = some last)
    (hparked : last.shared.idle.readers ≠ 0) :
    last.shared.total = cfg.maxConnections ∧
      last.shared.total = borrowedNow last.shared last.pending +
        total PoolSection.passing last.pending +
        total PoolSection.woken last.pending + connectingNow last.pending := by
  have hinv : PoolKept cfg last.shared last.pending := by
    refine Program.invariant _ ?_ ?_ ?_ word hmeets hrun
    · exact ⟨⟨PoolInv.init, by simp⟩, fun hwaiting => absurd hwaiting (by decide)⟩
    · rintro s pending sec ⟨hok, hfull⟩ hentry
      obtain ⟨hnext, hsec, -⟩ := hok.call hentry
      refine ⟨hnext, ?_⟩
      rw [PoolFull, waiting, total_cons, hsec, Nat.zero_add]
      exact hfull
    · rintro s others sec choice effect ⟨hok, hfull⟩ hguard heffect
      simp only [keepsCount, Bool.and_eq_true, Bool.or_eq_true,
        Bool.not_eq_true', decide_eq_true_eq] at hguard
      obtain ⟨hvalid, hcount⟩ := hguard
      obtain ⟨hstep, hnext⟩ := hok.step hvalid heffect
      refine ⟨hnext, hstep.full ?_ hfull⟩
      intro huncounts
      rw [huncounts] at hcount
      exact hcount.resolve_left (by decide)
  obtain ⟨⟨hok, -⟩, hfull⟩ := hinv
  have hwaiting : 0 < waiting last.shared last.pending :=
    Nat.lt_add_right _ (Nat.pos_of_ne_zero hparked)
  refine ⟨hfull hwaiting, ?_⟩
  have hreserved := (hok.ok.spoken hok.isOpen).reader hparked
  have htotal := hok.total_eq
  have hwoken := hok.woken
  rw [idleNow] at htotal
  omega

/-- A second `acquire` finds the only connection borrowed and parks. -/
def secondWaits : List (Move PoolSection PoolChoice) :=
  firstAcquire ++ [.call .acquire, .run 1 .run, .run 1 .run, .run 1 .run,
    .run 1 .run]

set_option maxRecDepth 100000 in
theorem waiters_mean_full_secondWaits :
    ∃ last, ((poolProgram ⟨0, 1⟩).machine .init).run secondWaits = some last ∧
      last.shared.idle.readers = 1 ∧ last.shared.total = 1 := by
  have hend : (((poolProgram ⟨0, 1⟩).machine .init).run secondWaits).map
      (fun last => last.shared.idle.readers) = some 1 := by
    decide
  obtain ⟨last, hrun, hlast⟩ := Option.map_eq_some_iff.mp hend
  obtain ⟨htotal, -⟩ := waiters_mean_full ⟨0, 1⟩ secondWaits (by decide)
    hrun (by rw [hlast]; exact Nat.one_ne_zero)
  exact ⟨last, hrun, hlast, htotal⟩

set_option maxRecDepth 100000 in
/-- The connection is invalidated: the pool has room, and the second `acquire`
stays parked. -/
theorem invalidate_strands_waiter :
    ∃ last, ((poolProgram ⟨0, 1⟩).machine .init).run
        (secondWaits ++ [.call (.invalidate 5), .run 2 .run, .run 2 .run]) =
          some last ∧
      last.shared.idle.readers ≠ 0 ∧ last.shared.total ≠ 1 := by
  have hend : (((poolProgram ⟨0, 1⟩).machine .init).run
      (secondWaits ++ [.call (.invalidate 5), .run 2 .run, .run 2 .run])).map
        (fun last => (last.shared.idle.readers, last.shared.total)) =
        some (1, 0) := by
    decide
  obtain ⟨last, hrun, hlast⟩ := Option.map_eq_some_iff.mp hend
  have hreaders : last.shared.idle.readers = 1 := congrArg Prod.fst hlast
  have htotal : last.shared.total = 0 := congrArg Prod.snd hlast
  exact ⟨last, hrun, by omega, by omega⟩

end UltraNet
