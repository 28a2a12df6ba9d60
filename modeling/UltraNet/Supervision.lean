/-
An actor with a supervisor.  `m_shutting_down` is read before each push, before
each activation and at the end of `pull_and_run`; it is set when the actor system
comes down, and by `note_supervised_failure` when the handlers have failed more
often than the supervisor lets the actor restart.
-/
import UltraNet.Activation
import UltraNet.DedupTable

namespace UltraNet

variable {E : Type}

/-- `supervisor`. -/
structure Supervisor where
  maxRestarts : Int

/-- `actor_base` with its supervisor.  `failures` are the envelopes whose handler
threw since the supervisor was installed, `restarts` those that `on_restart` was
called for, and `stopped` says that the actor system has set `m_shutting_down`:
the three are ghosts. -/
structure SupervisedActor (E : Type) where
  actor : ActorState E
  shuttingDown : Bool
  supervisor : Option Supervisor
  failureCount : Int
  failures : List E
  restarts : List E
  stopped : Bool

inductive SupervisedSection (E : Type) where
  -- the reads of `m_shutting_down`
  | tryPushEnvelope (env : E)
  | pushEnvelope (env : E)
  | tryActivate
  | recheck
  -- what follows the read, and every other section
  | actor (sec : ActorSection E)
  | setShuttingDown
  | installSupervisor (sv : Supervisor)

namespace SupervisedSection

/-- `try_activate` and the end of `pull_and_run` read `m_shutting_down` first. -/
def enter : ActorSection E → SupervisedSection E
  | .tryActivate => .tryActivate
  | .recheck => .recheck
  | sec => .actor sec

/-- The section without the read. -/
def actor? : SupervisedSection E → Option (ActorSection E)
  | .tryPushEnvelope env => some (.tryPushEnvelope env)
  | .pushEnvelope env => some (.pushEnvelope env 0)
  | .tryActivate => some .tryActivate
  | .recheck => some .recheck
  | .actor sec => some sec
  | .setShuttingDown | .installSupervisor _ => none

theorem actor?_tryPushEnvelope (env : E) :
    (tryPushEnvelope env).actor? = some (.tryPushEnvelope env) := rfl

theorem actor?_pushEnvelope (env : E) :
    (pushEnvelope env).actor? = some (.pushEnvelope env 0) := rfl

theorem actor?_actor (sec : ActorSection E) : (actor sec).actor? = some sec := rfl

@[simp] theorem actor?_enter (sec : ActorSection E) : (enter sec).actor? = some sec := by
  cases sec <;> rfl

end SupervisedSection

namespace SupervisedActor

def idle : SupervisedActor E := ⟨.idle, false, none, 0, [], [], false⟩

/-- `note_supervised_failure`, for the envelope whose handler threw. -/
def noteSupervisedFailure (s : SupervisedActor E) (sv : Supervisor) (env : E) :
    SupervisedActor E :=
  if s.failureCount + 1 ≤ sv.maxRestarts then
    { s with
      failureCount := s.failureCount + 1
      failures := s.failures ++ [env]
      restarts := s.restarts ++ [env] }
  else
    { s with
      failureCount := s.failureCount + 1
      failures := s.failures ++ [env]
      shuttingDown := true }

/-- What `deliver` does about a handler that threw. -/
def deliver (s : SupervisedActor E) (env : E) : DeliverResult → SupervisedActor E
  | .threw =>
      match s.supervisor with
      | some sv => s.noteSupervisedFailure sv env
      | none => s
  | .ok | .deadLetter => s

/-- The part of a section that `ActorState.exec` does not have. -/
def beside (s : SupervisedActor E) : ActorSection E → DeliverResult → SupervisedActor E
  | .dispatchEnvelope env _ _, result => s.deliver env result
  | _, _ => s

def exec (capacity maxPerActivation : Nat) (s : SupervisedActor E) :
    SupervisedSection E → DeliverResult →
      Option (Effect (SupervisedActor E) (SupervisedSection E))
  | .tryPushEnvelope env, _ =>
      some (if s.shuttingDown then .done s else .goto s [.actor (.tryPushEnvelope env)])
  | .pushEnvelope env, _ =>
      some (if s.shuttingDown then .done s else .goto s [.actor (.pushEnvelope env 0)])
  | .tryActivate, _ =>
      some (if s.shuttingDown then .done s else .goto s [.actor .tryActivate])
  | .recheck, _ => some (if s.shuttingDown then .done s else .goto s [.actor .recheck])
  | .actor sec, result =>
      (s.actor.exec capacity maxPerActivation sec ()).map fun effect =>
        ⟨{ s.beside sec result with actor := effect.shared },
          effect.next.map .enter, effect.spawned.map (List.map .enter)⟩
  | .setShuttingDown, _ => some (.done { s with shuttingDown := true, stopped := true })
  -- `spawn_supervised`, for the actor that it has just made
  | .installSupervisor sv, _ =>
      match s.supervisor with
      | none => some (.done { s with supervisor := some sv, failureCount := 0 })
      | some _ => none

end SupervisedActor

def supervisedProgram (capacity maxPerActivation : Nat) :
    Program (SupervisedActor E) (SupervisedSection E) DeliverResult where
  entry
    | _, .tryPushEnvelope _ | _, .pushEnvelope _ | _, .setShuttingDown
    | _, .installSupervisor _ => true
    | _, _ => false
  exec := SupervisedActor.exec capacity maxPerActivation

/-- A call that begins owns and counts nothing. -/
theorem ActivationInv.begin {s : ActorState E} {first : ActorSection E}
    {others : Multiset (ActorSection E)} (hinv : ActivationInv s others)
    (hactivations : first.activations = 0) (huncounted : first.uncounted = 0)
    (hexecuted : first.executed = 0) : ActivationInv s (first ::ₘ others) := by
  obtain ⟨howner, hcounted, hnonneg, hbatch, hawake, hlog⟩ := hinv
  constructor
  · simpa [hactivations] using howner
  · simpa [huncounted, hexecuted] using hcounted
  · exact hnonneg
  · have hfirst := ActorSection.batch_of_activations hactivations s.pending
    exact Multiset.forall_mem_cons.mpr ⟨hfirst, hbatch⟩
  · intro hmailbox
    apply (hawake hmailbox).imp_right
    intro ⟨other, hother, hrechecks⟩
    exact ⟨other, Multiset.mem_cons_of_mem hother, hrechecks⟩
  · exact hlog

namespace SupervisedActor

open SupervisedSection

variable {capacity maxPerActivation : Nat} {s : SupervisedActor E}
  {sec after : SupervisedSection E} {others : Multiset (SupervisedSection E)}
  {result : DeliverResult} {effect : Effect (SupervisedActor E) (SupervisedSection E)}

/-- For the activation, a thread that has seen the actor shutting down is one that
does not go on. -/
def Activates (s : SupervisedActor E) (pending : Multiset (SupervisedSection E)) : Prop :=
  ∃ stalled, ActivationInv s.actor (pending.filterMap actor? + stalled) ∧
    (s.shuttingDown = false → stalled = 0)

theorem Activates.call (hs : s.Activates others)
    (hentry : (supervisedProgram capacity maxPerActivation).entry s sec = true) :
    s.Activates (sec ::ₘ others) := by
  obtain ⟨stalled, hinv, hstalled⟩ := hs
  refine ⟨stalled, ?_, hstalled⟩
  cases sec with
  | tryPushEnvelope env =>
      rw [Multiset.filterMap_cons_some actor? _ _ (actor?_tryPushEnvelope env), Multiset.cons_add]
      exact hinv.begin rfl rfl rfl
  | pushEnvelope env =>
      rw [Multiset.filterMap_cons_some actor? _ _ (actor?_pushEnvelope env), Multiset.cons_add]
      exact hinv.begin rfl rfl rfl
  | setShuttingDown | installSupervisor => rwa [Multiset.filterMap_cons_none _ _ rfl]
  | tryActivate | recheck | actor => cases hentry

/-- The read lets the thread go on. -/
theorem Activates.pass (hs : s.Activates (sec ::ₘ others))
    (hsame : sec.actor? = after.actor?) : s.Activates (after ::ₘ others) := by
  have hmap : (sec ::ₘ others).filterMap actor? = (after ::ₘ others).filterMap actor? := by
    rw [Multiset.filterMap_cons, Multiset.filterMap_cons, hsame]
  unfold Activates at hs ⊢
  rwa [← hmap]

/-- It does not. -/
theorem Activates.stall (hs : s.Activates (sec ::ₘ others)) (hdown : s.shuttingDown = true) :
    s.Activates others := by
  obtain ⟨stalled, hinv, -⟩ := hs
  have hany : ∀ left : Multiset (ActorSection E), s.shuttingDown = false → left = 0 := by
    rw [hdown]
    exact nofun
  cases hsec : sec.actor? with
  | none =>
      rw [Multiset.filterMap_cons_none _ _ hsec] at hinv
      exact ⟨stalled, hinv, hany _⟩
  | some first =>
      rw [Multiset.filterMap_cons_some actor? _ _ hsec, Multiset.cons_add,
        ← Multiset.add_cons] at hinv
      exact ⟨first ::ₘ stalled, hinv, hany _⟩

theorem Activates.read {first : ActorSection E} (hs : s.Activates (sec ::ₘ others))
    (hsec : sec.actor? = some first)
    (heffect : some (if s.shuttingDown then Effect.done s else .goto s [.actor first]) =
      some effect) :
    effect.shared.Activates (effect.work + others) := by
  obtain rfl := Option.some.inj heffect
  split
  case isTrue hdown =>
    rw [Effect.done_work_add]
    exact hs.stall hdown
  case isFalse =>
    rw [Effect.goto_work_add]
    exact hs.pass (hsec.trans (actor?_actor first).symm)

theorem Activates.update {t : SupervisedActor E} (hs : s.Activates others)
    (hactor : t.actor = s.actor) (hdown : t.shuttingDown = false → s.shuttingDown = false) :
    t.Activates others := by
  obtain ⟨stalled, hinv, hstalled⟩ := hs
  refine ⟨stalled, ?_, fun hup => hstalled (hdown hup)⟩
  rwa [hactor]

theorem work_enter (base : Effect (ActorState E) (ActorSection E)) (shared : SupervisedActor E) :
    (Effect.mk shared (base.next.map enter) (base.spawned.map (List.map enter))).work =
      base.work.map enter := by
  rw [Effect.work, Effect.work, Multiset.map_add, Multiset.map_coe, Multiset.map_coe,
    List.map_flatten]

/-- The sections that follow one of the actor, without their reads. -/
theorem filterMap_enter (sections : Multiset (ActorSection E)) :
    (sections.map enter).filterMap actor? = sections := by
  have hid : actor? ∘ enter = (some : ActorSection E → Option (ActorSection E)) :=
    funext actor?_enter
  rw [Multiset.filterMap_map, hid, Multiset.filterMap_some]

theorem beside_shuttingDown (sec : ActorSection E)
    (hup : (s.beside sec result).shuttingDown = false) : s.shuttingDown = false := by
  unfold beside deliver noteSupervisedFailure at hup
  grind

theorem Activates.actor {first : ActorSection E}
    (hs : s.Activates (.actor first ::ₘ others))
    (heffect : s.exec capacity maxPerActivation (.actor first) result = some effect) :
    effect.shared.Activates (effect.work + others) := by
  obtain ⟨base, hbase, rfl⟩ := Option.map_eq_some_iff.mp heffect
  obtain ⟨stalled, hinv, hstalled⟩ := hs
  rw [Multiset.filterMap_cons_some actor? _ _ (actor?_actor first), Multiset.cons_add] at hinv
  refine ⟨stalled, ?_, fun hup => hstalled (beside_shuttingDown first hup)⟩
  rw [Multiset.filterMap_add, work_enter, filterMap_enter, add_assoc]
  exact hinv.step hbase

theorem Activates.step (hs : s.Activates (sec ::ₘ others))
    (heffect : s.exec capacity maxPerActivation sec result = some effect) :
    effect.shared.Activates (effect.work + others) := by
  cases sec with
  | tryPushEnvelope env => exact hs.read (actor?_tryPushEnvelope env) heffect
  | pushEnvelope env => exact hs.read (actor?_pushEnvelope env) heffect
  | tryActivate => exact hs.read (actor?_enter .tryActivate) heffect
  | recheck => exact hs.read (actor?_enter .recheck) heffect
  | actor first => exact hs.actor heffect
  | setShuttingDown =>
      obtain rfl := Option.some.inj heffect
      rw [Effect.done_work_add]
      have hdown : ({ s with shuttingDown := true, stopped := true } : SupervisedActor E).Activates
          (.setShuttingDown ::ₘ others) := hs.update rfl nofun
      exact hdown.stall rfl
  | installSupervisor sv =>
      simp only [exec] at heffect
      split at heffect <;> try contradiction
      obtain rfl := Option.some.inj heffect
      rw [Effect.done_work_add]
      obtain ⟨stalled, hinv, hstalled⟩ := hs
      rw [Multiset.filterMap_cons_none _ _ rfl] at hinv
      exact ⟨stalled, hinv, hstalled⟩

/-- How often the supervisor lets the actor restart. -/
def budget (s : SupervisedActor E) : Nat :=
  (s.supervisor.map fun sv => sv.maxRestarts.toNat).getD 0

/-- What the supervisor has seen and done. -/
structure Supervised (s : SupervisedActor E) : Prop where
  unsupervised : s.supervisor = none → s.failures = []
  counted : s.failureCount = s.failures.length
  restarted : s.restarts = s.failures.take s.budget
  givesUp : s.shuttingDown = true ↔ s.stopped = true ∨ s.budget < s.failures.length

theorem Supervised.failed {sv : Supervisor} (hs : s.Supervised) (hsv : s.supervisor = some sv)
    (env : E) : (s.noteSupervisedFailure sv env).Supervised := by
  obtain ⟨-, hcounted, hrestarted, hgivesUp⟩ := hs
  have hbudget : s.budget = sv.maxRestarts.toNat := by
    rw [budget, hsv]
    rfl
  rw [hbudget] at hrestarted hgivesUp
  unfold noteSupervisedFailure
  split
  case isTrue hwithin =>
    have hlength : s.failures.length + 1 ≤ sv.maxRestarts.toNat := by omega
    constructor
    · exact fun hnone => absurd (hsv.symm.trans hnone) nofun
    · simp [hcounted]
    · show s.restarts ++ [env] = (s.failures ++ [env]).take s.budget
      rw [hbudget, hrestarted, List.take_of_length_le (by omega), List.take_of_length_le]
      simpa using hlength
    · show s.shuttingDown = true ↔ s.stopped = true ∨ s.budget < (s.failures ++ [env]).length
      have hbefore : ¬ sv.maxRestarts.toNat < s.failures.length := by omega
      have hafter : ¬ sv.maxRestarts.toNat < (s.failures ++ [env]).length := by
        rw [List.length_append, List.length_singleton]
        omega
      rw [hbudget, hgivesUp, or_iff_left hbefore, or_iff_left hafter]
  case isFalse hbeyond =>
    have hlength : sv.maxRestarts.toNat ≤ s.failures.length := by omega
    constructor
    · exact fun hnone => absurd (hsv.symm.trans hnone) nofun
    · simp [hcounted]
    · show s.restarts = (s.failures ++ [env]).take s.budget
      rw [hbudget, hrestarted, List.take_append_of_le_length hlength]
    · refine iff_of_true rfl (.inr ?_)
      show s.budget < (s.failures ++ [env]).length
      rw [hbudget, List.length_append]
      exact Nat.lt_succ_of_le hlength

theorem Supervised.deliver (hs : s.Supervised) (env : E) (result : DeliverResult) :
    (s.deliver env result).Supervised := by
  cases result with
  | ok | deadLetter => exact hs
  | threw =>
      simp only [SupervisedActor.deliver]
      split
      case h_1 sv hsv => exact hs.failed hsv env
      case h_2 => exact hs

theorem Supervised.beside (hs : s.Supervised) (first : ActorSection E) (result : DeliverResult) :
    (s.beside first result).Supervised := by
  unfold SupervisedActor.beside
  split
  case h_1 env _ _ => exact hs.deliver env result
  case h_2 => exact hs

theorem Supervised.step (hs : s.Supervised)
    (heffect : s.exec capacity maxPerActivation sec result = some effect) :
    effect.shared.Supervised := by
  cases sec with
  | tryPushEnvelope | pushEnvelope | tryActivate | recheck =>
      obtain rfl := Option.some.inj heffect
      split <;> exact hs
  | actor first =>
      obtain ⟨base, -, rfl⟩ := Option.map_eq_some_iff.mp heffect
      obtain ⟨hunsupervised, hcounted, hrestarted, hgivesUp⟩ := hs.beside first result
      exact ⟨hunsupervised, hcounted, hrestarted, hgivesUp⟩
  | setShuttingDown =>
      obtain rfl := Option.some.inj heffect
      exact ⟨hs.unsupervised, hs.counted, hs.restarted, iff_of_true rfl (.inl rfl)⟩
  | installSupervisor sv =>
      simp only [exec] at heffect
      split at heffect <;> try contradiction
      rename_i hnone
      obtain rfl := Option.some.inj heffect
      have hempty := hs.unsupervised hnone
      have hgivesUp := hs.givesUp
      have hrestarted := hs.restarted
      rw [hempty] at hgivesUp hrestarted
      constructor
      · exact nofun
      · simp [hempty]
      · simp [hempty, hrestarted]
      · simpa [hempty] using hgivesUp

end SupervisedActor

namespace SupervisedSection

/-- One for a `pull_and_run` that is under way or will be, the actor shutting down or not. -/
def underWay : SupervisedSection E → Nat
  | .actor .tryActivate | .actor .schedule | .actor .loadLimit | .actor (.drain ..)
  | .actor (.dispatchEnvelope ..) => 1
  | _ => 0

/-- The envelopes that a section may still take while the actor is shutting down. -/
def remaining (maxPerActivation : Nat) : SupervisedSection E → Nat
  | .actor .tryActivate | .actor .schedule | .actor .loadLimit => maxPerActivation
  | .actor (.drain limit count) => limit - count
  | .actor (.dispatchEnvelope _ limit count) => limit - (count + 1)
  | _ => 0

/-- A batch is no larger than an activation may take. -/
def Limited (maxPerActivation : Nat) : SupervisedSection E → Prop
  | .actor (.drain limit _) | .actor (.dispatchEnvelope _ limit _) => limit ≤ maxPerActivation
  | _ => True

theorem Limited.remaining_le {maxPerActivation : Nat} {sec : SupervisedSection E}
    (hsec : sec.Limited maxPerActivation) :
    sec.remaining maxPerActivation ≤ maxPerActivation * sec.underWay := by
  unfold Limited at hsec
  unfold remaining underWay
  grind

end SupervisedSection

namespace ActorState

open SupervisedSection

variable {capacity maxPerActivation : Nat} {a : ActorState E} {first : ActorSection E}
  {base : Effect (ActorState E) (ActorSection E)}

theorem total_goto (weight : ActorSection E → Nat) (b : ActorState E) (sec : ActorSection E) :
    total weight (Effect.goto b [sec]).work = weight sec := by
  rw [Effect.goto_work, total_coe, List.map_singleton, List.sum_singleton]

/-- The handlers run for no more than the section may still take. -/
def Takes (maxPerActivation : Nat) (a : ActorState E) (first : ActorSection E)
    (base : Effect (ActorState E) (ActorSection E)) : Prop :=
  ∃ more, base.shared.dispatched = a.dispatched ++ more ∧
    more.length + total (fun sec => (enter sec).remaining maxPerActivation) base.work ≤
      (SupervisedSection.actor first).remaining maxPerActivation

theorem Takes.none (hsame : base.shared.dispatched = a.dispatched)
    (hleft : total (fun sec => (enter sec).remaining maxPerActivation) base.work ≤
      (SupervisedSection.actor first).remaining maxPerActivation) :
    Takes maxPerActivation a first base := by
  refine ⟨[], hsame.trans (List.append_nil _).symm, ?_⟩
  rwa [List.length_nil, Nat.zero_add]

theorem Takes.goto {b : ActorState E} {sec : ActorSection E} (hsame : b.dispatched = a.dispatched)
    (hleft : (enter sec).remaining maxPerActivation ≤
      (SupervisedSection.actor first).remaining maxPerActivation) :
    Takes maxPerActivation a first (.goto b [sec]) := by
  apply Takes.none hsame
  rwa [total_goto]

theorem Takes.done {b : ActorState E} (hsame : b.dispatched = a.dispatched) :
    Takes maxPerActivation a first (.done b) := by
  apply Takes.none hsame
  rw [Effect.done_work, total_zero]
  exact Nat.zero_le _

theorem dispatched_tryPush {env : E} {b : ActorState E} (hpush : a.tryPush capacity env = some b) :
    b.dispatched = a.dispatched := by
  obtain ⟨-, hb⟩ := Option.ite_none_right_eq_some.mp hpush
  obtain rfl := Option.some.inj hb
  rfl

theorem exec_takes (hbase : a.exec capacity maxPerActivation first () = some base) :
    Takes maxPerActivation a first base := by
  cases first with
  | tryPushEnvelope env =>
      simp only [exec] at hbase
      split at hbase <;> obtain rfl := Option.some.inj hbase
      · exact Takes.goto (dispatched_tryPush ‹_›) (Nat.zero_le _)
      · exact Takes.done rfl
  | pushEnvelope env attempt =>
      simp only [exec] at hbase
      split at hbase
      · obtain rfl := Option.some.inj hbase
        exact Takes.goto (dispatched_tryPush ‹_›) (Nat.zero_le _)
      · split at hbase <;> obtain rfl := Option.some.inj hbase
        · exact Takes.goto rfl (Nat.zero_le _)
        · exact Takes.goto rfl (Nat.zero_le _)
  | pushBlocking env =>
      simp only [exec] at hbase
      split at hbase <;> obtain rfl := Option.some.inj hbase
      · exact Takes.goto (dispatched_tryPush ‹_›) (Nat.zero_le _)
      · exact Takes.goto rfl (Nat.zero_le _)
  | tryActivate =>
      simp only [exec] at hbase
      split at hbase <;> obtain rfl := Option.some.inj hbase
      · exact Takes.done rfl
      · exact Takes.goto rfl le_rfl
  | recheck =>
      simp only [exec] at hbase
      split at hbase <;> obtain rfl := Option.some.inj hbase
      · exact Takes.goto rfl le_rfl
      · exact Takes.done rfl
  | schedule =>
      obtain rfl := Option.some.inj hbase
      apply Takes.none rfl
      have hspawned : (⟨a, [], [[.loadLimit]]⟩ : Effect (ActorState E) (ActorSection E)).work =
          {.loadLimit} := rfl
      rw [hspawned, ← Multiset.cons_zero, total_cons, total_zero]
      exact Nat.le_refl maxPerActivation
  | loadLimit =>
      obtain rfl := Option.some.inj hbase
      exact Takes.goto rfl (Nat.min_le_left _ _)
  | drain limit count =>
      simp only [exec] at hbase
      split at hbase
      case isFalse hend =>
        obtain rfl := Option.some.inj hbase
        exact Takes.goto rfl (Nat.zero_le _)
      case isTrue hcount =>
        split at hbase <;> obtain rfl := Option.some.inj hbase
        case h_2 => exact Takes.goto rfl (Nat.zero_le _)
        case h_1 env rest hmailbox =>
          refine ⟨[env], rfl, ?_⟩
          rw [total_goto]
          show 1 + (limit - (count + 1)) ≤ limit - count
          omega
  | addPending | subPending | release =>
      obtain rfl := Option.some.inj hbase
      exact Takes.goto rfl (Nat.zero_le _)
  | dispatchEnvelope env limit count =>
      obtain rfl := Option.some.inj hbase
      exact Takes.goto rfl le_rfl

theorem exec_limited (hbase : a.exec capacity maxPerActivation first () = some base)
    (hfirst : (SupervisedSection.actor first).Limited maxPerActivation) :
    ∀ sec ∈ base.work, (enter sec).Limited maxPerActivation := by
  have hgoto : ∀ {b : ActorState E} {sec : ActorSection E}, (enter sec).Limited maxPerActivation →
      ∀ other ∈ (Effect.goto b [sec]).work, (enter other).Limited maxPerActivation :=
    fun hsec => Effect.forall_goto hsec
  cases first with
  | loadLimit =>
      obtain rfl := Option.some.inj hbase
      exact hgoto (Nat.min_le_left _ _)
  | drain limit count =>
      simp only [exec] at hbase
      split at hbase
      case isFalse =>
        obtain rfl := Option.some.inj hbase
        exact hgoto trivial
      case isTrue =>
        split at hbase <;> obtain rfl := Option.some.inj hbase
        case h_2 => exact hgoto trivial
        case h_1 => exact hgoto hfirst
  | dispatchEnvelope env limit count =>
      obtain rfl := Option.some.inj hbase
      exact hgoto hfirst
  | schedule =>
      obtain rfl := Option.some.inj hbase
      intro sec hsec
      obtain rfl : sec = .loadLimit := by simpa [Effect.work] using hsec
      trivial
  | addPending | subPending | release =>
      obtain rfl := Option.some.inj hbase
      exact hgoto trivial
  | tryPushEnvelope | pushEnvelope | pushBlocking | tryActivate | recheck =>
      simp only [exec] at hbase
      split at hbase
      all_goals first
        | (obtain rfl := Option.some.inj hbase; exact hgoto trivial)
        | (obtain rfl := Option.some.inj hbase; intro sec hsec; cases hsec)
        | (split at hbase <;> (obtain rfl := Option.some.inj hbase; exact hgoto trivial))

end ActorState

namespace SupervisedActor

open SupervisedSection

variable {capacity maxPerActivation bound : Nat} {s : SupervisedActor E}
  {sec : SupervisedSection E} {others pending : Multiset (SupervisedSection E)}
  {result : DeliverResult} {effect : Effect (SupervisedActor E) (SupervisedSection E)}
  {earlier : List E}

theorem total_enter (weight : SupervisedSection E → Nat) (sections : Multiset (ActorSection E)) :
    total weight (sections.map enter) = total (fun sec => weight (enter sec)) sections := by
  rw [total, total, Multiset.map_map]
  rfl

/-- While it shuts down, the actor handles what the activations under way still take. -/
structure WindsDown (maxPerActivation bound : Nat) (earlier : List E) (s : SupervisedActor E)
    (pending : Multiset (SupervisedSection E)) : Prop where
  down : s.shuttingDown = true
  taken : ∃ more, s.actor.dispatched = earlier ++ more ∧
    more.length + total (remaining maxPerActivation) pending ≤ bound

theorem WindsDown.call (hs : WindsDown maxPerActivation bound earlier s others)
    (hentry : (supervisedProgram capacity maxPerActivation).entry s sec = true) :
    WindsDown maxPerActivation bound earlier s (sec ::ₘ others) := by
  refine ⟨hs.down, ?_⟩
  obtain ⟨more, hmore, hbound⟩ := hs.taken
  refine ⟨more, hmore, ?_⟩
  have hzero : sec.remaining maxPerActivation = 0 := by
    cases sec with
    | actor => cases hentry
    | _ => rfl
  rwa [total_cons, hzero, Nat.zero_add]

theorem WindsDown.leave {t : SupervisedActor E}
    (hs : WindsDown maxPerActivation bound earlier s (sec ::ₘ others))
    (hdown : t.shuttingDown = true) (hactor : t.actor = s.actor) :
    WindsDown maxPerActivation bound earlier t others := by
  refine ⟨hdown, ?_⟩
  obtain ⟨more, hmore, hbound⟩ := hs.taken
  rw [total_cons] at hbound
  refine ⟨more, hactor ▸ hmore, ?_⟩
  omega

theorem WindsDown.actor {first : ActorSection E}
    (hs : WindsDown maxPerActivation bound earlier s (.actor first ::ₘ others))
    (heffect : s.exec capacity maxPerActivation (.actor first) result = some effect) :
    WindsDown maxPerActivation bound earlier effect.shared (effect.work + others) := by
  obtain ⟨base, hbase, rfl⟩ := Option.map_eq_some_iff.mp heffect
  obtain ⟨taken, htaken, hleft⟩ := ActorState.exec_takes hbase
  refine ⟨?_, ?_⟩
  · by_contra hup
    exact absurd (beside_shuttingDown first (Bool.eq_false_of_not_eq_true hup))
      (hs.down ▸ nofun)
  · obtain ⟨more, hmore, hbound⟩ := hs.taken
    refine ⟨more ++ taken, ?_, ?_⟩
    · rw [htaken, hmore, List.append_assoc]
    · rw [total_cons] at hbound
      rw [total_add, work_enter, total_enter, List.length_append]
      omega

theorem WindsDown.step (hs : WindsDown maxPerActivation bound earlier s (sec ::ₘ others))
    (heffect : s.exec capacity maxPerActivation sec result = some effect) :
    WindsDown maxPerActivation bound earlier effect.shared (effect.work + others) := by
  cases sec with
  | tryPushEnvelope | pushEnvelope | tryActivate | recheck =>
      obtain rfl := Option.some.inj heffect
      rw [if_pos hs.down, Effect.done_work_add]
      exact hs.leave hs.down rfl
  | actor first => exact hs.actor heffect
  | setShuttingDown =>
      obtain rfl := Option.some.inj heffect
      rw [Effect.done_work_add]
      exact hs.leave rfl rfl
  | installSupervisor sv =>
      simp only [exec] at heffect
      split at heffect <;> try contradiction
      obtain rfl := Option.some.inj heffect
      rw [Effect.done_work_add]
      exact hs.leave hs.down rfl

/-- What holds in every state that a run reaches. -/
structure SupervisionInv (maxPerActivation : Nat) (s : SupervisedActor E)
    (pending : Multiset (SupervisedSection E)) : Prop where
  activates : s.Activates pending
  supervised : s.Supervised
  limited : ∀ sec ∈ pending, sec.Limited maxPerActivation

theorem SupervisionInv.step (hs : SupervisionInv maxPerActivation s (sec ::ₘ others))
    (heffect : s.exec capacity maxPerActivation sec result = some effect) :
    SupervisionInv maxPerActivation effect.shared (effect.work + others) := by
  refine ⟨hs.activates.step heffect, hs.supervised.step heffect, ?_⟩
  have hothers : ∀ other ∈ others, other.Limited maxPerActivation :=
    fun other hother => hs.limited other (Multiset.mem_cons_of_mem hother)
  intro after hafter
  rcases Multiset.mem_add.mp hafter with hnew | hold
  · cases sec with
    | tryPushEnvelope | pushEnvelope | tryActivate | recheck =>
        obtain rfl := Option.some.inj heffect
        split at hnew
        · cases hnew
        · rw [Effect.goto_work, Multiset.coe_singleton, Multiset.mem_singleton] at hnew
          subst hnew
          trivial
    | actor first =>
        obtain ⟨base, hbase, rfl⟩ := Option.map_eq_some_iff.mp heffect
        rw [work_enter, Multiset.mem_map] at hnew
        obtain ⟨sec, hsec, rfl⟩ := hnew
        exact ActorState.exec_limited hbase (hs.limited _ (Multiset.mem_cons_self ..)) sec hsec
    | setShuttingDown =>
        obtain rfl := Option.some.inj heffect
        cases hnew
    | installSupervisor sv =>
        simp only [exec] at heffect
        split at heffect <;> try contradiction
        obtain rfl := Option.some.inj heffect
        cases hnew
  · exact hothers after hold

theorem inv_of_run (word : List (Move (SupervisedSection E) DeliverResult))
    {last : Config (SupervisedActor E) (SupervisedSection E)}
    (hrun : ((supervisedProgram capacity maxPerActivation).machine .idle).run word = some last) :
    SupervisionInv maxPerActivation last.shared last.pending := by
  apply Program.invariant_of_run _ ?_ ?_ ?_ word hrun
  · refine ⟨⟨0, ⟨rfl, rfl, le_rfl, nofun, nofun, rfl⟩, fun _ => rfl⟩, ?_, nofun⟩
    refine ⟨fun _ => rfl, rfl, rfl, iff_of_false nofun ?_⟩
    rintro (hstopped | hmore)
    · cases hstopped
    · cases hmore
  · intro s pending sec hs hentry
    refine ⟨hs.activates.call hentry, hs.supervised, ?_⟩
    apply Multiset.forall_mem_cons.mpr ⟨?_, hs.limited⟩
    cases sec with
    | actor => cases hentry
    | _ => trivial
  · intro s others sec result effect hs heffect
    exact hs.step heffect

end SupervisedActor

/-- One for a handler of the actor that is running. -/
def SupervisedSection.handlers (sec : SupervisedSection E) : Nat :=
  (sec.actor?.map ActorSection.handlers).getD 0

/-- Somebody will see to the mailbox. -/
def SupervisedSection.Sees (sec : SupervisedSection E) : Prop :=
  ∃ first, sec.actor? = some first ∧ (0 < first.activations ∨ first.Rechecks)

theorem SupervisedSection.total_handlers (pending : Multiset (SupervisedSection E)) :
    total handlers pending =
      total ActorSection.handlers (pending.filterMap SupervisedSection.actor?) := by
  induction pending using Multiset.induction with
  | empty => rfl
  | cons sec others ih =>
      rw [total_cons, ih]
      cases hsec : sec.actor? with
      | none => rw [Multiset.filterMap_cons_none _ _ hsec, handlers, hsec]; exact Nat.zero_add _
      | some first =>
          rw [Multiset.filterMap_cons_some actor? _ _ hsec, total_cons, handlers, hsec]
          rfl

namespace SupervisedActor

open SupervisedSection

variable {capacity maxPerActivation : Nat}

/-- What a supervised actor is like between two sections. -/
structure Sound (cfg : Config (SupervisedActor E) (SupervisedSection E)) : Prop where
  alone : total handlers cfg.pending ≤ 1
  kept : cfg.shared.actor.accepted = cfg.shared.actor.dispatched ++ cfg.shared.actor.mailbox
  seen : cfg.shared.shuttingDown = false → cfg.shared.actor.mailbox ≠ [] →
    ∃ sec ∈ cfg.pending, sec.Sees
  counted : cfg.shared.failureCount = cfg.shared.failures.length
  restarted : cfg.shared.restarts = cfg.shared.failures.take cfg.shared.budget
  givesUp : cfg.shared.shuttingDown = true ↔
    cfg.shared.stopped = true ∨ cfg.shared.budget < cfg.shared.failures.length

theorem SupervisionInv.sound {cfg : Config (SupervisedActor E) (SupervisedSection E)}
    (hinv : SupervisionInv maxPerActivation cfg.shared cfg.pending) : Sound cfg := by
  obtain ⟨stalled, hactor, hstalled⟩ := hinv.activates
  have howner := hactor.owner
  have hone : total ActorSection.activations (cfg.pending.filterMap actor? + stalled) ≤ 1 := by
    split at howner <;> omega
  have hhandlers := (total_le_total ActorSection.handlers_le _).trans hone
  constructor
  · rw [total_add, ← total_handlers] at hhandlers
    exact (Nat.le_add_right _ _).trans hhandlers
  · exact hactor.log
  · intro hup hmailbox
    rw [hstalled hup, add_zero] at hactor howner
    have hsees : ∃ first ∈ cfg.pending.filterMap actor?,
        0 < first.activations ∨ first.Rechecks := by
      obtain hactive | ⟨first, hfirst, hrechecks⟩ := hactor.awake hmailbox
      · rw [if_pos hactive] at howner
        obtain ⟨first, hfirst, hweight⟩ := exists_of_total_pos (howner ▸ Nat.one_pos)
        exact ⟨first, hfirst, .inl hweight⟩
      · exact ⟨first, hfirst, .inr hrechecks⟩
    obtain ⟨first, hfirst, hsees⟩ := hsees
    obtain ⟨sec, hsec, hsome⟩ := (Multiset.mem_filterMap _ _).mp hfirst
    exact ⟨sec, hsec, first, hsome, hsees⟩
  · exact hinv.supervised.counted
  · exact hinv.supervised.restarted
  · exact hinv.supervised.givesUp

theorem total_remaining_le {pending : Multiset (SupervisedSection E)}
    (hlimited : ∀ sec ∈ pending, sec.Limited maxPerActivation) :
    total (remaining maxPerActivation) pending ≤ maxPerActivation * total underWay pending := by
  induction pending using Multiset.induction with
  | empty => exact Nat.zero_le _
  | cons sec others ih =>
      obtain ⟨hsec, hothers⟩ := Multiset.forall_mem_cons.mp hlimited
      rw [total_cons, total_cons, Nat.mul_add]
      exact Nat.add_le_add hsec.remaining_le (ih hothers)

end SupervisedActor

/-- In every run of a supervised actor one handler runs at a time, what was accepted has
been handled or is in the mailbox, in order, and somebody sees to the mailbox as long as
the actor is not shutting down.  The actor restarts after each of the first
`max_restarts` failures and shuts down at the next one, or when the system does;
from then on it handles no more than the activations that are under way can take. -/
theorem supervised_of_run (capacity maxPerActivation : Nat)
    (word later : List (Move (SupervisedSection E) DeliverResult))
    {cfg last : Config (SupervisedActor E) (SupervisedSection E)}
    (hrun : ((supervisedProgram capacity maxPerActivation).machine .idle).run word = some cfg)
    (hlater : ((supervisedProgram capacity maxPerActivation).machine .idle).runFrom cfg later =
      some last) :
    SupervisedActor.Sound cfg ∧
      (cfg.shared.shuttingDown = true → last.shared.shuttingDown = true ∧
        ∃ more, last.shared.actor.dispatched = cfg.shared.actor.dispatched ++ more ∧
          more.length ≤ maxPerActivation * total SupervisedSection.underWay cfg.pending) := by
  have hinv := SupervisedActor.inv_of_run word hrun
  refine ⟨hinv.sound, fun hdown => ?_⟩
  have hstart : SupervisedActor.WindsDown maxPerActivation
      (maxPerActivation * total SupervisedSection.underWay cfg.pending)
      cfg.shared.actor.dispatched cfg.shared cfg.pending := by
    refine ⟨hdown, [], (List.append_nil _).symm, ?_⟩
    rw [List.length_nil, Nat.zero_add]
    exact SupervisedActor.total_remaining_le hinv.limited
  have hend := Program.invariant_from_state _ (fun _ _ _ hs hentry => hs.call hentry)
    (fun _ _ _ _ _ hs heffect => hs.step heffect) later hstart hlater
  obtain ⟨more, hmore, hbound⟩ := hend.taken
  refine ⟨hend.down, more, hmore, ?_⟩
  exact (Nat.le_add_right _ _).trans hbound

/-- One restart is allowed and two handlers throw; a third envelope is already in the
batch. -/
def twoFailures : List (Move (SupervisedSection Nat) DeliverResult) :=
  [.call (.installSupervisor ⟨1⟩), .run 0 .ok] ++
    .call (.tryPushEnvelope 7) :: List.replicate 6 (.run 1 .ok) ++
    .call (.tryPushEnvelope 8) :: List.replicate 5 (.run 3 .ok) ++
    .call (.tryPushEnvelope 9) :: List.replicate 5 (.run 4 .ok) ++
    [.run 2 .ok, .run 2 .ok, .run 2 .threw, .run 2 .ok, .run 2 .threw]

/-- The batch ends, and a push is refused. -/
def refusedPush : List (Move (SupervisedSection Nat) DeliverResult) :=
  List.replicate 6 (.run 2 .ok) ++ [.call (.tryPushEnvelope 10), .run 5 .ok]

set_option maxRecDepth 100000 in
theorem supervised_of_run_twoFailures :
    ∃ cfg last, ((supervisedProgram 4 3).machine .idle).run twoFailures = some cfg ∧
      ((supervisedProgram 4 3).machine .idle).runFrom cfg refusedPush = some last ∧
      (cfg.shared.actor.mailbox, cfg.shared.restarts, cfg.shared.shuttingDown) =
        ([9], [7], true) ∧
      (last.shared.actor.accepted, last.shared.actor.dispatched) = ([7, 8, 9], [7, 8, 9]) ∧
      SupervisedActor.Sound cfg ∧ last.shared.shuttingDown = true := by
  have hcfg : (((supervisedProgram 4 3).machine .idle).run twoFailures).map (fun cfg =>
      (cfg.shared.actor.mailbox, cfg.shared.restarts, cfg.shared.shuttingDown)) =
        some ([9], [7], true) := by
    decide
  have hlast : (((supervisedProgram 4 3).machine .idle).run
      (twoFailures ++ refusedPush)).map (fun last =>
        (last.shared.actor.accepted, last.shared.actor.dispatched)) =
          some ([7, 8, 9], [7, 8, 9]) := by
    decide
  obtain ⟨cfg, hrun, hseen⟩ := Option.map_eq_some_iff.mp hcfg
  obtain ⟨last, hall, hend⟩ := Option.map_eq_some_iff.mp hlast
  have hlater : ((supervisedProgram 4 3).machine .idle).runFrom cfg refusedPush = some last := by
    rw [Machine.run, Machine.runFrom_append, ← Machine.run, hrun] at hall
    exact hall
  have hdown : cfg.shared.shuttingDown = true := congrArg (fun seen => seen.2.2) hseen
  obtain ⟨hsound, hwinds⟩ := supervised_of_run 4 3 twoFailures refusedPush hrun hlater
  exact ⟨cfg, last, hrun, hlater, hseen, hend, hsound, (hwinds hdown).1⟩

end UltraNet
