/-
Activation of an actor: senders push into its mailbox, count the envelope in
`m_pending` and try to activate the actor, and `pull_and_run` drains a batch
on a worker and releases `m_activated`.  Each of these is a section of its own;
the actor is not shutting down and its schedule function is set.
-/
import UltraNet.Interleaving

namespace UltraNet

variable {E : Type}

/-- `actor_base` between two sections.  `pending` has the value that the
counter would have without wrapping around.  `accepted` and `dispatched` are
ghosts, oldest first. -/
structure ActorState (E : Type) where
  mailbox : List E
  pending : Int
  activated : Bool
  accepted : List E
  dispatched : List E

inductive ActorSection (E : Type) where
  | tryPushEnvelope (env : E)
  | pushEnvelope (env : E) (attempt : Nat)
  | pushBlocking (env : E)
  | addPending
  -- `try_activate`, of a sender or at the end of `pull_and_run`
  | tryActivate
  | schedule
  -- `pull_and_run`
  | loadLimit
  | drain (limit count : Nat)
  | dispatchEnvelope (env : E) (limit count : Nat)
  | subPending (executed : Nat)
  | release
  | recheck

namespace ActorState

/-- `mailbox::try_push` in one step. -/
def tryPush (capacity : Nat) (s : ActorState E) (env : E) :
    Option (ActorState E) :=
  if s.mailbox.length < capacity then
    some { s with mailbox := s.mailbox ++ [env], accepted := s.accepted ++ [env] }
  else none

def exec (capacity maxPerActivation : Nat) (s : ActorState E) :
    ActorSection E → Unit → Option (Effect (ActorState E) (ActorSection E))
  | .tryPushEnvelope env, _ =>
      match s.tryPush capacity env with
      | some next => some (.goto next [.addPending])
      | none => some (.done s)
  | .pushEnvelope env attempt, _ =>
      match s.tryPush capacity env with
      | some next => some (.goto next [.addPending])
      | none =>
          if attempt + 1 < 200 then
            some (.goto s [.pushEnvelope env (attempt + 1)])
          else some (.goto s [.pushBlocking env])
  | .pushBlocking env, _ =>
      match s.tryPush capacity env with
      | some next => some (.goto next [.addPending])
      | none => some (.goto s [.pushBlocking env])
  | .addPending, _ =>
      some (.goto { s with pending := s.pending + 1 } [.tryActivate])
  | .tryActivate, _ =>
      if s.activated then some (.done s)
      else some (.goto { s with activated := true } [.schedule])
  | .schedule, _ => some ⟨s, [], [[.loadLimit]]⟩
  | .loadLimit, _ =>
      some (.goto s [.drain (min maxPerActivation s.pending.toNat) 0])
  | .drain limit count, _ =>
      if count < limit then
        match s.mailbox with
        | env :: rest =>
            some (.goto
              { s with mailbox := rest, dispatched := s.dispatched ++ [env] }
              [.dispatchEnvelope env limit count])
        | [] => some (.goto s [.subPending count])
      else some (.goto s [.subPending count])
  -- the handler has run, or has thrown into `deliver`
  | .dispatchEnvelope _ limit count, _ =>
      some (.goto s [.drain limit (count + 1)])
  | .subPending executed, _ =>
      some (.goto { s with pending := s.pending - executed } [.release])
  | .release, _ => some (.goto { s with activated := false } [.recheck])
  | .recheck, _ =>
      if s.pending > 0 then some (.goto s [.tryActivate]) else some (.done s)

end ActorState

/-- Anyone may call `push_envelope` or `try_push_envelope`. -/
def actorProgram (capacity maxPerActivation : Nat) :
    Program (ActorState E) (ActorSection E) Unit where
  entry
    | _, .tryPushEnvelope _ => true
    | _, .pushEnvelope _ attempt => attempt = 0
    | _, _ => false
  exec := ActorState.exec capacity maxPerActivation

def ActorState.idle : ActorState E := ⟨[], 0, false, [], []⟩

namespace ActorSection

/-- One for a `pull_and_run` that is being scheduled, is scheduled, or has not
yet released `m_activated`. -/
def activations : ActorSection E → Nat
  | .schedule | .loadLimit | .drain .. | .dispatchEnvelope .. | .subPending _
  | .release => 1
  | _ => 0

/-- One for a handler that is running. -/
def handlers : ActorSection E → Nat
  | .dispatchEnvelope .. => 1
  | _ => 0

/-- A sender between its push and the end of its `try_activate`, or a
`pull_and_run` that has released `m_activated` and has not returned. -/
def Rechecks : ActorSection E → Prop
  | .addPending | .tryActivate | .recheck => True
  | _ => False

/-- One for a sender whose envelope is not counted yet. -/
def uncounted : ActorSection E → Nat
  | .addPending => 1
  | _ => 0

/-- The envelopes that were taken and are still counted. -/
def executed : ActorSection E → Nat
  | .drain _ count => count
  | .dispatchEnvelope _ _ count => count + 1
  | .subPending executed => executed
  | _ => 0

/-- The batch that is drained is counted in `m_pending`. -/
def Batch (counter : Int) : ActorSection E → Prop
  | .drain limit count => count ≤ limit ∧ limit ≤ counter
  | .dispatchEnvelope _ limit count => count + 1 ≤ limit ∧ limit ≤ counter
  | .subPending executed => executed ≤ counter
  | _ => True

theorem Batch.mono {sec : ActorSection E} {counter more : Int}
    (hbatch : sec.Batch counter) (hmore : counter ≤ more) : sec.Batch more := by
  cases sec <;> simp only [Batch] at hbatch ⊢ <;> omega

theorem batch_of_activations {sec : ActorSection E}
    (hsec : sec.activations = 0) (counter : Int) : sec.Batch counter := by
  cases sec <;> trivial

theorem handlers_le (sec : ActorSection E) : sec.handlers ≤ sec.activations := by
  cases sec <;> simp [handlers, activations]

end ActorSection

/-- What holds between any two sections. -/
structure ActivationInv (s : ActorState E) (pending : Multiset (ActorSection E)) :
    Prop where
  owner : total ActorSection.activations pending = if s.activated then 1 else 0
  counted : s.pending + total ActorSection.uncounted pending =
    s.mailbox.length + total ActorSection.executed pending
  nonneg : 0 ≤ s.pending
  batch : ∀ sec ∈ pending, sec.Batch s.pending
  awake : s.mailbox ≠ [] → s.activated = true ∨ ∃ sec ∈ pending, sec.Rechecks
  log : s.accepted = s.dispatched ++ s.mailbox

namespace ActivationInv

variable {capacity maxPerActivation : Nat} {s next : ActorState E}
  {sec : ActorSection E} {others : Multiset (ActorSection E)}

theorem batch_others (hinv : ActivationInv s (sec ::ₘ others)) :
    ∀ other ∈ others, other.Batch s.pending :=
  fun other hother => hinv.batch other (Multiset.mem_cons_of_mem hother)

/-- Next to the owner of the activation there is no other batch. -/
theorem batch_alone (hinv : ActivationInv s (sec ::ₘ others))
    (howner : sec.activations = 1) (counter : Int) :
    ∀ other ∈ others, other.Batch counter := by
  have htotal := hinv.owner
  rw [total_cons, howner] at htotal
  have hzero : total ActorSection.activations others = 0 := by
    split at htotal <;> omega
  exact fun other hother =>
    ActorSection.batch_of_activations (total_eq_zero hzero other hother) counter

/-- A push from a section that owns and counts nothing. -/
theorem push {env : E} (hinv : ActivationInv s (sec ::ₘ others))
    (hactivations : sec.activations = 0) (huncounted : sec.uncounted = 0)
    (hexecuted : sec.executed = 0)
    (hpush : s.tryPush capacity env = some next) :
    ActivationInv next (.addPending ::ₘ others) := by
  obtain ⟨howner, hcounted, hnonneg, -, -, hlog⟩ := id hinv
  simp only [total_cons, hactivations, huncounted, hexecuted] at howner hcounted
  simp only [ActorState.tryPush] at hpush
  split at hpush
  · obtain rfl := Option.some.inj hpush
    constructor
    · simpa [ActorSection.activations] using howner
    · simp only [total_cons, ActorSection.uncounted, ActorSection.executed,
        List.length_append, List.length_singleton]
      omega
    · exact hnonneg
    · exact Multiset.forall_mem_cons.mpr ⟨trivial, hinv.batch_others⟩
    · exact fun _ => .inr ⟨_, Multiset.mem_cons_self .., trivial⟩
    · simp [hlog]
  · cases hpush

/-- A thread goes on to a section that owns and counts the same. -/
theorem become {after : ActorSection E} (hinv : ActivationInv s (sec ::ₘ others))
    (hactivations : after.activations = sec.activations)
    (huncounted : after.uncounted = sec.uncounted)
    (hexecuted : after.executed = sec.executed)
    (hbatch : after.Batch s.pending) (hrechecks : sec.Rechecks → after.Rechecks) :
    ActivationInv s (after ::ₘ others) := by
  obtain ⟨howner, hcounted, hnonneg, -, hawake, hlog⟩ := id hinv
  simp only [total_cons, ← hactivations, ← huncounted, ← hexecuted]
    at howner hcounted
  refine ⟨by simpa using howner, by simpa using hcounted, hnonneg,
    Multiset.forall_mem_cons.mpr ⟨hbatch, hinv.batch_others⟩, ?_, hlog⟩
  intro hmailbox
  obtain hactive | ⟨other, hother, hother'⟩ := hawake hmailbox
  · exact .inl hactive
  · right
    rcases Multiset.mem_cons.mp hother with rfl | hold
    · exact ⟨after, Multiset.mem_cons_self .., hrechecks hother'⟩
    · exact ⟨other, Multiset.mem_cons_of_mem hold, hother'⟩

/-- A thread that owns and counts nothing returns. -/
theorem leave (hinv : ActivationInv s (sec ::ₘ others))
    (hactivations : sec.activations = 0) (huncounted : sec.uncounted = 0)
    (hexecuted : sec.executed = 0)
    (hawake : s.mailbox ≠ [] → sec.Rechecks → s.activated = true ∨
      0 < total ActorSection.uncounted others) :
    ActivationInv s others := by
  obtain ⟨howner, hcounted, hnonneg, -, hawake', hlog⟩ := id hinv
  simp only [total_cons, hactivations, huncounted, hexecuted] at howner hcounted
  refine ⟨by simpa using howner, by simpa using hcounted, hnonneg,
    hinv.batch_others, ?_, hlog⟩
  intro hmailbox
  obtain hactive | ⟨other, hother, hother'⟩ := hawake' hmailbox
  · exact .inl hactive
  rcases Multiset.mem_cons.mp hother with rfl | hold
  · obtain hactive | hcount := hawake hmailbox hother'
    · exact .inl hactive
    · obtain ⟨sender, hsender, hweight⟩ := exists_of_total_pos hcount
      refine .inr ⟨sender, hsender, ?_⟩
      cases sender <;> trivial
  · exact .inr ⟨other, hold, hother'⟩

theorem addPending (hinv : ActivationInv s (.addPending ::ₘ others)) :
    ActivationInv { s with pending := s.pending + 1 }
      (.tryActivate ::ₘ others) := by
  obtain ⟨howner, hcounted, hnonneg, -, -, hlog⟩ := id hinv
  simp only [total_cons, ActorSection.uncounted, ActorSection.executed]
    at hcounted
  constructor
  · simpa [ActorSection.activations] using howner
  · simp only [total_cons, ActorSection.uncounted, ActorSection.executed]
    omega
  · exact Int.add_nonneg hnonneg Int.one_nonneg
  · exact Multiset.forall_mem_cons.mpr ⟨trivial, fun other hother =>
      (hinv.batch_others other hother).mono (Int.le_add_one le_rfl)⟩
  · exact fun _ => .inr ⟨_, Multiset.mem_cons_self .., trivial⟩
  · exact hlog

theorem activate (hinv : ActivationInv s (.tryActivate ::ₘ others))
    (hfree : s.activated = false) :
    ActivationInv { s with activated := true } (.schedule ::ₘ others) := by
  obtain ⟨howner, hcounted, hnonneg, -, -, hlog⟩ := id hinv
  constructor
  · simpa [ActorSection.activations, hfree] using howner
  · simpa [ActorSection.uncounted, ActorSection.executed] using hcounted
  · exact hnonneg
  · exact Multiset.forall_mem_cons.mpr ⟨trivial, hinv.batch_others⟩
  · exact fun _ => .inl rfl
  · exact hlog

theorem takeEnvelope {env : E} {rest : List E} {limit count : Nat}
    (hinv : ActivationInv s (.drain limit count ::ₘ others))
    (hcount : count < limit) (hmailbox : s.mailbox = env :: rest) :
    ActivationInv
      { s with mailbox := rest, dispatched := s.dispatched ++ [env] }
      (.dispatchEnvelope env limit count ::ₘ others) := by
  obtain ⟨howner, hcounted, hnonneg, hbatch, hawake, hlog⟩ := id hinv
  have hlimit := (hbatch _ (Multiset.mem_cons_self ..)).2
  simp only [total_cons, ActorSection.uncounted, ActorSection.executed,
    hmailbox, List.length_cons] at hcounted
  constructor
  · simpa [ActorSection.activations] using howner
  · simp only [total_cons, ActorSection.uncounted, ActorSection.executed]
    omega
  · exact hnonneg
  · exact Multiset.forall_mem_cons.mpr ⟨⟨hcount, hlimit⟩, hinv.batch_others⟩
  · intro _
    obtain hactive | ⟨other, hother, hother'⟩ := hawake (by simp [hmailbox])
    · exact .inl hactive
    · rcases Multiset.mem_cons.mp hother with rfl | hold
      · cases hother'
      · exact .inr ⟨other, Multiset.mem_cons_of_mem hold, hother'⟩
  · simp [hlog, hmailbox]

theorem subPending {executed : Nat}
    (hinv : ActivationInv s (.subPending executed ::ₘ others)) :
    ActivationInv { s with pending := s.pending - executed }
      (.release ::ₘ others) := by
  obtain ⟨howner, hcounted, hnonneg, hbatch, hawake, hlog⟩ := id hinv
  have hexecuted : (executed : Int) ≤ s.pending :=
    hbatch _ (Multiset.mem_cons_self ..)
  simp only [total_cons, ActorSection.uncounted, ActorSection.executed]
    at hcounted
  constructor
  · simpa [ActorSection.activations] using howner
  · simp only [total_cons, ActorSection.uncounted, ActorSection.executed]
    omega
  · exact Int.sub_nonneg_of_le hexecuted
  · exact Multiset.forall_mem_cons.mpr ⟨trivial, hinv.batch_alone rfl _⟩
  · intro hmailbox
    obtain hactive | ⟨other, hother, hother'⟩ := hawake hmailbox
    · exact .inl hactive
    · rcases Multiset.mem_cons.mp hother with rfl | hold
      · cases hother'
      · exact .inr ⟨other, Multiset.mem_cons_of_mem hold, hother'⟩
  · exact hlog

theorem release (hinv : ActivationInv s (.release ::ₘ others)) :
    ActivationInv { s with activated := false } (.recheck ::ₘ others) := by
  obtain ⟨howner, hcounted, hnonneg, -, -, hlog⟩ := id hinv
  simp only [total_cons, ActorSection.activations] at howner
  constructor
  · simp only [total_cons, ActorSection.activations]
    split at howner
    · simp
      omega
    · omega
  · simpa [ActorSection.uncounted, ActorSection.executed] using hcounted
  · exact hnonneg
  · exact Multiset.forall_mem_cons.mpr ⟨trivial, hinv.batch_others⟩
  · exact fun _ => .inr ⟨_, Multiset.mem_cons_self .., trivial⟩
  · exact hlog

/-- The last check of `pull_and_run` may see nothing counted: what is in the
mailbox then belongs to senders that are about to count it. -/
theorem recheck_leave (hinv : ActivationInv s (.recheck ::ₘ others))
    (hzero : ¬ s.pending > 0) : ActivationInv s others := by
  have hcounted := hinv.counted
  have hnonneg := hinv.nonneg
  simp only [total_cons, ActorSection.uncounted, ActorSection.executed]
    at hcounted
  refine hinv.leave rfl rfl rfl fun hmailbox _ => .inr ?_
  have := List.length_pos_iff.mpr hmailbox
  omega

theorem step {choice : Unit} {effect : Effect (ActorState E) (ActorSection E)}
    (hinv : ActivationInv s (sec ::ₘ others))
    (heffect : s.exec capacity maxPerActivation sec choice = some effect) :
    ActivationInv effect.shared (effect.work + others) := by
  cases sec with
  | tryPushEnvelope env =>
      simp only [ActorState.exec] at heffect
      split at heffect <;> obtain rfl := Option.some.inj heffect
      · rw [Effect.goto_work_add]
        exact hinv.push rfl rfl rfl ‹_›
      · rw [Effect.done_work_add]
        exact hinv.leave rfl rfl rfl nofun
  | pushEnvelope env attempt =>
      simp only [ActorState.exec] at heffect
      split at heffect
      · obtain rfl := Option.some.inj heffect
        rw [Effect.goto_work_add]
        exact hinv.push rfl rfl rfl ‹_›
      · split at heffect <;> obtain rfl := Option.some.inj heffect <;>
          rw [Effect.goto_work_add]
        · exact hinv.become rfl rfl rfl trivial nofun
        · exact hinv.become rfl rfl rfl trivial nofun
  | pushBlocking env =>
      simp only [ActorState.exec] at heffect
      split at heffect <;> obtain rfl := Option.some.inj heffect <;>
        rw [Effect.goto_work_add]
      · exact hinv.push rfl rfl rfl ‹_›
      · exact hinv.become rfl rfl rfl trivial nofun
  | addPending =>
      obtain rfl := Option.some.inj heffect
      rw [Effect.goto_work_add]
      exact hinv.addPending
  | tryActivate =>
      simp only [ActorState.exec] at heffect
      split at heffect <;> obtain rfl := Option.some.inj heffect
      · rw [Effect.done_work_add]
        exact hinv.leave rfl rfl rfl fun _ _ => .inl ‹_›
      · rw [Effect.goto_work_add]
        exact hinv.activate (Bool.eq_false_of_not_eq_true ‹_›)
  | schedule =>
      obtain rfl := Option.some.inj heffect
      exact hinv.become rfl rfl rfl trivial nofun
  | loadLimit =>
      obtain rfl := Option.some.inj heffect
      rw [Effect.goto_work_add]
      refine hinv.become rfl rfl rfl ⟨Nat.zero_le _, ?_⟩ nofun
      have := hinv.nonneg
      omega
  | drain limit count =>
      have hlimit := hinv.batch _ (Multiset.mem_cons_self ..)
      have hcount : (count : Int) ≤ s.pending :=
        (Int.ofNat_le.mpr hlimit.1).trans hlimit.2
      simp only [ActorState.exec] at heffect
      split at heffect
      · split at heffect <;> obtain rfl := Option.some.inj heffect <;>
          rw [Effect.goto_work_add]
        · exact hinv.takeEnvelope ‹_› ‹_›
        · exact hinv.become rfl rfl rfl hcount nofun
      · obtain rfl := Option.some.inj heffect
        rw [Effect.goto_work_add]
        exact hinv.become rfl rfl rfl hcount nofun
  | dispatchEnvelope env limit count =>
      have hlimit := hinv.batch _ (Multiset.mem_cons_self ..)
      obtain rfl := Option.some.inj heffect
      rw [Effect.goto_work_add]
      exact hinv.become rfl rfl rfl hlimit nofun
  | subPending executed =>
      obtain rfl := Option.some.inj heffect
      rw [Effect.goto_work_add]
      exact hinv.subPending
  | release =>
      obtain rfl := Option.some.inj heffect
      rw [Effect.goto_work_add]
      exact hinv.release
  | recheck =>
      simp only [ActorState.exec] at heffect
      split at heffect <;> obtain rfl := Option.some.inj heffect
      · rw [Effect.goto_work_add]
        exact hinv.become rfl rfl rfl trivial fun _ => trivial
      · rw [Effect.done_work_add]
        exact hinv.recheck_leave ‹_›

theorem of_run (word : List (Move (ActorSection E) Unit))
    {last : Config (ActorState E) (ActorSection E)}
    (hrun : ((actorProgram capacity maxPerActivation).machine .idle).run word =
      some last) : ActivationInv last.shared last.pending := by
  refine Program.invariant_of_run _ ?_ ?_ ?_ word hrun
  · exact ⟨rfl, rfl, le_rfl, nofun, nofun, rfl⟩
  · intro s pending sec hinv hentry
    obtain ⟨howner, hcounted, hnonneg, hbatch, hawake, hlog⟩ := hinv
    cases sec <;> first
      | cases hentry; done
      | refine ⟨by simpa [ActorSection.activations] using howner,
          by simpa [ActorSection.uncounted, ActorSection.executed] using hcounted,
          hnonneg, Multiset.forall_mem_cons.mpr ⟨trivial, hbatch⟩, ?_, hlog⟩
        intro hmailbox
        exact (hawake hmailbox).imp_right fun ⟨other, hother, hrechecks⟩ =>
          ⟨other, Multiset.mem_cons_of_mem hother, hrechecks⟩
  · intro s others sec choice effect hinv heffect
    exact hinv.step heffect

end ActivationInv

/-- In every run there is at most one activation and at most one handler runs,
the counter does not fall below zero, an envelope in the mailbox has somebody
who will see to it, and the accepted envelopes are the dispatched ones and then
the queued ones, in the order of the pushes. -/
theorem activation_safe (capacity maxPerActivation : Nat)
    (word : List (Move (ActorSection E) Unit))
    {last : Config (ActorState E) (ActorSection E)}
    (hrun : ((actorProgram capacity maxPerActivation).machine .idle).run word =
      some last) :
    total ActorSection.activations last.pending ≤ 1 ∧
      total ActorSection.handlers last.pending ≤ 1 ∧
      0 ≤ last.shared.pending ∧
      (last.shared.mailbox ≠ [] → ∃ sec ∈ last.pending,
        0 < sec.activations ∨ sec.Rechecks) ∧
      last.shared.accepted = last.shared.dispatched ++ last.shared.mailbox := by
  have hinv := ActivationInv.of_run word hrun
  have howner := hinv.owner
  have hone : total ActorSection.activations last.pending ≤ 1 := by
    split at howner <;> omega
  refine ⟨hone, ?_, hinv.nonneg, ?_, hinv.log⟩
  · exact (total_le_total ActorSection.handlers_le _).trans hone
  · intro hmailbox
    obtain hactive | ⟨sec, hsec, hrechecks⟩ := hinv.awake hmailbox
    · rw [if_pos hactive] at howner
      obtain ⟨sec, hsec, hweight⟩ := exists_of_total_pos (howner ▸ Nat.one_pos)
      exact ⟨sec, hsec, .inl hweight⟩
    · exact ⟨sec, hsec, .inr hrechecks⟩

/-- One handler runs while a second sender is between its push and its
increment. -/
def overlapping : List (Move (ActorSection Nat) Unit) :=
  [.call (.tryPushEnvelope 7), .run 0 (), .call (.pushEnvelope 8 0), .run 1 (),
    .run 0 (), .run 0 (), .run 0 (), .run 2 (), .run 2 ()]

theorem activation_safe_overlapping :
    ∃ last, ((actorProgram 2 1).machine .idle).run overlapping = some last ∧
      last.shared.mailbox = [8] ∧ last.shared.dispatched = [7] ∧
      total ActorSection.activations last.pending ≤ 1 ∧
      last.shared.accepted = last.shared.dispatched ++ last.shared.mailbox := by
  have hend : (((actorProgram 2 1).machine .idle).run overlapping).map
      (fun last => (last.shared.mailbox, last.shared.dispatched)) =
        some ([8], [7]) := by
    decide
  obtain ⟨last, hrun, hlast⟩ := Option.map_eq_some_iff.mp hend
  obtain ⟨hone, -, -, -, hlog⟩ := activation_safe 2 1 overlapping hrun
  exact ⟨last, hrun, congrArg Prod.fst hlast, congrArg Prod.snd hlast, hone, hlog⟩

end UltraNet
