/-
Deduplication under all interleavings of `dispatch_envelope` calls, with the
receiver log off: claim, handler run and finish of each envelope are separate
sections, and any number of them may be under way.
-/
import UltraNet.DedupTable
import UltraNet.Interleaving

namespace UltraNet

/-- The fields of `message_envelope` that delivery uses. -/
structure Envelope where
  correlationId : UInt64
  senderNodeId : UInt64
  replyConnId : UInt64
deriving DecidableEq

def Envelope.key (env : Envelope) : RecvKey :=
  ⟨env.senderNodeId, env.correlationId⟩

inductive DedupEvent where
  | evicted (key : RecvKey)
  | claimed (key : RecvKey) (claim : DedupClaim)
  | ended (key : RecvKey) (result : DeliverResult)
  | finished (key : RecvKey) (result : DeliverResult)
deriving DecidableEq

/-- The table, its counters and the ghost history, newest event last. -/
structure DedupRun where
  dedup : DedupTable
  evictions : Nat
  overflows : Nat
  wireSkips : Nat
  history : List DedupEvent

def DedupRun.init : DedupRun := ⟨∅, 0, 0, 0, []⟩

inductive DedupSection where
  | dispatchEnvelope (env : Envelope)
  | deliverUnkeyed (env : Envelope)
  | deliver (env : Envelope)
  | finishRemoteDelivery (env : Envelope) (result : DeliverResult)
  | postRemoteAck (replyConnId msgId : UInt64)
deriving DecidableEq

namespace DedupRun

/-- The state after the locked part of `claim_remote`. -/
def claimed (s : DedupRun) (key : RecvKey) (outcome : DedupTable.ClaimOutcome) :
    DedupRun :=
  { s with
    dedup := outcome.dedup
    evictions := s.evictions + outcome.evicted.toList.length
    overflows := s.overflows + if outcome.claim = .overflow then 1 else 0
    history := s.history ++ outcome.evicted.toList.map .evicted ++
      [.claimed key outcome.claim] }

def exec (cap : Nat) (s : DedupRun) :
    DedupSection → DeliverResult → Option (Effect DedupRun DedupSection)
  | .dispatchEnvelope env, _ =>
      if env.correlationId = 0 then some (.goto s [.deliverUnkeyed env])
      else
        let outcome := DedupTable.claimRemote cap s.dedup env.key false false
        let next := s.claimed env.key outcome
        match outcome.claim with
        | .completed =>
            some (.goto { next with wireSkips := next.wireSkips + 1 }
              [.postRemoteAck env.replyConnId env.correlationId])
        | .busy => some (.done { next with wireSkips := next.wireSkips + 1 })
        | .overflow => some (.done next)
        | .fresh => some (.goto next [.deliver env])
  | .deliverUnkeyed _, _ => some (.done s)
  | .deliver env, result =>
      some (.goto { s with history := s.history ++ [.ended env.key result] }
        [.finishRemoteDelivery env result])
  | .finishRemoteDelivery env result, _ =>
      let next :=
        { s with
          dedup := DedupTable.finishDelivery cap s.dedup env.key result
          history := s.history ++ [.finished env.key result] }
      if result = .threw then some (.done next)
      else
        some (.goto next [.postRemoteAck env.replyConnId env.correlationId])
  | .postRemoteAck _ _, _ => some (.done s)

end DedupRun

def dedupProgram (cap : Nat) :
    Program DedupRun DedupSection DeliverResult where
  entry _ sec :=
    match sec with
    | .dispatchEnvelope _ => true
    | _ => false
  exec := DedupRun.exec cap

/-- The key whose handler is running. -/
def DedupSection.handlerKey : DedupSection → Option RecvKey
  | .deliver env => some env.key
  | _ => none

/-- A handler run for the key that ended without throwing. -/
def DedupEvent.EndsWell (key : RecvKey) (event : DedupEvent) : Prop :=
  event = .ended key .ok ∨ event = .ended key .deadLetter

instance (key : RecvKey) : DecidablePred (DedupEvent.EndsWell key) :=
  fun _ => inferInstanceAs (Decidable (_ ∨ _))

/-- What the table guarantees in every reachable configuration. -/
structure DedupContract (cap : Nat) (cfg : Config DedupRun DedupSection) :
    Prop where
  size_le : Table.size cfg.shared.dedup ≤ cap
  victim : ∀ key victim,
    (DedupTable.claimRemote cap cfg.shared.dedup key false false).evicted =
      some victim →
    cfg.shared.dedup.lookup victim = some .completed ∧
      ∀ other, cfg.shared.dedup.lookup other = some .completed →
        ¬ DedupTable.olderKey other victim
  overflow_iff : ∀ key,
    (DedupTable.claimRemote cap cfg.shared.dedup key false false).claim =
        .overflow ↔
      cfg.shared.dedup.lookup key = none ∧
        Table.size cfg.shared.dedup = cap ∧
        ∀ other, cfg.shared.dedup.lookup other ≠ some .completed
  one_handler : ∀ key,
    cfg.pending.countP (fun sec => sec.handlerKey = some key) ≤ 1
  window : ∀ key before middle after,
    cfg.shared.history = before ++ middle ++ after → .evicted key ∉ middle →
      middle.countP (DedupEvent.EndsWell key ·) ≤ 1
  thrown_absent : ∀ key before,
    cfg.shared.history = before ++ [.finished key .threw] →
      cfg.shared.dedup.lookup key = none

/-- The runs for the key that ended without throwing since its last
eviction. -/
def endsSince (key : RecvKey) : List DedupEvent → Nat :=
  List.foldl (fun count event =>
    if event = .evicted key then 0
    else if event.EndsWell key then count + 1 else count) 0

theorem endsSince_append (key : RecvKey) (history : List DedupEvent)
    (event : DedupEvent) :
    endsSince key (history ++ [event]) =
      if event = .evicted key then 0
      else if event.EndsWell key then endsSince key history + 1
      else endsSince key history := by
  simp [endsSince]

/-- A stretch of history without an eviction counts all its runs. -/
theorem countP_le_endsSince (key : RecvKey) (before middle : List DedupEvent)
    (hmiddle : .evicted key ∉ middle) :
    middle.countP (DedupEvent.EndsWell key ·) ≤
      endsSince key (before ++ middle) := by
  induction middle using List.reverseRecOn with
  | nil => simp
  | append_singleton middle event ih =>
      simp only [List.mem_append, List.mem_singleton, not_or] at hmiddle
      have hrest := ih hmiddle.1
      rw [← List.append_assoc, endsSince_append, if_neg (Ne.symm hmiddle.2),
        List.countP_append, List.countP_singleton]
      split <;> simp_all

/-- A handler that runs or has just ended owns its key. -/
def DedupSection.tag : DedupSection → Option RecvKey
  | .deliver env | .finishRemoteDelivery env _ => some env.key
  | _ => none

structure DedupInv (cap : Nat) (s : DedupRun)
    (pending : Multiset DedupSection) : Prop where
  size_le : Table.size s.dedup ≤ cap
  unique : UniqueTags DedupSection.tag pending
  running : ∀ sec ∈ pending, ∀ key, sec.tag = some key →
    s.dedup.lookup key = some .inProgress
  ends : ∀ key, endsSince key s.history ≠ 0 →
    s.dedup.lookup key = some .completed ∨
      ∃ env result, env.key = key ∧ result ≠ .threw ∧
        .finishRemoteDelivery env result ∈ pending
  window : ∀ key front, front <+: s.history → endsSince key front ≤ 1
  thrown : ∀ key before, s.history = before ++ [.finished key .threw] →
    s.dedup.lookup key = none

theorem window_append {history : List DedupEvent} {event : DedupEvent}
    (hwindow : ∀ key front, front <+: history → endsSince key front ≤ 1)
    (hlast : ∀ key, endsSince key (history ++ [event]) ≤ 1) :
    ∀ key front, front <+: history ++ [event] → endsSince key front ≤ 1 := by
  intro key front hfront
  rcases List.prefix_concat_iff.mp hfront with rfl | hold
  · exact hlast key
  · exact hwindow key front hold

theorem dedupInv_init (cap : Nat) : DedupInv cap DedupRun.init 0 := by
  constructor
  case unique => exact uniqueTags_zero _
  case window =>
    intro key front hfront
    simp only [DedupRun.init, List.prefix_nil] at hfront
    simp [hfront, endsSince]
  all_goals simp [DedupRun.init, endsSince, Table.size]

namespace DedupInv

variable {cap : Nat} {s : DedupRun} {others : Multiset DedupSection}
  {env : Envelope}

theorem add_untagged (hinv : DedupInv cap s others) (sec : DedupSection)
    (htag : sec.tag = none) : DedupInv cap s (sec ::ₘ others) := by
  refine { hinv with unique := ?_, running := ?_, ends := ?_ }
  · rw [uniqueTags_cons]
    exact ⟨by simp [htag], hinv.unique⟩
  · refine Multiset.forall_mem_cons.mpr ⟨fun key hkey => ?_, hinv.running⟩
    rw [htag] at hkey
    cases hkey
  · intro key hcount
    refine (hinv.ends key hcount).imp_right ?_
    rintro ⟨env, result, hkey, hran, hmem⟩
    exact ⟨env, result, hkey, hran, Multiset.mem_cons_of_mem hmem⟩

theorem drop_untagged {sec : DedupSection}
    (hinv : DedupInv cap s (sec ::ₘ others)) (htag : sec.tag = none) :
    DedupInv cap s others := by
  refine { hinv with unique := ?_, running := ?_, ends := ?_ }
  · exact ((uniqueTags_cons _ _ _).mp hinv.unique).2
  · exact fun other hmem => hinv.running other (Multiset.mem_cons_of_mem hmem)
  · intro key hcount
    refine (hinv.ends key hcount).imp_right ?_
    rintro ⟨env, result, hkey, hran, hmem⟩
    refine ⟨env, result, hkey, hran, (Multiset.mem_cons.mp hmem).resolve_left ?_⟩
    rintro rfl
    cases htag

/-- An event that is neither an eviction nor the end of a run. -/
theorem recorded (hinv : DedupInv cap s others) (event : DedupEvent)
    (hquiet : ∀ key, event ≠ .evicted key ∧ ¬ event.EndsWell key)
    (hthrown : ∀ key, event ≠ .finished key .threw) :
    DedupInv cap { s with history := s.history ++ [event] } others := by
  have hsame : ∀ key, endsSince key (s.history ++ [event]) =
      endsSince key s.history := by
    intro key
    rw [endsSince_append, if_neg (hquiet key).1, if_neg (hquiet key).2]
  have hwindow : ∀ key, endsSince key (s.history ++ [event]) ≤ 1 := by
    intro key
    rw [hsame]
    exact hinv.window key _ List.prefix_rfl
  refine
    { hinv with
      ends := ?_
      window := window_append hinv.window hwindow
      thrown := ?_ }
  · intro key
    rw [hsame]
    exact hinv.ends key
  · intro key before heq
    have hlast := (List.append_inj' heq rfl).2
    simp only [List.cons.injEq, and_true] at hlast
    exact absurd hlast (hthrown key)

/-- A completed entry is evicted. -/
theorem evict {victim : RecvKey} (hinv : DedupInv cap s others)
    (hvictim : s.dedup.lookup victim = some .completed) :
    DedupInv cap
      { s with
        dedup := s.dedup.erase victim
        history := s.history ++ [.evicted victim] } others := by
  have hends : ∀ key, endsSince key (s.history ++ [.evicted victim]) =
      if key = victim then 0 else endsSince key s.history := by
    intro key
    rw [endsSince_append]
    simp [DedupEvent.EndsWell, eq_comm]
  constructor
  case size_le => exact (Table.size_erase_le _ _).trans hinv.size_le
  case unique => exact hinv.unique
  case running =>
    intro other hmem key htag
    have hruns := hinv.running other hmem key htag
    have hne : key ≠ victim := by
      rintro rfl
      rw [hvictim] at hruns
      cases hruns
    rw [Table.lookup_erase, if_neg hne, hruns]
  case ends =>
    intro key hcount
    rw [hends] at hcount
    have hne : key ≠ victim := fun heq => hcount (if_pos heq)
    rw [if_neg hne] at hcount
    rw [Table.lookup_erase, if_neg hne]
    exact hinv.ends key hcount
  case window =>
    apply window_append hinv.window
    intro key
    have := hinv.window key _ List.prefix_rfl
    rw [hends]
    split <;> omega
  case thrown =>
    intro key before heq
    have hlast := (List.append_inj' heq rfl).2
    simp at hlast

/-- A claim of an absent key starts its handler. -/
theorem start (hinv : DedupInv cap s others) (env : Envelope)
    (hkey : s.dedup.lookup env.key = none) (hroom : Table.size s.dedup < cap) :
    DedupInv cap
      { s with
        dedup := s.dedup.insert env.key .inProgress
        history := s.history ++ [.claimed env.key .fresh] }
      (.deliver env ::ₘ others) := by
  have hfree : ∀ other ∈ others, other.tag ≠ some env.key := by
    intro other hother htag
    simp [hinv.running other hother env.key htag] at hkey
  have hrecorded := hinv.recorded (.claimed env.key .fresh)
    (by simp [DedupEvent.EndsWell]) (by simp)
  constructor
  case size_le =>
    rw [Table.size_insert_of_not_mem _ _ (AList.lookup_eq_none.mp hkey)]
    exact hroom
  case unique =>
    rw [uniqueTags_cons]
    refine ⟨?_, hinv.unique⟩
    rintro key ⟨⟩
    exact hfree
  case running =>
    refine Multiset.forall_mem_cons.mpr ⟨?_, fun other hmem key htag => ?_⟩
    · rintro key ⟨⟩
      rw [Table.lookup_insert, if_pos rfl]
    · have hne : key ≠ env.key := by
        rintro rfl
        exact hfree other hmem htag
      rw [Table.lookup_insert, if_neg hne]
      exact hinv.running other hmem key htag
  case ends =>
    intro key hcount
    rcases hrecorded.ends key hcount with hdone | ⟨ran, result, hran, hwell, hmem⟩
    · have hne : key ≠ env.key := by
        rintro rfl
        exact absurd (hkey.symm.trans hdone) (by simp)
      exact Or.inl (by rw [Table.lookup_insert, if_neg hne, hdone])
    · exact Or.inr ⟨ran, result, hran, hwell, Multiset.mem_cons_of_mem hmem⟩
  case window => exact hrecorded.window
  case thrown =>
    intro key before heq
    have hlast := (List.append_inj' heq rfl).2
    simp at hlast

/-- The handler returns: no run of its key has ended well since the last
eviction. -/
theorem handler_ended (hinv : DedupInv cap s (.deliver env ::ₘ others))
    (result : DeliverResult) :
    DedupInv cap { s with history := s.history ++ [.ended env.key result] }
      (.finishRemoteDelivery env result ::ₘ others) := by
  have hunique := (uniqueTags_cons _ _ _).mp hinv.unique
  have hother := hunique.1 env.key rfl
  have hself := hinv.running _ (Multiset.mem_cons_self _ _) env.key rfl
  -- the handler that has run is the only section with its key
  have hfinishers : ∀ {ran ended}, .finishRemoteDelivery ran ended ∈
      .deliver env ::ₘ others → .finishRemoteDelivery ran ended ∈ others ∧
        ran.key ≠ env.key := by
    intro ran ended hmem
    have hmem := (Multiset.mem_cons.mp hmem).resolve_left (by simp)
    exact ⟨hmem, fun heq => hother _ hmem (congrArg some heq)⟩
  have hnone : endsSince env.key s.history = 0 := by
    by_contra hcount
    rcases hinv.ends env.key hcount with hdone | ⟨ran, ended, hkey, -, hmem⟩
    · simp [hself] at hdone
    · exact (hfinishers hmem).2 hkey
  have hcount : ∀ key, endsSince key (s.history ++ [.ended env.key result]) =
      if key = env.key ∧ result ≠ .threw then 1
      else endsSince key s.history := by
    intro key
    rw [endsSince_append]
    by_cases hkey : key = env.key
    · subst hkey
      cases result <;> simp [DedupEvent.EndsWell, hnone]
    · cases result <;> simp [DedupEvent.EndsWell, hkey, Ne.symm hkey]
  constructor
  case size_le => exact hinv.size_le
  case unique =>
    exact hinv.unique.replace rfl
  case running =>
    obtain ⟨-, hrest⟩ := Multiset.forall_mem_cons.mp hinv.running
    refine Multiset.forall_mem_cons.mpr ⟨?_, hrest⟩
    rintro key ⟨⟩
    exact hself
  case ends =>
    intro key hends
    rw [hcount] at hends
    split at hends
    · rename_i hwell
      exact Or.inr ⟨env, result, hwell.1.symm, hwell.2, Multiset.mem_cons_self _ _⟩
    · refine (hinv.ends key hends).imp_right ?_
      rintro ⟨ran, ended, hkey, hwell, hmem⟩
      exact ⟨ran, ended, hkey, hwell, Multiset.mem_cons_of_mem (hfinishers hmem).1⟩
  case window =>
    apply window_append hinv.window
    intro key
    have := hinv.window key _ List.prefix_rfl
    rw [hcount]
    split <;> omega
  case thrown =>
    intro key before heq
    have hlast := (List.append_inj' heq rfl).2
    simp at hlast

/-- The end of delivery: the key is completed, or absent after a throw. -/
theorem finish {result : DeliverResult}
    (hinv : DedupInv cap s (.finishRemoteDelivery env result ::ₘ others)) :
    DedupInv cap
      { s with
        dedup := DedupTable.finishDelivery cap s.dedup env.key result
        history := s.history ++ [.finished env.key result] } others := by
  have hunique := (uniqueTags_cons _ _ _).mp hinv.unique
  have hother := hunique.1 env.key rfl
  have hself := hinv.running _ (Multiset.mem_cons_self _ _) env.key rfl
  have hlookup : ∀ key,
      (DedupTable.finishDelivery cap s.dedup env.key result).lookup key =
        if key = env.key then (if result = .threw then none else some .completed)
        else s.dedup.lookup key := by
    intro key
    unfold DedupTable.finishDelivery
    simp only [hself]
    split <;> simp [Table.lookup_erase, Table.lookup_insert]
  have hcount : ∀ key,
      endsSince key (s.history ++ [.finished env.key result]) =
        endsSince key s.history := by
    intro key
    rw [endsSince_append]
    simp [DedupEvent.EndsWell]
  constructor
  case size_le => exact DedupTable.finishDelivery_size_le hinv.size_le _ _
  case unique => exact hunique.2
  case running =>
    intro other hmem key htag
    have hne : key ≠ env.key := by
      rintro rfl
      exact hother other hmem htag
    rw [hlookup, if_neg hne]
    exact hinv.running other (Multiset.mem_cons_of_mem hmem) key htag
  case ends =>
    intro key hends
    rw [hcount] at hends
    rw [hlookup]
    rcases hinv.ends key hends with hdone | ⟨ran, ended, rfl, hwell, hmem⟩
    · have hne : key ≠ env.key := by
        rintro rfl
        exact absurd (hself.symm.trans hdone) (by simp)
      exact Or.inl ((if_neg hne).trans hdone)
    · obtain heq | hmem := Multiset.mem_cons.mp hmem
      · obtain ⟨rfl, rfl⟩ := DedupSection.finishRemoteDelivery.inj heq
        exact Or.inl (by rw [if_pos rfl, if_neg hwell])
      · exact Or.inr ⟨ran, ended, rfl, hwell, hmem⟩
  case window =>
    apply window_append hinv.window
    intro key
    rw [hcount]
    exact hinv.window key _ List.prefix_rfl
  case thrown =>
    intro key before heq
    have hlast := (List.append_inj' heq rfl).2
    simp only [List.cons.injEq, DedupEvent.finished.injEq, and_true] at hlast
    rw [hlookup, if_pos hlast.1.symm, if_pos hlast.2]

/-- Only the table and the history matter to the invariant. -/
theorem with_counters (hinv : DedupInv cap s others)
    (evictions overflows wireSkips : Nat) :
    DedupInv cap ⟨s.dedup, evictions, overflows, wireSkips, s.history⟩ others :=
  { hinv with }

theorem dispatch {choice : DeliverResult}
    {effect : Effect DedupRun DedupSection} (hinv : DedupInv cap s others)
    (hexec : s.exec cap (.dispatchEnvelope env) choice = some effect) :
    DedupInv cap effect.shared (effect.work + others) := by
  by_cases hkeyed : env.correlationId = 0
  · simp only [DedupRun.exec, hkeyed, if_true, Option.some.injEq] at hexec
    subst hexec
    simpa using hinv.add_untagged (.deliverUnkeyed env) rfl
  · simp only [DedupRun.exec, hkeyed, if_false] at hexec
    rcases DedupTable.claimRemote_cases cap s.dedup env.key false false with
      ⟨heq, -⟩ | ⟨heq, -⟩ | ⟨heq, -⟩ | ⟨heq, hkey, -, hroom⟩ |
      ⟨victim, heq, hkey, -, hfull, hvictim⟩
    · simp only [heq, Option.some.injEq] at hexec
      subst hexec
      have hrecorded := hinv.recorded (.claimed env.key .completed)
        (by simp [DedupEvent.EndsWell]) (by simp)
      have hacking := hrecorded.add_untagged
        (.postRemoteAck env.replyConnId env.correlationId) rfl
      simpa [DedupRun.claimed] using hacking.with_counters _ _ _
    · simp only [heq, Option.some.injEq] at hexec
      subst hexec
      have hrecorded := hinv.recorded (.claimed env.key .busy)
        (by simp [DedupEvent.EndsWell]) (by simp)
      simpa [DedupRun.claimed] using hrecorded.with_counters _ _ _
    · simp only [heq, Option.some.injEq] at hexec
      subst hexec
      have hrecorded := hinv.recorded (.claimed env.key .overflow)
        (by simp [DedupEvent.EndsWell]) (by simp)
      simpa [DedupRun.claimed] using hrecorded.with_counters _ _ _
    · simp only [heq, Option.some.injEq] at hexec
      subst hexec
      simpa [DedupRun.claimed] using
        (hinv.start env hkey hroom).with_counters _ _ _
    · simp only [heq, Option.some.injEq] at hexec
      subst hexec
      have hcompleted := (DedupTable.findVictim_eq_some hvictim).1
      have hevicted := hinv.evict hcompleted
      have hmem : victim ∈ s.dedup :=
        (Table.mem_iff_lookup _ _).mpr ⟨_, hcompleted⟩
      have hroom : Table.size (s.dedup.erase victim) < cap := by
        have hpos := Table.size_pos_of_mem s.dedup hmem
        have hsize := hinv.size_le
        rw [Table.size_erase_of_mem _ hmem]
        omega
      have hstarted := hevicted.start env
        (by simp [Table.lookup_erase, hkey]) hroom
      simpa [DedupRun.claimed] using hstarted.with_counters _ _ _

end DedupInv

theorem dedupInv_exec (cap : Nat) (s : DedupRun)
    (others : Multiset DedupSection) (sec : DedupSection)
    (choice : DeliverResult) (effect : Effect DedupRun DedupSection)
    (hinv : DedupInv cap s (sec ::ₘ others))
    (hexec : s.exec cap sec choice = some effect) :
    DedupInv cap effect.shared (effect.work + others) := by
  cases sec with
  | dispatchEnvelope env => exact (hinv.drop_untagged rfl).dispatch hexec
  | deliverUnkeyed env =>
      simp only [DedupRun.exec, Option.some.injEq] at hexec
      subst hexec
      simpa using hinv.drop_untagged rfl
  | deliver env =>
      simp only [DedupRun.exec, Option.some.injEq] at hexec
      subst hexec
      simpa using hinv.handler_ended choice
  | finishRemoteDelivery env result =>
      simp only [DedupRun.exec] at hexec
      split at hexec
      · simp only [Option.some.injEq] at hexec
        subst hexec
        simpa using hinv.finish
      · simp only [Option.some.injEq] at hexec
        subst hexec
        simpa using hinv.finish.add_untagged
          (.postRemoteAck env.replyConnId env.correlationId) rfl
  | postRemoteAck conn msgId =>
      simp only [DedupRun.exec, Option.some.injEq] at hexec
      subst hexec
      simpa using hinv.drop_untagged rfl

theorem DedupInv.contract {cap : Nat} {cfg : Config DedupRun DedupSection}
    (hinv : DedupInv cap cfg.shared cfg.pending) : DedupContract cap cfg := by
  constructor
  case size_le => exact hinv.size_le
  case victim =>
    intro key victim hevicted
    rcases DedupTable.claimRemote_cases cap cfg.shared.dedup key false false with
      ⟨heq, -⟩ | ⟨heq, -⟩ | ⟨heq, -⟩ | ⟨heq, -⟩ |
      ⟨other, heq, -, -, -, hvictim⟩ <;> simp only [heq] at hevicted
    · simp at hevicted
    · simp at hevicted
    · simp at hevicted
    · simp at hevicted
    · obtain rfl : other = victim := by simpa using hevicted
      exact DedupTable.findVictim_eq_some hvictim
  case overflow_iff =>
    intro key
    have hsize := hinv.size_le
    rw [← DedupTable.findVictim_eq_none_iff]
    rcases DedupTable.claimRemote_cases cap cfg.shared.dedup key false false with
      ⟨heq, hcase⟩ | ⟨heq, hcase⟩ | ⟨heq, hkey, -, hfull, hvictim⟩ |
      ⟨heq, hkey, -, hroom⟩ | ⟨other, heq, hkey, -, hfull, hvictim⟩ <;>
      rw [heq]
    · simp_all
    · simp_all
    · simp [hkey, hvictim, Nat.le_antisymm hsize hfull]
    · simp [Nat.ne_of_lt hroom]
    · simp [hvictim]
  case one_handler =>
    intro key
    refine hinv.unique.countP_le_one (t := key) fun sec hsec => ?_
    cases sec <;> simp_all [DedupSection.handlerKey, DedupSection.tag]
  case window =>
    intro key before middle after heq hmiddle
    have hfront : before ++ middle <+: cfg.shared.history := by
      rw [heq]
      exact List.prefix_append _ _
    exact (countP_le_endsSince key before middle hmiddle).trans
      (hinv.window key _ hfront)
  case thrown_absent => exact hinv.thrown

/-- The contract holds for every capacity in every interleaving. -/
theorem dedup_contract (cap : Nat)
    (word : List (Move DedupSection DeliverResult))
    (last : Config DedupRun DedupSection)
    (hrun : ((dedupProgram cap).machine .init).run word = some last) :
    DedupContract cap last := by
  have hcall : ∀ s pending sec, DedupInv cap s pending →
      (dedupProgram cap).entry s sec = true →
        DedupInv cap s (sec ::ₘ pending) := ?_
  · exact ((dedupProgram cap).invariant_of_run (dedupInv_init cap) hcall
      (dedupInv_exec cap) word hrun).contract
  intro s pending sec hinv hentry
  cases sec with
  | dispatchEnvelope env => exact hinv.add_untagged _ rfl
  | _ => simp [dedupProgram] at hentry

/-- Capacity 1: a run that throws, one that ends well, a duplicate that is
acked, and a second key that evicts the first. -/
def evictingRun : List (Move DedupSection DeliverResult) :=
  [.call (.dispatchEnvelope ⟨1, 5, 9⟩), .run 0 .ok, .run 0 .threw, .run 0 .ok,
    .call (.dispatchEnvelope ⟨1, 5, 9⟩), .run 1 .ok, .run 1 .ok, .run 1 .ok,
    .call (.dispatchEnvelope ⟨1, 5, 9⟩), .run 2 .ok,
    .call (.dispatchEnvelope ⟨2, 5, 9⟩), .run 3 .ok,
    .call (.dispatchEnvelope ⟨3, 5, 9⟩), .run 4 .ok]

theorem dedup_contract_evictingRun :
    ∃ last, ((dedupProgram 1).machine .init).run evictingRun = some last ∧
      last.shared.evictions = 1 ∧ last.shared.overflows = 1 ∧
      DedupContract 1 last := by
  have hvalue : (((dedupProgram 1).machine .init).run evictingRun).map
      (fun cfg => (cfg.shared.evictions, cfg.shared.overflows)) =
        some (1, 1) := by
    decide
  obtain ⟨last, hlast, heq⟩ := Option.map_eq_some_iff.mp hvalue
  simp only [Prod.mk.injEq] at heq
  exact ⟨last, hlast, heq.1, heq.2, dedup_contract 1 _ last hlast⟩

end UltraNet
