/-
The order of an `MpscQueue`: values leave it in the order of the successful
compare-exchanges.
-/
import UltraNet.MpscRing

namespace UltraNet

theorem wrap64_eq {n : Nat} (hlt : n < 2 ^ 64) : wrap64 n = n :=
  Nat.mod_eq_of_lt hlt

theorem signed64_eq {n : Nat} (hlt : n < 2 ^ 63) : signed64 n = n :=
  if_pos hlt

namespace MpscQueue

variable {T : Type*}

structure Ordered (capacity : MpscCapacity) (q : MpscQueue T) : Prop where
  ledger : q.Ledger capacity
  counters : q.Counters capacity
  ring : q.Ring capacity

section Steps

variable {capacity : MpscCapacity} {q q' : MpscQueue T}

theorem Ordered.bounds (hq : q.Ordered capacity)
    (hops : q.calls.length + q.pops < 2 ^ 63) :
    q.claims.length < 2 ^ 63 ∧ q.popped.length + capacity.size < 2 ^ 63 := by
  have hcalls := hq.ledger.length_le
  have hpopped := hq.counters.popped_le
  have hpops := hq.counters.pops
  have hsize := capacity.size_le
  omega

/-- What `emplace` reads in the slot of a position that it has loaded at some
time: less than the position if and only if the queue is full now. -/
theorem Ordered.sequence_read (hq : q.Ordered capacity)
    (hops : q.calls.length + q.pops < 2 ^ 63) {pos : Nat}
    (hpos : pos ≤ q.claims.length) :
    q.sequence (capacity.slot pos) < 2 ^ 63 ∧
      (pos < q.popped.length + capacity.size ∧
          pos ≤ q.sequence (capacity.slot pos) ∨
        q.claims.length = q.popped.length + capacity.size ∧
          q.sequence (capacity.slot pos) < pos) := by
  have hbounds := hq.bounds hops
  have hclaims := hq.counters.claims_le
  have hsize := capacity.two_le_size
  by_cases hstale : pos < q.popped.length
  · obtain ⟨p, hp, hplt, hslot⟩ := capacity.exists_slot_eq hstale
    have hlap := hq.ring.sequence_lap hp hplt
    rw [hslot] at hlap
    omega
  · by_cases hfull : pos = q.popped.length + capacity.size
    · have hlap := hq.ring.sequence_lap (Nat.le_refl q.popped.length) (by omega)
      rw [hfull, capacity.slot_add_size]
      omega
    · have hlap := hq.ring.sequence_lap (p := pos) (by omega) (by omega)
      omega

/-- A producer before its compare-exchange goes on with the same call. -/
theorem Ordered.goto (hq : q.Ordered capacity) {thread call : Nat} {item : T}
    {phase : ProducerPhase T}
    (hold : (q.producers thread).waiting = some (call, item))
    (hnew : phase.waiting = some (call, item))
    (hseen : ∀ pos, phase.seen = some pos → pos ≤ q.claims.length)
    (hroom : ∀ call item pos, phase = .cas call item pos →
      pos < q.popped.length + capacity.size) :
    (q.goto thread phase).Ordered capacity where
  ledger := hq.ledger.congr rfl rfl rfl
    (goto_congr ProducerPhase.waiting (hnew.trans hold.symm))
  counters := hq.counters.goto thread phase hseen hroom
  ring := hq.ring.goto (ProducerPhase.owned_of_waiting hold)
    (ProducerPhase.owned_of_waiting hnew)

theorem init_ordered : (init : MpscQueue T).Ordered capacity where
  ledger := by constructor <;> simp [init, ProducerPhase.waiting]
  counters := by
    constructor <;> simp [init, ProducerPhase.seen, advancing, taking]
  ring := by
    constructor
    case free =>
      intro pos _ hlt
      simp only [init, List.length_nil, Nat.zero_add] at hlt ⊢
      rw [capacity.slot_eq, Nat.mod_eq_of_lt hlt]
    all_goals simp [init, ProducerPhase.owned]

theorem emplace_ordered (hq : q.Ordered capacity)
    (hops : q.calls.length + q.pops < 2 ^ 63) {thread : Nat} {spurious : Bool}
    (hstep : q.emplace capacity thread spurious = some q') :
    q'.Ordered capacity := by
  have hbounds := hq.bounds hops
  have henqueue := hq.counters.enqueue
  rw [emplace] at hstep
  cases hphase : q.producers thread with
  | idle => simp [hphase] at hstep
  | loadPos call item =>
      simp only [hphase, Option.some.injEq] at hstep
      subst hstep
      refine hq.goto (by rw [hphase]; rfl) rfl ?_ (by simp)
      intro pos hpos
      rw [← Option.some.inj hpos, henqueue]
  | loadSeq call item pos =>
      have hwaiting : (q.producers thread).waiting = some (call, item) := by
        rw [hphase]
        rfl
      have hpos := hq.counters.seen thread pos (by rw [hphase]; rfl)
      obtain ⟨hlt, hread⟩ := hq.sequence_read hops hpos
      simp only [hphase, signed64_eq hlt,
        signed64_eq (Nat.lt_of_le_of_lt hpos hbounds.1)] at hstep
      split at hstep
      next hzero =>
        obtain rfl := Option.some.inj hstep
        refine hq.goto hwaiting rfl ?_ ?_
        · intro pos' hpos'
          rwa [← Option.some.inj hpos']
        · rintro call' item' pos' ⟨⟩
          omega
      next hzero =>
        split at hstep
        next hneg =>
          -- the slot is of the lap before: the queue is full
          have hfull : q.claims.length - q.popped.length = capacity.size := by
            omega
          rw [hfull] at hstep
          obtain rfl := Option.some.inj hstep
          have howned := ProducerPhase.owned_of_waiting hwaiting
          have hcounters := hq.counters.goto thread
            .idle (by rintro _ ⟨⟩) (by simp)
          exact ⟨hq.ledger.reject hwaiting, { hcounters with },
            (hq.ring.goto howned rfl).setPositions _ _ _ _ hq.ring.missed⟩
        next hneg =>
          obtain rfl := Option.some.inj hstep
          exact hq.goto hwaiting rfl (by rintro _ ⟨⟩) (by simp)
  | cas call item pos =>
      have hwaiting : (q.producers thread).waiting = some (call, item) := by
        rw [hphase]
        rfl
      simp only [hphase] at hstep
      split at hstep
      next hsuccess =>
        obtain rfl := Option.some.inj hstep
        obtain rfl : pos = q.claims.length := by
          rw [← hsuccess.1, henqueue]
        have hroom := hq.counters.room thread call item _ hphase
        have hfresh := hq.ledger.fresh thread call item hwaiting
        rw [wrap64_eq (show q.claims.length + 1 < 2 ^ 64 by omega)]
        have howned := ProducerPhase.owned_of_waiting hwaiting
        exact ⟨hq.ledger.claim hwaiting, hq.counters.claim hroom,
          (hq.ring.claim hq.counters howned hfresh.called hroom).setPositions _ _ _ _
            hq.ring.missed⟩
      next hfailure =>
        obtain rfl := Option.some.inj hstep
        refine hq.goto hwaiting rfl ?_ (by simp)
        intro pos' hpos'
        rw [← Option.some.inj hpos', henqueue]
  | moveData call item pos =>
      simp only [hphase, Option.some.injEq] at hstep
      subst hstep
      have hcounters := hq.counters.goto thread
        (.publish call item pos) (by rintro _ ⟨⟩) (by simp)
      exact ⟨hq.ledger.congr rfl rfl rfl
          (goto_congr ProducerPhase.waiting (by rw [hphase]; rfl)),
        { hcounters with }, hq.ring.moveData hq.counters hphase⟩
  | publish call item pos =>
      have hclaimed := hq.ring.claimed thread call item pos (by rw [hphase]; rfl)
      have hlt := hclaimed.lt
      simp only [hphase, wrap64_eq (show pos + 1 < 2 ^ 64 by omega),
        Option.some.injEq] at hstep
      subst hstep
      have hcounters := hq.counters.goto thread
        .idle (by rintro _ ⟨⟩) (by simp)
      exact ⟨hq.ledger.congr rfl rfl rfl
          (goto_congr ProducerPhase.waiting (by rw [hphase]; rfl)),
        { hcounters with }, hq.ring.publish hq.counters hphase⟩

theorem tryPop_ordered (hq : q.Ordered capacity)
    (hops : q.calls.length + q.pops < 2 ^ 63)
    (hstep : q.tryPop capacity = some q') : q'.Ordered capacity := by
  have hbounds := hq.bounds hops
  have hpopped := hq.counters.popped_le
  have hdequeue := hq.counters.dequeue
  have hpops := hq.counters.pops
  have hledger : ∀ {last : MpscQueue T}, last.calls = q.calls →
      last.claims = q.claims → last.rejected = q.rejected →
      last.producers = q.producers → last.Ledger capacity := by
    intro last hcalls hclaims hrejected hproducers
    exact hq.ledger.congr hcalls hclaims hrejected (by simp [hproducers])
  rw [tryPop] at hstep
  cases hphase : q.consumer with
  | idle => simp [hphase] at hstep
  | loadSeq =>
      simp only [advancing, hphase, Nat.add_zero] at hdequeue
      simp only [taking, hphase] at hpops
      simp only [hphase, hdequeue,
        wrap64_eq (show q.popped.length + 1 < 2 ^ 64 by omega)] at hstep
      split at hstep
      next hmiss =>
        obtain rfl := Option.some.inj hstep
        have hmissed : ∀ published ∈ q.misses ++
            [decide (q.popped.length ∈ q.published)], published = false := by
          intro published hpublished
          obtain hold | hnew := List.mem_append.mp hpublished
          · exact hq.ring.missed published hold
          · rw [List.mem_singleton.mp hnew, decide_eq_false_iff_not]
            intro hmem
            exact hmiss ((hq.ring.published _ hmem).2 (Nat.le_refl _))
        refine ⟨hledger rfl rfl rfl rfl, { hq.counters with
          dequeue := rfl, pops := ?_ }, ?_⟩
        · simp only [taking]
          omega
        · exact (hq.ring.setConsumer .idle (by simp [hphase]) (by simp)
            (by simp)).setPositions _ _ _ _ hmissed
      next hhit =>
        obtain rfl := Option.some.inj hstep
        refine ⟨hledger rfl rfl rfl rfl, { hq.counters with
          dequeue := rfl, pops := hpops }, ?_⟩
        exact (hq.ring.setConsumer .moveData (by simp [hphase]) (by simp)
          fun _ => Classical.not_not.mp hhit).setPositions _ _ _ _ hq.ring.missed
  | moveData =>
      simp only [advancing, hphase, Nat.add_zero] at hdequeue
      simp only [taking, hphase] at hpops
      simp only [hphase, hdequeue, Option.some.injEq] at hstep
      subst hstep
      refine ⟨hledger rfl rfl rfl rfl, { hq.counters with
        dequeue := rfl, pops := hpops }, ?_⟩
      exact (hq.ring.take hq.counters hphase).setPositions _ _ _ _ hq.ring.missed
  | release item =>
      simp only [advancing, hphase, Nat.add_zero] at hdequeue
      simp only [taking, hphase] at hpops
      have hnext := hq.ring.carried item hphase
      simp only [hphase, hdequeue, Option.some.injEq,
        wrap64_eq (show q.popped.length + capacity.size < 2 ^ 64 by omega)] at hstep
      subst hstep
      have hlength : (q.popped ++ [item]).length = q.popped.length + 1 :=
        List.length_append
      obtain ⟨call, hcall, -⟩ := hnext
      have hlt := (List.getElem?_eq_some_iff.mp hcall).1
      have hclaims := hq.counters.claims_le
      refine ⟨hledger rfl rfl rfl rfl, { hq.counters with
        dequeue := hlength.symm, popped_le := ?_, claims_le := ?_, pops := ?_,
        room := ?_ }, ?_⟩
      · simp only [hlength]
        omega
      · simp only [hlength]
        omega
      · simpa only [hlength, taking] using hpops
      · intro thread call item pos hcas
        have := hq.counters.room thread call item pos hcas
        simp only [hlength]
        omega
      · exact (hq.ring.release hq.counters hphase).setPositions _ _ _ _
          hq.ring.missed
  | advance item =>
      simp only [advancing, hphase] at hdequeue
      simp only [taking, hphase] at hpops
      simp only [hphase, Option.some.injEq,
        wrap64_eq (show q.dequeuePos + 1 < 2 ^ 64 by omega)] at hstep
      subst hstep
      refine ⟨hledger rfl rfl rfl rfl, { hq.counters with
        dequeue := hdequeue, pops := hpops }, ?_⟩
      exact (hq.ring.setConsumer .idle (by simp [hphase]) (by simp)
        (by simp)).setPositions _ _ _ _ hq.ring.missed

theorem emplace_ops {thread : Nat} {spurious : Bool}
    (hstep : q.emplace capacity thread spurious = some q') :
    q'.calls = q.calls ∧ q'.pops = q.pops := by
  rw [emplace] at hstep
  cases hphase : q.producers thread <;> simp only [hphase] at hstep
  case idle => cases hstep
  case loadSeq | cas =>
    split at hstep
    all_goals
      try split at hstep
      all_goals
        obtain rfl := Option.some.inj hstep
        exact ⟨rfl, rfl⟩
  all_goals
    obtain rfl := Option.some.inj hstep
    exact ⟨rfl, rfl⟩

theorem tryPop_ops (hstep : q.tryPop capacity = some q') :
    q'.calls = q.calls ∧ q'.pops = q.pops := by
  rw [tryPop] at hstep
  cases hphase : q.consumer <;> simp only [hphase] at hstep
  case idle => cases hstep
  case loadSeq =>
    split at hstep
    all_goals
      obtain rfl := Option.some.inj hstep
      exact ⟨rfl, rfl⟩
  all_goals
    obtain rfl := Option.some.inj hstep
    exact ⟨rfl, rfl⟩

/-- Every step keeps the order, as long as the operations are not too many. -/
theorem step_ordered {action : MpscStep T} (hq : q.Ordered capacity)
    (hops : q'.calls.length + q'.pops < 2 ^ 63)
    (hstep : q.step capacity action = some q') : q'.Ordered capacity := by
  cases action with
  | push thread item =>
      simp only [step] at hstep
      cases hphase : q.producers thread with
      | idle =>
          simp only [hphase, Option.some.injEq] at hstep
          subst hstep
          have hcounters := hq.counters.goto thread
            (.loadPos q.calls.length item) (by rintro _ ⟨⟩) (by simp)
          have hring := hq.ring.push hq.ledger (thread, item)
          exact ⟨hq.ledger.push item hphase, { hcounters with },
            hring.goto (by simp [hphase, ProducerPhase.owned]) rfl⟩
      | _ => simp [hphase] at hstep
  | run thread spurious =>
      obtain ⟨hcalls, hpops⟩ := emplace_ops hstep
      rw [hcalls, hpops] at hops
      exact emplace_ordered hq hops hstep
  | pop =>
      simp only [step] at hstep
      cases hphase : q.consumer with
      | idle =>
          simp only [hphase, Option.some.injEq] at hstep
          subst hstep
          have hdequeue := hq.counters.dequeue
          have hpops := hq.counters.pops
          simp only [advancing, taking, hphase] at hdequeue hpops
          refine ⟨hq.ledger.congr rfl rfl rfl fun _ => rfl, { hq.counters with
            dequeue := hdequeue, pops := Nat.succ_le_succ hpops }, ?_⟩
          exact (hq.ring.setConsumer .loadSeq (by simp [hphase]) (by simp)
            (by simp)).setPositions _ _ _ _ hq.ring.missed
      | _ => simp [hphase] at hstep
  | consume =>
      obtain ⟨hcalls, hpops⟩ := tryPop_ops hstep
      rw [hcalls, hpops] at hops
      exact tryPop_ordered hq hops hstep

theorem step_ops_le {action : MpscStep T}
    (hstep : q.step capacity action = some q') :
    q.calls.length + q.pops ≤ q'.calls.length + q'.pops := by
  cases action with
  | push thread item =>
      simp only [step] at hstep
      cases hphase : q.producers thread with
      | idle =>
          simp only [hphase, Option.some.injEq] at hstep
          subst hstep
          simp only [List.length_append]
          exact Nat.add_le_add_right (Nat.le_add_right ..) q.pops
      | _ => simp [hphase] at hstep
  | run thread spurious =>
      obtain ⟨hcalls, hpops⟩ := emplace_ops hstep
      rw [hcalls, hpops]
  | pop =>
      simp only [step] at hstep
      cases hphase : q.consumer with
      | idle =>
          simp only [hphase, Option.some.injEq] at hstep
          subst hstep
          exact Nat.le_succ _
      | _ => simp [hphase] at hstep
  | consume =>
      obtain ⟨hcalls, hpops⟩ := tryPop_ops hstep
      rw [hcalls, hpops]

theorem run_ordered {word : List (MpscStep T)}
    (hrun : (machine capacity).run word = some q)
    (hops : q.calls.length + q.pops < 2 ^ 63) : q.Ordered capacity := by
  refine (machine capacity).run_preserves
    (I := fun q => q.calls.length + q.pops < 2 ^ 63 → q.Ordered capacity)
    (fun _ => init_ordered) ?_ word hrun hops
  intro state action next hstate hstep hnext
  have hle := step_ops_le hstep
  exact step_ordered (hstate (Nat.lt_of_le_of_lt hle hnext)) hnext hstep

end Steps

/-- In every interleaving of fewer than `2 ^ 63` operations the values leave
the queue in the order of the successful compare-exchanges, which for one
thread is the order of its calls.  No call has two positions; one that is over
has a position or has failed, and a position that is not taken out still has
its value.  Never more positions than slots are claimed and not taken out; a
call that failed moved nothing and found as many.  A `try_pop` that returns
nothing found its slot unpublished. -/
theorem values_leave_in_order (capacity : MpscCapacity) {word : List (MpscStep T)}
    {q : MpscQueue T} (hrun : (machine capacity).run word = some q)
    (hops : q.calls.length + q.pops < 2 ^ 63) :
    q.popped = (q.claims.take q.popped.length).map q.item ∧
      q.claims.Nodup ∧
      (∀ call ∈ q.claims, call < q.calls.length) ∧
      (q.claims.Pairwise fun first second =>
        ∀ thread x y, q.calls[first]? = some (thread, x) →
          q.calls[second]? = some (thread, y) → first < second) ∧
      (∀ call, call < q.calls.length →
        call ∈ q.claims ∨ call ∈ q.rejected.map Prod.fst ∨
          ∃ thread item, (q.producers thread).waiting = some (call, item)) ∧
      (∀ pos call, q.popped.length ≤ pos → q.claims[pos]? = some call →
        q.Holds capacity pos call) ∧
      q.popped.length ≤ q.claims.length ∧
      q.claims.length ≤ q.popped.length + capacity.size ∧
      (∀ entry ∈ q.rejected,
        entry.1 ∉ q.claims ∧ entry.1 ∉ q.moved ∧ entry.2 = capacity.size) ∧
      ∀ published ∈ q.misses, published = false := by
  have hq := run_ordered hrun hops
  refine ⟨hq.ring.values, hq.ledger.nodup, hq.ledger.known, hq.ledger.ordered,
    hq.ledger.accounted, hq.ring.held, hq.counters.popped_le,
    hq.counters.claims_le, ?_, hq.ring.missed⟩
  intro entry hentry
  obtain ⟨hunclaimed, -, hfull⟩ := hq.ledger.failed entry hentry
  exact ⟨hunclaimed, fun hmoved => hunclaimed (hq.ring.moved _ hmoved), hfull⟩

/-- Three threads on two slots: the third one fails, and then a value is taken
out. -/
def fullQueueWord : List (MpscStep Nat) :=
  let runs (thread count : Nat) : List (MpscStep Nat) :=
    List.replicate count (.run thread false)
  .push 0 10 :: runs 0 5 ++ .push 1 20 :: runs 1 5 ++ .push 2 30 :: runs 2 2 ++
    .pop :: List.replicate 4 .consume

set_option maxRecDepth 100000 in
theorem fullQueue_leaves_in_order :
    ∃ q : MpscQueue Nat, (machine ⟨1, by decide, by decide⟩).run fullQueueWord = some q ∧
      q.claims = [0, 1] ∧ q.rejected = [(2, 2)] ∧ q.popped = [some 10] ∧
      q.popped = (q.claims.take q.popped.length).map q.item ∧
      ∀ entry ∈ q.rejected, entry.1 ∉ q.claims ∧ entry.1 ∉ q.moved ∧
        entry.2 = 2 := by
  have hfinal : ((machine ⟨1, by decide, by decide⟩).run fullQueueWord).map
      (fun q => (q.claims, q.rejected, q.popped, q.calls.length, q.pops)) =
        some ([0, 1], [(2, 2)], [some 10], 3, 1) := by
    decide
  obtain ⟨q, hrun, hfacts⟩ := Option.map_eq_some_iff.mp hfinal
  simp only [Prod.mk.injEq] at hfacts
  obtain ⟨hclaims, hrejected, hpopped, hcalls, hpops⟩ := hfacts
  have horder := values_leave_in_order ⟨1, by decide, by decide⟩ hrun
    (by rw [hcalls, hpops]; decide)
  exact ⟨q, hrun, hclaims, hrejected, hpopped, horder.1,
    horder.2.2.2.2.2.2.2.2.1⟩

end MpscQueue

end UltraNet
