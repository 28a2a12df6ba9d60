/-
The slots of an `MpscQueue`: what the sequence number of each slot is relative
to the position that the slot stands for in the current lap.
-/
import UltraNet.MpscLedger
import Mathlib.Data.Nat.ModEq

namespace UltraNet

namespace MpscCapacity

variable (capacity : MpscCapacity)

theorem slot_eq (pos : Nat) : capacity.slot pos = pos % capacity.size :=
  Nat.and_two_pow_sub_one_eq_mod pos capacity.log

theorem two_le_size : 2 ≤ capacity.size := by
  have := Nat.pow_le_pow_right (Nat.zero_lt_two) capacity.two_le
  exact this

theorem size_le : capacity.size ≤ 2 ^ 62 :=
  Nat.pow_le_pow_right (Nat.zero_lt_two) capacity.fits

/-- Positions of one lap have their own slots. -/
theorem slot_ne {first p other : Nat} (hp : first ≤ p)
    (hplt : p < first + capacity.size) (hother : first ≤ other)
    (hotherlt : other < first + capacity.size) (hne : p ≠ other) :
    capacity.slot p ≠ capacity.slot other := by
  rw [slot_eq, slot_eq]
  intro heq
  have hmod : p - first ≡ other - first [MOD capacity.size] := by
    refine Nat.ModEq.add_left_cancel' first ?_
    rwa [Nat.add_sub_of_le hp, Nat.add_sub_of_le hother]
  have := hmod.eq_of_lt_of_lt (by omega) (by omega)
  omega

theorem slot_add_size (pos : Nat) :
    capacity.slot (pos + capacity.size) = capacity.slot pos := by
  rw [slot_eq, slot_eq, Nat.add_mod_right]

/-- The position of the current lap that has the slot of an earlier one. -/
theorem exists_slot_eq {first pos : Nat} (hlt : pos < first) :
    ∃ p, first ≤ p ∧ p < first + capacity.size ∧
      capacity.slot p = capacity.slot pos := by
  have hpos : 0 < capacity.size := Nat.lt_of_lt_of_le Nat.zero_lt_two
    capacity.two_le_size
  -- the first position of that slot that is not before the lap
  refine ⟨first + (capacity.size - 1 - (first - pos - 1) % capacity.size),
    Nat.le_add_right first _, by omega, ?_⟩
  have hmod := Nat.mod_lt (first - pos - 1) hpos
  have hdiv := Nat.div_add_mod (first - pos - 1) capacity.size
  have heq : first + (capacity.size - 1 - (first - pos - 1) % capacity.size) =
      pos + capacity.size * ((first - pos - 1) / capacity.size + 1) := by
    rw [Nat.mul_add, Nat.mul_one]
    omega
  rw [slot_eq, slot_eq, heq, Nat.add_mul_mod_self_left]

end MpscCapacity

namespace MpscQueue

variable {T : Type*}

/-- A call that has claimed a position and not published it. -/
structure Claimed (capacity : MpscCapacity) (q : MpscQueue T) (thread call : Nat)
    (item : T) (pos : Nat) : Prop where
  called : q.calls[call]? = some (thread, item)
  claimed : q.claims[pos]? = some call
  later : q.popped.length ≤ pos
  unpublished : q.sequence (capacity.slot pos) = pos

/-- A claimed position: its value is in the slot or in the consumer's hands, or
its producer has not published it. -/
def Holds (capacity : MpscCapacity) (q : MpscQueue T) (pos call : Nat) : Prop :=
  (q.sequence (capacity.slot pos) = pos + 1 ∧
      (q.data (capacity.slot pos) = q.item call ∨
        pos = q.popped.length ∧ q.consumer = .release (q.item call))) ∨
    ∃ thread item, (q.producers thread).owned = some (call, item, pos)

/-- Whether the consumer has given its slot free and not moved on. -/
def advancing (q : MpscQueue T) : Nat :=
  match q.consumer with
  | .advance _ => 1
  | _ => 0

/-- Whether the consumer has a slot still to give free. -/
def taking (q : MpscQueue T) : Nat :=
  match q.consumer with
  | .loadSeq | .moveData | .release _ => 1
  | _ => 0

/-- The two positions.  A value taken out costs two operations, which keeps the
sequence numbers of the next lap below `2 ^ 63`. -/
structure Counters (capacity : MpscCapacity) (q : MpscQueue T) : Prop where
  enqueue : q.enqueuePos = q.claims.length
  dequeue : q.dequeuePos + q.advancing = q.popped.length
  popped_le : q.popped.length ≤ q.claims.length
  claims_le : q.claims.length ≤ q.popped.length + capacity.size
  pops : q.popped.length + q.taking ≤ q.pops
  seen : ∀ thread pos, (q.producers thread).seen = some pos → pos ≤ q.claims.length
  room : ∀ thread call item pos, q.producers thread = .cas call item pos →
    pos < q.popped.length + capacity.size

/-- The slots of the current lap. -/
structure Ring (capacity : MpscCapacity) (q : MpscQueue T) : Prop where
  values : q.popped = (q.claims.take q.popped.length).map q.item
  free : ∀ pos, q.claims.length ≤ pos → pos < q.popped.length + capacity.size →
    q.sequence (capacity.slot pos) = pos
  held : ∀ pos call, q.popped.length ≤ pos → q.claims[pos]? = some call →
    q.Holds capacity pos call
  claimed : ∀ thread call item pos,
    (q.producers thread).owned = some (call, item, pos) →
      q.Claimed capacity thread call item pos
  stored : ∀ thread call item pos, q.producers thread = .publish call item pos →
    q.data (capacity.slot pos) = some item
  taken : (q.consumer = .moveData ∨ ∃ item, q.consumer = .release item) →
    q.sequence (capacity.slot q.popped.length) = q.popped.length + 1
  carried : ∀ item, q.consumer = .release item →
    ∃ call, q.claims[q.popped.length]? = some call ∧ item = q.item call
  published : ∀ pos ∈ q.published, pos < q.claims.length ∧
    (q.popped.length ≤ pos → q.sequence (capacity.slot pos) = pos + 1)
  missed : ∀ published ∈ q.misses, published = false
  moved : ∀ call ∈ q.moved, call ∈ q.claims

section Ring

variable {capacity : MpscCapacity} {q : MpscQueue T}

theorem Counters.goto (hcounters : q.Counters capacity) (thread : Nat)
    (phase : ProducerPhase T)
    (hseen : ∀ pos, phase.seen = some pos → pos ≤ q.claims.length)
    (hroom : ∀ call item pos, phase = .cas call item pos →
      pos < q.popped.length + capacity.size) :
    (q.goto thread phase).Counters capacity := by
  refine { hcounters with seen := ?_, room := ?_ }
  · intro other pos hpos
    by_cases hother : other = thread
    · subst hother
      simp only [MpscQueue.goto, Function.update_self] at hpos
      exact hseen pos hpos
    · simp only [MpscQueue.goto, Function.update_of_ne hother] at hpos
      exact hcounters.seen other pos hpos
  · intro other call item pos hphase
    by_cases hother : other = thread
    · subst hother
      simp only [MpscQueue.goto, Function.update_self] at hphase
      exact hroom call item pos hphase
    · simp only [MpscQueue.goto, Function.update_of_ne hother] at hphase
      exact hcounters.room other call item pos hphase

/-- The last free position of the lap is claimed at most. -/
theorem Counters.claim (hcounters : q.Counters capacity) {thread call : Nat}
    {item : T} (hroom : q.claims.length < q.popped.length + capacity.size) :
    Counters capacity { q.goto thread (.moveData call item q.claims.length) with
      enqueuePos := q.claims.length + 1
      claims := q.claims ++ [call] } := by
  have hlength : (q.claims ++ [call]).length = q.claims.length + 1 :=
    List.length_append
  have hle : q.claims.length ≤ (q.claims ++ [call]).length := by omega
  have hgoto := hcounters.goto thread (.moveData call item q.claims.length)
    nofun nofun
  refine { hgoto with
    enqueue := ?_, popped_le := ?_, claims_le := ?_, seen := ?_ }
  · exact hlength.symm
  · exact Nat.le_trans hcounters.popped_le hle
  · exact Nat.le_trans (Nat.le_of_eq hlength) hroom
  · intro other pos hpos
    exact Nat.le_trans (hgoto.seen other pos hpos) hle

/-- The positions of two owners are not the same. -/
theorem Claimed.ne {thread other call call' pos pos' : Nat} {x y : T}
    (hclaimed : q.Claimed capacity thread call x pos)
    (hother : q.Claimed capacity other call' y pos') (hne : other ≠ thread) :
    pos' ≠ pos := by
  rintro rfl
  obtain rfl : call = call' :=
    Option.some.inj (hclaimed.claimed.symm.trans hother.claimed)
  have hcalled := hclaimed.called.symm.trans hother.called
  exact hne (congrArg Prod.fst (Option.some.inj hcalled)).symm

theorem Claimed.lt {thread call pos : Nat} {x : T}
    (hclaimed : q.Claimed capacity thread call x pos) : pos < q.claims.length :=
  (List.getElem?_eq_some_iff.mp hclaimed.claimed).1

/-- The slot of a position of the lap is that of no other position of it. -/
theorem Counters.slot_ne (hcounters : q.Counters capacity) {p other : Nat}
    (hp : q.popped.length ≤ p) (hplt : p < q.claims.length)
    (hother : q.popped.length ≤ other)
    (hotherlt : other < q.popped.length + capacity.size) (hne : other ≠ p) :
    capacity.slot other ≠ capacity.slot p := by
  have hle := hcounters.claims_le
  exact capacity.slot_ne hother hotherlt hp (by omega) hne

/-- A slot of the lap is free, claimed or published. -/
theorem Ring.sequence_lap (hring : q.Ring capacity) {p : Nat}
    (hp : q.popped.length ≤ p) (hplt : p < q.popped.length + capacity.size) :
    q.sequence (capacity.slot p) = p ∨
      q.sequence (capacity.slot p) = p + 1 ∧ p < q.claims.length := by
  by_cases hlt : p < q.claims.length
  · obtain ⟨hpublished, -⟩ | ⟨thread, item, howned⟩ :=
      hring.held p q.claims[p] hp (List.getElem?_eq_getElem hlt)
    · exact .inr ⟨hpublished, hlt⟩
    · exact .inl (hring.claimed thread _ item p howned).unpublished
  · exact .inl (hring.free p (by omega) hplt)

/-- A step of a producer that owns no position. -/
theorem Ring.goto (hring : q.Ring capacity) {thread : Nat} {phase : ProducerPhase T}
    (hold : (q.producers thread).owned = none) (hnew : phase.owned = none) :
    (q.goto thread phase).Ring capacity := by
  have howned : ∀ other,
      ((q.goto thread phase).producers other).owned = (q.producers other).owned :=
    goto_congr ProducerPhase.owned (hnew.trans hold.symm)
  refine { hring with held := ?_, claimed := ?_, stored := ?_ }
  · intro pos call hpos hcall
    refine (hring.held pos call hpos hcall).imp id ?_
    rintro ⟨other, item, hother⟩
    exact ⟨other, item, (howned other).trans hother⟩
  · intro other call item pos hother
    rw [howned] at hother
    exact { hring.claimed other call item pos hother with }
  · intro other call item pos hother
    by_cases heq : other = thread
    · subst heq
      simp only [MpscQueue.goto, Function.update_self] at hother
      simp [hother, ProducerPhase.owned] at hnew
    · simp only [MpscQueue.goto, Function.update_of_ne heq] at hother
      exact hring.stored other call item pos hother

theorem item_append {call : Nat} (hcall : call < q.calls.length)
    (entry : Nat × T) (q' : MpscQueue T) (hcalls : q'.calls = q.calls ++ [entry]) :
    q'.item call = q.item call := by
  rw [item, item, hcalls, List.getElem?_append_left hcall]

/-- A call is made. -/
theorem Ring.push (hring : q.Ring capacity) (hledger : q.Ledger capacity)
    (entry : Nat × T) : Ring capacity { q with calls := q.calls ++ [entry] } := by
  have hitem : ∀ call ∈ q.claims,
      item { q with calls := q.calls ++ [entry] } call = q.item call := by
    intro call hcall
    exact item_append (hledger.known call hcall) entry _ rfl
  have hmem : ∀ {pos call : Nat}, q.claims[pos]? = some call → call ∈ q.claims :=
    List.mem_of_getElem?
  refine { hring with values := ?_, held := ?_, claimed := ?_, carried := ?_ }
  · refine hring.values.trans (List.map_congr_left ?_)
    intro call hcall
    exact (hitem call (List.mem_of_mem_take hcall)).symm
  · intro pos call hpos hcall
    have heq := (hitem call (hmem hcall)).symm
    refine (hring.held pos call hpos hcall).imp (And.imp_right (Or.imp ?_ ?_)) id
    · exact fun hdata => hdata.trans heq
    · exact And.imp_right fun hvalue => hvalue.trans (congrArg _ heq)
  · intro thread call value pos hother
    have hclaimed := hring.claimed thread call value pos hother
    have hlt := hledger.known call (hmem hclaimed.claimed)
    exact { hclaimed with
      called := (List.getElem?_append_left hlt).trans hclaimed.called }
  · intro value hvalue
    obtain ⟨call, hcall, heq⟩ := hring.carried value hvalue
    exact ⟨call, hcall, heq.trans (hitem call (hmem hcall)).symm⟩

/-- A call claims the next position, which is free. -/
theorem Ring.claim (hring : q.Ring capacity) (hcounters : q.Counters capacity)
    {thread call : Nat} {item : T} (hold : (q.producers thread).owned = none)
    (hcalled : q.calls[call]? = some (thread, item))
    (hroom : q.claims.length < q.popped.length + capacity.size) :
    Ring capacity { q.goto thread (.moveData call item q.claims.length) with
      claims := q.claims ++ [call] } := by
  have hle := hcounters.popped_le
  have hclaims : ∀ {pos other : Nat}, q.claims[pos]? = some other →
      (q.claims ++ [call])[pos]? = some other := by
    intro pos other hother
    rw [List.getElem?_append_left (List.getElem?_eq_some_iff.mp hother).1]
    exact hother
  have hproducers : ∀ other, (q.producers other).owned ≠ none →
      (q.goto thread (.moveData call item q.claims.length)).producers other =
        q.producers other := by
    intro other hother
    refine Function.update_of_ne ?_ _ _
    rintro rfl
    exact hother hold
  refine { hring with
    values := ?_, free := ?_, held := ?_, claimed := ?_, stored := ?_,
    carried := ?_, published := ?_, moved := ?_ }
  · have htake : (q.claims ++ [call]).take q.popped.length =
        q.claims.take q.popped.length := List.take_append_of_le_length hle
    exact hring.values.trans (congrArg (List.map q.item) htake.symm)
  · intro pos hpos hlt
    refine hring.free pos ?_ hlt
    simp only [List.length_append, List.length_singleton] at hpos
    omega
  · intro pos other hpos hother
    by_cases hlt : pos < q.claims.length
    · rw [List.getElem?_append_left hlt] at hother
      refine (hring.held pos other hpos hother).imp id ?_
      rintro ⟨owner, value, howned⟩
      refine ⟨owner, value, ?_⟩
      rw [← howned]
      exact congrArg _ (hproducers owner (by simp [howned]))
    · -- the position just claimed
      have hnew := (List.getElem?_eq_some_iff.mp hother).1
      simp only [List.length_append, List.length_singleton] at hnew
      obtain rfl : pos = q.claims.length := by omega
      rw [List.getElem?_concat_length, Option.some.injEq] at hother
      subst hother
      exact .inr ⟨thread, item, by simp [MpscQueue.goto, ProducerPhase.owned]⟩
  · intro owner other value pos howned
    by_cases hthread : owner = thread
    · subst hthread
      simp only [MpscQueue.goto, Function.update_self, ProducerPhase.owned,
        Option.some.injEq, Prod.mk.injEq] at howned
      obtain ⟨rfl, rfl, rfl⟩ := howned
      exact ⟨hcalled, List.getElem?_concat_length, hle,
        hring.free _ (Nat.le_refl _) hroom⟩
    · simp only [MpscQueue.goto, Function.update_of_ne hthread] at howned
      have hclaimed := hring.claimed owner other value pos howned
      exact { hclaimed with claimed := hclaims hclaimed.claimed }
  · intro owner other value pos hphase
    by_cases hthread : owner = thread
    · subst hthread
      simp [MpscQueue.goto] at hphase
    · simp only [MpscQueue.goto, Function.update_of_ne hthread] at hphase
      exact hring.stored owner other value pos hphase
  · intro value hvalue
    obtain ⟨other, hother, heq⟩ := hring.carried value hvalue
    exact ⟨other, hclaims hother, heq⟩
  · intro pos hpos
    obtain ⟨hlt, hpublished⟩ := hring.published pos hpos
    refine ⟨?_, hpublished⟩
    simp only [List.length_append, List.length_singleton]
    omega
  · intro other hother
    exact List.mem_append_left _ (hring.moved other hother)

/-- The value of a claimed position is moved into its slot. -/
theorem Ring.moveData (hring : q.Ring capacity) (hcounters : q.Counters capacity)
    {thread call pos : Nat} {item : T}
    (hphase : q.producers thread = .moveData call item pos) :
    Ring capacity { q.goto thread (.publish call item pos) with
      data := Function.update q.data (capacity.slot pos) (some item)
      moved := q.moved ++ [call] } := by
  have hclaimed := hring.claimed thread call item pos
    (by rw [hphase, ProducerPhase.owned])
  have hle := hcounters.claims_le
  have howned : ∀ other,
      ((q.goto thread (.publish call item pos)).producers other).owned =
        (q.producers other).owned :=
    goto_congr ProducerPhase.owned (by rw [hphase]; rfl)
  have hdata : ∀ other, q.popped.length ≤ other → other < q.claims.length →
      other ≠ pos → Function.update q.data (capacity.slot pos) (some item)
        (capacity.slot other) = q.data (capacity.slot other) := by
    intro other hother hlt hne
    exact Function.update_of_ne (hcounters.slot_ne hclaimed.later hclaimed.lt hother
      (by omega) hne) _ _
  refine { hring with held := ?_, claimed := ?_, stored := ?_, moved := ?_ }
  · intro other call' hother hcall
    obtain ⟨hsequence, hvalue⟩ | ⟨owner, value, howner⟩ :=
      hring.held other call' hother hcall
    · have hne : other ≠ pos := by
        rintro rfl
        have := hclaimed.unpublished
        omega
      have hlt := (List.getElem?_eq_some_iff.mp hcall).1
      refine .inl ⟨hsequence, hvalue.imp ?_ id⟩
      exact fun heq => (hdata other hother hlt hne).trans heq
    · exact .inr ⟨owner, value, (howned owner).trans howner⟩
  · intro owner call' value other howner
    rw [howned] at howner
    exact { hring.claimed owner call' value other howner with }
  · intro owner call' value other howner
    by_cases hthread : owner = thread
    · subst hthread
      simp only [MpscQueue.goto, Function.update_self,
        ProducerPhase.publish.injEq] at howner
      obtain ⟨rfl, rfl, rfl⟩ := howner
      exact Function.update_self ..
    · simp only [MpscQueue.goto, Function.update_of_ne hthread] at howner
      have hother := hring.claimed owner call' value other
        (by rw [howner, ProducerPhase.owned])
      exact (hdata other hother.later hother.lt (hclaimed.ne hother hthread)).trans
        (hring.stored owner call' value other howner)
  · intro other hother
    obtain hold | hnew := List.mem_append.mp hother
    · exact hring.moved other hold
    · rw [List.mem_singleton.mp hnew]
      exact List.mem_of_getElem? hclaimed.claimed

/-- A position is published. -/
theorem Ring.publish (hring : q.Ring capacity) (hcounters : q.Counters capacity)
    {thread call pos : Nat} {item : T}
    (hphase : q.producers thread = .publish call item pos) :
    Ring capacity { q.goto thread .idle with
      sequence := Function.update q.sequence (capacity.slot pos) (pos + 1)
      published := q.published ++ [pos] } := by
  have hclaimed := hring.claimed thread call item pos
    (by rw [hphase, ProducerPhase.owned])
  have hle := hcounters.claims_le
  have hsequence : ∀ other, q.popped.length ≤ other →
      other < q.popped.length + capacity.size → other ≠ pos →
      Function.update q.sequence (capacity.slot pos) (pos + 1)
        (capacity.slot other) = q.sequence (capacity.slot other) := by
    intro other hother hlt hne
    exact Function.update_of_ne
      (hcounters.slot_ne hclaimed.later hclaimed.lt hother hlt hne) _ _
  refine { hring with
    free := ?_, held := ?_, claimed := ?_, stored := ?_, taken := ?_,
    published := ?_ }
  · intro other hother hlt
    have hpos := hclaimed.lt
    have hpopped := hcounters.popped_le
    refine (hsequence other (Nat.le_trans hpopped hother) hlt ?_).trans
      (hring.free other hother hlt)
    rintro rfl
    exact absurd hpos (Nat.not_lt.mpr hother)
  · intro other call' hother hcall
    by_cases hne : other = pos
    · subst hne
      obtain rfl : call = call' := Option.some.inj
          (hclaimed.claimed.symm.trans hcall)
      refine .inl ⟨Function.update_self .., .inl ?_⟩
      refine (hring.stored thread call item other hphase).trans ?_
      change some item = (q.calls[call]?).map Prod.snd
      rw [hclaimed.called]
      rfl
    · have hlt : other < q.claims.length := (List.getElem?_eq_some_iff.mp hcall).1
      obtain ⟨hpublished, hvalue⟩ | ⟨owner, value, howner⟩ :=
        hring.held other call' hother hcall
      · exact .inl ⟨(hsequence other hother (by omega) hne).trans hpublished, hvalue⟩
      · refine .inr ⟨owner, value, ?_⟩
        have hthread : owner ≠ thread := by
          rintro rfl
          simp only [hphase, ProducerPhase.owned, Option.some.injEq,
            Prod.mk.injEq] at howner
          exact hne howner.2.2.symm
        simp only [MpscQueue.goto, Function.update_of_ne hthread]
        exact howner
  · intro owner call' value other howner
    by_cases hthread : owner = thread
    · subst hthread
      simp [MpscQueue.goto, ProducerPhase.owned] at howner
    · simp only [MpscQueue.goto, Function.update_of_ne hthread] at howner
      have hother := hring.claimed owner call' value other howner
      have hlt := hother.lt
      exact { hother with
        unpublished := (hsequence other hother.later (by omega)
          (hclaimed.ne hother hthread)).trans hother.unpublished }
  · intro owner call' value other howner
    by_cases hthread : owner = thread
    · subst hthread
      simp [MpscQueue.goto] at howner
    · simp only [MpscQueue.goto, Function.update_of_ne hthread] at howner
      exact hring.stored owner call' value other howner
  · intro htaking
    have htaken := hring.taken htaking
    have hsize := capacity.two_le_size
    refine (hsequence q.popped.length (Nat.le_refl _) (by omega) ?_).trans htaken
    rintro rfl
    have := hclaimed.unpublished
    omega
  · intro other hother
    have hlt : other < q.claims.length := by
      obtain hold | hnew := List.mem_append.mp hother
      · exact (hring.published other hold).1
      · rw [List.mem_singleton.mp hnew]
        exact hclaimed.lt
    refine ⟨hlt, ?_⟩
    intro hpopped
    by_cases hne : other = pos
    · rw [hne]
      exact Function.update_self ..
    · obtain hold | hnew := List.mem_append.mp hother
      · exact (hsequence other hpopped (by omega) hne).trans
          ((hring.published other hold).2 hpopped)
      · exact absurd (List.mem_singleton.mp hnew) hne

/-- A step of the consumer that touches no slot. -/
theorem Ring.setConsumer (hring : q.Ring capacity) (phase : ConsumerPhase T)
    (hold : ∀ item, q.consumer ≠ .release item)
    (hnew : ∀ item, phase ≠ .release item)
    (htaken : phase = .moveData →
      q.sequence (capacity.slot q.popped.length) = q.popped.length + 1) :
    Ring capacity { q with consumer := phase } := by
  refine { hring with held := ?_, claimed := ?_, taken := ?_, carried := ?_ }
  · intro pos call hpos hcall
    refine (hring.held pos call hpos hcall).imp (And.imp_right ?_) id
    rintro (hdata | ⟨-, hrelease⟩)
    · exact .inl hdata
    · exact absurd hrelease (hold _)
  · intro thread call item pos howned
    exact { hring.claimed thread call item pos howned with }
  · rintro (hmove | ⟨item, hrelease⟩)
    · exact htaken hmove
    · exact absurd hrelease (hnew item)
  · intro item hrelease
    exact absurd hrelease (hnew item)

/-- The next position to be taken out, once it is published. -/
theorem Ring.next_published (hring : q.Ring capacity)
    (hsequence : q.sequence (capacity.slot q.popped.length) = q.popped.length + 1) :
    ∃ call, q.claims[q.popped.length]? = some call ∧
      (q.data (capacity.slot q.popped.length) = q.item call ∨
        q.consumer = .release (q.item call)) := by
  have hsize := capacity.two_le_size
  have hlt : q.popped.length < q.claims.length := by
    by_contra hle
    have hfree := hring.free q.popped.length (by omega) (by omega)
    omega
  have hcall := List.getElem?_eq_getElem hlt
  refine ⟨_, hcall, ?_⟩
  obtain ⟨-, hvalue⟩ | ⟨thread, item, howned⟩ :=
    hring.held q.popped.length _ (Nat.le_refl _) hcall
  · exact hvalue.imp id And.right
  · have := (hring.claimed thread _ item _ howned).unpublished
    omega

/-- The consumer moves the value out of its slot. -/
theorem Ring.take (hring : q.Ring capacity) (hcounters : q.Counters capacity)
    (hphase : q.consumer = .moveData) :
    Ring capacity { q with
      consumer := .release (q.data (capacity.slot q.popped.length))
      data := Function.update q.data (capacity.slot q.popped.length) none } := by
  have htaken := hring.taken (.inl hphase)
  obtain ⟨next, hnext, hvalue⟩ := hring.next_published htaken
  have hdata : q.data (capacity.slot q.popped.length) = q.item next := by
    simpa [hphase] using hvalue
  have hlt := (List.getElem?_eq_some_iff.mp hnext).1
  have hle := hcounters.claims_le
  have hkept : ∀ other, q.popped.length ≤ other → other < q.claims.length →
      other ≠ q.popped.length →
      Function.update q.data (capacity.slot q.popped.length) none
        (capacity.slot other) = q.data (capacity.slot other) := by
    intro other hother hotherlt hne
    exact Function.update_of_ne
      (hcounters.slot_ne (Nat.le_refl _) hlt hother (by omega) hne) _ _
  refine { hring with
    held := ?_, claimed := ?_, stored := ?_, taken := fun _ => htaken,
      carried := ?_ }
  · intro pos call hpos hcall
    by_cases hne : pos = q.popped.length
    · subst hne
      obtain rfl : next = call := Option.some.inj (hnext.symm.trans hcall)
      exact .inl ⟨htaken, .inr ⟨rfl, congrArg _ hdata⟩⟩
    · have hposlt := (List.getElem?_eq_some_iff.mp hcall).1
      refine (hring.held pos call hpos hcall).imp (And.imp_right ?_) id
      rintro (heq | ⟨heq, -⟩)
      · exact .inl ((hkept pos hpos hposlt hne).trans heq)
      · exact absurd heq hne
  · intro thread call item pos howned
    exact { hring.claimed thread call item pos howned with }
  · intro thread call item pos howner
    have hclaimed := hring.claimed thread call item pos
      (by rw [howner, ProducerPhase.owned])
    refine (hkept pos hclaimed.later hclaimed.lt ?_).trans
      (hring.stored thread call item pos howner)
    rintro rfl
    have := hclaimed.unpublished
    omega
  · intro item hitem
    exact ⟨next, hnext, (ConsumerPhase.release.inj hitem).symm.trans hdata⟩

/-- The consumer gives its slot free for the next lap. -/
theorem Ring.release (hring : q.Ring capacity) (hcounters : q.Counters capacity)
    {item : Option T} (hphase : q.consumer = .release item) :
    Ring capacity { q with
      consumer := .advance item
      sequence := Function.update q.sequence (capacity.slot q.popped.length)
        (q.popped.length + capacity.size)
      popped := q.popped ++ [item] } := by
  have htaken := hring.taken (.inr ⟨item, hphase⟩)
  obtain ⟨next, hnext, hitem⟩ := hring.carried item hphase
  have hlt := (List.getElem?_eq_some_iff.mp hnext).1
  have hle := hcounters.claims_le
  have hkept : ∀ other, q.popped.length + 1 ≤ other →
      other < q.popped.length + capacity.size →
      Function.update q.sequence (capacity.slot q.popped.length)
        (q.popped.length + capacity.size) (capacity.slot other) =
          q.sequence (capacity.slot other) := by
    intro other hother hotherlt
    exact Function.update_of_ne
      (hcounters.slot_ne (Nat.le_refl _) hlt (by omega) hotherlt (by omega)) _ _
  have hlength : (q.popped ++ [item]).length = q.popped.length + 1 :=
    List.length_append
  refine { hring with
    values := ?_, free := ?_, held := ?_, claimed := ?_, taken := ?_,
    carried := nofun, published := ?_ }
  · have htake : q.claims.take (q.popped.length + 1) =
        q.claims.take q.popped.length ++ [next] := by
      rw [List.take_add_one, hnext]
      rfl
    calc
      q.popped ++ [item] =
          (q.claims.take q.popped.length).map q.item ++ [q.item next] := by
        rw [← hring.values, hitem]
      _ = (q.claims.take (q.popped ++ [item]).length).map q.item := by
        rw [hlength, htake, List.map_append, List.map_singleton]
  · intro pos hpos hposlt
    simp only [hlength] at hposlt
    by_cases hlast : pos = q.popped.length + capacity.size
    · rw [hlast, capacity.slot_add_size]
      exact Function.update_self ..
    · have hnext : q.claims.length ≤ pos := hpos
      exact (hkept pos (by omega) (by omega)).trans (hring.free pos hpos (by omega))
  · intro pos call hpos hcall
    simp only [hlength] at hpos
    have hposlt : pos < q.claims.length := (List.getElem?_eq_some_iff.mp hcall).1
    obtain ⟨hsequence, hdata | ⟨heq, -⟩⟩ | howned :=
      hring.held pos call (by omega) hcall
    · exact .inl ⟨(hkept pos hpos (by omega)).trans hsequence, .inl hdata⟩
    · omega
    · exact .inr howned
  · intro thread call value pos howned
    have hclaimed := hring.claimed thread call value pos howned
    have hposlt := hclaimed.lt
    have hlater : q.popped.length + 1 ≤ pos := by
      have hne : pos ≠ q.popped.length := by
        rintro rfl
        have := hclaimed.unpublished
        omega
      have := hclaimed.later
      omega
    exact { hclaimed with
      later := by simpa only [hlength] using hlater
      unpublished := (hkept pos hlater (by omega)).trans hclaimed.unpublished }
  · rintro (hmove | ⟨value, hrelease⟩)
    · cases hmove
    · cases hrelease
  · intro pos hpos
    obtain ⟨hposlt, hpublished⟩ := hring.published pos hpos
    refine ⟨hposlt, ?_⟩
    intro hlater
    simp only [hlength] at hlater
    exact (hkept pos hlater (by omega)).trans (hpublished (by omega))

/-- The ring does not speak of the two positions. -/
theorem Ring.setPositions (hring : q.Ring capacity)
    (enqueuePos dequeuePos pops : Nat)
    (rejected : List (Nat × Nat)) {misses : List Bool}
    (hmissed : ∀ published ∈ misses, published = false) :
    Ring capacity { q with
      enqueuePos := enqueuePos, dequeuePos := dequeuePos, pops := pops,
      rejected := rejected, misses := misses } :=
  { hring with
    missed := hmissed
    claimed := fun thread call item pos howned =>
      { hring.claimed thread call item pos howned with } }

end Ring

end MpscQueue

end UltraNet
