/-
The work-stealing deque whose calls come one after the other is the one of several
threads: each call is a run of its own thread in which nobody else moves, and such
runs are undisturbed.
-/
import UltraNet.SequentialDeque
import UltraNet.WorkStealing

namespace UltraNet

variable {T : Type}

/-- The moves of a call of so many steps; a thread of the others steals. -/
def QueueCall.moves (thread count : Nat) : QueueCall T → List (DequeMove T)
  | .push item => .push item :: List.replicate count .owner
  | .pop => .pop :: List.replicate count .owner
  | .steal => List.replicate count (.thief thread)

/-- The moves of calls that come one after the other. -/
def QueueCall.serial (thread : Nat) (counts : List Nat) (calls : List (QueueCall T)) :
    List (DequeMove T) :=
  (List.zipWith (QueueCall.moves thread) counts calls).flatten

namespace WorkStealingQueue

/-- What the calls return, one after the other, and the queue behind them.  A `push`
that throws leaves the queue to the next call. -/
def calls (heap : ArrayHeap) (q : WorkStealingQueue T) :
    List (QueueCall T) → Except QueueFault (List (Option T) × WorkStealingQueue T)
  | [] => .ok ([], q)
  | call :: rest =>
      match q.call heap call with
      | .ok (result, next) => do
          let (results, last) ← next.calls heap rest
          return (result.toList ++ results, last)
      | .error .badAlloc => q.calls heap rest
      | .error .outside => .error .outside

end WorkStealingQueue

/-- The cells of a buffer are the slots of the array. -/
structure CircularBuffer.Lies (buf : CircularBuffer) (cells : List (Option T))
    (slots : WorkStealingQueue.Buffer T) : Prop where
  capacity : buf.capacity = slots.capacity
  inside : buf.base + buf.capacity ≤ cells.length
  slot : ∀ p < buf.capacity, slotAt cells (buf.base + p) = slotAt slots.slots p

namespace CircularBuffer.Lies

variable {buf : CircularBuffer} {cells : List (Option T)}
  {slots next : WorkStealingQueue.Buffer T} {index : Int} {item : Option T}

theorem address_eq (hlies : buf.Lies cells slots) (index : Int) :
    buf.address index = buf.base + slots.address index := by
  rw [CircularBuffer.address, CircularBuffer.mask, hlies.capacity]
  rfl

/-- A cell of another buffer changes. -/
theorem beside (hlies : buf.Lies cells slots) {p : Nat}
    (hp : p < buf.base ∨ buf.base + buf.capacity ≤ p) (item : Option T) :
    buf.Lies (cells.set p item) slots := by
  refine ⟨hlies.capacity, by rw [List.length_set]; exact hlies.inside, ?_⟩
  intro i hi
  rw [← hlies.slot i hi]
  unfold slotAt
  rw [List.getElem?_set_ne (by omega)]

theorem setSlot (hlies : buf.Lies cells slots) {p : Nat} (hp : p < buf.capacity)
    (item : Option T) : buf.Lies (cells.set (buf.base + p) item) (slots.setSlot p item) := by
  refine ⟨hlies.capacity, by rw [List.length_set]; exact hlies.inside, ?_⟩
  intro i hi
  have hinside := hlies.inside
  have hsized : p < slots.slots.length := by
    rw [slots.sized, ← hlies.capacity]
    exact hp
  show _ = slotAt (slots.slots.set p item) i
  rw [slotAt_set _ _ _ _ (by omega), slotAt_set _ _ _ _ hsized, hlies.slot i hi]
  simp only [Nat.add_left_cancel_iff]

theorem put (hlies : buf.Lies cells slots) (hput : slots.put index item = .ok next) :
    buf.address index < buf.base + buf.capacity ∧
      buf.Lies (cells.set (buf.address index) item) next := by
  unfold WorkStealingQueue.Buffer.put at hput
  split at hput
  case isFalse => cases hput
  case isTrue hlt =>
    obtain rfl := Except.ok.inj hput
    rw [hlies.address_eq, hlies.capacity]
    rw [← hlies.capacity] at hlt
    exact ⟨by rw [← hlies.capacity]; omega, hlies.setSlot hlt item⟩

theorem get (hlies : buf.Lies cells slots) (hget : slots.get index = .ok (item, next)) :
    buf.address index < buf.base + buf.capacity ∧ item = slotAt cells (buf.address index) ∧
      buf.Lies (cells.set (buf.address index) none) next := by
  unfold WorkStealingQueue.Buffer.get at hget
  split at hget
  case isFalse => cases hget
  case isTrue hlt =>
    obtain ⟨rfl, rfl⟩ := Prod.mk.inj (Except.ok.inj hget)
    rw [← hlies.capacity] at hlt
    rw [hlies.address_eq]
    exact ⟨by omega, (hlies.slot _ hlt).symm, hlies.setSlot hlt none⟩

/-- New cells come behind the old ones. -/
theorem vacant (cells : List (Option T)) (size : Nat) :
    CircularBuffer.Lies ⟨cells.length, size⟩ (cells ++ List.replicate size none)
      (WorkStealingQueue.Buffer.vacant T size) := by
  refine ⟨rfl, by simp, ?_⟩
  intro i hi
  show slotAt _ (cells.length + i) = slotAt (List.replicate size none) i
  unfold slotAt
  rw [List.getElem?_append_right (Nat.le_add_right ..), Nat.add_sub_cancel_left]

theorem extend (hlies : buf.Lies cells slots) (count : Nat) :
    buf.Lies (cells ++ List.replicate count none) slots := by
  refine ⟨hlies.capacity, ?_, ?_⟩
  · rw [List.length_append]
    exact hlies.inside.trans (Nat.le_add_right ..)
  · intro i hi
    rw [slotAt_append_replicate, hlies.slot i hi]

end CircularBuffer.Lies

namespace Deque

open WorkStealingQueue (Buffer)

/-- The deque is between two calls, with what the queue holds. -/
structure Shows (s : Deque T) (q : WorkStealingQueue T) : Prop where
  top : s.top = q.top
  bottom : s.bottom = q.bottom
  cells : s.buffer.Lies s.cells q.buffer
  quiet : s.Quiet

/-- An undisturbed run from one state to another. -/
abbrev Goes (heap : ArrayHeap) (capacity thieves : Nat) (s : Deque T)
    (word : List (DequeMove T)) (last : Deque T) : Prop :=
  (machine heap capacity thieves).Leads (fun s move => s.undisturbed move = true) s word last

variable {heap : ArrayHeap} {capacity thieves thread : Nat} {s last : Deque T}
  {q next : WorkStealingQueue T} {old new final : Buffer T} {first : Nat} {items : List T}
  {item : T} {b i : Int}

/-- No thief is in a call. -/
def Alone (s : Deque T) : Prop := ∀ thief ∈ s.thieves, thief = .idle

theorem Alone.not_won (halone : s.Alone) (p : Nat) : s.won p = false := by
  rw [won, List.any_eq_false]
  intro thief hthief
  rw [halone thief hthief]
  simp [Thief.won]

/-- A step of the owner, alone. -/
theorem Goes.owner {word : List (DequeMove T)} {middle : Deque T} (halone : s.Alone)
    (hstep : s.ownerStep heap = some middle)
    (hrest : middle.Goes heap capacity thieves word last) :
    s.Goes heap capacity thieves (.owner :: word) last := by
  refine .cons ?_ hstep hrest
  simp only [undisturbed, halone.not_won]
  split
  · simp
  · rfl
  · rfl

/-- A step of a thief, with the owner in no call. -/
theorem Goes.thief {word : List (DequeMove T)} {middle : Deque T} {thief : Thief}
    (howner : s.owner = .idle) (hthief : s.thieves[thread]? = some thief)
    (hbuffer : ∀ t buf, thief = .cas t buf → buf = s.buffer)
    (hstep : s.thiefStep thread thief = middle)
    (hrest : middle.Goes heap capacity thieves word last) :
    s.Goes heap capacity thieves (.thief thread :: word) last := by
  have hmoved : (machine heap capacity thieves).step s (.thief thread) = some middle := by
    simp only [machine, step, hthief, Option.map_some, hstep]
  refine .cons ?_ hmoved hrest
  simp only [undisturbed, hthief]
  split
  · rename_i t buf heq
    have hsame := hbuffer t buf (Option.some.inj heq)
    simp [home, howner, hsame]
  · rfl

/-- The loop of `resize` moves the cells as it moves the slots. -/
theorem moveItems_goes (heap : ArrayHeap) (capacity thieves : Nat)
    {source target : CircularBuffer} {count : Nat} (halone : s.Alone)
    (howner : s.owner = .resize item b source target i) (hcount : b - i = count)
    (hsource : source.Lies s.cells old) (htarget : target.Lies s.cells new)
    (hapart : source.base + source.capacity ≤ target.base)
    (hmove : Buffer.moveItems old new i count = .ok final) :
    ∃ cells, target.Lies cells final ∧
      s.Goes heap capacity thieves (List.replicate count .owner)
        { s with cells := cells, owner := .resize item b source target b } := by
  induction count generalizing s i old new with
  | zero =>
      obtain rfl : i = b := by omega
      obtain rfl := Except.ok.inj hmove
      refine ⟨s.cells, htarget, ?_⟩
      rw [← howner]
      exact .nil ..
  | succ count ih =>
      rw [Buffer.moveItems] at hmove
      cases hget : old.get i with
      | error => rw [hget] at hmove; cases hmove
      | ok found =>
          obtain ⟨moved, old'⟩ := found
          rw [WorkStealingQueue.bind_ok hget] at hmove
          cases hput : new.put i moved with
          | error => simp only [hput] at hmove; cases hmove
          | ok new' =>
              simp only [WorkStealingQueue.bind_ok hput] at hmove
              obtain ⟨hbelow, rfl, hsource'⟩ := hsource.get hget
              have htarget' := htarget.beside (.inl (hbelow.trans_le hapart)) none
              obtain ⟨-, htarget'⟩ := htarget'.put hput
              have habove : source.base + source.capacity ≤ target.address i :=
                hapart.trans (Nat.le_add_right ..)
              have hstep : s.ownerStep heap = some
                  { s.moveSlot (source.address i) (target.address i) with
                    owner := .resize item b source target (i + 1) } := by
                simp only [ownerStep, howner]
                rw [if_pos (by omega)]
              obtain ⟨cells, hcells, hgoes⟩ := ih
                (s := { s.moveSlot (source.address i) (target.address i) with
                  owner := .resize item b source target (i + 1) })
                halone rfl (by omega) (hsource'.beside (.inr habove) _) htarget' hmove
              exact ⟨cells, hcells, .owner halone hstep hgoes⟩

/-- The check of `push` finds the ring full as `makeRoom` does. -/
theorem Shows.isFull_eq (hshows : s.Shows q) (hstores : q.Stores first items) :
    s.isFull s.bottom s.top = decide ((q.bottom - q.top).toNat ≥ q.buffer.mask) := by
  have hroom := hstores.room
  have hsmall := hstores.regular.2
  have hmask : s.buffer.mask = q.buffer.mask := by
    rw [CircularBuffer.mask, hshows.cells.capacity]
    rfl
  rw [isFull, hshows.top, hshows.bottom, hmask, hstores.top, hstores.bottom]
  have hsize : ((first + items.length : Nat) - (first : Int)) % 2 ^ 64 =
      (first + items.length : Nat) - (first : Int) := by
    refine Int.emod_eq_of_lt ?_ ?_ <;> omega
  rw [hsize]

theorem moveItems_ne_badAlloc (old new : Buffer T) (i : Int) (count : Nat) :
    Buffer.moveItems old new i count ≠ .error .badAlloc := by
  induction count generalizing old new i with
  | zero => rintro ⟨⟩
  | succ count ih =>
      rw [Buffer.moveItems, Buffer.get]
      by_cases hget : old.address i < old.capacity
      · rw [if_pos hget, WorkStealingQueue.bind_ok rfl]
        dsimp only
        rw [Buffer.put]
        by_cases hput : new.address i < new.capacity
        · rw [if_pos hput, WorkStealingQueue.bind_ok rfl]
          exact ih _ _ _
        · rw [if_neg hput]
          rintro ⟨⟩
      · rw [if_neg hget]
        rintro ⟨⟩

/-- `push` makes room, or throws. -/
theorem makeRoom_goes (heap : ArrayHeap) (capacity thieves : Nat) (halone : s.Alone)
    (howner : s.owner = .pushBuffer item s.bottom s.top)
    (htop : s.top = q.top) (hbottom : s.bottom = q.bottom)
    (hcells : s.buffer.Lies s.cells q.buffer)
    (hfull : s.isFull s.bottom s.top = decide ((q.bottom - q.top).toNat ≥ q.buffer.mask))
    (hle : q.top ≤ q.bottom) :
    (q.makeRoom heap = .error .badAlloc →
        s.Goes heap capacity thieves [.owner]
          { s with owner := .idle, refused := s.refused ++ [item] }) ∧
      ∀ buffer, q.makeRoom heap = .ok buffer → ∃ count buf cells, buf.Lies cells buffer ∧
        s.Goes heap capacity thieves (List.replicate count .owner)
          { s with buffer := buf, cells := cells, owner := .pushPut item s.bottom buf } := by
  rw [WorkStealingQueue.makeRoom]
  by_cases hroom : (q.bottom - q.top).toNat ≥ q.buffer.mask
  case neg =>
    rw [if_neg hroom]
    constructor
    · rintro ⟨⟩
    rintro buffer ⟨⟩
    refine ⟨1, s.buffer, s.cells, hcells, .owner halone ?_ (.nil ..)⟩
    simp only [ownerStep, howner, hfull, hroom, decide_false, Bool.false_eq_true, if_false]
  case pos =>
    rw [if_pos hroom, Buffer.resize, Buffer.make, ← hcells.capacity]
    cases hheap : heap.allocates (s.buffer.capacity * 2 % 2 ^ 64) with
    | false =>
        constructor
        · intro _
          refine .owner halone ?_ (.nil ..)
          simp only [ownerStep, howner, hfull, hroom, decide_true, if_true, hheap,
            Bool.false_eq_true, if_false]
        · rintro buffer ⟨⟩
    | true =>
        refine ⟨fun hthrown => (moveItems_ne_badAlloc _ _ _ _ hthrown).elim, ?_⟩
        intro buffer hmove
        set size := s.buffer.capacity * 2 % 2 ^ 64 with hsize
        set grown : Deque T := { s with
          cells := s.cells ++ List.replicate size none,
          owner := .resize item s.bottom s.buffer ⟨s.cells.length, size⟩ s.top } with hgrown
        have hstep : s.ownerStep heap = some grown := by
          simp only [ownerStep, howner, hfull, hroom, decide_true, if_true, ← hsize, hheap, hgrown]
        have hmove' : Buffer.moveItems q.buffer (Buffer.vacant T size) s.top
            (q.bottom - q.top).toNat = .ok buffer := by
          rw [htop]
          exact hmove
        obtain ⟨cells, hlies, hgoes⟩ := moveItems_goes heap capacity thieves (s := grown)
          halone rfl (by omega) (hcells.extend size)
          (CircularBuffer.Lies.vacant s.cells size) hcells.inside hmove'
        refine ⟨1 + ((q.bottom - q.top).toNat + 1), ⟨s.cells.length, size⟩, cells, hlies, ?_⟩
        rw [List.replicate_add, List.replicate_add]
        refine Goes.owner halone hstep (hgoes.append (Goes.owner halone ?_ (.nil ..)))
        simp only [ownerStep, Int.lt_irrefl, if_false, hgrown]

theorem push_goes (heap : ArrayHeap) (capacity thieves : Nat) (hshows : s.Shows q)
    (hstores : q.Stores first items) (item : T) :
    (q.push heap item = .error .badAlloc → ∃ count, s.Goes heap capacity thieves
        (.push item :: List.replicate count .owner)
        { s with pushed := s.pushed ++ [item], refused := s.refused ++ [item] }) ∧
      ∀ next, q.push heap item = .ok next → ∃ count buf cells,
        buf.Lies cells next.buffer ∧ next.top = q.top ∧ next.bottom = q.bottom + 1 ∧
        s.Goes heap capacity thieves (.push item :: List.replicate count .owner)
          { s with
            buffer := buf, cells := cells, bottom := s.bottom + 1,
            pushed := s.pushed ++ [item] } := by
  obtain ⟨hidle, halone⟩ := hshows.quiet
  have htop := hshows.top
  have hbottom := hshows.bottom
  set called : Deque T := { s with
    pushed := s.pushed ++ [item], owner := .pushBuffer item s.bottom s.top } with hcalled
  have hcall : ∀ {word last}, called.Goes heap capacity thieves word last →
      s.Goes heap capacity thieves (.push item :: .owner :: word) last := by
    intro word last hrest
    have hbegun : (machine heap capacity thieves).step s (.push item) = some
        { s with pushed := s.pushed ++ [item], owner := .pushTop item s.bottom } := by
      simp only [machine, step, hidle]
    exact .cons rfl hbegun (Goes.owner halone rfl hrest)
  have hle : q.top ≤ q.bottom := by
    rw [hstores.top, hstores.bottom]
    omega
  obtain ⟨hthrows, hroom⟩ := makeRoom_goes heap capacity thieves (s := called)
    halone rfl htop hbottom hshows.cells
    (hshows.isFull_eq hstores) hle
  have hpush : q.push heap item = q.makeRoom heap >>= fun buffer =>
      buffer.put q.bottom (some item) >>= fun buffer => .ok ⟨q.top, q.bottom + 1, buffer⟩ := rfl
  rw [hpush]
  cases hmake : q.makeRoom heap with
  | error fault =>
      constructor
      · rintro ⟨⟩
        refine ⟨2, hcall ?_⟩
        have hgoes := hthrows hmake
        rwa [hcalled, ← hidle] at hgoes
      · rintro next ⟨⟩
  | ok buffer =>
      obtain ⟨count, buf, cells, hlies, hgoes⟩ := hroom buffer hmake
      rw [WorkStealingQueue.bind_ok rfl]
      cases hput : buffer.put q.bottom (some item) with
      | error fault =>
          constructor
          · rintro ⟨⟩
            unfold Buffer.put at hput
            split at hput <;> cases hput
          · rintro next ⟨⟩
      | ok stored =>
          constructor
          · rintro ⟨⟩
          rintro next ⟨⟩
          rw [← hbottom] at hput
          obtain ⟨hbelow, hstored⟩ := hlies.put hput
          refine ⟨1 + (count + 2), buf, _, hstored, rfl, rfl, ?_⟩
          rw [List.replicate_add, List.replicate_add]
          have hfilled : ownerStep heap { called with
              buffer := buf, cells := cells, owner := .pushPut item s.bottom buf } = some
              { called with
                buffer := buf, cells := cells.set (buf.address s.bottom) (some item),
                owner := .pushBottom s.bottom } := by
            simp only [ownerStep, hbelow, if_true]
          refine hcall (hgoes.append (Goes.owner halone hfilled (Goes.owner halone ?_ (.nil ..))))
          simp only [ownerStep, hcalled, hidle]

theorem pop_goes (heap : ArrayHeap) (capacity thieves : Nat) (hshows : s.Shows q)
    {result : Option (Option T)} (hpop : q.pop = .ok (result, next)) :
    ∃ count cells, s.buffer.Lies cells next.buffer ∧
      s.Goes heap capacity thieves (.pop :: List.replicate count .owner)
        { s with
          top := next.top, bottom := next.bottom, cells := cells,
          returned := s.returned ++ result.toList } := by
  obtain ⟨hidle, halone⟩ := hshows.quiet
  set b := s.bottom - 1 with hb
  have hcall : ∀ {word last},
      Goes heap capacity thieves { s with bottom := b, owner := .popTop b s.buffer } word last →
      s.Goes heap capacity thieves (.pop :: .owner :: .owner :: word) last := by
    intro word last hrest
    have hbegun : (machine heap capacity thieves).step s .pop = some
        { s with owner := .popBuffer b } := by
      simp only [machine, step, hidle, ← hb]
    exact .cons rfl hbegun (Goes.owner halone rfl (Goes.owner halone rfl hrest))
  have hgets : ∀ {item buffer} (top : Int), q.buffer.get b = .ok (item, buffer) →
      s.buffer.Lies (s.cells.set (s.buffer.address b) none) buffer ∧
      ∀ bottom, ownerStep heap { s with
          top := top, bottom := bottom, owner := .popGet b s.buffer } = some
        { s with
          top := top, bottom := bottom, cells := s.cells.set (s.buffer.address b) none,
          returned := s.returned ++ [item] } := by
    intro item buffer top hget
    obtain ⟨-, rfl, hlies⟩ := hshows.cells.get hget
    refine ⟨hlies, fun bottom => ?_⟩
    simp only [ownerStep, takeSlot, hidle]
  rw [WorkStealingQueue.pop, ← hshows.top, ← hshows.bottom, ← hb] at hpop
  dsimp only at hpop
  by_cases hsome : s.top ≤ b
  case neg =>
    rw [if_neg hsome] at hpop
    obtain ⟨rfl, rfl⟩ := Prod.mk.inj (Except.ok.inj hpop)
    have hempty : ownerStep heap { s with bottom := b, owner := .popTop b s.buffer } = some
        { s with bottom := b, owner := .popRestore b } := by
      simp only [ownerStep, if_neg hsome]
    refine ⟨4, s.cells, hshows.cells,
      hcall (Goes.owner halone hempty (Goes.owner halone ?_ (.nil ..)))⟩
    simp only [ownerStep, hidle, hshows.top, Option.toList_none, List.append_nil]
  case pos =>
    rw [if_pos hsome] at hpop
    cases hget : q.buffer.get b with
    | error => rw [hget] at hpop; cases hpop
    | ok found =>
        obtain ⟨item, buffer⟩ := found
        rw [WorkStealingQueue.bind_ok hget] at hpop
        by_cases hlast : s.top = b
        · -- the last one is won by the compare-exchange
          simp only [if_pos hlast] at hpop
          obtain ⟨rfl, rfl⟩ := Prod.mk.inj (Except.ok.inj hpop)
          obtain ⟨hlies, htaken⟩ := hgets (s.top + 1) hget
          have hcas : ownerStep heap { s with bottom := b, owner := .popTop b s.buffer } = some
              { s with bottom := b, owner := .popCas b s.buffer } := by
            simp only [ownerStep, if_pos hsome, if_pos hlast]
          have hwon : ownerStep heap { s with bottom := b, owner := .popCas b s.buffer } = some
              { s with top := s.top + 1, bottom := b, owner := .popWon b s.buffer } := by
            simp only [ownerStep, ← hlast, if_true]
          exact ⟨6, _, hlies, hcall (Goes.owner halone hcas (Goes.owner halone hwon
            (Goes.owner halone rfl (Goes.owner halone (htaken (b + 1)) (.nil ..)))))⟩
        · simp only [if_neg hlast] at hpop
          obtain ⟨rfl, rfl⟩ := Prod.mk.inj (Except.ok.inj hpop)
          obtain ⟨hlies, htaken⟩ := hgets s.top hget
          have hread : ownerStep heap { s with bottom := b, owner := .popTop b s.buffer } = some
              { s with bottom := b, owner := .popGet b s.buffer } := by
            simp only [ownerStep, if_pos hsome, if_neg hlast]
          exact ⟨4, _, hlies, hcall (Goes.owner halone hread
            (Goes.owner halone (htaken b) (.nil ..)))⟩

theorem steal_goes (heap : ArrayHeap) (capacity thieves : Nat) (hshows : s.Shows q)
    (hthread : thread < s.thieves.length) {result : Option (Option T)}
    (hsteal : q.steal = .ok (result, next)) :
    next.bottom = q.bottom ∧ ∃ count cells, s.buffer.Lies cells next.buffer ∧
      s.Goes heap capacity thieves (List.replicate count (.thief thread))
        { s with
          top := next.top, cells := cells, returned := s.returned ++ result.toList } := by
  obtain ⟨hidle, halone⟩ := hshows.quiet
  have hnow : s.thieves[thread]? = some .idle := by
    rw [List.getElem?_eq_getElem hthread, halone _ (List.getElem_mem hthread)]
  have hback : s.thieves.set thread .idle = s.thieves := by
    apply List.ext_getElem?
    intro other
    rw [List.getElem?_set]
    split
    · subst_vars
      rw [hnow]
    · rfl
  set t := s.top with ht
  set robbed : Thief → Deque T := fun thief =>
    { s with thieves := s.thieves.set thread thief } with hrobbed
  have hlooks : ∀ thief, (robbed thief).thieves[thread]? = some thief := fun thief =>
    List.getElem?_set_self hthread
  have hcall : ∀ {word last}, (robbed (.loadBottom t)).Goes heap capacity thieves word last →
      s.Goes heap capacity thieves (.thief thread :: word) last := fun hrest =>
    Goes.thief hidle hnow (by simp) rfl hrest
  rw [WorkStealingQueue.steal, ← hshows.top, ← hshows.bottom, ← ht] at hsteal
  dsimp only at hsteal
  by_cases hempty : t ≥ s.bottom
  case pos =>
    rw [if_pos hempty] at hsteal
    obtain ⟨rfl, rfl⟩ := Prod.mk.inj (Except.ok.inj hsteal)
    refine ⟨rfl, 2, s.cells, hshows.cells,
      hcall (Goes.thief hidle (hlooks _) (by simp) ?_ (.nil ..))⟩
    simp only [thiefStep, hrobbed, setThief, if_pos hempty, List.set_set, hback,
      Option.toList_none, List.append_nil, ← hshows.top, ← ht]
  case neg =>
    rw [if_neg hempty] at hsteal
    cases hget : q.buffer.get t with
    | error => rw [hget] at hsteal; cases hsteal
    | ok found =>
        obtain ⟨item, buffer⟩ := found
        rw [WorkStealingQueue.bind_ok hget] at hsteal
        obtain ⟨rfl, rfl⟩ := Prod.mk.inj (Except.ok.inj hsteal)
        obtain ⟨-, rfl, hlies⟩ := hshows.cells.get hget
        have hsees : (robbed (.loadBottom t)).thiefStep thread (.loadBottom t) =
            robbed (.loadBuffer t) := by
          simp only [thiefStep, hrobbed, setThief, if_neg hempty, List.set_set]
        have hloads : (robbed (.loadBuffer t)).thiefStep thread (.loadBuffer t) =
            robbed (.cas t s.buffer) := by
          simp only [thiefStep, hrobbed, setThief, List.set_set]
        have hwins : (robbed (.cas t s.buffer)).thiefStep thread (.cas t s.buffer) =
            { robbed (.get t s.buffer) with top := t + 1 } := by
          simp only [thiefStep, hrobbed, setThief, ← ht, if_true, List.set_set]
        refine ⟨hshows.bottom, 5, _, hlies, hcall (Goes.thief hidle (hlooks _) (by simp) hsees
          (Goes.thief hidle (hlooks _) (by simp) hloads
            (Goes.thief hidle (hlooks _) ?_ hwins
              (Goes.thief hidle (hlooks _) (by simp) ?_ (.nil ..)))))⟩
        · rintro t' buf ⟨⟩
          rfl
        · simp only [thiefStep, takeSlot, hrobbed, setThief, List.set_set, hback,
            Option.toList_some]

/-- A call is a run of its thread that returns what the call returns. -/
theorem call_goes (heap : ArrayHeap) (capacity thieves : Nat) (hshows : s.Shows q)
    (hstores : q.Stores first items) (hthread : thread < s.thieves.length)
    (c : QueueCall T) :
    (q.call heap c = .error .badAlloc → ∃ count last,
        s.Goes heap capacity thieves (c.moves thread count) last ∧ last.Shows q ∧
          last.thieves = s.thieves ∧ last.returned = s.returned) ∧
      ∀ result next, q.call heap c = .ok (result, next) → ∃ count last,
        s.Goes heap capacity thieves (c.moves thread count) last ∧ last.Shows next ∧
          last.thieves = s.thieves ∧ last.returned = s.returned ++ result.toList := by
  have hquiet := hshows.quiet
  cases c with
  | push item =>
      obtain ⟨hthrows, hpushes⟩ := push_goes heap capacity thieves hshows hstores item
      rw [WorkStealingQueue.call]
      cases hpush : q.push heap item with
      | error fault =>
          constructor
          · rintro ⟨⟩
            obtain ⟨count, hgoes⟩ := hthrows hpush
            exact ⟨count, _, hgoes, ⟨hshows.top, hshows.bottom, hshows.cells, hquiet⟩, rfl, rfl⟩
          · rintro result next ⟨⟩
      | ok pushed =>
          constructor
          · rintro ⟨⟩
          rintro result next ⟨⟩
          obtain ⟨count, buf, cells, hlies, htop, hbottom, hgoes⟩ := hpushes pushed hpush
          refine ⟨count, _, hgoes, ⟨hshows.top.trans htop.symm, ?_, hlies, hquiet⟩, rfl,
            (List.append_nil _).symm⟩
          rw [hbottom, ← hshows.bottom]
  | pop =>
      refine ⟨fun hthrown => ?_, fun result next hpop => ?_⟩
      · obtain ⟨next, first', hpop, -⟩ := hstores.pop
        rw [WorkStealingQueue.call, hpop] at hthrown
        cases hthrown
      · obtain ⟨count, cells, hlies, hgoes⟩ := pop_goes heap capacity thieves hshows hpop
        exact ⟨count, _, hgoes, ⟨rfl, rfl, hlies, hquiet⟩, rfl, rfl⟩
  | steal =>
      refine ⟨fun hthrown => ?_, fun result next hsteal => ?_⟩
      · obtain ⟨next, first', hsteal, -⟩ := hstores.steal
        rw [WorkStealingQueue.call, hsteal] at hthrown
        cases hthrown
      · obtain ⟨hbottom, count, cells, hlies, hgoes⟩ :=
          steal_goes heap capacity thieves hshows hthread hsteal
        exact ⟨count, _, hgoes, ⟨rfl, hshows.bottom.trans hbottom.symm, hlies, hquiet⟩, rfl, rfl⟩

theorem calls_goes (heap : ArrayHeap) (capacity thieves : Nat) (hshows : s.Shows q)
    (hstores : q.Stores first items) (hthread : thread < s.thieves.length)
    (calls : List (QueueCall T)) :
    ∃ counts results final last, q.calls heap calls = .ok (results, final) ∧
      s.Goes heap capacity thieves (QueueCall.serial thread counts calls) last ∧
      last.Shows final ∧ last.returned = s.returned ++ results := by
  induction calls generalizing s q first items with
  | nil => exact ⟨[], [], q, s, rfl, .nil .., hshows, (List.append_nil _).symm⟩
  | cons c rest ih =>
      obtain ⟨hthrows, hreturns⟩ := call_goes heap capacity thieves hshows hstores hthread c
      rw [WorkStealingQueue.calls]
      obtain ⟨hcall, -⟩ | ⟨next, first', hcall, hnext⟩ := hstores.call heap c
      · -- the queue is as it was
        obtain ⟨count, middle, hgoes, hmiddle, hthieves, hreturned⟩ := hthrows hcall
        obtain ⟨counts, results, final, last, hcalls, hrest, hlast, hall⟩ :=
          ih hmiddle hstores (hthieves ▸ hthread)
        rw [hcall]
        exact ⟨count :: counts, results, final, last, hcalls, hgoes.append hrest, hlast,
          by rw [hall, hreturned]⟩
      · obtain ⟨count, middle, hgoes, hmiddle, hthieves, hreturned⟩ := hreturns _ next hcall
        obtain ⟨counts, results, final, last, hcalls, hrest, hlast, hall⟩ :=
          ih hmiddle hnext (hthieves ▸ hthread)
        rw [hcall]
        refine ⟨count :: counts, ((c.onList items).1.map some).toList ++ results, final, last,
          ?_, hgoes.append hrest, hlast, ?_⟩
        · simp only [hcalls]
          rfl
        · rw [hall, hreturned, List.append_assoc]

/-- The calls on a new queue, one after the other, are an undisturbed run of the
deque of several threads, which returns the same and ends with the same tasks. -/
theorem calls_refine (heap : ArrayHeap) (hcapacity : capacity ≤ 2 ^ 63)
    (hmake : WorkStealingQueue.make heap capacity = .ok q) (hthread : thread < thieves)
    (calls : List (QueueCall T)) :
    ∃ counts results final last, q.calls heap calls = .ok (results, final) ∧
      (init capacity thieves).Goes heap capacity thieves
        (QueueCall.serial thread counts calls) last ∧
      last.Shows final ∧ last.returned = results := by
  obtain ⟨rfl, hstores⟩ := WorkStealingQueue.Stores.of_make hcapacity hmake
  have hshows : (init capacity thieves : Deque T).Shows
      (.fresh T (initialCapacity capacity)) := by
    refine ⟨rfl, rfl, ⟨rfl, ?_, ?_⟩, rfl, fun thief hthief => List.eq_of_mem_replicate hthief⟩
    · simp [init]
    · intro p hp
      show slotAt _ (0 + p) = _
      rw [Nat.zero_add]
      rfl
  have hlength : thread < (init capacity thieves : Deque T).thieves.length := by
    rwa [init, List.length_replicate]
  exact calls_goes heap capacity thieves hshows hstores hlength calls

end Deque

end UltraNet
