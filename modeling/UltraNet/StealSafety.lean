/-
The work-stealing deque conserves its tasks in the runs that are undisturbed:
every full cell belongs to an index between `top` and `bottom`, to a thief that
has won it or to the owner that is about to take it, and to only one of them.
-/
import UltraNet.WorkStealing
import Mathlib.Algebra.Order.Group.Multiset
import Mathlib.Data.Int.ModEq
import Mathlib.Tactic.Abel

namespace UltraNet

variable {T : Type}

namespace CircularBuffer

/-- The capacity is a power of two and the cells are allocated. -/
structure Fits (buf : CircularBuffer) (size : Nat) : Prop where
  two : 2 ≤ buf.capacity
  power : ∃ k, buf.capacity = 2 ^ k
  small : buf.capacity < 2 ^ 63
  allocated : buf.base + buf.capacity ≤ size

variable {buf : CircularBuffer} {size : Nat}

theorem Fits.mono (hfits : buf.Fits size) {more : Nat} (hmore : size ≤ more) :
    buf.Fits more :=
  ⟨hfits.two, hfits.power, hfits.small, hfits.allocated.trans hmore⟩

theorem Fits.mask_eq (hfits : buf.Fits size) : buf.mask = buf.capacity - 1 :=
  WorkStealingQueue.slotMask_eq (Nat.lt_of_succ_le (Nat.le_of_succ_le hfits.two)) hfits.small

theorem Fits.address_eq (hfits : buf.Fits size) (index : Int) :
    buf.address index = buf.base + index.toNat % buf.capacity := by
  obtain ⟨k, hk⟩ := hfits.power
  rw [address, mask, WorkStealingQueue.and_slotMask hk hfits.small]

theorem Fits.address_lt (hfits : buf.Fits size) (index : Int) :
    buf.address index < buf.base + buf.capacity := by
  rw [hfits.address_eq]
  have := Nat.mod_lt index.toNat (by have := hfits.two; omega : buf.capacity > 0)
  omega

theorem base_le_address (buf : CircularBuffer) (index : Int) :
    buf.base ≤ buf.address index := Nat.le_add_right _ _

/-- Indices that are less than a lap apart have different cells. -/
theorem Fits.eq_of_address (hfits : buf.Fits size) {i j : Int} (hi : 0 ≤ i)
    (hj : 0 ≤ j) (hij : i - j < buf.capacity) (hji : j - i < buf.capacity)
    (haddress : buf.address i = buf.address j) : i = j := by
  rw [hfits.address_eq, hfits.address_eq] at haddress
  have hmod : i.toNat ≡ j.toNat [MOD buf.capacity] := Nat.add_left_cancel haddress
  rcases Nat.le_total i.toNat j.toNat with hle | hle
  · have hdvd := (Nat.modEq_iff_dvd' hle).mp hmod
    have := Nat.eq_zero_of_dvd_of_lt hdvd (by omega)
    omega
  · have hdvd := (Nat.modEq_iff_dvd' hle).mp hmod.symm
    have := Nat.eq_zero_of_dvd_of_lt hdvd (by omega)
    omega

end CircularBuffer

/-- Who may claim a cell. -/
inductive Claimant where
  | index (i : Int)
  | thief (thread : Nat)
  | owner

/-- The cell of a task that the owner has secured and not moved yet. -/
def DequeOwner.popped : DequeOwner T → Option Nat
  | .popWon b buf | .popGet b buf => some (buf.address b)
  | _ => none

namespace Deque

/-- The end of the tasks that are there for the taking.  It is ahead of
`bottom` before a `push` has published its task and while a `pop` has lowered
`bottom` and may still put it back. -/
def limit (s : Deque T) : Int :=
  match s.owner with
  | .pushBottom b | .popTop b _ | .popCas b _ | .popWon b _ | .popRestore b =>
      b + 1
  | _ => s.bottom

def claim (s : Deque T) : Claimant → Option Nat
  | .index i =>
      if s.top ≤ i ∧ i < s.limit then some ((s.home i).address i) else none
  | .thief thread => s.thieves[thread]?.bind Thief.won
  | .owner => s.owner.popped

/-- What the local variables of the owner say about the shared state. -/
def OwnerOk (s : Deque T) : Prop :=
  match s.owner with
  | .idle | .popGet .. => True
  | .pushTop _ b | .pushBottom b => s.bottom = b
  | .pushBuffer _ b t =>
      s.bottom = b ∧ 0 ≤ t ∧ t ≤ s.top ∧ b - t < s.buffer.capacity
  | .resize _ b old new i =>
      s.bottom = b ∧ old = s.buffer ∧ 0 ≤ i ∧ i ≤ b ∧ b - i < old.capacity ∧
        new.capacity = old.capacity * 2 ∧ old.base + old.capacity ≤ new.base ∧
        new.Fits s.cells.length
  | .pushPut _ b buf =>
      s.bottom = b ∧ buf = s.buffer ∧ b - s.top < s.buffer.capacity - 1
  | .popBuffer b => s.bottom = b + 1
  | .popBottom b buf => s.bottom = b + 1 ∧ buf = s.buffer
  | .popTop b buf => s.bottom = b ∧ buf = s.buffer
  | .popCas b buf => s.bottom = b ∧ buf = s.buffer ∧ b ≤ s.top
  | .popWon b _ | .popRestore b => s.bottom = b ∧ s.top = b + 1
  | .outside => False

/-- What a thief has read is not ahead of `top`, and its index was inside. -/
def ThiefOk (s : Deque T) : Thief → Prop
  | .idle | .get .. => True
  | .loadBottom t => t ≤ s.top
  | .loadBuffer t | .cas t _ => t ≤ s.top ∧ t < s.limit

end Deque

/-- What holds between any two steps of an undisturbed run. -/
structure DequeInv (s : Deque T) : Prop where
  fits : s.buffer.Fits s.cells.length
  nonneg : 0 ≤ s.top
  le : s.top ≤ s.limit
  room : s.limit - s.top < s.buffer.capacity
  owner : s.OwnerOk
  thieves : ∀ thief ∈ s.thieves, s.ThiefOk thief
  held : Held s.claim s.cells
  full : none ∉ s.returned
  kept : (s.pushed : Multiset T) =
    (s.returned.reduceOption : Multiset T) + s.refused + s.owner.hand + contents s.cells

namespace DequeInv

variable {s s' : Deque T}

/-- `bottom` is never ahead of the tasks that are there. -/
theorem bottom_le (hinv : DequeInv s) : s.bottom ≤ s.limit := by
  have hphase := hinv.owner
  unfold Deque.OwnerOk at hphase
  unfold Deque.limit
  split <;> simp_all

theorem thieves_mono (hinv : DequeInv s) (hthieves : s'.thieves = s.thieves)
    (htop : s.top ≤ s'.top)
    (hlimit : ∀ t, t ≤ s.top → t < s.limit → t < s'.limit) :
    ∀ thief ∈ s'.thieves, s'.ThiefOk thief := by
  intro thief hthief
  have hold := hinv.thieves thief (hthieves ▸ hthief)
  cases thief with
  | idle | get => trivial
  | loadBottom t => exact Int.le_trans hold htop
  | loadBuffer t | cas t buf =>
      exact ⟨Int.le_trans hold.1 htop, hlimit t hold.1 hold.2⟩

/-- The claims stay as they are. -/
theorem claim_eq (htop : s'.top = s.top) (hlimit : s'.limit = s.limit)
    (hhome : ∀ i, s.top ≤ i → i < s.limit → s'.home i = s.home i)
    (hthieves : s'.thieves = s.thieves)
    (hpopped : s'.owner.popped = s.owner.popped) (c : Claimant) :
    s'.claim c = s.claim c := by
  cases c with
  | index i =>
      simp only [Deque.claim, htop, hlimit]
      split
      · rename_i hlive
        rw [hhome i hlive.1 hlive.2]
      · rfl
  | thief thread => simp only [Deque.claim, hthieves]
  | owner => exact hpopped

/-- A step of the owner that moves no task. -/
theorem ownerMove (hinv : DequeInv s) (htop : s'.top = s.top)
    (hlimit : s'.limit = s.limit) (hbuffer : s'.buffer = s.buffer)
    (hhome : ∀ i, s.top ≤ i → i < s.limit → s'.home i = s.home i)
    (hcells : s'.cells = s.cells) (hthieves : s'.thieves = s.thieves)
    (hpopped : s'.owner.popped = s.owner.popped) (howner : s'.OwnerOk)
    (hreturned : s'.returned = s.returned)
    (hkept : (s'.pushed : Multiset T) + (s.refused + s.owner.hand) =
      s.pushed + (s'.refused + s'.owner.hand)) : DequeInv s' := by
  refine ⟨by rw [hbuffer, hcells]; exact hinv.fits, by rw [htop]; exact hinv.nonneg,
    by rw [htop, hlimit]; exact hinv.le,
    by rw [htop, hlimit, hbuffer]; exact hinv.room, howner,
    hinv.thieves_mono hthieves (by rw [htop]) fun t _ ht => by rw [hlimit]; exact ht,
    ?_, by rw [hreturned]; exact hinv.full, ?_⟩
  · rw [hcells]
    exact hinv.held.congr (claim_eq htop hlimit hhome hthieves hpopped)
  · rw [hreturned, hcells]
    have hkept' := hinv.kept
    rw [hkept'] at hkept
    have : (s'.pushed : Multiset T) + (s.refused + s.owner.hand) =
        ((s.returned.reduceOption : Multiset T) + s'.refused + s'.owner.hand +
          contents s.cells) + (s.refused + s.owner.hand) := by
      rw [hkept]
      abel
    exact add_right_cancel this

/-- The owner secures the last index without touching the cells: its claim
passes to the owner. -/
theorem ownerSecures (hinv : DequeInv s) {b : Int}
    (hlive : s.top ≤ b ∧ b + 1 = s.limit) (hpopped : s.owner.popped = none)
    (hpopped' : s'.owner.popped = some ((s.home b).address b))
    (hhome : ∀ i, s'.home i = s.home i)
    (hrange : ∀ i, (s'.top ≤ i ∧ i < s'.limit) ↔
      (s.top ≤ i ∧ i < s.limit) ∧ i ≠ b)
    (hbuffer : s'.buffer = s.buffer) (hcells : s'.cells = s.cells)
    (hthieves : s'.thieves = s.thieves) (htop : s.top ≤ s'.top)
    (hle : s'.top ≤ s'.limit) (hlimit : s'.limit ≤ s.limit)
    (hstale : ∀ t, t ≤ s.top → t < s.limit → t < s'.limit)
    (howner : s'.OwnerOk) (hreturned : s'.returned = s.returned)
    (hpushed : s'.pushed = s.pushed) (hrefused : s'.refused = s.refused)
    (hhand : s'.owner.hand = s.owner.hand) : DequeInv s' := by
  have hroom := hinv.room
  have hnonneg := hinv.nonneg
  refine ⟨by rw [hbuffer, hcells]; exact hinv.fits, hnonneg.trans htop, hle, ?_,
    howner, hinv.thieves_mono hthieves htop hstale, ?_,
    by rw [hreturned]; exact hinv.full, ?_⟩
  · rw [hbuffer]
    omega
  · rw [hcells]
    refine hinv.held.pass (c := .index b) (d := .owner) hpopped ?_ ?_ ?_
    · have := (hrange b).not.mpr fun h => h.2 rfl
      simp only [Deque.claim]
      rw [if_neg this]
    · simp only [Deque.claim]
      rw [if_pos ⟨hlive.1, by omega⟩]
      exact hpopped'
    · intro c hindex howner'
      cases c with
      | index i =>
          have hne : i ≠ b := fun h => hindex (h ▸ rfl)
          simp only [Deque.claim, hhome]
          by_cases hin : s.top ≤ i ∧ i < s.limit
          · rw [if_pos hin, if_pos ((hrange i).mpr ⟨hin, hne⟩)]
          · rw [if_neg hin, if_neg fun h => hin ((hrange i).mp h).1]
      | thief thread => simp only [Deque.claim, hthieves]
      | owner => exact absurd rfl howner'
  · rw [hreturned, hcells, hpushed, hrefused, hhand]
    exact hinv.kept

/-- A claimant moves its task out and returns it. -/
theorem takes (hinv : DequeInv s) {c : Claimant} {p : Nat}
    (hc : s.claim c = some p) (hc' : s'.claim c = none)
    (hothers : ∀ e, e ≠ c → s'.claim e = s.claim e)
    (hcells : s'.cells = s.cells.set p none)
    (hreturned : s'.returned = s.returned ++ [slotAt s.cells p])
    (htop : s'.top = s.top) (hlimit : s'.limit = s.limit)
    (hbuffer : s'.buffer = s.buffer) (howner : s'.OwnerOk)
    (hthieves : ∀ thief ∈ s'.thieves, s'.ThiefOk thief)
    (hpushed : s'.pushed = s.pushed) (hrefused : s'.refused = s.refused)
    (hhand : s'.owner.hand = s.owner.hand) : DequeInv s' := by
  obtain ⟨x, hx⟩ := Option.isSome_iff_exists.mp
    ((hinv.held.full_iff p).mpr ⟨c, hc⟩)
  refine ⟨?_, by rw [htop]; exact hinv.nonneg, by rw [htop, hlimit]; exact hinv.le,
    by rw [htop, hlimit, hbuffer]; exact hinv.room, howner, hthieves, ?_, ?_, ?_⟩
  · rw [hbuffer, hcells, List.length_set]
    exact hinv.fits
  · rw [hcells]
    exact hinv.held.clear hc hc' hothers
  · rw [hreturned, hx]
    intro hmem
    rcases List.mem_append.mp hmem with hold | hnew
    · exact hinv.full hold
    · cases List.mem_singleton.mp hnew
  · rw [hpushed, hreturned, hcells, hrefused, hhand, hx, hinv.kept, contents_take hx,
      List.reduceOption_append]
    simp only [List.reduceOption_cons_of_some, List.reduceOption_nil,
      ← Multiset.coe_add, Multiset.coe_singleton, ← Multiset.singleton_add]
    abel

/-- No thief has won a cell that the step is guarded for. -/
theorem not_won {p : Nat} (hwon : s.won p = false) (thread : Nat) :
    s.claim (.thief thread) ≠ some p := by
  intro hclaim
  obtain ⟨thief, hthief, hp⟩ := Option.bind_eq_some_iff.mp hclaim
  have hany : s.won p = true :=
    List.any_eq_true.mpr ⟨thief, List.mem_of_getElem? hthief, by simp [hp]⟩
  rw [hwon] at hany
  cases hany

theorem claim_inside {i : Int} (hlive : s.top ≤ i ∧ i < s.limit) :
    s.claim (.index i) = some ((s.home i).address i) := if_pos hlive

theorem claim_outside {i : Int} (hlive : ¬ (s.top ≤ i ∧ i < s.limit)) :
    s.claim (.index i) = none := if_neg hlive

theorem inside_of_claim {i : Int} {p : Nat} (hclaim : s.claim (.index i) = some p) :
    (s.top ≤ i ∧ i < s.limit) ∧ (s.home i).address i = p := by
  by_cases hlive : s.top ≤ i ∧ i < s.limit
  · exact ⟨hlive, Option.some.inj ((claim_inside hlive).symm.trans hclaim)⟩
  · rw [claim_outside hlive] at hclaim
    cases hclaim

/-- A cell that the step is guarded for and that no index has as its home is
free while the owner has popped nothing. -/
theorem unclaimed {p : Nat} (hguard : s.won p = false)
    (hpopped : s.owner.popped = none)
    (hhome : ∀ i, s.top ≤ i → i < s.limit → (s.home i).address i ≠ p) (c : Claimant) :
    s.claim c ≠ some p := by
  intro hclaim
  cases c with
  | index i =>
      obtain ⟨hlive, haddress⟩ := inside_of_claim hclaim
      exact hhome i hlive.1 hlive.2 haddress
  | thief thread => exact not_won hguard thread hclaim
  | owner => simp [Deque.claim, hpopped] at hclaim

/-- `put`: the task of the owner goes into a cell that nobody claims. -/
theorem pushPut (hinv : DequeInv s) {item : T} {b : Int} {buf : CircularBuffer}
    (howner : s.owner = .pushPut item b buf)
    (hguard : s.won (buf.address b) = false)
    (hstep : s' = { s with
      cells := s.cells.set (buf.address b) (some item), owner := .pushBottom b }) :
    DequeInv s' := by
  have hphase := hinv.owner
  have hle := hinv.le
  have hnonneg := hinv.nonneg
  have hroom := hinv.room
  simp only [Deque.OwnerOk, howner] at hphase
  obtain ⟨hbottom, rfl, hsize⟩ := hphase
  have hlimit : s.limit = b := by simp only [Deque.limit, howner, hbottom]
  have hhome : ∀ i, s.home i = s.buffer := by
    simp only [Deque.home, howner, implies_true]
  have hlimit' : s'.limit = b + 1 := by simp only [hstep, Deque.limit]
  have hhome' : ∀ i, s'.home i = s.buffer := by
    simp only [hstep, Deque.home, implies_true]
  have htop : s'.top = s.top := by rw [hstep]
  have hbuffer : s'.buffer = s.buffer := by rw [hstep]
  have hthieves : s'.thieves = s.thieves := by rw [hstep]
  have hcells : s'.cells = s.cells.set (s.buffer.address b) (some item) := by
    rw [hstep]
  have hpopped : s.owner.popped = none := by rw [howner]; rfl
  have hfree := unclaimed hguard hpopped <| by
    intro i htop hbelow haddress
    rw [hhome] at haddress
    have := hinv.fits.eq_of_address (by omega) (by omega) (by omega) (by omega)
      haddress
    omega
  have hempty := hinv.held.empty_of_unclaimed hfree
  have hlt : s.buffer.address b < s.cells.length :=
    (hinv.fits.address_lt b).trans_le hinv.fits.allocated
  refine ⟨?_, by rw [htop]; exact hnonneg, ?_, ?_, ?_, ?_, ?_, ?_, ?_⟩
  · rw [hbuffer, hcells, List.length_set]
    exact hinv.fits
  · omega
  · rw [hbuffer]
    omega
  · simp only [Deque.OwnerOk, hstep, hbottom]
  · apply hinv.thieves_mono hthieves (by rw [htop])
    intro t _ ht
    omega
  · rw [hcells]
    refine hinv.held.fill (c := .index b) hlt hempty (claim_outside (by omega)) ?_ ?_
    · rw [claim_inside (by omega), hhome']
    · intro c hc
      cases c with
      | index i =>
          have hne : i ≠ b := fun h => hc (h ▸ rfl)
          by_cases hin : s.top ≤ i ∧ i < s.limit
          · rw [claim_inside hin, claim_inside (by omega), hhome, hhome']
          · rw [claim_outside hin, claim_outside (by omega)]
      | thief thread => simp only [Deque.claim, hthieves]
      | owner => simp only [Deque.claim, hstep, howner, DequeOwner.popped]
  · rw [hstep]
    exact hinv.full
  · have hkept := hinv.kept
    rw [howner] at hkept
    simp only [hstep, DequeOwner.hand] at hkept ⊢
    rw [hkept, contents_put item hlt hempty, ← Multiset.singleton_add]
    abel

/-- `resize` begins: the cells of the larger buffer are appended. -/
theorem grow (hinv : DequeInv s) {item : T} {b t : Int}
    (howner : s.owner = .pushBuffer item b t) (hsmall : s.buffer.capacity * 2 < 2 ^ 63)
    (hstep : s' = { s with
      cells := s.cells ++ List.replicate (s.buffer.capacity * 2) none,
      owner := .resize item b s.buffer
        ⟨s.cells.length, s.buffer.capacity * 2⟩ t }) : DequeInv s' := by
  have hphase := hinv.owner
  have hle := hinv.le
  simp only [Deque.OwnerOk, howner] at hphase
  obtain ⟨hbottom, hnonneg, hstale, hsize⟩ := hphase
  have hlimit : s.limit = b := by simp only [Deque.limit, howner, hbottom]
  have hlimit' : s'.limit = s.limit := by
    simp only [hstep, Deque.limit, howner]
  have htop : s'.top = s.top := by rw [hstep]
  have hbuffer : s'.buffer = s.buffer := by rw [hstep]
  have hthieves : s'.thieves = s.thieves := by rw [hstep]
  have hcells : s'.cells =
      s.cells ++ List.replicate (s.buffer.capacity * 2) none := by rw [hstep]
  have hhome : ∀ i, s.top ≤ i → i < s.limit → s'.home i = s.home i := by
    intro i hi _
    simp only [hstep, Deque.home, howner]
    rw [if_neg (by omega)]
  have hnew : CircularBuffer.Fits ⟨s.cells.length, s.buffer.capacity * 2⟩
      s'.cells.length := by
    obtain ⟨k, hk⟩ := hinv.fits.power
    have htwo := hinv.fits.two
    refine ⟨by simp only; omega, ⟨k + 1, by rw [hk, Nat.pow_succ]⟩, hsmall, ?_⟩
    rw [hcells, List.length_append, List.length_replicate]
  refine ⟨?_, by rw [htop]; exact hinv.nonneg, by rw [htop, hlimit']; exact hle,
    by rw [htop, hlimit', hbuffer]; exact hinv.room, ?_,
    hinv.thieves_mono hthieves (by rw [htop]) fun t _ ht => by
      rw [hlimit']; exact ht, ?_, ?_, ?_⟩
  · rw [hbuffer, hcells, List.length_append]
    exact hinv.fits.mono (Nat.le_add_right _ _)
  · rw [hstep] at hnew ⊢
    exact ⟨hbottom, rfl, hnonneg, by omega, hsize, rfl, hinv.fits.allocated, hnew⟩
  · rw [hcells]
    refine (hinv.held.append_replicate _).congr
      (claim_eq htop hlimit' hhome hthieves ?_)
    rw [hstep, howner]
    rfl
  · rw [hstep]
    exact hinv.full
  · have hkept := hinv.kept
    rw [howner] at hkept
    rw [hcells, contents_append_replicate, hstep]
    exact hkept

/-- `resize` moves the task of an index that is still there. -/
theorem moveLive (hinv : DequeInv s) {item : T} {b i : Int}
    {old new : CircularBuffer} (howner : s.owner = .resize item b old new i)
    (hi : s.top ≤ i ∧ i < b) (hguard : s.won (new.address i) = false)
    (hstep : s' = { s.moveSlot (old.address i) (new.address i) with
      owner := .resize item b old new (i + 1) }) : DequeInv s' := by
  have hphase := hinv.owner
  have hle := hinv.le
  have hnonneg := hinv.nonneg
  have hroom := hinv.room
  simp only [Deque.OwnerOk, howner] at hphase
  obtain ⟨hbottom, rfl, hi0, hib, hsize, hcapacity, hapart, hnew⟩ := hphase
  have hlimit : s.limit = b := by simp only [Deque.limit, howner, hbottom]
  have hhome : ∀ j, s.home j = if j < i then new else s.buffer := by
    intro j
    simp only [Deque.home, howner]
  have hlimit' : s'.limit = b := by
    simp only [hstep, Deque.limit, Deque.moveSlot, hbottom]
  have hhome' : ∀ j, s'.home j = if j < i + 1 then new else s.buffer := by
    intro j
    simp only [hstep, Deque.home, Deque.moveSlot]
  have htop : s'.top = s.top := by rw [hstep]; rfl
  have hbuffer : s'.buffer = s.buffer := by rw [hstep]; rfl
  have hthieves : s'.thieves = s.thieves := by rw [hstep]; rfl
  have hclaim : s.claim (.index i) = some (s.buffer.address i) := by
    rw [claim_inside (by omega), hhome, if_neg (by omega)]
  obtain ⟨x, hx⟩ := Option.isSome_iff_exists.mp
    ((hinv.held.full_iff _).mpr ⟨_, hclaim⟩)
  have hcells : s'.cells = (s.cells.set (s.buffer.address i) none).set
      (new.address i) (some x) := by
    rw [← hx, hstep]
    rfl
  have hlt := hnew.address_lt i
  have hallocated := hnew.allocated
  have hpopped : s.owner.popped = none := by rw [howner]; rfl
  have hfree := unclaimed hguard hpopped <| by
    intro j _ hbelow haddress
    rw [hhome] at haddress
    split at haddress
    · have := hnew.eq_of_address (by omega) (by omega) (by omega) (by omega)
        haddress
      omega
    · have := hinv.fits.address_lt j
      have := new.base_le_address i
      omega
  -- between the two halves of the move nobody claims the task
  let between : Claimant → Option Nat := fun c =>
    match c with
    | .index j => if j = i then none else s.claim (.index j)
    | other => s.claim other
  have hcleared : Held between (s.cells.set (s.buffer.address i) none) := by
    refine hinv.held.clear hclaim (by simp [between]) ?_
    intro e he
    cases e with
    | index j =>
        have hne : j ≠ i := fun h => he (h ▸ rfl)
        simp [between, hne]
    | thief | owner => rfl
  have hempty : slotAt (s.cells.set (s.buffer.address i) none)
      (new.address i) = none := by
    rw [slotAt_set_none]
    split
    · rfl
    · exact hinv.held.empty_of_unclaimed hfree
  have hlt' : new.address i < (s.cells.set (s.buffer.address i) none).length := by
    rw [List.length_set]
    omega
  refine ⟨?_, by rw [htop]; exact hnonneg, by omega, ?_, ?_,
    hinv.thieves_mono hthieves (by rw [htop]) fun t _ ht => by omega, ?_, ?_, ?_⟩
  · rw [hbuffer, hcells, List.length_set, List.length_set]
    exact hinv.fits
  · rw [hbuffer]
    omega
  · have hlength : s'.cells.length = s.cells.length := by
      rw [hcells, List.length_set, List.length_set]
    rw [hstep] at hlength ⊢
    refine ⟨hbottom, rfl, by omega, by omega, by omega, hcapacity, hapart, ?_⟩
    rw [hlength]
    exact hnew
  · rw [hcells]
    refine hcleared.fill (c := .index i) hlt' hempty (by simp [between]) ?_ ?_
    · rw [claim_inside (by omega), hhome', if_pos (by omega)]
    · intro c hc
      cases c with
      | index j =>
          have hne : j ≠ i := fun h => hc (h ▸ rfl)
          have hsame : s'.home j = s.home j := by
            rw [hhome, hhome']
            by_cases hj : j < i
            · rw [if_pos hj, if_pos (by omega)]
            · rw [if_neg hj, if_neg (by omega)]
          simp only [between, if_neg hne, Deque.claim, htop, hlimit, hlimit', hsame]
      | thief thread => simp only [between, Deque.claim, hthieves]
      | owner => simp only [between, Deque.claim, hstep, howner, DequeOwner.popped]
  · rw [hstep]
    exact hinv.full
  · have hkept := hinv.kept
    rw [howner, contents_take hx, ← contents_put x hlt' hempty, ← hcells] at hkept
    rw [hstep] at hkept ⊢
    exact hkept

/-- `resize` moves an empty slot: a thief has advanced `top` past the index
since the owner read it. -/
theorem moveStolen (hinv : DequeInv s) {item : T} {b i : Int}
    {old new : CircularBuffer} (howner : s.owner = .resize item b old new i)
    (hi : i < s.top ∧ i < b) (hold : s.won (old.address i) = false)
    (hguard : s.won (new.address i) = false)
    (hstep : s' = { s.moveSlot (old.address i) (new.address i) with
      owner := .resize item b old new (i + 1) }) : DequeInv s' := by
  have hphase := hinv.owner
  have hle := hinv.le
  have hnonneg := hinv.nonneg
  have hroom := hinv.room
  simp only [Deque.OwnerOk, howner] at hphase
  obtain ⟨hbottom, rfl, hi0, hib, hsize, hcapacity, hapart, hnew⟩ := hphase
  have hlimit : s.limit = b := by simp only [Deque.limit, howner, hbottom]
  have hhome : ∀ j, s.top ≤ j → s.home j = s.buffer := by
    intro j hj
    simp only [Deque.home, howner]
    rw [if_neg (by omega)]
  have hpopped : s.owner.popped = none := by rw [howner]; rfl
  have hempty : ∀ buf : CircularBuffer, s.won (buf.address i) = false →
      (buf = s.buffer ∨ s.buffer.base + s.buffer.capacity ≤ buf.base) →
      slotAt s.cells (buf.address i) = none := by
    intro buf hwon hbuf
    refine hinv.held.empty_of_unclaimed (unclaimed hwon hpopped ?_)
    intro j hj hbelow haddress
    rw [hhome j hj] at haddress
    rcases hbuf with rfl | hbuf
    · have := hinv.fits.eq_of_address (by omega) (by omega) (by omega)
        (by omega) haddress
      omega
    · have := hinv.fits.address_lt j
      have := buf.base_le_address i
      omega
  have hfrom := hempty s.buffer hold (.inl rfl)
  have hto := hempty new hguard (.inr hapart)
  have hto' : slotAt (s.cells.set (s.buffer.address i) none)
      (new.address i) = none := by
    rw [slotAt_set_none, hto, ite_self]
  have hcells : s'.cells = (s.cells.set (s.buffer.address i) none).set
      (new.address i) none := by
    rw [← hfrom, hstep]
    simp only [Deque.moveSlot, hfrom]
  have hlimit' : s'.limit = s.limit := by
    simp only [hstep, Deque.limit, Deque.moveSlot, howner]
  have htop : s'.top = s.top := by rw [hstep]; rfl
  have hbuffer : s'.buffer = s.buffer := by rw [hstep]; rfl
  have hthieves : s'.thieves = s.thieves := by rw [hstep]; rfl
  have hhome' : ∀ j, s.top ≤ j → j < s.limit → s'.home j = s.home j := by
    intro j hj _
    rw [hhome j hj]
    simp only [hstep, Deque.home, Deque.moveSlot]
    rw [if_neg (by omega)]
  refine ⟨?_, by rw [htop]; exact hnonneg, by rw [htop, hlimit']; exact hle,
    by rw [htop, hlimit', hbuffer]; exact hroom, ?_,
    hinv.thieves_mono hthieves (by rw [htop]) fun t _ ht => by
      rw [hlimit']; exact ht, ?_, ?_, ?_⟩
  · rw [hbuffer, hcells, List.length_set, List.length_set]
    exact hinv.fits
  · have hlength : s'.cells.length = s.cells.length := by
      rw [hcells, List.length_set, List.length_set]
    rw [hstep] at hlength ⊢
    refine ⟨hbottom, rfl, by omega, by omega, by omega, hcapacity, hapart, ?_⟩
    rw [hlength]
    exact hnew
  · rw [hcells]
    refine ((hinv.held.clear_empty hfrom).clear_empty hto').congr
      (claim_eq htop hlimit' hhome' hthieves ?_)
    rw [hstep, howner]
    rfl
  · rw [hstep]
    exact hinv.full
  · have hkept := hinv.kept
    rw [howner] at hkept
    have hsame : contents s'.cells = contents s.cells := by
      rw [hcells, contents_set_none hto', contents_set_none hfrom]
    rw [hsame, hstep]
    exact hkept

/-- `resize` ends: the larger buffer becomes the current one. -/
theorem publishBuffer (hinv : DequeInv s) {item : T} {b i : Int}
    {old new : CircularBuffer} (howner : s.owner = .resize item b old new i)
    (hi : ¬ i < b)
    (hstep : s' = { s with buffer := new, owner := .pushPut item b new }) :
    DequeInv s' := by
  have hphase := hinv.owner
  have hle := hinv.le
  have hroom := hinv.room
  simp only [Deque.OwnerOk, howner] at hphase
  obtain ⟨hbottom, rfl, hi0, hib, hsize, hcapacity, hapart, hnew⟩ := hphase
  have htwo := hinv.fits.two
  have hlimit : s.limit = b := by simp only [Deque.limit, howner, hbottom]
  have hlimit' : s'.limit = s.limit := by simp only [hstep, Deque.limit, howner]
  have htop : s'.top = s.top := by rw [hstep]
  have hbuffer : s'.buffer = new := by rw [hstep]
  have hthieves : s'.thieves = s.thieves := by rw [hstep]
  have hcells : s'.cells = s.cells := by rw [hstep]
  have hhome : ∀ j, s.top ≤ j → j < s.limit → s'.home j = s.home j := by
    intro j _ hj
    simp only [hstep, Deque.home, howner]
    rw [if_pos (by omega)]
  refine ⟨by rw [hbuffer, hcells]; exact hnew, by rw [htop]; exact hinv.nonneg,
    by rw [htop, hlimit']; exact hle, ?_, ?_,
    hinv.thieves_mono hthieves (by rw [htop]) fun t _ ht => by
      rw [hlimit']; exact ht, ?_, ?_, ?_⟩
  · rw [htop, hlimit', hbuffer]
    omega
  · rw [hstep]
    refine ⟨hbottom, rfl, ?_⟩
    simp only
    omega
  · rw [hcells]
    refine hinv.held.congr (claim_eq htop hlimit' hhome hthieves ?_)
    rw [hstep, howner]
    rfl
  · rw [hstep]
    exact hinv.full
  · have hkept := hinv.kept
    rw [howner] at hkept
    rw [hcells, hstep]
    exact hkept

/-- The owner moves the task out that it has secured. -/
theorem popGet (hinv : DequeInv s) {b : Int} {buf : CircularBuffer}
    (howner : s.owner = .popGet b buf)
    (hstep : s' = { s.takeSlot (buf.address b) with owner := .idle }) :
    DequeInv s' := by
  have hclaim : s.claim .owner = some (buf.address b) := by
    simp only [Deque.claim, howner, DequeOwner.popped]
  have hlimit : s'.limit = s.limit := by
    simp only [hstep, Deque.limit, Deque.takeSlot, howner]
  have hthieves : s'.thieves = s.thieves := by rw [hstep]; rfl
  refine hinv.takes hclaim (by rw [hstep]; rfl) ?_ (by rw [hstep]; rfl)
    (by rw [hstep]; rfl) (by rw [hstep]; rfl) hlimit (by rw [hstep]; rfl)
    (by rw [hstep]; trivial) ?_ (by rw [hstep]; rfl) (by rw [hstep]; rfl)
    (by rw [hstep, howner]; rfl)
  · intro c hc
    cases c with
    | index i =>
        simp only [Deque.claim, hlimit]
        simp only [hstep, Deque.takeSlot, Deque.home, howner]
    | thief thread => simp only [Deque.claim, hthieves]
    | owner => exact absurd rfl hc
  · apply hinv.thieves_mono hthieves (by rw [hstep]; rfl)
    intro t _ ht
    rw [hlimit]
    exact ht

/-- The owner goes on and leaves the tasks that are there for the taking alone. -/
theorem ownerTurn (hinv : DequeInv s) {next : DequeOwner T} {bottom : Int}
    (hlimit : Deque.limit { s with owner := next, bottom := bottom } = s.limit)
    (hhome : ∀ i, Deque.home { s with owner := next, bottom := bottom } i = s.home i)
    (hpopped : next.popped = s.owner.popped)
    (howner : Deque.OwnerOk { s with owner := next, bottom := bottom })
    (hhand : next.hand = s.owner.hand) :
    DequeInv { s with owner := next, bottom := bottom } :=
  hinv.ownerMove rfl hlimit rfl (fun i _ _ => hhome i) rfl rfl hpopped howner rfl
    (by rw [hhand])

/-- The test of `push` on 64 bits is the one on the numbers. -/
theorem isFull_iff (hinv : DequeInv s) {b t : Int} (hle : t ≤ b)
    (hlap : b - t < s.buffer.capacity) :
    s.isFull b t = true ↔ (s.buffer.capacity : Int) - 1 ≤ b - t := by
  have htwo := hinv.fits.two
  have hsmall := hinv.fits.small
  have hmod : (b - t) % 2 ^ 64 = b - t := Int.emod_eq_of_lt (by omega) (by omega)
  rw [Deque.isFull, hmod, hinv.fits.mask_eq, decide_eq_true_eq]
  omega

/-- `push` has read the buffer: it has room, or a larger one is made, or none can be
had. -/
theorem pushBuffer {heap : ArrayHeap} (hinv : DequeInv s) {item : T} {b t : Int}
    (howner : s.owner = .pushBuffer item b t) (hstep : s.ownerStep heap = some s') :
    DequeInv s' := by
  have hphase := hinv.owner
  have hle := hinv.le
  have hsmall := hinv.fits.small
  simp only [Deque.OwnerOk, howner] at hphase
  simp only [Deque.limit, howner] at hle
  obtain ⟨hbottom, hnonneg, hstale, hlap⟩ := hphase
  have hdouble : s.buffer.capacity * 2 % 2 ^ 64 = s.buffer.capacity * 2 :=
    Nat.mod_eq_of_lt (by omega)
  simp only [Deque.ownerStep, howner, hdouble] at hstep
  split at hstep
  case isTrue =>
    split at hstep
    case isTrue hheap =>
      exact hinv.grow howner (heap.bounded _ hheap) (Option.some.inj hstep).symm
    case isFalse =>
      obtain rfl := Option.some.inj hstep
      refine hinv.ownerMove rfl (by simp only [Deque.limit, howner]) rfl
        (fun i _ _ => by simp only [Deque.home, howner]) rfl rfl
        (by rw [howner]; rfl) trivial rfl ?_
      rw [howner]
      simp [DequeOwner.hand, ← Multiset.coe_add]
  case isFalse hroom =>
    obtain rfl := Option.some.inj hstep
    rw [hinv.isFull_iff (by omega) hlap] at hroom
    refine hinv.ownerTurn (by simp only [Deque.limit, howner])
      (fun i => by simp only [Deque.home, howner]) (by rw [howner]; rfl)
      ⟨hbottom, rfl, ?_⟩ (by rw [howner]; rfl)
    simp only
    omega

/-- A round of `resize`, or its end. -/
theorem resize {heap : ArrayHeap} (hinv : DequeInv s) {item : T} {b i : Int}
    {old new : CircularBuffer} (howner : s.owner = .resize item b old new i)
    (hguard : s.undisturbed .owner = true) (hstep : s.ownerStep heap = some s') :
    DequeInv s' := by
  simp only [Deque.undisturbed, howner] at hguard
  simp only [Deque.ownerStep, howner] at hstep
  split at hstep
  case isTrue hi =>
    have hwon : s.won (old.address i) = false ∧ s.won (new.address i) = false := by
      simpa [hi] using hguard
    by_cases hlive : s.top ≤ i
    · exact hinv.moveLive howner ⟨hlive, hi⟩ hwon.2 (Option.some.inj hstep).symm
    · exact hinv.moveStolen howner ⟨by omega, hi⟩ hwon.1 hwon.2
        (Option.some.inj hstep).symm
  case isFalse hi =>
    exact hinv.publishBuffer howner hi (Option.some.inj hstep).symm

/-- `pop` has lowered `bottom` and reads `top`. -/
theorem popTop {heap : ArrayHeap} (hinv : DequeInv s) {b : Int} {buf : CircularBuffer}
    (howner : s.owner = .popTop b buf) (hstep : s.ownerStep heap = some s') :
    DequeInv s' := by
  have hphase := hinv.owner
  have hle := hinv.le
  have hlimit : s.limit = b + 1 := by simp only [Deque.limit, howner]
  simp only [Deque.OwnerOk, howner] at hphase
  obtain ⟨hbottom, rfl⟩ := hphase
  simp only [Deque.ownerStep, howner] at hstep
  split at hstep
  case isTrue hlast =>
    split at hstep
    case isTrue heq =>
      obtain rfl := Option.some.inj hstep
      exact hinv.ownerTurn (by simp only [Deque.limit, howner])
        (fun i => by simp only [Deque.home, howner]) (by rw [howner]; rfl)
        ⟨hbottom, rfl, heq.ge⟩ (by rw [howner]; rfl)
    case isFalse hne =>
      -- more than one task is left: no thief can reach this one
      obtain rfl := Option.some.inj hstep
      refine hinv.ownerSecures (b := b) ⟨hlast, hlimit.symm⟩
        (by rw [howner]; rfl) (by simp only [Deque.home, howner]; rfl)
        (fun i => by simp only [Deque.home, howner]) ?_ rfl rfl rfl
        (Int.le_refl _) ?_ ?_ ?_ trivial rfl rfl rfl (by rw [howner]; rfl)
      · intro i
        rw [hlimit]
        simp only [Deque.limit, hbottom]
        omega
      · simp only [Deque.limit]
        omega
      · rw [hlimit]
        simp only [Deque.limit]
        omega
      · intro t ht _
        simp only [Deque.limit]
        omega
  case isFalse hempty =>
    obtain rfl := Option.some.inj hstep
    refine hinv.ownerTurn (by simp only [Deque.limit, howner])
      (fun i => by simp only [Deque.home, howner]) (by rw [howner]; rfl)
      ⟨hbottom, ?_⟩ (by rw [howner]; rfl)
    simp only
    omega

/-- The compare-exchange of `pop` on the last task. -/
theorem popCas {heap : ArrayHeap} (hinv : DequeInv s) {b : Int} {buf : CircularBuffer}
    (howner : s.owner = .popCas b buf) (hstep : s.ownerStep heap = some s') :
    DequeInv s' := by
  have hphase := hinv.owner
  have hle := hinv.le
  have hlimit : s.limit = b + 1 := by simp only [Deque.limit, howner]
  simp only [Deque.OwnerOk, howner] at hphase
  obtain ⟨hbottom, rfl, hreached⟩ := hphase
  simp only [Deque.ownerStep, howner] at hstep
  split at hstep
  case isTrue heq =>
    obtain rfl := Option.some.inj hstep
    refine hinv.ownerSecures (b := b) ⟨heq.le, hlimit.symm⟩
      (by rw [howner]; rfl) (by simp only [Deque.home, howner]; rfl)
      (fun i => by simp only [Deque.home, howner]) ?_ rfl rfl rfl
      ?_ ?_ ?_ ?_ ⟨hbottom, rfl⟩ rfl rfl rfl (by rw [howner]; rfl)
    · intro i
      rw [hlimit]
      simp only [Deque.limit]
      omega
    · simp only
      omega
    · simp only [Deque.limit, Int.le_refl]
    · rw [hlimit]
      simp only [Deque.limit, Int.le_refl]
    · intro t _ ht
      simp only [Deque.limit]
      omega
  case isFalse hne =>
    obtain rfl := Option.some.inj hstep
    refine hinv.ownerTurn (by simp only [Deque.limit, howner])
      (fun i => by simp only [Deque.home, howner]) (by rw [howner]; rfl)
      ⟨hbottom, ?_⟩ (by rw [howner]; rfl)
    simp only
    omega

/-- Every step of the owner. -/
theorem ownerStep {heap : ArrayHeap} (hinv : DequeInv s)
    (hguard : s.undisturbed .owner = true) (hstep : s.ownerStep heap = some s') :
    DequeInv s' := by
  have hphase := hinv.owner
  cases howner : s.owner with
  | idle | outside => simp only [Deque.ownerStep, howner, reduceCtorEq] at hstep
  | pushBuffer item b t => exact hinv.pushBuffer howner hstep
  | resize item b old new i => exact hinv.resize howner hguard hstep
  | popTop b buf => exact hinv.popTop howner hstep
  | popCas b buf => exact hinv.popCas howner hstep
  | pushPut item b buf =>
      have hwon : s.won (buf.address b) = false := by
        simpa only [Deque.undisturbed, howner, Bool.not_eq_true'] using hguard
      simp only [Deque.OwnerOk, howner] at hphase
      obtain ⟨-, rfl, -⟩ := hphase
      simp only [Deque.ownerStep, howner, hinv.fits.address_lt b, if_true] at hstep
      exact hinv.pushPut howner hwon (Option.some.inj hstep).symm
  | popGet b buf =>
      simp only [Deque.ownerStep, howner] at hstep
      exact hinv.popGet howner (Option.some.inj hstep).symm
  | pushTop item b =>
      simp only [Deque.ownerStep, howner, Option.some.injEq] at hstep
      subst hstep
      have hle := hinv.le
      have hroom := hinv.room
      have hnonneg := hinv.nonneg
      simp only [Deque.OwnerOk, Deque.limit, howner] at hphase hle hroom
      refine hinv.ownerTurn (by simp only [Deque.limit, howner])
        (fun i => by simp only [Deque.home, howner]) (by rw [howner]; rfl)
        ⟨hphase, hnonneg, Int.le_refl _, ?_⟩ (by rw [howner]; rfl)
      simp only
      omega
  | pushBottom b =>
      simp only [Deque.ownerStep, howner, Option.some.injEq] at hstep
      subst hstep
      exact hinv.ownerTurn (by simp only [Deque.limit, howner])
        (fun i => by simp only [Deque.home, howner]) (by rw [howner]; rfl) trivial
        (by rw [howner]; rfl)
  | popBuffer b =>
      simp only [Deque.ownerStep, howner, Option.some.injEq] at hstep
      subst hstep
      simp only [Deque.OwnerOk, howner] at hphase
      exact hinv.ownerTurn (by simp only [Deque.limit, howner])
        (fun i => by simp only [Deque.home, howner]) (by rw [howner]; rfl)
        ⟨hphase, rfl⟩ (by rw [howner]; rfl)
  | popBottom b buf =>
      simp only [Deque.ownerStep, howner, Option.some.injEq] at hstep
      subst hstep
      simp only [Deque.OwnerOk, howner] at hphase
      exact hinv.ownerTurn (by simp only [Deque.limit, howner, hphase])
        (fun i => by simp only [Deque.home, howner]) (by rw [howner]; rfl)
        ⟨rfl, hphase.2⟩ (by rw [howner]; rfl)
  | popWon b buf | popRestore b =>
      simp only [Deque.ownerStep, howner, Option.some.injEq] at hstep
      subst hstep
      exact hinv.ownerTurn (by simp only [Deque.limit, howner])
        (fun i => by simp only [Deque.home, howner]) (by rw [howner]; rfl) trivial
        (by rw [howner]; rfl)

/-- A call of the owner reads `bottom`. -/
theorem ownerCall (hinv : DequeInv s) (howner : s.owner = .idle)
    {next : DequeOwner T} {pushed : List T}
    (hnext : (∃ item, next = .pushTop item s.bottom ∧
        pushed = s.pushed ++ [item]) ∨
      next = .popBuffer (s.bottom - 1) ∧ pushed = s.pushed) :
    DequeInv { s with owner := next, pushed := pushed } := by
  have hkept := hinv.kept
  obtain ⟨item, rfl, rfl⟩ | ⟨rfl, rfl⟩ := hnext
  · refine hinv.ownerMove rfl (by simp only [Deque.limit, howner]) rfl
      (fun i _ _ => by simp only [Deque.home, howner]) rfl rfl
      (by rw [howner]; rfl) rfl rfl ?_
    rw [howner, ← Multiset.coe_add, Multiset.coe_singleton]
    simp only [DequeOwner.hand]
    abel
  · refine hinv.ownerTurn (by simp only [Deque.limit, howner])
      (fun i => by simp only [Deque.home, howner]) (by rw [howner]; rfl) ?_
      (by rw [howner]; rfl)
    simp only [Deque.OwnerOk]
    omega

theorem claim_set {thread : Nat} {thief next : Thief}
    (hthief : s.thieves[thread]? = some thief)
    (hthieves : s'.thieves = s.thieves.set thread next) :
    s'.claim (.thief thread) = next.won ∧
      ∀ other, other ≠ thread →
        s'.claim (.thief other) = s.claim (.thief other) := by
  have hlt := (List.getElem?_eq_some_iff.mp hthief).1
  simp only [Deque.claim, hthieves]
  refine ⟨?_, ?_⟩
  · rw [List.getElem?_set_self hlt]
    rfl
  · intro other hne
    rw [List.getElem?_set_ne (Ne.symm hne)]

/-- The other threads are untouched by what a thief reads. -/
theorem thieves_set (hinv : DequeInv s) {thread : Nat} {next : Thief}
    (hthieves : s'.thieves = s.thieves.set thread next)
    (htop : s.top ≤ s'.top) (hlimit : s'.limit = s.limit)
    (hnext : s'.ThiefOk next) : ∀ thief ∈ s'.thieves, s'.ThiefOk thief := by
  intro thief hthief
  rw [hthieves] at hthief
  rcases List.mem_or_eq_of_mem_set hthief with hold | rfl
  · have hok := hinv.thieves thief hold
    cases thief with
    | idle | get => trivial
    | loadBottom t => exact Int.le_trans hok htop
    | loadBuffer t | cas t buf =>
        exact ⟨Int.le_trans hok.1 htop, by rw [hlimit]; exact hok.2⟩
  · exact hnext

/-- A step of a thief that takes nothing. -/
theorem thiefMove (hinv : DequeInv s) {thread : Nat} {thief next : Thief}
    (hthief : s.thieves[thread]? = some thief) (hwon : thief.won = none)
    (hnext : next.won = none) (hok : s.ThiefOk next) :
    DequeInv (s.setThief thread next) := by
  have hthieves : (s.setThief thread next).thieves = s.thieves.set thread next := rfl
  obtain ⟨hself, hother⟩ := claim_set hthief hthieves
  refine ⟨hinv.fits, hinv.nonneg, hinv.le, hinv.room, ?_,
    hinv.thieves_set rfl (Int.le_refl _) rfl ?_, ?_, hinv.full, hinv.kept⟩
  · exact hinv.owner
  · cases next <;> exact hok
  · refine hinv.held.congr ?_
    intro c
    cases c with
    | index i => rfl
    | thief other =>
        by_cases heq : other = thread
        · subst heq
          rw [hself, hnext]
          simp only [Deque.claim, hthief, Option.bind_some, hwon]
        · exact hother other heq
    | owner => rfl

/-- What the owner knows survives that a thief advances `top`. -/
theorem ownerOk_advance (hinv : DequeInv s) (hlive : s.top < s.limit)
    {thieves : List Thief} :
    Deque.OwnerOk { s with thieves := thieves, top := s.top + 1 } := by
  have hphase := hinv.owner
  cases howner : s.owner with
  | idle | popGet => trivial
  | pushBuffer item b t =>
      simp only [Deque.OwnerOk, howner] at hphase ⊢
      exact ⟨hphase.1, hphase.2.1, by omega, hphase.2.2.2⟩
  | pushPut item b buf =>
      simp only [Deque.OwnerOk, howner] at hphase ⊢
      exact ⟨hphase.1, hphase.2.1, by omega⟩
  | popCas b buf =>
      simp only [Deque.OwnerOk, howner] at hphase ⊢
      exact ⟨hphase.1, hphase.2.1, by omega⟩
  | popWon b | popRestore b =>
      simp only [Deque.OwnerOk, Deque.limit, howner] at hphase hlive
      omega
  | outside => simp only [Deque.OwnerOk, howner] at hphase
  | _ => simpa only [Deque.OwnerOk, howner] using hphase

/-- A thief wins an index: the claim passes to the thief. -/
theorem thiefWins (hinv : DequeInv s) {thread : Nat} {buf : CircularBuffer}
    (hthief : s.thieves[thread]? = some (.cas s.top buf))
    (hguard : buf = s.home s.top)
    (hstep : s' = { s.setThief thread (.get s.top buf) with top := s.top + 1 }) :
    DequeInv s' := by
  have hlive : s.top < s.limit :=
    (hinv.thieves _ (List.mem_of_getElem? hthief)).2
  have hroom := hinv.room
  have hnonneg := hinv.nonneg
  have hthieves : s'.thieves = s.thieves.set thread (.get s.top buf) := by
    rw [hstep]
    rfl
  have htop : s'.top = s.top + 1 := by rw [hstep]
  have hlimit : s'.limit = s.limit := by rw [hstep]; rfl
  have hbuffer : s'.buffer = s.buffer := by rw [hstep]; rfl
  obtain ⟨hself, hother⟩ := claim_set hthief hthieves
  refine ⟨by rw [hstep]; exact hinv.fits, by omega, by omega,
    by rw [hbuffer]; omega, by rw [hstep]; exact hinv.ownerOk_advance hlive,
    hinv.thieves_set hthieves (by omega) hlimit trivial, ?_,
    by rw [hstep]; exact hinv.full, by rw [hstep]; exact hinv.kept⟩
  have hcells : s'.cells = s.cells := by rw [hstep]; rfl
  rw [hcells]
  refine hinv.held.pass (c := .index s.top) (d := .thief thread) ?_
    (claim_outside (by omega)) ?_ ?_
  · simp only [Deque.claim, hthief, Option.bind_some, Thief.won]
  · rw [hself, claim_inside ⟨Int.le_refl _, hlive⟩, ← hguard]
    rfl
  · intro c hindex hthread
    cases c with
    | index i =>
        have hne : i ≠ s.top := fun h => hindex (h ▸ rfl)
        have hhome : s'.home i = s.home i := by rw [hstep]; rfl
        by_cases hin : s.top ≤ i ∧ i < s.limit
        · rw [claim_inside hin, claim_inside (by omega), hhome]
        · rw [claim_outside hin, claim_outside (by omega)]
    | thief other => exact hother other fun h => hthread (h ▸ rfl)
    | owner => rw [hstep]; rfl

/-- A thief moves the task out that it has won. -/
theorem thiefGet (hinv : DequeInv s) {thread : Nat} {t : Int}
    {buf : CircularBuffer} (hthief : s.thieves[thread]? = some (.get t buf))
    (hstep : s' = (s.takeSlot (buf.address t)).setThief thread .idle) :
    DequeInv s' := by
  have hthieves : s'.thieves = s.thieves.set thread .idle := by
    rw [hstep]
    rfl
  have hlimit : s'.limit = s.limit := by rw [hstep]; rfl
  have htop : s'.top = s.top := by rw [hstep]; rfl
  have hclaim : s.claim (.thief thread) = some (buf.address t) := by
    simp only [Deque.claim, hthief, Option.bind_some, Thief.won]
  obtain ⟨hself, hother⟩ := claim_set hthief hthieves
  refine hinv.takes hclaim hself ?_ (by rw [hstep]; rfl) (by rw [hstep]; rfl)
    htop hlimit (by rw [hstep]; rfl) ?_
    (hinv.thieves_set hthieves (by omega) hlimit trivial)
    (by rw [hstep]; rfl) (by rw [hstep]; rfl) (by rw [hstep]; rfl)
  · intro c hc
    cases c with
    | index i => rw [hstep]; rfl
    | thief other => exact hother other fun h => hc (h ▸ rfl)
    | owner => rw [hstep]; rfl
  · have hphase := hinv.owner
    rw [hstep]
    simpa only [Deque.OwnerOk, Deque.setThief, Deque.takeSlot, List.length_set]
      using hphase

/-- Every step of a thief. -/
theorem thiefStep (hinv : DequeInv s) {thread : Nat} {thief : Thief}
    (hthief : s.thieves[thread]? = some thief)
    (hguard : s.undisturbed (.thief thread) = true) :
    DequeInv (s.thiefStep thread thief) := by
  have hok := hinv.thieves thief (List.mem_of_getElem? hthief)
  have hle := hinv.le
  cases thief with
  | idle =>
      exact hinv.thiefMove hthief rfl rfl (Int.le_refl _)
  | loadBottom t =>
      simp only [Deque.thiefStep]
      split
      · exact hinv.thiefMove hthief rfl rfl trivial
      · rename_i hlive
        refine hinv.thiefMove hthief rfl rfl ⟨hok, ?_⟩
        have := hinv.bottom_le
        omega
  | loadBuffer t =>
      exact hinv.thiefMove hthief rfl rfl ⟨hok.1, hok.2⟩
  | cas t buf =>
      simp only [Deque.thiefStep]
      split
      · rename_i heq
        subst heq
        simp only [Deque.undisturbed, hthief] at hguard
        exact hinv.thiefWins hthief (by simpa using hguard) rfl
      · exact hinv.thiefMove hthief rfl rfl trivial
  | get t buf => exact hinv.thiefGet hthief rfl

theorem step {heap : ArrayHeap} (hinv : DequeInv s) {move : DequeMove T}
    (hguard : s.undisturbed move = true) (hstep : s.step heap move = some s') :
    DequeInv s' := by
  cases move with
  | push item =>
      simp only [Deque.step] at hstep
      split at hstep
      · rename_i howner
        obtain rfl := Option.some.inj hstep
        exact hinv.ownerCall howner (.inl ⟨item, rfl, rfl⟩)
      · cases hstep
  | pop =>
      simp only [Deque.step] at hstep
      split at hstep
      · rename_i howner
        obtain rfl := Option.some.inj hstep
        exact hinv.ownerCall howner (.inr ⟨rfl, rfl⟩)
      · cases hstep
  | owner => exact hinv.ownerStep hguard hstep
  | thief thread =>
      obtain ⟨thief, hthief, rfl⟩ := Option.map_eq_some_iff.mp hstep
      exact hinv.thiefStep hthief hguard

theorem init {heap : ArrayHeap} {capacity : Nat} (thieves : Nat) (hcapacity : capacity ≤ 2 ^ 63)
    (hmade : heap.allocates (Deque.initialCapacity capacity)) :
    DequeInv (Deque.init capacity thieves : Deque T) := by
  obtain ⟨k, hk, hmin⟩ := WorkStealingQueue.initialCapacity_eq hcapacity
  rw [← Deque.initialCapacity] at hk
  have hlarge : 2 ≤ Deque.initialCapacity capacity := by
    rw [hk]
    exact Nat.le_trans (by decide) hmin
  have hempty : ∀ p, slotAt (List.replicate (Deque.initialCapacity capacity)
      (none : Option T)) p = none := by
    intro p
    rw [slotAt, List.getElem?_replicate]
    split <;> rfl
  have hclaim : ∀ c, (Deque.init capacity thieves : Deque T).claim c = none := by
    intro c
    cases c with
    | index i => exact claim_outside (by simp only [Deque.init, Deque.limit]; omega)
    | thief thread =>
        simp only [Deque.claim, Deque.init, List.getElem?_replicate]
        split <;> rfl
    | owner => rfl
  refine ⟨⟨hlarge, ⟨k, hk⟩, heap.bounded _ hmade, ?_⟩, Int.le_refl _, Int.le_refl _, ?_, trivial, ?_,
    ⟨?_, ?_⟩, List.not_mem_nil, ?_⟩
  · simp [Deque.init]
  · simp only [Deque.init, Deque.limit]
    omega
  · intro thief hthief
    rw [List.eq_of_mem_replicate hthief]
    trivial
  · intro c d p hc
    rw [hclaim] at hc
    cases hc
  · intro p
    simp only [Deque.init, hempty]
    refine ⟨by simp, ?_⟩
    rintro ⟨c, hc⟩
    rw [← Deque.init, hclaim] at hc
    cases hc
  · simp [Deque.init, DequeOwner.hand, contents, List.reduceOption]

/-- Between calls the full cells are those of the indices in
`[top, bottom)`. -/
theorem stored_of_quiet (hinv : DequeInv s) (hquiet : s.Quiet) :
    none ∉ s.stored ∧
      contents s.cells = (s.stored.reduceOption : Multiset T) := by
  obtain ⟨howner, hidle⟩ := hquiet
  have hnonneg := hinv.nonneg
  have hroom := hinv.room
  have hlimit : s.limit = s.bottom := by simp only [Deque.limit, howner]
  have hhome : ∀ i, s.home i = s.buffer := by
    simp only [Deque.home, howner, implies_true]
  let full := (List.range (s.bottom - s.top).toNat).map fun n : Nat =>
    s.buffer.address (s.top + n)
  have hmem : ∀ p, p ∈ full ↔ (slotAt s.cells p).isSome := by
    intro p
    rw [hinv.held.full_iff p]
    constructor
    · intro hp
      obtain ⟨n, hn, rfl⟩ := List.mem_map.mp hp
      rw [List.mem_range] at hn
      refine ⟨.index (s.top + n), ?_⟩
      rw [claim_inside (by omega), hhome]
    · rintro ⟨c, hc⟩
      cases c with
      | index i =>
          obtain ⟨hlive, rfl⟩ := inside_of_claim hc
          rw [hhome]
          refine List.mem_map.mpr ⟨(i - s.top).toNat, ?_, ?_⟩
          · rw [List.mem_range]
            omega
          · congr 1
            omega
      | thief thread =>
          obtain ⟨thief, hthief, hp⟩ := Option.bind_eq_some_iff.mp hc
          rw [hidle thief (List.mem_of_getElem? hthief)] at hp
          cases hp
      | owner =>
          simp only [Deque.claim, howner, DequeOwner.popped] at hc
          cases hc
  have hnodup : full.Nodup := by
    refine List.Nodup.map_on ?_ List.nodup_range
    intro n hn m hm haddress
    rw [List.mem_range] at hn hm
    have := hinv.fits.eq_of_address (by omega) (by omega) (by omega) (by omega)
      haddress
    omega
  have hstored : s.stored = full.map (slotAt s.cells) := by
    simp [Deque.stored, full]
  rw [hstored]
  refine ⟨?_, contents_eq_of_full hnodup hmem⟩
  intro hnone
  obtain ⟨p, hp, hslot⟩ := List.mem_map.mp hnone
  have := (hmem p).mp hp
  rw [hslot] at this
  cases this

theorem kept_of_quiet (hinv : DequeInv s) (hquiet : s.Quiet) :
    (s.pushed : Multiset T) = (s.returned.reduceOption : Multiset T) + s.refused +
      (s.stored.reduceOption : Multiset T) := by
  have hkept := hinv.kept
  rwa [hquiet.1, (hinv.stored_of_quiet hquiet).2, DequeOwner.hand_idle, add_zero] at hkept

theorem inside (hinv : DequeInv s) : s.owner ≠ .outside := by
  intro howner
  have hphase := hinv.owner
  simp only [Deque.OwnerOk, howner] at hphase

end DequeInv

/-- The deque conserves tasks if its capacity can be rounded up, in every run in which
no growth moves a task between a thief's load of the buffer and its win of that task,
and the owner never moves or fills a slot that a thief has won and not emptied: no
access is outside an array, no call returns an empty task, every pushed task is
returned once or in the owner's hand or in a cell, if its `push` has not thrown, and a
cell belongs to one index, thief or pop.  Between calls the tasks not returned are
those in `[top, bottom)`. -/
theorem tasks_conserved (heap : ArrayHeap) (capacity thieves : Nat) (hcapacity : capacity ≤ 2 ^ 63)
    (hmade : heap.allocates (Deque.initialCapacity capacity)) (word : List (DequeMove T))
    {s : Deque T}
    (hmeets : (Deque.machine heap capacity thieves).Meets
      (fun s move => s.undisturbed move = true) word)
    (hrun : (Deque.machine heap capacity thieves).run word = some s) :
    s.owner ≠ .outside ∧ none ∉ s.returned ∧
      (s.pushed : Multiset T) = (s.returned.reduceOption : Multiset T) + s.refused +
        s.owner.hand + contents s.cells ∧
      Held s.claim s.cells ∧
      (s.Quiet → none ∉ s.stored ∧
        (s.pushed : Multiset T) = (s.returned.reduceOption : Multiset T) + s.refused +
          (s.stored.reduceOption : Multiset T)) := by
  have hinv : DequeInv s := by
    refine Machine.run_invariant _ (DequeInv.init thieves hcapacity hmade) ?_ word
      hmeets hrun
    intro state move next hstate hguard hstep
    exact hstate.step hguard hstep
  refine ⟨hinv.inside, hinv.full, hinv.kept, hinv.held, ?_⟩
  intro hquiet
  refine ⟨(hinv.stored_of_quiet hquiet).1, hinv.kept_of_quiet hquiet⟩

/-- One uninterrupted `push` into a buffer with room. -/
def pushing (item : Nat) : List (DequeMove Nat) :=
  .push item :: List.replicate 4 .owner

/-- A `push` that grows a buffer of eight with seven tasks. -/
def growing (item : Nat) : List (DequeMove Nat) :=
  .push item :: List.replicate 12 .owner

/-- Seven pushes, a growth with the eighth, then a steal of the first task and
a pop of the last one. -/
def stolenAfterGrowth : List (DequeMove Nat) :=
  (List.range 7).flatMap pushing ++ growing 7 ++
    List.replicate 5 (.thief 0) ++ .pop :: List.replicate 4 .owner

/-- The thief loads the buffer before the growth and wins after it. -/
def stolenAcrossGrowth : List (DequeMove Nat) :=
  (List.range 7).flatMap pushing ++ List.replicate 3 (.thief 0) ++
    growing 7 ++ List.replicate 2 (.thief 0)

set_option maxRecDepth 100000 in
theorem tasks_conserved_stolenAfterGrowth :
    ∃ s, (Deque.machine .largest 8 1).run stolenAfterGrowth = some s ∧
      s.returned = [some 0, some 7] ∧ none ∉ s.stored := by
  have hmeets : (Deque.machine .largest 8 1).Meets
      (fun s move => s.undisturbed move = true) stolenAfterGrowth := by
    decide
  have hend : ((Deque.machine .largest 8 1).run stolenAfterGrowth).map
      (fun s => (s.returned, decide s.Quiet)) = some ([some 0, some 7], true) := by
    decide
  obtain ⟨s, hrun, hs⟩ := Option.map_eq_some_iff.mp hend
  obtain ⟨hreturned, hquiet⟩ := Prod.mk.inj hs
  refine ⟨s, hrun, hreturned, ?_⟩
  have hconserved := (tasks_conserved .largest 8 1 (by decide) (by decide) stolenAfterGrowth
    hmeets hrun).2.2.2.2
  exact (hconserved (of_decide_eq_true hquiet)).1

set_option maxRecDepth 100000 in
/-- `steal` returns an empty task, and the one it won is in no call's result
and not in `[top, bottom)`. -/
theorem stolenAcrossGrowth_empty :
    ((Deque.machine .largest 8 1).run stolenAcrossGrowth).map
        (fun s => (s.pushed, s.returned, s.stored)) =
      some ([0, 1, 2, 3, 4, 5, 6, 7], [none],
        [some 1, some 2, some 3, some 4, some 5, some 6, some 7]) := by
  decide

end UltraNet
