/-
The calls of `emplace` on an `MpscQueue`: each one claims a position, fails or
is before its compare-exchange.
-/
import UltraNet.MpscQueue
import Mathlib.Data.List.Nodup
import Mathlib.Data.List.Perm.Subperm

namespace UltraNet

namespace ProducerPhase

variable {T : Type*}

/-- The call and its value, before the compare-exchange. -/
def waiting : ProducerPhase T → Option (Nat × T)
  | .loadPos call item | .loadSeq call item _ | .cas call item _ =>
      some (call, item)
  | _ => none

/-- The call, its value and its position, after the compare-exchange. -/
def owned : ProducerPhase T → Option (Nat × T × Nat)
  | .moveData call item pos | .publish call item pos => some (call, item, pos)
  | _ => none

/-- The position that was loaded. -/
def seen : ProducerPhase T → Option Nat
  | .loadSeq _ _ pos | .cas _ _ pos => some pos
  | _ => none

theorem owned_of_waiting {phase : ProducerPhase T} {call : Nat} {item : T}
    (hwaiting : phase.waiting = some (call, item)) : phase.owned = none := by
  cases phase <;> first | rfl | cases hwaiting

end ProducerPhase

namespace MpscQueue

variable {T : Type*}

/-- The value that a call brings. -/
def item (q : MpscQueue T) (call : Nat) : Option T := (q.calls[call]?).map Prod.snd

/-- A call that is before its compare-exchange, and is the last of its
thread. -/
structure Fresh (q : MpscQueue T) (thread call : Nat) (item : T) : Prop where
  called : q.calls[call]? = some (thread, item)
  unclaimed : call ∉ q.claims
  pending : call ∉ q.rejected.map Prod.fst
  last : ∀ other ∈ q.claims, ∀ x, q.calls[other]? = some (thread, x) → other < call

/-- The calls: each has claimed one position, failed or is before its
compare-exchange, and those of one thread claim in their order. -/
structure Ledger (capacity : MpscCapacity) (q : MpscQueue T) : Prop where
  nodup : q.claims.Nodup
  known : ∀ call ∈ q.claims, call < q.calls.length
  ordered : q.claims.Pairwise fun first second =>
    ∀ thread x y, q.calls[first]? = some (thread, x) →
      q.calls[second]? = some (thread, y) → first < second
  failed : ∀ entry ∈ q.rejected, entry.1 ∉ q.claims ∧ entry.1 < q.calls.length ∧
    entry.2 = capacity.size
  fresh : ∀ thread call item, (q.producers thread).waiting = some (call, item) →
    q.Fresh thread call item
  accounted : ∀ call, call < q.calls.length →
    call ∈ q.claims ∨ call ∈ q.rejected.map Prod.fst ∨
      ∃ thread item, (q.producers thread).waiting = some (call, item)

/-- A step of one thread keeps what it keeps of that thread's phase. -/
theorem goto_congr {β : Type*} (f : ProducerPhase T → β) {q : MpscQueue T}
    {thread : Nat} {phase : ProducerPhase T}
    (hphase : f phase = f (q.producers thread)) (other : Nat) :
    f ((q.goto thread phase).producers other) = f (q.producers other) := by
  by_cases hother : other = thread
  · subst hother
    simpa [goto] using hphase
  · simp [goto, hother]

section Ledger

variable {capacity : MpscCapacity} {q : MpscQueue T}

theorem Ledger.length_le (hledger : q.Ledger capacity) :
    q.claims.length ≤ q.calls.length := by
  have hsub : q.claims ⊆ List.range q.calls.length := by
    intro call hcall
    exact List.mem_range.mpr (hledger.known call hcall)
  have hlength := (hledger.nodup.subperm hsub).length_le
  rwa [List.length_range] at hlength

/-- Two threads have not the same call. -/
theorem Fresh.ne {thread other call call' : Nat} {x y : T}
    (hfresh : q.Fresh thread call x) (hother : q.calls[call']? = some (other, y))
    (hne : other ≠ thread) : call' ≠ call := by
  intro heq
  rw [heq, hfresh.called, Option.some.injEq, Prod.mk.injEq] at hother
  exact hne hother.1.symm

theorem Ledger.congr {q' : MpscQueue T} (hledger : q.Ledger capacity)
    (hcalls : q'.calls = q.calls) (hclaims : q'.claims = q.claims)
    (hrejected : q'.rejected = q.rejected)
    (hwaiting : ∀ thread,
      (q'.producers thread).waiting = (q.producers thread).waiting) :
    q'.Ledger capacity where
  nodup := hclaims ▸ hledger.nodup
  known := by
    rw [hclaims, hcalls]
    exact hledger.known
  ordered := by
    rw [hclaims, hcalls]
    exact hledger.ordered
  failed := by
    rw [hrejected, hclaims, hcalls]
    exact hledger.failed
  fresh thread call item hphase := by
    rw [hwaiting] at hphase
    have hfresh := hledger.fresh thread call item hphase
    exact ⟨hcalls ▸ hfresh.called, hclaims ▸ hfresh.unclaimed,
      hrejected ▸ hfresh.pending, by rw [hclaims, hcalls]; exact hfresh.last⟩
  accounted := by
    simp only [hclaims, hcalls, hrejected, hwaiting]
    exact hledger.accounted

/-- A call is made. -/
theorem Ledger.push (hledger : q.Ledger capacity) {thread : Nat} (item : T)
    (hidle : q.producers thread = .idle) :
    Ledger capacity { q.goto thread (.loadPos q.calls.length item) with
      calls := q.calls ++ [(thread, item)] } := by
  have hold : ∀ call < q.calls.length,
      (q.calls ++ [(thread, item)])[call]? = q.calls[call]? := fun call hlt =>
    List.getElem?_append_left hlt
  have hrejected : ∀ call ∈ q.rejected.map Prod.fst, call < q.calls.length := by
    intro call hcall
    obtain ⟨entry, hentry, rfl⟩ := List.mem_map.mp hcall
    exact (hledger.failed entry hentry).2.1
  constructor
  case nodup => exact hledger.nodup
  case known =>
    intro call hcall
    have hlt := hledger.known call hcall
    simp only [List.length_append, List.length_singleton]
    omega
  case ordered =>
    refine hledger.ordered.imp_of_mem ?_
    intro first second hfirst hsecond hlt other x y hx hy
    rw [hold first (hledger.known first hfirst)] at hx
    rw [hold second (hledger.known second hsecond)] at hy
    exact hlt other x y hx hy
  case failed =>
    intro entry hentry
    obtain ⟨hclaims, hlt, hfull⟩ := hledger.failed entry hentry
    refine ⟨hclaims, ?_, hfull⟩
    simp only [List.length_append, List.length_singleton]
    omega
  case fresh =>
    intro other call value hphase
    by_cases hother : other = thread
    · subst hother
      simp only [goto, Function.update_self, ProducerPhase.waiting,
        Option.some.injEq,
        Prod.mk.injEq] at hphase
      obtain ⟨rfl, rfl⟩ := hphase
      refine ⟨List.getElem?_concat_length, ?_, ?_, ?_⟩
      · intro hmem
        exact absurd (hledger.known _ hmem) (Nat.lt_irrefl _)
      · intro hmem
        exact absurd (hrejected _ hmem) (Nat.lt_irrefl _)
      · intro earlier hmem x _
        exact hledger.known earlier hmem
    · simp only [goto, Function.update_of_ne hother] at hphase
      have hfresh := hledger.fresh other call value hphase
      have hlt := (List.getElem?_eq_some_iff.mp hfresh.called).1
      refine ⟨(hold call hlt).trans hfresh.called, hfresh.unclaimed,
        hfresh.pending, ?_⟩
      intro earlier hmem x hx
      rw [hold earlier (hledger.known earlier hmem)] at hx
      exact hfresh.last earlier hmem x hx
  case accounted =>
    intro call hlt
    simp only [List.length_append, List.length_singleton] at hlt
    by_cases hnew : call = q.calls.length
    · refine .inr (.inr ⟨thread, item, ?_⟩)
      simp [goto, ProducerPhase.waiting, hnew]
    · obtain hmem | hmem | ⟨other, value, hphase⟩ :=
        hledger.accounted call (by omega)
      · exact .inl hmem
      · exact .inr (.inl hmem)
      · have hother : other ≠ thread := by
          rintro rfl
          simp [hidle, ProducerPhase.waiting] at hphase
        exact .inr (.inr ⟨other, value, by simp [goto, hother, hphase]⟩)

/-- A call fails. -/
theorem Ledger.reject (hledger : q.Ledger capacity) {thread call : Nat} {item : T}
    (hwaiting : (q.producers thread).waiting = some (call, item)) :
    Ledger capacity { q.goto thread .idle with
      rejected := q.rejected ++ [(call, capacity.size)] } := by
  have hfresh := hledger.fresh thread call item hwaiting
  have hlt := (List.getElem?_eq_some_iff.mp hfresh.called).1
  constructor
  case nodup => exact hledger.nodup
  case known => exact hledger.known
  case ordered => exact hledger.ordered
  case failed =>
    intro entry hentry
    obtain hold | hnew := List.mem_append.mp hentry
    · exact hledger.failed entry hold
    · rw [List.mem_singleton.mp hnew]
      exact ⟨hfresh.unclaimed, hlt, rfl⟩
  case fresh =>
    intro other call' value hphase
    by_cases hother : other = thread
    · subst hother
      simp [goto, ProducerPhase.waiting] at hphase
    · simp only [goto, Function.update_of_ne hother] at hphase
      have hfresh' := hledger.fresh other call' value hphase
      refine ⟨hfresh'.called, hfresh'.unclaimed, ?_, hfresh'.last⟩
      simp only [List.map_append, List.map_cons, List.map_nil, List.mem_append,
        List.mem_singleton, not_or]
      exact ⟨hfresh'.pending, hfresh.ne hfresh'.called hother⟩
  case accounted =>
    intro call' hlt'
    simp only [List.map_append, List.map_cons, List.map_nil, List.mem_append,
      List.mem_singleton]
    obtain hmem | hmem | ⟨other, value, hphase⟩ := hledger.accounted call' hlt'
    · exact .inl hmem
    · exact .inr (.inl (.inl hmem))
    · by_cases hother : other = thread
      · subst hother
        rw [hwaiting, Option.some.injEq, Prod.mk.injEq] at hphase
        exact .inr (.inl (.inr hphase.1.symm))
      · exact .inr (.inr ⟨other, value, by simp [goto, hother, hphase]⟩)

/-- A call claims its position. -/
theorem Ledger.claim (hledger : q.Ledger capacity) {thread call : Nat} {item : T}
    {pos : Nat} (hwaiting : (q.producers thread).waiting = some (call, item)) :
    Ledger capacity { q.goto thread (.moveData call item pos) with
      enqueuePos := pos + 1
      claims := q.claims ++ [call] } := by
  have hfresh := hledger.fresh thread call item hwaiting
  have hlt := (List.getElem?_eq_some_iff.mp hfresh.called).1
  constructor
  case nodup =>
    have hnodup := List.Nodup.concat hfresh.unclaimed hledger.nodup
    rw [List.concat_eq_append] at hnodup
    exact hnodup
  case known =>
    intro other hother
    obtain hold | hnew := List.mem_append.mp hother
    · exact hledger.known other hold
    · rw [List.mem_singleton.mp hnew]
      exact hlt
  case ordered =>
    refine List.pairwise_append.mpr
      ⟨hledger.ordered, List.pairwise_singleton _ call, ?_⟩
    intro first hfirst second hsecond other x y hx hy
    rw [List.mem_singleton.mp hsecond] at hy ⊢
    have hthread : thread = other :=
      congrArg Prod.fst (Option.some.inj (hfresh.called.symm.trans hy))
    subst hthread
    exact hfresh.last first hfirst x hx
  case failed =>
    intro entry hentry
    obtain ⟨hclaims, hentrylt, hfull⟩ := hledger.failed entry hentry
    refine ⟨?_, hentrylt, hfull⟩
    simp only [List.mem_append, List.mem_singleton, not_or]
    refine ⟨hclaims, ?_⟩
    intro heq
    exact hfresh.pending (List.mem_map.mpr ⟨entry, hentry, heq⟩)
  case fresh =>
    intro other call' value hphase
    by_cases hother : other = thread
    · subst hother
      simp [goto, ProducerPhase.waiting] at hphase
    · simp only [goto, Function.update_of_ne hother] at hphase
      have hfresh' := hledger.fresh other call' value hphase
      refine ⟨hfresh'.called, ?_, hfresh'.pending, ?_⟩
      · simp only [List.mem_append, List.mem_singleton, not_or]
        exact ⟨hfresh'.unclaimed, hfresh.ne hfresh'.called hother⟩
      · intro earlier hmem x hx
        obtain hold | hnew := List.mem_append.mp hmem
        · exact hfresh'.last earlier hold x hx
        · exact absurd (List.mem_singleton.mp hnew) (hfresh.ne hx hother)
  case accounted =>
    intro call' hlt'
    simp only [List.mem_append, List.mem_singleton]
    obtain hmem | hmem | ⟨other, value, hphase⟩ := hledger.accounted call' hlt'
    · exact .inl (.inl hmem)
    · exact .inr (.inl hmem)
    · by_cases hother : other = thread
      · subst hother
        rw [hwaiting, Option.some.injEq, Prod.mk.injEq] at hphase
        exact .inl (.inr hphase.1.symm)
      · exact .inr (.inr ⟨other, value, by simp [goto, hother, hphase]⟩)

end Ledger

end MpscQueue

end UltraNet
