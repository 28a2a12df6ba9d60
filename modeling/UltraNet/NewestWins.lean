/-
Tables in which the row of the greatest rank wins: a row that is offered for a
key replaces one of smaller rank, and of equals the old one stays.
-/
import Mathlib.Order.Lattice
import UltraNet.AssocTable

namespace UltraNet

universe u v w

variable {K : Type u} {V : Type v} {T : Type w} [LinearOrder T]

/-- The row that wins over the old one and those that are offered. -/
def IsNewest (rank : V → T) (old : Option V) (offered : List V) : Option V → Prop
  | none => old = none ∧ offered = []
  | some row =>
      (old = some row ∨
          row ∈ offered ∧ ∀ known, old = some known → rank known < rank row) ∧
        ∀ other ∈ offered, rank other ≤ rank row

namespace IsNewest

variable {rank : V → T} {old new last : Option V} {offered : List V} {row : V}

theorem of_nil (hnewest : IsNewest rank old [] new) : new = old := by
  cases new with
  | none => exact hnewest.1.symm
  | some row =>
      obtain hold | ⟨hmem, -⟩ := hnewest.1
      · exact hold.symm
      · cases hmem

theorem nil (old : Option V) : IsNewest rank old [] old := by
  cases old with
  | none => exact ⟨rfl, rfl⟩
  | some row => exact ⟨.inl rfl, by simp⟩

/-- One row after the other. -/
theorem cons {mid : Option V} (hfirst : IsNewest rank old [row] mid)
    (hrest : IsNewest rank mid offered new) :
    IsNewest rank old (row :: offered) new := by
  cases mid with
  | none => cases hfirst.2
  | some known =>
      obtain ⟨hfrom, hrow⟩ := hfirst
      have hle : rank row ≤ rank known := hrow row List.mem_cons_self
      cases new with
      | none => cases hrest.1
      | some found =>
          obtain ⟨hfound, hothers⟩ := hrest
          have hlast : rank known ≤ rank found := by
            obtain hsame | ⟨-, hless⟩ := hfound
            · rw [Option.some.inj hsame]
            · exact le_of_lt (hless known rfl)
          refine ⟨?_, List.forall_mem_cons.mpr ⟨le_trans hle hlast, hothers⟩⟩
          obtain hsame | ⟨hmem, hless⟩ := hfound
          · obtain rfl := Option.some.inj hsame
            obtain hold | ⟨hmem, hnewer⟩ := hfrom
            · exact .inl hold
            · refine .inr ⟨?_, hnewer⟩
              rw [List.mem_singleton.mp hmem]
              exact List.mem_cons_self
          · refine .inr ⟨List.mem_cons_of_mem row hmem, fun before hbefore => ?_⟩
            obtain hold | ⟨-, hnewer⟩ := hfrom
            · rw [hold] at hbefore
              rw [← Option.some.inj hbefore]
              exact hless known rfl
            · exact lt_trans (hnewer before hbefore) (hless known rfl)

/-- What has won once stays. -/
theorem again (hnewest : IsNewest rank old offered new)
    (hagain : IsNewest rank new offered last) : last = new := by
  cases new with
  | none =>
      rw [hnewest.2] at hagain
      exact hagain.of_nil
  | some row =>
      cases last with
      | none => cases hagain.1
      | some found =>
          obtain hsame | ⟨hmem, hnewer⟩ := hagain.1
          · exact hsame.symm
          · exact absurd (hnewer row rfl) (not_lt.mpr (hnewest.2 found hmem))

theorem single (hnewest : IsNewest rank none [row] new) : new = some row := by
  cases new with
  | none => cases hnewest.2
  | some found =>
      obtain hold | ⟨hmem, -⟩ := hnewest.1
      · cases hold
      · rw [List.mem_singleton.mp hmem]

theorem mem_of_none (hnewest : IsNewest rank none offered (some row)) :
    row ∈ offered := by
  obtain hold | ⟨hmem, -⟩ := hnewest.1
  · cases hold
  · exact hmem

end IsNewest

namespace Table

variable [DecidableEq K] (rank : V → T) (key : V → K) (table : Table K V)

/-- A row is offered for its key. -/
def offer (row : V) : Table K V :=
  match table.lookup (key row) with
  | none => table.insert (key row) row
  | some known =>
      if rank known < rank row then table.insert (key row) row else table

theorem isNewest_offer (row : V) :
    IsNewest rank (table.lookup (key row)) [row]
      ((table.offer rank key row).lookup (key row)) := by
  unfold offer
  cases hknown : table.lookup (key row) with
  | none =>
      rw [lookup_insert, if_pos rfl]
      exact ⟨.inr ⟨List.mem_cons_self, by simp⟩, by simp⟩
  | some known =>
      simp only
      by_cases hnewer : rank known < rank row
      · rw [if_pos hnewer, lookup_insert, if_pos rfl]
        exact ⟨.inr ⟨List.mem_cons_self, by simpa using hnewer⟩, by simp⟩
      · rw [if_neg hnewer, hknown]
        exact ⟨.inl rfl, by simpa using hnewer⟩

theorem lookup_offer_ne {row : V} {other : K} (hother : other ≠ key row) :
    (table.offer rank key row).lookup other = table.lookup other := by
  unfold offer
  cases table.lookup (key row) with
  | none => rw [lookup_insert, if_neg hother]
  | some known =>
      simp only
      split
      · rw [lookup_insert, if_neg hother]
      · rfl

/-- After many offers each key has the newest of its rows. -/
theorem isNewest_offers (rows : List V) (other : K) :
    IsNewest rank (table.lookup other) (rows.filter (key · = other))
      ((rows.foldl (offer rank key) table).lookup other) := by
  induction rows generalizing table with
  | nil => exact IsNewest.nil _
  | cons row rows ih =>
      rw [List.foldl_cons]
      by_cases hkey : key row = other
      · rw [List.filter_cons_of_pos (by simpa using hkey)]
        subst hkey
        exact (table.isNewest_offer rank key row).cons (ih _)
      · have hrest := ih (table.offer rank key row)
        rw [lookup_offer_ne rank key table (Ne.symm hkey)] at hrest
        rwa [List.filter_cons_of_neg (by simpa using hkey)]

end Table

end UltraNet
