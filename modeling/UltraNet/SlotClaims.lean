/-
Memory cells that each hold a value or nothing, and claimants that each claim
at most one cell.  The cells are held when exactly the claimed ones are full
and no cell is claimed twice; values are then moved by passing claims on and by
filling and clearing cells.
-/
import Mathlib.Data.List.ReduceOption
import Mathlib.Data.List.NodupEquivFin
import Mathlib.Data.Multiset.Basic

namespace UltraNet

universe u v

variable {T : Type u} {C : Type v}

def slotAt (cells : List (Option T)) (p : Nat) : Option T :=
  cells[p]?.join

theorem slotAt_set (cells : List (Option T)) (p q : Nat) (x : Option T)
    (hp : p < cells.length) :
    slotAt (cells.set p x) q = if q = p then x else slotAt cells q := by
  unfold slotAt
  rw [List.getElem?_set]
  split
  · subst_vars
    simp
  · rename_i hne
    rw [if_neg (Ne.symm hne)]

theorem slotAt_set_none (cells : List (Option T)) (p q : Nat) :
    slotAt (cells.set p none) q = if q = p then none else slotAt cells q := by
  by_cases hp : p < cells.length
  · exact slotAt_set cells p q none hp
  · rw [List.set_eq_of_length_le (Nat.not_lt.mp hp)]
    split
    · subst_vars
      simp [slotAt, Nat.not_lt.mp hp]
    · rfl

/-- The values in the cells. -/
def contents (cells : List (Option T)) : Multiset T :=
  (cells.reduceOption : Multiset T)

theorem contents_take {cells : List (Option T)} {p : Nat} {x : T}
    (hfull : slotAt cells p = some x) :
    contents cells = x ::ₘ contents (cells.set p none) := by
  induction cells generalizing p with
  | nil => cases hfull
  | cons head tail ih =>
      cases p with
      | zero =>
          obtain rfl : head = some x := hfull
          simp [contents]
      | succ p =>
          have htail : slotAt tail p = some x := hfull
          cases head with
          | none => simpa [contents] using ih htail
          | some y =>
              have := congrArg (y ::ₘ ·) (ih htail)
              simp only [contents] at this ⊢
              rw [Multiset.cons_swap] at this
              simpa using this

theorem contents_set_none {cells : List (Option T)} {p : Nat}
    (hempty : slotAt cells p = none) :
    contents (cells.set p none) = contents cells := by
  congr 2
  apply List.ext_getElem?
  intro q
  rw [List.getElem?_set]
  split
  · subst_vars
    split
    · rename_i hp
      unfold slotAt at hempty
      rw [List.getElem?_eq_getElem hp] at hempty ⊢
      exact congrArg some hempty.symm
    · rename_i hp
      exact (List.getElem?_eq_none (Nat.not_lt.mp hp)).symm
  · rfl

theorem contents_put {cells : List (Option T)} {p : Nat} (x : T)
    (hp : p < cells.length) (hempty : slotAt cells p = none) :
    contents (cells.set p (some x)) = x ::ₘ contents cells := by
  have hfull : slotAt (cells.set p (some x)) p = some x := by
    rw [slotAt_set cells p p _ hp, if_pos rfl]
  rw [contents_take hfull, List.set_set, contents_set_none hempty]

theorem slotAt_append_replicate (cells : List (Option T)) (n p : Nat) :
    slotAt (cells ++ List.replicate n none) p = slotAt cells p := by
  unfold slotAt
  by_cases hp : p < cells.length
  · rw [List.getElem?_append_left hp]
  · rw [List.getElem?_append_right (Nat.not_lt.mp hp),
      List.getElem?_eq_none (Nat.not_lt.mp hp), List.getElem?_replicate]
    split <;> rfl

theorem contents_append_replicate (cells : List (Option T)) (n : Nat) :
    contents (cells ++ List.replicate n none) = contents cells := by
  simp [contents, List.reduceOption_append]

/-- The full cells in any order give the contents. -/
theorem contents_eq_of_full {cells : List (Option T)} {full : List Nat}
    (hnodup : full.Nodup)
    (hfull : ∀ p, p ∈ full ↔ (slotAt cells p).isSome) :
    contents cells = ((full.map (slotAt cells)).reduceOption : Multiset T) := by
  induction full generalizing cells with
  | nil =>
      refine Multiset.eq_zero_of_forall_notMem fun x hx => ?_
      obtain ⟨p, hp⟩ := List.mem_iff_getElem?.mp
        (List.reduceOption_mem_iff.mp (Multiset.mem_coe.mp hx))
      have : (slotAt cells p).isSome := by simp [slotAt, hp]
      exact absurd ((hfull p).mpr this) List.not_mem_nil
  | cons p rest ih =>
      obtain ⟨hp, hrest⟩ := List.nodup_cons.mp hnodup
      obtain ⟨x, hx⟩ := Option.isSome_iff_exists.mp
        ((hfull p).mp List.mem_cons_self)
      have hother : ∀ q ∈ rest, slotAt (cells.set p none) q = slotAt cells q := by
        intro q hq
        rw [slotAt_set_none, if_neg (ne_of_mem_of_not_mem hq hp)]
      rw [contents_take hx, ih hrest, List.map_congr_left hother]
      · simp [hx]
      · intro q
        rw [slotAt_set_none]
        split
        · subst_vars
          exact ⟨fun hq => absurd hq hp, nofun⟩
        · rename_i hqp
          rw [← hfull q, List.mem_cons]
          exact ⟨.inr, fun h => h.resolve_left hqp⟩

/-- Exactly the claimed cells are full, and no cell has two claimants. -/
structure Held (claim : C → Option Nat) (cells : List (Option T)) : Prop where
  injective : ∀ {c d p}, claim c = some p → claim d = some p → c = d
  full_iff : ∀ p, (slotAt cells p).isSome ↔ ∃ c, claim c = some p

namespace Held

variable {claim claim' : C → Option Nat} {cells : List (Option T)}

theorem congr (hheld : Held claim cells) (hclaim : ∀ c, claim' c = claim c) :
    Held claim' cells := by
  rwa [funext hclaim]

theorem append_replicate (hheld : Held claim cells) (n : Nat) :
    Held claim (cells ++ List.replicate n none) :=
  ⟨hheld.injective, fun p => by
    rw [slotAt_append_replicate]
    exact hheld.full_iff p⟩

theorem empty_of_unclaimed (hheld : Held claim cells) {p : Nat}
    (hclaim : ∀ c, claim c ≠ some p) : slotAt cells p = none := by
  by_contra hfull
  obtain ⟨c, hc⟩ := (hheld.full_iff p).mp (Option.isSome_iff_ne_none.mpr hfull)
  exact hclaim c hc

/-- A claim passes from one claimant to another. -/
theorem pass (hheld : Held claim cells) {c d : C} (hd : claim d = none)
    (hc' : claim' c = none) (hd' : claim' d = claim c)
    (hothers : ∀ e, e ≠ c → e ≠ d → claim' e = claim e) : Held claim' cells := by
  have hback : ∀ {e p}, claim' e = some p →
      (e = d ∧ claim c = some p) ∨ (e ≠ d ∧ e ≠ c ∧ claim e = some p) := by
    intro e p he
    by_cases hed : e = d
    · exact .inl ⟨hed, by rw [← hd', ← hed, he]⟩
    · have hec : e ≠ c := by
        rintro rfl
        rw [hc'] at he
        cases he
      exact .inr ⟨hed, hec, by rw [← hothers e hec hed, he]⟩
  constructor
  · intro e f p he hf
    obtain ⟨rfl, hep⟩ | ⟨-, hec, hep⟩ := hback he
    · obtain ⟨rfl, -⟩ | ⟨-, hfc, hfp⟩ := hback hf
      · rfl
      · exact absurd (hheld.injective hfp hep) hfc
    · obtain ⟨rfl, hfp⟩ | ⟨-, -, hfp⟩ := hback hf
      · exact absurd (hheld.injective hep hfp) hec
      · exact hheld.injective hep hfp
  · intro p
    rw [hheld.full_iff p]
    constructor
    · rintro ⟨e, he⟩
      by_cases hec : e = c
      · exact ⟨d, by rw [hd', ← hec, he]⟩
      · have hed : e ≠ d := by
          rintro rfl
          rw [hd] at he
          cases he
        exact ⟨e, by rw [hothers e hec hed, he]⟩
    · rintro ⟨e, he⟩
      obtain ⟨-, hep⟩ | ⟨-, -, hep⟩ := hback he
      · exact ⟨c, hep⟩
      · exact ⟨e, hep⟩

/-- A claimant takes the value out of its cell and gives up the claim. -/
theorem clear (hheld : Held claim cells) {c : C} {p : Nat}
    (hc : claim c = some p) (hc' : claim' c = none)
    (hothers : ∀ e, e ≠ c → claim' e = claim e) :
    Held claim' (cells.set p none) := by
  have hback : ∀ {e q}, claim' e = some q → e ≠ c ∧ claim e = some q := by
    intro e q he
    have hec : e ≠ c := by
      rintro rfl
      rw [hc'] at he
      cases he
    exact ⟨hec, by rw [← hothers e hec, he]⟩
  constructor
  · intro e f q he hf
    exact hheld.injective (hback he).2 (hback hf).2
  · intro q
    rw [slotAt_set_none]
    split
    · subst_vars
      refine ⟨nofun, ?_⟩
      rintro ⟨e, he⟩
      exact absurd (hheld.injective (hback he).2 hc) (hback he).1
    · rename_i hqp
      rw [hheld.full_iff q]
      constructor
      · rintro ⟨e, he⟩
        have hec : e ≠ c := by
          rintro rfl
          exact hqp (Option.some.inj (he.symm.trans hc))
        exact ⟨e, by rw [hothers e hec, he]⟩
      · rintro ⟨e, he⟩
        exact ⟨e, (hback he).2⟩

/-- A claimant without a cell fills one that nobody claims. -/
theorem fill (hheld : Held claim cells) {c : C} {p : Nat} {x : T}
    (hp : p < cells.length) (hempty : slotAt cells p = none)
    (hc : claim c = none) (hc' : claim' c = some p)
    (hothers : ∀ e, e ≠ c → claim' e = claim e) :
    Held claim' (cells.set p (some x)) := by
  have hfree : ∀ e, claim e ≠ some p := by
    intro e he
    have := (hheld.full_iff p).mpr ⟨e, he⟩
    rw [hempty] at this
    cases this
  constructor
  · intro e f q he hf
    by_cases hec : e = c <;> by_cases hfc : f = c
    · rw [hec, hfc]
    · subst hec
      obtain rfl := Option.some.inj (he.symm.trans hc')
      exact absurd ((hothers f hfc).symm.trans hf) (hfree f)
    · subst hfc
      obtain rfl := Option.some.inj (hf.symm.trans hc')
      exact absurd ((hothers e hec).symm.trans he) (hfree e)
    · exact hheld.injective ((hothers e hec).symm.trans he)
        ((hothers f hfc).symm.trans hf)
  · intro q
    rw [slotAt_set cells p q _ hp]
    split
    · subst_vars
      exact ⟨fun _ => ⟨c, hc'⟩, fun _ => rfl⟩
    · rename_i hqp
      rw [hheld.full_iff q]
      constructor
      · rintro ⟨e, he⟩
        have hec : e ≠ c := by
          rintro rfl
          rw [hc] at he
          cases he
        exact ⟨e, by rw [hothers e hec, he]⟩
      · rintro ⟨e, he⟩
        have hec : e ≠ c := by
          rintro rfl
          exact hqp (Option.some.inj (he.symm.trans hc'))
        exact ⟨e, by rw [← hothers e hec, he]⟩

/-- Clearing a cell that is empty changes nothing. -/
theorem clear_empty (hheld : Held claim cells) {p : Nat}
    (hempty : slotAt cells p = none) : Held claim (cells.set p none) := by
  refine ⟨hheld.injective, fun q => ?_⟩
  rw [slotAt_set_none, ← hheld.full_iff q]
  split
  · subst_vars
    rw [hempty]
  · rfl

end Held

end UltraNet
