/-
What the steps of a work-stealing deque leave alone and what they return, in every run
and whatever the allocator does.
-/
import UltraNet.WorkStealing

namespace UltraNet

namespace Deque

variable {T : Type} {heap : ArrayHeap} {s s' : Deque T} {thread : Nat}

/-- The owner is in no call, and nothing is left for it. -/
structure Spent (s : Deque T) : Prop where
  owner : s.owner = .idle
  size : s.size = 0

theorem size_eq_zero : s.size = 0 ↔ s.bottom ≤ s.top := by
  unfold size
  omega

/-- What a `pop` has read of `top`. -/
def PopSaw (s : Deque T) : Prop :=
  match s.owner with
  | .popCas b _ => b ≤ s.top
  | .popRestore b => b < s.top
  | _ => True

theorem popSaw_of_idle (howner : s.owner = .idle) : s.PopSaw := by
  simp only [PopSaw, howner]

/-- What a step of the owner does besides: it touches no thief, and it returns what
`popResult` says. -/
structure Turned (s s' : Deque T) : Prop where
  thieves : s'.thieves = s.thieves
  returned : s'.returned = s.returned ++ s.popResult.join.toList
  popSaw : s.PopSaw → s'.PopSaw

/-- A step in which no call returns a value. -/
theorem Turned.of_silent (hthieves : s'.thieves = s.thieves) (hreturned : s'.returned = s.returned)
    (hresult : s.popResult.join = none) (hsaw : s.PopSaw → s'.PopSaw) : s.Turned s' := by
  refine ⟨hthieves, ?_, hsaw⟩
  rw [hreturned, hresult, Option.toList_none, List.append_nil]

theorem owner_turned (hstep : s.step heap .owner = some s') : s.Turned s' := by
  simp only [step] at hstep
  cases howner : s.owner with
  | idle | outside => simp only [ownerStep, howner, reduceCtorEq] at hstep
  | pushBuffer item b t =>
      have hresult : s.popResult.join = none := by simp only [popResult, howner, Option.join_none]
      simp only [ownerStep, howner] at hstep
      split at hstep
      case isTrue =>
        split at hstep <;>
          (obtain rfl := Option.some.inj hstep; exact .of_silent rfl rfl hresult fun _ => trivial)
      case isFalse =>
        obtain rfl := Option.some.inj hstep
        exact .of_silent rfl rfl hresult fun _ => trivial
  | resize | pushPut =>
      have hresult : s.popResult.join = none := by simp only [popResult, howner, Option.join_none]
      simp only [ownerStep, howner] at hstep
      split at hstep <;>
        (obtain rfl := Option.some.inj hstep; exact .of_silent rfl rfl hresult fun _ => trivial)
  | popTop b buf =>
      have hresult : s.popResult.join = none := by simp only [popResult, howner, Option.join_none]
      simp only [ownerStep, howner] at hstep
      split at hstep
      case isTrue hlast =>
        split at hstep <;> obtain rfl := Option.some.inj hstep
        case isTrue heq => exact .of_silent rfl rfl hresult fun _ => heq.ge
        case isFalse => exact .of_silent rfl rfl hresult fun _ => trivial
      case isFalse hempty =>
        obtain rfl := Option.some.inj hstep
        exact .of_silent rfl rfl hresult fun _ => Int.not_le.mp hempty
  | popCas b buf =>
      have hresult : s.popResult.join = none := by simp only [popResult, howner, Option.join_none]
      simp only [ownerStep, howner] at hstep
      split at hstep <;> obtain rfl := Option.some.inj hstep
      case isTrue => exact .of_silent rfl rfl hresult fun _ => trivial
      case isFalse hne =>
        refine .of_silent rfl rfl hresult fun hs => ?_
        simp only [PopSaw, howner] at hs
        exact lt_of_le_of_ne hs (Ne.symm hne)
  | popGet b buf =>
      simp only [ownerStep, howner, Option.some.injEq] at hstep
      subst hstep
      refine ⟨rfl, ?_, fun _ => trivial⟩
      simp only [takeSlot, popResult, howner, Option.join_some, Option.toList_some]
  | _ =>
      have hresult : s.popResult.join = none := by
        simp only [popResult, howner, Option.join_none, Option.join_some]
      simp only [ownerStep, howner, Option.some.injEq] at hstep
      subst hstep
      exact .of_silent rfl rfl hresult fun _ => trivial

/-- What a step of a thief leaves to the owner. -/
structure Robbed (s s' : Deque T) : Prop where
  owner : s'.owner = s.owner
  bottom : s'.bottom = s.bottom
  top : s.top ≤ s'.top

theorem Robbed.refl (s : Deque T) : s.Robbed s := ⟨rfl, rfl, Int.le_refl _⟩

theorem Robbed.trans {middle : Deque T} (hfirst : s.Robbed middle) (hlast : middle.Robbed s') :
    s.Robbed s' where
  owner := hlast.owner.trans hfirst.owner
  bottom := hlast.bottom.trans hfirst.bottom
  top := hfirst.top.trans hlast.top

theorem thief_robbed (hstep : s.step heap (.thief thread) = some s') : s.Robbed s' := by
  obtain ⟨thief, -, rfl⟩ := Option.map_eq_some_iff.mp hstep
  cases thief with
  | loadBottom t =>
      simp only [thiefStep]
      split <;> exact ⟨rfl, rfl, Int.le_refl _⟩
  | cas t buf =>
      simp only [thiefStep]
      split
      case isTrue heq => exact ⟨rfl, rfl, by subst heq; exact Int.le_add_one (Int.le_refl _)⟩
      case isFalse => exact ⟨rfl, rfl, Int.le_refl _⟩
  | _ => exact ⟨rfl, rfl, Int.le_refl _⟩

theorem Robbed.spent (hrobbed : s.Robbed s') (hs : s.Spent) : s'.Spent := by
  have hsize := size_eq_zero.mp hs.size
  refine ⟨hrobbed.owner.trans hs.owner, size_eq_zero.mpr ?_⟩
  rw [hrobbed.bottom]
  exact hsize.trans hrobbed.top

theorem Robbed.popSaw (hrobbed : s.Robbed s') (hs : s.PopSaw) : s'.PopSaw := by
  have htop := hrobbed.top
  unfold PopSaw at hs ⊢
  rw [hrobbed.owner]
  split at hs
  · exact hs.trans htop
  · exact Int.lt_of_lt_of_le hs htop
  · trivial

/-- `pop` has returned; without a value only if it has left nothing. -/
theorem owner_popped {result : Option (Option T)} (hs : s.PopSaw) (hresult : s.popResult = some result)
    (hstep : s.step heap .owner = some s') :
    s'.owner = .idle ∧ (result = none → s'.Spent) := by
  simp only [step] at hstep
  cases howner : s.owner <;> simp only [popResult, howner, reduceCtorEq] at hresult
  case popRestore b =>
    simp only [PopSaw, howner] at hs
    simp only [ownerStep, howner, Option.some.injEq] at hstep
    subst hstep
    exact ⟨rfl, fun _ => ⟨rfl, size_eq_zero.mpr hs⟩⟩
  case popGet b buf =>
    simp only [ownerStep, howner, Option.some.injEq] at hstep
    subst hstep
    obtain rfl := Option.some.inj hresult
    exact ⟨rfl, nofun⟩

/-- A call of the owner begins. -/
theorem call_begun {move : DequeMove T} (hcall : (∃ item, move = .push item) ∨ move = .pop)
    (hstep : s.step heap move = some s') :
    s.owner = .idle ∧ s'.thieves = s.thieves ∧ s'.returned = s.returned ∧ s'.PopSaw := by
  obtain ⟨item, rfl⟩ | rfl := hcall
  all_goals
    simp only [step] at hstep
    split at hstep <;> simp only [Option.some.injEq, reduceCtorEq] at hstep
    rename_i howner
    subst hstep
    exact ⟨howner, rfl, rfl, trivial⟩

/-- A step of a thief returns what `stealResult` says, and ends its call there. -/
theorem thief_returned (hstep : s.step heap (.thief thread) = some s') :
    s'.returned = s.returned ++ (s.stealResult thread).join.toList ∧
      ∃ next, s'.thieves = s.thieves.set thread next ∧
        ((s.stealResult thread).isSome → next = .idle) := by
  obtain ⟨thief, hthief, rfl⟩ := Option.map_eq_some_iff.mp hstep
  cases thief with
  | idle | loadBuffer t =>
      simp only [stealResult, hthief, thiefStep, setThief]
      exact ⟨(List.append_nil _).symm, _, rfl, nofun⟩
  | loadBottom t =>
      simp only [stealResult, hthief, thiefStep]
      split
      · exact ⟨(List.append_nil _).symm, _, rfl, fun _ => rfl⟩
      · exact ⟨(List.append_nil _).symm, _, rfl, nofun⟩
  | cas t buf =>
      simp only [stealResult, hthief, thiefStep]
      split
      · exact ⟨(List.append_nil _).symm, _, rfl, nofun⟩
      · exact ⟨(List.append_nil _).symm, _, rfl, fun _ => rfl⟩
  | get t buf =>
      simp only [stealResult, hthief, thiefStep]
      exact ⟨rfl, _, rfl, fun _ => rfl⟩

end Deque

end UltraNet
