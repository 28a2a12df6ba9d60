/-
A queue that is filled at its end and read at its front by any number of items
at a time.
-/
import UltraNet.GuardedRun
import Mathlib.Algebra.GroupWithZero.Nat
import Mathlib.Data.List.DropRight

namespace UltraNet

universe u

/-- What is done with the queue. -/
inductive BulkAct (A : Type u) where
  | append (items : List A)
  | consume (n : Nat)
  | reset

namespace BulkAct

variable {A : Type u}

def isReset : BulkAct A → Bool
  | .reset => true
  | .append _ | .consume _ => false

/-- The items that an action brings. -/
def items : BulkAct A → List A
  | .append items => items
  | .consume _ | .reset => []

/-- The number of items that an action takes. -/
def count : BulkAct A → Nat
  | .consume n => n
  | .append _ | .reset => 0

end BulkAct

namespace BulkQueue

variable {A : Type u}

/-- More items cannot be taken than there are. -/
def step (queue : List A) : BulkAct A → Option (List A)
  | .append items => some (queue ++ items)
  | .consume n => if n ≤ queue.length then some (queue.drop n) else none
  | .reset => some []

def machine (A : Type u) : Machine (List A) (BulkAct A) := ⟨[], step⟩

/-- What has been done since the last reset. -/
def sinceReset (word : List (BulkAct A)) : List (BulkAct A) :=
  word.rtakeWhile fun act => !act.isReset

/-- The items that came since the last reset. -/
def appended (word : List (BulkAct A)) : List A :=
  (sinceReset word).flatMap BulkAct.items

/-- The number of those that were taken. -/
def consumed (word : List (BulkAct A)) : Nat :=
  ((sinceReset word).map BulkAct.count).sum

@[simp]
theorem appended_nil : appended ([] : List (BulkAct A)) = [] := rfl

@[simp]
theorem consumed_nil : consumed ([] : List (BulkAct A)) = 0 := rfl

/-- The actions one at a time, for both counts. -/
@[simp]
theorem appended_concat_append (word : List (BulkAct A)) (items : List A) :
    appended (word ++ [.append items]) = appended word ++ items := by
  simp [appended, sinceReset, BulkAct.isReset, BulkAct.items]

@[simp]
theorem consumed_concat_append (word : List (BulkAct A)) (items : List A) :
    consumed (word ++ [.append items]) = consumed word := by
  simp [consumed, sinceReset, BulkAct.isReset, BulkAct.count]

@[simp]
theorem appended_concat_consume (word : List (BulkAct A)) (n : Nat) :
    appended (word ++ [.consume n]) = appended word := by
  simp [appended, sinceReset, BulkAct.isReset, BulkAct.items]

@[simp]
theorem consumed_concat_consume (word : List (BulkAct A)) (n : Nat) :
    consumed (word ++ [.consume n]) = consumed word + n := by
  simp [consumed, sinceReset, BulkAct.isReset, BulkAct.count]

@[simp]
theorem appended_concat_reset (word : List (BulkAct A)) :
    appended (word ++ [.reset]) = [] := by
  simp [appended, sinceReset, BulkAct.isReset]

@[simp]
theorem consumed_concat_reset (word : List (BulkAct A)) :
    consumed (word ++ [.reset]) = 0 := by
  simp [consumed, sinceReset, BulkAct.isReset]

/-- The queue is what has been appended and not consumed since the last reset. -/
theorem run_eq_drop (word : List (BulkAct A)) {queue : List A}
    (hrun : (machine A).run word = some queue) :
    consumed word ≤ (appended word).length ∧
      queue = (appended word).drop (consumed word) := by
  induction word using List.reverseRecOn generalizing queue with
  | nil =>
      obtain rfl := Option.some.inj hrun
      exact ⟨Nat.le_refl 0, rfl⟩
  | append_singleton word act ih =>
      rw [Machine.run_concat] at hrun
      obtain ⟨middle, hmiddle, hstep⟩ := Option.bind_eq_some_iff.mp hrun
      obtain ⟨hle, rfl⟩ := ih hmiddle
      cases act with
      | append items =>
          obtain rfl := Option.some.inj hstep
          rw [appended_concat_append, consumed_concat_append, List.length_append,
            List.drop_append_of_le_length hle]
          exact ⟨Nat.le_add_right_of_le hle, rfl⟩
      | consume n =>
          obtain ⟨hn, hnext⟩ := Option.ite_none_right_eq_some.mp hstep
          obtain rfl := Option.some.inj hnext
          rw [List.length_drop] at hn
          rw [appended_concat_consume, consumed_concat_consume, List.drop_drop]
          exact ⟨by omega, rfl⟩
      | reset =>
          obtain rfl := Option.some.inj hstep
          simp

end BulkQueue

end UltraNet
