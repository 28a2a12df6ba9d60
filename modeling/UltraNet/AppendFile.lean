/-
Appending to a file through `::write` and `::fsync`.  What the system answers
is a script: each write may take any number of bytes, be interrupted, fail, or
be the moment at which the process is killed.  A script that is used up lets
the next write take everything that is left.
-/
import Mathlib.Data.List.Infix

namespace UltraNet

inductive WriteAnswer where
  | wrote (count : Nat)
  | interrupted
  | failed
  | killed
deriving DecidableEq

inductive SyncAnswer where
  | ok
  | failed
  | killed
deriving DecidableEq

structure IoScript where
  writes : List WriteAnswer
  sync : SyncAnswer
deriving DecidableEq

inductive CallOutcome where
  | returned (ok : Bool)
  | killed
deriving DecidableEq

/-- How a write loop treats a write of no bytes and `EINTR`. -/
structure WritePolicy where
  zeroFails : Bool
  retriesInterrupt : Bool

/-- The write loop: the bytes that reached the file and how it ended. -/
def writeLoop (policy : WritePolicy) :
    List UInt8 → List WriteAnswer → List UInt8 × CallOutcome
  | [], _ => ([], .returned true)
  | data@(_ :: _), [] => (data, .returned true)
  | data@(_ :: _), .wrote count :: answers =>
      if count = 0 ∧ policy.zeroFails then ([], .returned false)
      else
        let rest := writeLoop policy (data.drop count) answers
        (data.take count ++ rest.1, rest.2)
  | data@(_ :: _), .interrupted :: answers =>
      if policy.retriesInterrupt then writeLoop policy data answers
      else ([], .returned false)
  | _ :: _, .failed :: _ => ([], .returned false)
  | _ :: _, .killed :: _ => ([], .killed)

/-- The write loop, then `::fsync`. -/
def writeAndSync (policy : WritePolicy) (data : List UInt8) (io : IoScript) :
    List UInt8 × CallOutcome :=
  match writeLoop policy data io.writes with
  | (part, .returned true) =>
      match io.sync with
      | .ok => (part, .returned true)
      | .failed => (part, .returned false)
      | .killed => (part, .killed)
  | other => other

theorem writeLoop_prefix (policy : WritePolicy) (data : List UInt8)
    (answers : List WriteAnswer) :
    (writeLoop policy data answers).1 <+: data := by
  fun_induction writeLoop policy data answers with
  | case4 byte rest count answers hzero written ih =>
      obtain ⟨more, hmore⟩ := ih
      exact ⟨more, by rw [List.append_assoc, hmore, List.take_append_drop]⟩
  | case5 byte rest answers hretry ih => exact ih
  | _ => simp

theorem writeLoop_complete (policy : WritePolicy) (data : List UInt8)
    (answers : List WriteAnswer)
    (hdone : (writeLoop policy data answers).2 = .returned true) :
    (writeLoop policy data answers).1 = data := by
  fun_induction writeLoop policy data answers with
  | case4 byte rest count answers hzero written ih =>
      rw [ih hdone, List.take_append_drop]
  | case5 byte rest answers hretry ih => exact ih hdone
  | case1 | case2 => rfl
  | _ => simp at hdone

/-- All bytes reach the file only when the loop ends normally. -/
theorem writeLoop_returned (policy : WritePolicy) (data : List UInt8)
    (answers : List WriteAnswer)
    (hall : (writeLoop policy data answers).1 = data) :
    (writeLoop policy data answers).2 = .returned true := by
  fun_induction writeLoop policy data answers with
  | case4 byte rest count answers hzero written ih =>
      have hsplit : (byte :: rest).take count ++ written.1 =
          (byte :: rest).take count ++ (byte :: rest).drop count := by
        rw [List.take_append_drop]
        exact hall
      exact ih (List.append_cancel_left hsplit)
  | case5 byte rest answers hretry ih => exact ih hall
  | case1 | case2 => rfl
  | _ => simp at hall

theorem writeAndSync_fst (policy : WritePolicy) (data : List UInt8)
    (io : IoScript) :
    (writeAndSync policy data io).1 = (writeLoop policy data io.writes).1 := by
  unfold writeAndSync
  split
  · rename_i part hwrite
    cases io.sync <;> simp [hwrite]
  · rfl

theorem writeAndSync_returned (policy : WritePolicy) (data : List UInt8)
    (io : IoScript) :
    (writeAndSync policy data io).2 = .returned true ↔
      (writeLoop policy data io.writes).2 = .returned true ∧ io.sync = .ok := by
  unfold writeAndSync
  split
  · rename_i part hwrite
    cases io.sync <;> simp [hwrite]
  · rename_i hother
    constructor
    · intro hdone
      exact (hother _ (Prod.ext rfl hdone)).elim
    · rintro ⟨hdone, -⟩
      exact hdone

/-- The answers of a system in which an append is whole or fails at once. -/
def wholeOrNothing (written : Bool) : IoScript :=
  if written then ⟨[], .ok⟩ else ⟨[.failed], .ok⟩

theorem writeAndSync_wholeOrNothing (policy : WritePolicy) {data : List UInt8}
    (hdata : data ≠ []) (written : Bool) :
    writeAndSync policy data (wholeOrNothing written) =
      if written then (data, .returned true) else ([], .returned false) := by
  obtain ⟨byte, rest, rfl⟩ := List.exists_cons_of_ne_nil hdata
  cases written <;> rfl

end UltraNet
