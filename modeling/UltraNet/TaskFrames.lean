/-
`Task`: coroutine frames, the `Task` objects that own them, and the pool that runs
them.  A frame is resumed through a handle in a queue or by the last step of the
coroutine that it awaits, and destroyed by the destructor of its `Task` or, where no
`Task` is left, by its own last step.  The queues are taken to give out each handle
that was put into them once, as those of the pool do whose deques are not disturbed.
-/
import UltraNet.SharedCount

namespace UltraNet

/-- Where a coroutine is.  `finishing` is its final suspend point before
`notify_complete`, `notified` after it and before the parent is looked at. -/
inductive FramePhase where
  | created
  | queued
  | running
  | awaiting (child : Nat)
  | parked
  | finishing
  | notified
  | finished
  | destroyed
deriving DecidableEq

/-- Who holds the `Task` of a frame: a variable or a parameter of another coroutine,
code outside of the pool, or no one any more. -/
inductive FrameOwner where
  | frame (i : Nat)
  | outside
  | released
deriving DecidableEq

/-- `outcome` is the value or the exception in the promise, `submitted` says that
`m_notify_fn` is set.  Ghosts: how often the frame was destroyed, the tasks that the
coroutine has awaited, and what they have given it. -/
structure TaskFrame (O : Type) where
  phase : FramePhase
  owner : FrameOwner
  caller : Option Nat
  submitted : Bool
  outcome : Option O
  destroys : Nat
  awaits : List Nat
  returns : List (Nat × O)

/-- `ready` holds the handles in the queues of the pool, `active` is
`m_active_tasks`; `faults` counts the accesses to frames that are gone and the
resumptions of coroutines that are not suspended there. -/
structure TaskFrames (O : Type) where
  frames : List (TaskFrame O)
  ready : List Nat
  active : Int
  faults : Nat

inductive FrameAction (O : Type) where
  | create (creator : Option Nat)
  | move (c : Nat) (receiver : Option Nat)
  | drop (c : Nat)
  | submit (c : Nat)
  | await (p c : Nat) (sched : Bool)
  | run (k : Nat)
  | park (i : Nat)
  | resubmit (i : Nat)
  | finish (i : Nat) (outcome : O)
  | notify (i : Nat)
  | transfer (i : Nat)

namespace TaskFrames

variable {O : Type}

def init : TaskFrames O := ⟨[], [], 0, 0⟩

def fresh (owner : FrameOwner) : TaskFrame O :=
  ⟨.created, owner, none, false, none, 0, [], []⟩

def setFrame (s : TaskFrames O) (i : Nat) (f : TaskFrame O) : TaskFrames O :=
  { s with frames := s.frames.set i f }

def fault (s : TaskFrames O) : TaskFrames O :=
  { s with faults := s.faults + 1 }

def phaseAt (s : TaskFrames O) (i : Nat) : Option FramePhase :=
  (s.frames[i]?).map fun f => f.phase

/-- The code that holds this `Task` is being executed. -/
def Executing (s : TaskFrames O) : FrameOwner → Prop
  | .frame p => s.phaseAt p = some .running
  | .outside => True
  | .released => False

/-- The holder's variable or parameter may be destroyed now. -/
def MayDrop (s : TaskFrames O) : FrameOwner → Prop
  | .frame p => s.phaseAt p = some .running ∨ s.phaseAt p = some .destroyed
  | .outside => True
  | .released => False

instance (s : TaskFrames O) (owner : FrameOwner) : Decidable (s.Executing owner) := by
  unfold Executing
  split <;> infer_instance

instance (s : TaskFrames O) (owner : FrameOwner) : Decidable (s.MayDrop owner) := by
  unfold MayDrop
  split <;> infer_instance

/-- `m_active_tasks` and the handle in the queue, by `submit_coroutine`. -/
def submitCoroutine (s : TaskFrames O) (c : Nat) (f : TaskFrame O) : TaskFrames O :=
  { s.setFrame c { f with phase := .queued, submitted := true } with
    ready := s.ready ++ [c]
    active := s.active + 1 }

/-- `await_resume` reads the promise of the callee. -/
def awaitResume (s : TaskFrames O) (p c : Nat) (f g : TaskFrame O) : TaskFrames O :=
  match g.outcome with
  | some outcome =>
      s.setFrame p { f with phase := .running, returns := f.returns ++ [(c, outcome)] }
  | none => s.fault

def step (s : TaskFrames O) : FrameAction O → Option (TaskFrames O)
  | .create none => some { s with frames := s.frames ++ [fresh .outside] }
  | .create (some p) =>
      if s.phaseAt p = some .running then
        some { s with frames := s.frames ++ [fresh (.frame p)] }
      else none
  | .move c receiver => do
      let f ← s.frames[c]?
      match receiver with
      | none => if s.Executing f.owner then some (s.setFrame c { f with owner := .outside }) else none
      | some q =>
          -- an argument of a call, or a variable of the coroutine that runs
          if s.Executing f.owner ∧
              (s.phaseAt q = some .created ∨ s.phaseAt q = some .running) then
            some (s.setFrame c { f with owner := .frame q })
          else none
  | .drop c => do
      let f ← s.frames[c]?
      if s.MayDrop f.owner then
        match f.phase with
        | .finished =>
            some (s.setFrame c { f with
              phase := .destroyed, owner := .released, destroys := f.destroys + 1 })
        | .destroyed => some s.fault
        -- not done: the handle is forgotten
        | _ => some (s.setFrame c { f with owner := .released })
      else none
  | .submit c => do
      let f ← s.frames[c]?
      if s.Executing f.owner then
        match f.phase with
        | .created => some (s.submitCoroutine c { f with owner := .released })
        -- `submit_coroutine` returns at once
        | .finished => some (s.setFrame c { f with owner := .released })
        | _ => some s.fault
      else none
  | .await p c sched => do
      let f ← s.frames[p]?
      let g ← s.frames[c]?
      if f.phase = .running ∧ g.owner = .frame p then
        let asked := { f with awaits := f.awaits ++ [c] }
        match g.phase with
        | .finished => some (s.awaitResume p c asked g)
        | .created =>
            let suspended := s.setFrame p { asked with phase := .awaiting c }
            if sched then some (suspended.submitCoroutine c { g with caller := some p })
            else some (suspended.setFrame c { g with caller := some p, phase := .running })
        | _ => some s.fault
      else none
  | .run k => do
      let i ← s.ready[k]?
      let f ← s.frames[i]?
      let rest := { s with ready := s.ready.eraseIdx k }
      match f.phase with
      | .queued => some (rest.setFrame i { f with phase := .running })
      -- `done()` holds at the final suspend point
      | .finishing => some rest
      | .notified => some rest
      | .finished => some rest
      | _ => some rest.fault
  | .park i => do
      let f ← s.frames[i]?
      if f.phase = .running then some (s.setFrame i { f with phase := .parked }) else none
  | .resubmit i => do
      let f ← s.frames[i]?
      if f.phase = .parked then
        some { s.setFrame i { f with phase := .queued } with ready := s.ready ++ [i] }
      else none
  | .finish i outcome => do
      let f ← s.frames[i]?
      if f.phase = .running then
        some (s.setFrame i { f with phase := .finishing, outcome := some outcome })
      else none
  | .notify i => do
      let f ← s.frames[i]?
      if f.phase = .finishing then
        let active := if f.submitted then s.active - 1 else s.active
        some { s.setFrame i { f with phase := .notified } with active := active }
      else none
  | .transfer i => do
      let f ← s.frames[i]?
      if f.phase = .notified then
        let gone := s.setFrame i { f with
          phase := .destroyed, caller := none, destroys := f.destroys + 1 }
        match f.caller with
        | none => some gone
        | some p =>
            let parent ← s.frames[p]?
            let kept := s.setFrame i { f with phase := .finished, caller := none }
            match parent.phase with
            | .awaiting c =>
                if c = i then some (kept.awaitResume p i parent f) else some kept.fault
            | .finishing => some gone
            | .notified => some gone
            | .finished => some gone
            | _ => some kept.fault
      else none

def machine (O : Type) : Machine (TaskFrames O) (FrameAction O) := ⟨init, step⟩

end TaskFrames

end UltraNet
