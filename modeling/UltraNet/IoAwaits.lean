/-
What a coroutine suspends on while the kernel works for it: an I/O operation, a sleep,
or the linked write and read of the proxy.  Each of them puts entries into the
submission ring of its worker's engine, and `on_io_completion` resumes the coroutine or
tries again when the completion comes back.
-/
import UltraNet.RunStates
import Mathlib.Data.List.Count
import Mathlib.Data.List.Perm.Subperm

namespace UltraNet

/-- `IoOperation` with or without `with_timeout`, `SleepAwaitable`, and
`LinkedWriteThenRead`. -/
inductive IoAwaitable where
  | operation (hasDeadline : Bool)
  | sleep
  | linked
deriving DecidableEq

/-- The `IoCallback` of one `co_await`.  `given` is a ghost: what `await_resume` has
answered, once for each time that the coroutine was resumed or put back on a queue. -/
structure IoAwait where
  awaitable : IoAwaitable
  handle : Bool
  result : Int
  given : List Int
deriving DecidableEq

/-- An engine.  Entries are told by the `co_await` whose callback is their user data
(`none` where there is no callback or it is not of one of these).  `sq` are the entries
that were taken and are not submitted, `flight` those whose completion is not handled;
`pendingSqes` is `m_pending_sqes` before it is taken modulo 2^64. -/
structure IoAwaits where
  sq : List (Option Nat)
  flight : List (Option Nat)
  awaits : List IoAwait
  pendingSqes : Int
deriving DecidableEq

/-- The kernel consumes some of the entries when it is asked to. -/
inductive IoEvent where
  -- `passed`: `LinkedWriteThenRead` finds the ring past its watermark; `stale`: the
  -- user data that a slot was left with
  | await (awaitable : IoAwaitable) (passed : Bool) (stale : Option Nat) (consumed : Nat)
  -- the reactor's read or a multishot receive
  | other (consumed : Nat)
  -- `wait_for_events`
  | flush (consumed : Nat)
  | completion (position : Nat) (res : Int) (expired : Bool) (consumed : Nat)
deriving DecidableEq

def eintr : Int := 4
def eagain : Int := 11
def enobufs : Int := 105
def etimedout : Int := 110
def ecanceled : Int := 125

/-- The kernel asks for the operation to be submitted again. -/
def triesAgain (res : Int) : Bool := res = -eagain ∨ res = -eintr

namespace IoAwait

/-- `await_resume`, before the result is taken for a value or an error. -/
def awaitResume (a : IoAwait) : Int :=
  if a.awaitable = .operation true ∧ a.result = -ecanceled then -etimedout else a.result

/-- The coroutine is resumed. -/
def resume (a : IoAwait) : IoAwait :=
  { a with given := a.given ++ [a.awaitResume] }

end IoAwait

namespace IoAwaits

def init : IoAwaits := ⟨[], [], [], 0⟩

/-- `get_sqe` has an entry to hand out. -/
def Room (entries : Nat) (s : IoAwaits) : Prop := s.sq.length < entries

instance (entries : Nat) (s : IoAwaits) : Decidable (s.Room entries) :=
  inferInstanceAs (Decidable (_ < _))

/-- An entry is set up, and `increment_pending`. -/
def take (s : IoAwaits) (owner : Option Nat) : IoAwaits :=
  { s with sq := s.sq ++ [owner], pendingSqes := s.pendingSqes + 1 }

/-- `submit_now`. -/
def submitNow (s : IoAwaits) (consumed : Nat) : IoAwaits :=
  { s with
    sq := s.sq.drop consumed
    flight := s.flight ++ s.sq.take consumed
    pendingSqes := s.pendingSqes - (s.sq.take consumed).length }

/-- `m_pending_sqes`. -/
def pendingSqeCount (s : IoAwaits) : Int := s.pendingSqes % 0x10000000000000000

/-- `submit` and `flush_submit`. -/
def submit (s : IoAwaits) (consumed : Nat) : IoAwaits :=
  if s.pendingSqeCount = 0 then s else s.submitNow consumed

/-- The entry of an operation and of the time-out that is linked to it. -/
def takeOperation (entries : Nat) (s : IoAwaits) (i : Nat) (hasDeadline : Bool) : IoAwaits :=
  if hasDeadline ∧ (s.take (some i)).Room entries then (s.take (some i)).take none
  else s.take (some i)

def setAwait (s : IoAwaits) (i : Nat) (a : IoAwait) : IoAwaits :=
  { s with awaits := s.awaits.set i a }

def addAwait (s : IoAwaits) (a : IoAwait) : IoAwaits :=
  { s with awaits := s.awaits ++ [a] }

/-- `await_suspend` of each of them. -/
def awaitSuspend (entries : Nat) (s : IoAwaits) (passed : Bool) (stale : Option Nat)
    (consumed : Nat) : IoAwaitable → IoAwaits
  | .operation hasDeadline =>
      if s.Room entries then
        ((s.takeOperation entries s.awaits.length hasDeadline).submitNow consumed).addAwait
          ⟨.operation hasDeadline, true, 0, []⟩
      else
        -- resumed inside `await_suspend`
        s.addAwait (IoAwait.resume ⟨.operation hasDeadline, true, -enobufs, []⟩)
  | .sleep =>
      if s.Room entries then
        ((s.take (some s.awaits.length)).submitNow consumed).addAwait ⟨.sleep, true, 0, []⟩
      else
        -- resumed inside `await_suspend`, which then answers that it does not suspend
        s.addAwait (IoAwait.resume (IoAwait.resume ⟨.sleep, false, 0, []⟩))
  | .linked =>
      let refused := IoAwait.resume ⟨.linked, false, -enobufs, []⟩
      if passed then s.addAwait refused
      else if s.sq.length + 1 < entries then
        (((s.take none).take (some s.awaits.length)).submitNow consumed).addAwait
          ⟨.linked, true, 0, []⟩
      else if s.Room entries then
        -- the entry of the write stays in the ring as it was
        { s.addAwait refused with sq := s.sq ++ [stale] }
      else s.addAwait refused

/-- Back on a queue, if there is a handle. -/
def requeue (s : IoAwaits) (i : Nat) (a : IoAwait) : IoAwaits :=
  s.setAwait i (if a.handle then a.resume else a)

/-- `submit`, or `submit_now` for an operation with a deadline. -/
def submitAgain (threshold : Nat) (s : IoAwaits) (hasDeadline : Bool) (consumed : Nat) : IoAwaits :=
  if (threshold : Int) ≤ s.pendingSqeCount then s.submit consumed
  else if hasDeadline then s.submitNow consumed
  else s

/-- `IoOperation::resubmit`. -/
def resubmitOperation (entries threshold : Nat) (s : IoAwaits) (i : Nat) (a : IoAwait)
    (hasDeadline expired : Bool) (consumed : Nat) : IoAwaits :=
  if hasDeadline ∧ expired then s.requeue i { a with result := -etimedout }
  else if s.Room entries then
    ((s.takeOperation entries i hasDeadline).setAwait i a).submitAgain threshold hasDeadline
      consumed
  else s.requeue i { a with result := -enobufs }

/-- `resubmit` of each of them. -/
def resubmit (entries threshold : Nat) (s : IoAwaits) (i : Nat) (a : IoAwait) (expired : Bool)
    (consumed : Nat) : IoAwaits :=
  match a.awaitable with
  | .operation hasDeadline =>
      s.resubmitOperation entries threshold i a hasDeadline expired consumed
  | .sleep | .linked => s.setAwait i a

/-- `on_io_completion`. -/
def onIoCompletion (entries threshold : Nat) (s : IoAwaits) (i : Nat) (a : IoAwait) (res : Int)
    (expired : Bool) (consumed : Nat) : IoAwaits :=
  if triesAgain res then
    s.resubmit entries threshold i { a with result := res } expired consumed
  else if a.handle then
    s.setAwait i { IoAwait.resume { a with result := res } with handle := false }
  else s.setAwait i { a with result := res }

def step (entries threshold : Nat) (s : IoAwaits) : IoEvent → Option IoAwaits
  | .await awaitable passed stale consumed =>
      some (s.awaitSuspend entries passed stale consumed awaitable)
  | .other consumed =>
      some (if s.Room entries then (s.take none).submitNow consumed else s)
  | .flush consumed => some (s.submit consumed)
  | .completion position res expired consumed =>
      match s.flight[position]? with
      | none => none
      | some none => some { s with flight := s.flight.eraseIdx position }
      | some (some i) =>
          match s.awaits[i]? with
          | none => none
          | some a =>
              some (onIoCompletion entries threshold
                { s with flight := s.flight.eraseIdx position } i a res expired consumed)

def machine (entries threshold : Nat) : Machine IoAwaits IoEvent := ⟨init, step entries threshold⟩

/-- Whose entries have not come back. -/
def owners (s : IoAwaits) : List Nat := (s.sq ++ s.flight).filterMap id

/-- Each `co_await` has one entry under way or has been resumed once, with a result
that is not a request to try again; no entry belongs to anything else; and the count
of entries to submit is right. -/
structure ResumedOnce (s : IoAwaits) : Prop where
  once : ∀ (i : Nat) (a : IoAwait), s.awaits[i]? = some a →
    s.owners.count i + a.given.length = 1
  own : ∀ i ∈ s.owners, i < s.awaits.length
  settled : ∀ a ∈ s.awaits, ∀ res ∈ a.given, triesAgain res = false
  counted : s.pendingSqes = s.sq.length

/-- A sleep finds room in the ring, the linked pair does not find room for just one of
them, and neither is asked to try again. -/
def Orderly (entries : Nat) (s : IoAwaits) : IoEvent → Prop
  | .await .sleep _ _ _ => s.Room entries
  | .await .linked passed _ _ => passed = true ∨ s.sq.length + 1 ≠ entries
  | .completion position res _ _ =>
      ∀ owner ∈ s.flight[position]?, ∀ i ∈ owner, ∀ a ∈ s.awaits[i]?,
        a.awaitable = .sleep ∨ a.awaitable = .linked → triesAgain res = false
  | _ => True

instance (entries : Nat) (s : IoAwaits) (event : IoEvent) : Decidable (s.Orderly entries event) := by
  unfold Orderly
  split <;> infer_instance

variable {entries threshold i consumed : Nat} {s t u next : IoAwaits} {a b : IoAwait}
  {new more : List Nat}

/-- What is done to the ring: new entries, each of them counted. -/
structure Adds (s t : IoAwaits) (new : List Nat) : Prop where
  owners : t.owners.Perm (new ++ s.owners)
  awaits : t.awaits = s.awaits
  counted : t.pendingSqes - t.sq.length = s.pendingSqes - s.sq.length

theorem Adds.trans (hst : Adds s t new) (htu : Adds t u more) : Adds s u (more ++ new) := by
  constructor
  · rw [List.append_assoc]
    exact htu.owners.trans (hst.owners.append_left more)
  · exact htu.awaits.trans hst.awaits
  · exact htu.counted.trans hst.counted

theorem take_some (s : IoAwaits) (i : Nat) : Adds s (s.take (some i)) [i] := by
  constructor
  · simp only [owners, take, List.filterMap_append, List.append_assoc]
    exact List.perm_middle
  · rfl
  · simp only [take, List.length_append, List.length_singleton]
    omega

theorem take_none (s : IoAwaits) : Adds s (s.take none) [] := by
  constructor
  · simp [owners, take]
  · rfl
  · simp only [take, List.length_append, List.length_singleton]
    omega

theorem submitNow_adds (s : IoAwaits) (consumed : Nat) : Adds s (s.submitNow consumed) [] := by
  constructor
  · have hperm : (s.sq.drop consumed ++ (s.flight ++ s.sq.take consumed)).Perm
        (s.sq ++ s.flight) := by
      calc (s.sq.drop consumed ++ (s.flight ++ s.sq.take consumed)).Perm
            ((s.flight ++ s.sq.take consumed) ++ s.sq.drop consumed) := List.perm_append_comm
        _ = s.flight ++ s.sq := by rw [List.append_assoc, List.take_append_drop]
        _ |>.Perm (s.sq ++ s.flight) := List.perm_append_comm
    exact hperm.filterMap id
  · rfl
  · simp only [submitNow, List.length_drop, List.length_take]
    omega

theorem submit_adds (s : IoAwaits) (consumed : Nat) : Adds s (s.submit consumed) [] := by
  unfold submit
  split
  · exact ⟨.rfl, rfl, rfl⟩
  · exact s.submitNow_adds consumed

theorem submitAgain_adds (s : IoAwaits) (hasDeadline : Bool) (consumed : Nat) :
    Adds s (s.submitAgain threshold hasDeadline consumed) [] := by
  unfold submitAgain
  split
  · exact s.submit_adds consumed
  · split
    · exact s.submitNow_adds consumed
    · exact ⟨.rfl, rfl, rfl⟩

theorem takeOperation_adds (s : IoAwaits) (i : Nat) (hasDeadline : Bool) :
    Adds s (s.takeOperation entries i hasDeadline) [i] := by
  unfold takeOperation
  split
  · exact (s.take_some i).trans (take_none _)
  · exact s.take_some i

/-- What holds while the run is orderly: those who wait have left their handle. -/
structure Waiting (s : IoAwaits) : Prop extends ResumedOnce s where
  handle : ∀ a ∈ s.awaits, a.given = [] → a.handle = true

theorem Waiting.adds (hs : s.Waiting) (hadds : Adds s t []) : t.Waiting := by
  obtain ⟨howners, hawaits, hcounted⟩ := hadds
  rw [List.nil_append] at howners
  constructor
  · constructor
    · intro i a ha
      rw [howners.count_eq]
      exact hs.once i a (hawaits ▸ ha)
    · intro i hi
      rw [hawaits]
      exact hs.own i (howners.mem_iff.mp hi)
    · rw [hawaits]
      exact hs.settled
    · have := hs.counted
      omega
  · rw [hawaits]
    exact hs.handle

theorem getElem?_addAwait {j : Nat} (hj : (s.addAwait a).awaits[j]? = some b) :
    s.awaits[j]? = some b ∨ j = s.awaits.length ∧ b = a := by
  have hj : (s.awaits ++ [a])[j]? = some b := hj
  rw [List.getElem?_append] at hj
  split at hj
  case isTrue => exact .inl hj
  case isFalse hlength =>
    obtain ⟨hzero, hb⟩ := List.getElem?_eq_some_iff.mp hj
    rw [List.length_singleton] at hzero
    have hindex : j - s.awaits.length = 0 := by omega
    simp only [hindex, List.getElem_cons_zero] at hb
    exact .inr ⟨by omega, hb.symm⟩

/-- A `co_await` begins, with an entry or with its result. -/
theorem Waiting.add (hs : s.Waiting) (hadds : Adds s t new)
    (hnew : ∀ i ∈ new, i = s.awaits.length)
    (honce : new.length + a.given.length = 1)
    (hsettled : ∀ res ∈ a.given, triesAgain res = false)
    (hhandle : a.given = [] → a.handle = true) : (t.addAwait a).Waiting := by
  obtain ⟨howners, hawaits, hcounted⟩ := hadds
  have hcount : ∀ i, (t.addAwait a).owners.count i = new.count i + s.owners.count i := by
    intro i
    rw [← List.count_append]
    exact howners.count_eq i
  have hfresh : s.owners.count s.awaits.length = 0 := by
    apply List.count_eq_zero.mpr
    intro hmem
    exact absurd (hs.own _ hmem) (Nat.lt_irrefl _)
  have hmem : ∀ b ∈ (t.addAwait a).awaits, b ∈ s.awaits ∨ b = a := by
    intro b hb
    rw [addAwait, hawaits, List.mem_append, List.mem_singleton] at hb
    exact hb
  constructor
  · constructor
    · intro i b hb
      rw [hcount]
      rcases getElem?_addAwait hb with hold | ⟨hi, rfl⟩
      · rw [hawaits] at hold
        have hlt := (List.getElem?_eq_some_iff.mp hold).1
        have hzero : new.count i = 0 := by
          apply List.count_eq_zero.mpr
          intro hi
          exact absurd (hnew i hi) (Nat.ne_of_lt hlt)
        rw [hzero, Nat.zero_add]
        exact hs.once i b hold
      · rw [hawaits] at hi
        subst hi
        have hall : new.count s.awaits.length = new.length :=
          List.count_eq_length.mpr fun i hi => (hnew i hi).symm
        rw [hall, hfresh, Nat.add_zero]
        exact honce
    · intro i hi
      have hlength : (t.addAwait a).awaits.length = s.awaits.length + 1 := by
        rw [addAwait, List.length_append, hawaits, List.length_singleton]
      rcases List.mem_append.mp (howners.mem_iff.mp hi) with hi | hi
      · rw [hnew i hi, hlength]
        exact Nat.lt_succ_self _
      · rw [hlength]
        exact Nat.lt_succ_of_lt (hs.own i hi)
    · intro b hb
      rcases hmem b hb with hold | rfl
      · exact hs.settled b hold
      · exact hsettled
    · have := hs.counted
      show t.pendingSqes = t.sq.length
      omega
  · intro b hb
    rcases hmem b hb with hold | rfl
    · exact hs.handle b hold
    · exact hhandle

/-- Its completion is being handled. -/
structure Handling (s : IoAwaits) (i : Nat) (a : IoAwait) : Prop where
  await : s.awaits[i]? = some a
  fresh : a.given = []
  handle : a.handle = true
  out : i ∉ s.owners
  once : ∀ (j : Nat) (b : IoAwait), j ≠ i → s.awaits[j]? = some b →
    s.owners.count j + b.given.length = 1
  own : ∀ j ∈ s.owners, j < s.awaits.length
  settled : ∀ b ∈ s.awaits, ∀ res ∈ b.given, triesAgain res = false
  counted : s.pendingSqes = s.sq.length
  handles : ∀ b ∈ s.awaits, b.given = [] → b.handle = true

/-- The entry at a position comes back. -/
theorem owners_eraseIdx {position : Nat} {owner : Option Nat}
    (howner : s.flight[position]? = some owner) :
    s.owners.Perm (owner.toList ++
      ({ s with flight := s.flight.eraseIdx position } : IoAwaits).owners) := by
  obtain ⟨hlt, rfl⟩ := List.getElem?_eq_some_iff.mp howner
  have hperm : (s.sq ++ s.flight).Perm
      (s.flight[position] :: (s.sq ++ s.flight.eraseIdx position)) :=
    ((List.getElem_cons_eraseIdx_perm hlt).symm.append_left s.sq).trans List.perm_middle
  have hfilter := hperm.filterMap id
  cases hvalue : s.flight[position] with
  | none =>
      rw [hvalue] at hfilter
      exact hfilter
  | some i =>
      rw [hvalue] at hfilter
      exact hfilter

theorem Waiting.handling {position : Nat} (hs : s.Waiting)
    (howner : s.flight[position]? = some (some i)) (ha : s.awaits[i]? = some a) :
    Handling { s with flight := s.flight.eraseIdx position } i a := by
  have hperm := owners_eraseIdx howner
  rw [Option.toList_some, List.singleton_append] at hperm
  have honce := hs.once i a ha
  rw [hperm.count_eq, List.count_cons_self] at honce
  have hgiven : a.given.length = 0 := by omega
  have hcount : ({ s with flight := s.flight.eraseIdx position } : IoAwaits).owners.count i = 0 := by
    omega
  constructor
  · exact ha
  · exact List.length_eq_zero_iff.mp hgiven
  · exact hs.handle a (List.mem_of_getElem? ha) (List.length_eq_zero_iff.mp hgiven)
  · exact List.count_eq_zero.mp hcount
  · intro j b hne hb
    have hothers := hs.once j b hb
    rwa [hperm.count_eq, List.count_cons_of_ne hne.symm] at hothers
  · intro j hj
    exact hs.own j (hperm.mem_iff.mpr (List.mem_cons_of_mem i hj))
  · exact hs.settled
  · exact hs.counted
  · exact hs.handle

theorem getElem?_setAwait {j : Nat} {c : IoAwait} (hj : (s.setAwait i b).awaits[j]? = some c) :
    j ≠ i ∧ s.awaits[j]? = some c ∨ j = i ∧ c = b := by
  have hj : (s.awaits.set i b)[j]? = some c := hj
  by_cases hi : i = j
  · subst hi
    obtain ⟨hlt, hc⟩ := List.getElem?_eq_some_iff.mp hj
    rw [List.getElem_set_self] at hc
    exact .inr ⟨rfl, hc.symm⟩
  · rw [List.getElem?_set_ne hi] at hj
    exact .inl ⟨Ne.symm hi, hj⟩

/-- The operation is under way again, or its coroutine is resumed. -/
theorem Handling.settle (hs : s.Handling i a) (hadds : Adds s t new)
    (hnew : ∀ j ∈ new, j = i) (honce : new.length + b.given.length = 1)
    (hsettled : ∀ res ∈ b.given, triesAgain res = false)
    (hhandle : b.given = [] → b.handle = true) : (t.setAwait i b).Waiting := by
  obtain ⟨howners, hawaits, hcounted⟩ := hadds
  have hcount : ∀ j, (t.setAwait i b).owners.count j = new.count j + s.owners.count j := by
    intro j
    rw [← List.count_append]
    exact howners.count_eq j
  have hmem : ∀ c ∈ (t.setAwait i b).awaits, c ∈ s.awaits ∨ c = b := by
    intro c hc
    rw [setAwait, hawaits] at hc
    exact List.mem_or_eq_of_mem_set hc
  have hlt := (List.getElem?_eq_some_iff.mp hs.await).1
  have hlength : (t.setAwait i b).awaits.length = s.awaits.length := by
    rw [setAwait, List.length_set, hawaits]
  constructor
  · constructor
    · intro j c hc
      rw [hcount]
      rcases getElem?_setAwait hc with ⟨hne, hold⟩ | ⟨rfl, rfl⟩
      · rw [hawaits] at hold
        have hzero : new.count j = 0 := by
          apply List.count_eq_zero.mpr
          intro hj
          exact hne (hnew j hj)
        rw [hzero, Nat.zero_add]
        exact hs.once j c hne hold
      · have hall : new.count j = new.length :=
          List.count_eq_length.mpr fun k hk => (hnew k hk).symm
        rw [hall, List.count_eq_zero.mpr hs.out, Nat.add_zero]
        exact honce
    · intro j hj
      rw [hlength]
      rcases List.mem_append.mp (howners.mem_iff.mp hj) with hj | hj
      · exact hnew j hj ▸ hlt
      · exact hs.own j hj
    · intro c hc
      rcases hmem c hc with hold | rfl
      · exact hs.settled c hold
      · exact hsettled
    · have := hs.counted
      show t.pendingSqes = t.sq.length
      omega
  · intro c hc
    rcases hmem c hc with hold | rfl
    · exact hs.handles c hold
    · exact hhandle

theorem triesAgain_awaitResume (hresult : triesAgain a.result = false) :
    triesAgain a.awaitResume = false := by
  unfold IoAwait.awaitResume
  split
  · rfl
  · exact hresult

/-- The coroutine is put back on a queue with a result that stands. -/
theorem Handling.given (hs : s.Handling i a) (hgiven : b.given = [b.awaitResume])
    (hresult : triesAgain b.result = false) : (s.setAwait i b).Waiting := by
  have hadds : Adds s s [] := ⟨.rfl, rfl, rfl⟩
  apply hs.settle hadds nofun
  · rw [hgiven]
    rfl
  · rw [hgiven]
    intro res hres
    obtain rfl := List.mem_singleton.mp hres
    exact triesAgain_awaitResume hresult
  · rw [hgiven]
    exact nofun

theorem given_resume (hs : s.Handling i a) (res : Int) :
    (IoAwait.resume { a with result := res }).given =
      [IoAwait.awaitResume { a with result := res }] := by
  show a.given ++ [IoAwait.awaitResume { a with result := res }] = _
  rw [hs.fresh, List.nil_append]

theorem Handling.requeue {res : Int} (hs : s.Handling i a) (hresult : triesAgain res = false) :
    (s.requeue i { a with result := res }).Waiting := by
  unfold IoAwaits.requeue
  rw [if_pos hs.handle]
  exact hs.given (given_resume hs res) hresult

theorem Handling.resubmitOperation {res : Int} {hasDeadline expired : Bool}
    (hs : s.Handling i a) :
    (s.resubmitOperation entries threshold i { a with result := res } hasDeadline expired
      consumed).Waiting := by
  unfold IoAwaits.resubmitOperation
  split
  · have hlate : triesAgain (-etimedout) = false := rfl
    exact hs.requeue hlate
  · split
    · apply Waiting.adds ?_ (submitAgain_adds _ _ _)
      apply hs.settle (s.takeOperation_adds i hasDeadline)
      · exact fun j hj => List.mem_singleton.mp hj
      · exact congrArg (1 + ·) (congrArg List.length hs.fresh)
      · exact fun res hres => absurd (hs.fresh ▸ hres) List.not_mem_nil
      · exact fun _ => hs.handle
    · have hfull : triesAgain (-enobufs) = false := rfl
      exact hs.requeue hfull

theorem Handling.completion {res : Int} {expired : Bool} (hs : s.Handling i a)
    (horderly : a.awaitable = .sleep ∨ a.awaitable = .linked → triesAgain res = false) :
    (s.onIoCompletion entries threshold i a res expired consumed).Waiting := by
  unfold onIoCompletion
  split
  case isTrue hagain =>
    have hfalse : ¬ (a.awaitable = .sleep ∨ a.awaitable = .linked) := by
      intro hkind
      rw [horderly hkind] at hagain
      cases hagain
    unfold resubmit
    split
    case h_1 hasDeadline hkind => exact hs.resubmitOperation
    case h_2 hkind => exact absurd (.inl hkind) hfalse
    case h_3 hkind => exact absurd (.inr hkind) hfalse
  case isFalse hagain =>
    have hresult := (Bool.not_eq_true _).mp hagain
    rw [if_pos hs.handle]
    exact hs.given (given_resume hs res) hresult

theorem Waiting.awaitSuspend {awaitable : IoAwaitable} {passed : Bool} {stale : Option Nat}
    (hs : s.Waiting) (horderly : s.Orderly entries (.await awaitable passed stale consumed)) :
    (s.awaitSuspend entries passed stale consumed awaitable).Waiting := by
  have hrefused : ∀ {b : IoAwait}, b.given = [-enobufs] → (s.addAwait b).Waiting := by
    intro b hgiven
    have hadds : Adds s s [] := ⟨.rfl, rfl, rfl⟩
    apply hs.add hadds nofun
    · rw [hgiven]
      rfl
    · rw [hgiven]
      intro res hres
      obtain rfl := List.mem_singleton.mp hres
      rfl
    · rw [hgiven]
      exact nofun
  have hbegun : ∀ {t : IoAwaits} {b : IoAwait}, Adds s t [s.awaits.length] → b.given = [] →
      b.handle = true → (t.addAwait b).Waiting := by
    intro t b hadds hgiven hhandle
    apply hs.add hadds (fun j hj => List.mem_singleton.mp hj)
    · rw [hgiven]
      rfl
    · rw [hgiven]
      exact nofun
    · exact fun _ => hhandle
  cases awaitable with
  | operation hasDeadline =>
      simp only [IoAwaits.awaitSuspend]
      split
      · apply hbegun ?_ rfl rfl
        exact (s.takeOperation_adds _ hasDeadline).trans (submitNow_adds _ consumed)
      · cases hasDeadline <;> exact hrefused rfl
  | sleep =>
      have hroom : s.Room entries := horderly
      simp only [IoAwaits.awaitSuspend]
      rw [if_pos hroom]
      apply hbegun ?_ rfl rfl
      exact (s.take_some _).trans (submitNow_adds _ consumed)
  | linked =>
      simp only [IoAwaits.awaitSuspend]
      split
      · exact hrefused rfl
      · rename_i hwithin
        split
        · apply hbegun ?_ rfl rfl
          exact (s.take_none.trans (take_some _ _)).trans (submitNow_adds _ consumed)
        · rename_i hpair
          rcases horderly with hover | hone
          · exact absurd hover hwithin
          · rw [if_neg (by unfold Room; omega)]
            exact hrefused rfl

theorem Waiting.step {event : IoEvent} (hs : s.Waiting) (horderly : s.Orderly entries event)
    (hstep : s.step entries threshold event = some next) : next.Waiting := by
  cases event with
  | await awaitable passed stale consumed =>
      obtain rfl := Option.some.inj hstep
      exact hs.awaitSuspend horderly
  | other consumed =>
      obtain rfl := Option.some.inj hstep
      split
      · exact hs.adds (s.take_none.trans (submitNow_adds _ consumed))
      · exact hs
  | flush consumed =>
      obtain rfl := Option.some.inj hstep
      exact hs.adds (s.submit_adds consumed)
  | completion position res expired consumed =>
      simp only [IoAwaits.step] at hstep
      split at hstep
      case h_1 => cases hstep
      case h_2 howner =>
        obtain rfl := Option.some.inj hstep
        apply hs.adds
        exact ⟨(owners_eraseIdx howner).symm, rfl, rfl⟩
      case h_3 i howner =>
        split at hstep
        case h_1 => cases hstep
        case h_2 a ha =>
          obtain rfl := Option.some.inj hstep
          apply (hs.handling howner ha).completion
          exact horderly _ howner i rfl a ha

/-- A sleep that finds no room is resumed twice. -/
theorem sleep_twice (hroom : ¬ s.Room entries) (passed : Bool) (stale : Option Nat) :
    ¬ (s.awaitSuspend entries passed stale consumed .sleep).ResumedOnce := by
  intro hs
  simp only [awaitSuspend, if_neg hroom] at hs
  have honce := hs.once s.awaits.length _ List.getElem?_concat_length
  rw [IoAwait.resume, IoAwait.resume, List.length_append, List.length_append] at honce
  simp only [List.length_singleton] at honce
  omega

/-- The entry of a write without its read is not counted. -/
theorem linked_uncounted (hs : s.Waiting) (hone : s.sq.length + 1 = entries)
    (stale : Option Nat) :
    ¬ (s.awaitSuspend entries false stale consumed .linked).ResumedOnce := by
  intro hnext
  have hpair : ¬ s.sq.length + 1 < entries := by omega
  have hroom : s.Room entries := by
    unfold Room
    omega
  simp only [awaitSuspend, if_neg hpair, if_pos hroom, Bool.false_eq_true, if_false] at hnext
  have hcounted := hnext.counted
  rw [List.length_append, List.length_singleton] at hcounted
  have hbefore := hs.counted
  have hsame : s.pendingSqes = ((s.sq.length + 1 : Nat) : Int) := hcounted
  omega

/-- Nobody resumes a sleep or the linked pair after a completion that asks to try
again. -/
theorem Handling.forgotten {res : Int} {expired : Bool} (hs : s.Handling i a)
    (hkind : a.awaitable = .sleep ∨ a.awaitable = .linked) (hagain : triesAgain res = true) :
    ¬ (s.onIoCompletion entries threshold i a res expired consumed).ResumedOnce := by
  intro hnext
  have hleft : s.onIoCompletion entries threshold i a res expired consumed =
      s.setAwait i { a with result := res } := by
    rw [onIoCompletion, if_pos hagain, resubmit]
    split
    case h_1 hoperation =>
      have hoperation : a.awaitable = .operation _ := hoperation
      rcases hkind with hkind | hkind <;> rw [hkind] at hoperation <;> cases hoperation
    · rfl
    · rfl
  rw [hleft] at hnext
  have hlt := (List.getElem?_eq_some_iff.mp hs.await).1
  have honce := hnext.once i { a with result := res } (List.getElem?_set_self hlt)
  have hcount : (s.setAwait i { a with result := res }).owners.count i = 0 :=
    List.count_eq_zero.mpr hs.out
  rw [hcount, hs.fresh] at honce
  cases honce

theorem step_disorderly {event : IoEvent} (hs : s.Waiting)
    (hdisorderly : ¬ s.Orderly entries event)
    (hstep : s.step entries threshold event = some next) : ¬ next.ResumedOnce := by
  cases event with
  | await awaitable passed stale consumed =>
      obtain rfl := Option.some.inj hstep
      cases awaitable with
      | operation hasDeadline => exact absurd trivial hdisorderly
      | sleep => exact sleep_twice hdisorderly passed stale
      | linked =>
          obtain ⟨hover, hone⟩ := not_or.mp hdisorderly
          obtain rfl := (Bool.not_eq_true _).mp hover
          exact linked_uncounted hs (not_not.mp hone) stale
  | other consumed => exact absurd trivial hdisorderly
  | flush consumed => exact absurd trivial hdisorderly
  | completion position res expired consumed =>
      simp only [Orderly, not_forall] at hdisorderly
      obtain ⟨owner, howner, i, hi, a, ha, hkind, hagain⟩ := hdisorderly
      obtain rfl : owner = some i := hi
      have howner : s.flight[position]? = some (some i) := howner
      have ha : s.awaits[i]? = some a := ha
      simp only [step, howner, ha] at hstep
      obtain rfl := Option.some.inj hstep
      have hagain : triesAgain res = true := (Bool.not_eq_false _).mp hagain
      exact (hs.handling howner ha).forgotten hkind hagain

/-- Every `co_await` has exactly one entry under way until it is resumed exactly once,
with a result that is not a request to try again, just in the runs in which no sleep finds
the submission ring full, the linked pair never finds a single free entry, and neither of
the two is asked to try again. -/
theorem resumed_once_iff (entries threshold : Nat) (word : List IoEvent) {last : IoAwaits}
    (hrun : (machine entries threshold).run word = some last) :
    (machine entries threshold).Throughout ResumedOnce word ↔
      (machine entries threshold).Meets (Orderly entries) word := by
  apply (machine entries threshold).throughout_iff (I := Waiting)
  · exact fun _ hs => hs.toResumedOnce
  · exact fun _ _ _ hs horderly hstep => hs.step horderly hstep
  · exact fun _ _ _ hs hdisorderly hstep => step_disorderly hs hdisorderly hstep
  · exact ⟨⟨nofun, nofun, nofun, rfl⟩, nofun⟩
  · exact hrun

/-- A read is tried again while a sleep is under way; both come back. -/
def retriedRead : List IoEvent :=
  [.await (.operation true) false none 2, .await .sleep false none 1,
    .completion 0 (-11) false 0, .flush 2, .completion 1 (-62) false 0,
    .completion 1 7 false 0]

set_option maxRecDepth 100000 in
theorem resumed_once_iff_retriedRead :
    ∃ last, (machine 4 1).run retriedRead = some last ∧
      last.awaits.map IoAwait.given = [[7], [-62]] ∧
      (machine 4 1).Throughout ResumedOnce retriedRead := by
  have hend : ((machine 4 1).run retriedRead).map (fun last => last.awaits.map IoAwait.given) =
      some [[7], [-62]] := by
    decide
  obtain ⟨last, hrun, hgiven⟩ := Option.map_eq_some_iff.mp hend
  have hmeets : (machine 4 1).Meets (Orderly 4) retriedRead := by decide
  exact ⟨last, hrun, hgiven, (resumed_once_iff 4 1 retriedRead hrun).mpr hmeets⟩

end IoAwaits

end UltraNet
