/-
`IoOperation::resubmit` copies the entry of its last submission out of the submission
ring.  The ring is used over and over, so the copy is the operation's own request only
as long as the slot has not been handed out again.
-/
import UltraNet.GuardedRun
import Mathlib.Data.Nat.ModEq
import Mathlib.Logic.Function.Basic

namespace UltraNet

/-- The submission ring of an engine.  `slots` tells for which operation an entry was
set up (`none` for a time-out, a cancellation, the reactor's read and what is unused);
`sqes` is the `m_sqe` of each operation.  Ghosts: the number of the entry that an
operation took last, who took each entry, and what was submitted in the name of an
operation. -/
structure SubmissionRing where
  tail : Nat
  slots : Nat → Option Nat
  sqes : Nat → Option Nat
  taken : Nat → Nat
  writers : List (Option Nat)
  issued : List (Nat × Option Nat)

/-- Each of them has got an entry from `get_sqe`. -/
inductive RingAction where
  | submit (op : Nat)
  | resubmit (op : Nat)
  | other

namespace SubmissionRing

def init : SubmissionRing := ⟨0, fun _ => none, fun _ => none, fun _ => 0, [], []⟩

/-- The entry that `get_sqe` hands out is written. -/
def write (entries : Nat) (s : SubmissionRing) (content writer : Option Nat) : SubmissionRing :=
  { s with
    tail := s.tail + 1
    slots := Function.update s.slots (s.tail % entries) content
    writers := s.writers ++ [writer] }

/-- An operation has written its entry and keeps it as its `m_sqe`. -/
def keep (entries : Nat) (s : SubmissionRing) (op : Nat) (content : Option Nat) :
    SubmissionRing :=
  { s.write entries content (some op) with
    sqes := Function.update s.sqes op (some (s.tail % entries))
    taken := Function.update s.taken op s.tail
    issued := s.issued ++ [(op, content)] }

def step (entries : Nat) (s : SubmissionRing) : RingAction → Option SubmissionRing
  | .submit op =>
      match s.sqes op with
      | none => some (s.keep entries op (some op))
      | some _ => none
  | .resubmit op => do
      let sqe ← s.sqes op
      some (s.keep entries op (s.slots sqe))
  | .other => some (s.write entries none none)

def machine (entries : Nat) : Machine SubmissionRing RingAction := ⟨init, step entries⟩

/-- Since its last entry the ring has not gone round. -/
def Recent (entries : Nat) (s : SubmissionRing) : RingAction → Prop
  | .resubmit op => s.tail ≤ s.taken op + entries
  | _ => True

instance (entries : Nat) (s : SubmissionRing) (action : RingAction) :
    Decidable (s.Recent entries action) := by
  unfold Recent
  split <;> infer_instance

def OwnRequests (s : SubmissionRing) : Prop :=
  ∀ entry ∈ s.issued, entry.2 = some entry.1

def ForeignRequest (s : SubmissionRing) : Prop :=
  ∃ entry ∈ s.issued, entry.2 ≠ some entry.1

/-- While each request has been its operation's own. -/
structure Faithful (entries : Nat) (s : SubmissionRing) : Prop where
  tail : s.writers.length = s.tail
  -- the slots of the last lap are as they were written
  slots : ∀ n < s.tail, s.tail ≤ n + entries → s.writers[n]? = some (s.slots (n % entries))
  sqes : ∀ op sqe, s.sqes op = some sqe →
    sqe = s.taken op % entries ∧ s.writers[s.taken op]? = some (some op)
  last : ∀ op n, s.writers[n]? = some (some op) → (s.sqes op).isSome ∧ n ≤ s.taken op
  own : s.OwnRequests

variable {entries op : Nat} {s next : SubmissionRing}

theorem init_faithful : Faithful entries init :=
  ⟨rfl, nofun, nofun, nofun, nofun⟩

theorem slot_ne {n tail : Nat} (hn : n < tail) (hlap : tail < n + entries) :
    tail % entries ≠ n % entries := by
  intro heq
  have hmod : n ≡ tail [MOD entries] := heq.symm
  have hdiv := (Nat.modEq_iff_dvd' (Nat.le_of_lt hn)).mp hmod
  have := Nat.le_of_dvd (by omega) hdiv
  omega

theorem getElem?_concat (list : List (Option Nat)) (writer : Option Nat) (n : Nat) :
    (list ++ [writer])[n]? = if n = list.length then some writer else list[n]? := by
  by_cases hn : n = list.length
  · simp [hn]
  · rw [if_neg hn]
    by_cases hlt : n < list.length
    · exact List.getElem?_append_left hlt
    · rw [List.getElem?_eq_none (by simp; omega), List.getElem?_eq_none (by omega)]

/-- The last lap after one more entry. -/
theorem Faithful.write_slots (hs : s.Faithful entries) (writer : Option Nat) :
    ∀ n < s.tail + 1, s.tail + 1 ≤ n + entries →
      (s.writers ++ [writer])[n]? =
        some (Function.update s.slots (s.tail % entries) writer (n % entries)) := by
  intro n hn hlap
  rw [getElem?_concat, hs.tail]
  by_cases hlast : n = s.tail
  · subst hlast
    rw [if_pos rfl, Function.update_self]
  · rw [if_neg hlast, Function.update_of_ne (slot_ne (by omega) (by omega)).symm]
    exact hs.slots n (by omega) (by omega)

theorem Faithful.other (hs : s.Faithful entries) : (s.write entries none none).Faithful entries where
  tail := by simp [write, hs.tail]
  slots := hs.write_slots none
  sqes op sqe hsqe := by
    obtain ⟨hslot, hwriter⟩ := hs.sqes op sqe hsqe
    refine ⟨hslot, ?_⟩
    simp only [write]
    rw [List.getElem?_append_left (List.getElem?_eq_some_iff.mp hwriter).1]
    exact hwriter
  last op n hn := by
    simp only [write] at hn
    rw [getElem?_concat] at hn
    split at hn
    · exact absurd hn nofun
    · exact hs.last op n hn
  own := hs.own

theorem Faithful.keep (hs : s.Faithful entries) (op : Nat) :
    (s.keep entries op (some op)).Faithful entries where
  tail := by simp [SubmissionRing.keep, write, hs.tail]
  slots := hs.write_slots (some op)
  sqes other sqe hsqe := by
    simp only [SubmissionRing.keep, write] at hsqe ⊢
    by_cases hsame : other = op
    · subst hsame
      rw [Function.update_self] at hsqe
      rw [Function.update_self, getElem?_concat, if_pos hs.tail.symm]
      exact ⟨(Option.some.inj hsqe).symm, rfl⟩
    · rw [Function.update_of_ne hsame] at hsqe
      obtain ⟨hslot, hwriter⟩ := hs.sqes other sqe hsqe
      rw [Function.update_of_ne hsame]
      refine ⟨hslot, ?_⟩
      rw [List.getElem?_append_left (List.getElem?_eq_some_iff.mp hwriter).1]
      exact hwriter
  last other n hn := by
    simp only [SubmissionRing.keep, write] at hn ⊢
    have hbefore : s.writers[n]? = some (some other) → (s.sqes other).isSome ∧ n ≤ s.taken other :=
      hs.last other n
    by_cases hsame : other = op
    · subst hsame
      rw [Function.update_self, Function.update_self]
      have hlt := (List.getElem?_eq_some_iff.mp hn).1
      rw [List.length_append, List.length_singleton, hs.tail] at hlt
      exact ⟨rfl, by omega⟩
    · rw [Function.update_of_ne hsame, Function.update_of_ne hsame]
      rw [getElem?_concat] at hn
      split at hn
      · exact absurd (Option.some.inj (Option.some.inj hn)).symm hsame
      · exact hbefore hn
  own entry hentry := by
    obtain hold | hnew := List.mem_append.mp hentry
    · exact hs.own entry hold
    · rw [List.mem_singleton.mp hnew]

/-- Within a lap the slot still has the operation's own request. -/
theorem Faithful.own_slot (hs : s.Faithful entries) {sqe : Nat} (hsqe : s.sqes op = some sqe)
    (hrecent : s.tail ≤ s.taken op + entries) : s.slots sqe = some op := by
  obtain ⟨rfl, hwriter⟩ := hs.sqes op sqe hsqe
  have hlt := (List.getElem?_eq_some_iff.mp hwriter).1
  rw [hs.tail] at hlt
  exact (Option.some.inj ((hs.slots _ hlt hrecent).symm.trans hwriter))

/-- After a lap it has the request of another. -/
theorem Faithful.other_slot (hs : s.Faithful entries) (hpos : 0 < entries) {sqe : Nat}
    (hsqe : s.sqes op = some sqe) (hold : s.taken op + entries < s.tail) :
    s.slots sqe ≠ some op := by
  obtain ⟨rfl, -⟩ := hs.sqes op sqe hsqe
  -- the entry of the last lap that has this slot
  have hmod := Nat.mod_lt (s.tail - 1 - s.taken op) hpos
  have hdiv := Nat.div_add_mod (s.tail - 1 - s.taken op) entries
  have hslot : (s.tail - 1 - (s.tail - 1 - s.taken op) % entries) % entries =
      s.taken op % entries := by
    have hsum : s.tail - 1 - (s.tail - 1 - s.taken op) % entries =
        s.taken op + entries * ((s.tail - 1 - s.taken op) / entries) := by omega
    rw [hsum, Nat.add_mul_mod_self_left]
  intro hown
  have hwriter := hs.slots (s.tail - 1 - (s.tail - 1 - s.taken op) % entries)
    (by omega) (by omega)
  rw [hslot, hown] at hwriter
  have hlast := (hs.last op _ hwriter).2
  omega

/-- Each request issued in the name of an operation is the operation's own if and only
if no retry comes after the ring has gone round since the operation's last entry. -/
theorem own_requests_iff (hpos : 0 < entries) (word : List RingAction) (last : SubmissionRing)
    (hrun : (machine entries).run word = some last) :
    last.OwnRequests ↔ (machine entries).Meets (Recent entries) word := by
  have hsplit : ((machine entries).Meets (Recent entries) word → last.Faithful entries) ∧
      (¬ (machine entries).Meets (Recent entries) word → last.ForeignRequest) := by
    refine Machine.runFrom_split _ ?_ ?_ ?_ word init_faithful hrun
    · intro s action next hs hrecent hstep
      cases action with
      | submit op =>
          simp only [machine, step] at hstep
          split at hstep <;> simp only [Option.some.injEq, reduceCtorEq] at hstep
          subst hstep
          exact hs.keep op
      | resubmit op =>
          obtain ⟨sqe, hsqe, ⟨⟩⟩ := Option.bind_eq_some_iff.mp hstep
          rw [hs.own_slot hsqe hrecent]
          exact hs.keep op
      | other =>
          obtain rfl := Option.some.inj hstep
          exact hs.other
    · intro s action next hs hlate hstep
      cases action with
      | resubmit op =>
          obtain ⟨sqe, hsqe, ⟨⟩⟩ := Option.bind_eq_some_iff.mp hstep
          exact ⟨(op, s.slots sqe), List.mem_append_right _ (List.mem_singleton_self _),
            hs.other_slot hpos hsqe (Nat.not_le.mp hlate)⟩
      | submit op => exact absurd trivial hlate
      | other => exact absurd trivial hlate
    · intro s action next hwrong hstep
      obtain ⟨entry, hentry, hforeign⟩ := hwrong
      have hkept : entry ∈ next.issued := by
        cases action with
        | submit op =>
            simp only [machine, step] at hstep
            split at hstep <;> simp only [Option.some.injEq, reduceCtorEq] at hstep
            subst hstep
            exact List.mem_append_left _ hentry
        | resubmit op =>
            obtain ⟨sqe, -, ⟨⟩⟩ := Option.bind_eq_some_iff.mp hstep
            exact List.mem_append_left _ hentry
        | other =>
            obtain rfl := Option.some.inj hstep
            exact hentry
      exact ⟨entry, hkept, hforeign⟩
  constructor
  · intro hown
    by_contra hlate
    obtain ⟨entry, hentry, hforeign⟩ := hsplit.2 hlate
    exact hforeign (hown entry hentry)
  · intro hmeets
    exact (hsplit.1 hmeets).own

/-- In a ring of four entries: a retry within the lap, and one after four entries of others. -/
def lateRetry : List RingAction :=
  [.submit 7, .other, .other, .resubmit 7, .submit 8, .other, .other, .submit 9, .resubmit 7]

theorem own_requests_iff_lateRetry :
    ∃ last, (machine 4).run lateRetry = some last ∧
      last.issued = [(7, some 7), (7, some 7), (8, some 8), (9, some 9), (7, some 9)] ∧
      (last.OwnRequests ↔ (machine 4).Meets (Recent 4) lateRetry) := by
  refine ⟨_, rfl, rfl, ?_⟩
  exact own_requests_iff (by decide) lateRetry _ rfl

end SubmissionRing

end UltraNet
