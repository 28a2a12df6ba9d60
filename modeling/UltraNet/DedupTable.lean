/-
The deduplication table `m_dedup` and its critical sections: `peek_dedup`,
`dedup_room_for`, the locked parts of `claim_remote` and of
`finish_remote_delivery`.
-/
import UltraNet.ReceiverLog

namespace UltraNet

inductive DedupState where
  | inProgress
  | completed
deriving DecidableEq

/-- What `peek_dedup` tells of a key. -/
inductive DedupView where
  | absent
  | inProgress
  | completed
deriving DecidableEq

/-- What `claim_remote` answers. -/
inductive DedupClaim where
  | fresh
  | completed
  | busy
  | overflow
deriving DecidableEq

/-- What `dedup_room_for` answers. -/
inductive DedupRoom where
  | push
  | already
  | full
deriving DecidableEq

inductive DeliverResult where
  | ok
  | threw
  | deadLetter
deriving DecidableEq

abbrev DedupTable := Table RecvKey DedupState

namespace DedupTable

def peekDedup (dedup : DedupTable) (key : RecvKey) : DedupView :=
  match dedup.lookup key with
  | none => .absent
  | some .completed => .completed
  | some .inProgress => .inProgress

/-- Some entry can be evicted. -/
def hasCompleted (dedup : DedupTable) : Bool :=
  dedup.entries.any fun entry => entry.2 = .completed

def dedupRoomFor (cap : Nat) (dedup : DedupTable) (key : RecvKey) : DedupRoom :=
  if dedup.lookup key ≠ none then .already
  else if Table.size dedup < cap then .push
  else if hasCompleted dedup then .push
  else .full

/-- The comparison by which `claim_remote` looks for its victim. -/
def olderKey (first second : RecvKey) : Prop :=
  first.msgId < second.msgId ∨
    first.msgId = second.msgId ∧ first.sender < second.sender

instance (first second : RecvKey) : Decidable (olderKey first second) :=
  inferInstanceAs (Decidable (_ ∨ _))

/-- One round of the loop over the entries. -/
def betterVictim (best : Option RecvKey)
    (entry : Sigma fun _ : RecvKey => DedupState) : Option RecvKey :=
  if entry.2 ≠ .completed then best
  else
    match best with
    | none => some entry.1
    | some victim => if olderKey entry.1 victim then some entry.1 else best

/-- The victim of `claim_remote` in a full table. -/
def findVictim (dedup : DedupTable) : Option RecvKey :=
  dedup.entries.foldl betterVictim none

structure ClaimOutcome where
  claim : DedupClaim
  dedup : DedupTable
  evicted : Option RecvKey

/-- The locked part of `claim_remote`; the two flags were read from the
receiver log before. -/
def claimRemote (cap : Nat) (dedup : DedupTable) (key : RecvKey)
    (logExecuted logHandled : Bool) : ClaimOutcome :=
  match dedup.lookup key with
  | some .completed => ⟨.completed, dedup, none⟩
  | some .inProgress => ⟨.busy, dedup, none⟩
  | none =>
      if logExecuted ∧ logHandled then ⟨.completed, dedup, none⟩
      else if logExecuted then ⟨.busy, dedup, none⟩
      else if Table.size dedup ≥ cap then
        match findVictim dedup with
        | none => ⟨.overflow, dedup, none⟩
        | some victim =>
            ⟨.fresh, (dedup.erase victim).insert key .inProgress, some victim⟩
      else ⟨.fresh, dedup.insert key .inProgress, none⟩

/-- The locked part of `finish_remote_delivery`. -/
def finishDelivery (cap : Nat) (dedup : DedupTable) (key : RecvKey)
    (result : DeliverResult) : DedupTable :=
  if result = .threw then dedup.erase key
  else
    match dedup.lookup key with
    | some _ => dedup.insert key .completed
    | none =>
        if Table.size dedup < cap then dedup.insert key .completed else dedup

theorem olderKey_irrefl (key : RecvKey) : ¬ olderKey key key := by
  unfold olderKey
  grind

theorem olderKey_trans {first second third : RecvKey}
    (hfirst : olderKey first second) (hsecond : olderKey second third) :
    olderKey first third := by
  unfold olderKey at *
  grind

theorem olderKey_total {first second : RecvKey} (hne : first ≠ second) :
    olderKey first second ∨ olderKey second first := by
  obtain ⟨firstSender, firstId⟩ := first
  obtain ⟨secondSender, secondId⟩ := second
  unfold olderKey
  grind

/-- What the search has found after some entries: a completed one to which no
completed entry seen so far is older, or none if there was none. -/
structure VictimOf (seen : List (Sigma fun _ : RecvKey => DedupState))
    (best : Option RecvKey) : Prop where
  mem : ∀ victim ∈ best, ⟨victim, .completed⟩ ∈ seen
  least : ∀ victim ∈ best, ∀ key, ⟨key, .completed⟩ ∈ seen →
    ¬ olderKey key victim
  none : best = none → ∀ key, ⟨key, .completed⟩ ∉ seen

theorem VictimOf.step {seen : List (Sigma fun _ : RecvKey => DedupState)}
    {best : Option RecvKey} (hbest : VictimOf seen best)
    (entry : Sigma fun _ : RecvKey => DedupState) :
    VictimOf (seen ++ [entry]) (betterVictim best entry) := by
  obtain ⟨key, state⟩ := entry
  obtain ⟨hmem, hleast, hnone⟩ := hbest
  have hirrefl := olderKey_irrefl
  have htrans := @olderKey_trans
  have htotal := @olderKey_total
  cases best with
  | none =>
      have hempty := hnone rfl
      cases state <;> constructor <;> simp_all [betterVictim]
  | some victim =>
      have hvictim := hmem victim rfl
      have holdest := hleast victim rfl
      cases state with
      | inProgress => constructor <;> simp_all [betterVictim]
      | completed =>
          by_cases holder : olderKey key victim
          · constructor <;> simp only [betterVictim, holder] <;> grind
          · constructor <;> simp only [betterVictim, holder] <;> grind

theorem victimOf_findVictim (dedup : DedupTable) :
    VictimOf dedup.entries (findVictim dedup) := by
  suffices h : ∀ rest seen best, VictimOf seen best →
      VictimOf (seen ++ rest) (rest.foldl betterVictim best) from by
    exact h dedup.entries [] none ⟨by simp, by simp, by simp⟩
  intro rest
  induction rest with
  | nil =>
      intro seen best hbest
      simpa using hbest
  | cons entry rest ih =>
      intro seen best hbest
      have hnext := ih _ _ (hbest.step entry)
      rwa [List.append_assoc, List.singleton_append] at hnext

/-- The victim is completed and no completed entry is older. -/
theorem findVictim_eq_some {dedup : DedupTable} {victim : RecvKey}
    (hvictim : findVictim dedup = some victim) :
    dedup.lookup victim = some .completed ∧
      ∀ key, dedup.lookup key = some .completed → ¬ olderKey key victim := by
  have hspec := victimOf_findVictim dedup
  rw [hvictim] at hspec
  refine ⟨(Table.lookup_eq_some_iff _ _ _).mpr (hspec.mem victim rfl), ?_⟩
  intro key hkey
  exact hspec.least victim rfl key ((Table.lookup_eq_some_iff _ _ _).mp hkey)

theorem findVictim_eq_none_iff (dedup : DedupTable) :
    findVictim dedup = none ↔ ∀ key, dedup.lookup key ≠ some .completed := by
  have hspec := victimOf_findVictim dedup
  simp only [ne_eq, Table.lookup_eq_some_iff]
  constructor
  · exact hspec.none
  · intro hnone
    cases hvictim : findVictim dedup with
    | none => rfl
    | some victim => exact absurd (hspec.mem victim hvictim) (hnone victim)

/-- Everything that the locked part of `claim_remote` can do. -/
theorem claimRemote_cases (cap : Nat) (dedup : DedupTable) (key : RecvKey)
    (logExecuted logHandled : Bool) :
    claimRemote cap dedup key logExecuted logHandled = ⟨.completed, dedup, none⟩ ∧
        (dedup.lookup key = some .completed ∨
          dedup.lookup key = none ∧ logExecuted = true ∧ logHandled = true) ∨
      claimRemote cap dedup key logExecuted logHandled = ⟨.busy, dedup, none⟩ ∧
        (dedup.lookup key = some .inProgress ∨
          dedup.lookup key = none ∧ logExecuted = true ∧ logHandled = false) ∨
      claimRemote cap dedup key logExecuted logHandled =
          ⟨.overflow, dedup, none⟩ ∧
        dedup.lookup key = none ∧ logExecuted = false ∧
        cap ≤ Table.size dedup ∧ findVictim dedup = none ∨
      claimRemote cap dedup key logExecuted logHandled =
          ⟨.fresh, dedup.insert key .inProgress, none⟩ ∧
        dedup.lookup key = none ∧ logExecuted = false ∧
        Table.size dedup < cap ∨
      ∃ victim, claimRemote cap dedup key logExecuted logHandled =
          ⟨.fresh, (dedup.erase victim).insert key .inProgress, some victim⟩ ∧
        dedup.lookup key = none ∧ logExecuted = false ∧
        cap ≤ Table.size dedup ∧ findVictim dedup = some victim := by
  unfold claimRemote
  cases hlookup : dedup.lookup key with
  | some state => cases state <;> simp
  | none =>
      cases logExecuted with
      | true => cases logHandled <;> simp
      | false =>
          by_cases hfull : cap ≤ Table.size dedup
          · cases hvictim : findVictim dedup with
            | none => simp [hfull]
            | some victim => simp [hfull]
          · simp [hfull, Nat.lt_of_not_le hfull]

theorem finishDelivery_size_le {cap : Nat} {dedup : DedupTable}
    (hsize : Table.size dedup ≤ cap) (key : RecvKey) (result : DeliverResult) :
    Table.size (finishDelivery cap dedup key result) ≤ cap := by
  unfold finishDelivery
  split
  · exact (Table.size_erase_le _ _).trans hsize
  · split
    · rename_i state hlookup
      rw [Table.size_insert_of_mem]
      · exact hsize
      · exact (Table.mem_iff_lookup _ _).mpr ⟨state, hlookup⟩
    · rename_i hlookup
      split
      · rw [Table.size_insert_of_not_mem _ _ (AList.lookup_eq_none.mp hlookup)]
        omega
      · exact hsize

end DedupTable

end UltraNet
