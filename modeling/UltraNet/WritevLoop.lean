/-
`writev_all` over whatever each `Writev` reports: the loop that goes on behind a
short write.
-/
import UltraNet.Collect
import UltraNet.FrameWriters

namespace UltraNet

/-- What the `Writev`s report: an error, or how many bytes of the pieces they have
sent. -/
structure WritevReports where
  report : Nat → List (List UInt8) → Except Nat Nat

namespace WritevReports

/-- What is left of pieces of which some bytes are sent is less: a piece went, or
a byte did. -/
theorem advance_less {pending : List (List UInt8)} (hpending : pending ≠ [])
    {sent : Nat} (hsent : 0 < sent) :
    (advanceIov sent pending).flatten.length + (advanceIov sent pending).length <
      pending.flatten.length + pending.length := by
  obtain ⟨iov, rest, rfl⟩ := List.exists_cons_of_ne_nil hpending
  have hbytes := congrArg List.length (flatten_advanceIov sent (iov :: rest))
  rw [List.length_drop, List.flatten_cons, List.length_append] at hbytes
  by_cases hwhole : sent ≥ iov.length
  · have hfewer := length_advanceIov (sent - iov.length) rest
    have hstep : advanceIov sent (iov :: rest) =
        advanceIov (sent - iov.length) rest := by
      rw [advanceIov, if_neg (Nat.ne_of_gt hsent), if_pos hwhole]
    rw [← hstep] at hfewer
    rw [List.flatten_cons, List.length_append, List.length_cons]
    omega
  · have hfewer := length_advanceIov sent (iov :: rest)
    rw [List.flatten_cons, List.length_append]
    omega

/-- `writev_all`: the bytes that have been sent when it returns or throws, and the
code that it throws. -/
def writevAll (reports : WritevReports) (pending : List (List UInt8)) (count : Nat) :
    List UInt8 × Option Nat :=
  if pending = [] then ([], none)
  else
    match reports.report count pending with
    | .error code => ([], some code)
    | .ok 0 => ([], some eIO)
    | .ok (sent + 1) =>
        let (more, thrown) :=
          writevAll reports (advanceIov (sent + 1) pending) (count + 1)
        (pending.flatten.take (sent + 1) ++ more, thrown)
termination_by pending.flatten.length + pending.length
decreasing_by exact advance_less ‹_› (Nat.succ_pos sent)

/-- Each `Writev` sends at least a byte and no more than there are. -/
def Short (reports : WritevReports) : Prop :=
  ∀ count pending, pending.flatten ≠ [] → ∃ sent,
    reports.report count pending = .ok sent ∧ 1 ≤ sent ∧ sent ≤ pending.flatten.length

variable {reports : WritevReports} {pending : List (List UInt8)}

/-- There are bytes as long as there are pieces. -/
theorem flatten_ne_nil (hpending : pending ≠ [])
    (hlast : ∀ iov ∈ pending.getLast?, iov ≠ []) : pending.flatten ≠ [] := by
  intro hempty
  have hiov := List.flatten_eq_nil_iff.mp hempty _ (List.getLast_mem hpending)
  exact hlast _ (List.getLast?_eq_some_getLast hpending) hiov

/-- A short write: some bytes from the front are sent, and the others stay. -/
theorem writevAll_short (hshort : reports.Short) (hpending : pending ≠ [])
    (hlast : ∀ iov ∈ pending.getLast?, iov ≠ []) (count : Nat) :
    ∃ sent, 1 ≤ sent ∧ sent ≤ pending.flatten.length ∧
      reports.writevAll pending count =
        (pending.flatten.take sent ++
            (reports.writevAll (advanceIov sent pending) (count + 1)).1,
          (reports.writevAll (advanceIov sent pending) (count + 1)).2) := by
  obtain ⟨sent, hreport, hpos, hle⟩ :=
    hshort count pending (flatten_ne_nil hpending hlast)
  obtain ⟨sent, rfl⟩ := Nat.exists_eq_add_of_le' hpos
  refine ⟨sent + 1, hpos, hle, ?_⟩
  rw [writevAll, if_neg hpending, hreport]

/-- However a `writev` is cut short, `writev_all` returns, and it has sent the
bytes of the pieces, each once and in order. -/
theorem writevAll_whole (reports : WritevReports) (hshort : reports.Short)
    (segments : List (List UInt8)) (hlast : ∀ iov ∈ segments.getLast?, iov ≠ [])
    (count : Nat) : reports.writevAll segments count = (segments.flatten, none) := by
  induction hsize : segments.flatten.length + segments.length using
    Nat.strong_induction_on generalizing segments count with
  | _ size ih =>
      by_cases hsegments : segments = []
      · rw [writevAll, if_pos hsegments, hsegments]
        rfl
      · obtain ⟨sent, hpos, -, hstep⟩ := writevAll_short hshort hsegments hlast count
        have hless := advance_less hsegments hpos
        have hrest := ih _ (hsize ▸ hless) (advanceIov sent segments)
          (advanceIov_last hlast sent) (count + 1) rfl
        rw [hstep, hrest, flatten_advanceIov, List.take_append_drop]

/-- A write that ends inside a piece, one at the end of a piece, and an empty piece. -/
theorem writevAll_whole_three :
    let reports : WritevReports := ⟨fun count pending =>
      .ok (min (if count = 0 then 1 else 2) pending.flatten.length)⟩
    reports.writevAll [[1, 2], [], [3, 4]] 0 = ([1, 2, 3, 4], none) := by
  intro reports
  have hshort : reports.Short := by
    intro count pending hbytes
    have hlength := List.length_pos_iff.mpr hbytes
    refine ⟨_, rfl, ?_, Nat.min_le_right _ _⟩
    split <;> omega
  exact writevAll_whole reports hshort [[1, 2], [], [3, 4]] (by simp) 0

/-- The `writev` of the frame writers: it refuses too many pieces. -/
def ofChunks (writes : Chunks) : WritevReports where
  report count pending :=
    if iovMax < pending.length then .error eINVAL
    else .ok (min (writes count : Nat) pending.flatten.length)

theorem writevAll_ofChunks (writes : Chunks) (pending : List (List UInt8))
    (count : Nat) :
    ((ofChunks writes).writevAll pending count).1 =
        (UltraNet.writevAll writes pending count).1 ∧
      (((ofChunks writes).writevAll pending count).2 = none ↔
        (UltraNet.writevAll writes pending count).2 = true) := by
  induction hsize : pending.flatten.length + pending.length using
    Nat.strong_induction_on generalizing pending count with
  | _ size ih =>
      unfold writevAll UltraNet.writevAll
      by_cases hnil : pending = []
      · simp [hnil]
      rw [if_neg hnil, if_neg hnil]
      by_cases hmany : iovMax < pending.length
      · have hreport : (ofChunks writes).report count pending = .error eINVAL :=
          if_pos hmany
        simp [hreport, hmany]
      have hreport : (ofChunks writes).report count pending =
          .ok (min (writes count : Nat) pending.flatten.length) := if_neg hmany
      rw [if_neg hmany, hreport]
      by_cases hempty : pending.flatten = []
      · simp [hempty]
      · have hpos : 0 < min (writes count : Nat) pending.flatten.length :=
          Nat.lt_min.mpr ⟨(writes count).pos, List.length_pos_iff.mpr hempty⟩
        have hless := advance_less hnil hpos
        obtain ⟨hbytes, hthrown⟩ := ih _ (hsize ▸ hless)
          (advanceIov (min (writes count : Nat) pending.flatten.length) pending)
          (count + 1) rfl
        rw [if_neg hempty]
        obtain ⟨sent, hsent⟩ := Nat.exists_eq_add_of_lt hpos
        rw [Nat.zero_add] at hsent
        rw [hsent] at hbytes hthrown ⊢
        exact ⟨congrArg _ hbytes, hthrown⟩

end WritevReports

end UltraNet
