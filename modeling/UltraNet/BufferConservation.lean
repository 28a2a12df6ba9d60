/-
Conservation of the buffers of a ring: each id is available to the kernel,
queued, pending in the assembler or held by the coroutine, as long as no write
throws and no data arrives after the second `cleanup`.
-/
import UltraNet.BufferRing
import Mathlib.Data.List.Perm.Basic

namespace UltraNet

/-- The buffers of the chunks with data. -/
def dataBids (chunks : List RecvChunkResult) : List Nat :=
  (chunks.filter fun chunk => 0 < chunk.res).map RecvChunkResult.bufferId

@[simp]
theorem dataBids_nil : dataBids [] = [] := rfl

theorem dataBids_append (first last : List RecvChunkResult) :
    dataBids (first ++ last) = dataBids first ++ dataBids last := by
  rw [dataBids, List.filter_append, List.map_append]
  rfl

theorem dataBids_cons_data {chunk : RecvChunkResult} (hdata : 0 < chunk.res)
    (rest : List RecvChunkResult) :
    dataBids (chunk :: rest) = chunk.bufferId :: dataBids rest := by
  simp [dataBids, hdata]

theorem dataBids_cons_empty {chunk : RecvChunkResult} (hempty : ¬ 0 < chunk.res)
    (rest : List RecvChunkResult) : dataBids (chunk :: rest) = dataBids rest := by
  simp [dataBids, hempty]

theorem dataBids_eq_nil {chunks : List RecvChunkResult}
    (hempty : ∀ chunk ∈ chunks, chunk.res ≤ 0) : dataBids chunks = [] := by
  have hfilter : chunks.filter (fun chunk => 0 < chunk.res) = [] := by
    rw [List.filter_eq_nil_iff]
    intro chunk hchunk
    have := hempty chunk hchunk
    simpa using this
  rw [dataBids, hfilter]
  rfl

/-- The buffers that the coroutine holds while it waits for more. -/
def RingAwait.held : RingAwait → List Nat
  | .more _ _ bids => bids
  | _ => []

def RingPhase.held : RingPhase → List Nat
  | .user => []
  | .ready await | .suspend await | .suspended await | .resume await => await.held
  | .write _ bids => bids

namespace RingConnection

/-- In how many places a buffer is. -/
def places (s : RingConnection) (bid : Nat) : Nat :=
  s.group.available.count bid + (dataBids s.state.queue).count bid +
    s.pendingBids.count bid +
    ((dataBids s.received).count bid + s.phase.held.count bid)

/-- Each buffer is in one place, and it is the kernel's after the terminal
completion and the end of the assembler. -/
def Conserved (entries : Nat) (s : RingConnection) : Prop :=
  (∀ bid, s.places bid = if bid < entries then 1 else 0) ∧
    (s.ended → s.destroyed →
      ∀ bid, s.group.available.count bid = if bid < entries then 1 else 0)

/-- No write of `echo_inplace_ring` throws, and data does not arrive after the
second `cleanup`. -/
def Careful (s : RingConnection) : RingEvent → Prop
  | .complete chunk => 0 < chunk.res → s.cleanups ≤ 1
  | .threw => False
  | _ => True

instance (s : RingConnection) (event : RingEvent) : Decidable (s.Careful event) :=
  match event with
  | .complete _ => inferInstanceAs (Decidable (_ → _))
  | .threw => isFalse id
  | .start _ | .nextChunk | .echoInplaceRing | .appendChunk _ | .consumeBytes _
  | .returnReasmBuffers | .cleanup | .destroy | .run | .wrote => isTrue trivial

/-- Who has the group: without it the queue is empty and stays so, and the
state has lost it only with the second `cleanup`. -/
structure Bound (s : RingConnection) : Prop where
  queue : s.state.abandoned ∨ s.submitted = false → s.state.queue = []
  group : s.hasGroup = false → s.state.abandoned ∨ s.submitted = false
  submitted : s.submitted → s.started
  cleaned : s.started → s.hasGroup = false → 1 ≤ s.cleanups
  back : s.started → s.state.bg = false → 2 ≤ s.cleanups
  gone : s.destroyed → s.phase = .user ∧ s.state.abandoned ∧ s.pendingBids = [] ∧
    dataBids s.received = []

structure Kept (entries : Nat) (s : RingConnection) : Prop where
  places : ∀ bid, s.places bid = if bid < entries then 1 else 0
  bound : s.Bound

variable {entries : Nat} {s s' : RingConnection}

theorem Kept.conserved (hs : s.Kept entries) : s.Conserved entries := by
  refine ⟨hs.places, ?_⟩
  intro _ hdestroyed bid
  obtain ⟨hphase, habandoned, hpending, hreceived⟩ := hs.bound.gone hdestroyed
  have hplaces := hs.places bid
  simpa [RingConnection.places, hphase, hpending, hreceived, RingPhase.held,
    hs.bound.queue (.inl habandoned)] using hplaces

theorem init_kept : (init entries).Kept entries where
  places bid := by
    simp [RingConnection.places, init, BufferGroup.init, RecvMultishotState.init,
      RingPhase.held, List.count_range]
  bound := by constructor <;> simp [init, RecvMultishotState.init]

theorem count_erase_add {l : List Nat} {b : Nat} (hmem : b ∈ l) (a : Nat) :
    (l.erase b).count a + [b].count a = l.count a := by
  rw [(List.perm_cons_erase hmem).count_eq a]
  simp only [List.count_cons, List.count_nil]
  omega

theorem drain_available (group : BufferGroup) (queue : List RecvChunkResult) :
    (drain true group queue).available = group.available ++ dataBids queue := by
  induction queue generalizing group with
  | nil => exact (List.append_nil _).symm
  | cons chunk rest ih =>
      rw [drain, ih]
      by_cases hdata : 0 < chunk.res
      · rw [if_pos ⟨hdata, rfl⟩, dataBids_cons_data hdata]
        simp
      · rw [if_neg (fun h => hdata h.1), dataBids_cons_empty hdata]

theorem start_kept (hs : s.Kept entries) (hnot : s.started = false)
    (submitted : Bool) : (s.start submitted).Kept entries where
  places := hs.places
  bound := by
    have hqueue : s.state.queue = [] := by
      refine hs.bound.queue (.inr ?_)
      cases hsub : s.submitted with
      | false => rfl
      | true => simp [hs.bound.submitted hsub] at hnot
    constructor
    case queue => exact fun _ => hqueue
    case group => nofun
    case submitted => exact fun _ => rfl
    case cleaned => nofun
    case back => nofun
    case gone =>
      intro hdestroyed
      exact hs.bound.gone hdestroyed

theorem held_resumeWaiter (phase : RingPhase) :
    (resumeWaiter phase).held = phase.held := by
  cases phase <;> rfl

theorem complete_kept (hs : s.Kept entries) {chunk : RecvChunkResult}
    (hcan : s.CanComplete chunk) (hcareful : 0 < chunk.res → s.cleanups ≤ 1) :
    (s.complete chunk).Kept entries := by
  obtain ⟨hsubmitted, -, hkernel⟩ := hcan
  cases habandoned : s.state.abandoned with
  | true =>
      -- the handler returns the buffer: the state has its group
      have hcomplete : s.complete chunk =
          { s with
            group :=
              if 0 < chunk.res then
                { s.group with
                  available := s.group.available.erase chunk.bufferId }.returnBatch
                    [chunk.bufferId]
              else s.group
            ended := chunk.terminal } := by
        by_cases hdata : 0 < chunk.res
        · have hbg : s.state.bg = true := by
            by_contra hbg
            have hback := hs.bound.back (hs.bound.submitted hsubmitted)
              (by simpa using hbg)
            have := hcareful hdata
            omega
          simp [complete, RecvMultishotState.onRecvChunk, habandoned, hbg, hdata]
        · simp [complete, RecvMultishotState.onRecvChunk, habandoned, hdata]
      rw [hcomplete]
      refine ⟨?_, { hs.bound with }⟩
      intro bid
      rw [← hs.places bid]
      simp only [RingConnection.places]
      split
      next hdata =>
        rw [BufferGroup.returnBatch_available, List.count_append,
          count_erase_add (hkernel hdata).1]
      next => rfl
  | false =>
      have hcomplete : s.complete chunk =
          { s with
            group :=
              if 0 < chunk.res then
                { s.group with
                  available := s.group.available.erase chunk.bufferId }
              else s.group
            state :=
              { s.state with
                queue := s.state.queue ++ [chunk]
                stopped := s.state.stopped || chunk.terminal
                waiter := false }
            phase := if s.state.waiter then resumeWaiter s.phase else s.phase
            ended := chunk.terminal } := by
        simp [complete, RecvMultishotState.onRecvChunk, habandoned]
      have hheld : (if s.state.waiter then resumeWaiter s.phase
          else s.phase).held = s.phase.held := by
        split
        · exact held_resumeWaiter s.phase
        · rfl
      rw [hcomplete]
      refine ⟨?_, { hs.bound with queue := ?_, gone := ?_ }⟩
      · intro bid
        rw [← hs.places bid]
        simp only [RingConnection.places, hheld, dataBids_append, List.count_append]
        split
        next hdata =>
          have := count_erase_add (hkernel hdata).1 bid
          rw [dataBids_cons_data hdata, dataBids_nil]
          dsimp only
          omega
        next hempty =>
          rw [dataBids_cons_empty hempty, dataBids_nil, List.count_nil]
          omega
      · rintro (h | h)
        · simp [habandoned] at h
        · simp [hsubmitted] at h
      · intro hdestroyed
        simp [(hs.bound.gone hdestroyed).2.1] at habandoned

theorem idle_iff : s.idle = true ↔ s.phase = .user ∧ s.destroyed = false := by
  rw [idle]
  cases s.phase <;> simp

/-- The coroutine is not over while it runs. -/
theorem Bound.alive (hbound : s.Bound) (hphase : s.phase ≠ .user) :
    s.destroyed = false := by
  cases hdestroyed : s.destroyed with
  | false => rfl
  | true => exact absurd (hbound.gone hdestroyed).1 hphase

/-- A step that moves buffers between the coroutine, the assembler and the
kernel. -/
theorem Kept.move (hs : s.Kept entries)
    (hplaces : ∀ bid, s'.places bid = s.places bid)
    (hstate : s'.state.queue = s.state.queue.tail ∨
      s'.state.queue = s.state.queue)
    (hparts :
      (s'.state.abandoned, s'.state.bg, s'.hasGroup, s'.submitted, s'.started,
        s'.cleanups) =
      (s.state.abandoned, s.state.bg, s.hasGroup, s.submitted, s.started,
        s.cleanups))
    (hdestroyed : s'.destroyed = false) : s'.Kept entries where
  places bid := (hplaces bid).trans (hs.places bid)
  bound := by
    simp only [Prod.mk.injEq] at hparts
    obtain ⟨habandoned, hbg, hgroup, hkernel, hstarted, hcleanups⟩ := hparts
    constructor
    case queue =>
      rw [habandoned, hkernel]
      intro hclosed
      have hempty := hs.bound.queue hclosed
      obtain hqueue | hqueue := hstate
      · rw [hqueue, hempty]
        rfl
      · rw [hqueue, hempty]
    case group =>
      rw [hgroup, habandoned, hkernel]
      exact hs.bound.group
    case submitted =>
      rw [hkernel, hstarted]
      exact hs.bound.submitted
    case cleaned =>
      rw [hstarted, hgroup, hcleanups]
      exact hs.bound.cleaned
    case back =>
      rw [hstarted, hbg, hcleanups]
      exact hs.bound.back
    case gone => simp [hdestroyed]

theorem appendChunk_kept (hs : s.Kept entries) (hidle : s.idle) {index : Nat}
    (hstep : s.appendChunk index = some s') : s'.Kept entries := by
  obtain ⟨-, halive⟩ := idle_iff.mp hidle
  rw [appendChunk] at hstep
  cases hchunk : s.received[index]? with
  | none => simp [hchunk] at hstep
  | some chunk =>
      have hperm : ∀ bid, (dataBids s.received).count bid =
          (dataBids [chunk]).count bid +
            (dataBids (s.received.eraseIdx index)).count bid := by
        intro bid
        obtain ⟨hlt, rfl⟩ := List.getElem?_eq_some_iff.mp hchunk
        have hall := (List.getElem_cons_eraseIdx_perm hlt).symm
        rw [← List.count_append, ← dataBids_append]
        exact ((hall.filter _).map _).count_eq bid
      simp only [hchunk] at hstep
      split at hstep
      next hempty =>
        obtain rfl := Option.some.inj hstep
        refine hs.move ?_ (.inr rfl) rfl halive
        intro bid
        simp only [places, hperm bid, dataBids_cons_empty (Int.not_lt.mpr hempty)]
        simp
      next hdata =>
        split at hstep
        next => cases hstep
        next =>
          obtain rfl := Option.some.inj hstep
          refine hs.move ?_ (.inr rfl) rfl halive
          intro bid
          simp only [places, hperm bid, dataBids_cons_data (Int.not_le.mp hdata),
            dataBids_nil, List.count_append]
          omega

theorem returnReasmBuffers_kept (hs : s.Kept entries) (hidle : s.idle)
    (hstep : s.returnReasmBuffers = some s') : s'.Kept entries := by
  obtain ⟨-, halive⟩ := idle_iff.mp hidle
  rw [returnReasmBuffers] at hstep
  split at hstep
  next => cases hstep
  next =>
    obtain rfl := Option.some.inj hstep
    refine hs.move ?_ (.inr rfl) rfl halive
    intro bid
    simp only [places, BufferGroup.returnBatch_available, List.count_append,
      List.count_nil]
    omega

/-- After `cleanup` the queue and the list of the assembler are empty. -/
theorem cleanup_kept (hs : s.Kept entries) (hidle : s.idle)
    (hstep : s.cleanup = some s') :
    s'.Kept entries ∧ s'.phase = .user ∧ s'.state.abandoned ∧
      s'.pendingBids = [] ∧ s'.received = s.received := by
  obtain ⟨hphase, halive⟩ := idle_iff.mp hidle
  rw [cleanup] at hstep
  cases hreturn : s.returnReasmBuffers with
  | none => simp [hreturn] at hstep
  | some middle =>
      have hkept := returnReasmBuffers_kept hs hidle hreturn
      have hmiddle : middle =
          { s with
            group := s.group.returnBatch s.pendingBids
            pendingBids := [] } := by
        rw [returnReasmBuffers] at hreturn
        split at hreturn
        · cases hreturn
        · exact (Option.some.inj hreturn).symm
      simp only [hreturn, Option.some.injEq] at hstep
      have hdrain : (drain middle.hasGroup middle.group
          middle.state.queue).available =
            middle.group.available ++ dataBids middle.state.queue := by
        cases hgroup : middle.hasGroup with
        | true => exact drain_available ..
        | false =>
            rw [hkept.bound.queue (hkept.bound.group hgroup)]
            exact (List.append_nil _).symm
      subst hstep
      refine ⟨⟨?_, ?_⟩, by rw [hmiddle]; exact hphase, rfl, by rw [hmiddle],
        by rw [hmiddle]⟩
      · intro bid
        rw [← hkept.places bid]
        simp only [places, hdrain, List.count_append, dataBids_nil, List.count_nil]
        omega
      · constructor
        case queue => exact fun _ => rfl
        case group => exact fun _ => .inl rfl
        case submitted => exact hkept.bound.submitted
        case cleaned => exact fun _ _ => Nat.le_add_left ..
        case back =>
          intro hstarted hgroup
          exact Nat.succ_le_succ (hkept.bound.cleaned hstarted hgroup)
        case gone =>
          intro hdestroyed
          rw [hmiddle] at hdestroyed
          simp [halive] at hdestroyed

/-- The coroutine takes a chunk from the queue into its hands. -/
theorem Kept.hold (hs : s.Kept entries) (hphase : s.phase ≠ .user)
    {rest : List RecvChunkResult} {phase : RingPhase}
    (hqueue : rest = s.state.queue.tail ∨ rest = s.state.queue)
    (hheld : ∀ bid, (dataBids rest).count bid + phase.held.count bid =
      (dataBids s.state.queue).count bid + s.phase.held.count bid) :
    Kept entries { s with
      state := { s.state with queue := rest }
      phase := phase } := by
  refine hs.move ?_ hqueue rfl (hs.bound.alive hphase)
  intro bid
  have := hheld bid
  simp only [RingConnection.places]
  omega

theorem collect_eq (s : RingConnection) (info : InlineFrameInfo) (accumulated : Nat)
    (bids : List Nat) : ∃ phase, s.collect info accumulated bids =
      { s with phase := phase } ∧ phase.held = bids := by
  rw [collect]
  split
  · exact ⟨_, rfl, rfl⟩
  · exact ⟨_, rfl, rfl⟩

/-- What the coroutine does with the first chunk of a frame: it holds its buffer
if there is one. -/
theorem receive_first (s : RingConnection) {chunk : RecvChunkResult}
    (hgroup : 0 < chunk.res → s.hasGroup = true) :
    ∃ phase, s.receive chunk .first = { s with phase := phase } ∧
      phase.held = dataBids [chunk] := by
  rw [receive]
  split
  next hend =>
    have hempty : ¬ 0 < chunk.res := by
      simp [RecvChunkResult.isEof, RecvChunkResult.isError] at hend
      omega
    exact ⟨_, rfl, (dataBids_cons_empty hempty []).symm⟩
  next hend =>
    have hdata : 0 < chunk.res := by
      simp [RecvChunkResult.isEof, RecvChunkResult.isError] at hend
      omega
    rw [if_pos (hgroup hdata), dataBids_cons_data hdata]
    dsimp only
    split
    · exact ⟨_, rfl, rfl⟩
    · exact collect_eq ..

/-- With a further chunk: it holds one buffer more, or returns all. -/
theorem receive_more (s : RingConnection) (chunk : RecvChunkResult)
    (info : InlineFrameInfo) (accumulated : Nat) (bids : List Nat) :
    (∃ phase, s.receive chunk (.more info accumulated bids) =
        { s with phase := phase } ∧ phase.held = bids ++ dataBids [chunk]) ∨
      s.receive chunk (.more info accumulated bids) =
          { s with phase := .user, group := s.group.returnBatch bids } ∧
        dataBids [chunk] = [] := by
  rw [receive]
  split
  next hend =>
    have hempty : ¬ 0 < chunk.res := by
      simp [RecvChunkResult.isEof, RecvChunkResult.isError] at hend
      omega
    exact .inr ⟨rfl, dataBids_cons_empty hempty []⟩
  next hend =>
    have hdata : 0 < chunk.res := by
      simp [RecvChunkResult.isEof, RecvChunkResult.isError] at hend
      omega
    rw [dataBids_cons_data hdata]
    exact .inl (collect_eq ..)

/-- The coroutine goes on with a chunk. -/
theorem receive_kept (hs : s.Kept entries) {chunk : RecvChunkResult}
    {rest : List RecvChunkResult} {await : RingAwait}
    (hphase : s.phase = .resume await)
    (hqueue : s.state.queue = chunk :: rest ∨ s.state.queue = rest ∧ chunk.res = 0) :
    ({ s with state := { s.state with queue := rest } }.receive chunk await).Kept
      entries := by
  have hrunning : s.phase ≠ .user := by simp [hphase]
  have htail : rest = s.state.queue.tail ∨ rest = s.state.queue := by
    obtain hcons | ⟨hsame, -⟩ := hqueue
    · exact .inl (by rw [hcons]; rfl)
    · exact .inr hsame.symm
  have hcount : ∀ bid, (dataBids s.state.queue).count bid =
      (dataBids [chunk]).count bid + (dataBids rest).count bid := by
    intro bid
    obtain hcons | ⟨hsame, hzero⟩ := hqueue
    · rw [hcons, ← List.count_append, ← dataBids_append]
      rfl
    · rw [hsame, dataBids_cons_empty (by omega)]
      simp
  cases await with
  | direct =>
      refine hs.move ?_ htail rfl (hs.bound.alive hrunning)
      intro bid
      simp only [receive, places, hphase, hcount bid, dataBids_append,
        List.count_append, RingPhase.held, RingAwait.held]
      omega
  | first =>
      have hgroup : 0 < chunk.res → s.hasGroup = true := by
        intro hdata
        by_contra hnone
        have hempty := hs.bound.queue (hs.bound.group (by simpa using hnone))
        obtain hcons | ⟨-, hzero⟩ := hqueue
        · rw [hcons] at hempty
          cases hempty
        · omega
      obtain ⟨phase, heq, hheld⟩ := receive_first
        { s with state := { s.state with queue := rest } } hgroup
      rw [heq]
      refine hs.hold hrunning htail ?_
      intro bid
      rw [hheld, hcount bid, hphase]
      simp only [RingPhase.held, RingAwait.held, List.count_nil]
      omega
  | more info accumulated bids =>
      obtain ⟨phase, heq, hheld⟩ | ⟨heq, hempty⟩ := receive_more
        { s with state := { s.state with queue := rest } } chunk info
          accumulated bids
      · rw [heq]
        refine hs.hold hrunning htail ?_
        intro bid
        rw [hheld, hcount bid, hphase, List.count_append]
        simp only [RingPhase.held, RingAwait.held]
        omega
      · rw [heq]
        refine hs.move ?_ htail rfl (hs.bound.alive hrunning)
        intro bid
        simp only [places, hphase, hcount bid, hempty, RingPhase.held,
          RingAwait.held, BufferGroup.returnBatch_available, List.count_append,
          List.count_nil]
        omega

theorem run_kept (hs : s.Kept entries) (hstep : s.run = some s') :
    s'.Kept entries := by
  rw [run] at hstep
  cases hphase : s.phase with
  | ready await =>
      have hrunning : s.phase ≠ .user := by simp [hphase]
      simp only [hphase] at hstep
      split at hstep
      · obtain rfl := Option.some.inj hstep
        exact hs.hold hrunning (.inr rfl) (by simp [hphase, RingPhase.held])
      · obtain rfl := Option.some.inj hstep
        exact hs.hold hrunning (.inr rfl) (by simp [hphase, RingPhase.held])
  | suspend await =>
      have halive := hs.bound.alive (by simp [hphase])
      simp only [hphase, RecvMultishotState.awaitSuspend, Option.some.injEq] at hstep
      subst hstep
      split
      · refine hs.move ?_ (.inr rfl) rfl halive
        intro bid
        simp [places, hphase, RingPhase.held]
      · refine hs.move ?_ (.inr rfl) rfl halive
        intro bid
        simp [places, hphase, RingPhase.held]
  | resume await =>
      simp only [hphase, RecvMultishotState.awaitResume, Option.some.injEq] at hstep
      subst hstep
      split
      next hempty =>
        let chunk : RecvChunkResult := ⟨0, 0, []⟩
        have hqueue : s.state.queue = chunk :: [] ∨
            s.state.queue = [] ∧ chunk.res = 0 :=
          .inr ⟨hempty, rfl⟩
        have hkept := receive_kept hs hphase hqueue
        rwa [← hempty] at hkept
      next chunk rest hcons => exact receive_kept hs hphase (.inl hcons)
  | user => simp [hphase] at hstep
  | suspended await => simp [hphase] at hstep
  | write opcode bids => simp [hphase] at hstep

theorem wrote_kept (hs : s.Kept entries) (hstep : s.wrote = some s') :
    s'.Kept entries := by
  rw [wrote] at hstep
  split at hstep
  next opcode bids hphase =>
    obtain rfl := Option.some.inj hstep
    refine hs.move ?_ (.inr rfl) rfl
      (hs.bound.alive (by simp [hphase]))
    intro bid
    simp only [places, hphase, RingPhase.held, BufferGroup.returnBatch_available,
      List.count_append, List.count_nil]
    omega
  next => cases hstep

/-- Every careful step keeps each buffer in its place. -/
theorem step_kept {event : RingEvent} (hs : s.Kept entries)
    (hcareful : s.Careful event) (hstep : s.step event = some s') :
    s'.Kept entries := by
  -- a step of the idle coroutine that only sets what it does next
  have henter : ∀ phase : RingPhase, s.idle → phase.held = [] →
      Kept entries { s with phase := phase } := by
    intro phase hidle hheld
    obtain ⟨hphase, halive⟩ := idle_iff.mp hidle
    refine hs.move ?_ (.inr rfl) rfl halive
    intro bid
    rw [places, places, hheld, hphase]
    rfl
  cases event with
  | start submitted =>
      obtain ⟨⟨-, hnot⟩, ⟨⟩⟩ := Option.ite_none_right_eq_some.mp hstep
      exact start_kept hs (by simpa using hnot) submitted
  | complete chunk =>
      obtain ⟨hcan, ⟨⟩⟩ := Option.ite_none_right_eq_some.mp hstep
      exact complete_kept hs hcan hcareful
  | nextChunk =>
      obtain ⟨hidle, ⟨⟩⟩ := Option.ite_none_right_eq_some.mp hstep
      exact henter _ hidle rfl
  | echoInplaceRing =>
      obtain ⟨hidle, ⟨⟩⟩ := Option.ite_none_right_eq_some.mp hstep
      exact henter _ hidle rfl
  | appendChunk index =>
      obtain ⟨hidle, hstep⟩ := Option.ite_none_right_eq_some.mp hstep
      exact appendChunk_kept hs hidle hstep
  | consumeBytes n =>
      obtain ⟨hidle, ⟨⟩⟩ := Option.ite_none_right_eq_some.mp hstep
      exact ⟨hs.places, { hs.bound with }⟩
  | returnReasmBuffers =>
      obtain ⟨hidle, hstep⟩ := Option.ite_none_right_eq_some.mp hstep
      exact returnReasmBuffers_kept hs hidle hstep
  | cleanup =>
      obtain ⟨hidle, hstep⟩ := Option.ite_none_right_eq_some.mp hstep
      exact (cleanup_kept hs hidle hstep).1
  | destroy =>
      obtain ⟨⟨hidle, hreceived⟩, hstep⟩ := Option.ite_none_right_eq_some.mp hstep
      obtain ⟨last, hclean, rfl⟩ := Option.map_eq_some_iff.mp hstep
      obtain ⟨hkept, hphase, habandoned, hpending, hsame⟩ :=
        cleanup_kept hs hidle hclean
      refine ⟨hkept.places, { hkept.bound with gone := fun _ => ?_ }⟩
      refine ⟨hphase, habandoned, hpending, ?_⟩
      rw [hsame]
      exact dataBids_eq_nil hreceived
  | run => exact run_kept hs hstep
  | wrote => exact wrote_kept hs hstep
  | threw => exact absurd hcareful id

/-- In every run in which no write of `echo_inplace_ring` throws and no data
arrives after the second `cleanup`, each buffer is in one place in every state,
and all of them are the kernel's after the terminal completion and the end of
the assembler. -/
theorem buffers_conserved (entries : Nat) (word : List RingEvent)
    (hcareful : (machine entries).Meets Careful word) {last : RingConnection}
    (hrun : (machine entries).run word = some last) : last.Conserved entries :=
  ((machine entries).run_invariant (I := Kept entries) init_kept
    (fun _ _ _ hs hcareful hstep => step_kept hs hcareful hstep)
    word hcareful hrun).conserved

/-- The first byte of a text frame without payload, and its second one. -/
def splitFrame (bid : Nat) (byte : UInt8) : RecvChunkResult :=
  ⟨1, bid <<< 16 ||| 3, [byte]⟩

def streamEnd : RecvChunkResult := ⟨0, 0, []⟩

set_option maxRecDepth 100000 in
/-- A byte is echoed, the rest arrives while the assembler is abandoned. -/
theorem buffers_conserved_abandoned :
    ∃ last, (machine 2).run
        [.start true, .echoInplaceRing, .run, .run, .complete (splitFrame 0 0x81),
          .run, .wrote, .cleanup, .complete (splitFrame 1 0), .destroy,
          .complete streamEnd] = some last ∧
      last.group.available = [0, 1] ∧ last.Conserved 2 := by
  have hend : ((machine 2).run
      [.start true, .echoInplaceRing, .run, .run, .complete (splitFrame 0 0x81),
        .run, .wrote, .cleanup, .complete (splitFrame 1 0), .destroy,
        .complete streamEnd]).map (fun s => s.group.available) = some [0, 1] := by
    decide
  obtain ⟨last, hrun, havailable⟩ := Option.map_eq_some_iff.mp hend
  exact ⟨last, hrun, havailable,
    buffers_conserved 2 _ (by decide) hrun⟩

theorem not_conserved {entries : Nat} {s : RingConnection} {bid : Nat}
    (hlt : bid < entries) (hnone : s.places bid = 0) : ¬ s.Conserved entries := by
  intro hs
  have hone := hs.1 bid
  rw [hnone, if_pos hlt] at hone
  cases hone

set_option maxRecDepth 100000 in
/-- A write throws, or data arrives after `cleanup` and the destructor: buffer 0
is nowhere, and is not the kernel's in the end. -/
theorem buffers_lost :
    (∃ last, (machine 2).run
        [.start true, .complete (splitFrame 0 0x81), .echoInplaceRing, .run, .run,
          .threw, .destroy, .complete streamEnd] = some last ∧
      last.group.available = [1] ∧ ¬ last.Conserved 2) ∧
    ∃ last, (machine 2).run
        [.start true, .cleanup, .destroy, .complete (splitFrame 0 0x81),
          .complete streamEnd] = some last ∧
      last.group.available = [1] ∧ ¬ last.Conserved 2 := by
  have hthrown : ((machine 2).run
      [.start true, .complete (splitFrame 0 0x81), .echoInplaceRing, .run, .run,
        .threw, .destroy, .complete streamEnd]).map
          (fun s => (s.group.available, s.places 0)) = some ([1], 0) := by
    decide
  have habandoned : ((machine 2).run
      [.start true, .cleanup, .destroy, .complete (splitFrame 0 0x81),
        .complete streamEnd]).map
          (fun s => (s.group.available, s.places 0)) = some ([1], 0) := by
    decide
  constructor
  · obtain ⟨last, hrun, hlast⟩ := Option.map_eq_some_iff.mp hthrown
    obtain ⟨havailable, hplaces⟩ := Prod.mk.inj hlast
    exact ⟨last, hrun, havailable, not_conserved (by decide) hplaces⟩
  · obtain ⟨last, hrun, hlast⟩ := Option.map_eq_some_iff.mp habandoned
    obtain ⟨havailable, hplaces⟩ := Prod.mk.inj hlast
    exact ⟨last, hrun, havailable, not_conserved (by decide) hplaces⟩

end RingConnection

end UltraNet
