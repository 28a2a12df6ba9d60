/-
The hand-off of multishot receive completions to one coroutine that awaits them
again and again: the lock sections of the completion handler and of the awaiter
interleave in any order, and the coroutine is resumed after the unlocking.
-/
import UltraNet.GuardedRun
import UltraNet.RecvMultishot

namespace UltraNet

/-- Where the coroutine is with respect to an awaiter: it runs, it has found
nothing ready, it is about to call `await_resume`, or it is the waiter. -/
inductive MultishotConsumer where
  | running
  | suspending
  | resuming
  | parked
deriving DecidableEq

/-- `arrived` are the completions that the handler has been called with, and
`results` are what the coroutine has got, both in order. -/
structure MultishotRead where
  recv : RecvMultishotState
  consumer : MultishotConsumer
  arrived : List RecvChunkResult
  results : List RecvChunkResult

inductive MultishotAct where
  | complete (chunk : RecvChunkResult)
  | ready
  | suspend
  | resume

/-- What `await_resume` makes up when the queue is empty. -/
def RecvChunkResult.endOfStream : RecvChunkResult := ⟨0, 0, []⟩

/-- The actions that the coroutine takes by itself. -/
def MultishotAct.ofConsumer : MultishotAct → Bool
  | .complete _ => false
  | .ready | .suspend | .resume => true

namespace MultishotRead

def init : MultishotRead := ⟨.init, .running, [], []⟩

def complete (s : MultishotRead) (chunk : RecvChunkResult) : MultishotRead :=
  let (_, resumed, recv) := s.recv.onRecvChunk chunk
  { s with
    recv := recv
    consumer := if resumed then .resuming else s.consumer
    arrived := s.arrived ++ [chunk] }

def ready (s : MultishotRead) : MultishotRead :=
  { s with consumer := if s.recv.awaitReady then .resuming else .suspending }

def suspend (s : MultishotRead) : MultishotRead :=
  let (goesOn, recv) := s.recv.awaitSuspend
  { s with recv := recv, consumer := if goesOn then .resuming else .parked }

def resume (s : MultishotRead) : MultishotRead :=
  let (result, recv) := s.recv.awaitResume
  { s with recv := recv, consumer := .running, results := s.results ++ [result] }

/-- Completions are delivered at any time; the coroutine goes through the
functions of the awaiter. -/
def step (s : MultishotRead) : MultishotAct → Option MultishotRead
  | .complete chunk => some (s.complete chunk)
  | .ready => if s.consumer = .running then some s.ready else none
  | .suspend => if s.consumer = .suspending then some s.suspend else none
  | .resume => if s.consumer = .resuming then some s.resume else none

def machine : Machine MultishotRead MultishotAct := ⟨init, step⟩

end MultishotRead

/-- The results are the chunks in order, each once, and besides them only ends
of the stream that come after a terminal chunk. -/
inductive Obtains : List RecvChunkResult → List RecvChunkResult → Prop
  | nil : Obtains [] []
  | chunk {taken results : List RecvChunkResult} (h : Obtains taken results)
      (chunk : RecvChunkResult) : Obtains (taken ++ [chunk]) (results ++ [chunk])
  | ended {taken results : List RecvChunkResult} (h : Obtains taken results)
      (hterminal : ∃ chunk ∈ taken, chunk.terminal = true) :
      Obtains taken (results ++ [.endOfStream])

/-- The kernel reports nothing more for a request after its terminal
completion. -/
def TerminalLast (arrived : List RecvChunkResult) : Prop :=
  ∀ before chunk after, arrived = before ++ chunk :: after →
    chunk.terminal = true → after = []

theorem TerminalLast.rest_eq_nil {taken queue : List RecvChunkResult}
    (hlast : TerminalLast (taken ++ queue))
    (hterminal : ∃ chunk ∈ taken, chunk.terminal = true) : queue = [] := by
  obtain ⟨chunk, hmem, hchunk⟩ := hterminal
  obtain ⟨before, after, rfl⟩ := List.append_of_mem hmem
  have hafter : after ++ queue = [] := by
    apply hlast before chunk (after ++ queue) _ hchunk
    simp
  exact (List.append_eq_nil_iff.mp hafter).2

/-- Where nothing follows the terminal completion, the results are the chunks
and then the ends of the stream. -/
theorem Obtains.eq_append {taken results : List RecvChunkResult}
    (h : Obtains taken results) (queue : List RecvChunkResult)
    (hlast : TerminalLast (taken ++ queue)) :
    ∃ count, results = taken ++ List.replicate count .endOfStream ∧
      (0 < count → ∃ chunk ∈ taken, chunk.terminal = true) := by
  induction h generalizing queue with
  | nil => exact ⟨0, rfl, fun hpos => absurd hpos (Nat.lt_irrefl 0)⟩
  | @chunk taken results h chunk ih =>
      rw [List.append_assoc] at hlast
      obtain ⟨count, hresults, hended⟩ := ih ([chunk] ++ queue) hlast
      have hcount : count = 0 := by
        by_contra hne
        have hqueue := hlast.rest_eq_nil (hended (Nat.pos_of_ne_zero hne))
        simp at hqueue
      refine ⟨0, ?_, fun hpos => absurd hpos (Nat.lt_irrefl 0)⟩
      rw [hresults, hcount]
      simp
  | @ended taken results h hterminal ih =>
      obtain ⟨count, hresults, -⟩ := ih queue hlast
      refine ⟨count + 1, ?_, fun _ => hterminal⟩
      rw [hresults, List.append_assoc, List.replicate_succ']

/-- After a terminal result the coroutine gets only ends of the stream. -/
theorem TerminalLast.only_endOfStream {taken queue : List RecvChunkResult} {count : Nat}
    (hlast : TerminalLast (taken ++ queue)) {before after : List RecvChunkResult}
    {chunk : RecvChunkResult} (hterminal : chunk.terminal = true)
    (hresults : taken ++ List.replicate count .endOfStream = before ++ chunk :: after) :
    ∀ result ∈ after, result = .endOfStream := by
  intro result hresult
  rcases List.append_eq_append_iff.mp hresults with
    ⟨ends, -, hends⟩ | ⟨tail, htaken, htail⟩
  · have hmem : result ∈ List.replicate count RecvChunkResult.endOfStream := by
      rw [hends]
      exact List.mem_append_right _ (List.mem_cons_of_mem _ hresult)
    exact (List.mem_replicate.mp hmem).2
  · cases tail with
    | nil =>
        have hmem : result ∈ List.replicate count RecvChunkResult.endOfStream := by
          rw [List.nil_append] at htail
          exact htail ▸ List.mem_cons_of_mem _ hresult
        exact (List.mem_replicate.mp hmem).2
    | cons first rest =>
        obtain ⟨rfl, hafter⟩ := List.cons.inj htail
        have hrest : rest ++ queue = [] := by
          apply hlast before chunk (rest ++ queue) _ hterminal
          rw [htaken, List.append_assoc, List.cons_append]
        rw [hafter, (List.append_eq_nil_iff.mp hrest).1] at hresult
        exact (List.mem_replicate.mp hresult).2

namespace MultishotRead

variable {s s' : MultishotRead}

/-- The waiter is set just while the coroutine is parked, and then there is
nothing for it; nobody goes to `await_resume` for nothing. -/
structure Inv (s : MultishotRead) : Prop where
  kept : s.recv.abandoned = false
  waiter : s.recv.waiter = true ↔ s.consumer = .parked
  parked : s.consumer = .parked → s.recv.queue = [] ∧ s.recv.stopped = false
  resuming : s.consumer = .resuming → s.recv.queue ≠ [] ∨ s.recv.stopped = true
  stopped : s.recv.stopped = true → ∃ chunk ∈ s.arrived, chunk.terminal = true
  obtained : ∃ taken, taken ++ s.recv.queue = s.arrived ∧ Obtains taken s.results

theorem init_inv : init.Inv where
  kept := rfl
  waiter := by simp [init, RecvMultishotState.init]
  parked := nofun
  resuming := nofun
  stopped := nofun
  obtained := ⟨[], rfl, .nil⟩

theorem awaitReady_iff (recv : RecvMultishotState) :
    recv.awaitReady = true ↔ recv.queue ≠ [] ∨ recv.stopped = true := by
  simp [RecvMultishotState.awaitReady]

theorem complete_eq (hs : s.Inv) (chunk : RecvChunkResult) :
    s.complete chunk =
      { s with
        recv := { s.recv with
          queue := s.recv.queue ++ [chunk]
          stopped := s.recv.stopped || chunk.terminal
          waiter := false }
        consumer := if s.recv.waiter then .resuming else s.consumer
        arrived := s.arrived ++ [chunk] } := by
  simp [complete, RecvMultishotState.onRecvChunk, hs.kept]

/-- A completion wakes the coroutine just when it is parked. -/
theorem consumer_complete (hs : s.Inv) (chunk : RecvChunkResult) :
    (s.complete chunk).consumer =
      if s.consumer = .parked then .resuming else s.consumer := by
  rw [complete_eq hs]
  simp only [hs.waiter]

theorem consumer_complete_ne (hs : s.Inv) (chunk : RecvChunkResult) :
    (s.complete chunk).consumer ≠ .parked := by
  rw [consumer_complete hs]
  split
  next => nofun
  next hparked => exact hparked

theorem Inv.complete (hs : s.Inv) (chunk : RecvChunkResult) :
    (s.complete chunk).Inv where
  kept := by
    rw [complete_eq hs]
    exact hs.kept
  waiter := by
    have hwaiter : (s.complete chunk).recv.waiter = false := by rw [complete_eq hs]
    rw [hwaiter]
    exact iff_of_false Bool.false_ne_true (consumer_complete_ne hs chunk)
  parked := fun hparked => absurd hparked (consumer_complete_ne hs chunk)
  resuming := by
    intro _
    rw [complete_eq hs]
    exact .inl (by simp)
  stopped := by
    rw [complete_eq hs]
    intro hstopped
    simp only [Bool.or_eq_true] at hstopped
    rcases hstopped with hstopped | hterminal
    · obtain ⟨old, hold, hterminal⟩ := hs.stopped hstopped
      exact ⟨old, List.mem_append_left _ hold, hterminal⟩
    · exact ⟨chunk, List.mem_append_right _ (List.mem_singleton_self chunk), hterminal⟩
  obtained := by
    obtain ⟨taken, harrived, hobtains⟩ := hs.obtained
    rw [complete_eq hs]
    refine ⟨taken, ?_, hobtains⟩
    rw [← harrived, List.append_assoc]

theorem Inv.ready (hs : s.Inv) (hrunning : s.consumer = .running) : s.ready.Inv where
  kept := hs.kept
  waiter := by
    have hwaiter := hs.waiter
    rw [hrunning] at hwaiter
    simp only [MultishotRead.ready]
    split <;> simpa using hwaiter
  parked := by
    simp only [MultishotRead.ready]
    split <;> simp
  resuming := by
    simp only [MultishotRead.ready]
    split
    next hready => exact fun _ => (awaitReady_iff s.recv).mp hready
    next => simp
  stopped := hs.stopped
  obtained := hs.obtained

/-- The check that is made again before the coroutine parks. -/
theorem suspend_eq :
    s.suspend =
      if s.recv.queue ≠ [] ∨ s.recv.stopped = true then { s with consumer := .resuming }
      else { s with recv := { s.recv with waiter := true }, consumer := .parked } := by
  simp only [suspend, RecvMultishotState.awaitSuspend, ← awaitReady_iff,
    RecvMultishotState.awaitReady]
  split <;> rfl

theorem Inv.suspend (hs : s.Inv) (hsuspending : s.consumer = .suspending) :
    s.suspend.Inv := by
  rw [suspend_eq]
  split
  next hready =>
    have hwaiter := hs.waiter
    rw [hsuspending] at hwaiter
    exact ⟨hs.kept, by simpa using hwaiter, nofun, fun _ => hready, hs.stopped, hs.obtained⟩
  next hnot =>
    have hempty : s.recv.queue = [] ∧ s.recv.stopped = false := by simpa using hnot
    exact ⟨hs.kept, by simp, fun _ => hempty, nofun, hs.stopped, hs.obtained⟩

theorem Inv.resume (hs : s.Inv) (hresuming : s.consumer = .resuming) : s.resume.Inv := by
  have hwaiter : s.recv.waiter = false := by
    have := hs.waiter
    rw [hresuming] at this
    simpa using this
  obtain ⟨taken, harrived, hobtains⟩ := hs.obtained
  cases hqueue : s.recv.queue with
  | nil =>
      -- only a terminal completion brings the coroutine here with nothing queued
      have hstopped : s.recv.stopped = true := by simpa [hqueue] using hs.resuming hresuming
      have htaken : taken = s.arrived := by simpa [hqueue] using harrived
      have hresume : s.resume =
          { s with consumer := .running, results := s.results ++ [.endOfStream] } := by
        simp [MultishotRead.resume, RecvMultishotState.awaitResume, hqueue,
          RecvChunkResult.endOfStream]
      rw [hresume]
      refine ⟨hs.kept, by simp [hwaiter], nofun, nofun, hs.stopped, taken, harrived, ?_⟩
      exact hobtains.ended (htaken ▸ hs.stopped hstopped)
  | cons chunk rest =>
      have hresume : s.resume =
          { s with
            recv := { s.recv with queue := rest }
            consumer := .running
            results := s.results ++ [chunk] } := by
        simp [MultishotRead.resume, RecvMultishotState.awaitResume, hqueue]
      rw [hresume]
      refine ⟨hs.kept, by simp [hwaiter], nofun, nofun, hs.stopped, taken ++ [chunk], ?_, ?_⟩
      · rw [← harrived, hqueue]
        simp
      · exact hobtains.chunk chunk

theorem Inv.step (hs : s.Inv) {act : MultishotAct} (hstep : s.step act = some s') :
    s'.Inv := by
  cases act with
  | complete chunk =>
      obtain rfl := Option.some.inj hstep
      exact hs.complete chunk
  | ready =>
      obtain ⟨hrunning, hnext⟩ := Option.ite_none_right_eq_some.mp hstep
      obtain rfl := Option.some.inj hnext
      exact hs.ready hrunning
  | suspend =>
      obtain ⟨hsuspending, hnext⟩ := Option.ite_none_right_eq_some.mp hstep
      obtain rfl := Option.some.inj hnext
      exact hs.suspend hsuspending
  | resume =>
      obtain ⟨hresuming, hnext⟩ := Option.ite_none_right_eq_some.mp hstep
      obtain rfl := Option.some.inj hnext
      exact hs.resume hresuming

theorem run_inv {word : List MultishotAct} (hrun : machine.run word = some s) : s.Inv :=
  machine.run_preserves init_inv (fun _ _ _ hs hstep => hs.step hstep) word hrun

/-- What the coroutine does by itself: nothing arrives meanwhile. -/
def Own (s s' : MultishotRead) : Prop :=
  ∃ acts, (∀ act ∈ acts, act.ofConsumer = true) ∧ machine.runFrom s acts = some s'

theorem Own.refl (s : MultishotRead) : s.Own s := ⟨[], nofun, rfl⟩

theorem Own.trans {s'' : MultishotRead} (hfirst : s.Own s') (hlast : s'.Own s'') :
    s.Own s'' := by
  obtain ⟨first, hfirst, hmiddle⟩ := hfirst
  obtain ⟨last, hlast, hrun⟩ := hlast
  refine ⟨first ++ last, ?_, ?_⟩
  · intro act hact
    rcases List.mem_append.mp hact with hact | hact
    · exact hfirst act hact
    · exact hlast act hact
  · rw [machine.runFrom_append, hmiddle]
    exact hrun

theorem own_ready (hrunning : s.consumer = .running) : s.Own s.ready :=
  ⟨[.ready], by simp [MultishotAct.ofConsumer], by simp [Machine.runFrom, machine, step, hrunning]⟩

theorem own_suspend (hsuspending : s.consumer = .suspending) : s.Own s.suspend :=
  ⟨[.suspend], by simp [MultishotAct.ofConsumer],
    by simp [Machine.runFrom, machine, step, hsuspending]⟩

theorem own_resume (hresuming : s.consumer = .resuming) : s.Own s.resume :=
  ⟨[.resume], by simp [MultishotAct.ofConsumer],
    by simp [Machine.runFrom, machine, step, hresuming]⟩

theorem arrived_step {act : MultishotAct} (hown : act.ofConsumer = true)
    (hstep : s.step act = some s') : s'.arrived = s.arrived := by
  cases act with
  | complete chunk => exact nomatch hown
  | ready =>
      obtain ⟨-, hnext⟩ := Option.ite_none_right_eq_some.mp hstep
      obtain rfl := Option.some.inj hnext
      rfl
  | suspend =>
      obtain ⟨-, hnext⟩ := Option.ite_none_right_eq_some.mp hstep
      obtain rfl := Option.some.inj hnext
      rfl
  | resume =>
      obtain ⟨-, hnext⟩ := Option.ite_none_right_eq_some.mp hstep
      obtain rfl := Option.some.inj hnext
      rfl

theorem Own.inv (hown : s.Own s') (hs : s.Inv) : s'.Inv ∧ s'.arrived = s.arrived := by
  obtain ⟨acts, hacts, hrun⟩ := hown
  induction acts generalizing s with
  | nil =>
      obtain rfl := Option.some.inj hrun
      exact ⟨hs, rfl⟩
  | cons act rest ih =>
      simp only [Machine.runFrom] at hrun
      cases hnext : machine.step s act with
      | none => simp [hnext] at hrun
      | some next =>
          simp only [hnext] at hrun
          have hact := hacts act List.mem_cons_self
          obtain ⟨hinv, harrived⟩ :=
            ih (hs.step hnext) (fun act hmem => hacts act (List.mem_cons_of_mem _ hmem)) hrun
          exact ⟨hinv, harrived.trans (arrived_step hact hnext)⟩

/-- With a chunk queued the coroutine is not parked, and gets to `await_resume`. -/
theorem Inv.reaches_resume (hs : s.Inv) (hqueue : s.recv.queue ≠ []) :
    ∃ next, s.Own next ∧ next.consumer = .resuming ∧ next.recv.queue = s.recv.queue := by
  have hready : s.recv.queue ≠ [] ∨ s.recv.stopped = true := .inl hqueue
  cases hconsumer : s.consumer with
  | running =>
      refine ⟨s.ready, own_ready hconsumer, ?_, rfl⟩
      simp [MultishotRead.ready, (awaitReady_iff s.recv).mpr hready]
  | suspending =>
      refine ⟨s.suspend, own_suspend hconsumer, ?_⟩
      rw [suspend_eq, if_pos hready]
      exact ⟨rfl, rfl⟩
  | resuming => exact ⟨s, .refl s, hconsumer, rfl⟩
  | parked => exact absurd (hs.parked hconsumer).1 hqueue

/-- No wake-up is lost: by itself the coroutine gets all that has arrived. -/
theorem Inv.drains (hs : s.Inv) : ∃ last, s.Own last ∧ last.recv.queue = [] := by
  induction hlength : s.recv.queue.length generalizing s with
  | zero => exact ⟨s, .refl s, List.eq_nil_of_length_eq_zero hlength⟩
  | succ length ih =>
      have hqueue : s.recv.queue ≠ [] := List.ne_nil_of_length_eq_add_one hlength
      obtain ⟨next, hnext, hresuming, hsame⟩ := hs.reaches_resume hqueue
      have hown : s.Own next.resume := hnext.trans (own_resume hresuming)
      have hpopped : next.resume.recv.queue.length = length := by
        obtain ⟨chunk, rest, hcons⟩ := List.exists_cons_of_ne_nil hqueue
        rw [hcons, List.length_cons] at hlength
        simpa [MultishotRead.resume, RecvMultishotState.awaitResume, hsame, hcons] using hlength
      obtain ⟨last, hlast, hempty⟩ := ih (hown.inv hs).1 hpopped
      exact ⟨last, hown.trans hlast, hempty⟩

/-- However completions and the awaiter interleave, the coroutine gets the
completions in the order of their arrival, each once, and after the terminal one
only ends of the stream; it parks only when there is nothing for it. -/
theorem multishot_handed_off (word : List MultishotAct) {last : MultishotRead}
    (hrun : machine.run word = some last) :
    (∃ taken, taken ++ last.recv.queue = last.arrived ∧ Obtains taken last.results) ∧
      (TerminalLast last.arrived →
        (∃ got count,
          last.results = last.arrived.take got ++ List.replicate count .endOfStream ∧
            last.recv.queue = last.arrived.drop got ∧
            (0 < count → last.arrived.take got = last.arrived ∧
              ∃ chunk ∈ last.arrived, chunk.terminal = true)) ∧
          ∀ before chunk after, last.results = before ++ chunk :: after →
            chunk.terminal = true → ∀ result ∈ after, result = .endOfStream) ∧
      (last.recv.waiter = true ∨ last.consumer = .parked →
        last.recv.queue = [] ∧ last.recv.stopped = false) ∧
      ∃ next, last.Own next ∧ next.arrived = last.arrived ∧
        Obtains last.arrived next.results := by
  have hlast := run_inv hrun
  obtain ⟨taken, harrived, hobtains⟩ := hlast.obtained
  refine ⟨⟨taken, harrived, hobtains⟩, ?_, ?_, ?_⟩
  · intro hterminal
    rw [← harrived] at hterminal
    obtain ⟨count, hresults, hended⟩ := hobtains.eq_append last.recv.queue hterminal
    constructor
    · refine ⟨taken.length, count, ?_, ?_, ?_⟩
      · rw [← harrived, List.take_left, hresults]
      · rw [← harrived, List.drop_left]
      · intro hcount
        have hqueue := hterminal.rest_eq_nil (hended hcount)
        rw [← harrived, hqueue, List.append_nil]
        exact ⟨List.take_length, hended hcount⟩
    · intro before chunk after hsplit hchunk
      exact hterminal.only_endOfStream hchunk (hresults.symm.trans hsplit)
  · intro hwaiter
    exact hlast.parked (hwaiter.elim hlast.waiter.mp id)
  · obtain ⟨next, hown, hempty⟩ := hlast.drains
    obtain ⟨hinv, hsame⟩ := hown.inv hlast
    obtain ⟨all, hall, hgot⟩ := hinv.obtained
    rw [hempty, List.append_nil, hsame] at hall
    exact ⟨next, hown, hsame, hall ▸ hgot⟩

/-- The coroutine parks and is woken, and the terminal completion comes between
its two checks. -/
theorem multishot_handed_off_between :
    let chunk : RecvChunkResult := ⟨1, 2, [7]⟩
    let done : RecvChunkResult := ⟨0, 0, []⟩
    let last : MultishotRead :=
      ⟨⟨[], false, true, false, false⟩, .running, [chunk, done], [chunk, done]⟩
    (∃ taken, taken ++ last.recv.queue = last.arrived ∧ Obtains taken last.results) ∧
      (last.recv.waiter = true ∨ last.consumer = .parked →
        last.recv.queue = [] ∧ last.recv.stopped = false) := by
  have h := multishot_handed_off
    [.ready, .suspend, .complete ⟨1, 2, [7]⟩, .resume, .ready, .complete ⟨0, 0, []⟩, .suspend,
      .resume] rfl
  exact ⟨h.1, h.2.2.1⟩

end MultishotRead

end UltraNet
