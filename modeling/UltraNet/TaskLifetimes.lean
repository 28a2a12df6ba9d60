/-
No coroutine frame of the pool is touched after it has been destroyed or resumed where
it does not wait, `m_active_tasks` counts the submitted coroutines that have not ended,
and each `co_await` of a task gives the awaiting coroutine that task's result, once.
-/
import UltraNet.FrameLinks
import Mathlib.Data.List.Nodup

namespace UltraNet

/-- Started, and `notify_complete` is still to come. -/
def FramePhase.pending : FramePhase → Bool
  | .queued => true
  | .running => true
  | .awaiting _ => true
  | .parked => true
  | .finishing => true
  | _ => false

namespace TaskFrames

variable {O : Type} {s next : TaskFrames O} {frames : List (TaskFrame O)} {f f' g : TaskFrame O}
  {i j p c k : Nat} {ready : List Nat} {active : Int}

/-- The share of a frame in `m_active_tasks`. -/
def counted (f : TaskFrame O) : Nat :=
  if f.submitted ∧ f.phase.pending then 1 else 0

def Tallied (frames : List (TaskFrame O)) (active : Int) : Prop :=
  active = ((frames.map counted).sum : Nat)

/-- The queues of the pool hold the handles of the coroutines that are to be resumed,
each once. -/
structure Queued (frames : List (TaskFrame O)) (ready : List Nat) : Prop where
  once : ready.Nodup
  here : ∀ i, i ∈ ready ↔ ∃ f, frames[i]? = some f ∧ f.phase = .queued

/-- The invariant of every run. -/
structure Managed (s : TaskFrames O) : Prop where
  safe : s.faults = 0
  tallied : Tallied s.frames s.active
  queued : Queued s.frames s.ready
  linked : Linked s.frames

theorem Tallied.set (hs : Tallied frames active) (hi : frames[i]? = some f) {active' : Int}
    (hactive : active' + counted f = active + counted f') : Tallied (frames.set i f') active' := by
  have hsum := SharedCount.sum_set counted hi f'
  unfold Tallied at hs ⊢
  omega

theorem Tallied.append (hs : Tallied frames active) {owner : FrameOwner} :
    Tallied (frames ++ [fresh owner]) active := by
  unfold Tallied at hs ⊢
  rw [List.map_append, List.sum_append]
  exact hs

/-- A frame that was not in a queue and is not. -/
theorem Queued.set (hs : Queued frames ready) (hi : frames[i]? = some f)
    (hf : f.phase ≠ .queued) (hf' : f'.phase ≠ .queued) : Queued (frames.set i f') ready where
  once := hs.once
  here j := by
    rw [hs.here j]
    by_cases hsame : i = j
    · subst hsame
      simp [hi, lookup_set_self hi, hf, hf']
    · rw [List.getElem?_set_ne hsame]

theorem Queued.push (hs : Queued frames ready) (hi : frames[i]? = some f)
    (hf : f.phase ≠ .queued) (hf' : f'.phase = .queued) :
    Queued (frames.set i f') (ready ++ [i]) where
  once := by
    apply List.nodup_append.mpr
    refine ⟨hs.once, List.nodup_singleton i, ?_⟩
    intro j hj k hk hjk
    obtain rfl := List.mem_singleton.mp hk
    subst hjk
    obtain ⟨found, hfound, hqueued⟩ := (hs.here j).mp hj
    obtain rfl := Option.some.inj (hi.symm.trans hfound)
    exact hf hqueued
  here j := by
    rw [List.mem_append, List.mem_singleton, hs.here j]
    by_cases hsame : i = j
    · subst hsame
      simp [lookup_set_self hi, hf']
    · rw [List.getElem?_set_ne hsame]
      simp [Ne.symm hsame]

theorem Queued.take (hs : Queued frames ready) (hk : ready[k]? = some i)
    (hi : frames[i]? = some f) (hf' : f'.phase ≠ .queued) :
    Queued (frames.set i f') (ready.eraseIdx k) where
  once := hs.once.eraseIdx k
  here j := by
    obtain ⟨hlt, hki⟩ := List.getElem?_eq_some_iff.mp hk
    have herase : ready.eraseIdx k = ready.erase i := by
      rw [← hki]
      exact (hs.once.erase_getElem k hlt).symm
    rw [herase, hs.once.mem_erase_iff, hs.here j]
    by_cases hsame : i = j
    · subst hsame
      simp [lookup_set_self hi, hf']
    · rw [List.getElem?_set_ne hsame]
      simp [Ne.symm hsame]

theorem Queued.append (hs : Queued frames ready) {owner : FrameOwner} :
    Queued (frames ++ [fresh owner]) ready where
  once := hs.once
  here j := by
    rw [hs.here j]
    constructor
    · intro ⟨found, hfound, hqueued⟩
      refine ⟨found, ?_, hqueued⟩
      rw [List.getElem?_append_left (List.getElem?_eq_some_iff.mp hfound).1]
      exact hfound
    · intro ⟨found, hfound, hqueued⟩
      by_cases hold : j < frames.length
      · rw [List.getElem?_append_left hold] at hfound
        exact ⟨found, hfound, hqueued⟩
      · rw [List.getElem?_append_right (Nat.not_lt.mp hold)] at hfound
        obtain rfl := List.mem_singleton.mp (List.mem_of_getElem? hfound)
        exact absurd hqueued nofun

theorem phaseAt_eq {phase : FramePhase} (hphase : s.phaseAt i = some phase) :
    ∃ f, s.frames[i]? = some f ∧ f.phase = phase :=
  Option.map_eq_some_iff.mp hphase

/-- While its `Task` can be reached by the code that runs, a coroutine has not been
started or is at its end. -/
theorem FrameOk.idle (hok : FrameOk s.frames c f) (hdrop : s.MayDrop f.owner) :
    f.caller = none ∧ (f.phase = .created ∨ f.phase = .finished) := by
  have hcaller : f.caller = none := by
    by_contra hsome
    obtain ⟨p, hp⟩ := Option.ne_none_iff_exists'.mp hsome
    obtain ⟨howner, -, parent, hparent, hawaiting⟩ := hok.awaited p hp
    rw [howner] at hdrop
    obtain hrunning | hgone := hdrop
    · obtain ⟨other, hother, hphase⟩ := phaseAt_eq hrunning
      obtain rfl := Option.some.inj (hparent.symm.trans hother)
      exact absurd (hawaiting.symm.trans hphase) nofun
    · obtain ⟨other, hother, hphase⟩ := phaseAt_eq hgone
      obtain rfl := Option.some.inj (hparent.symm.trans hother)
      exact absurd (hawaiting.symm.trans hphase) nofun
  refine ⟨hcaller, hok.held ?_ hcaller⟩
  intro hreleased
  rw [hreleased] at hdrop
  exact hdrop

theorem mayDrop_of_executing {owner : FrameOwner} (hexec : s.Executing owner) :
    s.MayDrop owner := by
  cases owner with
  | frame p => exact .inl hexec
  | outside => exact trivial
  | released => exact hexec

/-- The `Task` changes hands. -/
theorem FrameOk.give (hok : FrameOk frames c f) (hcaller : f.caller = none)
    (hidle : f.phase = .created ∨ f.phase = .finished) (owner : FrameOwner) :
    FrameOk frames c { f with owner := owner } :=
  { hok with
    awaited := fun p hp => absurd (hcaller.symm.trans hp) nofun
    held := fun _ _ => hidle
    gone := fun hgone => by
      have hphase : f.phase = .destroyed := hgone
      obtain hcreated | hfinished := hidle
      · exact absurd (hphase.symm.trans hcreated) nofun
      · exact absurd (hphase.symm.trans hfinished) nofun }

/-- A started coroutine that awaits nothing goes on. -/
theorem FrameOk.advance {phase : FramePhase} (hok : FrameOk frames i f) (hf : f.phase.live)
    (hphase : phase.live) (hawake : f.phase.open? = []) (hopen : phase.open? = [])
    (hsame : phase.silent = f.phase.silent) : FrameOk frames i { f with phase := phase } := by
  have hnever : ∀ phase : FramePhase, phase.live → phase ≠ .destroyed := by
    rintro phase hlive rfl
    exact absurd hlive nofun
  refine { hok with awaited := ?_, awaits := ?_, held := ?_, gone := ?_, unsubmitted := ?_, once := ?_,
                    told := ?_, silent := ?_, answers := ?_ }
  · intro p hp
    obtain ⟨howner, -, hparent⟩ := hok.awaited p hp
    exact ⟨howner, hphase, hparent⟩
  · intro c hc
    have hwaits : phase = .awaiting c := hc
    rw [hwaits] at hopen
    exact absurd hopen nofun
  · intro hown hnone
    obtain hcreated | hfinished := hok.held hown hnone
    · rw [hcreated] at hf
      exact absurd hf nofun
    · rw [hfinished] at hf
      exact absurd hf nofun
  · intro hgone
    exact absurd hgone (hnever phase hphase)
  · rintro rfl
    exact absurd hphase nofun
  · have honce := hok.once
    rw [if_neg (hnever _ hf)] at honce
    exact honce.trans (if_neg (hnever phase hphase)).symm
  · intro hloud
    exact hok.told (hsame.symm.trans hloud)
  · intro hsilent
    exact hok.silent (hsame.symm.trans hsilent)
  · have hanswers := hok.answers
    rw [hawake] at hanswers
    exact hanswers.trans (congrArg _ hopen.symm)

theorem Managed.create (hs : s.Managed) {owner : FrameOwner} :
    Managed { s with frames := s.frames ++ [fresh owner] } :=
  ⟨hs.safe, hs.tallied.append, hs.queued.append, hs.linked.append⟩

theorem counted_idle (hphase : f.phase.pending = false) : counted f = 0 := by
  simp [counted, hphase]

theorem counted_pending (hsubmitted : f.submitted) (hphase : f.phase.pending) :
    counted f = 1 := by
  simp [counted, hsubmitted, hphase]

theorem counted_congr (hsubmitted : f'.submitted = f.submitted)
    (hpending : f'.phase.pending = f.phase.pending) : counted f' = counted f := by
  simp [counted, hsubmitted, hpending]

/-- A frame that is in no queue is replaced. -/
theorem Managed.setFrame (hs : s.Managed) (hi : s.frames[i]? = some f)
    (hf : f.phase ≠ .queued) (hf' : f'.phase ≠ .queued) (hcounted : counted f' = counted f)
    (hlinked : Linked (s.frames.set i f')) : (s.setFrame i f').Managed where
  safe := hs.safe
  tallied := by
    apply hs.tallied.set hi
    rw [hcounted]
    rfl
  queued := hs.queued.set hi hf hf'
  linked := hlinked

theorem Managed.move {receiver : Option Nat} (hs : s.Managed)
    (hstep : s.step (.move c receiver) = some next) : next.Managed := by
  obtain ⟨f, hf, hrest⟩ := Option.bind_eq_some_iff.mp hstep
  have hgiven : ∀ owner, s.Executing f.owner → (s.setFrame c { f with owner := owner }).Managed := by
    intro owner hexec
    obtain ⟨hcaller, hidle⟩ := (hs.linked c f hf).idle (mayDrop_of_executing hexec)
    have hopen : f.phase.open? = [] := by
      obtain hphase | hphase := hidle <;> rw [hphase] <;> rfl
    have hqueued : f.phase ≠ .queued := by
      obtain hphase | hphase := hidle <;> rw [hphase] <;> nofun
    refine hs.setFrame hf hqueued hqueued rfl ?_
    refine hs.linked.set hf hopen rfl (fun _ => id) ?_
    intro hok
    exact hok.give hcaller hidle owner
  split at hrest
  case h_1 =>
    obtain ⟨hexec, ⟨⟩⟩ := Option.ite_none_right_eq_some.mp hrest
    exact hgiven .outside hexec
  case h_2 q =>
    obtain ⟨⟨hexec, -⟩, ⟨⟩⟩ := Option.ite_none_right_eq_some.mp hrest
    exact hgiven (.frame q) hexec

theorem Managed.drop (hs : s.Managed) (hstep : s.step (.drop c) = some next) : next.Managed := by
  obtain ⟨f, hf, hrest⟩ := Option.bind_eq_some_iff.mp hstep
  obtain ⟨hdrop, hdone⟩ := Option.ite_none_right_eq_some.mp hrest
  have hok := hs.linked c f hf
  obtain ⟨hcaller, hidle⟩ := hok.idle hdrop
  split at hdone
  case h_1 hfinished =>
    obtain rfl := Option.some.inj hdone
    refine hs.setFrame hf (by rw [hfinished]; nofun) nofun ?_ ?_
    · exact counted_congr rfl (by rw [hfinished]; rfl)
    · refine hs.linked.set hf (by rw [hfinished]; rfl) rfl (fun _ => id) ?_
      intro hok
      have honce := hok.once
      have hanswers := hok.answers
      rw [hfinished] at honce hanswers
      exact { hok with
        awaited := fun p hp => absurd (hcaller.symm.trans hp) nofun
        awaits := nofun
        held := fun hreleased _ => absurd rfl hreleased
        gone := fun _ => rfl
        unsubmitted := nofun
        once := congrArg (· + 1) honce
        told := fun _ => hok.told (by rw [hfinished]; rfl)
        silent := nofun
        answers := hanswers }
  case h_2 hgone =>
    rw [hgone] at hidle
    exact absurd hidle (by simp)
  case h_3 hunfinished _ =>
    obtain rfl := Option.some.inj hdone
    have hcreated : f.phase = .created := hidle.resolve_right hunfinished
    have hqueued : f.phase ≠ .queued := by rw [hcreated]; nofun
    refine hs.setFrame hf hqueued hqueued rfl ?_
    refine hs.linked.set hf (by rw [hcreated]; rfl) rfl (fun _ => id) ?_
    intro hok
    exact hok.give hcaller hidle .released

theorem Managed.submitCoroutine (hs : s.Managed) (hf : s.frames[c]? = some f)
    (hcreated : f.phase = .created) (hcaller : f.caller = none) :
    (s.submitCoroutine c { f with owner := .released }).Managed where
  safe := hs.safe
  tallied := by
    apply hs.tallied.set hf
    have hbefore : counted f = 0 := counted_idle (by rw [hcreated]; rfl)
    rw [hbefore, counted_pending rfl rfl]
    exact Int.add_zero _
  queued := hs.queued.push hf (by rw [hcreated]; nofun) rfl
  linked := by
    refine hs.linked.set hf (by rw [hcreated]; rfl) rfl (fun _ => id) ?_
    intro hok
    have honce := hok.once
    have hanswers := hok.answers
    rw [hcreated] at honce hanswers
    exact { hok with
      awaited := fun p hp => absurd (hcaller.symm.trans hp) nofun
      awaits := nofun
      held := fun hreleased _ => absurd rfl hreleased
      gone := nofun
      unsubmitted := nofun
      once := honce
      told := nofun
      silent := fun _ => hok.silent (by rw [hcreated]; rfl)
      answers := hanswers }

theorem Managed.submit (hs : s.Managed) (hstep : s.step (.submit c) = some next) :
    next.Managed := by
  obtain ⟨f, hf, hrest⟩ := Option.bind_eq_some_iff.mp hstep
  obtain ⟨hexec, hdone⟩ := Option.ite_none_right_eq_some.mp hrest
  obtain ⟨hcaller, hcreated | hfinished⟩ := (hs.linked c f hf).idle (mayDrop_of_executing hexec)
  · simp only [hcreated, Option.some.injEq] at hdone
    subst hdone
    exact hs.submitCoroutine hf hcreated hcaller
  · have hqueued : f.phase ≠ .queued := by rw [hfinished]; nofun
    split at hdone
    case h_1 hcreated => exact absurd (hfinished.symm.trans hcreated) nofun
    case h_3 hother => exact absurd hfinished hother
    obtain rfl := Option.some.inj hdone
    refine hs.setFrame hf hqueued hqueued rfl ?_
    refine hs.linked.set hf (by rw [hfinished]; rfl) rfl (fun _ => id) ?_
    intro hok
    exact hok.give hcaller (.inr hfinished) .released

theorem awaitResume_some {outcome : O} (houtcome : g.outcome = some outcome) :
    s.awaitResume p c f g =
      s.setFrame p { f with phase := .running, returns := f.returns ++ [(c, outcome)] } := by
  simp only [awaitResume, houtcome]

/-- The parent has the result of a child that is at its end. -/
theorem Managed.awaitReady (hs : s.Managed) (hp : s.frames[p]? = some f)
    (hc : s.frames[c]? = some g) (hrunning : f.phase = .running) (hfinished : g.phase = .finished) :
    (s.awaitResume p c { f with awaits := f.awaits ++ [c] } g).Managed := by
  obtain ⟨outcome, houtcome⟩ :=
    Option.isSome_iff_exists.mp ((hs.linked c g hc).told (by rw [hfinished]; rfl))
  rw [awaitResume_some houtcome]
  refine hs.setFrame hp (by rw [hrunning]; nofun) nofun ?_ ?_
  · exact counted_congr rfl (by rw [hrunning])
  · refine hs.linked.set hp (by rw [hrunning]; rfl) rfl (fun _ => id) ?_
    intro hok
    have hmoved : FrameOk s.frames p { f with phase := .running } :=
      hok.advance (by rw [hrunning]; rfl) rfl (by rw [hrunning]; rfl) rfl (by rw [hrunning])
    refine { hmoved with answers := ?_, results := ?_ }
    · have hanswers := hmoved.answers
      simp only [FramePhase.open?, List.append_nil, List.map_append, List.map_cons,
        List.map_nil] at hanswers ⊢
      rw [hanswers]
    · intro entry hentry
      obtain hold | hnew := List.mem_append.mp hentry
      · exact hok.results entry hold
      · obtain rfl := List.mem_singleton.mp hnew
        exact ⟨g, hc, houtcome⟩

theorem Managed.await {sched : Bool} (hs : s.Managed)
    (hstep : s.step (.await p c sched) = some next) : next.Managed := by
  obtain ⟨f, hp, hrest⟩ := Option.bind_eq_some_iff.mp hstep
  obtain ⟨g, hc, hboth⟩ := Option.bind_eq_some_iff.mp hrest
  obtain ⟨⟨hrunning, howner⟩, hdone⟩ := Option.ite_none_right_eq_some.mp hboth
  have hexec : s.Executing g.owner := by
    rw [howner]
    exact Option.map_eq_some_iff.mpr ⟨f, hp, hrunning⟩
  obtain ⟨-, hidle⟩ := (hs.linked c g hc).idle (mayDrop_of_executing hexec)
  dsimp only at hdone
  split at hdone
  case h_1 hfinished =>
    obtain rfl := Option.some.inj hdone
    exact hs.awaitReady hp hc hrunning hfinished
  case h_3 hunfinished huncreated =>
    exact (hidle.elim huncreated hunfinished).elim
  case h_2 hcreated =>
    have hne : p ≠ c := by
      rintro rfl
      obtain rfl := Option.some.inj (hp.symm.trans hc)
      exact absurd (hrunning.symm.trans hcreated) nofun
    have hchild : (s.frames.set p { f with
        awaits := f.awaits ++ [c], phase := .awaiting c })[c]? = some g :=
      (List.getElem?_set_ne hne).trans hc
    have hbefore : counted g = 0 := counted_idle (by rw [hcreated]; rfl)
    have htallied : Tallied (s.frames.set p { f with
        awaits := f.awaits ++ [c], phase := .awaiting c }) s.active := by
      have hsame : counted { f with awaits := f.awaits ++ [c], phase := .awaiting c } =
          counted f := counted_congr rfl (by rw [hrunning]; rfl)
      apply hs.tallied.set hp
      rw [hsame]
    have hqueued : Queued (s.frames.set p { f with
        awaits := f.awaits ++ [c], phase := .awaiting c }) s.ready :=
      hs.queued.set hp (by rw [hrunning]; nofun) nofun
    split at hdone
    case isTrue =>
      obtain rfl := Option.some.inj hdone
      refine ⟨hs.safe, ?_, ?_, ?_⟩
      · apply htallied.set hchild
        rw [hbefore, counted_pending rfl rfl]
        exact Int.add_zero _
      · exact hqueued.push hchild (by rw [hcreated]; nofun) rfl
      · have hreplaced : Replaced s.frames _ p c f
            { f with awaits := f.awaits ++ [c], phase := .awaiting c } g
            { g with caller := some p, phase := .queued, submitted := true } :=
          replaced_set hp hc hne rfl rfl
        exact hs.linked.await hreplaced hrunning hcreated howner rfl rfl rfl
    case isFalse =>
      obtain rfl := Option.some.inj hdone
      refine ⟨hs.safe, ?_, ?_, ?_⟩
      · have hnew : counted { g with caller := some p, phase := .running } = 0 := by
          simp [counted, (hs.linked c g hc).unsubmitted hcreated]
        apply htallied.set hchild
        rw [hbefore, hnew]
        rfl
      · exact hqueued.set hchild (by rw [hcreated]; nofun) nofun
      · have hreplaced : Replaced s.frames _ p c f
            { f with awaits := f.awaits ++ [c], phase := .awaiting c } g
            { g with caller := some p, phase := .running } :=
          replaced_set hp hc hne rfl rfl
        exact hs.linked.await hreplaced hrunning hcreated howner rfl rfl rfl

/-- A started coroutine that awaits nothing goes on, in no queue before and after. -/
theorem Managed.advance {phase : FramePhase} (hs : s.Managed) (hi : s.frames[i]? = some f)
    (hf : f.phase.live) (hphase : phase.live) (hawake : f.phase.open? = [])
    (hopen : phase.open? = []) (hsame : phase.silent = f.phase.silent) :
    Linked (s.frames.set i { f with phase := phase }) := by
  refine hs.linked.set hi hawake rfl (fun _ => id) ?_
  intro hok
  exact hok.advance hf hphase hawake hopen hsame

theorem Managed.run (hs : s.Managed) (hstep : s.step (.run k) = some next) : next.Managed := by
  obtain ⟨i, hk, hrest⟩ := Option.bind_eq_some_iff.mp hstep
  obtain ⟨f, hi, hdone⟩ := Option.bind_eq_some_iff.mp hrest
  obtain ⟨found, hfound, hqueued⟩ := (hs.queued.here i).mp (List.mem_of_getElem? hk)
  obtain rfl := Option.some.inj (hi.symm.trans hfound)
  dsimp only at hdone
  split at hdone
  case h_1 =>
    obtain rfl := Option.some.inj hdone
    refine ⟨hs.safe, ?_, hs.queued.take hk hi nofun, ?_⟩
    · have hsame : counted { f with phase := .running } = counted f :=
        counted_congr rfl (by rw [hqueued]; rfl)
      apply hs.tallied.set hi
      rw [hsame]
      rfl
    · exact hs.advance hi (by rw [hqueued]; rfl) rfl (by rw [hqueued]; rfl) rfl
        (by rw [hqueued]; rfl)
  case h_2 hphase => exact absurd (hqueued.symm.trans hphase) nofun
  case h_3 hphase => exact absurd (hqueued.symm.trans hphase) nofun
  case h_4 hphase => exact absurd (hqueued.symm.trans hphase) nofun
  case h_5 hother _ _ _ => exact absurd hqueued hother

theorem Managed.park (hs : s.Managed) (hstep : s.step (.park i) = some next) :
    next.Managed := by
  obtain ⟨f, hi, hrest⟩ := Option.bind_eq_some_iff.mp hstep
  obtain ⟨hrunning, ⟨⟩⟩ := Option.ite_none_right_eq_some.mp hrest
  refine hs.setFrame hi (by rw [hrunning]; nofun) nofun ?_ ?_
  · exact counted_congr rfl (by rw [hrunning]; rfl)
  · exact hs.advance hi (by rw [hrunning]; rfl) rfl (by rw [hrunning]; rfl) rfl
      (by rw [hrunning]; rfl)

theorem Managed.resubmit (hs : s.Managed) (hstep : s.step (.resubmit i) = some next) :
    next.Managed := by
  obtain ⟨f, hi, hrest⟩ := Option.bind_eq_some_iff.mp hstep
  obtain ⟨hparked, ⟨⟩⟩ := Option.ite_none_right_eq_some.mp hrest
  refine ⟨hs.safe, ?_, hs.queued.push hi (by rw [hparked]; nofun) rfl, ?_⟩
  · have hsame : counted { f with phase := .queued } = counted f :=
      counted_congr rfl (by rw [hparked]; rfl)
    apply hs.tallied.set hi
    rw [hsame]
    rfl
  · exact hs.advance hi (by rw [hparked]; rfl) rfl (by rw [hparked]; rfl) rfl
      (by rw [hparked]; rfl)

theorem Managed.finish {outcome : O} (hs : s.Managed)
    (hstep : s.step (.finish i outcome) = some next) : next.Managed := by
  obtain ⟨f, hi, hrest⟩ := Option.bind_eq_some_iff.mp hstep
  obtain ⟨hrunning, ⟨⟩⟩ := Option.ite_none_right_eq_some.mp hrest
  have hnone : f.outcome = none := (hs.linked i f hi).silent (by rw [hrunning]; rfl)
  refine hs.setFrame hi (by rw [hrunning]; nofun) nofun ?_ ?_
  · exact counted_congr rfl (by rw [hrunning]; rfl)
  · refine hs.linked.set hi (by rw [hrunning]; rfl) rfl ?_ ?_
    · intro other hother
      exact absurd (hnone.symm.trans hother) nofun
    · intro hok
      have honce := hok.once
      have hanswers := hok.answers
      rw [hrunning] at honce hanswers
      refine { hok with awaited := ?_, awaits := nofun, held := ?_, gone := nofun,
                        unsubmitted := nofun, once := honce, told := fun _ => rfl,
                        silent := nofun, answers := hanswers }
      · intro p hp
        obtain ⟨howner, -, hparent⟩ := hok.awaited p hp
        exact ⟨howner, rfl, hparent⟩
      · intro hown hcaller
        have hidle := hok.held hown hcaller
        rw [hrunning] at hidle
        exact absurd hidle (by simp)

theorem Managed.notify (hs : s.Managed) (hstep : s.step (.notify i) = some next) :
    next.Managed := by
  obtain ⟨f, hi, hrest⟩ := Option.bind_eq_some_iff.mp hstep
  obtain ⟨hfinishing, ⟨⟩⟩ := Option.ite_none_right_eq_some.mp hrest
  refine ⟨hs.safe, ?_, hs.queued.set hi (by rw [hfinishing]; nofun) nofun, ?_⟩
  · have hafter : counted { f with phase := .notified } = 0 := counted_idle rfl
    apply hs.tallied.set hi
    rw [hafter]
    by_cases hsubmitted : f.submitted
    · have hbefore : counted f = 1 := counted_pending hsubmitted (by rw [hfinishing]; rfl)
      simp only [hsubmitted, if_true, hbefore]
      omega
    · have hbefore : counted f = 0 := by simp [counted, hsubmitted]
      simp only [hsubmitted, hbefore, Bool.false_eq_true, if_false]
  · exact hs.advance hi (by rw [hfinishing]; rfl) rfl (by rw [hfinishing]; rfl) rfl
      (by rw [hfinishing]; rfl)

/-- The last step of a coroutine. -/
theorem Managed.transfer (hs : s.Managed) (hstep : s.step (.transfer i) = some next) :
    next.Managed := by
  obtain ⟨g, hi, hrest⟩ := Option.bind_eq_some_iff.mp hstep
  obtain ⟨hnotified, hdone⟩ := Option.ite_none_right_eq_some.mp hrest
  have hok := hs.linked i g hi
  dsimp only at hdone
  split at hdone
  case h_1 hcaller =>
    -- no one awaits it, so that no one holds its `Task` either
    have howner : g.owner = .released := by
      by_contra hheld
      have hidle := hok.held hheld hcaller
      rw [hnotified] at hidle
      exact absurd hidle (by simp)
    obtain rfl := Option.some.inj hdone
    refine hs.setFrame hi (by rw [hnotified]; nofun) nofun ?_ ?_
    · exact counted_congr rfl (by rw [hnotified]; rfl)
    · refine hs.linked.set hi (by rw [hnotified]; rfl) hcaller.symm (fun _ => id) ?_
      intro hok
      have honce := hok.once
      have hanswers := hok.answers
      rw [hnotified] at honce hanswers
      exact { hok with
        awaited := nofun
        awaits := nofun
        held := fun hheld _ => absurd howner hheld
        gone := fun _ => howner
        unsubmitted := nofun
        once := congrArg (· + 1) honce
        told := fun _ => hok.told (by rw [hnotified]; rfl)
        silent := nofun
        answers := hanswers }
  case h_2 p hcaller =>
    obtain ⟨-, -, f, hp, hawaiting⟩ := hok.awaited p hcaller
    obtain ⟨parent, hparent, hmatch⟩ := Option.bind_eq_some_iff.mp hdone
    obtain rfl := Option.some.inj (hp.symm.trans hparent)
    obtain ⟨outcome, houtcome⟩ :=
      Option.isSome_iff_exists.mp (hok.told (by rw [hnotified]; rfl))
    simp only [hawaiting, if_true] at hmatch
    rw [awaitResume_some houtcome] at hmatch
    obtain rfl := Option.some.inj hmatch
    have hne : i ≠ p := by
      rintro rfl
      obtain rfl := Option.some.inj (hi.symm.trans hp)
      exact absurd (hnotified.symm.trans hawaiting) nofun
    have hpother : (s.frames.set i { g with phase := .finished, caller := none })[p]? = some f :=
      (List.getElem?_set_ne hne).trans hp
    have hreplaced : Replaced s.frames _ i p g { g with phase := .finished, caller := none } f
        { f with phase := .running, returns := f.returns ++ [(i, outcome)] } :=
      replaced_set hi hp hne rfl rfl
    refine ⟨hs.safe, ?_, ?_, ?_⟩
    · have hchild : Tallied (s.frames.set i { g with phase := .finished, caller := none })
          s.active := by
        have hbefore : counted g = 0 := counted_idle (by rw [hnotified]; rfl)
        apply hs.tallied.set hi
        rw [hbefore, counted_idle rfl]
      have hsame : counted { f with
          phase := .running, returns := f.returns ++ [(i, outcome)] } = counted f :=
        counted_congr rfl (by rw [hawaiting]; rfl)
      apply hchild.set hpother
      rw [hsame]
      rfl
    · have hchild : Queued (s.frames.set i { g with phase := .finished, caller := none })
          s.ready := hs.queued.set hi (by rw [hnotified]; nofun) nofun
      exact hchild.set hpother (by rw [hawaiting]; nofun) nofun
    · exact hs.linked.transfer hreplaced.symm hawaiting hnotified hcaller houtcome

theorem Managed.step {action : FrameAction O} (hs : s.Managed)
    (hstep : s.step action = some next) : next.Managed := by
  cases action with
  | create creator =>
      cases creator with
      | none =>
          obtain rfl := Option.some.inj hstep
          exact hs.create
      | some p =>
          obtain ⟨-, ⟨⟩⟩ := Option.ite_none_right_eq_some.mp hstep
          exact hs.create
  | move c receiver => exact hs.move hstep
  | drop c => exact hs.drop hstep
  | submit c => exact hs.submit hstep
  | await p c sched => exact hs.await hstep
  | run k => exact hs.run hstep
  | park i => exact hs.park hstep
  | resubmit i => exact hs.resubmit hstep
  | finish i outcome => exact hs.finish hstep
  | notify i => exact hs.notify hstep
  | transfer i => exact hs.transfer hstep

/-- What the pool and its coroutines rely on: no handle, caller or `Task` leads to a
frame that is gone, and no coroutine is resumed where it does not wait; a coroutine
waits for one that is on its way and will come back to it; and each of its awaits has
returned once, with the result of that task, but the one that it is in. -/
structure Lifetimes (s : TaskFrames O) : Prop where
  safe : s.faults = 0
  once : ∀ f ∈ s.frames, f.destroys ≤ 1
  counted : s.active = ((s.frames.map counted).sum : Nat)
  ended : s.active = 0 → ∀ f ∈ s.frames, f.submitted → f.phase.pending = false
  awaited : ∀ (p : Nat) (f : TaskFrame O) (c : Nat), s.frames[p]? = some f →
    f.phase = .awaiting c → ∃ g, s.frames[c]? = some g ∧ g.caller = some p ∧ g.phase.live
  answered : ∀ f ∈ s.frames, f.awaits = f.returns.map Prod.fst ++ f.phase.open?
  results : ∀ f ∈ s.frames, ∀ entry ∈ f.returns,
    ∃ g, s.frames[entry.1]? = some g ∧ g.outcome = some entry.2

theorem Managed.ok (hs : s.Managed) (hmem : f ∈ s.frames) :
    ∃ i, s.frames[i]? = some f ∧ FrameOk s.frames i f := by
  obtain ⟨i, hi⟩ := List.mem_iff_getElem?.mp hmem
  exact ⟨i, hi, hs.linked i f hi⟩

theorem Managed.lifetimes (hs : s.Managed) : s.Lifetimes where
  safe := hs.safe
  once f hmem := by
    obtain ⟨i, -, hok⟩ := hs.ok hmem
    rw [hok.once]
    split <;> omega
  counted := hs.tallied
  ended hzero f hmem hsubmitted := by
    have hsum : (s.frames.map TaskFrames.counted).sum = 0 := by
      have htallied := hs.tallied
      unfold Tallied at htallied
      omega
    have hnone : TaskFrames.counted f = 0 :=
      List.sum_eq_zero_iff.mp hsum _ (List.mem_map_of_mem hmem)
    by_contra hpending
    rw [counted_pending hsubmitted (by simpa using hpending)] at hnone
    exact absurd hnone Nat.one_ne_zero
  awaited p f c hp hawaiting := by
    obtain ⟨g, hg, hback⟩ := (hs.linked p f hp).awaits c hawaiting
    exact ⟨g, hg, hback, ((hs.linked c g hg).awaited p hback).2.1⟩
  answered f hmem := by
    obtain ⟨i, -, hok⟩ := hs.ok hmem
    exact hok.answers
  results f hmem := by
    obtain ⟨i, -, hok⟩ := hs.ok hmem
    exact hok.results

theorem init_managed : (init : TaskFrames O).Managed where
  safe := rfl
  tallied := rfl
  queued := ⟨List.nodup_nil, by simp [init]⟩
  linked := by
    intro i f hi
    simp [init] at hi

/-- In every run of any number of coroutines on any number of workers. -/
theorem lifetimes_of_run (word : List (FrameAction O)) (last : TaskFrames O)
    (hrun : (machine O).run word = some last) : last.Lifetimes := by
  apply Managed.lifetimes
  apply (machine O).run_preserves init_managed _ word hrun
  intro state action next hstate hstep
  exact hstate.step hstep

/-- A coroutine awaits another one, which fails on a second worker. -/
def failedChild : List (FrameAction (Except Nat Nat)) :=
  [.create none, .submit 0, .run 0, .create (some 0), .await 0 1 true, .run 0,
    .finish 1 (.error 5), .notify 1, .transfer 1, .drop 1, .finish 0 (.ok 7), .notify 0,
    .transfer 0]

theorem lifetimes_failedChild :
    ∃ last, (machine (Except Nat Nat)).run failedChild = some last ∧ last.active = 0 ∧
      (last.frames.map fun f => f.phase) = [.destroyed, .destroyed] ∧
      (last.frames.map fun f => f.returns) = [[(1, .error 5)], []] ∧ last.Lifetimes := by
  refine ⟨_, rfl, rfl, rfl, rfl, ?_⟩
  exact lifetimes_of_run failedChild _ rfl

end TaskFrames

end UltraNet
