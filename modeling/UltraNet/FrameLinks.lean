/-
The links between coroutine frames: who awaits whom, who holds the `Task`, and what
has been given back.  One lemma for each way in which a step changes one frame or two.
-/
import UltraNet.TaskFrames

namespace UltraNet

namespace FramePhase

/-- Started and not at the end of its last step. -/
def live : FramePhase → Bool
  | .queued => true
  | .running => true
  | .awaiting _ => true
  | .parked => true
  | .finishing => true
  | .notified => true
  | _ => false

/-- The promise has no result yet. -/
def silent : FramePhase → Bool
  | .created => true
  | .queued => true
  | .running => true
  | .awaiting _ => true
  | .parked => true
  | _ => false

/-- The `co_await` that has not returned. -/
def open? : FramePhase → List Nat
  | .awaiting c => [c]
  | _ => []

end FramePhase

namespace TaskFrames

variable {O : Type} {s next : TaskFrames O} {frames : List (TaskFrame O)} {f f' g : TaskFrame O}
  {i j p c : Nat}

/-- A frame and its links to others. -/
structure FrameOk (frames : List (TaskFrame O)) (i : Nat) (f : TaskFrame O) : Prop where
  awaited : ∀ p, f.caller = some p → f.owner = .frame p ∧ f.phase.live ∧
    ∃ g, frames[p]? = some g ∧ g.phase = .awaiting i
  awaits : ∀ c, f.phase = .awaiting c → ∃ g, frames[c]? = some g ∧ g.caller = some i
  held : f.owner ≠ .released → f.caller = none → f.phase = .created ∨ f.phase = .finished
  gone : f.phase = .destroyed → f.owner = .released
  unsubmitted : f.phase = .created → f.submitted = false
  once : f.destroys = if f.phase = .destroyed then 1 else 0
  told : f.phase.silent = false → f.outcome.isSome
  silent : f.phase.silent → f.outcome = none
  answers : f.awaits = f.returns.map Prod.fst ++ f.phase.open?
  results : ∀ entry ∈ f.returns, ∃ g, frames[entry.1]? = some g ∧ g.outcome = some entry.2

def Linked (frames : List (TaskFrame O)) : Prop :=
  ∀ i f, frames[i]? = some f → FrameOk frames i f

theorem lookup_set_self (hi : frames[i]? = some f) : (frames.set i f')[i]? = some f' :=
  List.getElem?_set_self (List.getElem?_eq_some_iff.mp hi).1

/-- What a frame knows about the others is still so. -/
theorem FrameOk.transport {frames' : List (TaskFrame O)} (hok : FrameOk frames j g)
    (hparents : ∀ (p : Nat) (parent : TaskFrame O), g.caller = some p → frames[p]? = some parent →
      parent.phase = .awaiting j →
        ∃ parent', frames'[p]? = some parent' ∧ parent'.phase = .awaiting j)
    (hchildren : ∀ (c : Nat) (child : TaskFrame O), g.phase = .awaiting c →
      frames[c]? = some child → child.caller = some j →
        ∃ child', frames'[c]? = some child' ∧ child'.caller = some j)
    (hresults : ∀ (c : Nat) (child : TaskFrame O) (outcome : O), frames[c]? = some child →
      child.outcome = some outcome →
        ∃ child', frames'[c]? = some child' ∧ child'.outcome = some outcome) :
    FrameOk frames' j g := by
  refine { hok with awaited := ?_, awaits := ?_, results := ?_ }
  · intro p hp
    obtain ⟨howner, hlive, parent, hparent, hawaiting⟩ := hok.awaited p hp
    exact ⟨howner, hlive, hparents p parent hp hparent hawaiting⟩
  · intro c hc
    obtain ⟨child, hchild, hback⟩ := hok.awaits c hc
    exact hchildren c child hc hchild hback
  · intro entry hentry
    obtain ⟨child, hchild, hresult⟩ := hok.results entry hentry
    exact hresults entry.1 child entry.2 hchild hresult

/-- One frame is replaced by one with the same result, if it had one. -/
theorem results_set (hi : frames[i]? = some f)
    (houtcome : ∀ outcome, f.outcome = some outcome → f'.outcome = some outcome)
    {outcome : O} (hchild : frames[c]? = some g) (hresult : g.outcome = some outcome) :
    ∃ child, (frames.set i f')[c]? = some child ∧ child.outcome = some outcome := by
  by_cases hsame : i = c
  · subst hsame
    obtain rfl := Option.some.inj (hi.symm.trans hchild)
    exact ⟨f', lookup_set_self hi, houtcome _ hresult⟩
  · exact ⟨g, (List.getElem?_set_ne hsame).trans hchild, hresult⟩

theorem not_awaiting (hopen : f.phase.open? = []) : f.phase ≠ .awaiting j := by
  intro hj
  rw [hj] at hopen
  exact absurd hopen nofun

/-- A frame that awaits nothing keeps its caller and its result. -/
theorem Linked.set (hs : Linked frames) (hi : frames[i]? = some f)
    (hbefore : f.phase.open? = []) (hcaller : f'.caller = f.caller)
    (houtcome : ∀ outcome, f.outcome = some outcome → f'.outcome = some outcome)
    (hown : FrameOk frames i f → FrameOk frames i f') : Linked (frames.set i f') := by
  have hkept : ∀ j g, FrameOk frames j g → FrameOk (frames.set i f') j g := by
    intro j g hok
    apply hok.transport
    · intro p parent _ hparent hawaiting
      have hne : i ≠ p := by
        rintro rfl
        obtain rfl := Option.some.inj (hi.symm.trans hparent)
        exact not_awaiting hbefore hawaiting
      exact ⟨parent, (List.getElem?_set_ne hne).trans hparent, hawaiting⟩
    · intro c child _ hchild hback
      by_cases hsame : i = c
      · subst hsame
        obtain rfl := Option.some.inj (hi.symm.trans hchild)
        exact ⟨f', lookup_set_self hi, hcaller.trans hback⟩
      · exact ⟨child, (List.getElem?_set_ne hsame).trans hchild, hback⟩
    · intro c child outcome hchild hresult
      exact results_set hi houtcome hchild hresult
  intro j g hj
  by_cases hsame : i = j
  · subst hsame
    obtain rfl := Option.some.inj ((lookup_set_self hi).symm.trans hj)
    exact hkept i f' (hown (hs i f hi))
  · rw [List.getElem?_set_ne hsame] at hj
    exact hkept j g (hs j g hj)

theorem fresh_ok {owner : FrameOwner} : FrameOk frames i (fresh owner) where
  awaited := nofun
  awaits := nofun
  held _ _ := .inl rfl
  gone := nofun
  unsubmitted _ := rfl
  once := rfl
  told := nofun
  silent _ := rfl
  answers := rfl
  results := nofun

theorem Linked.append (hs : Linked frames) {owner : FrameOwner} :
    Linked (frames ++ [fresh owner]) := by
  have hextend : ∀ (k : Nat) (h : TaskFrame O), frames[k]? = some h →
      (frames ++ [fresh owner])[k]? = some h := by
    intro k h hk
    rw [List.getElem?_append_left (List.getElem?_eq_some_iff.mp hk).1]
    exact hk
  intro j g hj
  by_cases hold : j < frames.length
  · rw [List.getElem?_append_left hold] at hj
    apply (hs j g hj).transport
    · intro p parent _ hparent hawaiting
      exact ⟨parent, hextend p parent hparent, hawaiting⟩
    · intro c child _ hchild hback
      exact ⟨child, hextend c child hchild, hback⟩
    · intro c child outcome hchild hresult
      exact ⟨child, hextend c child hchild, hresult⟩
  · rw [List.getElem?_append_right (Nat.not_lt.mp hold)] at hj
    obtain rfl := List.mem_singleton.mp (List.mem_of_getElem? hj)
    exact fresh_ok

/-- Two frames are replaced by ones with the same results, if they had some. -/
structure Replaced (frames frames' : List (TaskFrame O)) (p c : Nat) (f f' g g' : TaskFrame O) :
    Prop where
  parent : frames[p]? = some f
  child : frames[c]? = some g
  parent' : frames'[p]? = some f'
  child' : frames'[c]? = some g'
  rest : ∀ k, k ≠ p → k ≠ c → frames'[k]? = frames[k]?
  results : f'.outcome = f.outcome
  results' : g'.outcome = g.outcome

theorem replaced_set {g' : TaskFrame O} (hp : frames[p]? = some f) (hc : frames[c]? = some g)
    (hne : p ≠ c) (hresults : f'.outcome = f.outcome) (hresults' : g'.outcome = g.outcome) :
    Replaced frames ((frames.set p f').set c g') p c f f' g g' where
  parent := hp
  child := hc
  parent' := (List.getElem?_set_ne (Ne.symm hne)).trans (lookup_set_self hp)
  child' := lookup_set_self ((List.getElem?_set_ne hne).trans hc)
  rest k hkp hkc := by
    rw [List.getElem?_set_ne (Ne.symm hkc), List.getElem?_set_ne (Ne.symm hkp)]
  results := hresults
  results' := hresults'

variable {frames' : List (TaskFrame O)} {g' : TaskFrame O}

theorem Replaced.symm (h : Replaced frames frames' p c f f' g g') :
    Replaced frames frames' c p g g' f f' :=
  ⟨h.child, h.parent, h.child', h.parent', fun k hkc hkp => h.rest k hkp hkc, h.results',
    h.results⟩

theorem Replaced.keeps (h : Replaced frames frames' p c f f' g g') {k : Nat} {child : TaskFrame O}
    {outcome : O} (hchild : frames[k]? = some child) (hresult : child.outcome = some outcome) :
    ∃ child', frames'[k]? = some child' ∧ child'.outcome = some outcome := by
  by_cases hkp : k = p
  · subst hkp
    obtain rfl := Option.some.inj (h.parent.symm.trans hchild)
    exact ⟨f', h.parent', h.results.trans hresult⟩
  · by_cases hkc : k = c
    · subst hkc
      obtain rfl := Option.some.inj (h.child.symm.trans hchild)
      exact ⟨g', h.child', h.results'.trans hresult⟩
    · exact ⟨child, (h.rest k hkp hkc).trans hchild, hresult⟩

/-- The frames that are neither of the two. -/
theorem Replaced.others (h : Replaced frames frames' p c f f' g g') (hs : Linked frames)
    (hparent : ∀ k, f.phase = .awaiting k → k = p ∨ k = c) (hchild : g.phase.open? = [])
    (hback : f'.caller = f.caller) (hcaller : ∀ k, g.caller = some k → k = p ∨ k = c)
    {k : Nat} {found : TaskFrame O} (hkp : k ≠ p) (hkc : k ≠ c) (hfound : frames[k]? = some found) :
    FrameOk frames' k found := by
  apply (hs k found hfound).transport
  · intro q parent _ hq hawaiting
    have hqp : q ≠ p := by
      rintro rfl
      obtain rfl := Option.some.inj (h.parent.symm.trans hq)
      exact (hparent k hawaiting).elim hkp hkc
    have hqc : q ≠ c := by
      rintro rfl
      obtain rfl := Option.some.inj (h.child.symm.trans hq)
      exact not_awaiting hchild hawaiting
    exact ⟨parent, (h.rest q hqp hqc).trans hq, hawaiting⟩
  · intro q child _ hq hlink
    by_cases hqp : q = p
    · subst hqp
      obtain rfl := Option.some.inj (h.parent.symm.trans hq)
      exact ⟨f', h.parent', hback.trans hlink⟩
    · by_cases hqc : q = c
      · subst hqc
        obtain rfl := Option.some.inj (h.child.symm.trans hq)
        exact absurd (hcaller k hlink) (by simp [hkp, hkc])
      · exact ⟨child, (h.rest q hqp hqc).trans hq, hlink⟩
  · intro q child outcome hq hresult
    exact h.keeps hq hresult

theorem Replaced.linked (h : Replaced frames frames' p c f f' g g') (hs : Linked frames)
    (hparent : ∀ k, f.phase = .awaiting k → k = p ∨ k = c) (hchild : g.phase.open? = [])
    (hback : f'.caller = f.caller) (hcaller : ∀ k, g.caller = some k → k = p ∨ k = c)
    (hf : FrameOk frames' p f') (hg : FrameOk frames' c g') : Linked frames' := by
  intro k found hfound
  by_cases hkp : k = p
  · subst hkp
    obtain rfl := Option.some.inj (h.parent'.symm.trans hfound)
    exact hf
  · by_cases hkc : k = c
    · subst hkc
      obtain rfl := Option.some.inj (h.child'.symm.trans hfound)
      exact hg
    · rw [h.rest k hkp hkc] at hfound
      exact h.others hs hparent hchild hback hcaller hkp hkc hfound

/-- The parent suspends and the child is started. -/
theorem Linked.await (hs : Linked frames) {phase : FramePhase} {submitted : Bool}
    (h : Replaced frames frames' p c f
      { f with awaits := f.awaits ++ [c], phase := .awaiting c } g
      { g with caller := some p, phase := phase, submitted := submitted })
    (hrunning : f.phase = .running) (hcreated : g.phase = .created) (howner : g.owner = .frame p)
    (hlive : phase.live) (hsilent : phase.silent) (hopen : phase.open? = []) :
    Linked frames' := by
  have hf := hs p f h.parent
  have hg := hs c g h.child
  have hcaller : g.caller = none := by
    by_contra hsome
    obtain ⟨parent, hparent⟩ := Option.ne_none_iff_exists'.mp hsome
    have hstarted := (hg.awaited parent hparent).2.1
    rw [hcreated] at hstarted
    exact absurd hstarted nofun
  have hawake : f.phase.open? = [] := by rw [hrunning]; rfl
  have hnever : phase ≠ .destroyed := by
    rintro rfl
    exact absurd hlive nofun
  apply h.linked hs
  · intro k hk
    exact absurd hk (not_awaiting hawake)
  · rw [hcreated]
    rfl
  · rfl
  · simp [hcaller]
  · refine ⟨?_, ?_, ?_, nofun, nofun, ?_, nofun, ?_, ?_, ?_⟩
    · intro k hk
      obtain ⟨hown, -, parent, hparent, hawaiting⟩ := hf.awaited k hk
      have hkp : k ≠ p := by
        rintro rfl
        obtain rfl := Option.some.inj (h.parent.symm.trans hparent)
        exact not_awaiting hawake hawaiting
      have hkc : k ≠ c := by
        rintro rfl
        obtain rfl := Option.some.inj (h.child.symm.trans hparent)
        exact absurd (hcreated.symm.trans hawaiting) nofun
      exact ⟨hown, rfl, parent, (h.rest k hkp hkc).trans hparent, hawaiting⟩
    · intro k hk
      obtain rfl := FramePhase.awaiting.inj hk
      exact ⟨_, h.child', rfl⟩
    · intro hown hnone
      have hstill := hf.held hown hnone
      rw [hrunning] at hstill
      exact absurd hstill (by simp)
    · have honce := hf.once
      rw [hrunning] at honce
      exact honce
    · intro _
      apply hf.silent
      rw [hrunning]
      rfl
    · have hanswers := hf.answers
      rw [hrunning] at hanswers
      simp only [FramePhase.open?, List.append_nil] at hanswers ⊢
      rw [hanswers]
    · intro entry hentry
      obtain ⟨child, hchild, hresult⟩ := hf.results entry hentry
      exact h.keeps hchild hresult
  · refine ⟨?_, ?_, nofun, ?_, ?_, ?_, ?_, ?_, ?_, ?_⟩
    · intro k hk
      obtain rfl := Option.some.inj hk
      exact ⟨howner, hlive, _, h.parent', rfl⟩
    · intro k hk
      have hphase : phase = .awaiting k := hk
      rw [hphase] at hopen
      exact absurd hopen nofun
    · intro hgone
      exact absurd hgone hnever
    · rintro rfl
      exact absurd hlive nofun
    · have honce := hg.once
      rw [hcreated] at honce
      simpa [hnever] using honce
    · intro hloud
      exact absurd (hloud.symm.trans hsilent) Bool.false_ne_true
    · intro _
      apply hg.silent
      rw [hcreated]
      rfl
    · have hanswers := hg.answers
      rw [hcreated] at hanswers
      rw [hopen]
      exact hanswers
    · intro entry hentry
      obtain ⟨child, hchild, hresult⟩ := hg.results entry hentry
      exact h.keeps hchild hresult

/-- The child has ended and the parent goes on. -/
theorem Linked.transfer (hs : Linked frames) {outcome : O}
    (h : Replaced frames frames' p i f
      { f with phase := .running, returns := f.returns ++ [(i, outcome)] } g
      { g with phase := .finished, caller := none })
    (hawaiting : f.phase = .awaiting i) (hnotified : g.phase = .notified)
    (hcaller : g.caller = some p) (houtcome : g.outcome = some outcome) : Linked frames' := by
  have hf := hs p f h.parent
  have hg := hs i g h.child
  apply h.linked hs
  · intro k hk
    exact .inr (FramePhase.awaiting.inj (hk.symm.trans hawaiting))
  · rw [hnotified]
    rfl
  · rfl
  · intro k hk
    exact .inl (Option.some.inj (hk.symm.trans hcaller))
  · refine ⟨?_, nofun, ?_, nofun, nofun, ?_, nofun, ?_, ?_, ?_⟩
    · intro k hk
      obtain ⟨hown, -, parent, hparent, hwaits⟩ := hf.awaited k hk
      have hkp : k ≠ p := by
        rintro rfl
        obtain rfl := Option.some.inj (h.parent.symm.trans hparent)
        obtain rfl := FramePhase.awaiting.inj (hawaiting.symm.trans hwaits)
        obtain rfl := Option.some.inj (h.parent.symm.trans h.child)
        exact absurd (hawaiting.symm.trans hnotified) nofun
      have hki : k ≠ i := by
        rintro rfl
        obtain rfl := Option.some.inj (h.child.symm.trans hparent)
        exact absurd (hnotified.symm.trans hwaits) nofun
      exact ⟨hown, rfl, parent, (h.rest k hkp hki).trans hparent, hwaits⟩
    · intro hown hnone
      have hstill := hf.held hown hnone
      rw [hawaiting] at hstill
      exact absurd hstill (by simp)
    · have honce := hf.once
      rw [hawaiting] at honce
      exact honce
    · intro _
      apply hf.silent
      rw [hawaiting]
      rfl
    · have hanswers := hf.answers
      rw [hawaiting] at hanswers
      simp only [FramePhase.open?, List.append_nil, List.map_append, List.map_cons,
        List.map_nil] at hanswers ⊢
      exact hanswers
    · intro entry hentry
      obtain hold | hnew := List.mem_append.mp hentry
      · obtain ⟨child, hchild, hresult⟩ := hf.results entry hold
        exact h.keeps hchild hresult
      · obtain rfl := List.mem_singleton.mp hnew
        exact h.keeps h.child houtcome
  · refine ⟨nofun, nofun, fun _ _ => .inr rfl, nofun, nofun, ?_, ?_, nofun, ?_, ?_⟩
    · have honce := hg.once
      rw [hnotified] at honce
      exact honce
    · intro _
      exact Option.isSome_iff_exists.mpr ⟨outcome, houtcome⟩
    · have hanswers := hg.answers
      rw [hnotified] at hanswers
      exact hanswers
    · intro entry hentry
      obtain ⟨child, hchild, hresult⟩ := hg.results entry hentry
      exact h.keeps hchild hresult

end TaskFrames

end UltraNet
