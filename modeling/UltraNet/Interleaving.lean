/-
Interleavings of concurrent calls.  A call is a list of atomic sections, one
per mutex-protected region; running the first section of a thread changes the
shared state and says which sections the thread runs next and which threads it
starts.  Invariants are stated over the shared state and the multiset of
pending sections, so they never mention thread numbers.
-/
import UltraNet.GuardedRun
import Mathlib.Algebra.BigOperators.Group.Multiset.Basic
import Mathlib.Algebra.GroupWithZero.Nat
import Mathlib.Algebra.Order.Group.Multiset
import Mathlib.Data.Multiset.Filter

namespace UltraNet

universe u v w

/-- What one atomic section does: the new shared state, the sections that
replace it at the head of its thread, and the threads it starts. -/
structure Effect (S : Type u) (I : Type v) where
  shared : S
  next : List I
  spawned : List (List I)

namespace Effect

variable {S : Type u} {I : Type v}

/-- The section ends and leaves nothing more to do in its own call. -/
def done (shared : S) : Effect S I := ⟨shared, [], []⟩

/-- The call goes on with the given sections. -/
def goto (shared : S) (next : List I) : Effect S I := ⟨shared, next, []⟩

/-- The sections that the effect adds to the pending ones. -/
def work (effect : Effect S I) : Multiset I :=
  (effect.next : Multiset I) + (effect.spawned.flatten : Multiset I)

@[simp] theorem done_shared (shared : S) :
    (done shared : Effect S I).shared = shared := rfl

@[simp] theorem done_work (shared : S) :
    (done shared : Effect S I).work = 0 := rfl

@[simp] theorem goto_shared (shared : S) (next : List I) :
    (goto shared next).shared = shared := rfl

@[simp] theorem goto_work (shared : S) (next : List I) :
    (goto shared next).work = (next : Multiset I) := by
  simp [goto, work]

/-- What holds of the one next section. -/
theorem forall_goto {P : I → Prop} {shared : S} {sec : I} (hsec : P sec) :
    ∀ other ∈ (goto shared [sec]).work, P other := by
  simpa only [goto_work, Multiset.coe_singleton, Multiset.mem_singleton,
    forall_eq] using hsec

@[simp] theorem goto_work_add (shared : S) (sec : I) (others : Multiset I) :
    (goto shared [sec]).work + others = sec ::ₘ others := by
  rw [goto_work, Multiset.coe_singleton, Multiset.singleton_add]

@[simp] theorem done_work_add (shared : S) (others : Multiset I) :
    (done shared).work + others = others := by
  rw [done_work, zero_add]

end Effect

/-- A concurrent program: the sections a call may start with, and the meaning
of one section under a choice made by the environment. -/
structure Program (S : Type u) (I : Type v) (C : Type w) where
  entry : S → I → Bool
  exec : S → I → C → Option (Effect S I)

/-- A shared state and the sections that each thread still has to run. -/
structure Config (S : Type u) (I : Type v) where
  shared : S
  threads : List (List I)

/-- A new call arrives, or one thread runs its first section. -/
inductive Move (I : Type v) (C : Type w) where
  | call (section_ : I)
  | run (thread : Nat) (choice : C)

variable {S : Type u} {I : Type v} {C : Type w}

/-- The sections that some thread still has to run. -/
def Config.pending (cfg : Config S I) : Multiset I :=
  (cfg.threads.flatten : Multiset I)

namespace Program

def stepConfig (P : Program S I C) (cfg : Config S I) :
    Move I C → Option (Config S I)
  | .call sec =>
      if P.entry cfg.shared sec then
        some { cfg with threads := cfg.threads ++ [[sec]] }
      else none
  | .run thread choice =>
      match cfg.threads[thread]? with
      | some (sec :: rest) =>
          match P.exec cfg.shared sec choice with
          | some effect =>
              some ⟨effect.shared,
                cfg.threads.set thread (effect.next ++ rest) ++
                  effect.spawned⟩
          | none => none
      | _ => none

/-- The machine of all interleavings from a shared state with no call under
way. -/
def machine (P : Program S I C) (init : S) : Machine (Config S I) (Move I C) where
  start := ⟨init, []⟩
  step := P.stepConfig

/-- A condition on the section about to run, on the shared state and on all
pending sections, as a guard on moves. -/
def OnSections (guard : S → Multiset I → I → C → Prop)
    (cfg : Config S I) : Move I C → Prop
  | .call _ => True
  | .run thread choice =>
      match cfg.threads[thread]? with
      | some (sec :: _) => guard cfg.shared cfg.pending sec choice
      | _ => True

instance (guard : S → Multiset I → I → C → Prop)
    [∀ s P i c, Decidable (guard s P i c)] (cfg : Config S I)
    (move : Move I C) : Decidable (OnSections guard cfg move) :=
  match move with
  | .call _ => isTrue trivial
  | .run thread _ =>
      match h : cfg.threads[thread]? with
      | some (_ :: _) => by
          simp only [OnSections, h]
          infer_instance
      | some [] => isTrue (by simp [OnSections, h])
      | none => isTrue (by simp [OnSections, h])

end Program

/-- No two pending sections carry the same tag. -/
def UniqueTags {T : Type*} (tag : I → Option T) (pending : Multiset I) : Prop :=
  (pending.filterMap tag).Nodup

theorem uniqueTags_zero {T : Type*} (tag : I → Option T) :
    UniqueTags tag (0 : Multiset I) := by
  simp [UniqueTags]

theorem uniqueTags_cons {T : Type*} (tag : I → Option T) (sec : I)
    (pending : Multiset I) :
    UniqueTags tag (sec ::ₘ pending) ↔
      (∀ t, tag sec = some t → ∀ other ∈ pending, tag other ≠ some t) ∧
        UniqueTags tag pending := by
  cases htag : tag sec with
  | none => simp [UniqueTags, Multiset.filterMap_cons_none _ _ htag]
  | some t =>
      simp only [UniqueTags, Multiset.filterMap_cons_some _ _ _ htag,
        Multiset.nodup_cons, Multiset.mem_filterMap, not_exists, not_and,
        Option.some.injEq, forall_eq']

/-- A section with the tag of the one that it replaces. -/
theorem UniqueTags.replace {T : Type*} {tag : I → Option T} {sec after : I}
    {others : Multiset I} (hunique : UniqueTags tag (sec ::ₘ others))
    (htag : tag after = tag sec) : UniqueTags tag (after ::ₘ others) := by
  rw [uniqueTags_cons] at hunique ⊢
  rwa [htag]

theorem mem_replace_iff {T : Type*} {tag : I → Option T} {sec after other : I}
    {others : Multiset I} {t t' : T} (hsec : tag sec = some t)
    (hafter : tag after = some t) (hother : tag other = some t') (hne : t' ≠ t) :
    other ∈ sec ::ₘ others ↔ other ∈ after ::ₘ others := by
  have hdiffers : ∀ {left}, tag left = some t → other ≠ left := by
    rintro left hleft rfl
    exact hne (Option.some.inj (hother.symm.trans hleft))
  rw [Multiset.mem_cons, Multiset.mem_cons, or_iff_right (hdiffers hsec),
    or_iff_right (hdiffers hafter)]

theorem exists_tag_of_replace {T : Type*} {tag : I → Option T} {sec after other : I}
    {others : Multiset I} {t : T} (hreplace : tag after = tag sec)
    (hmem : other ∈ after ::ₘ others) (htag : tag other = some t) :
    ∃ same ∈ sec ::ₘ others, tag same = some t := by
  obtain rfl | hmem := Multiset.mem_cons.mp hmem
  · exact ⟨sec, Multiset.mem_cons_self _ _, hreplace.symm.trans htag⟩
  · exact ⟨other, Multiset.mem_cons_of_mem hmem, htag⟩

/-- What some section does is done by the one that replaces it. -/
theorem exists_mem_replace {T : Type*} {tag : I → Option T} {sec next : I}
    {others : Multiset I} {t : T} (hnext : tag sec = some t → tag next = some t)
    (hexists : ∃ other ∈ sec ::ₘ others, tag other = some t) :
    ∃ other ∈ next ::ₘ others, tag other = some t := by
  obtain ⟨other, hmem, htag⟩ := hexists
  obtain rfl | hmem := Multiset.mem_cons.mp hmem
  · exact ⟨next, Multiset.mem_cons_self _ _, hnext htag⟩
  · exact ⟨other, Multiset.mem_cons_of_mem hmem, htag⟩

theorem exists_mem_end {T : Type*} {tag : I → Option T} {sec : I}
    {others : Multiset I} {t : T} (hsec : tag sec ≠ some t)
    (hexists : ∃ other ∈ sec ::ₘ others, tag other = some t) :
    ∃ other ∈ others, tag other = some t := by
  obtain ⟨other, hmem, htag⟩ := hexists
  obtain rfl | hmem := Multiset.mem_cons.mp hmem
  · exact absurd htag hsec
  · exact ⟨other, hmem, htag⟩

theorem exists_mem_work {T : Type*} {tag : I → Option T} {sec : I}
    {work others : Multiset I} {t : T} (hsec : tag sec ≠ some t)
    (hexists : ∃ other ∈ sec ::ₘ others, tag other = some t) :
    ∃ other ∈ work + others, tag other = some t := by
  obtain ⟨other, hmem, htag⟩ := exists_mem_end hsec hexists
  exact ⟨other, Multiset.mem_add.mpr (Or.inr hmem), htag⟩

theorem uniqueTags_of_none {T : Type*} {tag : I → Option T}
    {pending : Multiset I} (hnone : ∀ sec ∈ pending, tag sec = none) :
    UniqueTags tag pending := by
  induction pending using Multiset.induction with
  | empty => exact uniqueTags_zero tag
  | cons sec pending ih =>
      rw [uniqueTags_cons]
      refine ⟨by simp [hnone sec (Multiset.mem_cons_self ..)], ih ?_⟩
      exact fun other hother => hnone other (Multiset.mem_cons_of_mem hother)

theorem uniqueTags_add {T : Type*} {tag : I → Option T}
    {first second : Multiset I} (hfirst : UniqueTags tag first)
    (hsecond : UniqueTags tag second)
    (hdisjoint : ∀ sec ∈ first, ∀ t, tag sec = some t → ∀ other ∈ second,
      tag other ≠ some t) : UniqueTags tag (first + second) := by
  induction first using Multiset.induction with
  | empty => simpa using hsecond
  | cons sec first ih =>
      obtain ⟨hsec, hrest⟩ := (uniqueTags_cons tag sec first).mp hfirst
      rw [Multiset.cons_add, uniqueTags_cons]
      refine ⟨?_, ih hrest fun other hother =>
        hdisjoint other (Multiset.mem_cons_of_mem hother)⟩
      intro t htag other hother
      rcases Multiset.mem_add.mp hother with hold | hnew
      · exact hsec t htag other hold
      · exact hdisjoint sec (Multiset.mem_cons_self ..) t htag other hnew

/-- At most one pending section satisfies a predicate that fixes the tag. -/
theorem UniqueTags.countP_le_one {T : Type*} {tag : I → Option T} {t : T}
    {p : I → Prop} [DecidablePred p] {pending : Multiset I}
    (hunique : UniqueTags tag pending)
    (hp : ∀ sec, p sec → tag sec = some t) : pending.countP p ≤ 1 := by
  induction pending using Multiset.induction with
  | empty => simp
  | cons sec pending ih =>
      obtain ⟨hother, hrest⟩ := (uniqueTags_cons tag sec pending).mp hunique
      rw [Multiset.countP_cons]
      split
      · rename_i hsec
        have hnone : pending.countP p = 0 := Multiset.countP_eq_zero.mpr
          fun other hmem hsame =>
            hother t (hp sec hsec) other hmem (hp other hsame)
        rw [hnone]
      · exact ih hrest

/-- The sum of a weight over the pending sections. -/
def total (weight : I → Nat) (pending : Multiset I) : Nat :=
  (pending.map weight).sum

@[simp] theorem total_zero (weight : I → Nat) : total weight 0 = 0 := by
  simp [total]

@[simp] theorem total_cons (weight : I → Nat) (sec : I) (pending : Multiset I) :
    total weight (sec ::ₘ pending) = weight sec + total weight pending := by
  simp [total]

@[simp] theorem total_add (weight : I → Nat) (first second : Multiset I) :
    total weight (first + second) = total weight first + total weight second := by
  simp [total]

@[simp] theorem total_coe (weight : I → Nat) (sections : List I) :
    total weight (sections : Multiset I) = (sections.map weight).sum := by
  simp [total]

theorem total_eq_zero {weight : I → Nat} {pending : Multiset I}
    (hzero : total weight pending = 0) : ∀ sec ∈ pending, weight sec = 0 := by
  intro sec hsec
  obtain ⟨rest, rfl⟩ := Multiset.exists_cons_of_mem hsec
  rw [total_cons] at hzero
  omega

theorem total_le_total {first second : I → Nat}
    (hle : ∀ sec, first sec ≤ second sec) (pending : Multiset I) :
    total first pending ≤ total second pending := by
  induction pending using Multiset.induction with
  | empty => simp
  | cons sec pending ih =>
      rw [total_cons, total_cons]
      exact Nat.add_le_add (hle sec) ih

theorem exists_of_total_pos {weight : I → Nat} {pending : Multiset I}
    (hpos : 0 < total weight pending) : ∃ sec ∈ pending, 0 < weight sec := by
  induction pending using Multiset.induction with
  | empty => simp at hpos
  | cons sec pending ih =>
      by_cases hsec : 0 < weight sec
      · exact ⟨sec, Multiset.mem_cons_self sec pending, hsec⟩
      · rw [total_cons] at hpos
        obtain ⟨other, hother, hweight⟩ := ih (by omega)
        exact ⟨other, Multiset.mem_cons_of_mem hother, hweight⟩

theorem flatten_set_perm {threads : List (List I)} {thread : Nat} {sec : I}
    {rest : List I} (hthread : threads[thread]? = some (sec :: rest))
    (next : List I) :
    (threads.flatten : Multiset I) =
        sec ::ₘ ((rest : Multiset I) +
          ((threads.eraseIdx thread).flatten : Multiset I)) ∧
      ((threads.set thread (next ++ rest)).flatten : Multiset I) =
        (next : Multiset I) + ((rest : Multiset I) +
          ((threads.eraseIdx thread).flatten : Multiset I)) := by
  induction threads generalizing thread with
  | nil => simp at hthread
  | cons head tail ih =>
      cases thread with
      | zero =>
          simp only [List.getElem?_cons_zero, Option.some.injEq] at hthread
          subst hthread
          constructor
          · simp only [List.flatten_cons, List.cons_append,
              ← Multiset.cons_coe, ← Multiset.coe_add,
              List.eraseIdx_cons_zero]
          · simp only [List.set_cons_zero, List.flatten_cons,
              ← Multiset.coe_add, List.eraseIdx_cons_zero, add_assoc]
      | succ n =>
          obtain ⟨hbefore, hafter⟩ := ih (by simpa using hthread)
          constructor
          · simp only [List.flatten_cons, ← Multiset.coe_add, hbefore,
              List.eraseIdx_cons_succ, Multiset.add_cons]
            rw [add_left_comm]
          · simp only [List.set_cons_succ, List.flatten_cons,
              ← Multiset.coe_add, hafter, List.eraseIdx_cons_succ]
            rw [add_left_comm, add_left_comm (head : Multiset I)]

namespace Program

/-- Inversion of one move.  A call adds one pending section; a run replaces
one pending section by the work of its effect. -/
theorem stepConfig_cases (P : Program S I C) {cfg next : Config S I}
    {move : Move I C} (hstep : P.stepConfig cfg move = some next) :
    (∃ sec, move = .call sec ∧ P.entry cfg.shared sec = true ∧
        next.shared = cfg.shared ∧ next.pending = sec ::ₘ cfg.pending) ∨
      ∃ thread choice sec rest others effect,
        move = .run thread choice ∧
        cfg.threads[thread]? = some (sec :: rest) ∧
        cfg.pending = sec ::ₘ others ∧
        P.exec cfg.shared sec choice = some effect ∧
        next.shared = effect.shared ∧
        next.pending = effect.work + others := by
  cases move with
  | call sec =>
      simp only [stepConfig] at hstep
      split at hstep
      · rename_i hentry
        simp only [Option.some.injEq] at hstep
        subst hstep
        refine Or.inl ⟨sec, rfl, hentry, rfl, ?_⟩
        simp only [Config.pending, List.flatten_append, List.flatten_cons,
          List.flatten_nil, List.append_nil, ← Multiset.coe_add,
          Multiset.coe_singleton]
        rw [add_comm, Multiset.singleton_add]
      · simp at hstep
  | run thread choice =>
      simp only [stepConfig] at hstep
      split at hstep
      · rename_i sec rest hthread
        split at hstep
        · rename_i effect hexec
          simp only [Option.some.injEq] at hstep
          subst hstep
          obtain ⟨hbefore, hafter⟩ := flatten_set_perm hthread effect.next
          refine Or.inr ⟨thread, choice, sec, rest, _, effect, rfl, hthread,
            hbefore, hexec, rfl, ?_⟩
          simp only [Config.pending, List.flatten_append,
            ← Multiset.coe_add, hafter, Effect.work]
          rw [add_right_comm]
        · simp at hstep
      · simp at hstep

/-- The interleaving rule.  A predicate over the shared state and the pending
sections that is kept when a call arrives and by every guarded section is kept
by every guarded run. -/
theorem invariant_from (P : Program S I C) {init : S}
    {guard : S → Multiset I → I → C → Prop} {Inv : S → Multiset I → Prop}
    (hcall : ∀ s pending sec, Inv s pending → P.entry s sec = true →
      Inv s (sec ::ₘ pending))
    (hexec : ∀ s others sec choice effect, Inv s (sec ::ₘ others) →
      guard s (sec ::ₘ others) sec choice →
      P.exec s sec choice = some effect →
      Inv effect.shared (effect.work + others))
    (word : List (Move I C)) {first last : Config S I}
    (hfirst : Inv first.shared first.pending)
    (hmeets : (P.machine init).MeetsFrom (OnSections guard) first word)
    (hrun : (P.machine init).runFrom first word = some last) :
    Inv last.shared last.pending := by
  refine (P.machine init).runFrom_invariant
    (I := fun cfg => Inv cfg.shared cfg.pending) ?_ word hfirst hmeets hrun
  intro cfg move next hcfg hguard hstep
  rcases P.stepConfig_cases hstep with
    ⟨sec, rfl, hentry, hshared, hpending⟩ |
    ⟨thread, choice, sec, rest, others, effect, rfl, hthread, hpending,
      heffect, hshared, hnext⟩
  · rw [hshared, hpending]
    exact hcall _ _ _ hcfg hentry
  · rw [hshared, hnext]
    rw [hpending] at hcfg
    simp only [OnSections, hthread, hpending] at hguard
    exact hexec _ _ _ _ _ hcfg hguard heffect

/-- The interleaving rule for runs from the start. -/
theorem invariant (P : Program S I C) {init : S}
    {guard : S → Multiset I → I → C → Prop} {Inv : S → Multiset I → Prop}
    (hinit : Inv init 0)
    (hcall : ∀ s pending sec, Inv s pending → P.entry s sec = true →
      Inv s (sec ::ₘ pending))
    (hexec : ∀ s others sec choice effect, Inv s (sec ::ₘ others) →
      guard s (sec ::ₘ others) sec choice →
      P.exec s sec choice = some effect →
      Inv effect.shared (effect.work + others))
    (word : List (Move I C)) {last : Config S I}
    (hmeets : (P.machine init).Meets (OnSections guard) word)
    (hrun : (P.machine init).run word = some last) :
    Inv last.shared last.pending :=
  P.invariant_from hcall hexec word hinit hmeets hrun

theorem meets_mono {P : Program S I C} {init : S}
    {guard weaker : S → Multiset I → I → C → Prop}
    (hguard : ∀ s pending sec choice, guard s pending sec choice →
      weaker s pending sec choice) {word : List (Move I C)}
    (hmeets : (P.machine init).Meets (OnSections guard) word) :
    (P.machine init).Meets (OnSections weaker) word := by
  refine Machine.MeetsFrom.mono ?_ hmeets
  intro cfg move hmove
  cases move with
  | call sec => trivial
  | run thread choice =>
      simp only [OnSections] at hmove ⊢
      split at hmove
      · exact hguard _ _ _ _ hmove
      · trivial

/-- Every run meets the guard that allows everything. -/
theorem meets_true (P : Program S I C) (init : S) (word : List (Move I C)) :
    (P.machine init).Meets (OnSections fun _ _ _ _ => True) word := by
  apply Machine.meets_of_forall
  intro cfg move
  cases move with
  | call sec => trivial
  | run thread choice =>
      simp only [OnSections]
      split <;> trivial

/-- The interleaving rule without a guard. -/
theorem invariant_of_run (P : Program S I C) {init : S}
    {Inv : S → Multiset I → Prop} (hinit : Inv init 0)
    (hcall : ∀ s pending sec, Inv s pending → P.entry s sec = true →
      Inv s (sec ::ₘ pending))
    (hexec : ∀ s others sec choice effect, Inv s (sec ::ₘ others) →
      P.exec s sec choice = some effect →
      Inv effect.shared (effect.work + others))
    (word : List (Move I C)) {last : Config S I}
    (hrun : (P.machine init).run word = some last) :
    Inv last.shared last.pending := by
  refine P.invariant hinit hcall ?_ word (P.meets_true init word) hrun
  intro s others sec choice effect hinv _ heffect
  exact hexec s others sec choice effect hinv heffect

/-- The interleaving rule without a guard, from any state. -/
theorem invariant_from_state (P : Program S I C) {init : S}
    {Inv : S → Multiset I → Prop}
    (hcall : ∀ s pending sec, Inv s pending → P.entry s sec = true →
      Inv s (sec ::ₘ pending))
    (hexec : ∀ s others sec choice effect, Inv s (sec ::ₘ others) →
      P.exec s sec choice = some effect →
      Inv effect.shared (effect.work + others))
    (word : List (Move I C)) {first last : Config S I}
    (hfirst : Inv first.shared first.pending)
    (hrun : (P.machine init).runFrom first word = some last) :
    Inv last.shared last.pending := by
  have hmeets : (P.machine init).MeetsFrom (OnSections fun _ _ _ _ => True) first word := by
    apply Machine.meetsFrom_of_forall
    intro cfg move
    cases move with
    | call sec => trivial
    | run thread choice =>
        simp only [OnSections]
        split <;> trivial
  apply P.invariant_from hcall ?_ word hfirst hmeets hrun
  intro s others sec choice effect hinv _ heffect
  exact hexec s others sec choice effect hinv heffect

/-- An invariant of the shared state and an obligation for each pending
section. -/
def Locally (Inv : S → Prop) (Ok : S → I → Prop) (s : S)
    (pending : Multiset I) : Prop :=
  Inv s ∧ ∀ sec ∈ pending, Ok s sec

/-- The same, and no two pending sections carry the same tag. -/
def Tagged {T : Type*} (Inv : S → Prop) (Ok : S → I → Prop)
    (tag : I → Option T) (s : S) (pending : Multiset I) : Prop :=
  Locally Inv Ok s pending ∧ UniqueTags tag pending

/-- What a section must show under obligations and tags: it keeps the
invariant, meets the obligations of the sections it adds, takes a tag only if
it had it or nobody can have it, and breaks no section of another tag. -/
structure TaggedStep {T : Type*} (Inv : S → Prop) (Ok : S → I → Prop)
    (tag : I → Option T) (s : S) (sec : I) (effect : Effect S I) : Prop where
  inv : Inv effect.shared
  work : ∀ after ∈ effect.work, Ok effect.shared after
  unique : UniqueTags tag effect.work
  fresh : ∀ after ∈ effect.work, ∀ t, tag after = some t →
    tag sec = some t ∨ ∀ other, Ok s other → tag other ≠ some t
  others : ∀ other, Ok s other → (∀ t, tag sec = some t → tag other ≠ some t) →
    Ok effect.shared other

theorem Tagged.call {T : Type*} {Inv : S → Prop} {Ok : S → I → Prop}
    {tag : I → Option T} {s : S} {pending : Multiset I} {sec : I}
    (hinv : Tagged Inv Ok tag s pending) (hsec : Ok s sec)
    (htag : tag sec = none) : Tagged Inv Ok tag s (sec ::ₘ pending) := by
  obtain ⟨⟨hs, hok⟩, hunique⟩ := hinv
  refine ⟨⟨hs, ?_⟩, (uniqueTags_cons tag sec pending).mpr
    ⟨by simp [htag], hunique⟩⟩
  intro other hother
  rcases Multiset.mem_cons.mp hother with rfl | hold
  · exact hsec
  · exact hok other hold

theorem TaggedStep.keeps {T : Type*} {Inv : S → Prop} {Ok : S → I → Prop}
    {tag : I → Option T} {s : S} {others : Multiset I} {sec : I}
    {effect : Effect S I} (hstep : TaggedStep Inv Ok tag s sec effect)
    (hinv : Tagged Inv Ok tag s (sec ::ₘ others)) :
    Tagged Inv Ok tag effect.shared (effect.work + others) := by
  obtain ⟨⟨-, hok⟩, hunique⟩ := hinv
  obtain ⟨hother, hrest⟩ := (uniqueTags_cons tag sec others).mp hunique
  refine ⟨⟨hstep.inv, ?_⟩, ?_⟩
  · intro other hmem
    rcases Multiset.mem_add.mp hmem with hnew | hold
    · exact hstep.work other hnew
    · exact hstep.others other (hok other (Multiset.mem_cons_of_mem hold))
        fun t htag => hother t htag other hold
  · apply uniqueTags_add hstep.unique hrest
    intro after hafter t htag other hmem
    rcases hstep.fresh after hafter t htag with hsame | hfresh
    · exact hother t hsame other hmem
    · exact hfresh other (hok other (Multiset.mem_cons_of_mem hmem))

/-- The interleaving rule for obligations and tags, under a guard. -/
theorem tagged_invariant (P : Program S I C) {T : Type*} {init : S}
    {Inv : S → Prop} {Ok : S → I → Prop} {tag : I → Option T}
    {guard : S → I → C → Prop} (hinit : Inv init)
    (hcall : ∀ s sec, Inv s → P.entry s sec = true →
      Ok s sec ∧ tag sec = none)
    (hexec : ∀ s sec choice effect, Inv s → Ok s sec → guard s sec choice →
      P.exec s sec choice = some effect → TaggedStep Inv Ok tag s sec effect)
    (word : List (Move I C)) {last : Config S I}
    (hmeets : (P.machine init).Meets
      (OnSections fun s _ sec choice => guard s sec choice) word)
    (hrun : (P.machine init).run word = some last) :
    Tagged Inv Ok tag last.shared last.pending := by
  have hstart : Tagged Inv Ok tag init 0 :=
    ⟨⟨hinit, by simp⟩, uniqueTags_zero tag⟩
  refine P.invariant hstart ?_ ?_ word hmeets hrun
  · intro s pending sec hinv hentry
    obtain ⟨hsec, htag⟩ := hcall s sec hinv.1.1 hentry
    exact hinv.call hsec htag
  · intro s others sec choice effect hinv hguard heffect
    have hsec := hinv.1.2 sec (Multiset.mem_cons_self sec others)
    exact (hexec s sec choice effect hinv.1.1 hsec hguard heffect).keeps hinv

/-- The interleaving rule for obligations alone, under a guard. -/
theorem guarded_local_invariant (P : Program S I C) {init : S}
    {Inv : S → Prop} {Ok : S → I → Prop} {guard : S → I → C → Prop}
    (hinit : Inv init) (hcall : ∀ s sec, Inv s → P.entry s sec = true → Ok s sec)
    (hexec : ∀ s sec choice effect, Inv s → Ok s sec → guard s sec choice →
      P.exec s sec choice = some effect →
      Inv effect.shared ∧ (∀ after ∈ effect.work, Ok effect.shared after) ∧
        ∀ other, Ok s other → Ok effect.shared other)
    (word : List (Move I C)) {last : Config S I}
    (hmeets : (P.machine init).Meets
      (OnSections fun s _ sec choice => guard s sec choice) word)
    (hrun : (P.machine init).run word = some last) :
    Locally Inv Ok last.shared last.pending := by
  have hstart : Locally Inv Ok init 0 := ⟨hinit, by simp⟩
  refine P.invariant hstart ?_ ?_ word hmeets hrun
  · rintro s pending sec ⟨hinv, hok⟩ hentry
    refine ⟨hinv, ?_⟩
    intro other hother
    rcases Multiset.mem_cons.mp hother with rfl | hold
    · exact hcall s other hinv hentry
    · exact hok other hold
  · rintro s others sec choice effect ⟨hinv, hok⟩ hguard heffect
    obtain ⟨hnext, hwork, hstable⟩ := hexec s sec choice effect hinv
      (hok sec (Multiset.mem_cons_self sec others)) hguard heffect
    refine ⟨hnext, ?_⟩
    intro other hother
    rcases Multiset.mem_add.mp hother with hnew | hold
    · exact hwork other hnew
    · exact hstable other (hok other (Multiset.mem_cons_of_mem hold))

/-- The interleaving rule for obligations alone. -/
theorem local_invariant (P : Program S I C) {init : S} {Inv : S → Prop}
    {Ok : S → I → Prop} (hinit : Inv init)
    (hcall : ∀ s sec, Inv s → P.entry s sec = true → Ok s sec)
    (hexec : ∀ s sec choice effect, Inv s → Ok s sec →
      P.exec s sec choice = some effect →
      Inv effect.shared ∧ (∀ after ∈ effect.work, Ok effect.shared after) ∧
        ∀ other, Ok s other → Ok effect.shared other)
    (word : List (Move I C)) {last : Config S I}
    (hrun : (P.machine init).run word = some last) :
    Locally Inv Ok last.shared last.pending := by
  refine P.guarded_local_invariant hinit hcall ?_ word (P.meets_true init word)
    hrun
  intro s sec choice effect hinv hok _ heffect
  exact hexec s sec choice effect hinv hok heffect

end Program

end UltraNet
