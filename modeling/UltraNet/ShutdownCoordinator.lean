/-
Shutdown coordinators: the instances that have installed the signal handler stand in
one list, and the handler of the process is set and reset by each of them.
-/
import UltraNet.IntrusiveList
import UltraNet.RunStates
import Mathlib.Data.Finset.Card

namespace UltraNet

universe u

/-- All instances of `ShutdownCoordinator` by their addresses, and the process:
`handler` says whether SIGINT and SIGTERM run `signal_handler`. -/
structure Coordinators (A : Type u) where
  instances : IntrusiveList A
  live : Finset A
  signalsInstalled : A → Bool
  isShutdown : A → Bool
  handler : Bool

inductive CoordinatorAction (A : Type u) where
  | construct (a : A)
  | install (a : A)
  | shutdown (a : A)
  | destroy (a : A)
  | signal

namespace Coordinators

variable {A : Type u} [DecidableEq A]

def init : Coordinators A := ⟨⟨none, fun _ => none⟩, ∅, fun _ => false, fun _ => false, false⟩

/-- A walk that ends meets no more nodes than there are instances. -/
def limit (s : Coordinators A) : Nat := s.live.card + 1

def construct (s : Coordinators A) (a : A) : Coordinators A :=
  { s with
    instances := ⟨s.instances.head, Function.update s.instances.next a none⟩
    live := insert a s.live
    signalsInstalled := Function.update s.signalsInstalled a false
    isShutdown := Function.update s.isShutdown a false }

def installSignalHandlers (s : Coordinators A) (a : A) : Coordinators A :=
  { s with
    instances := s.instances.push a
    handler := true
    signalsInstalled := Function.update s.signalsInstalled a true }

def raise (flags : A → Bool) (a : A) : A → Bool := Function.update flags a true

def shutdown (s : Coordinators A) (a : A) : Coordinators A :=
  { s with isShutdown := raise s.isShutdown a }

/-- The destructor; nothing if the walk of `unregister_instance` does not end. -/
def destroy (s : Coordinators A) (a : A) : Option (Coordinators A) :=
  (s.instances.remove a s.limit).map fun instances =>
    { s.shutdown a with
      instances := instances
      live := s.live.erase a
      -- the handler is SIG_DFL again
      handler := s.handler && !s.signalsInstalled a }

/-- A signal: nothing is left of the process without a handler. -/
def signal (s : Coordinators A) : Option (Coordinators A) :=
  if s.handler then
    (s.instances.walk raise s.limit s.instances.head s.isShutdown).map fun flags =>
      { s with isShutdown := flags }
  else none

def step (s : Coordinators A) : CoordinatorAction A → Option (Coordinators A)
  | .construct a => if a ∉ s.live then some (s.construct a) else none
  | .install a => if a ∈ s.live then some (s.installSignalHandlers a) else none
  | .shutdown a => if a ∈ s.live then some (s.shutdown a) else none
  | .destroy a => if a ∈ s.live then s.destroy a else none
  | .signal => s.signal

def machine (A : Type u) [DecidableEq A] : Machine (Coordinators A) (CoordinatorAction A) :=
  ⟨init, step⟩

/-- The list from `s_head` holds each installed live instance once and nothing
else. -/
structure Registered (s : Coordinators A) (nodes : List A) : Prop where
  holds : s.instances.Holds nodes
  nodup : nodes.Nodup
  exact : ∀ a, a ∈ nodes ↔ a ∈ s.live ∧ s.signalsInstalled a = true

/-- A signal sets the flag of every installed live instance, if there is one. -/
def Hears (s : Coordinators A) : Prop :=
  (∃ a ∈ s.live, s.signalsInstalled a = true) →
    ∃ next, s.signal = some next ∧
      ∀ a ∈ s.live, s.signalsInstalled a = true → next.isShutdown a = true

def Sound (s : Coordinators A) : Prop := (∃ nodes, s.Registered nodes) ∧ s.Hears

/-- No instance installs a second time, and one that has installed is destroyed when
no other is left. -/
def Orderly (s : Coordinators A) : CoordinatorAction A → Prop
  | .install a => s.signalsInstalled a = false
  | .destroy a => s.signalsInstalled a = true →
      ∀ other ∈ s.live, s.signalsInstalled other = true → other = a
  | _ => True

def Inv (s : Coordinators A) : Prop :=
  ∃ nodes, s.Registered nodes ∧ (nodes ≠ [] → s.handler = true)

variable {s next : Coordinators A} {nodes : List A} {a : A}

theorem Registered.length_lt (hregistered : s.Registered nodes) :
    nodes.length < s.limit := by
  have hsubset : nodes.toFinset ⊆ s.live := by
    intro a ha
    exact ((hregistered.exact a).mp (List.mem_toFinset.mp ha)).1
  have hcard := Finset.card_le_card hsubset
  rw [List.toFinset_card_of_nodup hregistered.nodup] at hcard
  exact Nat.lt_succ_of_le hcard

theorem foldl_raise (nodes : List A) (flags : A → Bool) (a : A)
    (ha : flags a = true ∨ a ∈ nodes) : nodes.foldl raise flags a = true := by
  induction nodes generalizing flags with
  | nil =>
      rcases ha with hflag | hmem
      · exact hflag
      · cases hmem
  | cons node rest ih =>
      refine ih _ ?_
      by_cases hnode : a = node
      · rw [hnode, raise, Function.update_self]
        exact .inl rfl
      · rw [raise, Function.update_of_ne hnode]
        exact ha.imp_right (List.mem_of_ne_of_mem hnode)

/-- What a signal does where the list is right and the handler is in place. -/
theorem Registered.signal (hregistered : s.Registered nodes)
    (hhandler : s.handler = true) :
    s.signal = some { s with isShutdown := nodes.foldl raise s.isShutdown } := by
  rw [Coordinators.signal, if_pos hhandler,
    IntrusiveList.walk_eq _ _ hregistered.holds hregistered.length_lt]
  rfl

theorem Inv.sound (hinv : s.Inv) : s.Sound := by
  obtain ⟨nodes, hregistered, hhandler⟩ := hinv
  refine ⟨⟨nodes, hregistered⟩, ?_⟩
  rintro ⟨a, hlive, hinstalled⟩
  have hmem : a ∈ nodes := (hregistered.exact a).mpr ⟨hlive, hinstalled⟩
  refine ⟨_, hregistered.signal (hhandler (List.ne_nil_of_mem hmem)), ?_⟩
  intro other hother hset
  exact foldl_raise nodes _ other
    (.inr ((hregistered.exact other).mpr ⟨hother, hset⟩))

omit [DecidableEq A] in
/-- Flags do not matter to the list. -/
theorem Inv.flags (hinv : s.Inv) (flags : A → Bool) :
    Inv { s with isShutdown := flags } := by
  obtain ⟨nodes, hregistered, hhandler⟩ := hinv
  exact ⟨nodes, ⟨hregistered.holds, hregistered.nodup, hregistered.exact⟩, hhandler⟩

theorem Inv.construct (hinv : s.Inv) (ha : a ∉ s.live) : (s.construct a).Inv := by
  obtain ⟨nodes, hregistered, hhandler⟩ := hinv
  have hnew : a ∉ nodes := fun hmem => ha ((hregistered.exact a).mp hmem).1
  refine ⟨nodes, ⟨?_, hregistered.nodup, ?_⟩, hhandler⟩
  · exact IntrusiveList.links_update hregistered.holds hnew none
  · intro other
    by_cases hother : other = a
    · subst hother
      simp [Coordinators.construct, hnew]
    · simp [Coordinators.construct, hother, hregistered.exact other]

theorem Inv.install (hinv : s.Inv) (ha : a ∈ s.live)
    (hfirst : s.signalsInstalled a = false) : (s.installSignalHandlers a).Inv := by
  obtain ⟨nodes, hregistered, -⟩ := hinv
  have hnew : a ∉ nodes := by
    intro hmem
    have hinstalled := ((hregistered.exact a).mp hmem).2
    rw [hfirst] at hinstalled
    cases hinstalled
  refine ⟨a :: nodes, ⟨?_, ?_, ?_⟩, fun _ => rfl⟩
  · exact IntrusiveList.holds_push hregistered.holds hnew
  · exact List.nodup_cons.mpr ⟨hnew, hregistered.nodup⟩
  · intro other
    by_cases hother : other = a
    · subst hother
      simp [installSignalHandlers, ha]
    · simp [installSignalHandlers, hother, hregistered.exact other]

/-- The destructor takes its instance out of the list. -/
theorem Registered.destroy (hregistered : s.Registered nodes) (a : A) :
    ∃ instances, s.destroy a = some
        { s.shutdown a with
          instances := instances
          live := s.live.erase a
          handler := s.handler && !s.signalsInstalled a } ∧
      instances.Holds (nodes.erase a) := by
  have hlimit := hregistered.length_lt
  by_cases ha : a ∈ nodes
  · obtain ⟨front, back, rfl⟩ := List.append_of_mem ha
    have hfront : a ∉ front := by
      intro hmem
      exact (List.nodup_append.mp hregistered.nodup).2.2 a hmem a List.mem_cons_self rfl
    have hshort : front.length < s.limit := by
      rw [List.length_append] at hlimit
      omega
    obtain ⟨instances, hremove, hholds⟩ :=
      IntrusiveList.remove_mem hregistered.holds hregistered.nodup hshort
    refine ⟨instances, by rw [Coordinators.destroy, hremove]; rfl, ?_⟩
    rw [List.erase_append_right _ hfront, List.erase_cons_head]
    exact hholds
  · refine ⟨s.instances, ?_, ?_⟩
    · rw [Coordinators.destroy, IntrusiveList.remove_notMem hregistered.holds ha hlimit]
      rfl
    · rw [List.erase_of_not_mem ha]
      exact hregistered.holds

theorem Inv.destroy (hinv : s.Inv)
    (horderly : s.signalsInstalled a = true →
      ∀ other ∈ s.live, s.signalsInstalled other = true → other = a)
    (hstep : s.destroy a = some next) : next.Inv := by
  obtain ⟨nodes, hregistered, hhandler⟩ := hinv
  obtain ⟨instances, hdestroy, hholds⟩ := hregistered.destroy a
  obtain rfl := Option.some.inj (hdestroy.symm.trans hstep)
  refine ⟨nodes.erase a, ⟨hholds, hregistered.nodup.erase a, ?_⟩, ?_⟩
  · intro other
    rw [hregistered.nodup.mem_erase_iff, hregistered.exact other]
    simp only [Coordinators.shutdown, Finset.mem_erase, ne_eq, and_assoc]
  · intro hsome
    obtain ⟨other, hother⟩ := List.exists_mem_of_ne_nil _ hsome
    obtain ⟨hne, hmem⟩ := hregistered.nodup.mem_erase_iff.mp hother
    obtain ⟨hlive, hinstalled⟩ := (hregistered.exact other).mp hmem
    have hnot : s.signalsInstalled a = false := by
      by_contra htrue
      exact hne (horderly (Bool.eq_true_of_not_eq_false htrue) other hlive hinstalled)
    simp only [hnot, Bool.not_false, Bool.and_true]
    exact hhandler (List.ne_nil_of_mem hmem)

theorem Inv.keep (hinv : s.Inv) {action : CoordinatorAction A}
    (horderly : s.Orderly action) (hstep : s.step action = some next) : next.Inv := by
  cases action with
  | construct a =>
      obtain ⟨ha, hnext⟩ := Option.ite_none_right_eq_some.mp hstep
      obtain rfl := Option.some.inj hnext
      exact hinv.construct ha
  | install a =>
      obtain ⟨ha, hnext⟩ := Option.ite_none_right_eq_some.mp hstep
      obtain rfl := Option.some.inj hnext
      exact hinv.install ha horderly
  | shutdown a =>
      obtain ⟨-, hnext⟩ := Option.ite_none_right_eq_some.mp hstep
      obtain rfl := Option.some.inj hnext
      exact hinv.flags _
  | destroy a =>
      obtain ⟨-, hnext⟩ := Option.ite_none_right_eq_some.mp hstep
      exact hinv.destroy horderly hnext
  | signal =>
      obtain ⟨nodes, hregistered, hinstalled⟩ := hinv
      obtain ⟨hhandler, -⟩ := Option.ite_none_right_eq_some.mp hstep
      obtain rfl := Option.some.inj ((hregistered.signal hhandler).symm.trans hstep)
      exact Inv.flags ⟨nodes, hregistered, hinstalled⟩ _

/-- A second entry of one instance closes a circle; a destructor that resets the
handler leaves the other instances without one. -/
theorem Inv.break (hinv : s.Inv) {action : CoordinatorAction A}
    (horderly : ¬ s.Orderly action) (hstep : s.step action = some next) :
    ¬ next.Sound := by
  obtain ⟨nodes, hregistered, -⟩ := hinv
  cases action with
  | construct a => exact absurd trivial horderly
  | shutdown a => exact absurd trivial horderly
  | signal => exact absurd trivial horderly
  | install a =>
      obtain ⟨ha, hnext⟩ := Option.ite_none_right_eq_some.mp hstep
      obtain rfl := Option.some.inj hnext
      have hagain : a ∈ nodes :=
        (hregistered.exact a).mpr ⟨ha, Bool.eq_true_of_not_eq_false horderly⟩
      rintro ⟨⟨more, hmore⟩, -⟩
      exact IntrusiveList.push_again hregistered.holds hagain hmore.holds hmore.nodup
  | destroy a =>
      obtain ⟨-, hnext⟩ := Option.ite_none_right_eq_some.mp hstep
      obtain ⟨instances, hdestroy, -⟩ := hregistered.destroy a
      obtain rfl := Option.some.inj (hdestroy.symm.trans hnext)
      obtain ⟨hinstalled, hother⟩ := Classical.not_imp.mp horderly
      simp only [not_forall] at hother
      obtain ⟨other, hlive, hset, hne⟩ := hother
      rintro ⟨-, hhears⟩
      obtain ⟨after, hsignal, -⟩ :=
        hhears ⟨other, Finset.mem_erase.mpr ⟨hne, hlive⟩, hset⟩
      obtain ⟨hhandler, -⟩ := Option.ite_none_right_eq_some.mp hsignal
      simp [hinstalled] at hhandler

omit [DecidableEq A] in
theorem init_inv : (init : Coordinators A).Inv :=
  ⟨[], ⟨rfl, List.nodup_nil, fun a => by simp [init]⟩, fun hne => absurd rfl hne⟩

/-- The list is right and the signal heard at all times just if no instance installs
twice and none that has installed dies before another. -/
theorem coordinators_sound_iff (A : Type u) [DecidableEq A]
    (word : List (CoordinatorAction A)) (last : Coordinators A)
    (hrun : (machine A).run word = some last) :
    (machine A).Throughout Sound word ↔ (machine A).Meets Orderly word :=
  (machine A).throughout_iff (I := Inv) (fun _ hinv => hinv.sound)
    (fun _ _ _ hinv horderly hstep => hinv.keep horderly hstep)
    (fun _ _ _ hinv horderly hstep => hinv.break horderly hstep) init_inv word hrun

/-- One instance after the other. -/
theorem coordinators_sound_two :
    (machine Nat).Throughout Sound [.construct 1, .construct 2, .install 1, .signal,
      .destroy 1, .install 2, .signal, .destroy 2] := by
  refine (coordinators_sound_iff Nat _ _ rfl).mpr ?_
  exact ⟨trivial, trivial, rfl, trivial, fun _ => by decide, rfl, trivial,
    fun _ => by decide, trivial⟩

/-- An instance that installs twice is its own successor, and the destructor of one
of two instances leaves the other deaf. -/
theorem coordinators_unsound :
    (∃ last, (machine Nat).run [.construct 1, .install 1, .install 1] = some last ∧
        last.instances.head = some 1 ∧ last.instances.next 1 = some 1 ∧ ¬ last.Sound) ∧
      ∃ last, (machine Nat).run [.construct 1, .construct 2, .install 1, .install 2,
          .destroy 2] = some last ∧ 1 ∈ last.live ∧ last.signalsInstalled 1 = true ∧
        last.handler = false ∧ ¬ last.Sound := by
  constructor
  · refine ⟨_, rfl, rfl, rfl, ?_⟩
    rintro ⟨⟨nodes, hregistered⟩, -⟩
    cases nodes with
    | nil => cases hregistered.holds
    | cons node rest =>
        obtain ⟨hnode, hrest⟩ := hregistered.holds
        obtain rfl := Option.some.inj hnode
        have hcircle : rest = 1 :: rest :=
          IntrusiveList.links_unique hrest hregistered.holds
        have hlength := congrArg List.length hcircle
        simp at hlength
  · refine ⟨_, rfl, by decide, rfl, rfl, ?_⟩
    rintro ⟨-, hhears⟩
    obtain ⟨after, hsignal, -⟩ := hhears ⟨1, by decide, rfl⟩
    cases hsignal

end Coordinators

end UltraNet
