/-
The memory of coroutine frames.  `TaskPromiseBase::operator new` and `operator delete`
keep one freed frame for each thread and hand it out again for a frame of the same size;
a frame may be destroyed on another thread than the one that made it.
-/
import UltraNet.GuardedRun
import Mathlib.Data.List.Perm.Basic

namespace UltraNet

/-- `t_cached_ptr` and `t_cached_size` of one thread. -/
structure FrameCache where
  ptr : Option Nat
  size : Nat

/-- `heap` are the blocks that `::operator new` has handed out and not got back, with
their sizes; `frames`, a ghost, the frames that are not destroyed, with the sizes that
were asked for.  A block that is given back twice, or was never handed out, is a fault. -/
structure FrameMemory where
  heap : List (Nat × Nat)
  caches : List FrameCache
  frames : List (Nat × Nat)
  fault : Bool

inductive FrameRequest where
  -- the address that `::operator new` answers with, if it is called and does not throw
  | new (thread size : Nat) (answer : Option Nat)
  -- with the size of the frame, as the coroutine gives it
  | delete (thread : Nat) (frame : Nat × Nat)
  | releaseCachedFrame (thread : Nat)
deriving DecidableEq

def FrameCache.block? (cache : FrameCache) : Option (Nat × Nat) :=
  cache.ptr.map fun ptr => (ptr, cache.size)

namespace FrameMemory

def init (threads : Nat) : FrameMemory := ⟨[], List.replicate threads ⟨none, 0⟩, [], false⟩

/-- `::operator delete`. -/
def free (s : FrameMemory) (ptr : Nat) : FrameMemory :=
  if ptr ∈ s.heap.map Prod.fst then
    { s with heap := s.heap.eraseP fun block => block.1 = ptr }
  else { s with fault := true }

def freeCached (s : FrameMemory) (cache : FrameCache) : FrameMemory :=
  match cache.ptr with
  | some ptr => s.free ptr
  | none => s

def setCache (s : FrameMemory) (thread : Nat) (cache : FrameCache) : FrameMemory :=
  { s with caches := s.caches.set thread cache }

/-- `::operator new`. -/
def allocate (s : FrameMemory) (size : Nat) : Option Nat → Option FrameMemory
  | some ptr =>
      if ptr ∈ s.heap.map Prod.fst then none
      else some { s with heap := (ptr, size) :: s.heap, frames := (ptr, size) :: s.frames }
  -- `std::bad_alloc`
  | none => some s

def step (s : FrameMemory) : FrameRequest → Option FrameMemory
  | .new thread size answer => do
      let cache ← s.caches[thread]?
      if cache.block? = some (cache.ptr.getD 0, size) then
        some { s.setCache thread { cache with ptr := none } with
          frames := (cache.ptr.getD 0, size) :: s.frames }
      else ((s.freeCached cache).setCache thread { cache with ptr := none }).allocate size answer
  | .delete thread frame => do
      let cache ← s.caches[thread]?
      if frame ∈ s.frames then
        some { (s.freeCached cache).setCache thread ⟨some frame.1, frame.2⟩ with
          frames := s.frames.erase frame }
      else none
  | .releaseCachedFrame thread => do
      let cache ← s.caches[thread]?
      match cache.ptr with
      | some _ => some ((s.freeCached cache).setCache thread ⟨none, 0⟩)
      | none => some s

def machine (threads : Nat) : Machine FrameMemory FrameRequest := ⟨init threads, step⟩

/-- The blocks that the threads keep. -/
def cached (s : FrameMemory) : List (Nat × Nat) := s.caches.filterMap FrameCache.block?

/-- Every block is a frame's or is kept by one thread. -/
structure Accounted (s : FrameMemory) : Prop where
  blocks : s.heap.Perm (s.frames ++ s.cached)
  distinct : (s.heap.map Prod.fst).Nodup
  sound : s.fault = false

variable {s next : FrameMemory} {thread : Nat} {cache : FrameCache}

/-- The blocks that the other threads keep. -/
def keptElsewhere (s : FrameMemory) (thread : Nat) : List (Nat × Nat) :=
  (s.caches.eraseIdx thread).filterMap FrameCache.block?

theorem cached_perm (hcache : s.caches[thread]? = some cache) :
    s.cached.Perm (cache.block?.toList ++ s.keptElsewhere thread) := by
  obtain ⟨hlt, rfl⟩ := List.getElem?_eq_some_iff.mp hcache
  have hperm := ((List.getElem_cons_eraseIdx_perm hlt).filterMap FrameCache.block?).symm
  rw [List.filterMap_cons] at hperm
  cases hblock : s.caches[thread].block? with
  | none =>
      rw [hblock] at hperm
      exact hperm
  | some block =>
      rw [hblock] at hperm
      exact hperm

theorem cached_setCache {after : FrameCache} (hcache : s.caches[thread]? = some cache) :
    (s.setCache thread after).cached.Perm (after.block?.toList ++ s.keptElsewhere thread) := by
  have hlt := (List.getElem?_eq_some_iff.mp hcache).1
  have hset : (s.setCache thread after).caches[thread]? = some after :=
    List.getElem?_set_self hlt
  have hothers : (s.setCache thread after).keptElsewhere thread = s.keptElsewhere thread := by
    unfold keptElsewhere setCache
    rw [List.eraseIdx_set_eq]
  rw [← hothers]
  exact cached_perm hset

/-- A block that is given back is gone from the heap. -/
theorem eraseP_perm {block : Nat × Nat} {heap rest : List (Nat × Nat)}
    (hperm : heap.Perm (block :: rest)) (hdistinct : (heap.map Prod.fst).Nodup) :
    (heap.eraseP fun other => other.1 = block.1).Perm rest := by
  have hpairs : heap.Pairwise fun a b =>
      decide (a.1 = block.1) = true → decide (b.1 = block.1) = true → False := by
    apply (List.pairwise_map.mp hdistinct).imp
    intro a b hne ha hb
    exact hne ((of_decide_eq_true ha).trans (of_decide_eq_true hb).symm)
  have hfirst : ((block :: rest).eraseP fun other => decide (other.1 = block.1)) = rest := by
    simp
  calc (heap.eraseP fun other => other.1 = block.1).Perm
        ((block :: rest).eraseP fun other => decide (other.1 = block.1)) := hperm.eraseP _ hpairs
    _ = rest := hfirst

/-- The heap apart from what the thread keeps. -/
structure Apart (s t : FrameMemory) (thread : Nat) : Prop where
  blocks : t.heap.Perm (s.frames ++ s.keptElsewhere thread)
  distinct : (t.heap.map Prod.fst).Nodup
  sound : t.fault = false
  caches : t.caches = s.caches
  frames : t.frames = s.frames

theorem Accounted.freeCached (hs : s.Accounted) (hcache : s.caches[thread]? = some cache) :
    Apart s (s.freeCached cache) thread := by
  have hblocks := hs.blocks.trans ((cached_perm hcache).append_left s.frames)
  unfold FrameMemory.freeCached
  split
  case h_2 hptr =>
    rw [FrameCache.block?, hptr] at hblocks
    exact ⟨hblocks, hs.distinct, hs.sound, rfl, rfl⟩
  case h_1 ptr hptr =>
    rw [FrameCache.block?, hptr] at hblocks
    have hmoved : s.heap.Perm ((ptr, cache.size) :: (s.frames ++ s.keptElsewhere thread)) :=
      hblocks.trans List.perm_middle
    have hmem : ptr ∈ s.heap.map Prod.fst :=
      List.mem_map.mpr ⟨_, hmoved.mem_iff.mpr (List.mem_cons_self ..), rfl⟩
    unfold free
    rw [if_pos hmem]
    refine ⟨eraseP_perm hmoved hs.distinct, ?_, hs.sound, rfl, rfl⟩
    exact hs.distinct.sublist (List.eraseP_sublist.map _)

/-- What the thread keeps from now on. -/
theorem Apart.keep {t : FrameMemory} {after : FrameCache} {frames : List (Nat × Nat)}
    (ht : Apart s t thread) (hcache : s.caches[thread]? = some cache)
    (hblocks : t.heap.Perm (s.frames ++ s.keptElsewhere thread) →
      t.heap.Perm (frames ++ (after.block?.toList ++ s.keptElsewhere thread))) :
    Accounted { t.setCache thread after with frames := frames } := by
  have hcached : (t.setCache thread after).cached.Perm
      (after.block?.toList ++ s.keptElsewhere thread) := by
    have hsame : t.caches[thread]? = some cache := ht.caches ▸ hcache
    have helsewhere : t.keptElsewhere thread = s.keptElsewhere thread := by
      rw [keptElsewhere, ht.caches]
      rfl
    rw [← helsewhere]
    exact cached_setCache hsame
  refine ⟨?_, ht.distinct, ht.sound⟩
  exact (hblocks ht.blocks).trans (hcached.symm.append_left frames)

theorem Accounted.allocate {size : Nat} {answer : Option Nat} (hs : s.Accounted)
    (hsome : s.allocate size answer = some next) : next.Accounted := by
  cases answer with
  | none =>
      obtain rfl := Option.some.inj hsome
      exact hs
  | some ptr =>
      obtain ⟨hfresh, hnext⟩ := Option.ite_none_left_eq_some.mp hsome
      obtain rfl := Option.some.inj hnext
      refine ⟨hs.blocks.cons (ptr, size), ?_, hs.sound⟩
      exact List.nodup_cons.mpr ⟨hfresh, hs.distinct⟩

/-- The frame gets the block that the thread has kept. -/
theorem Accounted.reuse {block : Nat × Nat} (hs : s.Accounted)
    (hcache : s.caches[thread]? = some cache) (hblock : cache.block? = some block) :
    Accounted { s.setCache thread { cache with ptr := none } with
      frames := block :: s.frames } := by
  have hbefore := hs.blocks.trans ((cached_perm hcache).append_left s.frames)
  rw [hblock] at hbefore
  have hafter : (s.setCache thread { cache with ptr := none }).cached.Perm
      (s.keptElsewhere thread) := cached_setCache hcache
  refine ⟨?_, hs.distinct, hs.sound⟩
  calc s.heap.Perm (block :: (s.frames ++ s.keptElsewhere thread)) :=
        hbefore.trans List.perm_middle
    _ |>.Perm (block :: s.frames ++ (s.setCache thread { cache with ptr := none }).cached) :=
        (hafter.symm.append_left s.frames).cons block

theorem Accounted.step {request : FrameRequest} (hs : s.Accounted)
    (hstep : s.step request = some next) : next.Accounted := by
  cases request with
  | new thread size answer =>
      obtain ⟨cache, hcache, hrest⟩ := Option.bind_eq_some_iff.mp hstep
      split at hrest
      case isTrue hfits =>
        obtain rfl := Option.some.inj hrest
        exact hs.reuse hcache hfits
      case isFalse =>
        have ht := hs.freeCached hcache
        have hempty : ((s.freeCached cache).setCache thread { cache with ptr := none }).Accounted := by
          apply ht.keep hcache
          intro hblocks
          rw [ht.frames]
          exact hblocks
        exact hempty.allocate hrest
  | delete thread frame =>
      obtain ⟨cache, hcache, hrest⟩ := Option.bind_eq_some_iff.mp hstep
      obtain ⟨hframe, hsome⟩ := Option.ite_none_right_eq_some.mp hrest
      obtain rfl := Option.some.inj hsome
      apply (hs.freeCached hcache).keep hcache
      intro hblocks
      -- the block of the frame is the one that the thread keeps
      have hmoved := hblocks.trans ((List.perm_cons_erase hframe).append_right _)
      exact hmoved.trans List.perm_middle.symm
  | releaseCachedFrame thread =>
      obtain ⟨cache, hcache, hrest⟩ := Option.bind_eq_some_iff.mp hstep
      split at hrest
      · obtain rfl := Option.some.inj hrest
        have ht := hs.freeCached hcache
        apply ht.keep hcache
        intro hblocks
        rw [ht.frames]
        exact hblocks
      · obtain rfl := Option.some.inj hrest
        exact hs

theorem caches_free (ptr : Nat) : (s.free ptr).caches = s.caches := by
  unfold free
  split <;> rfl

theorem caches_freeCached (cache : FrameCache) : (s.freeCached cache).caches = s.caches := by
  unfold freeCached
  split
  · exact caches_free _
  · rfl

theorem step_threads {request : FrameRequest} (hstep : s.step request = some next) :
    next.caches.length = s.caches.length := by
  have hset : ∀ (cache after : FrameCache) (thread : Nat),
      ((s.freeCached cache).setCache thread after).caches.length = s.caches.length := by
    intro cache after thread
    exact List.length_set.trans (congrArg List.length (caches_freeCached cache))
  cases request with
  | new thread size answer =>
      obtain ⟨cache, -, hrest⟩ := Option.bind_eq_some_iff.mp hstep
      split at hrest
      · obtain rfl := Option.some.inj hrest
        exact List.length_set
      · cases answer with
        | none =>
            obtain rfl := Option.some.inj hrest
            exact hset _ _ _
        | some ptr =>
            obtain ⟨-, hnext⟩ := Option.ite_none_left_eq_some.mp hrest
            obtain rfl := Option.some.inj hnext
            exact hset _ _ _
  | delete thread frame =>
      obtain ⟨cache, -, hrest⟩ := Option.bind_eq_some_iff.mp hstep
      obtain ⟨-, hsome⟩ := Option.ite_none_right_eq_some.mp hrest
      obtain rfl := Option.some.inj hsome
      exact hset _ _ _
  | releaseCachedFrame thread =>
      obtain ⟨cache, -, hrest⟩ := Option.bind_eq_some_iff.mp hstep
      split at hrest
      · obtain rfl := Option.some.inj hrest
        exact hset _ _ _
      · obtain rfl := Option.some.inj hrest
        rfl

/-- In every run, frames being made and destroyed on any threads, no block is given back
twice; each block of the heap belongs to one frame, of exactly its size, or is kept by one
thread, so the heap is never larger than the frames by more than one block for each
thread; and it is empty once the frames are destroyed and the threads have let go of what
they keep. -/
theorem frames_have_blocks (threads : Nat) (word : List FrameRequest) {last : FrameMemory}
    (hrun : (machine threads).run word = some last) :
    last.fault = false ∧ last.heap.Perm (last.frames ++ last.cached) ∧
      (last.heap.map Prod.fst).Nodup ∧ last.heap.length ≤ last.frames.length + threads ∧
      (last.frames = [] → (∀ cache ∈ last.caches, cache.ptr = none) → last.heap = []) := by
  have hstart : (init threads).Accounted ∧ (init threads).caches.length = threads := by
    have hnone : (init threads).cached = [] := by
      apply List.filterMap_eq_nil_iff.mpr
      intro cache hcache
      rw [List.eq_of_mem_replicate hcache]
      rfl
    refine ⟨⟨?_, List.nodup_nil, rfl⟩, List.length_replicate⟩
    rw [hnone]
    exact .rfl
  obtain ⟨hs, hlength⟩ := (machine threads).run_preserves
    (I := fun s => s.Accounted ∧ s.caches.length = threads) hstart
    (fun _ _ _ hs hstep => ⟨hs.1.step hstep, (step_threads hstep).trans hs.2⟩) word hrun
  refine ⟨hs.sound, hs.blocks, hs.distinct, ?_, ?_⟩
  · rw [hs.blocks.length_eq, List.length_append, ← hlength]
    exact Nat.add_le_add_left (List.length_filterMap_le _ _) _
  · intro hframes hcaches
    have hnone : last.cached = [] := by
      apply List.filterMap_eq_nil_iff.mpr
      intro cache hcache
      rw [FrameCache.block?, hcaches cache hcache]
      rfl
    have hblocks := hs.blocks
    rw [hframes, hnone] at hblocks
    exact hblocks.eq_nil

/-- Thread 1 destroys a frame of thread 0 and makes one of the same size. -/
def movedFrame : List FrameRequest :=
  [.new 0 48 (some 100), .new 0 64 (some 200), .delete 1 (100, 48), .new 1 48 none,
    .delete 0 (200, 64), .delete 0 (100, 48), .releaseCachedFrame 0, .releaseCachedFrame 1]

set_option maxRecDepth 100000 in
theorem frames_have_blocks_movedFrame :
    ∃ last, (machine 2).run movedFrame = some last ∧ last.fault = false ∧ last.heap = [] := by
  have hend : ((machine 2).run movedFrame).map (fun last =>
      (last.frames, last.caches.map FrameCache.ptr)) = some ([], [none, none]) := by
    decide
  obtain ⟨last, hrun, hlast⟩ := Option.map_eq_some_iff.mp hend
  obtain ⟨hframes, hcaches⟩ := Prod.mk.inj hlast
  obtain ⟨hsound, -, -, -, hempty⟩ := frames_have_blocks 2 movedFrame hrun
  refine ⟨last, hrun, hsound, hempty hframes ?_⟩
  intro cache hcache
  have hmem : cache.ptr ∈ [none, none] := hcaches ▸ List.mem_map_of_mem hcache
  simpa using hmem

end FrameMemory

end UltraNet
