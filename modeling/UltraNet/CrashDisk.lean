/-
A disk that can lose power.  A change of directory entries is seen at once, but
it is on the disk only after its directory has been synced: a crash keeps any of
the other changes, each of them whole or not at all.  A file that was written
and not synced since holds arbitrary bytes after a crash.
-/
import Mathlib.Data.List.Basic
import Mathlib.Logic.Function.Basic

namespace UltraNet

inductive DiskNode where
  | file (ino : Nat)
  | directory
  deriving DecidableEq

/-- What stands under each name of each directory. -/
abbrev Entries (D N : Type) := D × N → Option DiskNode

/-- The entries that one operation sets. -/
abbrev Change (D N : Type) := List ((D × N) × Option DiskNode)

variable {D N β : Type}

section Entries

variable [DecidableEq D] [DecidableEq N]

def applyChange (entries : Entries D N) (change : Change D N) : Entries D N :=
  change.foldl (fun entries set => Function.update entries set.1 set.2) entries

theorem applyChange_mem (change : Change D N) (entries : Entries D N)
    (place : D × N) :
    applyChange entries change place = entries place ∨
      (place, applyChange entries change place) ∈ change := by
  induction change generalizing entries with
  | nil => exact .inl rfl
  | cons set rest ih =>
      have hcons : applyChange entries (set :: rest) =
          applyChange (Function.update entries set.1 set.2) rest := rfl
      rw [hcons]
      obtain hkept | hset := ih (Function.update entries set.1 set.2)
      · rw [hkept]
        by_cases hplace : place = set.1
        · subst hplace
          rw [Function.update_self]
          exact .inr List.mem_cons_self
        · exact .inl (Function.update_of_ne hplace _ _)
      · exact .inr (List.mem_cons_of_mem _ hset)

theorem applyChanges_mem (changes : List (Change D N)) (entries : Entries D N)
    (place : D × N) :
    changes.foldl applyChange entries place = entries place ∨
      ∃ change ∈ changes,
        (place, changes.foldl applyChange entries place) ∈ change := by
  induction changes generalizing entries with
  | nil => exact .inl rfl
  | cons change rest ih =>
      simp only [List.foldl_cons]
      obtain hkept | ⟨later, hlater, hset⟩ := ih (applyChange entries change)
      · rw [hkept]
        obtain hkept | hset := applyChange_mem change entries place
        · exact .inl hkept
        · exact .inr ⟨change, List.mem_cons_self, hset⟩
      · exact .inr ⟨later, List.mem_cons_of_mem _ hlater, hset⟩

end Entries

/-- What the entry at `place` can be after a crash. -/
def MayBe (saved : Entries D N) (unsaved : List (Change D N)) (place : D × N)
    (node : Option DiskNode) : Prop :=
  node = saved place ∨ ∃ change ∈ unsaved, (place, node) ∈ change

theorem mayBe_append {saved : Entries D N} {unsaved : List (Change D N)}
    {change : Change D N} {place : D × N} {node : Option DiskNode} :
    MayBe saved (unsaved ++ [change]) place node ↔
      MayBe saved unsaved place node ∨ (place, node) ∈ change := by
  simp only [MayBe, List.mem_append, List.mem_singleton, or_and_right, exists_or,
    exists_eq_left, or_assoc]

/-- `saved` are the entries that were synced, `unsaved` the changes since,
oldest first.  No file that can be found after a crash has a number from
`fresh` on. -/
structure Disk (D N β : Type) where
  saved : Entries D N
  unsaved : List (Change D N)
  bytes : Nat → List β
  dirty : Nat → Bool
  fresh : Nat
  used : ∀ place ino, MayBe saved unsaved place (some (.file ino)) → ino < fresh

/-- What programs see of a disk. -/
structure View (D N β : Type) where
  entry : Entries D N
  bytes : Nat → List β

def contentOf (bytes : Nat → List β) : Option DiskNode → Option (List β)
  | some (.file ino) => some (bytes ino)
  | _ => none

theorem contentOf_congr {bytes others : Nat → List β} {node : Option DiskNode}
    (hsame : ∀ ino, node = some (.file ino) → bytes ino = others ino) :
    contentOf bytes node = contentOf others node := by
  obtain _ | ino | _ := node
  · rfl
  · exact congrArg some (hsame ino rfl)
  · rfl

def View.content (view : View D N β) (place : D × N) : Option (List β) :=
  contentOf view.bytes (view.entry place)

namespace Disk

def Possible (disk : Disk D N β) (place : D × N) (node : Option DiskNode) : Prop :=
  MayBe disk.saved disk.unsaved place node

/-- A new empty file. -/
def create (disk : Disk D N β) (place : D × N) : Disk D N β where
  saved := disk.saved
  unsaved := disk.unsaved ++ [[(place, some (.file disk.fresh))]]
  bytes := Function.update disk.bytes disk.fresh []
  dirty := Function.update disk.dirty disk.fresh true
  fresh := disk.fresh + 1
  used := by
    intro other ino hpossible
    obtain hold | hnew := mayBe_append.mp hpossible
    · exact Nat.lt_succ_of_lt (disk.used other ino hold)
    · simp only [List.mem_singleton, Prod.mk.injEq, Option.some.injEq,
        DiskNode.file.injEq] at hnew
      omega

def truncate (disk : Disk D N β) (ino : Nat) : Disk D N β :=
  { disk with
    bytes := Function.update disk.bytes ino []
    dirty := Function.update disk.dirty ino true }

def append (disk : Disk D N β) (ino : Nat) (data : List β) : Disk D N β :=
  { disk with
    bytes := Function.update disk.bytes ino (disk.bytes ino ++ data)
    dirty := Function.update disk.dirty ino true }

def sync (disk : Disk D N β) (ino : Nat) : Disk D N β :=
  { disk with dirty := Function.update disk.dirty ino false }

/-- Whatever of its entry survives a crash, the file at `place` was synced and
its content satisfies `P`. -/
def Certain (disk : Disk D N β) (place : D × N) (P : Option (List β) → Prop) :
    Prop :=
  ∀ node, disk.Possible place node →
    (∀ ino, node = some (.file ino) → disk.dirty ino = false) ∧
    P (contentOf disk.bytes node)

namespace Certain

variable {disk next : Disk D N β} {place : D × N} {P Q : Option (List β) → Prop}

theorem mono (hcertain : disk.Certain place P)
    (hweaker : ∀ content, P content → Q content) : disk.Certain place Q :=
  fun node hnode =>
    ⟨(hcertain node hnode).1, hweaker _ (hcertain node hnode).2⟩

/-- An operation that gives `place` no new entry and keeps the bytes of every
file that can be there. -/
theorem frame (hcertain : disk.Certain place P)
    (hpossible : ∀ node, next.Possible place node → disk.Possible place node)
    (hbytes : ∀ ino, disk.Possible place (some (.file ino)) →
      next.bytes ino = disk.bytes ino ∧
        (disk.dirty ino = false → next.dirty ino = false)) :
    next.Certain place P := by
  intro node hnode
  have hbefore := hpossible node hnode
  obtain ⟨hclean, hcontent⟩ := hcertain node hbefore
  refine ⟨fun ino hino => ?_, ?_⟩
  · exact (hbytes ino (hino ▸ hbefore)).2 (hclean ino hino)
  · have hsame : contentOf next.bytes node = contentOf disk.bytes node :=
      contentOf_congr fun ino hino => (hbytes ino (hino ▸ hbefore)).1
    exact hsame ▸ hcontent

theorem create (hcertain : disk.Certain place P) {other : D × N}
    (hother : other ≠ place) : (disk.create other).Certain place P := by
  refine hcertain.frame (fun node hnode => ?_) (fun ino hino => ?_)
  · obtain hold | hnew := mayBe_append.mp hnode
    · exact hold
    · simp only [List.mem_singleton, Prod.mk.injEq] at hnew
      exact absurd hnew.1.symm hother
  · have hne : ino ≠ disk.fresh := Nat.ne_of_lt (disk.used place ino hino)
    simp only [Disk.create, Function.update_of_ne hne, imp_self, and_self]

/-- A file that cannot be found at `place` may be written. -/
theorem write (hcertain : disk.Certain place P) {ino : Nat}
    (hunused : ¬ disk.Possible place (some (.file ino))) (bytes : List β)
    (dirty : Bool) :
    Certain
      { disk with
        bytes := Function.update disk.bytes ino bytes
        dirty := Function.update disk.dirty ino dirty } place P := by
  refine hcertain.frame (fun node hnode => hnode) (fun other hother => ?_)
  have hne : other ≠ ino := fun hsame => hunused (hsame ▸ hother)
  simp only [Function.update_of_ne hne, imp_self, and_self]

theorem sync (hcertain : disk.Certain place P) (ino : Nat) :
    (disk.sync ino).Certain place P := by
  refine hcertain.frame (fun node hnode => hnode)
    (fun other _ => ⟨rfl, fun hclean => ?_⟩)
  by_cases hsame : other = ino
  · simp only [Disk.sync, hsame, Function.update_self]
  · simpa only [Disk.sync, Function.update_of_ne hsame] using hclean

end Certain

variable [DecidableEq D] [DecidableEq N]

def entry (disk : Disk D N β) : Entries D N :=
  disk.unsaved.foldl applyChange disk.saved

def view (disk : Disk D N β) : View D N β :=
  ⟨disk.entry, disk.bytes⟩

/-- Power is lost and comes back. -/
def CrashesTo (disk : Disk D N β) (view : View D N β) : Prop :=
  (∃ kept, List.Sublist kept disk.unsaved ∧
    view.entry = kept.foldl applyChange disk.saved) ∧
  ∀ ino, disk.dirty ino = false → view.bytes ino = disk.bytes ino

theorem possible_kept {disk : Disk D N β} {kept : List (Change D N)}
    (hkept : List.Sublist kept disk.unsaved) (place : D × N) :
    disk.Possible place (kept.foldl applyChange disk.saved place) := by
  obtain hsaved | ⟨change, hchange, hset⟩ := applyChanges_mem kept disk.saved place
  · exact .inl hsaved
  · exact .inr ⟨change, hkept.subset hchange, hset⟩

theorem possible_entry (disk : Disk D N β) (place : D × N) :
    disk.Possible place (disk.entry place) :=
  possible_kept (List.Sublist.refl _) place

/-- The file at `old` gets the name `new`, in one change.  Two names of one file
stay as they are. -/
def move (disk : Disk D N β) (old new : D × N) : Disk D N β :=
  if disk.entry old = disk.entry new then disk
  else
    { disk with
      unsaved := disk.unsaved ++ [[(new, disk.entry old), (old, none)]]
      used := by
        intro place ino hpossible
        obtain hold | hnew := mayBe_append.mp hpossible
        · exact disk.used place ino hold
        · simp only [List.mem_cons, Prod.mk.injEq, reduceCtorEq, and_false,
            List.not_mem_nil, or_false] at hnew
          exact disk.used old ino (hnew.2 ▸ disk.possible_entry old) }

def syncDir (disk : Disk D N β) (dir : D) : Disk D N β where
  saved place := if place.1 = dir then disk.entry place else disk.saved place
  unsaved := disk.unsaved.map fun change => change.filter fun set => set.1.1 ≠ dir
  bytes := disk.bytes
  dirty := disk.dirty
  fresh := disk.fresh
  used := by
    intro place ino hpossible
    obtain hsaved | ⟨filtered, hmem, hset⟩ := hpossible
    · simp only at hsaved
      split at hsaved
      · exact disk.used place ino (hsaved ▸ disk.possible_entry place)
      · exact disk.used place ino (.inl hsaved)
    · obtain ⟨change, hchange, rfl⟩ := List.mem_map.mp hmem
      exact disk.used place ino (.inr ⟨change, hchange, List.mem_of_mem_filter hset⟩)

theorem create_entry (disk : Disk D N β) (place : D × N) :
    (disk.create place).entry =
      Function.update disk.entry place (some (.file disk.fresh)) := by
  simp only [entry, create, List.foldl_append, List.foldl_cons, List.foldl_nil,
    applyChange]

theorem move_eq {disk : Disk D N β} {old new : D × N}
    (hdiffer : disk.entry old ≠ disk.entry new) :
    (disk.move old new).saved = disk.saved ∧
      (disk.move old new).unsaved =
        disk.unsaved ++ [[(new, disk.entry old), (old, none)]] ∧
      (disk.move old new).bytes = disk.bytes ∧
      (disk.move old new).dirty = disk.dirty := by
  simp only [move, if_neg hdiffer, and_self]

theorem move_entry {disk : Disk D N β} {old new : D × N}
    (hdiffer : disk.entry old ≠ disk.entry new) :
    (disk.move old new).entry new = disk.entry old := by
  obtain ⟨hsaved, hunsaved, -⟩ := move_eq hdiffer
  have hplaces : new ≠ old := fun hsame => hdiffer (hsame ▸ rfl)
  rw [entry, hsaved, hunsaved, List.foldl_append]
  simp only [List.foldl_cons, List.foldl_nil, applyChange]
  rw [Function.update_of_ne hplaces, Function.update_self]

namespace Certain

variable {disk : Disk D N β} {place : D × N} {P : Option (List β) → Prop}

theorem crash (hcertain : disk.Certain place P) {view : View D N β}
    (hcrash : disk.CrashesTo view) : P (view.content place) := by
  obtain ⟨⟨kept, hkept, hentry⟩, hbytes⟩ := hcrash
  obtain ⟨hclean, hcontent⟩ := hcertain _ (possible_kept hkept place)
  rw [View.content, hentry]
  exact contentOf_congr (fun ino hino => hbytes ino (hclean ino hino)) ▸ hcontent

/-- A synced file moves to `place`: from now on its content is possible too. -/
theorem move (hcertain : disk.Certain place P) {old : D × N} {ino : Nat}
    (hold : disk.entry old = some (.file ino)) (hclean : disk.dirty ino = false)
    (hdiffer : disk.entry old ≠ disk.entry place) :
    (disk.move old place).Certain place
      fun content => P content ∨ content = some (disk.bytes ino) := by
  obtain ⟨hsaved, hunsaved, hbytes, hdirty⟩ := move_eq hdiffer
  have hplaces : place ≠ old := fun hsame => hdiffer (hsame ▸ rfl)
  intro node hnode
  rw [hbytes, hdirty]
  rw [Possible, hsaved, hunsaved] at hnode
  obtain hbefore | hnew := mayBe_append.mp hnode
  · exact ⟨(hcertain node hbefore).1, .inl (hcertain node hbefore).2⟩
  · simp only [List.mem_cons, Prod.mk.injEq, true_and, hplaces, false_and,
      List.not_mem_nil, or_false] at hnew
    subst hnew
    rw [hold]
    refine ⟨fun other hother => ?_, .inr rfl⟩
    cases hother
    exact hclean

theorem possible_syncDir {dir : D} {node : Option DiskNode}
    (hnode : (disk.syncDir dir).Possible place node) : disk.Possible place node := by
  obtain hsaved | ⟨filtered, hmem, hset⟩ := hnode
  · simp only [Disk.syncDir] at hsaved
    split at hsaved
    · exact hsaved ▸ disk.possible_entry place
    · exact .inl hsaved
  · obtain ⟨change, hchange, rfl⟩ := List.mem_map.mp hmem
    exact .inr ⟨change, hchange, List.mem_of_mem_filter hset⟩

theorem syncDir (hcertain : disk.Certain place P) (dir : D) :
    (disk.syncDir dir).Certain place P :=
  hcertain.frame (fun _ hnode => possible_syncDir hnode) (fun _ _ => ⟨rfl, id⟩)

/-- Once the directory is synced, the entry is the one that programs see. -/
theorem possible_syncDir_self {node : Option DiskNode}
    (hnode : (disk.syncDir place.1).Possible place node) :
    node = disk.entry place := by
  obtain hsaved | ⟨filtered, hmem, hset⟩ := hnode
  · simpa only [Disk.syncDir, if_true] using hsaved
  · obtain ⟨change, hchange, rfl⟩ := List.mem_map.mp hmem
    simp only [List.mem_filter, ne_eq, not_true_eq_false, decide_false,
      Bool.false_eq_true, and_false] at hset

theorem syncDir_self (hcertain : disk.Certain place P) :
    (disk.syncDir place.1).Certain place
      fun content => content = disk.view.content place := by
  intro node hnode
  obtain rfl := possible_syncDir_self hnode
  exact ⟨(hcertain _ (disk.possible_entry place)).1, rfl⟩

end Certain

end Disk

end UltraNet
