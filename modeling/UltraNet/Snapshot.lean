/-
`save_snapshot` and `load_snapshot` over a disk that can lose power.  A run of
`save_snapshot` is a word of what the system calls answer; the machine can
crash in every state of the run.  A symbolic link as the last part of a path is
not modelled.
-/
import Mathlib.Data.List.TakeWhile
import UltraNet.CrashDisk
import UltraNet.GuardedRun
import UltraNet.Transport

namespace UltraNet

/-! Paths, as strings of bytes. -/

/-- `c_str()`: a system call reads a string up to its first zero byte. -/
def cString (text : List UInt8) : List UInt8 :=
  text.takeWhile (· ≠ 0)

/-- `find_last_of('/')`. -/
def lastSlash : List UInt8 → Option Nat
  | [] => none
  | byte :: rest =>
      match lastSlash rest with
      | some slash => some (slash + 1)
      | none => if byte = 47 then some 0 else none

/-- `path + ".tmp"`. -/
def tmpPath (path : List UInt8) : List UInt8 :=
  path ++ [46, 116, 109, 112]

/-- The directory that `save_snapshot` opens in the end. -/
def snapshotDir (path : List UInt8) : List UInt8 :=
  let dir :=
    match lastSlash path with
    | none => [46]
    | some slash => path.take slash
  if dir = [] then [46] else dir

def baseName (path : List UInt8) : List UInt8 :=
  match lastSlash path with
  | none => path
  | some slash => path.drop (slash + 1)

/-- How the system finds files: the working directory and the root of the
process, the directories that stand for other paths, and the paths that are not
too long. -/
structure Dirs (D : Type) where
  cwd : D
  root : D
  named : List UInt8 → Option D
  accepts : List UInt8 → Bool

namespace Dirs

variable {D : Type}

def resolve (dirs : Dirs D) (path : List UInt8) : Option D :=
  if path = [] then none
  else if path = [46] then some dirs.cwd
  else dirs.named path

/-- The directory that really contains what a path names. -/
def parent (dirs : Dirs D) (path : List UInt8) : Option D :=
  match lastSlash path with
  | none => some dirs.cwd
  | some 0 => some dirs.root
  | some slash => dirs.resolve (path.take slash)

/-- Where a path leads.  A path that ends in a slash, `.` or `..` names a
directory, and neither `O_CREAT` nor `rename` puts a file there. -/
def locate (dirs : Dirs D) (text : List UInt8) : Option (D × List UInt8) :=
  let path := cString text
  let name := baseName path
  if dirs.accepts path = false ∨ name = [] ∨ name = [46] ∨ name = [46, 46] then none
  else (dirs.parent path).map fun dir => (dir, name)

end Dirs

variable {D : Type}

theorem cString_eq_self {text : List UInt8} (hzero : 0 ∉ text) :
    cString text = text := by
  rw [cString, List.takeWhile_eq_self_iff]
  intro byte hbyte
  exact decide_eq_true fun hbad => hzero (hbad ▸ hbyte)

theorem cString_append {text : List UInt8} (hzero : 0 ∈ text) (rest : List UInt8) :
    cString (text ++ rest) = cString text := by
  rw [cString, cString, List.takeWhile_append, if_neg]
  intro hlength
  have hall := List.takeWhile_eq_self_iff.mp
    ((List.takeWhile_prefix _).eq_of_length hlength) 0 hzero
  exact absurd hall (by decide)

theorem lastSlash_lt {path : List UInt8} {slash : Nat}
    (hslash : lastSlash path = some slash) : slash < path.length := by
  induction path generalizing slash with
  | nil => cases hslash
  | cons byte rest ih =>
      simp only [lastSlash] at hslash
      cases hrest : lastSlash rest with
      | some later =>
          simp only [hrest, Option.some.injEq] at hslash
          have hlater := ih hrest
          simp only [List.length_cons]
          omega
      | none =>
          simp only [hrest, Option.ite_none_right_eq_some,
            Option.some.injEq] at hslash
          simp only [List.length_cons]
          omega

theorem lastSlash_append (path : List UInt8) {suffix : List UInt8}
    (hsuffix : lastSlash suffix = none) :
    lastSlash (path ++ suffix) = lastSlash path := by
  induction path with
  | nil => exact hsuffix
  | cons byte rest ih => simp only [List.cons_append, lastSlash, ih]

theorem lastSlash_tmpPath (path : List UInt8) :
    lastSlash (tmpPath path) = lastSlash path :=
  lastSlash_append path rfl

theorem baseName_tmpPath (path : List UInt8) :
    baseName (tmpPath path) = baseName path ++ [46, 116, 109, 112] := by
  rw [baseName, baseName, lastSlash_tmpPath]
  cases hslash : lastSlash path with
  | none => rfl
  | some slash => exact List.drop_append_of_le_length (lastSlash_lt hslash)

/-- A string that a zero byte cuts gives the temporary file the path itself. -/
theorem locate_tmpPath_cut (dirs : Dirs D) {path : List UInt8} (hzero : 0 ∈ path) :
    dirs.locate (tmpPath path) = dirs.locate path := by
  rw [Dirs.locate, Dirs.locate, tmpPath, cString_append hzero]

theorem locate_eq_some {dirs : Dirs D} {path : List UInt8} {place : D × List UInt8}
    (hplace : dirs.locate path = some place) :
    dirs.parent (cString path) = some place.1 ∧ place.2 =
      baseName (cString path) := by
  simp only [Dirs.locate, Option.ite_none_left_eq_some, Option.map_eq_some_iff]
    at hplace
  obtain ⟨-, dir, hdir, rfl⟩ := hplace
  exact ⟨hdir, rfl⟩

theorem locate_tmpPath_ne {dirs : Dirs D} {path : List UInt8} (hzero : 0 ∉ path)
    {tmp target : D × List UInt8} (htmp : dirs.locate (tmpPath path) = some tmp)
    (htarget : dirs.locate path = some target) : tmp ≠ target := by
  have hzeroTmp : 0 ∉ tmpPath path := by
    simp only [tmpPath, List.mem_append, hzero, false_or]
    decide
  rintro rfl
  have hname := (locate_eq_some htmp).2
  rw [(locate_eq_some htarget).2, cString_eq_self hzero, cString_eq_self hzeroTmp,
    baseName_tmpPath] at hname
  have hlength := congrArg List.length hname
  simp only [List.length_append, List.length_cons] at hlength
  omega

/-- `load_snapshot`: the bytes, or nothing where it returns false.  A read of a
directory fails. -/
def loadSnapshot (dirs : Dirs D) (view : View D (List UInt8) UInt8)
    (path : List UInt8) (reads : Chunks) : Option (List UInt8) :=
  (dirs.locate path).bind fun place =>
    (view.content place).bind fun bytes =>
      (readLoop reads bytes.length ⟨bytes, 0⟩).map (·.1)

theorem loadSnapshot_eq (dirs : Dirs D) (view : View D (List UInt8) UInt8)
    (path : List UInt8) (reads : Chunks) :
    loadSnapshot dirs view path reads = (dirs.locate path).bind view.content := by
  cases hplace : dirs.locate path with
  | none => simp only [loadSnapshot, hplace, Option.bind_none]
  | some place =>
      simp only [loadSnapshot, hplace, Option.bind_some]
      cases view.content place with
      | none => rfl
      | some bytes =>
          obtain ⟨count, hread⟩ := readLoop_eq reads bytes.length ⟨bytes, 0⟩ le_rfl
          simp only [Option.bind_some, hread, Option.map_some, List.take_length]

/-! `save_snapshot`. -/

inductive SavePhase (D : Type) where
  | opening
  | writing (ino offset : Nat)
  | closing
  | replacing
  | openingDir
  | syncingDir (dir : D)
  | returned (ok : Bool)
  deriving DecidableEq

structure SaveState (D : Type) where
  disk : Disk D (List UInt8) UInt8
  phase : SavePhase D

/-- What the next system call answers: success, failure or, for `write`, the
number of bytes that it took. -/
inductive SaveEvent where
  | done
  | failed
  | wrote (count : Nat)
  deriving DecidableEq

/-- What the three paths of `save_snapshot` lead to. -/
structure SavePlaces (D : Type) where
  tmp : Option (D × List UInt8)
  target : Option (D × List UInt8)
  dir : Option D

def savePlaces (dirs : Dirs D) (path : List UInt8) : SavePlaces D where
  tmp := dirs.locate (tmpPath path)
  target := dirs.locate path
  dir := dirs.resolve (cString (snapshotDir path))

/-- `save_snapshot` syncs the directory of the path, or the working directory
where that is the root. -/
theorem snapshotDir_resolves {dirs : Dirs D} {path : List UInt8} (hzero : 0 ∉ path)
    {target : D × List UInt8} (htarget : dirs.locate path = some target) :
    (lastSlash path = some 0 ∧ target.1 = dirs.root ∧
      (savePlaces dirs path).dir = some dirs.cwd) ∨
    (lastSlash path ≠ some 0 ∧ (savePlaces dirs path).dir = some target.1) := by
  have hparent := (locate_eq_some htarget).1
  rw [cString_eq_self hzero] at hparent
  cases hslash : lastSlash path with
  | none =>
      right
      simp only [Dirs.parent, hslash] at hparent
      refine ⟨Option.some_ne_none _ ∘ Eq.symm, ?_⟩
      simp only [savePlaces, snapshotDir, hslash]
      exact hparent
  | some slash =>
      cases slash with
      | zero =>
          left
          simp only [Dirs.parent, hslash] at hparent
          refine ⟨rfl, (Option.some.inj hparent).symm, ?_⟩
          simp only [savePlaces, snapshotDir, hslash, List.take_zero, if_true]
          rfl
      | succ slash =>
          right
          simp only [Dirs.parent, hslash] at hparent
          have hne : path.take (slash + 1) ≠ [] := by
            have hlt := lastSlash_lt hslash
            intro hempty
            have hlength := congrArg List.length hempty
            simp only [List.length_take, List.length_nil] at hlength
            omega
          have hzeroDir : 0 ∉ path.take (slash + 1) :=
            fun hmem => hzero (List.mem_of_mem_take hmem)
          refine ⟨by simp, ?_⟩
          simp only [savePlaces, snapshotDir, hslash, if_neg hne,
            cString_eq_self hzeroDir]
          exact hparent

variable [DecidableEq D]

/-- `open(tmp, O_CREAT | O_TRUNC | O_WRONLY)`. -/
def openTmp (places : SavePlaces D) (disk : Disk D (List UInt8) UInt8) :
    Option (SaveState D) :=
  places.tmp.bind fun tmp =>
    match disk.entry tmp with
    | none => some ⟨disk.create tmp, .writing disk.fresh 0⟩
    | some (.file ino) => some ⟨disk.truncate ino, .writing ino 0⟩
    | some .directory => none

/-- `rename(tmp, path)`. -/
def renameTmp (places : SavePlaces D) (disk : Disk D (List UInt8) UInt8) :
    Option (SaveState D) :=
  places.tmp.bind fun tmp =>
    places.target.bind fun target =>
      if disk.entry target = some .directory then none
      else some ⟨disk.move tmp target, .openingDir⟩

def saveStep (places : SavePlaces D) (data : List UInt8) (state : SaveState D) :
    SaveEvent → Option (SaveState D)
  | .done =>
      match state.phase with
      | .opening => openTmp places state.disk
      | .writing ino offset =>
          if offset < data.length then none
          else some ⟨state.disk.sync ino, .closing⟩
      | .closing => some ⟨state.disk, .replacing⟩
      | .replacing => renameTmp places state.disk
      | .openingDir => places.dir.map fun dir => ⟨state.disk, .syncingDir dir⟩
      | .syncingDir dir => some ⟨state.disk.syncDir dir, .returned true⟩
      | .returned _ => none
  | .failed =>
      match state.phase with
      | .returned _ => none
      | _ => some ⟨state.disk, .returned false⟩
  | .wrote count =>
      match state.phase with
      | .writing ino offset =>
          if 0 < count ∧ offset + count ≤ data.length then
            some ⟨state.disk.append ino ((data.drop offset).take count),
              .writing ino (offset + count)⟩
          else none
      | _ => none

def replaceFile (places : SavePlaces D) (data : List UInt8)
    (disk : Disk D (List UInt8) UInt8) : Machine (SaveState D) SaveEvent where
  start := ⟨disk, .opening⟩
  step := saveStep places data

/-- `save_snapshot`. -/
def saveSnapshot (dirs : Dirs D) (path data : List UInt8)
    (disk : Disk D (List UInt8) UInt8) : Machine (SaveState D) SaveEvent :=
  replaceFile (savePlaces dirs path) data disk

/-! What every run keeps, where the temporary file is another file than the one
under the path. -/

def OldOrNew (old : Option (List UInt8)) (data : List UInt8)
    (content : Option (List UInt8)) : Prop :=
  content = old ∨ content = some data

/-- The temporary file, which no crash shows under the path. -/
def Staged (disk : Disk D (List UInt8) UInt8) (tmp target : D × List UInt8)
    (ino : Nat) : Prop :=
  disk.entry tmp = some (.file ino) ∧ ¬ disk.Possible target (some (.file ino))

def SaveInv (places : SavePlaces D) (tmp target : D × List UInt8)
    (old : Option (List UInt8)) (data : List UInt8) (state : SaveState D) : Prop :=
  match state.phase with
  | .opening =>
      state.disk.Certain target (· = old) ∧
        ∀ ino, state.disk.entry tmp = some (.file ino) →
          Staged state.disk tmp target ino
  | .writing ino offset =>
      state.disk.Certain target (· = old) ∧ Staged state.disk tmp target ino ∧
        offset ≤ data.length ∧ state.disk.bytes ino = data.take offset
  | .closing | .replacing =>
      state.disk.Certain target (· = old) ∧
        ∃ ino, Staged state.disk tmp target ino ∧
          state.disk.dirty ino = false ∧ state.disk.bytes ino = data
  | .openingDir =>
      state.disk.Certain target (OldOrNew old data) ∧
        state.disk.view.content target = some data ∧
        contentOf state.disk.bytes (state.disk.saved target) = old
  | .syncingDir dir =>
      state.disk.Certain target (OldOrNew old data) ∧
        state.disk.view.content target = some data ∧
        contentOf state.disk.bytes (state.disk.saved target) = old ∧
        places.dir = some dir
  | .returned false => state.disk.Certain target (OldOrNew old data)
  | .returned true =>
      state.disk.Certain target (OldOrNew old data) ∧
        (places.dir = some target.1 → state.disk.Certain target (· = some data)) ∧
        (places.dir ≠ some target.1 →
          contentOf state.disk.bytes (state.disk.saved target) = old)

section

variable {places : SavePlaces D} {tmp target : D × List UInt8}
  {old : Option (List UInt8)} {data : List UInt8}
  {disk : Disk D (List UInt8) UInt8} {state next : SaveState D}

theorem SaveInv.oldOrNew (hinv : SaveInv places tmp target old data state) :
    state.disk.Certain target (OldOrNew old data) := by
  obtain ⟨disk, phase⟩ := state
  cases phase with
  | opening => exact hinv.1.mono fun _ hold => .inl hold
  | writing ino offset => exact hinv.1.mono fun _ hold => .inl hold
  | closing => exact hinv.1.mono fun _ hold => .inl hold
  | replacing => exact hinv.1.mono fun _ hold => .inl hold
  | openingDir => exact hinv.1
  | syncingDir dir => exact hinv.1
  | returned ok =>
      cases ok with
      | false => exact hinv
      | true => exact hinv.1

theorem openTmp_inv (htmp : places.tmp = some tmp) (hplaces : tmp ≠ target)
    (hinv : SaveInv places tmp target old data ⟨disk, .opening⟩)
    (hopen : openTmp places disk = some next) :
    SaveInv places tmp target old data next := by
  obtain ⟨hold, hstaged⟩ := hinv
  rw [openTmp, htmp, Option.bind_some] at hopen
  split at hopen
  · next hnone =>
      cases hopen
      refine ⟨hold.create hplaces, ⟨?_, ?_⟩, Nat.zero_le _, ?_⟩
      · simp only [Disk.create_entry, Function.update_self]
      · intro hpossible
        obtain hbefore | hnew := mayBe_append.mp hpossible
        · exact absurd (disk.used target disk.fresh hbefore) (Nat.lt_irrefl _)
        · simp only [List.mem_singleton, Prod.mk.injEq] at hnew
          exact hplaces hnew.1.symm
      · simp only [Disk.create, Function.update_self, List.take_zero]
  · next ino hino =>
      cases hopen
      obtain ⟨hentry, hunused⟩ := hstaged ino hino
      refine ⟨hold.write hunused _ _, ⟨hentry, hunused⟩, Nat.zero_le _, ?_⟩
      simp only [Disk.truncate, Function.update_self, List.take_zero]
  · cases hopen

theorem write_inv {ino offset count : Nat}
    (hinv : SaveInv places tmp target old data ⟨disk, .writing ino offset⟩)
    (hcount : offset + count ≤ data.length) :
    SaveInv places tmp target old data
      ⟨disk.append ino ((data.drop offset).take count),
        .writing ino (offset + count)⟩ := by
  obtain ⟨hold, hstaged, -, hbytes⟩ := hinv
  refine ⟨hold.write hstaged.2 _ _, hstaged, hcount, ?_⟩
  simp only [Disk.append, Function.update_self]
  rw [hbytes, List.take_add]

theorem fsync_inv {ino offset : Nat}
    (hinv : SaveInv places tmp target old data ⟨disk, .writing ino offset⟩)
    (hall : data.length ≤ offset) :
    SaveInv places tmp target old data ⟨disk.sync ino, .closing⟩ := by
  obtain ⟨hold, hstaged, -, hbytes⟩ := hinv
  refine ⟨hold.sync ino, ino, hstaged, ?_, ?_⟩
  · simp only [Disk.sync, Function.update_self]
  · rw [List.take_of_length_le hall] at hbytes
    exact hbytes

theorem renameTmp_inv (htmp : places.tmp = some tmp)
    (htarget : places.target = some target)
    (hinv : SaveInv places tmp target old data ⟨disk, .replacing⟩)
    (hrename : renameTmp places disk = some next) :
    SaveInv places tmp target old data next := by
  obtain ⟨hold, ino, ⟨hentry, hunused⟩, hclean, hbytes⟩ := hinv
  simp only [renameTmp, htmp, htarget, Option.bind_some,
    Option.ite_none_left_eq_some, Option.some.injEq] at hrename
  obtain ⟨-, rfl⟩ := hrename
  have hdiffer : disk.entry tmp ≠ disk.entry target := by
    intro hsame
    rw [hentry] at hsame
    exact hunused (hsame ▸ disk.possible_entry target)
  obtain ⟨hsaved, -, hkept, -⟩ := Disk.move_eq hdiffer
  refine ⟨(hold.move hentry hclean hdiffer).mono ?_, ?_, ?_⟩
  · intro content hcontent
    exact hcontent.imp_right fun hnew => hbytes ▸ hnew
  · show contentOf (disk.move tmp target).bytes
      ((disk.move tmp target).entry target) = _
    rw [Disk.move_entry hdiffer, hentry, hkept, contentOf, hbytes]
  · show contentOf (disk.move tmp target).bytes
      ((disk.move tmp target).saved target) = _
    rw [hsaved, hkept]
    exact (hold _ (.inl rfl)).2

theorem syncDir_inv {dir : D}
    (hinv : SaveInv places tmp target old data ⟨disk, .syncingDir dir⟩) :
    SaveInv places tmp target old data ⟨disk.syncDir dir, .returned true⟩ := by
  obtain ⟨hcertain, hcontent, hsaved, hdir⟩ := hinv
  refine ⟨hcertain.syncDir dir, ?_, ?_⟩
  · intro hsame
    obtain rfl := Option.some.inj (hdir.symm.trans hsame)
    exact hcertain.syncDir_self.mono fun _ hnew => hnew.trans hcontent
  · intro hother
    have hplace : target.1 ≠ dir := fun hsame => hother (hsame ▸ hdir)
    simpa only [Disk.syncDir, if_neg hplace] using hsaved

/-- The step lemma. -/
theorem saveStep_inv (htmp : places.tmp = some tmp)
    (htarget : places.target = some target) (hplaces : tmp ≠ target)
    {event : SaveEvent} (hinv : SaveInv places tmp target old data state)
    (hstep : saveStep places data state event = some next) :
    SaveInv places tmp target old data next := by
  obtain ⟨disk, phase⟩ := state
  cases event with
  | done =>
      cases phase with
      | opening => exact openTmp_inv htmp hplaces hinv hstep
      | writing ino offset =>
          simp only [saveStep, Option.ite_none_left_eq_some,
            Option.some.injEq] at hstep
          obtain ⟨hall, rfl⟩ := hstep
          exact fsync_inv hinv (Nat.le_of_not_lt hall)
      | closing =>
          cases hstep
          exact hinv
      | replacing => exact renameTmp_inv htmp htarget hinv hstep
      | openingDir =>
          simp only [saveStep, Option.map_eq_some_iff] at hstep
          obtain ⟨dir, hdir, rfl⟩ := hstep
          exact ⟨hinv.1, hinv.2.1, hinv.2.2, hdir⟩
      | syncingDir dir =>
          cases hstep
          exact syncDir_inv hinv
      | returned ok => cases hstep
  | failed =>
      cases phase with
      | returned ok => cases hstep
      | _ =>
          cases hstep
          exact hinv.oldOrNew
  | wrote count =>
      cases phase with
      | writing ino offset =>
          simp only [saveStep, Option.ite_none_right_eq_some,
            Option.some.injEq] at hstep
          obtain ⟨⟨-, hcount⟩, rfl⟩ := hstep
          exact write_inv hinv hcount
      | _ => cases hstep

theorem replaceFile_inv (htmp : places.tmp = some tmp)
    (htarget : places.target = some target) (hplaces : tmp ≠ target)
    (hstart : SaveInv places tmp target old data ⟨disk, .opening⟩)
    {word : List SaveEvent} (hrun : (replaceFile places data disk).run word =
      some state) :
    SaveInv places tmp target old data state :=
  (replaceFile places data disk).run_preserves hstart
    (fun _ _ _ hinv hstep => saveStep_inv htmp htarget hplaces hinv hstep) word hrun

end

/-! Runs that cannot replace anything. -/

/-- No file can be made there. -/
def Refused (disk : Disk D (List UInt8) UInt8) (place : Option (D × List UInt8)) :
    Prop :=
  ∀ there, place = some there → disk.entry there = some .directory

/-- The phases after the rename. -/
def SavePhase.Renamed : SavePhase D → Prop
  | .openingDir | .syncingDir _ | .returned true => True
  | _ => False

section

variable {places : SavePlaces D} {data : List UInt8}
  {disk : Disk D (List UInt8) UInt8} {state next : SaveState D}

theorem openTmp_refused (hrefused : Refused disk places.tmp) :
    openTmp places disk = none := by
  cases htmp : places.tmp with
  | none => rw [openTmp, htmp, Option.bind_none]
  | some tmp => rw [openTmp, htmp, Option.bind_some, hrefused tmp htmp]

theorem renameTmp_refused (hrefused : Refused disk places.target) :
    renameTmp places disk = none := by
  cases htarget : places.target with
  | none => simp only [renameTmp, htarget, Option.bind_none, Option.bind_fun_none]
  | some target =>
      simp only [renameTmp, htarget, Option.bind_some, hrefused target htarget,
        if_true, Option.bind_fun_none]

/-- Where `open` fails, the disk stays as it is. -/
theorem run_openRefused (hrefused : Refused disk places.tmp) {word : List SaveEvent}
    (hrun : (replaceFile places data disk).run word = some state) :
    state.disk = disk ∧ ¬ state.phase.Renamed := by
  have hinv : state.disk = disk ∧
      (state.phase = .opening ∨ state.phase = .returned false) := by
    refine (replaceFile places data disk).run_preserves (I := fun state =>
      state.disk = disk ∧ (state.phase = .opening ∨ state.phase = .returned false))
      ⟨rfl, .inl rfl⟩ ?_ word hrun
    rintro ⟨_, phase⟩ event next ⟨rfl, rfl | rfl⟩ hstep
    · cases event with
      | done => cases (openTmp_refused hrefused).symm.trans hstep
      | failed =>
          cases hstep
          exact ⟨rfl, .inr rfl⟩
      | wrote count => cases hstep
    · cases event <;> cases hstep
  obtain ⟨hdisk, hphase | hphase⟩ := hinv
  · exact ⟨hdisk, hphase ▸ id⟩
  · exact ⟨hdisk, hphase ▸ id⟩

theorem openTmp_keeps (hopen : openTmp places disk = some next)
    (hrefused : Refused disk places.target) :
    Refused next.disk places.target ∧ ¬ next.phase.Renamed := by
  rw [openTmp, Option.bind_eq_some_iff] at hopen
  obtain ⟨tmp, -, hopen⟩ := hopen
  split at hopen
  · next hnone =>
      cases hopen
      refine ⟨fun target htarget => ?_, id⟩
      have hentry := hrefused target htarget
      have hne : target ≠ tmp := by
        rintro rfl
        rw [hnone] at hentry
        cases hentry
      rw [Disk.create_entry, Function.update_of_ne hne]
      exact hentry
  · cases hopen
    exact ⟨hrefused, id⟩
  · cases hopen

theorem run_renameRefused (hrefused : Refused disk places.target)
    {word : List SaveEvent}
    (hrun : (replaceFile places data disk).run word = some state) :
    Refused state.disk places.target ∧ ¬ state.phase.Renamed := by
  refine (replaceFile places data disk).run_preserves (I := fun state =>
    Refused state.disk places.target ∧ ¬ state.phase.Renamed)
    ⟨hrefused, id⟩ ?_ word hrun
  rintro ⟨disk, phase⟩ event next ⟨hrefused, hphase⟩ hstep
  cases event with
  | done =>
      cases phase with
      | opening => exact openTmp_keeps hstep hrefused
      | writing ino offset =>
          simp only [replaceFile, saveStep, Option.ite_none_left_eq_some,
            Option.some.injEq] at hstep
          obtain ⟨-, rfl⟩ := hstep
          exact ⟨hrefused, id⟩
      | closing =>
          cases hstep
          exact ⟨hrefused, id⟩
      | replacing => cases (renameTmp_refused hrefused).symm.trans hstep
      | openingDir => exact absurd trivial hphase
      | syncingDir dir => exact absurd trivial hphase
      | returned ok => cases hstep
  | failed =>
      cases phase with
      | returned ok => cases hstep
      | _ =>
          cases hstep
          exact ⟨hrefused, id⟩
  | wrote count =>
      cases phase with
      | writing ino offset =>
          simp only [replaceFile, saveStep, Option.ite_none_right_eq_some,
            Option.some.injEq] at hstep
          obtain ⟨-, rfl⟩ := hstep
          exact ⟨hrefused, id⟩
      | _ => cases hstep

end

end UltraNet
