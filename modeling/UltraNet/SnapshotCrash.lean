/-
What `load_snapshot` finds after a crash in `save_snapshot`.  The old content or
the new one, if the temporary file is a file of its own; and the new one once
`save_snapshot` has returned true, if the directory that it synced is the one
that contains the path.
-/
import UltraNet.Snapshot

namespace UltraNet

variable {D : Type} [DecidableEq D]

/-- A crash shows the content `old` there and nothing else. -/
def SavedAs (disk : Disk D (List UInt8) UInt8) (place : Option (D × List UInt8))
    (old : Option (List UInt8)) : Prop :=
  match place with
  | none => old = none
  | some there =>
      (∀ node, disk.Possible there node → node = disk.entry there) ∧
        disk.Certain there (· = old)

/-- The two names lead to one file. -/
def SameFile (disk : Disk D (List UInt8) UInt8) (tmp target : D × List UInt8) :
    Prop :=
  tmp = target ∨
    ∃ ino, disk.entry tmp = some (.file ino) ∧ disk.entry target = some (.file ino)

/-- A crash in any state of any run. -/
def ReplaceAtomic (places : SavePlaces D) (disk : Disk D (List UInt8) UInt8)
    (old : Option (List UInt8)) (data : List UInt8) : Prop :=
  ∀ word state view, (replaceFile places data disk).run word = some state →
    state.disk.CrashesTo view →
    OldOrNew old data (places.target.bind view.content) ∧
      (state.phase = .returned true → places.target.bind view.content = some data)

section

variable {places : SavePlaces D} {tmp target : D × List UInt8}
  {disk : Disk D (List UInt8) UInt8} {old : Option (List UInt8)} {data : List UInt8}

theorem SavedAs.crash {place : Option (D × List UInt8)}
    (hsaved : SavedAs disk place old) {view : View D (List UInt8) UInt8}
    (hcrash : disk.CrashesTo view) : place.bind view.content = old := by
  cases place with
  | none => exact hsaved.symm
  | some there => exact hsaved.2.crash hcrash

theorem replaceAtomic_of_openRefused (hsaved : SavedAs disk places.target old)
    (hrefused : Refused disk places.tmp) : ReplaceAtomic places disk old data := by
  intro word state view hrun hcrash
  obtain ⟨hdisk, hphase⟩ := run_openRefused hrefused hrun
  refine ⟨.inl (hsaved.crash (hdisk ▸ hcrash)), fun hreturned => ?_⟩
  rw [hreturned] at hphase
  exact absurd trivial hphase

theorem saveInv_start (hsaved : SavedAs disk (some target) old)
    (hfiles : ¬ SameFile disk tmp target) :
    SaveInv places tmp target old data ⟨disk, .opening⟩ := by
  refine ⟨hsaved.2, fun ino hino => ⟨hino, fun hpossible => ?_⟩⟩
  exact hfiles (.inr ⟨ino, hino, (hsaved.1 _ hpossible).symm⟩)

/-- Sufficient: another file, and the right directory where `rename` is
possible. -/
theorem replaceAtomic_of_distinct (htmp : places.tmp = some tmp)
    (htarget : places.target = some target)
    (hsaved : SavedAs disk (some target) old) (hfiles : ¬ SameFile disk tmp target)
    (hdir : Refused disk places.target ∨ places.dir = some target.1 ∨
      old = some data) :
    ReplaceAtomic places disk old data := by
  intro word state view hrun hcrash
  have hinv := replaceFile_inv htmp htarget (fun hsame => hfiles (.inl hsame))
    (saveInv_start hsaved hfiles) hrun
  have hfound := hinv.oldOrNew.crash hcrash
  rw [htarget, Option.bind_some]
  refine ⟨hfound, fun hreturned => ?_⟩
  obtain ⟨disk', phase⟩ := state
  obtain rfl : phase = .returned true := hreturned
  obtain hrefused | hright | rfl := hdir
  · exact absurd trivial (run_renameRefused hrefused hrun).2
  · exact (hinv.2.1 hright).crash hcrash
  · exact hfound.elim id id

/-! What goes wrong elsewhere. -/

/-- A content that is neither the old one nor the new one. -/
def tornContent (old : Option (List UInt8)) (data : List UInt8) : List UInt8 :=
  0 :: (old.getD [] ++ data)

theorem not_oldOrNew_torn (old : Option (List UInt8)) (data : List UInt8) :
    ¬ OldOrNew old data (some (tornContent old data)) := by
  rintro (hold | hnew)
  · have hlength := congrArg (fun content => (content.getD []).length) hold
    simp only [tornContent, Option.getD_some, List.length_cons,
      List.length_append] at hlength
    omega
  · have hlength := congrArg List.length (Option.some.inj hnew)
    simp only [tornContent, List.length_cons, List.length_append] at hlength
    omega

/-- Where both names lead to one file, `open` has already emptied the file under
the path. -/
theorem openTmp_sameFile (htmp : places.tmp = some tmp)
    (hfree : disk.entry tmp ≠ some .directory) (hfiles : SameFile disk tmp target) :
    ∃ emptied ino, openTmp places disk = some ⟨emptied, .writing ino 0⟩ ∧
      emptied.entry target = some (.file ino) ∧ emptied.dirty ino = true := by
  rw [openTmp, htmp, Option.bind_some]
  cases hentry : disk.entry tmp with
  | none =>
      obtain rfl | ⟨ino, hino, -⟩ := hfiles
      · refine ⟨_, _, rfl, ?_, ?_⟩
        · rw [Disk.create_entry, Function.update_self]
        · simp only [Disk.create, Function.update_self]
      · rw [hentry] at hino
        cases hino
  | some node =>
      cases node with
      | directory => exact absurd hentry hfree
      | file ino =>
          refine ⟨_, _, rfl, ?_, ?_⟩
          · obtain rfl | ⟨other, hother, htarget⟩ := hfiles
            · exact hentry
            · rw [hentry] at hother
              exact htarget.trans hother.symm
          · simp only [Disk.truncate, Function.update_self]

theorem not_replaceAtomic_of_sameFile (htmp : places.tmp = some tmp)
    (htarget : places.target = some target)
    (hfree : disk.entry tmp ≠ some .directory) (hfiles : SameFile disk tmp target) :
    ¬ ReplaceAtomic places disk old data := by
  intro hatomic
  obtain ⟨emptied, ino, hopen, hentry, hdirty⟩ := openTmp_sameFile htmp hfree hfiles
  have hrun : (replaceFile places data disk).run [.done] =
      some ⟨emptied, .writing ino 0⟩ := by
    simp only [Machine.run, Machine.runFrom, replaceFile, saveStep, hopen]
  let torn := tornContent old data
  have hcrash : emptied.CrashesTo
      ⟨emptied.entry, Function.update emptied.bytes ino torn⟩ := by
    refine ⟨⟨_, List.Sublist.refl _, rfl⟩, fun other hother => ?_⟩
    have hne : other ≠ ino := by
      rintro rfl
      rw [hdirty] at hother
      cases hother
    exact Function.update_of_ne hne _ _
  have hfound := (hatomic _ _ _ hrun hcrash).1
  simp only [htarget, Option.bind_some, View.content, hentry, contentOf,
    Function.update_self] at hfound
  exact not_oldOrNew_torn old data hfound

theorem openTmp_distinct (htmp : places.tmp = some tmp)
    (hfree : disk.entry tmp ≠ some .directory) (hplaces : tmp ≠ target) :
    ∃ opened ino, openTmp places disk = some ⟨opened, .writing ino 0⟩ ∧
      opened.entry target = disk.entry target := by
  rw [openTmp, htmp, Option.bind_some]
  cases hentry : disk.entry tmp with
  | none =>
      refine ⟨_, _, rfl, ?_⟩
      rw [Disk.create_entry, Function.update_of_ne (Ne.symm hplaces)]
  | some node =>
      cases node with
      | directory => exact absurd hentry hfree
      | file ino => exact ⟨_, _, rfl, rfl⟩

/-- One write takes everything, and `fsync` succeeds. -/
theorem writeAll_run (places : SavePlaces D) (data : List UInt8)
    (disk' opened : Disk D (List UInt8) UInt8) (ino : Nat) :
    ∃ word synced,
      (replaceFile places data disk').runFrom ⟨opened, .writing ino 0⟩ word =
        some ⟨synced, .closing⟩ ∧ synced.entry = opened.entry := by
  by_cases hdata : data.length = 0
  · refine ⟨[.done], opened.sync ino, ?_, rfl⟩
    simp only [Machine.runFrom, replaceFile, saveStep, hdata, Nat.lt_irrefl,
      if_false]
  · refine ⟨[.wrote data.length, .done],
      (opened.append ino ((data.drop 0).take data.length)).sync ino, ?_, rfl⟩
    simp only [Machine.runFrom, replaceFile, saveStep, Nat.pos_of_ne_zero hdata,
      Nat.zero_add, le_refl, and_self, if_true, Nat.lt_irrefl, if_false]

/-- Where every call can succeed, some run returns true. -/
theorem replaceFile_returns (data : List UInt8) (htmp : places.tmp = some tmp)
    (htarget : places.target = some target) {dir : D} (hdir : places.dir = some dir)
    (hplaces : tmp ≠ target) (htmpFree : disk.entry tmp ≠ some .directory)
    (hfree : disk.entry target ≠ some .directory) :
    ∃ word last, (replaceFile places data disk).run word =
      some ⟨last, .returned true⟩ := by
  obtain ⟨opened, ino, hopen, hopened⟩ :=
    openTmp_distinct htmp htmpFree hplaces
  obtain ⟨word, synced, hwrites, hsynced⟩ :=
    writeAll_run places data disk opened ino
  have hsyncedFree : synced.entry target ≠ some .directory := by
    rw [hsynced, hopened]
    exact hfree
  refine ⟨.done :: (word ++ [.done, .done, .done, .done]),
    (synced.move tmp target).syncDir dir, ?_⟩
  have hfirst : (replaceFile places data disk).step ⟨disk, .opening⟩ .done =
      some ⟨opened, .writing ino 0⟩ := hopen
  have hstart : (replaceFile places data disk).start = ⟨disk, .opening⟩ := rfl
  rw [Machine.run, hstart, Machine.runFrom, hfirst]
  simp only
  rw [Machine.runFrom_append, hwrites, Option.bind_some]
  simp only [Machine.runFrom, replaceFile, saveStep, renameTmp, htmp, htarget, hdir,
    Option.bind_some, if_neg hsyncedFree, Option.map_some]

/-- A directory that does not contain the path is synced: a crash can undo the
rename after `save_snapshot` has returned true. -/
theorem old_of_replaceAtomic (htmp : places.tmp = some tmp)
    (htarget : places.target = some target) {dir : D} (hdir : places.dir = some dir)
    (hother : dir ≠ target.1) (hsaved : SavedAs disk (some target) old)
    (hfiles : ¬ SameFile disk tmp target)
    (htmpFree : disk.entry tmp ≠ some .directory)
    (hfree : disk.entry target ≠ some .directory)
    (hatomic : ReplaceAtomic places disk old data) : old = some data := by
  have hplaces : tmp ≠ target := fun hsame => hfiles (.inl hsame)
  obtain ⟨word, last, hrun⟩ :=
    replaceFile_returns data htmp htarget hdir hplaces htmpFree hfree
  have hinv := replaceFile_inv htmp htarget hplaces
    (saveInv_start hsaved hfiles) hrun
  have hwrong : places.dir ≠ some target.1 :=
    fun hright => hother (Option.some.inj (hdir.symm.trans hright))
  have hcrash : last.CrashesTo ⟨last.saved, last.bytes⟩ :=
    ⟨⟨[], List.nil_sublist _, rfl⟩, fun _ _ => rfl⟩
  have hnew := (hatomic _ _ _ hrun hcrash).2 rfl
  rw [htarget, Option.bind_some] at hnew
  exact (hinv.2.2 hwrong).symm.trans hnew

end

/-! The claim about paths. -/

/-- Whatever the calls answer and whenever the machine crashes, `load_snapshot`
finds the old content or the new one, and the new one if `save_snapshot` had
returned true. -/
def CrashAtomic (dirs : Dirs D) (disk : Disk D (List UInt8) UInt8)
    (path : List UInt8) (old : Option (List UInt8)) (data : List UInt8) : Prop :=
  ∀ word state view reads, (saveSnapshot dirs path data disk).run word = some state →
    state.disk.CrashesTo view →
    OldOrNew old data (loadSnapshot dirs view path reads) ∧
      (state.phase = .returned true →
        loadSnapshot dirs view path reads = some data)

/-- The path or that of the temporary file does not lead to a place for a file,
or leads to a directory. -/
def Unreplaceable (dirs : Dirs D) (disk : Disk D (List UInt8) UInt8)
    (path : List UInt8) : Prop :=
  Refused disk (dirs.locate (tmpPath path)) ∨ Refused disk (dirs.locate path)

/-- The temporary file is there, as another name of the file under the path. -/
def LinkedTmp (dirs : Dirs D) (disk : Disk D (List UInt8) UInt8)
    (path : List UInt8) : Prop :=
  ∃ tmp target ino, dirs.locate (tmpPath path) = some tmp ∧
    dirs.locate path = some target ∧
    disk.entry tmp = some (.file ino) ∧ disk.entry target = some (.file ino)

section

variable {dirs : Dirs D} {disk : Disk D (List UInt8) UInt8} {path : List UInt8}
  {old : Option (List UInt8)} {data : List UInt8}

theorem crashAtomic_iff_replaceAtomic :
    CrashAtomic dirs disk path old data ↔
      ReplaceAtomic (savePlaces dirs path) disk old data := by
  simp only [CrashAtomic, loadSnapshot_eq]
  constructor
  · intro hatomic word state view hrun hcrash
    exact hatomic word state view (fun _ => 1) hrun hcrash
  · intro hatomic word state view _ hrun hcrash
    exact hatomic word state view hrun hcrash

theorem exists_of_not_refused {place : Option (D × List UInt8)}
    (hplace : ¬ Refused disk place) :
    ∃ there, place = some there ∧ disk.entry there ≠ some .directory := by
  simpa only [Refused, not_forall, exists_prop] using hplace

/-- Any refusal of the file system keeps the old content. -/
theorem crashAtomic_of_unreplaceable
    (hsaved : SavedAs disk (dirs.locate path) old)
    (hrefused : Unreplaceable dirs disk path) :
    CrashAtomic dirs disk path old data := by
  rw [crashAtomic_iff_replaceAtomic]
  by_cases hopen : Refused disk (dirs.locate (tmpPath path))
  · exact replaceAtomic_of_openRefused hsaved hopen
  have hrename := hrefused.resolve_left hopen
  obtain ⟨tmp, htmp, htmpFree⟩ := exists_of_not_refused hopen
  cases htarget : dirs.locate path with
  | none =>
      rw [htarget] at hsaved hrename
      intro word state view hrun _
      have hplaces : (savePlaces dirs path).target = none := htarget
      have hphase := (run_renameRefused (hplaces ▸ hrename) hrun).2
      rw [hplaces, Option.bind_none]
      refine ⟨.inl hsaved.symm, fun hreturned => ?_⟩
      rw [hreturned] at hphase
      exact absurd trivial hphase
  | some target =>
      have hentry := hrename target htarget
      have hfiles : ¬ SameFile disk tmp target := by
        rintro (rfl | ⟨ino, -, hino⟩)
        · exact htmpFree hentry
        · rw [hentry] at hino
          cases hino
      exact replaceAtomic_of_distinct htmp htarget (htarget ▸ hsaved) hfiles
        (.inl hrename)

/-- The law of `save_snapshot`, exactly: it fails where a zero byte cuts the
path, where the temporary file is the file itself, and for a file in the root
when the process works elsewhere. -/
theorem crashAtomic_iff (hsaved : SavedAs disk (dirs.locate path) old) :
    CrashAtomic dirs disk path old data ↔
      Unreplaceable dirs disk path ∨
        (0 ∉ path ∧ ¬ LinkedTmp dirs disk path ∧
          (lastSlash path = some 0 → dirs.cwd = dirs.root ∨ old = some data)) := by
  by_cases hrefused : Unreplaceable dirs disk path
  · exact iff_of_true (crashAtomic_of_unreplaceable hsaved hrefused) (.inl hrefused)
  rw [crashAtomic_iff_replaceAtomic]
  simp only [hrefused, false_or]
  obtain ⟨hopen, hrename⟩ := not_or.mp hrefused
  obtain ⟨tmp, htmp, htmpFree⟩ := exists_of_not_refused hopen
  obtain ⟨target, htarget, hfree⟩ := exists_of_not_refused hrename
  rw [htarget] at hsaved
  by_cases hfiles : SameFile disk tmp target
  · refine iff_of_false
      (not_replaceAtomic_of_sameFile htmp htarget htmpFree hfiles) ?_
    rintro ⟨hzero, hlinked, -⟩
    obtain hsame | ⟨ino, hino⟩ := hfiles
    · exact locate_tmpPath_ne hzero htmp htarget hsame
    · exact hlinked ⟨tmp, target, ino, htmp, htarget, hino⟩
  have hzero : 0 ∉ path := by
    intro hzero
    rw [locate_tmpPath_cut dirs hzero, htarget] at htmp
    exact hfiles (.inl (Option.some.inj htmp).symm)
  have hlinked : ¬ LinkedTmp dirs disk path := by
    rintro ⟨tmp', target', ino, htmp', htarget', hino⟩
    obtain rfl := Option.some.inj (htmp.symm.trans htmp')
    obtain rfl := Option.some.inj (htarget.symm.trans htarget')
    exact hfiles (.inr ⟨ino, hino⟩)
  simp only [hzero, hlinked, not_false_eq_true, true_and]
  obtain ⟨hslash, hroot, hdir⟩ | ⟨hslash, hdir⟩ := snapshotDir_resolves hzero htarget
  · simp only [hslash, true_imp_iff]
    constructor
    · intro hatomic
      by_cases hcwd : dirs.cwd = dirs.root
      · exact .inl hcwd
      · exact .inr (old_of_replaceAtomic htmp htarget hdir (hroot ▸ hcwd) hsaved
          hfiles htmpFree hfree hatomic)
    · intro hlaw
      refine replaceAtomic_of_distinct htmp htarget hsaved hfiles (.inr ?_)
      exact hlaw.imp_left fun hcwd => by rw [hdir, hcwd, hroot]
  · simp only [hslash, false_imp_iff, iff_true]
    exact replaceAtomic_of_distinct htmp htarget hsaved hfiles (.inr (.inl hdir))

theorem savedAs_clean (hunsaved : disk.unsaved = [])
    (hclean : ∀ ino, disk.dirty ino = false) (place : Option (D × List UInt8)) :
    SavedAs disk place (place.bind disk.view.content) := by
  cases place with
  | none => rfl
  | some there =>
      have honly : ∀ node, disk.Possible there node → node = disk.entry there := by
        rintro node (hnode | ⟨change, hchange, -⟩)
        · rw [hnode, Disk.entry, hunsaved, List.foldl_nil]
        · rw [hunsaved] at hchange
          cases hchange
      refine ⟨honly, fun node hnode => ⟨fun ino _ => hclean ino, ?_⟩⟩
      rw [honly node hnode]
      rfl

end

/-- The root is directory 0, the process works in directory 1. -/
def workDirs : Dirs Nat := ⟨1, 0, fun _ => none, fun _ => true⟩

/-- A file `s` in each directory. -/
def twoSnapshots : Disk Nat (List UInt8) UInt8 where
  saved place :=
    if place = (0, [115]) then some (.file 0)
    else if place = (1, [115]) then some (.file 1)
    else none
  unsaved := []
  bytes ino := [UInt8.ofNat ino]
  dirty _ := false
  fresh := 2
  used := by
    rintro place ino (hsaved | ⟨change, hchange, -⟩)
    · simp only at hsaved
      split at hsaved
      · cases hsaved
        decide
      · split at hsaved
        · cases hsaved
          decide
        · cases hsaved
    · cases hchange

theorem crashAtomic_relative :
    CrashAtomic workDirs twoSnapshots [115] (some [1]) [7, 8] := by
  refine (crashAtomic_iff (savedAs_clean rfl (fun _ => rfl) _)).mpr
    (.inr ⟨by decide, ?_, by decide⟩)
  rintro ⟨tmp, target, ino, htmp, -, hentry, -⟩
  cases htmp
  cases hentry

/-- `/s` is saved and the process works elsewhere: `save_snapshot` returns true,
and after a crash the old content is back. -/
theorem rootedSnapshot_undone :
    SavedAs twoSnapshots (workDirs.locate [47, 115]) (some [0]) ∧
      ∃ last view, (saveSnapshot workDirs [47, 115] [7, 8] twoSnapshots).run
          [.done, .wrote 2, .done, .done, .done, .done, .done] =
            some ⟨last, .returned true⟩ ∧
        last.CrashesTo view ∧
        loadSnapshot workDirs view [47, 115] (fun _ => 1) = some [0] := by
  refine ⟨savedAs_clean rfl (fun _ => rfl) _, ?_⟩
  have hrun : ∃ last, (saveSnapshot workDirs [47, 115] [7, 8] twoSnapshots).run
      [.done, .wrote 2, .done, .done, .done, .done, .done] =
        some ⟨last, .returned true⟩ ∧
      contentOf last.bytes (last.saved (0, [115])) = some [0] := ⟨_, rfl, rfl⟩
  obtain ⟨last, hlast, hcontent⟩ := hrun
  refine ⟨last, ⟨last.saved, last.bytes⟩, hlast,
    ⟨⟨[], List.nil_sublist _, rfl⟩, fun _ _ => rfl⟩, ?_⟩
  rw [loadSnapshot_eq]
  exact hcontent

end UltraNet
