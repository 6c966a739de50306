import Mathlib.Data.List.Pairwise
import Mathlib.Logic.Function.Basic
import CSharpTidy.Files.Store

/-!
# All files or none

Every call that stages a text or renames a new file can fail. Whichever does, writing gives all files their
new texts or leaves all as they were: no file is replaced before every text is staged, and once one cannot be
replaced, those that were get their previous texts back.
-/

namespace CSharpTidy

/-- What comes of the calls that stage one text: each can fail. -/
structure StagingCalls where
  create : Option FileFault := none
  write : Option FileFault := none
  /-- Looking up the mode of the file that is to be replaced. -/
  lookUp : Option FileFault := none
  setMode : Option FileFault := none
  /-- Waiting until all is on the disk. -/
  flush : Option FileFault := none

/-- The fault with which staging stops. A file that is missing has no mode to take. -/
def StagingCalls.fault? (calls : StagingCalls) : Option FileFault :=
  let mode :=
    match calls.lookUp with
    | some .missing => none
    | some fault => some fault
    | none => calls.setMode
  [calls.create, calls.write, mode, calls.flush].findSome? id

/-- Files by path, and what comes of the next stagings and of the next renames. Those behind go well. -/
structure FaultyDisk where
  files : Path → Option Contents
  stagings : List StagingCalls := []
  renames : List (Option FileFault) := []
  /-- The paths of the files that have been written so far, in order. -/
  written : List Path := []

namespace FaultyDisk

def put (disk : FaultyDisk) (path : Path) (text : Text) : FaultyDisk :=
  { disk with
    files := Function.update disk.files path (some (.text text))
    written := disk.written ++ [path] }

def stage (disk : FaultyDisk) (_ : Path) (text : Text) : Except FileFault StagedFile × FaultyDisk :=
  let rest := { disk with stagings := disk.stagings.tail }
  match disk.stagings.head?.bind StagingCalls.fault? with
  | none => (.ok ⟨text, FileTree.privateMode⟩, rest)
  | some fault => (.error fault, rest)

def replace (disk : FaultyDisk) (staged : StagedFile) (path : Path) :
    Except FileFault Unit × FaultyDisk :=
  let rest := { disk with renames := disk.renames.tail }
  match disk.renames.head?.join with
  | none => (.ok (), rest.put path staged.text)
  | some fault => (.error fault, rest)

/-- Writing into a file that has just been replaced goes well. -/
def restore (disk : FaultyDisk) (path : Path) (text : Text) : Except FileFault Unit × FaultyDisk :=
  (.ok (), disk.put path text)

instance : Disk FaultyDisk := ⟨stage, replace, restore⟩

variable {disk : FaultyDisk} {path : Path} {fault : FileFault} {write : FileChange}
  {writes finished : List FileChange}

/-- The first fault among the next `count` stagings. -/
def stagingFault? (disk : FaultyDisk) (count : Nat) : Option FileFault :=
  (disk.stagings.take count).findSome? StagingCalls.fault?

def renameFault? (disk : FaultyDisk) (count : Nat) : Option FileFault :=
  (disk.renames.take count).findSome? id

theorem findSome?_take_succ {α β : Type} (f : α → Option β) (calls : List α) (count : Nat) :
    (calls.take (count + 1)).findSome? f =
      (calls.head?.bind f).or ((calls.tail.take count).findSome? f) := by
  cases calls with
  | nil => simp
  | cons call calls => cases hcall : f call <;> simp [hcall]

theorem stagingFault?_succ (disk : FaultyDisk) (count : Nat) :
    disk.stagingFault? (count + 1) = (disk.stagings.head?.bind StagingCalls.fault?).or
      ({ disk with stagings := disk.stagings.tail }.stagingFault? count) :=
  findSome?_take_succ ..

theorem renameFault?_succ (disk : FaultyDisk) (count : Nat) :
    disk.renameFault? (count + 1) = disk.renames.head?.join.or
      ({ disk with renames := disk.renames.tail }.renameFault? count) :=
  findSome?_take_succ ..

/-! ## Files that are written -/

/-- Writes one text of each change into its file. -/
def putAll (pick : FileChange → Text) (disk : FaultyDisk) (writes : List FileChange) : FaultyDisk :=
  writes.foldl (fun disk write => disk.put write.path (pick write)) disk

variable {pick : FileChange → Text}

@[simp] theorem putAll_nil : putAll pick disk [] = disk := rfl

@[simp] theorem putAll_cons :
    putAll pick disk (write :: writes) = putAll pick (disk.put write.path (pick write)) writes := rfl

theorem files_putAll_of_ne (h : ∀ write ∈ writes, write.path ≠ path) :
    (putAll pick disk writes).files path = disk.files path := by
  induction writes generalizing disk with
  | nil => rfl
  | cons write writes ih =>
      obtain ⟨hwrite, hwrites⟩ := List.forall_mem_cons.mp h
      rw [putAll_cons, ih hwrites]
      exact Function.update_of_ne hwrite.symm _ _

theorem files_putAll_of_mem (hdistinct : writes.Pairwise fun first second => first.path ≠ second.path)
    (hmem : write ∈ writes) :
    (putAll pick disk writes).files write.path = some (.text (pick write)) := by
  induction writes generalizing disk with
  | nil => cases hmem
  | cons first writes ih =>
      obtain ⟨hfirst, hwrites⟩ := List.pairwise_cons.mp hdistinct
      rcases List.mem_cons.mp hmem with rfl | hmem
      · rw [putAll_cons, files_putAll_of_ne fun other hother => (hfirst other hother).symm]
        exact Function.update_self ..
      · exact ih hwrites hmem

theorem written_putAll (disk : FaultyDisk) (writes : List FileChange) :
    (putAll pick disk writes).written = disk.written ++ writes.map FileChange.path := by
  induction writes generalizing disk with
  | nil => simp
  | cons write writes ih => simp [ih, put]

theorem files_putAll_previous
    (hdistinct : writes.Pairwise fun first second => first.path ≠ second.path)
    (hprevious : ∀ write ∈ writes, disk.files write.path = some (.text write.previous)) :
    (putAll FileChange.previous (putAll FileChange.text disk writes) writes).files = disk.files := by
  funext path
  by_cases hlisted : ∃ write ∈ writes, write.path = path
  · obtain ⟨write, hmem, rfl⟩ := hlisted
    rw [files_putAll_of_mem hdistinct hmem, hprevious write hmem]
  · have hother : ∀ write ∈ writes, write.path ≠ path := fun write hmem heq =>
      hlisted ⟨write, hmem, heq⟩
    rw [files_putAll_of_ne hother, files_putAll_of_ne hother]

/-! ## The two passes -/

def withStaged (write : FileChange) : StagedFile × FileChange :=
  (⟨write.text, FileTree.privateMode⟩, write)

/-- Staging changes no file, and stops with the first fault. -/
theorem stageAll_cases (disk : FaultyDisk) (writes : List FileChange) :
    ∃ stagings,
      (disk.stagingFault? writes.length = none ∧
        Disk.stageAll disk writes = (.ok (writes.map withStaged), { disk with stagings })) ∨
      ∃ fault, disk.stagingFault? writes.length = some fault ∧
        Disk.stageAll disk writes = (.error fault, { disk with stagings }) := by
  induction writes generalizing disk with
  | nil => exact ⟨disk.stagings, .inl ⟨rfl, rfl⟩⟩
  | cons write writes ih =>
      have hstage : Disk.stage disk write.path write.text = stage disk write.path write.text := rfl
      rw [List.length_cons, stagingFault?_succ, Disk.stageAll, hstage, stage]
      cases disk.stagings.head?.bind StagingCalls.fault? with
      | some fault => exact ⟨_, .inr ⟨fault, rfl, rfl⟩⟩
      | none =>
          rw [Option.none_or]
          obtain ⟨stagings, ⟨hnone, hrest⟩ | ⟨fault, hsome, hrest⟩⟩ :=
            ih { disk with stagings := disk.stagings.tail }
          · exact ⟨stagings, .inl ⟨hnone, by simp only [hrest]; rfl⟩⟩
          · exact ⟨stagings, .inr ⟨fault, hsome, by simp only [hrest]⟩⟩

theorem replaceAll_cases (disk : FaultyDisk) (finished writes : List FileChange) :
    ∃ renames,
      (disk.renameFault? writes.length = none ∧
        Disk.replaceAll disk finished (writes.map withStaged) =
          (.ok (), putAll FileChange.text { disk with renames } writes)) ∨
      ∃ fault done, disk.renameFault? writes.length = some fault ∧ done <+: writes ∧
        Disk.replaceAll disk finished (writes.map withStaged) =
          (.error fault, putAll FileChange.previous
            (putAll FileChange.text { disk with renames } done) (finished ++ done)) := by
  induction writes generalizing disk finished with
  | nil => exact ⟨disk.renames, .inl ⟨rfl, rfl⟩⟩
  | cons write writes ih =>
      have hreplace : Disk.replace disk ⟨write.text, FileTree.privateMode⟩ write.path =
          replace disk ⟨write.text, FileTree.privateMode⟩ write.path := rfl
      rw [List.length_cons, renameFault?_succ, List.map_cons, withStaged, Disk.replaceAll, hreplace,
        replace]
      cases disk.renames.head?.join with
      | some fault =>
          refine ⟨disk.renames.tail, .inr ⟨fault, [], Option.some_or, List.nil_prefix, ?_⟩⟩
          rw [List.append_nil]
          rfl
      | none =>
          rw [Option.none_or]
          obtain ⟨renames, ⟨hnone, hrest⟩ | ⟨fault, done, hsome, hdone, hrest⟩⟩ :=
            ih ({ disk with renames := disk.renames.tail }.put write.path write.text)
              (finished ++ [write])
          · exact ⟨renames, .inl ⟨hnone, hrest⟩⟩
          · refine ⟨renames, .inr ⟨fault, write :: done, hsome, List.cons_prefix_cons.mpr ⟨rfl, hdone⟩, ?_⟩⟩
            simp only [hrest, List.append_assoc]
            rfl

/-! ## Writing -/

/-- The first fault among the calls that writing changes makes: all are staged, and then renamed. -/
def writingFault? (disk : FaultyDisk) (writes : List FileChange) : Option FileFault :=
  (disk.stagingFault? writes.length).or (disk.renameFault? writes.length)

/-- Writing gives all files their texts, or gives some of the first ones theirs and then gives them their
previous ones back. -/
theorem writeAll_cases (disk : FaultyDisk) (writes : List FileChange) :
    ∃ stagings renames,
      (disk.writingFault? writes = none ∧ Disk.writeAll disk writes =
        (.ok (), putAll FileChange.text { disk with stagings, renames } writes)) ∨
      ∃ fault done, disk.writingFault? writes = some fault ∧ done <+: writes ∧
        Disk.writeAll disk writes = (.error fault, putAll FileChange.previous
          (putAll FileChange.text { disk with stagings, renames } done) done) := by
  obtain ⟨stagings, ⟨hnone, hstaged⟩ | ⟨fault, hsome, hstaged⟩⟩ := disk.stageAll_cases writes
  · rw [writingFault?, hnone, Option.none_or, Disk.writeAll, hstaged]
    obtain ⟨renames, hreplaced⟩ := replaceAll_cases { disk with stagings } [] writes
    exact ⟨stagings, renames, hreplaced⟩
  · refine ⟨stagings, disk.renames, .inr ⟨fault, [], ?_, List.nil_prefix, ?_⟩⟩
    · rw [writingFault?, hsome, Option.some_or]
    · rw [Disk.writeAll, hstaged]
      rfl

/-- **All files or none.** Whichever of the calls that stage and rename fail, changes to different files that
hold what the changes say are all written, where no call fails, or none is, with the first fault. No file is
ever written that is not among them. -/
theorem writeAll_all_or_nothing (disk : FaultyDisk) (writes : List FileChange)
    (hdistinct : writes.Pairwise fun first second => first.path ≠ second.path)
    (hprevious : ∀ write ∈ writes, disk.files write.path = some (.text write.previous)) :
    ∃ result after, Disk.writeAll disk writes = (result, after) ∧
      ((disk.writingFault? writes = none ∧ result = .ok () ∧
          (∀ write ∈ writes, after.files write.path = some (.text write.text)) ∧
          ∀ path, (∀ write ∈ writes, write.path ≠ path) → after.files path = disk.files path) ∨
        ∃ fault, disk.writingFault? writes = some fault ∧ result = .error fault ∧
          after.files = disk.files) ∧
      ∀ path ∈ after.written, path ∈ disk.written ∨ ∃ write ∈ writes, write.path = path := by
  obtain ⟨stagings, renames, ⟨hnone, hwrite⟩ | ⟨fault, done, hfault, hdone, hwrite⟩⟩ :=
    disk.writeAll_cases writes
  · refine ⟨_, _, hwrite, .inl ⟨hnone, rfl, fun write hmem => files_putAll_of_mem hdistinct hmem,
      fun path hother => files_putAll_of_ne hother⟩, fun path hpath => ?_⟩
    rw [written_putAll, List.mem_append, List.mem_map] at hpath
    exact hpath
  · have hsublist := hdone.sublist
    have hrestored : (putAll FileChange.previous
        (putAll FileChange.text { disk with stagings, renames } done) done).files = disk.files :=
      files_putAll_previous (hdistinct.sublist hsublist) fun write hmem =>
        hprevious write (hsublist.mem hmem)
    refine ⟨_, _, hwrite, .inr ⟨fault, hfault, rfl, hrestored⟩, fun path hpath => ?_⟩
    rw [written_putAll, written_putAll, List.append_assoc, List.mem_append] at hpath
    refine hpath.imp_right fun hpath => ?_
    obtain ⟨write, hmem, rfl⟩ := List.mem_map.mp ((List.mem_append.mp hpath).elim id id)
    exact ⟨write, hsublist.mem hmem, rfl⟩

/-- The third of three files cannot be renamed. The two that were replaced get their texts back. -/
theorem writeAll_all_or_nothing_of_late_fault :
    ∃ (disk : FaultyDisk) (writes : List FileChange) (after : FaultyDisk),
      writes.map FileChange.path = [⟨"A.cs"⟩, ⟨"B.cs"⟩, ⟨"C.cs"⟩] ∧
      (writes.Pairwise fun first second => first.path ≠ second.path) ∧
      (∀ write ∈ writes, disk.files write.path = some (.text write.previous)) ∧
      disk.writingFault? writes = some .denied ∧
      Disk.writeAll disk writes = (.error .denied, after) ∧ after.files = disk.files ∧
      after.written = [⟨"A.cs"⟩, ⟨"B.cs"⟩, ⟨"A.cs"⟩, ⟨"B.cs"⟩] := by
  let writes : List FileChange := [⟨⟨"A.cs"⟩, "a".toList, "new a".toList⟩,
    ⟨⟨"B.cs"⟩, "b".toList, "new b".toList⟩, ⟨⟨"C.cs"⟩, "c".toList, "new c".toList⟩]
  let disk : FaultyDisk :=
    { files := fun path =>
        (writes.find? fun write => write.path = path).map fun write => .text write.previous
      renames := [none, none, some .denied] }
  have hdistinct : writes.Pairwise fun first second => first.path ≠ second.path := by decide
  have hprevious : ∀ write ∈ writes, disk.files write.path = some (.text write.previous) := by
    decide
  obtain ⟨result, after, hwrite, ⟨hnone, -⟩ | ⟨fault, hsome, hresult, hfiles⟩, -⟩ :=
    writeAll_all_or_nothing disk writes hdistinct hprevious
  · cases hnone
  · obtain rfl : FileFault.denied = fault := Option.some.inj hsome
    obtain rfl : (Disk.writeAll disk writes).2 = after := congrArg Prod.snd hwrite
    exact ⟨disk, writes, _, rfl, hdistinct, hprevious, hsome, hresult ▸ hwrite, hfiles, rfl⟩

end FaultyDisk

end CSharpTidy
