import CSharpTidy.Workspace.Store

namespace CSharpTidy

structure StagedFile where
  text : Text
  mode : Nat
deriving DecidableEq, Repr

/-- What storing texts asks of a file system. -/
class Disk (σ : Type) where
  /-- Writes a text into a new file beside the one that it is to replace, whose mode it takes. -/
  stage : σ → Path → Text → Except FileFault StagedFile × σ
  /-- Gives a new file its name. The file that had it before is gone. -/
  replace : σ → StagedFile → Path → Except FileFault Unit × σ
  /-- Writes a text into a file that is there. -/
  restore : σ → Path → Text → Except FileFault Unit × σ

namespace Disk

variable {σ : Type} [Disk σ]

/-- Stages all writes, up to the first that fails. -/
def stageAll (disk : σ) : List FileChange → Except FileFault (List (StagedFile × FileChange)) × σ
  | [] => (.ok [], disk)
  | write :: writes =>
      match stage disk write.path write.text with
      | (.error fault, disk) => (.error fault, disk)
      | (.ok staged, disk) =>
          match stageAll disk writes with
          | (.error fault, disk) => (.error fault, disk)
          | (.ok rest, disk) => (.ok ((staged, write) :: rest), disk)

/-- Gives files their previous texts back, as far as they can be written. -/
def restoreAll (disk : σ) (writes : List FileChange) : σ :=
  writes.foldl (fun disk write => (restore disk write.path write.previous).2) disk

/-- Replaces files one after another. Once one cannot be replaced, those that were get their
previous texts back. -/
def replaceAll (disk : σ) (finished : List FileChange) :
    List (StagedFile × FileChange) → Except FileFault Unit × σ
  | [] => (.ok (), disk)
  | (staged, write) :: rest =>
      match replace disk staged write.path with
      | (.error fault, disk) => (.error fault, restoreAll disk finished)
      | (.ok _, disk) => replaceAll disk (finished ++ [write]) rest

/-- Writes all files or none: no file is replaced before every text is staged. -/
def writeAll (disk : σ) (writes : List FileChange) : Except FileFault Unit × σ :=
  match stageAll disk writes with
  | (.error fault, disk) => (.error fault, disk)
  | (.ok staged, disk) => replaceAll disk [] staged

end Disk

end CSharpTidy
