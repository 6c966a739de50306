import CSharpTidy.Files.Disk
import CSharpTidy.Log.Event

namespace CSharpTidy

namespace Log

variable {σ : Type} [Disk σ]

/-- What giving files their previous texts back puts into the log. -/
def restoreAll (disk : σ) : List FileChange → List Event
  | [] => []
  | write :: writes =>
      match Disk.restore disk write.path write.previous with
      | (.error fault, disk) =>
          ⟨.warn, .storing, "rollback failed: " ++ fault.message, [("path", write.path.text)]⟩ ::
            restoreAll disk writes
      | (.ok _, disk) => restoreAll disk writes

def replaceAll (disk : σ) (finished : List FileChange) :
    List (StagedFile × FileChange) → List Event
  | [] => []
  | (staged, write) :: rest =>
      match Disk.replace disk staged write.path with
      | (.error _, disk) =>
          ⟨.warn, .storing,
            "rename failed, rolling back " ++ toString finished.length ++ " file(s)",
            [("path", write.path.text)]⟩ :: restoreAll disk finished
      | (.ok _, disk) =>
          ⟨.debug, .storing, "persisted", [("path", write.path.text)]⟩ ::
            replaceAll disk (finished ++ [write]) rest

def writeAll (disk : σ) (writes : List FileChange) : List Event :=
  match Disk.stageAll disk writes with
  | (.error _, _) => []
  | (.ok staged, disk) => replaceAll disk [] staged

end Log

end CSharpTidy
