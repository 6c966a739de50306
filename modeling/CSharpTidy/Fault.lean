import CSharpTidy.Path

namespace CSharpTidy

/-- The number under which a solution knows a document. -/
structure DocumentId where
  index : Nat
deriving DecidableEq, Repr, Inhabited, Ord

namespace DocumentId

def render (id : DocumentId) : String := "doc#" ++ toString id.index

end DocumentId

/-- Why a file could not be read or written. -/
inductive FileFault where
  | missing
  | denied
  | busy
  | notDirectory
  | isDirectory
  /-- A path or one of its names has too many bytes. -/
  | nameTooLong
  /-- A path holds a null character. -/
  | nullInPath
  | notUtf8
  | other (reason : String)
deriving DecidableEq, Repr

namespace FileFault

def message : FileFault → String
  | missing => "No such file or directory (os error 2)"
  | denied => "Permission denied (os error 13)"
  | busy => "Device or resource busy (os error 16)"
  | notDirectory => "Not a directory (os error 20)"
  | isDirectory => "Is a directory (os error 21)"
  | nameTooLong => "File name too long (os error 36)"
  | nullInPath => "file name contained an unexpected NUL byte"
  | notUtf8 => "stream did not contain valid UTF-8"
  | other reason => reason

end FileFault

/-- Why an operation gave no result. What a rule finds in a document is not a fault. -/
inductive Fault where
  | file (cause : FileFault)
  | config (reason : String)
  | notFound (path : Path)
  | loadFailed (reason : String)
  | treeUnavailable (document : DocumentId) (reason : String)
  | ruleFailed (rule reason : String)
  | invalidSpan (start stop length : Nat)
  | overlappingEdits (firstStop secondStart : Nat)
  | commitRejected (reason : String)
  | invalidState (reason : String)
  | unknownDocument (document : DocumentId)
  | notImplemented (what : String)
  | serialization (reason : String)
deriving DecidableEq, Repr

namespace Fault

def message : Fault → String
  | file cause => "IO error: " ++ cause.message
  | config reason => "Configuration error: " ++ reason
  | notFound path => "Not found: " ++ path.text
  | loadFailed reason => "Load failed: " ++ reason
  | treeUnavailable document reason =>
      "Syntax tree unavailable for " ++ document.render ++ ": " ++ reason
  | ruleFailed rule reason => "Rule '" ++ rule ++ "' failed: " ++ reason
  | invalidSpan start stop length =>
      "Invalid span " ++ toString start ++ ".." ++ toString stop ++ " for text of length " ++
        toString length
  | overlappingEdits firstStop secondStart =>
      "Overlapping edits at " ++ toString firstStop ++ " and " ++ toString secondStart
  | commitRejected reason => "Commit rejected: " ++ reason
  | invalidState reason => "Invalid state transition: " ++ reason
  | unknownDocument document => "Unknown document: " ++ document.render
  | notImplemented what => "Not implemented: " ++ what
  | serialization reason => "Serialization error: " ++ reason

/-- The short name of a fault in machine-readable output. -/
def code : Fault → String
  | file _ => "io"
  | config _ => "config"
  | notFound _ => "not_found"
  | loadFailed _ => "load_failed"
  | treeUnavailable _ _ => "tree_unavailable"
  | ruleFailed _ _ => "rule_failed"
  | invalidSpan _ _ _ => "invalid_edit"
  | overlappingEdits _ _ => "invalid_edit"
  | commitRejected _ => "commit_rejected"
  | invalidState _ => "invalid_state"
  | unknownDocument _ => "unknown_document"
  | notImplemented _ => "not_implemented"
  | serialization _ => "serialization"

/-- Whether a fault ends a whole invocation rather than the work on one document. -/
def isFatal : Fault → Bool
  | treeUnavailable _ _ => false
  | ruleFailed _ _ => false
  | notImplemented _ => false
  | _ => true

end Fault

end CSharpTidy
