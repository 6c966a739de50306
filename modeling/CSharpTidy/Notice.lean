import CSharpTidy.Path

namespace CSharpTidy

/-- How grave a notice is. A failure ends an invocation before any rule runs. -/
inductive NoticeSeverity where
  | failure
  | warning
deriving DecidableEq, Repr

/-- Something worth saying about a file while it is loaded or read. -/
structure Notice where
  severity : NoticeSeverity
  message : String
  path : Option Path
deriving DecidableEq, Repr

namespace NoticeSeverity

def render : NoticeSeverity → String
  | failure => "failure"
  | warning => "warning"

end NoticeSeverity

namespace Notice

def failure (path : Path) (message : String) : Notice := ⟨.failure, message, some path⟩

def warning (path : Path) (message : String) : Notice := ⟨.warning, message, some path⟩

def isFailure (notice : Notice) : Bool := notice.severity == .failure

def render (notice : Notice) : String :=
  let severity := "[" ++ notice.severity.render ++ "] "
  match notice.path with
  | some path => severity ++ path.text ++ ": " ++ notice.message
  | none => severity ++ notice.message

end Notice

end CSharpTidy
