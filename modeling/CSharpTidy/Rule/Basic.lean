import CSharpTidy.Format.Basic
import CSharpTidy.Rule.Finding

namespace CSharpTidy

/-- A rule: what it says of itself, how it judges a document, and the edits it would make. -/
structure Rule where
  id : String
  title : String
  message : String
  description : String
  category : Category
  severity : Severity
  canFix : Bool
  evaluate : Document → Except Fault (List Finding)
  fix : Document → Except Fault (List Edit)

namespace Rule

def noFix (id : String) : Fault :=
  .notImplemented ("auto-fix not implemented for rule '" ++ id ++ "'")

end Rule

end CSharpTidy
