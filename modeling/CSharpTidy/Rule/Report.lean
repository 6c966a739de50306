import CSharpTidy.Rule.Basic

namespace CSharpTidy

/-- A rule that gave no result for some document. -/
structure FailedRule where
  rule : String
  document : DocumentId
  message : String
deriving DecidableEq, Repr

namespace FailedRule

def ofFault (rule : String) (document : DocumentId) (fault : Fault) : FailedRule :=
  ⟨rule, document, fault.message⟩

end FailedRule

/-- What a run of rules over documents gave, by document and then by rule. -/
structure Report where
  findings : List Finding := []
  failures : List FailedRule := []
  /-- Whether something was left out because the run was cancelled. -/
  cancelled : Bool := false
deriving DecidableEq, Repr

namespace Report

def count (report : Report) (severity : Severity) : Nat :=
  (report.findings.filter fun finding => finding.severity == severity).length

def errorCount (report : Report) : Nat := report.count .error

def warningCount (report : Report) : Nat := report.count .warning

def infoCount (report : Report) : Nat := report.count .info

def totalCount (report : Report) : Nat := report.findings.length

/-- Nothing grave was found. -/
def passed (report : Report) : Bool := report.errorCount == 0

def inCategory (report : Report) (category : Category) : List Finding :=
  report.findings.filter fun finding => finding.category == category

def forDocument (report : Report) (document : DocumentId) : List Finding :=
  report.findings.filter fun finding => finding.document == document

end Report

end CSharpTidy
