import CSharpTidy.Text.Position

namespace CSharpTidy

inductive Category where
  | formatting
  | ordering
deriving DecidableEq, Repr

namespace Category

def render : Category → String
  | formatting => "formatting"
  | ordering => "ordering"

end Category

inductive Severity where
  | info
  | warning
  | error
deriving DecidableEq, Repr

namespace Severity

def render : Severity → String
  | info => "info"
  | warning => "warning"
  | error => "error"

def ofName? : String → Option Severity
  | "info" => some info
  | "warning" => some warning
  | "error" => some error
  | _ => none

end Severity

structure Finding where
  rule : String
  severity : Severity
  message : String
  span : Span
  document : DocumentId
  category : Category
deriving DecidableEq, Repr

namespace Finding

def render (finding : Finding) : String :=
  "[" ++ finding.severity.render ++ "] " ++ finding.rule ++ ": " ++ finding.message ++
    " at " ++ finding.document.render ++ " " ++ finding.span.render

end Finding

end CSharpTidy
