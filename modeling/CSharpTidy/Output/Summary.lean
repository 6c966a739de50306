import CSharpTidy.Rule.Card
import CSharpTidy.Output.JsonValue
import CSharpTidy.Output.Layout
import CSharpTidy.Workspace.Basic

namespace CSharpTidy

/-- A finding with the path of its file and its place there. -/
structure PlacedFinding where
  path : String
  finding : Finding
  /-- Unknown for a document that is not in the solution. -/
  location : Option LineRange
deriving DecidableEq, Repr

/-- What there is to tell about a whole run. -/
structure Summary where
  target : String
  documents : Nat
  findings : List PlacedFinding
  failures : List FailedRule
  errors : Nat
  warnings : Nat
  commit : Option Commit
deriving DecidableEq, Repr

namespace PlacedFinding

def locate (solution : Solution) (finding : Finding) : PlacedFinding :=
  match solution.document? finding.document with
  | some document =>
      ⟨document.path.text, finding, some (document.lineTable.lineRange finding.span)⟩
  | none => ⟨finding.document.render, finding, none⟩

end PlacedFinding

namespace Summary

def ofReport (target : Path) (solution : Solution) (report : Report)
    (commit : Option Commit) : Summary where
  target := target.text
  documents := solution.documents.length
  findings := report.findings.map (PlacedFinding.locate solution)
  failures := report.failures
  errors := report.errorCount
  warnings := report.warningCount
  commit

end Summary

namespace Output

def spanJson (span : Span) : JsonValue :=
  .object [("start", .number span.start), ("end", .number span.stop)]

def positionJson (position : Position) : JsonValue :=
  .object [("line", .number position.line), ("column", .number position.column)]

def lineRangeJson (span : LineRange) : JsonValue :=
  .object [("start", positionJson span.start), ("end", positionJson span.stop)]

def placedJson (placed : PlacedFinding) : JsonValue :=
  let finding := placed.finding
  .object [("path", .string placed.path), ("rule_id", .string finding.rule),
    ("severity", .string finding.severity.render),
    ("category", .string finding.category.render), ("message", .string finding.message),
    ("span", spanJson finding.span), ("location", .ofOption lineRangeJson placed.location)]

def failureJson (failure : FailedRule) : JsonValue :=
  .object [("rule_id", .string failure.rule), ("document", .number failure.document.index),
    ("message", .string failure.message)]

def commitJson (report : Commit) : JsonValue :=
  .object [("version", .number report.version),
    ("changed", .ofList (fun id : DocumentId => .number id.index) report.changed)]

def summaryJson (summary : Summary) : JsonValue :=
  .object [("target", .string summary.target), ("documents", .number summary.documents),
    ("diagnostics", .ofList placedJson summary.findings),
    ("failures", .ofList failureJson summary.failures), ("errors", .number summary.errors),
    ("warnings", .number summary.warnings), ("commit", .ofOption commitJson summary.commit)]

def cardJson (info : RuleCard) : JsonValue :=
  .object [("id", .string info.id), ("title", .string info.title),
    ("message", .string info.message),
    ("description", .string info.description), ("category", .string info.category.render),
    ("default_severity", .string info.defaultSeverity.render),
    ("severity", .string info.severity.render), ("can_fix", .bool info.canFix),
    ("disabled", .bool info.disabled)]

inductive Status where
  | ok
  | violations (count : Nat)
  | error (code message : String)
deriving DecidableEq, Repr

def statusJson : Status → JsonValue
  | .ok => .string "ok"
  | .violations count => .object [("violations", .object [("count", .number count)])]
  | .error code message =>
      .object [("error", .object [("code", .string code), ("message", .string message)])]

/-- The version of the program that speaks. -/
def version : String := "0.1.0"

/-- The one JSON document that an invocation prints. Where there are no warnings, nothing is said
of them. -/
def envelope (timestamp : String) (status : Status) (data : JsonValue) (warnings : List String) :
    JsonValue :=
  let fields := [("status", statusJson status), ("timestamp", .string timestamp),
    ("version", .string version), ("data", data)]
  .object (if warnings.isEmpty then fields else fields ++ [("warnings", .ofList .string warnings)])

def faultEnvelope (timestamp : String) (fault : Fault) : JsonValue :=
  envelope timestamp (.error fault.code fault.message) .null []

def severityStyles : Severity → List TextStyle
  | .error => [.red, .bold]
  | .warning => [.yellow]
  | .info => [.blue]

def layoutFinding (rules : List RuleCard) (verbose : Bool) (layout : Layout)
    (placed : PlacedFinding) : Layout :=
  let paint := TextStyle.paint layout.colors
  let finding := placed.finding
  let place :=
    match placed.location with
    | some span => toString span.start.line ++ ":" ++ toString span.start.column
    | none => ""
  let layout := layout.line ("  " ++
    paint (severityStyles finding.severity) finding.severity.render ++ " " ++
    paint [.dim] finding.rule ++ " " ++ finding.message ++ " " ++ paint [.dim] place)
  match if verbose then rules.find? fun rule => rule.id == finding.rule else none with
  | some rule => layout.line ("    " ++ paint [.cyan] "rule:" ++ " " ++ rule.description)
  | none => layout

/-- The lines of findings, with a heading wherever the file changes. -/
def layoutFindings (rules : List RuleCard) (verbose : Bool) (layout : Layout)
    (current : Option String) : List PlacedFinding → Layout
  | [] => if current.isSome then layout.blank else layout
  | placed :: rest =>
      let paint := TextStyle.paint layout.colors
      let headed :=
        if current = some placed.path then layout
        else
          (if current.isSome then layout.blank else layout).line
            (paint [.red] "✗" ++ " " ++ paint [.bold] placed.path)
      layoutFindings rules verbose (layoutFinding rules verbose headed placed)
        (some placed.path) rest

/-- The summary of a run, file by file. -/
def layoutSummary (colors : Bool) (summary : Summary) (rules : List RuleCard)
    (verbose : Bool) : Layout :=
  let layout := layoutFindings rules verbose ⟨colors, []⟩ none summary.findings
  let layout := summary.failures.foldl (fun layout failure =>
    layout.line (TextStyle.paint colors [.yellow] "!" ++ " " ++ failure.rule ++ " on " ++
      failure.document.render ++ ": " ++ failure.message)) layout
  let layout := (((layout.heading "Summary").entry "Target" summary.target).entry "Documents"
    (toString summary.documents)).entry "Errors" (toString summary.errors)
  let layout := layout.entry "Warnings" (toString summary.warnings)
  let layout :=
    if summary.failures.isEmpty then layout
    else layout.entry "Failures" (toString summary.failures.length)
  match summary.commit with
  | some commit =>
      (layout.entry "Changed" (toString commit.changed.length)).entry "Version"
        (toString commit.version)
  | none => layout

def layoutRule (colors : Bool) (rule : RuleCard) : Layout :=
  let layout := ((⟨colors, []⟩ : Layout).title ("Rule: " ++ rule.id)).entry "Title" rule.title
  let layout := (layout.entry "Message" rule.message).entry "Category" rule.category.render
  let layout := (layout.entry "Severity" rule.severity.render).entry "Auto-fix"
    (if rule.canFix then "yes" else "no")
  let layout := if rule.disabled then layout.entry "Status" "disabled" else layout
  (layout.blank.heading "Description").line rule.description

def layoutRules (colors : Bool) (rules : List RuleCard) : Layout :=
  rules.foldl (fun layout rule =>
    layout.bullet (rule.id ++ " - " ++ rule.title ++ " (" ++ rule.category.render ++ ", " ++
      rule.severity.render ++ ")" ++ (if rule.canFix then " [fixable]" else "") ++
      (if rule.disabled then " (disabled)" else "")))
    ((⟨colors, []⟩ : Layout).title "Available rules")

end Output

end CSharpTidy
