import CSharpTidy.Format.Solution
import CSharpTidy.Rule.Repair
import CSharpTidy.Workspace.Basic

namespace CSharpTidy

inductive Phase where
  | loaded
  | analyzed
  | edited
  | committed
  | rejected
deriving DecidableEq, Repr

namespace Phase

def render : Phase → String
  | loaded => "loaded"
  | analyzed => "analyzed"
  | edited => "edited"
  | committed => "committed"
  | rejected => "rejected"

end Phase

/-- Which documents an editing step changed, and what it could not do. -/
structure EditResult where
  changed : List DocumentId
  skipped : List FailedRule
deriving DecidableEq, Repr

/-- One pass over a workspace: analysis, edits on a snapshot of its own, one commit. -/
structure Run where
  base : Solution
  working : Solution
  state : Phase
  report : Option Report

namespace Run

/-- Begins on a snapshot, unless loading it failed. -/
def start (live : Solution) (notices : List Notice) : Except Fault Run :=
  match notices.filter Notice.isFailure with
  | [] => .ok ⟨live, live, .loaded, none⟩
  | failures => .error (.loadFailed ("; ".intercalate (failures.map Notice.render)))

/-- The fault of a step that the state of a run does not allow. -/
def stateFault (run : Run) (action : String) : Fault :=
  .invalidState ("cannot " ++ action ++ " a run that is " ++ run.state.render)

def isOpen (run : Run) : Bool := run.state == .analyzed || run.state == .edited

/-- Judges the documents as they were loaded. -/
def analyze (run : Run) (ruleSet : RuleSet) : Except Fault Report × Run :=
  if run.state = .loaded then
    match ruleSet.check run.working.documents with
    | .error fault => (.error fault, run)
    | .ok report => (.ok report, { run with state := .analyzed, report := some report })
  else (.error (run.stateFault "analyze"), run)

/-- Puts texts into the working snapshot one after another, up to the first that it refuses. -/
def editEach (run : Run) : List (DocumentId × Text) → Except Fault (List DocumentId) × Run
  | [] => (.ok [], run)
  | (id, text) :: rest =>
      match run.working.setText id text with
      | .error fault => (.error fault, run)
      | .ok (working, _) =>
          let (result, next) := editEach { run with working } rest
          (result.map (id :: ·), next)

/-- Makes the changes that change something to the working snapshot. -/
def edit (run : Run) (changes : Changes) : Except Fault (List DocumentId) × Run :=
  match run.editEach (changes.effective run.working).entries with
  | (.error fault, next) => (.error fault, next)
  | (.ok changed, next) => (.ok changed, { next with state := .edited })

def format (run : Run) (formatter : Formatter) (options : FormatSettings) :
    Except Fault EditResult × Run :=
  if run.isOpen then
    let outcome := formatAll formatter run.working options
    let skipped := outcome.failures.map fun (document, fault) =>
      FailedRule.ofFault "format" document fault
    let (result, next) := run.edit outcome.changes
    (result.map (⟨·, skipped⟩), next)
  else (.error (run.stateFault "format"), run)

def fix (run : Run) (ruleSet : RuleSet) : Except Fault EditResult × Run :=
  if run.isOpen then
    let outcome := ruleSet.repairAll run.working.reader run.working.documents
    let (result, next) := run.edit outcome.changes
    (result.map (⟨·, outcome.failures⟩), next)
  else (.error (run.stateFault "fix"), run)

/-- The texts that differ from those the run began with. -/
def pendingTexts (run : Run) : Changes :=
  .ofList ((run.working.changedFrom run.base).filterMap fun id =>
    (run.working.text? id).map fun text => (id, text))

/-- Commits the pending changes and ends the run, one way or the other. -/
def commit {σ : Type} [Store σ] (run : Run) (workspace : Workspace σ) :
    Except Fault Commit × Run × Workspace σ :=
  if run.isOpen then
    match workspace.apply run.base run.pendingTexts with
    | (.ok report, next) => (.ok report, { run with state := .committed }, next)
    -- a commit that is refused ends the run as well
    | (.error fault, next) => (.error fault, { run with state := .rejected }, next)
  else (.error (run.stateFault "commit"), run, workspace)

end Run

end CSharpTidy
