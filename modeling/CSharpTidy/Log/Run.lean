import CSharpTidy.Log.Document
import CSharpTidy.Run

namespace CSharpTidy

namespace Log

/-- What reading a list of files puts into the log. -/
def parseAll (files : List (Path × Text)) : List Event :=
  files.flatMap fun (path, text) => parse path text

def judged (ruleSet : RuleSet) (cancelled : Bool) (documents : List Document) : List Event :=
  let report := ruleSet.runUnless cancelled documents
  let failures := report.failures.map fun failure =>
    (⟨.warn, .rules, "rule evaluation failed",
      [("rule", failure.rule), ("document", failure.document.render),
        ("error", failure.message)]⟩ : Event)
  failures ++
    [⟨.info, .rules, "lint run finished",
      [("documents", toString documents.length), ("rules", toString ruleSet.active.length),
        ("diagnostics", toString report.findings.length),
        ("failures", toString report.failures.length), ("cancelled", toString report.cancelled)]⟩]

def fixes (outcome : Repairs) : List Event :=
  outcome.failures.map fun failure =>
    ⟨.warn, .rules, "auto-fix failed",
      [("rule", failure.rule), ("document", failure.document.render), ("error", failure.message)]⟩

def formatted (outcome : FormatResult) : List Event :=
  outcome.failures.map fun (document, fault) =>
    ⟨.debug, .formatting, "format skipped",
      [("document", document.render), ("error", fault.message)]⟩

def withText (base : Solution) (id : DocumentId) (text : Text) : List Event :=
  match base.document? id with
  | none => []
  | some document => parse document.path text

/-- The changes before the first one to an unknown document. -/
def knownChanges (base : Solution) (changes : Changes) : List (DocumentId × Text) :=
  (changes.effective base).entries.takeWhile fun change => (base.document? change.1).isSome

def stage (base : Solution) (changes : Changes) : List Event :=
  let parsed := (knownChanges base changes).flatMap fun (id, text) => withText base id text
  match CSharpTidy.stage base changes with
  | .error _ => parsed
  | .ok staged =>
      parsed ++ [⟨.debug, .staging, "staged change set",
        [("documents", toString staged.changed.length), ("base", toString base.version)]⟩]

/-- What proposing a snapshot puts into the log, with what the store adds where it is written to. -/
def tryApply {σ : Type} [Store σ] (workspace : Workspace σ) (proposed : Solution)
    (storing : List FileChange → List Event := fun _ => []) : List Event :=
  let files := Workspace.fileChanges workspace.live proposed
  match workspace.accept proposed with
  | (.error _, _) => storing files
  | (.ok false, _) =>
      [⟨.warn, .workspace, "rejecting change set built against a stale snapshot",
        [("base", toString proposed.version), ("live", toString workspace.live.version)]⟩]
  | (.ok true, next) =>
      storing files ++ [⟨.info, .workspace, "committed change set",
        [("version", toString next.live.version), ("files", toString files.length)]⟩]

def commit {σ : Type} [Store σ] (workspace : Workspace σ) (staged : Staging)
    (storing : List FileChange → List Event := fun _ => []) : List Event :=
  if staged.changed.isEmpty then
    [⟨.debug, .staging, "nothing to commit", []⟩]
  else
    let proposed := tryApply workspace staged.solution storing
    match workspace.commit staged with
    | (.error _, _) => proposed
    | (.ok report, _) =>
        proposed ++ [⟨.info, .staging, "change set applied",
          [("version", toString report.version),
            ("documents", toString report.changed.length)]⟩]

def apply {σ : Type} [Store σ] (workspace : Workspace σ) (base : Solution) (changes : Changes)
    (storing : List FileChange → List Event := fun _ => []) : List Event :=
  stage base changes ++
    match CSharpTidy.stage base changes with
    | .error _ => []
    | .ok staged => commit workspace staged storing

/-- What beginning a run puts into the log: the notices, unless one of them is a failure. -/
def runStart (notices : List Notice) : List Event :=
  if notices.any Notice.isFailure then []
  else
    notices.map fun notice =>
      ⟨.warn, .runs, "load warning", [("diagnostic", notice.render)]⟩

def runAnalyze (run : Run) (ruleSet : RuleSet) : List Event :=
  if run.state = .loaded then judged ruleSet false run.working.documents else []

def runEdit (run : Run) (changes : Changes) : List Event :=
  (knownChanges run.working changes).flatMap fun (id, text) =>
    let notices :=
      match run.working.setText id text with
      | .error _ => []
      | .ok (_, notices) => notices
    withText run.working id text ++ notices.map fun notice =>
      (⟨.warn, .runs, "edited text parses with problems",
        [("document", id.render), ("diagnostic", notice.render)]⟩ : Event)

def runFormat (run : Run) (formatter : Formatter) (options : FormatSettings) : List Event :=
  if run.isOpen then
    let outcome := formatAll formatter run.working options
    formatted outcome ++ runEdit run outcome.changes
  else []

def runFix (run : Run) (ruleSet : RuleSet) : List Event :=
  if run.isOpen then
    let outcome := ruleSet.repairAll run.working.reader run.working.documents
    fixes outcome ++ runEdit run outcome.changes
  else []

def runCommit {σ : Type} [Store σ] (run : Run) (workspace : Workspace σ)
    (storing : List FileChange → List Event := fun _ => []) : List Event :=
  if run.isOpen then
    apply workspace run.base run.pendingTexts storing ++
      match (run.commit workspace).1 with
      | .ok report =>
          [⟨.info, .runs, "run committed",
            [("version", toString report.version),
              ("documents", toString report.changed.length)]⟩]
      | .error fault =>
          [⟨.warn, .runs, "run rejected", [("error", fault.message)]⟩]
  else []

end Log

end CSharpTidy
