import CSharpTidy.Log.Disk
import CSharpTidy.Log.Loading
import CSharpTidy.Log.Run
import CSharpTidy.Log.Settings
import CSharpTidy.Program.Exit

namespace CSharpTidy

namespace Log

/-- What a built-in rule puts into the log when it judges a document. -/
def judging (invocation : Invocation) (document : Document) (rule : Rule) : List Event :=
  if rule.id = DirectiveOrder.ruleId then directiveOrder invocation.settings.policy document
  else spacing document invocation.settings.format

/-- What a built-in rule puts into the log when it fixes a document. -/
def fixing (invocation : Invocation) (document : Document) (rule : Rule) : List Event :=
  if rule.id = DirectiveOrder.ruleId then directiveFix invocation.settings.policy document
  else spacing document invocation.settings.format

/-- What the fixes of several rules put into the log, each for the text that the one before it left. -/
def repair (invocation : Invocation) (state : RuleSet.RepairState) : List Rule → List Event
  | [] => []
  | rule :: rules =>
      let applied : List Event :=
        match RuleSet.fixedText? rule state.document with
        | .ok (some text) =>
            ⟨.debug, .rules, "fix applied",
              [("rule", rule.id), ("document", state.document.id.render)]⟩ ::
                parse state.document.path text
        | _ => []
      fixing invocation state.document rule ++ applied ++
        repair invocation (RuleSet.repairStep CSharp.reader state rule) rules

def fix (invocation : Invocation) (run : Run) : List Event :=
  if invocation.line.fix then
    let ruleSet := invocation.ruleSet
    run.working.documents.flatMap (fun document => repair invocation ⟨document, [], []⟩ ruleSet.fixers) ++
      runFix run ruleSet ++
      match (run.fix ruleSet).1 with
      | .error _ => []
      | .ok edited =>
          [⟨.info, .invocations, "auto-fixes staged",
            [("documents", toString edited.changed.length)]⟩]
  else []

def format (invocation : Invocation) (run : Run) : List Event :=
  if invocation.line.noFormat then []
  else
    let options := invocation.settings.format
    run.working.documents.flatMap (fun document => spacing document options) ++
      runFormat run spacingFormatter options ++
      match (run.format spacingFormatter options).1 with
      | .error _ => []
      | .ok edited =>
          [⟨.info, .invocations, "formatting staged",
            [("documents", toString edited.changed.length),
              ("skipped", toString edited.skipped.length)]⟩]

/-- What making the edits that were asked for puts into the log. -/
def edit (invocation : Invocation) (run : Run) : List Event :=
  let fixed :=
    if invocation.line.fix then
      let (result, run) := run.fix invocation.ruleSet
      result.map fun _ => run
    else .ok run
  match fixed with
  | .error _ => fix invocation run
  | .ok run' => fix invocation run ++ format invocation run'

def process (invocation : Invocation) (base : Solution) (notices : List Notice) (tree : FileTree) :
    List Event :=
  match Run.start base notices with
  | .error _ => runStart notices
  | .ok run =>
      let ruleSet := invocation.ruleSet
      let judgings := base.documents.flatMap fun document =>
        ruleSet.active.flatMap (judging invocation document)
      let begun := runStart notices ++ judgings ++ runAnalyze run ruleSet
      match run.analyze ruleSet with
      | (.error _, _) => begun
      | (.ok _, run) =>
          if invocation.line.check then begun
          else
            match invocation.edit run with
            | .error _ => begun ++ edit invocation run
            | .ok edited =>
                begun ++ edit invocation run ++
                  runCommit edited (⟨base, tree⟩ : Workspace FileTree) (writeAll tree)

def perform (invocation : Invocation) (tree : FileTree) (walk : Walk := FileTree.walk) : List Event :=
  match invocation.line.explain, invocation.line.listRules, invocation.line.target with
  | none, false, some target =>
      match Loading.load CSharp.reader tree target walk with
      | .error _ => load CSharp.reader tree target walk
      | .ok (base, notices) =>
          load CSharp.reader tree target walk ++ process invocation base notices tree
  | _, _, _ => []

/-- Whether an event shows. None does in a quiet invocation, and else a level that the environment
names goes before what the command line asks for. -/
def isShown (environment : Environment) (line : CommandLine) (event : Event) : Bool :=
  let least? :=
    match environment.get? "RUST_LOG" with
    | some name => LogLevel.ofName? name
    | none => some (.ofVerbosity line.verbosity)
  !line.quiet && least?.any fun least => decide (least.rank ≤ event.level.rank)

/-- The log of an invocation, as far as it shows. -/
def invoke (environment : Environment) (arguments : List String) (tree : FileTree)
    (libraries : Libraries := .standard) : List Event :=
  match libraries.readLine environment arguments with
  | .error _ => []
  | .ok line =>
      let loaded := Settings.load tree environment line.config (line.projectRoot tree) libraries.settings
      let events :=
        match Invocation.resolve tree environment line libraries.settings with
        | .error _ => settings loaded
        | .ok invocation => settings loaded ++ perform invocation tree libraries.walk
      events.filter (isShown environment line)

end Log

end CSharpTidy
