import CSharpTidy.Files.Store
import CSharpTidy.Loading.Load
import CSharpTidy.Output.Summary
import CSharpTidy.Program.Invocation
import CSharpTidy.Run

namespace CSharpTidy

/-- What an invocation has to tell. -/
inductive Answer where
  | rule (rule : RuleCard)
  | rules (rules : List RuleCard)
  | summary (summary : Summary) (rules : List RuleCard) (warnings : List String)
      (violations : Nat)

namespace Answer

/-- The findings for which a check fails. -/
def violations : Answer → Nat
  | .summary _ _ _ count => count
  | _ => 0

def status (answer : Answer) : Output.Status :=
  if answer.violations = 0 then .ok else .violations answer.violations

def envelope (timestamp : String) (answer : Answer) : JsonValue :=
  match answer with
  | .rule info => Output.envelope timestamp answer.status (Output.cardJson info) []
  | .rules infos =>
      Output.envelope timestamp answer.status (.ofList Output.cardJson infos) []
  | .summary found _ warnings _ =>
      Output.envelope timestamp answer.status (Output.summaryJson found) warnings

def layout (colors verboseRules : Bool) : Answer → Layout
  | .rule info => Output.layoutRule colors info
  | .rules infos => Output.layoutRules colors infos
  | .summary found infos _ _ => Output.layoutSummary colors found infos verboseRules

end Answer

namespace Invocation

/-- Makes the edits that were asked for to the working snapshot. -/
def edit (invocation : Invocation) (run : Run) : Except Fault Run := do
  let run ←
    if invocation.line.fix then
      let (result, run) := run.fix invocation.ruleSet
      result.map fun _ => run
    else .ok run
  if invocation.line.noFormat then .ok run
  else
    let (result, run) := run.format spacingFormatter invocation.settings.format
    result.map fun _ => run

/-- The answer after a run over a solution as it was loaded. -/
def summarize (invocation : Invocation) (target : Path) (base : Solution) (notices : List Notice)
    (report : Report) (commit : Option Commit) : Answer :=
  .summary (.ofReport target base report commit) invocation.ruleSet.cards
    (notices.map Notice.render) (if invocation.line.check then report.totalCount else 0)

/-- Analyses a loaded solution, and unless it is only to be checked, edits and commits it. -/
def process {σ : Type} [Store σ] (invocation : Invocation) (target : Path) (base : Solution)
    (notices : List Notice) (store : σ) : Except Fault Answer × σ :=
  let analyzed := do
    let run ← Run.start base notices
    let (result, run) := run.analyze invocation.ruleSet
    result.map fun report => (report, run)
  match analyzed with
  | .error fault => (.error fault, store)
  | .ok (report, run) =>
      -- what is told was found in the documents as they were loaded
      let answer := invocation.summarize target base notices report
      if invocation.line.check then (.ok (answer none), store)
      else
        match invocation.edit run with
        | .error fault => (.error fault, store)
        | .ok edited =>
            let (result, _, workspace) := edited.commit ⟨base, store⟩
            (result.map fun commit => answer (some commit), workspace.store)

def perform (invocation : Invocation) (tree : FileTree) (walk : Walk := FileTree.walk) :
    Except Fault Answer × FileTree :=
  match invocation.line.explain with
  | some id =>
      match invocation.ruleSet.card? id with
      | some info => (.ok (.rule info), tree)
      | none => (.error (.config ("unknown rule '" ++ id ++ "'")), tree)
  | none =>
      if invocation.line.listRules then (.ok (.rules invocation.ruleSet.cards), tree)
      else
        match invocation.line.target with
        | none => (.error (.config "no project or solution given"), tree)
        | some target =>
            match Loading.load CSharp.reader tree target walk with
            | .error fault => (.error fault, tree)
            | .ok (base, notices) => invocation.process target base notices tree

end Invocation

end CSharpTidy
