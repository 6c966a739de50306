import CSharpTidy.CommandLine.Read
import CSharpTidy.Settings.Load
import CSharpTidy.Rule.RuleSet

namespace CSharpTidy

namespace FileTree

def currentPath (tree : FileTree) : Path := Path.ofSegments ([] :: tree.current)

end FileTree

namespace CommandLine

/-- The settings that flags make, which come after all others. -/
def layer (line : CommandLine) : SettingsLayer where
  order := { externalFirst := if line.externalFirst then some true else none }
  rules := { strict := if line.strict then some true else none }
  output := { format := line.format }

/-- The directory of the target, or else the current one. -/
def projectRoot (tree : FileTree) (line : CommandLine) : Path :=
  match line.target.bind Path.parent? with
  | some ⟨""⟩ => tree.currentPath
  | some parent => parent
  | none => tree.currentPath

end CommandLine

structure Invocation where
  line : CommandLine
  projectRoot : Path
  settings : Settings
deriving DecidableEq, Repr

namespace Invocation

def resolve (tree : FileTree) (environment : Environment) (line : CommandLine)
    (source : SettingsSource := .standard) : Except Fault Invocation :=
  let projectRoot := line.projectRoot tree
  match Settings.load tree environment line.config projectRoot source with
  | .error fault => .error fault
  | .ok settings => .ok ⟨line, projectRoot, settings.merge line.layer⟩

def format (invocation : Invocation) : OutputFormat := invocation.settings.output.format

/-- The rule set with every built-in rule. Without formatting there is no format check either. -/
def ruleSet (invocation : Invocation) : RuleSet where
  rules := RuleSet.builtIn invocation.settings.policy invocation.settings.format
  settings :=
    if invocation.line.noFormat then invocation.settings.rules.disable FormatCheck.ruleId
    else invocation.settings.rules

end Invocation

end CSharpTidy
