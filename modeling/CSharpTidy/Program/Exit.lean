import CSharpTidy.CommandLine.Help
import CSharpTidy.Program.Perform

namespace CSharpTidy

/-- The code with which an invocation ends, and what it leaves behind on its two streams. Its log, which
also goes to the stream for errors, is not part of that. -/
structure Exit where
  code : Nat
  stdout : String := ""
  stderr : String := ""
deriving DecidableEq, Repr

namespace Exit

/-- The code of a check that found something, and of a command line that cannot be read. -/
def refused : Nat := 2

def programName : String := "sharpfmt"

/-- The end of an invocation that its command line ended. How the command line is used is told on
the stream for errors, unless it was asked for. -/
def ofUsage : UsageStop → Exit
  | .version => { code := 0, stdout := programName ++ " " ++ Output.version ++ "\n" }
  | .help => { code := 0, stdout := CommandLine.helpText programName }
  | stop =>
      { code := refused
        stderr :=
          "error: " ++ stop.message ++ "\n\nFor more information, try '" ++ programName ++
            " --help'.\n" }

/-- The end of an invocation that went wrong. Only a flag can ask for a fault as JSON. -/
def ofFault (renderJson : JsonValue → String) (timestamp : String) (line : CommandLine)
    (fault : Fault) : Exit :=
  if line.format = some .json then
    { code := 1, stdout := renderJson (Output.faultEnvelope timestamp fault) ++ "\n" }
  else { code := 1, stderr := "Error: " ++ fault.message ++ "\n" }

def ofAnswer (renderJson : JsonValue → String) (timestamp : String) (colors : Bool)
    (settings : OutputSettings) (answer : Answer) : Exit where
  code := if answer.violations = 0 then 0 else refused
  stdout :=
    match settings.format with
    | .json => renderJson (answer.envelope timestamp) ++ "\n"
    | .human => (answer.layout (colors && settings.color) settings.verboseRules).render ++ "\n"

end Exit

/-- What the program leaves to libraries: reading the command line, which may end the invocation,
looking up configuration files, walking through directories and writing JSON. -/
structure Libraries where
  readLine : Environment → List String → Except Exit CommandLine
  settings : SettingsSource
  walk : Walk
  renderJson : JsonValue → String

def Libraries.standard (account : Option Path := none) : Libraries where
  readLine environment arguments := (CommandLine.read environment arguments).mapError Exit.ofUsage
  settings := .standard account
  walk := FileTree.walk
  renderJson := JsonValue.render 0

def invoke (timestamp : String) (terminal : Bool) (environment : Environment)
    (arguments : List String) (tree : FileTree) (libraries : Libraries := .standard) :
    Exit × FileTree :=
  match libraries.readLine environment arguments with
  | .error exit => (exit, tree)
  | .ok line =>
      match Invocation.resolve tree environment line libraries.settings with
      | .error fault => (.ofFault libraries.renderJson timestamp line fault, tree)
      | .ok invocation =>
          match invocation.perform tree libraries.walk with
          | (.error fault, tree) => (.ofFault libraries.renderJson timestamp line fault, tree)
          | (.ok answer, tree) =>
              (.ofAnswer libraries.renderJson timestamp (environment.allowsColors terminal)
                invocation.settings.output answer, tree)

end CSharpTidy
