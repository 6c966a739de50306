import CSharpTidy.CommandLine.Basic

namespace CSharpTidy

namespace OptionName

/-- The options in the order in which the help tells of them. -/
def all : List OptionName :=
  [slot .config, flag .check, flag .fix, flag .noFormat, flag .externalFirst, flag .strict,
    slot .format, flag .listRules, slot .explain, verbose, flag .quiet, help, version]

/-- How an option is written. -/
def usage : OptionName → String
  | slot .target => "[PROJECT_OR_SOLUTION]"
  | slot .config => "    --config <PATH>"
  | slot .format => "    --format <FORMAT>"
  | slot .explain => "    --explain <RULE>"
  | flag .check => "    --check"
  | flag .fix => "    --fix"
  | flag .noFormat => "    --no-format"
  | flag .externalFirst => "    --external-first"
  | flag .strict => "    --strict"
  | flag .listRules => "    --list-rules"
  | flag .quiet => "-q, --quiet"
  | verbose => "-v, --verbose..."
  | help => "-h, --help"
  | version => "-V, --version"

def purpose : OptionName → String
  | slot .target => "Project (.csproj) or solution (.sln) to process"
  | slot .config => "Configuration file (replaces the global and project files)"
  | slot .format => "Output format [possible values: human, json]"
  | slot .explain => "Show documentation for a rule"
  | flag .check => "Report only; exit with status 2 if anything is found"
  | flag .fix => "Apply auto-fixes (including directive sorting) before committing"
  | flag .noFormat => "Skip the formatter and the format-check rule"
  | flag .externalFirst => "Sort System directives ahead of everything else"
  | flag .strict => "Treat warnings as errors"
  | flag .listRules => "List all available rules"
  | flag .quiet => "Suppress logging"
  | verbose => "Increase log verbosity (-v, -vv, -vvv)"
  | help => "Print help"
  | version => "Print version"

def column : Nat := 23

def helpLine (name : OptionName) : String :=
  let gap := String.ofList (List.replicate (column - name.usage.length) ' ')
  "  " ++ name.usage ++ gap ++ name.purpose ++ "\n"

end OptionName

namespace CommandLine

/-- What the program tells of its command line. -/
def helpText (program : String) : String :=
  "Check and format C# projects\n\nUsage: " ++ program ++ " [OPTIONS] [PROJECT_OR_SOLUTION]\n" ++
    "\nArguments:\n" ++ (OptionName.slot .target).helpLine ++
    "\nOptions:\n" ++ String.join (OptionName.all.map OptionName.helpLine)

end CommandLine

/-- What is wrong with a command line. -/
def UsageStop.message : UsageStop → String
  | help => "help was asked for"
  | version => "the version was asked for"
  | unknownArgument => "unexpected argument found"
  | conflict => "an argument cannot be used with another, or cannot be used multiple times"
  | invalidValue => "a value is missing or invalid"
  | surplusValue => "a value was given to an option that takes none"
  | missingTarget => "the following required arguments were not provided: <PROJECT_OR_SOLUTION>"

end CSharpTidy
