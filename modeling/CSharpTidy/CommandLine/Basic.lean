import CSharpTidy.Settings.Basic
import CSharpTidy.Path

namespace CSharpTidy

/-- What a command line asks for. -/
structure CommandLine where
  target : Option Path := none
  config : Option Path := none
  check : Bool := false
  fix : Bool := false
  noFormat : Bool := false
  externalFirst : Bool := false
  strict : Bool := false
  format : Option OutputFormat := none
  listRules : Bool := false
  explain : Option String := none
  verbosity : Nat := 0
  quiet : Bool := false
deriving DecidableEq, Repr

/-- Why an invocation ends with its command line. -/
inductive UsageStop where
  | help
  | version
  | unknownArgument
  | conflict
  | invalidValue
  | surplusValue
  | missingTarget
deriving DecidableEq, Repr

inductive Flag where
  | check
  | fix
  | noFormat
  | externalFirst
  | strict
  | listRules
  | quiet
deriving DecidableEq, Repr

inductive Slot where
  | target
  | config
  | format
  | explain
deriving DecidableEq, Repr

inductive OptionName where
  | flag (flag : Flag)
  | slot (slot : Slot)
  | verbose
  | help
  | version
deriving DecidableEq, Repr

namespace OptionName

def ofLong? : String → Option OptionName
  | "config" => some (slot .config)
  | "check" => some (flag .check)
  | "fix" => some (flag .fix)
  | "no-format" => some (flag .noFormat)
  | "external-first" => some (flag .externalFirst)
  | "strict" => some (flag .strict)
  | "format" => some (slot .format)
  | "list-rules" => some (flag .listRules)
  | "explain" => some (slot .explain)
  | "verbose" => some verbose
  | "quiet" => some (flag .quiet)
  | "help" => some help
  | "version" => some version
  | _ => none

def ofShort? : Char → Option OptionName
  | 'v' => some verbose
  | 'q' => some (flag .quiet)
  | 'h' => some help
  | 'V' => some version
  | _ => none

end OptionName

namespace CommandLine

def isOn (line : CommandLine) : Flag → Bool
  | .check => line.check
  | .fix => line.fix
  | .noFormat => line.noFormat
  | .externalFirst => line.externalFirst
  | .strict => line.strict
  | .listRules => line.listRules
  | .quiet => line.quiet

def turnOn (line : CommandLine) : Flag → CommandLine
  | .check => { line with check := true }
  | .fix => { line with fix := true }
  | .noFormat => { line with noFormat := true }
  | .externalFirst => { line with externalFirst := true }
  | .strict => { line with strict := true }
  | .listRules => { line with listRules := true }
  | .quiet => { line with quiet := true }

def isFilled (line : CommandLine) : Slot → Bool
  | .target => line.target.isSome
  | .config => line.config.isSome
  | .format => line.format.isSome
  | .explain => line.explain.isSome

/-- A path from an argument, which must not be empty. -/
def path? (value : String) : Option Path := if value.isEmpty then none else some ⟨value⟩

/-- Puts a value into an empty slot. -/
def fill (line : CommandLine) (slot : Slot) (value : String) : Except UsageStop CommandLine :=
  if line.isFilled slot then .error .conflict
  else
    let filled : Option CommandLine :=
      match slot with
      | .target => (path? value).map fun path => { line with target := some path }
      | .config => (path? value).map fun path => { line with config := some path }
      | .format =>
          (OutputFormat.ofName? value).map fun format => { line with format := some format }
      | .explain => some { line with explain := some value }
    match filled with
    | some line => .ok line
    | none => .error .invalidValue

end CommandLine

end CSharpTidy
