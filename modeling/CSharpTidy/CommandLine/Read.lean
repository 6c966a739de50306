import CSharpTidy.CommandLine.Basic
import CSharpTidy.Settings.Environment
import CSharpTidy.Text.Cut

namespace CSharpTidy

namespace CommandLine

inductive Argument where
  /-- Two dashes. Only values come after them. -/
  | endOfOptions
  | long (name : String) (attached : Option String)
  | short (letters : Text)
  | value (text : String)
deriving DecidableEq, Repr

namespace Argument

def ofString (argument : String) : Argument :=
  match argument.toList with
  | ['-', '-'] => endOfOptions
  | '-' :: '-' :: name =>
      match Text.cutAt? '=' name with
      | some (name, attached) => long (String.ofList name) (some (String.ofList attached))
      | none => long (String.ofList name) none
  | '-' :: c :: letters => short (c :: letters)
  | _ => value argument

end Argument

/-- A command line of which some arguments have been read. -/
structure Reading where
  line : CommandLine := {}
  /-- A slot that was named and the value for it, if that has come. It is filled when the next
  option or value comes. -/
  pending : Option (Slot × Option String) := none
  targetGiven : Bool := false

namespace Reading

def settle (reading : Reading) : Except UsageStop Reading :=
  match reading.pending with
  | none => .ok reading
  | some (_, none) => .error .invalidValue
  | some (slot, some value) =>
      (reading.line.fill slot value).map fun line => { reading with line, pending := none }

/-- The greatest count of an option that can be repeated. -/
def countLimit : Nat := 255

/-- Takes an option that has no value with it. -/
def takeOption (reading : Reading) (name : OptionName) : Except UsageStop Reading :=
  match reading.settle with
  | .error stop => .error stop
  | .ok reading =>
      match name with
      | .help => .error .help
      | .version => .error .version
      | .verbose =>
          let verbosity := min (reading.line.verbosity + 1) countLimit
          .ok { reading with line := { reading.line with verbosity } }
      | .flag flag =>
          if reading.line.isOn flag then .error .conflict
          else .ok { reading with line := reading.line.turnOn flag }
      | .slot slot => .ok { reading with pending := some (slot, none) }

def takeLong (reading : Reading) (name : String) (attached : Option String) :
    Except UsageStop Reading :=
  match OptionName.ofLong? name, attached with
  | none, _ => .error .unknownArgument
  | some name, none => reading.takeOption name
  | some (.slot slot), some value =>
      match reading.settle with
      | .error stop => .error stop
      | .ok reading => (reading.line.fill slot value).map fun line => { reading with line }
  | some _, some _ => .error .surplusValue

def takeShort (reading : Reading) : Text → Except UsageStop Reading
  | [] => .ok reading
  | letter :: letters =>
      match OptionName.ofShort? letter with
      | none => .error .unknownArgument
      | some name =>
          match reading.takeOption name with
          | .error stop => .error stop
          | .ok reading => takeShort reading letters

/-- Takes a value that no option asks for. There is one target. -/
def takeTarget (reading : Reading) (value : String) : Except UsageStop Reading :=
  if reading.targetGiven then .error .unknownArgument
  else
    reading.settle.map fun reading =>
      { reading with pending := some (.target, some value), targetGiven := true }

def takeValue (reading : Reading) (value : String) : Except UsageStop Reading :=
  match reading.pending with
  | some (slot, none) => .ok { reading with pending := some (slot, some value) }
  | _ => reading.takeTarget value

def takeAll (reading : Reading) (onlyValues : Bool) : List String → Except UsageStop Reading
  | [] => reading.settle
  | argument :: arguments =>
      let next :=
        if onlyValues then reading.takeTarget argument
        else
          match Argument.ofString argument with
          | .endOfOptions => .ok reading
          | .long name attached => reading.takeLong name attached
          | .short letters => reading.takeShort letters
          | .value value => reading.takeValue value
      match next with
      | .error stop => .error stop
      | .ok next =>
          takeAll next (onlyValues || Argument.ofString argument == .endOfOptions) arguments

end Reading

/-- The command line with the configuration file that the environment names, unless it names one
itself. -/
def fillFromEnvironment (line : CommandLine) (environment : Environment) :
    Except UsageStop CommandLine :=
  match line.config, environment.get? "SHARPFMT_CONFIG" with
  | none, some value => line.fill .config value
  | _, _ => .ok line

/-- Refuses what does not go together, and what asks for nothing. -/
def validate (line : CommandLine) : Except UsageStop CommandLine :=
  if line.check && line.fix then .error .conflict
  else if line.target.isNone && !line.listRules && line.explain.isNone then .error .missingTarget
  else .ok line

def read (environment : Environment) (arguments : List String) : Except UsageStop CommandLine := do
  let reading ← ({} : Reading).takeAll false arguments
  let line ← reading.line.fillFromEnvironment environment
  line.validate

end CommandLine

end CSharpTidy
