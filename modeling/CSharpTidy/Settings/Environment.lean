import CSharpTidy.Settings.Layer
import CSharpTidy.Fault
import CSharpTidy.Text.Blank

namespace CSharpTidy

structure Environment where
  bindings : List (String × String) := []
deriving DecidableEq, Repr

namespace Environment

def get? (environment : Environment) (name : String) : Option String :=
  environment.bindings.lookup name

/-- Whether a value means yes. Everything that does not means no. -/
def isTrue (value : String) : Bool :=
  ["1", "true", "yes", "on"].contains (String.ofList (Text.foldCase value.toList))

/-- The items of a list whose items stand between commas. Blanks around an item do not count, and
neither do items without anything else. -/
def items (value : String) : List String :=
  let parts := (Text.split ',' value.toList).map Text.trim
  (parts.filter (· ≠ [])).map String.ofList

def flag? (environment : Environment) (name : String) : Option Bool :=
  (environment.get? name).map isTrue

def list? (environment : Environment) (name : String) : Option (List String) :=
  (environment.get? name).map items

/-- Reads the name of an output format in letters of either size. -/
def outputFormat (value : String) : Except Fault OutputFormat :=
  match String.ofList (Text.foldCase value.toList) with
  | "human" => .ok .human
  | "text" => .ok .human
  | "json" => .ok .json
  | _ => .error (.config ("invalid output format " ++ value ++ " (expected human|json)"))

def outputFormat? (environment : Environment) : Except Fault (Option OutputFormat) :=
  match environment.get? "SHARPFMT_FORMAT" with
  | none => .ok none
  | some value => (outputFormat value).map some

def layer (environment : Environment) : Except Fault SettingsLayer :=
  match environment.outputFormat? with
  | .error fault => .error fault
  | .ok format =>
      .ok
        { order :=
            { externalFirst := environment.flag? "SHARPFMT_EXTERNAL_FIRST"
              externalPrefixes := environment.list? "SHARPFMT_EXTERNAL_PREFIXES" }
          format :=
            { spaceAfterControlKeyword :=
                environment.flag? "SHARPFMT_SPACE_AFTER_CONTROL_KEYWORD" }
          rules :=
            { strict := environment.flag? "SHARPFMT_STRICT"
              disabledRules := environment.list? "SHARPFMT_DISABLED_RULES" }
          output := { format } }

/-- Whether output may be colored. A terminal has colors unless it is told to have none, and output
that goes elsewhere has them only if that is asked for. -/
def allowsColors (environment : Environment) (terminal : Bool) : Bool :=
  let capable :=
    (environment.get? "NO_COLOR").isNone && (environment.get? "TERM").any (· ≠ "dumb") &&
      environment.get? "CLICOLOR" ≠ some "0"
  (terminal && capable) || (environment.get? "CLICOLOR_FORCE").any (· ≠ "0")

def names : List String :=
  ["SHARPFMT_CONFIG", "SHARPFMT_DISABLED_RULES", "SHARPFMT_EXTERNAL_FIRST",
    "SHARPFMT_EXTERNAL_PREFIXES", "SHARPFMT_FORMAT", "SHARPFMT_SPACE_AFTER_CONTROL_KEYWORD",
    "SHARPFMT_STRICT", "HOME", "XDG_CONFIG_HOME", "CLICOLOR", "CLICOLOR_FORCE", "NO_COLOR", "RUST_LOG",
    "TERM"]

end Environment

end CSharpTidy
