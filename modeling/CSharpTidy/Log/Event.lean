namespace CSharpTidy

inductive LogLevel where
  | trace
  | debug
  | info
  | warn
deriving DecidableEq, Repr

namespace LogLevel

def render : LogLevel → String
  | trace => "TRACE"
  | debug => "DEBUG"
  | info => "INFO"
  | warn => "WARN"

/-- The place of a level among the others, the most severe one last. -/
def rank : LogLevel → Nat
  | trace => 0
  | debug => 1
  | info => 2
  | warn => 3

/-- The level from which on events show, the lower the more is asked for. -/
def ofVerbosity : Nat → LogLevel
  | 0 => info
  | 1 => debug
  | _ => trace

def ofName? : String → Option LogLevel
  | "trace" => some trace
  | "debug" => some debug
  | "info" => some info
  | "warn" => some warn
  | _ => none

end LogLevel

inductive LogTopic where
  | settings
  | reading
  | loading
  | rules
  | directiveOrder
  | formatting
  | spacing
  | staging
  | workspace
  | storing
  | runs
  | invocations
deriving DecidableEq, Repr

namespace LogTopic

def render : LogTopic → String
  | settings => "sharpfmt::config"
  | reading => "sharpfmt::syntax::parser"
  | loading => "sharpfmt::workspace::loader"
  | rules => "sharpfmt::lint::engine"
  | directiveOrder => "sharpfmt::lint::rules::directive_order"
  | formatting => "sharpfmt::format"
  | spacing => "sharpfmt::format::structural"
  | staging => "sharpfmt::workspace::coordinator"
  | workspace => "sharpfmt::workspace::live"
  | storing => "sharpfmt::workspace::store"
  | runs => "sharpfmt::pipeline"
  | invocations => "sharpfmt::cli::run"

end LogTopic

/-- A line for the log, with named values. -/
structure Event where
  level : LogLevel
  topic : LogTopic
  message : String
  fields : List (String × String) := []
deriving DecidableEq, Repr

namespace Event

def render (event : Event) : String :=
  "[" ++ event.level.render ++ "] " ++ event.topic.render ++ ": " ++ event.message ++
    String.join (event.fields.map fun (name, value) => " " ++ name ++ "=" ++ value)

end Event

namespace Log

/-- A whole log, a line for each event. -/
def render (events : List Event) : String :=
  if events.isEmpty then "no logs captured"
  else String.join (events.map fun event => event.render ++ "\n")

def hasWarnings (events : List Event) : Bool := events.any fun event => event.level == .warn

end Log

end CSharpTidy
