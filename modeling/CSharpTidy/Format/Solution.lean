import CSharpTidy.Format.Basic
import CSharpTidy.Solution

namespace CSharpTidy

/-- What formatting the documents of a solution gave. Documents that fail stay as they are. -/
structure FormatResult where
  changes : Changes := {}
  failures : List (DocumentId × Fault) := []

def FormatResult.add (formatter : Formatter) (options : FormatSettings) (outcome : FormatResult)
    (document : Document) : FormatResult :=
  match formattedText? formatter document options with
  | .ok (some text) => { outcome with changes := outcome.changes.insert document.id text }
  | .ok none => outcome
  | .error fault => { outcome with failures := outcome.failures ++ [(document.id, fault)] }

def formatAll (formatter : Formatter) (solution : Solution) (options : FormatSettings) :
    FormatResult :=
  solution.documents.foldl (FormatResult.add formatter options) {}

end CSharpTidy
