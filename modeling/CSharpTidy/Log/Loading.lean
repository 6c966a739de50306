import CSharpTidy.Loading.Load
import CSharpTidy.Log.Document

namespace CSharpTidy

namespace Log

/-- What the documents that one step of loading added put into the log. -/
def added (before after : Loading) : List Event :=
  (after.draft.documents.drop before.draft.documents.length).flatMap fun document =>
    parse document.path document.text

def entry (root : Path) (entry : SolutionEntry) (before after : Loading) : List Event :=
  if Loading.isProject (root.join entry.path) then added before after
  else
    [⟨.debug, .loading, "skipping non-C# solution entry",
      [("name", entry.name)]⟩]

def entries (walk : Walk) (tree : FileTree) (root : Path) (loading : Loading) :
    List SolutionEntry → List Event
  | [] => []
  | next :: rest =>
      let after := Loading.addEntry walk tree root loading next
      entry root next loading after ++ entries walk tree root after rest

def load (reader : Reader) (tree : FileTree) (target : Path) (walk : Walk := FileTree.walk) :
    List Event :=
  match Loading.load reader tree target walk with
  | .error _ => []
  | .ok (solution, notices) =>
      let start : Loading := { draft := { reader } }
      let steps :=
        if Loading.isProject target then added start (start.addProject walk tree target)
        else
          match tree.read target with
          | .error _ => []
          | .ok text =>
              entries walk tree target.directory start (SolutionEntry.readAll text)
      steps ++
        [⟨.info, .loading, "loaded",
          [("target", target.text), ("projects", toString solution.projects.length),
            ("documents", toString solution.documents.length),
            ("diagnostics", toString notices.length)]⟩]

end Log

end CSharpTidy
