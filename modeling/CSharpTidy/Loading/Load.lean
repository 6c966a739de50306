import CSharpTidy.Loading.SolutionFile
import CSharpTidy.Loading.Sources
import CSharpTidy.Solution

namespace CSharpTidy

/-- A solution on its way from a tree of files, with the source files it has come across. -/
structure Loading where
  draft : Draft
  seen : List Path := []

namespace Loading

/-- Adds a source file to the last project, unless an earlier project has it. -/
def addSource (tree : FileTree) (loading : Loading) (path : Path) : Loading :=
  if loading.seen.any fun other => compare other path == .eq then loading
  else
    let draft :=
      match tree.read path with
      | .ok text => loading.draft.addDocument path text
      | .error fault =>
          loading.draft.addNotice (.failure path ("cannot read source file: " ++ fault.message))
    ⟨draft, path :: loading.seen⟩

def addProject (walk : Walk) (tree : FileTree) (loading : Loading) (path : Path) : Loading :=
  match tree.read path with
  | .error fault =>
      { loading with
        draft :=
          loading.draft.addNotice (.failure path ("cannot read project: " ++ fault.message)) }
  | .ok _ =>
      let draft := loading.draft.addProject (path.fileStem?.getD "project") path
      (Sources.all tree path.directory walk).foldl (addSource tree) { loading with draft }

def isProject (path : Path) : Bool := path.extension? == some "csproj"

/-- Adds the project that an entry names relative to the directory of the solution. Entries that
name no project are passed over. -/
def addEntry (walk : Walk) (tree : FileTree) (root : Path) (loading : Loading)
    (entry : SolutionEntry) : Loading :=
  let path := root.join entry.path
  if !isProject path then loading
  else if !tree.isFile path then
    { loading with
      draft :=
        loading.draft.addNotice (.failure path ("project '" ++ entry.name ++ "' not found")) }
  else loading.addProject walk tree path

/-- The projects that loading a target looks up. -/
def projects (tree : FileTree) (target : Path) : List Path :=
  if isProject target then [target]
  else
    match tree.read target with
    | .error _ => []
    | .ok text =>
        ((SolutionEntry.readAll text).map fun entry => target.directory.join entry.path).filter
          isProject

/-- Loads a solution file or a single project, with everything there was to notice. -/
def load (reader : Reader) (tree : FileTree) (target : Path) (walk : Walk := FileTree.walk) :
    Except Fault (Solution × List Notice) :=
  let start : Loading := { draft := { reader } }
  if !tree.isFile target then .error (.notFound target)
  else if target.extension? = some "sln" then
    match tree.read target with
    | .error fault => .error (.file fault)
    | .ok text =>
        let entries := SolutionEntry.readAll text
        .ok (entries.foldl (addEntry walk tree target.directory) start).draft.build
  else if isProject target then .ok (start.addProject walk tree target).draft.build
  else
    .error (.loadFailed ("unsupported target " ++ target.text ++ " (expected .sln or .csproj)"))

end Loading

end CSharpTidy
