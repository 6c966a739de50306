import CSharpTidy.Files.Walk

namespace CSharpTidy

namespace Sources

/-- The directories that hold what a build makes or fetches. -/
def builtDirectories : List String := ["bin", "obj", "node_modules"]

/-- Whether a directory of this name holds no sources: it is hidden, or a build fills it. -/
def isSkipped (name : Text) : Bool :=
  name.head? == some '.' || builtDirectories.any fun built => Text.foldCase name == built.toList

/-- Whether a walk for sources enters what it comes across. Where it begins is never skipped. -/
def isEntered (entry : WalkEntry) : Bool :=
  !(entry.kind == .directory && entry.names.getLast?.any isSkipped)

/-- The source files below a directory in the order of their paths. What the walk cannot open is passed
over. -/
def all (tree : FileTree) (directory : Path) (walk : Walk := FileTree.walk) : List Path :=
  let found := (walk tree isEntered directory).filterMap Except.toOption
  let files := found.filter fun entry => entry.kind == .file
  let sources := (files.map WalkEntry.path).filter fun path => path.extension? == some "cs"
  sources.mergeSort fun first second => (compare first second).isLE

end Sources

end CSharpTidy
