import CSharpTidy.Text.Position
import CSharpTidy.Tree.Reader

namespace CSharpTidy

/-- A file at one moment: its text, and its tree or the reason why it has none. -/
structure Document where
  id : DocumentId
  path : Path
  text : Text
  tree : Except String Tree

namespace Document

/-- The tree of an outcome, or what its last notice says. -/
def treeOf (outcome : ReadResult) : Except String Tree :=
  match outcome.tree with
  | some tree => .ok tree
  | none => .error ((outcome.notices.getLast?.map Notice.message).getD "front end produced no tree")

def parse (reader : Reader) (id : DocumentId) (path : Path) (text : Text) :
    Document × List Notice :=
  let outcome := reader path text
  (⟨id, path, text, treeOf outcome⟩, outcome.notices)

def withText (reader : Reader) (document : Document) (text : Text) : Document × List Notice :=
  parse reader document.id document.path text

def hasTree (document : Document) : Bool :=
  match document.tree with
  | .ok _ => true
  | .error _ => false

/-- The tree, for operations that cannot do without. -/
def root (document : Document) : Except Fault Tree :=
  match document.tree with
  | .ok tree => .ok tree
  | .error reason => .error (.treeUnavailable document.id reason)

def lineTable (document : Document) : LineTable := .ofText document.text

end Document

end CSharpTidy
