import CSharpTidy.Notice
import CSharpTidy.Tree.Read

namespace CSharpTidy

/-- What reading a file gave: a tree, unless the text admits none, and notices. -/
structure ReadResult where
  tree : Option Tree
  notices : List Notice

abbrev Reader := Path → Text → ReadResult

inductive SyntaxFault where
  | scan (error : ScanError)
  | tree (error : TreeError)
deriving DecidableEq, Repr

namespace SyntaxFault

def message : SyntaxFault → String
  | scan error => error.fault.message
  | tree error => error.fault.message

def offset : SyntaxFault → Nat
  | scan error => error.offset
  | tree error => error.offset

def notice (path : Path) (fault : SyntaxFault) : Notice :=
  .warning path (fault.message ++ " at offset " ++ toString fault.offset)

end SyntaxFault

/-- The notice about a directive that follows other declarations. -/
def lateDirectiveNotice (path : Path) (name : Text) : Notice :=
  .warning path ("using directive '" ++ String.ofList name ++ "' follows other declarations")

namespace CSharp

def read (text : Text) : List Text × Except SyntaxFault Tree :=
  match tokenize text with
  | .error error => ([], .error (.scan error))
  | .ok tokens =>
      let outcome :=
        Read.declarations text.size {} (tokens.filter fun token => !token.kind.isTrivia)
      (outcome.late,
        match outcome.result with
        | .error error => .error (.tree error)
        | .ok tree => .ok tree)

def tree? (text : Text) : Option Tree :=
  match (read text).2 with
  | .ok tree => some tree
  | .error _ => none

def reader : Reader := fun path text =>
  let (late, result) := read text
  let notices := late.map (lateDirectiveNotice path)
  match result with
  | .ok tree => ⟨some tree, notices⟩
  | .error fault => ⟨none, notices ++ [fault.notice path]⟩

end CSharp

end CSharpTidy
