import CSharpTidy.Text.Span

namespace CSharpTidy

/-- The kinds of C# tokens. Keywords are identifiers, and every other ASCII mark is punctuation. -/
inductive TokenKind where
  | identifier
  | punctuation (mark : Char)
  | doubleColon
  | number
  | string
  | character
  | lineComment
  | blockComment
  | preprocessor
deriving DecidableEq, Repr

namespace TokenKind

def isTrivia : TokenKind → Bool
  | lineComment => true
  | blockComment => true
  | preprocessor => true
  | _ => false

end TokenKind

/-- A token with the offset of its first byte. -/
structure Token where
  kind : TokenKind
  lexeme : Text
  start : Nat
deriving DecidableEq, Repr

namespace Token

def stop (token : Token) : Nat := token.start + token.lexeme.size

def span (token : Token) : Span := ⟨token.start, token.stop⟩

def isMark (token : Token) (mark : Char) : Bool := token.kind == .punctuation mark

def isWord (token : Token) (word : String) : Bool :=
  token.kind == .identifier && token.lexeme == word.toList

def shift (distance : Nat) (token : Token) : Token := { token with start := token.start + distance }

end Token

end CSharpTidy
