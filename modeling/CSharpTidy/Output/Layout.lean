namespace CSharpTidy

/-- The ways in which a terminal can set text apart. -/
inductive TextStyle where
  | bold
  | dim
  | red
  | yellow
  | blue
  | cyan
deriving DecidableEq, Repr

namespace TextStyle

def code : TextStyle → String
  | bold => "\x1b[1m"
  | dim => "\x1b[2m"
  | red => "\x1b[31m"
  | yellow => "\x1b[33m"
  | blue => "\x1b[34m"
  | cyan => "\x1b[36m"

def reset : String := "\x1b[0m"

/-- A text in some styles, if the terminal shows any. -/
def paint (colors : Bool) (styles : List TextStyle) (text : String) : String :=
  if colors then String.join (styles.map code) ++ text ++ reset else text

end TextStyle

/-- Lines for people to read. -/
structure Layout where
  colors : Bool
  lines : List String := []
deriving DecidableEq, Repr

namespace Layout

/-- The width of the first column of an entry, in characters. -/
def keyWidth : Nat := 12

def line (layout : Layout) (text : String) : Layout :=
  { layout with lines := layout.lines ++ [text] }

def blank (layout : Layout) : Layout := layout.line ""

def title (layout : Layout) (text : String) : Layout :=
  (layout.line (TextStyle.paint layout.colors [.bold] text)).blank

/-- A heading, underlined by a dash for each of its bytes and by no fewer than three. -/
def heading (layout : Layout) (text : String) : Layout :=
  (layout.line (TextStyle.paint layout.colors [.bold] text)).line
    (String.ofList (List.replicate (max text.utf8ByteSize 3) '-'))

/-- A key, filled up with blanks, and a value. -/
def entry (layout : Layout) (key value : String) : Layout :=
  let padded := key ++ String.ofList (List.replicate (keyWidth - key.length) ' ')
  layout.line (TextStyle.paint layout.colors [.dim] padded ++ " " ++ value)

def bullet (layout : Layout) (text : String) : Layout := layout.line ("- " ++ text)

def render (layout : Layout) : String := "\n".intercalate layout.lines

end Layout

end CSharpTidy
