import CSharpTidy.Format.Spacing
import CSharpTidy.Rule.DirectiveOrder
import CSharpTidy.Log.Event

namespace CSharpTidy

namespace Log

/-- What reading a C# file puts into the log: the fault of a text without a tree. -/
def parse (path : Path) (text : Text) : List Event :=
  match (CSharp.read text).2 with
  | .ok _ => []
  | .error fault =>
      let stage :=
        match fault with
        | .scan _ => "lex error: "
        | .tree _ => "parse error: "
      [⟨.debug, .reading, stage ++ fault.message,
        [("path", path.text), ("offset", toString fault.offset)]⟩]

def spacing (document : Document) (options : FormatSettings) : List Event :=
  match spacingFormatter document options with
  | .error _ => []
  | .ok edits =>
      [⟨.trace, .spacing, "computed format edits",
        [("document", document.id.render), ("edits", toString edits.length)]⟩]

def directiveOrder (policy : OrderPolicy) (document : Document) : List Event :=
  match (DirectiveOrder.rule policy).evaluate document with
  | .error _ => []
  | .ok found =>
      [⟨.debug, .directiveOrder, "directive order checked",
        [("document", document.id.render), ("policy", policy.name),
          ("found", toString found.length)]⟩]

/-- What sorting directives puts into the log: the scopes that preprocessor lines split. -/
def directiveFix (policy : OrderPolicy) (document : Document) : List Event :=
  match document.root with
  | .error _ => []
  | .ok tree =>
      (DirectiveOrder.disordered policy tree).filterMap fun scope =>
        let regions := DirectiveOrder.regions document.text scope.directives
        if regions.length ≤ 1 then none
        else
          some ⟨.debug, .directiveOrder,
            "directive block split by preprocessor lines",
            [("regions", toString regions.length)]⟩

end Log

end CSharpTidy
