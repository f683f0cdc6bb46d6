import SyntaxCoverage.Arena.Basic
import SyntaxCoverage.Text.Quoted

/-! One-line descriptions of nodes, for people who look into an arena. -/

namespace SyntaxCoverage.Node

def idText (n : Node) : String := "#" ++ toString n.id

def extentText : Option Extent → String
  | none => "None"
  | some e =>
    "Some(ByteRange \x7b start: " ++ toString e.start ++ ", end: " ++ toString e.stop ++ " \x7d)"

def toText (n : Node) : String :=
  "CoveredNode \x7b id: NodeId(" ++ toString n.id ++ "), kind: " ++ Text.quoted n.displayKind ++
    ", range: " ++ extentText n.extent? ++ " \x7d"

end SyntaxCoverage.Node
