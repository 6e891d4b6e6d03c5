import Primer.Flow.Graph

/-!
Drawings of control-flow graphs in the DOT language.

The first and the last point are coloured, decisions and loop headers are diamonds, and the edges
of loops stand out. Every text stands in double quotes with its escapes.
-/

namespace Primer.FlowGraph

/-- A text with other characters in place of each `old`. -/
def replaceAll (old : Char) (new text : List Char) : List Char :=
  text.flatMap fun c => if c = old then new else [c]

/-- A text inside double quotes. The backslashes come first: those of the later escapes stay. -/
def dotEscape (s : String) : String :=
  let slashes := replaceAll '\\' ['\\', '\\'] s.toList
  let quotes := replaceAll '"' ['\\', '"'] slashes
  String.ofList (replaceAll '\n' ['\\', 'n'] quotes)

/-- An attribute with a text for its value. -/
def dotAttribute (key value : String) : String := key ++ "=\"" ++ dotEscape value ++ "\""

/-- Whether a node is drawn as a decision. -/
def isDecision (n : FlowNode) : Bool :=
  ["if", "while", "for"].any fun w => w.toList.isPrefixOf n.label.toList

/-- The attributes of a node that depend on what it is. -/
def dotStyle (g : FlowGraph) (n : FlowNode) : String :=
  if n.id = g.start then ", style=filled, fillcolor=\"#ccffcc\""
  else if n.id = g.stop then ", style=filled, fillcolor=\"#ffcccc\""
  else if isDecision n then ", shape=diamond"
  else ""

def dotNode (g : FlowGraph) (n : FlowNode) : String :=
  "  N" ++ toString n.id ++ " [" ++ dotAttribute "label" n.label ++ ", " ++
    dotAttribute "tooltip" n.description ++ g.dotStyle n ++ "];"

/-- The attributes of an edge. -/
def dotEdgeStyle (e : FlowEdge) : List String :=
  (match e.label with
    | some l => if l.isEmpty then [] else [dotAttribute "label" l]
    | none => []) ++
  (if e.isBack then ["style=dashed, color=blue, fontcolor=blue"]
    else if e.label == some FlowEdge.exitLabel then ["color=red, fontcolor=red"]
    else [])

def dotEdge (e : FlowEdge) : String :=
  let attributes := dotEdgeStyle e
  "  N" ++ toString e.source ++ " -> N" ++ toString e.target ++
    (if attributes.isEmpty then "" else " [" ++ ", ".intercalate attributes ++ "]") ++ ";"

/-- The lines of a drawing. An empty title is left out. -/
def dotLines (g : FlowGraph) (title : String) : List String :=
  ["digraph CFG \x7b"] ++
    (if title.isEmpty then [] else ["  " ++ dotAttribute "label" title ++ ";"]) ++
    ["  node [shape=box, fontname=monospace, fontsize=10];"] ++
    g.nodes.map g.dotNode ++ g.edges.map dotEdge ++ ["\x7d"]

/-- The drawing of a graph. -/
def toDot (g : FlowGraph) (title : String) : String := "\n".intercalate (g.dotLines title)

end Primer.FlowGraph
