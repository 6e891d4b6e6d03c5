import Primer.Source.Json
import Primer.View.Token

/-!
The control-flow graph of a program.

Every statement is a node. A decision has a node where its two ways meet again; a loop has a node
for its header, an edge back to it and a node behind it. Node numbers follow the order in which
the nodes are made.
-/

namespace Primer

/-- A point of a program. -/
structure FlowNode where
  id : Nat
  label : String
  description : String
  location : Option Span
deriving DecidableEq, Repr

/-- A step from one point to another. -/
structure FlowEdge where
  source : Nat
  target : Nat
  label : Option String
deriving DecidableEq, Repr

/-- A graph with its first and its last point. -/
structure FlowGraph where
  nodes : List FlowNode
  edges : List FlowEdge
  start : Nat
  stop : Nat
deriving DecidableEq, Repr

def FlowNode.line? (n : FlowNode) : Option Int := n.location.map Span.line

def FlowNode.toJson (n : FlowNode) : Json :=
  .obj [("id", .str (toString n.id)), ("label", .str n.label),
    ("description", .str n.description), ("location", placeJson n.location)]

namespace FlowEdge

def loopLabel : String := "Loop"
def exitLabel : String := "Exit"

/-- Whether an edge leads back to the header of a loop. -/
def isBack (e : FlowEdge) : Bool := e.label == some loopLabel

def toJson (e : FlowEdge) : Json :=
  .obj [("source", .str (toString e.source)), ("target", .str (toString e.target)),
    ("label", Json.ofOption (e.label.map Json.str))]

end FlowEdge

/-- A piece of a graph: what a statement adds, and the point that control leaves it from. -/
structure Fragment where
  nodes : List FlowNode
  edges : List FlowEdge
  leave : Nat
deriving DecidableEq, Repr

/-- One piece after another. -/
def Fragment.andThen (first second : Fragment) : Fragment where
  nodes := first.nodes ++ second.nodes
  edges := first.edges ++ second.edges
  leave := second.leave

namespace Node

/-- A stored value as the descriptions show it. -/
def readableValue : Option Tree → String
  | none => "unknown"
  | some (.literal v _) => v.shown
  | some (.name x _) => x
  | some (.binary ..) => "a calculated result"
  | some _ => "a value"

/-- A statement without statements inside. -/
def step (next previous : Nat) (label description : String) (loc : Option Span) : Fragment where
  nodes := [⟨next, label, description, loc⟩]
  edges := [⟨previous, next, none⟩]
  leave := next

/-- What is said about the node of a decision. -/
def decisionText : Option Span → String
  | some span =>
    "Decision: Checks if the condition at Line " ++ toString span.line ++ " is TRUE."
  | none => "Decision: Checks if the condition is TRUE."

/-- A decision around the piece for each answer, of which the second may be empty. -/
def decision (next previous : Nat) (loc : Option Span) (yes no : Fragment) : Fragment :=
  let merge := next + 1 + yes.nodes.length + no.nodes.length
  { nodes := ⟨next, "if (...)", decisionText loc, loc⟩ :: (yes.nodes ++ no.nodes ++
      [⟨merge, "End If", "Merge: The True and False paths rejoin here.", none⟩])
    edges := ⟨previous, next, none⟩ :: (yes.edges ++ no.edges ++
      [⟨yes.leave, merge, none⟩, ⟨no.leave, merge, none⟩])
    leave := merge }

/-- A loop around the piece for its body. Header and footer are given by label and description. -/
def loop (next previous : Nat) (loc : Option Span) (header footer : String × String)
    (body : Fragment) : Fragment :=
  let after := next + 1 + body.nodes.length
  { nodes := ⟨next, header.1, header.2, loc⟩ :: (body.nodes ++ [⟨after, footer.1, footer.2, none⟩])
    edges := ⟨previous, next, none⟩ :: (body.edges ++
      [⟨body.leave, next, some FlowEdge.loopLabel⟩, ⟨next, after, some FlowEdge.exitLabel⟩])
    leave := after }

def whileHeader : String × String :=
  ("while (...)", "Loop: Checks if the condition is still TRUE to decide whether to repeat.")

def whileFooter : String × String :=
  ("End While", "Exit: The loop condition became FALSE, so we stop repeating.")

def forHeader : String × String :=
  ("for (...)", "Loop: Checks whether another round of the loop should run.")

def forFooter : String × String :=
  ("End For", "Exit: The loop has run its last round, so we stop repeating.")

mutual

/-- The piece of a tree that control enters from `previous`. Its nodes are numbered from `next`
on. Expressions add nothing. -/
def flow (next previous : Nat) : Tree → Fragment
  | .declare t x v loc =>
    step next previous (t ++ " " ++ x ++ " = ...")
      ("Initialization: This creates a '" ++ t ++ "' variable named '" ++ x ++
        "' and stores the value [ " ++ readableValue v ++ " ] inside it.") loc
  | .assign x v loc =>
    step next previous (x ++ " = ...")
      ("Update: The variable '" ++ x ++ "' is being updated. The new value stored is [ " ++
        readableValue (some v) ++ " ].") loc
  | .ret v loc =>
    step next previous "Return"
      ("Return: The function stops and sends the value [ " ++ readableValue v ++
        " ] back to the system.") loc
  | .branch _ b none loc =>
    decision next previous loc (b.flow (next + 1) next) ⟨[], [], next⟩
  | .branch _ b (some e) loc =>
    let yes := b.flow (next + 1) next
    decision next previous loc yes (e.flow (next + 1 + yes.nodes.length) next)
  | .whileLoop _ b loc =>
    loop next previous loc whileHeader whileFooter (b.flow (next + 1) next)
  | .forLoop b loc =>
    loop next previous loc forHeader forFooter (b.flow (next + 1) next)
  | .block ns _ => flowAll next previous ns
  | .program ns _ => flowAll next previous ns
  | _ => ⟨[], [], previous⟩

def flowAll (next previous : Nat) : List Tree → Fragment
  | [] => ⟨[], [], previous⟩
  | n :: ns =>
    let first := n.flow next previous
    first.andThen (flowAll (next + first.nodes.length) first.leave ns)

end

end Node

namespace FlowGraph

def empty : FlowGraph := ⟨[], [], 0, 0⟩

/-- The graph with a program laid beside what it already holds. -/
def extend (g : FlowGraph) (t : Tree) : FlowGraph :=
  let first := g.nodes.length
  let body := t.flow (first + 1) first
  let last := first + 1 + body.nodes.length
  { nodes := g.nodes ++ ⟨first, "Start", "Program Begin", none⟩ ::
      (body.nodes ++ [⟨last, "End", "Program End", none⟩])
    edges := g.edges ++ (body.edges ++ [⟨body.leave, last, none⟩])
    start := first
    stop := last }

/-- The graph of a program. -/
def ofTree (t : Tree) : FlowGraph := empty.extend t

/-- The first node with a given number, written out. -/
def find? (g : FlowGraph) (id : String) : Option FlowNode :=
  g.nodes.find? fun n => toString n.id == id

/-- The targets of the edges that leave a node. -/
def successors (g : FlowGraph) (id : String) : List Nat :=
  (g.edges.filter fun e => toString e.source == id).map (·.target)

/-- The sources of the edges that reach a node. -/
def predecessors (g : FlowGraph) (id : String) : List Nat :=
  (g.edges.filter fun e => toString e.target == id).map (·.source)

def toJson (g : FlowGraph) : Json :=
  .obj [("nodes", .arr (g.nodes.map FlowNode.toJson)),
    ("edges", .arr (g.edges.map FlowEdge.toJson))]

/-- The size of a graph in words. -/
def summary (g : FlowGraph) : String :=
  "CFG(nodes=" ++ toString g.nodes.length ++ ", edges=" ++ toString g.edges.length ++ ")"

end FlowGraph

end Primer
