import Primer.Analysis.Report

/-!
The journal of a run.

Every part of the program says what it has done, at a level of importance. A run shows the
entries from some level on, each in a line with the time and the part it comes from.
-/

namespace Primer.Command

inductive Level where
  | debug
  | info
  | warning
  | error
deriving DecidableEq, Repr

namespace Level

def rank : Level → Nat
  | .debug => 0
  | .info => 1
  | .warning => 2
  | .error => 3

/-- The level in five characters. -/
def text : Level → String
  | .debug => "DEBUG"
  | .info => "INFO "
  | .warning => "WARNI"
  | .error => "ERROR"

/-- The lowest level shown when a run is asked `verbosity` times to say more. -/
def shownFrom : Nat → Level
  | 0 => .warning
  | 1 => .info
  | _ => .debug

end Level

structure Entry where
  level : Level
  part : String
  message : String
deriving DecidableEq, Repr

namespace Entry

/-- The line of an entry, written at a given time. -/
def line (time : String) (e : Entry) : String :=
  time ++ " [" ++ e.level.text ++ "] " ++ e.part ++ ": " ++ e.message

/-- Whether an entry is shown in a run. -/
def isShown (verbosity : Nat) (e : Entry) : Bool :=
  (Level.shownFrom verbosity).rank ≤ e.level.rank

def failure (message : String) : Entry := ⟨.error, "codesense", message⟩

/-- What is said about a text that was read. -/
def ofParse : Except ParseFault Tree → List Entry
  | .ok tree =>
    [⟨.debug, "codesense.parser",
      "Parsed " ++ toString tree.children.length ++ " top-level statement(s)"⟩]
  | .error (.unexpected _ span) =>
    [⟨.debug, "codesense.parser", "PEG parse failed at offset " ++ toString span.start.offset⟩]
  | .error _ => []

def ofScore (c : ScoreCard) : Entry :=
  ⟨.debug, "codesense.score",
    "Complexity score " ++ toString c.score ++ " (" ++ c.rank.text ++ ")"⟩

/-- The size of a graph in words. -/
def graphSize (g : FlowGraph) : String :=
  toString g.nodes.length ++ " node(s), " ++ toString g.edges.length ++ " edge(s)"

def ofGraph (g : FlowGraph) : Entry := ⟨.debug, "codesense.cfg", "Built CFG: " ++ graphSize g⟩

/-- What is said about a pass of an analysis that was finished. -/
def ofPass (r : Report) : Pass → Option Entry
  | .parse => none
  | .score => r.score.map ofScore
  | .graph => r.graph.map ofGraph
  | .types =>
    some ⟨.debug, "codesense.typecheck",
      "Type check passed (" ++ toString r.declaredTypes.length ++ " symbol(s))"⟩
  | .dataflow => some ⟨.debug, "codesense.dataflow", "Initialization check passed"⟩
  | .math =>
    some ⟨.debug, "codesense.symbolic",
      "Math safety passed (" ++ toString r.knownValues.length ++ " known value(s))"⟩

/-- What is said about an analysis when its text was read with the entries `parsed`. -/
def ofReport (parsed : List Entry) (r : Report) : List Entry :=
  r.config.warnings.map (fun w => ⟨.warning, "codesense.pipeline", "config: " ++ w⟩) ++ parsed ++
  r.passes.filterMap (ofPass r) ++
  [match r.error with
    | some d => ⟨.warning, "codesense.pipeline", d.render ""⟩
    | none =>
      ⟨.info, "codesense.pipeline",
        "Analysis finished: " ++ ", ".intercalate (r.passes.map Pass.text)⟩]

end Entry

end Primer.Command
