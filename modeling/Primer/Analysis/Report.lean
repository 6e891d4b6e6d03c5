import Primer.Analysis.Config
import Primer.Check.Initialized
import Primer.Check.KnownValues
import Primer.Check.Typing
import Primer.Flow.Graph
import Primer.Grammar.Parse
import Primer.View.Listing
import Primer.View.Score

/-!
The analysis of a program.

The views come first. Then the checks run in a fixed order, and the first fault ends the analysis.
The report keeps what was produced before it. There is no report if the machine has no room for the
score.
-/

namespace Primer

/-- A program as it is given: as text, or as a tree. -/
inductive Input where
  | text (source : String)
  | tree (program : Tree)

structure Report where
  config : Config
  program : Option Tree := none
  tokens : List Token := []
  symbols : List SymbolEntry := []
  operations : List Operation := []
  score : Option ScoreCard := none
  graph : Option FlowGraph := none
  declaredTypes : Table String := []
  knownValues : Table Number := []
  passes : List Pass := []
  error : Option Diagnostic := none
  log : List String := []

namespace Report

/-- Whether no fault was found. -/
def ok (r : Report) : Bool := r.error.isNone

/-- The report of a fault. -/
def fail (r : Report) (d : Diagnostic) : Report :=
  let line := match d.line? with
    | some n => "❌ Error at Line " ++ toString n ++ ": " ++ d.message
    | none => "❌ Error: " ++ d.message
  { r with error := some d, log := r.log ++ [line] }

def say (r : Report) (line : String) : Report := { r with log := r.log ++ [line] }

def pass (r : Report) (p : Pass) : Report := { r with passes := r.passes ++ [p] }

/-- The report with the program and its listings. -/
def withListings (t : Tree) (r : Report) : Report :=
  { r with
    program := some t
    tokens := t.tokens
    symbols := t.symbols
    operations := t.operations }.pass .parse

/-- The report with the score, if it is wanted. -/
def withScore (room : Nat) (t : Tree) (r : Report) : Except Overflow Report :=
  if r.config.score then do
    let card ← t.scoreCardWithin room
    return { r with score := some card }.pass .score
  else .ok r

/-- The report with the graph, if it is wanted. -/
def withGraph (t : Tree) (r : Report) : Report :=
  if r.config.buildGraph then { r with graph := some (.ofTree t) }.pass .graph else r

def checkTypes (t : Tree) (r : Report) : Report :=
  match Typing.check r.config.strictOperandTypes .empty t with
  | .finished table =>
    ({ r with declaredTypes := table.items }.pass .types).say "✅ Type Safety: Passed."
  | .stopped fault _ => r.fail fault.diagnostic

def checkDataFlow (t : Tree) (r : Report) : Report :=
  match Initialized.check [] t with
  | .finished _ => (r.pass .dataflow).say "✅ Data Flow: Checked."
  | .stopped fault _ => r.fail fault.diagnostic

def checkMath (t : Tree) (r : Report) : Report :=
  match KnownValues.check r.config.branchScopedConstants [] t with
  | .finished known =>
    ({ r with knownValues := known }.pass .math).say
      "✅ Mathematical Safety: No division by zero detected."
  | .stopped fault _ => r.fail fault.diagnostic

/-- The report after a check, if the check is wanted and no fault was found before. -/
def andCheck (r : Report) (wanted : Bool) (check : Report → Report) : Report :=
  if wanted && r.ok then check r else r

/-- The report after the checks that are wanted. -/
def checked (t : Tree) (r : Report) : Report :=
  (((r.say "2. Running Semantic Safety Checks...").andCheck
    r.config.typeCheck (checkTypes t)).andCheck
    r.config.dataFlow (checkDataFlow t)).andCheck
    r.config.mathSafety (checkMath t)

/-- The report of a program that is fit for the passes. -/
def ofTree (room : Nat) (r : Report) (t : Tree) : Except Overflow Report := do
  let r ← (r.withListings t).withScore room t
  return (r.withGraph t).checked t

def toJson (r : Report) : Json :=
  .obj [
    ("ok", .bool r.ok),
    ("error", Json.ofOption (r.error.map Diagnostic.toJson)),
    ("passes", .arr (r.passes.map fun p => .str p.text)),
    ("tokens", .arr (r.tokens.map Token.toJson)),
    ("symbols", .arr (r.symbols.map SymbolEntry.toJson)),
    ("mathOps", .arr (r.operations.map Operation.toJson)),
    ("score", Json.ofOption (r.score.map ScoreCard.toJson)),
    ("cfg", Json.ofOption (r.graph.map FlowGraph.toJson)),
    ("declaredTypes", .obj (r.declaredTypes.map fun e => (e.1, .str e.2))),
    ("knownValues", .obj (r.knownValues.map fun e => (e.1, Json.ofNumber e.2))),
    ("log", .arr (r.log.map Json.str))]

end Report

/-- The report on a text that was read as a program, or was not. -/
def Report.ofParse (room : Nat) (config : Config) (parsed : Except ParseFault Tree) :
    Except Overflow Report :=
  let r := ({ config : Report }).say "1. Starting Lexical & Syntactic Analysis..."
  match parsed with
  | .error fault => .ok (r.fail fault.diagnostic)
  | .ok t => (r.say "✅ Parsing Successful! AST Generated.").ofTree room t

/-- The report on a program. -/
def analyze (stack : Stack) (config : Config) : Input → Except Overflow Report
  | .text source => Report.ofParse stack.scoring config (Grammar.parse stack.parsing source)
  | .tree t =>
    let r : Report := { config }
    match t.overflow? Node.maxLevels with
    | some location => .ok (r.fail (.nesting Node.maxLevels location))
    | none => r.ofTree stack.scoring t

end Primer
