import Primer.Command.Files
import Primer.Command.Invocation
import Primer.Command.Journal
import Primer.Flow.Dot
import Primer.Json.Reader
import Primer.Json.Writer
import Primer.Text.Utf8
import Primer.Tree.Codec
import Primer.Tree.SExpr
import Primer.View.Explain

/-!
What a command answers when it has the bytes of its file.

The bytes are a program as text or a tree in JSON. The answer is a text to write and an exit
code, or the reason why there is nothing to write, together with what goes into the journal.
-/

namespace Primer.Command

/-! ### Texts of the answers -/

def padRight (width : Nat) (s : String) : String :=
  s ++ String.ofList (List.replicate (width - s.length) ' ')

def padLeft (width : Nat) (s : String) : String :=
  String.ofList (List.replicate (width - s.length) ' ') ++ s

def unlines (lines : List String) : String := "\n".intercalate lines

def tokenRow (t : Token) : String := padRight 10 t.kind.text ++ " " ++ t.value

def symbolRow (s : SymbolEntry) : String :=
  padLeft 4 (toString s.line) ++ "  " ++ padRight 8 s.type ++ " " ++ s.name

def operationRow (o : Operation) : String :=
  padLeft 4 (toString o.line) ++ "  " ++ o.left ++ " " ++ o.operator ++ " " ++ o.right

/-- A sentence with its line, or with a question mark if that is not known. -/
def explanationRow : Option Int × String → String
  | (some n, text) => "Line " ++ toString n ++ ": " ++ text
  | (none, text) => "Line ?: " ++ text

/-- A listing as JSON or in rows. -/
def listing {α : Type} (format : Format) (toJson : α → Json) (row : α → String)
    (xs : List α) : String :=
  if format = .json then (Json.arr (xs.map toJson)).pretty else unlines (xs.map row)

/-- The report for a learner, with the fault placed in the file `file`. -/
def summary (file : String) (r : Report) : String :=
  unlines (r.log ++
    (match r.score with
      | some c => ["Complexity: " ++ toString c.score ++ " → " ++ c.caption]
      | none => []) ++
    (match r.graph with
      | some g => ["Control flow: " ++ Entry.graphSize g]
      | none => []) ++
    (if r.knownValues.isEmpty then []
      else ["Known values: " ++
        ", ".intercalate (r.knownValues.map fun e => e.1 ++ " = " ++ e.2.text)]) ++
    (match r.error with
      | some d => ["", d.render file]
      | none => []))

/-- The text of a report; nothing if only a fault is asked for and there is none. -/
def reportText (format : Format) (file : String) (r : Report) : Option String :=
  match format with
  | .json => some r.toJson.pretty
  | .gcc => r.error.map fun d => d.render file
  | _ => some (summary file r)

/-- The text of a view of a program, with what is said about it. Only the score needs room. -/
def viewText (room : Nat) (i : Invocation) (t : JsonTree) :
    Except Overflow (List Entry × String) := do
  let program := t.plain
  match i.command with
  | .tokens => return ([], listing i.format Token.toJson tokenRow program.tokens)
  | .symbols => return ([], listing i.format SymbolEntry.toJson symbolRow program.symbols)
  | .operations => return ([], listing i.format Operation.toJson operationRow program.operations)
  | .explain => return ([], unlines (program.explanations.map explanationRow))
  | .score =>
    let card ← program.scoreCardWithin room
    return ([Entry.ofScore card],
      if i.format = .json then card.toJson.compact else toString card.score ++ " " ++ card.caption)
  | .graph =>
    let g := FlowGraph.ofTree program
    return ([Entry.ofGraph g],
      if i.format = .dot then g.toDot (Path.lastName i.file) else g.toJson.pretty)
  | .analyze | .parse =>
    return ([], if i.format = .sexp then program.toSExpr.render else t.toJson.pretty)

/-! ### Answers -/

/-- What no command has an answer for. -/
inductive Breakdown where
  | notText (fault : Text.Utf8Fault)
  | longNumber (digits : Nat)
  | outOfRange (fault : NumberFault)
  | badPath (fault : PathFault)
  | noPath
  | noPass
  | overflow
deriving DecidableEq, Repr

def Breakdown.message : Breakdown → String
  | .notText fault => fault.message
  | .longNumber digits => NumberFault.digitsMessage digits
  | .outOfRange fault => fault.message
  | .badPath fault => fault.message
  | .noPath => "expected str, bytes or os.PathLike object, not list"
  | .noPass => "unhashable type: 'list'"
  | .overflow => "maximum recursion depth exceeded"

/-- Why a file gives no program. -/
inductive LoadFault where
  | badJson
  | diagnosed (d : Diagnostic)
  | broken (b : Breakdown)

inductive Outcome where
  | answered (text : Option String) (ok : Bool)
  | failed (fault : LoadFault)

structure Answer where
  journal : List Entry
  outcome : Outcome

/-- The tree in a JSON text. A tree that is no program becomes the only statement of one. -/
def treeOfText (stack : Stack) (text : String) : Except LoadFault JsonTree :=
  match Json.parse stack.json text with
  | .error .malformed => .error .badJson
  | .error (.tooManyDigits digits) => .error (.broken (.longNumber digits))
  | .ok j =>
    match Node.ofJson stack.reading j with
    | .ok (.program ns loc) => .ok (.program ns loc)
    | .ok n => .ok (.program [n] none)
    | .error (.outOfRange fault) => .error (.broken (.outOfRange fault))
    | .error .unwritable => .error (.broken (.outOfRange .overlong))
    | .error fault =>
      match fault.diagnostic? with
      | some d => .error (.diagnosed d)
      | none => .error .badJson

/-- The answer of an analysis. -/
def analysisAnswer (i : Invocation) (parsed : List Entry) : Except Overflow Report → Answer
  | .ok r => ⟨Entry.ofReport parsed r, .answered (reportText i.format i.file r) r.ok⟩
  | .error .overflow => ⟨parsed, .failed (.broken .overflow)⟩

/-- The answer of a view. -/
def viewAnswer (room : Nat) (i : Invocation) (parsed : List Entry) (t : JsonTree) : Answer :=
  match viewText room i t with
  | .ok (said, text) => ⟨parsed ++ said, .answered (some text) true⟩
  | .error .overflow => ⟨parsed, .failed (.broken .overflow)⟩

/-- The answer to a text. -/
def answerText (stack : Stack) (i : Invocation) (text : String) : Answer :=
  let parsed := Grammar.parse stack.parsing text
  let said := Entry.ofParse parsed
  if i.command = .analyze then
    analysisAnswer i said (Report.ofParse stack.scoring i.config parsed)
  else
    match parsed with
    | .error fault => ⟨said, .failed (.diagnosed fault.diagnostic)⟩
    | .ok t => viewAnswer stack.scoring i said t.toJsonTree

/-- The answer to a tree. -/
def answerTree (stack : Stack) (i : Invocation) (t : JsonTree) : Answer :=
  if i.command = .analyze then analysisAnswer i [] (analyze stack i.config (.tree t.plain))
  else viewAnswer stack.scoring i [] t

/-- The answer to the bytes of a file. -/
def answer (stack : Stack) (i : Invocation) (bytes : List UInt8) : Answer :=
  match Text.ofBytes bytes with
  | .error fault => ⟨[], .failed (.broken (.notText fault))⟩
  | .ok text =>
    if i.fromTree then
      match treeOfText stack text with
      | .error fault => ⟨[], .failed fault⟩
      | .ok t => answerTree stack i t
    else answerText stack i text

end Primer.Command
