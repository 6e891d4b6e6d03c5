import Primer.Grammar.Parse

/-!
The rules of the grammar with the trees made on the way.

Each rule here matches what the rule of its kind in `Pieces` matches, and its value is what the
builder makes of the piece. Places move along with the cursor, and parts that leave no trace in the
tree leave no value. This is the form in which the rules are followed through a text.
-/

namespace Primer

namespace Lexeme

/-- A name: a letter, then letters and digits, and no keyword. -/
def name? (cs : List Char) : Option Nat :=
  if (keyword? cs).isSome then none
  else
    match cs with
    | c :: r => if isLetter c then some (1 + (r.takeWhile isWordChar).length) else none
    | [] => none

/-- A comment: to the end of the line, or to the first closing sign. -/
def comment? : List Char → Option Nat
  | '/' :: '/' :: r => some (2 + (r.takeWhile (· ≠ '\n')).length)
  | '/' :: '*' :: r => (commentEnd? r).map (2 + ·)
  | _ => none

end Lexeme

namespace Grammar

open Rule

def sign (s : String) : Rule Unit := ignore (lexeme (Lexeme.sign? s))

def word (w : String) : Rule Unit := ignore (lexeme (Lexeme.word? w))

def textOf (measure : List Char → Option Nat) : Rule String := do
  return String.ofList (← lexeme measure)

def blanks : Rule Unit := ignore (lexeme Lexeme.blanks?)

def comment : Rule Unit := ignore (lexeme Lexeme.comment?)

/-- What may stand between words: blanks and comments. -/
def gap : Rule Unit := ignore (many (blanks <|> comment))

def typeName : Rule String := textOf Lexeme.typeName?

def name : Rule String := textOf Lexeme.name?

/-- The equals sign of an initial value or an assignment, which is no comparison. -/
def equals : Rule Unit := do
  sign "="
  absent (sign "=")

/-! ### Expressions -/

/-- A word that is a whole expression, with the meaning of its text. -/
def leaf (measure : List Char → Option Nat) (meaning : List Char → Option Span → Tree) :
    Rule Tree := do
  let (text, span) ← located (lexeme measure)
  return meaning text (some span)

def floatLiteral : Rule Tree :=
  leaf Lexeme.float? fun text => .literal (.float ((Reading.float? (String.ofList text)).getD .nan))

def integerLiteral : Rule Tree :=
  leaf Lexeme.integer? fun text => .literal (.int (Lexeme.integerValue text))

def stringLiteral : Rule Tree :=
  leaf Lexeme.string? fun text =>
    .literal (.text (String.ofList (Lexeme.unescape (text.drop 1).dropLast)))

def booleanLiteral : Rule Tree :=
  leaf Lexeme.boolean? fun text => .literal (.bool (text == "true".toList))

def variableName : Rule Tree :=
  leaf Lexeme.name? fun text => .name (String.ofList text)

def paren (expression : Rule Tree) : Rule Tree := do
  sign "("
  gap
  let e ← expression
  gap
  sign ")"
  return e

def primary (expression : Rule Tree) : Rule Tree :=
  paren expression <|> floatLiteral <|> integerLiteral <|> stringLiteral <|> booleanLiteral <|>
    variableName

def operator : List String → Rule String
  | [] => fun _ => .reject
  | s :: r => (do sign s; return s) <|> operator r

def comparisonSigns : List String := Pieces.comparisons.signs
def additiveSigns : List String := Pieces.sums.signs
def multiplicativeSigns : List String := Pieces.products.signs

def tail (signs : List String) (operand : Rule Tree) : Rule (String × Tree) := do
  gap
  let op ← operator signs
  gap
  let r ← operand
  return (op, r)

def foldLeft (first : Tree) (tails : List (String × Tree)) : Tree :=
  tails.foldl (fun l t => .binary t.1 l t.2 (Builder.joined l t.2)) first

def level (signs : List String) (operand : Rule Tree) : Rule Tree := do
  let first ← operand
  let tails ← many (tail signs operand)
  return foldLeft first tails

def term (expression : Rule Tree) : Rule Tree :=
  level multiplicativeSigns (primary expression)

def additive (expression : Rule Tree) : Rule Tree := level additiveSigns (term expression)

def comparison (expression : Rule Tree) : Rule Tree :=
  level comparisonSigns (additive expression)

/-- An expression with at most `depth` levels of parentheses. -/
def expression : Nat → Rule Tree
  | 0 => tooDeep
  | depth + 1 => comparison (expression depth)

/-! ### Statements -/

def item (statement : Rule Tree) : Rule Tree := do
  gap
  statement

def statements (statement : Rule Tree) : Rule (List Tree) := many (item statement)

def braced (statement : Rule Tree) : Rule (List Tree) := do
  sign "\x7b"
  let body ← statements statement
  gap
  sign "\x7d"
  return body

def block (statement : Rule Tree) : Rule Tree := do
  let (body, span) ← located (braced statement)
  return .block body (some span)

def initializer (expression : Rule Tree) : Rule Tree := do
  equals
  gap
  expression

def declaration (expression : Rule Tree) : Rule Tree := do
  let ((type, x, value), span) ← located do
    let type ← typeName
    gap
    let x ← name
    gap
    let value ← optional (initializer expression)
    gap
    sign ";"
    return (type, x, value)
  return .declare type x value (some span)

def assignment (expression : Rule Tree) : Rule Tree := do
  let ((x, value), span) ← located do
    let x ← name
    gap
    equals
    gap
    let value ← expression
    gap
    sign ";"
    return (x, value)
  return .assign x value (some span)

/-- A keyword, a condition in parentheses and a statement. -/
def guarded (keyword : String) (expression statement : Rule Tree) : Rule (Tree × Tree) := do
  word keyword
  gap
  sign "("
  gap
  let condition ← expression
  gap
  sign ")"
  gap
  let body ← statement
  return (condition, body)

def elseClause (statement : Rule Tree) : Rule Tree := do
  gap
  word "else"
  gap
  statement

def branch (expression statement : Rule Tree) : Rule Tree := do
  let (((condition, body), otherwise), span) ← located do
    let parts ← guarded "if" expression statement
    let otherwise ← optional (elseClause statement)
    return (parts, otherwise)
  return .branch condition body otherwise (some span)

def whileLoop (expression statement : Rule Tree) : Rule Tree := do
  let ((condition, body), span) ← located (guarded "while" expression statement)
  return .whileLoop condition body (some span)

def returnValue (expression : Rule Tree) : Rule Tree := do
  gap
  expression

def returnStatement (expression : Rule Tree) : Rule Tree := do
  let (value, span) ← located do
    word "return"
    let value ← optional (returnValue expression)
    gap
    sign ";"
    return value
  return .ret value (some span)

def statementOf (expression statement : Rule Tree) : Rule Tree :=
  block statement <|> branch expression statement <|> whileLoop expression statement <|>
    returnStatement expression <|> declaration expression <|> assignment expression

/-- A statement with at most `depth` levels of statements and parentheses. -/
def statement : Nat → Rule Tree
  | 0 => tooDeep
  | depth + 1 => statementOf (expression depth) (statement depth)

/-! ### Programs -/

/-- The main function around a program, which leaves no trace in the tree. -/
def mainFunction (statement : Rule Tree) : Rule (List Tree) := do
  word "int"
  gap
  word "main"
  gap
  sign "("
  gap
  sign ")"
  gap
  braced statement

def body (statement : Rule Tree) : Rule (List Tree) :=
  mainFunction statement <|> statements statement

def program (depth : Nat) : Rule Tree := do
  let (ns, span) ← located do
    gap
    let ns ← body (statement depth)
    gap
    return ns
  return .program ns (some span)

/-! ### Whole texts -/

/-- The fault of a text that goes on where no statement starts. -/
def leftOver (c : Cursor) : ParseFault :=
  .unexpected (snippet c.rest) ⟨c.pos, c.pos.advance (c.rest.take 1)⟩

def slice (text : List Char) (span : Span) : List Char :=
  (text.drop span.start.offset.toNat).take (span.stop.offset - span.start.offset).toNat

/-- The spelling of a whole number with too many digits, and how many it has. -/
def longInteger? (text : List Char) : Tree → Option (List Char × Nat)
  | .literal (.int _) (some span) =>
    if Reading.maxDigits < span.stop.offset - span.start.offset then
      let spelling := slice text span
      let digits := spelling.length - Lexeme.minusCount spelling
      if Reading.maxDigits < digits then some (spelling, digits) else none
    else none
  | _ => none

/-- Checks on the tree of a text that the grammar accepts. -/
def accepted (text : List Char) (tree : Tree) : Except ParseFault Tree :=
  match tree.walk.findSome? (longInteger? text) with
  | some (spelling, digits) => .error (.longInteger (String.ofList spelling) digits)
  | none =>
    match tree.overflow? Node.maxLevels with
    | some location => .error (.nesting location)
    | none => .ok tree

def parseDirectly (depth : Nat) (source : String) : Except ParseFault Tree :=
  let text := source.toList
  let start := Cursor.ofText text
  match program (depth + 1) start with
  | .tooDeep => .error .tooDeep
  | .reject => .error (leftOver start)
  | .accept tree c => if c.rest.isEmpty then accepted text tree else .error (leftOver c)

end Grammar

end Primer
