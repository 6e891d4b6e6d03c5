import Primer.Grammar.Lexeme
import Primer.Grammar.Rule

/-!
The grammar of programs.

A program is a row of statements, alone or as the body of a main function. An expression takes
comparisons, then sums, then products. Statements inside statements and expressions in parentheses
may be nested only so many levels, so every rule is a function of the levels that are left.

A rule that matches gives the piece of the text it has matched, made up of the pieces that its parts
have matched. Every part leaves a piece, whether it says something or not: blanks, signs, the parts
that are missing and the parts that must not be there.
-/

namespace Primer

/-- What a rule has matched: from `start` up to but without `stop`, with a piece for every part. A
part that is no rule of its own has no name. -/
inductive Piece where
  | mk (rule : String) (start stop : Int) (parts : List Piece)

namespace Pieces

open Rule

/-! ### Ways to build a rule -/

/-- The piece of a rule whose parts match in a row. -/
def piece (rule : String) (parts : Rule (List Piece)) : Rule Piece := do
  let (ns, span) ← located parts
  return .mk rule span.start.offset span.stop.offset ns

/-- A word that a measure of the text finds. -/
def token (rule : String) (measure : List Char → Option Nat) : Rule Piece :=
  piece rule do
    let _ ← lexeme measure
    return []

def sign (s : String) : Rule Piece := token "" (Lexeme.sign? s)

/-- Rules that match one behind the other. -/
def row : List (Rule Piece) → Rule (List Piece)
  | [] => return []
  | p :: ps => do
    let n ← p
    let ns ← row ps
    return n :: ns

def sequence (rule : String) (ps : List (Rule Piece)) : Rule Piece := piece rule (row ps)

/-- The first of some rules that matches. -/
def firstOf : List (Rule Piece) → Rule Piece
  | [] => fun _ => .reject
  | p :: ps => p <|> firstOf ps

def choice (rule : String) (ps : List (Rule Piece)) : Rule Piece :=
  piece rule do return [← firstOf ps]

def repeated (rule : String) (p : Rule Piece) : Rule Piece := piece rule (many p)

def maybe (p : Rule Piece) : Rule Piece :=
  piece "" do return (← optional p).toList

/-- A rule that must not match here. -/
def notHere (p : Rule Piece) : Rule Piece :=
  piece "" do
    absent p
    return []

/-! ### Words -/

def whitespace : Rule Piece := token "whitespace" Lexeme.blanks?

def comment : Rule Piece :=
  choice "comment" [token "" Lexeme.lineComment?, token "" Lexeme.blockComment?]

/-- What may stand between words. -/
def gap : Rule Piece := repeated "_" (choice "" [whitespace, comment])

/-- The rule for a word of the language. -/
def keyword (w : String) : Rule Piece := token ("kw_" ++ w) (Lexeme.word? w)

def reserved : Rule Piece := token "keyword" Lexeme.keyword?

def typeName : Rule Piece := token "type_name" Lexeme.typeName?

def identifier : Rule Piece :=
  sequence "identifier" [notHere reserved, token "" Lexeme.identifier?]

def floatLiteral : Rule Piece := token "float_lit" Lexeme.float?

def integerLiteral : Rule Piece := token "integer_lit" Lexeme.integer?

def stringLiteral : Rule Piece := token "string_lit" Lexeme.string?

def booleanLiteral : Rule Piece := token "boolean_lit" Lexeme.boolean?

/-! ### Expressions -/

def paren (expression : Rule Piece) : Rule Piece :=
  sequence "paren" [sign "(", gap, expression, gap, sign ")"]

def primary (expression : Rule Piece) : Rule Piece :=
  choice "primary" [paren expression, floatLiteral, integerLiteral, stringLiteral, booleanLiteral,
    identifier]

/-- The names of the rules for one level of operators, and its signs. -/
structure Level where
  rule : String
  tail : String
  operator : String
  signs : List String

def products : Level := ⟨"term", "term_tail", "multiplicative_op", ["*", "/", "%"]⟩

def sums : Level := ⟨"additive", "additive_tail", "additive_op", ["+", "-"]⟩

def comparisons : Level :=
  ⟨"expression", "comparison_tail", "comparison_op", ["==", "!=", "<=", ">=", "<", ">"]⟩

namespace Level

def anyOperator (l : Level) : Rule Piece := choice l.operator (l.signs.map sign)

/-- An operator and its right operand. -/
def anyTail (l : Level) (operand : Rule Piece) : Rule Piece :=
  sequence l.tail [gap, l.anyOperator, gap, operand]

/-- An operand, and as many more as there are operators of the level. -/
def operation (l : Level) (operand : Rule Piece) : Rule Piece :=
  sequence l.rule [operand, repeated "" (l.anyTail operand)]

end Level

def term (expression : Rule Piece) : Rule Piece := products.operation (primary expression)

def additive (expression : Rule Piece) : Rule Piece := sums.operation (term expression)

/-- An expression with at most `depth` levels of parentheses. -/
def expression : Nat → Rule Piece
  | 0 => tooDeep
  | depth + 1 => comparisons.operation (additive (expression depth))

/-! ### Statements -/

def statementItem (statement : Rule Piece) : Rule Piece :=
  sequence "statement_item" [gap, statement]

def statements (statement : Rule Piece) : Rule Piece :=
  repeated "statements" (statementItem statement)

def block (statement : Rule Piece) : Rule Piece :=
  sequence "block" [sign "\x7b", statements statement, gap, sign "\x7d"]

def initializer (expression : Rule Piece) : Rule Piece :=
  sequence "initializer" [sign "=", notHere (sign "="), gap, expression]

def declaration (expression : Rule Piece) : Rule Piece :=
  sequence "var_decl"
    [typeName, gap, identifier, gap, maybe (initializer expression), gap, sign ";"]

def assignment (expression : Rule Piece) : Rule Piece :=
  sequence "assignment"
    [identifier, gap, sign "=", notHere (sign "="), gap, expression, gap, sign ";"]

def elseClause (statement : Rule Piece) : Rule Piece :=
  sequence "else_clause" [gap, keyword "else", gap, statement]

def branch (expression statement : Rule Piece) : Rule Piece :=
  sequence "if_stmt"
    [keyword "if", gap, sign "(", gap, expression, gap, sign ")", gap, statement,
      maybe (elseClause statement)]

def whileLoop (expression statement : Rule Piece) : Rule Piece :=
  sequence "while_stmt"
    [keyword "while", gap, sign "(", gap, expression, gap, sign ")", gap, statement]

def returnValue (expression : Rule Piece) : Rule Piece :=
  sequence "return_value" [gap, expression]

def returnStatement (expression : Rule Piece) : Rule Piece :=
  sequence "return_stmt" [keyword "return", maybe (returnValue expression), gap, sign ";"]

/-- A statement around given expressions and statements. -/
def statementOf (expression statement : Rule Piece) : Rule Piece :=
  choice "statement" [block statement, branch expression statement, whileLoop expression statement,
    returnStatement expression, declaration expression, assignment expression]

/-- A statement with at most `depth` levels of statements and parentheses. -/
def statement : Nat → Rule Piece
  | 0 => tooDeep
  | depth + 1 => statementOf (expression depth) (statement depth)

/-! ### Programs -/

def mainFunction (statement : Rule Piece) : Rule Piece :=
  sequence "main_function"
    [keyword "int", gap, keyword "main", gap, sign "(", gap, sign ")", gap, sign "\x7b",
      statements statement, gap, sign "\x7d"]

def body (statement : Rule Piece) : Rule Piece :=
  choice "body" [mainFunction statement, statements statement]

def program (depth : Nat) : Rule Piece :=
  sequence "program" [gap, body (statement depth), gap]

end Pieces

end Primer
