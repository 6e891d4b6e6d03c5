import Primer.Tree.Basic

/-!
Trees as S-expressions.

The dump leaves places out. Kinds, names, types and operators are symbols, texts stand in double
quotes, and a missing part is the symbol `nil`.
-/

namespace Primer

inductive SExpr where
  | symbol (name : String)
  | text (value : String)
  | number (value : Number)
  | list (items : List SExpr)
deriving Repr, Inhabited

namespace SExpr

/-- The characters that a symbol marks with a backslash. -/
def marked : List Char :=
  ['\\', '\x27', '\x60', '"', '(', ')', '[', ']', ' ', ',', '?', ';', '#']

def symbolChar (c : Char) : List Char := if marked.contains c then ['\\', c] else [c]

def textChar (c : Char) : List Char :=
  if c = '\\' then ['\\', '\\']
  else if c = '"' then ['\\', '"']
  else if c = '\x08' then ['\\', 'b']
  else if c = '\x0c' then ['\\', 'f']
  else if c = '\n' then ['\\', 'n']
  else if c = '\r' then ['\\', 'r']
  else if c = '\t' then ['\\', 't']
  else [c]

mutual

/-- An S-expression on one line. -/
def render : SExpr → String
  | .symbol s => String.ofList (s.toList.flatMap symbolChar)
  | .text s => String.ofList ('"' :: (s.toList.flatMap textChar ++ ['"']))
  | .number n => n.text
  | .list xs => "(" ++ " ".intercalate (renderAll xs) ++ ")"

def renderAll : List SExpr → List String
  | [] => []
  | x :: xs => render x :: renderAll xs

end

end SExpr

namespace Node

def literalSExpr : Literal → SExpr
  | .int n => .number (.int n)
  | .float x => .number (.float x)
  | .text s => .text s
  | .bool b => .symbol (if b then "true" else "false")

/-- What stands for a missing part. -/
def nil : SExpr := .symbol "nil"

mutual

/-- The S-expression of a tree. -/
def toSExpr : Tree → SExpr
  | .literal v _ => literalSExpr v
  | .name x _ => .symbol x
  | .binary op l r _ => .list [.symbol op, l.toSExpr, r.toSExpr]
  | .declare t x none _ => .list [.symbol "VariableDecl", .symbol t, .symbol x, nil]
  | .declare t x (some v) _ => .list [.symbol "VariableDecl", .symbol t, .symbol x, v.toSExpr]
  | .assign x v _ => .list [.symbol "Assignment", .symbol x, v.toSExpr]
  | .branch c b none _ => .list [.symbol "IfStatement", c.toSExpr, b.toSExpr, nil]
  | .branch c b (some e) _ => .list [.symbol "IfStatement", c.toSExpr, b.toSExpr, e.toSExpr]
  | .whileLoop c b _ => .list [.symbol "WhileStatement", c.toSExpr, b.toSExpr]
  | .forLoop b _ => .list [.symbol "ForStatement", b.toSExpr]
  | .ret none _ => .list [.symbol "ReturnStatement", nil]
  | .ret (some v) _ => .list [.symbol "ReturnStatement", v.toSExpr]
  | .block ns _ => .list (.symbol "Block" :: toSExprAll ns)
  | .program ns _ => .list (.symbol "Program" :: toSExprAll ns)

def toSExprAll : List Tree → List SExpr
  | [] => []
  | n :: ns => n.toSExpr :: toSExprAll ns

end

end Node

end Primer
