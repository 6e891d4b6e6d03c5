import Primer.Grammar.Pieces
import Primer.Number.Reading
import Primer.Tree.Basic

/-!
From the pieces of a text to the tree of its program.

The builder makes a value of every piece after it has made the values of the parts. What it makes
depends on the rule that has matched the piece, and which of the values it uses depends on where
they stand among the parts. A piece without a rule of its own becomes the list of the values of its
parts; one that has no parts stays what it is.
-/

namespace Primer

/-- What the builder makes of a piece. -/
inductive Built where
  | piece (n : Piece)
  | text (s : String)
  | tree (t : Tree)
  | tail (operator : String) (right : Tree)
  | list (vs : List Built)

/-- Why nothing can be made of a piece. -/
inductive BuildFault where
  | longInteger (literal : String) (digits : Nat)
  | misshapen

/-- The text, and where its lines start. -/
structure Builder where
  text : List Char
  starts : List Nat

namespace Built

def tree? : Built → Except BuildFault Tree
  | .tree t => .ok t
  | _ => .error .misshapen

def text? : Built → Except BuildFault String
  | .text s => .ok s
  | _ => .error .misshapen

/-- The values of a repetition or of an optional part. If it has matched nothing, it has stayed a
piece, and there are none. -/
def many : Built → List Built
  | .list vs => vs
  | _ => []

/-- The tree of an optional part. -/
def optionalTree (v : Built) : Except BuildFault (Option Tree) :=
  match v.many with
  | [] => .ok none
  | first :: _ => do return some (← first.tree?)

/-- The trees of a row of statements. -/
def trees : Built → Except BuildFault (List Tree)
  | .list vs => vs.mapM tree?
  | _ => .error .misshapen

end Built

namespace Builder

def ofText (text : List Char) : Builder := ⟨text, Position.lineStarts text⟩

def position (b : Builder) (offset : Int) : Position := .among b.starts offset

def location (b : Builder) (start stop : Int) : Option Span :=
  some ⟨b.position start, b.position stop⟩

/-- The characters from `start` up to but without `stop`. -/
def slice (b : Builder) (start stop : Int) : List Char :=
  (b.text.drop start.toNat).take (stop - start).toNat

/-- The value at a place among the values of the parts. -/
def pick (vs : List Built) (i : Nat) : Except BuildFault Built :=
  match vs[i]? with
  | some v => .ok v
  | none => .error .misshapen

/-- The range from the start of one node to the end of another. -/
def joined (l r : Tree) : Option Span :=
  match l.location, r.location with
  | some a, some b => some ⟨a.start, b.stop⟩
  | _, _ => none

/-- Operands joined from left to right. -/
def fold (first : Tree) (tails : List Built) : Except BuildFault Tree :=
  tails.foldlM (fun left v =>
    match v with
    | .tail operator right => .ok (.binary operator left right (joined left right))
    | _ => .error .misshapen) first

/-- The value of a whole number, which may have only so many digits. -/
def integer (spelling : List Char) : Except BuildFault Int :=
  let digits := spelling.length - Lexeme.minusCount spelling
  if Reading.maxDigits < digits then .error (.longInteger (String.ofList spelling) digits)
  else .ok (Lexeme.integerValue spelling)

/-- What is made of a piece with the values of its parts. -/
def act (b : Builder) (n : Piece) (vs : List Built) : Except BuildFault Built :=
  let ⟨rule, start, stop, _⟩ := n
  let location := b.location start stop
  let spelling := b.slice start stop
  match rule with
  | "program" =>
    match vs with
    | [_, body, _] => do return .tree (.program (← body.trees) location)
    | _ => .error .misshapen
  | "body" => pick vs 0
  | "main_function" => pick vs 9
  | "statements" => .ok (.list vs)
  | "statement_item" =>
    match vs with
    | [_, statement] => .ok statement
    | _ => .error .misshapen
  | "statement" => pick vs 0
  | "block" => do return .tree (.block (← (← pick vs 1).trees) location)
  | "var_decl" =>
    match vs with
    | [type, _, x, _, initializer, _, _] => do
      let value ← initializer.optionalTree
      return .tree (.declare (← type.text?) (← x.text?) value location)
    | _ => .error .misshapen
  | "initializer" => pick vs (vs.length - 1)
  | "assignment" => do
    let x ← pick vs 0
    let value ← pick vs 5
    return .tree (.assign (← x.text?) (← value.tree?) location)
  | "if_stmt" => do
    let otherwise ← (← pick vs 9).optionalTree
    let condition ← pick vs 4
    let body ← pick vs 8
    return .tree (.branch (← condition.tree?) (← body.tree?) otherwise location)
  | "else_clause" => pick vs 3
  | "while_stmt" => do
    let condition ← pick vs 4
    let body ← pick vs 8
    return .tree (.whileLoop (← condition.tree?) (← body.tree?) location)
  | "return_stmt" => do return .tree (.ret (← (← pick vs 1).optionalTree) location)
  | "return_value" => pick vs 1
  | "expression" | "additive" | "term" =>
    match vs with
    | [first, tails] => do return .tree (← fold (← first.tree?) tails.many)
    | _ => .error .misshapen
  | "comparison_tail" | "additive_tail" | "term_tail" =>
    match vs with
    | [_, operator, _, right] => do return .tail (← operator.text?) (← right.tree?)
    | _ => .error .misshapen
  | "comparison_op" | "additive_op" | "multiplicative_op" => .ok (.text (String.ofList spelling))
  | "primary" => do
    match ← pick vs 0 with
    | .text x => return .tree (.name x location)
    | v => return v
  | "paren" => pick vs 2
  | "float_lit" =>
    .ok (.tree (.literal (.float ((Reading.float? (String.ofList spelling)).getD .nan)) location))
  | "integer_lit" => do return .tree (.literal (.int (← integer spelling)) location)
  | "string_lit" =>
    let inner := (spelling.drop 1).dropLast
    .ok (.tree (.literal (.text (String.ofList (Lexeme.unescape inner))) location))
  | "boolean_lit" => .ok (.tree (.literal (.bool (spelling == "true".toList)) location))
  | "identifier" | "type_name" => .ok (.text (String.ofList spelling))
  | _ => .ok (if vs.isEmpty then .piece n else .list vs)

mutual

/-- What is made of a piece. -/
def visit (b : Builder) : Piece → Except BuildFault Built
  | .mk rule start stop parts => do
    let vs ← b.visitAll parts
    b.act (.mk rule start stop parts) vs

def visitAll (b : Builder) : List Piece → Except BuildFault (List Built)
  | [] => .ok []
  | n :: ns => do
    let v ← b.visit n
    let vs ← b.visitAll ns
    return v :: vs

end

end Builder

end Primer
