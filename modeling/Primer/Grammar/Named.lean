import Primer.Grammar.Pieces

/-!
The rules of the grammar by name, for looking at one rule alone.
-/

namespace Primer.Grammar

open Pieces

/-- The named rules, with `depth` levels. -/
def rules (depth : Nat) : List (String × Rule Piece) :=
  let e := expression depth
  let s := statement depth
  [("program", program depth),
    ("body", body s),
    ("main_function", mainFunction s),
    ("statements", statements s),
    ("statement_item", statementItem s),
    ("statement", s),
    ("block", block s),
    ("var_decl", declaration e),
    ("initializer", initializer e),
    ("assignment", assignment e),
    ("if_stmt", branch e s),
    ("else_clause", elseClause s),
    ("while_stmt", whileLoop e s),
    ("return_stmt", returnStatement e),
    ("return_value", returnValue e),
    ("expression", e),
    ("comparison_tail", comparisons.anyTail (additive e)),
    ("comparison_op", comparisons.anyOperator),
    ("additive", additive e),
    ("additive_tail", sums.anyTail (term e)),
    ("additive_op", sums.anyOperator),
    ("term", term e),
    ("term_tail", products.anyTail (primary e)),
    ("multiplicative_op", products.anyOperator),
    ("primary", primary e),
    ("paren", paren e),
    ("float_lit", floatLiteral),
    ("integer_lit", integerLiteral),
    ("string_lit", stringLiteral),
    ("boolean_lit", booleanLiteral),
    ("identifier", identifier),
    ("type_name", typeName),
    ("keyword", reserved),
    ("kw_int", keyword "int"),
    ("kw_main", keyword "main"),
    ("kw_if", keyword "if"),
    ("kw_else", keyword "else"),
    ("kw_while", keyword "while"),
    ("kw_return", keyword "return"),
    ("_", gap),
    ("whitespace", whitespace),
    ("comment", comment)]

/-- The rest of a text from an index on; a negative one counts from the end. -/
def restFrom (text : List Char) : Int → List Char
  | .ofNat offset => text.drop offset
  | .negSucc n => text.drop (text.length - (n + 1))

/-- Where a named rule's match from an offset ends, if it matches there. -/
def matchEnd? (depth : Nat) (rule : String) (text : String) (offset : Int) : Option Int := do
  let r ← (rules depth).lookup rule
  match r ⟨restFrom text.toList offset, .ofIndex text.toList offset⟩ with
  | .accept _ c => return c.pos.offset
  | _ => none

end Primer.Grammar
