import Primer.Json.Basic
import Primer.Tree.Basic

/-!
The words of a program, rebuilt from its tree.

Spacing, comments and parentheses inside expressions are not in the tree, so they are not in this
view. A program is shown inside a main function, and a counted loop with an empty header.
-/

namespace Primer

inductive TokenKind where
  | keyword
  | identifier
  | separator
  | operator
  | literal
deriving DecidableEq, Repr

def TokenKind.text : TokenKind → String
  | .keyword => "Keyword"
  | .identifier => "Identifier"
  | .separator => "Separator"
  | .operator => "Operator"
  | .literal => "Literal"

structure Token where
  kind : TokenKind
  value : String
deriving DecidableEq, Repr

namespace Token

def toJson (t : Token) : Json := .obj [("type", .str t.kind.text), ("value", .str t.value)]

def keyword (w : String) : Token := ⟨.keyword, w⟩
def identifier (x : String) : Token := ⟨.identifier, x⟩
def separator (s : String) : Token := ⟨.separator, s⟩
def operator (s : String) : Token := ⟨.operator, s⟩
def literal (s : String) : Token := ⟨.literal, s⟩

end Token

namespace Literal

/-- A literal as it is shown: texts between double quotes, without escapes. -/
def shown : Literal → String
  | .int n => toString n
  | .float x => x.text
  | .text s => "\"" ++ s ++ "\""
  | .bool b => if b then "true" else "false"

end Literal

namespace Node

open Token

mutual

/-- The tokens of a tree. -/
def tokens : Tree → List Token
  | .literal v _ => [.literal v.shown]
  | .name x _ => [.identifier x]
  | .binary op l r _ => l.tokens ++ .operator op :: r.tokens
  | .declare t x none _ => [.keyword t, .identifier x, .separator ";"]
  | .declare t x (some v) _ =>
    .keyword t :: .identifier x :: .operator "=" :: (v.tokens ++ [.separator ";"])
  | .assign x v _ => .identifier x :: .operator "=" :: (v.tokens ++ [.separator ";"])
  | .branch c b none _ =>
    .keyword "if" :: .separator "(" :: (c.tokens ++ .separator ")" :: b.tokens)
  | .branch c b (some e) _ =>
    .keyword "if" :: .separator "(" ::
      (c.tokens ++ .separator ")" :: (b.tokens ++ .keyword "else" :: e.tokens))
  | .whileLoop c b _ =>
    .keyword "while" :: .separator "(" :: (c.tokens ++ .separator ")" :: b.tokens)
  | .forLoop b _ =>
    .keyword "for" :: .separator "(" :: .separator ";" :: .separator ";" :: .separator ")" ::
      b.tokens
  | .ret none _ => [.keyword "return", .separator ";"]
  | .ret (some v) _ => .keyword "return" :: (v.tokens ++ [.separator ";"])
  | .block ns _ => .separator "\x7b" :: (tokensAll ns ++ [.separator "\x7d"])
  | .program ns _ =>
    .keyword "int" :: .identifier "main" :: .separator "(" :: .separator ")" ::
      .separator "\x7b" :: (tokensAll ns ++ [.separator "\x7d"])

def tokensAll : List Tree → List Token
  | [] => []
  | n :: ns => n.tokens ++ tokensAll ns

end

end Node

end Primer
