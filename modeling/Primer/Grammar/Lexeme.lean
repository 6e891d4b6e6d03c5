import Primer.Number.Binary64
import Primer.Text.Blank
import Primer.Text.Digit

/-!
The words of the language.

Each function here looks at the start of a text and gives the length of the word of its class
that stands there, if one does. Only the longest word counts: a keyword never ends inside a
longer name.
-/

namespace Primer.Lexeme

open Text

/-- The types a variable may be declared with. -/
def typeNames : List String := ["int", "float", "double", "char", "long", "string", "bool"]

/-- The words that are never names. -/
def keywords : List String :=
  typeNames ++ ["if", "else", "while", "for", "return", "true", "false"]

def isLetter (c : Char) : Bool := ('a' ≤ c && c ≤ 'z') || ('A' ≤ c && c ≤ 'Z') || c == '_'

/-- A character that goes on with a word. -/
def isWordChar (c : Char) : Bool := isLetter c || ('0' ≤ c && c ≤ '9')

/-- The length of a given sign, if the text starts with it. -/
def sign? (s : String) (cs : List Char) : Option Nat :=
  if s.toList.isPrefixOf cs then some s.length else none

/-- The length of a given word, if the text starts with it and no longer word. -/
def word? (w : String) (cs : List Char) : Option Nat :=
  if w.toList.isPrefixOf cs && !(cs.drop w.length).head?.any isWordChar then some w.length
  else none

/-- The length of the first of some words that the text starts with. -/
def anyWord? (ws : List String) (cs : List Char) : Option Nat := ws.findSome? (word? · cs)

/-- The words that the rule for types tries. -/
def typeAlternatives : List String := ["int", "float", "double", "char", "long", "string", "bool"]

/-- The words that the rule for keywords tries. -/
def keywordAlternatives : List String :=
  ["int", "float", "double", "char", "long", "string", "bool", "if", "else", "while", "for",
    "return", "true", "false"]

def typeName? (cs : List Char) : Option Nat := anyWord? typeAlternatives cs

def keyword? (cs : List Char) : Option Nat := anyWord? keywordAlternatives cs

def boolean? (cs : List Char) : Option Nat := anyWord? ["true", "false"] cs

/-- A letter, then letters and digits. -/
def identifier? : List Char → Option Nat
  | c :: r => if isLetter c then some (1 + (r.takeWhile isWordChar).length) else none
  | [] => none

/-- The number of digits at the start of a text. -/
def digitCount (cs : List Char) : Nat := (cs.takeWhile isDigit).length

/-- The length of a minus sign, which may be missing. -/
def minusCount : List Char → Nat
  | '-' :: _ => 1
  | _ => 0

/-- A whole number: digits after an optional minus sign. -/
def integer? (cs : List Char) : Option Nat :=
  let s := minusCount cs
  match digitCount (cs.drop s) with
  | 0 => none
  | d => some (s + d)

/-- An exponent: its mark, an optional sign and digits. -/
def exponent? : List Char → Option Nat
  | c :: r =>
    if c = 'e' ∨ c = 'E' then
      let s := match r with
        | '+' :: _ => 1
        | '-' :: _ => 1
        | _ => 0
      match digitCount (r.drop s) with
      | 0 => none
      | d => some (1 + s + d)
    else none
  | [] => none

/-- A decimal fraction without its sign: digits on at least one side of a point, with an
optional exponent, or digits with an exponent. -/
def fraction? (cs : List Char) : Option Nat :=
  let w := digitCount cs
  match cs.drop w with
  | '.' :: r =>
    let f := digitCount r
    if w = 0 ∧ f = 0 then none
    else some (w + 1 + f + (exponent? (r.drop f)).getD 0)
  | r => if w = 0 then none else (exponent? r).map (w + ·)

/-- A floating-point number. -/
def float? (cs : List Char) : Option Nat :=
  let s := minusCount cs
  (fraction? (cs.drop s)).map (s + ·)

/-- The length of the rest of a quoted text with its closing quote. A backslash takes the next
character with it, and no line ends inside. -/
def quotedRest? : List Char → Option Nat
  | [] => none
  | '"' :: _ => some 1
  | '\\' :: c :: r => if c = '\n' then none else (quotedRest? r).map (2 + ·)
  | c :: r => if c = '\n' ∨ c = '\\' then none else (quotedRest? r).map (1 + ·)

/-- A quoted text. -/
def string? : List Char → Option Nat
  | '"' :: r => (quotedRest? r).map (1 + ·)
  | _ => none

/-- Blanks in a row. -/
def blanks? (cs : List Char) : Option Nat :=
  match (cs.takeWhile isBlank).length with
  | 0 => none
  | n => some n

/-- The length up to the end of a block comment, with its closing sign. -/
def commentEnd? : List Char → Option Nat
  | '*' :: '/' :: _ => some 2
  | _ :: r => (commentEnd? r).map (1 + ·)
  | [] => none

/-- A comment to the end of the line. -/
def lineComment? : List Char → Option Nat
  | '/' :: '/' :: r => some (2 + (r.takeWhile (· ≠ '\n')).length)
  | _ => none

/-- A comment to the first closing sign. -/
def blockComment? : List Char → Option Nat
  | '/' :: '*' :: r => (commentEnd? r).map (2 + ·)
  | _ => none

/-- What a character stands for after a backslash. -/
def escapeMeaning : Char → Char
  | 'n' => '\n'
  | 't' => '\t'
  | 'r' => '\r'
  | '0' => '\x00'
  | c => c

/-- The text between the quotes with its escapes resolved. -/
def unescape : List Char → List Char
  | [] => []
  | '\\' :: c :: r => escapeMeaning c :: unescape r
  | c :: r => c :: unescape r

/-- The value of a word for a whole number. -/
def integerValue : List Char → Int
  | '-' :: digits => signed true (digitsValue digits)
  | digits => signed false (digitsValue digits)

end Primer.Lexeme
