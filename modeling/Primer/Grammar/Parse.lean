import Primer.Diagnostic.Basic
import Primer.Grammar.Builder
import Primer.Tree.Nesting

/-!
From a text to the tree of its program.

The grammar always matches some beginning of a text as a program. If anything is left over, the
fault lies where that beginning ends. Of a text that matches as a whole the builder makes a tree.
The text is still refused if one of its whole numbers has too many digits or its tree is too deep.
-/

namespace Primer

/-- Why a text is no program. -/
inductive ParseFault where
  | unexpected (snippet : String) (span : Span)
  | tooDeep
  | longInteger (literal : String) (digits : Nat)
  | misshapen
  | nesting (location : Option Span)
deriving DecidableEq, Repr

namespace ParseFault

def diagnostic : ParseFault → Diagnostic
  | .unexpected snippet span =>
    let message :=
      if snippet.isEmpty then "Syntax Error: unexpected end of input."
      else "Syntax Error: unexpected '" ++ snippet ++ "'."
    .parser .parseFailure message (some span)
  | .tooDeep => .parser .nestingTooDeep "Source nests too deeply to parse." none
  | .longInteger literal digits =>
    .parser .parseFailure
      ("Could not build the syntax tree: ValueError: " ++ NumberFault.digitsMessage digits ++
        "\n\nParse tree:\n<RegexNode called \"integer_lit\" matching \"" ++ literal ++
        "\">  <-- *** We were here. ***") none
  | .misshapen => .parser .parseFailure "Could not build the syntax tree." none
  | .nesting location => .nesting Node.maxLevels location

/-- The fault of a text of which the builder makes no tree. -/
def ofBuild : BuildFault → ParseFault
  | .longInteger literal digits => .longInteger literal digits
  | .misshapen => .misshapen

end ParseFault

namespace Grammar

/-- The text that a fault quotes: at most twenty characters of one line. -/
def snippet (rest : List Char) : String :=
  String.ofList ((rest.take 20).takeWhile (· ≠ '\n'))

/-- The fault of a text that goes on at an offset where no program does. -/
def unexpected (b : Builder) (offset : Nat) : ParseFault :=
  let start := min offset b.text.length
  let stop := min (start + 1) b.text.length
  .unexpected (snippet (b.text.drop start)) ⟨b.position start, b.position stop⟩

/-- The tree that the builder has made of a whole text, if it is low enough for the passes. -/
def checked (built : Except BuildFault Built) : Except ParseFault Tree :=
  match built with
  | .error fault => .error (.ofBuild fault)
  | .ok (.tree t) =>
    match t.overflow? Node.maxLevels with
    | some location => .error (.nesting location)
    | none => .ok t
  | .ok _ => .error .misshapen

/-- The tree of a program with at most `depth` levels of statements and parentheses below its own
statements. -/
def parse (depth : Nat) (source : String) : Except ParseFault Tree :=
  let b := Builder.ofText source.toList
  match Pieces.program (depth + 1) (.ofText b.text) with
  | .tooDeep => .error .tooDeep
  | .reject => .error (unexpected b 0)
  | .accept n c =>
    if c.rest.isEmpty then checked (b.visit n) else .error (unexpected b c.pos.offset.toNat)

end Grammar

end Primer
