import Primer.Table
import Primer.Text.Quoted

/-!
The declared types of variables, in nested scopes.

There is always an outermost scope. An inner declaration hides an outer one of the same name.
-/

namespace Primer

/-- Open scopes, the innermost first. -/
structure SymbolTable where
  inner : Table String
  outer : List (Table String)
deriving DecidableEq, Repr

namespace SymbolTable

def empty : SymbolTable := ⟨[], []⟩

/-- The number of open scopes. -/
def depth (t : SymbolTable) : Nat := t.outer.length + 1

def enter (t : SymbolTable) : SymbolTable := ⟨[], t.inner :: t.outer⟩

/-- Closes the innermost scope; the outermost one stays open. -/
def exit? (t : SymbolTable) : Option SymbolTable :=
  match t.outer with
  | [] => none
  | s :: r => some ⟨s, r⟩

/-- Declares a name in the innermost scope. -/
def define (t : SymbolTable) (name type : String) : SymbolTable :=
  ⟨Table.set name type t.inner, t.outer⟩

/-- The type of a name, from the innermost scope that declares it. -/
def lookup (t : SymbolTable) (name : String) : Option String :=
  (t.inner :: t.outer).findSome? fun scope => Table.get? scope name

/-- The visible names with their types, outermost scope first. -/
def items (t : SymbolTable) : Table String :=
  (t.inner :: t.outer).reverse.foldl Table.update []

/-- The table in words. -/
def summary (t : SymbolTable) : String :=
  "SymbolTable(depth=" ++ toString t.depth ++ ", symbols=\x7b" ++
    ", ".intercalate (t.items.map fun e => Text.quoted e.1 ++ ": " ++ Text.quoted e.2) ++ "\x7d)"

end SymbolTable

end Primer
