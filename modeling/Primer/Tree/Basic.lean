import Primer.Number.Basic
import Primer.Source.Position

/-!
Trees of programs.

One type holds expressions, statements and whole programs, and any node may stand in any place:
trees from other tools need not be sensible, and every pass says what it does with each of them.
The labels of a tree are its names, its types and its operators. They are texts in a parsed
program and may be any JSON value in a tree from outside.
-/

namespace Primer

/-- A constant written in a program. -/
inductive Literal where
  | int (value : Int)
  | float (value : Binary64)
  | text (value : String)
  | bool (value : Bool)
deriving DecidableEq, Repr

/-- A tree with labels in `α`. Every node may record its place in the source. -/
inductive Node (α : Type) where
  | literal (value : Literal) (loc : Option Span)
  | name (name : α) (loc : Option Span)
  | binary (operator : α) (left right : Node α) (loc : Option Span)
  | declare (type name : α) (value : Option (Node α)) (loc : Option Span)
  | assign (name : α) (value : Node α) (loc : Option Span)
  | branch (condition body : Node α) (otherwise : Option (Node α)) (loc : Option Span)
  | whileLoop (condition body : Node α) (loc : Option Span)
  | forLoop (body : Node α) (loc : Option Span)
  | ret (value : Option (Node α)) (loc : Option Span)
  | block (body : List (Node α)) (loc : Option Span)
  | program (body : List (Node α)) (loc : Option Span)
deriving Repr, Inhabited

/-- The tree of a program, labelled with texts. -/
abbrev Tree := Node String

namespace Literal

/-- The number a literal stands for, if it stands for one. -/
def number? : Literal → Option Number
  | .int n => some (.int n)
  | .float x => some (.float x)
  | _ => none

end Literal

namespace Node

variable {α β : Type}

/-- The place of a node in the source. -/
def location : Node α → Option Span
  | .literal _ loc | .name _ loc | .binary _ _ _ loc | .declare _ _ _ loc | .assign _ _ loc
  | .branch _ _ _ loc | .whileLoop _ _ loc | .forLoop _ loc | .ret _ loc | .block _ loc
  | .program _ loc => loc

/-- The line on which a node starts. -/
def line? (n : Node α) : Option Int := n.location.map Span.line

/-- The word for the kind of a node. -/
def kind : Node α → String
  | .literal (.int _) _ => "Integer"
  | .literal (.float _) _ => "Float"
  | .literal (.text _) _ => "String"
  | .literal (.bool _) _ => "Boolean"
  | .name .. => "Identifier"
  | .binary .. => "BinaryExpr"
  | .declare .. => "VariableDecl"
  | .assign .. => "Assignment"
  | .branch .. => "IfStatement"
  | .whileLoop .. => "WhileStatement"
  | .forLoop .. => "ForStatement"
  | .ret .. => "ReturnStatement"
  | .block .. => "Block"
  | .program .. => "Program"

/-- The direct children of a node in source order. -/
def children : Node α → List (Node α)
  | .literal .. => []
  | .name .. => []
  | .binary _ l r _ => [l, r]
  | .declare _ _ v _ => v.toList
  | .assign _ v _ => [v]
  | .branch c b e _ => c :: b :: e.toList
  | .whileLoop c b _ => [c, b]
  | .forLoop b _ => [b]
  | .ret v _ => v.toList
  | .block ns _ => ns
  | .program ns _ => ns

mutual

/-- The tree with every label changed by `f`. -/
def map (f : α → β) : Node α → Node β
  | .literal v loc => .literal v loc
  | .name x loc => .name (f x) loc
  | .binary op l r loc => .binary (f op) (l.map f) (r.map f) loc
  | .declare t x none loc => .declare (f t) (f x) none loc
  | .declare t x (some v) loc => .declare (f t) (f x) (some (v.map f)) loc
  | .assign x v loc => .assign (f x) (v.map f) loc
  | .branch c b none loc => .branch (c.map f) (b.map f) none loc
  | .branch c b (some e) loc => .branch (c.map f) (b.map f) (some (e.map f)) loc
  | .whileLoop c b loc => .whileLoop (c.map f) (b.map f) loc
  | .forLoop b loc => .forLoop (b.map f) loc
  | .ret none loc => .ret none loc
  | .ret (some v) loc => .ret (some (v.map f)) loc
  | .block ns loc => .block (mapAll f ns) loc
  | .program ns loc => .program (mapAll f ns) loc

def mapAll (f : α → β) : List (Node α) → List (Node β)
  | [] => []
  | n :: ns => n.map f :: mapAll f ns

end

mutual

/-- A node and all its descendants, each before its children. -/
def walk : Node α → List (Node α)
  | .literal v loc => [.literal v loc]
  | .name x loc => [.name x loc]
  | .binary op l r loc => .binary op l r loc :: (l.walk ++ r.walk)
  | .declare t x none loc => [.declare t x none loc]
  | .declare t x (some v) loc => .declare t x (some v) loc :: v.walk
  | .assign x v loc => .assign x v loc :: v.walk
  | .branch c b none loc => .branch c b none loc :: (c.walk ++ b.walk)
  | .branch c b (some e) loc => .branch c b (some e) loc :: (c.walk ++ (b.walk ++ e.walk))
  | .whileLoop c b loc => .whileLoop c b loc :: (c.walk ++ b.walk)
  | .forLoop b loc => .forLoop b loc :: b.walk
  | .ret none loc => [.ret none loc]
  | .ret (some v) loc => .ret (some v) loc :: v.walk
  | .block ns loc => .block ns loc :: walkAll ns
  | .program ns loc => .program ns loc :: walkAll ns

def walkAll : List (Node α) → List (Node α)
  | [] => []
  | n :: ns => n.walk ++ walkAll ns

end

/-- What a visit of the whole tree notes at a node: a name with a mark, or the kind. -/
def visitNote : Tree → String
  | .name x _ => "@" ++ x
  | n => n.kind

theorem walkAll_eq_flatMap (ns : List (Node α)) : walkAll ns = ns.flatMap walk := by
  induction ns with
  | nil => rfl
  | cons n ns ih => simp [walkAll, ih]

/-- Induction over the nodes of a tree: each from all of its children. -/
@[elab_as_elim]
theorem induction {motive : Node α → Prop}
    (literal : ∀ v loc, motive (.literal v loc))
    (name : ∀ x loc, motive (.name x loc))
    (binary : ∀ op l r loc, motive l → motive r → motive (.binary op l r loc))
    (declare : ∀ t x v loc, (∀ n, v = some n → motive n) → motive (.declare t x v loc))
    (assign : ∀ x v loc, motive v → motive (.assign x v loc))
    (branch : ∀ c b e loc, motive c → motive b → (∀ n, e = some n → motive n) →
      motive (.branch c b e loc))
    (whileLoop : ∀ c b loc, motive c → motive b → motive (.whileLoop c b loc))
    (forLoop : ∀ b loc, motive b → motive (.forLoop b loc))
    (ret : ∀ v loc, (∀ n, v = some n → motive n) → motive (.ret v loc))
    (block : ∀ ns loc, (∀ n ∈ ns, motive n) → motive (.block ns loc))
    (program : ∀ ns loc, (∀ n ∈ ns, motive n) → motive (.program ns loc)) :
    ∀ n, motive n
  | .literal v loc => literal v loc
  | .name x loc => name x loc
  | .binary op l r loc => binary op l r loc (go l) (go r)
  | .declare t x v loc => declare t x v loc fun n _ => go n
  | .assign x v loc => assign x v loc (go v)
  | .branch c b e loc => branch c b e loc (go c) (go b) fun n _ => go n
  | .whileLoop c b loc => whileLoop c b loc (go c) (go b)
  | .forLoop b loc => forLoop b loc (go b)
  | .ret v loc => ret v loc fun n _ => go n
  | .block ns loc => block ns loc fun n _ => go n
  | .program ns loc => program ns loc fun n _ => go n
where
  go (n : Node α) : motive n :=
    induction literal name binary declare assign branch whileLoop forLoop ret block program n

/-- A walk is the node followed by the walks of its children. -/
theorem walk_eq (n : Node α) : n.walk = n :: n.children.flatMap walk := by
  cases n with
  | declare t x v => cases v <;> simp [walk, children]
  | branch c b e => cases e <;> simp [walk, children]
  | ret v => cases v <;> simp [walk, children]
  | _ => simp [walk, children, walkAll_eq_flatMap]

end Node

end Primer
