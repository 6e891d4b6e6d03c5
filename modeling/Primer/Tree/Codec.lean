import Primer.Diagnostic.Basic
import Primer.Tree.Nesting

/-!
Trees in JSON.

Every node is an object with its kind under `type`, its parts under their names, and its place.
Labels are kept as the values they are. Reading goes through the parts of a node in a fixed order
and stops at the first fault; a tree may be nested only so deep.
-/

namespace Primer

/-- A tree as it comes from outside. -/
abbrev JsonTree := Node Json

/-- Why a value is no tree. -/
inductive TreeFault where
  | notObject (kind : String)
  | badPlace (tag : String)
  | missingField (tag field : String) (location : Option Span)
  | badField (tag : String) (fault : NumberFault) (location : Option Span)
  | unknownTag (tag : String) (location : Option Span)
  | tooDeep
  | nesting (location : Option Span)
  | outOfRange (fault : NumberFault)
  | unwritable
deriving DecidableEq, Repr

namespace TreeFault

/-- The diagnostic of a fault. A number out of range has none, since no report is made of it, and
neither has a fault that would have to name a tag that is not written. -/
def diagnostic? : TreeFault → Option Diagnostic
  | .notObject kind =>
    some (.parser .malformedTree ("Expected an AST object, got " ++ kind) none)
  | .badPlace tag =>
    some (.parser .malformedTree (tag ++ " node has a malformed location") none)
  | .missingField tag field location =>
    some (.parser .malformedTree
      (tag ++ " node is missing field " ++ Text.quoted field) location)
  | .badField tag fault location =>
    some (.parser .malformedTree
      (tag ++ " node has a malformed field: " ++ fault.message) location)
  | .unknownTag tag location =>
    some (.parser .malformedTree ("Unknown AST node type: " ++ tag) location)
  | .tooDeep => some (.parser .nestingTooDeep "AST nesting is too deep to analyse." none)
  | .nesting location => some (.nesting Node.maxLevels location)
  | .outOfRange _ => none
  | .unwritable => none

/-- A fault that names the tag of a node. -/
def naming (tag : Json) (fault : TreeFault) : TreeFault :=
  if tag.overlong then .unwritable else fault

/-- The fault of a part as the node around it has it: a part that names no fault of its own is a
malformed field of the node. -/
def within (tag : String) (location : Option Span) : TreeFault → TreeFault
  | .unwritable => .badField tag .overlong location
  | fault => fault

end TreeFault

namespace Node

/-! ### Writing -/

def literalJson : Literal → Json
  | .int n => .int n
  | .float x => .float x
  | .text s => .str s
  | .bool b => .bool b

/-- The object of a node from its kind, its parts and its place. -/
def object (kind : String) (parts : List (String × Json)) (loc : Option Span) : Json :=
  .obj (("type", .str kind) :: parts ++ [("location", placeJson loc)])

mutual

/-- The object of a tree. -/
def toJson : JsonTree → Json
  | .literal v loc => object (literal v loc : JsonTree).kind [("value", literalJson v)] loc
  | .name x loc => object "Identifier" [("name", x)] loc
  | .binary op l r loc =>
    object "BinaryExpr" [("operator", op), ("left", l.toJson), ("right", r.toJson)] loc
  | .declare t x none loc =>
    object "VariableDecl" [("varType", t), ("name", x), ("value", .null)] loc
  | .declare t x (some v) loc =>
    object "VariableDecl" [("varType", t), ("name", x), ("value", v.toJson)] loc
  | .assign x v loc => object "Assignment" [("name", x), ("value", v.toJson)] loc
  | .branch c b none loc =>
    object "IfStatement"
      [("condition", c.toJson), ("body", b.toJson), ("elseBody", .null)] loc
  | .branch c b (some e) loc =>
    object "IfStatement"
      [("condition", c.toJson), ("body", b.toJson), ("elseBody", e.toJson)] loc
  | .whileLoop c b loc =>
    object "WhileStatement" [("condition", c.toJson), ("body", b.toJson)] loc
  | .forLoop b loc => object "ForStatement" [("body", b.toJson)] loc
  | .ret none loc => object "ReturnStatement" [("value", .null)] loc
  | .ret (some v) loc => object "ReturnStatement" [("value", v.toJson)] loc
  | .block ns loc => object "Block" [("body", .arr (toJsonAll ns))] loc
  | .program ns loc => object "Program" [("body", .arr (toJsonAll ns))] loc

def toJsonAll : List JsonTree → List Json
  | [] => []
  | n :: ns => n.toJson :: toJsonAll ns

end

/-! ### Reading -/

/-- The part of a node that must be there. -/
def field (tag : String) (loc : Option Span) (ms : List (String × Json)) (key : String) :
    Except TreeFault Json :=
  match Json.member? key ms with
  | some j => .ok j
  | none => .error (.missingField tag key loc)

/-- The part of a node that may be missing or `null`. -/
def optionalField (ms : List (String × Json)) (key : String) : Option Json :=
  match Json.member? key ms with
  | some .null => none
  | other => other

/-- A value of a literal. -/
def literalField {α : Type} (tag : String) (loc : Option Span) :
    Except NumberFault α → Except TreeFault α
  | .ok v => .ok v
  | .error fault =>
    .error (if fault.isRange then .outOfRange fault else .badField tag fault loc)

/-- Trees read in order, up to the first fault. -/
def readAll (read : Json → Except TreeFault JsonTree) :
    List Json → Except TreeFault (List JsonTree)
  | [] => .ok []
  | j :: js => do
    let n ← read j
    let ns ← readAll read js
    return n :: ns

/-- The statements of a body: none if it is missing, one if it is no array. -/
def readBody (read : Json → Except TreeFault JsonTree) :
    Option Json → Except TreeFault (List JsonTree)
  | none => .ok []
  | some (.arr js) => readAll read js
  | some j => do return [← read j]

def readOptional (read : Json → Except TreeFault JsonTree) :
    Option Json → Except TreeFault (Option JsonTree)
  | none => .ok none
  | some j => do return some (← read j)

/-- The node with a given tag. -/
def readTagged (read : Json → Except TreeFault JsonTree) (tag : String)
    (ms : List (String × Json)) (loc : Option Span) : Except TreeFault JsonTree := do
  let need := field tag loc ms
  match tag with
  | "Program" => return .program (← readBody read (optionalField ms "body")) loc
  | "Block" => return .block (← readBody read (optionalField ms "body")) loc
  | "VariableDecl" =>
    let t ← need "varType"
    let x ← need "name"
    let v ← readOptional read (optionalField ms "value")
    return .declare t x v loc
  | "Assignment" =>
    let x ← need "name"
    let v ← read (← need "value")
    return .assign x v loc
  | "BinaryExpr" =>
    let op ← need "operator"
    let l ← read (← need "left")
    let r ← read (← need "right")
    return .binary op l r loc
  | "IfStatement" =>
    let c ← read (← need "condition")
    let b ← read (← need "body")
    let e ← readOptional read (optionalField ms "elseBody")
    return .branch c b e loc
  | "WhileStatement" =>
    let c ← read (← need "condition")
    let b ← read (← need "body")
    return .whileLoop c b loc
  | "ForStatement" => return .forLoop (← read (← need "body")) loc
  | "ReturnStatement" => return .ret (← readOptional read (optionalField ms "value")) loc
  | "Integer" => return .literal (.int (← literalField tag loc (← need "value").toInt)) loc
  | "Float" => return .literal (.float (← literalField tag loc (← need "value").toFloat)) loc
  | "String" => return .literal (.text (← literalField tag loc (← need "value").toText)) loc
  | "Boolean" => return .literal (.bool (← need "value").truthy) loc
  | "Identifier" => return .name (← need "name") loc
  | _ => .error (.unknownTag (Text.quoted tag) loc)

/-- The tree of a value, read at most `levels` deep. -/
def readWithin : Nat → Json → Except TreeFault JsonTree
  | 0, _ => .error .tooDeep
  | levels + 1, .obj ms =>
    let tag := (Json.member? "type" ms).getD .null
    match Span.ofJson ((Json.member? "location" ms).getD .null) with
    | .error (.number fault) =>
      .error (if fault.isRange then .outOfRange fault else .naming tag (.badPlace tag.plain))
    | .error (.notObject _) => .error (.naming tag (.badPlace tag.plain))
    | .ok loc =>
      match tag with
      | .str t => (readTagged (readWithin levels) t ms loc).mapError (.within t loc)
      | _ => .error (.naming tag (.unknownTag tag.spelled loc))
  | _ + 1, j => .error (.notObject j.kindName)

/-- The tree of a value. At most `levels` levels of nodes are read. -/
def ofJson (levels : Nat) (j : Json) : Except TreeFault JsonTree := do
  let n ← readWithin levels j
  match n.overflow? maxLevels with
  | some location => .error (.nesting location)
  | none => return n

/-- The tree with its labels as texts. -/
def plain (n : JsonTree) : Tree := n.map Json.plain

/-- A tree with texts for labels as a tree for writing. -/
def toJsonTree (n : Tree) : JsonTree := n.map Json.str

end Node

end Primer
