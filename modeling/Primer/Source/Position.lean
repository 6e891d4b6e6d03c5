/-!
Places in a text.

Lines and columns count from one and offsets from zero; a line ends only at a line feed. A
position moves over a text one character at a time. Where the starts of all lines are known, the
position of an offset is found without such a walk, by a search for its line among them.
-/

namespace Primer

/-- A point in a text. -/
structure Position where
  line : Int := 0
  column : Int := 0
  offset : Int := 0
deriving DecidableEq, Repr, Inhabited

/-- A range of a text, from `start` up to but without `stop`. -/
structure Span where
  start : Position
  stop : Position
deriving DecidableEq, Repr, Inhabited

namespace Position

/-- The start of a text. -/
def initial : Position := ⟨1, 1, 0⟩

/-- The position after one character. -/
def step (p : Position) (c : Char) : Position :=
  if c = '\n' then ⟨p.line + 1, 1, p.offset + 1⟩
  else ⟨p.line, p.column + 1, p.offset + 1⟩

/-- The position after a row of characters. -/
def advance (p : Position) (cs : List Char) : Position := cs.foldl step p

/-- Where the lines of a text start: at zero and behind every line feed. -/
def lineStarts (text : List Char) : List Nat :=
  0 :: text.zipIdx.filterMap fun (c, i) => if c = '\n' then some (i + 1) else none

/-- The place in an increasing row behind all its entries up to `x`, searched for from `lo` to `hi`
by halving. -/
def bisectRight (row : List Nat) (x : Int) (lo hi : Nat) : Nat :=
  if lo < hi then
    let mid := (lo + hi) / 2
    if x < row.getD mid 0 then bisectRight row x lo mid else bisectRight row x (mid + 1) hi
  else lo
termination_by hi - lo

/-- The position of an offset that may be negative, by a search among the starts of the lines. -/
def among (starts : List Nat) (offset : Int) : Position :=
  let line := bisectRight starts offset 0 starts.length
  -- before the text no line starts: the number is zero, and the columns count from the last line
  let start := starts.getD ((if line = 0 then starts.length else line) - 1) 0
  ⟨line, offset - start + 1, offset⟩

/-- The position of an offset in a text. -/
def ofIndex (text : List Char) (offset : Int) : Position := among (lineStarts text) offset

@[simp] theorem advance_nil (p : Position) : p.advance [] = p := rfl

@[simp] theorem advance_cons (p : Position) (c : Char) (cs : List Char) :
    p.advance (c :: cs) = (p.step c).advance cs := rfl

theorem advance_append (p : Position) (cs ds : List Char) :
    p.advance (cs ++ ds) = (p.advance cs).advance ds := by
  simp [advance]

end Position

namespace Span

/-- The line on which a range starts. -/
def line (s : Span) : Int := s.start.line

/-- A range as `line:column` of its start. -/
def text (s : Span) : String := toString s.start.line ++ ":" ++ toString s.start.column

end Span

end Primer
