import Primer.Command.Answer

/-!
Running a command line.

A run reads one file, answers, and writes the answer to standard output or to a file. It ends
with 0 if nothing is wrong with the program it read, with 1 if something is, and with 2 if the
command line or a file is at fault.
-/

namespace Primer.Command

/-- A line on standard error. -/
inductive Notice where
  | entry (e : Entry)
  | text (line : String)
deriving DecidableEq, Repr

def Notice.line (time : String) : Notice → String
  | .entry e => e.line time
  | .text line => line

inductive Ending where
  | exit (code : Nat)
  | breakdown (b : Breakdown)
deriving DecidableEq, Repr

/-- What a run leaves behind, files apart. `usage` says that the user is shown how the program is
used. -/
structure Result where
  stdout : String := ""
  stderr : List Notice := []
  ending : Ending
  usage : Bool := false
deriving DecidableEq, Repr

namespace Result

/-- Standard error as text, when all of it was written at a given time. -/
def errorText (time : String) (r : Result) : String :=
  String.join (r.stderr.map fun n => n.line time ++ "\n")

/-- A run that fails for a reason of its surroundings. -/
def failure (stderr : List Notice) (message : String) : Result :=
  { stderr := stderr ++ [.entry (.failure message)], ending := .exit 2 }

end Result

/-- The text as it is written: its last line ends like the others. -/
def closed (text : String) : String :=
  if text.toList.getLast? = some '\n' then text else text ++ "\n"

variable {m : Type → Type} [Monad m]

/-- Writes an answer and ends with `code`. -/
def deliver (files : Files m) (i : Invocation) (stderr : List Notice) (text : String)
    (code : Nat) : m Result :=
  match i.output with
  | .standardOutput => return { stdout := closed text, stderr, ending := .exit code }
  | .missing => return { stderr, ending := .breakdown .noPath }
  | .file name => do
    match ← files.locate name with
    | .error fault => return { stderr, ending := .breakdown (.badPath fault) }
    | .ok path =>
      match ← files.write path (closed text) with
      | .ok () => return { stderr, ending := .exit code }
      | .error fault => return .failure stderr ("I/O error: " ++ fault.message)

/-- Follows the answer to the file at `path`. -/
def conclude (files : Files m) (i : Invocation) (path : Path) (a : Answer) : m Result :=
  let stderr := (a.journal.filter (Entry.isShown i.verbosity)).map Notice.entry
  match a.outcome with
  | .answered (some text) ok => deliver files i stderr text (if ok then 0 else 1)
  | .answered none ok => return { stderr, ending := .exit (if ok then 0 else 1) }
  | .failed .badJson => return .failure stderr ("Invalid JSON in " ++ path.text)
  | .failed (.diagnosed d) =>
    return { stderr := stderr ++ [.text (d.render i.file)], ending := .exit 1 }
  | .failed (.broken b) => return { stderr, ending := .breakdown b }

/-- Runs a command. -/
def Invocation.run (stack : Stack) (files : Files m) (i : Invocation) : m Result :=
  if i.skipsNothing then return { ending := .breakdown .noPass }
  else do
    match ← files.locate i.file with
    | .error fault => return { ending := .breakdown (.badPath fault) }
    | .ok path =>
      match ← files.read? path with
      | .error fault => return .failure [] ("I/O error: " ++ fault.message)
      | .ok none => return .failure [] ("input file not found: " ++ path.text)
      | .ok (some bytes) => conclude files i path (answer stack i bytes)

def versionText : String := "codesense 0.1.0"

/-- Runs a command line. -/
def run (stack : Stack) (files : Files m) (words : List String) : m Result :=
  match Request.ofWords words with
  | .run i => i.run stack files
  | .help => return { ending := .exit 0, usage := true }
  | .version => return { stdout := closed versionText, ending := .exit 0 }
  | .nothing => return { ending := .exit 2, usage := true }
  | .refused program fault =>
    return { stderr := [.text (program ++ ": error: " ++ fault.message)], ending := .exit 2 }

end Primer.Command
