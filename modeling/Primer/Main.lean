import Primer.Command.Run
import Std.Time.DateTime.Timestamp

/-!
The program itself: a command line that works on the files of this machine.
-/

namespace Primer.Command

/-- The room on this machine. -/
def machineStack : Stack where
  parsing := 399
  reading := 300
  json := 990
  scoring := 990

/-- The problems that have a number of their own. -/
def problemOf? : IO.Error → Option FileProblem
  | .alreadyExists _ code _ | .inappropriateType _ code _ | .invalidArgument _ code _ =>
    [FileProblem.exists, .notDirectory, .isDirectory, .nameTooLong].find? fun p =>
      p.number = code.toNat
  | _ => none

/-- Does something with the path `p`; a problem with it becomes a fault. -/
def attempt (p : Path) (act : IO Unit) : IO (Except FileFault Unit) := do
  try
    act
    return .ok ()
  catch e =>
    match problemOf? e with
    | some problem => return .error ⟨problem, p⟩
    | none => throw e

/-- The files of this machine. What cannot be read is not there, and only one home is known. -/
def machineFiles (here : Path) : Files IO where
  here
  home? user := do
    if user.isEmpty then return (← IO.getEnv "HOME").map (Path.resolve ⟨[]⟩)
    else return none
  read? p := do
    try
      return .ok (some (← IO.FS.readBinFile p.text).toList)
    catch _ => return .ok none
  write p text := do
    match ← attempt p.parent (IO.FS.createDirAll p.parent.text) with
    | .ok () => attempt p (IO.FS.writeFile p.text text)
    | .error fault => return .error fault

/-- Two digits of a part of the time. -/
def twoDigits (n : Int) : String := (if n < 10 then "0" else "") ++ toString n

/-- The time of day in universal time. -/
def timeOfDay : IO String := do
  let seconds := (← Std.Time.Timestamp.now).toSecondsSinceUnixEpoch.val
  return ":".intercalate
    [twoDigits (seconds / 3600 % 24), twoDigits (seconds / 60 % 60), twoDigits (seconds % 60)]

def usageText : String := unlines [
  "usage: codesense [-h] [--version] [-v] <command> [options] FILE",
  "",
  "commands: " ++ ", ".intercalate (CommandName.table.map Prod.fst)]

/-- Shows what a run leaves behind and gives its exit code. -/
def Result.report (r : Result) : IO UInt32 := do
  match r.ending with
  | .exit code =>
    IO.print r.stdout
    IO.eprint (r.errorText (← timeOfDay))
    if r.usage then (if code = 0 then IO.println usageText else IO.eprintln usageText)
    return code.toUInt32
  | .breakdown b =>
    IO.eprintln b.message
    return 1

end Primer.Command

def main (args : List String) : IO UInt32 := do
  let here := Primer.Command.Path.resolve ⟨[]⟩ (← IO.currentDir).toString
  (← Primer.Command.run Primer.Command.machineStack (Primer.Command.machineFiles here) args).report
