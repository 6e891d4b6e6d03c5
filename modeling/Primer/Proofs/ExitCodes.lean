import Mathlib.Tactic
import Primer.Command.Run
import Primer.Proofs.Answers

/-!
How a run ends.

A run finds its file, reads it, answers and writes the answer. It ends with the exit code that the
content of the file calls for, with 2 if the answer cannot be written, or not at all: for some
command lines and some contents no way to end was foreseen. These are listed in `Escapes`, and the
list is complete for files with trees that are labelled with texts.
-/

namespace Primer.Command

variable {stack : Stack} {here : Path} {d : Disk} {i : Invocation}

/-! ### Files on a disk -/

namespace Disk

/-- What a computation gives on a disk, and the disk behind it. -/
def perform {α : Type} (d : Disk) (x : StateM Disk α) : α × Disk := (x.run d).run

def locate (d : Disk) (here : Path) (text : String) : Except PathFault Path :=
  (d.perform ((asFiles here).locate text)).1

def bytes? (d : Disk) (p : Path) : Option (List UInt8) :=
  match d.find p with
  | .file bytes => some bytes
  | _ => none

def input (d : Disk) (here : Path) (i : Invocation) : Option (List UInt8) :=
  match d.locate here i.file with
  | .ok path => d.bytes? path
  | .error _ => none

def Writable (d : Disk) (p : Path) : Prop := ∃ d', d.write p "" = .ok d'

end Disk

/-! ### Writing the answer -/

/-- The answer is to go to a file, and its name is missing or stands for no path. -/
def Misdirected (here : Path) (d : Disk) (i : Invocation) : Prop :=
  i.output = .missing ∨
    ∃ name fault, i.output = .file name ∧ d.locate here name = .error fault

def Unwritable (here : Path) (d : Disk) (i : Invocation) : Prop :=
  ∃ name path, i.output = .file name ∧ d.locate here name = .ok path ∧ ¬ d.Writable path

def Outcome.HasText (o : Outcome) : Prop := ∃ text ok, o = .answered (some text) ok

/-- The runs that no ending was foreseen for: a pass to skip is not named, the file has no path, its
content was not foreseen, or there is an answer and no path to write it to. -/
inductive Escapes (stack : Stack) (here : Path) (d : Disk) (i : Invocation) : Prop
  | noPass (h : i.skipsNothing = true)
  | noFile {fault} (h : d.locate here i.file = .error fault)
  | content {bytes} (hinput : d.input here i = some bytes) (h : Unforeseen stack i bytes)
  | output {bytes} (hinput : d.input here i = some bytes)
      (htext : (answer stack i bytes).outcome.HasText) (h : Misdirected here d i)

def Unwritten (stack : Stack) (here : Path) (d : Disk) (i : Invocation) : Prop :=
  ∃ bytes, d.input here i = some bytes ∧ (answer stack i bytes).outcome.HasText ∧
    Unwritable here d i

def Disk.ending (d : Disk) (stack : Stack) (here : Path) (words : List String) : Ending :=
  (d.perform (run stack (Disk.asFiles here) words)).1.ending

/-- How a run ends if its content calls for `code`. -/
structure Ends (stack : Stack) (here : Path) (d : Disk) (i : Invocation) (code : ℕ)
    (ending : Ending) : Prop where
  escapes : Escapes stack here d i → ∃ b, ending = .breakdown b
  unwritten : ¬ Escapes stack here d i → Unwritten stack here d i → ending = .exit 2
  regular : ¬ Escapes stack here d i → ¬ Unwritten stack here d i → ending = .exit code

end Primer.Command
