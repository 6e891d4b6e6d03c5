import Primer.Text.Quoted

/-!
Files as a command sees them.

A path is a row of names below the root. Reading finds a file or nothing; writing makes the
directories that are missing on the way. A path is followed name by name, so what is wrong with it
is what the first bad name on the way shows.
-/

namespace Primer.Command

structure Path where
  names : List String
deriving DecidableEq, Repr

namespace Path

def text (p : Path) : String := "/" ++ "/".intercalate p.names

/-- The directory that a path stands in; the root stands in itself. -/
def parent (p : Path) : Path := ⟨p.names.dropLast⟩

/-- A text cut at every slash. -/
def cut : List Char → List (List Char)
  | [] => [[]]
  | c :: cs =>
    if c = '/' then [] :: cut cs
    else
      match cut cs with
      | [] => [[c]]
      | name :: names => (c :: name) :: names

/-- The names in a text, without those that stay in place. -/
def parts (text : String) : List String :=
  ((cut text.toList).map String.ofList).filter fun name => name ≠ "" && name ≠ "."

def isAbsolute (text : String) : Bool := text.toList.head? = some '/'

/-- Follows names down from a path; two points lead up. -/
def follow (start : Path) (names : List String) : Path :=
  ⟨names.foldl (fun done name => if name = ".." then done.dropLast else done ++ [name]) start.names⟩

/-- The path that a text stands for in the directory `here`. -/
def resolve (here : Path) (text : String) : Path :=
  (if isAbsolute text then ⟨[]⟩ else here).follow (parts text)

/-- The user whose home a text starts from, and the names below it. A tilde alone stands for the
one who runs the program. -/
def homeUser? (text : String) : Option (String × List String) :=
  match isAbsolute text, (parts text).map String.toList with
  | false, ('~' :: user) :: names => some (String.ofList user, names.map String.ofList)
  | _, _ => none

/-- The last name in a text. -/
def lastName (text : String) : String := (parts text).getLast?.getD ""

end Path

inductive FileProblem where
  | exists
  | notDirectory
  | isDirectory
  | nameTooLong
deriving DecidableEq, Repr

namespace FileProblem

def number : FileProblem → Nat
  | .exists => 17
  | .notDirectory => 20
  | .isDirectory => 21
  | .nameTooLong => 36

def text : FileProblem → String
  | .exists => "File exists"
  | .notDirectory => "Not a directory"
  | .isDirectory => "Is a directory"
  | .nameTooLong => "File name too long"

end FileProblem

/-- Why a path cannot be used. -/
structure FileFault where
  problem : FileProblem
  path : Path
deriving DecidableEq, Repr

def FileFault.message (f : FileFault) : String :=
  "[Errno " ++ toString f.problem.number ++ "] " ++ f.problem.text ++ ": " ++
    Text.quoted f.path.text

/-- Why a text stands for no path. -/
inductive PathFault where
  | nullCharacter
  | unknownHome
deriving DecidableEq, Repr

def PathFault.message : PathFault → String
  | .nullCharacter => "embedded null byte"
  | .unknownHome => "Could not determine home directory."

/-- The files a command works with, in some monad. -/
structure Files (m : Type → Type) where
  /-- The directory that paths start from. -/
  here : Path
  /-- The home of a user. -/
  home? : String → m (Option Path)
  /-- The bytes of a file; nothing if there is no file. -/
  read? : Path → m (Except FileFault (Option (List UInt8)))
  write : Path → String → m (Except FileFault Unit)

/-- A text without the null character, which no path has. -/
def isPathText (text : String) : Bool := !text.toList.contains '\x00'

/-- The path that a text stands for. -/
def Files.locate {m : Type → Type} [Monad m] (files : Files m) (text : String) :
    m (Except PathFault Path) := do
  match Path.homeUser? text with
  | none =>
    return if isPathText text then .ok (files.here.resolve text) else .error .nullCharacter
  | some (user, names) =>
    if isPathText user then
      match ← files.home? user with
      | none => return .error .unknownHome
      | some home =>
        return if isPathText text then .ok (home.follow names) else .error .nullCharacter
    else return .error .nullCharacter

/-- A store of files and directories below a root that is always there, with the homes of its
users. -/
structure Disk where
  files : List (Path × List UInt8) := []
  directories : List Path := []
  homes : List (String × Path) := []

namespace Disk

/-- What can be at the end of a path. -/
inductive Found where
  | file (bytes : List UInt8)
  | directory
  | missing
  | notDirectory
  | nameTooLong
deriving DecidableEq, Repr

/-- The most bytes in a name. -/
def maxNameBytes : Nat := 255

/-- The most bytes in the text of a path. -/
def maxPathBytes : Nat := 4095

def isDirectory (d : Disk) (p : Path) : Bool :=
  p.names.isEmpty || d.directories.contains p ||
    d.files.any fun f => p.names.isPrefixOf f.1.parent.names

/-- What the names `names` lead to from the path `done`. -/
def findFrom (d : Disk) (done : Path) : List String → Found
  | [] =>
    match d.files.lookup done with
    | some bytes => .file bytes
    | none => if d.isDirectory done then .directory else .missing
  | name :: names =>
    if (d.files.lookup done).isSome then .notDirectory
    else if !d.isDirectory done then .missing
    else if maxNameBytes < name.utf8ByteSize then .nameTooLong
    else d.findFrom ⟨done.names ++ [name]⟩ names

/-- What a path leads to. -/
def find (d : Disk) (p : Path) : Found :=
  if maxPathBytes < p.text.utf8ByteSize then .nameTooLong else d.findFrom ⟨[]⟩ p.names

/-- Adds a directory whose parent is there. -/
def addDirectory (d : Disk) (p : Path) : Except FileFault Disk :=
  match d.find p with
  | .missing => .ok { d with directories := p :: d.directories }
  | .directory => .ok d
  | .file _ => .error ⟨.exists, p⟩
  | .notDirectory => .error ⟨.notDirectory, p⟩
  | .nameTooLong => .error ⟨.nameTooLong, p⟩

/-- Makes a directory and those above it, the names given from the last to the first. -/
def makeDirectories (d : Disk) : List String → Except FileFault Disk
  | [] => .ok d
  | name :: above =>
    let p : Path := ⟨(name :: above).reverse⟩
    match d.find p with
    | .missing => do (← d.makeDirectories above).addDirectory p
    | _ => d.addDirectory p

/-- The disk with a file in place of what was there. -/
def put (d : Disk) (p : Path) (bytes : List UInt8) : Disk :=
  { d with files := (p, bytes) :: d.files.filter (·.1 ≠ p) }

def read? (d : Disk) (p : Path) : Except FileFault (Option (List UInt8)) :=
  match d.find p with
  | .file bytes => .ok (some bytes)
  | .nameTooLong => .error ⟨.nameTooLong, p⟩
  | _ => .ok none

/-- Writes a file, with the directories it needs. -/
def write (d : Disk) (p : Path) (text : String) : Except FileFault Disk := do
  let d ← d.makeDirectories p.parent.names.reverse
  match d.find p with
  | .directory => .error ⟨.isDirectory, p⟩
  | .nameTooLong => .error ⟨.nameTooLong, p⟩
  | _ => return d.put p text.toUTF8.toList

/-- A disk as the files of a command. Directories that were made stay only if the file could be
written. -/
def asFiles (here : Path) : Files (StateM Disk) where
  here
  home? user := do return (← get).homes.lookup user
  read? p := do return (← get).read? p
  write p text := do
    match (← get).write p text with
    | .ok d => set d; return .ok ()
    | .error fault => return .error fault

end Disk

end Primer.Command
