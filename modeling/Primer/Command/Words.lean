import Primer.Text.Digit
import Primer.Text.Quoted

/-!
The words of a command line.

A word that starts with a dash names an option. A long name may be cut short as long as only one
name starts that way, a value may stand in the same word as its option, and options of one letter
may share a word. After a word of two dashes no word names an option.

All words are read before any of them is acted on. Then they are taken from left to right: an
option takes its value, the first free word is the operand, and what nobody takes is left over.
Two dashes in the place of a value stand for no value.
-/

namespace Primer.Command

/-- What an option is about. -/
inductive OptionKey where
  | help
  | version
  | verbose
  | tree
  | output
  | format
  | skip
  | branchScoped
  | strict
deriving DecidableEq, Repr

/-- An option with its names. If it has choices, its value must be one of them. -/
structure CommandOption where
  key : OptionKey
  names : List String
  takesValue : Bool
  choices : List String
deriving DecidableEq, Repr

/-- How a fault refers to an option. -/
def CommandOption.label (o : CommandOption) : String := "/".intercalate o.names

/-- What is wrong with a command line. -/
inductive UsageFault where
  | ambiguous (word : String) (names : List String)
  | ignoredValue (label value : String)
  | missingValue (label : String)
  | invalidChoice (label value : String) (choices : List String)
  | missingOperand (label : String)
  | unrecognized (words : List String)
deriving DecidableEq, Repr

def UsageFault.message : UsageFault → String
  | .ambiguous word names =>
    "ambiguous option: " ++ word ++ " could match " ++ ", ".intercalate names
  | .ignoredValue label value =>
    "argument " ++ label ++ ": ignored explicit argument " ++ Text.quoted value
  | .missingValue label => "argument " ++ label ++ ": expected one argument"
  | .invalidChoice label value choices =>
    "argument " ++ label ++ ": invalid choice: " ++ Text.quoted value ++ " (choose from " ++
      ", ".intercalate (choices.map Text.quoted) ++ ")"
  | .missingOperand label => "the following arguments are required: " ++ label
  | .unrecognized words => "unrecognized arguments: " ++ " ".intercalate words

/-! ### Reading words -/

/-- What a word is. An option may have more in its word: a value behind an equals sign or, behind
a single letter, anything. -/
inductive Word where
  | plain (text : String)
  | dashes
  | long (option : CommandOption) (joined : Option (List Char))
  | short (option : CommandOption) (joined : Option (List Char))
  | unknownOption (text : String)
deriving DecidableEq, Repr

/-- The option with a given name. -/
def findOption? (options : List CommandOption) (name : List Char) : Option CommandOption :=
  options.find? fun o => o.names.contains (String.ofList name)

/-- The names that start in a given way, each with its option. -/
def namesFrom (options : List CommandOption) (start : List Char) : List (String × CommandOption) :=
  options.flatMap fun o =>
    (o.names.filter fun name => start.isPrefixOf name.toList).map fun name => (name, o)

/-- A text cut at its first equals sign, and what stands behind the sign. -/
def cutAtEquals (cs : List Char) : List Char × Option (List Char) :=
  match cs.dropWhile (· ≠ '=') with
  | [] => (cs, none)
  | _ :: value => (cs.takeWhile (· ≠ '='), some value)

/-- What is joined to the letter of a short option. An equals sign between them does not count. -/
def joinedToLetter : List Char → Option (List Char)
  | [] => none
  | '=' :: cs => some cs
  | cs => some cs

/-- Whether a word that starts with a dash is a number. A line end behind it does not count. -/
def isNegativeNumber : List Char → Bool
  | '-' :: cs =>
    let cs := if cs.getLast? = some '\n' then cs.dropLast else cs
    match cs.dropWhile Text.isDigit with
    | [] => !cs.isEmpty
    | '.' :: places => !places.isEmpty && places.all Text.isDigit
    | _ => false
  | _ => false

/-- The word for a text with a dash that names no option: numbers and texts with spaces are free
words. -/
def Word.ofUnnamed (word : List Char) : Word :=
  if isNegativeNumber word || word.contains ' ' then .plain (String.ofList word)
  else .unknownOption (String.ofList word)

/-- The word for a text that stands before any two dashes. -/
def Word.ofChars (options : List CommandOption) : List Char → Except UsageFault Word
  | '-' :: '-' :: cs =>
    let (start, value) := cutAtEquals ('-' :: '-' :: cs)
    match findOption? options start with
    | some o => .ok (.long o value)
    | none =>
      match namesFrom options start with
      | [] => .ok (.ofUnnamed ('-' :: '-' :: cs))
      | [(_, o)] => .ok (.long o value)
      | several => .error (.ambiguous (String.ofList ('-' :: '-' :: cs)) (several.map Prod.fst))
  | '-' :: c :: cs =>
    match findOption? options ['-', c] with
    | some o => .ok (.short o (joinedToLetter cs))
    | none => .ok (.ofUnnamed ('-' :: c :: cs))
  | cs => .ok (.plain (String.ofList cs))

/-- The words of a command line. -/
def readWords (options : List CommandOption) : List String → Except UsageFault (List Word)
  | [] => .ok []
  | "--" :: texts => .ok (.dashes :: texts.map .plain)
  | text :: texts => do return (← Word.ofChars options text.toList) :: (← readWords options texts)

/-! ### Taking words -/

/-- The options that one word gives, and whether the last one takes the next word for its value. -/
structure Given where
  options : List (CommandOption × Option String)
  takesNext : Bool

def Given.before (o : CommandOption) (g : Given) : Given :=
  { g with options := (o, none) :: g.options }

/-- The value in a text that is joined to an option. Two dashes are no value. -/
def valueOf (cs : List Char) : Option String :=
  if cs = ['-', '-'] then none else some (String.ofList cs)

/-- An option that stands alone in its word. -/
def giveAlone (next : Option String) (o : CommandOption) : Except UsageFault Given :=
  if o.takesValue then
    match next with
    | some value => .ok ⟨[(o, some value)], true⟩
    | none => .error (.missingValue o.label)
  else .ok ⟨[(o, none)], false⟩

/-- An option of one letter: what stands behind it is its value, or further letters. -/
def giveLetters (options : List CommandOption) (next : Option String) :
    CommandOption → List Char → Except UsageFault Given
  | o, [] => giveAlone next o
  | o, c :: cs =>
    if o.takesValue then .ok ⟨[(o, valueOf (c :: cs))], false⟩
    else
      match findOption? options ['-', c] with
      | some p => (giveLetters options next p cs).map (Given.before o)
      | none => .error (.ignoredValue o.label (String.ofList (c :: cs)))

/-- An option with a value that may not be taken for letters. -/
def giveValue (o : CommandOption) (cs : List Char) : Except UsageFault Given :=
  if o.takesValue then .ok ⟨[(o, valueOf cs)], false⟩
  else .error (.ignoredValue o.label (String.ofList cs))

/-- What is taken from a command line: options with their values, the operand, what is left over,
and the fault that ended it. -/
structure Taken where
  options : List (OptionKey × Option String) := []
  operand : List String := []
  extras : List String := []
  fault : Option UsageFault := none
deriving DecidableEq, Repr

namespace Taken

def withExtras (extras : List String) (t : Taken) : Taken := { t with extras := extras ++ t.extras }

/-- Whether an option may have a value. With none there is nothing to choose. -/
def isChoice (o : CommandOption) : Option String → Bool
  | some value => o.choices.isEmpty || o.choices.contains value
  | none => true

/-- Takes options in front of what follows; a value that is no choice ends it. -/
def withOptions : List (CommandOption × Option String) → Taken → Taken
  | [], t => t
  | (o, value) :: given, t =>
    if isChoice o value then
      let t := withOptions given t
      { t with options := (o.key, value) :: t.options }
    else { fault := some (.invalidChoice o.label (value.getD "") o.choices) }

end Taken

/-- The free word that comes next. -/
def nextValue? : List Word → Option String
  | .plain text :: _ => some text
  | _ => none

/-- What a word gives, if it names an option. The words that follow may hold its value. -/
def give? (options : List CommandOption) (ws : List Word) : Word → Option (Except UsageFault Given)
  | .long o none | .short o none => some (giveAlone (nextValue? ws) o)
  | .long o (some cs) => some (giveValue o cs)
  | .short o (some []) => some (giveValue o [])
  | .short o (some (c :: cs)) => some (giveLetters options (nextValue? ws) o (c :: cs))
  | _ => none

/-- The text of a word that names no option. -/
def Word.freeText : Word → String
  | .plain text => text
  | .unknownOption text => text
  | _ => "--"

/-- Takes the words of a command. `free` says that its operand is still to come; two dashes next
to the operand are dropped. -/
def takeWords (options : List CommandOption) : Bool → List Word → Taken
  | _, [] => {}
  | free, w :: ws =>
    match give? options ws w with
    | some (.error fault) => { fault := some fault }
    | some (.ok given) =>
      let rest := match given.takesNext, ws with
        | true, _ :: ws => takeWords options free ws
        | _, ws => takeWords options free ws
      rest.withOptions given.options
    | none =>
      match free, w, ws with
      | true, .plain text, .dashes :: ws => { takeWords options false ws with operand := [text] }
      | true, .dashes, .plain text :: ws => { takeWords options false ws with operand := [text] }
      | true, .plain text, ws => { takeWords options false ws with operand := [text] }
      | free, w, ws => (takeWords options free ws).withExtras [w.freeText]

/-- Takes the words up to the name of a command, which takes all texts that follow it. The texts
are given beside the words that they are read as. -/
def takeCommand (options : List CommandOption) : List (Word × String) → Taken
  | [] => {}
  | (w, text) :: ws =>
    match give? options (ws.map Prod.fst) w with
    | some (.error fault) => { fault := some fault }
    | some (.ok given) =>
      let rest := match given.takesNext, ws with
        | true, _ :: ws => takeCommand options ws
        | _, ws => takeCommand options ws
      rest.withOptions given.options
    | none =>
      match w, ws with
      | .unknownOption text, ws => (takeCommand options ws).withExtras [text]
      | .dashes, [] => { extras := [text] }
      | _, ws => { operand := text :: ws.map Prod.snd }

end Primer.Command
