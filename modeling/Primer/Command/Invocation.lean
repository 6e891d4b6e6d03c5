import Primer.Analysis.Config
import Primer.Command.Words

/-!
The commands and what a command line asks of them.

A command line has options of its own, then the name of a command, then the options and the file
of that command. Asking for help or for the version ends the reading, and so does the first
fault; words that are left over are a fault of the whole line.
-/

namespace Primer.Command

inductive CommandName where
  | analyze
  | graph
  | tokens
  | symbols
  | operations
  | score
  | explain
  | parse
deriving DecidableEq, Repr

/-- The shapes of output. -/
inductive Format where
  | summary
  | json
  | gcc
  | dot
  | text
  | sexp
deriving DecidableEq, Repr

namespace Format

def name : Format → String
  | .summary => "summary"
  | .json => "json"
  | .gcc => "gcc"
  | .dot => "dot"
  | .text => "text"
  | .sexp => "sexp"

def ofName? (s : String) : Option Format :=
  [summary, json, gcc, dot, text, sexp].find? fun f => f.name == s

end Format

namespace CommandName

/-- The names that commands are called by. -/
def table : List (String × CommandName) := [
  ("analyze", .analyze), ("analyse", .analyze), ("cfg", .graph), ("tokens", .tokens),
  ("symbols", .symbols), ("math", .operations), ("score", .score), ("explain", .explain),
  ("parse", .parse)]

/-- The name by which a command calls itself. -/
def name : CommandName → String
  | .analyze => "analyze"
  | .graph => "cfg"
  | .tokens => "tokens"
  | .symbols => "symbols"
  | .operations => "math"
  | .score => "score"
  | .explain => "explain"
  | .parse => "parse"

/-- The shape of output unless another one is asked for. -/
def defaultFormat : CommandName → Format
  | .analyze => .summary
  | .graph => .json
  | .parse => .json
  | _ => .text

/-- The shapes of output that a command has besides. -/
def otherFormats : CommandName → List Format
  | .analyze => [.json, .gcc]
  | .graph => [.dot]
  | .explain => []
  | .parse => [.sexp]
  | _ => [.json]

def formats (c : CommandName) : List Format := c.defaultFormat :: c.otherFormats

/-- The passes that can be skipped. -/
def skippable : List String := ["types", "dataflow", "math", "cfg", "score"]

def helpOption : CommandOption := ⟨.help, ["-h", "--help"], false, []⟩

/-- The options before the name of a command. -/
def leadingOptions : List CommandOption := [
  helpOption,
  ⟨.version, ["--version"], false, []⟩,
  ⟨.verbose, ["-v", "--verbose"], false, []⟩]

/-- The options of a command. A command with one shape of output cannot be asked for it. -/
def options (c : CommandName) : List CommandOption :=
  [helpOption, ⟨.tree, ["--ast"], false, []⟩, ⟨.output, ["-o", "--output"], true, []⟩] ++
  (if c.otherFormats.isEmpty then []
    else [⟨.format, ["-f", "--format"], true, c.formats.map Format.name⟩]) ++
  (if c = .analyze then [
    ⟨.skip, ["--skip"], true, skippable⟩,
    ⟨.branchScoped, ["--branch-scoped-constants"], false, []⟩,
    ⟨.strict, ["--strict-operands"], false, []⟩] else [])

end CommandName

/-- Where an answer goes. -/
inductive Destination where
  | standardOutput
  | file (name : String)
  | missing
deriving DecidableEq, Repr

/-- The destination that a value names; one dash means standard output. -/
def Destination.ofValue : Option String → Destination
  | none => .missing
  | some name => if name = "-" then .standardOutput else .file name

/-- What a command is asked to do. `skipsNothing` says that it is to skip a pass that is not
named. -/
structure Invocation where
  command : CommandName
  file : String
  verbosity : Nat
  fromTree : Bool := false
  output : Destination := .standardOutput
  format : Format := command.defaultFormat
  config : Config := {}
  skipsNothing : Bool := false
deriving DecidableEq, Repr

namespace Invocation

/-- The choice of passes without one of them. -/
def skip (config : Config) : String → Config
  | "types" => { config with typeCheck := false }
  | "dataflow" => { config with dataFlow := false }
  | "math" => { config with mathSafety := false }
  | "cfg" => { config with buildGraph := false }
  | "score" => { config with score := false }
  | _ => config

/-- Follows one option of a command; of two values the later one counts. -/
def apply (i : Invocation) : OptionKey × Option String → Invocation
  | (.tree, _) => { i with fromTree := true }
  | (.output, value) => { i with output := .ofValue value }
  | (.format, value) =>
    { i with format := (value.bind Format.ofName?).getD i.command.defaultFormat }
  | (.skip, some value) => { i with config := skip i.config value }
  | (.skip, none) => { i with skipsNothing := true }
  | (.branchScoped, _) => { i with config := { i.config with branchScopedConstants := true } }
  | (.strict, _) => { i with config := { i.config with strictOperandTypes := true } }
  | _ => i

end Invocation

/-- What a command line comes down to. A fault is reported under a name of the program. -/
inductive Request where
  | run (invocation : Invocation)
  | help
  | version
  | nothing
  | refused (program : String) (fault : UsageFault)
deriving DecidableEq, Repr

namespace Request

def programName : String := "codesense"

/-- The option that ends the reading, if there is one. -/
def ofOptions? (options : List (OptionKey × Option String)) : Option Request :=
  options.findSome? fun o => match o.1 with
    | .help => some .help
    | .version => some .version
    | _ => none

/-- The request to a command, with `extras` left over before its name. -/
def ofCommand (verbosity : Nat) (extras : List String) (c : CommandName) (texts : List String) :
    Request :=
  let refuse := refused (programName ++ " " ++ c.name)
  match readWords c.options texts with
  | .error fault => refuse fault
  | .ok words =>
    let taken := takeWords c.options true words
    match ofOptions? taken.options, taken.fault, taken.operand with
    | some request, _, _ => request
    | none, some fault, _ => refuse fault
    | none, none, [] => refuse (.missingOperand "FILE")
    | none, none, file :: _ =>
      match extras ++ taken.extras with
      | [] => .run (taken.options.foldl Invocation.apply { command := c, file, verbosity })
      | words => refused programName (.unrecognized words)

/-- The request of a command line. -/
def ofWords (texts : List String) : Request :=
  match readWords CommandName.leadingOptions texts with
  | .error fault => refused programName fault
  | .ok words =>
    let taken := takeCommand CommandName.leadingOptions (words.zip texts)
    match ofOptions? taken.options, taken.fault, taken.operand with
    | some request, _, _ => request
    | none, some fault, _ => refused programName fault
    | none, none, [] =>
      match taken.extras with
      | [] => .nothing
      | words => refused programName (.unrecognized words)
    | none, none, command :: texts =>
      match CommandName.table.lookup command with
      | some c => ofCommand (taken.options.filter (·.1 = .verbose)).length taken.extras c texts
      | none =>
        refused programName
          (.invalidChoice "<command>" command (CommandName.table.map Prod.fst))

end Request

end Primer.Command
