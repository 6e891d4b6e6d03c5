import Mathlib.Tactic
import Primer.Proofs.JsonNumbers
import Primer.Proofs.TreeFaults
import Primer.Proofs.Utf8
import Primer.Proofs.WrappedRoot

/-!
What a file holds, and what a command answers to it.

The content of a file is a program, or it is refused, or it cannot be read at all. Which of these it
is does not depend on the command, and it settles the exit code: only the analysis also looks at
what its checks say. The answer to the bytes of a file keeps to this, but for four things that no
answer was foreseen for: bytes that are no text, a number with too many digits in a JSON text, a
number in a tree that is out of range, and a score that the machine has no room for.
-/

namespace Primer

open Node

/-! ### What an analysis finds -/

/-- Whether the analysis of a program finds a fault: the program is too deep, or a check that is
wanted stops. -/
def Config.finds (config : Config) (t : Tree) : Bool :=
  decide (maxLevels < t.height) ||
    config.typeCheck && (Typing.check config.strictOperandTypes .empty t).fault?.isSome ||
    config.dataFlow && (Initialized.check [] t).fault?.isSome ||
    config.mathSafety && (KnownValues.check config.branchScopedConstants [] t).fault?.isSome

namespace Report

variable {r : Report} {t : Tree}

end Report

section

variable {stack : Stack} {config : Config} {input : Input} {t : Tree} {r : Report}

lemma Input.Stands.unique {t' : Tree} (h : input.Stands stack.parsing t)
    (h' : input.Stands stack.parsing t') : t' = t := by
  cases h with
  | text h =>
    cases h' with
    | text h' => exact Except.ok.inj (h'.symm.trans h)
  | tree => cases h'; rfl

end

/-! ### What a file holds -/

/-- The text that bytes stand for: what they encode, with every line end as a line feed. -/
def Text.Decodes (bytes : List UInt8) (text : String) : Prop :=
  ∃ cs, bytes = Text.encode cs ∧ text = String.ofList (Text.unixLines cs)

lemma Text.decodes_iff {bytes : List UInt8} {text : String} :
    Text.Decodes bytes text ↔ Text.ofBytes bytes = .ok text :=
  Text.ofBytes_eq_ok.symm

lemma Text.Decodes.unique {bytes : List UInt8} {text text' : String}
    (h : Text.Decodes bytes text) (h' : Text.Decodes bytes text') : text = text' := by
  rw [Text.decodes_iff] at h h'
  exact Except.ok.inj (h.symm.trans h')

/-- The escapes of a JSON text name no half of a pair of code units alone. -/
inductive Json.Paired : List Char → Prop
  | nil : Paired []
  | char {c cs} (hc : c ≠ '\\') (h : Paired cs) : Paired (c :: cs)
  | letter {c cs} (hc : c ≠ 'u') (h : Paired cs) : Paired ('\\' :: c :: cs)
  | unit {cs n r} (hunit : Reader.unit? cs = some (n, r)) (hn : n < 0xD800 ∨ 0xE000 ≤ n)
      (h : Paired r) : Paired ('\\' :: 'u' :: cs)
  | pair {cs high low r r'} (hhigh : Reader.unit? cs = some (high, '\\' :: 'u' :: r))
      (hlow : Reader.unit? r = some (low, r')) (hfirst : 0xD800 ≤ high ∧ high < 0xDC00)
      (hsecond : 0xDC00 ≤ low ∧ low < 0xE000) (h : Paired r') : Paired ('\\' :: 'u' :: cs)

namespace Command

inductive Content where
  | unreadable
  | refused
  | program (t : Tree)

/-- What the bytes of a file come down to on a machine, if there are any. A tree is labelled with
texts, and they are spelled out in whole characters. -/
inductive Reads (stack : Stack) (fromTree : Bool) : Option (List UInt8) → Content → Prop
  | missing : Reads stack fromTree none .unreadable
  | notText {bytes} (h : ∀ cs, bytes ≠ Text.encode cs) :
      Reads stack fromTree (some bytes) .unreadable
  | notJson {bytes text fault} (hmode : fromTree = true) (htext : Text.Decodes bytes text)
      (hjson : Json.parse stack.json text = .error fault) :
      Reads stack fromTree (some bytes) .unreadable
  | badSource {bytes text fault} (hmode : fromTree = false) (htext : Text.Decodes bytes text)
      (hparse : Grammar.parse stack.parsing text = .error fault) :
      Reads stack fromTree (some bytes) .refused
  | badTree {bytes text j fault} (hmode : fromTree = true) (htext : Text.Decodes bytes text)
      (hjson : Json.parse stack.json text = .ok j)
      (htree : Node.ofJson stack.reading j = .error fault) :
      Reads stack fromTree (some bytes) .refused
  | source {bytes text t} (hmode : fromTree = false) (htext : Text.Decodes bytes text)
      (hparse : Grammar.parse stack.parsing text = .ok t) :
      Reads stack fromTree (some bytes) (.program t)
  | tree {bytes text j} {t : Tree} (hmode : fromTree = true) (htext : Text.Decodes bytes text)
      (hjson : Json.parse stack.json text = .ok j)
      (htree : Node.ofJson stack.reading j = .ok t.toJsonTree)
      (hpaired : Json.Paired text.toList) :
      Reads stack fromTree (some bytes) (.program t.asProgram)

/-- The command scores a program. A program that is too deep is refused before. -/
def Scores (i : Invocation) (t : Tree) : Prop :=
  i.command = .score ∨ i.command = .analyze ∧ i.config.score ∧ t.height ≤ maxLevels

def NoRoom (stack : Stack) (i : Invocation) (t : Tree) : Prop :=
  Scores i t ∧ stack.scoring < t.scoreCalls

/-- Content that a command has no answer for. -/
inductive Unforeseen (stack : Stack) (i : Invocation) (bytes : List UInt8) : Prop
  | notText (h : ∀ cs, bytes ≠ Text.encode cs)
  | longNumber {text digits} (hmode : i.fromTree = true) (htext : Text.Decodes bytes text)
      (hjson : Json.parse stack.json text = .error (.tooManyDigits digits))
  | outOfRange {text j fault} (hmode : i.fromTree = true) (htext : Text.Decodes bytes text)
      (hjson : Json.parse stack.json text = .ok j)
      (htree : Node.ofJson stack.reading j = .error (.outOfRange fault))
      (hnumber : j.Overruns fault)
  | noRoom {t} (hreads : Reads stack i.fromTree (some bytes) (.program t))
      (hroom : NoRoom stack i t)

variable {stack : Stack} {fromTree : Bool} {input : Option (List UInt8)}

variable {i : Invocation} {bytes : List UInt8} {content : Content} {t : Tree}

end Command

end Primer
