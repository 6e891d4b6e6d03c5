import Mathlib.Tactic
import Primer.Analysis.Report
import Primer.Proofs.AcceptedProgram
import Primer.Proofs.ScoreRoom

/-!
What a report says about its own passes.

The passes run in one order and stop at the first fault. `Upto config t tried r` says what a report
shows when the passes `tried` have had their turn: all of them have run and there is no fault, or
one of them is to blame and those before it have run. Each check keeps this with its own pass added
at the end, so the report of a whole analysis is consistent. Whether there is a report at all is up
to the machine: a tree that is low enough for the passes may still be too high for its score.
-/

namespace Primer

def Config.turnsOn (c : Config) : Pass → Bool
  | .parse => true
  | .score => c.score
  | .graph => c.buildGraph
  | .types => c.typeCheck
  | .dataflow => c.dataFlow
  | .math => c.mathSafety

def Config.enabled (c : Config) : List Pass :=
  [.parse, .score, .graph, .types, .dataflow, .math].filter c.turnsOn

/-- The phase that the faults of a pass name. The views have no faults. -/
def Pass.phase? : Pass → Option Phase
  | .parse => some .parsing
  | .score => none
  | .graph => none
  | .types => some .typing
  | .dataflow => some .dataflow
  | .math => some .symbolic

/-- The tree that an input stands for, where a text may have `depth` levels. -/
inductive Input.Stands (depth : ℕ) : Input → Tree → Prop
  | text {source : String} {t : Tree} (h : Grammar.parse depth source = .ok t) :
    Stands depth (.text source) t
  | tree {t : Tree} : Stands depth (.tree t) t

namespace Report

structure Shows (config : Config) (t : Tree) (r : Report) : Prop where
  program : r.program = some t
  tokens : r.tokens = t.tokens
  symbols : r.symbols = t.symbols
  operations : r.operations = t.operations
  score : r.score = if config.score then some t.scoreCard else none
  graph : r.graph = if config.buildGraph then some (.ofTree t) else none

variable {depth room : ℕ} {config : Config} {t : Tree} {r : Report} {tried : List Pass} {p : Pass}
  {d : Diagnostic}

/-- The report with the score, where there is room for it. -/
def withCard (t : Tree) (r : Report) : Report :=
  if r.config.score then { r with score := some t.scoreCard }.pass .score else r

def withViews (r : Report) (t : Tree) : Report := ((r.withListings t).withCard t).withGraph t

/-- The report of a program, where there is room for its score. -/
def completed (r : Report) (t : Tree) : Report := (r.withViews t).checked t

/-- What is missing on a machine without room for a score that is wanted is the whole report. -/
lemma ofTree_eq : r.ofTree room t = if r.config.score ∧ room < t.scoreCalls then .error .overflow
    else .ok (r.completed t) := by
  have hconfig : (r.withListings t).config = r.config := rfl
  rw [ofTree, withScore, hconfig, Node.scoreCardWithin_eq, completed, withViews, withCard, hconfig]
  by_cases hscore : r.config.score <;> by_cases hroom : t.scoreCalls ≤ room <;>
    simp [hscore, hroom, bind, Except.bind, pure, Except.pure]

/-- What a report on a program shows after the passes `tried`: they have all run, or one of them has
found a fault and those before it have run. -/
structure Upto (config : Config) (t : Tree) (tried : List Pass) (r : Report) : Prop where
  config_eq : r.config = config
  shows : r.Shows config t
  begun : [.parse] <+: r.passes
  outcome : r.error = none ∧ r.passes = tried ∨ ∃ d pass later, r.error = some d ∧
    tried = r.passes ++ pass :: later ∧ pass.phase? = some d.code.phase
  types : .types ∈ r.passes → ∃ table,
    Typing.check config.strictOperandTypes .empty t = .finished table ∧
    r.declaredTypes = table.items
  noTypes : .types ∉ r.passes → r.declaredTypes = []
  flow : .dataflow ∈ r.passes → ∃ names, Initialized.check [] t = .finished names
  values : .math ∈ r.passes →
    KnownValues.check config.branchScopedConstants [] t = .finished r.knownValues
  noValues : .math ∉ r.passes → r.knownValues = []

def viewPasses (config : Config) : List Pass := [.parse, .score, .graph].filter config.turnsOn

lemma withViews_eq (log : List String) :
    ({ config, log } : Report).withViews t = {
      config, log
      program := some t
      tokens := t.tokens
      symbols := t.symbols
      operations := t.operations
      score := if config.score then some t.scoreCard else none
      graph := if config.buildGraph then some (.ofTree t) else none
      passes := viewPasses config } := by
  unfold withViews withGraph withCard withListings viewPasses
  cases hscore : config.score <;> cases hgraph : config.buildGraph <;>
    simp [pass, List.filter_cons, Config.turnsOn, hscore, hgraph]

lemma config_withViews (log : List String) :
    (({ config, log } : Report).withViews t).config = config := by
  rw [withViews_eq]

lemma upto_withViews (config : Config) (t : Tree) (log : List String) (line : String) :
    Upto config t (viewPasses config) ((({ config, log } : Report).withViews t).say line) := by
  have htypes : .types ∉ viewPasses config := by simp [viewPasses]
  have hflow : .dataflow ∉ viewPasses config := by simp [viewPasses]
  have hmath : .math ∉ viewPasses config := by simp [viewPasses]
  have hparse : viewPasses config = .parse :: [.score, .graph].filter config.turnsOn := by
    simp [viewPasses, List.filter_cons, Config.turnsOn]
  rw [withViews_eq]
  exact {
    config_eq := rfl
    shows := ⟨rfl, rfl, rfl, rfl, rfl, rfl⟩
    begun := ⟨_, hparse.symm⟩
    outcome := Or.inl ⟨rfl, rfl⟩
    types := fun h => absurd h htypes
    noTypes := fun _ => rfl
    flow := fun h => absurd h hflow
    values := fun h => absurd h hmath
    noValues := fun _ => rfl }

/-! ### One check after another -/

/-- A fault ends the row of passes. -/
lemma Upto.fail (h : Upto config t tried r) (hok : r.error = none)
    (hphase : p.phase? = some d.code.phase) : Upto config t (tried ++ [p]) (r.fail d) := by
  have hran : r.passes = tried := by
    rcases h.outcome with ⟨-, hran⟩ | ⟨d, pass, later, herror, -⟩
    · exact hran
    · rw [hok] at herror
      cases herror
  exact {
    config_eq := h.config_eq
    shows := ⟨h.shows.program, h.shows.tokens, h.shows.symbols, h.shows.operations, h.shows.score,
      h.shows.graph⟩
    begun := h.begun
    outcome := Or.inr ⟨d, p, [], rfl, by rw [← hran]; rfl, hphase⟩
    types := h.types
    noTypes := h.noTypes
    flow := h.flow
    values := h.values
    noValues := h.noValues }

/-- Passes behind a fault do not count. -/
lemma Upto.stopped (h : Upto config t tried r) (herror : r.error ≠ none) (more : List Pass) :
    Upto config t (tried ++ more) r := by
  obtain ⟨d, pass, later, hd, htried, hphase⟩ := h.outcome.resolve_left fun hok => herror hok.1
  exact { h with outcome := Or.inr ⟨d, pass, later ++ more, hd, by simp [htried], hphase⟩ }

/-- A check with its pass: where it is turned off, and behind a fault, nothing happens. -/
lemma Upto.andCheck {check : Report → Report} (h : Upto config t tried r)
    (hcheck : r.error = none → r.passes = tried → Upto config t (tried ++ [p]) (check r)) :
    Upto config t (tried ++ [p].filter config.turnsOn)
      (r.andCheck (config.turnsOn p) check) := by
  unfold Report.andCheck ok
  cases herror : r.error with
  | none =>
    cases hp : config.turnsOn p with
    | false => simpa [hp] using h
    | true =>
      obtain ⟨-, hran⟩ := h.outcome.resolve_right fun ⟨d, _, _, hd, _⟩ => by simp [herror] at hd
      simpa [hp] using hcheck herror hran
  | some d =>
    rw [Option.isNone_some, Bool.and_false]
    exact h.stopped (by simp [herror]) _

/-- A check that finds no fault adds its pass, and perhaps what it found out. -/
lemma Upto.finish {declared : Table String} {known : Table Number} {log : List String}
    (h : Upto config t tried r) (hok : r.error = none) (hran : r.passes = tried)
    (types : .types ∈ r.passes ++ [p] → ∃ table,
      Typing.check config.strictOperandTypes .empty t = .finished table ∧ declared = table.items)
    (noTypes : .types ∉ r.passes ++ [p] → declared = [])
    (flow : .dataflow ∈ r.passes ++ [p] → ∃ names, Initialized.check [] t = .finished names)
    (values : .math ∈ r.passes ++ [p] →
      KnownValues.check config.branchScopedConstants [] t = .finished known)
    (noValues : .math ∉ r.passes ++ [p] → known = []) :
    Upto config t (tried ++ [p])
      { r with
        declaredTypes := declared
        knownValues := known
        passes := r.passes ++ [p]
        log := log } where
  config_eq := h.config_eq
  shows := ⟨h.shows.program, h.shows.tokens, h.shows.symbols, h.shows.operations, h.shows.score,
    h.shows.graph⟩
  begun := h.begun.trans (List.prefix_append _ _)
  outcome := Or.inl ⟨hok, by rw [hran]⟩
  types := types
  noTypes := noTypes
  flow := flow
  values := values
  noValues := noValues

lemma upto_checkTypes (h : Upto config t tried r) (hok : r.error = none) (hran : r.passes = tried) :
    Upto config t (tried ++ [.types]) (checkTypes t r) := by
  unfold checkTypes
  split
  · rename_i table hfinished
    rw [h.config_eq] at hfinished
    exact h.finish hok hran (fun _ => ⟨table, hfinished, rfl⟩) (by simp)
      (by simpa [pass] using h.flow) (by simpa [pass] using h.values)
      (by simpa [pass] using h.noValues)
  · rename_i fault _ _
    exact h.fail hok (by cases fault <;> rfl)

lemma upto_checkDataFlow (h : Upto config t tried r) (hok : r.error = none)
    (hran : r.passes = tried) : Upto config t (tried ++ [.dataflow]) (checkDataFlow t r) := by
  unfold checkDataFlow
  split
  · rename_i names hfinished
    exact h.finish hok hran (by simpa [pass] using h.types) (by simpa [pass] using h.noTypes)
      (fun _ => ⟨names, hfinished⟩) (by simpa [pass] using h.values)
      (by simpa [pass] using h.noValues)
  · exact h.fail hok rfl

lemma upto_checkMath (h : Upto config t tried r) (hok : r.error = none) (hran : r.passes = tried) :
    Upto config t (tried ++ [.math]) (checkMath t r) := by
  unfold checkMath
  split
  · rename_i known hfinished
    rw [h.config_eq] at hfinished
    exact h.finish hok hran (by simpa [pass] using h.types) (by simpa [pass] using h.noTypes)
      (by simpa [pass] using h.flow) (fun _ => hfinished) (by simp)
  · rename_i fault _ _
    exact h.fail hok (by cases fault <;> rfl)

lemma upto_completed (config : Config) (t : Tree) (log : List String) :
    Upto config t config.enabled (({ config, log } : Report).completed t) := by
  have hviews := upto_withViews config t log "2. Running Semantic Safety Checks..."
  have htypes := hviews.andCheck (upto_checkTypes hviews)
  have hflow := htypes.andCheck (upto_checkDataFlow htypes)
  have hmath := hflow.andCheck (upto_checkMath hflow)
  simp only [viewPasses, ← List.filter_append] at hmath
  rw [completed, checked, config_withViews]
  exact hmath

/-! ### The log -/

def after (lines : List String) (r : Report) : Report := { r with log := lines ++ r.log }

variable (lines : List String)

lemma phase_parseFault (fault : ParseFault) : fault.diagnostic.code.phase = .parsing := by
  cases fault <;> rfl

/-- A tree that was read from a text is not refused for its depth. -/
lemma height_le_of_parse {source : String} (h : Grammar.parse depth source = .ok t) :
    t.height ≤ Node.maxLevels := by
  obtain ⟨-, -, -, -, hhigh⟩ := Grammar.parse_eq_ok.1 h
  exact hhigh

lemma analyze_text_of_parse {stack : Stack} {source : String}
    (h : Grammar.parse stack.parsing source = .ok t) :
    analyze stack config (.text source) = ({ config, log :=
      ["1. Starting Lexical & Syntactic Analysis...", "✅ Parsing Successful! AST Generated."] } :
        Report).ofTree stack.scoring t := by
  simp only [analyze, ofParse, h]
  rfl

lemma analyze_tree_of_height_le {stack : Stack} (h : t.height ≤ Node.maxLevels) :
    analyze stack config (.tree t) = ({ config } : Report).ofTree stack.scoring t := by
  rw [analyze, Node.overflow?_eq_none_iff.2 h]

lemma analyze_tree_of_lt_height (h : Node.maxLevels < t.height) (stack : Stack) (config : Config) :
    ∃ place, analyze stack config (.tree t) =
      .ok (({ config } : Report).fail (.nesting Node.maxLevels place)) := by
  cases hover : t.overflow? Node.maxLevels with
  | none => exact absurd (Node.overflow?_eq_none_iff.1 hover) (Nat.not_le.2 h)
  | some place => exact ⟨place, by rw [analyze, hover]⟩

/-- An input is refused at once, or it stands for a tree that the passes take. -/
lemma analyze_cases (stack : Stack) (config : Config) (input : Input) :
    (∃ d log, d.code.phase = .parsing ∧
      analyze stack config input = .ok (({ config, log } : Report).fail d)) ∨
    ∃ t log, input.Stands stack.parsing t ∧ t.height ≤ Node.maxLevels ∧
      analyze stack config input = ({ config, log } : Report).ofTree stack.scoring t := by
  cases input with
  | text source =>
    cases hparse : Grammar.parse stack.parsing source with
    | error fault =>
      refine Or.inl ⟨fault.diagnostic, ["1. Starting Lexical & Syntactic Analysis..."],
        phase_parseFault fault, ?_⟩
      simp only [analyze, ofParse, hparse]
      rfl
    | ok t =>
      exact Or.inr ⟨t, _, .text hparse, height_le_of_parse hparse, analyze_text_of_parse hparse⟩
  | tree t =>
    by_cases h : t.height ≤ Node.maxLevels
    · exact Or.inr ⟨t, [], .tree, h, analyze_tree_of_height_le h⟩
    · obtain ⟨place, hplace⟩ := analyze_tree_of_lt_height (Nat.lt_of_not_le h) stack config
      exact Or.inl ⟨_, [], rfl, hplace⟩

/-- What a report is, where there is one. -/
lemma eq_of_analyze {stack : Stack} {input : Input} (h : analyze stack config input = .ok r) :
    (∃ d log, d.code.phase = .parsing ∧ r = ({ config, log } : Report).fail d) ∨
    ∃ t log, input.Stands stack.parsing t ∧ t.height ≤ Node.maxLevels ∧
      r = ({ config, log } : Report).completed t := by
  rcases analyze_cases stack config input with ⟨d, log, hphase, hfail⟩ | ⟨t, log, ht, hhigh, hof⟩
  · exact Or.inl ⟨d, log, hphase, Except.ok.inj (h.symm.trans hfail)⟩
  · rw [hof, ofTree_eq] at h
    split_ifs at h
    exact Or.inr ⟨t, log, ht, hhigh, (Except.ok.inj h).symm⟩

lemma eq_completed_of_parse {stack : Stack} {source : String}
    (hr : analyze stack config (.text source) = .ok r)
    (h : Grammar.parse stack.parsing source = .ok t) :
    ∃ log, r = ({ config, log } : Report).completed t := by
  rw [analyze_text_of_parse h, ofTree_eq] at hr
  split_ifs at hr
  exact ⟨_, (Except.ok.inj hr).symm⟩

lemma exists_of_map_analyze {stack : Stack} {input : Input} {β : Type} {f : Report → β} {b : β}
    (h : (analyze stack config input).map f = .ok b) :
    ∃ r, analyze stack config input = .ok r ∧ f r = b := by
  cases hr : analyze stack config input with
  | error fault =>
    rw [hr] at h
    cases h
  | ok r =>
    rw [hr] at h
    exact ⟨r, rfl, Except.ok.inj h⟩

def unset : String := "int a = 1; return a / b;"

end Report

end Primer
