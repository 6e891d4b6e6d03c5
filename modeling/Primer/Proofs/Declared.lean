import Mathlib.Tactic
import Primer.Proofs.FailFast
import Primer.Proofs.Initialized

/-!
Checked programs mention only declared variables.

The type check looks at no condition and no returned value, and it lets a declaration read itself.
The check of initialized variables is content with a variable that was only assigned. Together, and
along the walk of the tree, they leave no gap: a variable is noted by either of them only behind a
declaration, and what one of them does not look up the other does.
-/

namespace Primer

def Node.mention? : Tree → Option String
  | .name x _ => some x
  | .assign x _ _ => some x
  | _ => none

namespace Declared

open Initialized

variable {before part : List Tree} {x : String}

/-- A declaration of the variable, with all that is in it, stands among the nodes of a walk. -/
def In (nodes : List Tree) (x : String) : Prop :=
  ∃ p t v loc q, nodes = p ++ (Node.declare t x v loc).walk ++ q

lemma In.append (h : In before x) (part : List Tree) : In (before ++ part) x := by
  obtain ⟨p, t, v, loc, q, rfl⟩ := h
  exact ⟨p, t, v, loc, q ++ part, by simp⟩

def Mentions (before part : List Tree) : Prop :=
  ∀ p u q x, part = p ++ u :: q → u.mention? = some x → In (before ++ p) x

lemma Mentions.nil (before : List Tree) : Mentions before [] := by
  intro p u q x h
  simp at h

lemma Mentions.cons {n : Tree} (hn : ∀ x, n.mention? = some x → In before x)
    (h : Mentions (before ++ [n]) part) : Mentions before (n :: part) := by
  intro p u q x hpart hu
  cases p with
  | nil =>
    obtain rfl : n = u := (List.cons.inj hpart).1
    simpa using hn x hu
  | cons m p =>
    obtain ⟨rfl, hrest⟩ := List.cons.inj hpart
    simpa using h p u q x hrest hu

lemma Mentions.append {part' : List Tree} (h : Mentions before part)
    (h' : Mentions (before ++ part) part') : Mentions before (part ++ part') := by
  induction part generalizing before with
  | nil => simpa using h'
  | cons n part ih =>
    refine .cons (fun x hx => ?_) (ih (fun p u q x hpart hu => ?_) (by simpa using h'))
    · simpa using h [] n part x rfl hx
    · simpa using h (n :: p) u q x (by simp [hpart]) hu

abbrev Notes := SymbolTable × Names

structure Noted (before : List Tree) (s : Notes) : Prop where
  types : ∀ x, (s.1.lookup x).isSome → In before x
  names : ∀ x ∈ s.2, In before x

lemma Noted.append {s : Notes} (h : Noted before s) (part : List Tree) : Noted (before ++ part) s :=
  ⟨fun x hx => (h.types x hx).append part, fun x hx => (h.names x hx).append part⟩

/-- If only declared variables are noted before a part of the walk, it mentions only such variables,
and no others are noted behind it. -/
def Keeps (part : List Tree) (s s' : Notes) : Prop :=
  ∀ before, Noted before s → Mentions before part ∧ Noted (before ++ part) s'

namespace Keeps

variable {s s' s'' : Notes} {part' : List Tree}

lemma nil (s : Notes) : Keeps [] s s := by
  intro before h
  exact ⟨.nil before, by simpa using h⟩

lemma append (h : Keeps part s s') (h' : Keeps part' s' s'') : Keeps (part ++ part') s s'' := by
  intro before hs
  obtain ⟨hpart, hs'⟩ := h before hs
  obtain ⟨hpart', hs''⟩ := h' (before ++ part) hs'
  exact ⟨hpart.append hpart', by simpa using hs''⟩

/-- A node that mentions no variable, in front of its parts. -/
lemma cons {n : Tree} (hn : n.mention? = none) (h : Keeps part s s') : Keeps (n :: part) s s' := by
  intro before hs
  obtain ⟨hpart, hs'⟩ := h (before ++ [n]) (hs.append [n])
  exact ⟨.cons (by simp [hn]) hpart, by simpa using hs'⟩

/-- What is set in a part that has a copy of the names is forgotten behind it. -/
lemma onCopy {table table' : SymbolTable} {names names' : Names}
    (h : Keeps part (table, names) (table', names')) :
    Keeps part (table, names) (table', names) := by
  intro before hs
  obtain ⟨hpart, hs'⟩ := h before hs
  exact ⟨hpart, hs'.types, (hs.append part).names⟩

end Keeps

/-! ### Expressions -/

variable {ok : Literal → Prop} {names names' : Names} {table table' : SymbolTable}

/-- An expression that passes mentions only variables that are set, and it sets none. -/
lemma mem_names_of_check {e : Tree} (he : e.IsExpression ok) :
    ∀ {names'}, check names e = .finished names' →
      names' = names ∧ ∀ u ∈ e.walk, ∀ x, u.mention? = some x → x ∈ names := by
  induction e using Node.induction with
  | literal v loc =>
    intro names' h
    obtain rfl := Progress.finished.inj h
    simp [Node.walk, Node.mention?]
  | name x loc =>
    intro names' h
    rw [check] at h
    split at h <;> rename_i hx
    · obtain rfl := Progress.finished.inj h
      simpa [Node.walk, Node.mention?] using hx
    · cases h
  | binary op l r loc hl hr =>
    intro names' h
    obtain ⟨mid, hleft, hright⟩ := Progress.andThen_eq_finished.1 h
    obtain ⟨rfl, hmem⟩ := hl he.2.1 hleft
    obtain ⟨rfl, hmem'⟩ := hr he.2.2 hright
    refine ⟨rfl, fun u hu x hx => ?_⟩
    simp only [Node.walk, List.mem_cons, List.mem_append] at hu
    rcases hu with rfl | hu | hu
    · simp [Node.mention?] at hx
    · exact hmem u hu x hx
    · exact hmem' u hu x hx
  | _ => exact he.elim

lemma keeps_expression {e : Tree} (table : SymbolTable) (he : e.IsExpression ok)
    (h : check names e = .finished names') :
    names' = names ∧ Keeps e.walk (table, names) (table, names) := by
  obtain ⟨rfl, hmem⟩ := mem_names_of_check he h
  refine ⟨rfl, fun before hs => ⟨fun p u q x hwalk hu => ?_, hs.append _⟩⟩
  exact (hs.names x (hmem u (by simp [hwalk]) x hu)).append p

/-! ### Stores -/

lemma lookup_define (table : SymbolTable) (x t y : String) :
    (table.define x t).lookup y = if y = x then some t else table.lookup y := by
  simp only [SymbolTable.lookup, SymbolTable.define, List.findSome?_cons, Table.get?_set]
  by_cases hy : y = x <;> simp [hy]

lemma table_of_store {declared inferred target : String} {loc : Option Span}
    (h : Typing.store table declared inferred target loc = .finished table') : table' = table := by
  unfold Typing.store at h
  split at h
  · cases h
  · exact (Progress.finished.inj h).symm

lemma table_of_declare {strict : Bool} {t : String} {v : Option Tree} {loc : Option Span}
    (h : Typing.declare strict table t x v loc = .finished table') : table' = table.define x t := by
  unfold Typing.declare at h
  split at h
  · cases h
  · dsimp only at h
    split at h
    · cases h
    · exact table_of_store h

lemma table_of_assign {strict : Bool} {v : Tree} {loc : Option Span}
    (h : Typing.assign strict table x v loc = .finished table') :
    table' = table ∧ (table.lookup x).isSome := by
  unfold Typing.assign at h
  split at h
  · cases h
  · rename_i t hlookup
    split at h
    · cases h
    · split at h
      · cases h
      · exact ⟨table_of_store h, by simp [hlookup]⟩

lemma keeps_declare {t : String} {v : Option Tree} {loc : Option Span}
    (hwalk : (Node.declare t x v loc).walk = .declare t x v loc :: part)
    (h : Keeps part (table, names) (table, names)) :
    Keeps (Node.declare t x v loc).walk (table, names)
      (table.define x t, Initialized.insert x names) := by
  intro before hs
  have hdeclared : In (before ++ (Node.declare t x v loc).walk) x :=
    ⟨before, t, v, loc, [], by simp⟩
  have hs' := hs.append (Node.declare t x v loc).walk
  refine ⟨?_, fun y hy => ?_, fun y hy => ?_⟩
  · rw [hwalk]
    exact (h.cons rfl before hs).1
  · by_cases hyx : y = x
    · rwa [hyx]
    · rw [lookup_define, if_neg hyx] at hy
      exact hs'.types y hy
  · rcases mem_insert.1 hy with hy | rfl
    · exact hs'.names y hy
    · exact hdeclared

lemma keeps_assign {v : Tree} {loc : Option Span} (hx : (table.lookup x).isSome)
    (h : Keeps v.walk (table, names) (table, names)) :
    Keeps (Node.assign x v loc).walk (table, names) (table, Initialized.insert x names) := by
  intro before hs
  have hs' := hs.append (Node.assign x v loc).walk
  refine ⟨.cons (fun y hy => ?_) (h _ (hs.append _)).1, hs'.types, fun y hy => ?_⟩
  · obtain rfl : x = y := Option.some.inj hy
    exact hs.types x hx
  · rcases mem_insert.1 hy with hy | rfl
    · exact hs'.names y hy
    · exact hs'.types y hx

/-! ### Statements -/

variable {strict : Bool}

lemma keeps_statements {ns : List Tree}
    (ih : ∀ n ∈ ns, ∀ table names table' names', n.IsStatement ok →
      Typing.check strict table n = .finished table' → check names n = .finished names' →
        Keeps n.walk (table, names) (table', names'))
    (hns : ∀ n ∈ ns, n.IsStatement ok) :
    ∀ table names table' names', Typing.checkAll strict table ns = .finished table' →
      checkAll names ns = .finished names' →
        Keeps (Node.walkAll ns) (table, names) (table', names') := by
  induction ns with
  | nil =>
    intro table names table' names' htypes hnames
    obtain rfl := Progress.finished.inj htypes
    obtain rfl := Progress.finished.inj hnames
    exact .nil _
  | cons n ns ihs =>
    intro table names table' names' htypes hnames
    obtain ⟨table₁, htype, htypes⟩ := Progress.andThen_eq_finished.1 htypes
    obtain ⟨names₁, hname, hnames⟩ := Progress.andThen_eq_finished.1 hnames
    have hn := ih n (by simp) _ _ _ _ (hns n (by simp)) htype hname
    exact hn.append (ihs (fun m hm => ih m (by simp [hm])) (fun m hm => hns m (by simp [hm]))
      _ _ _ _ htypes hnames)

/-- The two checks side by side, over a statement that passes both. -/
lemma keeps_statement (n : Tree) : ∀ table names table' names', n.IsStatement ok →
    Typing.check strict table n = .finished table' → check names n = .finished names' →
      Keeps n.walk (table, names) (table', names') := by
  induction n using Node.induction with
  | literal | name | binary | forLoop | program => intro _ _ _ _ hn; exact hn.elim
  | declare t x v loc =>
    intro table names table' names' hn htypes hnames
    rw [Typing.check] at htypes
    obtain rfl := table_of_declare htypes
    cases v with
    | none =>
      obtain rfl := Progress.finished.inj hnames
      exact keeps_declare (by simp [Node.walk]) (.nil _)
    | some v =>
      obtain ⟨mid, hv, hset⟩ := Progress.andThen_eq_finished.1 hnames
      obtain ⟨rfl, hkeeps⟩ := keeps_expression table hn.2.2 hv
      obtain rfl := Progress.finished.inj hset
      exact keeps_declare (by simp [Node.walk]) hkeeps
  | assign x v loc =>
    intro table names table' names' hn htypes hnames
    rw [Typing.check] at htypes
    obtain ⟨rfl, hx⟩ := table_of_assign htypes
    obtain ⟨mid, hv, hset⟩ := Progress.andThen_eq_finished.1 hnames
    obtain ⟨rfl, hkeeps⟩ := keeps_expression table' hn.2 hv
    obtain rfl := Progress.finished.inj hset
    exact keeps_assign hx hkeeps
  | branch c b e loc _ ihb ihe =>
    intro table names table' names' hn htypes hnames
    cases e with
    | none =>
      obtain ⟨mid, hc, hbody⟩ := Progress.andThen_eq_finished.1 hnames
      obtain ⟨⟨inner, hb⟩, rfl⟩ := Progress.withState_eq_finished.1 hbody
      obtain ⟨rfl, hcond⟩ := keeps_expression table hn.1 hc
      exact .cons rfl (hcond.append (ihb _ _ _ _ hn.2 htypes hb).onCopy)
    | some e =>
      obtain ⟨mid, hc, hsides⟩ := Progress.andThen_eq_finished.1 hnames
      obtain ⟨mid', hbody, helse⟩ := Progress.andThen_eq_finished.1 hsides
      obtain ⟨⟨inner, hb⟩, rfl⟩ := Progress.withState_eq_finished.1 hbody
      obtain ⟨⟨inner', he⟩, rfl⟩ := Progress.withState_eq_finished.1 helse
      obtain ⟨rfl, hcond⟩ := keeps_expression table hn.1 hc
      obtain ⟨table₁, htypeb, htypee⟩ := Progress.andThen_eq_finished.1 htypes
      have hkeepsb := (ihb _ _ _ _ hn.2.1 htypeb hb).onCopy
      have hkeepse := (ihe e rfl _ _ _ _ hn.2.2.2 htypee he).onCopy
      exact .cons rfl (hcond.append (hkeepsb.append hkeepse))
  | whileLoop c b loc _ ihb =>
    intro table names table' names' hn htypes hnames
    obtain ⟨mid, hc, hbody⟩ := Progress.andThen_eq_finished.1 hnames
    obtain ⟨⟨inner, hb⟩, rfl⟩ := Progress.withState_eq_finished.1 hbody
    obtain ⟨rfl, hcond⟩ := keeps_expression table hn.1 hc
    exact .cons rfl (hcond.append (ihb _ _ _ _ hn.2 htypes hb).onCopy)
  | ret v loc =>
    intro table names table' names' hn htypes hnames
    obtain rfl := Progress.finished.inj htypes
    cases v with
    | none =>
      obtain rfl := Progress.finished.inj hnames
      exact .cons rfl (.nil _)
    | some v =>
      obtain ⟨rfl, hkeeps⟩ := keeps_expression table hn hnames
      exact .cons rfl hkeeps
  | block ns loc ih =>
    intro table names table' names' hn htypes hnames
    obtain ⟨⟨inner, hns⟩, rfl⟩ := Progress.withState_eq_finished.1 hnames
    exact .cons rfl (keeps_statements ih (Node.isStatements_iff.1 hn) _ _ _ _ htypes hns).onCopy

/-- A program that passes both checks mentions no variable before its declaration. -/
lemma mentions_program {t : Tree} (ht : t.IsProgram ok)
    (htypes : Typing.check strict .empty t = .finished table)
    (hnames : check [] t = .finished names) : Mentions [] t.walk := by
  have hnothing : Noted [] (SymbolTable.empty, []) :=
    ⟨by simp [SymbolTable.lookup, SymbolTable.empty, Table.get?], by simp⟩
  cases t with
  | program ns loc =>
    obtain ⟨⟨inner, hns⟩, -⟩ := Progress.withState_eq_finished.1 hnames
    have hkeeps := keeps_statements (fun n _ => keeps_statement n) (Node.isStatements_iff.1 ht)
      _ _ _ _ htypes hns
    exact (hkeeps.cons rfl [] hnothing).1
  | _ => exact ht.elim

/-- **Declared before use**: if the report on a text lists both the type check and the check of
initialized variables, then every variable that the program reads or assigns anywhere has a
declaration that is complete before this place of the walk. -/
theorem declared_before_mention {stack : Stack} {config : Config} {source : String} {t : Tree}
    {r : Report} (hr : analyze stack config (.text source) = .ok r)
    (ht : Grammar.parse stack.parsing source = .ok t) (htypes : .types ∈ r.passes)
    (hflow : .dataflow ∈ r.passes) {before after : List Tree} {u : Tree} {x : String}
    (hu : t.walk = before ++ u :: after) (hx : u.mention? = some x) :
    ∃ p type value loc q, before = p ++ (Node.declare type x value loc).walk ++ q := by
  obtain ⟨log, rfl⟩ := Report.eq_completed_of_parse hr ht
  have hupto := Report.upto_completed config t log
  obtain ⟨table, htable, -⟩ := hupto.types htypes
  obtain ⟨names, hnames⟩ := hupto.flow hflow
  exact mentions_program (Grammar.isProgram_of_parse ht) htable hnames before u after x hu hx

def outlived : String := "int a; \x7b int b = a; \x7d b = 1; while (a < b) return b;"

theorem outlived_declared_before_mention : ∃ t r before u, Grammar.parse 3 outlived = .ok t ∧
    analyze ⟨3, 0, 0, 14⟩ {} (.text outlived) = .ok r ∧ .types ∈ r.passes ∧ .dataflow ∈ r.passes ∧
    t.walk = before ++ [u] ∧ u.mention? = some "b" ∧
    ∃ p type value loc q, before = p ++ (Node.declare type "b" value loc).walk ++ q := by
  have hpasses : (analyze ⟨3, 0, 0, 14⟩ {} (.text outlived)).map Report.passes =
      .ok [.parse, .score, .graph, .types, .dataflow, .math] := by decide +kernel
  have hlast : (Grammar.parse 3 outlived).map (fun t => t.walk.getLast?.bind Node.mention?) =
      .ok (some "b") := by decide +kernel
  obtain ⟨t, ht, hlast⟩ := Grammar.exists_of_map_parse hlast
  obtain ⟨u, hu, hx⟩ := Option.bind_eq_some_iff.1 hlast
  obtain ⟨before, hwalk⟩ := List.getLast?_eq_some_iff.1 hu
  obtain ⟨r, hr, hran⟩ := Report.exists_of_map_analyze hpasses
  have htypes : .types ∈ r.passes := by rw [hran]; decide
  have hflow : .dataflow ∈ r.passes := by rw [hran]; decide
  exact ⟨t, r, before, u, ht, hr, htypes, hflow, hwalk, hx,
    declared_before_mention hr ht htypes hflow hwalk hx⟩

end Declared

end Primer
