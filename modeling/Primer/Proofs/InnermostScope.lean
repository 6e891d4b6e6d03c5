import Mathlib.Tactic
import Primer.Proofs.DeclaredTypes
import Primer.Proofs.FlatPrograms

/-!
What the type check may change in the table that it is given.

The check notes the declarations that it comes to in the innermost scope, one after the other, and
touches nothing else. A declaration is noted before its value is compared with its type, so a check
that stops has noted those before the fault, with or without the one at fault. The table that is
left is therefore known up to how far the check came.
-/

namespace Primer

open Progress Node

namespace Node

/-- The declarations that stand where a statement belongs, in the order of the walk. -/
def declared (t : Tree) : List SymbolEntry := t.standing.filterMap symbolEntry?

lemma declared_eq (t : Tree) : t.declared = t.symbolEntry?.toList ++ t.inner.flatMap declared := by
  have hinner : (t.inner.flatMap standing).filterMap symbolEntry? = t.inner.flatMap declared :=
    List.filterMap_flatMap
  rw [declared, standing_eq, ← hinner]
  cases hentry : t.symbolEntry? with
  | none => rw [List.filterMap_cons_none hentry, Option.toList_none, List.nil_append]
  | some s => rw [List.filterMap_cons_some hentry, Option.toList_some, List.singleton_append]

lemma standing_subset_walk (t : Tree) : t.standing ⊆ t.walk := by
  induction t using innerInduction with
  | step t ih =>
    rw [standing_eq, walk_eq]
    refine List.cons_subset_cons _ fun n hn => ?_
    obtain ⟨m, hm, hn⟩ := List.mem_flatMap.1 hn
    exact List.mem_flatMap.2 ⟨m, inner_subset_children t hm, ih m hm hn⟩

lemma declare_of_mem_declared {t : Tree} {s : SymbolEntry} (h : s ∈ t.declared) :
    ∃ v loc, .declare s.type s.name v loc ∈ t.walk := by
  obtain ⟨n, hn, hs⟩ := List.mem_filterMap.1 h
  cases n with
  | declare type x v loc =>
    obtain rfl := Option.some.inj hs
    exact ⟨v, loc, standing_subset_walk t hn⟩
  | _ => cases hs

end Node

namespace SymbolTable

lemma note_append (table : SymbolTable) (ss ss' : List SymbolEntry) :
    table.note (ss ++ ss') = (table.note ss).note ss' :=
  List.foldl_append

lemma lookup_eq_or (table : SymbolTable) (x : String) :
    table.lookup x = (table.inner.get? x).or (table.outer.findSome? fun s => s.get? x) := by
  rw [lookup, List.findSome?_cons]
  cases table.inner.get? x <;> rfl

end SymbolTable

namespace Typing

variable {strict : Bool} {table : SymbolTable} {ss ss' : List SymbolEntry}
  {p : Progress SymbolTable TypeFault} {t : Tree}

/-- How a check ends that notes declarations one after the other: with all of them if it finishes,
and with the first ones if it stops. -/
inductive Notes (table : SymbolTable) (ss : List SymbolEntry) :
    Progress SymbolTable TypeFault → Prop
  | finished : Notes table ss (.finished (table.note ss))
  | stopped {noted : List SymbolEntry} (first : noted <+: ss) (fault : TypeFault) :
    Notes table ss (.stopped fault (table.note noted))

lemma Notes.andThen {next : SymbolTable → Progress SymbolTable TypeFault} (h : Notes table ss p)
    (hnext : ∀ table, Notes table ss' (next table)) : Notes table (ss ++ ss') (p.andThen next) := by
  cases h with
  | finished =>
    have hrest := hnext (table.note ss)
    rw [Progress.andThen]
    generalize next (table.note ss) = q at hrest
    cases hrest with
    | finished =>
      rw [← SymbolTable.note_append]
      exact .finished
    | stopped first fault =>
      rw [← SymbolTable.note_append]
      exact .stopped ((List.prefix_append_right_inj ss).2 first) fault
  | stopped first fault => exact .stopped (first.trans (List.prefix_append ss ss')) fault

lemma notes_each {step : SymbolTable → Tree → Progress SymbolTable TypeFault}
    {notes : Tree → List SymbolEntry} {ns : List Tree}
    (h : ∀ n ∈ ns, ∀ table, Notes table (notes n) (step table n)) :
    ∀ table, Notes table (ns.flatMap notes) (each step table ns) := by
  induction ns with
  | nil => exact fun table => .finished
  | cons n ns ih =>
    intro table
    exact (h n (by simp) table).andThen (ih fun m hm => h m (by simp [hm]))

/-- A comparison notes nothing. -/
lemma notes_store (table : SymbolTable) (ss : List SymbolEntry) (declared inferred target : String)
    (loc : Option Span) : Notes table ss (store (table.note ss) declared inferred target loc) := by
  unfold store
  split
  · exact .stopped List.prefix_rfl _
  · exact .finished

/-- **Step**: a declaration is noted, unless strict mode refuses an operation in its value. -/
lemma notes_declare (table : SymbolTable) (type x : String) (value : Option Tree)
    (loc : Option Span) :
    Notes table [⟨type, x, listedLine (.declare type x value loc)⟩]
      (declare strict table type x value loc) := by
  unfold declare
  cases inferOptional strict table value with
  | error fault => exact .stopped List.nil_prefix fault
  | ok inferred =>
    dsimp only
    split
    · rename_i fault _
      exact .stopped List.prefix_rfl fault
    · exact notes_store table [⟨type, x, _⟩] type inferred x loc

lemma notes_assign (table : SymbolTable) (x : String) (value : Tree) (loc : Option Span) :
    Notes table [] (assign strict table x value loc) := by
  unfold assign
  split
  · exact .stopped List.prefix_rfl _
  · split
    · exact .stopped List.prefix_rfl _
    · split
      · exact .stopped List.prefix_rfl _
      · exact notes_store table [] _ _ x loc

/-- **Run**: the check of a tree notes the declarations that stand where a statement belongs. -/
lemma notes_check (strict : Bool) (t : Tree) :
    ∀ table, Notes table t.declared (check strict table t) := by
  induction t using innerInduction with
  | step t ih =>
    intro table
    rw [declared_eq]
    cases hstore : t.isStore with
    | true =>
      cases t with
      | declare type x v loc => exact notes_declare table type x v loc
      | assign x v loc => exact notes_assign table x v loc
      | _ => cases hstore
    | false =>
      have hentry : t.symbolEntry? = none := by
        cases t with
        | declare => cases hstore
        | _ => rfl
      rw [check_inner hstore, hentry]
      exact notes_each ih table

/-- A table was changed by declarations of a tree in its innermost scope only. -/
structure InnerExtended (t : Tree) (table left : SymbolTable) : Prop where
  depth : left.depth = table.depth
  outer : left.outer = table.outer
  keys : ∃ fresh, left.inner.map Prod.fst = table.inner.map Prod.fst ++ fresh ∧ fresh.Nodup ∧
    ∀ x ∈ fresh, x ∉ table.inner.map Prod.fst ∧ ∃ type v loc, .declare type x v loc ∈ t.walk
  changed : ∀ x, left.inner.get? x ≠ table.inner.get? x ∨ left.lookup x ≠ table.lookup x →
    ∃ type v loc, .declare type x v loc ∈ t.walk ∧
      left.inner.get? x = some type ∧ left.lookup x = some type

/-- What the first declarations of a tree leave of a table. -/
lemma innerExtended_note {noted : List SymbolEntry} (h : noted <+: t.declared)
    (table : SymbolTable) : InnerExtended t table (table.note noted) := by
  have hdeclare {x type : String} (hx : (x, type) ∈ noted.map SymbolEntry.binding) :
      ∃ v loc, .declare type x v loc ∈ t.walk := by
    obtain ⟨s, hs, heq⟩ := List.mem_map.1 hx
    obtain ⟨rfl, rfl⟩ := Prod.mk.inj heq
    exact declare_of_mem_declared (h.subset hs)
  rw [SymbolTable.note_eq]
  refine ⟨rfl, rfl, ?_, fun x hx => ?_⟩
  · obtain ⟨fresh, hkeys, hnodup, hfresh⟩ :=
      Table.exists_keys_update table.inner (noted.map SymbolEntry.binding)
    refine ⟨fresh, hkeys, hnodup, fun x hx => ?_⟩
    obtain ⟨hmem, hnew⟩ := (hfresh x).1 hx
    obtain ⟨⟨y, type⟩, hbinding, rfl⟩ := List.mem_map.1 hmem
    exact ⟨hnew, type, hdeclare hbinding⟩
  · -- the outer scopes are the same, so a name that reads otherwise does so in the innermost one
    have hinner : (table.inner.update (noted.map SymbolEntry.binding)).get? x ≠
        table.inner.get? x := by
      rcases hx with hx | hx
      · exact hx
      · intro heq
        rw [SymbolTable.lookup_eq_or, SymbolTable.lookup_eq_or, heq] at hx
        exact hx rfl
    obtain ⟨type, hbinding, hget⟩ := Table.mem_of_get?_update_ne hinner
    obtain ⟨v, loc, hmem⟩ := hdeclare hbinding
    refine ⟨type, v, loc, hmem, hget, ?_⟩
    rw [SymbolTable.lookup_eq_or, hget, Option.some_or]

/-- **Frame**: in both modes, and whether it finishes or stops, the type check of a tree leaves the
number of scopes and all scopes but the innermost as they were. In the innermost scope the names
keep their order, those that are new come behind them, and a name with another type than before has
the type of one of its declarations in the tree. What is noted are the declarations that stand where
a statement belongs, up to the fault if there is one. -/
theorem check_extends_inner (strict : Bool) (table : SymbolTable) (t : Tree) :
    InnerExtended t table (check strict table t).state ∧
      Notes table t.declared (check strict table t) := by
  have hnotes := notes_check strict t table
  refine ⟨?_, hnotes⟩
  generalize check strict table t = p at hnotes
  cases hnotes with
  | finished => exact innerExtended_note List.prefix_rfl table
  | stopped first fault => exact innerExtended_note first table

/-- A declaration that is refused stays noted. -/
example : (check false ⟨[("a", "int")], [[("x", "bool")]]⟩
    (.declare "int" "x" (some (.literal (.text "") none)) none)).state =
      ⟨[("a", "int"), ("x", "int")], [[("x", "bool")]]⟩ := rfl

end Typing

end Primer
