import Mathlib.Tactic
import Primer.Proofs.Bindings
import Primer.Proofs.FailFast
import Primer.Proofs.Stores

/-!
The declared types of a report, read off its list of declarations.

The type check notes each declaration when it comes to it and closes no scope, so the table it ends
with is made by the declarations of the walk alone, in their order. The report lists the same
declarations. The two therefore agree on the names, on their order and on the type that is left for
a name that was declared more than once.
-/

namespace Primer

open Progress Node

namespace SymbolEntry

def binding (s : SymbolEntry) : String × String := (s.name, s.type)

/-- The mapping that declarations amount to: every declared name once, in the order of first
declaration, with the type of its last declaration. -/
def mapping (ss : List SymbolEntry) : Table String :=
  (ss.map SymbolEntry.name).eraseDups.filterMap fun x =>
    (ss.filter fun s => s.name = x).getLast?.map fun s => (x, s.type)

lemma update_nil_binding (ss : List SymbolEntry) : .update [] (ss.map binding) = mapping ss := by
  have hkeys : (Table.update [] (ss.map binding)).map Prod.fst =
      (ss.map SymbolEntry.name).eraseDups := by
    rw [Table.keys_update_nil, List.map_map]
    rfl
  have hvalue (x : String) : (Table.update [] (ss.map binding)).get? x =
      (ss.filter fun s => s.name = x).getLast?.map SymbolEntry.type := by
    rw [Table.get?_update_nil, List.filter_map, List.getLast?_map, Option.map_map]
    rfl
  rw [Table.eq_filterMap_keys (Table.distinct_update_nil (ss.map binding)), hkeys, mapping]
  refine List.filterMap_congr fun x _ => ?_
  rw [hvalue, Option.map_map]
  rfl

end SymbolEntry

namespace SymbolTable

def note (table : SymbolTable) (ss : List SymbolEntry) : SymbolTable :=
  ss.foldl (fun table s => table.define s.name s.type) table

lemma note_eq (table : SymbolTable) (ss : List SymbolEntry) :
    table.note ss = ⟨table.inner.update (ss.map SymbolEntry.binding), table.outer⟩ := by
  induction ss generalizing table with
  | nil => rfl
  | cons s ss ih =>
    rw [note, List.foldl_cons]
    exact ih (table.define s.name s.type)

lemma items_note_empty (ss : List SymbolEntry) :
    (empty.note ss).items = SymbolEntry.mapping ss := by
  rw [note_eq, ← SymbolEntry.update_nil_binding]
  exact Table.update_update_nil [] (ss.map SymbolEntry.binding)

end SymbolTable

namespace Typing

variable {strict : Bool} {table table' : SymbolTable}

/-- **Step**: a store that passes leaves the table with what it declares, if anything. -/
lemma table_of_check {n : Tree} (hstore : n.isStore)
    (h : check strict table n = .finished table') :
    table' = table.note n.symbolEntry?.toList := by
  cases n with
  | declare type x value loc =>
    rw [check] at h
    exact Declared.table_of_declare h
  | assign x value loc =>
    rw [check] at h
    exact (Declared.table_of_assign h).1
  | _ => cases hstore

/-- **Run**: stores that pass leave the table with all that they declare. -/
lemma table_of_each {ns : List Tree} (hstores : ∀ n ∈ ns, n.isStore) :
    ∀ table, each (check strict) table ns = .finished table' →
      table' = table.note (ns.filterMap symbolEntry?) := by
  induction ns with
  | nil =>
    intro table h
    exact (Progress.finished.inj h).symm
  | cons n ns ih =>
    intro table h
    obtain ⟨middle, hn, hns⟩ := Progress.andThen_eq_finished.1 h
    have hmiddle : middle = table.note n.symbolEntry?.toList :=
      table_of_check (hstores n (by simp)) hn
    have hlast : table' = middle.note (ns.filterMap symbolEntry?) :=
      ih (fun m hm => hstores m (by simp [hm])) middle hns
    rw [hlast, hmiddle, SymbolTable.note, SymbolTable.note, ← List.foldl_append]
    cases hentry : n.symbolEntry? <;> simp [SymbolTable.note, hentry]

lemma filterMap_stores (t : Tree) : t.stores.filterMap symbolEntry? = t.symbols := by
  rw [stores, symbols, List.filterMap_filter]
  refine List.filterMap_congr fun n _ => ?_
  cases n <;> rfl

lemma table_of_wellSorted {t : Tree} (ht : t.WellSorted)
    (h : check strict table t = .finished table') : table' = table.note t.symbols := by
  rw [check_eq_stores ht] at h
  rw [← filterMap_stores]
  exact table_of_each (fun n hn => (List.mem_filter.1 hn).2) table h

end Typing

namespace Report

/-- **Declared types**: where the type check of an accepted text passes, the report lists the
declarations of the whole program, and its declared types are the mapping that this list amounts
to. -/
theorem declaredTypes_eq_mapping {stack : Stack} {config : Config} {source : String} {t : Tree}
    {r : Report} (hr : analyze stack config (.text source) = .ok r)
    (hparse : Grammar.parse stack.parsing source = .ok t) (htypes : .types ∈ r.passes) :
    r.symbols = t.walk.filterMap symbolEntry? ∧
      r.declaredTypes = SymbolEntry.mapping r.symbols := by
  obtain ⟨log, rfl⟩ := eq_completed_of_parse hr hparse
  have hupto := upto_completed config t log
  obtain ⟨table, hfinished, hitems⟩ := hupto.types htypes
  have htable : table = SymbolTable.empty.note t.symbols :=
    Typing.table_of_wellSorted (Grammar.isProgram_of_parse hparse).wellSorted hfinished
  rw [hitems, htable, SymbolTable.items_note_empty, hupto.shows.symbols]
  exact ⟨rfl, rfl⟩

def redeclared : String :=
  "int a = 1; float b; if (a > 0) \x7b string a; \x7d else \x7b bool c; \x7d " ++
    "while (a > 0) \x7b int b = 2; \x7d float a = 2.5;"

theorem redeclared_declaredTypes : ∃ t r, Grammar.parse 3 redeclared = .ok t ∧
    analyze ⟨3, 0, 0, 16⟩ {} (.text redeclared) = .ok r ∧ .types ∈ r.passes ∧
    r.symbols = t.walk.filterMap symbolEntry? ∧
    r.declaredTypes = SymbolEntry.mapping r.symbols ∧
    r.declaredTypes = [("a", "float"), ("b", "int"), ("c", "bool")] := by
  have hread : (Grammar.parse 3 redeclared).map (fun _ => ()) = .ok () := by decide +kernel
  have hviews : (analyze ⟨3, 0, 0, 16⟩ {} (.text redeclared)).map
      (fun r => (decide (.types ∈ r.passes), r.declaredTypes)) =
      .ok (true, [("a", "float"), ("b", "int"), ("c", "bool")]) := by decide +kernel
  obtain ⟨t, hparse, -⟩ := Grammar.exists_of_map_parse hread
  obtain ⟨r, hr, hview⟩ := exists_of_map_analyze hviews
  obtain ⟨hpass, hlisted⟩ := Prod.mk.inj hview
  have htypes : .types ∈ r.passes := of_decide_eq_true hpass
  obtain ⟨hsymbols, hdeclared⟩ := declaredTypes_eq_mapping hr hparse htypes
  exact ⟨t, r, hparse, hr, htypes, hsymbols, hdeclared, hlisted⟩

end Report

end Primer
