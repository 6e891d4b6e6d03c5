import Mathlib.Tactic
import Primer.Proofs.Declared
import Primer.Proofs.Offenders
import Primer.Proofs.StatementViews

/-!
The stores of a program, and the table of types that the type check ends with.

A store is a declaration or an assignment. In a well-sorted tree the type check goes through the
stores in the order of the walk and looks at nothing else. Each stored value is compared with the
type of its target while the table is still being made. The table it ends with says more: it knows
a variable that stands in its own first value, and all that is declared later. Where a name has one
type only, the last table still justifies every store.
-/

namespace Primer

open Progress

namespace Node

def isStore (n : Tree) : Bool := n.target?.isSome

def stores (t : Tree) : List Tree := t.walk.filter isStore

lemma isStatement_of_isStore {n : Tree} (h : n.isStore) : n.isStatement := by
  cases n with
  | declare | assign => rfl
  | _ => cases h

lemma filter_isStore_isStatement (ns : List Tree) :
    (ns.filter isStatement).filter isStore = ns.filter isStore := by
  rw [List.filter_filter]
  refine List.filter_congr fun n _ => ?_
  cases h : n.isStore with
  | true => rw [isStatement_of_isStore h, Bool.and_self]
  | false => rw [Bool.false_and]

/-- In a well-sorted tree stores are found only in rows, bodies and `else` parts. -/
lemma stores_eq {t : Tree} (h : t.WellSorted) :
    t.stores = [t].filter isStore ++ t.inner.flatMap stores := by
  have hstores (n : Tree) : n.stores = n.statements.filter isStore :=
    (filter_isStore_isStatement n.walk).symm
  rw [hstores, statements_eq h, List.filter_append, filter_isStore_isStatement,
    List.filter_flatMap, funext hstores]

end Node

open Node

namespace Typing

variable {strict : Bool} {table table' : SymbolTable}

/-- A node that is no store is checked by what stands directly in it. -/
lemma check_inner {t : Tree} (h : t.isStore = false) (table : SymbolTable) :
    check strict table t = each (check strict) table t.inner := by
  cases t with
  | declare | assign => cases h
  | branch c b e loc => cases e <;> simp [check, Node.inner, each, andThen_finished]
  | block ns loc | program ns loc => rw [check, checkAll_eq, Node.inner]
  | _ => simp [check, Node.inner, each, andThen_finished]

/-- **In order**: the type check of a well-sorted tree is the check of its stores, one after the
other in the order of the walk. -/
lemma check_eq_stores {t : Tree} (h : t.WellSorted) (table : SymbolTable) :
    check strict table t = each (check strict) table t.stores := by
  induction t using innerInduction generalizing table with
  | step t ih =>
    rw [stores_eq h]
    cases hstore : t.isStore with
    | true =>
      have hinner : t.inner = [] := by
        cases t with
        | declare | assign => rfl
        | _ => cases hstore
      rw [hinner, List.flatMap_nil, List.append_nil, List.filter_cons_of_pos hstore,
        List.filter_nil, each]
      simp only [each, andThen_finished]
    | false =>
      rw [List.filter_cons_of_neg (by simp [hstore]), List.filter_nil, List.nil_append,
        check_inner hstore]
      refine each_flatMap (fun m hm table => ?_) table
      exact ih m hm (h.child (inner_subset_children t hm)) table

/-! ### What a store needs -/

lemma store_eq_finished {declared inferred target : String} {loc : Option Span} :
    store table declared inferred target loc = .finished table' ↔
      (inferred = unknownType ∨ inferred = declared) ∧ table' = table := by
  unfold store
  split
  · rename_i h
    simp [h.1, h.2]
  · rename_i h
    simp only [Progress.finished.injEq, eq_comm (a := table)]
    tauto

/-- When a declaration passes: its value is typed by the table before it, and the names of the
value are looked up in the table behind it. -/
lemma declare_eq_finished {type x : String} {value : Option Tree} {loc : Option Span} :
    declare strict table type x value loc = .finished table' ↔
      ∃ inferred, inferOptional strict table value = .ok inferred ∧
        firstUndeclared? (table.define x type) value = none ∧
        (inferred = unknownType ∨ inferred = type) ∧ table' = table.define x type := by
  unfold declare
  cases inferOptional strict table value with
  | error fault => simp
  | ok inferred =>
    cases hnames : firstUndeclared? (table.define x type) value with
    | some fault => simp [hnames]
    | none => simp [hnames, store_eq_finished]

/-- When an assignment passes. -/
lemma assign_eq_finished {x : String} {value : Tree} {loc : Option Span} :
    assign strict table x value loc = .finished table' ↔
      ∃ declared inferred, table.lookup x = some declared ∧
        firstUndeclared? table (some value) = none ∧ infer strict table value = .ok inferred ∧
        (inferred = unknownType ∨ inferred = declared) ∧ table' = table := by
  unfold assign
  cases table.lookup x with
  | none => simp
  | some declared =>
    cases firstUndeclared? table (some value) with
    | some fault => simp
    | none =>
      cases infer strict table value with
      | error fault => simp
      | ok inferred => simp [store_eq_finished]

lemma firstUndeclared?_eq_none {value : Tree} :
    firstUndeclared? table (some value) = none ↔
      ∀ y loc, .name y loc ∈ value.walk → (table.lookup y).isSome := by
  rw [firstUndeclared?, List.findSome?_eq_none_iff]
  constructor
  · intro h y loc hy
    simpa [undeclared?, Option.isSome_iff_ne_none] using h (.name y loc) hy
  · intro h n hn
    cases n with
    | name y loc => simpa [undeclared?, Option.isSome_iff_ne_none] using h y loc hn
    | _ => rfl

/-! ### Types under a larger table -/

def Extends (table table' : SymbolTable) : Prop :=
  ∀ x declared, table.lookup x = some declared → table'.lookup x = some declared

lemma Extends.refl (table : SymbolTable) : Extends table table := fun _ _ h => h

lemma Extends.trans {table'' : SymbolTable} (h : Extends table table')
    (h' : Extends table' table'') : Extends table table'' :=
  fun x declared hx => h' x declared (h x declared hx)

/-- How the type of an expression can change once names of type `declared` are known. By the rule of
operations it stays, or it was not known, or it turns into `float`, and the last is possible only if
this is the type that became known. -/
def Raises (declared before after : String) : Prop :=
  after = before ∨ before = unknownType ∧ after = declared ∨
    declared = "float" ∧ after = "float"

variable {declared : String}

lemma Raises.operation {l l' r r' : String} (op : String) (hl : Raises declared l l')
    (hr : Raises declared r r') :
    Raises declared (operationType op l r) (operationType op l' r') := by
  unfold operationType
  split
  · exact .inl rfl
  · rcases hl with rfl | ⟨rfl, rfl⟩ | ⟨rfl, rfl⟩
    · rcases hr with rfl | ⟨rfl, rfl⟩ | ⟨rfl, rfl⟩
      · exact .inl rfl
      · by_cases hr : r' = "float"
        · exact .inr (.inr ⟨hr, by simp [hr]⟩)
        · exact .inl (by simp [hr, unknownType])
      · exact .inr (.inr ⟨rfl, by simp⟩)
    · -- the operation was `unknown` unless its right side makes it `float`, before and behind
      by_cases hfloat : r = "float"
      · have hfloat' : r' = "float" := by
          rcases hr with rfl | ⟨rfl, -⟩ | ⟨-, rfl⟩
          · exact hfloat
          · exact absurd hfloat (by decide)
          · rfl
        exact .inl (by simp [hfloat, hfloat'])
      · refine .inr (.inl ⟨by simp [hfloat, unknownType], ?_⟩)
        split
        · rename_i hop
          rcases hr with rfl | ⟨-, rfl⟩ | ⟨rfl, -⟩
          · simpa [hfloat, eq_comm] using hop
          · simpa [eq_comm] using hop
          · rfl
        · rfl
    · exact .inr (.inr ⟨rfl, by simp⟩)

/-- A value that fits its target still fits it when names of the target's type become known. -/
lemma Raises.fits {before after : String} (h : Raises declared before after)
    (hfits : before = unknownType ∨ before = declared) :
    after = unknownType ∨ after = declared := by
  rcases h with rfl | ⟨-, rfl⟩ | ⟨rfl, rfl⟩
  · exact hfits
  · exact .inr rfl
  · exact .inr rfl

/-- The names whose types became known, if any, are of one type. -/
lemma infer_raises (declared : String) {e : Tree} (h : ∀ y loc, .name y loc ∈ e.walk →
      table'.lookup y = table.lookup y ∨
        table.lookup y = none ∧ table'.lookup y = some declared) :
    ∃ before after, infer false table e = .ok before ∧ infer false table' e = .ok after ∧
      Raises declared before after := by
  induction e using Node.induction with
  | literal v loc => exact ⟨_, _, rfl, rfl, .inl rfl⟩
  | name y loc =>
    refine ⟨_, _, rfl, rfl, ?_⟩
    unfold nameType
    rcases h y loc (by simp [walk]) with hy | ⟨hnone, hy⟩
    · rw [hy]
      exact .inl rfl
    · rw [hnone, hy]
      dsimp only
      split
      · exact .inl rfl
      · exact .inr (.inl ⟨rfl, rfl⟩)
  | binary op l r loc ihl ihr =>
    obtain ⟨left, left', hleft, hleft', hl⟩ := ihl fun y loc hy => h y loc (by simp [walk, hy])
    obtain ⟨right, right', hright, hright', hr⟩ := ihr fun y loc hy => h y loc (by simp [walk, hy])
    refine ⟨operationType op left right, operationType op left' right', ?_, ?_, hl.operation op hr⟩
    · simp [infer, hleft, hright, bind, Except.bind, pure, Except.pure]
    · simp [infer, hleft', hright', bind, Except.bind, pure, Except.pure]
  | _ => exact ⟨_, _, rfl, rfl, .inl rfl⟩

/-! ### The last table -/

/-- The table knows the target of a store and all names of the stored value, and the type that it
gives the value is unknown or that of the target. -/
def Justifies (table : SymbolTable) (n : Tree) : Prop :=
  ∀ x v, n.target? = some x → n.stored? = some v →
    ∃ declared inferred, table.lookup x = some declared ∧ infer false table v = .ok inferred ∧
      (inferred = unknownType ∨ inferred = declared) ∧
      ∀ y loc, .name y loc ∈ v.walk → (table.lookup y).isSome

/-- Among declarations each name has one type. -/
def Alike (ss : List SymbolEntry) : Prop :=
  ∀ a ∈ ss, ∀ b ∈ ss, a.name = b.name → a.type = b.type

instance (ss : List SymbolEntry) : Decidable (Alike ss) :=
  inferInstanceAs (Decidable (∀ a ∈ ss, ∀ b ∈ ss, a.name = b.name → a.type = b.type))

/-- No declaration gives a name another type than the table. -/
def Agrees (table : SymbolTable) (ss : List SymbolEntry) : Prop :=
  ∀ s ∈ ss, ∀ declared, table.lookup s.name = some declared → declared = s.type

/-- **Step**: what follows from a declaration that passes. -/
lemma declare_step {type x : String} {value : Option Tree} {loc : Option Span}
    (hold : ∀ old, table.lookup x = some old → old = type)
    (h : check false table (.declare type x value loc) = .finished table') :
    Extends table table' ∧
      ∀ last, Extends table' last → Justifies last (.declare type x value loc) := by
  rw [check] at h
  obtain ⟨inferred, hinfer, hnames, hfits, rfl⟩ := declare_eq_finished.1 h
  have hdefine (y : String) := Declared.lookup_define table x type y
  constructor
  · intro y declared hy
    rw [hdefine]
    split
    · rename_i hyx
      rw [hold declared (hyx ▸ hy)]
    · exact hy
  · rintro last hlast _ v ⟨⟩ rfl
    have htarget : last.lookup x = some type := hlast x type (by rw [hdefine, if_pos rfl])
    rw [firstUndeclared?_eq_none] at hnames
    -- of the names of the value only the variable itself can have become known
    have hraised (y : String) (loc : Option Span) (hy : .name y loc ∈ v.walk) :
        last.lookup y = table.lookup y ∨
          table.lookup y = none ∧ last.lookup y = some type := by
      obtain ⟨declared, hdeclared⟩ := Option.isSome_iff_exists.1 (hnames y loc hy)
      rw [hlast y declared hdeclared]
      rw [hdefine] at hdeclared
      split at hdeclared
      · obtain rfl := Option.some.inj hdeclared
        rename_i hyx
        rw [hyx]
        cases hbefore : table.lookup x with
        | none => exact .inr ⟨rfl, rfl⟩
        | some old => exact .inl (by rw [hold old hbefore])
      · exact .inl hdeclared.symm
    obtain ⟨before, after, hbefore, hafter, hraises⟩ := infer_raises type hraised
    obtain rfl : before = inferred := Except.ok.inj (hbefore.symm.trans hinfer)
    refine ⟨type, after, htarget, hafter, hraises.fits hfits, fun y loc hy => ?_⟩
    obtain ⟨declared, hdeclared⟩ := Option.isSome_iff_exists.1 (hnames y loc hy)
    rw [hlast y declared hdeclared, Option.isSome_some]

/-- **Step**: an assignment leaves the table as it is. -/
lemma assign_step {x : String} {value : Tree} {loc : Option Span}
    (h : check false table (.assign x value loc) = .finished table') :
    table' = table ∧ ∀ last, Extends table last → Justifies last (.assign x value loc) := by
  rw [check] at h
  obtain ⟨declared, inferred, htarget, hnames, hinfer, hfits, rfl⟩ := assign_eq_finished.1 h
  refine ⟨rfl, ?_⟩
  rintro last hlast _ _ ⟨⟩ ⟨⟩
  rw [firstUndeclared?_eq_none] at hnames
  have hsame (y : String) (loc : Option Span) (hy : .name y loc ∈ value.walk) :
      last.lookup y = table'.lookup y := by
    obtain ⟨known, hknown⟩ := Option.isSome_iff_exists.1 (hnames y loc hy)
    rw [hlast y known hknown, hknown]
  obtain ⟨before, after, hbefore, hafter, hraises⟩ :=
    infer_raises declared fun y loc hy => .inl (hsame y loc hy)
  obtain rfl : before = inferred := Except.ok.inj (hbefore.symm.trans hinfer)
  refine ⟨declared, after, hlast x declared htarget, hafter, hraises.fits hfits, ?_⟩
  intro y loc hy
  rw [hsame y loc hy]
  exact hnames y loc hy

/-- **Run**: along stores that pass, the table only grows, and each later table justifies all of
them. -/
lemma each_check (ns : List Tree) (hstores : ∀ n ∈ ns, n.isStore)
    (halike : Alike (ns.filterMap symbolEntry?)) :
    ∀ table, Agrees table (ns.filterMap symbolEntry?) →
      each (check false) table ns = .finished table' →
      Extends table table' ∧ ∀ n ∈ ns, Justifies table' n := by
  induction ns with
  | nil =>
    intro table _ h
    obtain rfl := Progress.finished.inj h
    exact ⟨.refl table, by simp⟩
  | cons n ns ih =>
    intro table hagrees h
    obtain ⟨middle, hn, hns⟩ := Progress.andThen_eq_finished.1 h
    have hrest : ns.filterMap symbolEntry? ⊆ (n :: ns).filterMap symbolEntry? :=
      List.filterMap_subset _ (List.subset_cons_self n ns)
    have hlast := ih (fun m hm => hstores m (by simp [hm]))
      (fun a ha b hb => halike a (hrest ha) b (hrest hb)) middle
    cases n with
    | declare type x value loc =>
      have hself : ⟨type, x, listedLine (.declare type x value loc)⟩ ∈
          (Node.declare type x value loc :: ns).filterMap symbolEntry? := by
        simp [ symbolEntry?]
      obtain ⟨hextends, hjustified⟩ := declare_step (hagrees _ hself) hn
      rw [check] at hn
      obtain rfl := Declared.table_of_declare hn
      have hmiddle : Agrees (table.define x type) (ns.filterMap symbolEntry?) := by
        intro s hs declared hdeclared
        rw [Declared.lookup_define] at hdeclared
        split at hdeclared
        · rename_i hname
          rw [← Option.some.inj hdeclared]
          exact halike _ hself s (hrest hs) hname.symm
        · exact hagrees s (hrest hs) declared hdeclared
      obtain ⟨hextends', hjustifies⟩ := hlast hmiddle hns
      refine ⟨hextends.trans hextends', ?_⟩
      rw [List.forall_mem_cons]
      exact ⟨hjustified table' hextends', hjustifies⟩
    | assign x value loc =>
      obtain ⟨rfl, hjustified⟩ := assign_step hn
      obtain ⟨hextends, hjustifies⟩ := hlast (fun s hs => hagrees s (hrest hs)) hns
      refine ⟨hextends, ?_⟩
      rw [List.forall_mem_cons]
      exact ⟨hjustified table' hextends, hjustifies⟩
    | _ => exact absurd (hstores _ List.mem_cons_self) Bool.false_ne_true

/-- In an accepted program whose declarations of one name are all of one type, the table that the
type check ends with justifies every store. -/
theorem check_justifies {depth : ℕ} {source : String} {t : Tree}
    (hparse : Grammar.parse depth source = .ok t) (halike : Alike t.symbols)
    (hcheck : check false .empty t = .finished table) :
    ∀ n ∈ t.walk, Justifies table n := by
  have hstores : ∀ n ∈ t.stores, n.isStore := fun n hn => (List.mem_filter.1 hn).2
  have hsymbols : t.stores.filterMap symbolEntry? ⊆ t.symbols :=
    List.filterMap_subset _ (List.filter_subset_self t.walk)
  rw [check_eq_stores (Grammar.isProgram_of_parse hparse).wellSorted] at hcheck
  obtain ⟨-, hjustifies⟩ := each_check t.stores hstores
    (fun a ha b hb => halike a (hsymbols ha) b (hsymbols hb)) .empty (by rintro _ _ _ ⟨⟩) hcheck
  intro n hn x v hx hv
  have hstore : n ∈ t.stores := List.mem_filter.2 ⟨hn, by rw [isStore, hx, Option.isSome_some]⟩
  exact hjustifies n hstore x v hx hv

/-- A variable in its own first value: behind the declaration the value is of type `float`. -/
theorem check_justifies_float : ∃ t table n,
    Grammar.parse 5 "float x = x + 1; if (x > 1) { int y = 2; x = y * x; float x; }" = .ok t ∧
      Alike t.symbols ∧ check false .empty t = .finished table ∧ n ∈ t.walk ∧
      (n.target? = some "x" ∧ n.stored?.isSome) ∧ Justifies table n := by
  have h : (Grammar.parse 5 "float x = x + 1; if (x > 1) { int y = 2; x = y * x; float x; }").map
      (fun t => (decide (Alike t.symbols), (check false .empty t).fault?.isNone,
        t.walk.any fun n => n.target? = some "x" ∧ n.stored?.isSome)) = .ok (true, true, true) := by
    decide +kernel
  obtain ⟨t, hparse, ht⟩ := Grammar.exists_of_map_parse h
  simp only [Prod.mk.injEq, decide_eq_true_eq, List.any_eq_true] at ht
  obtain ⟨halike, hfinished, n, hn, hstore⟩ := ht
  cases hcheck : check false .empty t with
  | stopped fault table => simp [hcheck, Progress.fault?] at hfinished
  | finished table =>
    exact ⟨t, table, n, hparse, halike, hcheck, hn, hstore,
      check_justifies hparse halike hcheck n hn⟩

end Typing

end Primer
