import Mathlib.Data.Prod.Lex
import Mathlib.Tactic
import Primer.Check.Scope
import Primer.Proofs.Bindings

/-!
What a table of declared types shows after any history of what was done with it.

A history alone says which definitions still count: a definition is made at some depth, and the
scope it is made in is open as long as the depth does not fall below. The table holds, for each
depth up to its own, the bindings of the definitions that were made at this depth and whose scope is
still open. Both ways of reading the table follow from that.
-/

namespace Primer

namespace SymbolTable

inductive Action where
  | enter
  | exit
  | define (name type : String)
  | lookup (name : String)
deriving DecidableEq, Repr

inductive Reply where
  | done
  | underflow
  | found (type : Option String)
deriving DecidableEq, Repr

/-- A scope that cannot be closed leaves the table as it is. -/
def act (t : SymbolTable) : Action → SymbolTable × Reply
  | .enter => (t.enter, .done)
  | .exit =>
    match t.exit? with
    | some rest => (rest, .done)
    | none => (t, .underflow)
  | .define x type => (t.define x type, .done)
  | .lookup x => (t, .found (t.lookup x))

def run (t : SymbolTable) (h : List Action) : SymbolTable := h.foldl (fun t a => (t.act a).1) t

def replies (t : SymbolTable) : List Action → List Reply
  | [] => []
  | a :: h => (t.act a).2 :: replies (t.act a).1 h

def after (h : List Action) : SymbolTable := run empty h

def closings (h : List Action) : ℕ := (h.zip (replies empty h)).count (.exit, .done)

variable {t rest : SymbolTable} {h w : List Action} {a : Action} {i j r : ℕ} {x type : String}

lemma run_snoc (t : SymbolTable) (h : List Action) (a : Action) :
    run t (h ++ [a]) = ((run t h).act a).1 := by
  simp [run]

lemma after_snoc (h : List Action) (a : Action) : after (h ++ [a]) = ((after h).act a).1 :=
  run_snoc empty h a

lemma replies_snoc (t : SymbolTable) (h : List Action) (a : Action) :
    replies t (h ++ [a]) = replies t h ++ [((run t h).act a).2] := by
  induction h generalizing t with
  | nil => rfl
  | cons b h ih => simp only [List.cons_append, replies, ih, run, List.foldl_cons]

lemma length_replies (t : SymbolTable) (h : List Action) : (replies t h).length = h.length := by
  induction h generalizing t with
  | nil => rfl
  | cons b h ih => simp only [replies, List.length_cons, ih]

/-! ### Depth -/

@[simp] lemma depth_enter (t : SymbolTable) : t.enter.depth = t.depth + 1 := rfl

@[simp] lemma depth_define (t : SymbolTable) (x type : String) :
    (t.define x type).depth = t.depth := rfl

lemma one_le_depth (t : SymbolTable) : 1 ≤ t.depth := Nat.le_add_left 1 _

lemma exit?_eq_none_iff : t.exit? = none ↔ t.depth = 1 := by
  obtain ⟨inner, outer⟩ := t
  cases outer <;> simp [exit?, depth]

lemma depth_of_exit? (h : t.exit? = some rest) : t.depth = rest.depth + 1 := by
  obtain ⟨inner, outer⟩ := t
  cases outer with
  | nil => cases h
  | cons s r =>
    obtain rfl := Option.some.inj h
    rfl

lemma act_exit_of_some (h : t.exit? = some rest) : t.act .exit = (rest, .done) := by
  simp only [act, h]

lemma act_exit_of_none (h : t.exit? = none) : t.act .exit = (t, .underflow) := by
  simp only [act, h]

lemma closings_snoc (h : List Action) (a : Action) :
    closings (h ++ [a]) =
      closings h + if (a, ((after h).act a).2) = (.exit, .done) then 1 else 0 := by
  rw [closings, replies_snoc, List.zip_append (length_replies empty h).symm, List.count_append]
  simp [closings, List.count_singleton, after]

lemma depth_after (h : List Action) : (after h).depth + closings h = 1 + h.count .enter := by
  induction h using List.reverseRecOn with
  | nil => rfl
  | append_singleton h a ih =>
    rw [after_snoc, closings_snoc, List.count_append]
    cases a with
    | enter =>
      calc (after h).enter.depth + (closings h + 0)
          = (after h).depth + closings h + 1 := by rw [depth_enter]; omega
        _ = 1 + (h.count .enter + 1) := by rw [ih]; omega
    | exit =>
      cases hexit : (after h).exit? with
      | none => simp [act_exit_of_none hexit, ih]
      | some rest =>
        rw [act_exit_of_some hexit, if_pos rfl]
        calc rest.depth + (closings h + 1)
            = (after h).depth + closings h := by rw [depth_of_exit? hexit]; omega
          _ = 1 + (h.count .enter + 0) := ih
    | define x type => simp [act, ih]
    | lookup x => simp [act, ih]

/-! ### Definitions whose scope is open -/

/-- The depth at which the action number `i` is done. -/
def rank (h : List Action) (i : ℕ) : ℕ := (after (h.take i)).depth

/-- The scope in which the action number `i` is done is not closed later on. -/
def StaysOpen (h : List Action) (i : ℕ) : Prop := ∀ j ≤ h.length, i ≤ j → rank h i ≤ rank h j

instance (h : List Action) (i : ℕ) : Decidable (StaysOpen h i) :=
  inferInstanceAs (Decidable (∀ j ≤ h.length, i ≤ j → rank h i ≤ rank h j))

/-- The action number `i` defines a name in a scope that is still open in the end. -/
structure OpenDefinition (h : List Action) (i : ℕ) (x type : String) : Prop where
  defines : h[i]? = some (.define x type)
  staysOpen : StaysOpen h i

lemma rank_append (hi : i ≤ h.length) (w : List Action) : rank (h ++ w) i = rank h i := by
  rw [rank, List.take_append_of_le_length hi, rank]

lemma rank_length (h : List Action) : rank h h.length = (after h).depth := by
  rw [rank, List.take_length]

lemma staysOpen_snoc (hi : i ≤ h.length) (a : Action) :
    StaysOpen (h ++ [a]) i ↔ StaysOpen h i ∧ rank h i ≤ (after (h ++ [a])).depth := by
  have hend : rank (h ++ [a]) (h.length + 1) = (after (h ++ [a])).depth := by
    rw [← rank_length, List.length_append, List.length_singleton]
  constructor
  · intro hopen
    refine ⟨fun j hj hij => ?_, ?_⟩
    · have hle := hopen j (by rw [List.length_append]; omega) hij
      rwa [rank_append hi, rank_append hj] at hle
    · have hle := hopen (h.length + 1) (by simp) (by omega)
      rwa [rank_append hi, hend] at hle
  · rintro ⟨hopen, hlast⟩ j hj hij
    rw [rank_append hi]
    rcases Nat.lt_or_ge h.length j with hlt | hge
    · have heq : j = h.length + 1 := by
        simp only [List.length_append, List.length_singleton] at hj
        omega
      rw [heq, hend]
      exact hlast
    · rw [rank_append hge]
      exact hopen j hge hij

lemma staysOpen_length (h : List Action) : StaysOpen h h.length := by
  intro j hj hij
  rw [Nat.le_antisymm hj hij]

def Action.definition? : Action → Option (String × String)
  | .define x type => some (x, type)
  | _ => none

lemma Action.definition?_eq_some : a.definition? = some (x, type) ↔ a = .define x type := by
  cases a <;> simp [definition?]

/-- Where an action stands: first by depth, then by time. -/
def stand (h : List Action) (i : ℕ) : ℕ ×ₗ ℕ := toLex (rank h i, i)

/-- The definition that the action number `i` makes, if it is made at depth `r` and its scope is
open. -/
def openAt? (h : List Action) (r i : ℕ) : Option ((ℕ ×ₗ ℕ) × String × String) :=
  if StaysOpen h i ∧ rank h i = r then
    (h[i]?.bind Action.definition?).map fun d => (stand h i, d)
  else none

def opens (h : List Action) (r : ℕ) : List ((ℕ ×ₗ ℕ) × String × String) :=
  (List.range h.length).filterMap (openAt? h r)

def allOpen (h : List Action) : List ((ℕ ×ₗ ℕ) × String × String) :=
  (List.range' 1 (after h).depth).flatMap (opens h)

lemma openAt?_eq_some {k : ℕ ×ₗ ℕ} : openAt? h r i = some (k, x, type) ↔
    OpenDefinition h i x type ∧ rank h i = r ∧ stand h i = k := by
  have hbind : h[i]?.bind Action.definition? = some (x, type) ↔ h[i]? = some (.define x type) := by
    simp [Option.bind_eq_some_iff, Action.definition?_eq_some]
  unfold openAt?
  split
  · rename_i hopen
    rw [Option.map_eq_some_iff]
    constructor
    · rintro ⟨d, hd, heq⟩
      obtain ⟨rfl, rfl⟩ := Prod.mk.inj heq
      exact ⟨⟨hbind.1 hd, hopen.1⟩, hopen.2, rfl⟩
    · rintro ⟨hdefinition, -, rfl⟩
      exact ⟨(x, type), hbind.2 hdefinition.defines, rfl⟩
  · rename_i hclosed
    simp only [reduceCtorEq, false_iff]
    rintro ⟨hdefinition, hrank, -⟩
    exact hclosed ⟨hdefinition.staysOpen, hrank⟩

lemma mem_opens {k : ℕ ×ₗ ℕ} : (k, x, type) ∈ opens h r ↔
    ∃ i, OpenDefinition h i x type ∧ rank h i = r ∧ stand h i = k := by
  simp only [opens, List.mem_filterMap, List.mem_range, openAt?_eq_some]
  constructor
  · rintro ⟨i, -, hi⟩
    exact ⟨i, hi⟩
  · rintro ⟨i, hi⟩
    have hlt : i < h.length := (List.getElem?_eq_some_iff.1 hi.1.defines).1
    exact ⟨i, hlt, hi⟩

lemma OpenDefinition.rank_le (hdefinition : OpenDefinition h i x type) :
    rank h i ≤ (after h).depth := by
  have hlt : i < h.length := (List.getElem?_eq_some_iff.1 hdefinition.defines).1
  rw [← rank_length]
  exact hdefinition.staysOpen _ le_rfl hlt.le

lemma opens_eq_nil (hr : (after h).depth < r) : opens h r = [] := by
  rw [List.eq_nil_iff_forall_not_mem]
  rintro ⟨k, x, type⟩ hmem
  obtain ⟨i, hdefinition, rfl, -⟩ := mem_opens.1 hmem
  have hle := hdefinition.rank_le
  omega

/-! ### One action more -/

lemma openAt?_snoc (hi : i < h.length) (hr : r ≤ (after (h ++ [a])).depth) :
    openAt? (h ++ [a]) r i = openAt? h r i := by
  have hopen : (StaysOpen (h ++ [a]) i ∧ rank (h ++ [a]) i = r) ↔
      StaysOpen h i ∧ rank h i = r := by
    rw [staysOpen_snoc hi.le, rank_append hi.le]
    constructor
    · rintro ⟨⟨hopen, -⟩, hrank⟩
      exact ⟨hopen, hrank⟩
    · rintro ⟨hopen, rfl⟩
      exact ⟨⟨hopen, hr⟩, rfl⟩
  have hstand : stand (h ++ [a]) i = stand h i := by rw [stand, rank_append hi.le, stand]
  unfold openAt?
  rw [hstand, List.getElem?_append_left hi]
  exact if_congr hopen rfl rfl

/-- At the depths that remain, the open definitions stay, and the last action may add one. -/
lemma opens_snoc (hr : r ≤ (after (h ++ [a])).depth) :
    opens (h ++ [a]) r = opens h r ++ (openAt? (h ++ [a]) r h.length).toList := by
  have hsame : (List.range h.length).filterMap (openAt? (h ++ [a]) r) = opens h r :=
    List.filterMap_congr fun i hi => openAt?_snoc (List.mem_range.1 hi) hr
  rw [opens, List.length_append, List.length_singleton, List.range_succ, List.filterMap_append,
    hsame]
  cases hlast : openAt? (h ++ [a]) r h.length <;> simp [hlast]

lemma opens_snoc_other (ha : a.definition? = none) (hr : r ≤ (after (h ++ [a])).depth) :
    opens (h ++ [a]) r = opens h r := by
  have hlast : openAt? (h ++ [a]) r h.length = none := by simp [openAt?, ha]
  rw [opens_snoc hr, hlast, Option.toList_none, List.append_nil]

lemma opens_snoc_define (hr : r ≤ (after h).depth) (x type : String) :
    opens (h ++ [Action.define x type]) r = opens h r ++
      if r = (after h).depth then [(toLex (r, h.length), x, type)] else [] := by
  have hafter : (after (h ++ [Action.define x type])).depth = (after h).depth := by
    rw [after_snoc]
    rfl
  have hopen : StaysOpen (h ++ [Action.define x type]) h.length := by
    rw [staysOpen_snoc le_rfl, rank_length, hafter]
    exact ⟨staysOpen_length h, le_rfl⟩
  have hrank : rank (h ++ [Action.define x type]) h.length = (after h).depth := by
    rw [rank_append le_rfl, rank_length]
  rw [opens_snoc (by rwa [hafter])]
  by_cases hdepth : r = (after h).depth
  · have hnew : OpenDefinition (h ++ [Action.define x type]) h.length x type := ⟨by simp, hopen⟩
    rw [if_pos hdepth, openAt?_eq_some.2 ⟨hnew, hrank.trans hdepth.symm, rfl⟩, stand, hrank,
      ← hdepth, Option.toList_some]
  · rw [if_neg hdepth, openAt?, if_neg (by rw [hrank]; omega), Option.toList_none]

/-! ### The scopes of the table -/

def scopes (t : SymbolTable) : List (Table String) := t.outer.reverse ++ [t.inner]

lemma scopes_enter (t : SymbolTable) : t.enter.scopes = t.scopes ++ [[]] := by
  simp [scopes, enter]

lemma scopes_of_exit? (h : t.exit? = some rest) : t.scopes = rest.scopes ++ [t.inner] := by
  obtain ⟨inner, outer⟩ := t
  cases outer with
  | nil => cases h
  | cons s r =>
    obtain rfl := Option.some.inj h
    simp [scopes]

lemma items_eq_foldl (t : SymbolTable) : t.items = t.scopes.foldl Table.update [] := by
  rw [items, List.reverse_cons, scopes]

lemma lookup_eq_findSome? (t : SymbolTable) (x : String) :
    t.lookup x = t.scopes.reverse.findSome? fun s => s.get? x := by
  rw [scopes, List.reverse_append, List.reverse_reverse]
  rfl

def boundAt (h : List Action) (r : ℕ) : Table String := .update [] ((opens h r).map Prod.snd)

lemma map_boundAt_snoc {n : ℕ} (ha : a.definition? = none) (hn : n ≤ (after (h ++ [a])).depth) :
    (List.range' 1 n).map (boundAt (h ++ [a])) = (List.range' 1 n).map (boundAt h) := by
  refine List.map_congr_left fun r hr => ?_
  obtain ⟨-, hlt⟩ := List.mem_range'_1.1 hr
  rw [boundAt, opens_snoc_other ha (by omega), boundAt]

lemma boundAt_snoc_define (hr : r ≤ (after h).depth) (x type : String) :
    boundAt (h ++ [Action.define x type]) r =
      if r = (after h).depth then (boundAt h r).set x type else boundAt h r := by
  rw [boundAt, opens_snoc_define hr]
  split
  · rw [List.map_append, List.map_singleton, Table.update_snoc, boundAt]
  · rw [List.append_nil, boundAt]

/-- The scopes of the table hold what the open definitions bind, depth by depth. -/
lemma scopes_after (h : List Action) :
    (after h).scopes = (List.range' 1 (after h).depth).map (boundAt h) := by
  induction h using List.reverseRecOn with
  | nil => rfl
  | append_singleton h a ih =>
    cases a with
    | enter =>
      have hafter : after (h ++ [Action.enter]) = (after h).enter := after_snoc h .enter
      have hnew : boundAt (h ++ [Action.enter]) (1 + (after h).depth) = [] := by
        have hdepth : (after (h ++ [Action.enter])).depth = (after h).depth + 1 := by
          rw [hafter, depth_enter]
        rw [boundAt, opens_snoc_other rfl (by omega), opens_eq_nil (by omega)]
        rfl
      rw [hafter, scopes_enter, ih, depth_enter, List.range'_1_concat, List.map_append,
        List.map_singleton, hnew, map_boundAt_snoc rfl (by rw [hafter, depth_enter]; omega)]
    | exit =>
      cases hexit : (after h).exit? with
      | none =>
        have hafter : after (h ++ [Action.exit]) = after h := by
          rw [after_snoc, act_exit_of_none hexit]
        rw [map_boundAt_snoc rfl le_rfl, hafter, ih]
      | some rest =>
        have hafter : after (h ++ [Action.exit]) = rest := by
          rw [after_snoc, act_exit_of_some hexit]
        rw [map_boundAt_snoc rfl le_rfl, hafter]
        -- The innermost scope goes, with the depth that it stood for.
        rw [scopes_of_exit? hexit, depth_of_exit? hexit, List.range'_1_concat,
          List.map_append] at ih
        exact List.append_inj_left' ih rfl
    | define x type =>
      have hafter : after (h ++ [Action.define x type]) = (after h).define x type :=
        after_snoc h (.define x type)
      have hdepth : (after h).depth = (after h).outer.length + 1 := rfl
      rw [hdepth, List.range'_1_concat, List.map_append, scopes] at ih
      obtain ⟨houter, hinner⟩ := List.append_inj' ih rfl
      have hbelow : (List.range' 1 (after h).outer.length).map
          (boundAt (h ++ [Action.define x type])) =
          (List.range' 1 (after h).outer.length).map (boundAt h) := by
        refine List.map_congr_left fun r hr => ?_
        obtain ⟨-, hlt⟩ := List.mem_range'_1.1 hr
        rw [boundAt_snoc_define (by omega), if_neg (by omega)]
      have htop : boundAt (h ++ [Action.define x type]) (1 + (after h).outer.length) =
          (after h).inner.set x type := by
        rw [boundAt_snoc_define (by omega), if_pos (by omega), (List.cons.inj hinner).1]
      rw [hafter, depth_define, hdepth, List.range'_1_concat, List.map_append, List.map_singleton,
        hbelow, htop, ← houter]
      rfl
    | lookup x =>
      have hafter : after (h ++ [Action.lookup x]) = after h := after_snoc h (.lookup x)
      rw [map_boundAt_snoc rfl le_rfl, hafter, ih]

/-! ### The two readers -/

/-- Looking a name up from the inside finds what merging from the outside leaves. -/
lemma get?_items (hdistinct : ∀ s ∈ t.scopes, s.Distinct) (x : String) :
    t.items.get? x = t.lookup x := by
  rw [items_eq_foldl, Table.get?_foldl_update hdistinct, lookup_eq_findSome?]
  exact Option.or_none

lemma distinct_scopes_after (h : List Action) : ∀ s ∈ (after h).scopes, s.Distinct := by
  intro s hs
  rw [scopes_after, List.mem_map] at hs
  obtain ⟨r, -, rfl⟩ := hs
  exact Table.distinct_update_nil _

lemma items_after (h : List Action) :
    (after h).items = .update [] ((allOpen h).map Prod.snd) := by
  have hmap : (List.range' 1 (after h).depth).map (boundAt h) =
      ((List.range' 1 (after h).depth).map fun r => (opens h r).map Prod.snd).map (.update []) := by
    rw [List.map_map]
    rfl
  rw [items_eq_foldl, scopes_after, hmap, Table.foldl_update_nil, allOpen, List.map_flatMap,
    List.flatMap_def]

lemma mem_allOpen {k : ℕ ×ₗ ℕ} :
    (k, x, type) ∈ allOpen h ↔ ∃ i, OpenDefinition h i x type ∧ stand h i = k := by
  simp only [allOpen, List.mem_flatMap, List.mem_range'_1, mem_opens]
  constructor
  · rintro ⟨r, -, i, hdefinition, -, hstand⟩
    exact ⟨i, hdefinition, hstand⟩
  · rintro ⟨i, hdefinition, hstand⟩
    have hle := hdefinition.rank_le
    have hpos : 1 ≤ rank h i := one_le_depth _
    exact ⟨rank h i, ⟨hpos, by omega⟩, i, hdefinition, rfl, hstand⟩

lemma pairwise_opens (h : List Action) (r : ℕ) : (opens h r).Pairwise fun a b => a.1 < b.1 := by
  refine List.Pairwise.filterMap (openAt? h r) ?_ List.pairwise_lt_range
  rintro i j hij ⟨k, x, type⟩ hi ⟨k', x', type'⟩ hj
  obtain ⟨-, hranki, rfl⟩ := openAt?_eq_some.1 hi
  obtain ⟨-, hrankj, rfl⟩ := openAt?_eq_some.1 hj
  exact Prod.Lex.toLex_lt_toLex.2 (.inr ⟨hranki.trans hrankj.symm, hij⟩)

lemma pairwise_allOpen (h : List Action) : (allOpen h).Pairwise fun a b => a.1 < b.1 := by
  refine List.pairwise_flatMap.2 ⟨fun r _ => pairwise_opens h r, ?_⟩
  refine List.Pairwise.imp ?_ List.pairwise_lt_range'
  rintro r r' hlt ⟨k, x, type⟩ hmem ⟨k', x', type'⟩ hmem'
  obtain ⟨i, -, rfl, rfl⟩ := mem_opens.1 hmem
  obtain ⟨j, -, rfl, rfl⟩ := mem_opens.1 hmem'
  exact Prod.Lex.toLex_lt_toLex.2 (.inl hlt)

/-! ### What counts and what comes first -/

/-- The action number `i` makes the latest definition of a name in the innermost open scope that
defines it. -/
structure Counts (h : List Action) (x type : String) (i : ℕ) : Prop where
  definition : OpenDefinition h i x type
  last : ∀ j type', OpenDefinition h j x type' → stand h j ≤ stand h i

/-- The action number `i` makes the first definition of a name in the outermost open scope that
defines it. -/
structure Begins (h : List Action) (x : String) (i : ℕ) : Prop where
  definition : ∃ type, OpenDefinition h i x type
  first : ∀ j type, OpenDefinition h j x type → stand h i ≤ stand h j

lemma counts_of_lastAt {k : ℕ ×ₗ ℕ} (hlast : Table.LastAt (allOpen h) x type k) :
    ∃ i, Counts h x type i := by
  obtain ⟨hmem, hlast⟩ := hlast
  obtain ⟨i, hdefinition, rfl⟩ := mem_allOpen.1 hmem
  exact ⟨i, hdefinition, fun j type' hj => hlast _ type' (mem_allOpen.2 ⟨j, hj, rfl⟩)⟩

lemma Counts.lastAt (hcounts : Counts h x type i) :
    Table.LastAt (allOpen h) x type (stand h i) := by
  refine ⟨mem_allOpen.2 ⟨i, hcounts.definition, rfl⟩, fun k type' hmem => ?_⟩
  obtain ⟨j, hj, rfl⟩ := mem_allOpen.1 hmem
  exact hcounts.last j type' hj

lemma begins_of_firstAt {k : ℕ ×ₗ ℕ} (hfirst : Table.FirstAt (allOpen h) x k) :
    ∃ i, Begins h x i ∧ stand h i = k := by
  obtain ⟨⟨type, hmem⟩, hfirst⟩ := hfirst
  obtain ⟨i, hdefinition, rfl⟩ := mem_allOpen.1 hmem
  refine ⟨i, ⟨⟨type, hdefinition⟩, fun j type' hj => ?_⟩, rfl⟩
  exact hfirst _ type' (mem_allOpen.2 ⟨j, hj, rfl⟩)

lemma lookup_after (h : List Action) (x type : String) :
    (after h).lookup x = some type ↔ ∃ i, Counts h x type i := by
  rw [← get?_items (distinct_scopes_after h), items_after,
    Table.get?_update_stamped (pairwise_allOpen h)]
  constructor
  · rintro ⟨k, hlast⟩
    exact counts_of_lastAt hlast
  · rintro ⟨i, hcounts⟩
    exact ⟨stand h i, hcounts.lastAt⟩

lemma mem_keys_items_after (h : List Action) (x : String) :
    x ∈ (after h).items.map Prod.fst ↔ ∃ i type, OpenDefinition h i x type := by
  rw [items_after, Table.keys_update_nil, List.mem_eraseDups, List.map_map, List.mem_map]
  constructor
  · rintro ⟨⟨k, y, type⟩, hmem, rfl⟩
    obtain ⟨i, hdefinition, -⟩ := mem_allOpen.1 hmem
    exact ⟨i, type, hdefinition⟩
  · rintro ⟨i, type, hdefinition⟩
    exact ⟨(stand h i, x, type), mem_allOpen.2 ⟨i, hdefinition, rfl⟩, rfl⟩

lemma pairwise_keys_items_after (h : List Action) :
    ((after h).items.map Prod.fst).Pairwise fun x y =>
      ∃ i j, Begins h x i ∧ Begins h y j ∧ stand h i < stand h j := by
  rw [items_after]
  refine (Table.pairwise_keys_stamped (pairwise_allOpen h)).2.imp ?_
  rintro x y ⟨k, k', hk, hk', hlt⟩
  obtain ⟨i, hi, rfl⟩ := begins_of_firstAt hk
  obtain ⟨j, hj, rfl⟩ := begins_of_firstAt hk'
  exact ⟨i, j, hi, hj, hlt⟩

/-! ### Scopes that are closed again -/

/-- **Step**: as long as the depth is greater than before, what was there before stays below. -/
lemma suffix_act {base : List (Table String)} (hbase : base <:+ t.outer)
    (hdepth : base.length < (t.act a).1.depth) : base <:+ (t.act a).1.outer := by
  cases a with
  | enter => exact hbase.trans (List.suffix_cons t.inner t.outer)
  | exit =>
    cases hexit : t.exit? with
    | none => rwa [act_exit_of_none hexit]
    | some rest =>
      rw [act_exit_of_some hexit] at hdepth ⊢
      obtain ⟨inner, outer⟩ := t
      cases outer with
      | nil => cases hexit
      | cons s r =>
        obtain rfl := Option.some.inj hexit
        rcases List.suffix_cons_iff.1 hbase with rfl | hbelow
        · simp [depth] at hdepth
        · exact hbelow
  | define | lookup => exact hbase

/-- **Run**: along actions that never fall back to the depth before. -/
lemma suffix_run {base : List (Table String)} (hbase : base <:+ t.outer)
    (hdepth : ∀ k ≤ w.length, base.length < (run t (w.take k)).depth) :
    base <:+ (run t w).outer := by
  induction w using List.reverseRecOn with
  | nil => exact hbase
  | append_singleton w a ih =>
    have hbefore : base <:+ (run t w).outer := by
      refine ih fun k hk => ?_
      have hlt := hdepth k (by simp; omega)
      rwa [List.take_append_of_le_length hk] at hlt
    have hend := hdepth (w.length + 1) (by simp)
    rw [List.take_of_length_le (by simp), run_snoc] at hend
    rw [run_snoc]
    exact suffix_act hbefore hend

/-- Actions that come back to the depth at which they start, and never fall below it. -/
def Balanced (t : SymbolTable) (w : List Action) : Prop :=
  (run t w).depth = t.depth ∧ ∀ k ≤ w.length, t.depth ≤ (run t (w.take k)).depth

instance (t : SymbolTable) (w : List Action) : Decidable (Balanced t w) :=
  inferInstanceAs (Decidable ((run t w).depth = t.depth ∧
    ∀ k ≤ w.length, t.depth ≤ (run t (w.take k)).depth))

lemma run_scope (hbalanced : Balanced t.enter w) : run t (.enter :: w ++ [.exit]) = t := by
  obtain ⟨hend, hdepth⟩ := hbalanced
  have hbelow : t.inner :: t.outer <:+ (run t.enter w).outer := suffix_run List.suffix_rfl hdepth
  have hlength : (t.inner :: t.outer).length = (run t.enter w).outer.length :=
    (Nat.succ.inj hend).symm
  have hexit : (run t.enter w).exit? = some t := by
    rw [exit?, ← hbelow.eq_of_length hlength]
  calc run t (.enter :: w ++ [.exit])
      = ((run t (.enter :: w)).act .exit).1 := run_snoc t (.enter :: w) .exit
    _ = ((run t.enter w).act .exit).1 := rfl
    _ = t := by rw [act_exit_of_some hexit]

/-! ### Histories -/

/-- What a table shows is what its history says. -/
structure Follows (h : List Action) (t : SymbolTable) : Prop where
  depth : t.depth + closings h = 1 + h.count .enter
  one_le_depth : 1 ≤ t.depth
  underflow_iff : (t.act .exit).2 = .underflow ↔ t.depth = 1
  unchanged : (t.act .exit).2 = .underflow → (t.act .exit).1 = t
  /-- The latest definition in the innermost open scope that has one counts. -/
  lookup_eq_some : ∀ x type, t.lookup x = some type ↔ ∃ i, Counts h x type i
  lookup_eq_none : ∀ x, t.lookup x = none ↔ ∀ i type, ¬ OpenDefinition h i x type
  get?_items : ∀ x, (Table.update [] t.items).get? x = t.lookup x
  /-- Each visible name is listed once. -/
  nodup_items : (t.items.map Prod.fst).Nodup
  mem_items : ∀ x, x ∈ t.items.map Prod.fst ↔ ∃ i type, OpenDefinition h i x type
  /-- Names stand by the outermost open scope that defines them, then by first definition there. -/
  ordered_items : (t.items.map Prod.fst).Pairwise fun x y =>
    ∃ i j, Begins h x i ∧ Begins h y j ∧ stand h i < stand h j
  restored : ∀ w, Balanced t.enter w → run t (.enter :: w ++ [.exit]) = t

/-- **Scopes**: after any history the table has the depth that its openings and closings leave, only
the outermost scope cannot be closed, both readers show the definitions whose scope is open, and a
scope that is opened and closed again leaves no trace. -/
theorem after_follows (h : List Action) : Follows h (after h) := by
  have hkeys : (after h).items.Distinct := by
    rw [items_after]
    exact Table.distinct_update_nil _
  have hget (x : String) : (after h).items.get? x = (after h).lookup x :=
    get?_items (distinct_scopes_after h) x
  exact {
    depth := depth_after h
    one_le_depth := one_le_depth _
    underflow_iff := by
      rw [← exit?_eq_none_iff]
      cases hexit : (after h).exit? with
      | none => simp [act_exit_of_none hexit]
      | some rest => simp [act_exit_of_some hexit]
    unchanged := by
      cases hexit : (after h).exit? with
      | none => simp [act_exit_of_none hexit]
      | some rest => simp [act_exit_of_some hexit]
    lookup_eq_some := lookup_after h
    lookup_eq_none := by
      intro x
      rw [← not_iff_not, ← ne_eq, ← Option.isSome_iff_ne_none, ← hget, ← Table.mem_keys_iff,
        mem_keys_items_after]
      push Not
      rfl
    get?_items := by
      intro x
      rw [Table.get?_update hkeys, hget]
      exact Option.or_none
    nodup_items := hkeys
    mem_items := mem_keys_items_after h
    ordered_items := pairwise_keys_items_after h
    restored := fun w => run_scope }

/-- A name of the inner scope is listed behind those of the outer one, though it was defined before
the inner definition of a name that both have. -/
example : (after [.define "x" "int", .enter, .define "y" "bool", .define "x" "float"]).items =
    [("x", "float"), ("y", "bool")] := by decide

example : Balanced (after [.define "x" "int"]).enter
    [.define "x" "bool", .enter, .define "y" "int", .exit, .lookup "y"] := by decide

end SymbolTable

end Primer
