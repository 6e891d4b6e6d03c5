import Mathlib.Tactic
import Primer.Proofs.Offenders

/-!
What strict mode adds to the type check.

Strict mode refuses an operation whose operands are of different types. Which operations these are
can be told from the types that the operands have without strict mode. The strict check of a program
goes along with the other one until it meets such an operation, and stops there. So it ends in the
same way or sooner, and it accepts no program that the other one refuses.
-/

namespace Primer

namespace Progress

variable {α σ ε : Type} {P : ε → Prop} {p q : Progress σ ε}

/-- The first run ends as the second one does, or it stops at any point for a reason `P`. -/
inductive Sooner (P : ε → Prop) : Progress σ ε → Progress σ ε → Prop
  | same (p : Progress σ ε) : Sooner P p p
  | stopped {e : ε} (he : P e) (s : σ) (q : Progress σ ε) : Sooner P (.stopped e s) q

lemma Sooner.andThen {next next' : σ → Progress σ ε} (h : Sooner P p q)
    (hnext : ∀ s, Sooner P (next s) (next' s)) :
    Sooner P (p.andThen next) (q.andThen next') := by
  cases h with
  | same =>
    cases p with
    | finished s => exact hnext s
    | stopped e s => exact .same _
  | stopped he s => exact .stopped he s _

lemma sooner_each {step step' : σ → α → Progress σ ε} {as : List α}
    (h : ∀ a ∈ as, ∀ s, Sooner P (step s a) (step' s a)) :
    ∀ s, Sooner P (each step s as) (each step' s as) := by
  induction as with
  | nil => exact fun s => .same _
  | cons a as ih =>
    intro s
    exact (h a (by simp) s).andThen (ih fun b hb => h b (by simp [hb]))

lemma Sooner.eq_finished {s : σ} (h : Sooner P (.finished s) q) : q = .finished s := by
  cases h
  rfl

lemma Sooner.exists_stopped {e : ε} {s : σ} (h : Sooner P p (.stopped e s)) :
    ∃ e' s', p = .stopped e' s' := by
  cases h with
  | same => exact ⟨e, s, rfl⟩
  | stopped he s' => exact ⟨_, s', rfl⟩

end Progress

open Progress Node

namespace Typing

variable {table : SymbolTable} {e n t : Tree} {left right : String} {fault : TypeFault}

/-! ### Operands that clash -/

/-- The operands of an operation have types that strict mode refuses: both are known, neither is
`float`, and they differ. -/
inductive Clashes (table : SymbolTable) (left right : String) : Tree → Prop
  | operands {op l r loc} (hl : infer false table l = .ok left)
      (hr : infer false table r = .ok right)
      (known : left ≠ unknownType ∧ right ≠ unknownType)
      (whole : left ≠ "float" ∧ right ≠ "float") (differ : left ≠ right) :
      Clashes table left right (.binary op l r loc)

/-- The operations of an expression in the order in which they are typed: each behind those of its
left operand and those of its right operand. -/
def typingOrder : Tree → List Tree
  | .binary op l r loc => typingOrder l ++ typingOrder r ++ [.binary op l r loc]
  | _ => []

/-- The first operation in the order of typing whose operands clash. -/
structure FirstClash (table : SymbolTable) (left right : String) (e n : Tree) : Prop where
  clashes : Clashes table left right n
  first : ∃ before behind, typingOrder e = before ++ n :: behind ∧
    ∀ m ∈ before, ∀ left right, ¬ Clashes table left right m

lemma typingOrder_subset_walk (e : Tree) : typingOrder e ⊆ e.walk := by
  induction e using Node.induction with
  | binary op l r loc hl hr =>
    intro n hn
    rw [typingOrder, List.mem_append, List.mem_append, List.mem_singleton] at hn
    rw [walk, List.mem_cons, List.mem_append]
    rcases hn with (hn | hn) | rfl
    · exact .inr (.inl (hl hn))
    · exact .inr (.inr (hr hn))
    · exact .inl rfl
  | _ => exact List.nil_subset _

lemma clash_iff : clash left right ↔ (left ≠ unknownType ∧ right ≠ unknownType) ∧
    (left ≠ "float" ∧ right ≠ "float") ∧ left ≠ right := by
  simp only [clash, Bool.and_eq_true, bne_iff_ne]
  tauto

/-- Without strict mode every expression has a type. -/
lemma exists_infer (table : SymbolTable) (e : Tree) : ∃ type, infer false table e = .ok type := by
  induction e using Node.induction with
  | binary op l r loc hl hr =>
    obtain ⟨left, hleft⟩ := hl
    obtain ⟨right, hright⟩ := hr
    refine ⟨operationType op left right, ?_⟩
    simp [infer, hleft, hright, bind, Except.bind, pure, Except.pure]
  | _ => exact ⟨_, rfl⟩

/-- The fault of an operation whose operands clash. -/
def operandFault? (table : SymbolTable) : Tree → Option TypeFault
  | .binary _ l r loc =>
    match infer false table l, infer false table r with
    | .ok left, .ok right => if clash left right then some (.mismatch left right "" loc) else none
    | _, _ => none
  | _ => none

lemma operandFault?_eq_some : operandFault? table n = some fault ↔
    ∃ left right, Clashes table left right n ∧ fault = .mismatch left right "" n.location := by
  constructor
  · intro h
    cases n with
    | binary op l r loc =>
      obtain ⟨left, hl⟩ := exists_infer table l
      obtain ⟨right, hr⟩ := exists_infer table r
      simp only [operandFault?, hl, hr, Option.ite_none_right_eq_some, clash_iff] at h
      obtain ⟨⟨known, whole, differ⟩, hfault⟩ := h
      exact ⟨left, right, .operands hl hr known whole differ, (Option.some.inj hfault).symm⟩
    | _ => cases h
  · rintro ⟨left, right, ⟨hl, hr, known, whole, differ⟩, rfl⟩
    have hclash : clash left right := clash_iff.2 ⟨known, whole, differ⟩
    simp [operandFault?, hl, hr, hclash, location]

lemma operandFault?_eq_none :
    operandFault? table n = none ↔ ∀ left right, ¬ Clashes table left right n := by
  simp only [Option.eq_none_iff_forall_ne_some, ne_eq, operandFault?_eq_some]
  constructor
  · intro h left right hclash
    exact h _ ⟨left, right, hclash, rfl⟩
  · rintro h fault ⟨left, right, hclash, -⟩
    exact h left right hclash

/-! ### Expressions -/

/-- **Strict typing**: an expression is refused for the first operation whose operands clash, and if
there is none it has the type that it has without strict mode. -/
lemma infer_strict (table : SymbolTable) (e : Tree) :
    infer true table e =
      match (typingOrder e).findSome? (operandFault? table) with
      | some fault => .error fault
      | none => infer false table e := by
  induction e using Node.induction with
  | binary op l r loc hl hr =>
    rw [typingOrder, List.findSome?_append, List.findSome?_append, infer, hl, hr]
    cases (typingOrder l).findSome? (operandFault? table) with
    | some fault => rfl
    | none =>
      obtain ⟨left, hleft⟩ := exists_infer table l
      cases (typingOrder r).findSome? (operandFault? table) with
      | some fault => simp [hleft, bind, Except.bind]
      | none =>
        obtain ⟨right, hright⟩ := exists_infer table r
        cases hclash : clash left right <;>
          simp [operandFault?, infer, hleft, hright, hclash, bind, Except.bind]
  | _ => rfl

/-- The operation that strict mode refuses an expression for. -/
lemma infer_of_firstClash (h : FirstClash table left right e n) :
    infer true table e = .error (.mismatch left right "" n.location) := by
  obtain ⟨hclash, before, behind, horder, hbefore⟩ := h
  have hfirst : (typingOrder e).findSome? (operandFault? table) =
      some (.mismatch left right "" n.location) :=
    List.findSome?_eq_some_iff.2 ⟨before, n, behind, horder,
      operandFault?_eq_some.2 ⟨left, right, hclash, rfl⟩,
      fun m hm => operandFault?_eq_none.2 (hbefore m hm)⟩
  rw [infer_strict, hfirst]

/-- An expression without a clash is typed as without strict mode. -/
lemma infer_of_agree (h : ∀ n ∈ typingOrder e, ∀ left right, ¬ Clashes table left right n) :
    infer true table e = infer false table e := by
  have hnone : (typingOrder e).findSome? (operandFault? table) = none :=
    List.findSome?_eq_none_iff.2 fun n hn => operandFault?_eq_none.2 (h n hn)
  rw [infer_strict, hnone]

lemma agree_or_firstClash (table : SymbolTable) (e : Tree) :
    (∀ n ∈ typingOrder e, ∀ left right, ¬ Clashes table left right n) ∨
      ∃ left right n, FirstClash table left right e n := by
  cases hfirst : (typingOrder e).findSome? (operandFault? table) with
  | none =>
    exact .inl fun n hn => operandFault?_eq_none.1 (List.findSome?_eq_none_iff.1 hfirst n hn)
  | some fault =>
    obtain ⟨before, n, behind, horder, hn, hbefore⟩ := List.findSome?_eq_some_iff.1 hfirst
    obtain ⟨left, right, hclash, -⟩ := operandFault?_eq_some.1 hn
    exact .inr ⟨left, right, n, hclash, before, behind, horder,
      fun m hm => operandFault?_eq_none.1 (hbefore m hm)⟩

lemma FirstClash.mem (h : FirstClash table left right e n) : n ∈ typingOrder e := by
  obtain ⟨-, before, behind, horder, -⟩ := h
  simp [horder]

/-! ### Programs -/

/-- A fault for an operation of the program whose operands clash under some table. -/
def OperandsRefused (t : Tree) (fault : TypeFault) : Prop :=
  ∃ n ∈ t.walk, ∃ table left right, Clashes table left right n ∧
    fault = .mismatch left right "" n.location

/-- A value is typed as without strict mode, or it is refused for one of its operations. -/
lemma infer_strict_cases (table : SymbolTable) (he : e ∈ t.walk) :
    infer true table e = infer false table e ∨
      ∃ fault, infer true table e = .error fault ∧ OperandsRefused t fault := by
  rcases agree_or_firstClash table e with hagree | ⟨left, right, n, hfirst⟩
  · exact .inl (infer_of_agree hagree)
  · have hn : n ∈ t.walk := mem_walk_trans (typingOrder_subset_walk e hfirst.mem) he
    exact .inr ⟨_, infer_of_firstClash hfirst, n, hn, table, left, right, hfirst.clashes, rfl⟩

lemma sooner_declare {type x : String} {value : Option Tree} {loc : Option Span}
    (hvalue : ∀ e ∈ value, e ∈ t.walk) :
    Sooner (OperandsRefused t) (declare true table type x value loc)
      (declare false table type x value loc) := by
  unfold declare
  cases value with
  | none => exact .same _
  | some e =>
    simp only [inferOptional]
    rcases infer_strict_cases table (hvalue e rfl) with h | ⟨fault, h, hrefused⟩
    · rw [h]
      exact .same _
    · rw [h]
      exact .stopped hrefused _ _

lemma sooner_assign {x : String} {value : Tree} {loc : Option Span} (hvalue : value ∈ t.walk) :
    Sooner (OperandsRefused t) (assign true table x value loc)
      (assign false table x value loc) := by
  unfold assign
  split
  · exact .same _
  · split
    · exact .same _
    · rcases infer_strict_cases table hvalue with h | ⟨fault, h, hrefused⟩
      · rw [h]
        exact .same _
      · rw [h]
        exact .stopped hrefused _ _

/-- **Strict runs**: the strict check of a part of a program ends as the other one does, or it stops
at an operation whose operands clash. -/
lemma sooner_check (u : Tree) (hu : u ∈ t.walk) :
    ∀ table, Sooner (OperandsRefused t) (check true table u) (check false table u) := by
  induction u using childInduction with
  | step u ih =>
    have hparts : ∀ c ∈ u.children, ∀ table,
        Sooner (OperandsRefused t) (check true table c) (check false table c) :=
      fun c hc => ih c hc (mem_walk_child hu hc)
    intro table
    cases u with
    | declare type x v loc =>
      exact sooner_declare fun e he => mem_walk_child hu (by simp_all [children])
    | assign x v loc => exact sooner_assign (mem_walk_child hu (by simp [children]))
    | branch c b e loc =>
      have hbody := hparts b (by simp [children])
      cases e with
      | none => exact hbody table
      | some e => exact (hbody table).andThen (hparts e (by simp [children]))
    | whileLoop c b loc | forLoop b loc => exact hparts b (by simp [children]) table
    | block ns loc | program ns loc =>
      rw [check, check, checkAll_eq, checkAll_eq]
      exact sooner_each hparts table
    | _ => exact .same _

/-- **Strict mode only refuses more.** The strict check of a program ends as the other one does, or
it stops at an operation of the program whose operands clash; so what it accepts is accepted with
the same table, and what the other one refuses it refuses. An expression is refused exactly if the
operands of one of its operations clash, for the first of them in the order of typing, and has the
same type in both modes if there is none. -/
theorem strict_refuses_more :
    (∀ t table, Sooner (OperandsRefused t) (check true table t) (check false table t)) ∧
    (∀ t table table', check true table t = .finished table' →
      check false table t = .finished table') ∧
    (∀ t table fault reached, check false table t = .stopped fault reached →
      ∃ fault' reached', check true table t = .stopped fault' reached') ∧
    ∀ e table,
      ((∃ fault, infer true table e = .error fault) ↔
        ∃ n ∈ typingOrder e, ∃ left right, Clashes table left right n) ∧
      (∀ left right n, FirstClash table left right e n →
        infer true table e = .error (.mismatch left right "" n.location)) ∧
      ((∀ n ∈ typingOrder e, ∀ left right, ¬ Clashes table left right n) →
        ∃ type, infer true table e = .ok type ∧ infer false table e = .ok type) := by
  have hsooner (t : Tree) (table : SymbolTable) :
      Sooner (OperandsRefused t) (check true table t) (check false table t) :=
    sooner_check t (by rw [walk_eq]; exact List.mem_cons_self) table
  refine ⟨hsooner, ?_, ?_, fun e table => ⟨?_, ?_, ?_⟩⟩
  · intro t table table' h
    exact (h ▸ hsooner t table).eq_finished
  · intro t table fault reached h
    exact (h ▸ hsooner t table).exists_stopped
  · obtain ⟨type, htype⟩ := exists_infer table e
    rcases agree_or_firstClash table e with hagree | ⟨left, right, n, hfirst⟩
    · simp only [infer_of_agree hagree, htype, reduceCtorEq, exists_false, false_iff]
      rintro ⟨n, hn, left, right, hclash⟩
      exact hagree n hn left right hclash
    · exact iff_of_true ⟨_, infer_of_firstClash hfirst⟩
        ⟨n, hfirst.mem, left, right, hfirst.clashes⟩
  · exact fun left right n hfirst => infer_of_firstClash hfirst
  · intro hagree
    obtain ⟨type, htype⟩ := exists_infer table e
    exact ⟨type, (infer_of_agree hagree).trans htype, htype⟩

def oddSum : Tree :=
  .binary "+" (.literal (.int 1) none) (.literal (.text "a") none)
    (some ⟨{ line := 4 }, { line := 4, column := 7 }⟩)

def oddComparison : Tree :=
  .binary "<" oddSum (.binary "-" (.literal (.bool true) none) (.name "x" none) none) none

def oddStore : Tree := .declare "bool" "z" (some oddSum) none

def mixedRow : Tree :=
  .program [.declare "int" "x" (some (.literal (.int 2) none)) none,
    .declare "float" "y" (some (.binary "*" (.name "x" none)
      (.literal (.float (.ofRatio false 5 2)) none) none)) none] none

theorem strict_refuses_more_odd :
    (check true .empty mixedRow = .finished ⟨[("x", "int"), ("y", "float")], []⟩ ∧
      check false .empty mixedRow = .finished ⟨[("x", "int"), ("y", "float")], []⟩) ∧
    (check false .empty oddStore =
        .stopped (.mismatch "bool" "int" "z" none) ⟨[("z", "bool")], []⟩ ∧
      ∃ fault reached, check true .empty oddStore = .stopped fault reached) ∧
    FirstClash ⟨[("x", "int")], []⟩ "int" "string" oddComparison oddSum ∧
      infer true ⟨[("x", "int")], []⟩ oddComparison =
        .error (.mismatch "int" "string" "" oddSum.location) := by
  obtain ⟨-, haccepted, hrefused, htyped⟩ := strict_refuses_more
  have hfinished : check true .empty mixedRow = .finished ⟨[("x", "int"), ("y", "float")], []⟩ :=
    rfl
  have hstopped : check false .empty oddStore =
      .stopped (.mismatch "bool" "int" "z" none) ⟨[("z", "bool")], []⟩ := rfl
  have hfirst : FirstClash ⟨[("x", "int")], []⟩ "int" "string" oddComparison oddSum :=
    ⟨.operands rfl rfl (by decide) (by decide) (by decide), [], _, rfl, by simp⟩
  exact ⟨⟨hfinished, haccepted _ _ _ hfinished⟩, ⟨hstopped, hrefused _ _ _ _ hstopped⟩, hfirst,
    (htyped _ _).2.1 _ _ _ hfirst⟩

end Typing

end Primer
