import Mathlib.Tactic
import Primer.Proofs.BuiltExpressions

/-!
The builder makes of a text what the direct rules make of it.

Statement by statement the parts that the builder picks are those that the direct rules keep. A part
that may be missing has left a piece without parts if it is, and the builder takes this for nothing.
So the pieces of a program become the tree of the direct rules.
-/

namespace Primer

namespace Grammar

open Rule Pieces

variable {text : List Char}

def asTrees (text : List Char) (ts : List Tree) (m : Made) : Prop :=
  m = (ts.findSome? (fault? text), .list (ts.map .tree))

lemma trees_list (ts : List Tree) : (Built.list (ts.map .tree)).trees = .ok ts := by
  rw [Built.trees]
  induction ts with
  | nil => rfl
  | cons t ts ih =>
    rw [List.map_cons, List.mapM_cons, ih]
    rfl

/-- The tree of a part that may be missing, as the builder finds it. -/
lemma optionalTree_of_orMissing {i j : ℕ} {o : Option Tree} {m : Made}
    (h : orMissing (asTree text) i j o m) :
    m.2.optionalTree = .ok o ∧ m.1 = o.toList.findSome? (fault? text) := by
  rcases h with ⟨rfl, n, rfl⟩ | ⟨t, fault, v, rfl, ht, rfl⟩
  · exact ⟨rfl, rfl⟩
  · obtain ⟨rfl, rfl⟩ := Prod.mk.inj ht
    refine ⟨rfl, ?_⟩
    simp [findSome?_cons_eq_or]

section

variable {e st : Rule Piece} {e' st' : Rule Tree}

lemma builds_notEquals :
    Builds text (notHere (Pieces.sign "=")) (absent (sign "=")) idle := by
  refine (builds_sign "=").notHere.imp ?_
  rintro i j n u - - ⟨m, hm, -, hidle⟩
  exact ⟨m, hm, hidle⟩

lemma builds_initializer (he : Builds text e e' fun _ _ => asTree text) :
    Builds text (Pieces.initializer e) (initializer e') fun _ _ => asTree text := by
  have hrow := (builds_sign "=").skip (builds_notEquals.skip (builds_gap.skip he.last))
  simp only [initializer, equals, bind_assoc]
  refine hrow.piece ?_
  rintro i j t made ns - - ⟨v₀, _, _, ⟨v₁, _, _, ⟨v₂, _, _, ⟨_, rfl, rfl⟩, rfl⟩, rfl⟩, rfl⟩
  exact acts_tree rfl (by simp [findSome?_cons_eq_or])

lemma builds_declaration (he : Builds text e e' fun _ _ => asTree text) :
    Builds text (Pieces.declaration e) (declaration e') fun _ _ => asTree text := by
  have hrow := builds_typeName.cons fun type => builds_gap.skip <| builds_name.cons fun x =>
    builds_gap.skip <| (builds_initializer he).maybe.cons fun value =>
      builds_gap.skip <| (builds_sign ";").skip <| buildsRow_nil (type, x, value)
  refine Builds.located (f := fun r : (String × String × Option Tree) × Span =>
    Node.declare r.1.1 r.1.2.1 r.1.2.2 (some r.2)) (hrow.piece ?_)
  rintro i j _ made ns - -
    ⟨type, _, _, _, rfl, ⟨v₁, _, _, ⟨x, _, _, _, rfl, ⟨v₃, _, _, ⟨value, ⟨fault, v⟩, _, _, hvalue,
      ⟨v₅, _, _, ⟨v₆, _, _, ⟨rfl, rfl⟩, rfl⟩, rfl⟩, rfl⟩, rfl⟩, rfl⟩, rfl⟩, rfl⟩
  obtain ⟨hv, hfault⟩ := optionalTree_of_orMissing hvalue
  refine acts_node ?_ rfl ?_
  · change (v.optionalTree >>= fun value => Except.ok (Built.tree (.declare type x value _))) = _
    rw [show v.optionalTree = _ from hv]
    rfl
  · cases value <;> simpa [findSome?_cons_eq_or, Node.children] using hfault

lemma builds_assignment (he : Builds text e e' fun _ _ => asTree text) :
    Builds text (Pieces.assignment e) (assignment e') fun _ _ => asTree text := by
  simp only [assignment, equals, bind_assoc]
  have hrow := builds_name.cons fun x => builds_gap.skip <| (builds_sign "=").skip <|
    builds_notEquals.skip <| builds_gap.skip <| he.cons fun value => builds_gap.skip <|
      (builds_sign ";").skip <| buildsRow_nil (x, value)
  refine Builds.located (f := fun r : (String × Tree) × Span =>
    Node.assign r.1.1 r.1.2 (some r.2)) (hrow.piece ?_)
  rintro i j _ made ns - -
    ⟨x, _, _, _, rfl, ⟨v₁, _, _, ⟨v₂, _, _, ⟨v₃, _, _, ⟨v₄, _, _, ⟨value, _, _, _, rfl,
      ⟨v₆, _, _, ⟨v₇, _, _, ⟨rfl, rfl⟩, rfl⟩, rfl⟩, rfl⟩, rfl⟩, rfl⟩, rfl⟩, rfl⟩, rfl⟩
  exact acts_node rfl rfl (by simp [findSome?_cons_eq_or, Node.children])

lemma builds_elseClause (hs : Builds text st st' fun _ _ => asTree text) :
    Builds text (Pieces.elseClause st) (elseClause st') fun _ _ => asTree text := by
  refine (builds_gap.skip ((builds_keyword "else" fun _ _ _ _ _ => rfl).skip
    (builds_gap.skip hs.last))).piece ?_
  rintro i j t made ns - - ⟨v₀, _, _, ⟨v₁, _, _, ⟨v₂, _, _, ⟨_, rfl, rfl⟩, rfl⟩, rfl⟩, rfl⟩
  exact acts_tree rfl (by simp [findSome?_cons_eq_or])

lemma builds_branch (he : Builds text e e' fun _ _ => asTree text)
    (hs : Builds text st st' fun _ _ => asTree text) :
    Builds text (Pieces.branch e st) (branch e' st') fun _ _ => asTree text := by
  simp only [branch, guarded, bind_assoc, pure_bind]
  have hrow := (builds_keyword "if" fun _ _ _ _ _ => rfl).skip <| builds_gap.skip <|
    (builds_sign "(").skip <| builds_gap.skip <| he.cons fun c => builds_gap.skip <|
      (builds_sign ")").skip <| builds_gap.skip <| hs.cons fun body =>
        (builds_elseClause hs).maybe.cons fun otherwise => buildsRow_nil ((c, body), otherwise)
  refine Builds.located (f := fun r : ((Tree × Tree) × Option Tree) × Span =>
    Node.branch r.1.1.1 r.1.1.2 r.1.2 (some r.2)) (hrow.piece ?_)
  rintro i j _ made ns - -
    ⟨v₀, _, _, ⟨v₁, _, _, ⟨v₂, _, _, ⟨v₃, _, _, ⟨c, _, _, _, rfl, ⟨v₅, _, _, ⟨v₆, _, _, ⟨v₇, _, _,
      ⟨body, _, _, _, rfl, ⟨otherwise, ⟨fault, v⟩, _, _, hvalue, ⟨rfl, rfl⟩, rfl⟩, rfl⟩, rfl⟩, rfl⟩,
        rfl⟩, rfl⟩, rfl⟩, rfl⟩, rfl⟩, rfl⟩
  obtain ⟨hv, hfault⟩ := optionalTree_of_orMissing hvalue
  refine acts_node ?_ rfl ?_
  · change (v.optionalTree >>= fun value => Except.ok (Built.tree (.branch c body value _))) = _
    rw [show v.optionalTree = _ from hv]
    rfl
  · obtain rfl : fault = _ := hfault
    cases otherwise <;> simp [findSome?_cons_eq_or, Node.children]

lemma builds_whileLoop (he : Builds text e e' fun _ _ => asTree text)
    (hs : Builds text st st' fun _ _ => asTree text) :
    Builds text (Pieces.whileLoop e st) (whileLoop e' st') fun _ _ => asTree text := by
  have hrow := (builds_keyword "while" fun _ _ _ _ _ => rfl).skip <| builds_gap.skip <|
    (builds_sign "(").skip <| builds_gap.skip <| he.cons fun c => builds_gap.skip <|
      (builds_sign ")").skip <| builds_gap.skip <| hs.cons fun body => buildsRow_nil (c, body)
  refine Builds.located (f := fun r : (Tree × Tree) × Span =>
    Node.whileLoop r.1.1 r.1.2 (some r.2)) (hrow.piece ?_)
  rintro i j _ made ns - -
    ⟨v₀, _, _, ⟨v₁, _, _, ⟨v₂, _, _, ⟨v₃, _, _, ⟨c, _, _, _, rfl, ⟨v₅, _, _, ⟨v₆, _, _, ⟨v₇, _, _,
      ⟨body, _, _, _, rfl, ⟨rfl, rfl⟩, rfl⟩, rfl⟩, rfl⟩, rfl⟩, rfl⟩, rfl⟩, rfl⟩, rfl⟩, rfl⟩
  exact acts_node rfl rfl (by simp [findSome?_cons_eq_or, Node.children])

lemma builds_returnValue (he : Builds text e e' fun _ _ => asTree text) :
    Builds text (Pieces.returnValue e) (returnValue e') fun _ _ => asTree text := by
  refine (builds_gap.skip he.last).piece ?_
  rintro i j t made ns - - ⟨v₀, _, _, ⟨_, rfl, rfl⟩, rfl⟩
  exact acts_tree rfl (by simp [findSome?_cons_eq_or])

lemma builds_returnStatement (he : Builds text e e' fun _ _ => asTree text) :
    Builds text (Pieces.returnStatement e) (returnStatement e') fun _ _ => asTree text := by
  have hrow := (builds_keyword "return" fun _ _ _ _ _ => rfl).skip <|
    (builds_returnValue he).maybe.cons fun value => builds_gap.skip <| (builds_sign ";").skip <|
      buildsRow_nil value
  refine Builds.located (f := fun r : Option Tree × Span => Node.ret r.1 (some r.2)) (hrow.piece ?_)
  rintro i j value made ns - -
    ⟨v₀, _, _, ⟨_, ⟨fault, v⟩, _, _, hvalue, ⟨v₂, _, _, ⟨v₃, _, _, ⟨rfl, rfl⟩, rfl⟩, rfl⟩, rfl⟩,
      rfl⟩
  obtain ⟨hv, hfault⟩ := optionalTree_of_orMissing hvalue
  refine acts_node ?_ rfl ?_
  · change (v.optionalTree >>= fun value => Except.ok (Built.tree (.ret value _))) = _
    rw [show v.optionalTree = _ from hv]
    rfl
  · cases value <;> simpa [findSome?_cons_eq_or, Node.children] using hfault

/-! ### Rows of statements -/

lemma builds_statements (hs : Builds text st st' fun _ _ => asTree text) :
    Builds text (Pieces.statements st) (statements st') fun _ _ => asTrees text := by
  have hitem : Builds text (statementItem st) (item st') fun _ _ => asTree text := by
    refine (builds_gap.skip hs.last).piece ?_
    rintro i j t made ns - - ⟨v₀, _, _, ⟨_, rfl, rfl⟩, rfl⟩
    exact acts_tree rfl (by simp [findSome?_cons_eq_or])
  refine Builds.repeated hitem ?_
  intro i j ts made ns _ _ hall
  have hmade : made = ts.map fun t => (fault? text t, .tree t) := by
    induction hall with
    | nil => rfl
    | cons hm _ ih => rw [hm, ih, List.map_cons]
  subst hmade
  refine ⟨none, _, rfl, ?_⟩
  simp [asTrees, List.findSome?_map, Function.comp_def]

/-- Statements between braces are a row of four parts. -/
lemma buildsRow_braced (hs : Builds text st st' fun _ _ => asTree text) :
    BuildsRow text (row [Pieces.sign "\x7b", Pieces.statements st, Pieces.gap, Pieces.sign "\x7d"])
      (braced st') fun _ _ ts made => ∃ v₀ v₂ v₃, made = [(none, v₀),
        (ts.findSome? (fault? text), .list (ts.map .tree)), (none, v₂), (none, v₃)] := by
  refine ((builds_sign "\x7b").skip ((builds_statements hs).cons fun ts =>
    builds_gap.skip ((builds_sign "\x7d").skip (buildsRow_nil ts)))).imp ?_
  rintro i j ns ts - - ⟨made, hmade, v₀, _, _, ⟨_, _, _, _, rfl, ⟨v₂, _, _, ⟨v₃, _, _, ⟨rfl, rfl⟩,
    rfl⟩, rfl⟩, rfl⟩, rfl⟩
  exact ⟨_, hmade, v₀, v₂, v₃, rfl⟩

lemma builds_block (hs : Builds text st st' fun _ _ => asTree text) :
    Builds text (Pieces.block st) (block st') fun _ _ => asTree text := by
  refine Builds.located (f := fun r : List Tree × Span => Node.block r.1 (some r.2))
    ((buildsRow_braced hs).piece ?_)
  rintro i j ts made ns - - ⟨v₀, v₂, v₃, rfl⟩
  refine acts_node ?_ rfl (by simp [findSome?_cons_eq_or, Node.children])
  change ((Built.list (ts.map .tree)).trees >>= fun ts =>
    Except.ok (Built.tree (.block ts _))) = _
  rw [trees_list]
  rfl

lemma builds_statement (depth : ℕ) :
    Builds text (Pieces.statement depth) (statement depth) fun _ _ => asTree text := by
  induction depth with
  | zero => exact .giveUp
  | succ depth ih =>
    have he := @builds_expression text depth
    refine ((builds_block ih).firstOf_cons ((builds_branch he ih).firstOf_cons
      ((builds_whileLoop he ih).firstOf_cons ((builds_returnStatement he).firstOf_cons
        ((builds_declaration he).firstOf_cons (builds_assignment he).firstOf_last))))).choice ?_
    rintro i j t made ns - - ⟨_, rfl, rfl⟩
    exact acts_tree rfl (by simp [findSome?_cons_eq_or])

lemma builds_mainFunction (hs : Builds text st st' fun _ _ => asTree text) :
    Builds text (Pieces.mainFunction st) (mainFunction st') fun _ _ => asTrees text := by
  have hrow := (builds_keyword "int" fun _ _ _ _ _ => rfl).skip <| builds_gap.skip <|
    (builds_keyword "main" fun _ _ _ _ _ => rfl).skip <| builds_gap.skip <|
      (builds_sign "(").skip <| builds_gap.skip <| (builds_sign ")").skip <|
        builds_gap.skip (buildsRow_braced hs)
  refine hrow.piece ?_
  rintro i j ts made ns - -
    ⟨u₀, _, _, ⟨u₁, _, _, ⟨u₂, _, _, ⟨u₃, _, _, ⟨u₄, _, _, ⟨u₅, _, _, ⟨u₆, _, _, ⟨u₇, _, _,
      ⟨v₀, v₂, v₃, rfl⟩, rfl⟩, rfl⟩, rfl⟩, rfl⟩, rfl⟩, rfl⟩, rfl⟩, rfl⟩
  refine ⟨none, .list (ts.map .tree), rfl, ?_⟩
  simp [asTrees, findSome?_cons_eq_or]

lemma builds_body (hs : Builds text st st' fun _ _ => asTree text) :
    Builds text (Pieces.body st) (body st') fun _ _ => asTrees text := by
  refine ((builds_mainFunction hs).firstOf_cons (builds_statements hs).firstOf_last).choice ?_
  rintro i j ts made ns - - ⟨_, rfl, rfl⟩
  refine ⟨none, .list (ts.map .tree), rfl, ?_⟩
  simp [asTrees, findSome?_cons_eq_or]

end

/-- **Programs**: the two grammars match the same, and the builder makes of a piece the tree of the
direct rules, unless a whole number in it has too many digits. -/
theorem builds_program (text : List Char) (depth : ℕ) :
    Builds text (Pieces.program depth) (program depth) fun _ _ => asTree text := by
  refine Builds.located (f := fun r : List Tree × Span => Node.program r.1 (some r.2))
    ((builds_gap.skip ((builds_body (builds_statement depth)).cons fun ts =>
      builds_gap.skip (buildsRow_nil ts))).piece ?_)
  rintro i j ts made ns - - ⟨v₀, _, _, ⟨_, _, _, _, rfl, ⟨v₂, _, _, ⟨rfl, rfl⟩, rfl⟩, rfl⟩, rfl⟩
  refine acts_node ?_ rfl (by simp [findSome?_cons_eq_or, Node.children])
  change ((Built.list (ts.map .tree)).trees >>= fun ts =>
    Except.ok (Built.tree (.program ts _))) = _
  rw [trees_list]
  rfl

/-! ### Texts -/

/-- Behind a program the text goes on: the search for the position and the walk to it find the same
fault. -/
lemma unexpected_eq_leftOver {j : ℕ} (hj : j ≤ text.length) :
    unexpected (.ofText text) j = leftOver (.within text j) := by
  have hposition {o : ℕ} (ho : o ≤ text.length) :
      (Builder.ofText text).position o = Position.initial.advance (text.take o) :=
    Position.ofIndex_eq_advance ho
  have htake : text.take (min (j + 1) text.length) = text.take j ++ (text.drop j).take 1 := by
    rw [← List.take_add, List.take_eq_take_iff]
    omega
  simp only [unexpected, text_ofText, min_eq_left hj]
  rw [hposition hj, hposition (min_le_right _ _), htake, Position.advance_append]
  rfl

lemma checked_eq_accepted {t : Tree} :
    checked (BuildFault.orValue (fault? text t) (.tree t)) = accepted text t := by
  unfold accepted fault?
  cases t.walk.findSome? (longInteger? text) <;> rfl

/-- **Two ways to one tree**: the pieces of a text give the tree that the direct rules give, and the
same texts are refused for the same faults. -/
theorem parse_eq_parseDirectly (depth : ℕ) (source : String) :
    parse depth source = parseDirectly depth source := by
  obtain ⟨text, rfl⟩ : ∃ text, source = String.ofList text := ⟨_, String.ofList_toList.symm⟩
  simp only [parse, parseDirectly, String.toList_ofList, text_ofText, Cursor.ofText_eq_within]
  cases builds_program text (depth + 1) 0 (Nat.zero_le _) with
  | @accept j n t _ hj hp hq h =>
    obtain ⟨_, hmakes, rfl⟩ := h
    have hoffset : (Cursor.within text j).pos.offset.toNat = j := by
      simp [Cursor.within, Position.offset_initial_advance, hj]
    simp only [hp, hq, hoffset, unexpected_eq_leftOver hj]
    rw [show (Builder.ofText text).visit n = _ from hmakes, checked_eq_accepted]
  | reject hp hq => simp only [hp, hq, unexpected_eq_leftOver (Nat.zero_le _)]
  | tooDeep hp hq => simp only [hp, hq]

/-- Whatever the builder picks from the parts of a piece is there and of the right kind. -/
theorem parse_ne_misshapen (depth : ℕ) (source : String) :
    parse depth source ≠ .error .misshapen := by
  rw [parse_eq_parseDirectly]
  unfold parseDirectly
  dsimp only
  split
  · simp
  · simp [leftOver]
  · split
    · unfold accepted
      split
      · simp
      · split <;> simp
    · simp [leftOver]

end Grammar

end Primer
