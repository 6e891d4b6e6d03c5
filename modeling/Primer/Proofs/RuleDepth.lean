import Mathlib.Tactic
import Primer.Proofs.DirectRules

/-!
More levels of nesting never change an answer.

A rule with fewer levels left gives up more often, and where it does not give up it answers as the
rule with more levels does. Every way to build a rule from others keeps this order, so it holds
between the same rule of the grammar at two depths.
-/

namespace Primer

namespace Rule

variable {α β : Type}

/-- Where `p` does not give up, `q` answers the same. -/
def Below (p q : Rule α) : Prop := ∀ c, p c = .tooDeep ∨ p c = q c

namespace Below

variable {p p' q q' : Rule α}

@[refl] lemma refl (p : Rule α) : Below p p := fun _ => Or.inr rfl

lemma trans {r : Rule α} (hp : Below p q) (hq : Below q r) : Below p r := by
  intro c
  rcases hp c with h | h
  · exact Or.inl h
  · rw [h]
    exact hq c

lemma tooDeep (q : Rule α) : Below Rule.tooDeep q := fun _ => Or.inl rfl

lemma bind {f f' : α → Rule β} (hp : Below p p') (hf : ∀ a, Below (f a) (f' a)) :
    Below (p >>= f) (p' >>= f') := by
  intro c
  change Rule.andThen p f c = _ ∨ Rule.andThen p f c = Rule.andThen p' f' c
  unfold Rule.andThen
  rcases hp c with h | h
  · simp [h]
  · rw [h]
    cases p' c with
    | accept a c' => exact hf a c'
    | reject => exact Or.inr rfl
    | tooDeep => exact Or.inl rfl

/-- Rules that start alike are in order if what follows is. -/
lemma after {f f' : α → Rule β} (hf : ∀ a, Below (f a) (f' a)) : Below (p >>= f) (p >>= f') :=
  (refl p).bind hf

lemma orElse (hp : Below p p') (hq : Below q q') : Below (p <|> q) (p' <|> q') := by
  intro c
  change Rule.orElse p q c = _ ∨ Rule.orElse p q c = Rule.orElse p' q' c
  unfold Rule.orElse
  rcases hp c with h | h
  · simp [h]
  · rw [h]
    cases p' c with
    | accept a c' => exact Or.inr rfl
    | reject => exact hq c
    | tooDeep => exact Or.inl rfl

lemma optional (hp : Below p p') : Below (Rule.optional p) (Rule.optional p') := by
  intro c
  unfold Rule.optional
  rcases hp c with h | h <;> simp [h]

lemma located (hp : Below p p') : Below (Rule.located p) (Rule.located p') := by
  intro c
  unfold Rule.located
  rcases hp c with h | h <;> simp [h]

lemma many (hp : Below p p') : Below (Rule.many p) (Rule.many p') := by
  intro c
  unfold Rule.many
  generalize c.rest = bound
  induction bound generalizing c with
  | nil => exact Or.inr rfl
  | cons _ bound ih =>
    unfold Rule.manyWithin
    rcases hp c with h | h
    · simp [h]
    · rw [h]
      cases p' c with
      | accept a c' =>
        rcases ih c' with h' | h'
        · simp [h', Reply.map]
        · simp [h']
      | reject => exact Or.inr rfl
      | tooDeep => exact Or.inl rfl

end Below

end Rule

namespace Grammar

open Rule

variable {e e' s s' : Rule Tree}

lemma below_level (signs : List String) (h : Below e e') :
    Below (level signs e) (level signs e') := by
  have htail : Below (tail signs e) (tail signs e') :=
    .after fun _ => .after fun _ => .after fun _ => h.bind fun _ => .refl _
  exact h.bind fun _ => htail.many.bind fun _ => .refl _

lemma below_primary (h : Below e e') : Below (primary e) (primary e') := by
  have hparen : Below (paren e) (paren e') :=
    .after fun _ => .after fun _ => h.bind fun _ => .refl _
  exact hparen.orElse (.refl _)

lemma below_comparison (h : Below e e') : Below (comparison e) (comparison e') :=
  below_level _ (below_level _ (below_level _ (below_primary h)))

lemma below_expression (depth : ℕ) : Below (expression depth) (expression (depth + 1)) := by
  induction depth with
  | zero => exact .tooDeep _
  | succ depth ih => exact below_comparison ih

lemma below_statements (h : Below s s') : Below (statements s) (statements s') :=
  .many (.after fun _ => h)

lemma below_braced (h : Below s s') : Below (braced s) (braced s') :=
  .after fun _ => (below_statements h).bind fun _ => .refl _

lemma below_guarded (keyword : String) (he : Below e e') (hs : Below s s') :
    Below (guarded keyword e s) (guarded keyword e' s') := by
  refine .after fun _ => .after fun _ => .after fun _ => .after fun _ => he.bind fun _ => ?_
  exact .after fun _ => .after fun _ => .after fun _ => hs.bind fun _ => .refl _

lemma below_branch (he : Below e e') (hs : Below s s') : Below (branch e s) (branch e' s') := by
  have helse : Below (elseClause s) (elseClause s') :=
    .after fun _ => .after fun _ => .after fun _ => hs
  refine .bind (.located ?_) fun _ => .refl _
  exact (below_guarded _ he hs).bind fun _ => helse.optional.bind fun _ => .refl _

lemma below_returnStatement (he : Below e e') :
    Below (returnStatement e) (returnStatement e') := by
  have hvalue : Below (returnValue e) (returnValue e') := .after fun _ => he
  exact .bind (.located (.after fun _ => hvalue.optional.bind fun _ => .refl _)) fun _ => .refl _

lemma below_declaration (he : Below e e') : Below (declaration e) (declaration e') := by
  have hvalue : Below (initializer e) (initializer e') := .after fun _ => .after fun _ => he
  refine .bind (.located ?_) fun _ => .refl _
  exact .after fun _ => .after fun _ => .after fun _ => .after fun _ =>
    hvalue.optional.bind fun _ => .refl _

lemma below_assignment (he : Below e e') : Below (assignment e) (assignment e') := by
  refine .bind (.located ?_) fun _ => .refl _
  exact .after fun _ => .after fun _ => .after fun _ => .after fun _ => he.bind fun _ => .refl _

lemma below_statementOf (he : Below e e') (hs : Below s s') :
    Below (statementOf e s) (statementOf e' s') := by
  have hblock : Below (block s) (block s') := .bind (.located (below_braced hs)) fun _ => .refl _
  have hwhile : Below (whileLoop e s) (whileLoop e' s') :=
    .bind (.located (below_guarded _ he hs)) fun _ => .refl _
  exact hblock.orElse ((below_branch he hs).orElse (hwhile.orElse
    ((below_returnStatement he).orElse ((below_declaration he).orElse (below_assignment he)))))

lemma below_statement (depth : ℕ) : Below (statement depth) (statement (depth + 1)) := by
  induction depth with
  | zero => exact .tooDeep _
  | succ depth ih => exact below_statementOf (below_expression depth) ih

lemma below_mainFunction (hs : Below s s') : Below (mainFunction s) (mainFunction s') :=
  .after fun _ => .after fun _ => .after fun _ => .after fun _ => .after fun _ => .after fun _ =>
    .after fun _ => .after fun _ => below_braced hs

/-- **Depth**: a program read with more levels to spare is read the same, unless the fewer levels
did not suffice. -/
theorem below_program {depth depth' : ℕ} (h : depth ≤ depth') :
    Below (program depth) (program depth') := by
  induction depth', h using Nat.le_induction with
  | base => exact .refl _
  | succ depth' _ ih =>
    have hs := below_statement depth'
    refine ih.trans (.bind (.located (.after fun _ => ?_)) fun _ => .refl _)
    exact ((below_mainFunction hs).orElse (below_statements hs)).bind fun _ => .refl _

end Grammar

end Primer
