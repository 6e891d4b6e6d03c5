import Mathlib.Tactic
import Primer.Proofs.AlikeRules
import Primer.Proofs.DirectRules

/-!
What the builder makes of words and expressions.

The rules that give pieces match the same as the direct rules, whose values are what the text says.
What the builder makes of a piece is this value, or it is stopped by the first whole number in it
with too many digits. Where the value stands among the parts of the piece depends on the rule, and
the builder looks for it there.
-/

namespace Primer

def BuildFault.orValue {α : Type} (fault : Option BuildFault) (a : α) : Except BuildFault α :=
  match fault with
  | some f => .error f
  | none => .ok a

/-- A value that is made of a piece, and the fault that comes before it, if there is one. -/
abbrev Made := Option BuildFault × Built

lemma findSome?_cons_eq_or {α β : Type} (f : α → Option β) (a : α) (as : List α) :
    (a :: as).findSome? f = (f a).or (as.findSome? f) := by
  cases hf : f a <;> simp [hf]

namespace Builder

variable {b : Builder} {n : Piece} {ns : List Piece}

def Makes (b : Builder) (n : Piece) (m : Made) : Prop := b.visit n = BuildFault.orValue m.1 m.2

/-- The first fault in a row of pieces is the fault of the row. -/
lemma visitAll_eq {made : List Made} (h : List.Forall₂ b.Makes ns made) :
    b.visitAll ns = BuildFault.orValue (made.findSome? Prod.fst) (made.map Prod.snd) := by
  induction h with
  | nil => rfl
  | @cons n m ns made hn hns ih =>
    obtain ⟨fault, v⟩ := m
    rw [visitAll, hn, ih]
    cases fault with
    | some f => rfl
    | none =>
      have hfirst : List.findSome? Prod.fst ((none, v) :: made) = made.findSome? Prod.fst := rfl
      rw [hfirst]
      cases made.findSome? Prod.fst <;> rfl

lemma makes_mk {rule : String} {i j : ℤ} {made : List Made} {fault : Option BuildFault} {v : Built}
    (h : List.Forall₂ b.Makes ns made)
    (hact : b.act (.mk rule i j ns) (made.map Prod.snd) = BuildFault.orValue fault v) :
    b.Makes (.mk rule i j ns) ((made.findSome? Prod.fst).or fault, v) := by
  rw [Makes, visit, visitAll_eq h]
  cases made.findSome? Prod.fst with
  | some f => rfl
  | none => exact hact

end Builder

namespace Grammar

open Rule Pieces

variable {α β : Type} {text : List Char} {p : Rule Piece} {q : Rule α}

/-- How the value of a direct rule that matches from `i` to `j` shows in what the builder makes. -/
abbrev Shows (α : Type) := ℕ → ℕ → α → Made → Prop

/-- The builder makes of what a rule matches what the direct rule gives. -/
def Builds (text : List Char) (p : Rule Piece) (q : Rule α) (V : Shows α) : Prop :=
  Matches text p q fun i j n a => ∃ m, (Builder.ofText text).Makes n m ∧ V i j a m

def BuildsRow (text : List Char) (p : Rule (List Piece)) (q : Rule α)
    (W : ℕ → ℕ → α → List Made → Prop) : Prop :=
  Matches text p q fun i j ns a =>
    ∃ made, List.Forall₂ (Builder.ofText text).Makes ns made ∧ W i j a made

/-- What becomes of the values of the parts if a rule has a piece of its own. -/
def Acts (text : List Char) (rule : String) (W : ℕ → ℕ → α → List Made → Prop) (V : Shows α) :
    Prop :=
  ∀ i j a made ns, i ≤ j → j ≤ text.length → W i j a made → ∃ fault v,
    (Builder.ofText text).act (.mk rule i j ns) (made.map Prod.snd) =
      BuildFault.orValue fault v ∧ V i j a ((made.findSome? Prod.fst).or fault, v)

lemma BuildsRow.piece {rule : String} {parts : Rule (List Piece)}
    {W : ℕ → ℕ → α → List Made → Prop} {V : Shows α} (h : BuildsRow text parts q W)
    (hact : Acts text rule W V) : Builds text (piece rule parts) q V := by
  refine h.located_left.map_left.imp ?_
  rintro i j n a hij hj ⟨⟨ns, span⟩, ⟨⟨made, hmade, hW⟩, hspan⟩, rfl⟩
  obtain rfl : span = _ := hspan
  obtain ⟨fault, v, hv, hV⟩ := hact i j a made ns hij hj hW
  exact ⟨_, Builder.makes_mk hmade hv, hV⟩

/-- A direct rule that keeps its range for the tree. -/
lemma Builds.located {f : α × Span → β} {V : Shows β}
    (h : Builds text p q fun i j a => V i j (f (a, ⟨.ofIndex text i, .ofIndex text j⟩))) :
    Builds text p (Rule.located q >>= fun r => pure (f r)) V := by
  refine h.located_right.imp ?_
  rintro i j n b - - ⟨a, ⟨m, hm, hV⟩, rfl⟩
  exact ⟨m, hm, hV⟩

/-! ### Rows -/

lemma buildsRow_nil (a : α) :
    BuildsRow text (row []) (pure a) fun _ _ a' made => a' = a ∧ made = [] :=
  .pure fun _ => ⟨[], .nil, rfl, rfl⟩

lemma Builds.cons {ps : List (Rule Piece)} {g : α → Rule β} {V : Shows α}
    {W : α → ℕ → ℕ → β → List Made → Prop} (h : Builds text p q V)
    (hps : ∀ a, BuildsRow text (row ps) (g a) (W a)) :
    BuildsRow text (row (p :: ps)) (q >>= g) fun i j b made =>
      ∃ a m ms k, V i k a m ∧ W a k j b ms ∧ made = m :: ms := by
  refine (h.bind fun n a => (hps a).map_left).imp ?_
  rintro i j ns b - - ⟨n, a, k, ⟨m, hm, hV⟩, ms, ⟨made, hmade, hW⟩, rfl⟩
  exact ⟨m :: made, .cons hm hmade, a, m, made, k, hV, hW, rfl⟩

/-- The value of an idle part is of no use. -/
lemma Builds.skip {ps : List (Rule Piece)} {r : Rule β} {W : ℕ → ℕ → β → List Made → Prop}
    (h : Builds text p q fun _ _ _ m => m.1 = none) (hps : BuildsRow text (row ps) r W) :
    BuildsRow text (row (p :: ps)) (q >>= fun _ => r) fun _ j b made =>
      ∃ v ms k, W k j b ms ∧ made = (none, v) :: ms := by
  refine (h.cons fun _ => hps).imp ?_
  rintro i j ns b - - ⟨made, hmade, _, ⟨_, v⟩, ms, k, rfl, hW, rfl⟩
  exact ⟨_, hmade, v, ms, k, hW, rfl⟩

lemma Builds.last {V : Shows α} (h : Builds text p q V) :
    BuildsRow text (row [p]) q fun i j a made => ∃ m, V i j a m ∧ made = [m] := by
  refine h.map_left.imp ?_
  rintro i j ns a - - ⟨n, ⟨m, hm, hV⟩, rfl⟩
  exact ⟨[m], .cons hm .nil, m, hV, rfl⟩

/-! ### Ways to build a rule -/

lemma Builds.firstOf_cons {ps : List (Rule Piece)} {q' : Rule α} {V : Shows α}
    (h : Builds text p q V) (hps : Builds text (firstOf ps) q' V) :
    Builds text (firstOf (p :: ps)) (q <|> q') V :=
  h.orElse hps

lemma Builds.firstOf_last {V : Shows α} (h : Builds text p q V) :
    Builds text (firstOf [p]) q V :=
  h.orElse_reject

lemma Builds.choice {rule : String} {ps : List (Rule Piece)} {V V' : Shows α}
    (h : Builds text (firstOf ps) q V)
    (hact : Acts text rule (fun i j a made => ∃ m, V i j a m ∧ made = [m]) V') :
    Builds text (choice rule ps) q V' := by
  refine BuildsRow.piece ?_ hact
  exact h.last

lemma forall₂_makes {b : Builder} {ns : List Piece} {as : List α} {V : α → Made → Prop}
    (h : List.Forall₂ (fun n a => ∃ m, b.Makes n m ∧ V a m) ns as) :
    ∃ made, List.Forall₂ b.Makes ns made ∧ List.Forall₂ V as made := by
  induction h with
  | nil => exact ⟨[], .nil, .nil⟩
  | cons hn _ ih =>
    obtain ⟨m, hm, hV⟩ := hn
    obtain ⟨made, hmade, hVs⟩ := ih
    exact ⟨m :: made, .cons hm hmade, .cons hV hVs⟩

lemma Builds.many {V : α → Made → Prop} (h : Builds text p q fun _ _ => V) :
    BuildsRow text (many p) (many q) fun _ _ as made => List.Forall₂ V as made := by
  refine Matches.imp (Matches.many h) ?_
  intro i j ns as _ _ hall
  exact forall₂_makes (hall.imp fun n a hex => by obtain ⟨_, _, hm⟩ := hex; exact hm)

lemma Builds.repeated {rule : String} {V : α → Made → Prop} {V' : Shows (List α)}
    (h : Builds text p q fun _ _ => V)
    (hact : Acts text rule (fun _ _ as made => List.Forall₂ V as made) V') :
    Builds text (repeated rule p) (Rule.many q) V' :=
  h.many.piece hact

/-- The piece of a part that may be missing. -/
def orMissing (V : α → Made → Prop) : Shows (Option α) := fun _ _ o m =>
  (o = none ∧ ∃ n, m = (none, .piece n)) ∨
    ∃ a fault v, o = some a ∧ V a (fault, v) ∧ m = (fault, .list [v])

lemma Builds.maybe {V : α → Made → Prop} (h : Builds text p q fun _ _ => V) :
    Builds text (maybe p) (optional q) (orMissing V) := by
  have hrow : BuildsRow text (do return (← optional p).toList) (optional q) fun _ _ o made =>
      (o = none ∧ made = []) ∨ ∃ a m, o = some a ∧ V a m ∧ made = [m] := by
    refine (Matches.optional h).map_left.imp ?_
    rintro i j ns o - - ⟨u, hrel, rfl⟩
    cases hrel with
    | none => exact ⟨[], .nil, .inl ⟨rfl, rfl⟩⟩
    | some hex =>
      obtain ⟨m, hm, hV⟩ := hex
      exact ⟨[m], .cons hm .nil, .inr ⟨_, m, rfl, hV, rfl⟩⟩
  refine hrow.piece ?_
  rintro i j o made ns - - (⟨rfl, rfl⟩ | ⟨a, ⟨fault, v⟩, rfl, hV, rfl⟩)
  · exact ⟨none, _, rfl, .inl ⟨rfl, _, rfl⟩⟩
  · refine ⟨none, .list [v], rfl, .inr ⟨a, fault, v, rfl, hV, ?_⟩⟩
    cases fault <;> rfl

/-! ### Words -/

def idle : Shows α := fun _ _ _ m => m.1 = none

/-- A rule that the builder does not know. -/
def Plain (rule : String) : Prop := ∀ (b : Builder) (i j : ℤ) (ns : List Piece) (vs : List Built),
  b.act (.mk rule i j ns) vs = .ok (if vs.isEmpty then .piece (.mk rule i j ns) else .list vs)

lemma Builds.ignore (h : Builds text p q idle) : Builds text p (ignore q) idle := by
  refine h.ignore_right.imp ?_
  rintro i j n u - - ⟨a, m, hm, hidle⟩
  exact ⟨m, hm, hidle⟩

lemma matches_token (rule : String) (measure : List Char → Option ℕ) :
    Matches text (token rule measure) (lexeme measure) fun _ _ _ _ => True :=
  (Matches.lexeme text measure).map_left.located_left.map_left.imp fun _ _ _ _ _ _ _ => trivial

lemma builds_token {V : Shows (List Char)} (rule : String) (measure : List Char → Option ℕ)
    (hact : Acts text rule (fun i j a made => made = [] ∧ a = (text.drop i).take (j - i) ∧
      ∃ n, measure (text.drop i) = some n ∧ a = (text.drop i).take n) V) :
    Builds text (token rule measure) (lexeme measure) V := by
  refine BuildsRow.piece (((Matches.lexeme text measure).map_left).imp ?_) hact
  rintro i j ns a - - ⟨u, hword, rfl⟩
  exact ⟨[], .nil, rfl, hword⟩

lemma acts_plain {rule : String} (hrule : Plain rule) {W : ℕ → ℕ → α → List Made → Prop}
    (hW : ∀ i j a made, W i j a made → ∀ m ∈ made, m.1 = none) : Acts text rule W idle := by
  intro i j a made ns _ _ h
  refine ⟨none, _, hrule _ _ _ _ _, ?_⟩
  rw [idle, Option.or_none, List.findSome?_eq_none_iff]
  exact hW i j a made h

lemma builds_idle_token {rule : String} (hrule : Plain rule) (measure : List Char → Option ℕ) :
    Builds text (token rule measure) (lexeme measure) idle := by
  refine builds_token rule measure (acts_plain hrule ?_)
  rintro i j a made ⟨rfl, -⟩
  simp

lemma Builds.idle_choice {rule : String} {ps : List (Rule Piece)} (hrule : Plain rule)
    (h : Builds text (firstOf ps) q idle) : Builds text (Pieces.choice rule ps) q idle := by
  refine h.choice (acts_plain hrule ?_)
  rintro i j a made ⟨m, hm, rfl⟩
  exact List.forall_mem_singleton.2 hm

lemma Builds.idle_repeated {rule : String} (hrule : Plain rule) (h : Builds text p q idle) :
    Builds text (Pieces.repeated rule p) (Rule.many q) idle := by
  refine Builds.repeated h (acts_plain hrule fun _ _ as made hall => ?_)
  induction hall with
  | nil => simp
  | cons hm _ ih => exact List.forall_mem_cons.2 ⟨hm, ih⟩

lemma builds_sign (s : String) : Builds text (Pieces.sign s) (sign s) idle :=
  (builds_idle_token (fun _ _ _ _ _ => rfl) _).ignore

lemma builds_keyword (w : String) (hw : Plain ("kw_" ++ w)) :
    Builds text (keyword w) (word w) idle :=
  (builds_idle_token hw _).ignore

lemma lexeme_orElse (f g : List Char → Option ℕ) :
    (lexeme f <|> lexeme g) = lexeme fun cs => (f cs).or (g cs) := by
  funext c
  change Rule.orElse (lexeme f) (lexeme g) c = _
  unfold Rule.orElse lexeme
  cases hf : f c.rest <;> simp [hf]

lemma comment?_eq : Lexeme.comment? =
    fun cs => (Lexeme.lineComment? cs).or (Lexeme.blockComment? cs) := by
  funext cs
  unfold Lexeme.lineComment? Lexeme.blockComment? Lexeme.comment?
  split <;> grind

lemma builds_comment : Builds text Pieces.comment comment idle := by
  rw [comment, comment?_eq, ← lexeme_orElse]
  refine (Builds.idle_choice (fun _ _ _ _ _ => rfl) ?_).ignore
  exact .firstOf_cons (builds_idle_token (fun _ _ _ _ _ => rfl) _)
    (.firstOf_last (builds_idle_token (fun _ _ _ _ _ => rfl) _))

lemma builds_gap : Builds text Pieces.gap gap idle := by
  have hblanks : Builds text whitespace blanks idle :=
    (builds_idle_token (fun _ _ _ _ _ => rfl) _).ignore
  have hparts : Builds text (Pieces.choice "" [whitespace, Pieces.comment])
      (blanks <|> comment) idle :=
    .idle_choice (fun _ _ _ _ _ => rfl) (hblanks.firstOf_cons builds_comment.firstOf_last)
  exact (hparts.idle_repeated fun _ _ _ _ _ => rfl).ignore

lemma Builds.notHere {V : Shows α} (h : Builds text p q V) :
    Builds text (notHere p) (absent q) fun i j u m => i = j ∧ idle i j u m := by
  have hrow : BuildsRow text (do absent p; return []) (absent q) fun i j _ made =>
      i = j ∧ made = [] := by
    refine (Matches.absent h).map_left.imp ?_
    rintro i j ns u - - ⟨-, hij, rfl⟩
    exact ⟨[], .nil, hij, rfl⟩
  refine hrow.piece ?_
  rintro i j u made ns - - ⟨rfl, rfl⟩
  exact ⟨none, _, rfl, rfl, rfl⟩

/-! ### Names and literals -/

def asText : Shows String := fun _ _ s m => m = (none, .text s)

/-- A direct rule that goes on from its value. -/
lemma Builds.map {f : α → β} {V : Shows β} (h : Builds text p q fun i j a => V i j (f a)) :
    Builds text p (q >>= fun a => pure (f a)) V := by
  refine h.map_right.imp ?_
  rintro i j n b - - ⟨a, ⟨m, hm, hV⟩, rfl⟩
  exact ⟨m, hm, hV⟩

lemma text_ofText : (Builder.ofText text).text = text := rfl

lemma slice_ofText {i j : ℕ} :
    (Builder.ofText text).slice i j = (text.drop i).take (j - i) := by
  simp [Builder.slice, Builder.ofText]

lemma builds_typeName : Builds text Pieces.typeName typeName asText := by
  refine Builds.map (builds_token _ _ ?_)
  rintro i j a made ns - - ⟨rfl, ha, -⟩
  refine ⟨none, _, rfl, ?_⟩
  rw [ha, ← slice_ofText]
  rfl

/-- A name is a word that no keyword stands at the start of. -/
lemma lexeme_name? : lexeme Lexeme.name? =
    (absent (lexeme Lexeme.keyword?) >>= fun _ => lexeme Lexeme.identifier?) := by
  funext c
  change _ = Rule.andThen (absent (lexeme Lexeme.keyword?)) _ c
  unfold Rule.andThen absent lexeme Lexeme.name? Lexeme.identifier?
  cases Lexeme.keyword? c.rest with
  | none => rfl
  | some n => rfl

lemma builds_identifier : Builds text identifier (lexeme Lexeme.name?) fun i j a m =>
    asText i j (String.ofList a) m := by
  have hreserved : Builds text reserved (lexeme Lexeme.keyword?) idle :=
    builds_idle_token (fun _ _ _ _ _ => rfl) _
  have hword : Builds text (token "" Lexeme.identifier?) (lexeme Lexeme.identifier?)
      fun i j a m => m.1 = none ∧ a = (text.drop i).take (j - i) := by
    refine builds_token _ _ ?_
    rintro i j a made ns - - ⟨rfl, ha, -⟩
    exact ⟨none, _, rfl, rfl, ha⟩
  rw [lexeme_name?]
  refine (hreserved.notHere.cons fun _ => hword.last).piece ?_
  rintro i j a made ns - - ⟨_, ⟨_, v⟩, ms, k, ⟨rfl, rfl⟩, ⟨⟨_, w⟩, ⟨rfl, ha⟩, rfl⟩, rfl⟩
  refine ⟨none, _, rfl, ?_⟩
  rw [ha, ← slice_ofText]
  rfl

lemma builds_name : Builds text identifier name asText := builds_identifier.map

/-- The fault of the first whole number in a tree that has too many digits. -/
def fault? (text : List Char) (t : Tree) : Option BuildFault :=
  (t.walk.findSome? (longInteger? text)).map fun found =>
    .longInteger (String.ofList found.1) found.2

/-- A tree has the first fault of its parts, unless it is a number itself. -/
lemma fault?_eq {t : Tree} (h : longInteger? text t = none) :
    fault? text t = t.children.findSome? (fault? text) := by
  have hall (ts : List Tree) : ((ts.flatMap Node.walk).findSome? (longInteger? text)).map
      (fun found => BuildFault.longInteger (String.ofList found.1) found.2) =
        ts.findSome? (fault? text) := by
    induction ts with
    | nil => rfl
    | cons t ts ih =>
      rw [List.flatMap_cons, List.findSome?_append, List.findSome?_cons, ← ih, fault?]
      cases t.walk.findSome? (longInteger? text) <;> rfl
  rw [fault?, Node.walk_eq, List.findSome?_cons, h]
  exact hall t.children

def asTree (text : List Char) (t : Tree) (m : Made) : Prop := m = (fault? text t, .tree t)

/-- A tree is made, and its first fault is the first one among the parts. -/
lemma acts_tree {t : Tree} {made : List Made} {result : Except BuildFault Built}
    (hact : result = .ok (.tree t)) (hfault : made.findSome? Prod.fst = fault? text t) :
    ∃ fault v, result = BuildFault.orValue fault v ∧
      asTree text t ((made.findSome? Prod.fst).or fault, v) :=
  ⟨none, .tree t, hact, by rw [asTree, hfault, Option.or_none]⟩

lemma acts_node {t : Tree} {made : List Made} {result : Except BuildFault Built}
    (hact : result = .ok (.tree t)) (ht : longInteger? text t = none)
    (hfault : made.findSome? Prod.fst = t.children.findSome? (fault? text)) :
    ∃ fault v, result = BuildFault.orValue fault v ∧
      asTree text t ((made.findSome? Prod.fst).or fault, v) :=
  acts_tree hact (hfault.trans (fault?_eq ht).symm)

lemma builds_leaf {rule : String} {measure : List Char → Option ℕ}
    {meaning : List Char → Option Span → Tree}
    (hact : ∀ (i j : ℕ) ns, i ≤ j → j ≤ text.length →
      let t := meaning ((text.drop i).take (j - i))
        (some ⟨.ofIndex text i, .ofIndex text j⟩)
      (Builder.ofText text).act (.mk rule i j ns) [] =
        BuildFault.orValue (fault? text t) (.tree t)) :
    Builds text (token rule measure) (leaf measure meaning) fun _ _ => asTree text := by
  refine Builds.located (f := fun r => meaning r.1 (some r.2)) (builds_token rule measure ?_)
  rintro i j a made ns hij hj ⟨rfl, rfl, -⟩
  exact ⟨_, _, hact i j ns hij hj, rfl⟩

lemma builds_float : Builds text Pieces.floatLiteral floatLiteral fun _ _ => asTree text :=
  builds_leaf fun i j ns _ _ => by
    rw [← slice_ofText]
    rfl

lemma builds_string : Builds text Pieces.stringLiteral stringLiteral fun _ _ => asTree text :=
  builds_leaf fun i j ns _ _ => by
    rw [← slice_ofText]
    rfl

lemma builds_boolean : Builds text Pieces.booleanLiteral booleanLiteral fun _ _ => asTree text :=
  builds_leaf fun i j ns _ _ => by
    rw [← slice_ofText]
    rfl

/-- The word of a whole number is found again through the range of its node. -/
lemma longInteger?_word {i j : ℕ} (hij : i ≤ j) (hj : j ≤ text.length) (v : ℤ) :
    let word := (text.drop i).take (j - i)
    longInteger? text (.literal (.int v) (some ⟨.ofIndex text i, .ofIndex text j⟩)) =
      if Reading.maxDigits < word.length - Lexeme.minusCount word then
        some (word, word.length - Lexeme.minusCount word) else none := by
  have hlength : ((text.drop i).take (j - i)).length = j - i := by
    rw [List.length_take, List.length_drop]
    omega
  have hslice : slice text ⟨.ofIndex text i, .ofIndex text j⟩ = (text.drop i).take (j - i) := by
    rw [← slice_ofText]
    rfl
  have hoffsets : (Position.ofIndex text j).offset - (Position.ofIndex text i).offset =
      (j : ℤ) - i := rfl
  simp only [longInteger?, hslice, hoffsets]
  -- a word with too many digits is too long as a whole
  split_ifs with hspan hlong hlong
  · rfl
  · rfl
  · omega
  · rfl

/-- The number is refused where it is read. -/
lemma builds_integer : Builds text Pieces.integerLiteral integerLiteral fun _ _ => asTree text := by
  refine builds_leaf fun i j ns hij hj => ?_
  dsimp only
  have hact : (Builder.ofText text).act (.mk "integer_lit" i j ns) [] = (do
      return .tree (.literal (.int (← Builder.integer ((Builder.ofText text).slice i j)))
        ((Builder.ofText text).location i j))) := rfl
  rw [hact, slice_ofText, Builder.integer, fault?, Node.walk_eq, List.findSome?_cons,
    longInteger?_word hij hj]
  split_ifs <;> rfl

/-! ### Expressions -/

lemma fault?_binary (op : String) (l r : Tree) (loc : Option Span) :
    fault? text (.binary op l r loc) = (fault? text l).or (fault? text r) := by
  rw [fault?_eq rfl]
  simp [Node.children, findSome?_cons_eq_or]

lemma builds_paren {e : Rule Piece} {e' : Rule Tree}
    (he : Builds text e e' fun _ _ => asTree text) :
    Builds text (Pieces.paren e) (paren e') fun _ _ => asTree text := by
  refine ((builds_sign "(").skip (builds_gap.skip (he.cons fun t =>
    builds_gap.skip ((builds_sign ")").skip (buildsRow_nil t))))).piece ?_
  rintro i j t made ns - - ⟨v₀, _, _, ⟨v₁, _, _, ⟨_, _, _, _, rfl, ⟨v₃, _, _, ⟨v₄, _, _,
    ⟨rfl, rfl⟩, rfl⟩, rfl⟩, rfl⟩, rfl⟩, rfl⟩
  exact acts_tree rfl (by simp [findSome?_cons_eq_or])

lemma builds_variableName : Builds text identifier variableName fun i j t m => ∃ x,
    t = .name x (some ⟨.ofIndex text i, .ofIndex text j⟩) ∧ m = (none, .text x) := by
  refine Builds.located (f := fun r => Node.name (String.ofList r.1) (some r.2)) ?_
  refine builds_identifier.imp ?_
  rintro i j n a - - ⟨m, hm, htext⟩
  exact ⟨m, hm, _, rfl, htext⟩

/-- A primary expression is a tree, or a name that is one only from here on. -/
lemma builds_primary {e : Rule Piece} {e' : Rule Tree}
    (he : Builds text e e' fun _ _ => asTree text) :
    Builds text (Pieces.primary e) (primary e') fun _ _ => asTree text := by
  have htree {p : Rule Piece} {q : Rule Tree} (h : Builds text p q fun _ _ => asTree text) :
      Builds text p q fun i j t m => asTree text t m ∨
        ∃ x, t = .name x (some ⟨.ofIndex text i, .ofIndex text j⟩) ∧ m = (none, .text x) := by
    refine h.imp ?_
    rintro i j n t - - ⟨m, hm, ht⟩
    exact ⟨m, hm, .inl ht⟩
  have hname : Builds text identifier variableName fun i j t m => asTree text t m ∨
      ∃ x, t = .name x (some ⟨.ofIndex text i, .ofIndex text j⟩) ∧ m = (none, .text x) := by
    refine builds_variableName.imp ?_
    rintro i j n t - - ⟨m, hm, ht⟩
    exact ⟨m, hm, .inr ht⟩
  have hparts := (htree (builds_paren he)).firstOf_cons ((htree builds_float).firstOf_cons
    ((htree builds_integer).firstOf_cons ((htree builds_string).firstOf_cons
      ((htree builds_boolean).firstOf_cons hname.firstOf_last))))
  refine hparts.choice ?_
  rintro i j t made ns - - ⟨_, rfl | ⟨x, rfl, rfl⟩, rfl⟩
  · exact acts_tree rfl (by simp [findSome?_cons_eq_or])
  · exact ⟨none, _, rfl, rfl⟩

structure Known (l : Pieces.Level) : Prop where
  operator : ∀ (b : Builder) (i j : ℤ) (ns : List Piece) (vs : List Built),
    b.act (.mk l.operator i j ns) vs = .ok (.text (String.ofList (b.slice i j)))
  tail : ∀ (b : Builder) (i j : ℤ) (ns : List Piece) (v w : Built) (s : String) (t : Tree),
    b.act (.mk l.tail i j ns) [v, .text s, w, .tree t] = .ok (.tail s t)
  fold : ∀ (b : Builder) (i j : ℤ) (ns : List Piece) (t : Tree) (v : Built),
    b.act (.mk l.rule i j ns) [.tree t, v] = (do return .tree (← Builder.fold t v.many))

lemma known_products : Known products := ⟨fun _ _ _ _ _ => rfl, fun _ _ _ _ _ _ _ _ => rfl,
  fun _ _ _ _ _ _ => rfl⟩

lemma known_sums : Known sums := ⟨fun _ _ _ _ _ => rfl, fun _ _ _ _ _ _ _ _ => rfl,
  fun _ _ _ _ _ _ => rfl⟩

lemma known_comparisons : Known comparisons := ⟨fun _ _ _ _ _ => rfl,
  fun _ _ _ _ _ _ _ _ => rfl, fun _ _ _ _ _ _ => rfl⟩

/-- A sign is the text that it is matched at. -/
lemma builds_signText (s : String) : Builds text (Pieces.sign s) (do sign s; return s)
    fun i j s m => m.1 = none ∧ s = String.ofList ((text.drop i).take (j - i)) := by
  have htoken : Builds text (Pieces.sign s) (lexeme (Lexeme.sign? s)) fun i j _ m =>
      m.1 = none ∧ s = String.ofList ((text.drop i).take (j - i)) := by
    refine builds_token _ _ ?_
    rintro i j a made ns - - ⟨rfl, ha, n, hn, hword⟩
    refine ⟨none, _, rfl, rfl, ?_⟩
    unfold Lexeme.sign? at hn
    split_ifs at hn with hstart
    obtain rfl := Option.some.inj hn
    obtain ⟨rest, hrest⟩ := List.isPrefixOf_iff_prefix.1 hstart
    rw [← ha, hword, ← hrest, ← String.length_toList, List.take_left, String.ofList_toList]
  refine htoken.ignore_right.map_right.imp ?_
  rintro i j n b - - ⟨_, ⟨_, m, hm, hidle, hs⟩, rfl⟩
  exact ⟨m, hm, hidle, hs⟩

variable {l : Pieces.Level}

lemma builds_operator (hl : Known l) : Builds text l.anyOperator (operator l.signs) asText := by
  have hsigns (signs : List String) : Builds text (firstOf (signs.map Pieces.sign))
      (operator signs)
      fun i j s m => m.1 = none ∧ s = String.ofList ((text.drop i).take (j - i)) := by
    induction signs with
    | nil => exact fun i hi => .reject rfl rfl
    | cons s signs ih => exact (builds_signText s).firstOf_cons ih
  refine (hsigns l.signs).choice ?_
  rintro i j s made ns - - ⟨⟨_, v⟩, ⟨rfl, hs⟩, rfl⟩
  refine ⟨none, _, hl.operator _ _ _ _ _, ?_⟩
  rw [hs, ← slice_ofText]
  rfl

def asTail (text : List Char) (t : String × Tree) (m : Made) : Prop :=
  m = (fault? text t.2, .tail t.1 t.2)

lemma builds_tail (hl : Known l) {o : Rule Piece} {o' : Rule Tree}
    (ho : Builds text o o' fun _ _ => asTree text) :
    Builds text (l.anyTail o) (tail l.signs o') fun _ _ => asTail text := by
  refine (builds_gap.skip ((builds_operator hl).cons fun s =>
    builds_gap.skip (ho.cons fun t => buildsRow_nil (s, t)))).piece ?_
  rintro i j _ made ns - -
    ⟨v, _, _, ⟨s, _, _, _, rfl, ⟨w, _, _, ⟨t, _, _, _, rfl, ⟨rfl, rfl⟩, rfl⟩, rfl⟩, rfl⟩, rfl⟩
  refine ⟨none, .tail s t, hl.tail _ _ _ _ _ _ _ _, ?_⟩
  simp [asTail, findSome?_cons_eq_or]

/-- The tails of an operation, which are no list if there are none. -/
def asTails (text : List Char) (ts : List (String × Tree)) (m : Made) : Prop :=
  m.1 = ts.findSome? (fun t => fault? text t.2) ∧ m.2.many = ts.map fun t => .tail t.1 t.2

lemma builds_tails {p : Rule Piece} {q : Rule (String × Tree)}
    (h : Builds text p q fun _ _ => asTail text) :
    Builds text (repeated "" p) (Rule.many q) fun _ _ => asTails text := by
  refine Builds.repeated h ?_
  intro i j ts made ns _ _ hall
  have hmade : made = ts.map fun t => (fault? text t.2, .tail t.1 t.2) := by
    induction hall with
    | nil => rfl
    | cons hm _ ih => rw [hm, ih, List.map_cons]
  subst hmade
  refine ⟨none, _, rfl, ?_, ?_⟩
  · simp [List.findSome?_map, Function.comp_def]
  · cases ts with
    | nil => rfl
    | cons t ts => simp [Built.many]

lemma fold_tails (first : Tree) (ts : List (String × Tree)) :
    Builder.fold first (ts.map fun t => .tail t.1 t.2) = .ok (foldLeft first ts) := by
  induction ts generalizing first with
  | nil => rfl
  | cons t ts ih => exact ih _

lemma fault?_foldLeft (first : Tree) (ts : List (String × Tree)) : fault? text (foldLeft first ts) =
    (fault? text first).or (ts.findSome? fun t => fault? text t.2) := by
  induction ts generalizing first with
  | nil => simp [foldLeft]
  | cons t ts ih =>
    rw [findSome?_cons_eq_or, ← Option.or_assoc,
      ← fault?_binary t.1 first t.2 (Builder.joined first t.2)]
    exact ih _

lemma builds_level (hl : Known l) {o : Rule Piece} {o' : Rule Tree}
    (ho : Builds text o o' fun _ _ => asTree text) :
    Builds text (l.operation o) (level l.signs o') fun _ _ => asTree text := by
  refine (ho.cons fun first => (builds_tails (builds_tail hl ho)).cons fun ts =>
    buildsRow_nil (foldLeft first ts)).piece ?_
  rintro i j _ made ns - -
    ⟨first, _, _, _, rfl, ⟨ts, ⟨fault, v⟩, _, _, ⟨hfault, hmany⟩, ⟨rfl, rfl⟩, rfl⟩, rfl⟩
  obtain rfl : fault = _ := hfault
  refine acts_tree ?_ (by simp [findSome?_cons_eq_or, fault?_foldLeft])
  refine (hl.fold _ _ _ _ _ _).trans ?_
  rw [show v.many = _ from hmany, fold_tails]
  rfl

lemma builds_expression (depth : ℕ) :
    Builds text (Pieces.expression depth) (expression depth) fun _ _ => asTree text := by
  induction depth with
  | zero => exact .giveUp
  | succ depth ih =>
    exact builds_level known_comparisons (builds_level known_sums (builds_level known_products
      (builds_primary ih)))

end Grammar

end Primer
