import Mathlib.Tactic
import Primer.Proofs.TextShapes

/-!
Trees with other places.

A tree whose places are changed has the same nodes. If the change carries the positions of one piece
of text to those of the same text elsewhere, the tree that is written there is the changed one: a
shape does not depend on where its text stands. What the change does to positions outside the text
does not matter.
-/

namespace Primer

def Span.map (f : Position → Position) (s : Span) : Span := ⟨f s.start, f s.stop⟩

namespace Node

variable {α : Type} {f : Position → Position}

mutual

def relocate (f : Position → Position) : Node α → Node α
  | .literal v loc => .literal v (loc.map (.map f))
  | .name x loc => .name x (loc.map (.map f))
  | .binary op l r loc => .binary op (l.relocate f) (r.relocate f) (loc.map (.map f))
  | .declare t x none loc => .declare t x none (loc.map (.map f))
  | .declare t x (some v) loc => .declare t x (some (v.relocate f)) (loc.map (.map f))
  | .assign x v loc => .assign x (v.relocate f) (loc.map (.map f))
  | .branch c b none loc => .branch (c.relocate f) (b.relocate f) none (loc.map (.map f))
  | .branch c b (some e) loc =>
    .branch (c.relocate f) (b.relocate f) (some (e.relocate f)) (loc.map (.map f))
  | .whileLoop c b loc => .whileLoop (c.relocate f) (b.relocate f) (loc.map (.map f))
  | .forLoop b loc => .forLoop (b.relocate f) (loc.map (.map f))
  | .ret none loc => .ret none (loc.map (.map f))
  | .ret (some v) loc => .ret (some (v.relocate f)) (loc.map (.map f))
  | .block ns loc => .block (relocateAll f ns) (loc.map (.map f))
  | .program ns loc => .program (relocateAll f ns) (loc.map (.map f))

def relocateAll (f : Position → Position) : List (Node α) → List (Node α)
  | [] => []
  | n :: ns => n.relocate f :: relocateAll f ns

end

lemma relocateAll_eq_map (ns : List (Node α)) : relocateAll f ns = ns.map (relocate f) := by
  induction ns with
  | nil => rfl
  | cons n ns ih => rw [relocateAll, ih, List.map_cons]

lemma location_relocate (n : Node α) : (n.relocate f).location = n.location.map (.map f) := by
  cases n with
  | declare t x v => cases v <;> rfl
  | branch c b e => cases e <;> rfl
  | ret v => cases v <;> rfl
  | _ => rfl

lemma children_relocate (n : Node α) : (n.relocate f).children = n.children.map (relocate f) := by
  cases n with
  | declare t x v => cases v <;> rfl
  | branch c b e => cases e <;> rfl
  | ret v => cases v <;> rfl
  | block ns | program ns => exact relocateAll_eq_map ns
  | _ => rfl

lemma walk_relocate (n : Node α) : (n.relocate f).walk = n.walk.map (relocate f) := by
  induction n using childInduction with
  | step n ih =>
    rw [walk_eq, walk_eq, children_relocate, List.map_cons, List.map_flatMap, List.flatMap_map]
    simp only [List.flatMap_def, List.map_congr_left ih]

lemma bare_relocate (n : Node α) : (n.relocate f).bare = n.bare := by
  have all {ns : List (Node α)} (ih : ∀ n ∈ ns, (n.relocate f).bare = n.bare) :
      bareAll (relocateAll f ns) = bareAll ns := by
    induction ns with
    | nil => rfl
    | cons n ns ihs =>
      rw [relocateAll, bareAll, bareAll, ih n (by simp), ihs fun m hm => ih m (by simp [hm])]
  induction n using Node.induction with
  | literal v => rfl
  | name x => rfl
  | binary op l r loc hl hr => simp [relocate, bare, hl, hr]
  | declare t x v loc hv => cases v <;> simp [relocate, bare, hv]
  | assign x v loc hv => simp [relocate, bare, hv]
  | branch c b e loc hc hb he => cases e <;> simp [relocate, bare, hc, hb, he]
  | whileLoop c b loc hc hb => simp [relocate, bare, hc, hb]
  | forLoop b loc hb => simp [relocate, bare, hb]
  | ret v loc hv => cases v <;> simp [relocate, bare, hv]
  | block ns loc ih => simp [relocate, bare, all ih]
  | program ns loc ih => simp [relocate, bare, all ih]

lemma height_relocate (n : Node α) : (n.relocate f).height = n.height := by
  rw [← height_bare, bare_relocate, height_bare]

lemma endsOpen_relocate (n : Tree) : (n.relocate f).EndsOpen ↔ n.EndsOpen := by
  rw [← endsOpen_bare, bare_relocate, endsOpen_bare]

end Node

namespace Grammar

open Lexeme Text

variable {f : Position → Position} {p p' : Position} {us u a b : List Char} {ss : List String}
  {X S : Shape} {d : ℕ} {w : String} {ns : List Tree} {e n : Tree}

lemma joined_relocate (l r : Tree) :
    Builder.joined (l.relocate f) (r.relocate f) = (Builder.joined l r).map (.map f) := by
  simp only [Builder.joined, Node.location_relocate]
  cases l.location <;> cases r.location <;> rfl

/-- `f` carries the positions of a text at `p` to those of the text at `p'`. -/
def Carries (f : Position → Position) (p p' : Position) (us : List Char) : Prop :=
  ∀ ws, ws <+: us → f (p.advance ws) = p'.advance ws

lemma Carries.over (h : Carries f p p' us) : (Span.over p us).map f = .over p' us := by
  have hstart := h [] List.nil_prefix
  have hstop := h us List.prefix_rfl
  simpa [Span.map, Span.over] using And.intro hstart hstop

lemma Carries.piece (a b : List Char) (h : Carries f p p' us) (hus : us = a ++ (u ++ b)) :
    Carries f (p.advance a) (p'.advance a) u := by
  rintro ws ⟨r, rfl⟩
  rw [← Position.advance_append, ← Position.advance_append]
  exact h _ ⟨r ++ b, by simp [hus]⟩

/-! ### Shapes elsewhere -/

/-- What is written at one position is written at another, with the places carried there. -/
def Relocates (f : Position → Position) (X : Shape) : Prop :=
  ∀ ⦃p us e⦄, X p us e → ∀ ⦃p'⦄, Carries f p p' us → X p' us (e.relocate f)

lemma relocates_operand (hX : Relocates f X) : Relocates f (OperandAt X) := by
  intro p us e h p' hc
  cases h with
  | literal h =>
    rw [Node.relocate, Option.map_some, hc.over]
    exact .literal h
  | name h =>
    rw [Node.relocate, Option.map_some, hc.over]
    exact .name h
  | @paren g us k e hg he hk =>
    exact .paren hg (hX he (hc.piece ("(".toList ++ g) (k ++ ")".toList) (by simp))) hk

lemma relocates_level (hX : Relocates f X) : Relocates f (LevelAt ss X) := by
  intro p us e h p' hc
  induction h with
  | first h => exact .first (hX h hc)
  | @more us g k vs op l r hl hg hop hk hslash hr ih =>
    have hl' := ih (hc.piece [] (g ++ (op.toList ++ (k ++ vs))) (by simp))
    have hr' := hX hr (hc.piece (us ++ (g ++ (op.toList ++ k))) [] (by simp))
    rw [Node.relocate, ← joined_relocate]
    exact .more hl' hg hop hk hslash hr'

lemma relocates_expr (d : ℕ) : Relocates f (ExprAt d) := by
  induction d with
  | zero => exact fun _ _ _ h => h.elim
  | succ d ih => exact relocates_level (relocates_level (relocates_level (relocates_operand ih)))

lemma guardAt_relocate (hX : Relocates f X) (hS : Relocates f S) (h : GuardAt w X S p us e n)
    (hc : Carries f p p' us) : GuardAt w X S p' us (e.relocate f) (n.relocate f) := by
  cases h with
  | @mk g₁ g₂ us g₃ g₄ vs e n hg₁ hg₂ he hg₃ hg₄ hn =>
    have he' := hX he (hc.piece _ (g₃ ++ (")".toList ++ (g₄ ++ vs))) (by simp))
    have hn' := hS hn (hc.piece _ [] (by simp))
    exact .mk hg₁ hg₂ he' hg₃ hg₄ hn'

lemma rowAt_relocate (hS : Relocates f S) (h : RowAt S p us ns) (hc : Carries f p p' us) :
    RowAt S p' us (ns.map (.relocate f)) := by
  induction h generalizing p' with
  | nil => exact .nil
  | @cons p g us vs n ns hg hn _ ih =>
    have htail := hc.piece (u := vs) (g ++ us) [] (by simp)
    exact .cons hg (hS hn (hc.piece g vs rfl)) (ih htail)

lemma bracedAt_relocate (hS : Relocates f S) (h : BracedAt S p us ns) (hc : Carries f p p' us) :
    BracedAt S p' us (ns.map (.relocate f)) := by
  obtain ⟨h, hg⟩ := h
  exact .mk (rowAt_relocate hS h (hc.piece _ _ rfl)) hg

lemma relocates_stmtForm (hS : Relocates f S) : Relocates f (StmtForm d S) := by
  intro p us n h p' hc
  have hX : Relocates f (ExprAt d) := relocates_expr d
  have hover := hc.over
  cases h with
  | declare ht hg hne hx hk hus =>
    rw [Node.relocate, Option.map_some, hover]
    exact .declare ht hg hne hx hk hus
  | @declareAs g k g' vs k' t x v ht hg hne hx hk hg' hk' hv hus =>
    rw [Node.relocate, Option.map_some, hover]
    exact .declareAs ht hg hne hx hk hg' hk'
      (hX hv (hc.piece _ (k' ++ ";".toList) (by simp [hus]))) hus
  | @assign k g' vs k' x v hx hk hg' hk' hv hus =>
    rw [Node.relocate, Option.map_some, hover]
    exact .assign hx hk hg' hk' (hX hv (hc.piece _ (k' ++ ";".toList) (by simp [hus]))) hus
  | branch h =>
    rw [Node.relocate, Option.map_some, hover]
    exact .branch (guardAt_relocate hX hS h hc)
  | @branchElse vs g k ws e b o h hopen hg hk hend ho hus =>
    rw [Node.relocate, Option.map_some, hover]
    have hguard := guardAt_relocate hX hS h (hc.piece [] _ hus)
    have helse := hS ho (hc.piece _ [] (by simp [hus]))
    exact .branchElse hguard (by rwa [Node.endsOpen_relocate]) hg hk hend helse hus
  | whileLoop h =>
    rw [Node.relocate, Option.map_some, hover]
    exact .whileLoop (guardAt_relocate hX hS h hc)
  | ret hd hg hus =>
    rw [Node.relocate, Option.map_some, hover]
    exact .ret hd hg hus
  | @retValue g vs k v hg hend hv hk hus =>
    rw [Node.relocate, Option.map_some, hover]
    exact .retValue hg hend (hX hv (hc.piece _ (k ++ ";".toList) (by simp [hus]))) hk hus
  | block hd h =>
    rw [Node.relocate, Option.map_some, hover, Node.relocateAll_eq_map]
    exact .block hd (bracedAt_relocate hS h hc)

/-- A statement is written in the same way wherever its text stands. -/
theorem relocates_stmt (d : ℕ) : Relocates f (StmtAt d) := by
  induction d with
  | zero => exact fun _ _ _ h => h.elim
  | succ d ih => exact relocates_stmtForm ih

end Grammar

end Primer
