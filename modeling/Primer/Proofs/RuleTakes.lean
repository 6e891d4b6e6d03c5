import Mathlib.Tactic
import Primer.Proofs.DirectRules

/-!
What a rule does where a known piece of a text stands.

`Takes text p cs rest Q` says that the rule accepts `cs`, with a value in `Q`, wherever the text
goes on with `cs` and then ends with `rest`. `Rejects text p rest` says that the rule rejects
wherever the text ends with `rest`. For the ways to build a rule there are lemmas for each of the
two, so a rule of the grammar is followed through a text one part after another.
-/

namespace Primer

/-- The cursor behind the first `i` characters of a text. -/
def Cursor.within (text : List Char) (i : ℕ) : Cursor :=
  ⟨text.drop i, Position.initial.advance (text.take i)⟩

lemma Cursor.ofText_eq_within (text : List Char) : Cursor.ofText text = .within text 0 := by
  simp [Cursor.ofText, Cursor.within]

lemma Cursor.skip_within (text : List Char) (i n : ℕ) :
    (Cursor.within text i).skip n = Cursor.within text (i + n) := by
  simp [Cursor.skip, Cursor.within, ← Position.advance_append, List.take_add, List.drop_drop]

lemma Position.offset_advance (p : Position) (cs : List Char) :
    (p.advance cs).offset = p.offset + cs.length := by
  induction cs generalizing p with
  | nil => simp
  | cons c cs ih =>
    have hstep : (p.step c).offset = p.offset + 1 := by
      unfold Position.step
      split <;> rfl
    rw [Position.advance_cons, ih, hstep, List.length_cons]
    omega

lemma Position.offset_initial_advance (cs : List Char) :
    (initial.advance cs).offset = cs.length := by
  simp [offset_advance, initial]

lemma Cursor.offset_within (text : List Char) (i : ℕ) :
    (Cursor.within text i).pos.offset = (min i text.length : ℕ) := by
  simp [Cursor.within, Position.offset_advance, Position.initial]

namespace Rule

variable {α β : Type} {text cs ds rest : List Char} {p q : Rule α} {Q : α → Prop}

/-- Where `cs` and the end `rest` of the text stand, the rule accepts `cs` with a value in `Q`. -/
def Takes (text : List Char) (p : Rule α) (cs rest : List Char) (Q : α → Prop) : Prop :=
  ∀ i, text.drop i = cs ++ rest →
    ∃ a, p (.within text i) = .accept a (.within text (i + cs.length)) ∧ Q a

def Rejects (text : List Char) (p : Rule α) (rest : List Char) : Prop :=
  ∀ i, text.drop i = rest → p (.within text i) = .reject

lemma drop_add_length {i : ℕ} (h : text.drop i = cs ++ rest) :
    text.drop (i + cs.length) = rest := by
  rw [← List.drop_drop, h, List.drop_left]

lemma manyWithin_accept {a : α} {c c' : Cursor} (h : p c = .accept a c') (x : Char)
    (bound : List Char) : manyWithin p (x :: bound) c = (manyWithin p bound c').map (a :: ·) := by
  simp only [manyWithin, h]

lemma manyWithin_reject {c : Cursor} (h : p c = .reject) (bound : List Char) :
    manyWithin p bound c = .accept [] c := by
  cases bound with
  | nil => rfl
  | cons x bound => simp only [manyWithin, h]

lemma length_le_flatMap {γ : Type} {pieces : List γ} {spell : γ → List Char}
    (h : ∀ b ∈ pieces, spell b ≠ []) : pieces.length ≤ (pieces.flatMap spell).length := by
  induction pieces with
  | nil => simp
  | cons b bs ih =>
    have hb := List.length_pos_iff.2 (h b (by simp))
    have := ih fun c hc => h c (by simp [hc])
    simp only [List.flatMap_cons, List.length_append, List.length_cons]
    omega

namespace Takes

lemma pure {a : α} (h : Q a) : Takes text (Pure.pure a) [] rest Q :=
  fun _ _ => ⟨a, rfl, h⟩

lemma bind {f : α → Rule β} {R : β → Prop} (hp : Takes text p cs (ds ++ rest) Q)
    (hf : ∀ a, Q a → Takes text (f a) ds rest R) : Takes text (p >>= f) (cs ++ ds) rest R := by
  intro i hi
  rw [List.append_assoc] at hi
  obtain ⟨a, ha, hQ⟩ := hp i hi
  obtain ⟨b, hb, hR⟩ := hf a hQ _ (drop_add_length hi)
  refine ⟨b, ?_, hR⟩
  change Rule.andThen p f _ = _
  rw [Rule.andThen, ha, List.length_append, ← Nat.add_assoc]
  exact hb

/-- A first step that takes a known piece of the text leaves the second one behind it. -/
lemma bind_within {x : Rule Unit} {f : Unit → Rule β} {i : ℕ}
    (hx : Takes text x cs rest (fun _ => True)) (hi : text.drop i = cs ++ rest) :
    (x >>= f) (.within text i) = f () (.within text (i + cs.length)) := by
  obtain ⟨_, haccept, -⟩ := hx i hi
  change Rule.andThen x f _ = _
  rw [Rule.andThen, haccept]

/-- A last step that takes nothing more. -/
lemma map {f : α → Rule β} {R : β → Prop} (hp : Takes text p cs rest Q)
    (hf : ∀ a, Q a → Takes text (f a) [] rest R) : Takes text (p >>= f) cs rest R := by
  have h : Takes text (p >>= f) (cs ++ []) rest R := bind hp hf
  rwa [List.append_nil] at h

lemma orElse_left (hp : Takes text p cs rest Q) : Takes text (p <|> q) cs rest Q := by
  intro i hi
  obtain ⟨a, ha, hQ⟩ := hp i hi
  refine ⟨a, ?_, hQ⟩
  change Rule.orElse p q _ = _
  rw [Rule.orElse, ha]

lemma orElse_right (hp : Rejects text p (cs ++ rest)) (hq : Takes text q cs rest Q) :
    Takes text (p <|> q) cs rest Q := by
  intro i hi
  obtain ⟨a, ha, hQ⟩ := hq i hi
  refine ⟨a, ?_, hQ⟩
  change Rule.orElse p q _ = _
  rw [Rule.orElse, hp i hi]
  exact ha

lemma optional (hp : Takes text p cs rest Q) :
    Takes text (Rule.optional p) cs rest (fun o => ∃ a, o = some a ∧ Q a) := by
  intro i hi
  obtain ⟨a, ha, hQ⟩ := hp i hi
  exact ⟨some a, by rw [Rule.optional, ha], a, rfl, hQ⟩

lemma optional_none (hp : Rejects text p rest) :
    Takes text (Rule.optional p) [] rest (· = none) := by
  intro i hi
  exact ⟨none, by rw [Rule.optional, hp i hi]; rfl, rfl⟩

lemma absent (hp : Rejects text p rest) : Takes text (Rule.absent p) [] rest (fun _ => True) := by
  intro i hi
  exact ⟨(), by rw [Rule.absent, hp i hi]; rfl, trivial⟩

lemma ignore (hp : Takes text p cs rest Q) :
    Takes text (Rule.ignore p) cs rest (fun _ => True) := by
  intro i hi
  obtain ⟨a, ha, -⟩ := hp i hi
  exact ⟨(), by rw [Rule.ignore, ha]; rfl, trivial⟩

lemma lexeme {measure : List Char → Option ℕ} (h : measure (cs ++ rest) = some cs.length) :
    Takes text (Rule.lexeme measure) cs rest (· = cs) := by
  intro i hi
  refine ⟨cs, ?_, rfl⟩
  have hrest : (Cursor.within text i).rest = cs ++ rest := hi
  rw [Rule.lexeme, hrest, h, ← Cursor.skip_within]
  simp

/-- A row of pieces that the rule takes one after another, up to an end that it rejects. -/
lemma manyWithin {γ : Type} {pieces : List γ} {spell : γ → List Char} {R : γ → α → Prop}
    (hp : ∀ l b r, pieces = l ++ b :: r →
      Takes text p (spell b) (r.flatMap spell ++ rest) (R b)) (hend : Rejects text p rest)
    {bound : List Char} (hbound : pieces.length ≤ bound.length) :
    Takes text (Rule.manyWithin p bound) (pieces.flatMap spell) rest
      (List.Forall₂ R pieces) := by
  intro i hi
  induction pieces generalizing i bound with
  | nil => exact ⟨[], manyWithin_reject (hend i (by simpa using hi)) bound, .nil⟩
  | cons b bs ih =>
    cases bound with
    | nil => simp at hbound
    | cons x bound =>
      rw [List.flatMap_cons, List.append_assoc] at hi
      obtain ⟨a, ha, hR⟩ := hp [] b bs rfl i hi
      have hrow : ∀ l d r, bs = l ++ d :: r →
          Takes text p (spell d) (r.flatMap spell ++ rest) (R d) :=
        fun l d r h => hp (b :: l) d r (by rw [h]; rfl)
      obtain ⟨as, has, hRs⟩ := ih hrow (by simpa using hbound) _ (drop_add_length hi)
      refine ⟨a :: as, ?_, .cons hR hRs⟩
      rw [manyWithin_accept ha, has, List.flatMap_cons, List.length_append, ← Nat.add_assoc]
      rfl

lemma many {γ : Type} {pieces : List γ} {spell : γ → List Char} {R : γ → α → Prop}
    (hne : ∀ b ∈ pieces, spell b ≠ []) (hp : ∀ l b r, pieces = l ++ b :: r →
      Takes text p (spell b) (r.flatMap spell ++ rest) (R b)) (hend : Rejects text p rest) :
    Takes text (Rule.many p) (pieces.flatMap spell) rest (List.Forall₂ R pieces) := by
  intro i hi
  have hbound : pieces.length ≤ (text.drop i).length := by
    have := length_le_flatMap hne
    rw [hi, List.length_append]
    omega
  exact manyWithin hp hend hbound i hi

end Takes

namespace Rejects

lemma lexeme {measure : List Char → Option ℕ} (h : measure rest = none) :
    Rejects text (Rule.lexeme measure) rest := by
  intro i hi
  have hrest : (Cursor.within text i).rest = rest := hi
  rw [Rule.lexeme, hrest, h]

lemma ignore (hp : Rejects text p rest) : Rejects text (Rule.ignore p) rest := by
  intro i hi
  rw [Rule.ignore, hp i hi]
  rfl

lemma located (hp : Rejects text p rest) : Rejects text (Rule.located p) rest := by
  intro i hi
  rw [Rule.located, hp i hi]

lemma bind {f : α → Rule β} (hp : Rejects text p rest) : Rejects text (p >>= f) rest := by
  intro i hi
  change Rule.andThen p f _ = _
  rw [Rule.andThen, hp i hi]

lemma after {f : α → Rule β} (hp : Takes text p cs rest Q)
    (hf : ∀ a, Q a → Rejects text (f a) rest) : Rejects text (p >>= f) (cs ++ rest) := by
  intro i hi
  obtain ⟨a, ha, hQ⟩ := hp i hi
  change Rule.andThen p f _ = _
  rw [Rule.andThen, ha]
  exact hf a hQ _ (drop_add_length hi)

/-- A first step that takes nothing. -/
lemma after_nil {f : α → Rule β} (hp : Takes text p [] rest Q)
    (hf : ∀ a, Q a → Rejects text (f a) rest) : Rejects text (p >>= f) rest :=
  after hp hf

lemma orElse (hp : Rejects text p rest) (hq : Rejects text q rest) :
    Rejects text (p <|> q) rest := by
  intro i hi
  change Rule.orElse p q _ = _
  rw [Rule.orElse, hp i hi]
  exact hq i hi

end Rejects

end Rule

end Primer
