import Mathlib.Order.Monotone.Basic
import Mathlib.Data.List.GetD
import Mathlib.Data.Prod.Lex
import Primer.Proofs.RuleTakes

/-!
The position of every offset, inside a text and behind its end.

From one offset to the next a position moves over the character that stands there: a line feed leads
to the start of the next line, and anything else, also the missing character behind the end of the
text, one column further. Each of these steps goes forward in the order of lines and columns. So no
two offsets share a line and a column.

The starts of the lines increase, so the search among them ends at the last start that is not behind
the offset. This is where the line of the offset starts, and the search comes to the same position
as the walk.
-/

namespace Primer

namespace Position

variable {text : List Char} {row : List ℕ} {x : ℤ} {o s lo hi : ℕ}

def coordinates (p : Position) : ℤ ×ₗ ℤ := toLex (p.line, p.column)

/-- The line of the offset `o` starts at `s`: at the start of the text or behind a line feed, with
no line feed from there up to the offset. -/
structure LineStart (text : List Char) (o s : ℕ) : Prop where
  le : s ≤ o
  behind : ∀ i, s = i + 1 → text[i]? = some '\n'
  unbroken : ∀ i, s ≤ i → i < o → text[i]? ≠ some '\n'

/-! ### One step -/

def next (p : Position) (c : Option Char) : Position :=
  if c = some '\n' then ⟨p.line + 1, 1, p.offset + 1⟩ else ⟨p.line, p.column + 1, p.offset + 1⟩

lemma next_some (p : Position) (c : Char) : p.next (some c) = p.step c := by
  simp only [next, step, Option.some.injEq]

/-- The position that the characters before an offset lead to. Past the end of the text the last
line goes on. -/
def ofOffset (text : List Char) (offset : ℕ) : Position :=
  let p := initial.advance (text.take offset)
  let beyond : ℤ := (offset - text.length : ℕ)
  ⟨p.line, p.column + beyond, p.offset + beyond⟩

lemma ofOffset_eq_advance (h : o ≤ text.length) :
    ofOffset text o = initial.advance (text.take o) := by
  simp [ofOffset, Nat.sub_eq_zero_of_le h]

lemma ofOffset_zero (text : List Char) : ofOffset text 0 = initial := by
  simp [ofOffset, initial]

lemma ofOffset_succ (text : List Char) (o : ℕ) :
    ofOffset text (o + 1) = (ofOffset text o).next text[o]? := by
  rcases Nat.lt_or_ge o text.length with h | h
  · rw [ofOffset_eq_advance h, ofOffset_eq_advance h.le, List.getElem?_eq_getElem h, next_some,
      List.take_succ_eq_append_getElem h, advance_append, advance_cons, advance_nil]
  · -- behind the end there is nothing to move over, and only the distance grows
    have hbeyond : o + 1 - text.length = o - text.length + 1 := by omega
    rw [List.getElem?_eq_none h]
    simp only [ofOffset, next, List.take_of_length_le h,
      List.take_of_length_le (Nat.le_succ_of_le h), hbeyond, reduceCtorEq, if_false, Nat.cast_add,
      Nat.cast_one, Int.add_assoc]

lemma coordinates_lt_next (p : Position) (c : Option Char) :
    p.coordinates < (p.next c).coordinates := by
  rw [coordinates, coordinates, Prod.Lex.toLex_lt_toLex]
  unfold next
  split
  · exact Or.inl (Int.lt_add_one_of_le le_rfl)
  · exact Or.inr ⟨rfl, Int.lt_add_one_of_le le_rfl⟩

lemma LineStart.succ_of_ne (h : LineStart text o s) (hc : text[o]? ≠ some '\n') :
    LineStart text (o + 1) s := by
  refine ⟨Nat.le_succ_of_le h.le, h.behind, fun i hs hi => ?_⟩
  rcases Nat.lt_succ_iff_lt_or_eq.1 hi with hi | rfl
  · exact h.unbroken i hs hi
  · exact hc

lemma lineStart_succ (hc : text[o]? = some '\n') : LineStart text (o + 1) (o + 1) := by
  refine ⟨le_rfl, fun i hi => ?_, fun i hs hi => absurd hi (Nat.not_lt.2 hs)⟩
  rwa [← Nat.succ.inj hi]

/-! ### All offsets -/

lemma line_advance (cs : List Char) : (initial.advance cs).line = 1 + cs.count '\n' := by
  induction cs using List.reverseRecOn with
  | nil => rfl
  | append_singleton cs c ih =>
    rw [advance_append, advance_cons, advance_nil, step]
    split
    · rename_i hc
      simp only [ih, hc, List.count_append, List.count_singleton_self, Nat.cast_add, Nat.cast_one]
      omega
    · rename_i hc
      simp [ih, List.count_append, hc]

lemma offset_ofOffset (text : List Char) (o : ℕ) : (ofOffset text o).offset = o := by
  simp only [ofOffset, offset_initial_advance, List.length_take]
  omega

lemma line_ofOffset (text : List Char) (o : ℕ) :
    (ofOffset text o).line = 1 + (text.take o).count '\n' := by
  simp only [ofOffset, line_advance]

/-- The column counts from the start of the line. -/
lemma column_ofOffset (text : List Char) (o : ℕ) :
    ∃ s, LineStart text o s ∧ (ofOffset text o).column = o - s + 1 := by
  induction o with
  | zero => exact ⟨0, ⟨le_rfl, by simp, by simp⟩, by simp [ofOffset_zero, initial]⟩
  | succ o ih =>
    obtain ⟨s, hs, hcolumn⟩ := ih
    rw [ofOffset_succ, next]
    split_ifs with hc
    · exact ⟨o + 1, lineStart_succ hc, by simp⟩
    · refine ⟨s, hs.succ_of_ne hc, ?_⟩
      simp only [hcolumn, Nat.cast_add, Nat.cast_one]
      omega

lemma strictMono_coordinates (text : List Char) :
    StrictMono fun o => (ofOffset text o).coordinates := by
  refine strictMono_nat_of_lt_succ fun o => ?_
  rw [ofOffset_succ]
  exact coordinates_lt_next _ _

/-! ### The search -/

/-- The entries before `lo` are at most `x` and those from `hi` on are greater. -/
structure Window (row : List ℕ) (x : ℤ) (lo hi : ℕ) : Prop where
  le : lo ≤ hi
  inside : hi ≤ row.length
  before : ∀ i < lo, (row.getD i 0 : ℤ) ≤ x
  behind : ∀ i, hi ≤ i → i < row.length → x < row.getD i 0

lemma getD_le_getD (hrow : row.SortedLT) {i j : ℕ} (hij : i ≤ j) (hj : j < row.length) :
    row.getD i 0 ≤ row.getD j 0 := by
  rw [List.getD_eq_getElem row 0 hj, List.getD_eq_getElem row 0 (hij.trans_lt hj)]
  exact hrow.sortedLE.getElem_le_getElem_of_le hij

/-- The search narrows its window until nothing is left in it. -/
lemma window_bisectRight (hrow : row.SortedLT) (h : Window row x lo hi) :
    Window row x (bisectRight row x lo hi) (bisectRight row x lo hi) := by
  fun_induction bisectRight row x lo hi with
  | case1 lo hi hlt mid hx ih =>
    -- the middle is too great, and so is all behind it
    have hmid : mid < hi := by omega
    refine ih ⟨by omega, hmid.le.trans h.inside, h.before, fun i hi hlen => hx.trans_le ?_⟩
    exact_mod_cast getD_le_getD hrow hi hlen
  | case2 lo hi hlt mid hx ih =>
    have hmid : mid < hi := by omega
    refine ih ⟨hmid, h.inside, fun i hi => le_trans ?_ (Int.not_lt.1 hx), h.behind⟩
    exact_mod_cast getD_le_getD hrow (Nat.lt_succ_iff.1 hi) (hmid.trans_le h.inside)
  | case3 lo hi hlt =>
    obtain rfl : lo = hi := h.le.antisymm (Nat.not_lt.1 hlt)
    exact h

/-- Before the place found there are as many entries as the row has up to `x`. -/
lemma Window.eq_countP {r : ℕ} (h : Window row x r r) :
    r = row.countP (fun s : ℕ => (s : ℤ) ≤ x) := by
  have htake : ∀ s ∈ row.take r, (s : ℤ) ≤ x := by
    intro s hs
    obtain ⟨i, hi, rfl⟩ := List.mem_take_iff_getElem.1 hs
    have hlen : i < row.length := hi.trans_le (min_le_right r row.length)
    rw [← List.getD_eq_getElem row 0 hlen]
    exact h.before i (hi.trans_le (min_le_left _ _))
  have hdrop : ∀ s ∈ row.drop r, ¬ (s : ℤ) ≤ x := by
    intro s hs
    obtain ⟨i, hi, rfl⟩ := List.mem_drop_iff_getElem.1 hs
    rw [not_le, ← List.getD_eq_getElem row 0]
    exact h.behind (r + i) (Nat.le_add_right r i) (by omega)
  have hnone : (row.drop r).countP (fun s : ℕ => (s : ℤ) ≤ x) = 0 :=
    List.countP_eq_zero.2 (by simpa using hdrop)
  calc r = (row.take r).length := (List.length_take_of_le h.inside).symm
    _ = (row.take r).countP (fun s : ℕ => (s : ℤ) ≤ x) :=
      (List.countP_eq_length.2 (by simpa using htake)).symm
    _ = (row.take r ++ row.drop r).countP (fun s : ℕ => (s : ℤ) ≤ x) := by
      rw [List.countP_append, hnone, Nat.add_zero]
    _ = row.countP (fun s : ℕ => (s : ℤ) ≤ x) := by rw [List.take_append_drop]

/-! ### The starts of all lines -/

/-- The starts of the lines behind line feeds, in a text whose first character is the `k`-th. -/
def startsFrom (k : ℕ) (text : List Char) : List ℕ :=
  (text.zipIdx k).filterMap fun (c, i) => if c = '\n' then some (i + 1) else none

lemma startsFrom_cons (k : ℕ) (c : Char) (cs : List Char) :
    startsFrom k (c :: cs) = if c = '\n' then (k + 1) :: startsFrom (k + 1) cs
      else startsFrom (k + 1) cs := by
  by_cases hc : c = '\n' <;> simp [startsFrom, hc]

lemma mem_lineStarts : s ∈ lineStarts text ↔ s = 0 ∨ ∃ i, s = i + 1 ∧ text[i]? = some '\n' := by
  simp only [lineStarts, List.mem_cons, List.mem_filterMap, Prod.exists,
    List.mk_mem_zipIdx_iff_getElem?, Option.ite_none_right_eq_some, Option.some.injEq]
  grind

lemma sorted_startsFrom (k : ℕ) (text : List Char) :
    (startsFrom k text).SortedLT ∧ ∀ s ∈ startsFrom k text, k < s := by
  rw [List.sortedLT_iff_pairwise]
  induction text generalizing k with
  | nil => simp [startsFrom]
  | cons c cs ih =>
    obtain ⟨hsorted, hlt⟩ := ih (k + 1)
    rw [startsFrom_cons]
    split_ifs
    · exact ⟨List.pairwise_cons.2 ⟨hlt, hsorted⟩, by grind⟩
    · exact ⟨hsorted, fun s hs => (Nat.lt_succ_self k).trans (hlt s hs)⟩

lemma sorted_lineStarts (text : List Char) : (lineStarts text).SortedLT := by
  have h := sorted_startsFrom 0 text
  rw [List.sortedLT_iff_pairwise] at h ⊢
  exact List.pairwise_cons.2 ⟨h.2, h.1⟩

lemma countP_startsFrom (o k : ℕ) (text : List Char) :
    (startsFrom k text).countP (fun s : ℕ => (s : ℤ) ≤ o) = (text.take (o - k)).count '\n' := by
  induction text generalizing k with
  | nil => simp [startsFrom]
  | cons c cs ih =>
    rw [startsFrom_cons]
    rcases Nat.lt_or_ge k o with hk | hk
    · rw [show o - k = o - (k + 1) + 1 by omega, List.take_succ_cons, List.count_cons]
      split_ifs <;> simp_all
    · -- the offset is not behind this character, and so behind no line feed from here on
      have hrest := ih (k + 1)
      rw [Nat.sub_eq_zero_of_le hk, List.take_zero, List.count_nil]
      rw [Nat.sub_eq_zero_of_le (Nat.le_succ_of_le hk), List.take_zero, List.count_nil] at hrest
      split_ifs
      · rw [List.countP_cons_of_neg (by simpa using hk), hrest]
      · exact hrest

lemma countP_lineStarts (text : List Char) (o : ℕ) :
    (lineStarts text).countP (fun s : ℕ => (s : ℤ) ≤ o) = 1 + (text.take o).count '\n' := by
  rw [lineStarts, List.countP_cons_of_pos (by simp), ← startsFrom, countP_startsFrom, Nat.sub_zero,
    Nat.add_comm]

/-! ### The search among the starts -/

/-- The last start that is not behind an offset is where the line of the offset starts. -/
lemma Window.lineStart {r : ℕ} (h : Window (lineStarts text) o r r) (hr : 0 < r) :
    LineStart text o ((lineStarts text).getD (r - 1) 0) := by
  have hlast : r - 1 < (lineStarts text).length := by have := h.inside; omega
  refine ⟨by exact_mod_cast h.before (r - 1) (by omega), fun i hi => ?_, fun i hs hi hc => ?_⟩
  · have hmem := List.getElem_mem hlast
    rw [← List.getD_eq_getElem _ 0, mem_lineStarts, hi] at hmem
    obtain hzero | ⟨j, hj, hc⟩ := hmem
    · exact absurd hzero (Nat.succ_ne_zero i)
    · rwa [Nat.succ.inj hj]
  · -- a line feed in between would be a start that the search has passed
    obtain ⟨j, hj, hstart⟩ := List.getElem_of_mem (mem_lineStarts.2 (Or.inr ⟨i, rfl, hc⟩))
    rw [← List.getD_eq_getElem _ 0] at hstart
    rcases Nat.lt_or_ge j r with hjr | hjr
    · have := getD_le_getD (sorted_lineStarts text) (Nat.le_sub_one_of_lt hjr) hlast
      omega
    · have := h.behind j hjr hj
      omega

lemma LineStart.unique {s' : ℕ} (h : LineStart text o s) (h' : LineStart text o s') : s ≤ s' := by
  by_contra hlt
  obtain ⟨i, rfl⟩ : ∃ i, s = i + 1 := ⟨s - 1, by omega⟩
  exact h'.unbroken i (by omega) (by have := h.le; omega) (h.behind i rfl)

lemma window_lineStarts (text : List Char) (x : ℤ) :
    Window (lineStarts text) x (bisectRight (lineStarts text) x 0 (lineStarts text).length)
      (bisectRight (lineStarts text) x 0 (lineStarts text).length) :=
  window_bisectRight (sorted_lineStarts text)
    ⟨Nat.zero_le _, le_rfl, by simp, fun i hi hlt => absurd hlt (Nat.not_lt.2 hi)⟩

/-- The search comes to the position that the walk over the text leads to. -/
lemma ofIndex_natCast (text : List Char) (o : ℕ) : ofIndex text o = ofOffset text o := by
  have hwindow := window_lineStarts text o
  have hline := hwindow.eq_countP
  rw [countP_lineStarts] at hline
  obtain ⟨s, hs, hcolumn⟩ := column_ofOffset text o
  have hstart := hwindow.lineStart (by omega)
  have hsame := (hstart.unique hs).antisymm (hs.unique hstart)
  rw [ofIndex, among, Position.mk.injEq, line_ofOffset, hcolumn, offset_ofOffset]
  rw [if_neg (by omega), hsame]
  exact ⟨by rw [hline]; push_cast; rfl, rfl, rfl⟩

lemma ofIndex_eq_advance (h : o ≤ text.length) :
    ofIndex text o = initial.advance (text.take o) := by
  rw [ofIndex_natCast, ofOffset_eq_advance h]

/-- **Positions**: the starts of the lines increase, and the search among them ends where the starts
that are not behind the offset end. So the position it comes to is the one the walk over the text
leads to: it has one line more than there are line feeds before the offset, a column that counts
from the start of this line, and the offset itself. A later offset has a later line, or the same
line and a later column; so line and column determine the offset. -/
theorem ofIndex_invertible (text : List Char) :
    (lineStarts text).SortedLT ∧
    (∀ x : ℤ, let r := bisectRight (lineStarts text) x 0 (lineStarts text).length
      Window (lineStarts text) x r r) ∧
    (∀ o : ℕ, ofIndex text o = ofOffset text o) ∧
    (∀ o : ℕ, (ofIndex text o).line = 1 + (text.take o).count '\n' ∧
      (∃ s, LineStart text o s ∧ (ofIndex text o).column = o - s + 1) ∧
      (ofIndex text o).offset = o) ∧
    (∀ o₁ o₂ : ℕ, o₁ < o₂ → (ofIndex text o₁).coordinates < (ofIndex text o₂).coordinates) ∧
    ∀ o₁ o₂ : ℕ, (ofIndex text o₁).line = (ofIndex text o₂).line →
      (ofIndex text o₁).column = (ofIndex text o₂).column → o₁ = o₂ := by
  refine ⟨sorted_lineStarts text, window_lineStarts text, ofIndex_natCast text, ?_⟩
  simp only [ofIndex_natCast]
  refine ⟨fun o => ⟨line_ofOffset text o, column_ofOffset text o, offset_ofOffset text o⟩,
    fun _ _ h => strictMono_coordinates text h, fun o₁ o₂ hline hcolumn => ?_⟩
  apply (strictMono_coordinates text).injective
  exact congrArg toLex (Prod.ext hline hcolumn)

-- with an empty line, at the end of the text and behind it
example : (List.range 6).map (fun o => ofIndex "a\n\nb".toList o) =
    [⟨1, 1, 0⟩, ⟨1, 2, 1⟩, ⟨2, 1, 2⟩, ⟨3, 1, 3⟩, ⟨3, 2, 4⟩, ⟨3, 3, 5⟩] := by decide +kernel

end Position

end Primer
