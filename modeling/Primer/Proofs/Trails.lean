import Mathlib.Tactic
import Primer.Proofs.Paths

/-!
Paths with the places of their nodes.

Equal nodes may stand at several places of a tree, so a path alone does not tell which of them it
has reached. A trail is a path on which no body of a loop runs twice, with each node numbered by its
place in the walk of the tree.
-/

namespace Primer.Node

mutual

def trails (i : ℕ) : Tree → Language (ℕ × Tree)
  | .literal _ _ => 1
  | .name x loc => {[(i, .name x loc)]}
  | .binary op l r loc =>
    {[(i, .binary op l r loc)]} * (l.trails (i + 1) * r.trails (i + 1 + l.walk.length))
  | .declare t x none loc => {[(i, .declare t x none loc)]}
  | .declare t x (some v) loc => v.trails (i + 1) * {[(i, .declare t x (some v) loc)]}
  | .assign x v loc => v.trails (i + 1) * {[(i, .assign x v loc)]}
  | .branch c b none _ => c.trails (i + 1) * (b.trails (i + 1 + c.walk.length) + 1)
  | .branch c b (some e) _ =>
    c.trails (i + 1) * (b.trails (i + 1 + c.walk.length) +
      e.trails (i + 1 + c.walk.length + b.walk.length))
  | .whileLoop c b _ => c.trails (i + 1) * (b.trails (i + 1 + c.walk.length) + 1)
  | .forLoop b _ => b.trails (i + 1) + 1
  | .ret none _ => 1
  | .ret (some v) _ => v.trails (i + 1)
  | .block ns _ => trailsAll (i + 1) ns
  | .program ns _ => trailsAll (i + 1) ns

def trailsAll (i : ℕ) : List Tree → Language (ℕ × Tree)
  | [] => 1
  | n :: ns => n.trails i * trailsAll (i + n.walk.length) ns

end

lemma map_singleton (i : ℕ) (n : Tree) :
    Language.map Prod.snd ({[(i, n)]} : Language (ℕ × Tree)) = {[n]} :=
  Set.image_singleton

lemma map_trailsAll {ns : List Tree}
    (ih : ∀ n ∈ ns, ∀ i, (n.trails i).map Prod.snd = n.paths atMostOnce) :
    ∀ i, (trailsAll i ns).map Prod.snd = pathsAll atMostOnce ns := by
  induction ns with
  | nil =>
    intro i
    simp [trailsAll, pathsAll]
  | cons n ns ihs =>
    intro i
    simp [trailsAll, pathsAll, ih n (by simp), ihs fun m hm => ih m (by simp [hm])]

/-- Without the places, the trails are the paths. -/
lemma map_trails (t : Tree) : ∀ i, (t.trails i).map Prod.snd = t.paths atMostOnce := by
  induction t using Node.induction with
  | literal v loc =>
    intro i
    simp [trails, paths]
  | name x loc =>
    intro i
    simp [trails, paths, map_singleton]
  | binary op l r loc hl hr =>
    intro i
    simp [trails, paths, map_singleton, hl, hr]
  | declare t x v loc hv =>
    intro i
    cases v with
    | none => simp [trails, paths, map_singleton]
    | some v => simp [trails, paths, map_singleton, hv v rfl]
  | assign x v loc hv =>
    intro i
    simp [trails, paths, map_singleton, hv]
  | branch c b e loc hc hb he =>
    intro i
    cases e with
    | none => simp [trails, paths, hc, hb]
    | some e => simp [trails, paths, hc, hb, he e rfl]
  | whileLoop c b loc hc hb =>
    intro i
    simp [trails, paths, atMostOnce, hc, hb]
  | forLoop b loc hb =>
    intro i
    simp [trails, paths, atMostOnce, hb]
  | ret v loc hv =>
    intro i
    cases v with
    | none => simp [trails, paths]
    | some v => simp [trails, paths, hv v rfl]
  | block ns loc ih | program ns loc ih =>
    intro i
    rw [trails, paths, map_trailsAll ih]

/-! ### Ways to an entry -/

variable {T T' : Language (ℕ × Tree)} {p : List (ℕ × Tree)} {e : ℕ × Tree}

/-- On some trail the entries `p` lead up to the entry `e`. -/
def Leads (T : Language (ℕ × Tree)) (p : List (ℕ × Tree)) (e : ℕ × Tree) : Prop :=
  ∃ q, p ++ e :: q ∈ T

lemma not_leads_one : ¬ Leads 1 p e := by
  rintro ⟨q, hq⟩
  have hnil : p ++ e :: q = [] := hq
  simp at hnil

lemma leads_single {f : ℕ × Tree} : Leads {[f]} p e ↔ p = [] ∧ e = f := by
  constructor
  · rintro ⟨q, hq⟩
    have hlist : p ++ e :: q = [f] := hq
    cases p with
    | nil => exact ⟨rfl, (List.cons.inj hlist).1⟩
    | cons g p => simp at hlist
  · rintro ⟨rfl, rfl⟩
    exact ⟨[], rfl⟩

lemma leads_add : Leads (T + T') p e ↔ Leads T p e ∨ Leads T' p e := by
  constructor
  · rintro ⟨q, hq | hq⟩
    · exact Or.inl ⟨q, hq⟩
    · exact Or.inr ⟨q, hq⟩
  · rintro (⟨q, hq⟩ | ⟨q, hq⟩)
    · exact ⟨q, Or.inl hq⟩
    · exact ⟨q, Or.inr hq⟩

/-- An entry lies in the first part of a trail, or behind a whole first part in the second. -/
lemma leads_mul (hT' : ∃ b, b ∈ T') :
    Leads (T * T') p e ↔ Leads T p e ∨ ∃ a ∈ T, ∃ r, p = a ++ r ∧ Leads T' r e := by
  constructor
  · rintro ⟨q, hq⟩
    obtain ⟨a, ha, b, hb, hab⟩ := Language.mem_mul.1 hq
    rcases List.append_eq_append_iff.1 hab with ⟨r, rfl, rfl⟩ | ⟨r, rfl, hr⟩
    · exact Or.inr ⟨a, ha, r, rfl, q, hb⟩
    · cases r with
      | nil =>
        obtain rfl : e :: q = b := hr
        exact Or.inr ⟨p ++ [], ha, [], by simp, q, hb⟩
      | cons f r =>
        obtain ⟨rfl, rfl⟩ := List.cons.inj hr
        exact Or.inl ⟨r, ha⟩
  · rintro (⟨q, hq⟩ | ⟨a, ha, r, rfl, q, hq⟩)
    · obtain ⟨b, hb⟩ := hT'
      exact ⟨q ++ b, by simpa using Language.append_mem_mul hq hb⟩
    · exact ⟨q, by simpa using Language.append_mem_mul ha hq⟩

/-! ### Places -/

/-- The entries for the part of a walk that starts at place `i`. -/
def entries (i : ℕ) (w : List Tree) : Set (ℕ × Tree) := {e | ∃ m, e.1 = i + m ∧ w[m]? = some e.2}

lemma bounds_of_mem_entries {i : ℕ} {w : List Tree} (h : e ∈ entries i w) :
    i ≤ e.1 ∧ e.1 < i + w.length := by
  obtain ⟨m, hm, hw⟩ := h
  have hlt := (List.getElem?_eq_some_iff.1 hw).1
  omega

lemma entries_nil (i : ℕ) : entries i [] = ∅ := by
  simp [entries]

lemma entries_single (i : ℕ) (n : Tree) : entries i [n] = {(i, n)} := by
  ext e
  constructor
  · intro h
    obtain ⟨hle, hlt⟩ := bounds_of_mem_entries h
    obtain ⟨m, hm, hn⟩ := h
    obtain rfl : m = 0 := by simp at hlt; omega
    exact Prod.ext hm (by simpa using hn.symm)
  · rintro rfl
    exact ⟨0, rfl, rfl⟩

lemma entries_append (i : ℕ) (a b : List Tree) :
    entries i (a ++ b) = entries i a ∪ entries (i + a.length) b := by
  ext e
  constructor
  · rintro ⟨m, hm, hw⟩
    by_cases hlt : m < a.length
    · rw [List.getElem?_append_left hlt] at hw
      exact Or.inl ⟨m, hm, hw⟩
    · rw [List.getElem?_append_right (by omega)] at hw
      exact Or.inr ⟨m - a.length, by omega, hw⟩
  · rintro (⟨m, hm, hw⟩ | ⟨m, hm, hw⟩)
    · have hlt := (List.getElem?_eq_some_iff.1 hw).1
      exact ⟨m, hm, by rwa [List.getElem?_append_left hlt]⟩
    · refine ⟨a.length + m, by omega, ?_⟩
      rwa [List.getElem?_append_right (by omega), Nat.add_sub_cancel_left]

def IsOperation : Tree → Prop
  | .binary .. => True
  | _ => False

/-- The trails run only through entries of `E`, and they reach all operations among them. -/
structure Charts (E : Set (ℕ × Tree)) (T : Language (ℕ × Tree)) : Prop where
  inhabited : ∃ p, p ∈ T
  mem : ∀ p e, Leads T p e → e ∈ E
  reach : ∀ e ∈ E, e.2.IsOperation → ∃ p, Leads T p e

namespace Charts

variable {E E' : Set (ℕ × Tree)}

/-- Nodes that no trail records. -/
lemma unmarked (h : ∀ e ∈ E, ¬ e.2.IsOperation) : Charts E 1 where
  inhabited := ⟨[], rfl⟩
  mem _ _ hp := absurd hp not_leads_one
  reach e he ho := absurd ho (h e he)

lemma node (e : ℕ × Tree) : Charts {e} {[e]} where
  inhabited := ⟨_, rfl⟩
  mem _ _ hp := (leads_single.1 hp).2
  reach _ hf _ := ⟨[], leads_single.2 ⟨rfl, hf⟩⟩

lemma mul (h : Charts E T) (h' : Charts E' T') : Charts (E ∪ E') (T * T') where
  inhabited := by
    obtain ⟨p, hp⟩ := h.inhabited
    obtain ⟨q, hq⟩ := h'.inhabited
    exact ⟨p ++ q, Language.append_mem_mul hp hq⟩
  mem p e hp := by
    rcases (leads_mul h'.inhabited).1 hp with hp | ⟨_, _, r, _, hr⟩
    · exact Or.inl (h.mem p e hp)
    · exact Or.inr (h'.mem r e hr)
  reach e he ho := by
    rcases he with he | he
    · obtain ⟨p, hp⟩ := h.reach e he ho
      exact ⟨p, (leads_mul h'.inhabited).2 (Or.inl hp)⟩
    · obtain ⟨r, hr⟩ := h'.reach e he ho
      obtain ⟨p, hp⟩ := h.inhabited
      exact ⟨p ++ r, (leads_mul h'.inhabited).2 (Or.inr ⟨p, hp, r, rfl, hr⟩)⟩

lemma add (h : Charts E T) (h' : Charts E' T') : Charts (E ∪ E') (T + T') where
  inhabited := by
    obtain ⟨p, hp⟩ := h.inhabited
    exact ⟨p, Or.inl hp⟩
  mem p e hp := by
    rcases leads_add.1 hp with hp | hp
    · exact Or.inl (h.mem p e hp)
    · exact Or.inr (h'.mem p e hp)
  reach e he ho := by
    rcases he with he | he
    · obtain ⟨p, hp⟩ := h.reach e he ho
      exact ⟨p, leads_add.2 (Or.inl hp)⟩
    · obtain ⟨p, hp⟩ := h'.reach e he ho
      exact ⟨p, leads_add.2 (Or.inr hp)⟩

end Charts

/-- No place is on trails of both kinds. -/
def Apart (T T' : Language (ℕ × Tree)) : Prop :=
  ∀ p e p' e', Leads T p e → Leads T' p' e' → e.1 ≠ e'.1

lemma Apart.symm (h : Apart T T') : Apart T' T :=
  fun p e p' e' hp hp' heq => h p' e' p e hp' hp heq.symm

lemma Charts.apart {i : ℕ} {a b : List Tree} (h : Charts (entries i a) T)
    (h' : Charts (entries (i + a.length) b) T') : Apart T T' := by
  intro p e p' e' hp hp'
  have := bounds_of_mem_entries (h.mem p e hp)
  have := bounds_of_mem_entries (h'.mem p' e' hp')
  omega

end Primer.Node
