import Primer.Check.Initialized
import Primer.Proofs.Paths

/-!
What the check of initialized variables promises.

A tree that passes reads no variable too early on any path: before each read, the variable is
among the names set at the start, or a store to it is complete. The names that the check ends with
are an under-approximation of what is set on every path, so more names at the start do no harm,
and a loop may run its body as often as it likes.
-/

namespace Primer

open Node Computability

def Node.target? : Tree → Option String
  | .declare _ x _ _ => some x
  | .assign x _ _ => some x
  | _ => none

namespace Initialized

def stored (p : List Tree) : Set String := {x | ∃ n ∈ p, n.target? = some x}

/-- Every read on a path finds its variable among `held` or set before it on the path. -/
def ReadsSet (held : Set String) (p : List Tree) : Prop :=
  ∀ before x loc after, p = before ++ .name x loc :: after → x ∈ held ∪ stored before

@[simp] lemma stored_nil : stored [] = ∅ := by simp [stored]

@[simp] lemma stored_append (p q : List Tree) : stored (p ++ q) = stored p ∪ stored q := by
  ext x
  simp only [stored, List.mem_append, Set.mem_ofPred_eq, Set.mem_union]
  constructor
  · rintro ⟨n, hn | hn, hx⟩
    · exact Or.inl ⟨n, hn, hx⟩
    · exact Or.inr ⟨n, hn, hx⟩
  · rintro (⟨n, hn, hx⟩ | ⟨n, hn, hx⟩)
    · exact ⟨n, Or.inl hn, hx⟩
    · exact ⟨n, Or.inr hn, hx⟩

lemma readsSet_nil (held : Set String) : ReadsSet held [] := by
  intro before x loc after h
  simp at h

lemma readsSet_read {held : Set String} {x : String} (hx : x ∈ held) (loc : Option Span) :
    ReadsSet held [.name x loc] := by
  intro before y loc' after h
  rcases before with _ | ⟨n, before⟩
  · simp only [List.nil_append, List.cons.injEq, Node.name.injEq] at h
    rw [← h.1.1]
    exact Or.inl hx
  · simp at h

/-- A node that is no name reads nothing by itself. -/
lemma readsSet_single {n : Tree} (hn : ∀ x loc, n ≠ .name x loc) (held : Set String) :
    ReadsSet held [n] := by
  intro before x loc after h
  rcases before with _ | ⟨m, before⟩
  · simp only [List.nil_append, List.cons.injEq] at h
    exact absurd h.1 (hn x loc)
  · simp at h

/-- A path is read part by part: the second part finds what the first one has set. -/
lemma readsSet_append {held : Set String} {p q : List Tree} (hp : ReadsSet held p)
    (hq : ReadsSet (held ∪ stored p) q) : ReadsSet held (p ++ q) := by
  intro before x loc after h
  rcases List.append_eq_append_iff.mp h with ⟨mid, hbefore, hrest⟩ | ⟨mid, hp', hrest⟩
  · -- the read lies in the second part
    have := hq mid x loc after hrest
    rw [hbefore, stored_append, ← Set.union_assoc]
    exact this
  · rcases mid with _ | ⟨n, mid⟩
    · -- the read is the first node of the second part
      have := hq [] x loc after (by simpa using hrest.symm)
      rw [List.append_nil] at hp'
      rw [← hp']
      simpa using this
    · -- the read lies in the first part
      obtain ⟨hn, -⟩ := List.cons.inj hrest
      exact hp before x loc mid (by rw [hp', hn])

/-- What a check that goes from `names` to `names'` says about the paths of a part of a tree. From
any variables that include `names`, every read finds its variable set, and `names'` are set at
the end. -/
structure Covers (names names' : Names) (paths : Language Tree) : Prop where
  grows : names ⊆ names'
  reads : ∀ p ∈ paths, ∀ held : Set String, (∀ x ∈ names, x ∈ held) → ReadsSet held p
  sets : ∀ p ∈ paths, ∀ held : Set String, (∀ x ∈ names, x ∈ held) →
    ∀ x ∈ names', x ∈ held ∪ stored p

namespace Covers

variable {a b c : Names} {P Q : Language Tree}

/-- A path along which nothing is read or set. -/
lemma idle {p : List Tree} (a : Names) (hp : ∀ held, ReadsSet held p) : Covers a a {p} where
  grows := List.Subset.refl a
  reads q hq held _ := by
    obtain rfl : q = p := hq
    exact hp held
  sets _ _ _ h x hx := Or.inl (h x hx)

lemma read {x : String} (hx : x ∈ a) (loc : Option Span) : Covers a a {[.name x loc]} where
  grows := List.Subset.refl a
  reads q hq held h := by
    obtain rfl : q = [.name x loc] := hq
    exact readsSet_read (h x hx) loc
  sets _ _ _ h y hy := Or.inl (h y hy)

lemma mul (hP : Covers a b P) (hQ : Covers b c Q) : Covers a c (P * Q) where
  grows := List.Subset.trans hP.grows hQ.grows
  reads r hr held h := by
    obtain ⟨p, hp, q, hq, rfl⟩ := Language.mem_mul.mp hr
    exact readsSet_append (hP.reads p hp held h) (hQ.reads q hq _ (hP.sets p hp held h))
  sets r hr held h x hx := by
    obtain ⟨p, hp, q, hq, rfl⟩ := Language.mem_mul.mp hr
    rw [stored_append, ← Set.union_assoc]
    exact hQ.sets q hq _ (hP.sets p hp held h) x hx

/-- What is set on a copy counts only there. -/
lemma onCopy (hP : Covers a b P) : Covers a a P where
  grows := List.Subset.refl a
  reads := hP.reads
  sets _ _ _ h x hx := Or.inl (h x hx)

lemma add (hP : Covers a b P) (hQ : Covers a b Q) : Covers a b (P + Q) where
  grows := hP.grows
  reads p hp := by
    rcases hp with hp | hp
    · exact hP.reads p hp
    · exact hQ.reads p hp
  sets p hp := by
    rcases hp with hp | hp
    · exact hP.sets p hp
    · exact hQ.sets p hp

lemma nothing (a : Names) : Covers a a 1 := idle a readsSet_nil

/-- Starting with more names does no harm, so what ends where it starts can be done again. -/
lemma kstar (hP : Covers a a P) : Covers a a P∗ where
  grows := List.Subset.refl a
  reads p hp := by
    obtain ⟨rounds, rfl, hr⟩ := Language.mem_kstar.mp hp
    clear hp
    induction rounds with
    | nil => exact fun held _ => readsSet_nil held
    | cons r rounds ih =>
      intro held h
      have hrest := ih fun y hy => hr y (by simp [hy])
      rw [List.flatten_cons]
      exact readsSet_append (hP.reads r (hr r (by simp)) held h)
        (hrest _ fun x hx => Or.inl (h x hx))
  sets _ _ _ h x hx := Or.inl (h x hx)

/-- The condition of a loop is met again with at least the names of the first time. -/
lemma freely {C B : Language Tree} (hC : Covers a b C) (hB : Covers b c B) :
    Covers a b (freely C B) := by
  have again : Covers b b C :=
    ⟨List.Subset.refl b, fun p hp held h => hC.reads p hp held fun x hx => h x (hC.grows hx),
      fun p _ held h x hx => Or.inl (h x hx)⟩
  exact hC.mul (hB.onCopy.mul again).kstar

end Covers

lemma mem_insert {x y : String} {names : Names} :
    y ∈ insert x names ↔ y ∈ names ∨ y = x := by
  unfold insert
  split <;> rename_i hc
  · simp only [List.contains_iff_mem] at hc
    constructor
    · exact Or.inl
    · rintro (h | rfl)
      · exact h
      · exact hc
  · simp

lemma Covers.store {n : Tree} {x : String} (names : Names) (hn : n.target? = some x) :
    Covers names (insert x names) {[n]} where
  grows y hy := mem_insert.mpr (Or.inl hy)
  reads p hp held h := by
    obtain rfl : p = [n] := hp
    refine readsSet_single ?_ held
    rintro y loc rfl
    simp [Node.target?] at hn
  sets p hp held h y hy := by
    obtain rfl : p = [n] := hp
    rcases mem_insert.mp hy with hy | rfl
    · exact Or.inl (h y hy)
    · exact Or.inr ⟨n, by simp, hn⟩

lemma checkAll_covers {ns : List Tree} (ih : ∀ n ∈ ns, ∀ names names',
      check names n = .finished names' → Covers names names' (n.paths Node.freely)) :
    ∀ names names', checkAll names ns = .finished names' →
      Covers names names' (pathsAll Node.freely ns) := by
  induction ns with
  | nil =>
    intro names names' h
    rw [checkAll, Progress.finished.injEq] at h
    exact h ▸ .nothing names
  | cons n ns ihs =>
    intro names names' h
    rw [checkAll, Progress.andThen_eq_finished] at h
    obtain ⟨mid, hn, hns⟩ := h
    exact (ih n (by simp) _ _ hn).mul (ihs (fun m hm => ih m (by simp [hm])) _ _ hns)

/-- A check that finishes covers all paths of the tree. -/
lemma check_covers (t : Tree) : ∀ names names', check names t = .finished names' →
    Covers names names' (t.paths Node.freely) := by
  induction t using Node.induction with
  | literal v loc =>
    intro names names' h
    rw [check, Progress.finished.injEq] at h
    exact h ▸ .nothing names
  | name x loc =>
    intro names names' h
    rw [check] at h
    split at h <;> rename_i hx
    · rw [Progress.finished.injEq] at h
      exact h ▸ .read (by simpa using hx) loc
    · cases h
  | binary op l r loc ihl ihr =>
    intro names names' h
    rw [check, Progress.andThen_eq_finished] at h
    obtain ⟨mid, hl, hr⟩ := h
    exact (Covers.idle names (readsSet_single (by simp))).mul ((ihl _ _ hl).mul (ihr _ _ hr))
  | declare t x v loc ih =>
    intro names names' h
    rcases v with _ | v
    · rw [check, Progress.finished.injEq] at h
      exact h ▸ .store names rfl
    · rw [check, Progress.andThen_eq_finished] at h
      obtain ⟨mid, hv, hx⟩ := h
      rw [Progress.finished.injEq] at hx
      exact hx ▸ (ih v rfl _ _ hv).mul (.store mid rfl)
  | assign x v loc ih =>
    intro names names' h
    rw [check, Progress.andThen_eq_finished] at h
    obtain ⟨mid, hv, hx⟩ := h
    rw [Progress.finished.injEq] at hx
    exact hx ▸ (ih _ _ hv).mul (.store mid rfl)
  | branch c b e loc ihc ihb ihe =>
    intro names names' h
    rcases e with _ | e
    · rw [check, Progress.andThen_eq_finished] at h
      obtain ⟨mid, hc, hb⟩ := h
      rw [Progress.withState_eq_finished] at hb
      obtain ⟨⟨inner, hb⟩, rfl⟩ := hb
      exact (ihc _ _ hc).mul ((ihb _ _ hb).onCopy.add (.nothing mid))
    · rw [check, Progress.andThen_eq_finished] at h
      obtain ⟨mid, hc, h⟩ := h
      rw [Progress.andThen_eq_finished] at h
      obtain ⟨mid', hb, he⟩ := h
      rw [Progress.withState_eq_finished] at hb he
      obtain ⟨⟨inner, hb⟩, rfl⟩ := hb
      obtain ⟨⟨inner', he⟩, rfl⟩ := he
      exact (ihc _ _ hc).mul ((ihb _ _ hb).onCopy.add (ihe e rfl _ _ he).onCopy)
  | whileLoop c b loc ihc ihb =>
    intro names names' h
    rw [check, Progress.andThen_eq_finished] at h
    obtain ⟨mid, hc, hb⟩ := h
    rw [Progress.withState_eq_finished] at hb
    obtain ⟨⟨inner, hb⟩, rfl⟩ := hb
    exact (ihc _ _ hc).freely (ihb _ _ hb)
  | forLoop b loc ih =>
    intro names names' h
    rw [check, Progress.withState_eq_finished] at h
    obtain ⟨⟨inner, hb⟩, rfl⟩ := h
    exact (Covers.nothing names).freely (ih _ _ hb)
  | ret v loc ih =>
    intro names names' h
    rcases v with _ | v
    · rw [check, Progress.finished.injEq] at h
      exact h ▸ .nothing names
    · exact ih v rfl _ _ h
  | block ns loc ih | program ns loc ih =>
    intro names names' h
    rw [check, Progress.withState_eq_finished] at h
    obtain ⟨⟨inner, hns⟩, rfl⟩ := h
    exact (checkAll_covers ih _ _ hns).onCopy

/-- **Soundness**: if the check of a tree finishes, then on every path through the tree each read
of a variable comes after a complete store to it, unless the variable was set at the start. -/
theorem read_after_store {t : Tree} {names names' : Names}
    (h : check names t = .finished names') {before after : List Tree} {x : String}
    {loc : Option Span} (hp : before ++ .name x loc :: after ∈ t.paths Node.freely) :
    x ∈ names ∨ ∃ n ∈ before, n.target? = some x :=
  (check_covers t names names' h).reads _ hp {x | x ∈ names} (fun _ hx => hx) before x loc after
    rfl

def copy : Tree := .assign "y" (.name "x" none) none

def copyLoop : Tree :=
  .block [.assign "x" (.literal (.int 1) none) none, .forLoop copy none] none

lemma copyLoop_twice :
    [.assign "x" (.literal (.int 1) none) none, .name "x" none, copy] ++ .name "x" none :: [copy] ∈
      copyLoop.paths Node.freely := by
  have body : [.name "x" none, copy] ∈ copy.paths Node.freely * 1 :=
    ⟨_, ⟨[.name "x" none], rfl, [copy], rfl, rfl⟩, [], rfl, rfl⟩
  have loop : [.name "x" none, copy, .name "x" none, copy] ∈
      (Node.forLoop copy none).paths Node.freely :=
    mem_freely.mpr ⟨[], rfl, [[.name "x" none, copy], [.name "x" none, copy]], by
      simpa using body, rfl⟩
  exact ⟨_, ⟨[], rfl, _, rfl, rfl⟩, _, ⟨_, loop, [], rfl, rfl⟩, rfl⟩

theorem copyLoop_read_after_store :
    check [] copyLoop = .finished [] ∧
      ("x" ∈ ([] : Names) ∨ ∃ n ∈ [.assign "x" (.literal (.int 1) none) none, .name "x" none, copy],
        Node.target? n = some "x") :=
  ⟨rfl, read_after_store (t := copyLoop) rfl copyLoop_twice⟩

end Initialized

end Primer
