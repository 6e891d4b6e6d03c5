import Mathlib.Tactic
import Primer.Proofs.Addresses
import Primer.Proofs.Initialized
import Primer.Proofs.Passes

/-!
The lexical meaning of the check of initialized variables.

The check carries a set of names through the tree and works on a copy of it in every block and every
body. What comes out can be said without any state: a read is covered if a store of its variable
stands before it in the walk, does not contain it, and lies in no scope that the read is not in. The
check finishes exactly on the trees whose reads are all covered, and otherwise it stops at the first
read that is not.
-/

namespace Primer

namespace Node

variable {α : Type}

def isRow : Node α → Bool
  | .block .. => true
  | .program .. => true
  | _ => false

/-- The children of a node that are scopes of their own, whatever they are. -/
def bodies : Node α → List ℕ
  | .branch .. => [1, 2]
  | .whileLoop .. => [1]
  | .forLoop .. => [0]
  | _ => []

/-- The addresses of scopes: rows of statements, and the bodies of decisions and loops. -/
def IsScope (t : Node α) (s : List ℕ) : Prop :=
  (∃ n, t.at? s = some n ∧ n.isRow) ∨ ∃ p n i, s = p ++ [i] ∧ t.at? p = some n ∧ i ∈ n.bodies

variable {t c : Node α} {i : ℕ} {s : List ℕ}

lemma isScope_nil : t.IsScope [] ↔ t.isRow := by
  simp [IsScope]

/-- A scope of a child is one of the node, and so is a child that is a body. -/
lemma isScope_cons (hc : t.children[i]? = some c) :
    t.IsScope (i :: s) ↔ (s = [] ∧ i ∈ t.bodies) ∨ c.IsScope s := by
  unfold IsScope
  rw [at?_child hc]
  constructor
  · rintro (hrow | ⟨_ | ⟨j, p⟩, n, k, hs, hn, hk⟩)
    · exact .inr (.inl hrow)
    · obtain ⟨rfl, rfl⟩ := List.cons.inj hs
      obtain rfl := Option.some.inj hn
      exact .inl ⟨rfl, hk⟩
    · obtain ⟨rfl, rfl⟩ := List.cons.inj hs
      rw [at?_child hc] at hn
      exact .inr (.inr ⟨p, n, k, rfl, hn, hk⟩)
  · rintro (⟨rfl, hi⟩ | hrow | ⟨p, n, k, rfl, hn, hk⟩)
    · exact .inr ⟨[], t, i, rfl, rfl, hi⟩
    · exact .inl hrow
    · exact .inr ⟨i :: p, n, k, rfl, by rwa [at?_child hc], hk⟩

end Node

open Node

namespace Initialized

/-- What is stored at `b` counts at `u`: it is complete before `u`, in a scope that goes on. -/
structure Counts (t : Tree) (b u : List ℕ) : Prop where
  before : b < u
  outside : ¬ b <+: u
  inScope : ∀ s, t.IsScope s → s <+: b → s <+: u

/-- A read at the address `u` is covered: its variable is among `held`, or a store of it counts. -/
def Covered (held : Set String) (t : Tree) (u : List ℕ) : Prop :=
  ∀ x loc, t.at? u = some (.name x loc) →
    x ∈ held ∨ ∃ b n, t.at? b = some n ∧ n.target? = some x ∧ Counts t b u

/-- A store of the variable counts behind the tree: no scope of the tree contains it. -/
def Leaks (t : Tree) (x : String) : Prop :=
  ∃ b n, t.at? b = some n ∧ n.target? = some x ∧ ∀ s, t.IsScope s → ¬ s <+: b

/-- A store counts behind the child `i`, in the node around it. -/
def LeaksFrom (t : Tree) (i : ℕ) (x : String) : Prop :=
  ∃ c, t.children[i]? = some c ∧ i ∉ t.bodies ∧ Leaks c x

variable {t c : Tree} {i : ℕ} {x : String} {held : Set String} {u : List ℕ}

/-! ### From a node to its children -/

lemma leaks_iff : Leaks t x ↔ t.isRow = false ∧ (t.target? = some x ∨ ∃ i, LeaksFrom t i x) := by
  constructor
  · rintro ⟨b, n, hn, hx, hfree⟩
    have hrow : t.isRow = false := by
      by_contra hrow
      exact hfree [] (isScope_nil.2 (by simpa using hrow)) List.nil_prefix
    refine ⟨hrow, ?_⟩
    cases b with
    | nil =>
      obtain rfl := Option.some.inj hn
      exact .inl hx
    | cons i b =>
      obtain ⟨c, hc, hn⟩ := child_of_at? hn
      refine .inr ⟨i, c, hc, fun hi => ?_, b, n, hn, hx, fun s hs hsb => ?_⟩
      · exact hfree [i] ((isScope_cons hc).2 (.inl ⟨rfl, hi⟩)) (by simp)
      · exact hfree (i :: s) ((isScope_cons hc).2 (.inr hs)) (by simpa using hsb)
  · rintro ⟨hrow, hx | ⟨i, c, hc, hi, b, n, hn, hx, hfree⟩⟩
    · refine ⟨[], t, rfl, hx, fun s hs hsb => ?_⟩
      obtain rfl := List.prefix_nil.1 hsb
      rw [isScope_nil, hrow] at hs
      cases hs
    · refine ⟨i :: b, n, by rwa [at?_child hc], hx, fun s hs hsb => ?_⟩
      cases s with
      | nil =>
        rw [isScope_nil, hrow] at hs
        cases hs
      | cons j s =>
        obtain ⟨rfl, hinner⟩ := List.cons_prefix_cons.1 hsb
        rcases (isScope_cons hc).1 hs with ⟨-, hj⟩ | hs
        · exact hi hj
        · exact hfree s hs hinner

/-- What counts inside a child is what counts there by itself, and what leaks from the children
before it. -/
lemma exists_counts_cons (hc : t.children[i]? = some c) :
    (∃ b n, t.at? b = some n ∧ n.target? = some x ∧ Counts t b (i :: u)) ↔
      (∃ j < i, LeaksFrom t j x) ∨
        ∃ b n, c.at? b = some n ∧ n.target? = some x ∧ Counts c b u := by
  constructor
  · rintro ⟨_ | ⟨j, b⟩, n, hn, hx, hbefore, houtside, hscope⟩
    · exact absurd List.nil_prefix houtside
    obtain ⟨d, hd, hn⟩ := child_of_at? hn
    rcases List.cons_lt_cons_iff.1 hbefore with hji | ⟨rfl, hbu⟩
    · -- the store is in an earlier child, so no scope inside that child may contain it
      have hleave {s : List ℕ} (hs : t.IsScope (j :: s)) (hsb : s <+: b) : False := by
        have hsu := hscope (j :: s) hs (by simpa using hsb)
        exact hji.ne (List.cons_prefix_cons.1 hsu).1
      refine .inl ⟨j, hji, d, hd, fun hj => ?_, b, n, hn, hx, fun s hs hsb => ?_⟩
      · exact hleave ((isScope_cons hd).2 (.inl ⟨rfl, hj⟩)) List.nil_prefix
      · exact hleave ((isScope_cons hd).2 (.inr hs)) hsb
    · obtain rfl := Option.some.inj (hd.symm.trans hc)
      refine .inr ⟨b, n, hn, hx, hbu, fun hbu => houtside (by simpa using hbu), fun s hs hsb => ?_⟩
      have hsu := hscope (j :: s) ((isScope_cons hd).2 (.inr hs)) (by simpa using hsb)
      simpa using hsu
  · rintro (⟨j, hji, d, hd, hj, b, n, hn, hx, hfree⟩ | ⟨b, n, hn, hx, hbefore, houtside, hscope⟩)
    · refine ⟨j :: b, n, by rwa [at?_child hd], hx, List.cons_lt_cons_iff.2 (.inl hji),
        fun hbu => hji.ne (List.cons_prefix_cons.1 hbu).1, fun s hs hsb => ?_⟩
      cases s with
      | nil => exact List.nil_prefix
      | cons k s =>
        obtain ⟨rfl, hinner⟩ := List.cons_prefix_cons.1 hsb
        rcases (isScope_cons hd).1 hs with ⟨-, hk⟩ | hs
        · exact absurd hk hj
        · exact absurd hinner (hfree s hs)
    · refine ⟨i :: b, n, by rwa [at?_child hc], hx, List.cons_lt_cons_iff.2 (.inr ⟨rfl, hbefore⟩),
        fun hbu => houtside (by simpa using hbu), fun s hs hsb => ?_⟩
      cases s with
      | nil => exact List.nil_prefix
      | cons k s =>
        obtain ⟨rfl, hinner⟩ := List.cons_prefix_cons.1 hsb
        rcases (isScope_cons hc).1 hs with ⟨rfl, -⟩ | hs
        · simp
        · simpa using hscope s hs hinner

/-- The names held when the check comes to the child `i`. -/
def heldAt (held : Set String) (t : Tree) (i : ℕ) : Set String :=
  {x | x ∈ held ∨ ∃ j < i, LeaksFrom t j x}

lemma covered_cons (hc : t.children[i]? = some c) :
    Covered held t (i :: u) ↔ Covered (heldAt held t i) c u := by
  unfold Covered
  simp only [at?_child hc, exists_counts_cons hc, heldAt, Set.mem_ofPred_eq, or_assoc]

/-! ### The check, child by child -/

/-- The check of the child `i`, on a copy of the names if the child is a body. -/
def visit (bodies : List ℕ) (names : Names) (c : Tree × ℕ) : Outcome :=
  if c.2 ∈ bodies then (check names c.1).withState names else check names c.1

def settle (t : Tree) (names : Names) : Names :=
  match t.target? with
  | some x => insert x names
  | none => names

lemma each_visit_nil (names : Names) (ns : List Tree) (k : ℕ) :
    Progress.each (visit []) names (ns.zipIdx k) = checkAll names ns := by
  induction ns generalizing names k with
  | nil => rfl
  | cons n ns ih =>
    rw [List.zipIdx_cons, Progress.each, checkAll]
    simp only [visit, List.not_mem_nil, if_false, ih]

/-- Apart from names, a node is checked child by child. -/
lemma check_eq (hname : ∀ x loc, t ≠ .name x loc) (names : Names) :
    check names t =
      if t.isRow then (Progress.each (visit t.bodies) names t.children.zipIdx).withState names
      else (Progress.each (visit t.bodies) names t.children.zipIdx).andThen fun names =>
        .finished (settle t names) := by
  have hstart (names : Names) (next : Names → Outcome) :
      Progress.andThen (.finished names) next = next names := rfl
  cases t with
  | name x loc => exact absurd rfl (hname x loc)
  | block ns loc | program ns loc =>
    simp only [isRow, bodies, children, each_visit_nil, check, if_true]
  | declare type x v loc =>
    cases v <;> simp [check, isRow, bodies, children, Progress.each, visit, settle, target?,
      Progress.andThen_finished, hstart]
  | branch c b e loc =>
    cases e <;> simp [check, isRow, bodies, children, Progress.each, visit, settle, target?,
      Progress.andThen_finished]
  | ret v loc =>
    cases v <;> simp [check, isRow, bodies, children, Progress.each, visit, settle, target?,
      Progress.andThen_finished]
  | _ => simp [check, isRow, bodies, children, Progress.each, visit, settle, target?,
      Progress.andThen_finished]

/-! ### What the check finds -/

/-- What a check of some reads of a tree says: it finishes with the names `final` and the reads are
covered, or it stops at the first of them that is not. -/
structure Judges (held : Set String) (t : Tree) (reads : Set (List ℕ)) (final : Set String)
    (o : Outcome) : Prop where
  finished : ∀ names, o = .finished names →
    (∀ u ∈ reads, Covered held t u) ∧ ∀ x, x ∈ names ↔ x ∈ final
  stopped : ∀ fault names, o = .stopped fault names → ∃ u ∈ reads,
    t.at? u = some (.name fault.name fault.location) ∧ ¬ Covered held t u ∧
      ∀ v ∈ reads, v < u → Covered held t v

/-- The addresses inside the children from the child `k` on. -/
def fromChild (k : ℕ) : Set (List ℕ) := {u | ∃ i v, u = i :: v ∧ k ≤ i}

lemma mem_heldAt_succ {k : ℕ} :
    x ∈ heldAt held t (k + 1) ↔ x ∈ heldAt held t k ∨ LeaksFrom t k x := by
  simp only [heldAt, Set.mem_ofPred_eq, Nat.lt_succ_iff_lt_or_eq, or_and_right, exists_or,
    exists_eq_left, or_assoc]

def heldBehind (held : Set String) (t : Tree) : Set String :=
  {x | x ∈ held ∨ ∃ i, LeaksFrom t i x}

lemma mem_heldAt_of_length_le {k : ℕ} (hk : t.children.length ≤ k) :
    x ∈ heldAt held t k ↔ x ∈ heldBehind held t := by
  refine or_congr_right ⟨fun ⟨j, _, h⟩ => ⟨j, h⟩, ?_⟩
  rintro ⟨j, c, hc, h⟩
  have hj : j < t.children.length := (List.getElem?_eq_some_iff.1 hc).1
  exact ⟨j, by omega, c, hc, h⟩

/-- **Step**: the check of one child, and of those behind it. -/
lemma Judges.cons {k : ℕ} {names : Names} {rest : Names → Outcome} (hc : t.children[k]? = some c)
    (hnames : ∀ x, x ∈ names ↔ x ∈ heldAt held t k)
    (hchild : Judges (heldAt held t k) c Set.univ {x | x ∈ heldAt held t k ∨ Leaks c x}
      (check names c))
    (hrest : ∀ names', (∀ x, x ∈ names' ↔ x ∈ heldAt held t (k + 1)) →
      Judges held t (fromChild (k + 1)) (heldBehind held t) (rest names')) :
    Judges held t (fromChild k) (heldBehind held t)
      ((visit t.bodies names (c, k)).andThen rest) := by
  cases hcheck : check names c with
  | finished inner =>
    obtain ⟨hcovered, hinner⟩ := hchild.finished inner hcheck
    have hin (v : List ℕ) : Covered held t (k :: v) := (covered_cons hc).2 (hcovered v trivial)
    -- what is set in a body is forgotten behind it
    obtain ⟨names', hvisit, hnames'⟩ : ∃ names', visit t.bodies names (c, k) = .finished names' ∧
        ∀ x, x ∈ names' ↔ x ∈ heldAt held t (k + 1) := by
      by_cases hk : k ∈ t.bodies
      · refine ⟨names, by simp [visit, hk, hcheck, Progress.withState], fun x => ?_⟩
        rw [mem_heldAt_succ, hnames]
        refine ⟨Or.inl, ?_⟩
        rintro (h | ⟨_, _, hfree, _⟩)
        · exact h
        · exact absurd hk hfree
      · refine ⟨inner, by simp [visit, hk, hcheck], fun x => ?_⟩
        rw [mem_heldAt_succ, hinner]
        refine or_congr_right ⟨fun h => ⟨c, hc, hk, h⟩, ?_⟩
        rintro ⟨d, hd, -, h⟩
        obtain rfl := Option.some.inj (hd.symm.trans hc)
        exact h
    have hjudges := hrest names' hnames'
    rw [hvisit, Progress.andThen]
    constructor
    · intro final hfinal
      obtain ⟨hlater, hmem⟩ := hjudges.finished final hfinal
      refine ⟨?_, hmem⟩
      rintro _ ⟨i, v, rfl, hi⟩
      rcases hi.eq_or_lt with rfl | hi
      · exact hin v
      · exact hlater _ ⟨i, v, rfl, hi⟩
    · intro fault final hstopped
      obtain ⟨u, ⟨i, w, rfl, hi⟩, hu, hnot, hfirst⟩ := hjudges.stopped fault final hstopped
      refine ⟨i :: w, ⟨i, w, rfl, by omega⟩, hu, hnot, ?_⟩
      rintro _ ⟨j, v, rfl, hj⟩ hlt
      rcases hj.eq_or_lt with rfl | hj
      · exact hin v
      · exact hfirst _ ⟨j, v, rfl, hj⟩ hlt
  | stopped fault inner =>
    obtain ⟨u, -, hu, hnot, hfirst⟩ := hchild.stopped fault inner hcheck
    have hvisit : ∃ names', (visit t.bodies names (c, k)).andThen rest = .stopped fault names' := by
      by_cases hk : k ∈ t.bodies <;>
        simp [visit, hk, hcheck, Progress.withState, Progress.andThen]
    obtain ⟨names', hvisit⟩ := hvisit
    rw [hvisit]
    refine ⟨by simp, ?_⟩
    rintro _ _ ⟨⟩
    refine ⟨k :: u, ⟨k, u, rfl, le_rfl⟩, by rwa [at?_child hc], ?_, ?_⟩
    · rwa [covered_cons hc]
    · rintro _ ⟨j, v, rfl, hj⟩ hlt
      rcases List.cons_lt_cons_iff.1 hlt with hjk | ⟨rfl, hvu⟩
      · omega
      · exact (covered_cons hc).2 (hfirst v trivial hvu)

/-- **Run**: the check of all children from the child `k` on. -/
lemma judges_each (ih : ∀ c ∈ t.children, ∀ held names, (∀ x, x ∈ names ↔ x ∈ held) →
      Judges held c Set.univ {x | x ∈ held ∨ Leaks c x} (check names c)) (cs : List Tree) :
    ∀ k names, t.children.drop k = cs → (∀ x, x ∈ names ↔ x ∈ heldAt held t k) →
      Judges held t (fromChild k) (heldBehind held t)
        (Progress.each (visit t.bodies) names (cs.zipIdx k)) := by
  induction cs with
  | nil =>
    intro k names hdrop hnames
    have hk : t.children.length ≤ k := List.drop_eq_nil_iff.1 hdrop
    refine ⟨?_, nofun⟩
    rintro _ ⟨⟩
    refine ⟨?_, fun x => by rw [hnames, mem_heldAt_of_length_le hk]⟩
    -- there is no child and so no read left
    rintro _ ⟨i, v, rfl, hi⟩ x loc hread
    obtain ⟨c, hc, -⟩ := child_of_at? hread
    have hlt := (List.getElem?_eq_some_iff.1 hc).1
    omega
  | cons c cs ihs =>
    intro k names hdrop hnames
    have hc : t.children[k]? = some c := by
      rw [← List.head?_drop, hdrop, List.head?_cons]
    have hrest : t.children.drop (k + 1) = cs := by
      rw [← List.drop_drop, hdrop, List.drop_one, List.tail_cons]
    rw [List.zipIdx_cons, Progress.each]
    exact .cons hc hnames (ih c (List.mem_of_getElem? hc) _ names hnames)
      fun names' hnames' => ihs (k + 1) names' hrest hnames'

/-- Nothing counts at a name that stands alone. -/
lemma covered_name (x : String) (loc : Option Span) (u : List ℕ) :
    Covered held (.name x loc) u ↔ (u = [] → x ∈ held) := by
  cases u with
  | nil =>
    constructor
    · intro h _
      rcases h x loc rfl with hx | ⟨b, n, -, -, hbefore, -⟩
      · exact hx
      · exact absurd hbefore (List.not_lt_nil b)
    · rintro h y loc' hread
      obtain ⟨rfl, -⟩ := Node.name.inj (Option.some.inj hread)
      exact .inl (h rfl)
  | cons i u => simp [Covered, at?_cons, children]

lemma not_leaks_name (x y : String) (loc : Option Span) : ¬ Leaks (.name x loc) y := by
  rw [leaks_iff]
  rintro ⟨-, htarget | ⟨i, c, hc, -⟩⟩
  · cases htarget
  · simp [children] at hc

lemma judges_name (x : String) (loc : Option Span) {names : Names}
    (hnames : ∀ y, y ∈ names ↔ y ∈ held) :
    Judges held (.name x loc) Set.univ {y | y ∈ held ∨ Leaks (.name x loc) y}
      (check names (.name x loc)) := by
  rw [check]
  split
  · rename_i hx
    rw [List.contains_iff_mem, hnames] at hx
    refine ⟨?_, by simp⟩
    rintro _ ⟨⟩
    exact ⟨fun u _ => (covered_name x loc u).2 fun _ => hx, by simp [hnames, not_leaks_name]⟩
  · rename_i hx
    rw [List.contains_iff_mem, hnames] at hx
    refine ⟨by simp, ?_⟩
    rintro _ _ ⟨⟩
    refine ⟨[], trivial, rfl, ?_, fun v _ hv => absurd hv (List.not_lt_nil v)⟩
    rw [covered_name]
    exact fun h => hx (h rfl)

lemma mem_settle {names : Names} : x ∈ settle t names ↔ x ∈ names ∨ t.target? = some x := by
  unfold settle
  split
  · rename_i y hy
    rw [mem_insert, hy, Option.some.injEq, eq_comm (a := x)]
  · rename_i hnone
    simp [hnone]

/-- The check of a tree, from any names. -/
lemma judges_check (t : Tree) : ∀ held names, (∀ x, x ∈ names ↔ x ∈ held) →
    Judges held t Set.univ {x | x ∈ held ∨ Leaks t x} (check names t) := by
  induction t using childInduction with
  | step t ih =>
    intro held names hnames
    by_cases hname : ∃ x loc, t = .name x loc
    · obtain ⟨x, loc, rfl⟩ := hname
      exact judges_name x loc hnames
    · have hne : ∀ x loc, t ≠ .name x loc := fun x loc h => hname ⟨x, loc, h⟩
      have hroot : Covered held t [] := fun x loc h => absurd (Option.some.inj h) (hne x loc)
      have hheld : ∀ x, x ∈ names ↔ x ∈ heldAt held t 0 := by simp [hnames, heldAt]
      have hchildren := judges_each ih t.children 0 names rfl hheld
      -- every address but that of the root lies inside a child
      have hinside {u : List ℕ} (hu : u ≠ []) : u ∈ fromChild 0 := by
        obtain ⟨i, v, rfl⟩ := List.exists_cons_of_ne_nil hu
        exact ⟨i, v, rfl, Nat.zero_le i⟩
      have hcovered (reads : Set (List ℕ)) (h : ∀ u ∈ fromChild 0, u ∈ reads → Covered held t u)
          (u : List ℕ) (hu : u ∈ reads) : Covered held t u := by
        by_cases hnil : u = []
        · rwa [hnil]
        · exact h u (hinside hnil) hu
      rw [check_eq hne]
      cases heach : Progress.each (visit t.bodies) names t.children.zipIdx with
      | finished inner =>
        obtain ⟨hreads, hinner⟩ := hchildren.finished inner heach
        have hall (u : List ℕ) : Covered held t u :=
          hcovered Set.univ (fun u hu _ => hreads u hu) u trivial
        cases hrow : t.isRow with
        | true =>
          rw [if_pos rfl, Progress.withState]
          refine ⟨?_, by simp⟩
          rintro _ ⟨⟩
          refine ⟨fun u _ => hall u, fun x => ?_⟩
          simp [hnames, leaks_iff, hrow]
        | false =>
          rw [if_neg Bool.false_ne_true, Progress.andThen]
          refine ⟨?_, by simp⟩
          rintro _ ⟨⟩
          refine ⟨fun u _ => hall u, fun x => ?_⟩
          rw [mem_settle, hinner, Set.mem_ofPred_eq, leaks_iff, heldBehind, Set.mem_ofPred_eq]
          simp only [hrow, true_and]
          tauto
      | stopped fault inner =>
        obtain ⟨u, -, hu, hnot, hfirst⟩ := hchildren.stopped fault inner heach
        have hstopped : ∃ final, (if t.isRow then (.stopped fault names : Outcome)
            else .stopped fault inner) = .stopped fault final := by
          split <;> exact ⟨_, rfl⟩
        obtain ⟨final, hstopped⟩ := hstopped
        simp only [Progress.withState, Progress.andThen, hstopped]
        refine ⟨by simp, ?_⟩
        rintro _ _ ⟨⟩
        refine ⟨u, trivial, hu, hnot, fun v _ hv => ?_⟩
        exact hcovered {v | v < u} hfirst v hv

/-- The walk passes the smaller addresses before an address, and the greater ones behind it. -/
lemma around_address {before after : List (List ℕ)} (h : t.addresses = before ++ u :: after) :
    (∀ v ∈ before, v < u) ∧ ∀ v ∈ after, u < v := by
  have hsorted := pairwise_addresses t
  rw [h, List.pairwise_append, List.pairwise_cons] at hsorted
  obtain ⟨-, ⟨hafter, -⟩, hbefore⟩ := hsorted
  exact ⟨fun v hv => hbefore v hv u List.mem_cons_self, hafter⟩

lemma mem_addresses_of_not_covered (h : ¬ Covered held t u) : u ∈ t.addresses := by
  rw [mem_addresses]
  by_contra hnone
  refine h fun x loc hread => ?_
  simp [hread] at hnone

/-- **Lexical meaning**: addresses are ordered as the walk goes. The check of a tree finishes
exactly if every read in it is covered, and it stops with a fault exactly if this is the first read
in the walk that is not covered. -/
theorem check_covered (t : Tree) (names : Names) :
    (t.addresses.map t.at? = t.walk.map some ∧ t.addresses.Pairwise (· < ·)) ∧
    ((∃ names', check names t = .finished names') ↔
      ∀ u ∈ t.addresses, Covered {x | x ∈ names} t u) ∧
    ∀ fault, (∃ names', check names t = .stopped fault names') ↔
      ∃ before u after, t.addresses = before ++ u :: after ∧
        t.at? u = some (.name fault.name fault.location) ∧
        (∀ v ∈ before, Covered {x | x ∈ names} t v) ∧ ¬ Covered {x | x ∈ names} t u := by
  have hjudges := judges_check t {x | x ∈ names} names fun _ => Iff.rfl
  refine ⟨⟨map_at?_addresses t, pairwise_addresses t⟩, ?_, fun fault => ?_⟩
  · constructor
    · rintro ⟨names', hfinished⟩ u -
      exact (hjudges.finished names' hfinished).1 u trivial
    · intro hcovered
      cases hcheck : check names t with
      | finished names' => exact ⟨names', rfl⟩
      | stopped fault names' =>
        obtain ⟨u, -, -, hnot, -⟩ := hjudges.stopped fault names' hcheck
        exact absurd (hcovered u (mem_addresses_of_not_covered hnot)) hnot
  · constructor
    · rintro ⟨names', hstopped⟩
      obtain ⟨u, -, hread, hnot, hfirst⟩ := hjudges.stopped fault names' hstopped
      obtain ⟨before, after, hsplit⟩ := List.append_of_mem (mem_addresses_of_not_covered hnot)
      have hbefore := (around_address hsplit).1
      exact ⟨before, u, after, hsplit, hread, fun v hv => hfirst v trivial (hbefore v hv), hnot⟩
    · rintro ⟨before, u, after, hsplit, hread, hfirst, hnot⟩
      cases hcheck : check names t with
      | finished names' =>
        exact absurd ((hjudges.finished names' hcheck).1 u trivial) hnot
      | stopped fault' names' =>
        obtain ⟨u', -, hread', hnot', hfirst'⟩ := hjudges.stopped fault' names' hcheck
        -- two reads that are both the first one without cover are the same
        obtain rfl : u' = u := by
          have hmem := mem_addresses_of_not_covered hnot'
          rw [hsplit, List.mem_append, List.mem_cons] at hmem
          rcases hmem with hin | heq | hin
          · exact absurd (hfirst u' hin) hnot'
          · exact heq
          · have hlt := (around_address hsplit).2 u' hin
            exact absurd (hfirst' u trivial hlt) hnot
        obtain ⟨hname, hlocation⟩ := Node.name.inj (Option.some.inj (hread'.symm.trans hread))
        obtain ⟨x, loc⟩ := fault
        obtain ⟨x', loc'⟩ := fault'
        obtain rfl : x' = x := hname
        obtain rfl : loc' = loc := hlocation
        exact ⟨names', rfl⟩

end Initialized

end Primer
