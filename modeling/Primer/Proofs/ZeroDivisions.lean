import Mathlib.Tactic
import Primer.Proofs.Passes
import Primer.Proofs.TreeShape

/-!
Divisions by a literal zero.

The check of divisions follows values in two ways and keeps copies of its table in one of them. Both
ways come to every node of the tree, in the order of the walk, until they stop at a division. So no
division by a literal zero passes, wherever it stands and whatever is known, and where no divisor is
a variable the check does nothing but look for the first of them.
-/

namespace Primer

open Progress

namespace Node

def dividesByZero : Tree → Bool
  | .binary op _ (.literal v _) _ =>
    divisionOperators.contains op && v.number?.any Number.isZero
  | _ => false

def dividesByName : Tree → Bool
  | .binary op _ (.name _ _) _ => divisionOperators.contains op
  | _ => false

/-- The first node of a row that divides by a literal zero, and the nodes before it. -/
structure FirstZeroDivision (ns before : List Tree) (n : Tree) : Prop where
  split : ∃ behind, ns = before ++ n :: behind
  earlier : ∀ m ∈ before, m.dividesByZero = false
  divides : n.dividesByZero

lemma exists_firstZeroDivision {ns : List Tree} {n : Tree} (hn : n ∈ ns) (hzero : n.dividesByZero) :
    ∃ before first, FirstZeroDivision ns before first := by
  have hfound : (ns.find? dividesByZero).isSome := List.find?_isSome.2 ⟨n, hn, hzero⟩
  obtain ⟨first, hfirst⟩ := Option.isSome_iff_exists.1 hfound
  obtain ⟨hdivides, before, behind, hsplit, hbefore⟩ := List.find?_eq_some_iff_append.1 hfirst
  exact ⟨before, first, ⟨behind, hsplit⟩, fun m hm => by simpa using hbefore m hm, hdivides⟩

end Node

open Node

inductive ZeroDivision.Refuses : ZeroDivision → Tree → Prop
  | literal {op l r loc} (h : (Node.binary op l r loc).dividesByZero) :
    Refuses (.literal op loc) (.binary op l r loc)
  | tracked {op l x xloc loc} (h : op ∈ divisionOperators) :
    Refuses (.tracked x op loc) (.binary op l (.name x xloc) loc)

namespace KnownValues

variable {apart : Bool} {known : Known} {n : Tree} {ns ms : List Tree} {p q : Outcome}
  {fault : ZeroDivision}

/-! ### One division -/

lemma refuses_of_zeroDivision? {op : String} {l r : Tree} {loc : Option Span}
    (h : zeroDivision? known op r loc = some fault) : fault.Refuses (.binary op l r loc) := by
  unfold zeroDivision? at h
  split at h
  · rename_i hop
    split at h
    · obtain ⟨hzero, hfault⟩ := Option.ite_none_right_eq_some.1 h
      obtain rfl := Option.some.inj hfault
      exact .literal (by rw [dividesByZero, hop, hzero, Bool.and_self])
    · obtain ⟨-, hfault⟩ := Option.ite_none_right_eq_some.1 h
      obtain rfl := Option.some.inj hfault
      exact .tracked (List.contains_iff_mem.1 hop)
    · cases h
  · cases h

lemma not_dividesByZero_of_zeroDivision? {op : String} {l r : Tree} {loc : Option Span}
    (h : zeroDivision? known op r loc = none) :
    (Node.binary op l r loc).dividesByZero = false := by
  cases r with
  | literal v vloc =>
    rw [dividesByZero, Bool.and_eq_false_iff, or_iff_not_imp_left, Bool.not_eq_false]
    intro hop
    rw [zeroDivision?, if_pos hop] at h
    simpa using h
  | _ => rfl

/-! ### All nodes in their order -/

/-- How a check ends that comes to the nodes of a row one after the other: it finishes and none of
them divides by a literal zero, or it stops at one of them and none before it does. -/
inductive Covers (ns : List Tree) : Outcome → Prop
  | finished {reached} (h : ∀ n ∈ ns, n.dividesByZero = false) : Covers ns (.finished reached)
  | stopped {blamed reached} (before : List Tree) (m : Tree) (behind : List Tree)
      (split : ns = before ++ m :: behind) (earlier : ∀ n ∈ before, n.dividesByZero = false)
      (h : blamed.Refuses m) : Covers ns (.stopped blamed reached)

lemma covers_nil (known : Known) : Covers [] (.finished known) := .finished (by simp)

/-- Nodes that do not divide by a literal zero may stand before the others. -/
lemma Covers.after (h : Covers ns p) (hms : ∀ m ∈ ms, m.dividesByZero = false) :
    Covers (ms ++ ns) p := by
  cases h with
  | finished hns => exact .finished (List.forall_mem_append.2 ⟨hms, hns⟩)
  | stopped before n behind split earlier h =>
    refine .stopped (ms ++ before) n behind ?_ (List.forall_mem_append.2 ⟨hms, earlier⟩) h
    rw [split, List.append_assoc]

lemma Covers.cons (h : Covers ns p) (hn : n.dividesByZero = false) : Covers (n :: ns) p := by
  have hcons : Covers ([n] ++ ns) p := h.after (by simpa using hn)
  exact hcons

/-- A check that stopped does not come to the nodes behind. -/
lemma Covers.before (h : Covers ns (.stopped fault known)) (ms : List Tree) :
    Covers (ns ++ ms) (.stopped fault known) := by
  cases h with
  | stopped before n behind split earlier h =>
    refine .stopped before n (behind ++ ms) ?_ earlier h
    rw [split, List.append_assoc, List.cons_append]

lemma Covers.andThen {next : Known → Outcome} (h : Covers ns p)
    (hnext : ∀ known, Covers ms (next known)) : Covers (ns ++ ms) (p.andThen next) := by
  cases p with
  | finished known =>
    cases h with
    | finished hns => exact (hnext known).after hns
  | stopped fault known => exact h.before ms

lemma Covers.andFinish {f : Known → Known} (h : Covers ns p) :
    Covers ns (p.andThen fun known => .finished (f known)) := by
  have hall : Covers (ns ++ []) (p.andThen fun known => .finished (f known)) :=
    h.andThen fun known => covers_nil (f known)
  rwa [List.append_nil] at hall

lemma covers_each {step : Known → Tree → Outcome}
    (h : ∀ n ∈ ns, ∀ known, Covers n.walk (step known n)) :
    ∀ known, Covers (ns.flatMap walk) (each step known ns) := by
  induction ns with
  | nil => exact covers_nil
  | cons n ns ih =>
    intro known
    exact (h n (by simp) known).andThen (ih fun m hm => h m (by simp [hm]))

/-- The table that a check ends with does not matter. -/
lemma Covers.congr (h : Covers ns p) (hfault : q.fault? = p.fault?) : Covers ns q := by
  cases h with
  | finished hns =>
    cases q with
    | finished known => exact .finished hns
    | stopped fault known => cases hfault
  | stopped before n behind split earlier h =>
    cases q with
    | finished known => cases hfault
    | stopped fault known =>
      obtain rfl := Option.some.inj hfault
      exact .stopped before n behind split earlier h

lemma fault?_joinBranches (known : Known) (yes : Outcome) (no : Known → Outcome) :
    (joinBranches true known yes no).fault? = (yes.andThen fun _ => no known).fault? := by
  cases yes with
  | finished reached => cases h : no known <;> simp [joinBranches, Progress.andThen, fault?, h]
  | stopped fault reached => rfl

lemma fault?_joinLoop (apart : Bool) (known : Known) (once : Outcome) :
    (joinLoop apart known once).fault? = once.fault? := by
  cases apart <;> cases once <;> rfl

lemma Covers.joinBranches {no : Known → Outcome} (h : Covers ns p)
    (hno : ∀ known, Covers ms (no known)) :
    Covers (ns ++ ms) (joinBranches apart known p no) := by
  cases apart with
  | false => exact h.andThen hno
  | true => exact (h.andThen fun _ => hno known).congr (fault?_joinBranches known p no)

lemma Covers.joinLoop (h : Covers ns p) : Covers ns (joinLoop apart known p) :=
  h.congr (fault?_joinLoop apart known p)

/-- **Every node is met**: the check comes to the nodes of a tree in the order of the walk, in both
modes and from every table. -/
lemma covers_check (apart : Bool) (t : Tree) : ∀ known, Covers t.walk (check apart known t) := by
  induction t using childInduction with
  | step t ih =>
    intro known
    cases t with
    | literal v loc | name x loc => exact (covers_nil known).cons rfl
    | binary op l r loc =>
      rw [check, walk]
      split
      · rename_i fault hfault
        exact .stopped [] _ _ rfl (by simp) (refuses_of_zeroDivision? hfault)
      · rename_i hfault
        have hleft := ih l (by simp [children])
        have hright := ih r (by simp [children])
        exact ((hleft known).andThen hright).cons (not_dividesByZero_of_zeroDivision? hfault)
    | declare type x v loc =>
      cases v with
      | none => exact (covers_nil _).cons rfl
      | some v => exact (ih v (by simp [children]) known).andFinish.cons rfl
    | assign x v loc => exact (ih v (by simp [children]) known).andFinish.cons rfl
    | branch c b e loc =>
      have hcond := ih c (by simp [children])
      have hbody := ih b (by simp [children])
      cases e with
      | none =>
        have hways (known : Known) : Covers (b.walk ++ [])
            (joinBranches apart known (check apart known b) .finished) :=
          (hbody known).joinBranches covers_nil
        rw [List.append_nil] at hways
        exact ((hcond known).andThen hways).cons rfl
      | some e =>
        have helse := ih e (by simp [children])
        exact ((hcond known).andThen fun known => (hbody known).joinBranches helse).cons rfl
    | whileLoop c b loc =>
      have hcond := ih c (by simp [children])
      have hbody := ih b (by simp [children])
      exact ((hcond known).andThen fun known => (hbody known).joinLoop).cons rfl
    | forLoop b loc => exact (ih b (by simp [children]) known).joinLoop.cons rfl
    | ret v loc =>
      cases v with
      | none => exact (covers_nil _).cons rfl
      | some v => exact (ih v (by simp [children]) known).cons rfl
    | block ns loc | program ns loc =>
      rw [check, checkAll_eq, walk, walkAll_eq_flatMap]
      exact (covers_each ih known).cons rfl

/-! ### The first division by a literal zero -/

variable {before : List Tree}

/-- The division that a check stops at is the first by a literal zero, or stands before it. -/
lemma Covers.exists_refused (h : Covers ns (.stopped fault known))
    (hfirst : FirstZeroDivision ns before n) : ∃ m ∈ before ++ [n], fault.Refuses m := by
  obtain ⟨⟨behind, hsplit⟩, -, hdivides⟩ := hfirst
  cases h with
  | stopped before' m behind' split earlier hrefuses =>
    refine ⟨m, ?_, hrefuses⟩
    rw [split, List.append_eq_append_iff] at hsplit
    rcases hsplit with ⟨between, rfl, hrest⟩ | ⟨between, rfl, hrest⟩
    · cases between with
      | nil =>
        obtain ⟨rfl, -⟩ := List.cons.inj hrest
        simp
      | cons k between =>
        obtain ⟨rfl, -⟩ := List.cons.inj hrest
        simp
    · -- the first one stands at the division or behind it, since none before it divides by zero
      cases between with
      | nil =>
        obtain ⟨rfl, -⟩ := List.cons.inj hrest
        simp
      | cons k between =>
        obtain ⟨rfl, -⟩ := List.cons.inj hrest
        exact absurd hdivides (by simp [earlier n (by simp)])

/-- A fault that is not about a variable names the operator and the place of the division. -/
lemma refuses_literal (h : fault.Refuses n) (hname : n.dividesByName = false) :
    n.dividesByZero ∧ ∃ op l r loc, n = .binary op l r loc ∧ fault = .literal op loc := by
  cases h with
  | literal hzero => exact ⟨hzero, _, _, _, _, rfl, rfl⟩
  | tracked hop => simp [dividesByName, hop] at hname

/-- Where no divisor is a variable, a check that stops has come to a division by a literal zero. -/
lemma Covers.exists_dividesByZero (h : Covers ns (.stopped fault known))
    (hnames : ∀ n ∈ ns, n.dividesByName = false) : ∃ n ∈ ns, n.dividesByZero := by
  cases h with
  | stopped before m behind split earlier hrefuses =>
    have hm : m ∈ ns := by simp [split]
    exact ⟨m, hm, (refuses_literal hrefuses (hnames m hm)).1⟩

/-- Where no divisor is a variable, a check stops at the first division by a literal zero. -/
lemma Covers.refuses_first (h : Covers ns (.stopped fault known))
    (hnames : ∀ n ∈ ns, n.dividesByName = false) (hfirst : FirstZeroDivision ns before n) :
    ∃ op l r loc, n = .binary op l r loc ∧ fault = .literal op loc := by
  obtain ⟨m, hm, hrefuses⟩ := h.exists_refused hfirst
  obtain ⟨⟨behind, hsplit⟩, hearlier, -⟩ := hfirst
  have hmem : m ∈ ns := by
    rw [hsplit]
    simp only [List.mem_append, List.mem_cons, List.not_mem_nil, or_false] at hm ⊢
    tauto
  obtain ⟨hzero, hfault⟩ := refuses_literal hrefuses (hnames m hmem)
  rcases List.mem_append.1 hm with hbefore | hlast
  · simp [hearlier m hbefore] at hzero
  · rwa [List.mem_singleton.1 hlast] at hfault

/-- **A division by a literal zero never passes.** In both modes and whatever is known, the check of
a tree with such a division stops, at the first of them or at a division before it. In a tree
without a division by a variable it stops exactly if there is one, and then at the first. -/
theorem literal_zero_refused (apart : Bool) (known : Known) (t : Tree) :
    ((∃ n ∈ t.walk, n.dividesByZero) → ∃ before n, FirstZeroDivision t.walk before n ∧
      ∃ fault reached, check apart known t = .stopped fault reached ∧
        ∃ m ∈ before ++ [n], fault.Refuses m) ∧
    ((∀ n ∈ t.walk, n.dividesByName = false) →
      ((∃ fault reached, check apart known t = .stopped fault reached) ↔
        ∃ n ∈ t.walk, n.dividesByZero) ∧
      ∀ before n, FirstZeroDivision t.walk before n →
        ∃ op l r loc reached, n = .binary op l r loc ∧
          check apart known t = .stopped (.literal op loc) reached) := by
  have hcovers := covers_check apart t known
  cases hcheck : check apart known t with
  | finished reached =>
    rw [hcheck] at hcovers
    cases hcovers with
    | finished hnone =>
      have hno : ¬ ∃ n ∈ t.walk, n.dividesByZero := by
        rintro ⟨n, hn, hzero⟩
        simp [hnone n hn] at hzero
      refine ⟨fun h => absurd h hno, fun _ => ⟨by simp [hno], ?_⟩⟩
      rintro before n ⟨⟨behind, hsplit⟩, -, hdivides⟩
      exact absurd ⟨n, by simp [hsplit], hdivides⟩ hno
  | stopped fault reached =>
    rw [hcheck] at hcovers
    refine ⟨?_, fun hnames => ⟨?_, ?_⟩⟩
    · rintro ⟨n, hn, hzero⟩
      obtain ⟨before, first, hfirst⟩ := exists_firstZeroDivision hn hzero
      exact ⟨before, first, hfirst, fault, reached, rfl, hcovers.exists_refused hfirst⟩
    · exact iff_of_true ⟨fault, reached, rfl⟩ (hcovers.exists_dividesByZero hnames)
    · intro before n hfirst
      obtain ⟨op, l, r, loc, hn, rfl⟩ := hcovers.refuses_first hnames hfirst
      exact ⟨op, l, r, loc, reached, hn, rfl⟩

def spinningQuotient : Tree :=
  .program [.declare "int" "x" (some (.literal (.int 0) none)) none,
    .whileLoop (.binary "%" (.literal (.int 7) none) (.name "x" none) none)
      (.ret (some (.binary "/" (.name "x" none) (.literal (.float (.zero true)) none) none)) none)
      none] none

def nestedQuotient : Tree :=
  .forLoop (.block [.binary "+" (.name "y" none) (.literal (.bool false) none) none,
    .assign "y" (.binary "%" (.binary "/" (.name "y" none) (.literal (.int 0) none) none)
      (.literal (.int 0) none) (some ⟨{ line := 2 }, { line := 2 }⟩)) none] none) none

theorem literal_zero_refused_nested :
    ((∃ n ∈ spinningQuotient.walk, n.dividesByZero) ∧
      ∃ before n, FirstZeroDivision spinningQuotient.walk before n ∧
        ∃ fault reached, check true [] spinningQuotient = .stopped fault reached ∧
          ∃ m ∈ before ++ [n], fault.Refuses m) ∧
    (∀ n ∈ nestedQuotient.walk, n.dividesByName = false) ∧
      ((∃ fault reached, check true [("y", .int 4)] nestedQuotient = .stopped fault reached) ↔
        ∃ n ∈ nestedQuotient.walk, n.dividesByZero) ∧
      ∃ reached, check true [("y", .int 4)] nestedQuotient =
        .stopped (.literal "%" (some ⟨{ line := 2 }, { line := 2 }⟩)) reached := by
  have hspinning : ∃ n ∈ spinningQuotient.walk, n.dividesByZero := by decide
  have hnames : ∀ n ∈ nestedQuotient.walk, n.dividesByName = false := by decide
  have hrefused := (literal_zero_refused true [] spinningQuotient).1 hspinning
  obtain ⟨hiff, hfirst⟩ := (literal_zero_refused true [("y", .int 4)] nestedQuotient).2 hnames
  obtain ⟨op, l, r, loc, reached, ⟨⟩, hstopped⟩ := hfirst (nestedQuotient.walk.take 6) _
    ⟨⟨nestedQuotient.walk.drop 7, rfl⟩, by decide, rfl⟩
  exact ⟨⟨hspinning, hrefused⟩, hnames, hiff, reached, hstopped⟩

end KnownValues

end Primer
