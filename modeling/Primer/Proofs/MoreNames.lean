import Mathlib.Tactic
import Primer.Proofs.LexicalScope

/-!
What more names at the start change in the check of initialized variables.

Two checks of one tree go side by side, one from some names and one from more of them. As long as
both go on, the second one has all names that the first one has, so the first one is the first to
stop. Where a check stops is told by following it down the tree: it passes the children before a
child and stops inside this one.
-/

namespace Primer

open Progress Node

namespace Initialized

variable {t c : Tree} {names names' more : Names} {fault fault' : UnsetRead} {u v : List ℕ}
  {i j : ℕ}

/-- The check of a tree from some names stops at the read at an address: the read is of a variable
that is not set, or the check passes the children before a child and stops inside it. -/
inductive StopsAt : Names → Tree → UnsetRead → List ℕ → Prop
  | read {names : Names} {x : String} {loc : Option Span} (unset : x ∉ names) :
    StopsAt names (.name x loc) ⟨x, loc⟩ []
  | inside {names names' : Names} {t c : Tree} {fault : UnsetRead} {i : ℕ} {u : List ℕ}
    (passed : each (visit t.bodies) names (t.children.zipIdx.take i) = .finished names')
    (child : t.children[i]? = some c) (stops : StopsAt names' c fault u) :
    StopsAt names t fault (i :: u)

/-! ### Where a check stops -/

/-- A child stops the check of a node in the same way as a check of its own. -/
lemma visit_eq_stopped_iff (bodies : List ℕ) :
    (∃ left, visit bodies names (c, i) = .stopped fault left) ↔
      ∃ left, check names c = .stopped fault left := by
  unfold visit
  split
  · cases check names c <;> simp [Progress.withState]
  · rfl

/-- Apart from names, a node stops the check exactly if its children do. -/
lemma check_eq_stopped_iff (hname : ∀ x loc, t ≠ .name x loc) :
    (∃ left, check names t = .stopped fault left) ↔
      ∃ left, each (visit t.bodies) names t.children.zipIdx = .stopped fault left := by
  rw [check_eq hname]
  split
  · cases each (visit t.bodies) names t.children.zipIdx <;> simp [Progress.withState]
  · cases each (visit t.bodies) names t.children.zipIdx <;> simp [Progress.andThen]

lemma exists_stopsAt (t : Tree) : ∀ names left, check names t = .stopped fault left →
    ∃ u, StopsAt names t fault u := by
  induction t using childInduction with
  | step t ih =>
    intro names left h
    by_cases hname : ∃ x loc, t = .name x loc
    · obtain ⟨x, loc, rfl⟩ := hname
      rw [check] at h
      split at h
      · cases h
      · rename_i hx
        obtain ⟨rfl, -⟩ := Progress.stopped.inj h
        exact ⟨[], .read (by simpa using hx)⟩
    · have hne : ∀ x loc, t ≠ .name x loc := fun x loc h => hname ⟨x, loc, h⟩
      obtain ⟨left, h⟩ := (check_eq_stopped_iff hne).1 ⟨left, h⟩
      obtain ⟨k, ⟨c, i⟩, names', hc, hpassed, hvisit⟩ := each_eq_stopped_iff.1 h
      obtain ⟨rfl, hchild⟩ : k = i ∧ t.children[k]? = some c := by
        simpa [List.getElem?_zipIdx, and_comm] using hc
      obtain ⟨left, hcheck⟩ := (visit_eq_stopped_iff t.bodies).1 ⟨left, hvisit⟩
      obtain ⟨u, hu⟩ := ih c (List.mem_of_getElem? hchild) names' left hcheck
      exact ⟨k :: u, .inside hpassed hchild hu⟩

/-- A child that stops the check stops it in every row of children that it is in. -/
lemma each_of_stopped {left : Names} (hij : i < j)
    (hpassed : each (visit t.bodies) names (t.children.zipIdx.take i) = .finished names')
    (hc : t.children[i]? = some c) (hcheck : check names' c = .stopped fault left) :
    ∃ left, each (visit t.bodies) names (t.children.zipIdx.take j) = .stopped fault left := by
  obtain ⟨left, hvisit⟩ := (visit_eq_stopped_iff (i := i) t.bodies).2 ⟨left, hcheck⟩
  refine ⟨left, each_eq_stopped_iff.2 ⟨i, (c, i), names', ?_, ?_, hvisit⟩⟩
  · rw [List.getElem?_take_of_lt hij]
    simp [List.getElem?_zipIdx, hc]
  · rwa [List.take_take, Nat.min_eq_left hij.le]

lemma ne_name_of_child (hc : t.children[i]? = some c) (x : String) (loc : Option Span) :
    t ≠ .name x loc := by
  rintro rfl
  simp [children] at hc

lemma StopsAt.stopped (h : StopsAt names t fault u) :
    ∃ left, check names t = .stopped fault left := by
  induction h with
  | read unset => exact ⟨_, by rw [check, if_neg (by simpa using unset)]⟩
  | inside passed child stops ih =>
    obtain ⟨left, hcheck⟩ := ih
    have hlt := (List.getElem?_eq_some_iff.1 child).1
    obtain ⟨left, heach⟩ := each_of_stopped hlt passed child hcheck
    rw [List.take_of_length_le (by simp)] at heach
    exact (check_eq_stopped_iff (ne_name_of_child child)).2 ⟨left, heach⟩

lemma StopsAt.at? (h : StopsAt names t fault u) :
    t.at? u = some (.name fault.name fault.location) := by
  induction h with
  | read unset => rfl
  | inside passed child stops ih => rwa [at?_child child]

/-- A check stops at one place only. -/
lemma StopsAt.unique (h : StopsAt names t fault u) (h' : StopsAt names t fault' v) : v = u := by
  induction h generalizing v with
  | read unset =>
    cases h' with
    | read => rfl
    | inside passed child stops => simp [children] at child
  | @inside names names₁ t c fault i u passed child stops ih =>
    cases h' with
    | read => simp [children] at child
    | @inside _ names₂ _ d _ j w passed' child' stops' =>
      obtain ⟨left, hc⟩ := stops.stopped
      obtain ⟨left', hd⟩ := stops'.stopped
      rcases lt_trichotomy i j with hij | rfl | hji
      · obtain ⟨_, heach⟩ := each_of_stopped hij passed child hc
        simp [heach] at passed'
      · obtain rfl := Option.some.inj (child.symm.trans child')
        obtain rfl := Progress.finished.inj (passed.symm.trans passed')
        rw [ih stops']
      · obtain ⟨_, heach⟩ := each_of_stopped hji passed' child' hd
        simp [heach] at passed

/-! ### From more names -/

lemma Covered.mono {held held' : Set String} (hheld : held ⊆ held') (h : Covered held t u) :
    Covered held' t u :=
  fun x loc hread => (h x loc hread).imp_left fun hx => hheld hx

/-- A check that finishes does so from more names too, and ends with these added. -/
lemma check_of_subset {left : Names} (hsub : names ⊆ more) (h : check names t = .finished left) :
    ∃ left', check more t = .finished left' ∧ ∀ x, x ∈ left' ↔ x ∈ left ∨ x ∈ more := by
  have hfew := judges_check t {x | x ∈ names} names fun _ => Iff.rfl
  have hmany := judges_check t {x | x ∈ more} more fun _ => Iff.rfl
  obtain ⟨hcovered, hleft⟩ := hfew.finished left h
  cases hcheck : check more t with
  | stopped fault left' =>
    obtain ⟨u, -, -, hnot, -⟩ := hmany.stopped fault left' hcheck
    exact absurd ((hcovered u trivial).mono hsub) hnot
  | finished left' =>
    refine ⟨left', rfl, fun x => ?_⟩
    rw [(hmany.finished left' hcheck).2, hleft]
    constructor
    · exact fun hx => hx.elim .inr fun hx => .inl (.inr hx)
    · exact fun hx => hx.elim (fun hx => hx.imp_left fun hx => hsub hx) .inl

/-- **Step**: a child that is passed from some names is passed from more of them. -/
lemma visit_of_subset {left : Names} {bodies : List ℕ} {c : Tree × ℕ} (hsub : names ⊆ more)
    (h : visit bodies names c = .finished left) :
    ∃ left', visit bodies more c = .finished left' ∧ left ⊆ left' := by
  unfold visit at h ⊢
  split
  · rename_i hbody
    rw [if_pos hbody, Progress.withState_eq_finished] at h
    obtain ⟨⟨inner, hcheck⟩, rfl⟩ := h
    obtain ⟨inner', hcheck', -⟩ := check_of_subset hsub hcheck
    exact ⟨more, Progress.withState_eq_finished.2 ⟨⟨inner', hcheck'⟩, rfl⟩, hsub⟩
  · rename_i hbody
    rw [if_neg hbody] at h
    obtain ⟨left', hcheck, hmem⟩ := check_of_subset hsub h
    exact ⟨left', hcheck, fun x hx => (hmem x).2 (.inl hx)⟩

/-- **Run**: and so are children in a row. -/
lemma each_visit_of_subset {left : Names} {bodies : List ℕ} {cs : List (Tree × ℕ)}
    (hsub : names ⊆ more) (h : each (visit bodies) names cs = .finished left) :
    ∃ left', each (visit bodies) more cs = .finished left' ∧ left ⊆ left' := by
  induction cs generalizing names more with
  | nil =>
    obtain rfl := Progress.finished.inj h
    exact ⟨more, rfl, hsub⟩
  | cons c cs ih =>
    obtain ⟨middle, hc, hcs⟩ := Progress.andThen_eq_finished.1 h
    obtain ⟨middle', hc', hmiddle⟩ := visit_of_subset hsub hc
    obtain ⟨left', hcs', hleft⟩ := ih hmiddle hcs
    exact ⟨left', Progress.andThen_eq_finished.2 ⟨middle', hc', hcs'⟩, hleft⟩

/-- **Two runs**: when a check from more names stops, one from fewer names has stopped there or
before. -/
lemma StopsAt.of_subset (h : StopsAt more t fault' v) :
    ∀ names, names ⊆ more → ∃ fault u, u ≤ v ∧ StopsAt names t fault u := by
  induction h with
  | @read more x loc unset =>
    exact fun names hsub => ⟨⟨x, loc⟩, [], le_rfl, .read fun hx => unset (hsub hx)⟩
  | @inside more more' t c fault' i v passed child stops ih =>
    intro names hsub
    cases hbefore : each (visit t.bodies) names (t.children.zipIdx.take i) with
    | finished names' =>
      obtain ⟨left, hpassed, hgrown⟩ := each_visit_of_subset hsub hbefore
      obtain rfl := Progress.finished.inj (passed.symm.trans hpassed)
      obtain ⟨fault, u, hle, hu⟩ := ih names' hgrown
      exact ⟨fault, i :: u, List.cons_le_cons i hle, .inside hbefore child hu⟩
    | stopped fault left =>
      -- the check from fewer names does not come as far as the child
      obtain ⟨k, ⟨d, j⟩, names', hd, hpassed, hvisit⟩ := each_eq_stopped_iff.1 hbefore
      obtain ⟨hki, rfl, hchild⟩ : k < i ∧ k = j ∧ t.children[k]? = some d := by
        simpa [List.getElem?_take, List.getElem?_zipIdx, and_comm] using hd
      rw [List.take_take, Nat.min_eq_left hki.le] at hpassed
      obtain ⟨left, hcheck⟩ := (visit_eq_stopped_iff t.bodies).1 ⟨left, hvisit⟩
      obtain ⟨w, hw⟩ := exists_stopsAt d names' left hcheck
      have hlt : k :: w < i :: v := List.cons_lt_cons_iff.2 (.inl hki)
      exact ⟨fault, k :: w, hlt.le, .inside hpassed hchild hw⟩

/-- What is set in a row counts only there. -/
lemma state_check_row (ht : t.isRow) (names : Names) : (check names t).state = names := by
  have hname : ∀ x loc, t ≠ .name x loc := by
    rintro x loc rfl
    cases ht
  rw [check_eq hname, if_pos ht]
  cases each (visit t.bodies) names t.children.zipIdx <;> rfl

/-- **More names never hurt.** If the check of a tree finishes from some names, it finishes from
more of them, and ends with these added. If it stops from more names, it stops from fewer of them,
and its one stopping place, a read in the tree, is not behind the other one in the walk. The check
of a program or a block leaves the names as they were, whether it finishes or stops. -/
theorem check_from_more (t : Tree) {names more : Names} (hsub : names ⊆ more) :
    (∀ left, check names t = .finished left → ∃ left', check more t = .finished left' ∧
      ∀ x, x ∈ left' ↔ x ∈ left ∨ x ∈ more) ∧
    (t.addresses.map t.at? = t.walk.map some ∧ t.addresses.Pairwise (· < ·)) ∧
    (∀ fault' left', check more t = .stopped fault' left' →
      ∃ fault left u u', check names t = .stopped fault left ∧ u ≤ u' ∧
        (∀ v, StopsAt names t fault v ↔ v = u) ∧ (∀ v, StopsAt more t fault' v ↔ v = u') ∧
        t.at? u = some (.name fault.name fault.location) ∧
        t.at? u' = some (.name fault'.name fault'.location)) ∧
    (t.isRow → (check names t).state = names) := by
  refine ⟨fun left h => check_of_subset hsub h, ⟨map_at?_addresses t, pairwise_addresses t⟩, ?_,
    fun ht => state_check_row ht names⟩
  intro fault' left' h
  obtain ⟨u', hu'⟩ := exists_stopsAt t more left' h
  obtain ⟨fault, u, hle, hu⟩ := hu'.of_subset names hsub
  obtain ⟨left, hcheck⟩ := hu.stopped
  have only {names fault u} (hu : StopsAt names t fault u) (v : List ℕ) :
      StopsAt names t fault v ↔ v = u :=
    ⟨fun hv => hu.unique hv, fun hv => hv ▸ hu⟩
  exact ⟨fault, left, u, u', hcheck, hle, only hu, only hu', hu.at?, hu'.at?⟩

def storingCondition : Tree :=
  .whileLoop (.assign "y" (.name "x" none) none)
    (.block [.assign "z" (.name "y" none) none, .ret (some (.name "z" none)) none] none) none

def twoReads : Tree :=
  .program [.declare "int" "a" (some (.name "p" none)) none,
    .block [.ret (some (.binary "+" (.name "a" none) (.name "q" none) none)) none] none] none

theorem twoReads_from_more :
    ((["x"] : Names) ⊆ ["w", "x"] ∧ check ["x"] storingCondition = .finished ["x", "y"] ∧
      ∃ left, check ["w", "x"] storingCondition = .finished left ∧
        ∀ x, x ∈ left ↔ x ∈ ["x", "y"] ∨ x ∈ ["w", "x"]) ∧
    ((["r"] : Names) ⊆ ["p", "r"] ∧
      check ["p", "r"] twoReads = .stopped ⟨"q", none⟩ ["p", "r"] ∧
      ∃ fault left u u', check ["r"] twoReads = .stopped fault left ∧ u ≤ u' ∧
        (∀ v, StopsAt ["r"] twoReads fault v ↔ v = u) ∧
        ∀ v, StopsAt ["p", "r"] twoReads ⟨"q", none⟩ v ↔ v = u') ∧
    twoReads.isRow ∧ (check ["r"] twoReads).state = ["r"] := by
  have hfew : (["x"] : Names) ⊆ ["w", "x"] := by decide
  have hmore : (["r"] : Names) ⊆ ["p", "r"] := by decide
  have hfinished : check ["x"] storingCondition = .finished ["x", "y"] := rfl
  have hstopped : check ["p", "r"] twoReads = .stopped ⟨"q", none⟩ ["p", "r"] := rfl
  have hleft := (check_from_more storingCondition hfew).1 _ hfinished
  obtain ⟨-, -, hstops, hrow⟩ := check_from_more twoReads hmore
  obtain ⟨fault, left, u, u', hcheck, hle, hu, hu', -⟩ := hstops _ _ hstopped
  exact ⟨⟨hfew, hfinished, hleft⟩, ⟨hmore, hstopped, fault, left, u, u', hcheck, hle, hu, hu'⟩,
    rfl, hrow rfl⟩

end Initialized

end Primer
