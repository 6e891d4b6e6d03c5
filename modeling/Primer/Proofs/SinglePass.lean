import Mathlib.Tactic
import Primer.Proofs.KnownValues
import Primer.Proofs.Trails

/-!
The scoped division check is exact on single passes.

Where all numbers are whole, the check neither loses nor invents anything on the trails on which no
body of a loop runs twice: the table it carries to a place is what all trails that lead up to it
have in common. So it ends with the values on which all trails agree, and it stops at a division
by a variable only if every trail that leads there finds a zero.
-/

namespace Primer.KnownValues

open Node

variable {S : Set Store} {T T' : Language (ℕ × Tree)} {j : ℕ} {x op : String} {loc : Option Span}

def arrived (S : Set Store) (T : Language (ℕ × Tree)) : Set Store := reached S (T.map Prod.snd)

lemma mem_arrived {s' : Store} :
    s' ∈ arrived S T ↔ ∃ s ∈ S, ∃ p ∈ T, replay s (p.map Prod.snd) = s' := by
  constructor
  · rintro ⟨s, hs, -, ⟨p, hp, rfl⟩, rfl⟩
    exact ⟨s, hs, p, hp, rfl⟩
  · rintro ⟨s, hs, p, hp, rfl⟩
    exact ⟨s, hs, _, ⟨p, hp, rfl⟩, rfl⟩

lemma arrived_one (S : Set Store) : arrived S 1 = S := by
  rw [arrived, map_one, reached_one]

lemma arrived_mul (S : Set Store) (T T' : Language (ℕ × Tree)) :
    arrived S (T * T') = arrived (arrived S T) T' := by
  rw [arrived, map_mul, reached_mul, arrived, arrived]

lemma arrived_add (S : Set Store) (T T' : Language (ℕ × Tree)) :
    arrived S (T + T') = arrived S T ∪ arrived S T' := by
  rw [arrived, map_add, reached_add, arrived, arrived]

/-- A single node takes every store one step on. -/
lemma arrived_single (S : Set Store) (i : ℕ) (n : Tree) :
    arrived S {[(i, n)]} = (fun s => s.step n) '' S := by
  ext s'
  rw [mem_arrived]
  constructor
  · rintro ⟨s, hs, p, rfl, rfl⟩
    exact ⟨s, hs, rfl⟩
  · rintro ⟨s, hs, rfl⟩
    exact ⟨s, hs, _, rfl, rfl⟩

/-! ### Tables of whole numbers -/

def Integers (k : Known) : Prop := ∀ x v, Table.get? k x = some v → ∃ n, v = .int n

/-- The table holds whole numbers, and exactly those on which the stores agree. -/
structure Tells (k : Known) (S : Set Store) : Prop where
  distinct : Table.Distinct k
  integers : Integers k
  exact : ∀ x v, Table.get? k x = some v ↔ ∀ s ∈ S, s x = some v

lemma same_iff_eq {v w : Number} (hv : ∃ n, v = .int n) (hw : ∃ n, w = .int n) :
    w.same v ↔ w = v := by
  obtain ⟨m, rfl⟩ := hv
  obtain ⟨n, rfl⟩ := hw
  simp [Number.same]

lemma Tells.meet {k l : Known} {S S' : Set Store} (hk : Tells k S) (hl : Tells l S') :
    Tells (meet k l) (S ∪ S') where
  distinct := Table.distinct_filter hk.distinct _
  integers x v hv := hk.integers x v ((get?_meet hk.distinct).1 hv).1
  exact x v := by
    rw [get?_meet hk.distinct]
    constructor
    · rintro ⟨hv, w, hw, hsame⟩ s (hs | hs)
      · exact (hk.exact x v).1 hv s hs
      · obtain rfl := (same_iff_eq (hk.integers x v hv) (hl.integers x w hw)).1 hsame
        exact (hl.exact x w).1 hw s hs
    · intro h
      have hv := (hk.exact x v).2 fun s hs => h s (Or.inl hs)
      have hw := (hl.exact x v).2 fun s hs => h s (Or.inr hs)
      exact ⟨hv, v, hw, (same_iff_eq (hk.integers x v hv) (hl.integers x v hw)).2 rfl⟩

def Whole (value : Option Tree) : Prop := ∀ v loc, value ≠ some (.literal (.float v) loc)

lemma Tells.worth {k : Known} (hk : Tells k S) (hS : S.Nonempty) (value : Option Tree)
    (v : Number) :
    worth (Table.get? k) value = some v ↔ ∀ s ∈ S, KnownValues.worth s value = some v := by
  unfold KnownValues.worth
  split
  · exact ⟨fun h s _ => h, fun h => h _ hS.some_mem⟩
  · exact hk.exact _ v
  · exact ⟨fun h s _ => h, fun h => h _ hS.some_mem⟩

lemma Integers.worth {k : Known} (hk : Integers k) {value : Option Tree} (hvalue : Whole value)
    {v : Number} (hv : worth (Table.get? k) value = some v) : ∃ n, v = .int n := by
  unfold KnownValues.worth at hv
  split at hv
  · rename_i u loc
    cases u with
    | int n => exact ⟨n, (Option.some.inj hv).symm⟩
    | float f => exact absurd rfl (hvalue f loc)
    | text | bool => cases hv
  · exact hk _ v hv
  · cases hv

lemma Tells.bind {k : Known} (hk : Tells k S) (hS : S.Nonempty) {value : Option Tree}
    (hvalue : Whole value) (x : String) :
    Tells (bind x value k) ((fun s => Function.update s x (KnownValues.worth s value)) '' S) where
  distinct := distinct_bind hk.distinct x value
  integers y v hv := by
    rw [get?_bind hk.distinct, Function.update_apply] at hv
    split at hv
    · exact hk.integers.worth hvalue hv
    · exact hk.integers y v hv
  exact y v := by
    rw [get?_bind hk.distinct, Set.forall_mem_image]
    simp only [Function.update_apply]
    by_cases hy : y = x
    · simpa only [hy, if_true] using hk.worth hS value v
    · simpa only [hy, if_false] using hk.exact y v

/-! ### Verdicts -/

/-- Every trail that leads up to the place finds a zero in the variable. -/
def ZeroAt (S : Set Store) (T : Language (ℕ × Tree)) (j : ℕ) (x : String) : Prop :=
  ∀ s ∈ S, ∀ p n, Leads T p (j, n) → replay s (p.map Prod.snd) x = some (.int 0)

/-- At the place something is divided by the variable, on some trail. -/
def DividesAt (T : Language (ℕ × Tree)) (j : ℕ) (op x : String) (loc : Option Span) : Prop :=
  op ∈ divisionOperators ∧ ∃ l yloc p, Leads T p (j, .binary op l (.name x yloc) loc)

/-- What an end of the check says about the trails that it was made for. -/
def Judges (S : Set Store) (T : Language (ℕ × Tree)) : Outcome → Prop
  | .finished k => Tells k (arrived S T) ∧ ∀ j op x loc, DividesAt T j op x loc → ¬ ZeroAt S T j x
  | .stopped fault _ =>
    ∀ x op loc, fault = .tracked x op loc → ∃ j, DividesAt T j op x loc ∧ ZeroAt S T j x

lemma dividesAt_mul (hT : ∃ p, p ∈ T) (hT' : ∃ p, p ∈ T') :
    DividesAt (T * T') j op x loc ↔ DividesAt T j op x loc ∨ DividesAt T' j op x loc := by
  constructor
  · rintro ⟨hop, l, yloc, p, hp⟩
    rcases (leads_mul hT').1 hp with hp | ⟨_, _, r, _, hr⟩
    · exact Or.inl ⟨hop, l, yloc, p, hp⟩
    · exact Or.inr ⟨hop, l, yloc, r, hr⟩
  · rintro (⟨hop, l, yloc, p, hp⟩ | ⟨hop, l, yloc, p, hp⟩)
    · exact ⟨hop, l, yloc, p, (leads_mul hT').2 (Or.inl hp)⟩
    · obtain ⟨a, ha⟩ := hT
      exact ⟨hop, l, yloc, a ++ p, (leads_mul hT').2 (Or.inr ⟨a, ha, p, rfl, hp⟩)⟩

lemma dividesAt_add :
    DividesAt (T + T') j op x loc ↔ DividesAt T j op x loc ∨ DividesAt T' j op x loc := by
  simp only [DividesAt, leads_add, exists_or, and_or_left]

/-- What leads up to a place of the first part does not enter the second. -/
lemma zeroAt_mul_left (hapart : Apart T T') (hT' : ∃ p, p ∈ T') (hj : DividesAt T j op x loc) :
    ZeroAt S (T * T') j x ↔ ZeroAt S T j x := by
  constructor
  · intro h s hs p n hp
    exact h s hs p n ((leads_mul hT').2 (Or.inl hp))
  · intro h s hs p n hp
    rcases (leads_mul hT').1 hp with hp | ⟨_, _, r, _, hr⟩
    · exact h s hs p n hp
    · obtain ⟨-, l, yloc, q, hq⟩ := hj
      exact (hapart _ _ _ _ hq hr rfl).elim

/-- What leads up to a place of the second part has passed all of the first. -/
lemma zeroAt_mul_right (hapart : Apart T T') (hT' : ∃ p, p ∈ T') (hj : DividesAt T' j op x loc) :
    ZeroAt S (T * T') j x ↔ ZeroAt (arrived S T) T' j x := by
  constructor
  · intro h s' hs' p n hp
    obtain ⟨s, hs, a, ha, rfl⟩ := mem_arrived.1 hs'
    rw [← replay_append, ← List.map_append]
    exact h s hs (a ++ p) n ((leads_mul hT').2 (Or.inr ⟨a, ha, p, rfl, hp⟩))
  · intro h s hs p n hp
    rcases (leads_mul hT').1 hp with hp | ⟨a, ha, r, rfl, hr⟩
    · obtain ⟨-, l, yloc, q, hq⟩ := hj
      exact (hapart _ _ _ _ hp hq rfl).elim
    · rw [List.map_append, replay_append]
      exact h _ (mem_arrived.2 ⟨s, hs, a, ha, rfl⟩) r n hr

lemma zeroAt_add_left (hapart : Apart T T') (hj : DividesAt T j op x loc) :
    ZeroAt S (T + T') j x ↔ ZeroAt S T j x := by
  constructor
  · intro h s hs p n hp
    exact h s hs p n (leads_add.2 (Or.inl hp))
  · intro h s hs p n hp
    rcases leads_add.1 hp with hp | hp
    · exact h s hs p n hp
    · obtain ⟨-, l, yloc, q, hq⟩ := hj
      exact (hapart _ _ _ _ hq hp rfl).elim

lemma zeroAt_add_right (hapart : Apart T T') (hj : DividesAt T' j op x loc) :
    ZeroAt S (T + T') j x ↔ ZeroAt S T' j x := by
  rw [add_comm]
  exact zeroAt_add_left hapart.symm hj

/-- One part after another. -/
lemma Judges.andThen (hapart : Apart T T') (hT : ∃ p, p ∈ T) (hT' : ∃ p, p ∈ T') {o : Outcome}
    {next : Known → Outcome} (h : Judges S T o)
    (h' : ∀ k, Tells k (arrived S T) → Judges (arrived S T) T' (next k)) :
    Judges S (T * T') (o.andThen next) := by
  cases o with
  | stopped fault k =>
    intro x op loc hfault
    obtain ⟨j, hj, hzero⟩ := h x op loc hfault
    exact ⟨j, (dividesAt_mul hT hT').2 (Or.inl hj), (zeroAt_mul_left hapart hT' hj).2 hzero⟩
  | finished k =>
    obtain ⟨htells, hsafe⟩ := h
    have hnext := h' k htells
    change Judges S (T * T') (next k)
    generalize next k = o at hnext
    cases o with
    | stopped fault k =>
      intro x op loc hfault
      obtain ⟨j, hj, hzero⟩ := hnext x op loc hfault
      exact ⟨j, (dividesAt_mul hT hT').2 (Or.inr hj), (zeroAt_mul_right hapart hT' hj).2 hzero⟩
    | finished k =>
      obtain ⟨htells', hsafe'⟩ := hnext
      refine ⟨arrived_mul S T T' ▸ htells', fun j op x loc hj => ?_⟩
      rcases (dividesAt_mul hT hT').1 hj with hj | hj
      · rw [zeroAt_mul_left hapart hT' hj]
        exact hsafe j op x loc hj
      · rw [zeroAt_mul_right hapart hT' hj]
        exact hsafe' j op x loc hj

/-- Two ways that start alike. -/
lemma Judges.join (hapart : Apart T T') {k : Known} {yes : Outcome} {no : Known → Outcome}
    (h : Judges S T yes) (h' : Judges S T' (no k)) :
    Judges S (T + T') (joinBranches true k yes no) := by
  unfold joinBranches
  cases yes with
  | stopped fault y =>
    intro x op loc hfault
    obtain ⟨j, hj, hzero⟩ := h x op loc hfault
    exact ⟨j, dividesAt_add.2 (Or.inl hj), (zeroAt_add_left hapart hj).2 hzero⟩
  | finished y =>
    obtain ⟨htells, hsafe⟩ := h
    generalize no k = o at h'
    cases o with
    | stopped fault n =>
      intro x op loc hfault
      obtain ⟨j, hj, hzero⟩ := h' x op loc hfault
      exact ⟨j, dividesAt_add.2 (Or.inr hj), (zeroAt_add_right hapart hj).2 hzero⟩
    | finished n =>
      obtain ⟨htells', hsafe'⟩ := h'
      refine ⟨arrived_add S T T' ▸ htells.meet htells', fun j op x loc hj => ?_⟩
      rcases dividesAt_add.1 hj with hj | hj
      · rw [zeroAt_add_left hapart hj]
        exact hsafe j op x loc hj
      · rw [zeroAt_add_right hapart hj]
        exact hsafe' j op x loc hj

/-! ### Parts of the check -/

/-- The part `F` of the check, made for the part `w` of a walk that starts at place `i`, is right
about the trails through it. -/
structure Exact (i : ℕ) (w : List Tree) (T : Language (ℕ × Tree)) (F : Known → Outcome) :
    Prop where
  charts : Charts (entries i w) T
  judges : ∀ k S, S.Nonempty → Tells k S → Judges S T (F k)

namespace Exact

variable {i : ℕ} {n : Tree} {a b w : List Tree} {F G : Known → Outcome}

lemma nonempty_arrived (h : Exact i w T F) (hS : S.Nonempty) : (arrived S T).Nonempty := by
  obtain ⟨s, hs⟩ := hS
  obtain ⟨p, hp⟩ := h.charts.inhabited
  exact ⟨_, mem_arrived.2 ⟨s, hs, p, hp, rfl⟩⟩

lemma mul (h : Exact i a T F) (h' : Exact (i + a.length) b T' G) :
    Exact i (a ++ b) (T * T') (fun k => (F k).andThen G) where
  charts := entries_append i a b ▸ h.charts.mul h'.charts
  judges k S hS hk := by
    have hapart := h.charts.apart h'.charts
    exact (h.judges k S hS hk).andThen hapart h.charts.inhabited h'.charts.inhabited
      fun k hk => h'.judges k _ (h.nonempty_arrived hS) hk

/-- A part of the walk that is worked on before the part in front of it. -/
lemma mulRev (h : Exact i a T F) (h' : Exact (i + a.length) b T' G) :
    Exact i (a ++ b) (T' * T) (fun k => (G k).andThen F) where
  charts := by
    rw [entries_append, Set.union_comm]
    exact h'.charts.mul h.charts
  judges k S hS hk := by
    have hapart := (h.charts.apart h'.charts).symm
    exact (h'.judges k S hS hk).andThen hapart h'.charts.inhabited h.charts.inhabited
      fun k hk => h.judges k _ (h'.nonempty_arrived hS) hk

lemma join (h : Exact i a T F) (h' : Exact (i + a.length) b T' G) :
    Exact i (a ++ b) (T + T') (fun k => joinBranches true k (F k) G) where
  charts := entries_append i a b ▸ h.charts.add h'.charts
  judges k S hS hk :=
    (h.judges k S hS hk).join (h.charts.apart h'.charts) (h'.judges k S hS hk)

lemma judges_one {k : Known} (hk : Tells k S) : Judges S 1 (.finished k) := by
  refine ⟨(arrived_one S).symm ▸ hk, ?_⟩
  rintro j op x loc ⟨-, l, yloc, p, hp⟩
  exact absurd hp not_leads_one

lemma nothing (i : ℕ) : Exact i [] 1 .finished where
  charts := .unmarked (by simp [entries_nil])
  judges _ _ _ hk := judges_one hk

/-- A node that no trail records, in front of its parts. -/
lemma front (hn : ¬ n.IsOperation) (h : Exact (i + 1) w T F) : Exact i (n :: w) T F := by
  have hnode : Exact i [n] 1 .finished :=
    ⟨.unmarked (by simpa [entries_single] using hn), fun _ _ _ hk => judges_one hk⟩
  simpa [Progress.andThen] using hnode.mul h

/-- A way that may be skipped. -/
lemma orSkip (h : Exact i w T F) :
    Exact i w (T + 1) (fun k => joinBranches true k (F k) .finished) := by
  simpa using h.join (nothing _)

lemma loop (h : Exact i w T F) : Exact i w (T + 1) (fun k => joinLoop true k (F k)) := by
  have hjoin (k : Known) : joinLoop true k (F k) = joinBranches true k (.finished k) F := by
    unfold joinLoop joinBranches
    cases F k <;> rfl
  simpa [hjoin, add_comm] using (nothing i).join h

/-- A node that divides nothing and takes the stores on as `F` takes the table. -/
lemma judges_single (hn : ¬ n.IsOperation) {k : Known} (hk : Tells k ((fun s => s.step n) '' S)) :
    Judges S {[(i, n)]} (.finished k) := by
  refine ⟨(arrived_single S i n).symm ▸ hk, ?_⟩
  rintro j op x loc ⟨-, l, yloc, p, hp⟩
  obtain ⟨-, heq⟩ := leads_single.1 hp
  obtain ⟨-, rfl⟩ := Prod.mk.inj heq
  exact absurd trivial hn

lemma idle (hn : ¬ n.IsOperation) (hstep : ∀ s : Store, s.step n = s) :
    Exact i [n] {[(i, n)]} .finished where
  charts := entries_single i n ▸ .node (i, n)
  judges k S _ hk := judges_single hn (by simpa [hstep] using hk)

lemma store (hn : ¬ n.IsOperation) {value : Option Tree} (hvalue : Whole value)
    (hstep : ∀ s : Store, s.step n = Function.update s x (worth s value)) :
    Exact i [n] {[(i, n)]} (fun k => .finished (bind x value k)) where
  charts := entries_single i n ▸ .node (i, n)
  judges k S hS hk := judges_single hn (by simpa only [hstep] using hk.bind hS hvalue x)

end Exact

/-- In a table of whole numbers only the number zero stops a division by a variable. -/
lemma zeroDivision?_eq_tracked {k : Known} (hk : Integers k) {op' : String} {r : Tree}
    {loc' : Option Span} :
    zeroDivision? k op r loc = some (.tracked x op' loc') ↔
      (op ∈ divisionOperators ∧ op' = op ∧ loc' = loc) ∧ (∃ yloc, r = .name x yloc) ∧
        Table.get? k x = some (.int 0) := by
  have hzero : (Table.get? k x).any Number.isZero ↔ Table.get? k x = some (.int 0) := by
    cases hv : Table.get? k x with
    | none => simp
    | some v =>
      obtain ⟨n, rfl⟩ := hk x v hv
      simp [Number.isZero]
  unfold zeroDivision?
  by_cases hop : op ∈ divisionOperators
  · rw [if_pos (by simpa using hop)]
    cases r with
    | literal v => simp
    | name y yloc =>
      by_cases hy : y = x
      · subst hy
        simp [hop, hzero, eq_comm, and_comm]
      · simp [hy]
    | _ => simp
  · rw [if_neg (by simpa using hop)]
    simp [hop]

def verdict (op : String) (r : Tree) (loc : Option Span) (k : Known) : Outcome :=
  match zeroDivision? k op r loc with
  | some fault => .stopped fault k
  | none => .finished k

lemma check_binary (k : Known) (op : String) (l r : Tree) (loc : Option Span) :
    check true k (.binary op l r loc) =
      (verdict op r loc k).andThen fun k => (check true k l).andThen fun k => check true k r := by
  rw [check, verdict]
  cases zeroDivision? k op r loc <;> rfl

lemma Exact.operation (i : ℕ) (op : String) (l r : Tree) (loc : Option Span) :
    Exact i [.binary op l r loc] {[(i, .binary op l r loc)]} (verdict op r loc) where
  charts := entries_single i _ ▸ .node _
  judges k S _ hk := by
    unfold verdict
    cases hz : zeroDivision? k op r loc with
    | none =>
      refine ⟨?_, ?_⟩
      · have hstep : ∀ s : Store, s.step (.binary op l r loc) = s := fun _ => rfl
        rw [arrived_single]
        simpa [hstep] using hk
      · rintro j op' x loc' ⟨hop, l', yloc, p, hp⟩ hzero
        obtain ⟨rfl, heq⟩ := leads_single.1 hp
        obtain ⟨rfl, hnode⟩ := Prod.mk.inj heq
        obtain ⟨rfl, rfl, rfl, rfl⟩ := Node.binary.inj hnode
        have hheld := (hk.exact x _).2 fun s hs => hzero s hs [] _ hp
        rw [(zeroDivision?_eq_tracked hk.integers).2 ⟨⟨hop, rfl, rfl⟩, ⟨yloc, rfl⟩, hheld⟩] at hz
        cases hz
    | some fault =>
      rintro x op' loc' rfl
      obtain ⟨⟨hop, rfl, rfl⟩, ⟨yloc, rfl⟩, hheld⟩ := (zeroDivision?_eq_tracked hk.integers).1 hz
      refine ⟨i, ⟨hop, l, yloc, [], leads_single.2 ⟨rfl, rfl⟩⟩, fun s hs p n hp => ?_⟩
      obtain ⟨rfl, -⟩ := leads_single.1 hp
      exact (hk.exact x _).1 hheld s hs

/-! ### Trees -/

def WholeNumbers (t : Tree) : Prop := ∀ n ∈ t.walk, ∀ v loc, n ≠ .literal (.float v) loc

lemma WholeNumbers.child {m n : Tree} (h : WholeNumbers n) (hm : m ∈ n.children) :
    WholeNumbers m := by
  intro u hu
  refine h u ?_
  rw [walk_eq]
  exact List.mem_cons_of_mem _ (List.mem_flatMap.2 ⟨m, hm, hu⟩)

lemma WholeNumbers.whole {v : Tree} (h : WholeNumbers v) : Whole (some v) := by
  rintro f loc heq
  obtain rfl := Option.some.inj heq
  exact h _ (by simp [walk]) f loc rfl

lemma exact_checkAll {ns : List Tree}
    (ih : ∀ n ∈ ns, ∀ i, Exact i n.walk (n.trails i) (check true · n)) :
    ∀ i, Exact i (walkAll ns) (trailsAll i ns) (checkAll true · ns) := by
  induction ns with
  | nil => exact .nothing
  | cons n ns ihs =>
    intro i
    exact (ih n (by simp) i).mul (ihs (fun m hm => ih m (by simp [hm])) _)

/-- The check of a tree of whole numbers is right about all its trails. -/
lemma exact_check (t : Tree) : WholeNumbers t →
    ∀ i, Exact i t.walk (t.trails i) (check true · t) := by
  induction t using Node.induction with
  | literal v loc => exact fun _ i => .front id (.nothing _)
  | name x loc => exact fun _ i => .idle id fun _ => rfl
  | binary op l r loc ihl ihr =>
    intro h i
    have hl := ihl (h.child (by simp [children])) (i + 1)
    have hr := ihr (h.child (by simp [children])) (i + 1 + l.walk.length)
    simp only [check_binary]
    exact (Exact.operation i op l r loc).mul (hl.mul hr)
  | declare t x v loc ih =>
    intro h i
    cases v with
    | none => exact .store id (by simp [Whole]) fun _ => rfl
    | some v =>
      have hv := h.child (m := v) (by simp [children])
      exact (Exact.store id hv.whole fun _ => rfl).mulRev (ih v rfl hv (i + 1))
  | assign x v loc ih =>
    intro h i
    have hv := h.child (m := v) (by simp [children])
    exact (Exact.store id hv.whole fun _ => rfl).mulRev (ih hv (i + 1))
  | branch c b e loc ihc ihb ihe =>
    intro h i
    have hc := ihc (h.child (by simp [children])) (i + 1)
    have hb := ihb (h.child (by simp [children])) (i + 1 + c.walk.length)
    cases e with
    | none => exact .front id (hc.mul hb.orSkip)
    | some e =>
      have he := ihe e rfl (h.child (by simp [children])) (i + 1 + c.walk.length + b.walk.length)
      exact .front id (hc.mul (hb.join he))
  | whileLoop c b loc ihc ihb =>
    intro h i
    have hc := ihc (h.child (by simp [children])) (i + 1)
    have hb := ihb (h.child (by simp [children])) (i + 1 + c.walk.length)
    exact .front id (hc.mul hb.loop)
  | forLoop b loc ih =>
    intro h i
    exact .front id (ih (h.child (by simp [children])) (i + 1)).loop
  | ret v loc ih =>
    intro h i
    cases v with
    | none => exact .front id (.nothing _)
    | some v => exact .front id (ih v rfl (h.child (by simp [children])) (i + 1))
  | block ns loc ih | program ns loc ih =>
    intro h i
    exact .front id (exact_checkAll (fun n hn => ih n hn (h.child hn)) (i + 1))

/-- A table of whole numbers tells all about itself. -/
lemma tells_self {known : Known} (hk : Table.Distinct known) (hints : Integers known) :
    Tells known {Table.get? known} :=
  ⟨hk, hints, by simp⟩

variable {t : Tree} {known : Known}

/-- What the check of a whole tree says about its trails. -/
lemma judges_check (hk : Table.Distinct known) (hints : Integers known) (ht : WholeNumbers t) :
    Judges {Table.get? known} (t.trails 0) (check true known t) :=
  (exact_check t ht 0).judges known _ (Set.singleton_nonempty _) (tells_self hk hints)

/-- **Exactness on single passes**: where all numbers are whole, the scoped check ends with exactly
the bindings on which all paths with no body run twice agree. If it stops at a division by a
variable, every trail that leads up to this division finds a zero in the variable; and if there is a
division of which this is true, the check stops. -/
theorem exact_on_single_passes (hk : Table.Distinct known) (hints : Integers known)
    (ht : WholeNumbers t) :
    (∀ known', check true known t = .finished known' → ∀ x v, Table.get? known' x = some v ↔
      ∀ p ∈ t.paths atMostOnce, replay (Table.get? known) p x = some v) ∧
    (∀ x op loc k, check true known t = .stopped (.tracked x op loc) k →
      ∃ i l yloc, op ∈ divisionOperators ∧ t.walk[i]? = some (.binary op l (.name x yloc) loc) ∧
        (∃ p, Leads (t.trails 0) p (i, .binary op l (.name x yloc) loc)) ∧
        ∀ p n, Leads (t.trails 0) p (i, n) →
          replay (Table.get? known) (p.map Prod.snd) x = some (.int 0)) ∧
    ∀ i op l x yloc loc, op ∈ divisionOperators →
      t.walk[i]? = some (.binary op l (.name x yloc) loc) →
      (∀ p n, Leads (t.trails 0) p (i, n) →
        replay (Table.get? known) (p.map Prod.snd) x = some (.int 0)) →
      ∃ fault k, check true known t = .stopped fault k := by
  have hjudges := judges_check hk hints ht
  have hcharts := (exact_check t ht 0).charts
  refine ⟨fun known' hcheck x v => ?_, fun x op loc k hcheck => ?_, ?_⟩
  · rw [hcheck] at hjudges
    rw [hjudges.1.exact x v, arrived, map_trails]
    constructor
    · intro h p hp
      exact h _ ⟨_, rfl, p, hp, rfl⟩
    · rintro h s' ⟨s, rfl, p, hp, rfl⟩
      exact h p hp
  · rw [hcheck] at hjudges
    obtain ⟨i, ⟨hop, l, yloc, p, hp⟩, hzero⟩ := hjudges x op loc rfl
    obtain ⟨m, hm, hwalk⟩ := hcharts.mem p _ hp
    obtain rfl : i = m := by simpa using hm
    exact ⟨i, l, yloc, hop, hwalk, ⟨p, hp⟩, hzero _ rfl⟩
  · intro i op l x yloc loc hop hwalk hzero
    cases hcheck : check true known t with
    | stopped fault k => exact ⟨fault, k, rfl⟩
    | finished known' =>
      rw [hcheck] at hjudges
      have hentry : (i, .binary op l (.name x yloc) loc) ∈ entries 0 t.walk := ⟨i, by simp, hwalk⟩
      obtain ⟨p, hp⟩ := hcharts.reach _ hentry trivial
      refine absurd ?_ (hjudges.2 i op x loc ⟨hop, l, yloc, p, hp⟩)
      rintro s rfl
      exact hzero

def detour (rest : List Tree) : Tree :=
  .program (put "x" 0 :: .branch (.name "c" none) (put "y" 0) (some (put "y" 1)) none ::
    forever [put "x" 0] :: rest) none

def share : Tree := .ret (some (.binary "/" (.literal (.int 1) none) (.name "x" none) none)) none

/-- With nothing behind it the detour passes. Of two equal divisions behind it, one is refused. -/
theorem detour_exact_on_single_passes :
    Table.Distinct ([] : Known) ∧ Integers [] ∧
    WholeNumbers (detour []) ∧ check true [] (detour []) = .finished [("x", .int 0)] ∧
    (∀ x v, Table.get? [("x", .int 0)] x = some v ↔
      ∀ p ∈ (detour []).paths atMostOnce, replay (Table.get? []) p x = some v) ∧
    WholeNumbers (detour [share, share]) ∧
    check true [] (detour [share, share]) = .stopped (.tracked "x" "/" none) [("x", .int 0)] ∧
    ∃ i l yloc, "/" ∈ divisionOperators ∧
      (detour [share, share]).walk[i]? = some (.binary "/" l (.name "x" yloc) none) ∧
      (∃ p, Leads ((detour [share, share]).trails 0) p (i, .binary "/" l (.name "x" yloc) none)) ∧
      ∀ p n, Leads ((detour [share, share]).trails 0) p (i, n) →
        replay (Table.get? []) (p.map Prod.snd) "x" = some (.int 0) := by
  have hk : Table.Distinct ([] : Known) := List.nodup_nil
  have hints : Integers [] := by simp [Integers, Table.get?]
  have hplain : WholeNumbers (detour []) := by
    simp [WholeNumbers, detour, put, forever, walk, walkAll]
  have hdivided : WholeNumbers (detour [share, share]) := by
    simp [WholeNumbers, detour, put, forever, share, walk, walkAll]
  exact ⟨hk, hints, hplain, rfl, (exact_on_single_passes hk hints hplain).1 _ rfl, hdivided, rfl,
    (exact_on_single_passes hk hints hdivided).2.1 _ _ _ _ rfl⟩

end Primer.KnownValues
