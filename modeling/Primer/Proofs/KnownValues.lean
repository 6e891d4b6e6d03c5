import Primer.Check.KnownValues
import Primer.Proofs.Number
import Primer.Proofs.Paths

/-!
What the values known to the division check say about the runs of a program.

A run keeps a store: a literal number and a variable of known value give their value to the target
of a store, and anything else makes it unknown. In scoped mode the check follows the body of a loop
once, from the values known before the loop. What it reports therefore holds on the paths on which
no body runs twice; whether it holds on all paths is decided by following each body again until
nothing more is lost (`settled`), and the two need not agree.
-/

namespace Primer.KnownValues

open Node Computability

abbrev Store := String → Option Number

def worth (s : Store) : Option Tree → Option Number
  | some (.literal v _) => v.number?
  | some (.name y _) => s y
  | _ => none

def Store.step (s : Store) : Tree → Store
  | .declare _ x v _ => Function.update s x (worth s v)
  | .assign x v _ => Function.update s x (worth s (some v))
  | _ => s

def replay (s : Store) (p : List Tree) : Store := p.foldl Store.step s

lemma replay_append (s : Store) (p q : List Tree) : replay s (p ++ q) = replay (replay s p) q := by
  simp [replay]

/-- A variable holds a value equal to `v`. -/
def Holds (s : Store) (x : String) (v : Number) : Prop := ∃ w, s x = some w ∧ w.Agrees v

def Knows (known : Known) (s : Store) : Prop := ∀ x v, Table.get? known x = some v → Holds s x v

lemma Holds.congr {s : Store} {x : String} {v w : Number} (h : Holds s x v) (hvw : v.Agrees w) :
    Holds s x w := by
  obtain ⟨u, hu, huv⟩ := h
  exact ⟨u, hu, huv.trans hvw⟩

/-- A table read as a store takes a stored value just as a store does. -/
lemma get?_bind {known : Known} (hk : Table.Distinct known) (x : String) (value : Option Tree) :
    Table.get? (bind x value known) =
      Function.update (Table.get? known) x (worth (Table.get? known) value) := by
  funext y
  unfold bind
  split
  · rw [Table.get?_set, Function.update_apply]
    rfl
  · rw [Table.get?_set, Function.update_apply]
    rfl
  · rename_i z loc
    rw [Function.update_apply, show worth (Table.get? known) (some (.name z loc)) =
      Table.get? known z from rfl]
    split <;> rename_i hz
    · rw [Table.get?_set, hz]
    · rw [Table.get?_erase hk, hz]
  · rename_i hint hfloat hname
    have hworth : worth (Table.get? known) value = none := by
      rcases value with _ | ⟨_ | _ | _ | _, loc⟩ | _ <;> first | rfl | grind
    rw [Table.get?_erase hk, Function.update_apply, hworth]

lemma distinct_bind {known : Known} (hk : Table.Distinct known) (x : String)
    (value : Option Tree) : Table.Distinct (bind x value known) := by
  unfold bind
  split
  · exact Table.distinct_set hk _ _
  · exact Table.distinct_set hk _ _
  · split
    · exact Table.distinct_set hk _ _
    · exact Table.distinct_erase hk _
  · exact Table.distinct_erase hk _

lemma get?_meet {first second : Known} (hf : Table.Distinct first) {x : String} {v : Number} :
    Table.get? (meet first second) x = some v ↔
      Table.get? first x = some v ∧ ∃ w, Table.get? second x = some w ∧ w.same v := by
  rw [meet, Table.get?_filter hf]
  simp [Option.any_eq_true]

/-! ### Bodies that run at most once -/

/-- The table `k'` is right after every path of `P` that starts where `k` is right. -/
structure Keeps (k k' : Known) (P : Language Tree) : Prop where
  distinct : Table.Distinct k'
  holds : ∀ s, Knows k s → ∀ p ∈ P, Knows k' (replay s p)

namespace Keeps

variable {a b c : Known} {P Q : Language Tree}

lemma nothing (ha : Table.Distinct a) : Keeps a a 1 where
  distinct := ha
  holds s hs p hp := by
    obtain rfl : p = [] := hp
    exact hs

/-- A node that stores nothing. -/
lemma idle {n : Tree} (ha : Table.Distinct a) (hn : ∀ s : Store, s.step n = s) :
    Keeps a a {[n]} where
  distinct := ha
  holds s hs p hp := by
    obtain rfl : p = [n] := hp
    rw [show replay s [n] = s from hn s]
    exact hs

lemma mul (hP : Keeps a b P) (hQ : Keeps b c Q) : Keeps a c (P * Q) where
  distinct := hQ.distinct
  holds s hs r hr := by
    obtain ⟨p, hp, q, hq, rfl⟩ := Language.mem_mul.mp hr
    rw [replay_append]
    exact hQ.holds _ (hP.holds s hs p hp) q hq

/-- What two ways agree on holds on both. -/
lemma meet (hP : Keeps a b P) (hQ : Keeps a c Q) : Keeps a (meet b c) (P + Q) where
  distinct := Table.distinct_filter hP.distinct _
  holds s hs p hp x v hv := by
    obtain ⟨hb, w, hc, hw⟩ := (get?_meet hP.distinct).mp hv
    rcases hp with hp | hp
    · exact hP.holds s hs p hp x v hb
    · exact (hQ.holds s hs p hp x w hc).congr (Or.inr hw)

end Keeps

/-- What a store knows about a value carries over to what the value is worth. -/
lemma Knows.worth {known : Known} {s : Store} (hs : Knows known s) {value : Option Tree}
    {v : Number} (hv : worth (Table.get? known) value = some v) :
    ∃ w, KnownValues.worth s value = some w ∧ w.Agrees v := by
  unfold KnownValues.worth at hv ⊢
  split at hv
  · exact ⟨v, hv, .refl v⟩
  · exact hs _ v hv
  · cases hv

lemma Keeps.store {n : Tree} {x : String} {value : Option Tree} {known : Known}
    (hk : Table.Distinct known)
    (hn : ∀ s : Store, s.step n = Function.update s x (worth s value)) :
    Keeps known (bind x value known) {[n]} where
  distinct := distinct_bind hk x value
  holds s hs p hp y v hv := by
    obtain rfl : p = [n] := hp
    rw [get?_bind hk, Function.update_apply] at hv
    rw [Holds, show replay s [n] = s.step n from rfl, hn, Function.update_apply]
    split at hv <;> rename_i hy
    · rw [if_pos hy]
      exact hs.worth hv
    · rw [if_neg hy]
      exact hs y v hv

lemma joinBranches_eq_finished {known k : Known} {yes : Outcome} {no : Known → Outcome} :
    joinBranches true known yes no = .finished k ↔
      ∃ y n, yes = .finished y ∧ no known = .finished n ∧ k = meet y n := by
  unfold joinBranches
  rcases yes with y | ⟨f, y⟩ <;> rcases no known with n | ⟨g, n⟩ <;> simp [eq_comm]

lemma joinLoop_eq_finished {known k : Known} {once : Outcome} :
    joinLoop true known once = .finished k ↔ ∃ o, once = .finished o ∧ k = meet known o := by
  unfold joinLoop
  rcases once with o | ⟨f, o⟩ <;> simp [eq_comm]

lemma checkAll_keeps {ns : List Tree} (ih : ∀ n ∈ ns, ∀ k k', Table.Distinct k →
      check true k n = .finished k' → Keeps k k' (n.paths atMostOnce)) :
    ∀ k k', Table.Distinct k → checkAll true k ns = .finished k' →
      Keeps k k' (pathsAll atMostOnce ns) := by
  induction ns with
  | nil =>
    intro k k' hk h
    rw [checkAll, Progress.finished.injEq] at h
    exact h ▸ .nothing hk
  | cons n ns ihs =>
    intro k k' hk h
    rw [checkAll, Progress.andThen_eq_finished] at h
    obtain ⟨mid, hn, hns⟩ := h
    have first := ih n (by simp) _ _ hk hn
    exact first.mul (ihs (fun m hm => ih m (by simp [hm])) _ _ first.distinct hns)

/-- In scoped mode the values known after a tree hold after every path on which no body of a loop
runs twice. -/
lemma check_keeps (t : Tree) : ∀ k k', Table.Distinct k → check true k t = .finished k' →
    Keeps k k' (t.paths atMostOnce) := by
  induction t using Node.induction with
  | literal v loc =>
    intro k k' hk h
    rw [check, Progress.finished.injEq] at h
    exact h ▸ .nothing hk
  | name x loc =>
    intro k k' hk h
    rw [check, Progress.finished.injEq] at h
    exact h ▸ .idle hk fun _ => rfl
  | binary op l r loc ihl ihr =>
    intro k k' hk h
    rw [check] at h
    split at h
    · cases h
    · rw [Progress.andThen_eq_finished] at h
      obtain ⟨mid, hl, hr⟩ := h
      have left := ihl _ _ hk hl
      exact (Keeps.idle hk fun _ => rfl).mul (left.mul (ihr _ _ left.distinct hr))
  | declare t x v loc ih =>
    intro k k' hk h
    rcases v with _ | v
    · rw [check, Progress.finished.injEq] at h
      exact h ▸ .store hk fun _ => rfl
    · rw [check, Progress.andThen_eq_finished] at h
      obtain ⟨mid, hv, hx⟩ := h
      rw [Progress.finished.injEq] at hx
      have value := ih v rfl _ _ hk hv
      exact hx ▸ value.mul (.store value.distinct fun _ => rfl)
  | assign x v loc ih =>
    intro k k' hk h
    rw [check, Progress.andThen_eq_finished] at h
    obtain ⟨mid, hv, hx⟩ := h
    rw [Progress.finished.injEq] at hx
    have value := ih _ _ hk hv
    exact hx ▸ value.mul (.store value.distinct fun _ => rfl)
  | branch c b e loc ihc ihb ihe =>
    intro k k' hk h
    rcases e with _ | e
    · rw [check, Progress.andThen_eq_finished] at h
      obtain ⟨mid, hc, hb⟩ := h
      rw [joinBranches_eq_finished] at hb
      obtain ⟨y, n, hb, hn, rfl⟩ := hb
      rw [Progress.finished.injEq] at hn
      have cond := ihc _ _ hk hc
      exact cond.mul ((ihb _ _ cond.distinct hb).meet (hn ▸ .nothing cond.distinct))
    · rw [check, Progress.andThen_eq_finished] at h
      obtain ⟨mid, hc, hb⟩ := h
      rw [joinBranches_eq_finished] at hb
      obtain ⟨y, n, hb, hn, rfl⟩ := hb
      have cond := ihc _ _ hk hc
      exact cond.mul ((ihb _ _ cond.distinct hb).meet (ihe e rfl _ _ cond.distinct hn))
  | whileLoop c b loc ihc ihb =>
    intro k k' hk h
    rw [check, Progress.andThen_eq_finished] at h
    obtain ⟨mid, hc, hb⟩ := h
    rw [joinLoop_eq_finished] at hb
    obtain ⟨o, hb, rfl⟩ := hb
    have cond := ihc _ _ hk hc
    rw [paths, atMostOnce, add_comm]
    exact cond.mul ((Keeps.nothing cond.distinct).meet (ihb _ _ cond.distinct hb))
  | forLoop b loc ih =>
    intro k k' hk h
    rw [check, joinLoop_eq_finished] at h
    obtain ⟨o, hb, rfl⟩ := h
    rw [paths, atMostOnce, add_comm, one_mul]
    exact (Keeps.nothing hk).meet (ih _ _ hk hb)
  | ret v loc ih =>
    intro k k' hk h
    rcases v with _ | v
    · rw [check, Progress.finished.injEq] at h
      exact h ▸ .nothing hk
    · exact ih v rfl _ _ hk h
  | block ns loc ih | program ns loc ih =>
    intro k k' hk h
    exact checkAll_keeps ih _ _ hk h

/-! ### Bodies that run any number of times -/

/-- The values of the first table that the second one confirms. Unlike `meet` it keeps what is no
number, if both tables have it. -/
def agree (first second : Known) : Known :=
  first.filter fun e => (Table.get? second e.1).any fun v => decide (v.Agrees e.2)

/-- The table of which rounds take nothing more away. A round that changes a table makes it
shorter, so there are no more such rounds than entries. -/
def settle (round : Known → Known) (known : Known) : Known :=
  (fun k => agree k (round k))^[known.length] known

mutual

def settled (known : Known) : Tree → Known
  | .literal _ _ => known
  | .name _ _ => known
  | .binary _ l r _ => settled (settled known l) r
  | .declare _ x none _ => bind x none known
  | .declare _ x (some v) _ => bind x (some v) (settled known v)
  | .assign x v _ => bind x (some v) (settled known v)
  | .branch c b none _ => agree (settled (settled known c) b) (settled known c)
  | .branch c b (some e) _ => agree (settled (settled known c) b) (settled (settled known c) e)
  | .whileLoop c b _ => settle (fun k => settled (settled k b) c) (settled known c)
  | .forLoop b _ => settle (fun k => settled k b) known
  | .ret none _ => known
  | .ret (some v) _ => settled known v
  | .block ns _ => settledAll known ns
  | .program ns _ => settledAll known ns

def settledAll (known : Known) : List Tree → Known
  | [] => known
  | n :: ns => settledAll (settled known n) ns

end

/-- A store that tells exactly what a set of stores have in common. -/
def Common (k : Store) (S : Set Store) : Prop := ∀ x v, Holds k x v ↔ ∀ s ∈ S, Holds s x v

def reached (S : Set Store) (P : Language Tree) : Set Store :=
  {s' | ∃ s ∈ S, ∃ p ∈ P, replay s p = s'}

lemma reached_one (S : Set Store) : reached S 1 = S := by
  ext s'
  constructor
  · rintro ⟨s, hs, p, hp, rfl⟩
    obtain rfl : p = [] := hp
    exact hs
  · intro hs
    exact ⟨s', hs, [], rfl, rfl⟩

lemma reached_mul (S : Set Store) (P Q : Language Tree) :
    reached S (P * Q) = reached (reached S P) Q := by
  ext s'
  constructor
  · rintro ⟨s, hs, r, hr, rfl⟩
    obtain ⟨p, hp, q, hq, rfl⟩ := Language.mem_mul.mp hr
    exact ⟨replay s p, ⟨s, hs, p, hp, rfl⟩, q, hq, (replay_append s p q).symm⟩
  · rintro ⟨-, ⟨s, hs, p, hp, rfl⟩, q, hq, rfl⟩
    exact ⟨s, hs, p ++ q, Language.append_mem_mul hp hq, replay_append s p q⟩

lemma reached_add (S : Set Store) (P Q : Language Tree) :
    reached S (P + Q) = reached S P ∪ reached S Q := by
  ext s'
  constructor
  · rintro ⟨s, hs, p, hp | hp, rfl⟩
    · exact Or.inl ⟨s, hs, p, hp, rfl⟩
    · exact Or.inr ⟨s, hs, p, hp, rfl⟩
  · rintro (⟨s, hs, p, hp, rfl⟩ | ⟨s, hs, p, hp, rfl⟩)
    · exact ⟨s, hs, p, Or.inl hp, rfl⟩
    · exact ⟨s, hs, p, Or.inr hp, rfl⟩

lemma holds_agree {first second : Known} (hf : Table.Distinct first) {x : String} {v : Number} :
    Holds (Table.get? (agree first second)) x v ↔
      Holds (Table.get? first) x v ∧ Holds (Table.get? second) x v := by
  simp only [Holds, agree, Table.get?_filter hf, Option.any_eq_true, decide_eq_true_eq]
  constructor
  · rintro ⟨w, ⟨hw, u, hu, huw⟩, hwv⟩
    exact ⟨⟨w, hw, hwv⟩, u, hu, huw.trans hwv⟩
  · rintro ⟨⟨w, hw, hwv⟩, u, hu, huv⟩
    exact ⟨w, ⟨hw, u, hu, huv.trans hwv.symm⟩, hwv⟩

lemma common_union {first second : Known} {S T : Set Store} (hf : Table.Distinct first)
    (hS : Common (Table.get? first) S) (hT : Common (Table.get? second) T) :
    Common (Table.get? (agree first second)) (S ∪ T) := by
  intro x v
  rw [holds_agree hf, hS x v, hT x v]
  constructor
  · rintro ⟨h, h'⟩ s (hs | hs)
    · exact h s hs
    · exact h' s hs
  · intro h
    exact ⟨fun s hs => h s (Or.inl hs), fun s hs => h s (Or.inr hs)⟩

/-- What a value is worth is again what the stores have in common. -/
lemma common_worth {k : Store} {S : Set Store} (hS : Common k S) (hne : S.Nonempty)
    (value : Option Tree) (v : Number) :
    (∃ w, worth k value = some w ∧ w.Agrees v) ↔
      ∀ s ∈ S, ∃ w, worth s value = some w ∧ w.Agrees v := by
  unfold worth
  split
  · exact ⟨fun h s _ => h, fun h => h _ hne.some_mem⟩
  · exact hS _ v
  · exact ⟨fun h s _ => h, fun h => h _ hne.some_mem⟩

/-- The tables that `F` gives are exactly what the paths of `P` have in common. -/
structure Follows (F : Known → Known) (P : Language Tree) : Prop where
  inhabited : ∃ p, p ∈ P
  distinct : ∀ k, Table.Distinct k → Table.Distinct (F k)
  common : ∀ k S, Table.Distinct k → S.Nonempty → Common (Table.get? k) S →
    Common (Table.get? (F k)) (reached S P)

namespace Follows

variable {F G : Known → Known} {P Q : Language Tree}

lemma nonempty (hF : Follows F P) {S : Set Store} (hS : S.Nonempty) : (reached S P).Nonempty := by
  obtain ⟨s, hs⟩ := hS
  obtain ⟨p, hp⟩ := hF.inhabited
  exact ⟨_, s, hs, p, hp, rfl⟩

lemma nothing : Follows id 1 where
  inhabited := ⟨[], rfl⟩
  distinct _ hk := hk
  common k S _ _ h := by rwa [reached_one]

/-- A node that stores nothing. -/
lemma idle {n : Tree} (hn : ∀ s : Store, s.step n = s) : Follows id {[n]} where
  inhabited := ⟨[n], rfl⟩
  distinct _ hk := hk
  common k S _ _ h := by
    have : reached S {[n]} = S := by
      ext s'
      constructor
      · rintro ⟨s, hs, p, hp, rfl⟩
        obtain rfl : p = [n] := hp
        rwa [show replay s [n] = s from hn s]
      · intro hs
        exact ⟨s', hs, [n], rfl, hn s'⟩
    rwa [this]

lemma mul (hF : Follows F P) (hG : Follows G Q) : Follows (fun k => G (F k)) (P * Q) where
  inhabited := by
    obtain ⟨p, hp⟩ := hF.inhabited
    obtain ⟨q, hq⟩ := hG.inhabited
    exact ⟨p ++ q, Language.append_mem_mul hp hq⟩
  distinct k hk := hG.distinct _ (hF.distinct k hk)
  common k S hk hS h := by
    rw [reached_mul]
    exact hG.common _ _ (hF.distinct k hk) (hF.nonempty hS) (hF.common k S hk hS h)

lemma add (hF : Follows F P) (hG : Follows G Q) :
    Follows (fun k => agree (F k) (G k)) (P + Q) where
  inhabited := by
    obtain ⟨p, hp⟩ := hF.inhabited
    exact ⟨p, Or.inl hp⟩
  distinct k hk := Table.distinct_filter (hF.distinct k hk) _
  common k S hk hS h := by
    rw [reached_add]
    exact common_union (hF.distinct k hk) (hF.common k S hk hS h) (hG.common k S hk hS h)

lemma store {n : Tree} {x : String} {value : Option Tree}
    (hn : ∀ s : Store, s.step n = Function.update s x (worth s value)) :
    Follows (bind x value) {[n]} where
  inhabited := ⟨[n], rfl⟩
  distinct k hk := distinct_bind hk x value
  common k S hk hS h y v := by
    have hall : (∀ s' ∈ reached S {[n]}, Holds s' y v) ↔
        ∀ s ∈ S, Holds (Function.update s x (worth s value)) y v := by
      constructor
      · intro hr s hs
        exact hn s ▸ hr _ ⟨s, hs, [n], rfl, rfl⟩
      · rintro hr s' ⟨s, hs, p, hp, rfl⟩
        obtain rfl : p = [n] := hp
        rw [show replay s [n] = s.step n from rfl, hn]
        exact hr s hs
    rw [hall, get?_bind hk]
    simp only [Holds, Function.update_apply]
    by_cases hy : y = x
    · simp only [hy, if_true]
      exact common_worth h hS value v
    · simp only [hy, if_false]
      exact h y v

end Follows

/-! A round only drops entries, so after as many rounds as there are entries it drops no more. -/

lemma length_agree_lt {k l : Known} (h : agree k l ≠ k) : (agree k l).length < k.length := by
  refine lt_of_le_of_ne (List.length_filter_le _ _) fun hlen => h ?_
  exact List.Sublist.eq_of_length List.filter_sublist hlen

lemma agree_fixed (round : Known → Known) (n : ℕ) (k : Known) (hk : k.length ≤ n) :
    agree ((fun k => agree k (round k))^[n] k) (round ((fun k => agree k (round k))^[n] k)) =
      (fun k => agree k (round k))^[n] k := by
  induction n generalizing k with
  | zero =>
    obtain rfl : k = [] := by simpa using hk
    rfl
  | succ n ih =>
    by_cases hfix : agree k (round k) = k
    · rw [Function.iterate_fixed hfix]
      exact hfix
    · rw [Function.iterate_succ_apply]
      exact ih _ (by have := length_agree_lt hfix; omega)

lemma settle_eq (round : Known → Known) (k : Known) (n : ℕ) :
    (fun k => agree k (round k))^[n + k.length] k = settle round k := by
  rw [Function.iterate_add_apply]
  exact Function.iterate_fixed (agree_fixed round k.length k le_rfl) n

namespace Follows

variable {F G : Known → Known} {P Q : Language Tree}

/-- Some rounds, each of which may be left out. -/
lemma pow (hF : Follows F P) (n : ℕ) :
    Follows (fun k => (fun k => agree k (F k))^[n] k) ((1 + P) ^ n) := by
  induction n with
  | zero => exact nothing
  | succ n ih =>
    have hstep : Follows (fun k => agree k (F k)) (1 + P) := nothing.add hF
    simp only [Function.iterate_succ_apply', pow_succ]
    exact ih.mul hstep

lemma kstar (hF : Follows F P) : Follows (settle F) P∗ where
  inhabited := ⟨[], Language.nil_mem_kstar P⟩
  distinct k hk := (hF.pow k.length).distinct k hk
  common k S hk hS h x v := by
    constructor
    · -- a path with `n` rounds is met by the table after that many more rounds than needed
      rintro hv s' ⟨s, hs, p, hp, rfl⟩
      rw [Language.kstar_eq_iSup_pow, Language.mem_iSup] at hp
      obtain ⟨n, hp⟩ := hp
      have hone : P ^ n ≤ (1 + P) ^ n := pow_le_pow_left' (le_add_of_nonneg_left zero_le) n
      have hrest : 1 ≤ (1 + P) ^ k.length :=
        one_le_pow_of_one_le' (le_add_of_nonneg_right zero_le) _
      have hmem : p ∈ (1 + P) ^ (n + k.length) := by
        rw [pow_add, ← List.append_nil p]
        exact Language.append_mem_mul (hone hp) (hrest Language.nil_mem_one)
      rw [← settle_eq F k n] at hv
      exact ((hF.pow (n + k.length)).common k S hk hS h x v).mp hv _ ⟨s, hs, p, hmem, rfl⟩
    · intro hv
      refine ((hF.pow k.length).common k S hk hS h x v).mpr ?_
      rintro s' ⟨s, hs, p, hp, rfl⟩
      refine hv _ ⟨s, hs, p, ?_, rfl⟩
      have hle : (1 + P) ^ k.length ≤ P∗ := by
        refine (pow_le_pow_left' (add_le one_le_kstar le_kstar) _).trans ?_
        exact (pow_le_kstar).trans (kstar_idem P).le
      exact hle hp

lemma freely (hF : Follows F P) (hG : Follows G Q) :
    Follows (fun k => settle (fun k => F (G k)) (F k)) (freely P Q) :=
  hF.mul (hG.mul hF).kstar

end Follows

lemma settledAll_follows {ns : List Tree}
    (ih : ∀ n ∈ ns, Follows (settled · n) (n.paths Node.freely)) :
    Follows (settledAll · ns) (pathsAll Node.freely ns) := by
  induction ns with
  | nil => exact .nothing
  | cons n ns ihs => exact (ih n (by simp)).mul (ihs fun m hm => ih m (by simp [hm]))

/-- The values that stay known when loops are followed to the end are those on which all paths
agree. -/
lemma settled_follows (t : Tree) : Follows (settled · t) (t.paths Node.freely) := by
  induction t using Node.induction with
  | literal v loc => exact .nothing
  | name x loc => exact .idle fun _ => rfl
  | binary op l r loc ihl ihr => exact (Follows.idle fun _ => rfl).mul (ihl.mul ihr)
  | declare t x v loc ih =>
    rcases v with _ | v
    · exact .store fun _ => rfl
    · exact (ih v rfl).mul (.store fun _ => rfl)
  | assign x v loc ih => exact ih.mul (.store fun _ => rfl)
  | branch c b e loc ihc ihb ihe =>
    rcases e with _ | e
    · exact ihc.mul (ihb.add .nothing)
    · exact ihc.mul (ihb.add (ihe e rfl))
  | whileLoop c b loc ihc ihb => exact ihc.freely ihb
  | forLoop b loc ih => exact Follows.nothing.freely ih
  | ret v loc ih =>
    rcases v with _ | v
    · exact .nothing
    · exact ih v rfl
  | block ns loc ih | program ns loc ih => exact settledAll_follows ih

lemma knows_self (known : Known) : Knows known (Table.get? known) :=
  fun _ v hv => ⟨v, hv, .refl v⟩

/-- A table is what the stores that it is right about have in common. -/
lemma common_knows (known : Known) : Common (Table.get? known) {s | Knows known s} := by
  intro x v
  constructor
  · rintro ⟨w, hw, hwv⟩ s hs
    exact (hs x w hw).congr hwv
  · intro h
    exact h _ (knows_self known)

/-- **What the scoped check reports.** The reported values hold after every path on which no body
of a loop runs twice. They hold after every path exactly if following the loops to the end
confirms them. -/
theorem known_on_every_path_iff {t : Tree} {known known' : Known} (hk : Table.Distinct known)
    (h : check true known t = .finished known') :
    (∀ s, Knows known s → ∀ p ∈ t.paths atMostOnce, Knows known' (replay s p)) ∧
      ((∀ s, Knows known s → ∀ p ∈ t.paths Node.freely, Knows known' (replay s p)) ↔
        Knows known' (Table.get? (settled known t))) := by
  refine ⟨(check_keeps t known known' hk h).holds, ?_⟩
  have hne : {s | Knows known s}.Nonempty := ⟨_, knows_self known⟩
  have hcommon := (settled_follows t).common known _ hk hne (common_knows known)
  constructor
  · intro hall x v hv
    refine (hcommon x v).mpr ?_
    rintro s' ⟨s, hs, p, hp, rfl⟩
    exact hall s hs p hp x v hv
  · intro hsettled s hs p hp x v hv
    exact (hcommon x v).mp (hsettled x v hv) _ ⟨s, hs, p, hp, rfl⟩

def copy (target source : String) : Tree := .assign target (.name source none) none

def put (target : String) (value : Int) : Tree := .assign target (.literal (.int value) none) none

def forever (body : List Tree) : Tree :=
  .whileLoop (.literal (.bool true) none) (.block body none) none

def refresh : Tree := .program [put "x" 1, put "y" 1, forever [copy "x" "y", put "w" 3]] none

theorem refresh_known_on_every_path :
    Table.Distinct ([] : Known) ∧
      check true [] refresh = .finished [("x", .int 1), ("y", .int 1)] ∧
      ∀ s, Knows [] s → ∀ p ∈ refresh.paths Node.freely,
        Knows [("x", .int 1), ("y", .int 1)] (replay s p) := by
  have hk : Table.Distinct ([] : Known) := List.nodup_nil
  refine ⟨hk, rfl, (known_on_every_path_iff hk (t := refresh) rfl).2.mpr ?_⟩
  exact knows_self [("x", .int 1), ("y", .int 1)]

/-- Three values, and a loop that moves them on by one place in each round. -/
def shift : Tree :=
  .program [put "x" 1, put "y" 1, put "z" 2, forever [copy "x" "y", copy "y" "z"]] none

def shiftRound : List Tree := [.name "y" none, copy "x" "y", .name "z" none, copy "y" "z"]

lemma shift_twice :
    [put "x" 1, put "y" 1, put "z" 2] ++ (shiftRound ++ shiftRound) ∈ shift.paths Node.freely := by
  have body : shiftRound ∈ paths Node.freely (.block [copy "x" "y", copy "y" "z"] none) * 1 :=
    ⟨_, ⟨_, ⟨[.name "y" none], rfl, _, rfl, rfl⟩, _,
      ⟨_, ⟨[.name "z" none], rfl, _, rfl, rfl⟩, [], rfl, rfl⟩, rfl⟩, [], rfl, rfl⟩
  have loop : shiftRound ++ shiftRound ∈
      paths Node.freely (forever [copy "x" "y", copy "y" "z"]) := by
    refine mem_freely.mpr ⟨[], rfl, [shiftRound, shiftRound], fun r hr => ?_, rfl⟩
    obtain rfl : r = shiftRound := by simpa using hr
    exact body
  exact ⟨_, ⟨[], rfl, _, rfl, rfl⟩, _, ⟨_, ⟨[], rfl, _, rfl, rfl⟩, _,
    ⟨_, ⟨[], rfl, _, rfl, rfl⟩, _, ⟨_, loop, [], rfl, rfl⟩, rfl⟩, rfl⟩, rfl⟩

/-- After one round `x` still holds one, and that is reported; after two rounds it holds two. -/
theorem shift_not_known_on_every_path :
    check true [] shift = .finished [("x", .int 1), ("z", .int 2)] ∧
      Knows [] (fun _ => none) ∧
      ∃ p ∈ shift.paths Node.freely,
        replay (fun _ => none) p "x" = some (.int 2) ∧
        ¬ Knows [("x", .int 1), ("z", .int 2)] (replay (fun _ => none) p) := by
  refine ⟨rfl, by simp [Knows, Table.get?], _, shift_twice, rfl, fun hknows => ?_⟩
  obtain ⟨w, hw, hagrees⟩ := hknows "x" (.int 1) rfl
  obtain rfl : Number.int 2 = w := Option.some.inj hw
  exact absurd hagrees (by decide)

end Primer.KnownValues
