/-!
Tables in order of insertion.

A table binds texts to values. A new key goes to the end, and a key that is bound again keeps its
place.
-/

namespace Primer

abbrev Table (α : Type) := List (String × α)

namespace Table

variable {α : Type}

/-- The value of a key. -/
def get? (t : Table α) (key : String) : Option α := List.lookup key t

/-- Binds a key. -/
def set (key : String) (value : α) : Table α → Table α
  | [] => [(key, value)]
  | (k, v) :: r => if k = key then (k, value) :: r else (k, v) :: set key value r

/-- Removes a key. -/
def erase (t : Table α) (key : String) : Table α := t.filter fun e => e.1 ≠ key

/-- The first table with the bindings of the second added in order. -/
def update (t u : Table α) : Table α := u.foldl (fun t e => set e.1 e.2 t) t

theorem get?_set (key x : String) (value : α) (t : Table α) :
    get? (set key value t) x = if x = key then some value else get? t x := by
  induction t with
  | nil =>
    simp only [set, get?, List.lookup_cons, List.lookup_nil]
    by_cases h : x = key
    · simp [h]
    · have : (x == key) = false := by simpa using h
      simp [h, this]
  | cons e r ih =>
    obtain ⟨k, v⟩ := e
    simp only [get?, set] at ih ⊢
    by_cases hk : k = key
    · subst hk
      by_cases hx : x = k
      · simp [hx]
      · have : (x == k) = false := by simpa using hx
        simp [List.lookup_cons, hx, this]
    · simp only [hk, if_false, List.lookup_cons]
      by_cases hx : x = k
      · subst hx
        simp [hk]
      · have : (x == k) = false := by simpa using hx
        simp [this, ih]

/-- Every key is bound once. -/
def Distinct (t : Table α) : Prop := (t.map Prod.fst).Nodup

theorem distinct_filter {t : Table α} (h : t.Distinct) (keep : String × α → Bool) :
    Distinct (t.filter keep) :=
  List.Nodup.sublist (List.filter_sublist.map _) h

theorem distinct_erase {t : Table α} (h : t.Distinct) (key : String) : Distinct (erase t key) :=
  distinct_filter h _

theorem mem_keys_set (key x : String) (value : α) (t : Table α) :
    x ∈ (set key value t).map Prod.fst ↔ x = key ∨ x ∈ t.map Prod.fst := by
  induction t with
  | nil => simp [set]
  | cons e r ih =>
    obtain ⟨k, v⟩ := e
    by_cases hk : k = key
    · subst hk
      simp [set]
    · simp only [set, hk, if_false, List.map_cons, List.mem_cons, ih]
      grind

theorem distinct_set {t : Table α} (h : t.Distinct) (key : String) (value : α) :
    Distinct (set key value t) := by
  induction t with
  | nil => simp [set, Distinct]
  | cons e r ih =>
    obtain ⟨k, v⟩ := e
    have hcons : k ∉ r.map Prod.fst ∧ Distinct r := List.nodup_cons.mp h
    by_cases hk : k = key
    · rw [set, if_pos hk]
      exact List.nodup_cons.mpr hcons
    · rw [set, if_neg hk]
      refine List.nodup_cons.mpr ⟨?_, ih hcons.2⟩
      rw [mem_keys_set]
      exact fun hmem => hmem.elim hk hcons.1

/-- Where keys are bound once, the pairs of a table are its bindings. -/
theorem get?_eq_some_iff {t : Table α} (h : t.Distinct) {x : String} {v : α} :
    get? t x = some v ↔ (x, v) ∈ t := by
  induction t with
  | nil => simp [get?]
  | cons e r ih =>
    obtain ⟨k, w⟩ := e
    have hcons : k ∉ r.map Prod.fst ∧ Distinct r := List.nodup_cons.mp h
    have hr : List.lookup x r = some v ↔ (x, v) ∈ r := ih hcons.2
    by_cases hx : x = k
    · subst hx
      have hout : (x, v) ∉ r := fun hmem => hcons.1 (List.mem_map.mpr ⟨_, hmem, rfl⟩)
      simp [get?, hout, eq_comm]
    · have hne : (x == k) = false := by simpa using hx
      simp [get?, List.lookup_cons, hne, hr, hx]

theorem get?_filter {t : Table α} (h : t.Distinct) (keep : String × α → Bool) (x : String)
    (v : α) : get? (t.filter keep) x = some v ↔ get? t x = some v ∧ keep (x, v) := by
  rw [get?_eq_some_iff (distinct_filter h keep), get?_eq_some_iff h, List.mem_filter]

theorem get?_erase {t : Table α} (h : t.Distinct) (key x : String) :
    get? (erase t key) x = if x = key then none else get? t x := by
  apply Option.ext
  intro v
  rw [erase, get?_filter h]
  by_cases hx : x = key <;> simp [hx]

end Table

end Primer
