import Mathlib.Data.List.Induction
import Mathlib.Tactic
import Primer.Table

/-!
What is left of bindings that are made one after the other.

A table that starts empty holds each key once, at the place of its first binding and with the value
of its last. Bindings that were first collected in a table of their own and then added to another
one leave the same as if they had been made there.
-/

namespace Primer

namespace Table

variable {α : Type} {t u : Table α} {key x : String} {value v : α}

lemma update_snoc (t u : Table α) (e : String × α) :
    update t (u ++ [e]) = set e.1 e.2 (update t u) := by
  rw [update, List.foldl_append]
  rfl

lemma update_append (t u u' : Table α) : update t (u ++ u') = update (update t u) u' :=
  List.foldl_append

lemma keys_set (key : String) (value : α) (t : Table α) :
    (set key value t).map Prod.fst =
      if key ∈ t.map Prod.fst then t.map Prod.fst else t.map Prod.fst ++ [key] := by
  induction t with
  | nil => simp [set]
  | cons e r ih =>
    obtain ⟨k, w⟩ := e
    by_cases hk : k = key
    · simp [set, hk]
    · have hne : key ≠ k := Ne.symm hk
      rw [set, if_neg hk, List.map_cons, ih]
      by_cases hmem : key ∈ r.map Prod.fst
      · rw [if_pos hmem, if_pos (by simp [hmem]), List.map_cons]
      · rw [if_neg hmem, if_neg (by simp [hmem, hne]), List.map_cons, List.cons_append]

lemma get?_cons (k x : String) (w : α) (r : Table α) :
    get? ((k, w) :: r) x = if x = k then some w else get? r x := by
  by_cases hx : x = k
  · simp [get?, hx]
  · have hne : (x == k) = false := by simpa using hx
    simp [get?, List.lookup_cons, hne, hx]

lemma mem_keys_iff : x ∈ t.map Prod.fst ↔ (get? t x).isSome := by
  induction t with
  | nil => simp [get?]
  | cons e r ih =>
    obtain ⟨k, w⟩ := e
    rw [List.map_cons, List.mem_cons, ih, get?_cons]
    by_cases hx : x = k <;> simp [hx]

/-- Where keys are bound once, a table is its keys with their values. -/
lemma eq_filterMap_keys (h : t.Distinct) :
    t = (t.map Prod.fst).filterMap fun x => (get? t x).map fun v => (x, v) := by
  have hself : t.filterMap (fun e => (get? t e.1).map fun v => (e.1, v)) = t.filterMap some := by
    refine List.filterMap_congr fun e he => ?_
    rw [(get?_eq_some_iff h).2 he]
    rfl
  rw [List.filterMap_map]
  exact (hself.trans List.filterMap_some).symm

/-! ### From the empty table -/

lemma keys_update_nil (u : Table α) :
    (update [] u).map Prod.fst = (u.map Prod.fst).eraseDups := by
  induction u using List.reverseRecOn with
  | nil => rfl
  | append_singleton u e ih =>
    rw [update_snoc, keys_set, ih, List.map_append, List.eraseDups_append, List.map_singleton]
    by_cases hmem : e.1 ∈ u.map Prod.fst
    · rw [if_pos (List.mem_eraseDups.2 hmem)]
      simp [List.removeAll, hmem]
    · rw [if_neg (mt List.mem_eraseDups.1 hmem)]
      simp [List.removeAll, hmem, List.eraseDups_cons]

lemma get?_update_nil (u : Table α) (x : String) :
    get? (update [] u) x = (u.filter fun e => e.1 = x).getLast?.map Prod.snd := by
  induction u using List.reverseRecOn with
  | nil => rfl
  | append_singleton u e ih =>
    rw [update_snoc, get?_set, List.filter_append]
    by_cases hx : x = e.1
    · simp [hx]
    · simp [hx, Ne.symm hx, ih]

lemma distinct_update_nil (u : Table α) : Distinct (update [] u) := by
  induction u using List.reverseRecOn with
  | nil => exact List.nodup_nil
  | append_singleton u e ih =>
    rw [update_snoc]
    exact distinct_set ih e.1 e.2

/-! ### Bindings that were collected before -/

lemma set_set (key : String) (value w : α) (t : Table α) :
    set key value (set key w t) = set key value t := by
  induction t with
  | nil => simp [set]
  | cons e r ih =>
    obtain ⟨k, w'⟩ := e
    by_cases hk : k = key
    · simp [set, hk]
    · simp [set, hk, ih]

/-- The order of two bindings matters only if both keys are new. -/
lemma set_comm {key key' : String} (hne : key ≠ key') (hmem : key ∈ t.map Prod.fst) (value w : α) :
    set key value (set key' w t) = set key' w (set key value t) := by
  induction t with
  | nil => simp at hmem
  | cons e r ih =>
    obtain ⟨k, w'⟩ := e
    by_cases hk : k = key
    · subst hk
      simp [set, hne]
    · have hr : key ∈ r.map Prod.fst := by simpa [Ne.symm hk] using hmem
      by_cases hk' : k = key'
      · subst hk'
        simp [set, hk]
      · simp [set, hk, hk', ih hr]

/-- A key that is already there can be bound before or after bindings of others. -/
lemma set_update (hu : key ∉ u.map Prod.fst) (ht : key ∈ t.map Prod.fst) (value : α) :
    set key value (update t u) = update (set key value t) u := by
  induction u generalizing t with
  | nil => rfl
  | cons e r ih =>
    obtain ⟨k, w⟩ := e
    simp only [List.map_cons, List.mem_cons, not_or] at hu
    have hmem : key ∈ (set k w t).map Prod.fst := (mem_keys_set k key w t).2 (.inr ht)
    calc set key value (update t ((k, w) :: r))
        = set key value (update (set k w t) r) := rfl
      _ = update (set key value (set k w t)) r := ih hu.2 hmem
      _ = update (set k w (set key value t)) r := by rw [set_comm hu.1 ht]
      _ = update (set key value t) ((k, w) :: r) := rfl

lemma update_set (hu : u.Distinct) (key : String) (value : α) (t : Table α) :
    update t (set key value u) = set key value (update t u) := by
  induction u generalizing t with
  | nil => rfl
  | cons e r ih =>
    obtain ⟨k, w⟩ := e
    have hcons : k ∉ r.map Prod.fst ∧ Distinct r := List.nodup_cons.1 hu
    by_cases hk : k = key
    · subst hk
      have hmem : k ∈ (set k w t).map Prod.fst := (mem_keys_set k k w t).2 (.inl rfl)
      calc update t (set k value ((k, w) :: r))
          = update (set k value t) r := by simp [set, update]
        _ = update (set k value (set k w t)) r := by rw [set_set]
        _ = set k value (update (set k w t) r) := (set_update hcons.1 hmem value).symm
    · calc update t (set key value ((k, w) :: r))
          = update (set k w t) (set key value r) := by simp [set, hk, update]
        _ = set key value (update (set k w t) r) := ih hcons.2 _

/-- Bindings leave the same whether or not they are collected first. -/
lemma update_update_nil (t u : Table α) : update t (update [] u) = update t u := by
  induction u using List.reverseRecOn with
  | nil => rfl
  | append_singleton u e ih =>
    rw [update_snoc, update_set (distinct_update_nil u), ih, update_snoc]

lemma foldl_update_nil (us : List (Table α)) (t : Table α) :
    (us.map (update [])).foldl update t = update t us.flatten := by
  induction us generalizing t with
  | nil => rfl
  | cons u us ih =>
    rw [List.map_cons, List.foldl_cons, ih, update_update_nil, List.flatten_cons, update_append]

lemma get?_update (hu : u.Distinct) (t : Table α) (x : String) :
    get? (update t u) x = (get? u x).or (get? t x) := by
  induction u generalizing t with
  | nil => rfl
  | cons e r ih =>
    obtain ⟨k, w⟩ := e
    have hcons : k ∉ r.map Prod.fst ∧ Distinct r := List.nodup_cons.1 hu
    have hrest : get? (update t ((k, w) :: r)) x = (get? r x).or (get? (set k w t) x) :=
      ih hcons.2 (set k w t)
    rw [hrest, get?_set, get?_cons]
    by_cases hx : x = k
    · subst hx
      have hnone : get? r x = none := by simpa [mem_keys_iff] using hcons.1
      simp [hnone]
    · simp [hx]

/-- Bindings that are added leave the keys in their places, with the new ones behind them. -/
lemma exists_keys_update (t u : Table α) :
    ∃ fresh, (update t u).map Prod.fst = t.map Prod.fst ++ fresh ∧ fresh.Nodup ∧
      ∀ x, x ∈ fresh ↔ x ∈ u.map Prod.fst ∧ x ∉ t.map Prod.fst := by
  induction u using List.reverseRecOn with
  | nil => exact ⟨[], by simp [update], List.nodup_nil, by simp⟩
  | append_singleton u e ih =>
    obtain ⟨fresh, hkeys, hnodup, hfresh⟩ := ih
    rw [update_snoc, keys_set, hkeys]
    split
    · rename_i hold
      refine ⟨fresh, rfl, hnodup, fun x => ?_⟩
      rw [List.mem_append, hfresh] at hold
      rw [hfresh, List.map_append, List.mem_append, List.map_singleton, List.mem_singleton]
      constructor
      · exact fun hx => ⟨.inl hx.1, hx.2⟩
      · rintro ⟨hx | rfl, hnot⟩
        · exact ⟨hx, hnot⟩
        · exact hold.resolve_left hnot
    · rename_i hnew
      rw [List.mem_append, not_or] at hnew
      refine ⟨fresh ++ [e.1], List.append_assoc _ _ _, ?_, fun x => ?_⟩
      · exact List.nodup_append'.2 ⟨hnodup, List.nodup_singleton _, by simpa using hnew.2⟩
      · rw [List.mem_append, List.mem_singleton, hfresh, List.map_append, List.mem_append,
          List.map_singleton, List.mem_singleton]
        constructor
        · rintro (hx | rfl)
          · exact ⟨.inl hx.1, hx.2⟩
          · exact ⟨.inr rfl, hnew.1⟩
        · rintro ⟨hx | rfl, hnot⟩
          · exact .inl ⟨hx, hnot⟩
          · exact .inr rfl

/-- A key that reads otherwise was bound by one of the bindings that were added. -/
lemma mem_of_get?_update_ne {t u : Table α} {x : String} (h : get? (update t u) x ≠ get? t x) :
    ∃ v, (x, v) ∈ u ∧ get? (update t u) x = some v := by
  have hget : get? (update t u) x = (get? (update [] u) x).or (get? t x) := by
    rw [← update_update_nil t u]
    exact get?_update (distinct_update_nil u) t x
  rw [hget] at h ⊢
  rw [get?_update_nil] at h ⊢
  cases hlast : (u.filter fun e => e.1 = x).getLast? with
  | none =>
    rw [hlast] at h
    exact absurd rfl h
  | some e =>
    obtain ⟨hmem, hx⟩ := List.mem_filter.1 (List.mem_of_getLast? hlast)
    obtain rfl : e.1 = x := by simpa using hx
    exact ⟨e.2, hmem, rfl⟩

/-- In tables that are added one after the other, the last one that has a key counts. -/
lemma get?_foldl_update {us : List (Table α)} (hus : ∀ u ∈ us, u.Distinct) (t : Table α)
    (x : String) :
    get? (us.foldl update t) x = (us.reverse.findSome? fun u => get? u x).or (get? t x) := by
  induction us generalizing t with
  | nil => rfl
  | cons u us ih =>
    rw [List.foldl_cons, ih (fun u hu => hus u (by simp [hu])), get?_update (hus u (by simp)),
      List.reverse_cons, List.findSome?_append, Option.or_assoc]
    simp

/-! ### Bindings with stamps -/

section Stamps

variable {κ : Type} [LinearOrder κ] {bs : List (κ × String × α)} {k : κ}

/-- The first of the bindings of a key has the stamp `k`. -/
def FirstAt (bs : List (κ × String × α)) (x : String) (k : κ) : Prop :=
  (∃ v, (k, x, v) ∈ bs) ∧ ∀ k' w, (k', x, w) ∈ bs → k ≤ k'

def LastAt (bs : List (κ × String × α)) (x : String) (v : α) (k : κ) : Prop :=
  (k, x, v) ∈ bs ∧ ∀ k' w, (k', x, w) ∈ bs → k' ≤ k

/-- Of bindings in the order of their stamps, the last one of a key counts. -/
lemma get?_update_stamped (h : bs.Pairwise fun a b => a.1 < b.1) :
    get? (update [] (bs.map Prod.snd)) x = some v ↔ ∃ k, LastAt bs x v k := by
  induction bs using List.reverseRecOn with
  | nil => simp [update, get?, LastAt]
  | append_singleton bs b ih =>
    obtain ⟨k, y, w⟩ := b
    obtain ⟨hbs, -, hlater⟩ := List.pairwise_append.1 h
    rw [List.map_append, List.map_singleton, update_snoc, get?_set]
    by_cases hx : x = y
    · subst hx
      rw [if_pos rfl]
      constructor
      · rintro ⟨⟩
        refine ⟨k, by simp, fun k' w' hmem => ?_⟩
        rcases List.mem_append.1 hmem with hmem | hmem
        · exact (hlater _ hmem (k, x, w) (by simp)).le
        · simp_all
      · rintro ⟨k', hmem, hlast⟩
        rcases List.mem_append.1 hmem with hmem | hmem
        · have hlt : k' < k := hlater _ hmem (k, x, w) (by simp)
          exact absurd (hlast k w (by simp)) hlt.not_ge
        · simp_all
    · have hmem (k' : κ) (w' : α) : (k', x, w') ∈ bs ++ [(k, y, w)] ↔ (k', x, w') ∈ bs := by
        simp [hx]
      simp only [if_neg hx, ih hbs, LastAt, hmem]

lemma FirstAt.snoc {b : κ × String × α} (h : FirstAt bs x k) (hb : ∀ a ∈ bs, a.1 < b.1) :
    FirstAt (bs ++ [b]) x k := by
  obtain ⟨⟨v, hv⟩, hfirst⟩ := h
  refine ⟨⟨v, List.mem_append_left _ hv⟩, fun k' w hmem => ?_⟩
  rcases List.mem_append.1 hmem with hmem | hmem
  · exact hfirst k' w hmem
  · obtain rfl := List.mem_singleton.1 hmem
    exact (hb _ hv).le

/-- A key that is bound for the first time. -/
lemma firstAt_snoc {b : κ × String × α}
    (h : b.2.1 ∉ (update [] (bs.map Prod.snd)).map Prod.fst) : FirstAt (bs ++ [b]) b.2.1 b.1 := by
  refine ⟨⟨b.2.2, by simp⟩, fun k' w hmem => ?_⟩
  rcases List.mem_append.1 hmem with hmem | hmem
  · rw [keys_update_nil, List.mem_eraseDups, List.map_map] at h
    exact absurd (List.mem_map_of_mem hmem) h
  · rw [← List.mem_singleton.1 hmem]

/-- Each key has a first binding, and the keys stand in the order of these. -/
lemma pairwise_keys_stamped (h : bs.Pairwise fun a b => a.1 < b.1) :
    (∀ x ∈ (update [] (bs.map Prod.snd)).map Prod.fst, ∃ k, FirstAt bs x k) ∧
      ((update [] (bs.map Prod.snd)).map Prod.fst).Pairwise fun x y =>
        ∃ k k', FirstAt bs x k ∧ FirstAt bs y k' ∧ k < k' := by
  induction bs using List.reverseRecOn with
  | nil => simp [update]
  | append_singleton bs b ih =>
    obtain ⟨hbs, -, hlater⟩ := List.pairwise_append.1 h
    obtain ⟨hfirst, hpairs⟩ := ih hbs
    have hb : ∀ a ∈ bs, a.1 < b.1 := fun a ha => hlater a ha b (by simp)
    replace hfirst : ∀ x ∈ (update [] (bs.map Prod.snd)).map Prod.fst,
        ∃ k < b.1, FirstAt (bs ++ [b]) x k := by
      intro x hx
      obtain ⟨k, hk⟩ := hfirst x hx
      obtain ⟨v, hv⟩ := hk.1
      exact ⟨k, hb _ hv, hk.snoc hb⟩
    replace hpairs : ((update [] (bs.map Prod.snd)).map Prod.fst).Pairwise fun x y =>
        ∃ k k', FirstAt (bs ++ [b]) x k ∧ FirstAt (bs ++ [b]) y k' ∧ k < k' := by
      refine hpairs.imp ?_
      rintro x y ⟨k, k', hk, hk', hlt⟩
      exact ⟨k, k', hk.snoc hb, hk'.snoc hb, hlt⟩
    rw [List.map_append, List.map_singleton, update_snoc, keys_set]
    split
    · refine ⟨fun x hx => ?_, hpairs⟩
      obtain ⟨k, -, hk⟩ := hfirst x hx
      exact ⟨k, hk⟩
    · rename_i hnew
      have hkey := firstAt_snoc hnew
      refine ⟨fun x hx => ?_, List.pairwise_append.2 ⟨hpairs, List.pairwise_singleton _ _, ?_⟩⟩
      · rcases List.mem_append.1 hx with hx | hx
        · obtain ⟨k, -, hk⟩ := hfirst x hx
          exact ⟨k, hk⟩
        · exact ⟨b.1, List.mem_singleton.1 hx ▸ hkey⟩
      · intro x hx y hy
        obtain ⟨k, hlt, hk⟩ := hfirst x hx
        exact ⟨k, b.1, hk, List.mem_singleton.1 hy ▸ hkey, hlt⟩

end Stamps

end Table

end Primer
