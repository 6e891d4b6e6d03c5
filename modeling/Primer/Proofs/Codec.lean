import Mathlib.Tactic
import Primer.Proofs.Outcomes
import Primer.Proofs.TreeShape
import Primer.Tree.Codec

/-!
Writing a tree and reading it back.

The object of a tree is read as that very tree, whatever its labels are and wherever places are
recorded or missing. Reading is bounded twice, by the levels it follows and by the levels it
accepts, and a tree that is accepted stays within both bounds.
-/

namespace Primer

lemma Position.ofJson_toJson (p : Position) : Position.ofJson p.toJson = .ok p := rfl

/-- A place is an object with members, so it counts as true even if all its numbers are zero. -/
lemma Span.ofJson_toJson (s : Span) : Span.ofJson s.toJson = .ok (some s) := by
  have hstart := Position.ofJson_toJson s.start
  have hstop := Position.ofJson_toJson s.stop
  change (do
    let start ← Position.ofJson s.start.toJson
    let stop ← Position.ofJson s.stop.toJson
    return some (⟨start, stop⟩ : Span)) = _
  rw [hstart, hstop]
  rfl

lemma Span.ofJson_placeJson (loc : Option Span) : Span.ofJson (placeJson loc) = .ok loc := by
  cases loc with
  | none => rfl
  | some s => exact Span.ofJson_toJson s

namespace Node

variable {read : Json → Except TreeFault JsonTree} {levels : ℕ} {loc : Option Span}

/-- An object that was written for a node is read by its kind and its place. -/
lemma readWithin_object {kind : String} {parts : List (String × Json)} {n : JsonTree}
    (hparts : Json.member? "location" (parts ++ [("location", placeJson loc)]) =
      some (placeJson loc))
    (htagged : readTagged (readWithin levels) kind
      (("type", .str kind) :: parts ++ [("location", placeJson loc)]) loc = .ok n) :
    readWithin (levels + 1) (object kind parts loc) = .ok n := by
  have htag : Json.member? "type" (("type", .str kind) :: parts ++ [("location", placeJson loc)]) =
      some (.str kind) := rfl
  have hplace : Json.member? "location"
      (("type", .str kind) :: parts ++ [("location", placeJson loc)]) = some (placeJson loc) :=
    hparts
  rw [object, readWithin, htag, hplace]
  simp only [Option.getD_some, Span.ofJson_placeJson, htagged, Except.mapError]

/-- The object of a tree is not `null`, so an optional part that is there is found. -/
lemma toJson_eq_obj (n : JsonTree) : ∃ ms, n.toJson = .obj ms := by
  cases n with
  | declare t x v => cases v <;> exact ⟨_, by rw [toJson, object]⟩
  | branch c b e => cases e <;> exact ⟨_, by rw [toJson, object]⟩
  | ret v => cases v <;> exact ⟨_, by rw [toJson, object]⟩
  | _ => exact ⟨_, by rw [toJson, object]⟩

lemma readAll_toJsonAll {ns : List JsonTree} (h : ∀ n ∈ ns, read n.toJson = .ok n) :
    readAll read (toJsonAll ns) = .ok ns := by
  induction ns with
  | nil => rfl
  | cons n ns ih =>
    have hns := ih fun m hm => h m (by simp [hm])
    rw [toJsonAll, readAll, h n (by simp), hns]
    rfl

lemma readOptional_toJson {ms : List (String × Json)} {key : String} {n : JsonTree}
    (hkey : Json.member? key ms = some n.toJson) (hread : read n.toJson = .ok n) :
    readOptional read (optionalField ms key) = .ok (some n) := by
  obtain ⟨ns, hobj⟩ := toJson_eq_obj n
  have hfield : optionalField ms key = some n.toJson := by
    rw [optionalField, hkey, hobj]
  rw [hfield, readOptional, hread]
  rfl

/-- **Step**: if the objects of its children are read, the object of a node is read with one level
more. -/
lemma readWithin_toJson_succ {n : JsonTree}
    (h : ∀ m ∈ n.children, readWithin levels m.toJson = .ok m) :
    readWithin (levels + 1) n.toJson = .ok n := by
  cases n with
  | literal v loc => cases v <;> rw [toJson] <;> exact readWithin_object rfl rfl
  | name x loc =>
    rw [toJson]
    exact readWithin_object rfl rfl
  | binary op l r loc =>
    have hleft := h l (by simp [children])
    have hright := h r (by simp [children])
    rw [toJson]
    refine readWithin_object rfl ?_
    change (do
      let l ← readWithin levels l.toJson
      let r ← readWithin levels r.toJson
      return Node.binary op l r loc) = _
    rw [hleft, hright]
    rfl
  | declare t x v loc =>
    cases v with
    | none =>
      rw [toJson]
      exact readWithin_object rfl rfl
    | some v =>
      have hvalue := h v (by simp [children])
      rw [toJson]
      refine readWithin_object rfl ?_
      change (do
        let v ← readOptional (readWithin levels) (optionalField _ "value")
        return Node.declare t x v loc) = _
      rw [readOptional_toJson rfl hvalue]
      rfl
  | assign x v loc =>
    have hvalue := h v (by simp [children])
    rw [toJson]
    refine readWithin_object rfl ?_
    change (do return Node.assign x (← readWithin levels v.toJson) loc) = _
    rw [hvalue]
    rfl
  | branch c b e loc =>
    have hcond := h c (by simp [children])
    have hbody := h b (by simp [children])
    cases e with
    | none =>
      rw [toJson]
      refine readWithin_object rfl ?_
      change (do
        let c ← readWithin levels c.toJson
        let b ← readWithin levels b.toJson
        return Node.branch c b none loc) = _
      rw [hcond, hbody]
      rfl
    | some e =>
      have helse := h e (by simp [children])
      rw [toJson]
      refine readWithin_object rfl ?_
      change (do
        let c ← readWithin levels c.toJson
        let b ← readWithin levels b.toJson
        let e ← readOptional (readWithin levels) (optionalField _ "elseBody")
        return Node.branch c b e loc) = _
      rw [hcond, hbody, readOptional_toJson rfl helse]
      rfl
  | whileLoop c b loc =>
    have hcond := h c (by simp [children])
    have hbody := h b (by simp [children])
    rw [toJson]
    refine readWithin_object rfl ?_
    change (do
      let c ← readWithin levels c.toJson
      let b ← readWithin levels b.toJson
      return Node.whileLoop c b loc) = _
    rw [hcond, hbody]
    rfl
  | forLoop b loc =>
    have hbody := h b (by simp [children])
    rw [toJson]
    refine readWithin_object rfl ?_
    change (do return Node.forLoop (← readWithin levels b.toJson) loc) = _
    rw [hbody]
    rfl
  | ret v loc =>
    cases v with
    | none =>
      rw [toJson]
      exact readWithin_object rfl rfl
    | some v =>
      have hvalue := h v (by simp [children])
      rw [toJson]
      refine readWithin_object rfl ?_
      change (do
        let v ← readOptional (readWithin levels) (optionalField _ "value")
        return Node.ret v loc) = _
      rw [readOptional_toJson rfl hvalue]
      rfl
  | block ns loc =>
    have hbody : readAll (readWithin levels) (toJsonAll ns) = .ok ns := readAll_toJsonAll h
    rw [toJson]
    refine readWithin_object rfl ?_
    change (do return Node.block (← readAll (readWithin levels) (toJsonAll ns)) loc) = _
    rw [hbody]
    rfl
  | program ns loc =>
    have hbody : readAll (readWithin levels) (toJsonAll ns) = .ok ns := readAll_toJsonAll h
    rw [toJson]
    refine readWithin_object rfl ?_
    change (do return Node.program (← readAll (readWithin levels) (toJsonAll ns)) loc) = _
    rw [hbody]
    rfl

lemma readWithin_toJson {n : JsonTree} (h : n.height ≤ levels) :
    readWithin levels n.toJson = .ok n := by
  induction levels generalizing n with
  | zero =>
    have hpos := height_pos n
    omega
  | succ levels ih =>
    refine readWithin_toJson_succ fun m hm => ih ?_
    have hlt := height_lt_of_mem_children hm
    omega

/-! ### The height of what is read -/

section

variable {k : ℕ} (hread : ∀ j, Yields (fun n : JsonTree => n.height ≤ k) (read j))
include hread

lemma yields_readAll (js : List Json) : Yields (fun ns => heightAll ns ≤ k) (readAll read js) := by
  induction js with
  | nil => exact yields_ok (by simp [heightAll])
  | cons j js ih =>
    refine yields_bind (hread j) fun n hn => yields_bind ih fun ns hns => yields_ok ?_
    exact max_le hn hns

lemma yields_readBody (body : Option Json) :
    Yields (fun ns => heightAll ns ≤ k) (readBody read body) := by
  unfold readBody
  split
  · exact yields_ok (by simp [heightAll])
  · exact yields_readAll hread _
  · exact yields_bind (hread _) fun n hn => yields_ok (by simpa [heightAll] using hn)

lemma yields_readOptional (part : Option Json) :
    Yields (fun v => ∀ n ∈ v, n.height ≤ k) (readOptional read part) := by
  cases part with
  | none => exact yields_ok (by simp)
  | some j => exact yields_bind (hread j) fun n hn => yields_ok (by simpa using hn)

/-- **Step**: a node is at most one level higher than its parts may be. -/
lemma yields_readTagged (tag : String) (ms : List (String × Json)) (loc : Option Span) :
    Yields (fun n => n.height ≤ k + 1) (readTagged read tag ms loc) := by
  have hneed (key : String) := yields_true (field tag loc ms key)
  have hbody := yields_readBody hread (optionalField ms "body")
  have hvalue := yields_readOptional hread (optionalField ms "value")
  unfold readTagged
  split
  -- A program and a block.
  · exact yields_bind hbody fun ns hns => yields_ok (Nat.succ_le_succ hns)
  · exact yields_bind hbody fun ns hns => yields_ok (Nat.succ_le_succ hns)
  -- A declaration and an assignment.
  · refine yields_bind (hneed _) fun t _ => yields_bind (hneed _) fun x _ => ?_
    refine yields_bind hvalue fun v hv => yields_ok ?_
    cases v with
    | none => simp [height]
    | some v => exact Nat.succ_le_succ (hv v rfl)
  · refine yields_bind (hneed _) fun x _ => yields_bind (hneed _) fun j _ => ?_
    exact yields_bind (hread j) fun v hv => yields_ok (Nat.succ_le_succ hv)
  -- An operation.
  · refine yields_bind (hneed _) fun op _ => yields_bind (hneed _) fun j _ => ?_
    refine yields_bind (hread j) fun l hl => yields_bind (hneed _) fun i _ => ?_
    exact yields_bind (hread i) fun r hr => yields_ok (Nat.succ_le_succ (max_le hl hr))
  -- A branch and the loops.
  · refine yields_bind (hneed _) fun j _ => yields_bind (hread j) fun c hc => ?_
    refine yields_bind (hneed _) fun i _ => yields_bind (hread i) fun b hb => ?_
    refine yields_bind (yields_readOptional hread _) fun e he => yields_ok ?_
    cases e with
    | none => exact Nat.succ_le_succ (max_le hc hb)
    | some e => exact Nat.succ_le_succ (max_le hc (max_le hb (he e rfl)))
  · refine yields_bind (hneed _) fun j _ => yields_bind (hread j) fun c hc => ?_
    refine yields_bind (hneed _) fun i _ => yields_bind (hread i) fun b hb => yields_ok ?_
    exact Nat.succ_le_succ (max_le hc hb)
  · refine yields_bind (hneed _) fun j _ => ?_
    exact yields_bind (hread j) fun b hb => yields_ok (Nat.succ_le_succ hb)
  -- A return.
  · refine yields_bind hvalue fun v hv => yields_ok ?_
    cases v with
    | none => simp [height]
    | some v => exact Nat.succ_le_succ (hv v rfl)
  -- The literals and a name are one level, and no other tag is read.
  · refine yields_bind (hneed _) fun j _ => yields_bind (yields_true _) fun v _ => ?_
    exact yields_ok (by simp [height])
  · refine yields_bind (hneed _) fun j _ => yields_bind (yields_true _) fun v _ => ?_
    exact yields_ok (by simp [height])
  · refine yields_bind (hneed _) fun j _ => yields_bind (yields_true _) fun v _ => ?_
    exact yields_ok (by simp [height])
  · exact yields_bind (hneed _) fun j _ => yields_ok (by simp [height])
  · exact yields_bind (hneed _) fun j _ => yields_ok (by simp [height])
  · exact yields_error _

end

/-- **Run**: what is read within some levels has no more of them. -/
lemma yields_readWithin (levels : ℕ) (j : Json) :
    Yields (fun n => n.height ≤ levels) (readWithin levels j) := by
  induction levels generalizing j with
  | zero => exact yields_error _
  | succ levels ih =>
    cases j with
    | obj ms =>
      rw [readWithin]
      split
      · exact yields_error _
      · exact yields_error _
      · split
        · exact yields_mapError (yields_readTagged ih _ _ _)
        · exact yields_error _
    | _ => exact yields_error _

lemma ofJson_toJson {n : JsonTree} (h : n.height ≤ maxLevels) (hlevels : n.height ≤ levels) :
    ofJson levels n.toJson = .ok n := by
  have hover : n.overflow? maxLevels = none := overflow?_eq_none_iff.2 h
  simp [ofJson, readWithin_toJson hlevels, hover, bind, Except.bind, pure, Except.pure]

/-- What is read is no higher than the passes accept, and than the reading goes. -/
lemma height_le_of_ofJson {j : Json} {n : JsonTree} (h : ofJson levels j = .ok n) :
    n.height ≤ maxLevels ∧ n.height ≤ levels := by
  unfold ofJson at h
  cases hread : readWithin levels j with
  | error fault => simp [hread, bind, Except.bind] at h
  | ok m =>
    cases hover : m.overflow? maxLevels with
    | some location => simp [hread, hover, bind, Except.bind] at h
    | none =>
      obtain rfl : m = n := by simpa [hread, hover, bind, Except.bind, pure, Except.pure] using h
      exact ⟨overflow?_eq_none_iff.1 hover, yields_readWithin levels j m hread⟩

/-- **Trees survive writing**: every tree of an accepted height that the reading goes down to is
read back from its object as it was. So the object of a tree that was read from any value is a
normal form of the value: it is read as the same tree again. -/
theorem written_tree_read_back (levels : ℕ) :
    (∀ n : JsonTree, n.height ≤ maxLevels → n.height ≤ levels →
        ofJson levels n.toJson = .ok n) ∧
      ∀ (j : Json) (n : JsonTree), ofJson levels j = .ok n → ofJson levels n.toJson = .ok n := by
  refine ⟨fun n h hlevels => ofJson_toJson h hlevels, fun j n h => ?_⟩
  obtain ⟨hheight, hlevels⟩ := height_le_of_ofJson h
  exact ofJson_toJson hheight hlevels

def oddTree : JsonTree :=
  .binary (.arr [.null, .obj []]) (.block [.ret none (some ⟨{}, {}⟩)] none)
    (.declare (.bool true) .null none (some ⟨{ line := -1 }, { offset := 7 }⟩)) none

def looseObject : Json :=
  .obj [("type", .str "Program"), ("location", .obj []),
    ("body", .obj [("value", .str " 1_2 "), ("type", .str "Integer")])]

def looseTree : JsonTree := .program [.literal (.int 12) none] none

theorem odd_tree_read_back :
    oddTree.height ≤ maxLevels ∧ ofJson maxLevels oddTree.toJson = .ok oddTree ∧
      ofJson 2 looseObject = .ok looseTree ∧ ofJson 2 looseTree.toJson = .ok looseTree := by
  have hheight : oddTree.height ≤ maxLevels := by decide
  have hodd := (written_tree_read_back maxLevels).1 oddTree hheight hheight
  have hread : ofJson 2 looseObject = .ok looseTree := rfl
  exact ⟨hheight, hodd, hread, (written_tree_read_back 2).2 _ _ hread⟩

end Node

end Primer
