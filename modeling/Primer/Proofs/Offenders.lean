import Mathlib.Tactic
import Primer.Proofs.FailFast
import Primer.Proofs.Passes
import Primer.Proofs.Places

/-!
The nodes that faults point at.

A check that stops names a node of the program: it reports the place of this node, and the node is
of the kind that the fault is about. Each way to put parts of a check together keeps this, so it
holds of the checks and of the report that takes its fault from them.
-/

namespace Primer

open Progress

def Node.stored? : Tree → Option Tree
  | .declare _ _ v _ => v
  | .assign _ v _ => some v
  | _ => none

/-- The node of the program `t` that a diagnostic is about. -/
inductive Offends (config : Config) (t : Tree) : Diagnostic → Tree → Prop
  /-- A variable is read that is not set. -/
  | read {x loc} : Offends config t (.uninitializedUse x loc) (.name x loc)
  /-- The target of an assignment is not declared. -/
  | target {x v loc} : Offends config t (.undeclaredVariable x loc) (.assign x v loc)
  /-- A name inside a stored value is not declared. -/
  | mention {s v x loc} (hs : s ∈ t.walk) (hv : s.stored? = some v) (hx : .name x loc ∈ v.walk) :
    Offends config t (.undeclaredVariable x loc) (.name x loc)
  /-- The first value of a variable is not of its type. -/
  | declared {type actual x v loc} :
    Offends config t (.typeMismatch type actual x loc) (.declare type x v loc)
  /-- A later value of a variable is not of its type. -/
  | assigned {type actual x v loc} :
    Offends config t (.typeMismatch type actual x loc) (.assign x v loc)
  /-- Strict mode refuses the operands of an operation. -/
  | operation {left right op l r loc} (strict : config.strictOperandTypes) :
    Offends config t (.typeMismatch left right "" loc) (.binary op l r loc)
  /-- The right side of a division is a literal zero. -/
  | byLiteral {op l v vloc loc} (hop : op ∈ divisionOperators) (hv : v.number?.any Number.isZero) :
    Offends config t (.divisionByLiteralZero op loc) (.binary op l (.literal v vloc) loc)
  /-- The right side of a division is a variable. -/
  | byName {op l x xloc loc} (hop : op ∈ divisionOperators) :
    Offends config t (.divisionByTrackedZero x op loc) (.binary op l (.name x xloc) loc)

/-- The diagnostic is about a node of the program, and reports its place. -/
def Pointed (config : Config) (t : Tree) (d : Diagnostic) : Prop :=
  ∃ n ∈ t.walk, d.location = n.location ∧ Offends config t d n

variable {config : Config} {t u n : Tree} {d : Diagnostic}

lemma Offends.pointed (h : Offends config t d n) (hn : n ∈ t.walk) : Pointed config t d :=
  ⟨n, hn, by cases h <;> rfl, h⟩

lemma Node.mem_walk_child {c : Tree} (hn : n ∈ t.walk) (hc : c ∈ n.children) : c ∈ t.walk := by
  refine Node.mem_walk_trans ?_ hn
  rw [Node.walk_eq, List.mem_cons, List.mem_flatMap]
  exact Or.inr ⟨c, hc, by rw [Node.walk_eq]; exact List.mem_cons_self⟩

open Node

/-! ### Reads of variables -/

namespace Initialized

/-- The check stops at a name that the program reads. -/
lemma blames_check (u : Tree) (hu : u ∈ t.walk) :
    ∀ names, (check names u).Blames fun fault => Pointed config t fault.diagnostic := by
  induction u using childInduction with
  | step u ih =>
    have hparts : ∀ c ∈ u.children, ∀ names, (check names c).Blames fun fault =>
        Pointed config t fault.diagnostic := fun c hc => ih c hc (mem_walk_child hu hc)
    intro names
    cases u with
    | literal v loc => exact blames_finished names
    | name x loc =>
      rw [check]
      split
      · exact blames_finished names
      · exact blames_stopped (Offends.read.pointed hu)
    | binary op l r loc =>
      have hleft := hparts l (by simp [children])
      have hright := hparts r (by simp [children])
      exact (hleft names).andThen hright
    | declare type x v loc =>
      cases v with
      | none => exact blames_finished _
      | some v => exact (hparts v (by simp [children]) names).andThen fun _ => blames_finished _
    | assign x v loc =>
      exact (hparts v (by simp [children]) names).andThen fun _ => blames_finished _
    | branch c b e loc =>
      have hcond := hparts c (by simp [children])
      have hbody := hparts b (by simp [children])
      cases e with
      | none => exact (hcond names).andThen fun names => (hbody names).withState
      | some e =>
        have helse := hparts e (by simp [children])
        refine (hcond names).andThen fun names => ?_
        exact (hbody names).withState.andThen fun names => (helse names).withState
    | whileLoop c b loc =>
      have hcond := hparts c (by simp [children])
      have hbody := hparts b (by simp [children])
      exact (hcond names).andThen fun names => (hbody names).withState
    | forLoop b loc => exact (hparts b (by simp [children]) names).withState
    | ret v loc =>
      cases v with
      | none => exact blames_finished _
      | some v => exact hparts v (by simp [children]) names
    | block ns loc | program ns loc =>
      rw [check, checkAll_eq]
      exact (blames_each hparts names).withState

end Initialized

/-! ### Divisions -/

namespace KnownValues

variable {apart : Bool} {known : Known}

/-- What a division is refused for is its right side. -/
lemma pointed_of_zeroDivision? {op : String} {l r : Tree} {loc : Option Span}
    {fault : ZeroDivision} (hn : .binary op l r loc ∈ t.walk)
    (h : zeroDivision? known op r loc = some fault) : Pointed config t fault.diagnostic := by
  unfold zeroDivision? at h
  split at h
  · rename_i hop
    rw [List.contains_iff_mem] at hop
    split at h
    · obtain ⟨hzero, hfault⟩ := Option.ite_none_right_eq_some.1 h
      obtain rfl := Option.some.inj hfault
      exact (Offends.byLiteral hop hzero).pointed hn
    · obtain ⟨-, hfault⟩ := Option.ite_none_right_eq_some.1 h
      obtain rfl := Option.some.inj hfault
      exact (Offends.byName hop).pointed hn
    · cases h
  · cases h

lemma blames_joinBranches {P : ZeroDivision → Prop} {yes : Outcome} {no : Known → Outcome}
    (hyes : yes.Blames P) (hno : ∀ known, (no known).Blames P) :
    (joinBranches apart known yes no).Blames P := by
  unfold joinBranches
  split
  · have hsecond := hno known
    split
    · exact hyes
    · rename_i heq
      rw [heq] at hsecond
      exact hsecond
    · exact blames_finished _
  · exact hyes.andThen hno

lemma blames_joinLoop {P : ZeroDivision → Prop} {once : Outcome} (honce : once.Blames P) :
    (joinLoop apart known once).Blames P := by
  unfold joinLoop
  split
  · split
    · exact honce
    · exact blames_finished _
  · exact honce

/-- The check stops at a division of the program. -/
lemma blames_check (u : Tree) (hu : u ∈ t.walk) :
    ∀ known, (check apart known u).Blames fun fault => Pointed config t fault.diagnostic := by
  induction u using childInduction with
  | step u ih =>
    have hparts : ∀ c ∈ u.children, ∀ known, (check apart known c).Blames fun fault =>
        Pointed config t fault.diagnostic := fun c hc => ih c hc (mem_walk_child hu hc)
    intro known
    cases u with
    | literal v loc | name x loc => exact blames_finished known
    | binary op l r loc =>
      have hleft := hparts l (by simp [children])
      have hright := hparts r (by simp [children])
      rw [check]
      split
      · rename_i hfault
        exact blames_stopped (pointed_of_zeroDivision? hu hfault)
      · exact (hleft known).andThen hright
    | declare type x v loc =>
      cases v with
      | none => exact blames_finished _
      | some v => exact (hparts v (by simp [children]) known).andThen fun _ => blames_finished _
    | assign x v loc =>
      exact (hparts v (by simp [children]) known).andThen fun _ => blames_finished _
    | branch c b e loc =>
      have hcond := hparts c (by simp [children])
      have hbody := hparts b (by simp [children])
      cases e with
      | none =>
        refine (hcond known).andThen fun known => ?_
        exact blames_joinBranches (hbody known) blames_finished
      | some e =>
        have helse := hparts e (by simp [children])
        refine (hcond known).andThen fun known => ?_
        exact blames_joinBranches (hbody known) helse
    | whileLoop c b loc =>
      have hcond := hparts c (by simp [children])
      have hbody := hparts b (by simp [children])
      exact (hcond known).andThen fun known => blames_joinLoop (hbody known)
    | forLoop b loc => exact blames_joinLoop (hparts b (by simp [children]) known)
    | ret v loc =>
      cases v with
      | none => exact blames_finished _
      | some v => exact hparts v (by simp [children]) known
    | block ns loc | program ns loc =>
      rw [check, checkAll_eq]
      exact blames_each hparts known

end KnownValues

/-! ### Stored values -/

namespace Typing

variable {table : SymbolTable} {fault : TypeFault}

/-- Only an operation that strict mode refuses has no type. -/
lemma pointed_of_infer {strict : Bool} (hstrict : strict = config.strictOperandTypes) (e : Tree)
    (he : e ∈ t.walk) (h : infer strict table e = .error fault) :
    Pointed config t fault.diagnostic := by
  induction e using Node.induction generalizing fault with
  | binary op l r loc hl hr =>
    rw [infer] at h
    cases hleft : infer strict table l with
    | error fault' =>
      obtain rfl : fault' = fault := by simpa [hleft, bind, Except.bind] using h
      exact hl (mem_walk_child he (by simp [children])) hleft
    | ok left =>
      cases hright : infer strict table r with
      | error fault' =>
        obtain rfl : fault' = fault := by simpa [hleft, hright, bind, Except.bind] using h
        exact hr (mem_walk_child he (by simp [children])) hright
      | ok right =>
        simp only [hleft, hright, bind, Except.bind] at h
        split at h
        · rename_i hclash
          obtain rfl := Except.error.inj h
          rw [Bool.and_eq_true, hstrict] at hclash
          exact (Offends.operation hclash.1).pointed he
        · cases h
  | _ => cases h

/-- A name that is not declared is blamed where it stands in a stored value. -/
lemma pointed_of_firstUndeclared? {s : Tree} {value : Option Tree} (hs : s ∈ t.walk)
    (hvalue : s.stored? = value) (h : firstUndeclared? table value = some fault) :
    Pointed config t fault.diagnostic := by
  cases value with
  | none => cases h
  | some v =>
    have hchild : v ∈ s.children := by
      cases s with
      | declare type x w loc =>
        obtain rfl : w = some v := hvalue
        simp [children]
      | assign x w loc =>
        obtain rfl : w = v := Option.some.inj hvalue
        simp [children]
      | _ => cases hvalue
    obtain ⟨n, hn, hfault⟩ := List.exists_of_findSome?_eq_some h
    cases n with
    | name x loc =>
      obtain ⟨-, hfault⟩ := Option.ite_none_right_eq_some.1 hfault
      obtain rfl := Option.some.inj hfault
      exact (Offends.mention hs hvalue hn).pointed (mem_walk_trans hn (mem_walk_child hs hchild))
    | _ => cases hfault

lemma blames_store {P : TypeFault → Prop} {declared inferred target : String} {loc : Option Span}
    (h : P (.mismatch declared inferred target loc)) :
    (store table declared inferred target loc).Blames P := by
  unfold store
  split
  · exact blames_stopped h
  · exact blames_finished _

lemma blames_declare {type x : String} {v : Option Tree} {loc : Option Span}
    (hu : .declare type x v loc ∈ t.walk) (table : SymbolTable) :
    (declare config.strictOperandTypes table type x v loc).Blames
      fun fault => Pointed config t fault.diagnostic := by
  unfold declare
  split
  · rename_i hinfer
    cases v with
    | none => cases hinfer
    | some v =>
      exact blames_stopped (pointed_of_infer rfl v (mem_walk_child hu (by simp [children])) hinfer)
  · dsimp only
    split
    · rename_i hfault
      exact blames_stopped (pointed_of_firstUndeclared? hu rfl hfault)
    · exact blames_store (Offends.declared.pointed hu)

lemma blames_assign {x : String} {v : Tree} {loc : Option Span} (hu : .assign x v loc ∈ t.walk)
    (table : SymbolTable) : (assign config.strictOperandTypes table x v loc).Blames
      fun fault => Pointed config t fault.diagnostic := by
  unfold assign
  split
  · exact blames_stopped (Offends.target.pointed hu)
  · split
    · rename_i hfault
      exact blames_stopped (pointed_of_firstUndeclared? hu rfl hfault)
    · split
      · rename_i hinfer
        exact blames_stopped
          (pointed_of_infer rfl v (mem_walk_child hu (by simp [children])) hinfer)
      · exact blames_store (Offends.assigned.pointed hu)

/-- The check stops at a stored value, or at an operation inside one. -/
lemma blames_check (u : Tree) (hu : u ∈ t.walk) :
    ∀ table, (check config.strictOperandTypes table u).Blames
      fun fault => Pointed config t fault.diagnostic := by
  induction u using childInduction with
  | step u ih =>
    have hparts : ∀ c ∈ u.children, ∀ table, (check config.strictOperandTypes table c).Blames
        fun fault => Pointed config t fault.diagnostic :=
      fun c hc => ih c hc (mem_walk_child hu hc)
    intro table
    cases u with
    | literal | name | binary | ret => exact blames_finished table
    | declare type x v loc => exact blames_declare hu table
    | assign x v loc => exact blames_assign hu table
    | branch c b e loc =>
      have hbody := hparts b (by simp [children])
      cases e with
      | none => exact hbody table
      | some e => exact (hbody table).andThen (hparts e (by simp [children]))
    | whileLoop c b loc => exact hparts b (by simp [children]) table
    | forLoop b loc => exact hparts b (by simp [children]) table
    | block ns loc | program ns loc =>
      rw [check, checkAll_eq]
      exact blames_each hparts table

end Typing

/-! ### Reports -/

namespace Report

variable {r : Report} {P : Diagnostic → Prop}

def Blames (P : Diagnostic → Prop) (r : Report) : Prop := ∀ d ∈ r.error, P d

lemma blames_fail (hd : P d) : (r.fail d).Blames P := by
  rintro _ ⟨⟩
  exact hd

lemma Blames.andCheck {check : Report → Report} (wanted : Bool) (h : r.Blames P)
    (hcheck : (check r).Blames P) : (r.andCheck wanted check).Blames P := by
  unfold Report.andCheck
  split
  · exact hcheck
  · exact h

lemma blames_checkTypes (h : r.Blames P) (hconfig : r.config = config)
    (hcheck : (Typing.check config.strictOperandTypes .empty t).Blames fun f => P f.diagnostic) :
    (checkTypes t r).Blames P := by
  unfold checkTypes
  rw [hconfig]
  split
  · exact h
  · rename_i fault _ hstopped
    exact blames_fail (hcheck fault (by simp [hstopped, fault?]))

lemma blames_checkDataFlow (h : r.Blames P)
    (hcheck : (Initialized.check [] t).Blames fun f => P f.diagnostic) :
    (checkDataFlow t r).Blames P := by
  unfold checkDataFlow
  split
  · exact h
  · rename_i fault _ hstopped
    exact blames_fail (hcheck fault (by simp [hstopped, fault?]))

lemma blames_checkMath (h : r.Blames P)
    (hcheck : ∀ apart, (KnownValues.check apart [] t).Blames fun f => P f.diagnostic) :
    (checkMath t r).Blames P := by
  unfold checkMath
  split
  · exact h
  · rename_i fault _ hstopped
    exact blames_fail (hcheck r.config.branchScopedConstants fault (by simp [hstopped, fault?]))

/-- The fault of a report on a program is about a node of the program. -/
lemma blames_completed (log : List String) :
    (({ config, log } : Report).completed t).Blames (Pointed config t) := by
  have hself : t ∈ t.walk := by
    rw [walk_eq]
    exact List.mem_cons_self
  have hviews := upto_withViews config t log "2. Running Semantic Safety Checks..."
  have hnone : ((({ config, log } : Report).withViews t).say
      "2. Running Semantic Safety Checks...").error = none := by
    rw [withViews_eq]
    rfl
  have hbegin : ((({ config, log } : Report).withViews t).say
      "2. Running Semantic Safety Checks...").Blames (Pointed config t) := by
    intro d hd
    rw [hnone] at hd
    cases hd
  have hconfig : (({ config, log } : Report).withViews t).config = config := hviews.config_eq
  have htypes := hbegin.andCheck config.typeCheck
    (blames_checkTypes hbegin hviews.config_eq (Typing.blames_check t hself .empty))
  have hflow := htypes.andCheck config.dataFlow
    (blames_checkDataFlow htypes (Initialized.blames_check t hself []))
  rw [completed, checked, hconfig]
  exact hflow.andCheck config.mathSafety
    (blames_checkMath hflow fun _ => KnownValues.blames_check t hself [])

/-- The report on an input has the fault of its program, if it is not a fault of reading. -/
lemma pointed_of_error {stack : Stack} {input : Input} (hr : analyze stack config input = .ok r)
    (hd : r.error = some d) (hphase : d.code.phase ≠ .parsing) :
    ∃ t, input.Stands stack.parsing t ∧ Pointed config t d := by
  rcases eq_of_analyze hr with ⟨d', log, hparsing, rfl⟩ | ⟨t, log, ht, -, rfl⟩
  · obtain rfl : d' = d := Option.some.inj hd
    exact absurd hparsing hphase
  · exact ⟨t, ht, blames_completed log d hd⟩

end Report

namespace Grammar

/-- Every node of a tree that was read from a text has a place. -/
lemma location_isSome_of_parse {depth : ℕ} {source : String} (h : parse depth source = .ok t)
    (hn : n ∈ t.walk) : n.location.isSome := by
  obtain ⟨ns, rfl, hparts⟩ := parts_of_parse h
  rw [walk_eq, List.mem_cons, List.mem_flatMap] at hn
  rcases hn with rfl | ⟨m, hm, hn⟩
  · rfl
  · obtain ⟨before, us, rest, -, hseated⟩ := hparts.placed m hm n hn
    rw [hseated.location]
    rfl

end Grammar

namespace Report

/-- **Real offenders**: a fault that a check reports is about a node of the program, and its place
is the place of this node. So a fault of a text always has a place. -/
theorem offender_of_error {stack : Stack} {config : Config} {input : Input} {r : Report}
    {d : Diagnostic} (hr : analyze stack config input = .ok r) (hd : r.error = some d)
    (hphase : d.code.phase ∈ [Phase.typing, .dataflow, .symbolic]) :
    ∃ t, input.Stands stack.parsing t ∧
      (∃ n ∈ t.walk, d.location = n.location ∧ Offends config t d n) ∧
      ∀ source, input = .text source → d.location.isSome := by
  have hchecked : d.code.phase ≠ .parsing := by
    intro hparsing
    simp [hparsing] at hphase
  obtain ⟨t, hstands, n, hn, hlocation, hoffends⟩ := pointed_of_error hr hd hchecked
  refine ⟨t, hstands, ⟨n, hn, hlocation, hoffends⟩, ?_⟩
  rintro source rfl
  cases hstands with
  | text hparse =>
    rw [hlocation]
    exact Grammar.location_isSome_of_parse hparse hn

def mixedSum : String := "int a = 1;\nwhile (a < 3) \x7b bool b = 2 < a + true; \x7d"

theorem mixedSum_offender_of_error : ∃ r d t, Grammar.parse 3 mixedSum = .ok t ∧
    analyze ⟨3, 0, 0, 16⟩ { strictOperandTypes := true } (.text mixedSum) = .ok r ∧
    r.error = some d ∧
    d.message = "Cannot assign value of type 'bool' to this operation (expects 'int')." ∧
    d.location.map Span.text = some "2:30" ∧
    ∃ n ∈ t.walk, d.location = n.location ∧ Offends { strictOperandTypes := true } t d n := by
  have hreport : (analyze ⟨3, 0, 0, 16⟩ { strictOperandTypes := true } (.text mixedSum)).map
      (fun r => r.error.map fun d => (d.message, d.location.map Span.text, d.code.phase)) =
        .ok (some ("Cannot assign value of type 'bool' to this operation (expects 'int').",
          some "2:30", .typing)) := by
    decide +kernel
  obtain ⟨r, hr, herror⟩ := exists_of_map_analyze hreport
  obtain ⟨d, hd, hviews⟩ := Option.map_eq_some_iff.1 herror
  obtain ⟨hmessage, hrest⟩ := Prod.mk.inj hviews
  obtain ⟨hplace, hphase⟩ := Prod.mk.inj hrest
  obtain ⟨t, hstands, hoffender, -⟩ := offender_of_error hr hd (by simp [hphase])
  cases hstands with
  | text hparse => exact ⟨r, d, t, hparse, hr, hd, hmessage, hplace, hoffender⟩

end Report

end Primer
