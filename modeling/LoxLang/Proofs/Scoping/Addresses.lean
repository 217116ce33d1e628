import LoxLang.Proofs.Scoping.Resolution
import Mathlib

/-!
# Lexical addresses

Where a name leads to can be read off the text: to the innermost scope around the reference that
declares the name by a parameter, as the object of a class, or by a statement that begins before
the reference. The resolver finds the same with its stack of scopes.

* `Enclosure`: a scope around a node, with the statements in it up to the node;
* `Program.located`: the references of a program, each with the scopes around it;
* `resolve_addresses`: the distances of a program are the addresses of its references, one by one;
* `distances_are_lexical`: so each reference has the distance of the scope that declares its name.
-/

namespace LoxLang

open Scoping

/-! ## Scopes around a node -/

/-- A scope around a node: the statements before the one that contains the node, and that one. -/
inductive Enclosure
  | block (before : List Stmt) (around : Stmt)
  /-- The parameters and the body of a function share a scope. -/
  | function (params : List Identifier) (before : List Stmt) (around : Stmt)
  /-- The methods of a class stand in a scope that has their object and nothing else. -/
  | classBody

/-- The scope declares the name by a parameter, by a statement that does not begin behind the node,
or as the object of a method. -/
def Enclosure.Declares : Enclosure → String → Prop
  | block before around, x => x ∈ declaredNames (before ++ [around])
  | function params before around, x =>
    x ∈ params.map (·.name) ∨ x ∈ declaredNames (before ++ [around])
  | classBody, x => x = "this"

instance : (scope : Enclosure) → (x : String) → Decidable (scope.Declares x)
  | .block before around, x => inferInstanceAs (Decidable (x ∈ declaredNames (before ++ [around])))
  | .function params before around, x =>
    inferInstanceAs
      (Decidable (x ∈ params.map (·.name) ∨ x ∈ declaredNames (before ++ [around])))
  | .classBody, x => inferInstanceAs (Decidable (x = "this"))

/-- A reference and the scopes around it, the innermost one first. -/
abbrev Occurrence : Type := List Enclosure × Reference

def Expr.located (around : List Enclosure) (e : Expr) : List Occurrence :=
  e.references.map (around, ·)

mutual

/-- The references in a statement. -/
def Stmt.located (around : List Enclosure) : Stmt → List Occurrence
  | .expression e => e.located around
  | .print e => e.located around
  | .varDecl _ e => e.located around
  | .block body => Stmt.allLocated around .block [] body
  | .ifElse c s none => c.located around ++ s.located around
  | .ifElse c s (some r) => c.located around ++ s.located around ++ r.located around
  | .whileLoop c s => c.located around ++ s.located around
  | .breakLoop _ => []
  | .funDecl f => f.located around
  | .returnValue _ none => []
  | .returnValue _ (some e) => e.located around
  | .classDecl _ methods => FunctionDecl.allLocated (.classBody :: around) methods

/-- The references in statements of one scope, which stand behind others in it. -/
def Stmt.allLocated (around : List Enclosure) (scope : List Stmt → Stmt → Enclosure)
    (before : List Stmt) : List Stmt → List Occurrence
  | [] => []
  | s :: rest =>
    s.located (scope before s :: around) ++ Stmt.allLocated around scope (before ++ [s]) rest

/-- The references in a function. -/
def FunctionDecl.located (around : List Enclosure) : FunctionDecl → List Occurrence
  | .mk _ params body => Stmt.allLocated around (.function params) [] body

/-- The references in the methods of a class. -/
def FunctionDecl.allLocated (around : List Enclosure) : List FunctionDecl → List Occurrence
  | [] => []
  | f :: rest => f.located around ++ FunctionDecl.allLocated around rest

end

/-- The references in a program, with the local scopes around them. -/
def Program.located (p : Program) : List Occurrence := p.flatMap (Stmt.located [])

mutual

theorem Stmt.located_references (s : Stmt) (around : List Enclosure) :
    (s.located around).map (·.2) = s.references := by
  match s with
  | .expression e | .print e | .varDecl _ e | .returnValue _ (some e) =>
    simp [Stmt.located, Expr.located, Stmt.references, Function.comp_def]
  | .block body => exact Stmt.allLocated_references body _ _ _
  | .ifElse c s none =>
    simp [Stmt.located, Expr.located, Stmt.references, Function.comp_def,
      Stmt.located_references s]
  | .ifElse c s (some r) =>
    simp [Stmt.located, Expr.located, Stmt.references, Function.comp_def,
      Stmt.located_references s, Stmt.located_references r]
  | .whileLoop c s =>
    simp [Stmt.located, Expr.located, Stmt.references, Function.comp_def,
      Stmt.located_references s]
  | .breakLoop _ | .returnValue _ none => rfl
  | .funDecl f => exact FunctionDecl.located_references f _
  | .classDecl _ methods => exact FunctionDecl.allLocated_references methods _

theorem Stmt.allLocated_references (ss : List Stmt) (around : List Enclosure)
    (scope : List Stmt → Stmt → Enclosure) (before : List Stmt) :
    (Stmt.allLocated around scope before ss).map (·.2) = Stmt.allReferences ss := by
  match ss with
  | [] => rfl
  | s :: rest =>
    simp only [Stmt.allLocated, Stmt.allReferences, List.map_append,
      Stmt.located_references s, Stmt.allLocated_references rest]

theorem FunctionDecl.located_references (f : FunctionDecl) (around : List Enclosure) :
    (f.located around).map (·.2) = f.references := by
  match f with
  | .mk _ params body => exact Stmt.allLocated_references body _ _ _

theorem FunctionDecl.allLocated_references (fs : List FunctionDecl) (around : List Enclosure) :
    (FunctionDecl.allLocated around fs).map (·.2) = FunctionDecl.allReferences fs := by
  match fs with
  | [] => rfl
  | f :: rest =>
    simp only [FunctionDecl.allLocated, FunctionDecl.allReferences, List.map_append,
      FunctionDecl.located_references f, FunctionDecl.allLocated_references rest]

end

/-- Every reference of a program occurs once, in the order of the references. -/
theorem Program.located_references (p : Program) :
    p.located.map (·.2) = Stmt.allReferences p := by
  induction p with
  | nil => rfl
  | cons s rest ih =>
    have hfirst := s.located_references []
    simp only [Program.located] at ih
    simp only [Program.located, List.flatMap_cons, List.map_append, Stmt.allReferences, hfirst, ih]

/-! ## Addresses -/

/-- How many of the scopes are inside the innermost one that declares the name. -/
def address? (around : List Enclosure) (x : String) : Option Nat :=
  around.findIdx? fun scope => decide (scope.Declares x)

theorem address?_eq_some {around : List Enclosure} {x : String} {k : Nat} :
    address? around x = some k ↔ ∃ inside scope outside,
      around = inside ++ scope :: outside ∧ inside.length = k ∧ scope.Declares x ∧
        ∀ s ∈ inside, ¬s.Declares x := by
  induction around generalizing k with
  | nil => simp [address?]
  | cons scope outer ih =>
    unfold address? at ih ⊢
    rw [List.findIdx?_cons]
    by_cases hx : scope.Declares x
    · rw [if_pos (decide_eq_true hx)]
      constructor
      · intro h
        cases h
        exact ⟨[], scope, outer, rfl, rfl, hx, by simp⟩
      · rintro ⟨inside, s, outside, heq, hlength, -, hnot⟩
        cases inside with
        | nil => simpa using hlength
        | cons s' inside =>
          cases heq
          exact absurd hx (hnot scope List.mem_cons_self)
    · rw [if_neg (by simpa using hx), Option.map_eq_some_iff]
      constructor
      · rintro ⟨j, hj, rfl⟩
        obtain ⟨inside, s, outside, rfl, rfl, hs, hnot⟩ := ih.mp hj
        exact ⟨scope :: inside, s, outside, rfl, rfl, hs, List.forall_mem_cons.mpr ⟨hx, hnot⟩⟩
      · rintro ⟨inside, s, outside, heq, rfl, hs, hnot⟩
        cases inside with
        | nil =>
          cases heq
          exact absurd hs hx
        | cons s' inside =>
          cases heq
          have hinside := (List.forall_mem_cons.mp hnot).2
          exact ⟨inside.length, ih.mpr ⟨inside, s, outside, rfl, rfl, hs, hinside⟩, rfl⟩

theorem exists_address?_iff {around : List Enclosure} {x : String} :
    (∃ k, address? around x = some k) ↔ ∃ scope ∈ around, scope.Declares x := by
  rw [← Option.isSome_iff_exists, address?, List.findIdx?_isSome, List.any_eq_true]
  simp

/-- The entry that a reference should have. -/
def Occurrence.entry? (occurrence : Occurrence) : Option (NodeId × Nat) :=
  (address? occurrence.1 occurrence.2.name.name).map (occurrence.2.id, ·)

theorem Occurrence.entry?_eq_some {around : List Enclosure} {r : Reference} {k : Nat} :
    Occurrence.entry? (around, r) = some (r.id, k) ↔ address? around r.name.name = some k := by
  simp [Occurrence.entry?]

/-- The distances are the entries that the references should have, the last one first. -/
def Distances.Addressed (d : Distances) (occurrences : List Occurrence) : Prop :=
  d.reverse = occurrences.filterMap Occurrence.entry?

namespace Distances.Addressed

variable {d d' : Distances} {occurrences occurrences' : List Occurrence}

theorem nil : Addressed [] [] := rfl

theorem append (h : d.Addressed occurrences) (h' : d'.Addressed occurrences') :
    Addressed (d' ++ d) (occurrences ++ occurrences') := by
  unfold Addressed at h h' ⊢
  rw [List.reverse_append, List.filterMap_append, h, h']

/-- The references of two expressions with the same scopes around them. -/
theorem both {around : List Enclosure} {refs refs' : List Reference}
    (h : d.Addressed (refs.map (around, ·))) (h' : d'.Addressed (refs'.map (around, ·))) :
    Addressed (d' ++ d) ((refs ++ refs').map (around, ·)) := by
  rw [List.map_append]
  exact h.append h'

theorem mem_iff (h : d.Addressed occurrences) {entry : NodeId × Nat} :
    entry ∈ d ↔ ∃ occurrence ∈ occurrences, occurrence.entry? = some entry := by
  rw [← List.mem_reverse, h, List.mem_filterMap]

end Distances.Addressed

/-! ## Scopes of the resolver -/

/-- The scope has exactly the names that the enclosure declares. -/
def Scoping.Scope.Shows (scope : Scope) (enclosure : Enclosure) : Prop :=
  ∀ x, (scope.lookup x).isSome = true ↔ enclosure.Declares x

/-- The scopes of the context are those around a node. -/
def Scoping.Context.Shows (ctx : Context) (around : List Enclosure) : Prop :=
  List.Forall₂ Scope.Shows ctx.scopes around

namespace Scoping.Context

variable {ctx ctx' : Context} {around : List Enclosure} {x : String}

theorem Shows.distance? (h : ctx.Shows around) (x : String) :
    ctx.distance? x = address? around x := by
  unfold Shows at h
  unfold Context.distance? address?
  generalize ctx.scopes = scopes at h
  induction h with
  | nil => rfl
  | @cons scope enclosure _ _ hscope _ ih =>
    have hhead : (scope.lookup x).isSome = decide (enclosure.Declares x) := by
      rw [Bool.eq_iff_iff, decide_eq_true_iff]
      exact hscope x
    rw [List.findIdx?_cons, List.findIdx?_cons, hhead, ih]

theorem Shows.entry (h : ctx.Shows around) (r : Reference) :
    (ctx.entry r.id r.name.name).Addressed ([r].map (around, ·)) := by
  unfold Context.entry
  rw [h.distance?]
  cases haddress : address? around r.name.name with
  | none => simp [Distances.Addressed, Occurrence.entry?, haddress]
  | some k => simp [Distances.Addressed, Occurrence.entry?, haddress]

/-- How a name is marked does not matter. -/
theorem Shows.of_mark_mark {b b' : Bool} (h : ((ctx.mark x b).mark x b').Shows around) :
    (ctx.mark x b).Shows around := by
  unfold Shows at h ⊢
  cases hscopes : ctx.scopes with
  | nil =>
    rw [mark_of_nil hscopes] at h ⊢
    rwa [mark_of_nil hscopes] at h
  | cons scope outer =>
    rw [mark_of_cons hscopes] at h ⊢
    rw [mark_of_cons rfl] at h
    cases h with
    | cons hscope houter =>
      constructor
      · intro y
        rw [← hscope y, lookup_cons, lookup_cons, lookup_cons]
        split <;> rfl
      · exact houter

end Scoping.Context

/-! ## Expressions -/

mutual

/-- The distances in an expression are the addresses of its references. -/
theorem resolveExpr_addresses {ctx : Context} {around : List Enclosure} (e : Expr) {d : Distances}
    (hctx : ctx.Shows around) (h : resolveExpr ctx e = .ok d) : d.Addressed (e.located around) := by
  match e with
  | .literal _ =>
    cases h
    exact .nil
  | .grouping inner => exact resolveExpr_addresses inner hctx h
  | .variable id name =>
    obtain ⟨-, rfl⟩ := resolveExpr_variable.mp h
    exact hctx.entry ⟨.variable, id, name⟩
  | .this id line =>
    obtain ⟨-, rfl⟩ := resolveExpr_this.mp h
    exact hctx.entry ⟨.this, id, ⟨"this", line⟩⟩
  | .assign id name value =>
    obtain ⟨inside, hvalue, rfl⟩ := resolveExpr_assign.mp h
    have hinside := resolveExpr_addresses value hctx hvalue
    have hentry := hctx.entry ⟨.assign, id, name⟩
    exact hinside.both hentry
  | .unary _ _ operand => exact resolveExpr_addresses operand hctx h
  | .binary _ _ left right =>
    obtain ⟨first, second, hleft, hright, rfl⟩ := resolveExpr_binary.mp h
    exact (resolveExpr_addresses left hctx hleft).both (resolveExpr_addresses right hctx hright)
  | .logical _ left right =>
    obtain ⟨first, second, hleft, hright, rfl⟩ := resolveExpr_logical.mp h
    exact (resolveExpr_addresses left hctx hleft).both (resolveExpr_addresses right hctx hright)
  | .call callee _ arguments =>
    obtain ⟨first, second, hcallee, harguments, rfl⟩ := resolveExpr_call.mp h
    have hfirst := resolveExpr_addresses callee hctx hcallee
    exact hfirst.both (resolveExprs_addresses arguments hctx harguments)
  | .get object _ => exact resolveExpr_addresses object hctx h
  | .set object _ value =>
    obtain ⟨first, second, hvalue, hobject, rfl⟩ := resolveExpr_set.mp h
    exact (resolveExpr_addresses value hctx hvalue).both (resolveExpr_addresses object hctx hobject)

theorem resolveExprs_addresses {ctx : Context} {around : List Enclosure} (es : List Expr)
    {d : Distances} (hctx : ctx.Shows around) (h : resolveExprs ctx es = .ok d) :
    d.Addressed ((Expr.allReferences es).map (around, ·)) := by
  match es with
  | [] =>
    cases h
    exact .nil
  | e :: rest =>
    obtain ⟨first, others, he, hrest, rfl⟩ := resolveExprs_cons.mp h
    exact (resolveExpr_addresses e hctx he).both (resolveExprs_addresses rest hctx hrest)

end

/-! ## Statements -/

namespace Scoping.Context

/-- Between two statements of a scope: it has the parameters, and what the statements before
declare. -/
def Amid (ctx : Context) (params : List String) (before : List Stmt) (around : List Enclosure) :
    Prop :=
  ∃ scope outer, ctx.scopes = scope :: outer ∧ List.Forall₂ Scope.Shows outer around ∧
    ∀ x, (scope.lookup x).isSome = true ↔ x ∈ params ∨ x ∈ declaredNames before

variable {ctx ctx' : Context} {params : List String} {before : List Stmt}
  {around : List Enclosure}

theorem Amid.shows (h : ctx.Amid params before around) {enclosure : Enclosure}
    (henclosure : ∀ x, enclosure.Declares x ↔ x ∈ params ∨ x ∈ declaredNames before) :
    ctx.Shows (enclosure :: around) := by
  obtain ⟨scope, outer, hscopes, houter, hscope⟩ := h
  unfold Shows
  rw [hscopes]
  constructor
  · intro x
    rw [hscope x, henclosure x]
  · exact houter

/-- Behind a statement its scope has one more statement before. -/
theorem Amid.behind (h : ctx.Amid params before around) {s : Stmt} {d : Distances}
    (hs : s.Regular) (hresolve : resolveStmt ctx s = .ok (ctx', d)) :
    ctx'.Amid params (before ++ [s]) around := by
  obtain ⟨scope, outer, hscopes, houter, hscope⟩ := h
  obtain ⟨hnone, rfl⟩ | ⟨y, hy, -, rfl⟩ := resolveStmt_behind s hs hresolve
  · refine ⟨scope, outer, hscopes, houter, fun x => ?_⟩
    simp [hscope x, declaredNames, hnone]
  · refine ⟨_, outer, by rw [ready_of_cons hscopes], houter, fun x => ?_⟩
    rw [lookup_ready]
    by_cases hyx : y = x
    · simp [declaredNames, hy, hyx]
    · have hxy : x ≠ y := fun h => hyx h.symm
      simp [hyx, hxy, hscope x, declaredNames, hy]

theorem Shows.push (h : ctx.Shows around) : (ctx.push []).Amid [] [] around :=
  ⟨[], ctx.scopes, rfl, h, by simp [declaredNames]⟩

theorem Shows.inFunction (h : ctx.Shows around) {params : List Identifier} {routine : Routine}
    (hparams : (ctx.inRoutine routine).introduceAll params = .ok ctx') :
    ctx'.Amid (params.map (·.name)) [] around := by
  obtain ⟨scope, hscope, hlookup⟩ := introduceAll_scopes rfl hparams
  refine ⟨scope, ctx.scopes, hscope, h, fun x => ?_⟩
  rw [hlookup x]
  by_cases hx : x ∈ params.map (·.name) <;> simp [hx, declaredNames]

theorem Shows.inClassBody (h : ctx.Shows around) :
    ctx.inClassBody.Shows (.classBody :: around) := by
  constructor
  · intro x
    rw [lookup_cons]
    by_cases hx : x = "this"
    · simp [hx, Enclosure.Declares]
    · have hthis : ¬"this" = x := fun h => hx h.symm
      simp [hx, hthis, Enclosure.Declares]
  · exact h

end Scoping.Context

mutual

/-- The distances in a statement are the addresses of its references. What the context shows behind
the statement is around the references in it: a name is declared before its initializer or body. -/
theorem resolveStmt_addresses {ctx behind : Context} {around : List Enclosure} (s : Stmt)
    {d : Distances} (hs : s.Regular) (hbehind : behind.Shows around)
    (h : resolveStmt ctx s = .ok (behind, d)) : d.Addressed (s.located around) := by
  match s with
  | .expression e =>
    obtain ⟨he, rfl⟩ := resolveStmt_expression.mp h
    exact resolveExpr_addresses e hbehind he
  | .print e =>
    obtain ⟨he, rfl⟩ := resolveStmt_print.mp h
    exact resolveExpr_addresses e hbehind he
  | .varDecl name e =>
    obtain ⟨declared, hdeclared, he, rfl⟩ := resolveStmt_varDecl.mp h
    obtain ⟨-, rfl⟩ := Context.declare_eq_ok.mp hdeclared
    have hinside := hbehind.of_mark_mark
    have hinitializer :
        ((ctx.mark name.name false).inInitializer name.name).Shows around := by
      unfold Context.Shows
      rw [Context.scopes_inInitializer]
      exact hinside
    exact resolveExpr_addresses e hinitializer he
  | .block body =>
    obtain ⟨⟨_, hbody⟩, rfl⟩ := resolveStmt_block.mp h
    have hscope : ∀ before s x, (Enclosure.block before s).Declares x ↔
        x ∈ ([] : List String) ∨ x ∈ declaredNames (before ++ [s]) := by
      simp [Enclosure.Declares]
    exact resolveStmts_addresses body hs hscope hbehind.push hbody
  | .ifElse c s none =>
    obtain ⟨first, second, hc, hthen, rfl⟩ := resolveStmt_ifThen.mp h
    obtain ⟨hnone, hregular⟩ := hs
    obtain rfl := resolveStmt_undeclared hregular hnone hthen
    have hfirst := resolveExpr_addresses c hbehind hc
    exact hfirst.append (resolveStmt_addresses s hregular hbehind hthen)
  | .ifElse c s (some r) =>
    obtain ⟨first, inner, second, third, hc, hthen, helse, rfl⟩ := resolveStmt_ifElse.mp h
    obtain ⟨⟨hnone, hregular⟩, hnone', hregular'⟩ := hs
    obtain rfl := resolveStmt_undeclared hregular hnone hthen
    obtain rfl := resolveStmt_undeclared hregular' hnone' helse
    have hfirst := resolveExpr_addresses c hbehind hc
    have hsecond := resolveStmt_addresses s hregular hbehind hthen
    have hthird := resolveStmt_addresses r hregular' hbehind helse
    exact (hfirst.append hsecond).append hthird
  | .whileLoop c s =>
    obtain ⟨first, inner, second, hc, hbody, rfl, rfl⟩ := resolveStmt_whileLoop.mp h
    obtain ⟨hnone, hregular⟩ := hs
    obtain rfl := resolveStmt_undeclared hregular hnone hbody
    have hinner : Context.Shows { ctx with inLoop := true } around := hbehind
    have hfirst : first.Addressed (c.located around) := resolveExpr_addresses c hbehind hc
    exact hfirst.append (resolveStmt_addresses s hregular hinner hbody)
  | .breakLoop _ =>
    obtain ⟨-, rfl, rfl⟩ := resolveStmt_breakLoop.mp h
    exact .nil
  | .funDecl f =>
    obtain ⟨-, hf⟩ := resolveStmt_funDecl.mp h
    exact resolveFunction_addresses f hs hbehind hf
  | .returnValue _ none =>
    obtain ⟨-, rfl, rfl⟩ := resolveStmt_return.mp h
    exact .nil
  | .returnValue _ (some e) =>
    obtain ⟨-, he, rfl⟩ := resolveStmt_returnValue.mp h
    exact resolveExpr_addresses e hbehind he
  | .classDecl _ methods =>
    obtain ⟨-, hmethods⟩ := resolveStmt_classDecl.mp h
    exact resolveMethods_addresses methods hs hbehind.inClassBody hmethods
termination_by structural s

/-- The distances in statements of one scope, some of which stand before them. -/
theorem resolveStmts_addresses {ctx behind : Context} {around : List Enclosure}
    {scope : List Stmt → Stmt → Enclosure} {params : List String} {before : List Stmt}
    (ss : List Stmt) {d : Distances} (hss : Stmt.AllRegular ss)
    (hscope : ∀ before s x,
      (scope before s).Declares x ↔ x ∈ params ∨ x ∈ declaredNames (before ++ [s]))
    (hctx : ctx.Amid params before around) (h : resolveStmts ctx ss = .ok (behind, d)) :
    d.Addressed (Stmt.allLocated around scope before ss) := by
  match ss with
  | [] =>
    cases h
    exact .nil
  | s :: rest =>
    obtain ⟨middle, first, others, hs, hrest, rfl⟩ := resolveStmts_cons.mp h
    obtain ⟨hregular, hregulars⟩ := hss
    have hmiddle := hctx.behind hregular hs
    have hfirst := resolveStmt_addresses s hregular (hmiddle.shows (hscope before s)) hs
    exact hfirst.append (resolveStmts_addresses rest hregulars hscope hmiddle hrest)
termination_by structural ss

theorem resolveFunction_addresses {ctx : Context} {around : List Enclosure} {routine : Routine}
    (f : FunctionDecl) {d : Distances} (hf : f.Regular) (hctx : ctx.Shows around)
    (h : resolveFunction (ctx.inRoutine routine) f = .ok d) : d.Addressed (f.located around) := by
  match f with
  | .mk _ params body =>
    obtain ⟨inside, _, hparams, hbody⟩ := resolveFunction_mk.mp h
    have hscope : ∀ before s x, (Enclosure.function params before s).Declares x ↔
        x ∈ params.map (·.name) ∨ x ∈ declaredNames (before ++ [s]) := fun _ _ _ => Iff.rfl
    exact resolveStmts_addresses body hf.2 hscope (hctx.inFunction hparams) hbody
termination_by structural f

theorem resolveMethods_addresses {ctx : Context} {around : List Enclosure} (fs : List FunctionDecl)
    {d : Distances} (hfs : FunctionDecl.AllRegular fs) (hctx : ctx.Shows around)
    (h : resolveMethods ctx fs = .ok d) : d.Addressed (FunctionDecl.allLocated around fs) := by
  match fs with
  | [] =>
    cases h
    exact .nil
  | f :: rest =>
    obtain ⟨first, others, hf, hrest, rfl⟩ := resolveMethods_cons.mp h
    obtain ⟨hregular, hregulars⟩ := hfs
    have hfirst := resolveFunction_addresses f hregular hctx hf
    exact hfirst.append (resolveMethods_addresses rest hregulars hctx hrest)
termination_by structural fs

end

/-! ## Programs -/

/-- Outside of all scopes each statement is for itself. -/
theorem resolveTop_addresses {ctx behind : Context} (ss : List Stmt) {d : Distances}
    (hss : Stmt.AllRegular ss) (hctx : ctx.scopes = [])
    (h : resolveStmts ctx ss = .ok (behind, d)) : d.Addressed (Program.located ss) := by
  induction ss generalizing ctx behind d with
  | nil =>
    cases h
    exact .nil
  | cons s rest ih =>
    obtain ⟨middle, first, others, hs, hrest, rfl⟩ := resolveStmts_cons.mp h
    obtain ⟨hregular, hregulars⟩ := hss
    have hmiddle : middle.scopes = [] := by
      obtain ⟨-, rfl⟩ | ⟨x, -, -, rfl⟩ := resolveStmt_behind s hregular hs
      · exact hctx
      · rw [Context.ready_of_nil hctx]
        exact hctx
    have hshows : middle.Shows [] := by
      unfold Context.Shows
      rw [hmiddle]
      exact .nil
    exact (resolveStmt_addresses s hregular hshows hs).append (ih hregulars hmiddle hrest)

/-- The distances of a program are the addresses of its references. -/
theorem resolve_addresses {p : Program} {d : Distances} (hp : Stmt.AllRegular p)
    (h : Program.resolve p = .ok d) : d.Addressed p.located := by
  obtain ⟨_, hresolved⟩ := resolve_eq_ok.mp h
  exact resolveTop_addresses p hp rfl hresolved

/-- A reference has the entry it should have, if no other one has the same identity. -/
theorem Distances.Addressed.of?_eq {d : Distances} {occurrences : List Occurrence}
    (h : d.Addressed occurrences) (hd : (d.map (·.1)).Nodup)
    (hids : (occurrences.map (·.2.id)).Nodup) {around : List Enclosure} {r : Reference}
    (hr : (around, r) ∈ occurrences) : d.of? r.id = address? around r.name.name := by
  cases haddress : address? around r.name.name with
  | some k =>
    have hentry := Occurrence.entry?_eq_some.mpr haddress
    exact Distances.of?_of_mem hd (h.mem_iff.mpr ⟨_, hr, hentry⟩)
  | none =>
    refine List.lookup_eq_none_iff.mpr fun entry hentry => ?_
    obtain ⟨occurrence, hmem, hsome⟩ := h.mem_iff.mp hentry
    obtain ⟨k, hk, rfl⟩ := Option.map_eq_some_iff.mp hsome
    have hne : ¬r.id = occurrence.2.id := by
      intro hid
      obtain rfl := List.inj_on_of_nodup_map hids hr hmem hid
      rw [haddress] at hk
      cases hk
    simpa using hne

section
variable {source : String} {nextId next : NodeId} {p : Program} {d : Distances}

/-- **The distances of an accepted program are its lexical addresses.** A reference has a distance
just when a scope around it declares its name, and then the distance is the number of scopes inside
the innermost one that does. Nothing else has a distance, and nothing has two. -/
theorem distances_are_lexical (hparse : parseSource source nextId = (.ok p, next))
    (hresolve : p.resolve = .ok d) :
    p.located.map (·.2) = Stmt.allReferences p ∧
    (∀ around r, (around, r) ∈ p.located →
      ((∃ k, d.of? r.id = some k) ↔ ∃ scope ∈ around, scope.Declares r.name.name) ∧
      ∀ k, d.of? r.id = some k ↔ ∃ inside scope outside,
        around = inside ++ scope :: outside ∧ inside.length = k ∧ scope.Declares r.name.name ∧
          ∀ s ∈ inside, ¬s.Declares r.name.name) ∧
    (d.map (·.1)).Nodup ∧
    ∀ id ∈ d.map (·.1), ∃ r ∈ Stmt.allReferences p, r.id = id := by
  obtain ⟨hregular, hfresh⟩ := parseSource_regular hparse
  have halong := resolve_along hresolve
  have hnodup := halong.nodup hfresh.nodup
  have haddressed := resolve_addresses hregular hresolve
  have hreferences := p.located_references
  have hids : (p.located.map (·.2.id)).Nodup := by
    have hsame : p.located.map (·.2.id) = Stmt.allIds p := by
      rw [Stmt.allIds, ← hreferences, List.map_map]
      rfl
    rw [hsame]
    exact hfresh.nodup
  refine ⟨hreferences, ?_, hnodup, ?_⟩
  · intro around r hr
    rw [haddressed.of?_eq hnodup hids hr]
    exact ⟨exists_address?_iff, fun k => address?_eq_some⟩
  · intro id hid
    obtain ⟨entry, hentry, rfl⟩ := List.mem_map.mp hid
    exact List.mem_map.mp (halong.mem hentry)

/-- A method has a scope inside the scope of its object, and a variable of a block is not found
before its statement. -/
theorem method_addresses :
    let given : Stmt := .expression (.set (.this 0 1) ⟨"b", 1⟩ (.variable 1 ⟨"a", 1⟩))
    let early : Stmt := .print (.variable 2 ⟨"c", 1⟩)
    let late : Stmt := .varDecl ⟨"c", 1⟩ (.variable 3 ⟨"a", 1⟩)
    let inner : Stmt := .block [early, late]
    let p : Program := [.classDecl ⟨"A", 1⟩ [.mk ⟨"m", 1⟩ [⟨"a", 1⟩] [given, inner]]]
    let d : Distances := [(3, 1), (0, 1), (1, 0)]
    parseSource "class A \x7b m(a) \x7b this.b = a; \x7b print c; var c = a; \x7d \x7d \x7d" 0
        = (.ok p, 4) ∧ p.resolve = .ok d ∧
      d.of? 0 = some 1 ∧ (∀ k, d.of? 2 ≠ some k) ∧ d.of? 3 = some 1 := by
  intro given early late inner p d
  have hparse : parseSource
      "class A \x7b m(a) \x7b this.b = a; \x7b print c; var c = a; \x7d \x7d \x7d" 0
      = (.ok p, 4) := by cbv
  have hresolve : p.resolve = .ok d := by cbv
  obtain ⟨-, hoccurrences, -, -⟩ := distances_are_lexical hparse hresolve
  have hthis := hoccurrences [.function [⟨"a", 1⟩] [] given, .classBody] ⟨.this, 0, ⟨"this", 1⟩⟩
    (.tail _ (.head _))
  have hearly := hoccurrences [.block [] early, .function [⟨"a", 1⟩] [given] inner, .classBody]
    ⟨.variable, 2, ⟨"c", 1⟩⟩ (.tail _ (.tail _ (.head _)))
  have hlate := hoccurrences [.block [early] late, .function [⟨"a", 1⟩] [given] inner, .classBody]
    ⟨.variable, 3, ⟨"a", 1⟩⟩ (.tail _ (.tail _ (.tail _ (.head _))))
  refine ⟨hparse, hresolve, ?_, ?_, ?_⟩
  · exact (hthis.2 1).mpr ⟨[_], _, _, rfl, rfl, by decide, by decide⟩
  · intro k hk
    exact absurd (hearly.1.mp ⟨k, hk⟩) (by decide)
  · exact (hlate.2 1).mpr ⟨[_], _, _, rfl, rfl, by decide, by decide⟩

end

end LoxLang
