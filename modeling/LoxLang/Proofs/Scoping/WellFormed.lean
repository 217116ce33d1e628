import LoxLang.Proofs.Scoping.Resolution
import LoxLang.Proofs.Scoping.Spots
import Mathlib

/-!
# Well-formed programs

Whether a program has a fault in its scopes can be read off its nodes, each one for itself where it
stands. The resolver stops at the first fault that it comes to, but what it accepts is the same.

* `Spot.Allows`, `Program.WellFormed`: what each node must obey;
* `Context.Admits`: some names that can be added to a scope in a row;
* `resolveExpr_ok_iff`, `resolveStmt_ok_iff`: what is accepted in a context that a spot describes;
* `resolve_ok_iff_wellFormed`: the programs that are accepted.
-/

namespace LoxLang

open Scoping

/-! ## Rules for nodes -/

/-- The names of the scope that a function has for each call. -/
def FunctionDecl.localNames (f : FunctionDecl) : List String :=
  f.params.map (·.name) ++ declaredNames f.body

/-- What a node must obey where it stands. -/
def Spot.Allows (spot : Spot) : Node → Prop
  /- A block or function does not bind a name twice. -/
  | .stmt (.block body) => (declaredNames body).Nodup
  | .stmt (.funDecl f) => f.localNames.Nodup
  | .stmt (.classDecl _ methods) => ∀ f ∈ methods, f.localNames.Nodup
  /- The initializer of a variable does not read a variable of that name. -/
  | .stmt (.varDecl name initializer) =>
    ∀ id x, .variable id x ∈ initializer.parts → x.name ≠ name.name
  /- A `return` is in a function or method, and has no value if that is an initializer. -/
  | .stmt (.returnValue _ value) =>
    ∃ routine, spot.routine = some routine ∧ (routine = .initializer → value = none)
  | .stmt (.breakLoop _) => spot.inLoop = true
  | .expr (.this _ _) => spot.classAround.isSome = true
  | .stmt _ | .expr _ => True

/-- Every node obeys its rules. -/
def Program.WellFormed (p : Program) : Prop := ∀ node ∈ p.spotted, node.1.Allows node.2

/-- All of the nodes obey their rules. -/
def AllAllowed (nodes : List (Spot × Node)) : Prop := ∀ node ∈ nodes, node.1.Allows node.2

section
variable {spot : Spot} {node : Node} {nodes nodes' : List (Spot × Node)}

theorem allAllowed_nil : AllAllowed [] := fun _ h => nomatch h

theorem allAllowed_cons :
    AllAllowed ((spot, node) :: nodes) ↔ spot.Allows node ∧ AllAllowed nodes :=
  List.forall_mem_cons

theorem allAllowed_append :
    AllAllowed (nodes ++ nodes') ↔ AllAllowed nodes ∧ AllAllowed nodes' := List.forall_mem_append

end

/-! ## Names in a row -/

namespace Scoping.Context

variable {ctx ctx' : Context} {scope : Scope} {outer : List Scope} {names names' : List String}

/-- The names can be added to the innermost scope one after the other. -/
def Admits (ctx : Context) : List String → Prop
  | [] => True
  | x :: rest => ctx.hasLocal x = false ∧ (ctx.ready x).Admits rest

/-- With names that are ready. -/
def readyAll (ctx : Context) (names : List String) : Context := names.foldl ready ctx

/-- Global names can be added again and again. -/
theorem admits_of_nil (h : ctx.scopes = []) : ctx.Admits names := by
  induction names with
  | nil => trivial
  | cons x rest ih =>
    constructor
    · simp only [hasLocal, h]
    · rw [ready_of_nil h]
      exact ih

theorem admits_iff (h : ctx.scopes = scope :: outer) :
    ctx.Admits names ↔ names.Nodup ∧ ∀ x ∈ names, scope.lookup x = none := by
  induction names generalizing ctx scope with
  | nil => simp [Admits]
  | cons x rest ih =>
    have hlocal : ctx.hasLocal x = false ↔ scope.lookup x = none := by simp [hasLocal, h]
    have hready : (ctx.ready x).scopes = ((x, true) :: (x, false) :: scope) :: outer := by
      rw [ready_of_cons h]
    rw [Admits, hlocal, ih hready, List.nodup_cons, List.forall_mem_cons]
    simp only [lookup_ready]
    constructor
    · rintro ⟨hx, hnodup, hrest⟩
      have hne : ∀ y ∈ rest, ¬x = y := by
        intro y hy heq
        have hy' := hrest y hy
        rw [if_pos heq] at hy'
        cases hy'
      refine ⟨⟨fun hmem => hne x hmem rfl, hnodup⟩, hx, fun y hy => ?_⟩
      have hy' := hrest y hy
      rwa [if_neg (hne y hy)] at hy'
    · rintro ⟨⟨hmem, hnodup⟩, hx, hrest⟩
      refine ⟨hx, hnodup, fun y hy => ?_⟩
      have hne : ¬x = y := fun heq => hmem (heq ▸ hy)
      rw [if_neg hne]
      exact hrest y hy

theorem admits_of_empty (h : ctx.scopes = [] :: outer) : ctx.Admits names ↔ names.Nodup := by
  rw [admits_iff h]
  simp

theorem admits_append :
    ctx.Admits (names ++ names') ↔ ctx.Admits names ∧ (ctx.readyAll names).Admits names' := by
  induction names generalizing ctx with
  | nil => simp [Admits, readyAll]
  | cons x rest ih => simp only [List.cons_append, Admits, ih, readyAll, List.foldl_cons, and_assoc]

theorem introduceAll_eq_ok {params : List Identifier} :
    ctx.introduceAll params = .ok ctx' ↔
      ctx.Admits (params.map (·.name)) ∧ ctx' = ctx.readyAll (params.map (·.name)) := by
  induction params generalizing ctx with
  | nil =>
    simp only [introduceAll, List.map_nil, Admits, readyAll, List.foldl_nil, true_and]
    constructor
    · intro h
      cases h
      rfl
    · rintro rfl
      rfl
  | cons p rest ih =>
    rw [introduceAll_cons]
    simp only [introduce_eq_ok, ih, List.map_cons, Admits, readyAll, List.foldl_cons]
    constructor
    · rintro ⟨inner, ⟨hlocal, rfl⟩, hrest, rfl⟩
      exact ⟨⟨hlocal, hrest⟩, rfl⟩
    · rintro ⟨⟨hlocal, hrest⟩, rfl⟩
      exact ⟨_, ⟨hlocal, rfl⟩, hrest, rfl⟩

/-- Behind a statement: with the name that it declares. -/
def behind (ctx : Context) (s : Stmt) : Context := ctx.readyAll s.declaredName?.toList

theorem behind_of_resolveStmt {s : Stmt} {d : Distances} (hs : s.Regular)
    (h : resolveStmt ctx s = .ok (ctx', d)) : ctx' = ctx.behind s := by
  obtain ⟨hnone, rfl⟩ | ⟨x, hx, -, rfl⟩ := resolveStmt_behind s hs h
  · rw [behind, hnone]
    rfl
  · rw [behind, hx]
    rfl

theorem admits_declaredNames_cons {s : Stmt} {rest : List Stmt} :
    ctx.Admits (declaredNames (s :: rest)) ↔
      ctx.Admits s.declaredName?.toList ∧ (ctx.behind s).Admits (declaredNames rest) := by
  have hnames : declaredNames (s :: rest) = s.declaredName?.toList ++ declaredNames rest := by
    cases hx : s.declaredName? <;> simp [declaredNames, hx]
  rw [hnames, admits_append]
  rfl

end Scoping.Context

/-! ## Contexts that a spot describes -/

/-- The context is as the spot says, and not inside an initializer. -/
structure Spot.Describes (spot : Spot) (ctx : Context) : Prop where
  inClass : ctx.inClass = spot.classAround.isSome
  routine : ctx.routine = spot.routine
  inLoop : ctx.inLoop = spot.inLoop
  calm (x : String) : ctx.isInitializing x = false

namespace Spot.Describes

variable {spot : Spot} {ctx : Context}

theorem top : Spot.top.Describes .top := ⟨rfl, rfl, rfl, fun _ => rfl⟩

theorem ready (h : spot.Describes ctx) (x : String) : spot.Describes (ctx.ready x) := by
  cases hscopes : ctx.scopes with
  | nil =>
    rw [Context.ready_of_nil hscopes]
    exact h
  | cons scope outer =>
    rw [Context.ready_of_cons hscopes]
    refine ⟨h.inClass, h.routine, h.inLoop, fun y => ?_⟩
    have hy := h.calm y
    simp only [Context.isInitializing, hscopes] at hy
    simp only [Context.isInitializing, Context.lookup_ready]
    split
    · rfl
    · exact hy

theorem readyAll (h : spot.Describes ctx) (names : List String) :
    spot.Describes (ctx.readyAll names) := by
  induction names generalizing ctx with
  | nil => exact h
  | cons x rest ih => exact ih (h.ready x)

theorem inScope (h : spot.Describes ctx) : spot.inScope.Describes (ctx.push []) where
  inClass := h.inClass.trans (Option.isSome_map ..).symm
  routine := h.routine
  inLoop := h.inLoop
  calm _ := rfl

theorem inFunction (h : spot.Describes ctx) (routine : Routine) :
    (spot.inFunction routine).Describes (ctx.inRoutine routine) :=
  ⟨h.inScope.inClass, rfl, rfl, fun _ => rfl⟩

theorem inClassBody (h : spot.Describes ctx) (c : ClassDecl) :
    (spot.inClassBody c).Describes ctx.inClassBody where
  inClass := rfl
  routine := h.routine
  inLoop := h.inLoop
  calm x := by
    have hthis : ctx.inClassBody.isInitializing x
        = (List.lookup x [("this", true)] == some false) := rfl
    rw [hthis, Context.lookup_cons]
    split <;> rfl

theorem inLoopBody (h : spot.Describes ctx) :
    spot.inLoopBody.Describes { ctx with inLoop := true } := ⟨h.inClass, h.routine, rfl, h.calm⟩

/-- In the initializer of a variable, that variable and no other one must not be read. -/
theorem isInitializing_iff (h : spot.Describes ctx) {name x : String} :
    ((ctx.mark name false).inInitializer name).isInitializing x = true ↔ name = x := by
  have hx := h.calm x
  cases hscopes : ctx.scopes with
  | nil =>
    rw [Context.mark_of_nil hscopes]
    simp [Context.inInitializer, Context.isInitializing, hscopes]
  | cons scope outer =>
    rw [Context.mark_of_cons hscopes]
    simp only [Context.isInitializing, hscopes] at hx
    have hlookup : (((name, false) :: scope).lookup x == some false) = true ↔ name = x := by
      rw [Context.lookup_cons]
      by_cases hname : name = x
      · simp [hname]
      · rw [if_neg hname, hx]
        simp [hname]
    exact hlookup

end Spot.Describes

/-! ## Expressions -/

section
variable {ε α β γ : Type} {x : Except ε α} {y : Except ε β}

/-- A step that succeeds or fails behind every result alike. -/
theorem bind_ok_iff {f : α → Except ε β} {p : Prop}
    (hf : ∀ a, x = .ok a → ((∃ b, f a = .ok b) ↔ p)) :
    (∃ b, (x >>= f) = .ok b) ↔ (∃ a, x = .ok a) ∧ p := by
  cases x with
  | error e =>
    constructor
    · rintro ⟨_, h⟩
      cases h
    · rintro ⟨⟨_, h⟩, -⟩
      cases h
  | ok a => exact (hf a rfl).trans (and_iff_right ⟨a, rfl⟩).symm

/-- What is made of a result does not matter for whether there is one. -/
theorem map_ok_iff {g : α → γ} :
    (∃ c, (x >>= fun a => pure (g a)) = .ok c) ↔ ∃ a, x = .ok a :=
  (bind_ok_iff fun a _ => iff_of_true ⟨g a, rfl⟩ trivial).trans (and_iff_left trivial)

/-- Two steps that do not need each other succeed when both do. -/
theorem both_ok_iff {g : α → β → γ} :
    (∃ c, (x >>= fun a => y >>= fun b => pure (g a b)) = .ok c) ↔
      (∃ a, x = .ok a) ∧ ∃ b, y = .ok b :=
  bind_ok_iff fun _ _ => map_ok_iff

/-- A step behind one that has a single possible result. -/
theorem after_ok_iff {f : α → Except ε β} {a : α} {allowed : Prop}
    (hx : ∀ {a'}, x = .ok a' ↔ allowed ∧ a' = a) :
    (∃ b, (x >>= f) = .ok b) ↔ allowed ∧ ∃ b, f a = .ok b := by
  constructor
  · rintro ⟨b, h⟩
    obtain ⟨a', ha, hb⟩ := except_bind_eq_ok.mp h
    obtain ⟨hallowed, rfl⟩ := hx.mp ha
    exact ⟨hallowed, b, hb⟩
  · rintro ⟨hallowed, b, hb⟩
    exact ⟨b, except_bind_eq_ok.mpr ⟨a, hx.mpr ⟨hallowed, rfl⟩, hb⟩⟩

end

/-- What the context asks of an expression, apart from the expressions in it. -/
def Scoping.Context.Permits (ctx : Context) : Expr → Prop
  | .variable _ x => ctx.isInitializing x.name = false
  | .this _ _ => ctx.inClass = true
  | _ => True

mutual

/-- An expression is accepted when all expressions in it are permitted. -/
theorem resolveExpr_ok_iff {ctx : Context} (e : Expr) :
    (∃ d, resolveExpr ctx e = .ok d) ↔ ∀ part ∈ e.parts, ctx.Permits part := by
  match e with
  | .literal _ => simp [resolveExpr, Expr.parts, Context.Permits]
  | .variable id x =>
    simp only [resolveExpr, Expr.parts, List.forall_mem_singleton, Context.Permits]
    cases ctx.isInitializing x.name <;> simp
  | .this id line =>
    simp only [resolveExpr, Expr.parts, List.forall_mem_singleton, Context.Permits]
    cases ctx.inClass <;> simp
  | .grouping inner | .unary _ _ inner | .get inner _ =>
    simp only [resolveExpr, Expr.parts, List.forall_mem_cons, resolveExpr_ok_iff inner]
    exact (and_iff_right trivial).symm
  | .assign _ _ value =>
    simp only [resolveExpr, map_ok_iff, Expr.parts, List.forall_mem_cons, resolveExpr_ok_iff value]
    exact (and_iff_right trivial).symm
  | .binary _ _ left right | .logical _ left right =>
    simp only [resolveExpr, both_ok_iff, Expr.parts, List.forall_mem_cons, List.forall_mem_append,
      resolveExpr_ok_iff left, resolveExpr_ok_iff right]
    exact (and_iff_right trivial).symm
  | .call callee _ arguments =>
    simp only [resolveExpr, both_ok_iff, Expr.parts, List.forall_mem_cons, List.forall_mem_append,
      resolveExpr_ok_iff callee, resolveExprs_ok_iff arguments]
    exact (and_iff_right trivial).symm
  | .set object _ value =>
    simp only [resolveExpr, both_ok_iff, Expr.parts, List.forall_mem_cons, List.forall_mem_append,
      resolveExpr_ok_iff object, resolveExpr_ok_iff value]
    exact (and_iff_right trivial).symm

theorem resolveExprs_ok_iff {ctx : Context} (es : List Expr) :
    (∃ d, resolveExprs ctx es = .ok d) ↔ ∀ part ∈ Expr.allParts es, ctx.Permits part := by
  match es with
  | [] => simp [resolveExprs, Expr.allParts]
  | e :: rest =>
    simp only [resolveExprs, both_ok_iff, Expr.allParts, List.forall_mem_append,
      resolveExpr_ok_iff e, resolveExprs_ok_iff rest]

end

section
variable {spot : Spot} {ctx : Context}

theorem allAllowed_spotted {e : Expr} :
    AllAllowed (e.spotted spot) ↔ ∀ part ∈ e.parts, spot.Allows (.expr part) := by
  simp [AllAllowed, Expr.spotted]

/-- Outside of initializers. -/
theorem resolveExpr_allowed_iff (h : spot.Describes ctx) (e : Expr) :
    (∃ d, resolveExpr ctx e = .ok d) ↔ AllAllowed (e.spotted spot) := by
  rw [resolveExpr_ok_iff, allAllowed_spotted]
  refine forall₂_congr fun part _ => ?_
  cases part with
  | «variable» id x => exact iff_of_true (h.calm x.name) trivial
  | this id line =>
    change ctx.inClass = true ↔ spot.classAround.isSome = true
    rw [h.inClass]
  | _ => exact Iff.rfl

/-- In the initializer of a variable. -/
theorem resolveInitializer_allowed_iff (h : spot.Describes ctx) (name : String) (e : Expr) :
    (∃ d, resolveExpr ((ctx.mark name false).inInitializer name) e = .ok d) ↔
      (∀ id x, .variable id x ∈ e.parts → x.name ≠ name) ∧ AllAllowed (e.spotted spot) := by
  have hclass : ((ctx.mark name false).inInitializer name).inClass = spot.classAround.isSome := by
    rw [← h.inClass]
    cases hscopes : ctx.scopes with
    | nil =>
      rw [Context.mark_of_nil hscopes]
      simp [Context.inInitializer, hscopes]
    | cons scope outer =>
      rw [Context.mark_of_cons hscopes]
      simp [Context.inInitializer]
  have hread : ∀ x, ((ctx.mark name false).inInitializer name).isInitializing x = false ↔
      x ≠ name := by
    intro x
    rw [← Bool.not_eq_true, h.isInitializing_iff]
    exact not_congr eq_comm
  rw [resolveExpr_ok_iff, allAllowed_spotted]
  constructor
  · intro hparts
    refine ⟨fun id x hx => (hread x.name).mp (hparts _ hx), fun part hpart => ?_⟩
    have hpermits := hparts part hpart
    cases part with
    | this id line => exact hclass.symm.trans hpermits
    | _ => trivial
  · rintro ⟨hnames, hparts⟩ part hpart
    have hallows := hparts part hpart
    cases part with
    | «variable» id x => exact (hread x.name).mpr (hnames id x hpart)
    | this id line => exact hclass.trans hallows
    | _ => trivial

end

/-! ## Statements -/

theorem checkReturn_ok_iff {spot : Spot} {ctx : Context} (h : spot.Describes ctx) {line : Nat}
    {value : Option Expr} :
    (∃ u, checkReturn ctx line value = .ok u) ↔ spot.Allows (.stmt (.returnValue line value)) := by
  change _ ↔ ∃ routine, spot.routine = some routine ∧ (routine = .initializer → value = none)
  rw [← h.routine]
  unfold checkReturn
  cases ctx.routine with
  | none => simp
  | some routine => cases routine <;> cases value <;> simp

theorem introduce_ok_iff {ctx introduced : Context} {name : Identifier} :
    ctx.introduce name = .ok introduced ↔
      ctx.Admits [name.name] ∧ introduced = ctx.readyAll [name.name] := by
  rw [Context.introduce_eq_ok]
  simp [Context.Admits, Context.readyAll]

section
variable {spot : Spot} {ctx : Context} {s : Stmt} {nodes : List (Spot × Node)}
  {accepted allowed : Prop}

/-- Every scope admits a statement that declares nothing. -/
theorem undeclared_ok_iff (hname : s.declaredName? = none) :
    (accepted ↔ ctx.Admits s.declaredName?.toList ∧ allowed) ↔ (accepted ↔ allowed) := by
  rw [hname]
  exact iff_congr Iff.rfl (and_iff_right trivial)

theorem plain_ok_iff (hallows : spot.Allows (.stmt s)) :
    (accepted ↔ AllAllowed ((spot, .stmt s) :: nodes)) ↔ (accepted ↔ AllAllowed nodes) := by
  rw [allAllowed_cons]
  exact iff_congr Iff.rfl (and_iff_right hallows)

end

mutual

/-- A statement is accepted when its name can be added to the scope, and all of its nodes obey their
rules. -/
theorem resolveStmt_ok_iff {spot : Spot} {ctx : Context} (s : Stmt) (hs : s.Regular)
    (hspot : spot.Describes ctx) :
    (∃ r, resolveStmt ctx s = .ok r) ↔
      ctx.Admits s.declaredName?.toList ∧ AllAllowed (s.spotted spot) := by
  match s with
  | .expression e | .print e =>
    rw [undeclared_ok_iff rfl, Stmt.spotted, plain_ok_iff, ← resolveExpr_allowed_iff hspot e]
    · exact map_ok_iff
    · trivial
  | .varDecl name e =>
    rw [Stmt.spotted, allAllowed_cons]
    change _ ↔ (ctx.hasLocal name.name = false ∧ True) ∧ _
    have hread := resolveInitializer_allowed_iff hspot name.name e
    rw [and_true]
    exact (after_ok_iff Context.declare_eq_ok).trans (and_congr_right' (map_ok_iff.trans hread))
  | .block body =>
    have hbody := resolveStmts_ok_iff body hs hspot.inScope
    rw [Context.admits_of_empty rfl] at hbody
    have hblock : (∃ r, resolveStmt ctx (.block body) = .ok r) ↔
        ∃ r, resolveStmts (ctx.push []) body = .ok r :=
      map_ok_iff (g := fun (r : Context × Distances) => (ctx, r.2))
    rw [undeclared_ok_iff rfl, Stmt.spotted, allAllowed_cons]
    exact hblock.trans hbody
  | .ifElse c s none =>
    have hthen := (undeclared_ok_iff hs.1).mp (resolveStmt_ok_iff s hs.2 hspot)
    rw [undeclared_ok_iff rfl, Stmt.spotted, plain_ok_iff, allAllowed_append,
      ← resolveExpr_allowed_iff hspot c, ← hthen]
    · exact both_ok_iff (g := fun first (r : Context × Distances) => (r.1, r.2 ++ first))
    · trivial
  | .ifElse c s (some r) =>
    obtain ⟨⟨hnone, hregular⟩, hnone', hregular'⟩ := hs
    have hthen := (undeclared_ok_iff hnone).mp (resolveStmt_ok_iff s hregular hspot)
    have helse := (undeclared_ok_iff hnone').mp (resolveStmt_ok_iff r hregular' hspot)
    rw [undeclared_ok_iff rfl, Stmt.spotted, plain_ok_iff, allAllowed_append,
      allAllowed_append, ← resolveExpr_allowed_iff hspot c, ← hthen, ← helse, and_assoc]
    · refine bind_ok_iff fun first _ => bind_ok_iff fun ⟨middle, second⟩ hs => ?_
      obtain rfl := resolveStmt_undeclared hregular hnone hs
      exact map_ok_iff (g := fun (r : Context × Distances) => (r.1, r.2 ++ (second ++ first)))
    · trivial
  | .whileLoop c s =>
    have hbody := (undeclared_ok_iff hs.1).mp (resolveStmt_ok_iff s hs.2 hspot.inLoopBody)
    rw [undeclared_ok_iff rfl, Stmt.spotted, plain_ok_iff, allAllowed_append,
      ← resolveExpr_allowed_iff hspot c, ← hbody]
    · exact both_ok_iff (g := fun first (r : Context × Distances) =>
        ({ r.1 with inLoop := ctx.inLoop }, r.2 ++ first))
    · trivial
  | .breakLoop line =>
    rw [undeclared_ok_iff rfl, Stmt.spotted, allAllowed_cons]
    change _ ↔ spot.inLoop = true ∧ _
    rw [resolveStmt, ← hspot.inLoop]
    cases ctx.inLoop <;> simp [allAllowed_nil]
  | .funDecl f =>
    rw [Stmt.spotted, allAllowed_cons]
    change _ ↔ ctx.Admits [f.name.name] ∧ _
    have hfunction := resolveFunction_ok_iff f .ordinary hs (hspot.readyAll [f.name.name])
    exact (after_ok_iff introduce_ok_iff).trans (and_congr_right' (map_ok_iff.trans hfunction))
  | .returnValue line none =>
    rw [undeclared_ok_iff rfl, Stmt.spotted, allAllowed_cons, ← checkReturn_ok_iff hspot,
      and_iff_left allAllowed_nil]
    exact map_ok_iff
  | .returnValue line (some e) =>
    rw [undeclared_ok_iff rfl, Stmt.spotted, allAllowed_cons, ← checkReturn_ok_iff hspot,
      ← resolveExpr_allowed_iff hspot e]
    exact both_ok_iff
  | .classDecl name methods =>
    rw [Stmt.spotted, allAllowed_cons]
    change _ ↔ ctx.Admits [name.name] ∧ _
    have hmethods := resolveMethods_ok_iff methods hs
      ((hspot.readyAll [name.name]).inClassBody ⟨name, methods⟩)
    exact (after_ok_iff introduce_ok_iff).trans (and_congr_right' (map_ok_iff.trans hmethods))
termination_by structural s

/-- Statements of one scope are accepted when all of their names can be added to it. -/
theorem resolveStmts_ok_iff {spot : Spot} {ctx : Context} (ss : List Stmt)
    (hss : Stmt.AllRegular ss) (hspot : spot.Describes ctx) :
    (∃ r, resolveStmts ctx ss = .ok r) ↔
      ctx.Admits (declaredNames ss) ∧ AllAllowed (Stmt.allSpotted spot ss) := by
  match ss with
  | [] => exact iff_of_true ⟨_, rfl⟩ ⟨trivial, allAllowed_nil⟩
  | s :: rest =>
    obtain ⟨hregular, hregulars⟩ := hss
    have hfirst := resolveStmt_ok_iff s hregular hspot
    have hbehind : spot.Describes (ctx.behind s) := hspot.readyAll _
    have hothers := resolveStmts_ok_iff rest hregulars hbehind
    rw [Context.admits_declaredNames_cons, Stmt.allSpotted, allAllowed_append,
      and_and_and_comm, ← hfirst, ← hothers]
    refine bind_ok_iff fun ⟨middle, first⟩ hs => ?_
    obtain rfl := Context.behind_of_resolveStmt hregular hs
    exact map_ok_iff (g := fun (r : Context × Distances) => (r.1, r.2 ++ first))
termination_by structural ss

theorem resolveFunction_ok_iff {spot : Spot} {ctx : Context} (f : FunctionDecl) (routine : Routine)
    (hf : f.Regular) (hspot : spot.Describes ctx) :
    (∃ d, resolveFunction (ctx.inRoutine routine) f = .ok d) ↔
      f.localNames.Nodup ∧ AllAllowed (f.spotted spot routine) := by
  match f with
  | .mk name params body =>
    have hscopes : (ctx.inRoutine routine).scopes = [] :: ctx.scopes := rfl
    have hbody := resolveStmts_ok_iff body hf.2
      ((hspot.inFunction routine).readyAll (params.map (·.name)))
    change _ ↔ (params.map (·.name) ++ declaredNames body).Nodup ∧
      AllAllowed (Stmt.allSpotted (spot.inFunction routine) body)
    rw [← Context.admits_of_empty hscopes, Context.admits_append, and_assoc, ← hbody]
    refine (after_ok_iff Context.introduceAll_eq_ok).trans (and_congr_right' ?_)
    exact map_ok_iff (g := fun (r : Context × Distances) => r.2)
termination_by structural f

theorem resolveMethods_ok_iff {spot : Spot} {ctx : Context} (fs : List FunctionDecl)
    (hfs : FunctionDecl.AllRegular fs) (hspot : spot.Describes ctx) :
    (∃ d, resolveMethods ctx fs = .ok d) ↔
      (∀ f ∈ fs, f.localNames.Nodup) ∧ AllAllowed (FunctionDecl.allSpotted spot fs) := by
  match fs with
  | [] => exact iff_of_true ⟨_, rfl⟩ ⟨fun _ h => (nomatch h), allAllowed_nil⟩
  | f :: rest =>
    obtain ⟨hregular, hregulars⟩ := hfs
    have hboth : (∃ d, resolveMethods ctx (f :: rest) = .ok d) ↔
        (∃ d, resolveFunction (ctx.inRoutine f.routine) f = .ok d) ∧
          ∃ d, resolveMethods ctx rest = .ok d := both_ok_iff
    rw [hboth, resolveFunction_ok_iff f f.routine hregular hspot,
      resolveMethods_ok_iff rest hregulars hspot, List.forall_mem_cons, FunctionDecl.allSpotted,
      allAllowed_append]
    exact and_and_and_comm
termination_by structural fs

end

/-! ## Programs -/

section
variable {source : String} {nextId next : NodeId} {p : Program}

/-- **The resolver accepts exactly the programs that are well-formed**, among those that the parser
makes of a source. -/
theorem resolve_ok_iff_wellFormed (hparse : parseSource source nextId = (.ok p, next)) :
    (∃ d, p.resolve = .ok d) ↔ p.WellFormed := by
  obtain ⟨hregular, -⟩ := parseSource_regular hparse
  have hresolve : (∃ d, p.resolve = .ok d) ↔ ∃ r, resolveStmts .top p = .ok r :=
    map_ok_iff (g := fun (r : Context × Distances) => r.2)
  rw [hresolve, resolveStmts_ok_iff p hregular .top]
  exact and_iff_right (Context.admits_of_nil rfl)

/-- A name may be bound again in another scope, and an initializer may return without a value. -/
theorem nested_wellFormed :
    let loop : Stmt := .block [.varDecl ⟨"a", 1⟩ (.this 1 1), .breakLoop 1]
    let body : List Stmt := [.whileLoop (.variable 0 ⟨"a", 1⟩) loop, .returnValue 1 none]
    let p : Program := [.classDecl ⟨"A", 1⟩ [.mk ⟨"init", 1⟩ [⟨"a", 1⟩] body]]
    parseSource
        "class A \x7b init(a) \x7b while (a) \x7b var a = this; break; \x7d return; \x7d \x7d" 0
        = (.ok p, 2) ∧ p.WellFormed := by
  intro loop body p
  have hparse : parseSource
      "class A \x7b init(a) \x7b while (a) \x7b var a = this; break; \x7d return; \x7d \x7d" 0
      = (.ok p, 2) := by cbv
  have hresolve : p.resolve = .ok [(1, 2), (0, 0)] := by cbv
  exact ⟨hparse, (resolve_ok_iff_wellFormed hparse).mp ⟨_, hresolve⟩⟩

end

end LoxLang
