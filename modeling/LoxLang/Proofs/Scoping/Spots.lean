import LoxLang.Proofs.Parsing.Names
import LoxLang.Proofs.Scoping.Contexts
import LoxLang.Proofs.Scoping.Sites

/-!
# Spots

Where the nodes of a program stand among its classes, functions and loops. A spot is read off the
program alone, and holds what the resolver's context says of `this`, `return` and `break`.

* `Spot`: the class, the function and the loop around a node;
* `Program.spotted`: all nodes of a program, each at its spot;
* `resolve_spotted`: in a resolved program every `this` is in a class and has the distance of its
  scope, every `break` is in a loop, and every `return` in a function.
-/

namespace LoxLang

open Scoping

/-- A class as declared. -/
structure ClassDecl where
  name : Identifier
  methods : List FunctionDecl

/-- What stands around a node. -/
structure Spot where
  /-- The innermost class statement, and how many scopes out the scope of its `this` is. -/
  classAround : Option (ClassDecl × Nat)
  /-- The nearest function. -/
  routine : Option Routine
  /-- Whether there is a loop in the nearest function. -/
  inLoop : Bool

namespace Spot

def top : Spot := ⟨none, none, false⟩

/-- One scope further in. -/
def inScope (spot : Spot) : Spot :=
  { spot with classAround := spot.classAround.map fun c => (c.1, c.2 + 1) }

def inLoopBody (spot : Spot) : Spot := { spot with inLoop := true }

def inFunction (spot : Spot) (routine : Routine) : Spot :=
  ⟨spot.inScope.classAround, some routine, false⟩

def inClassBody (spot : Spot) (c : ClassDecl) : Spot := { spot with classAround := some (c, 0) }

end Spot

inductive Node
  | expr (e : Expr)
  | stmt (s : Stmt)

def Node.names : Node → List String
  | expr e => e.names
  | stmt s => s.names

/-! ## Nodes at their spots -/

/-- The nodes of an expression. -/
def Expr.spotted (spot : Spot) (e : Expr) : List (Spot × Node) :=
  e.parts.map fun part => (spot, .expr part)

mutual

/-- The nodes of a statement. -/
def Stmt.spotted (spot : Spot) : Stmt → List (Spot × Node)
  | .expression e => (spot, .stmt (.expression e)) :: e.spotted spot
  | .print e => (spot, .stmt (.print e)) :: e.spotted spot
  | .varDecl name e => (spot, .stmt (.varDecl name e)) :: e.spotted spot
  | .block body => (spot, .stmt (.block body)) :: Stmt.allSpotted spot.inScope body
  | .ifElse c s none => (spot, .stmt (.ifElse c s none)) :: (c.spotted spot ++ s.spotted spot)
  | .ifElse c s (some r) =>
    (spot, .stmt (.ifElse c s (some r))) :: (c.spotted spot ++ s.spotted spot ++ r.spotted spot)
  | .whileLoop c s =>
    (spot, .stmt (.whileLoop c s)) :: (c.spotted spot ++ s.spotted spot.inLoopBody)
  | .breakLoop line => [(spot, .stmt (.breakLoop line))]
  | .funDecl f => (spot, .stmt (.funDecl f)) :: f.spotted spot .ordinary
  | .returnValue line none => [(spot, .stmt (.returnValue line none))]
  | .returnValue line (some e) => (spot, .stmt (.returnValue line (some e))) :: e.spotted spot
  | .classDecl name methods =>
    (spot, .stmt (.classDecl name methods)) ::
      FunctionDecl.allSpotted (spot.inClassBody ⟨name, methods⟩) methods

def Stmt.allSpotted (spot : Spot) : List Stmt → List (Spot × Node)
  | [] => []
  | s :: rest => s.spotted spot ++ Stmt.allSpotted spot rest

/-- The nodes in the body of a function that stands at the spot. -/
def FunctionDecl.spotted (spot : Spot) (routine : Routine) : FunctionDecl → List (Spot × Node)
  | .mk _ _ body => Stmt.allSpotted (spot.inFunction routine) body

/-- The nodes in the methods of a class. -/
def FunctionDecl.allSpotted (spot : Spot) : List FunctionDecl → List (Spot × Node)
  | [] => []
  | f :: rest => f.spotted spot f.routine ++ FunctionDecl.allSpotted spot rest

end

/-- The nodes of a program. -/
def Program.spotted (p : Program) : List (Spot × Node) := Stmt.allSpotted .top p

section
variable {spot : Spot}

theorem Stmt.mem_spotted_self (s : Stmt) : (spot, Node.stmt s) ∈ s.spotted spot := by
  match s with
  | .ifElse _ _ none | .ifElse _ _ (some _) | .returnValue _ none | .returnValue _ (some _) =>
    exact List.mem_cons_self
  | .expression _ | .print _ | .varDecl _ _ | .block _ | .whileLoop _ _ | .breakLoop _
  | .funDecl _ | .classDecl _ _ => exact List.mem_cons_self

theorem FunctionDecl.spotted_subset {fs : List FunctionDecl} {f : FunctionDecl} (h : f ∈ fs) :
    f.spotted spot f.routine ⊆ FunctionDecl.allSpotted spot fs := by
  induction fs with
  | nil => cases h
  | cons first rest ih =>
    obtain rfl | h := List.mem_cons.mp h
    · exact List.subset_append_left _ _
    · exact List.Subset.trans (ih h) (List.subset_append_right _ _)

theorem FunctionDecl.spotted_eq (f : FunctionDecl) (routine : Routine) :
    f.spotted spot routine = Stmt.allSpotted (spot.inFunction routine) f.body := by
  cases f
  rfl

end

/-! ## Contexts and spots -/

namespace Scoping.Context

variable {ctx : Context} {x y : String}

theorem distance?_mark (h : x ≠ y) (b : Bool) : (ctx.mark x b).distance? y = ctx.distance? y := by
  cases hscopes : ctx.scopes with
  | nil => rw [mark_of_nil hscopes]
  | cons scope outer =>
    rw [mark_of_cons hscopes]
    simp only [distance?, hscopes, List.findIdx?_cons, lookup_cons, if_neg h]

theorem distance?_push (ctx : Context) (y : String) :
    (ctx.push []).distance? y = (ctx.distance? y).map (· + 1) := by
  simp [distance?, push, List.findIdx?_cons]

end Scoping.Context

/-- The context says the same as the spot. -/
structure Spot.Matches (spot : Spot) (ctx : Context) : Prop where
  distance : ctx.distance? "this" = spot.classAround.map (·.2)
  inClass : ctx.inClass = spot.classAround.isSome
  routine : ctx.routine = spot.routine
  inLoop : ctx.inLoop = spot.inLoop

namespace Spot.Matches

variable {spot : Spot} {ctx ctx' : Context} {name : Identifier} {x : String} {b : Bool}

theorem top : Spot.top.Matches .top := ⟨rfl, rfl, rfl, rfl⟩

theorem mark (h : spot.Matches ctx) (hx : x ≠ "this") : spot.Matches (ctx.mark x b) := by
  have hdistance := (Context.distance?_mark hx b).trans h.distance
  cases hscopes : ctx.scopes with
  | nil =>
    rw [Context.mark_of_nil hscopes]
    exact h
  | cons scope outer =>
    rw [Context.mark_of_cons hscopes] at hdistance ⊢
    exact ⟨hdistance, h.inClass, h.routine, h.inLoop⟩

theorem introduce (h : spot.Matches ctx) (hx : name.name ≠ "this")
    (hctx : ctx.introduce name = .ok ctx') : spot.Matches ctx' := by
  obtain ⟨-, rfl⟩ := Context.introduce_eq_ok.mp hctx
  exact (h.mark hx).mark hx

theorem introduceAll {params : List Identifier} (h : spot.Matches ctx)
    (hparams : "this" ∉ params.map (·.name)) (hctx : ctx.introduceAll params = .ok ctx') :
    spot.Matches ctx' := by
  induction params generalizing ctx with
  | nil =>
    cases hctx
    exact h
  | cons p rest ih =>
    obtain ⟨inner, hp, hrest⟩ := Context.introduceAll_cons.mp hctx
    obtain ⟨hname, hnames⟩ := not_or.mp (mt List.mem_cons.mpr hparams)
    exact ih (h.introduce (Ne.symm hname) hp) hnames hrest

theorem inInitializer (h : spot.Matches ctx) (x : String) :
    spot.Matches (ctx.inInitializer x) := by
  unfold Context.inInitializer
  split
  · exact ⟨h.distance, h.inClass, h.routine, h.inLoop⟩
  · exact h

theorem inScope (h : spot.Matches ctx) : spot.inScope.Matches (ctx.push []) where
  distance := by
    rw [Context.distance?_push, h.distance]
    simp [Spot.inScope, Function.comp_def]
  inClass := h.inClass.trans (Option.isSome_map ..).symm
  routine := h.routine
  inLoop := h.inLoop

theorem inFunction (h : spot.Matches ctx) (routine : Routine) :
    (spot.inFunction routine).Matches (ctx.inRoutine routine) :=
  ⟨h.inScope.distance, h.inScope.inClass, rfl, rfl⟩

theorem inClassBody (h : spot.Matches ctx) (c : ClassDecl) :
    (spot.inClassBody c).Matches ctx.inClassBody := ⟨rfl, rfl, h.routine, h.inLoop⟩

theorem inLoopBody (h : spot.Matches ctx) : spot.inLoopBody.Matches { ctx with inLoop := true } :=
  ⟨h.distance, h.inClass, h.routine, rfl⟩

/-- A `return` that was checked is in a function, and without a value in an initializer. -/
theorem returns (h : spot.Matches ctx) {line : Nat} {value : Option Expr}
    (hcheck : checkReturn ctx line value = .ok ()) :
    ∃ routine, spot.routine = some routine ∧ (routine = .initializer → value = none) := by
  rw [← h.routine]
  unfold checkReturn at hcheck
  split at hcheck
  · cases hcheck
  · cases hcheck
  · rename_i hnone hinit
    cases hroutine : ctx.routine with
    | none => exact (hnone hroutine).elim
    | some routine =>
      refine ⟨routine, rfl, fun heq => ?_⟩
      rw [heq] at hroutine
      exact Option.eq_none_iff_forall_ne_some.mpr fun e he => hinit e hroutine he

end Spot.Matches

/-! ## What a resolved program has checked -/

/-- What holds of a node at a spot, where it is known which distances were found. -/
structure Spot.Admits (found : NodeId → Nat → Prop) (spot : Spot) (node : Node) : Prop where
  /-- No variable has the name of the object. -/
  names : "this" ∉ node.names
  this (id : NodeId) (line : Nat) : node = .expr (.this id line) →
    ∃ c k, spot.classAround = some (c, k) ∧ found id k
  breaks (line : Nat) : node = .stmt (.breakLoop line) → spot.inLoop = true
  returns (line : Nat) (value : Option Expr) : node = .stmt (.returnValue line value) →
    ∃ routine, spot.routine = some routine ∧ (routine = .initializer → value = none)

theorem Spot.Admits.mono {found found' : NodeId → Nat → Prop} {spot : Spot} {node : Node}
    (h : spot.Admits found node) (hfound : ∀ id line k, node = .expr (.this id line) →
      found id k → found' id k) : spot.Admits found' node where
  names := h.names
  this id line hnode := by
    obtain ⟨c, k, hc, hk⟩ := h.this id line hnode
    exact ⟨c, k, hc, hfound id line k hnode hk⟩
  breaks := h.breaks
  returns := h.returns

/-- All nodes may stand at their spots, by the distances that were found. -/
def AllAdmitted (d : Distances) (nodes : List (Spot × Node)) : Prop :=
  ∀ node ∈ nodes, node.1.Admits (fun id k => (id, k) ∈ d) node.2

section
variable {d d' : Distances} {spot : Spot} {nodes nodes' : List (Spot × Node)}

theorem AllAdmitted.append (h : AllAdmitted d nodes) (h' : AllAdmitted d' nodes') :
    AllAdmitted (d' ++ d) (nodes ++ nodes') := by
  intro node hnode
  obtain hnode | hnode := List.mem_append.mp hnode
  · exact (h node hnode).mono fun _ _ _ _ hk => List.subset_append_right d' d hk
  · exact (h' node hnode).mono fun _ _ _ _ hk => List.subset_append_left d' d hk

/-- A statement that does not end a loop or a function may stand anywhere, if its parts may stand
where they do. -/
theorem AllAdmitted.stmt {s : Stmt} (h : AllAdmitted d nodes) (hnames : "this" ∉ s.names)
    (hbreak : ∀ line, s ≠ .breakLoop line) (hreturn : ∀ line value, s ≠ .returnValue line value) :
    AllAdmitted d ((spot, .stmt s) :: nodes) :=
  List.forall_mem_cons.mpr ⟨{
    names := hnames
    this := nofun
    breaks := fun line h => absurd (Node.stmt.inj h) (hbreak line)
    returns := fun line value h => absurd (Node.stmt.inj h) (hreturn line value) }, h⟩

end

mutual

/-- A part of an expression has no other names. -/
theorem Expr.names_parts (e : Expr) : ∀ part ∈ e.parts, part.names ⊆ e.names := by
  match e with
  | .literal _ | .variable _ _ | .this _ _ => simp [Expr.parts]
  | .grouping inner | .unary _ _ inner =>
    exact List.forall_mem_cons.mpr ⟨fun _ hx => hx, names_parts inner⟩
  | .assign _ name value =>
    exact List.forall_mem_cons.mpr ⟨fun _ hx => hx, fun part hpart _ hx =>
      List.mem_cons_of_mem _ (names_parts value part hpart hx)⟩
  | .binary _ _ left right | .logical _ left right =>
    refine List.forall_mem_cons.mpr ⟨fun _ hx => hx, fun part hpart x hx => ?_⟩
    obtain hpart | hpart := List.mem_append.mp hpart
    · exact List.mem_append_left _ (names_parts left part hpart hx)
    · exact List.mem_append_right _ (names_parts right part hpart hx)
  | .call callee _ arguments =>
    refine List.forall_mem_cons.mpr ⟨fun _ hx => hx, fun part hpart x hx => ?_⟩
    obtain hpart | hpart := List.mem_append.mp hpart
    · exact List.mem_append_left _ (names_parts callee part hpart hx)
    · exact List.mem_append_right _ (names_allParts arguments part hpart hx)
  | .get object name =>
    exact List.forall_mem_cons.mpr ⟨fun _ hx => hx, fun part hpart _ hx =>
      List.mem_append_left _ (names_parts object part hpart hx)⟩
  | .set object name value =>
    refine List.forall_mem_cons.mpr ⟨fun _ hx => hx, fun part hpart x hx => ?_⟩
    obtain hpart | hpart := List.mem_append.mp hpart
    · exact List.mem_append_right _ (List.mem_cons_of_mem _ (names_parts value part hpart hx))
    · exact List.mem_append_left _ (names_parts object part hpart hx)

theorem Expr.names_allParts (es : List Expr) :
    ∀ part ∈ Expr.allParts es, part.names ⊆ Expr.allNames es := by
  match es with
  | [] => exact fun _ h => nomatch h
  | e :: rest =>
    intro part hpart x hx
    obtain hpart | hpart := List.mem_append.mp hpart
    · exact List.mem_append_left _ (names_parts e part hpart hx)
    · exact List.mem_append_right _ (names_allParts rest part hpart hx)

end

/-- Every `this` in an expression that was resolved has its distance. -/
theorem resolveExpr_spotted {spot : Spot} {ctx : Context} {e : Expr} {d : Distances}
    (hspot : spot.Matches ctx) (hnames : "this" ∉ e.names) (h : resolveExpr ctx e = .ok d) :
    AllAdmitted d (e.spotted spot) := by
  intro node hnode
  obtain ⟨part, hpart, rfl⟩ := List.mem_map.mp hnode
  refine ⟨fun hthis => hnames (e.names_parts part hpart hthis), fun id line heq => ?_,
    nofun, nofun⟩
  cases heq
  obtain ⟨inside, hinside, hsub⟩ := resolveExpr_parts e h _ hpart
  obtain ⟨hclass, rfl⟩ := resolveExpr_this.mp hinside
  rw [hspot.inClass] at hclass
  obtain ⟨⟨c, k⟩, hc⟩ := Option.isSome_iff_exists.mp hclass
  refine ⟨c, k, hc, hsub ?_⟩
  have hdistance : ctx.distance? "this" = some k := by rw [hspot.distance, hc]; rfl
  simp only [Context.entry, hdistance]
  exact List.mem_cons_self

mutual

theorem resolveStmt_spotted {spot : Spot} {ctx behind : Context} (s : Stmt) {d : Distances}
    (hspot : spot.Matches ctx) (hnames : "this" ∉ s.names)
    (h : resolveStmt ctx s = .ok (behind, d)) :
    spot.Matches behind ∧ AllAdmitted d (s.spotted spot) := by
  match s with
  | .expression e =>
    obtain ⟨he, rfl⟩ := resolveStmt_expression.mp h
    exact ⟨hspot, (resolveExpr_spotted hspot hnames he).stmt hnames nofun nofun⟩
  | .print e =>
    obtain ⟨he, rfl⟩ := resolveStmt_print.mp h
    exact ⟨hspot, (resolveExpr_spotted hspot hnames he).stmt hnames nofun nofun⟩
  | .varDecl name e =>
    obtain ⟨hname, he⟩ := not_or.mp (mt List.mem_cons.mpr hnames)
    obtain ⟨declared, hdeclared, hinside, rfl⟩ := resolveStmt_varDecl.mp h
    obtain ⟨-, rfl⟩ := Context.declare_eq_ok.mp hdeclared
    have hdeclared := hspot.mark (b := false) (Ne.symm hname)
    have hinside := resolveExpr_spotted (hdeclared.inInitializer name.name) he hinside
    exact ⟨hdeclared.mark (Ne.symm hname), hinside.stmt hnames nofun nofun⟩
  | .block body =>
    obtain ⟨⟨_, hbody⟩, rfl⟩ := resolveStmt_block.mp h
    exact ⟨hspot, (resolveStmts_spotted body hspot.inScope hnames hbody).2.stmt hnames nofun nofun⟩
  | .ifElse c s none =>
    obtain ⟨hc, hs⟩ := not_or.mp (mt List.mem_append.mpr hnames)
    obtain ⟨first, second, hfirst, hsecond, rfl⟩ := resolveStmt_ifThen.mp h
    obtain ⟨hbehind, hsecond⟩ := resolveStmt_spotted s hspot hs hsecond
    have hfirst := resolveExpr_spotted hspot hc hfirst
    exact ⟨hbehind, (hfirst.append hsecond).stmt hnames nofun nofun⟩
  | .ifElse c s (some r) =>
    obtain ⟨hcs, hr⟩ := not_or.mp (mt List.mem_append.mpr hnames)
    obtain ⟨hc, hs⟩ := not_or.mp (mt List.mem_append.mpr hcs)
    obtain ⟨first, _, second, third, hfirst, hsecond, hthird, rfl⟩ := resolveStmt_ifElse.mp h
    have hfirst := resolveExpr_spotted hspot hc hfirst
    obtain ⟨hmiddle, hsecond⟩ := resolveStmt_spotted s hspot hs hsecond
    obtain ⟨hbehind, hthird⟩ := resolveStmt_spotted r hmiddle hr hthird
    exact ⟨hbehind, ((hfirst.append hsecond).append hthird).stmt hnames nofun nofun⟩
  | .whileLoop c s =>
    obtain ⟨hc, hs⟩ := not_or.mp (mt List.mem_append.mpr hnames)
    obtain ⟨first, inner, second, hfirst, hsecond, rfl, rfl⟩ := resolveStmt_whileLoop.mp h
    have hfirst := resolveExpr_spotted hspot hc hfirst
    obtain ⟨hinner, hsecond⟩ := resolveStmt_spotted s hspot.inLoopBody hs hsecond
    exact ⟨⟨hinner.distance, hinner.inClass, hinner.routine, hspot.inLoop⟩,
      (hfirst.append hsecond).stmt hnames nofun nofun⟩
  | .breakLoop line =>
    obtain ⟨hloop, rfl, rfl⟩ := resolveStmt_breakLoop.mp h
    rw [hspot.inLoop] at hloop
    exact ⟨hspot, List.forall_mem_singleton.mpr ⟨hnames, nofun, fun _ _ => hloop, nofun⟩⟩
  | .funDecl f =>
    have hname : f.name.name ≠ "this" := by
      intro heq
      cases f
      exact hnames (heq ▸ List.mem_cons_self)
    obtain ⟨hintroduced, hf⟩ := resolveStmt_funDecl.mp h
    have hbehind := hspot.introduce hname hintroduced
    exact ⟨hbehind, (resolveFunction_spotted f hbehind hnames hf).stmt hnames nofun nofun⟩
  | .returnValue line none =>
    obtain ⟨hcheck, rfl, rfl⟩ := resolveStmt_return.mp h
    refine ⟨hspot, List.forall_mem_singleton.mpr ⟨hnames, nofun, nofun, fun _ value heq => ?_⟩⟩
    cases heq
    exact hspot.returns hcheck
  | .returnValue line (some e) =>
    obtain ⟨hcheck, he, rfl⟩ := resolveStmt_returnValue.mp h
    refine ⟨hspot, List.forall_mem_cons.mpr ⟨⟨hnames, nofun, nofun, fun _ value heq => ?_⟩,
      resolveExpr_spotted hspot hnames he⟩⟩
    cases heq
    exact hspot.returns hcheck
  | .classDecl name methods =>
    obtain ⟨hname, hmethods⟩ := not_or.mp (mt List.mem_cons.mpr hnames)
    obtain ⟨hintroduced, hinside⟩ := resolveStmt_classDecl.mp h
    have hbehind := hspot.introduce (Ne.symm hname) hintroduced
    have hinside := resolveMethods_spotted methods (hbehind.inClassBody ⟨name, methods⟩) hmethods
      hinside
    exact ⟨hbehind, hinside.stmt hnames nofun nofun⟩

theorem resolveStmts_spotted {spot : Spot} {ctx behind : Context} (ss : List Stmt) {d : Distances}
    (hspot : spot.Matches ctx) (hnames : "this" ∉ Stmt.allNames ss)
    (h : resolveStmts ctx ss = .ok (behind, d)) :
    spot.Matches behind ∧ AllAdmitted d (Stmt.allSpotted spot ss) := by
  match ss with
  | [] =>
    cases h
    exact ⟨hspot, fun _ h => nomatch h⟩
  | s :: rest =>
    obtain ⟨hs, hrest⟩ := not_or.mp (mt List.mem_append.mpr hnames)
    obtain ⟨_, first, others, hfirst, hothers, rfl⟩ := resolveStmts_cons.mp h
    obtain ⟨hmiddle, hfirst⟩ := resolveStmt_spotted s hspot hs hfirst
    obtain ⟨hbehind, hothers⟩ := resolveStmts_spotted rest hmiddle hrest hothers
    exact ⟨hbehind, hfirst.append hothers⟩

theorem resolveFunction_spotted {spot : Spot} {routine : Routine} {ctx : Context}
    (f : FunctionDecl) {d : Distances} (hspot : spot.Matches ctx) (hnames : "this" ∉ f.names)
    (h : resolveFunction (ctx.inRoutine routine) f = .ok d) :
    AllAdmitted d (f.spotted spot routine) := by
  match f with
  | .mk name params body =>
    obtain ⟨-, hinside⟩ := not_or.mp (mt List.mem_cons.mpr hnames)
    obtain ⟨hparams, hbody⟩ := not_or.mp (mt List.mem_append.mpr hinside)
    obtain ⟨inside, _, hintroduced, hstatements⟩ := resolveFunction_mk.mp h
    have hinside := (hspot.inFunction routine).introduceAll hparams hintroduced
    exact (resolveStmts_spotted body hinside hbody hstatements).2

theorem resolveMethods_spotted {spot : Spot} {ctx : Context} (fs : List FunctionDecl)
    {d : Distances} (hspot : spot.Matches ctx) (hnames : "this" ∉ FunctionDecl.allNames fs)
    (h : resolveMethods ctx fs = .ok d) : AllAdmitted d (FunctionDecl.allSpotted spot fs) := by
  match fs with
  | [] => exact fun _ h => nomatch h
  | f :: rest =>
    obtain ⟨hf, hrest⟩ := not_or.mp (mt List.mem_append.mpr hnames)
    obtain ⟨first, others, hfirst, hothers, rfl⟩ := resolveMethods_cons.mp h
    exact (resolveFunction_spotted f hspot hf hfirst).append
      (resolveMethods_spotted rest hspot hrest hothers)

end

/-- **In a resolved program every node may stand where it does.** -/
theorem resolve_spotted {p : Program} {d : Distances} (hnames : "this" ∉ Stmt.allNames p)
    (h : Program.resolve p = .ok d) : AllAdmitted d p.spotted := by
  obtain ⟨_, hp⟩ := resolve_eq_ok.mp h
  exact (resolveStmts_spotted p .top hnames hp).2

end LoxLang
