import LoxLang.Proofs.Relabeling
import LoxLang.Proofs.Scoping.Resolution

/-!
# Distances on other lines and of other identities

No scope depends on a line or on the identity of a node. So a relabeled program is accepted just
when the program is, and has the same distances.

* `Distances.relabel`, `ScopeError.relabel`: the distances and the fault of a relabeled program;
* `resolve_relabel`: they are those of the program, relabeled;
* `resolve_append`: the distances of two programs in a row, for no statement of the first one
  leaves anything behind in the outermost scope.
-/

namespace LoxLang

open Scoping

def Distances.relabel (r : Relabeling) (d : Distances) : Distances :=
  d.map fun entry => (r.node entry.1, entry.2)

@[simp] theorem Distances.relabel_nil (r : Relabeling) : Distances.relabel r [] = [] := rfl

@[simp] theorem Distances.relabel_append (r : Relabeling) (d d' : Distances) :
    Distances.relabel r (d ++ d') = Distances.relabel r d ++ Distances.relabel r d' :=
  List.map_append

/-- One to one identities keep their distances. -/
theorem Distances.of?_relabel {r : Relabeling} (h : Function.Injective r.node) (d : Distances)
    (id : NodeId) : (Distances.relabel r d).of? (r.node id) = d.of? id := by
  induction d with
  | nil => rfl
  | cons entry rest ih =>
    obtain ⟨node, distance⟩ := entry
    have hsame : r.node node = r.node id ↔ node = id := h.eq_iff
    change Distances.of? ((r.node node, distance) :: Distances.relabel r rest) (r.node id) = _
    rw [of?_cons, of?_cons, ih]
    simp only [hsame]

def ScopeError.relabel (r : Relabeling) (e : ScopeError) : ScopeError :=
  { e with line := r.line e.line }

namespace Relabeling

variable (r : Relabeling)

/-- What is found, or else the fault on another line. -/
def found {α β : Type} (φ : α → β) : Except ScopeError α → Except ScopeError β
  | .ok a => .ok (φ a)
  | .error e => .error (e.relabel r)

theorem found_bind {α β γ δ : Type} {φ : α → β} {ψ : γ → δ} {x : Except ScopeError α}
    {f : α → Except ScopeError γ} {g : β → Except ScopeError δ}
    (h : ∀ a, g (φ a) = r.found ψ (f a)) : r.found φ x >>= g = r.found ψ (x >>= f) := by
  cases x with
  | ok a => exact h a
  | error e => rfl

end Relabeling

variable (r : Relabeling)

theorem entry_relabel (ctx : Context) (id : NodeId) (name : String) :
    ctx.entry (r.node id) name = Distances.relabel r (ctx.entry id name) := by
  unfold Context.entry
  cases ctx.distance? name <;> rfl

theorem declare_relabel (ctx : Context) (name : Identifier) :
    ctx.declare (name.relabel r) = r.found (fun c => c) (ctx.declare name) := by
  unfold Context.declare
  rw [Identifier.name_relabel]
  split <;> rfl

theorem introduce_relabel (ctx : Context) (name : Identifier) :
    ctx.introduce (name.relabel r) = r.found (fun c => c) (ctx.introduce name) := by
  unfold Context.introduce
  rw [declare_relabel]
  exact r.found_bind fun _ => rfl

theorem introduceAll_relabel (ctx : Context) (params : List Identifier) :
    ctx.introduceAll (params.map (Identifier.relabel r))
      = r.found (fun c => c) (ctx.introduceAll params) := by
  induction params generalizing ctx with
  | nil => rfl
  | cons p rest ih =>
    rw [List.map_cons, Context.introduceAll, Context.introduceAll, introduce_relabel]
    exact r.found_bind fun introduced => ih introduced

theorem checkReturn_relabel (ctx : Context) (line : Nat) (value : Option Expr) :
    checkReturn ctx (r.line line) (value.map (Expr.relabel r))
      = r.found (fun u => u) (checkReturn ctx line value) := by
  unfold checkReturn
  cases ctx.routine with
  | none => rfl
  | some routine => cases routine <;> cases value <;> rfl

mutual

theorem resolveExpr_relabel (ctx : Context) (e : Expr) :
    resolveExpr ctx (e.relabel r) = r.found (Distances.relabel r) (resolveExpr ctx e) := by
  match e with
  | .literal _ => rfl
  | .grouping inner | .unary _ _ inner | .get inner _ => exact resolveExpr_relabel ctx inner
  | .variable id name =>
    simp only [Expr.relabel, resolveExpr, Identifier.name_relabel, entry_relabel]
    split <;> rfl
  | .this id line =>
    simp only [Expr.relabel, resolveExpr, entry_relabel]
    split <;> rfl
  | .assign id name value =>
    simp only [Expr.relabel, resolveExpr, Identifier.name_relabel, entry_relabel,
      resolveExpr_relabel ctx value]
    exact r.found_bind fun inside => congrArg Except.ok (Distances.relabel_append r _ _).symm
  | .binary _ _ left right | .logical _ left right | .set right _ left =>
    simp only [Expr.relabel, resolveExpr, resolveExpr_relabel ctx left,
      resolveExpr_relabel ctx right]
    exact r.found_bind fun first => r.found_bind fun second =>
      congrArg Except.ok (Distances.relabel_append r second first).symm
  | .call callee _ arguments =>
    simp only [Expr.relabel, resolveExpr, resolveExpr_relabel ctx callee,
      resolveExprs_relabel ctx arguments]
    exact r.found_bind fun first => r.found_bind fun second =>
      congrArg Except.ok (Distances.relabel_append r second first).symm

theorem resolveExprs_relabel (ctx : Context) (es : List Expr) :
    resolveExprs ctx (Expr.allRelabel r es)
      = r.found (Distances.relabel r) (resolveExprs ctx es) := by
  match es with
  | [] => rfl
  | e :: rest =>
    simp only [Expr.allRelabel, resolveExprs, resolveExpr_relabel ctx e,
      resolveExprs_relabel ctx rest]
    exact r.found_bind fun first => r.found_bind fun others =>
      congrArg Except.ok (Distances.relabel_append r others first).symm

end

/-- The context behind a statement, and its distances relabeled. -/
def Relabeling.behind : Context × Distances → Context × Distances :=
  Prod.map (fun ctx => ctx) (Distances.relabel r)

mutual

theorem resolveStmt_relabel (ctx : Context) (s : Stmt) :
    resolveStmt ctx (s.relabel r) = r.found r.behind (resolveStmt ctx s) := by
  match s with
  | .expression e | .print e =>
    simp only [Stmt.relabel, resolveStmt, resolveExpr_relabel]
    exact r.found_bind fun _ => rfl
  | .varDecl name e =>
    simp only [Stmt.relabel, resolveStmt, declare_relabel, Identifier.name_relabel]
    refine r.found_bind fun declared => ?_
    rw [resolveExpr_relabel]
    exact r.found_bind fun _ => rfl
  | .block body =>
    simp only [Stmt.relabel, resolveStmt, resolveStmts_relabel _ body]
    exact r.found_bind fun _ => rfl
  | .ifElse condition thenBranch none =>
    simp only [Stmt.relabel, resolveStmt, resolveExpr_relabel, resolveStmt_relabel _ thenBranch]
    exact r.found_bind fun first => r.found_bind fun second =>
      congrArg (fun d => Except.ok (second.1, d)) (Distances.relabel_append r second.2 first).symm
  | .ifElse condition thenBranch (some elseBranch) =>
    simp only [Stmt.relabel, resolveStmt, resolveExpr_relabel, resolveStmt_relabel _ thenBranch]
    refine r.found_bind fun first => r.found_bind fun second => ?_
    rw [resolveStmt_relabel _ elseBranch]
    refine r.found_bind fun third => congrArg (fun d => Except.ok (third.1, d)) ?_
    rw [Distances.relabel_append, Distances.relabel_append]
    rfl
  | .whileLoop condition body =>
    simp only [Stmt.relabel, resolveStmt, resolveExpr_relabel, resolveStmt_relabel _ body]
    refine r.found_bind fun first => r.found_bind fun second => ?_
    change Except.ok (_, Distances.relabel r second.2 ++ Distances.relabel r first) = _
    rw [← Distances.relabel_append]
    rfl
  | .breakLoop line =>
    simp only [Stmt.relabel, resolveStmt]
    split <;> rfl
  | .funDecl f =>
    simp only [Stmt.relabel, resolveStmt, FunctionDecl.name_relabel, introduce_relabel]
    refine r.found_bind fun introduced => ?_
    rw [resolveFunction_relabel _ f]
    exact r.found_bind fun _ => rfl
  | .returnValue line none =>
    simp only [Stmt.relabel, resolveStmt]
    rw [← Option.map_none (f := Expr.relabel r), checkReturn_relabel]
    exact r.found_bind fun _ => rfl
  | .returnValue line (some e) =>
    have hcheck := checkReturn_relabel r ctx line (some e)
    rw [Option.map_some] at hcheck
    simp only [Stmt.relabel, resolveStmt, hcheck, resolveExpr_relabel]
    exact r.found_bind fun _ => r.found_bind fun _ => rfl
  | .classDecl name methods =>
    simp only [Stmt.relabel, resolveStmt, introduce_relabel]
    refine r.found_bind fun introduced => ?_
    rw [resolveMethods_relabel _ methods]
    exact r.found_bind fun _ => rfl

theorem resolveStmts_relabel (ctx : Context) (ss : List Stmt) :
    resolveStmts ctx (Stmt.allRelabel r ss) = r.found r.behind (resolveStmts ctx ss) := by
  match ss with
  | [] => rfl
  | s :: rest =>
    simp only [Stmt.allRelabel, resolveStmts, resolveStmt_relabel _ s]
    refine r.found_bind fun first => ?_
    rw [resolveStmts_relabel _ rest]
    exact r.found_bind fun others =>
      congrArg (fun d => Except.ok (others.1, d)) (Distances.relabel_append r others.2 first.2).symm

theorem resolveFunction_relabel (ctx : Context) (f : FunctionDecl) :
    resolveFunction ctx (f.relabel r) = r.found (Distances.relabel r) (resolveFunction ctx f) := by
  match f with
  | .mk name params body =>
    simp only [FunctionDecl.relabel, resolveFunction, introduceAll_relabel]
    refine r.found_bind fun inside => ?_
    rw [resolveStmts_relabel _ body]
    exact r.found_bind fun _ => rfl

theorem resolveMethods_relabel (ctx : Context) (fs : List FunctionDecl) :
    resolveMethods ctx (FunctionDecl.allRelabel r fs)
      = r.found (Distances.relabel r) (resolveMethods ctx fs) := by
  match fs with
  | [] => rfl
  | f :: rest =>
    simp only [FunctionDecl.allRelabel, resolveMethods, FunctionDecl.isInitializer_relabel,
      resolveFunction_relabel _ f, resolveMethods_relabel _ rest]
    exact r.found_bind fun first => r.found_bind fun others =>
      congrArg Except.ok (Distances.relabel_append r others first).symm

end

/-- **Scopes do not depend on lines and identities.** A relabeled program has the same distances,
or the same fault. -/
theorem resolve_relabel (p : Program) :
    Program.resolve (p.relabel r) = r.found (Distances.relabel r) (Program.resolve p) := by
  unfold Program.resolve
  rw [resolveStmts_relabel]
  exact r.found_bind fun _ => rfl

/-! ## Programs in a row -/

/-- Behind a statement in the outermost scope everything is as before it. -/
theorem resolveStmts_top {ss : List Stmt} {behind : Context} {d : Distances}
    (hregular : Stmt.AllRegular ss) (h : resolveStmts .top ss = .ok (behind, d)) :
    behind = .top := by
  induction ss generalizing d with
  | nil =>
    cases h
    rfl
  | cons s rest ih =>
    obtain ⟨ctx, first, others, hs, hrest, rfl⟩ := resolveStmts_cons.mp h
    have htop : ctx = .top := by
      obtain ⟨-, hsame⟩ | ⟨x, -, -, hready⟩ := resolveStmt_behind s hregular.1 hs
      · exact hsame
      · rw [hready]
        exact Context.ready_of_nil rfl
    rw [htop] at hrest
    exact ih hregular.2 hrest

theorem resolveStmts_append {ctx inner behind : Context} {ss ss' : List Stmt} {d d' : Distances}
    (h : resolveStmts ctx ss = .ok (inner, d)) (h' : resolveStmts inner ss' = .ok (behind, d')) :
    resolveStmts ctx (ss ++ ss') = .ok (behind, d' ++ d) := by
  induction ss generalizing ctx d with
  | nil =>
    cases h
    rw [List.nil_append, h', List.append_nil]
  | cons s rest ih =>
    obtain ⟨ctx', first, others, hs, hrest, rfl⟩ := resolveStmts_cons.mp h
    rw [List.cons_append, ← List.append_assoc]
    exact resolveStmts_cons.mpr ⟨ctx', first, d' ++ others, hs, ih hrest, rfl⟩

/-- Two accepted programs in a row are accepted, with the distances of both. -/
theorem resolve_append {p p' : Program} {d d' : Distances} (hregular : Stmt.AllRegular p)
    (h : Program.resolve p = .ok d) (h' : Program.resolve p' = .ok d') :
    Program.resolve (p ++ p') = .ok (d' ++ d) := by
  obtain ⟨inner, hp⟩ := resolve_eq_ok.mp h
  obtain ⟨behind, hp'⟩ := resolve_eq_ok.mp h'
  have htop := resolveStmts_top hregular hp
  rw [htop] at hp
  exact resolve_eq_ok.mpr ⟨behind, resolveStmts_append hp hp'⟩

end LoxLang
