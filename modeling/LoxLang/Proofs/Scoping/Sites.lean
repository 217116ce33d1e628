import LoxLang.Proofs.Scoping.Distances

/-!
# Sites

Where the nodes of a program stand: in which scopes, and what is declared in these.

* `Site`: the context in which a node is resolved, with all names of the scopes around it;
* `Stmt.placed`: the expressions in a statement, each at the site where it is resolved;
* `resolve_placed`: a resolved program has resolved each of them in the context of its site.
-/

namespace LoxLang

open Scoping

namespace Scoping.Context

/-- What an attempt to extend a context gives; a refused one leaves the context as it is. -/
def extendedBy (ctx : Context) : Except ScopeError Context → Context
  | .ok ctx' => ctx'
  | .error _ => ctx

/-- The context behind a statement. -/
def after (ctx : Context) (s : Stmt) : Context := ctx.extendedBy ((resolveStmt ctx s).map (·.1))

end Scoping.Context

theorem after_of_resolveStmt {ctx behind : Context} {s : Stmt} {d : Distances}
    (h : resolveStmt ctx s = .ok (behind, d)) : ctx.after s = behind := by
  simp only [Context.after, h]
  rfl

def FunctionDecl.routine (f : FunctionDecl) : Routine :=
  if f.isInitializer then .initializer else .ordinary

/-- Where a node stands. -/
structure Site where
  /-- The context in which the node is resolved. -/
  context : Context
  /-- For each scope around the node all names that are declared in it, before the node or behind
  it, the innermost scope first. -/
  declared : List (List String)

namespace Site

def top : Site := ⟨.top, []⟩

/-- Behind a statement. -/
def after (site : Site) (s : Stmt) : Site := { site with context := site.context.after s }

/-- At the first statement of a block. -/
def inBlock (site : Site) (body : List Stmt) : Site :=
  ⟨site.context.push [], declaredNames body :: site.declared⟩

/-- In the initializer of a variable. -/
def inInitializer (site : Site) (name : Identifier) : Site :=
  let declared := site.context.extendedBy (site.context.declare name)
  { site with context := declared.inInitializer name.name }

/-- In the body of a loop. -/
def inLoop (site : Site) : Site := { site with context := { site.context with inLoop := true } }

/-- Behind a name that is ready at once. -/
def introduce (site : Site) (name : Identifier) : Site :=
  { site with context := site.context.extendedBy (site.context.introduce name) }

/-- Among the methods of a class. -/
def inClassBody (site : Site) : Site := ⟨site.context.inClassBody, ["this"] :: site.declared⟩

/-- At the first statement of the body of a function. -/
def inFunction (site : Site) (routine : Routine) (f : FunctionDecl) : Site :=
  let inside := site.context.inRoutine routine
  ⟨inside.extendedBy (inside.introduceAll f.params),
    (f.params.map (·.name) ++ declaredNames f.body) :: site.declared⟩

/-- Whether the site is in the initializer of this local variable. -/
def initializes (site : Site) (name : String) : Bool :=
  site.context.scopes.head?.any fun scope => scope.lookup name == some false

theorem initializes_iff {site : Site} {name : String} : site.initializes name = true ↔
    ∃ scope, site.context.scopes.head? = some scope ∧ scope.lookup name = some false := by
  unfold initializes
  cases site.context.scopes.head? <;> simp

end Site

/-! ## Expressions at their sites -/

mutual

/-- An expression and all expressions in it. -/
def Expr.parts : Expr → List Expr
  | .literal value => [.literal value]
  | .grouping inner => .grouping inner :: inner.parts
  | .variable id name => [.variable id name]
  | .this id line => [.this id line]
  | .assign id name value => .assign id name value :: value.parts
  | .unary op line operand => .unary op line operand :: operand.parts
  | .binary op line left right => .binary op line left right :: (left.parts ++ right.parts)
  | .logical op left right => .logical op left right :: (left.parts ++ right.parts)
  | .call callee line arguments =>
    .call callee line arguments :: (callee.parts ++ Expr.allParts arguments)
  | .get object name => .get object name :: object.parts
  | .set object name value => .set object name value :: (value.parts ++ object.parts)

def Expr.allParts : List Expr → List Expr
  | [] => []
  | e :: rest => e.parts ++ Expr.allParts rest

end

theorem Expr.mem_parts_self (e : Expr) : e ∈ e.parts := by
  cases e <;> exact List.mem_cons_self

theorem Expr.mem_allParts {es : List Expr} {e part : Expr} (he : e ∈ es) (hpart : part ∈ e.parts) :
    part ∈ Expr.allParts es := by
  induction es with
  | nil => cases he
  | cons first rest ih =>
    obtain rfl | he := List.mem_cons.mp he
    · exact List.mem_append_left _ hpart
    · exact List.mem_append_right _ (ih he)

/-- The expressions in an expression, at its site. -/
def Expr.placed (site : Site) (e : Expr) : List (Site × Expr) := e.parts.map (site, ·)

mutual

/-- The expressions in a statement, each at the site where it is resolved. -/
def Stmt.placed (site : Site) : Stmt → List (Site × Expr)
  | .expression e => e.placed site
  | .print e => e.placed site
  | .varDecl name e => e.placed (site.inInitializer name)
  | .block body => Stmt.allPlaced (site.inBlock body) body
  | .ifElse c s none => c.placed site ++ s.placed site
  | .ifElse c s (some r) => c.placed site ++ s.placed site ++ r.placed (site.after s)
  | .whileLoop c s => c.placed site ++ s.placed site.inLoop
  | .breakLoop _ => []
  | .funDecl f => f.placed (site.introduce f.name) .ordinary
  | .returnValue _ none => []
  | .returnValue _ (some e) => e.placed site
  | .classDecl name methods => FunctionDecl.allPlaced (site.introduce name).inClassBody methods

/-- The expressions in statements that follow each other. -/
def Stmt.allPlaced (site : Site) : List Stmt → List (Site × Expr)
  | [] => []
  | s :: rest => s.placed site ++ Stmt.allPlaced (site.after s) rest

/-- The expressions in a function that stands at the site. -/
def FunctionDecl.placed (site : Site) (routine : Routine) : FunctionDecl → List (Site × Expr)
  | .mk name params body =>
    Stmt.allPlaced (site.inFunction routine (.mk name params body)) body

/-- The expressions in the methods of a class. -/
def FunctionDecl.allPlaced (site : Site) : List FunctionDecl → List (Site × Expr)
  | [] => []
  | f :: rest => f.placed site f.routine ++ FunctionDecl.allPlaced site rest

end

/-- The expressions in a program. -/
def Program.placed (p : Program) : List (Site × Expr) := Stmt.allPlaced .top p

/-! ## What a resolved program has resolved -/

/-- An expression was resolved in a context, and what was found is among the distances. -/
def ResolvedIn (ctx : Context) (d : Distances) (e : Expr) : Prop :=
  ∃ d', resolveExpr ctx e = .ok d' ∧ d' ⊆ d

theorem ResolvedIn.mono {ctx : Context} {d d' : Distances} {e : Expr} (h : ResolvedIn ctx d e)
    (hd : d ⊆ d') : ResolvedIn ctx d' e := by
  obtain ⟨inside, hinside, hsub⟩ := h
  exact ⟨inside, hinside, fun _ hentry => hd (hsub hentry)⟩

section
variable {ctx : Context} {d d' : Distances} {es es' : List Expr}

theorem resolvedIn_append (h : ∀ e ∈ es, ResolvedIn ctx d e) (h' : ∀ e ∈ es', ResolvedIn ctx d' e) :
    ∀ e ∈ es ++ es', ResolvedIn ctx (d' ++ d) e := by
  intro e he
  obtain he | he := List.mem_append.mp he
  · exact (h e he).mono (List.subset_append_right d' d)
  · exact (h' e he).mono (List.subset_append_left d' d)

theorem resolvedIn_cons {e : Expr} (he : resolveExpr ctx e = .ok d)
    (hes : ∀ e' ∈ es, ResolvedIn ctx d e') : ∀ e' ∈ e :: es, ResolvedIn ctx d e' :=
  List.forall_mem_cons.mpr ⟨⟨d, he, fun _ hentry => hentry⟩, hes⟩

end

mutual

/-- All parts of an expression are resolved in one context. -/
theorem resolveExpr_parts {ctx : Context} (e : Expr) {d : Distances}
    (h : resolveExpr ctx e = .ok d) : ∀ part ∈ e.parts, ResolvedIn ctx d part := by
  match e with
  | .literal _ | .variable _ _ | .this _ _ => exact resolvedIn_cons h (by simp)
  | .grouping inner => exact resolvedIn_cons h (resolveExpr_parts inner h)
  | .assign id name value =>
    obtain ⟨inside, hvalue, rfl⟩ := resolveExpr_assign.mp h
    refine resolvedIn_cons h fun part hpart => ?_
    exact (resolveExpr_parts value hvalue part hpart).mono (List.subset_append_right _ _)
  | .unary _ _ operand => exact resolvedIn_cons h (resolveExpr_parts operand h)
  | .binary _ _ left right =>
    obtain ⟨first, second, hleft, hright, rfl⟩ := resolveExpr_binary.mp h
    exact resolvedIn_cons h
      (resolvedIn_append (resolveExpr_parts left hleft) (resolveExpr_parts right hright))
  | .logical _ left right =>
    obtain ⟨first, second, hleft, hright, rfl⟩ := resolveExpr_logical.mp h
    exact resolvedIn_cons h
      (resolvedIn_append (resolveExpr_parts left hleft) (resolveExpr_parts right hright))
  | .call callee _ arguments =>
    obtain ⟨first, second, hcallee, harguments, rfl⟩ := resolveExpr_call.mp h
    exact resolvedIn_cons h (resolvedIn_append (resolveExpr_parts callee hcallee)
      (resolveExprs_parts arguments harguments))
  | .get object _ => exact resolvedIn_cons h (resolveExpr_parts object h)
  | .set object _ value =>
    obtain ⟨first, second, hvalue, hobject, rfl⟩ := resolveExpr_set.mp h
    exact resolvedIn_cons h
      (resolvedIn_append (resolveExpr_parts value hvalue) (resolveExpr_parts object hobject))

theorem resolveExprs_parts {ctx : Context} (es : List Expr) {d : Distances}
    (h : resolveExprs ctx es = .ok d) : ∀ part ∈ Expr.allParts es, ResolvedIn ctx d part := by
  match es with
  | [] =>
    intro part hpart
    cases hpart
  | e :: rest =>
    obtain ⟨first, others, he, hrest, rfl⟩ := resolveExprs_cons.mp h
    exact resolvedIn_append (resolveExpr_parts e he) (resolveExprs_parts rest hrest)

end

/-- All expressions were resolved at their sites, and what was found is among the distances. -/
def AllResolved (d : Distances) (places : List (Site × Expr)) : Prop :=
  ∀ place ∈ places, ResolvedIn place.1.context d place.2

theorem allResolved_nil (d : Distances) : AllResolved d [] := fun _ h => nomatch h

theorem AllResolved.append {d d' : Distances} {places places' : List (Site × Expr)}
    (h : AllResolved d places) (h' : AllResolved d' places') :
    AllResolved (d' ++ d) (places ++ places') := by
  intro place hplace
  obtain hplace | hplace := List.mem_append.mp hplace
  · exact (h place hplace).mono (List.subset_append_right d' d)
  · exact (h' place hplace).mono (List.subset_append_left d' d)

theorem resolveExpr_placed {site : Site} {e : Expr} {d : Distances}
    (h : resolveExpr site.context e = .ok d) : AllResolved d (e.placed site) := by
  intro place hplace
  obtain ⟨part, hpart, rfl⟩ := List.mem_map.mp hplace
  exact resolveExpr_parts e h part hpart

section
variable {site : Site} {d : Distances}

theorem Site.after_context {s : Stmt} {behind : Context}
    (h : resolveStmt site.context s = .ok (behind, d)) : (site.after s).context = behind :=
  after_of_resolveStmt h

end

mutual

theorem resolveStmt_placed {site : Site} {behind : Context} (s : Stmt) {d : Distances}
    (h : resolveStmt site.context s = .ok (behind, d)) : AllResolved d (s.placed site) := by
  match s with
  | .expression e =>
    obtain ⟨he, rfl⟩ := resolveStmt_expression.mp h
    exact resolveExpr_placed he
  | .print e =>
    obtain ⟨he, rfl⟩ := resolveStmt_print.mp h
    exact resolveExpr_placed he
  | .varDecl name e =>
    obtain ⟨declared, hdeclared, he, rfl⟩ := resolveStmt_varDecl.mp h
    have hsite : (site.inInitializer name).context = declared.inInitializer name.name := by
      simp only [Site.inInitializer, hdeclared]
      rfl
    rw [← hsite] at he
    exact resolveExpr_placed he
  | .block body =>
    obtain ⟨⟨_, hbody⟩, rfl⟩ := resolveStmt_block.mp h
    have hsite : (site.inBlock body).context = site.context.push [] := rfl
    rw [← hsite] at hbody
    exact resolveStmts_placed body hbody
  | .ifElse c s none =>
    obtain ⟨first, second, hc, hs, rfl⟩ := resolveStmt_ifThen.mp h
    exact (resolveExpr_placed hc).append (resolveStmt_placed s hs)
  | .ifElse c s (some r) =>
    obtain ⟨first, middle, second, third, hc, hs, hr, rfl⟩ := resolveStmt_ifElse.mp h
    have hafter : (site.after s).context = middle := Site.after_context hs
    rw [← hafter] at hr
    exact ((resolveExpr_placed hc).append (resolveStmt_placed s hs)).append
      (resolveStmt_placed r hr)
  | .whileLoop c s =>
    obtain ⟨first, _, second, hc, hs, rfl, rfl⟩ := resolveStmt_whileLoop.mp h
    have hsite : site.inLoop.context = { site.context with inLoop := true } := rfl
    rw [← hsite] at hs
    exact (resolveExpr_placed hc).append (resolveStmt_placed s hs)
  | .breakLoop _ => exact allResolved_nil d
  | .funDecl f =>
    obtain ⟨hintroduced, hf⟩ := resolveStmt_funDecl.mp h
    have hsite : (site.introduce f.name).context = behind := by
      simp only [Site.introduce, hintroduced]
      rfl
    rw [← hsite] at hf
    exact resolveFunction_placed f hf
  | .returnValue _ none => exact allResolved_nil d
  | .returnValue _ (some e) =>
    obtain ⟨-, he, rfl⟩ := resolveStmt_returnValue.mp h
    exact resolveExpr_placed he
  | .classDecl name methods =>
    obtain ⟨hintroduced, hmethods⟩ := resolveStmt_classDecl.mp h
    have hsite : (site.introduce name).inClassBody.context = behind.inClassBody := by
      simp only [Site.introduce, Site.inClassBody, hintroduced]
      rfl
    rw [← hsite] at hmethods
    exact resolveMethods_placed methods hmethods

theorem resolveStmts_placed {site : Site} {behind : Context} (ss : List Stmt) {d : Distances}
    (h : resolveStmts site.context ss = .ok (behind, d)) :
    AllResolved d (Stmt.allPlaced site ss) := by
  match ss with
  | [] => exact allResolved_nil d
  | s :: rest =>
    obtain ⟨middle, first, others, hs, hrest, rfl⟩ := resolveStmts_cons.mp h
    have hafter : (site.after s).context = middle := Site.after_context hs
    rw [← hafter] at hrest
    exact (resolveStmt_placed s hs).append (resolveStmts_placed rest hrest)

theorem resolveFunction_placed {site : Site} {routine : Routine} (f : FunctionDecl) {d : Distances}
    (h : resolveFunction (site.context.inRoutine routine) f = .ok d) :
    AllResolved d (f.placed site routine) := by
  match f with
  | .mk name params body =>
    obtain ⟨inside, _, hparams, hbody⟩ := resolveFunction_mk.mp h
    have hsite : (site.inFunction routine (.mk name params body)).context = inside := by
      have hparams' : (site.context.inRoutine routine).introduceAll
          (FunctionDecl.mk name params body).params = .ok inside := hparams
      simp only [Site.inFunction, hparams']
      rfl
    rw [← hsite] at hbody
    exact resolveStmts_placed body hbody

theorem resolveMethods_placed {site : Site} (fs : List FunctionDecl) {d : Distances}
    (h : resolveMethods site.context fs = .ok d) :
    AllResolved d (FunctionDecl.allPlaced site fs) := by
  match fs with
  | [] => exact allResolved_nil d
  | f :: rest =>
    obtain ⟨first, others, hf, hrest, rfl⟩ := resolveMethods_cons.mp h
    exact (resolveFunction_placed f hf).append (resolveMethods_placed rest hrest)

end

/-- **A resolved program has resolved each of its expressions in the context of its site.** -/
theorem resolve_placed {p : Program} {d : Distances} (h : Program.resolve p = .ok d) :
    AllResolved d p.placed := by
  obtain ⟨_, hp⟩ := resolve_eq_ok.mp h
  have hsite : Site.top.context = .top := rfl
  rw [← hsite] at hp
  exact resolveStmts_placed p hp

end LoxLang
