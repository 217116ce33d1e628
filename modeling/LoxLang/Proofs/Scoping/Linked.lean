import LoxLang.Proofs.Running.Tracing
import LoxLang.Proofs.Scoping.Contexts

/-!
# Linked programs

A program and the same program with one name written in another way in some scopes. What links them
also says everything that running them has to know about a node: which distance is recorded for it,
and that the name it refers to is ready.

* `Renaming`, `Label`: a name and how else it is written, and the scopes where it is;
* `ExprLinked`, `StmtLinked`, `StmtsLinked`, `FunctionLinked`: linked trees, in the context in which
  the first of them is resolved.

With no scope renamed, a resolved program is linked with itself.
-/

namespace LoxLang

open Scoping (Context Scope Routine)

/-- A name, and another way of writing it. -/
structure Renaming where
  old : String
  new : String

/-- The names declared in a scope, and whether the old name is written the new way there. -/
structure Label where
  names : List String
  renamed : Bool

namespace Label

/-- The scope of a class. -/
def this : Label := ⟨["this"], false⟩

/-- The new name does not clash with another name of the scope. -/
def Proper (ρ : Renaming) (l : Label) : Prop := l.renamed = true → ρ.new ∉ l.names

theorem this_proper (ρ : Renaming) : this.Proper ρ := fun h => nomatch h

end Label

namespace Renaming

variable (ρ : Renaming)

/-- A name as it is written in a scope; without a label as it always was. -/
def inScope (l : Option Label) (name : String) : String :=
  if l.any (·.renamed) && name == ρ.old then ρ.new else name

/-- The name of a reference with this distance, as it is written in the scope that it leads to. -/
def follow (labels : List Label) (distance? : Option Nat) (name : String) : String :=
  match distance? with
  | some d => ρ.inScope labels[d]? name
  | none => name

/-- The name of a reference, as it is written in the scope that it refers to. -/
def reference (ctx : Context) (labels : List Label) (name : String) : String :=
  ρ.follow labels (ctx.distance? name) name

/-- The name of a declaration, as it is written in the innermost scope. -/
def binding (labels : List Label) (name : String) : String := ρ.inScope labels.head? name

/-- Either the name itself, or the new one for the old one. -/
def Allows (a b : String) : Prop := b = a ∨ a = ρ.old ∧ b = ρ.new

variable {ρ}

@[simp] theorem inScope_none (name : String) : ρ.inScope none name = name := rfl

@[simp] theorem inScope_this (name : String) : ρ.inScope (some .this) name = name := rfl

theorem inScope_of_not_renamed {l : Label} (h : l.renamed = false) (name : String) :
    ρ.inScope (some l) name = name := by
  simp [inScope, h]

theorem inScope_allows (l : Option Label) (name : String) : ρ.Allows name (ρ.inScope l name) := by
  unfold inScope
  split
  · rename_i h
    exact .inr ⟨beq_iff_eq.mp (Bool.and_eq_true_iff.mp h).2, rfl⟩
  · exact .inl rfl

/-- Two names of a scope are not written alike. -/
theorem inScope_inj {l : Label} (hl : l.Proper ρ) {a b : String} (ha : a ∈ l.names)
    (hb : b ∈ l.names) (h : ρ.inScope (some l) a = ρ.inScope (some l) b) : a = b := by
  cases hr : l.renamed with
  | false => simpa [inScope, hr] using h
  | true =>
    have hnew := hl hr
    by_cases hao : a = ρ.old <;> by_cases hbo : b = ρ.old <;> simp [inScope, hr, hao, hbo] at h
    · rw [hao, hbo]
    · exact absurd (h ▸ hb) hnew
    · exact absurd (h ▸ ha) hnew
    · exact h

theorem reference_local {ctx : Context} {labels : List Label} {name : String} {d : Nat}
    (h : ctx.distance? name = some d) :
    ρ.reference ctx labels name = ρ.inScope labels[d]? name := by
  simp only [reference, follow, h]

theorem reference_global {ctx : Context} {labels : List Label} {name : String}
    (h : ctx.distance? name = none) : ρ.reference ctx labels name = name := by
  simp only [reference, follow, h]

end Renaming

/-- The site of a context whose scopes have these labels. -/
def siteOf (ctx : Context) (labels : List Label) : Site := ⟨ctx, labels.map (·.names)⟩

section
variable {ctx : Context} {labels : List Label} {label : Label} {name : Identifier}

theorem siteOf_after {behind : Context} {s : Stmt} (h : ctx.after s = behind) :
    (siteOf ctx labels).after s = siteOf behind labels := by
  rw [← h]
  rfl

theorem siteOf_inInitializer {declared : Context} (h : ctx.declare name = .ok declared) :
    (siteOf ctx labels).inInitializer name = siteOf (declared.inInitializer name.name) labels := by
  simp only [siteOf, Site.inInitializer, h, Context.extendedBy]

theorem siteOf_inBlock {body : List Stmt} (h : label.names = declaredNames body) :
    (siteOf ctx labels).inBlock body = siteOf (ctx.push []) (label :: labels) := by
  simp only [siteOf, Site.inBlock, h, List.map_cons]

theorem siteOf_introduce {introduced : Context} (h : ctx.introduce name = .ok introduced) :
    (siteOf ctx labels).introduce name = siteOf introduced labels := by
  simp only [siteOf, Site.introduce, h, Context.extendedBy]

theorem siteOf_inFunction {routine : Routine} {inside : Context} {params : List Identifier}
    {body : List Stmt} (h : (ctx.inRoutine routine).introduceAll params = .ok inside)
    (hnames : label.names = params.map (·.name) ++ declaredNames body) :
    (siteOf ctx labels).inFunction routine (.mk name params body)
      = siteOf inside (label :: labels) := by
  simp only [siteOf, Site.inFunction, FunctionDecl.params, FunctionDecl.body, h, hnames,
    Context.extendedBy, List.map_cons]

end

/-- What is known of the programs so far. -/
structure Findings where
  /-- The distances of the nodes below `next`. -/
  distance? : NodeId → Option Nat
  next : NodeId
  /-- The expressions of the programs, at their sites. -/
  placed : Site → Expr → Prop

namespace Findings

variable {K : Findings} {places places' : List (Site × Expr)}

def Has (K : Findings) (places : List (Site × Expr)) : Prop :=
  ∀ place ∈ places, K.placed place.1 place.2

theorem has_append : K.Has (places ++ places') ↔ K.Has places ∧ K.Has places' :=
  List.forall_mem_append

theorem has_placed {site : Site} {e : Expr} :
    K.Has (e.placed site) ↔ ∀ part ∈ e.parts, K.placed site part := by
  simp [Has, Expr.placed]

end Findings

/-- The node is known, with the distance of its name. -/
structure Recorded (K : Findings) (ctx : Context) (id : NodeId)
    (name : String) : Prop where
  known : id < K.next
  distance : K.distance? id = ctx.distance? name

/-- The name is declared in the innermost scope and not ready there. -/
structure Unready (ctx : Context) (labels : List Label) (name : String) : Prop where
  mark : ∃ scope, ctx.scopes.head? = some scope ∧ scope.lookup name = some false
  declared : ∀ l ∈ labels.head?, name ∈ l.names

/-- Linked expressions. All that is on the left is placed in the context. -/
inductive ExprLinked (ρ : Renaming) (K : Findings) (ctx : Context) (labels : List Label) :
    Expr → Expr → Prop
  | literal {value : Literal} :
      K.placed (siteOf ctx labels) (.literal value) →
      ExprLinked ρ K ctx labels (.literal value) (.literal value)
  | grouping {inner inner' : Expr} :
      K.placed (siteOf ctx labels) (.grouping inner) → ExprLinked ρ K ctx labels inner inner' →
      ExprLinked ρ K ctx labels (.grouping inner) (.grouping inner')
  | var {id : NodeId} {name : Identifier} :
      K.placed (siteOf ctx labels) (.variable id name) →
      Recorded K ctx id name.name → ctx.mark? name.name ≠ some false →
      ExprLinked ρ K ctx labels (.variable id name)
        (.variable id ⟨ρ.reference ctx labels name.name, name.line⟩)
  | this {id : NodeId} {line : Nat} :
      K.placed (siteOf ctx labels) (.this id line) →
      Recorded K ctx id "this" → ctx.mark? "this" ≠ some false →
      ρ.reference ctx labels "this" = "this" →
      ExprLinked ρ K ctx labels (.this id line) (.this id line)
  | assign {id : NodeId} {name : Identifier} {value value' : Expr} :
      K.placed (siteOf ctx labels) (.assign id name value) →
      Recorded K ctx id name.name →
      (ctx.mark? name.name = some false → Unready ctx labels name.name) →
      ExprLinked ρ K ctx labels value value' →
      ExprLinked ρ K ctx labels (.assign id name value)
        (.assign id ⟨ρ.reference ctx labels name.name, name.line⟩ value')
  | unary {op : UnaryOp} {line : Nat} {operand operand' : Expr} :
      K.placed (siteOf ctx labels) (.unary op line operand) →
      ExprLinked ρ K ctx labels operand operand' →
      ExprLinked ρ K ctx labels (.unary op line operand) (.unary op line operand')
  | binary {op : BinaryOp} {line : Nat} {left left' right right' : Expr} :
      K.placed (siteOf ctx labels) (.binary op line left right) →
      ExprLinked ρ K ctx labels left left' → ExprLinked ρ K ctx labels right right' →
      ExprLinked ρ K ctx labels (.binary op line left right) (.binary op line left' right')
  | logical {op : LogicalOp} {left left' right right' : Expr} :
      K.placed (siteOf ctx labels) (.logical op left right) →
      ExprLinked ρ K ctx labels left left' → ExprLinked ρ K ctx labels right right' →
      ExprLinked ρ K ctx labels (.logical op left right) (.logical op left' right')
  | call {callee callee' : Expr} {line : Nat} {arguments : List (Expr × Expr)} :
      K.placed (siteOf ctx labels) (.call callee line (arguments.map (·.1))) →
      ExprLinked ρ K ctx labels callee callee' →
      (∀ a ∈ arguments, ExprLinked ρ K ctx labels a.1 a.2) →
      ExprLinked ρ K ctx labels (.call callee line (arguments.map (·.1)))
        (.call callee' line (arguments.map (·.2)))
  | get {object object' : Expr} {name : Identifier} :
      K.placed (siteOf ctx labels) (.get object name) →
      ExprLinked ρ K ctx labels object object' →
      ExprLinked ρ K ctx labels (.get object name) (.get object' name)
  | set {object object' value value' : Expr} {name : Identifier} :
      K.placed (siteOf ctx labels) (.set object name value) →
      ExprLinked ρ K ctx labels object object' → ExprLinked ρ K ctx labels value value' →
      ExprLinked ρ K ctx labels (.set object name value) (.set object' name value')

theorem ExprLinked.placed {ρ : Renaming} {K : Findings} {ctx : Context} {labels : List Label}
    {e e' : Expr} (h : ExprLinked ρ K ctx labels e e') : K.placed (siteOf ctx labels) e := by
  cases h <;> assumption

mutual

/-- Linked statements, with the context behind them. -/
inductive StmtLinked (ρ : Renaming) (K : Findings) :
    Context → List Label → Stmt → Stmt → Context → Prop
  | expression {ctx : Context} {labels : List Label} {e e' : Expr} :
      ExprLinked ρ K ctx labels e e' →
      StmtLinked ρ K ctx labels (.expression e) (.expression e') ctx
  | print {ctx : Context} {labels : List Label} {e e' : Expr} :
      ExprLinked ρ K ctx labels e e' → StmtLinked ρ K ctx labels (.print e) (.print e') ctx
  | varDecl {ctx declared : Context} {labels : List Label} {name : Identifier} {e e' : Expr} :
      ctx.declare name = .ok declared → (∀ l ∈ labels.head?, name.name ∈ l.names) →
      ExprLinked ρ K (declared.inInitializer name.name) labels e e' →
      StmtLinked ρ K ctx labels (.varDecl name e)
        (.varDecl ⟨ρ.binding labels name.name, name.line⟩ e') (declared.mark name.name true)
  | block {ctx : Context} {labels : List Label} {label : Label} {body body' : List Stmt} :
      label.names = declaredNames body → label.Proper ρ →
      StmtsLinked ρ K (ctx.push []) (label :: labels) body body' →
      StmtLinked ρ K ctx labels (.block body) (.block body') ctx
  | ifThen {ctx : Context} {labels : List Label} {c c' : Expr} {s s' : Stmt} :
      ExprLinked ρ K ctx labels c c' → StmtLinked ρ K ctx labels s s' ctx →
      StmtLinked ρ K ctx labels (.ifElse c s none) (.ifElse c' s' none) ctx
  | ifElse {ctx : Context} {labels : List Label} {c c' : Expr} {s s' r r' : Stmt} :
      ExprLinked ρ K ctx labels c c' → StmtLinked ρ K ctx labels s s' ctx →
      ctx.after s = ctx → StmtLinked ρ K ctx labels r r' ctx →
      StmtLinked ρ K ctx labels (.ifElse c s (some r)) (.ifElse c' s' (some r')) ctx
  | whileLoop {ctx : Context} {labels : List Label} {c c' : Expr} {s s' : Stmt} :
      ExprLinked ρ K ctx labels c c' →
      StmtLinked ρ K { ctx with inLoop := true } labels s s' { ctx with inLoop := true } →
      StmtLinked ρ K ctx labels (.whileLoop c s) (.whileLoop c' s') ctx
  | breakLoop {ctx : Context} {labels : List Label} {line : Nat} :
      StmtLinked ρ K ctx labels (.breakLoop line) (.breakLoop line) ctx
  | funDecl {ctx introduced : Context} {labels : List Label} {f f' : FunctionDecl} :
      ctx.introduce f.name = .ok introduced → (∀ l ∈ labels.head?, f.name.name ∈ l.names) →
      ρ.binding labels f.name.name = f.name.name →
      FunctionLinked ρ K (introduced.inRoutine .ordinary) labels f f' →
      StmtLinked ρ K ctx labels (.funDecl f) (.funDecl f') introduced
  | return {ctx : Context} {labels : List Label} {line : Nat} :
      StmtLinked ρ K ctx labels (.returnValue line none) (.returnValue line none) ctx
  | returnValue {ctx : Context} {labels : List Label} {line : Nat} {e e' : Expr} :
      ExprLinked ρ K ctx labels e e' →
      StmtLinked ρ K ctx labels (.returnValue line (some e)) (.returnValue line (some e')) ctx
  | classDecl {ctx introduced : Context} {labels : List Label} {name : Identifier}
      {methods methods' : List FunctionDecl} :
      ctx.introduce name = .ok introduced → (∀ l ∈ labels.head?, name.name ∈ l.names) →
      ρ.binding labels name.name = name.name →
      FunctionsLinked ρ K introduced.inClassBody (.this :: labels) methods methods' →
      StmtLinked ρ K ctx labels (.classDecl name methods) (.classDecl name methods') introduced

/-- Linked statements that follow each other. -/
inductive StmtsLinked (ρ : Renaming) (K : Findings) :
    Context → List Label → List Stmt → List Stmt → Prop
  | nil {ctx : Context} {labels : List Label} : StmtsLinked ρ K ctx labels [] []
  | cons {ctx behind : Context} {labels : List Label} {s s' : Stmt} {rest rest' : List Stmt} :
      StmtLinked ρ K ctx labels s s' behind → ctx.after s = behind →
      StmtsLinked ρ K behind labels rest rest' →
      StmtsLinked ρ K ctx labels (s :: rest) (s' :: rest')

/-- Linked functions, in the context of their parameters. -/
inductive FunctionLinked (ρ : Renaming) (K : Findings) :
    Context → List Label → FunctionDecl → FunctionDecl → Prop
  | mk {ctx inside : Context} {labels : List Label} {label : Label} {name : Identifier}
      {params : List Identifier} {body body' : List Stmt} :
      ctx.introduceAll params = .ok inside →
      label.names = params.map (·.name) ++ declaredNames body → label.Proper ρ →
      StmtsLinked ρ K inside (label :: labels) body body' →
      FunctionLinked ρ K ctx labels (.mk name params body)
        (.mk name (params.map fun p => ⟨ρ.inScope (some label) p.name, p.line⟩) body')

/-- Linked methods, in the context of their class. -/
inductive FunctionsLinked (ρ : Renaming) (K : Findings) :
    Context → List Label → List FunctionDecl → List FunctionDecl → Prop
  | nil {ctx : Context} {labels : List Label} : FunctionsLinked ρ K ctx labels [] []
  | cons {ctx : Context} {labels : List Label} {f f' : FunctionDecl}
      {rest rest' : List FunctionDecl} :
      FunctionLinked ρ K (ctx.inRoutine f.routine) labels f f' →
      FunctionsLinked ρ K ctx labels rest rest' →
      FunctionsLinked ρ K ctx labels (f :: rest) (f' :: rest')

end

end LoxLang
