import LoxLang.Proofs.Scoping.Linked

/-!
# Other spellings of a program

A program in which some local variables or parameters of one name are spelled in another way, and
with them exactly the references that their distances lead to these.

* `ExprRespelled`, `StmtRespelled`, `StmtsRespelled`, `FunctionRespelled`: other spellings, by the
  labels of the scopes around a tree;
* `StmtsRespelled.refl`: every program is a spelling of itself.
-/

namespace LoxLang

/-- The name that a variable declaration adds to its scope. -/
def Stmt.variableName? : Stmt → Option String
  | .varDecl name _ => some name.name
  | _ => none

/-- The variables that statements declare in the scope they stand in. -/
def variableNames (body : List Stmt) : List String := body.filterMap Stmt.variableName?

/-- Another spelling of an expression. The references of `D` lead so many scopes out. -/
inductive ExprRespelled (ρ : Renaming) (D : NodeId → Option Nat) (labels : List Label) :
    Expr → Expr → Prop
  | literal {value : Literal} : ExprRespelled ρ D labels (.literal value) (.literal value)
  | grouping {inner inner' : Expr} :
      ExprRespelled ρ D labels inner inner' →
      ExprRespelled ρ D labels (.grouping inner) (.grouping inner')
  | var {id : NodeId} {name : Identifier} :
      ExprRespelled ρ D labels (.variable id name)
        (.variable id ⟨ρ.follow labels (D id) name.name, name.line⟩)
  | this {id : NodeId} {line : Nat} : ExprRespelled ρ D labels (.this id line) (.this id line)
  | assign {id : NodeId} {name : Identifier} {value value' : Expr} :
      ExprRespelled ρ D labels value value' →
      ExprRespelled ρ D labels (.assign id name value)
        (.assign id ⟨ρ.follow labels (D id) name.name, name.line⟩ value')
  | unary {op : UnaryOp} {line : Nat} {operand operand' : Expr} :
      ExprRespelled ρ D labels operand operand' →
      ExprRespelled ρ D labels (.unary op line operand) (.unary op line operand')
  | binary {op : BinaryOp} {line : Nat} {left left' right right' : Expr} :
      ExprRespelled ρ D labels left left' → ExprRespelled ρ D labels right right' →
      ExprRespelled ρ D labels (.binary op line left right) (.binary op line left' right')
  | logical {op : LogicalOp} {left left' right right' : Expr} :
      ExprRespelled ρ D labels left left' → ExprRespelled ρ D labels right right' →
      ExprRespelled ρ D labels (.logical op left right) (.logical op left' right')
  | call {callee callee' : Expr} {line : Nat} {arguments : List (Expr × Expr)} :
      ExprRespelled ρ D labels callee callee' →
      (∀ a ∈ arguments, ExprRespelled ρ D labels a.1 a.2) →
      ExprRespelled ρ D labels (.call callee line (arguments.map (·.1)))
        (.call callee' line (arguments.map (·.2)))
  | get {object object' : Expr} {name : Identifier} :
      ExprRespelled ρ D labels object object' →
      ExprRespelled ρ D labels (.get object name) (.get object' name)
  | set {object object' value value' : Expr} {name : Identifier} :
      ExprRespelled ρ D labels object object' → ExprRespelled ρ D labels value value' →
      ExprRespelled ρ D labels (.set object name value) (.set object' name value')

mutual

/-- Another spelling of a statement. In each scope that it opens the old name may be spelled the
new way, if a variable of that name is declared there and no name is spelled so already. -/
inductive StmtRespelled (ρ : Renaming) (D : NodeId → Option Nat) :
    List Label → Stmt → Stmt → Prop
  | expression {labels : List Label} {e e' : Expr} :
      ExprRespelled ρ D labels e e' → StmtRespelled ρ D labels (.expression e) (.expression e')
  | print {labels : List Label} {e e' : Expr} :
      ExprRespelled ρ D labels e e' → StmtRespelled ρ D labels (.print e) (.print e')
  | varDecl {labels : List Label} {name : Identifier} {e e' : Expr} :
      ExprRespelled ρ D labels e e' →
      StmtRespelled ρ D labels (.varDecl name e)
        (.varDecl ⟨ρ.binding labels name.name, name.line⟩ e')
  | block {labels : List Label} {label : Label} {body body' : List Stmt} :
      label.names = declaredNames body →
      (label.renamed = true → ρ.old ∈ variableNames body) → label.Proper ρ →
      StmtsRespelled ρ D (label :: labels) body body' →
      StmtRespelled ρ D labels (.block body) (.block body')
  | ifThen {labels : List Label} {c c' : Expr} {s s' : Stmt} :
      ExprRespelled ρ D labels c c' → StmtRespelled ρ D labels s s' →
      StmtRespelled ρ D labels (.ifElse c s none) (.ifElse c' s' none)
  | ifElse {labels : List Label} {c c' : Expr} {s s' r r' : Stmt} :
      ExprRespelled ρ D labels c c' → StmtRespelled ρ D labels s s' →
      StmtRespelled ρ D labels r r' →
      StmtRespelled ρ D labels (.ifElse c s (some r)) (.ifElse c' s' (some r'))
  | whileLoop {labels : List Label} {c c' : Expr} {s s' : Stmt} :
      ExprRespelled ρ D labels c c' → StmtRespelled ρ D labels s s' →
      StmtRespelled ρ D labels (.whileLoop c s) (.whileLoop c' s')
  | breakLoop {labels : List Label} {line : Nat} :
      StmtRespelled ρ D labels (.breakLoop line) (.breakLoop line)
  | funDecl {labels : List Label} {f f' : FunctionDecl} :
      FunctionRespelled ρ D labels f f' → StmtRespelled ρ D labels (.funDecl f) (.funDecl f')
  | return {labels : List Label} {line : Nat} :
      StmtRespelled ρ D labels (.returnValue line none) (.returnValue line none)
  | returnValue {labels : List Label} {line : Nat} {e e' : Expr} :
      ExprRespelled ρ D labels e e' →
      StmtRespelled ρ D labels (.returnValue line (some e)) (.returnValue line (some e'))
  | classDecl {labels : List Label} {name : Identifier} {methods methods' : List FunctionDecl} :
      FunctionsRespelled ρ D (.this :: labels) methods methods' →
      StmtRespelled ρ D labels (.classDecl name methods) (.classDecl name methods')

/-- Another spelling of statements that follow each other. -/
inductive StmtsRespelled (ρ : Renaming) (D : NodeId → Option Nat) :
    List Label → List Stmt → List Stmt → Prop
  | nil {labels : List Label} : StmtsRespelled ρ D labels [] []
  | cons {labels : List Label} {s s' : Stmt} {rest rest' : List Stmt} :
      StmtRespelled ρ D labels s s' → StmtsRespelled ρ D labels rest rest' →
      StmtsRespelled ρ D labels (s :: rest) (s' :: rest')

/-- Another spelling of a function, whose parameters and body share a scope. -/
inductive FunctionRespelled (ρ : Renaming) (D : NodeId → Option Nat) :
    List Label → FunctionDecl → FunctionDecl → Prop
  | mk {labels : List Label} {label : Label} {name : Identifier} {params : List Identifier}
      {body body' : List Stmt} :
      label.names = params.map (·.name) ++ declaredNames body →
      (label.renamed = true → ρ.old ∈ params.map (·.name) ++ variableNames body) →
      label.Proper ρ → StmtsRespelled ρ D (label :: labels) body body' →
      FunctionRespelled ρ D labels (.mk name params body)
        (.mk name (params.map fun p => ⟨ρ.inScope (some label) p.name, p.line⟩) body')

/-- Another spelling of methods. -/
inductive FunctionsRespelled (ρ : Renaming) (D : NodeId → Option Nat) :
    List Label → List FunctionDecl → List FunctionDecl → Prop
  | nil {labels : List Label} : FunctionsRespelled ρ D labels [] []
  | cons {labels : List Label} {f f' : FunctionDecl} {rest rest' : List FunctionDecl} :
      FunctionRespelled ρ D labels f f' → FunctionsRespelled ρ D labels rest rest' →
      FunctionsRespelled ρ D labels (f :: rest) (f' :: rest')

end

/-! ## The same spelling -/

/-- No scope has another spelling. -/
def Plain (labels : List Label) : Prop := ∀ l ∈ labels, l.renamed = false

section
variable {ρ : Renaming} {D : NodeId → Option Nat} {labels : List Label}

theorem Plain.nil : Plain [] := fun _ hl => nomatch hl

theorem Plain.cons (h : Plain labels) {l : Label} (hl : l.renamed = false) :
    Plain (l :: labels) := by
  intro l' hl'
  obtain rfl | hl' := List.mem_cons.mp hl'
  · exact hl
  · exact h l' hl'

theorem Plain.follow (h : Plain labels) (distance? : Option Nat) (name : String) :
    ρ.follow labels distance? name = name := by
  unfold Renaming.follow
  cases distance? with
  | none => rfl
  | some d =>
    cases hl : labels[d]? with
    | none => simp only [hl, Renaming.inScope_none]
    | some l =>
      have hplain := h l (List.mem_of_getElem? hl)
      simp only [hl, Renaming.inScope_of_not_renamed hplain]

theorem Plain.binding (h : Plain labels) (name : String) : ρ.binding labels name = name := by
  unfold Renaming.binding
  cases labels with
  | nil => rfl
  | cons l _ => exact Renaming.inScope_of_not_renamed (h l List.mem_cons_self) name

mutual

theorem ExprRespelled.refl {labels : List Label} (h : Plain labels) (e : Expr) :
    ExprRespelled ρ D labels e e := by
  match e with
  | .literal value => exact .literal
  | .grouping inner => exact .grouping (ExprRespelled.refl h inner)
  | .variable id name =>
    have hvar : ExprRespelled ρ D labels (.variable id name)
        (.variable id ⟨ρ.follow labels (D id) name.name, name.line⟩) := .var
    rwa [h.follow] at hvar
  | .this id line => exact .this
  | .assign id name value =>
    have hassign : ExprRespelled ρ D labels (.assign id name value)
        (.assign id ⟨ρ.follow labels (D id) name.name, name.line⟩ value) :=
      .assign (ExprRespelled.refl h value)
    rwa [h.follow] at hassign
  | .unary _ _ operand => exact .unary (ExprRespelled.refl h operand)
  | .binary _ _ left right =>
    exact .binary (ExprRespelled.refl h left) (ExprRespelled.refl h right)
  | .logical _ left right =>
    exact .logical (ExprRespelled.refl h left) (ExprRespelled.refl h right)
  | .call callee line arguments =>
    let pairs := arguments.map fun a => (a, a)
    have hpairs : ∀ a ∈ pairs, ExprRespelled ρ D labels a.1 a.2 := by
      intro a ha
      obtain ⟨e, he, rfl⟩ := List.mem_map.mp ha
      exact ExprRespelled.reflAll h arguments e he
    have hcall : ExprRespelled ρ D labels (.call callee line (pairs.map (·.1)))
        (.call callee line (pairs.map (·.2))) := .call (ExprRespelled.refl h callee) hpairs
    simpa [pairs, Function.comp_def] using hcall
  | .get object _ => exact .get (ExprRespelled.refl h object)
  | .set object _ value => exact .set (ExprRespelled.refl h object) (ExprRespelled.refl h value)

theorem ExprRespelled.reflAll {labels : List Label} (h : Plain labels) (es : List Expr) :
    ∀ e ∈ es, ExprRespelled ρ D labels e e := by
  match es with
  | [] =>
    intro e he
    cases he
  | e :: rest =>
    exact List.forall_mem_cons.mpr ⟨ExprRespelled.refl h e, ExprRespelled.reflAll h rest⟩

end

mutual

theorem StmtRespelled.refl {labels : List Label} (h : Plain labels) (s : Stmt) :
    StmtRespelled ρ D labels s s := by
  match s with
  | .expression e => exact .expression (.refl h e)
  | .print e => exact .print (.refl h e)
  | .varDecl name e =>
    have hvar : StmtRespelled ρ D labels (.varDecl name e)
        (.varDecl ⟨ρ.binding labels name.name, name.line⟩ e) := .varDecl (.refl h e)
    rwa [h.binding] at hvar
  | .block body =>
    let label : Label := ⟨declaredNames body, false⟩
    have hbody : StmtsRespelled ρ D (label :: labels) body body :=
      StmtsRespelled.refl (h.cons rfl) body
    have hspelled : label.renamed = true → ρ.old ∈ variableNames body := fun h => nomatch h
    exact .block rfl hspelled (fun h => nomatch h) hbody
  | .ifElse c s none => exact .ifThen (.refl h c) (StmtRespelled.refl h s)
  | .ifElse c s (some r) =>
    exact .ifElse (.refl h c) (StmtRespelled.refl h s) (StmtRespelled.refl h r)
  | .whileLoop c s => exact .whileLoop (.refl h c) (StmtRespelled.refl h s)
  | .breakLoop _ => exact .breakLoop
  | .funDecl f => exact .funDecl (FunctionRespelled.refl h f)
  | .returnValue _ none => exact .return
  | .returnValue _ (some e) => exact .returnValue (.refl h e)
  | .classDecl _ methods => exact .classDecl (FunctionsRespelled.refl (h.cons rfl) methods)

theorem StmtsRespelled.refl {labels : List Label} (h : Plain labels) (ss : List Stmt) :
    StmtsRespelled ρ D labels ss ss := by
  match ss with
  | [] => exact .nil
  | s :: rest => exact .cons (StmtRespelled.refl h s) (StmtsRespelled.refl h rest)

theorem FunctionRespelled.refl {labels : List Label} (h : Plain labels) (f : FunctionDecl) :
    FunctionRespelled ρ D labels f f := by
  match f with
  | .mk name params body =>
    let label : Label := ⟨params.map (·.name) ++ declaredNames body, false⟩
    have hbody : StmtsRespelled ρ D (label :: labels) body body :=
      StmtsRespelled.refl (h.cons rfl) body
    have hf : FunctionRespelled ρ D labels (.mk name params body)
        (.mk name (params.map fun p => ⟨ρ.inScope (some label) p.name, p.line⟩) body) :=
      .mk rfl (fun h => nomatch h) (fun h => nomatch h) hbody
    have hsame : ∀ name, ρ.inScope (some label) name = name :=
      Renaming.inScope_of_not_renamed rfl
    simpa [hsame] using hf

theorem FunctionsRespelled.refl {labels : List Label} (h : Plain labels) (fs : List FunctionDecl) :
    FunctionsRespelled ρ D labels fs fs := by
  match fs with
  | [] => exact .nil
  | f :: rest => exact .cons (FunctionRespelled.refl h f) (FunctionsRespelled.refl h rest)

end

end

/-! ## Variables -/

mutual

/-- The names of the variables that an expression refers to. -/
def Expr.variables : Expr → List String
  | .literal _ => []
  | .grouping inner => inner.variables
  | .variable _ name => [name.name]
  | .this _ _ => []
  | .assign _ name value => name.name :: value.variables
  | .unary _ _ operand => operand.variables
  | .binary _ _ left right => left.variables ++ right.variables
  | .logical _ left right => left.variables ++ right.variables
  | .call callee _ arguments => callee.variables ++ Expr.allVariables arguments
  | .get object _ => object.variables
  | .set object _ value => object.variables ++ value.variables

def Expr.allVariables : List Expr → List String
  | [] => []
  | e :: rest => e.variables ++ Expr.allVariables rest

end

mutual

/-- The names that a statement declares or refers to. -/
def Stmt.variables : Stmt → List String
  | .expression e => e.variables
  | .print e => e.variables
  | .varDecl name e => name.name :: e.variables
  | .block body => Stmt.allVariables body
  | .ifElse c s none => c.variables ++ s.variables
  | .ifElse c s (some r) => c.variables ++ (s.variables ++ r.variables)
  | .whileLoop c s => c.variables ++ s.variables
  | .breakLoop _ => []
  | .funDecl f => f.name.name :: f.variables
  | .returnValue _ none => []
  | .returnValue _ (some e) => e.variables
  | .classDecl name methods => name.name :: FunctionDecl.allVariables methods

def Stmt.allVariables : List Stmt → List String
  | [] => []
  | s :: rest => s.variables ++ Stmt.allVariables rest

/-- The names of the parameters, and those that the body declares or refers to. -/
def FunctionDecl.variables : FunctionDecl → List String
  | .mk _ params body => params.map (·.name) ++ Stmt.allVariables body

def FunctionDecl.allVariables : List FunctionDecl → List String
  | [] => []
  | f :: rest => f.variables ++ FunctionDecl.allVariables rest

end

/-- The names that a program declares or refers to. -/
def Program.variables (p : Program) : List String := Stmt.allVariables p

theorem Stmt.declaredName?_mem_variables {s : Stmt} {x : String} (h : s.declaredName? = some x) :
    x ∈ s.variables := by
  cases s <;> cases h <;> exact List.mem_cons_self

theorem declaredNames_mem_variables {body : List Stmt} {x : String} (h : x ∈ declaredNames body) :
    x ∈ Stmt.allVariables body := by
  induction body with
  | nil => cases h
  | cons s rest ih =>
    obtain ⟨s', hs', hx⟩ := List.mem_filterMap.mp h
    obtain rfl | hs' := List.mem_cons.mp hs'
    · exact List.mem_append_left _ (Stmt.declaredName?_mem_variables hx)
    · exact List.mem_append_right _ (ih (List.mem_filterMap.mpr ⟨s', hs', hx⟩))

/-! ## Spelling anew -/

section
variable (ρ : Renaming) (D : NodeId → Option Nat) (chosen : List Nat → Bool)

mutual

/-- An expression with each reference spelled as in the scope that it leads to. -/
def Expr.respell (labels : List Label) : Expr → Expr
  | .literal value => .literal value
  | .grouping inner => .grouping (inner.respell labels)
  | .variable id name => .variable id ⟨ρ.follow labels (D id) name.name, name.line⟩
  | .this id line => .this id line
  | .assign id name value =>
    .assign id ⟨ρ.follow labels (D id) name.name, name.line⟩ (value.respell labels)
  | .unary op line operand => .unary op line (operand.respell labels)
  | .binary op line left right => .binary op line (left.respell labels) (right.respell labels)
  | .logical op left right => .logical op (left.respell labels) (right.respell labels)
  | .call callee line arguments =>
    .call (callee.respell labels) line (Expr.allRespell labels arguments)
  | .get object name => .get (object.respell labels) name
  | .set object name value => .set (object.respell labels) name (value.respell labels)

def Expr.allRespell (labels : List Label) : List Expr → List Expr
  | [] => []
  | e :: rest => e.respell labels :: Expr.allRespell labels rest

end

/-- The label of the scope that the node at a place opens. The old name is spelled anew there if
the place is chosen and a variable or parameter has that name. -/
def scopeLabel (place : List Nat) (params : List Identifier) (body : List Stmt) : Label where
  names := params.map (·.name) ++ declaredNames body
  renamed := chosen place && (params.map (·.name) ++ variableNames body).contains ρ.old

mutual

/-- A statement in which the variables of the old name are spelled anew in all chosen scopes, and
with them the references that lead to these. A place counts the nodes on the way to a scope, the
last one first. -/
def Stmt.respell (place : List Nat) (labels : List Label) : Stmt → Stmt
  | .expression e => .expression (e.respell ρ D labels)
  | .print e => .print (e.respell ρ D labels)
  | .varDecl name e =>
    .varDecl ⟨ρ.binding labels name.name, name.line⟩ (e.respell ρ D labels)
  | .block body =>
    .block (Stmt.allRespell place 0 (scopeLabel ρ chosen place [] body :: labels) body)
  | .ifElse c s none => .ifElse (c.respell ρ D labels) (s.respell (0 :: place) labels) none
  | .ifElse c s (some r) =>
    .ifElse (c.respell ρ D labels) (s.respell (0 :: place) labels)
      (some (r.respell (1 :: place) labels))
  | .whileLoop c s => .whileLoop (c.respell ρ D labels) (s.respell (0 :: place) labels)
  | .breakLoop line => .breakLoop line
  | .funDecl f => .funDecl (f.respell place labels)
  | .returnValue line none => .returnValue line none
  | .returnValue line (some e) => .returnValue line (some (e.respell ρ D labels))
  | .classDecl name methods =>
    .classDecl name (FunctionDecl.allRespell place 0 (.this :: labels) methods)

def Stmt.allRespell (place : List Nat) (i : Nat) (labels : List Label) : List Stmt → List Stmt
  | [] => []
  | s :: rest => s.respell (i :: place) labels :: Stmt.allRespell place (i + 1) labels rest

def FunctionDecl.respell (place : List Nat) (labels : List Label) : FunctionDecl → FunctionDecl
  | .mk name params body =>
    let label := scopeLabel ρ chosen place params body
    .mk name (params.map fun p => ⟨ρ.inScope (some label) p.name, p.line⟩)
      (Stmt.allRespell place 0 (label :: labels) body)

def FunctionDecl.allRespell (place : List Nat) (i : Nat) (labels : List Label) :
    List FunctionDecl → List FunctionDecl
  | [] => []
  | f :: rest =>
    f.respell (i :: place) labels :: FunctionDecl.allRespell place (i + 1) labels rest

end

/-- A program in which the variables of the old name are spelled anew in all chosen scopes, and
with them the references that their distances lead to these. -/
def Program.respell (p : Program) : Program := Stmt.allRespell ρ D chosen [] 0 [] p

variable {ρ D chosen}

theorem Expr.allRespell_eq_map (labels : List Label) (es : List Expr) :
    Expr.allRespell ρ D labels es = es.map (·.respell ρ D labels) := by
  induction es with
  | nil => rfl
  | cons e rest ih => rw [Expr.allRespell, ih, List.map_cons]

mutual

/-- What is spelled anew is another spelling. -/
theorem Expr.respell_respelled (labels : List Label) (e : Expr) :
    ExprRespelled ρ D labels e (e.respell ρ D labels) := by
  match e with
  | .literal _ => exact .literal
  | .grouping inner => exact .grouping (inner.respell_respelled labels)
  | .variable _ _ => exact .var
  | .this _ _ => exact .this
  | .assign _ _ value => exact .assign (value.respell_respelled labels)
  | .unary _ _ operand => exact .unary (operand.respell_respelled labels)
  | .binary _ _ left right =>
    exact .binary (left.respell_respelled labels) (right.respell_respelled labels)
  | .logical _ left right =>
    exact .logical (left.respell_respelled labels) (right.respell_respelled labels)
  | .call callee line arguments =>
    let pairs := arguments.map fun a => (a, a.respell ρ D labels)
    have hpairs : ∀ a ∈ pairs, ExprRespelled ρ D labels a.1 a.2 := by
      intro a ha
      obtain ⟨e, he, rfl⟩ := List.mem_map.mp ha
      exact Expr.respell_respelledAll labels arguments e he
    have hfirst : pairs.map (·.1) = arguments := by simp [pairs, Function.comp_def]
    have hsecond : pairs.map (·.2) = Expr.allRespell ρ D labels arguments := by
      simp [pairs, Function.comp_def, Expr.allRespell_eq_map]
    have hcall : ExprRespelled ρ D labels (.call callee line (pairs.map (·.1)))
        (.call (callee.respell ρ D labels) line (pairs.map (·.2))) :=
      .call (callee.respell_respelled labels) hpairs
    rwa [hfirst, hsecond] at hcall
  | .get object _ => exact .get (object.respell_respelled labels)
  | .set object _ value =>
    exact .set (object.respell_respelled labels) (value.respell_respelled labels)

theorem Expr.respell_respelledAll (labels : List Label) (es : List Expr) :
    ∀ e ∈ es, ExprRespelled ρ D labels e (e.respell ρ D labels) := by
  match es with
  | [] =>
    intro e he
    cases he
  | e :: rest =>
    exact List.forall_mem_cons.mpr
      ⟨e.respell_respelled labels, Expr.respell_respelledAll labels rest⟩

end

theorem scopeLabel_renamed {place : List Nat} {params : List Identifier} {body : List Stmt}
    (h : (scopeLabel ρ chosen place params body).renamed = true) :
    ρ.old ∈ params.map (·.name) ++ variableNames body :=
  List.contains_iff_mem.mp (Bool.and_eq_true_iff.mp h).2

theorem scopeLabel_proper {place : List Nat} {params : List Identifier} {body : List Stmt}
    (h : ρ.new ∉ params.map (·.name) ++ Stmt.allVariables body) :
    (scopeLabel ρ chosen place params body).Proper ρ := by
  intro _ hnew
  refine h ?_
  obtain hparam | hbody := List.mem_append.mp hnew
  · exact List.mem_append_left _ hparam
  · exact List.mem_append_right _ (declaredNames_mem_variables hbody)

mutual

/-- What is spelled anew is another spelling. -/
theorem Stmt.respell_respelled (place : List Nat) (labels : List Label) (s : Stmt)
    (h : ρ.new ∉ s.variables) :
    StmtRespelled ρ D labels s (s.respell ρ D chosen place labels) := by
  match s with
  | .expression e => exact .expression (e.respell_respelled labels)
  | .print e => exact .print (e.respell_respelled labels)
  | .varDecl _ e => exact .varDecl (e.respell_respelled labels)
  | .block body =>
    have hproper : (scopeLabel ρ chosen place [] body).Proper ρ := scopeLabel_proper h
    exact .block rfl scopeLabel_renamed hproper
      (Stmt.respell_respelledAll place 0 _ body h)
  | .ifElse c s none =>
    have h' := fun hs => h (List.mem_append_right _ hs)
    exact .ifThen (c.respell_respelled labels) (s.respell_respelled (0 :: place) labels h')
  | .ifElse c s (some r) =>
    have hs := fun hs => h (List.mem_append_right _ (List.mem_append_left _ hs))
    have hr := fun hr => h (List.mem_append_right _ (List.mem_append_right _ hr))
    exact .ifElse (c.respell_respelled labels) (s.respell_respelled (0 :: place) labels hs)
      (r.respell_respelled (1 :: place) labels hr)
  | .whileLoop c s =>
    have h' := fun hs => h (List.mem_append_right _ hs)
    exact .whileLoop (c.respell_respelled labels) (s.respell_respelled (0 :: place) labels h')
  | .breakLoop _ => exact .breakLoop
  | .funDecl f =>
    exact .funDecl (f.respell_respelled place labels fun hf => h (List.mem_cons_of_mem _ hf))
  | .returnValue _ none => exact .return
  | .returnValue _ (some e) => exact .returnValue (e.respell_respelled labels)
  | .classDecl _ methods =>
    exact .classDecl (FunctionDecl.respell_respelledAll place 0 _ methods
      fun hf => h (List.mem_cons_of_mem _ hf))

theorem Stmt.respell_respelledAll (place : List Nat) (i : Nat) (labels : List Label)
    (ss : List Stmt) (h : ρ.new ∉ Stmt.allVariables ss) :
    StmtsRespelled ρ D labels ss (Stmt.allRespell ρ D chosen place i labels ss) := by
  match ss with
  | [] => exact .nil
  | s :: rest =>
    have hs := fun hs => h (List.mem_append_left _ hs)
    have hrest := fun hrest => h (List.mem_append_right _ hrest)
    exact .cons (s.respell_respelled (i :: place) labels hs)
      (Stmt.respell_respelledAll place (i + 1) labels rest hrest)

theorem FunctionDecl.respell_respelled (place : List Nat) (labels : List Label) (f : FunctionDecl)
    (h : ρ.new ∉ f.variables) :
    FunctionRespelled ρ D labels f (f.respell ρ D chosen place labels) := by
  match f with
  | .mk _ params body =>
    have hbody := fun hbody => h (List.mem_append_right _ hbody)
    exact .mk rfl scopeLabel_renamed (scopeLabel_proper h)
      (Stmt.respell_respelledAll place 0 _ body hbody)

theorem FunctionDecl.respell_respelledAll (place : List Nat) (i : Nat) (labels : List Label)
    (fs : List FunctionDecl) (h : ρ.new ∉ FunctionDecl.allVariables fs) :
    FunctionsRespelled ρ D labels fs (FunctionDecl.allRespell ρ D chosen place i labels fs) := by
  match fs with
  | [] => exact .nil
  | f :: rest =>
    have hf := fun hf => h (List.mem_append_left _ hf)
    have hrest := fun hrest => h (List.mem_append_right _ hrest)
    exact .cons (f.respell_respelled (i :: place) labels hf)
      (FunctionDecl.respell_respelledAll place (i + 1) labels rest hrest)

end

theorem Program.respell_respelled {p : Program} (h : ρ.new ∉ p.variables) :
    StmtsRespelled ρ D [] p (p.respell ρ D chosen) :=
  Stmt.respell_respelledAll [] 0 [] p h

end

end LoxLang
