import LoxLang.Program.References

/-!
# Trees apart from their identities

* `withoutIds`: a tree with every node identity set to zero, so that two trees have the same image
  when they differ in identities only;
* `ids`: the identities in a tree, in the order of its references;
* `declaredNames`: the names that statements add to the scope they stand in.
-/

namespace LoxLang

mutual

def Expr.withoutIds : Expr → Expr
  | .literal value => .literal value
  | .grouping inner => .grouping inner.withoutIds
  | .variable _ name => .variable 0 name
  | .this _ line => .this 0 line
  | .assign _ name value => .assign 0 name value.withoutIds
  | .unary op line operand => .unary op line operand.withoutIds
  | .binary op line left right => .binary op line left.withoutIds right.withoutIds
  | .logical op left right => .logical op left.withoutIds right.withoutIds
  | .call callee line arguments =>
    .call callee.withoutIds line (Expr.allWithoutIds arguments)
  | .get object name => .get object.withoutIds name
  | .set object name value => .set object.withoutIds name value.withoutIds

def Expr.allWithoutIds : List Expr → List Expr
  | [] => []
  | e :: rest => e.withoutIds :: Expr.allWithoutIds rest

end

mutual

def Stmt.withoutIds : Stmt → Stmt
  | .expression expr => .expression expr.withoutIds
  | .print expr => .print expr.withoutIds
  | .varDecl name initializer => .varDecl name initializer.withoutIds
  | .block body => .block (Stmt.allWithoutIds body)
  | .ifElse condition thenBranch none =>
    .ifElse condition.withoutIds thenBranch.withoutIds none
  | .ifElse condition thenBranch (some elseBranch) =>
    .ifElse condition.withoutIds thenBranch.withoutIds (some elseBranch.withoutIds)
  | .whileLoop condition body => .whileLoop condition.withoutIds body.withoutIds
  | .breakLoop line => .breakLoop line
  | .funDecl function => .funDecl function.withoutIds
  | .returnValue line none => .returnValue line none
  | .returnValue line (some value) => .returnValue line (some value.withoutIds)
  | .classDecl name methods => .classDecl name (FunctionDecl.allWithoutIds methods)

def Stmt.allWithoutIds : List Stmt → List Stmt
  | [] => []
  | s :: rest => s.withoutIds :: Stmt.allWithoutIds rest

def FunctionDecl.withoutIds : FunctionDecl → FunctionDecl
  | .mk name params body => .mk name params (Stmt.allWithoutIds body)

def FunctionDecl.allWithoutIds : List FunctionDecl → List FunctionDecl
  | [] => []
  | f :: rest => f.withoutIds :: FunctionDecl.allWithoutIds rest

end

abbrev Program.withoutIds (p : Program) : Program := Stmt.allWithoutIds p

theorem Expr.allWithoutIds_eq_map (es : List Expr) :
    Expr.allWithoutIds es = es.map Expr.withoutIds := by
  induction es with
  | nil => rfl
  | cons e rest ih => rw [Expr.allWithoutIds, ih, List.map_cons]

theorem Stmt.allWithoutIds_eq_map (ss : List Stmt) :
    Stmt.allWithoutIds ss = ss.map Stmt.withoutIds := by
  induction ss with
  | nil => rfl
  | cons s rest ih => rw [Stmt.allWithoutIds, ih, List.map_cons]

theorem FunctionDecl.allWithoutIds_eq_map (fs : List FunctionDecl) :
    FunctionDecl.allWithoutIds fs = fs.map FunctionDecl.withoutIds := by
  induction fs with
  | nil => rfl
  | cons f rest ih => rw [FunctionDecl.allWithoutIds, ih, List.map_cons]

/-- The identities of the references in an expression. -/
def Expr.ids (e : Expr) : List NodeId := e.references.map (·.id)

def Expr.allIds (es : List Expr) : List NodeId := (Expr.allReferences es).map (·.id)

def Stmt.ids (s : Stmt) : List NodeId := s.references.map (·.id)

def Stmt.allIds (ss : List Stmt) : List NodeId := (Stmt.allReferences ss).map (·.id)

def FunctionDecl.ids (f : FunctionDecl) : List NodeId := f.references.map (·.id)

def FunctionDecl.allIds (fs : List FunctionDecl) : List NodeId :=
  (FunctionDecl.allReferences fs).map (·.id)

namespace Expr

@[simp] theorem ids_literal (value : Literal) : (literal value).ids = [] := rfl

@[simp] theorem ids_grouping (inner : Expr) : (grouping inner).ids = inner.ids := rfl

@[simp] theorem ids_variable (id : NodeId) (name : Identifier) :
    (.variable id name : Expr).ids = [id] :=
  rfl

@[simp] theorem ids_this (id : NodeId) (line : Nat) : (.this id line : Expr).ids = [id] := rfl

@[simp] theorem ids_assign (id : NodeId) (name : Identifier) (value : Expr) :
    (assign id name value).ids = value.ids ++ [id] := List.map_append

@[simp] theorem ids_unary (op : UnaryOp) (line : Nat) (operand : Expr) :
    (unary op line operand).ids = operand.ids := rfl

@[simp] theorem ids_binary (op : BinaryOp) (line : Nat) (left right : Expr) :
    (binary op line left right).ids = left.ids ++ right.ids := List.map_append

@[simp] theorem ids_logical (op : LogicalOp) (left right : Expr) :
    (logical op left right).ids = left.ids ++ right.ids := List.map_append

@[simp] theorem ids_call (callee : Expr) (line : Nat) (arguments : List Expr) :
    (call callee line arguments).ids = callee.ids ++ allIds arguments := List.map_append

@[simp] theorem ids_get (object : Expr) (name : Identifier) : (get object name).ids = object.ids :=
  rfl

@[simp] theorem ids_set (object : Expr) (name : Identifier) (value : Expr) :
    (set object name value).ids = value.ids ++ object.ids := List.map_append

@[simp] theorem allIds_nil : allIds [] = [] := rfl

@[simp] theorem allIds_cons (e : Expr) (rest : List Expr) :
    allIds (e :: rest) = e.ids ++ allIds rest := List.map_append

theorem allIds_eq_flatMap (es : List Expr) : allIds es = es.flatMap ids := by
  induction es with
  | nil => rfl
  | cons e rest ih => rw [List.flatMap_cons, ← ih, allIds_cons]

end Expr

namespace Stmt

@[simp] theorem ids_expression (e : Expr) : (expression e).ids = e.ids := rfl

@[simp] theorem ids_print (e : Expr) : (print e).ids = e.ids := rfl

@[simp] theorem ids_varDecl (name : Identifier) (e : Expr) : (varDecl name e).ids = e.ids := rfl

@[simp] theorem ids_block (body : List Stmt) : (block body).ids = allIds body := rfl

@[simp] theorem ids_ifThen (condition : Expr) (s : Stmt) :
    (ifElse condition s none).ids = condition.ids ++ s.ids := List.map_append

@[simp] theorem ids_ifElse (condition : Expr) (s s' : Stmt) :
    (ifElse condition s (some s')).ids = condition.ids ++ s.ids ++ s'.ids := by
  simp only [ids, Expr.ids, references, List.map_append]

@[simp] theorem ids_whileLoop (condition : Expr) (body : Stmt) :
    (whileLoop condition body).ids = condition.ids ++ body.ids := List.map_append

@[simp] theorem ids_breakLoop (line : Nat) : (breakLoop line).ids = [] := rfl

@[simp] theorem ids_funDecl (f : FunctionDecl) : (funDecl f).ids = f.ids := rfl

@[simp] theorem ids_return (line : Nat) : (returnValue line none).ids = [] := rfl

@[simp] theorem ids_returnValue (line : Nat) (e : Expr) :
    (returnValue line (some e)).ids = e.ids := rfl

@[simp] theorem ids_classDecl (name : Identifier) (methods : List FunctionDecl) :
    (classDecl name methods).ids = FunctionDecl.allIds methods := rfl

@[simp] theorem allIds_nil : allIds [] = [] := rfl

@[simp] theorem allIds_cons (s : Stmt) (rest : List Stmt) :
    allIds (s :: rest) = s.ids ++ allIds rest := List.map_append

theorem allIds_eq_flatMap (ss : List Stmt) : allIds ss = ss.flatMap ids := by
  induction ss with
  | nil => rfl
  | cons s rest ih => rw [List.flatMap_cons, ← ih, allIds_cons]

theorem allIds_append (ss ss' : List Stmt) : allIds (ss ++ ss') = allIds ss ++ allIds ss' := by
  rw [allIds_eq_flatMap, allIds_eq_flatMap, allIds_eq_flatMap, List.flatMap_append]

end Stmt

namespace FunctionDecl

@[simp] theorem ids_mk (name : Identifier) (params : List Identifier) (body : List Stmt) :
    (mk name params body).ids = Stmt.allIds body := rfl

@[simp] theorem allIds_nil : allIds [] = [] := rfl

@[simp] theorem allIds_cons (f : FunctionDecl) (rest : List FunctionDecl) :
    allIds (f :: rest) = f.ids ++ allIds rest := List.map_append

theorem allIds_eq_flatMap (fs : List FunctionDecl) : allIds fs = fs.flatMap ids := by
  induction fs with
  | nil => rfl
  | cons f rest ih => rw [List.flatMap_cons, ← ih, allIds_cons]

end FunctionDecl

/-! ## Declared names -/

/-- The name that a declaration adds to the scope it stands in. -/
def Stmt.declaredName? : Stmt → Option String
  | .varDecl name _ => some name.name
  | .funDecl f => some f.name.name
  | .classDecl name _ => some name.name
  | _ => none

/-- The names that statements add to the scope they stand in. -/
def declaredNames (body : List Stmt) : List String := body.filterMap Stmt.declaredName?

theorem Stmt.declaredName?_withoutIds (s : Stmt) :
    s.withoutIds.declaredName? = s.declaredName? := by
  cases s with
  | ifElse condition thenBranch elseBranch => cases elseBranch <;> rfl
  | returnValue line value => cases value <;> rfl
  | funDecl f =>
    cases f
    rfl
  | _ => rfl

end LoxLang
