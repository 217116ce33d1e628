import LoxLang.Program

/-!
# References

The nodes of a program that refer to a variable, in the order in which scoping visits them: an
assigned value comes before the name or the object it is assigned to.
-/

namespace LoxLang

inductive ReferenceKind
  | variable | assign | this
  deriving DecidableEq, Repr

/-- A node that refers to a variable. -/
structure Reference where
  kind : ReferenceKind
  id : NodeId
  name : Identifier
  deriving DecidableEq, Repr

mutual

def Expr.references : Expr → List Reference
  | .literal _ => []
  | .grouping inner => inner.references
  | .variable id name => [⟨.variable, id, name⟩]
  | .this id line => [⟨.this, id, ⟨"this", line⟩⟩]
  | .assign id name value => value.references ++ [⟨.assign, id, name⟩]
  | .unary _ _ operand => operand.references
  | .binary _ _ left right => left.references ++ right.references
  | .logical _ left right => left.references ++ right.references
  | .call callee _ arguments => callee.references ++ Expr.allReferences arguments
  | .get object _ => object.references
  | .set object _ value => value.references ++ object.references

def Expr.allReferences : List Expr → List Reference
  | [] => []
  | e :: rest => e.references ++ Expr.allReferences rest

end

mutual

def Stmt.references : Stmt → List Reference
  | .expression expr => expr.references
  | .print expr => expr.references
  | .varDecl _ initializer => initializer.references
  | .block body => Stmt.allReferences body
  | .ifElse condition thenBranch none => condition.references ++ thenBranch.references
  | .ifElse condition thenBranch (some elseBranch) =>
    condition.references ++ thenBranch.references ++ elseBranch.references
  | .whileLoop condition body => condition.references ++ body.references
  | .breakLoop _ => []
  | .funDecl function => function.references
  | .returnValue _ none => []
  | .returnValue _ (some value) => value.references
  | .classDecl _ methods => FunctionDecl.allReferences methods

def Stmt.allReferences : List Stmt → List Reference
  | [] => []
  | s :: rest => s.references ++ Stmt.allReferences rest

def FunctionDecl.references : FunctionDecl → List Reference
  | .mk _ _ body => Stmt.allReferences body

def FunctionDecl.allReferences : List FunctionDecl → List Reference
  | [] => []
  | f :: rest => f.references ++ FunctionDecl.allReferences rest

end

end LoxLang
