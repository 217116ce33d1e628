import LoxLang.Program
import LoxLang.Text.Json

/-!
# Programs as JSON documents

A node is an object with one field, named for its kind; the parts of the node are the fields of an
object under it, with its identity and its lines.
-/

namespace LoxLang

namespace Document

/-- An object of one field. -/
def tagged (tag : String) (d : Document) : Document := .object [(tag, d)]

end Document

def Identifier.document (i : Identifier) : Document :=
  .object [("name", .string i.name), ("line", .natural i.line)]

def Literal.document : Literal → Document
  | number value => .tagged "Number" (.number value)
  | string value => .tagged "Str" (.string value)
  | bool value => .tagged "Bool" (.bool value)
  | nil => .string "Nil"

mutual

def Expr.document : Expr → Document
  | .literal value => .tagged "Literal" value.document
  | .grouping inner => .tagged "Grouping" inner.document
  | .variable id name =>
    .tagged "Variable" (.object [("id", .natural id), ("name", name.document)])
  | .this id line => .tagged "This" (.object [("id", .natural id), ("line", .natural line)])
  | .assign id name value =>
    .tagged "Assign" (.object
      [("id", .natural id), ("name", name.document), ("value", value.document)])
  | .unary op line operand =>
    .tagged "Unary" (.object
      [("operator", .string op.name), ("line", .natural line), ("right", operand.document)])
  | .binary op line left right =>
    .tagged "Binary" (.object
      [("left", left.document), ("operator", .string op.name), ("line", .natural line),
       ("right", right.document)])
  | .logical op left right =>
    .tagged "Logical" (.object
      [("left", left.document), ("operator", .string op.name), ("right", right.document)])
  | .call callee line arguments =>
    .tagged "Call" (.object
      [("callee", callee.document), ("paren", .natural line),
       ("arguments", .array (Expr.documents arguments))])
  | .get object name =>
    .tagged "Get" (.object [("object", object.document), ("name", name.document)])
  | .set object name value =>
    .tagged "Set" (.object
      [("object", object.document), ("name", name.document), ("value", value.document)])

def Expr.documents : List Expr → List Document
  | [] => []
  | e :: rest => e.document :: Expr.documents rest

end

mutual

def Stmt.document : Stmt → Document
  | .expression expr => .tagged "Expression" expr.document
  | .print expr => .tagged "Print" expr.document
  | .varDecl name initializer =>
    .tagged "Var" (.object [("name", name.document), ("initializer", initializer.document)])
  | .block body => .tagged "Block" (.array (Stmt.documents body))
  | .ifElse condition thenBranch none =>
    .tagged "If" (.object
      [("condition", condition.document), ("then_branch", thenBranch.document),
       ("else_branch", .null)])
  | .ifElse condition thenBranch (some elseBranch) =>
    .tagged "If" (.object
      [("condition", condition.document), ("then_branch", thenBranch.document),
       ("else_branch", elseBranch.document)])
  | .whileLoop condition body =>
    .tagged "While" (.object [("condition", condition.document), ("body", body.document)])
  | .breakLoop line => .tagged "Break" (.object [("line", .natural line)])
  | .funDecl function => .tagged "Function" function.document
  | .returnValue line value =>
    .tagged "Return" (.object
      [("line", .natural line), ("value", (value.map Expr.document).getD .null)])
  | .classDecl name methods =>
    .tagged "Class" (.object
      [("name", name.document), ("methods", .array (FunctionDecl.documents methods))])

def Stmt.documents : List Stmt → List Document
  | [] => []
  | s :: rest => s.document :: Stmt.documents rest

def FunctionDecl.document : FunctionDecl → Document
  | .mk name params body =>
    .object
      [("name", name.document), ("params", .array (params.map Identifier.document)),
       ("body", .array (Stmt.documents body))]

def FunctionDecl.documents : List FunctionDecl → List Document
  | [] => []
  | f :: rest => f.document :: FunctionDecl.documents rest

end

def Program.document (p : Program) : Document := .array (Stmt.documents p)

end LoxLang
