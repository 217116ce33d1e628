import LoxLang.Parsing.Expression

/-!
# Declarations and statements

The rules take the rules for nested declarations and statements as arguments, and the fuel for
their expressions and lists; `declaration` and `statement` tie the knot. A `for` loop is read into
a block with a `while` loop.
-/

namespace LoxLang.Parsing

/-- The rules for what may stand inside a statement. -/
structure Nested where
  declaration : Parser Stmt
  statement : Parser Stmt

/-- Whether a list of declarations goes on: neither its brace nor the end of the source is next. -/
@[inline] def goesOn : Parser Bool := fun c =>
  .ok (c.rest.head?.any fun t => !t.isSymbol .rightBrace) c

/-- Items up to a closing brace or the end of the source. -/
def untilBrace {α : Type} (item : Parser α) : Nat → Parser (List α)
  | 0 => Action.outOfFuel
  | fuel + 1 => do
    if ← goesOn then
      let first ← item
      let others ← untilBrace item fuel
      return first :: others
    else return []

/-- The declarations of a block, from behind its opening brace. -/
def blockBody (fuel : Nat) (nested : Nested) : Parser (List Stmt) := do
  let body ← untilBrace nested.declaration fuel
  let _ ← expect .rightBrace .blockEnd
  return body

/-- Name, parameters and body of a function. -/
def function (fuel : Nat) (nested : Nested) (kind : FunctionKind) : Parser FunctionDecl := do
  let name ← expectName (.functionName kind)
  let _ ← expect .leftParen (.parametersStart kind)
  let params ← separatedOrNone .tooManyParameters (expectName .parameterName) fuel
  let _ ← expect .rightParen .parametersEnd
  let _ ← expect .leftBrace (.bodyStart kind)
  let body ← blockBody fuel nested
  return .mk name params body

def classDeclaration (fuel : Nat) (nested : Nested) : Parser Stmt := do
  let name ← expectName .className
  let _ ← expect .leftBrace .classStart
  let methods ← untilBrace (function fuel nested .method) fuel
  let _ ← expect .rightBrace .classEnd
  return .classDecl name methods

/-- A variable declaration; without an initializer the variable starts as `nil`. -/
def varDeclaration (fuel : Nat) : Parser Stmt := do
  let name ← expectName .variableName
  match ← accept .equal with
  | some _ =>
    let initializer ← expression fuel
    let _ ← expect .semicolon .variableEnd
    return .varDecl name initializer
  | none =>
    let _ ← expect .semicolon .variableEnd
    return .varDecl name (.literal .nil)

def expressionStatement (fuel : Nat) : Parser Stmt := do
  let expr ← expression fuel
  let _ ← expect .semicolon .expressionEnd
  return .expression expr

def printStatement (fuel : Nat) : Parser Stmt := do
  let expr ← expression fuel
  let _ ← expect .semicolon .printEnd
  return .print expr

def ifStatement (fuel : Nat) (nested : Nested) : Parser Stmt := do
  let _ ← expect .leftParen .ifStart
  let condition ← expression fuel
  let _ ← expect .rightParen .ifConditionEnd
  let thenBranch ← nested.statement
  match ← takeIf (·.isKeyword .elseWord) with
  | none => return .ifElse condition thenBranch none
  | some _ =>
    let elseBranch ← nested.statement
    return .ifElse condition thenBranch (some elseBranch)

def whileStatement (fuel : Nat) (nested : Nested) : Parser Stmt := do
  let _ ← expect .leftParen .whileStart
  let condition ← expression fuel
  let _ ← expect .rightParen .whileConditionEnd
  let body ← nested.statement
  return .whileLoop condition body

/-- What a `for` loop means: the increment runs after the body, and the initializer before the
loop in a scope of its own. -/
def desugarFor (initializer : Option Stmt) (condition : Expr) (increment : Option Expr)
    (body : Stmt) : Stmt :=
  let body :=
    match increment with
    | none => body
    | some e => .block [body, .expression e]
  let loop := Stmt.whileLoop condition body
  match initializer with
  | none => loop
  | some s => .block [s, loop]

/-- What runs before a `for` loop, with its semicolon. -/
def forInitializer (fuel : Nat) : Parser (Option Stmt) := do
  match ← nextKind with
  | some (.symbol .semicolon) => skip; return none
  | some (.keyword .varWord) => skip; return some (← varDeclaration fuel)
  | _ => return some (← expressionStatement fuel)

def forStatement (fuel : Nat) (nested : Nested) : Parser Stmt := do
  let _ ← expect .leftParen .forStart
  let initializer ← forInitializer fuel
  let condition ←
    if ← isNext .semicolon then pure (.literal (.bool true)) else expression fuel
  let _ ← expect .semicolon .forConditionEnd
  let increment ←
    if ← isNext .rightParen then pure none else some <$> expression fuel
  let _ ← expect .rightParen .forClausesEnd
  let body ← nested.statement
  return desugarFor initializer condition increment body

/-- A `return` whose keyword stands on the given line. -/
def returnStatement (fuel : Nat) (line : Nat) : Parser Stmt := do
  let value ← if ← isNext .semicolon then pure none else some <$> expression fuel
  let _ ← expect .semicolon .returnEnd
  return .returnValue line value

/-- A `break` whose keyword stands on the given line. -/
def breakStatement (line : Nat) : Parser Stmt := do
  let _ ← expect .semicolon .breakEnd
  return .breakLoop line

/-- A statement that declares nothing. -/
def statementWith (fuel : Nat) (nested : Nested) : Parser Stmt := do
  match ← remaining with
  | [] => expressionStatement fuel
  | t :: _ =>
    match t.kind with
    | .keyword .forWord => skip; forStatement fuel nested
    | .keyword .ifWord => skip; ifStatement fuel nested
    | .keyword .whileWord => skip; whileStatement fuel nested
    | .keyword .returnWord => skip; returnStatement fuel t.line
    | .keyword .breakWord => skip; breakStatement t.line
    | .keyword .printWord => skip; printStatement fuel
    | .symbol .leftBrace => skip; return .block (← blockBody fuel nested)
    | _ => expressionStatement fuel

/-- A class, function or variable declaration, or a statement. -/
def declarationWith (fuel : Nat) (nested : Nested) : Parser Stmt := do
  match ← nextKind with
  | some (.keyword .classWord) => skip; classDeclaration fuel nested
  | some (.keyword .funWord) => skip; return .funDecl (← function fuel nested .function)
  | some (.keyword .varWord) => skip; varDeclaration fuel
  | _ => statementWith fuel nested

mutual

def declaration : Nat → Parser Stmt
  | 0 => Action.outOfFuel
  | fuel + 1 => declarationWith (fuel + 1) ⟨declaration fuel, statement fuel⟩

def statement : Nat → Parser Stmt
  | 0 => Action.outOfFuel
  | fuel + 1 => statementWith (fuel + 1) ⟨declaration fuel, statement fuel⟩

end

end LoxLang.Parsing
