import LoxLang.Parsing.Cursor

/-!
# Expressions

From loosest to tightest: assignment, `or`, `and`, equality, comparison, terms, factors, prefix
operators, calls with property accesses, and primary expressions.

* `levels`: the operators between two operands as one table;
* `expression`: the rule itself; every rule inside it takes at least one token before it comes
  back to it, so fuel beyond the number of tokens is never used up.
-/

namespace LoxLang.Parsing

/-- An operator between two operands. -/
inductive DyadicOp
  | binary (op : BinaryOp)
  | logical (op : LogicalOp)

/-- The operation of two operands; a binary one reports errors at the operator's line. -/
def DyadicOp.apply (op : DyadicOp) (line : Nat) (left right : Expr) : Expr :=
  match op with
  | binary op => .binary op line left right
  | logical op => .logical op left right

/-- The operators of one precedence, by token. -/
abbrev Level : Type := TokenKind → Option DyadicOp

/-- The operators between two operands, the loosest first. -/
def levels : List Level :=
  [fun
    | .keyword .orWord => some (.logical .or)
    | _ => none,
   fun
    | .keyword .andWord => some (.logical .and)
    | _ => none,
   fun
    | .symbol .bangEqual => some (.binary .notEqual)
    | .symbol .equalEqual => some (.binary .equal)
    | _ => none,
   fun
    | .symbol .greater => some (.binary .greater)
    | .symbol .greaterEqual => some (.binary .greaterEqual)
    | .symbol .less => some (.binary .less)
    | .symbol .lessEqual => some (.binary .lessEqual)
    | _ => none,
   fun
    | .symbol .minus => some (.binary .subtract)
    | .symbol .plus => some (.binary .add)
    | _ => none,
   fun
    | .symbol .slash => some (.binary .divide)
    | .symbol .star => some (.binary .multiply)
    | _ => none]

/-- Takes the next token if it is an operator of the level, with its line. -/
def takeOperator (level : Level) : Parser (Option (DyadicOp × Nat)) := fun c =>
  match c.rest with
  | [] => .ok none c
  | t :: rest =>
    match level t.kind with
    | some op => .ok (some (op, t.line)) { c with rest }
    | none => .ok none c

/-- Further operands of a level, grouped to the left. -/
def operands (level : Level) (operand : Parser Expr) : Nat → Expr → Parser Expr
  | 0, _ => Action.outOfFuel
  | fuel + 1, left => do
    match ← takeOperator level with
    | none => return left
    | some (op, line) =>
      let right ← operand
      operands level operand fuel (op.apply line left right)

/-- One level over the rule of its operands. -/
def binaryLevel (fuel : Nat) (level : Level) (operand : Parser Expr) : Parser Expr := do
  let first ← operand
  operands level operand fuel first

/-- A literal, a name, `this` or a group. -/
def primary (expression : Parser Expr) : Parser Expr := do
  let here ← remaining
  match here with
  | [] => refuse .expression
  | t :: _ =>
    match t.kind with
    | .keyword .falseWord => skip; return .literal (.bool false)
    | .keyword .trueWord => skip; return .literal (.bool true)
    | .keyword .nilWord => skip; return .literal .nil
    | .number value => skip; return .literal (.number value)
    | .string value => skip; return .literal (.string value)
    | .keyword .thisWord =>
      skip
      let id ← freshId
      return .this id t.line
    | .identifier =>
      skip
      let id ← freshId
      return .variable id ⟨t.lexeme, t.line⟩
    | .symbol .leftParen =>
      skip
      let inner ← expression
      let _ ← expect .rightParen .groupEnd
      return .grouping inner
    | _ => refuse .expression

/-- Calls and property accesses on what stands before them. -/
def suffixes (expression : Parser Expr) : Nat → Expr → Parser Expr
  | 0, _ => Action.outOfFuel
  | fuel + 1, callee => do
    match ← nextKind with
    | some (.symbol .leftParen) =>
      skip
      let arguments ← separatedOrNone .tooManyArguments expression fuel
      let paren ← expect .rightParen .argumentsEnd
      suffixes expression fuel (.call callee paren.line arguments)
    | some (.symbol .dot) =>
      skip
      let name ← expectName .propertyName
      suffixes expression fuel (.get callee name)
    | _ => return callee

/-- Prefix operators, then a primary expression with its calls and property accesses. -/
def unary (expression : Parser Expr) : Nat → Parser Expr
  | 0 => Action.outOfFuel
  | fuel + 1 => do
    match ← takeIf fun t => t.isSymbol .bang || t.isSymbol .minus with
    | some t =>
      let operand ← unary expression fuel
      return .unary (if t.isSymbol .bang then .not else .negate) t.line operand
    | none =>
      let callee ← primary expression
      suffixes expression (fuel + 1) callee

/-- An assignment to a name or a property, or a plain expression. The target is read as an
expression first; what cannot be assigned to is refused at the equals sign. -/
def assignment (expression : Parser Expr) (fuel : Nat) : Parser Expr := do
  let target ← levels.foldr (binaryLevel fuel) (unary expression fuel)
  let here ← remaining
  match ← accept .equal with
  | none => return target
  | some _ =>
    let value ← expression
    match target with
    | .variable _ name =>
      let id ← freshId
      return .assign id name value
    | .get object name => return .set object name value
    | _ => refuseAt here .assignmentTarget

def expression : Nat → Parser Expr
  | 0 => Action.outOfFuel
  | fuel + 1 => assignment (expression fuel) (fuel + 1)

/-- An expression that takes all tokens. -/
def wholeExpression (fuel : Nat) : Parser Expr := do
  let e ← expression fuel
  match ← remaining with
  | [] => return e
  | _ => refuse .endOfExpression

end LoxLang.Parsing
