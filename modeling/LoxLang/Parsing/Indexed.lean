import LoxLang.Parsing.Program

/-!
# The grammar over a slice

The rules of the grammar with the index of the entry that is looked at, over tokens and a mark for
the end of the source behind them. Every look is an access to the slice, which fails where there is
no such entry, and the rules never ask how long the slice is: they stop at the mark.

* `Entry`, `SliceParser`, `Halt`: what a slice holds, where a rule stands, and why it stops;
* `peek`, `previous`: the only accesses, of which `check`, `advance` and `accept` are made;
* `firstOf`: the alternatives of a rule, tried one after the other;
* `turn`, `parse`: one declaration with what is skipped behind an objection, and a whole slice.
-/

namespace LoxLang

namespace Parsing

namespace Indexed

/-- What a slice holds: tokens, and a mark for the end of the source. -/
inductive Entry
  | token (t : Token)
  | ending (lexeme : String) (line : Nat)
  deriving Repr

namespace Entry

def lexeme : Entry → String
  | token t => t.lexeme
  | ending lexeme _ => lexeme

def line : Entry → Nat
  | token t => t.line
  | ending _ line => line

def isEnding : Entry → Bool
  | token _ => false
  | ending _ _ => true

/-- Whether it is a token that the test accepts. -/
def passes (test : Token → Bool) : Entry → Bool
  | token t => test t
  | ending _ _ => false

end Entry

/-- The kinds of tokens that the rules look for. -/
inductive Sign
  | symbol (s : Symbol)
  | keyword (k : Keyword)
  | identifier

def Sign.isOf (sign : Sign) (t : Token) : Bool :=
  match sign with
  | symbol s => t.isSymbol s
  | keyword k => t.isKeyword k
  | identifier => t.kind matches .identifier

/-- A fault, and the entry that it is reported at with its index in the slice. -/
structure Objection where
  fault : SyntaxFault
  index : Nat
  lexeme : String
  line : Nat

namespace Objection

/-- An empty lexeme stands for the end of the source. -/
def place (o : Objection) : String :=
  if o.lexeme.isEmpty then " at end" else " at '" ++ o.lexeme ++ "'"

def message (o : Objection) : String :=
  "[line " ++ digitsOf o.line ++ "] Error" ++ o.place ++ ": " ++ o.fault.message

end Objection

/-- Why a rule stops short: an access outside the slice, or an objection. -/
inductive Halt
  | outOfRange
  | objection (o : Objection)

/-- A slice, the index of the entry that is looked at, and the next free node identity. -/
structure SliceParser where
  entries : List Entry
  current : Nat
  nextId : NodeId

abbrev Reads (α : Type) : Type := Action Halt SliceParser α

/-! ## Steps -/

/-- The entry with this index. -/
def entryAt (index : Nat) : Reads Entry := fun s =>
  match s.entries[index]? with
  | some e => .ok e s
  | none => .error .outOfRange s

def peek : Reads Entry := fun s => entryAt s.current s

/-- The entry before the one looked at; the first one has none before it and stands for itself. -/
def previous : Reads Entry := fun s => entryAt (s.current - 1) s

def isAtEnd : Reads Bool := do
  return (← peek).isEnding

/-- Whether the entry looked at is a token of this kind. -/
def check (sign : Sign) : Reads Bool := do
  if ← isAtEnd then return false
  else return (← peek).passes sign.isOf

/-- Goes on to the next entry, but not behind the end; gives the entry before that. -/
def advance : Reads Entry := do
  if ← isAtEnd then previous
  else
    Action.modify fun s => { s with current := s.current + 1 }
    previous

/-- Goes on to the next entry if the one looked at is of this kind. -/
def accept (sign : Sign) : Reads Bool := do
  if ← check sign then
    let _ ← advance
    return true
  else return false

/-- Objects at the entry looked at. -/
def object {α : Type} (fault : SyntaxFault) : Reads α := do
  let e ← peek
  fun s => .error (.objection ⟨fault, s.current, e.lexeme, e.line⟩) s

/-- Goes on to the next entry; the one looked at must be of this kind. -/
def consume (sign : Sign) (fault : SyntaxFault) : Reads Entry := do
  if ← check sign then advance else object fault

def consumeSymbol (s : Symbol) (fault : SyntaxFault) : Reads Entry := consume (.symbol s) fault

def consumeName (fault : SyntaxFault) : Reads Identifier := do
  let e ← consume .identifier fault
  return ⟨e.lexeme, e.line⟩

/-- A node identity not given out before. -/
def freshId : Reads NodeId := fun s => .ok s.nextId { s with nextId := s.nextId + 1 }

/-- The kind of token that a rule starts with, and how it goes on behind it. -/
abbrev Branch (α : Type) : Type := Sign × Reads α

/-- The first rule whose token is the entry looked at, or else the last one. -/
def firstOf {α : Type} (otherwise : Reads α) : List (Branch α) → Reads α
  | [] => otherwise
  | (sign, rule) :: others => do
    if ← accept sign then rule else firstOf otherwise others

/-- One or more items with commas between them, when `count` of them have been read. -/
def separated {α : Type} (tooMany : SyntaxFault) (item : Reads α) : Nat → Nat → Reads (List α)
  | 0, _ => Action.outOfFuel
  | fuel + 1, count => do
    if maxArguments ≤ count then object tooMany
    else
      let first ← item
      if ← accept (.symbol .comma) then
        let others ← separated tooMany item fuel (count + 1)
        return first :: others
      else return [first]

def separatedOrNone {α : Type} (tooMany : SyntaxFault) (item : Reads α) (fuel : Nat) :
    Reads (List α) := do
  if ← check (.symbol .rightParen) then return [] else separated tooMany item fuel 0

/-- Whether neither a closing brace nor the end of the source is looked at. -/
def goesOn : Reads Bool := do
  if ← check (.symbol .rightBrace) then return false
  else return !(← isAtEnd)

def untilBrace {α : Type} (item : Reads α) : Nat → Reads (List α)
  | 0 => Action.outOfFuel
  | fuel + 1 => do
    if ← goesOn then
      let first ← item
      let others ← untilBrace item fuel
      return first :: others
    else return []

/-! ## Expressions -/

/-- The operators of one precedence with their tokens, in the order in which they are tried. -/
abbrev Table : Type := List (Sign × DyadicOp)

/-- The operators between two operands, the loosest first. -/
def tables : List Table :=
  [[(.keyword .orWord, .logical .or)],
   [(.keyword .andWord, .logical .and)],
   [(.symbol .bangEqual, .binary .notEqual),
    (.symbol .equalEqual, .binary .equal)],
   [(.symbol .greater, .binary .greater),
    (.symbol .greaterEqual, .binary .greaterEqual),
    (.symbol .less, .binary .less),
    (.symbol .lessEqual, .binary .lessEqual)],
   [(.symbol .minus, .binary .subtract), (.symbol .plus, .binary .add)],
   [(.symbol .slash, .binary .divide), (.symbol .star, .binary .multiply)]]

/-- The line of the operator just taken. Only binary operators keep theirs. -/
def operatorLine : DyadicOp → Reads Nat
  | .binary _ => do return (← previous).line
  | .logical _ => return 0

/-- Takes the entry looked at if it is an operator of the table. -/
def takeOperator (table : Table) : Reads (Option (DyadicOp × Nat)) :=
  firstOf (return none) (table.map fun (sign, op) => (sign, do return some (op, ← operatorLine op)))

def operands (table : Table) (operand : Reads Expr) : Nat → Expr → Reads Expr
  | 0, _ => Action.outOfFuel
  | fuel + 1, left => do
    match ← takeOperator table with
    | none => return left
    | some (op, line) =>
      let right ← operand
      operands table operand fuel (op.apply line left right)

def binaryLevel (fuel : Nat) (table : Table) (operand : Reads Expr) : Reads Expr := do
  let first ← operand
  operands table operand fuel first

def primary (expression : Reads Expr) : Reads Expr := do
  match ← peek with
  | .ending _ _ => object .expression
  | .token t =>
    match t.kind with
    | .keyword .falseWord => let _ ← advance; return .literal (.bool false)
    | .keyword .trueWord => let _ ← advance; return .literal (.bool true)
    | .keyword .nilWord => let _ ← advance; return .literal .nil
    | .number value => let _ ← advance; return .literal (.number value)
    | .string value => let _ ← advance; return .literal (.string value)
    | .keyword .thisWord =>
      let id ← freshId
      let _ ← advance
      return .this id t.line
    | .identifier =>
      let id ← freshId
      let _ ← advance
      return .variable id ⟨t.lexeme, t.line⟩
    | .symbol .leftParen =>
      let _ ← advance
      let inner ← expression
      let _ ← consumeSymbol .rightParen .groupEnd
      return .grouping inner
    | _ => object .expression

/-- The arguments of a call, from behind its opening parenthesis. -/
def finishCall (expression : Reads Expr) (fuel : Nat) (callee : Expr) : Reads Expr := do
  let arguments ← separatedOrNone .tooManyArguments expression fuel
  let paren ← consumeSymbol .rightParen .argumentsEnd
  return .call callee paren.line arguments

/-- A property, from behind its dot. -/
def property (object : Expr) : Reads Expr := do
  let name ← consumeName .propertyName
  return .get object name

def suffixes (expression : Reads Expr) : Nat → Expr → Reads Expr
  | 0, _ => Action.outOfFuel
  | fuel + 1, callee =>
    firstOf (return callee)
      [(.symbol .leftParen, do
          suffixes expression fuel (← finishCall expression fuel callee)),
       (.symbol .dot, do suffixes expression fuel (← property callee))]

/-- Takes the entry looked at if it is a prefix operator. -/
def takePrefix : Reads (Option (UnaryOp × Nat)) :=
  firstOf (return none)
    [(.symbol .bang, do return some (.not, (← previous).line)),
     (.symbol .minus, do return some (.negate, (← previous).line))]

def unary (expression : Reads Expr) : Nat → Reads Expr
  | 0 => Action.outOfFuel
  | fuel + 1 => do
    match ← takePrefix with
    | some (op, line) =>
      let operand ← unary expression fuel
      return .unary op line operand
    | none =>
      let callee ← primary expression
      suffixes expression (fuel + 1) callee

/-- The value of an assignment, from behind its equals sign, which is objected to where the target
cannot be assigned to. -/
def assign (expression : Reads Expr) (target : Expr) : Reads Expr := do
  let equals ← previous
  let s ← Action.get
  let value ← expression
  match target with
  | .variable _ name =>
    let id ← freshId
    return .assign id name value
  | .get object name => return .set object name value
  | _ =>
    Action.fail (.objection ⟨.assignmentTarget, s.current - 1, equals.lexeme, equals.line⟩)

def assignment (expression : Reads Expr) (fuel : Nat) : Reads Expr := do
  let target ← tables.foldr (binaryLevel fuel) (unary expression fuel)
  firstOf (return target) [(.symbol .equal, assign expression target)]

def expression : Nat → Reads Expr
  | 0 => Action.outOfFuel
  | fuel + 1 => assignment (expression fuel) (fuel + 1)

/-- An expression that takes all entries up to the end. -/
def wholeExpression (fuel : Nat) : Reads Expr := do
  let e ← expression fuel
  if ← isAtEnd then return e else object .endOfExpression

/-! ## Statements -/

/-- The rules for what may stand inside a statement. -/
structure Nested where
  declaration : Reads Stmt
  statement : Reads Stmt

def blockBody (fuel : Nat) (nested : Nested) : Reads (List Stmt) := do
  let body ← untilBrace nested.declaration fuel
  let _ ← consumeSymbol .rightBrace .blockEnd
  return body

def function (fuel : Nat) (nested : Nested) (kind : FunctionKind) : Reads FunctionDecl := do
  let name ← consumeName (.functionName kind)
  let _ ← consumeSymbol .leftParen (.parametersStart kind)
  let params ← separatedOrNone .tooManyParameters (consumeName .parameterName) fuel
  let _ ← consumeSymbol .rightParen .parametersEnd
  let _ ← consumeSymbol .leftBrace (.bodyStart kind)
  let body ← blockBody fuel nested
  return .mk name params body

def classDeclaration (fuel : Nat) (nested : Nested) : Reads Stmt := do
  let name ← consumeName .className
  let _ ← consumeSymbol .leftBrace .classStart
  let methods ← untilBrace (function fuel nested .method) fuel
  let _ ← consumeSymbol .rightBrace .classEnd
  return .classDecl name methods

def varDeclaration (fuel : Nat) : Reads Stmt := do
  let name ← consumeName .variableName
  if ← accept (.symbol .equal) then
    let initializer ← expression fuel
    let _ ← consumeSymbol .semicolon .variableEnd
    return .varDecl name initializer
  else
    let _ ← consumeSymbol .semicolon .variableEnd
    return .varDecl name (.literal .nil)

def expressionStatement (fuel : Nat) : Reads Stmt := do
  let expr ← expression fuel
  let _ ← consumeSymbol .semicolon .expressionEnd
  return .expression expr

def printStatement (fuel : Nat) : Reads Stmt := do
  let expr ← expression fuel
  let _ ← consumeSymbol .semicolon .printEnd
  return .print expr

def ifStatement (fuel : Nat) (nested : Nested) : Reads Stmt := do
  let _ ← consumeSymbol .leftParen .ifStart
  let condition ← expression fuel
  let _ ← consumeSymbol .rightParen .ifConditionEnd
  let thenBranch ← nested.statement
  if ← accept (.keyword .elseWord) then
    let elseBranch ← nested.statement
    return .ifElse condition thenBranch (some elseBranch)
  else return .ifElse condition thenBranch none

def whileStatement (fuel : Nat) (nested : Nested) : Reads Stmt := do
  let _ ← consumeSymbol .leftParen .whileStart
  let condition ← expression fuel
  let _ ← consumeSymbol .rightParen .whileConditionEnd
  let body ← nested.statement
  return .whileLoop condition body

def forInitializer (fuel : Nat) : Reads (Option Stmt) :=
  firstOf (some <$> expressionStatement fuel)
    [(.symbol .semicolon, return none),
     (.keyword .varWord, some <$> varDeclaration fuel)]

def forStatement (fuel : Nat) (nested : Nested) : Reads Stmt := do
  let _ ← consumeSymbol .leftParen .forStart
  let initializer ← forInitializer fuel
  let condition ←
    if ← check (.symbol .semicolon) then pure (.literal (.bool true)) else expression fuel
  let _ ← consumeSymbol .semicolon .forConditionEnd
  let increment ←
    if ← check (.symbol .rightParen) then pure none else some <$> expression fuel
  let _ ← consumeSymbol .rightParen .forClausesEnd
  let body ← nested.statement
  return desugarFor initializer condition increment body

/-- From behind its keyword. -/
def returnStatement (fuel : Nat) : Reads Stmt := do
  let keyword ← previous
  let value ← if ← check (.symbol .semicolon) then pure none else some <$> expression fuel
  let _ ← consumeSymbol .semicolon .returnEnd
  return .returnValue keyword.line value

/-- From behind its keyword. -/
def breakStatement : Reads Stmt := do
  let keyword ← previous
  let _ ← consumeSymbol .semicolon .breakEnd
  return .breakLoop keyword.line

def statementWith (fuel : Nat) (nested : Nested) : Reads Stmt :=
  firstOf (expressionStatement fuel)
    [(.keyword .forWord, forStatement fuel nested),
     (.keyword .ifWord, ifStatement fuel nested),
     (.keyword .whileWord, whileStatement fuel nested),
     (.keyword .returnWord, returnStatement fuel),
     (.keyword .breakWord, breakStatement),
     (.symbol .leftBrace, .block <$> blockBody fuel nested),
     (.keyword .printWord, printStatement fuel)]

def declarationWith (fuel : Nat) (nested : Nested) : Reads Stmt :=
  firstOf (statementWith fuel nested)
    [(.keyword .classWord, classDeclaration fuel nested),
     (.keyword .funWord, .funDecl <$> function fuel nested .function),
     (.keyword .varWord, varDeclaration fuel)]

mutual

def declaration : Nat → Reads Stmt
  | 0 => Action.outOfFuel
  | fuel + 1 => declarationWith (fuel + 1) ⟨declaration fuel, statement fuel⟩

def statement : Nat → Reads Stmt
  | 0 => Action.outOfFuel
  | fuel + 1 => statementWith (fuel + 1) ⟨declaration fuel, statement fuel⟩

end

/-! ## Slices -/

/-- Goes on to an entry with which a statement may start. -/
def seekBoundary : Nat → Reads Unit
  | 0 => Action.outOfFuel
  | fuel + 1 => do
    if ← isAtEnd then return ()
    else if (← previous).passes (·.isSymbol .semicolon) then return ()
    else if (← peek).passes opensStatement then return ()
    else
      let _ ← advance
      seekBoundary fuel

/-- Skips the entry looked at and what follows it up to a statement boundary. -/
def synchronize (fuel : Nat) : Reads Unit := do
  let _ ← advance
  seekBoundary fuel

/-- One turn of the loop over a slice: where it starts, where its declaration ends, where the next
turn goes on, and the statement that was read or the objection. -/
structure Turn where
  first : Nat
  stopped : Nat
  next : Nat
  outcome : Except Objection Stmt

/-- Reads a declaration. Where there is an objection, what follows is skipped. -/
def turn (fuel : Nat) : Reads Turn := fun s =>
  match declaration fuel s with
  | .ok stmt s' => .ok ⟨s.current, s'.current, s'.current, .ok stmt⟩ s'
  | .error (.objection o) s' =>
    (synchronize fuel >>= fun _ s'' => .ok ⟨s.current, s'.current, s''.current, .error o⟩ s'') s'
  | .error .outOfRange s' => .error .outOfRange s'
  | .outOfFuel => .outOfFuel

def turns (fuel : Nat) : Nat → Reads (List Turn)
  | 0 => Action.outOfFuel
  | count + 1 => do
    if ← isAtEnd then return []
    else
      let first ← turn fuel
      let others ← turns fuel count
      return first :: others

/-- All turns over a slice. No rule uses up fuel for each of its entries. -/
def parse (entries : List Entry) (nextId : NodeId) : Outcome Halt SliceParser (List Turn) :=
  turns entries.length entries.length ⟨entries, 0, nextId⟩

def statements (ts : List Turn) : List Stmt :=
  ts.filterMap fun t => match t.outcome with
    | .ok stmt => some stmt
    | .error _ => none

def objections (ts : List Turn) : List Objection :=
  ts.filterMap fun t => match t.outcome with
    | .ok _ => none
    | .error o => some o

/-- The statements of a slice, or every objection to it. -/
def result (ts : List Turn) : Except (List Objection) (List Stmt) :=
  match objections ts with
  | [] => .ok (statements ts)
  | os => .error os

end Indexed

end Parsing

end LoxLang
