import LoxLang.Action
import LoxLang.Program
import LoxLang.Token.Scan

/-!
# Reading tokens

* `SyntaxFault`: everything a grammar rule can object to, with its wording;
* `Cursor`, `Parser`: the tokens still to read and the next free node identity, and actions on
  them; a refusal remembers the tokens from the offending one on;
* the steps of the grammar rules: look at the next token, take it, take it if it fits, or refuse.
-/

namespace LoxLang

/-- A function is named by its keyword or stands in a class. -/
inductive FunctionKind
  | function | method
  deriving DecidableEq, Repr

def FunctionKind.noun : FunctionKind → String
  | function => "function"
  | method => "method"

/-- What a grammar rule objects to. -/
inductive SyntaxFault
  | className | classStart | classEnd
  | functionName (kind : FunctionKind) | parametersStart (kind : FunctionKind)
  | tooManyParameters | parameterName | parametersEnd | bodyStart (kind : FunctionKind)
  | variableName | variableEnd
  | forStart | forConditionEnd | forClausesEnd
  | ifStart | ifConditionEnd
  | whileStart | whileConditionEnd
  | printEnd | expressionEnd | returnEnd | breakEnd | blockEnd
  | assignmentTarget | propertyName | tooManyArguments | argumentsEnd
  | expression | groupEnd | endOfExpression
  deriving DecidableEq, Repr

namespace SyntaxFault

def message : SyntaxFault → String
  | className => "Expect class name."
  | classStart => "Expect '\x7b' before class body."
  | classEnd => "Expect '\x7d' after class body."
  | functionName kind => "Expect " ++ kind.noun ++ " name."
  | parametersStart kind => "Expect '(' after " ++ kind.noun ++ " name."
  | tooManyParameters => "Can't have more than 255 parameters."
  | parameterName => "Expect parameter name."
  | parametersEnd => "Expect ')' after parameters."
  | bodyStart kind => "Expect '\x7b' before " ++ kind.noun ++ " body."
  | variableName => "Expect variable name."
  | variableEnd => "Expect ';' after variable declaration."
  | forStart => "Expect '(' after 'for'."
  | forConditionEnd => "Expect ';' after loop condition."
  | forClausesEnd => "Expect ')' after for clauses."
  | ifStart => "Expect '(' after 'if'."
  | ifConditionEnd => "Expect ')' after if condition."
  | whileStart => "Expect '(' after 'while'."
  | whileConditionEnd => "Expect ')' after condition."
  | printEnd => "Expect ';' after value."
  | expressionEnd => "Expect ';' after expression."
  | returnEnd => "Expect ';' after return value."
  | breakEnd => "Expect ';' after 'break'."
  | blockEnd => "Expect '\x7d' after block."
  | assignmentTarget => "Invalid assignment target."
  | propertyName => "Expect property name after '.'."
  | tooManyArguments => "Can't have more than 255 arguments."
  | argumentsEnd => "Expect ')' after arguments."
  | expression => "Expect expression."
  | groupEnd => "Expect ')' after expression."
  | endOfExpression => "Expect end of expression."

end SyntaxFault

/-- A fault and the token it was found at; `none` is the end of the source. -/
structure SyntaxError where
  fault : SyntaxFault
  lexeme : Option String
  line : Nat
  deriving DecidableEq, Repr

namespace SyntaxError

def place (e : SyntaxError) : String :=
  match e.lexeme with
  | none => " at end"
  | some lexeme => " at '" ++ lexeme ++ "'"

def message (e : SyntaxError) : String :=
  "[line " ++ digitsOf e.line ++ "] Error" ++ e.place ++ ": " ++ e.fault.message

end SyntaxError

namespace Parsing

/-- A fault and the tokens from the offending one on. -/
structure Refusal where
  fault : SyntaxFault
  place : List Token

/-- The refusal as reported for a source that ends on the given line. -/
def Refusal.error (endLine : Nat) (r : Refusal) : SyntaxError :=
  match r.place with
  | [] => ⟨r.fault, none, endLine⟩
  | t :: _ => ⟨r.fault, some t.lexeme, t.line⟩

/-- The tokens still to read and the next free node identity. -/
structure Cursor where
  rest : List Token
  nextId : NodeId

abbrev Parser (α : Type) : Type := Action Refusal Cursor α

/-- The tokens still to read. -/
@[inline] def remaining : Parser (List Token) := fun c => .ok c.rest c

/-- The kind of the next token, if there is one. -/
@[inline] def nextKind : Parser (Option TokenKind) := fun c => .ok (c.rest.head?.map (·.kind)) c

/-- Objects at the given place. -/
@[inline] def refuseAt {α : Type} (place : List Token) (fault : SyntaxFault) : Parser α :=
  Action.fail ⟨fault, place⟩

/-- Objects at the next token. -/
@[inline] def refuse {α : Type} (fault : SyntaxFault) : Parser α :=
  fun c => .error ⟨fault, c.rest⟩ c

/-- Goes on behind the next token. -/
@[inline] def skip : Parser Unit := Action.modify fun c => { c with rest := c.rest.tail }

/-- Takes the next token if the test accepts it. -/
@[inline] def takeIf (test : Token → Bool) : Parser (Option Token) := fun c =>
  match c.rest with
  | [] => .ok none c
  | t :: rest => if test t then .ok (some t) { c with rest } else .ok none c

/-- Takes the next token if it is this symbol. -/
@[inline] def accept (s : Symbol) : Parser (Option Token) := takeIf (·.isSymbol s)

/-- Whether the next token is this symbol. -/
@[inline] def isNext (s : Symbol) : Parser Bool := fun c => .ok (c.rest.head?.any (·.isSymbol s)) c

/-- Takes the next token, which the test must accept. -/
@[inline] def expectIf (test : Token → Bool) (fault : SyntaxFault) : Parser Token := fun c =>
  match c.rest with
  | [] => .error ⟨fault, []⟩ c
  | t :: rest => if test t then .ok t { c with rest } else .error ⟨fault, t :: rest⟩ c

/-- Takes the next token, which must be this symbol. -/
@[inline] def expect (s : Symbol) (fault : SyntaxFault) : Parser Token :=
  expectIf (·.isSymbol s) fault

/-- Takes the next token, which must be an identifier. -/
@[inline] def expectName (fault : SyntaxFault) : Parser Identifier := do
  let t ← expectIf (fun t => t.kind matches .identifier) fault
  return ⟨t.lexeme, t.line⟩

/-- A node identity not given out before. -/
@[inline] def freshId : Parser NodeId := fun c => .ok c.nextId { c with nextId := c.nextId + 1 }

/-- At most this many parameters are declared and arguments passed. -/
def maxArguments : Nat := 255

/-- One or more items with commas between them, when `count` of them have been read. -/
def separated {α : Type} (tooMany : SyntaxFault) (item : Parser α) : Nat → Nat → Parser (List α)
  | 0, _ => Action.outOfFuel
  | fuel + 1, count => do
    if maxArguments ≤ count then refuse tooMany
    else
      let first ← item
      match ← accept .comma with
      | none => return [first]
      | some _ =>
        let others ← separated tooMany item fuel (count + 1)
        return first :: others

/-- The items between parentheses: none, or some with commas between them. -/
def separatedOrNone {α : Type} (tooMany : SyntaxFault) (item : Parser α) (fuel : Nat) :
    Parser (List α) := do
  if ← isNext .rightParen then return [] else separated tooMany item fuel 0

end Parsing

end LoxLang
