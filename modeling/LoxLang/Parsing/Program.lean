import LoxLang.Parsing.Statement

/-!
# Programs

* `synchronize`: where reading goes on after an error;
* `Program.parse`: the statements of a token stream, or every syntax error in it;
* `Expr.parse`: the one expression a token stream holds.

Both also give the next free node identity: a failed attempt keeps the identities it took.
-/

namespace LoxLang

namespace Parsing

/-- A token that opens a statement, where reading can go on after an error. -/
def opensStatement (t : Token) : Bool :=
  match t.kind with
  | .keyword .classWord | .keyword .funWord | .keyword .varWord | .keyword .forWord
  | .keyword .ifWord | .keyword .whileWord | .keyword .printWord | .keyword .returnWord
  | .keyword .breakWord => true
  | _ => false

/-- Drops tokens up to one that opens a statement, or up to and with a semicolon.
`behindSemicolon` says whether the last token dropped was one. -/
def dropToBoundary (behindSemicolon : Bool) : List Token → List Token
  | [] => []
  | t :: rest =>
    if behindSemicolon || opensStatement t then t :: rest
    else dropToBoundary (t.isSymbol .semicolon) rest

/-- Drops the offending token and what follows it up to a statement boundary. -/
def synchronize : List Token → List Token
  | [] => []
  | t :: rest => dropToBoundary (t.isSymbol .semicolon) rest

/-- What reading a token list gives: statements, refusals, and the next free node identity. -/
structure Reading where
  statements : List Stmt
  refusals : List Refusal
  nextId : NodeId

/-- Reads declarations to the end, going on behind the next statement boundary after a refusal.
`turns` bounds the number of declarations, `fuel` is for each of them. -/
def readAll (fuel : Nat) : Nat → Cursor → Option Reading
  | 0, _ => none
  | turns + 1, c =>
    if c.rest.isEmpty then some ⟨[], [], c.nextId⟩
    else
      match declaration fuel c with
      | .ok s c' => do
        let r ← readAll fuel turns c'
        some { r with statements := s :: r.statements }
      | .error refusal c' => do
        let r ← readAll fuel turns { c' with rest := synchronize c'.rest }
        some { r with refusals := refusal :: r.refusals }
      | .outOfFuel => none

/-- Fuel that no rule uses up on these tokens. -/
def fuelFor (tokens : List Token) : Nat := tokens.length + 1

end Parsing

/-- A program or its syntax errors, and the next free node identity. -/
def Program.parse (source : TokenStream) (nextId : NodeId) :
    Except (List SyntaxError) Program × NodeId :=
  let fuel := Parsing.fuelFor source.tokens
  match Parsing.readAll fuel fuel ⟨source.tokens, nextId⟩ with
  | some ⟨statements, [], next⟩ => (.ok statements, next)
  | some ⟨_, refusals, next⟩ => (.error (refusals.map (·.error source.endLine)), next)
  | none => (.error [], nextId)

/-- A single expression or its syntax error, and the next free node identity. -/
def Expr.parse (source : TokenStream) (nextId : NodeId) :
    Except SyntaxError Expr × NodeId :=
  match Parsing.wholeExpression (Parsing.fuelFor source.tokens) ⟨source.tokens, nextId⟩ with
  | .ok e c => (.ok e, c.nextId)
  | .error r c => (.error (r.error source.endLine), c.nextId)
  | .outOfFuel => (.error ⟨.expression, none, source.endLine⟩, nextId)

end LoxLang
