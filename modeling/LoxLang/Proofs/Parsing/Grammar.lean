import LoxLang.Parsing.Program
import LoxLang.Proofs.Program

/-!
# The grammar

Which token lists are expressions, statements and programs, and the tree of each, with every node
identity zero. No rule looks ahead or goes back: a rule puts the tokens of its parts together.

* `Operator`: the operators between two operands, six levels of them, all grouped to the left;
* `Expression`: expressions, by the form that stands at the place;
* `Statement`: declarations and statements. Its flag says whether the statement ends with an `if`
  that has no `else`; the branch in front of an `else` must not, so that an `else` belongs to the
  nearest `if`;
* `Source`: whole programs.
-/

namespace LoxLang

/-- The name an identifier token stands for. -/
def Token.identifier (t : Token) : Identifier := ⟨t.lexeme, t.line⟩

namespace Grammar

open Parsing (DyadicOp)

/-- The levels of the operators between two operands, the loosest first. -/
inductive Precedence
  | or | and | equality | comparison | term | factor

/-- What an expression can be required to be. -/
inductive Form
  | expression
  | level (p : Precedence)
  | unary
  | call
  | primary

/-- What the operands of a level are, but for the leftmost one of several. -/
def Precedence.operand : Precedence → Form
  | .or => .level .and
  | .and => .level .equality
  | .equality => .level .comparison
  | .comparison => .level .term
  | .term => .level .factor
  | .factor => .unary

inductive Operator : Precedence → TokenKind → DyadicOp → Prop
  | or : Operator .or (.keyword .orWord) (.logical .or)
  | and : Operator .and (.keyword .andWord) (.logical .and)
  | notEqual : Operator .equality (.symbol .bangEqual) (.binary .notEqual)
  | equal : Operator .equality (.symbol .equalEqual) (.binary .equal)
  | greater : Operator .comparison (.symbol .greater) (.binary .greater)
  | greaterEqual : Operator .comparison (.symbol .greaterEqual) (.binary .greaterEqual)
  | less : Operator .comparison (.symbol .less) (.binary .less)
  | lessEqual : Operator .comparison (.symbol .lessEqual) (.binary .lessEqual)
  | subtract : Operator .term (.symbol .minus) (.binary .subtract)
  | add : Operator .term (.symbol .plus) (.binary .add)
  | divide : Operator .factor (.symbol .slash) (.binary .divide)
  | multiply : Operator .factor (.symbol .star) (.binary .multiply)

inductive UnaryOperator : TokenKind → UnaryOp → Prop
  | not : UnaryOperator (.symbol .bang) .not
  | negate : UnaryOperator (.symbol .minus) .negate

/-- The tokens that are a literal by themselves. -/
inductive IsLiteral : TokenKind → Literal → Prop
  | number (value : Float) : IsLiteral (.number value) (.number value)
  | string (contents : String) : IsLiteral (.string contents) (.string contents)
  | trueWord : IsLiteral (.keyword .trueWord) (.bool true)
  | falseWord : IsLiteral (.keyword .falseWord) (.bool false)
  | nilWord : IsLiteral (.keyword .nilWord) .nil

/-- One or more items with commas between them. -/
inductive Separated : List (List Token) → List Token → Prop
  | one (item : List Token) : Separated [item] item
  | more {item tokens : List Token} {items : List (List Token)} {comma : Token} :
      comma.kind = .symbol .comma → Separated items tokens →
      Separated (item :: items) (item ++ comma :: tokens)

/-- There is a token for every item but the last. -/
theorem Separated.length_le {items : List (List Token)} {used : List Token}
    (h : Separated items used) : items.length ≤ used.length + 1 := by
  induction h with
  | one item => simp
  | more _ _ ih =>
    simp only [List.length_cons, List.length_append]
    omega

theorem Separated.starts {item : List Token} {items : List (List Token)} {used : List Token}
    (h : Separated (item :: items) used) : ∃ more, used = item ++ more := by
  cases h with
  | one => exact ⟨[], by simp⟩
  | more => exact ⟨_, rfl⟩

/-- No items, or some with commas between them. -/
inductive Listed : List (List Token) → List Token → Prop
  | none : Listed [] []
  | some {items : List (List Token)} {tokens : List Token} :
      Separated items tokens → Listed items tokens

/-- An expression with the tokens it is made of. -/
structure ExprPhrase where
  tokens : List Token
  expr : Expr

inductive Expression : Form → List Token → Expr → Prop
  /-- `IDENT "=" assignment` -/
  | assign {name equal : Token} {tokens : List Token} {value : Expr} :
      name.kind = .identifier → equal.kind = .symbol .equal →
      Expression .expression tokens value →
      Expression .expression (name :: equal :: tokens) (.assign 0 name.identifier value)
  /-- `call "." IDENT "=" assignment` -/
  | set {dot name equal : Token} {front tokens : List Token} {object value : Expr} :
      Expression .call front object → dot.kind = .symbol .dot → name.kind = .identifier →
      equal.kind = .symbol .equal → Expression .expression tokens value →
      Expression .expression (front ++ dot :: name :: equal :: tokens)
        (.set object name.identifier value)
  | plain {tokens : List Token} {e : Expr} :
      Expression (.level .or) tokens e → Expression .expression tokens e
  | operand {p : Precedence} {tokens : List Token} {e : Expr} :
      Expression p.operand tokens e → Expression (.level p) tokens e
  /-- An operation has the line of its operator. -/
  | operation {p : Precedence} {front tokens : List Token} {left right : Expr} {sign : Token}
      {op : DyadicOp} :
      Expression (.level p) front left → Operator p sign.kind op →
      Expression p.operand tokens right →
      Expression (.level p) (front ++ sign :: tokens) (op.apply sign.line left right)
  | prefixed {sign : Token} {tokens : List Token} {op : UnaryOp} {operand : Expr} :
      UnaryOperator sign.kind op → Expression .unary tokens operand →
      Expression .unary (sign :: tokens) (.unary op sign.line operand)
  | unprefixed {tokens : List Token} {e : Expr} :
      Expression .call tokens e → Expression .unary tokens e
  | uncalled {tokens : List Token} {e : Expr} :
      Expression .primary tokens e → Expression .call tokens e
  /-- A call has the line of its closing parenthesis. -/
  | call {start finish : Token} {front tokens : List Token} {callee : Expr}
      {arguments : List ExprPhrase} :
      Expression .call front callee → start.kind = .symbol .leftParen →
      (∀ a ∈ arguments, Expression .expression a.tokens a.expr) →
      Listed (arguments.map (·.tokens)) tokens → arguments.length ≤ 255 →
      finish.kind = .symbol .rightParen →
      Expression .call (front ++ start :: (tokens ++ [finish]))
        (.call callee finish.line (arguments.map (·.expr)))
  | get {dot name : Token} {front : List Token} {object : Expr} :
      Expression .call front object → dot.kind = .symbol .dot → name.kind = .identifier →
      Expression .call (front ++ [dot, name]) (.get object name.identifier)
  | literal {t : Token} {value : Literal} :
      IsLiteral t.kind value → Expression .primary [t] (.literal value)
  | this {t : Token} :
      t.kind = .keyword .thisWord → Expression .primary [t] (.this 0 t.line)
  | name {t : Token} :
      t.kind = .identifier → Expression .primary [t] (.variable 0 t.identifier)
  | grouping {start finish : Token} {tokens : List Token} {inner : Expr} :
      start.kind = .symbol .leftParen → Expression .expression tokens inner →
      finish.kind = .symbol .rightParen →
      Expression .primary (start :: (tokens ++ [finish])) (.grouping inner)

/-- A variable is a single identifier, whatever form it stands for. -/
theorem Expression.of_variable {form : Form} {tokens : List Token} {id : NodeId}
    {name : Identifier} (h : Expression form tokens (.variable id name)) :
    ∃ t, tokens = [t] ∧ t.kind = .identifier ∧ name = t.identifier := by
  generalize he : Expr.variable id name = e at h
  induction h with
  | plain _ ih | operand _ ih | unprefixed _ ih | uncalled _ ih => exact ih he
  | name ht =>
    cases he
    exact ⟨_, rfl, ht, rfl⟩
  | @operation _ _ _ _ _ _ op => cases op <;> cases he
  | _ => cases he

/-- An access is a call, a dot and an identifier, whatever form it stands for. -/
theorem Expression.of_get {form : Form} {tokens : List Token} {object : Expr}
    {name : Identifier} (h : Expression form tokens (.get object name)) :
    ∃ front dot t, tokens = front ++ [dot, t] ∧ Expression .call front object ∧
      dot.kind = .symbol .dot ∧ t.kind = .identifier ∧ name = t.identifier := by
  generalize he : Expr.get object name = e at h
  induction h with
  | plain _ ih | operand _ ih | unprefixed _ ih | uncalled _ ih => exact ih he
  | get hobject hdot ht =>
    cases he
    exact ⟨_, _, _, rfl, hobject, hdot, ht, rfl⟩
  | @operation _ _ _ _ _ _ op => cases op <;> cases he
  | _ => cases he

/-- `expression?` -/
inductive OptionalExpression : List Token → Option Expr → Prop
  | none : OptionalExpression [] none
  | some {tokens : List Token} {e : Expr} :
      Expression .expression tokens e → OptionalExpression tokens (some e)

/-- `expression ";"` -/
inductive Terminated : List Token → Expr → Prop
  | mk {tokens : List Token} {e : Expr} {semicolon : Token} :
      Expression .expression tokens e → semicolon.kind = .symbol .semicolon →
      Terminated (tokens ++ [semicolon]) e

/-- `"var" IDENT ( "=" expression )? ";"` -/
inductive VarDeclaration : List Token → Stmt → Prop
  | bare {word name semicolon : Token} :
      word.kind = .keyword .varWord → name.kind = .identifier →
      semicolon.kind = .symbol .semicolon →
      VarDeclaration [word, name, semicolon] (.varDecl name.identifier (.literal .nil))
  | initialized {word name equal : Token} {tokens : List Token} {e : Expr} :
      word.kind = .keyword .varWord → name.kind = .identifier → equal.kind = .symbol .equal →
      Terminated tokens e →
      VarDeclaration (word :: name :: equal :: tokens) (.varDecl name.identifier e)

/-- What stands before the condition of a `for`, with its semicolon. -/
inductive ForStart : List Token → Option Stmt → Prop
  | none {semicolon : Token} :
      semicolon.kind = .symbol .semicolon → ForStart [semicolon] none
  | declaration {tokens : List Token} {s : Stmt} :
      VarDeclaration tokens s → ForStart tokens (some s)
  | expression {tokens : List Token} {e : Expr} :
      Terminated tokens e → ForStart tokens (some (.expression e))

/-- `IDENT "(" parameters? ")" block`, where the tokens and statements in the block are given. -/
inductive Function (body : List Token) (statements : List Stmt) :
    List Token → FunctionDecl → Prop
  | mk {name start finish opening closing : Token} {params : List Token} {tokens : List Token} :
      name.kind = .identifier → start.kind = .symbol .leftParen →
      (∀ p ∈ params, p.kind = .identifier) → Listed (params.map ([·])) tokens →
      params.length ≤ 255 → finish.kind = .symbol .rightParen →
      opening.kind = .symbol .leftBrace → closing.kind = .symbol .rightBrace →
      Function body statements
        (name :: start :: (tokens ++ finish :: opening :: (body ++ [closing])))
        (.mk name.identifier (params.map (·.identifier)) statements)

/-- A declaration with the tokens it is made of, and whether it ends with an `if` that has no
`else`. -/
structure Phrase where
  tokens : List Token
  stmt : Stmt
  dangling : Bool

/-- The tokens of phrases that follow each other. -/
def tokensOf (phrases : List Phrase) : List Token := phrases.flatMap (·.tokens)

/-- A method with the tokens it is made of, and the phrases of its body. -/
structure Method where
  tokens : List Token
  function : FunctionDecl
  body : List Phrase

/-- A statement is what can be a branch of an `if` or the body of a loop; a declaration is what
can stand in a block. -/
inductive Kind
  | declaration | statement

inductive Statement : Kind → Bool → List Token → Stmt → Prop
  | classDecl {word name opening closing : Token} {methods : List Method} :
      word.kind = .keyword .classWord → name.kind = .identifier →
      opening.kind = .symbol .leftBrace →
      (∀ m ∈ methods, ∀ d ∈ m.body, Statement .declaration d.dangling d.tokens d.stmt) →
      (∀ m ∈ methods, Function (tokensOf m.body) (m.body.map (·.stmt)) m.tokens m.function) →
      closing.kind = .symbol .rightBrace →
      Statement .declaration false
        (word :: name :: opening :: (methods.flatMap (·.tokens) ++ [closing]))
        (.classDecl name.identifier (methods.map (·.function)))
  | funDecl {word : Token} {tokens : List Token} {f : FunctionDecl} {body : List Phrase} :
      word.kind = .keyword .funWord →
      (∀ d ∈ body, Statement .declaration d.dangling d.tokens d.stmt) →
      Function (tokensOf body) (body.map (·.stmt)) tokens f →
      Statement .declaration false (word :: tokens) (.funDecl f)
  | varDecl {tokens : List Token} {s : Stmt} :
      VarDeclaration tokens s → Statement .declaration false tokens s
  | statement {dangling : Bool} {tokens : List Token} {s : Stmt} :
      Statement .statement dangling tokens s → Statement .declaration dangling tokens s
  | expression {tokens : List Token} {e : Expr} :
      Terminated tokens e → Statement .statement false tokens (.expression e)
  | print {word : Token} {tokens : List Token} {e : Expr} :
      word.kind = .keyword .printWord → Terminated tokens e →
      Statement .statement false (word :: tokens) (.print e)
  | whileLoop {dangling : Bool} {word start finish : Token} {tokens bodyTokens : List Token}
      {condition : Expr} {body : Stmt} :
      word.kind = .keyword .whileWord → start.kind = .symbol .leftParen →
      Expression .expression tokens condition → finish.kind = .symbol .rightParen →
      Statement .statement dangling bodyTokens body →
      Statement .statement dangling (word :: start :: (tokens ++ finish :: bodyTokens))
        (.whileLoop condition body)
  | forLoop {dangling : Bool} {word start semicolon finish : Token}
      {first second third bodyTokens : List Token} {initializer : Option Stmt}
      {condition increment : Option Expr} {body : Stmt} :
      word.kind = .keyword .forWord → start.kind = .symbol .leftParen →
      ForStart first initializer → OptionalExpression second condition →
      semicolon.kind = .symbol .semicolon → OptionalExpression third increment →
      finish.kind = .symbol .rightParen → Statement .statement dangling bodyTokens body →
      Statement .statement dangling
        (word :: start :: (first ++ (second ++ semicolon :: (third ++ finish :: bodyTokens))))
        (Parsing.desugarFor initializer (condition.getD (.literal (.bool true))) increment body)
  | ifThen {dangling : Bool} {word start finish : Token} {tokens thenTokens : List Token}
      {condition : Expr} {thenBranch : Stmt} :
      word.kind = .keyword .ifWord → start.kind = .symbol .leftParen →
      Expression .expression tokens condition → finish.kind = .symbol .rightParen →
      Statement .statement dangling thenTokens thenBranch →
      Statement .statement true (word :: start :: (tokens ++ finish :: thenTokens))
        (.ifElse condition thenBranch none)
  | ifElse {dangling : Bool} {word start finish otherwise : Token}
      {tokens thenTokens elseTokens : List Token} {condition : Expr}
      {thenBranch elseBranch : Stmt} :
      word.kind = .keyword .ifWord → start.kind = .symbol .leftParen →
      Expression .expression tokens condition → finish.kind = .symbol .rightParen →
      Statement .statement false thenTokens thenBranch →
      otherwise.kind = .keyword .elseWord → Statement .statement dangling elseTokens elseBranch →
      Statement .statement dangling
        (word :: start :: (tokens ++ finish :: (thenTokens ++ otherwise :: elseTokens)))
        (.ifElse condition thenBranch (some elseBranch))
  | block {opening closing : Token} {body : List Phrase} :
      opening.kind = .symbol .leftBrace →
      (∀ d ∈ body, Statement .declaration d.dangling d.tokens d.stmt) →
      closing.kind = .symbol .rightBrace →
      Statement .statement false (opening :: (tokensOf body ++ [closing]))
        (.block (body.map (·.stmt)))
  | returnValue {word semicolon : Token} {tokens : List Token} {value : Option Expr} :
      word.kind = .keyword .returnWord → OptionalExpression tokens value →
      semicolon.kind = .symbol .semicolon →
      Statement .statement false (word :: (tokens ++ [semicolon])) (.returnValue word.line value)
  | breakLoop {word semicolon : Token} :
      word.kind = .keyword .breakWord → semicolon.kind = .symbol .semicolon →
      Statement .statement false [word, semicolon] (.breakLoop word.line)

/-- `declaration*` -/
inductive Source : List Token → Program → Prop
  | mk {body : List Phrase} :
      (∀ d ∈ body, Statement .declaration d.dangling d.tokens d.stmt) →
      Source (tokensOf body) (body.map (·.stmt))

end Grammar

end LoxLang
