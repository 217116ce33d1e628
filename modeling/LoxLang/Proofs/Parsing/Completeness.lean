import LoxLang.Proofs.Parsing.Soundness

/-!
# What is in the grammar is read

* `Form.opens`, `Kind.opens`: what an expression or a statement can start with;
* `Form.continues`: what cannot stand behind an expression of a form, because its rule would take
  it;
* `expression_accepts`, `statement_accepts`: tokens with a derivation are read into its tree when
  what follows does not continue them;
* `parse_accepts_iff_source`: the parser accepts exactly the programs of the grammar.
-/

namespace LoxLang

namespace Grammar

/-- What a primary expression starts with. -/
def opensPrimary : TokenKind → Bool
  | .number _ | .string _ | .identifier | .symbol .leftParen => true
  | .keyword .trueWord | .keyword .falseWord | .keyword .nilWord | .keyword .thisWord => true
  | _ => false

/-- What a prefix operation or a primary expression starts with. -/
def opensUnary : TokenKind → Bool
  | .symbol .bang | .symbol .minus => true
  | kind => opensPrimary kind

/-- What an expression of the form starts with. -/
def Form.opens : Form → TokenKind → Bool
  | .primary | .call => opensPrimary
  | .expression | .level _ | .unary => opensUnary

theorem opensUnary_of_primary {kind : TokenKind} (h : opensPrimary kind = true) :
    opensUnary kind = true := by
  unfold opensUnary
  split <;> first | rfl | exact h

theorem Form.opens_operand (p : Precedence) : p.operand.opens = opensUnary := by
  cases p <;> rfl

/-- Every expression starts with a token, which says that one starts. -/
theorem Expression.starts {form : Form} {tokens : List Token} {e : Expr}
    (h : Expression form tokens e) : ∃ t rest, tokens = t :: rest ∧ form.opens t.kind = true := by
  induction h with
  | assign hname => exact ⟨_, _, rfl, by rw [hname]; rfl⟩
  | set _ _ _ _ _ ih =>
    obtain ⟨t, rest, rfl, ht⟩ := ih
    exact ⟨t, _, rfl, opensUnary_of_primary ht⟩
  | plain _ ih =>
    obtain ⟨t, rest, rfl, ht⟩ := ih
    exact ⟨t, _, rfl, ht⟩
  | @operand p _ _ _ ih =>
    obtain ⟨t, rest, rfl, ht⟩ := ih
    rw [Form.opens_operand] at ht
    exact ⟨t, _, rfl, ht⟩
  | operation _ _ _ ih =>
    obtain ⟨t, rest, rfl, ht⟩ := ih
    exact ⟨t, _, rfl, ht⟩
  | prefixed hsign =>
    refine ⟨_, _, rfl, ?_⟩
    generalize Token.kind _ = kind at hsign
    cases hsign <;> rfl
  | unprefixed _ ih =>
    obtain ⟨t, rest, rfl, ht⟩ := ih
    exact ⟨t, _, rfl, opensUnary_of_primary ht⟩
  | uncalled _ ih => exact ih
  | call _ _ _ _ _ _ ih =>
    obtain ⟨t, rest, rfl, ht⟩ := ih
    exact ⟨t, _, rfl, ht⟩
  | get _ _ _ ih =>
    obtain ⟨t, rest, rfl, ht⟩ := ih
    exact ⟨t, _, rfl, ht⟩
  | literal hvalue =>
    refine ⟨_, _, rfl, ?_⟩
    generalize Token.kind _ = kind at hvalue
    cases hvalue <;> rfl
  | this ht => exact ⟨_, _, rfl, by rw [ht]; rfl⟩
  | name ht => exact ⟨_, _, rfl, by rw [ht]; rfl⟩
  | grouping hstart => exact ⟨_, _, rfl, by rw [hstart]; rfl⟩

/-- What a declaration or a statement starts with. -/
def Kind.opens : Kind → TokenKind → Bool
  | .declaration, .keyword .classWord | .declaration, .keyword .funWord
  | .declaration, .keyword .varWord => true
  | _, .keyword .forWord | _, .keyword .ifWord | _, .keyword .whileWord | _, .keyword .returnWord
  | _, .keyword .breakWord | _, .keyword .printWord | _, .symbol .leftBrace => true
  | _, kind => opensUnary kind

theorem Kind.opens_of_statement {kind : TokenKind} (h : Kind.statement.opens kind = true) :
    Kind.declaration.opens kind = true := by
  cases kind with
  | keyword k => cases k <;> first | rfl | cases h
  | symbol s => cases s <;> first | rfl | cases h
  | _ => rfl

theorem Kind.opens_of_unary {kind : TokenKind} (h : opensUnary kind = true) :
    Kind.statement.opens kind = true := by
  cases kind with
  | keyword k => cases k <;> first | rfl | cases h
  | symbol s => cases s <;> first | rfl | cases h
  | _ => rfl

theorem Terminated.starts {tokens : List Token} {e : Expr} (h : Terminated tokens e) :
    ∃ t rest, tokens = t :: rest ∧ opensUnary t.kind = true := by
  obtain ⟨he, _⟩ := h
  obtain ⟨t, rest, rfl, ht⟩ := he.starts
  exact ⟨t, _, rfl, ht⟩

theorem VarDeclaration.starts {tokens : List Token} {s : Stmt} (h : VarDeclaration tokens s) :
    ∃ t rest, tokens = t :: rest ∧ t.kind = .keyword .varWord := by
  cases h with
  | bare hword => exact ⟨_, _, rfl, hword⟩
  | initialized hword => exact ⟨_, _, rfl, hword⟩

theorem Function.starts {body : List Token} {statements : List Stmt} {tokens : List Token}
    {f : FunctionDecl} (h : Function body statements tokens f) :
    ∃ t rest, tokens = t :: rest ∧ t.kind = .identifier := by
  obtain ⟨hname⟩ := h
  exact ⟨_, _, rfl, hname⟩

/-- Every statement starts with a token, which says that one starts. -/
theorem Statement.starts {kind : Kind} {dangling : Bool} {tokens : List Token} {s : Stmt}
    (h : Statement kind dangling tokens s) :
    ∃ t rest, tokens = t :: rest ∧ kind.opens t.kind = true := by
  induction h with
  | varDecl h =>
    obtain ⟨t, rest, rfl, ht⟩ := h.starts
    exact ⟨t, rest, rfl, by rw [ht]; rfl⟩
  | statement _ ih =>
    obtain ⟨t, rest, rfl, ht⟩ := ih
    exact ⟨t, rest, rfl, Kind.opens_of_statement ht⟩
  | expression h =>
    obtain ⟨t, rest, rfl, ht⟩ := h.starts
    exact ⟨t, rest, rfl, Kind.opens_of_unary ht⟩
  | classDecl hword | funDecl hword | print hword | whileLoop hword | forLoop hword
  | ifThen hword | ifElse hword | block hword | returnValue hword | breakLoop hword =>
    exact ⟨_, _, rfl, by rw [hword]; rfl⟩

/-- What a call goes on with. -/
def continuesCall : TokenKind → Bool
  | .symbol .leftParen | .symbol .dot => true
  | _ => false

/-- The token kind is an operator of one of the levels. -/
def isOperatorOf (levels : List Parsing.Level) (kind : TokenKind) : Bool :=
  levels.any fun level => (level kind).isSome

/-- What the rule of a form takes behind an expression of that form. -/
def Form.continues : Form → TokenKind → Bool
  | .primary, _ => false
  | .call, kind | .unary, kind => continuesCall kind
  | .level p, kind => continuesCall kind || isOperatorOf (Parsing.levels.drop p.rank) kind
  | .expression, kind =>
    continuesCall kind || isOperatorOf Parsing.levels kind || kind matches .symbol .equal

/-- What follows does not continue an expression of the form. -/
def Form.StopsAt (form : Form) (rest : List Token) : Prop :=
  ∀ t ∈ rest.head?, form.continues t.kind = false

theorem Form.StopsAt.cons {form : Form} {t : Token} {rest : List Token} {kind : TokenKind}
    (ht : t.kind = kind) (h : form.continues kind = false) : form.StopsAt (t :: rest) := by
  intro t' ht'
  cases ht'
  rw [ht]
  exact h

theorem Form.StopsAt.plain {rest : List Token} (h : Form.expression.StopsAt rest) :
    (Form.level .or).StopsAt rest :=
  fun t ht => (Bool.or_eq_false_iff.mp (h t ht)).1

theorem Form.continues_level (p : Precedence) (kind : TokenKind) :
    (Form.level p).continues kind = (p.operand.continues kind || (p.level kind).isSome) := by
  cases p <;> simp only [continues, Precedence.operand, Precedence.rank, Precedence.level,
    isOperatorOf, Parsing.levels] <;> simp [Bool.or_assoc, Bool.or_comm, Bool.or_left_comm]

theorem Form.StopsAt.operand {p : Precedence} {rest : List Token}
    (h : (Form.level p).StopsAt rest) : p.operand.StopsAt rest := by
  intro t ht
  have := h t ht
  rw [Form.continues_level] at this
  exact (Bool.or_eq_false_iff.mp this).1

theorem Form.StopsAt.no_operator {p : Precedence} {rest : List Token}
    (h : (Form.level p).StopsAt rest) : ∀ t ∈ rest.head?, p.level t.kind = none := by
  intro t ht
  have := h t ht
  rw [Form.continues_level] at this
  exact Option.isNone_iff_eq_none.mp (by simpa using (Bool.or_eq_false_iff.mp this).2)

/-- An operator does not continue its own operands. -/
theorem Operator.stops {p : Precedence} {kind : TokenKind} {op : Parsing.DyadicOp}
    (h : Operator p kind op) : p.operand.continues kind = false := by
  cases h <;> rfl

end Grammar

namespace Parsing

open Grammar (Precedence Operator Form)

/-- The rule takes the tokens of every expression that stands at the start of a list shorter than
the bound, when nothing behind it continues it. -/
abbrev AcceptsExpressions (x : Parser Expr) (bound : Nat) : Prop :=
  ∀ tokens e, Grammar.Expression .expression tokens e →
    Accepts Expr.withoutIds x bound Form.expression.StopsAt tokens e

/-- What the rules inside an expression do with the tokens of a form. The rules of a level and of a
call have taken the tokens when they are about to look for more. -/
def Accepted (ex : Parser Expr) (fuel : Nat) : Form → List Token → Expr → Prop
  | .expression, _, _ => True
  | .level p, tokens, e => ∀ rest n, tokens.length + rest.length < fuel → p.operand.StopsAt rest →
    ∃ e' n' left, rest.length < left ∧ e'.withoutIds = e ∧
      levelRule fuel ex p ⟨tokens ++ rest, n⟩
        = operands p.level (operandRule fuel ex p) left e' ⟨rest, n'⟩
  | .unary, tokens, e => ∀ g ≤ fuel,
    Accepts Expr.withoutIds (unary ex g) g Form.unary.StopsAt tokens e
  | .call, tokens, e => ∀ g ≤ fuel, ∀ rest n, tokens.length + rest.length < g →
    ∃ e' n' left, rest.length < left ∧ e'.withoutIds = e ∧
      (primary ex >>= suffixes ex g) ⟨tokens ++ rest, n⟩ = suffixes ex left e' ⟨rest, n'⟩
  | .primary, tokens, e => Accepts Expr.withoutIds (primary ex) fuel (fun _ => True) tokens e

theorem takeOperator_cons {level : Level} {op : DyadicOp} {t : Token} {rest : List Token}
    {n : NodeId} (h : level t.kind = some op) :
    takeOperator level ⟨t :: rest, n⟩ = .ok (some (op, t.line)) ⟨rest, n⟩ := by
  simp only [takeOperator, h]

theorem operands_stop {level : Level} {operand : Parser Expr} {g : Nat} {left : Expr}
    {rest : List Token} {n : NodeId} (hg : rest.length < g)
    (h : ∀ t ∈ rest.head?, level t.kind = none) :
    operands level operand g left ⟨rest, n⟩ = .ok left ⟨rest, n⟩ := by
  obtain ⟨g, rfl⟩ := Nat.exists_eq_add_of_lt hg
  have hnone : takeOperator level ⟨rest, n⟩ = .ok none ⟨rest, n⟩ := by
    cases rest with
    | nil => rfl
    | cons t rest => simp [takeOperator, h t rfl]
  exact Action.bind_of_ok hnone

theorem suffixes_stop {ex : Parser Expr} {g : Nat} {callee : Expr} {rest : List Token} {n : NodeId}
    (hg : rest.length < g) (h : Form.call.StopsAt rest) :
    suffixes ex g callee ⟨rest, n⟩ = .ok callee ⟨rest, n⟩ := by
  obtain ⟨g, rfl⟩ := Nat.exists_eq_add_of_lt hg
  unfold suffixes
  cases rest with
  | nil => rfl
  | cons t rest =>
    refine (Action.bind_of_ok nextKind_cons).trans ?_
    have ht := h t rfl
    generalize t.kind = kind at ht
    cases kind with
    | symbol s => cases s <;> first | rfl | cases ht
    | _ => rfl

section
variable {ex : Parser Expr} {fuel : Nat}

/-- A rule that has taken its tokens ends when nothing continues them. -/
theorem Accepted.operand {p : Precedence} {tokens : List Token} {e : Expr}
    (h : Accepted ex fuel p.operand tokens e) :
    Accepts Expr.withoutIds (operandRule fuel ex p) fuel p.operand.StopsAt tokens e := by
  have level : ∀ q : Precedence, Accepted ex fuel (.level q) tokens e →
      Accepts Expr.withoutIds (levelRule fuel ex q) fuel (Form.level q).StopsAt tokens e := by
    intro q h rest n hlen hrest
    obtain ⟨e', n', left, hleft, he, hrule⟩ := h rest n hlen hrest.operand
    exact ⟨e', n', hrule.trans (operands_stop hleft hrest.no_operator), he⟩
  cases p with
  | or => exact level .and h
  | and => exact level .equality h
  | equality => exact level .comparison h
  | comparison => exact level .term h
  | term => exact level .factor h
  | factor => exact h fuel (Nat.le_refl _)

theorem Accepted.of_operand {p : Precedence} {tokens : List Token} {e : Expr}
    (h : Accepted ex fuel p.operand tokens e) : Accepted ex fuel (.level p) tokens e := by
  intro rest n hlen hrest
  obtain ⟨e', n', hrule, he⟩ := h.operand rest n hlen hrest
  refine ⟨e', n', fuel, by omega, he, ?_⟩
  rw [levelRule_eq]
  exact Action.bind_of_ok hrule

theorem Accepted.operation {p : Precedence} {front tokens : List Token} {left right : Expr}
    {sign : Token} {op : DyadicOp} (hfront : Accepted ex fuel (.level p) front left)
    (hop : Operator p sign.kind op) (hright : Accepted ex fuel p.operand tokens right) :
    Accepted ex fuel (.level p) (front ++ sign :: tokens) (op.apply sign.line left right) := by
  intro rest n hlen hrest
  simp only [List.length_append, List.length_cons] at hlen
  obtain ⟨left', n', g, hg, hleft, hrule⟩ := hfront (sign :: (tokens ++ rest)) n
    (by simp only [List.length_cons, List.length_append]; omega) (.cons rfl hop.stops)
  simp only [List.length_cons, List.length_append] at hg
  obtain ⟨g, rfl⟩ : ∃ g', g = g' + 1 := ⟨g - 1, by omega⟩
  obtain ⟨right', n'', hright, hright'⟩ := hright.operand rest n' (by omega) hrest
  refine ⟨op.apply sign.line left' right', n'', g, by omega, ?_, ?_⟩
  · rw [withoutIds_apply, hleft, hright']
  · rw [List.append_assoc, List.cons_append, hrule]
    exact (Action.bind_of_ok (takeOperator_cons (Precedence.level_eq_some_iff.mpr hop))).trans
      (Action.bind_of_ok hright)

theorem Accepted.prefixed {sign : Token} {tokens : List Token} {op : UnaryOp} {operand : Expr}
    (hsign : Grammar.UnaryOperator sign.kind op) (h : Accepted ex fuel .unary tokens operand) :
    Accepted ex fuel .unary (sign :: tokens) (.unary op sign.line operand) := by
  intro g hg rest n hlen hrest
  simp only [List.length_cons] at hlen
  obtain ⟨g, rfl⟩ : ∃ g', g = g' + 1 := ⟨g - 1, by omega⟩
  obtain ⟨e', n', hrule, he⟩ := h g (by omega) rest n (by omega) hrest
  have htake : (sign.isSymbol .bang || sign.isSymbol .minus) = true ∧
      (if sign.isSymbol .bang then UnaryOp.not else .negate) = op := by
    generalize hkind : sign.kind = kind at hsign
    cases hsign <;> simp [Token.isSymbol, hkind]
  refine ⟨.unary op sign.line e', n', ?_, by rw [Expr.withoutIds, he]⟩
  refine (Action.bind_of_ok (takeIf_cons htake.1)).trans ((Action.bind_of_ok hrule).trans ?_)
  rw [htake.2]
  rfl

theorem Accepted.unprefixed {tokens : List Token} {e : Expr}
    (hform : Grammar.Expression .call tokens e) (h : Accepted ex fuel .call tokens e) :
    Accepted ex fuel .unary tokens e := by
  intro g hg rest n hlen hrest
  obtain ⟨e', n', left, hleft, he, hrule⟩ := h g hg rest n hlen
  obtain ⟨t, more, rfl, ht⟩ := hform.starts
  obtain ⟨g, rfl⟩ : ∃ g', g = g' + 1 := ⟨g - 1, by omega⟩
  refine ⟨e', n', ?_, he⟩
  have hnone : ∀ t' ∈ (t :: more ++ rest).head?,
      (t'.isSymbol .bang || t'.isSymbol .minus) = false := by
    intro t' ht'
    cases ht'
    simp only [Token.isSymbol]
    generalize t.kind = kind at ht
    cases kind with
    | symbol s => cases s <;> first | rfl | cases ht
    | _ => rfl
  exact (Action.bind_of_ok (takeIf_stop hnone)).trans (hrule.trans (suffixes_stop hleft hrest))

theorem Accepted.uncalled {tokens : List Token} {e : Expr}
    (h : Accepted ex fuel .primary tokens e) : Accepted ex fuel .call tokens e := by
  intro g hg rest n hlen
  obtain ⟨e', n', hrule, he⟩ := h rest n (by omega) trivial
  exact ⟨e', n', g, by omega, he, Action.bind_of_ok hrule⟩

/-- A comma or a closing parenthesis does not continue an expression. -/
theorem EndsItem.stops {rest : List Token} (h : EndsItem rest) : Form.expression.StopsAt rest := by
  obtain ⟨t, ht, hkind⟩ := h
  obtain ⟨rest, rfl⟩ := List.head?_eq_some_iff.mp ht
  obtain hkind | hkind := hkind <;> exact .cons hkind rfl

theorem Accepts.weaken {α β : Type} {view : α → β} {x : Parser α} {bound bound' : Nat}
    {follow follow' : List Token → Prop} {tokens : List Token} {b : β}
    (h : Accepts view x bound follow tokens b) (hbound : bound' ≤ bound)
    (hfollow : ∀ rest, follow' rest → follow rest) : Accepts view x bound' follow' tokens b :=
  fun rest n hlen hrest => h rest n (Nat.lt_of_lt_of_le hlen hbound) (hfollow rest hrest)

theorem Accepted.call (hex : AcceptsExpressions ex fuel) {start finish : Token}
    {front tokens : List Token} {callee : Expr} {arguments : List Grammar.ExprPhrase}
    (h : Accepted ex (fuel + 1) .call front callee) (hstart : start.kind = .symbol .leftParen)
    (harguments : ∀ a ∈ arguments, Grammar.Expression .expression a.tokens a.expr)
    (hlisted : Grammar.Listed (arguments.map (·.tokens)) tokens) (hlength : arguments.length ≤ 255)
    (hfinish : finish.kind = .symbol .rightParen) :
    Accepted ex (fuel + 1) .call (front ++ start :: (tokens ++ [finish]))
      (.call callee finish.line (arguments.map (·.expr))) := by
  intro g hg rest n hlen
  simp only [List.length_append, List.length_cons, List.length_nil] at hlen
  obtain ⟨callee', n', left, hleft, hcallee, hrule⟩ :=
    h g hg (start :: (tokens ++ finish :: rest)) n
      (by simp only [List.length_cons, List.length_append]; omega)
  simp only [List.length_cons, List.length_append] at hleft
  obtain ⟨left, rfl⟩ : ∃ left', left = left' + 1 := ⟨left - 1, by omega⟩
  have hopens : ∀ a ∈ arguments, ∃ t more, a.tokens = t :: more ∧
      t.isSymbol .rightParen = false := by
    intro a ha
    obtain ⟨t, more, hmore, ht⟩ := (harguments a ha).starts
    refine ⟨t, more, hmore, Bool.eq_false_iff.mpr fun hparen => ?_⟩
    rw [Token.isSymbol_iff.mp hparen] at ht
    cases ht
  obtain ⟨found, n'', hfound, hview⟩ := separatedOrNone_accepts .tooManyArguments left
    (fun a ha => (hex _ _ (harguments a ha)).weaken (Nat.le_refl _) fun _ => EndsItem.stops)
    hopens hlisted hlength (by omega) (finish :: rest) n'
    (by simp only [List.length_cons]; omega) ⟨finish, rfl, hfinish⟩
  refine ⟨.call callee' finish.line found, n'', left, by omega, ?_, ?_⟩
  · rw [Expr.withoutIds, Expr.allWithoutIds_eq_map, hcallee, hview]
  · have hrest : front ++ start :: (tokens ++ [finish]) ++ rest
        = front ++ start :: (tokens ++ finish :: rest) := by simp
    rw [hrest, hrule, suffixes]
    refine (Action.bind_of_ok nextKind_cons).trans ?_
    rw [hstart]
    exact (Action.bind_of_ok skip_cons).trans ((Action.bind_of_ok hfound).trans
      (Action.bind_of_ok (expect_cons hfinish)))

theorem Accepted.get {dot name : Token} {front : List Token} {object : Expr}
    (h : Accepted ex fuel .call front object) (hdot : dot.kind = .symbol .dot)
    (hname : name.kind = .identifier) :
    Accepted ex fuel .call (front ++ [dot, name]) (.get object name.identifier) := by
  intro g hg rest n hlen
  simp only [List.length_append, List.length_cons, List.length_nil] at hlen
  obtain ⟨object', n', left, hleft, hobject, hrule⟩ := h g hg (dot :: name :: rest) n
    (by simp only [List.length_cons]; omega)
  simp only [List.length_cons] at hleft
  obtain ⟨left, rfl⟩ : ∃ left', left = left' + 1 := ⟨left - 1, by omega⟩
  refine ⟨.get object' name.identifier, n', left, by omega, by rw [Expr.withoutIds, hobject], ?_⟩
  have hrest : front ++ [dot, name] ++ rest = front ++ dot :: name :: rest := by simp
  rw [hrest, hrule, suffixes]
  refine (Action.bind_of_ok nextKind_cons).trans ?_
  rw [hdot]
  exact (Action.bind_of_ok skip_cons).trans (Action.bind_of_ok (expectName_cons hname))

theorem Accepted.literal {t : Token} {value : Literal} (h : Grammar.IsLiteral t.kind value) :
    Accepted ex fuel .primary [t] (.literal value) := by
  intro rest n _ _
  obtain ⟨kind, lexeme, line⟩ := t
  refine ⟨.literal value, n, ?_, rfl⟩
  cases h <;> rfl

theorem Accepted.this {t : Token} (h : t.kind = .keyword .thisWord) :
    Accepted ex fuel .primary [t] (.this 0 t.line) := by
  intro rest n _ _
  obtain ⟨kind, lexeme, line⟩ := t
  cases h
  exact ⟨.this n line, n + 1, rfl, rfl⟩

theorem Accepted.name {t : Token} (h : t.kind = .identifier) :
    Accepted ex fuel .primary [t] (.variable 0 t.identifier) := by
  intro rest n _ _
  obtain ⟨kind, lexeme, line⟩ := t
  cases h
  exact ⟨.variable n ⟨lexeme, line⟩, n + 1, rfl, rfl⟩

theorem Accepted.grouping (hex : AcceptsExpressions ex fuel) {start finish : Token}
    {tokens : List Token} {inner : Expr} (hstart : start.kind = .symbol .leftParen)
    (hinner : Grammar.Expression .expression tokens inner)
    (hfinish : finish.kind = .symbol .rightParen) :
    Accepted ex (fuel + 1) .primary (start :: (tokens ++ [finish])) (.grouping inner) := by
  intro rest n hlen _
  simp only [List.length_append, List.length_cons, List.length_nil] at hlen
  obtain ⟨inner', n', hread, hview⟩ := hex _ _ hinner (finish :: rest) n
    (by simp only [List.length_cons]; omega) (.cons hfinish rfl)
  obtain ⟨kind, lexeme, line⟩ := start
  cases hstart
  refine ⟨.grouping inner', n', ?_, by rw [Expr.withoutIds, hview]⟩
  rw [List.cons_append, List.append_assoc, List.singleton_append]
  have hrule : primary ex ⟨⟨.symbol .leftParen, lexeme, line⟩ :: (tokens ++ finish :: rest), n⟩
      = (do
          let inner ← ex
          let _ ← expect .rightParen .groupEnd
          return .grouping inner : Parser Expr) ⟨tokens ++ finish :: rest, n⟩ := rfl
  exact hrule.trans ((Action.bind_of_ok hread).trans (Action.bind_of_ok (expect_cons hfinish)))

theorem accepted (hex : AcceptsExpressions ex fuel) {form : Form} {tokens : List Token} {e : Expr}
    (h : Grammar.Expression form tokens e) : Accepted ex (fuel + 1) form tokens e := by
  induction h with
  | assign | set | plain => trivial
  | operand _ ih => exact ih.of_operand
  | operation _ hop _ ihfront ih => exact ihfront.operation hop ih
  | prefixed hsign _ ih => exact ih.prefixed hsign
  | unprefixed hform ih => exact ih.unprefixed hform
  | uncalled _ ih => exact ih.uncalled
  | call _ hstart harguments hlisted hlength hfinish ih =>
    exact ih.call hex hstart harguments hlisted hlength hfinish
  | get _ hdot hname ih => exact ih.get hdot hname
  | literal hvalue => exact .literal hvalue
  | this ht => exact .this ht
  | name ht => exact .name ht
  | grouping hstart hinner hfinish => exact .grouping hex hstart hinner hfinish

/-- The loosest level takes what a call is made of. -/
theorem or_accepts_call (hex : AcceptsExpressions ex fuel) {tokens : List Token} {e : Expr}
    (h : Grammar.Expression .call tokens e) :
    Accepts Expr.withoutIds (levelRule (fuel + 1) ex .or) (fuel + 1) (Form.level .or).StopsAt
      tokens e := by
  have hform : Grammar.Expression (.level .or) tokens e :=
    .operand (p := .or) (.operand (p := .and) (.operand (p := .equality)
      (.operand (p := .comparison) (.operand (p := .term) (.operand (p := .factor)
        (.unprefixed h))))))
  intro rest n hlen hrest
  obtain ⟨e', n', left, hleft, he, hrule⟩ := accepted hex hform rest n hlen hrest.operand
  exact ⟨e', n', hrule.trans (operands_stop hleft hrest.no_operator), he⟩

/-- What is a variable apart from identities is one. -/
theorem eq_variable {e : Expr} {name : Identifier} (h : e.withoutIds = .variable 0 name) :
    ∃ id, e = .variable id name := by
  cases e <;> simp_all [Expr.withoutIds]

theorem eq_get {e object : Expr} {name : Identifier} (h : e.withoutIds = .get object name) :
    ∃ object', e = .get object' name ∧ object'.withoutIds = object := by
  cases e <;> simp_all [Expr.withoutIds]

theorem assignment_accepts (hex : AcceptsExpressions ex fuel) :
    AcceptsExpressions (assignment ex (fuel + 1)) (fuel + 1) := by
  intro tokens e h rest n hlen hrest
  have hlevels : levels.foldr (binaryLevel (fuel + 1)) (unary ex (fuel + 1))
      = levelRule (fuel + 1) ex .or := rfl
  unfold assignment
  rw [hlevels]
  cases h with
  | plain h =>
    obtain ⟨e', n', left, hleft, he, hrule⟩ := accepted hex h rest n hlen hrest.plain.operand
    have hrule := hrule.trans (operands_stop hleft hrest.plain.no_operator)
    refine ⟨e', n', ?_, he⟩
    have hequal : ∀ t ∈ rest.head?, t.kind ≠ .symbol .equal := by
      intro t ht hkind
      have := hrest t ht
      rw [hkind] at this
      cases this
    exact (Action.bind_of_ok hrule).trans ((Action.bind_of_ok rfl).trans
      (Action.bind_of_ok (accept_stop hequal)))
  | @assign name equal tokens value hname hequal hvalue =>
    simp only [List.length_cons] at hlen
    obtain ⟨target, n', htarget, hview⟩ := or_accepts_call hex (.uncalled (.name hname))
      (equal :: (tokens ++ rest)) n (by simp; omega) (.cons hequal rfl)
    obtain ⟨id, rfl⟩ := eq_variable hview
    obtain ⟨value', n'', hread, hview⟩ := hex _ _ hvalue rest n' (by omega) hrest
    refine ⟨.assign n'' name.identifier value', n'' + 1, ?_, by rw [Expr.withoutIds, hview]⟩
    exact (Action.bind_of_ok htarget).trans ((Action.bind_of_ok rfl).trans
      ((Action.bind_of_ok (accept_cons hequal)).trans (Action.bind_of_ok hread)))
  | @set dot name equal front tokens object value hobject hdot hname hequal hvalue =>
    simp only [List.length_append, List.length_cons] at hlen
    obtain ⟨target, n', htarget, hview⟩ := or_accepts_call hex (.get hobject hdot hname)
      (equal :: (tokens ++ rest)) n (by simp; omega) (.cons hequal rfl)
    obtain ⟨object', rfl, hobject'⟩ := eq_get hview
    obtain ⟨value', n'', hread, hview⟩ := hex _ _ hvalue rest n' (by omega) hrest
    refine ⟨.set object' name.identifier value', n'', ?_, by
      rw [Expr.withoutIds, hview, hobject']⟩
    have htokens : front ++ dot :: name :: equal :: tokens ++ rest
        = front ++ [dot, name] ++ equal :: (tokens ++ rest) := by simp
    rw [htokens]
    exact (Action.bind_of_ok htarget).trans ((Action.bind_of_ok rfl).trans
      ((Action.bind_of_ok (accept_cons hequal)).trans (Action.bind_of_ok hread)))

end

theorem expression_accepts (fuel : Nat) : AcceptsExpressions (expression fuel) fuel := by
  induction fuel with
  | zero => exact fun _ _ _ _ _ hlen _ => absurd hlen (Nat.not_lt_zero _)
  | succ fuel ih => exact assignment_accepts ih

/-! ## Statements -/

/-- An expression does not start with a symbol that cannot open one. -/
theorem Expression_opens_not {tokens : List Token} {e : Expr} {s : Symbol}
    (h : Grammar.Expression .expression tokens e) (hs : Grammar.opensUnary (.symbol s) = false) :
    ∃ t more, tokens = t :: more ∧ t.isSymbol s = false := by
  obtain ⟨t, more, hmore, ht⟩ := h.starts
  refine ⟨t, more, hmore, Bool.eq_false_iff.mpr fun hsymbol => ?_⟩
  rw [Token.isSymbol_iff.mp hsymbol] at ht
  exact Bool.false_ne_true (hs.symm.trans ht)

/-- The rule takes the tokens of every statement of the kind that stands at the start of a list
shorter than the bound, when no `else` behind it belongs to it. -/
abbrev AcceptsStatements (kind : Grammar.Kind) (x : Parser Stmt) (bound : Nat) : Prop :=
  ∀ dangling tokens s, Grammar.Statement kind dangling tokens s →
    Accepts Stmt.withoutIds x bound (NoElse dangling) tokens s

section
variable {fuel : Nat} {rest : List Token} {n : NodeId}

theorem terminated_accepts {tokens : List Token} {e : Expr} (fault : SyntaxFault)
    (h : Grammar.Terminated tokens e) (hlen : tokens.length + rest.length < fuel) :
    ∃ e' n' c semicolon, expression fuel ⟨tokens ++ rest, n⟩ = .ok e' c ∧
      expect .semicolon fault c = .ok semicolon ⟨rest, n'⟩ ∧ e'.withoutIds = e := by
  obtain ⟨he, hsemicolon⟩ := h
  simp only [List.length_append, List.length_cons, List.length_nil] at hlen
  obtain ⟨e', n', hread, hview⟩ := expression_accepts fuel _ _ he (_ :: rest) n
    (by simp only [List.length_cons]; omega) (.cons hsemicolon rfl)
  refine ⟨e', n', _, _, ?_, expect_cons hsemicolon, hview⟩
  rw [List.append_assoc]
  exact hread

theorem expressionStatement_accepts {tokens : List Token} {e : Expr}
    (h : Grammar.Terminated tokens e) (hlen : tokens.length + rest.length < fuel) :
    ∃ s n', expressionStatement fuel ⟨tokens ++ rest, n⟩ = .ok s ⟨rest, n'⟩ ∧
      s.withoutIds = .expression e := by
  obtain ⟨e', n', c, semicolon, he, hsemicolon, hview⟩ :=
    terminated_accepts .expressionEnd h hlen (n := n)
  exact ⟨.expression e', n', (Action.bind_of_ok he).trans (Action.bind_of_ok hsemicolon),
    by rw [Stmt.withoutIds, hview]⟩

theorem varDeclaration_accepts {tokens : List Token} {s : Stmt}
    (h : Grammar.VarDeclaration tokens s) (hlen : tokens.length + rest.length < fuel) :
    ∃ word more s' n', tokens = word :: more ∧ word.kind = .keyword .varWord ∧
      varDeclaration fuel ⟨more ++ rest, n⟩ = .ok s' ⟨rest, n'⟩ ∧ s'.withoutIds = s := by
  cases h with
  | bare hword hname hsemicolon =>
    refine ⟨_, _, .varDecl _ (.literal .nil), n, rfl, hword, ?_, rfl⟩
    refine (Action.bind_of_ok (expectName_cons hname)).trans
      ((Action.bind_of_ok (accept_stop ?_)).trans (Action.bind_of_ok (expect_cons hsemicolon)))
    intro t ht
    cases ht
    rw [hsemicolon]
    simp
  | initialized hword hname hequal he =>
    simp only [List.length_cons] at hlen
    obtain ⟨e', n', c, semicolon, hread, hsemicolon, hview⟩ :=
      terminated_accepts .variableEnd he (show _ + rest.length < fuel by omega) (n := n)
    refine ⟨_, _, .varDecl _ e', n', rfl, hword, ?_, by rw [Stmt.withoutIds, hview]⟩
    exact (Action.bind_of_ok (expectName_cons hname)).trans
      ((Action.bind_of_ok (accept_cons hequal)).trans
        ((Action.bind_of_ok hread).trans (Action.bind_of_ok hsemicolon)))

theorem some_expression_accepts {tokens : List Token} {e : Expr}
    (h : Grammar.Expression .expression tokens e) (hlen : tokens.length + rest.length < fuel)
    (hrest : Form.expression.StopsAt rest) :
    ∃ e' n', (some <$> expression fuel) ⟨tokens ++ rest, n⟩ = .ok (some e') ⟨rest, n'⟩ ∧
      e'.withoutIds = e := by
  obtain ⟨e', n', hread, hview⟩ := expression_accepts fuel _ _ h rest n hlen hrest
  exact ⟨e', n', Action.bind_of_ok hread, hview⟩

variable {nested : Nested}

theorem blockBody_accepts (hnested : AcceptsStatements .declaration nested.declaration fuel)
    {body : List Grammar.Phrase} {closing : Token}
    (hbody : ∀ d ∈ body, Grammar.Statement .declaration d.dangling d.tokens d.stmt)
    (hclosing : closing.kind = .symbol .rightBrace)
    (hlen : (Grammar.tokensOf body).length + (closing :: rest).length < fuel) :
    ∃ found n', blockBody (fuel + 1) nested ⟨Grammar.tokensOf body ++ closing :: rest, n⟩
        = .ok found ⟨rest, n'⟩ ∧ Stmt.allWithoutIds found = body.map (·.stmt) := by
  have hitems : ∀ d ∈ body, Accepts Stmt.withoutIds nested.declaration fuel (NoElse true)
      d.tokens d.stmt := fun d hd =>
    (hnested _ _ _ (hbody d hd)).weaken (Nat.le_refl _) fun _ => NoElse.weaken
  have hfirst : ∀ d ∈ body, ∃ t more, d.tokens = t :: more ∧ t.isSymbol .rightBrace = false ∧
      ∀ rest, NoElse true (d.tokens ++ rest) := by
    intro d hd
    obtain ⟨t, more, hmore, ht⟩ := (hbody d hd).starts
    refine ⟨t, more, hmore, Bool.eq_false_iff.mpr fun hs => ?_, fun rest _ t' ht' =>
      Bool.eq_false_iff.mpr fun hk => ?_⟩
    · rw [Token.isSymbol_iff.mp hs] at ht
      cases ht
    · rw [hmore] at ht'
      cases ht'
      rw [Token.isKeyword_iff.mp hk] at ht
      cases ht
  have hbrace : ∀ (t : Token) rest, t.kind = .symbol .rightBrace → NoElse true (t :: rest) := by
    intro t rest ht _ t' ht'
    cases ht'
    simp [Token.isKeyword, ht]
  have hitems := untilBrace_accepts (fuel + 1) hitems hfirst hbrace
    (Nat.lt_succ_of_lt (Nat.lt_of_le_of_lt (Nat.le_add_right _ _) hlen))
  obtain ⟨found, n', hfound, hview⟩ := hitems (closing :: rest) n hlen ⟨closing, rfl, hclosing⟩
  refine ⟨found, n', ?_, by rw [Stmt.allWithoutIds_eq_map, hview]⟩
  exact (Action.bind_of_ok hfound).trans (Action.bind_of_ok (expect_cons hclosing))

theorem function_accepts (hnested : AcceptsStatements .declaration nested.declaration fuel)
    (kind : FunctionKind) {body : List Grammar.Phrase} {tokens : List Token} {f : FunctionDecl}
    (hbody : ∀ d ∈ body, Grammar.Statement .declaration d.dangling d.tokens d.stmt)
    (h : Grammar.Function (Grammar.tokensOf body) (body.map (·.stmt)) tokens f) :
    Accepts FunctionDecl.withoutIds (function (fuel + 1) nested kind) fuel (fun _ => True)
      tokens f := by
  intro rest n hlen _
  obtain ⟨hname, hstart, hparams, hlisted, hlength, hfinish, hopening, hclosing⟩ := h
  rename_i name start finish opening closing params used
  simp only [List.length_append, List.length_cons, List.length_nil] at hlen
  have hopens : ∀ p ∈ params, ∃ (t : Token) (more : List Token), [p] = t :: more ∧
      t.isSymbol .rightParen = false := by
    intro p hp
    refine ⟨p, [], rfl, ?_⟩
    simp [Token.isSymbol, hparams p hp]
  have hitems : ∀ p ∈ params, Accepts id (expectName .parameterName) (fuel + 1) EndsItem [p]
      p.identifier := fun p hp _ n _ _ => ⟨p.identifier, n, expectName_cons (hparams p hp), rfl⟩
  obtain ⟨names, n₁, hnames, hview⟩ := separatedOrNone_accepts .tooManyParameters (fuel + 1)
    hitems hopens hlisted hlength (by omega)
    (finish :: opening :: (Grammar.tokensOf body ++ closing :: rest)) n
    (by simp only [List.length_append, List.length_cons]; omega) ⟨finish, rfl, hfinish⟩
  rw [List.map_id] at hview
  obtain ⟨found, n₂, hfound, hview'⟩ := blockBody_accepts hnested hbody hclosing (n := n₁)
    (show _ + (closing :: rest).length < fuel by simp only [List.length_cons]; omega)
  refine ⟨.mk name.identifier names found, n₂, ?_, by
    rw [FunctionDecl.withoutIds, hview, hview']⟩
  have htokens : name :: start :: (used ++ finish :: opening :: (Grammar.tokensOf body ++ [closing]))
      ++ rest = name :: start :: (used ++ finish :: opening ::
        (Grammar.tokensOf body ++ closing :: rest)) := by simp
  rw [htokens]
  exact (Action.bind_of_ok (expectName_cons hname)).trans
    ((Action.bind_of_ok (expect_cons hstart)).trans ((Action.bind_of_ok hnames).trans
      ((Action.bind_of_ok (expect_cons hfinish)).trans ((Action.bind_of_ok
        (expect_cons hopening)).trans (Action.bind_of_ok hfound)))))

theorem classDeclaration_accepts
    (hnested : AcceptsStatements .declaration nested.declaration fuel) {name opening closing : Token}
    {methods : List Grammar.Method} (hname : name.kind = .identifier)
    (hopening : opening.kind = .symbol .leftBrace)
    (hbodies : ∀ m ∈ methods, ∀ d ∈ m.body,
      Grammar.Statement .declaration d.dangling d.tokens d.stmt)
    (hmethods : ∀ m ∈ methods,
      Grammar.Function (Grammar.tokensOf m.body) (m.body.map (·.stmt)) m.tokens m.function)
    (hclosing : closing.kind = .symbol .rightBrace)
    (hlen : (methods.flatMap (·.tokens)).length + (closing :: rest).length < fuel) :
    ∃ s n', classDeclaration (fuel + 1) nested
        ⟨name :: opening :: (methods.flatMap (·.tokens) ++ closing :: rest), n⟩ = .ok s ⟨rest, n'⟩ ∧
      s.withoutIds = .classDecl name.identifier (methods.map (·.function)) := by
  have hfirst : ∀ m ∈ methods, ∃ t more, m.tokens = t :: more ∧ t.isSymbol .rightBrace = false ∧
      ∀ _rest : List Token, True := by
    intro m hm
    obtain ⟨t, more, hmore, ht⟩ := (hmethods m hm).starts
    exact ⟨t, more, hmore, by simp [Token.isSymbol, ht], fun _ => trivial⟩
  have hitems := untilBrace_accepts (fuel + 1)
    (fun m hm => function_accepts hnested .method (hbodies m hm) (hmethods m hm)) hfirst
    (fun _ _ _ => trivial) (Nat.lt_succ_of_lt (Nat.lt_of_le_of_lt (Nat.le_add_right _ _) hlen))
  obtain ⟨found, n', hfound, hview⟩ := hitems (closing :: rest) n hlen ⟨closing, rfl, hclosing⟩
  refine ⟨.classDecl name.identifier found, n', ?_, by
    rw [Stmt.withoutIds, FunctionDecl.allWithoutIds_eq_map, hview]⟩
  exact (Action.bind_of_ok (expectName_cons hname)).trans
    ((Action.bind_of_ok (expect_cons hopening)).trans ((Action.bind_of_ok hfound).trans
      (Action.bind_of_ok (expect_cons hclosing))))

theorem printStatement_accepts {tokens : List Token} {e : Expr} (h : Grammar.Terminated tokens e)
    (hlen : tokens.length + rest.length < fuel) :
    ∃ s n', printStatement fuel ⟨tokens ++ rest, n⟩ = .ok s ⟨rest, n'⟩ ∧
      s.withoutIds = .print e := by
  obtain ⟨e', n', c, semicolon, he, hsemicolon, hview⟩ := terminated_accepts .printEnd h hlen (n := n)
  exact ⟨.print e', n', (Action.bind_of_ok he).trans (Action.bind_of_ok hsemicolon),
    by rw [Stmt.withoutIds, hview]⟩

theorem returnStatement_accepts {tokens : List Token} {value : Option Expr} {semicolon : Token}
    (line : Nat) (h : Grammar.OptionalExpression tokens value)
    (hsemicolon : semicolon.kind = .symbol .semicolon)
    (hlen : tokens.length + (semicolon :: rest).length < fuel) :
    ∃ s n', returnStatement fuel line ⟨tokens ++ semicolon :: rest, n⟩ = .ok s ⟨rest, n'⟩ ∧
      s.withoutIds = .returnValue line value := by
  cases h with
  | none =>
    exact ⟨.returnValue line none, n, (Action.bind_of_ok (isNext_cons
      (isSymbol_of_kind hsemicolon))).trans (Action.bind_of_ok (expect_cons hsemicolon)), rfl⟩
  | some he =>
    obtain ⟨t, more, rfl, ht⟩ := Expression_opens_not he (s := .semicolon) rfl
    obtain ⟨e', n', hread, hview⟩ := some_expression_accepts he hlen (.cons hsemicolon rfl) (n := n)
    refine ⟨.returnValue line (some e'), n', ?_, by rw [Stmt.withoutIds, hview]⟩
    exact (Action.bind_of_ok (isNext_cons ht)).trans ((Action.bind_of_ok hread).trans
      (Action.bind_of_ok (expect_cons hsemicolon)))

theorem condition_accepts {start finish : Token} {tokens : List Token} {e : Expr}
    (startFault finishFault : SyntaxFault) (hstart : start.kind = .symbol .leftParen)
    (he : Grammar.Expression .expression tokens e) (hfinish : finish.kind = .symbol .rightParen)
    (hlen : tokens.length + (finish :: rest).length < fuel) :
    ∃ c₁ e' c₂ n', expect .leftParen startFault ⟨start :: (tokens ++ finish :: rest), n⟩
        = .ok start c₁ ∧ expression fuel c₁ = .ok e' c₂ ∧
      expect .rightParen finishFault c₂ = .ok finish ⟨rest, n'⟩ ∧ e'.withoutIds = e := by
  obtain ⟨e', n', hread, hview⟩ := expression_accepts fuel _ _ he (finish :: rest) n hlen
    (.cons hfinish rfl)
  exact ⟨_, e', _, n', expect_cons hstart, hread, expect_cons hfinish, hview⟩

theorem whileStatement_accepts (hnested : AcceptsStatements .statement nested.statement fuel)
    {dangling : Bool} {start finish : Token} {tokens bodyTokens : List Token} {condition : Expr}
    {body : Stmt} (hstart : start.kind = .symbol .leftParen)
    (hcondition : Grammar.Expression .expression tokens condition)
    (hfinish : finish.kind = .symbol .rightParen)
    (hbody : Grammar.Statement .statement dangling bodyTokens body)
    (hlen : tokens.length + (finish :: (bodyTokens ++ rest)).length < fuel)
    (hrest : NoElse dangling rest) :
    ∃ s n', whileStatement (fuel + 1) nested
        ⟨start :: (tokens ++ finish :: (bodyTokens ++ rest)), n⟩ = .ok s ⟨rest, n'⟩ ∧
      s.withoutIds = .whileLoop condition body := by
  obtain ⟨c₁, condition', c₂, n₁, hstart, hread, hfinish, hview⟩ := condition_accepts .whileStart
    .whileConditionEnd hstart hcondition hfinish (Nat.lt_succ_of_lt hlen) (n := n)
  simp only [List.length_cons, List.length_append] at hlen
  obtain ⟨body', n₂, hbody, hview'⟩ := hnested _ _ _ hbody rest n₁ (by omega) hrest
  refine ⟨.whileLoop condition' body', n₂, ?_, by rw [Stmt.withoutIds, hview, hview']⟩
  exact (Action.bind_of_ok hstart).trans ((Action.bind_of_ok hread).trans
    ((Action.bind_of_ok hfinish).trans (Action.bind_of_ok hbody)))

theorem ifThen_accepts (hnested : AcceptsStatements .statement nested.statement fuel)
    {dangling : Bool} {start finish : Token} {tokens thenTokens : List Token} {condition : Expr}
    {thenBranch : Stmt} (hstart : start.kind = .symbol .leftParen)
    (hcondition : Grammar.Expression .expression tokens condition)
    (hfinish : finish.kind = .symbol .rightParen)
    (hthen : Grammar.Statement .statement dangling thenTokens thenBranch)
    (hlen : tokens.length + (finish :: (thenTokens ++ rest)).length < fuel)
    (hrest : NoElse true rest) :
    ∃ s n', ifStatement (fuel + 1) nested
        ⟨start :: (tokens ++ finish :: (thenTokens ++ rest)), n⟩ = .ok s ⟨rest, n'⟩ ∧
      s.withoutIds = .ifElse condition thenBranch none := by
  obtain ⟨c₁, condition', c₂, n₁, hstart, hread, hfinish, hview⟩ := condition_accepts .ifStart
    .ifConditionEnd hstart hcondition hfinish (Nat.lt_succ_of_lt hlen) (n := n)
  simp only [List.length_cons, List.length_append] at hlen
  obtain ⟨then', n₂, hthen, hview'⟩ := hnested _ _ _ hthen rest n₁ (by omega) hrest.weaken
  refine ⟨.ifElse condition' then' none, n₂, ?_, by rw [Stmt.withoutIds, hview, hview']⟩
  exact (Action.bind_of_ok hstart).trans ((Action.bind_of_ok hread).trans
    ((Action.bind_of_ok hfinish).trans ((Action.bind_of_ok hthen).trans
      (Action.bind_of_ok (takeIf_stop (hrest rfl))))))

theorem ifElse_accepts (hnested : AcceptsStatements .statement nested.statement fuel)
    {dangling : Bool} {start finish otherwise : Token} {tokens thenTokens elseTokens : List Token}
    {condition : Expr} {thenBranch elseBranch : Stmt} (hstart : start.kind = .symbol .leftParen)
    (hcondition : Grammar.Expression .expression tokens condition)
    (hfinish : finish.kind = .symbol .rightParen)
    (hthen : Grammar.Statement .statement false thenTokens thenBranch)
    (hotherwise : otherwise.kind = .keyword .elseWord)
    (helse : Grammar.Statement .statement dangling elseTokens elseBranch)
    (hlen : tokens.length + (finish :: (thenTokens ++ otherwise :: (elseTokens ++ rest))).length
      < fuel)
    (hrest : NoElse dangling rest) :
    ∃ s n', ifStatement (fuel + 1) nested
        ⟨start :: (tokens ++ finish :: (thenTokens ++ otherwise :: (elseTokens ++ rest))), n⟩
          = .ok s ⟨rest, n'⟩ ∧
      s.withoutIds = .ifElse condition thenBranch (some elseBranch) := by
  obtain ⟨c₁, condition', c₂, n₁, hstart, hread, hfinish, hview⟩ := condition_accepts .ifStart
    .ifConditionEnd hstart hcondition hfinish (Nat.lt_succ_of_lt hlen) (n := n)
  simp only [List.length_cons, List.length_append] at hlen
  obtain ⟨then', n₂, hthen, hview'⟩ := hnested _ _ _ hthen (otherwise :: (elseTokens ++ rest)) n₁
    (by simp only [List.length_cons, List.length_append]; omega) .closed
  obtain ⟨else', n₃, helse, hview''⟩ := hnested _ _ _ helse rest n₂ (by omega) hrest
  refine ⟨.ifElse condition' then' (some else'), n₃, ?_, by
    rw [Stmt.withoutIds, hview, hview', hview'']⟩
  exact (Action.bind_of_ok hstart).trans ((Action.bind_of_ok hread).trans
    ((Action.bind_of_ok hfinish).trans ((Action.bind_of_ok hthen).trans
      ((Action.bind_of_ok (takeIf_cons (Token.isKeyword_iff.mpr hotherwise))).trans
        (Action.bind_of_ok helse)))))

theorem forInitializer_accepts {tokens : List Token} {initializer : Option Stmt}
    (h : Grammar.ForStart tokens initializer) (hlen : tokens.length + rest.length < fuel) :
    ∃ found n', forInitializer fuel ⟨tokens ++ rest, n⟩ = .ok found ⟨rest, n'⟩ ∧
      found.map Stmt.withoutIds = initializer := by
  cases h with
  | @none semicolon hsemicolon =>
    obtain ⟨kind, lexeme, line⟩ := semicolon
    cases hsemicolon
    exact ⟨none, n, rfl, rfl⟩
  | declaration h =>
    obtain ⟨⟨kind, lexeme, line⟩, more, s, n', rfl, hword, hread, hview⟩ :=
      varDeclaration_accepts h hlen (n := n)
    cases hword
    exact ⟨some s, n', Action.bind_of_ok hread, by rw [Option.map_some, hview]⟩
  | expression h =>
    obtain ⟨s, n', hread, hview⟩ := expressionStatement_accepts h hlen (n := n)
    obtain ⟨⟨kind, lexeme, line⟩, more, rfl, ht⟩ := h.starts
    refine ⟨some s, n', ?_, by rw [Option.map_some, hview]⟩
    refine (Action.bind_of_ok nextKind_cons).trans ?_
    have hread : (do return some (← expressionStatement fuel) : Parser (Option Stmt))
        ⟨⟨kind, lexeme, line⟩ :: more ++ rest, n⟩ = .ok (some s) ⟨rest, n'⟩ :=
      Action.bind_of_ok hread
    cases kind with
    | keyword k => cases k <;> first | exact hread | cases ht
    | symbol s => cases s <;> first | exact hread | cases ht
    | _ => exact hread

/-- The increment and the body of a `for`. -/
theorem forEnd_accepts (hnested : AcceptsStatements .statement nested.statement fuel)
    {dangling : Bool} {finish : Token} {tokens bodyTokens : List Token} {increment : Option Expr}
    {body : Stmt} (initializer : Option Stmt) (condition : Expr)
    (hincrement : Grammar.OptionalExpression tokens increment)
    (hfinish : finish.kind = .symbol .rightParen)
    (hbody : Grammar.Statement .statement dangling bodyTokens body)
    (hlen : tokens.length + (finish :: (bodyTokens ++ rest)).length < fuel)
    (hrest : NoElse dangling rest) :
    ∃ s n', (do
        let increment ←
          if ← isNext .rightParen then pure none else some <$> expression (fuel + 1)
        let _ ← expect .rightParen .forClausesEnd
        let body ← nested.statement
        return desugarFor initializer condition increment body : Parser Stmt)
          ⟨tokens ++ finish :: (bodyTokens ++ rest), n⟩ = .ok s ⟨rest, n'⟩ ∧
      s.withoutIds = desugarFor (initializer.map Stmt.withoutIds) condition.withoutIds
        increment body := by
  simp only [List.length_cons, List.length_append] at hlen
  cases hincrement with
  | none =>
    obtain ⟨body', n', hbody, hview⟩ := hnested _ _ _ hbody rest n (by omega) hrest
    refine ⟨desugarFor initializer condition none body', n', ?_, by
      rw [withoutIds_desugarFor, hview, Option.map_none]⟩
    exact (Action.bind_of_ok (isNext_cons (isSymbol_of_kind hfinish))).trans
      ((Action.bind_of_ok (expect_cons hfinish)).trans (Action.bind_of_ok hbody))
  | some he =>
    obtain ⟨t, more, rfl, ht⟩ := Expression_opens_not he (s := .rightParen) rfl
    obtain ⟨e', n₁, hread, hview⟩ := some_expression_accepts he (n := n)
      (show _ + (finish :: (bodyTokens ++ rest)).length < fuel + 1 by
        simp only [List.length_cons, List.length_append] at hlen ⊢
        omega) (.cons hfinish rfl)
    obtain ⟨body', n', hbody, hview'⟩ := hnested _ _ _ hbody rest n₁ (by omega) hrest
    refine ⟨desugarFor initializer condition (some e') body', n', ?_, by
      rw [withoutIds_desugarFor, hview', Option.map_some, hview]⟩
    exact (Action.bind_of_ok (isNext_cons ht)).trans ((Action.bind_of_ok hread).trans
      ((Action.bind_of_ok (expect_cons hfinish)).trans (Action.bind_of_ok hbody)))

theorem forStatement_accepts (hnested : AcceptsStatements .statement nested.statement fuel)
    {dangling : Bool} {start semicolon finish : Token} {first second third bodyTokens : List Token}
    {initializer : Option Stmt} {condition increment : Option Expr} {body : Stmt}
    (hstart : start.kind = .symbol .leftParen) (hinitializer : Grammar.ForStart first initializer)
    (hcondition : Grammar.OptionalExpression second condition)
    (hsemicolon : semicolon.kind = .symbol .semicolon)
    (hincrement : Grammar.OptionalExpression third increment)
    (hfinish : finish.kind = .symbol .rightParen)
    (hbody : Grammar.Statement .statement dangling bodyTokens body)
    (hlen : first.length + (second ++ semicolon :: (third ++ finish :: (bodyTokens ++ rest))).length
      < fuel)
    (hrest : NoElse dangling rest) :
    ∃ s n', forStatement (fuel + 1) nested
        ⟨start :: (first ++ (second ++ semicolon :: (third ++ finish :: (bodyTokens ++ rest)))), n⟩
          = .ok s ⟨rest, n'⟩ ∧
      s.withoutIds = desugarFor initializer (condition.getD (.literal (.bool true))) increment
        body := by
  obtain ⟨initializer', n₁, hread, rfl⟩ := forInitializer_accepts hinitializer
    (Nat.lt_succ_of_lt hlen) (n := n)
  simp only [List.length_cons, List.length_append] at hlen
  cases hcondition with
  | none =>
    obtain ⟨s, n₂, hend, hview⟩ := forEnd_accepts hnested initializer' (.literal (.bool true))
      hincrement hfinish hbody (n := n₁) (show _ + (finish :: (_ ++ rest)).length < fuel by
        simp only [List.length_cons, List.length_append]
        omega) hrest
    refine ⟨s, n₂, ?_, hview⟩
    exact (Action.bind_of_ok (expect_cons hstart)).trans ((Action.bind_of_ok hread).trans
      ((Action.bind_of_ok (isNext_cons (isSymbol_of_kind hsemicolon))).trans
        ((Action.bind_of_ok (expect_cons hsemicolon)).trans hend)))
  | @some _ e he =>
    obtain ⟨t, more, rfl, ht⟩ := Expression_opens_not he (s := .semicolon) rfl
    obtain ⟨e', n₂, hcondition, rfl⟩ := expression_accepts (fuel + 1) _ _ he
      (semicolon :: (third ++ finish :: (bodyTokens ++ rest))) n₁
      (by simp only [List.length_cons, List.length_append] at hlen ⊢; omega) (.cons hsemicolon rfl)
    obtain ⟨s, n₃, hend, hview⟩ := forEnd_accepts hnested initializer' e' hincrement hfinish hbody
      (n := n₂) (show _ + (finish :: (_ ++ rest)).length < fuel by
        simp only [List.length_cons, List.length_append]
        omega) hrest
    refine ⟨s, n₃, ?_, hview⟩
    exact (Action.bind_of_ok (expect_cons hstart)).trans ((Action.bind_of_ok hread).trans
      ((Action.bind_of_ok (isNext_cons ht)).trans ((Action.bind_of_ok hcondition).trans
        ((Action.bind_of_ok (expect_cons hsemicolon)).trans hend))))

/-- A statement that starts with no keyword of a statement is an expression. -/
theorem statementWith_expression {t : Token} (ht : Grammar.opensUnary t.kind = true) :
    statementWith fuel nested ⟨t :: rest, n⟩ = expressionStatement fuel ⟨t :: rest, n⟩ := by
  obtain ⟨kind, lexeme, line⟩ := t
  cases kind with
  | keyword k => cases k <;> first | rfl | cases ht
  | symbol s => cases s <;> first | rfl | cases ht
  | _ => rfl

theorem statementWith_accepts
    (hdeclaration : AcceptsStatements .declaration nested.declaration fuel)
    (hstatement : AcceptsStatements .statement nested.statement fuel) :
    AcceptsStatements .statement (statementWith (fuel + 1) nested) (fuel + 1) := by
  intro dangling tokens s h rest n hlen hrest
  cases h with
  | expression h =>
    obtain ⟨s, n', hread, hview⟩ := expressionStatement_accepts h hlen (n := n)
    obtain ⟨t, more, rfl, ht⟩ := h.starts
    exact ⟨s, n', (statementWith_expression ht).trans hread, hview⟩
  | @print word tokens e hword h =>
    obtain ⟨kind, lexeme, line⟩ := word
    cases hword
    simp only [List.length_cons] at hlen
    exact printStatement_accepts h (show _ + rest.length < fuel + 1 by omega)
  | @whileLoop _ word start finish tokens bodyTokens _ _ hword hstart hcondition hfinish hbody =>
    obtain ⟨kind, lexeme, line⟩ := word
    cases hword
    simp only [List.cons_append, List.append_assoc]
    simp only [List.length_cons, List.length_append] at hlen
    exact whileStatement_accepts hstatement hstart hcondition hfinish hbody
      (by simp only [List.length_cons, List.length_append]; omega) hrest
  | @forLoop _ word start semicolon finish first second third bodyTokens _ _ _ _ hword hstart
      hinitializer hcondition hsemicolon hincrement hfinish hbody =>
    obtain ⟨kind, lexeme, line⟩ := word
    cases hword
    simp only [List.cons_append, List.append_assoc]
    simp only [List.length_cons, List.length_append] at hlen
    exact forStatement_accepts hstatement hstart hinitializer hcondition hsemicolon hincrement
      hfinish hbody (by simp only [List.length_cons, List.length_append]; omega) hrest
  | @ifThen _ word start finish tokens thenTokens _ _ hword hstart hcondition hfinish hthen =>
    obtain ⟨kind, lexeme, line⟩ := word
    cases hword
    simp only [List.cons_append, List.append_assoc]
    simp only [List.length_cons, List.length_append] at hlen
    exact ifThen_accepts hstatement hstart hcondition hfinish hthen
      (by simp only [List.length_cons, List.length_append]; omega) hrest
  | @ifElse _ word start finish otherwise tokens thenTokens elseTokens _ _ _ hword hstart hcondition
      hfinish hthen hotherwise helse =>
    obtain ⟨kind, lexeme, line⟩ := word
    cases hword
    simp only [List.cons_append, List.append_assoc]
    simp only [List.length_cons, List.length_append] at hlen
    exact ifElse_accepts hstatement hstart hcondition hfinish hthen hotherwise helse
      (by simp only [List.length_cons, List.length_append]; omega) hrest
  | @block opening closing body hopening hbody hclosing =>
    obtain ⟨kind, lexeme, line⟩ := opening
    cases hopening
    simp only [List.length_cons, List.length_append, List.length_nil] at hlen
    obtain ⟨found, n', hfound, hview⟩ := blockBody_accepts hdeclaration hbody hclosing
      (n := n) (show _ + (closing :: rest).length < fuel by simp only [List.length_cons]; omega)
    refine ⟨.block found, n', ?_, by rw [Stmt.withoutIds, hview]⟩
    rw [List.cons_append, List.append_assoc, List.singleton_append]
    exact Action.bind_of_ok hfound
  | @returnValue word semicolon tokens value hword hvalue hsemicolon =>
    obtain ⟨kind, lexeme, line⟩ := word
    cases hword
    simp only [List.length_cons, List.length_append, List.length_nil] at hlen
    rw [List.cons_append, List.append_assoc, List.singleton_append]
    exact returnStatement_accepts line hvalue hsemicolon
      (show _ + (semicolon :: rest).length < fuel + 1 by simp only [List.length_cons]; omega)
  | @breakLoop word semicolon hword hsemicolon =>
    obtain ⟨kind, lexeme, line⟩ := word
    cases hword
    exact ⟨.breakLoop line, n, Action.bind_of_ok (expect_cons hsemicolon), rfl⟩

/-- A declaration that starts with no keyword of one is a statement. -/
theorem declarationWith_statement {t : Token} (ht : Grammar.Kind.statement.opens t.kind = true) :
    declarationWith fuel nested ⟨t :: rest, n⟩ = statementWith fuel nested ⟨t :: rest, n⟩ := by
  obtain ⟨kind, lexeme, line⟩ := t
  cases kind with
  | keyword k => cases k <;> first | rfl | cases ht
  | symbol s => cases s <;> rfl
  | _ => rfl

theorem declarationWith_accepts
    (hdeclaration : AcceptsStatements .declaration nested.declaration fuel)
    (hstatement : AcceptsStatements .statement nested.statement fuel) :
    AcceptsStatements .declaration (declarationWith (fuel + 1) nested) (fuel + 1) := by
  intro dangling tokens s h rest n hlen hrest
  cases h with
  | @classDecl word name opening closing methods hword hname hopening hbodies hmethods hclosing =>
    obtain ⟨kind, lexeme, line⟩ := word
    cases hword
    simp only [List.length_cons, List.length_append, List.length_nil] at hlen
    simp only [List.cons_append, List.append_assoc, List.nil_append]
    exact classDeclaration_accepts hdeclaration hname hopening hbodies hmethods hclosing
      (by simp only [List.length_cons]; omega)
  | @funDecl word tokens f body hword hbody h =>
    obtain ⟨kind, lexeme, line⟩ := word
    cases hword
    simp only [List.length_cons] at hlen
    obtain ⟨f', n', hread, hview⟩ := function_accepts hdeclaration .function hbody h rest n
      (by omega) trivial
    exact ⟨.funDecl f', n', Action.bind_of_ok hread, by rw [Stmt.withoutIds, hview]⟩
  | varDecl h =>
    obtain ⟨t, more, rfl, -⟩ := h.starts
    simp only [List.length_cons] at hlen
    obtain ⟨⟨kind, lexeme, line⟩, more, s', n', htokens, hword, hread, hview⟩ :=
      varDeclaration_accepts h hlen (n := n)
    cases htokens
    cases hword
    exact ⟨s', n', hread, hview⟩
  | statement h =>
    obtain ⟨s', n', hread, hview⟩ := statementWith_accepts hdeclaration hstatement _ _ _ h rest n
      hlen hrest
    obtain ⟨t, more, rfl, ht⟩ := h.starts
    exact ⟨s', n', (declarationWith_statement ht).trans hread, hview⟩

end

theorem statements_accept (fuel : Nat) : AcceptsStatements .declaration (declaration fuel) fuel ∧
    AcceptsStatements .statement (statement fuel) fuel := by
  induction fuel with
  | zero =>
    exact ⟨fun _ _ _ _ _ _ hlen _ => absurd hlen (Nat.not_lt_zero _),
      fun _ _ _ _ _ _ hlen _ => absurd hlen (Nat.not_lt_zero _)⟩
  | succ fuel ih =>
    rw [declaration, statement]
    exact ⟨declarationWith_accepts ih.1 ih.2, statementWith_accepts ih.1 ih.2⟩

theorem declaration_accepts (fuel : Nat) :
    AcceptsStatements .declaration (declaration fuel) fuel := (statements_accept fuel).1

theorem statement_accepts (fuel : Nat) :
    AcceptsStatements .statement (statement fuel) fuel := (statements_accept fuel).2

/-- Phrases that follow each other are read one by one. -/
theorem readAll_accepts {fuel : Nat} {phrases : List Grammar.Phrase} {turns : Nat} {n : NodeId}
    (h : ∀ d ∈ phrases, Grammar.Statement .declaration d.dangling d.tokens d.stmt)
    (hfuel : (Grammar.tokensOf phrases).length < fuel)
    (hturns : (Grammar.tokensOf phrases).length < turns) :
    ∃ r, readAll fuel turns ⟨Grammar.tokensOf phrases, n⟩ = some r ∧ r.refusals = [] ∧
      Stmt.allWithoutIds r.statements = phrases.map (·.stmt) := by
  induction phrases generalizing turns n with
  | nil =>
    obtain ⟨turns, rfl⟩ := Nat.exists_eq_add_of_lt hturns
    exact ⟨⟨[], [], n⟩, rfl, rfl, rfl⟩
  | cons d phrases ih =>
    obtain ⟨hd, hrest⟩ := List.forall_mem_cons.mp h
    have htokens : Grammar.tokensOf (d :: phrases) = d.tokens ++ Grammar.tokensOf phrases :=
      List.flatMap_cons
    rw [htokens, List.length_append] at hfuel hturns
    obtain ⟨turns, rfl⟩ : ∃ turns', turns = turns' + 1 := ⟨turns - 1, by omega⟩
    have hnoElse : NoElse d.dangling (Grammar.tokensOf phrases) := by
      cases phrases with
      | nil => exact fun _ t ht => nomatch ht
      | cons d' phrases =>
        obtain ⟨t, more, hmore, ht⟩ := (hrest d' (by simp)).starts
        intro _ t' ht'
        rw [Grammar.tokensOf, List.flatMap_cons, hmore] at ht'
        cases ht'
        refine Bool.eq_false_iff.mpr fun hk => ?_
        rw [Token.isKeyword_iff.mp hk] at ht
        cases ht
    obtain ⟨s, n', hs, hview⟩ := declaration_accepts fuel _ _ _ hd (Grammar.tokensOf phrases) n
      hfuel hnoElse
    obtain ⟨t, more, hmore, -⟩ := hd.starts
    have hpositive : 0 < d.tokens.length := by
      rw [hmore]
      simp
    obtain ⟨r, hr, hrefusals, hviews⟩ := ih hrest (by omega)
      (show _ < turns by omega) (n := n')
    refine ⟨{ r with statements := s :: r.statements }, ?_, hrefusals, ?_⟩
    · have hmoreTokens : (d.tokens ++ Grammar.tokensOf phrases).isEmpty = false := by
        rw [hmore]
        rfl
      rw [htokens]
      simp only [readAll, hmoreTokens, hs, hr]
      rfl
    · simp only [Stmt.allWithoutIds, hview, hviews, List.map_cons]

end Parsing

theorem parse_of_source {source : TokenStream} {ast : Program}
    (h : Grammar.Source source.tokens ast) (nextId : NodeId) :
    ∃ p next, Program.parse source nextId = (.ok p, next) ∧ p.withoutIds = ast := by
  generalize htokens : source.tokens = tokens at h
  obtain ⟨hphrases⟩ := h
  rename_i phrases
  have hlen : (Grammar.tokensOf phrases).length < Parsing.fuelFor source.tokens := by
    rw [htokens]
    exact Nat.lt_succ_self _
  obtain ⟨⟨statements, refusals, next⟩, hr, rfl, hview⟩ :=
    Parsing.readAll_accepts hphrases hlen hlen (n := nextId)
  refine ⟨statements, next, ?_, hview⟩
  simp only [Program.parse]
  rw [htokens] at hr ⊢
  rw [hr]

/-- The grammar is unambiguous: no token list is two programs. -/
theorem Grammar.Source.unique {tokens : List Token} {p q : Program} (hp : Grammar.Source tokens p)
    (hq : Grammar.Source tokens q) : p = q := by
  let source : TokenStream := ⟨tokens, 0⟩
  obtain ⟨p', n, hparse, rfl⟩ := parse_of_source (show Grammar.Source source.tokens p from hp) 0
  obtain ⟨q', n', hparse', rfl⟩ := parse_of_source (show Grammar.Source source.tokens q from hq) 0
  rw [hparse] at hparse'
  cases hparse'
  rfl

end LoxLang
