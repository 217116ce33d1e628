import LoxLang.Proofs.Relabeling
import LoxLang.Proofs.Scoping.Relabeled
import LoxLang.Session

/-!
# The grammar with later identities

A rule takes identities as they come and never looks at one. So from a later identity on it reads
the same tree with later identities in it, is refused at the same token, and uses up as many.

* `Shifts`: one rule does from a later identity on what another one does, moved along;
* `Shifts.bind`: for two rules in a row, and from there for every rule of the grammar;
* `checkSource_later`, `parseExpressionSource_later`: for whole sources.
-/

namespace LoxLang

/-- Every identity is `k` further on. -/
def Relabeling.later (k : Nat) : Relabeling := .ofIds (· + k)

namespace Parsing

/-- The same tokens, with the next free identity `k` further on. -/
def Cursor.later (k : Nat) (c : Cursor) : Cursor := { c with nextId := c.nextId + k }

/-- How a rule ends that reads with later identities. A refusal is at the same token. -/
def shifted {α β : Type} (k : Nat) (φ : α → β) :
    Outcome Refusal Cursor α → Outcome Refusal Cursor β
  | .ok a c => .ok (φ a) (c.later k)
  | .error e c => .error e (c.later k)
  | .outOfFuel => .outOfFuel

/-- With identities `k` further on, the second rule does what the first one does. -/
def Shifts {α β : Type} (k : Nat) (φ : α → β) (x : Parser α) (y : Parser β) : Prop :=
  ∀ c, y (c.later k) = shifted k φ (x c)

namespace Shifts

variable {α β γ δ : Type} {k : Nat} {φ : α → β} {ψ : γ → δ}

theorem pure {a : α} {b : β} (h : b = φ a) :
    Shifts k φ (Pure.pure a : Parser α) (Pure.pure b) := by
  intro c
  rw [h]
  rfl

theorem outOfFuel : Shifts k φ (Action.outOfFuel : Parser α) Action.outOfFuel := fun _ => rfl

theorem fail (e : Refusal) : Shifts k φ (Action.fail e : Parser α) (Action.fail e) := fun _ => rfl

theorem refuse (fault : SyntaxFault) :
    Shifts k φ (Parsing.refuse fault : Parser α) (Parsing.refuse fault) := fun _ => rfl

/-- A look at the tokens. -/
theorem look (f : List Token → α) :
    Shifts k (fun a => a) (fun c => .ok (f c.rest) c) (fun c => .ok (f c.rest) c) := fun _ => rfl

theorem bind {x : Parser α} {y : Parser β} {f : α → Parser γ} {g : β → Parser δ}
    (h : Shifts k φ x y) (hf : ∀ a, Shifts k ψ (f a) (g (φ a))) :
    Shifts k ψ (x >>= f) (y >>= g) := by
  intro c
  have hy := h c
  cases hx : x c with
  | ok a c' =>
    rw [hx] at hy
    rw [Action.bind_of_ok hx, Action.bind_of_ok hy]
    exact hf a c'
  | error e c' =>
    rw [hx] at hy
    rw [Action.bind_of_error hx, Action.bind_of_error hy]
    rfl
  | outOfFuel =>
    rw [hx] at hy
    rw [Action.bind_of_outOfFuel hx, Action.bind_of_outOfFuel hy]
    rfl

theorem map {f : α → γ} {g : β → δ} {x : Parser α} {y : Parser β} (h : Shifts k φ x y)
    (hf : ∀ a, g (φ a) = ψ (f a)) : Shifts k ψ (f <$> x) (g <$> y) :=
  h.bind fun a => pure (hf a)

/-- A rule that goes on in the one or in the other way. -/
theorem ite {p : Prop} [Decidable p] {x x' : Parser α} {y y' : Parser β} (h : Shifts k φ x y)
    (h' : Shifts k φ x' y') : Shifts k φ (if p then x else x') (if p then y else y') := by
  by_cases hp : p
  · rw [if_pos hp, if_pos hp]
    exact h
  · rw [if_neg hp, if_neg hp]
    exact h'

/-- One of two rules, and what is read behind it. -/
theorem orElse {p : Prop} [Decidable p] {x x' : Parser α} {y y' : Parser β} {f : α → Parser γ}
    {g : β → Parser δ} (h : Shifts k φ x y) (h' : Shifts k φ x' y')
    (hf : ∀ a, Shifts k ψ (f a) (g (φ a))) :
    Shifts k ψ (if p then x >>= f else x' >>= f) (if p then y >>= g else y' >>= g) :=
  .ite (h.bind hf) (h'.bind hf)

end Shifts

variable {k : Nat}

/-! ## Steps -/

theorem skip_shifts : Shifts k (fun u => u) skip skip := fun _ => rfl

theorem freshId_shifts : Shifts k (· + k) freshId freshId := by
  intro c
  have hnext : c.nextId + k + 1 = c.nextId + 1 + k := Nat.add_right_comm _ _ _
  exact congrArg (fun n => Outcome.ok (c.nextId + k) (Cursor.mk c.rest n)) hnext

theorem takeIf_shifts (test : Token → Bool) :
    Shifts k (fun t => t) (takeIf test) (takeIf test) := by
  intro c
  obtain ⟨tokens, nextId⟩ := c
  cases tokens with
  | nil => rfl
  | cons t rest =>
    dsimp only [takeIf, Cursor.later]
    split <;> rfl

theorem expectIf_shifts (test : Token → Bool) (fault : SyntaxFault) :
    Shifts k (fun t => t) (expectIf test fault) (expectIf test fault) := by
  intro c
  obtain ⟨tokens, nextId⟩ := c
  cases tokens with
  | nil => rfl
  | cons t rest =>
    dsimp only [expectIf, Cursor.later]
    split <;> rfl

theorem expect_shifts (s : Symbol) (fault : SyntaxFault) :
    Shifts k (fun t => t) (expect s fault) (expect s fault) :=
  expectIf_shifts _ fault

theorem expectName_shifts (fault : SyntaxFault) :
    Shifts k (fun name => name) (expectName fault) (expectName fault) :=
  (expectIf_shifts _ fault).bind fun _ => .pure rfl

section
variable {α β : Type} {φ : α → β} {item : Parser α} {item' : Parser β}

theorem separated_shifts {tooMany : SyntaxFault} (hitem : Shifts k φ item item')
    (fuel count : Nat) :
    Shifts k (List.map φ) (separated tooMany item fuel count)
      (separated tooMany item' fuel count) := by
  induction fuel generalizing count with
  | zero => exact .outOfFuel
  | succ fuel ih =>
    refine .ite (.refuse tooMany) (hitem.bind fun first => ?_)
    refine (takeIf_shifts _).bind fun comma => ?_
    cases comma with
    | none => exact .pure rfl
    | some _ => exact (ih (count + 1)).bind fun _ => .pure rfl

theorem separatedOrNone_shifts (tooMany : SyntaxFault) (hitem : Shifts k φ item item')
    (fuel : Nat) :
    Shifts k (List.map φ) (separatedOrNone tooMany item fuel)
      (separatedOrNone tooMany item' fuel) := by
  refine (Shifts.look fun tokens => tokens.head?.any (·.isSymbol .rightParen)).bind fun _ => ?_
  exact .ite (.pure rfl) (separated_shifts hitem fuel 0)

theorem untilBrace_shifts (hitem : Shifts k φ item item') (fuel : Nat) :
    Shifts k (List.map φ) (untilBrace item fuel) (untilBrace item' fuel) := by
  induction fuel with
  | zero => exact .outOfFuel
  | succ fuel ih =>
    have hcons : Shifts k (List.map φ)
        (item >>= fun first => untilBrace item fuel >>= fun others => Pure.pure (first :: others))
        (item' >>= fun first => untilBrace item' fuel >>= fun others =>
          Pure.pure (first :: others)) :=
      hitem.bind fun _ => ih.bind fun _ => .pure rfl
    refine (Shifts.look fun tokens => tokens.head?.any fun t => !t.isSymbol .rightBrace).bind
      fun _ => ?_
    exact .ite hcons (.pure rfl)

end

/-! ## Expressions -/

/-- A rule for expressions that reads the same expression with later identities. -/
abbrev ShiftsExpr (k : Nat) (x : Parser Expr) : Prop :=
  Shifts k (Expr.relabel (.later k)) x x

section
variable {ex : Parser Expr}

theorem takeOperator_shifts (level : Level) :
    Shifts k (fun operator => operator) (takeOperator level) (takeOperator level) := by
  intro c
  obtain ⟨tokens, nextId⟩ := c
  cases tokens with
  | nil => rfl
  | cons t rest =>
    dsimp only [takeOperator, Cursor.later]
    cases level t.kind <;> rfl

theorem operands_shift {level : Level} {operand : Parser Expr} (hoperand : ShiftsExpr k operand)
    (fuel : Nat) (left : Expr) :
    Shifts k (Expr.relabel (.later k)) (operands level operand fuel left)
      (operands level operand fuel (left.relabel (.later k))) := by
  induction fuel generalizing left with
  | zero => exact .outOfFuel
  | succ fuel ih =>
    refine (takeOperator_shifts level).bind fun operator => ?_
    cases operator with
    | none => exact .pure rfl
    | some op =>
      obtain ⟨op, line⟩ := op
      refine hoperand.bind fun right => ?_
      have happly : op.apply line (left.relabel (.later k)) (right.relabel (.later k))
          = (op.apply line left right).relabel (.later k) := by
        cases op <;> rfl
      rw [happly]
      exact ih _

theorem levels_shift {operand : Parser Expr} (hoperand : ShiftsExpr k operand) (fuel : Nat)
    (levels : List Level) : ShiftsExpr k (levels.foldr (binaryLevel fuel) operand) := by
  induction levels with
  | nil => exact hoperand
  | cons level rest ih => exact ih.bind fun first => operands_shift ih fuel first

theorem primary_shifts (hex : ShiftsExpr k ex) : ShiftsExpr k (primary ex) := by
  refine (Shifts.look fun tokens => tokens).bind fun here => ?_
  split
  · exact .refuse _
  · split
    · exact skip_shifts.bind fun _ => .pure rfl
    · exact skip_shifts.bind fun _ => .pure rfl
    · exact skip_shifts.bind fun _ => .pure rfl
    · exact skip_shifts.bind fun _ => .pure rfl
    · exact skip_shifts.bind fun _ => .pure rfl
    · exact skip_shifts.bind fun _ => freshId_shifts.bind fun _ => .pure rfl
    · exact skip_shifts.bind fun _ => freshId_shifts.bind fun _ => .pure rfl
    · exact skip_shifts.bind fun _ => hex.bind fun _ => (expect_shifts _ _).bind fun _ =>
        .pure rfl
    · exact .refuse _

theorem suffixes_shift (hex : ShiftsExpr k ex) (fuel : Nat) (callee : Expr) :
    Shifts k (Expr.relabel (.later k)) (suffixes ex fuel callee)
      (suffixes ex fuel (callee.relabel (.later k))) := by
  induction fuel generalizing callee with
  | zero => exact .outOfFuel
  | succ fuel ih =>
    refine (Shifts.look fun tokens => tokens.head?.map (·.kind)).bind fun kind => ?_
    split
    · have harguments := separatedOrNone_shifts .tooManyArguments hex fuel
      refine skip_shifts.bind fun _ => harguments.bind fun arguments => ?_
      rw [← Expr.allRelabel_eq_map]
      exact (expect_shifts _ _).bind fun _ => ih _
    · exact skip_shifts.bind fun _ => (expectName_shifts _).bind fun _ => ih _
    · exact .pure rfl

theorem unary_shifts (hex : ShiftsExpr k ex) (fuel : Nat) : ShiftsExpr k (unary ex fuel) := by
  induction fuel with
  | zero => exact .outOfFuel
  | succ fuel ih =>
    refine (takeIf_shifts _).bind fun operator => ?_
    cases operator with
    | none => exact (primary_shifts hex).bind fun callee => suffixes_shift hex _ callee
    | some t => exact ih.bind fun _ => .pure rfl

theorem assignment_shifts (hex : ShiftsExpr k ex) (fuel : Nat) :
    ShiftsExpr k (assignment ex fuel) := by
  refine (levels_shift (unary_shifts hex fuel) fuel levels).bind fun target => ?_
  refine (Shifts.look fun tokens => tokens).bind fun here => (takeIf_shifts _).bind fun equal => ?_
  cases equal with
  | none => exact .pure rfl
  | some _ =>
    refine hex.bind fun value => ?_
    cases target with
    | «variable» id name => exact freshId_shifts.bind fun _ => .pure rfl
    | get object name => exact .pure rfl
    | _ => exact .fail _

theorem expression_shifts (fuel : Nat) : ShiftsExpr k (expression fuel) := by
  induction fuel with
  | zero => exact .outOfFuel
  | succ fuel ih => exact assignment_shifts ih _

theorem wholeExpression_shifts (fuel : Nat) : ShiftsExpr k (wholeExpression fuel) := by
  refine (expression_shifts fuel).bind fun e => (Shifts.look fun tokens => tokens).bind
    fun here => ?_
  cases here with
  | nil => exact .pure rfl
  | cons _ _ => exact .refuse _

end

/-! ## Statements -/

/-- A rule for statements that reads the same statement with later identities. -/
abbrev ShiftsStmt (k : Nat) (x : Parser Stmt) : Prop :=
  Shifts k (Stmt.relabel (.later k)) x x

section
variable {nested : Nested} (fuel : Nat)

theorem expression_then_shifts {s : Symbol} {fault : SyntaxFault} {f : Expr → Token → Stmt}
    (hf : ∀ e t, f (e.relabel (.later k)) t = (f e t).relabel (.later k)) :
    ShiftsStmt k (do
      let e ← expression fuel
      let t ← expect s fault
      return f e t) :=
  (expression_shifts fuel).bind fun e => (expect_shifts s fault).bind fun t => .pure (hf e t)

/-- An expression that may be left out. -/
theorem some_expression_shifts :
    Shifts k (Option.map (Expr.relabel (.later k))) (some <$> expression fuel)
      (some <$> expression fuel) :=
  (expression_shifts fuel).map fun _ => rfl

theorem blockBody_shifts (hdeclaration : ShiftsStmt k nested.declaration) :
    Shifts k (Stmt.allRelabel (.later k)) (blockBody fuel nested) (blockBody fuel nested) := by
  have hbody := untilBrace_shifts hdeclaration fuel
  refine hbody.bind fun body => (expect_shifts _ _).bind fun _ => .pure ?_
  exact (Stmt.allRelabel_eq_map _ body).symm

theorem function_shifts (hdeclaration : ShiftsStmt k nested.declaration) (kind : FunctionKind) :
    Shifts k (FunctionDecl.relabel (.later k)) (function fuel nested kind)
      (function fuel nested kind) := by
  have hparams := separatedOrNone_shifts (k := k) .tooManyParameters
    (expectName_shifts .parameterName) fuel
  refine (expectName_shifts _).bind fun _ => (expect_shifts _ _).bind fun _ => ?_
  refine hparams.bind fun params => (expect_shifts _ _).bind fun _ => ?_
  exact (expect_shifts _ _).bind fun _ =>
    (blockBody_shifts fuel hdeclaration).bind fun _ => .pure rfl

theorem classDeclaration_shifts (hdeclaration : ShiftsStmt k nested.declaration) :
    ShiftsStmt k (classDeclaration fuel nested) := by
  have hmethods := untilBrace_shifts (function_shifts fuel hdeclaration .method) fuel
  refine (expectName_shifts _).bind fun name => (expect_shifts _ _).bind fun _ => ?_
  refine hmethods.bind fun methods => (expect_shifts _ _).bind fun _ => .pure ?_
  exact congrArg (Stmt.classDecl name) (FunctionDecl.allRelabel_eq_map _ methods).symm

theorem varDeclaration_shifts : ShiftsStmt k (varDeclaration fuel) := by
  refine (expectName_shifts _).bind fun name => (takeIf_shifts _).bind fun equal => ?_
  cases equal with
  | none => exact (expect_shifts _ _).bind fun _ => .pure rfl
  | some _ => exact expression_then_shifts fuel fun _ _ => rfl

theorem ifStatement_shifts (hstatement : ShiftsStmt k nested.statement) :
    ShiftsStmt k (ifStatement fuel nested) := by
  refine (expect_shifts _ _).bind fun _ => (expression_shifts fuel).bind fun _ => ?_
  refine (expect_shifts _ _).bind fun _ => hstatement.bind fun _ => ?_
  refine (takeIf_shifts _).bind fun elseWord => ?_
  cases elseWord with
  | none => exact .pure rfl
  | some _ => exact hstatement.bind fun _ => .pure rfl

theorem whileStatement_shifts (hstatement : ShiftsStmt k nested.statement) :
    ShiftsStmt k (whileStatement fuel nested) := by
  refine (expect_shifts _ _).bind fun _ => (expression_shifts fuel).bind fun _ => ?_
  exact (expect_shifts _ _).bind fun _ => hstatement.bind fun _ => .pure rfl

theorem desugarFor_later (initializer : Option Stmt) (condition : Expr) (increment : Option Expr)
    (body : Stmt) :
    desugarFor (initializer.map (Stmt.relabel (.later k))) (condition.relabel (.later k))
        (increment.map (Expr.relabel (.later k))) (body.relabel (.later k))
      = (desugarFor initializer condition increment body).relabel (.later k) := by
  cases initializer <;> cases increment <;> rfl

theorem forInitializer_shifts :
    Shifts k (Option.map (Stmt.relabel (.later k))) (forInitializer fuel)
      (forInitializer fuel) := by
  have hexpression : ShiftsStmt k (expressionStatement fuel) :=
    expression_then_shifts fuel fun _ _ => rfl
  refine (Shifts.look fun tokens => tokens.head?.map (·.kind)).bind fun kind => ?_
  split
  · exact skip_shifts.bind fun _ => .pure rfl
  · exact skip_shifts.bind fun _ => (varDeclaration_shifts fuel).bind fun _ => .pure rfl
  · exact hexpression.bind fun _ => .pure rfl

theorem forStatement_shifts (hstatement : ShiftsStmt k nested.statement) :
    ShiftsStmt k (forStatement fuel nested) := by
  have hex : ShiftsExpr k (expression fuel) := expression_shifts fuel
  refine (expect_shifts _ _).bind fun _ => (forInitializer_shifts fuel).bind fun first => ?_
  refine (Shifts.look fun tokens => tokens.head?.any (·.isSymbol .semicolon)).bind fun _ => ?_
  refine .orElse (.pure rfl) hex fun condition => ?_
  refine (expect_shifts _ _).bind fun _ => ?_
  refine (Shifts.look fun tokens => tokens.head?.any (·.isSymbol .rightParen)).bind fun _ => ?_
  refine .orElse (.pure rfl) (some_expression_shifts fuel) fun increment => ?_
  refine (expect_shifts _ _).bind fun _ => hstatement.bind fun body => .pure ?_
  exact desugarFor_later first condition increment body

theorem returnStatement_shifts (line : Nat) : ShiftsStmt k (returnStatement fuel line) := by
  refine (Shifts.look fun tokens => tokens.head?.any (·.isSymbol .semicolon)).bind fun _ => ?_
  refine .orElse (.pure rfl) (some_expression_shifts fuel) fun value => ?_
  refine (expect_shifts _ _).bind fun _ => .pure ?_
  cases value <;> rfl

theorem breakStatement_shifts (line : Nat) : ShiftsStmt k (breakStatement line) :=
  (expect_shifts _ _).bind fun _ => .pure rfl

theorem statementWith_shifts (hdeclaration : ShiftsStmt k nested.declaration)
    (hstatement : ShiftsStmt k nested.statement) : ShiftsStmt k (statementWith fuel nested) := by
  have hexpression : ShiftsStmt k (expressionStatement fuel) :=
    expression_then_shifts fuel fun _ _ => rfl
  refine (Shifts.look fun tokens => tokens).bind fun here => ?_
  split
  · exact hexpression
  · split
    · exact skip_shifts.bind fun _ => forStatement_shifts fuel hstatement
    · exact skip_shifts.bind fun _ => ifStatement_shifts fuel hstatement
    · exact skip_shifts.bind fun _ => whileStatement_shifts fuel hstatement
    · exact skip_shifts.bind fun _ => returnStatement_shifts fuel _
    · exact skip_shifts.bind fun _ => breakStatement_shifts _
    · exact skip_shifts.bind fun _ => expression_then_shifts fuel fun _ _ => rfl
    · exact skip_shifts.bind fun _ => (blockBody_shifts fuel hdeclaration).bind fun _ => .pure rfl
    · exact hexpression

theorem declarationWith_shifts (hdeclaration : ShiftsStmt k nested.declaration)
    (hstatement : ShiftsStmt k nested.statement) : ShiftsStmt k (declarationWith fuel nested) := by
  refine (Shifts.look fun tokens => tokens.head?.map (·.kind)).bind fun kind => ?_
  split
  · exact skip_shifts.bind fun _ => classDeclaration_shifts fuel hdeclaration
  · exact skip_shifts.bind fun _ =>
      (function_shifts fuel hdeclaration .function).bind fun _ => .pure rfl
  · exact skip_shifts.bind fun _ => varDeclaration_shifts fuel
  · exact statementWith_shifts fuel hdeclaration hstatement

theorem statements_shift : ShiftsStmt k (declaration fuel) ∧ ShiftsStmt k (statement fuel) := by
  induction fuel with
  | zero => exact ⟨.outOfFuel, .outOfFuel⟩
  | succ fuel ih =>
    obtain ⟨hdeclaration, hstatement⟩ := ih
    constructor
    · exact declarationWith_shifts _ hdeclaration hstatement
    · exact statementWith_shifts _ hdeclaration hstatement

end

/-- A reading with later identities: the same statements and the same refusals. -/
def Reading.later (k : Nat) (r : Reading) : Reading :=
  ⟨Stmt.allRelabel (.later k) r.statements, r.refusals, r.nextId + k⟩

theorem readAll_later (fuel turns : Nat) (c : Cursor) :
    readAll fuel turns (c.later k) = (readAll fuel turns c).map (Reading.later k) := by
  induction turns generalizing c with
  | zero => rfl
  | succ turns ih =>
    have hdeclaration := (statements_shift (k := k) fuel).1 c
    have hrest : (c.later k).rest = c.rest := rfl
    unfold readAll
    rw [hrest, hdeclaration]
    split
    · rfl
    · cases declaration fuel c with
      | ok s c' =>
        dsimp only [shifted]
        rw [ih c']
        cases readAll fuel turns c' <;> rfl
      | error refusal c' =>
        have hrest' := ih { c' with rest := synchronize c'.rest }
        dsimp only [shifted]
        change (readAll fuel turns (Cursor.later k { c' with rest := synchronize c'.rest })).bind
          _ = _
        rw [hrest']
        cases readAll fuel turns { c' with rest := synchronize c'.rest } <;> rfl
      | outOfFuel => rfl

end Parsing

/-! ## Sources -/

section
variable (k : Nat) (nextId : NodeId)

theorem Program.parse_later (stream : TokenStream) :
    Program.parse stream (nextId + k)
      = ((Program.parse stream nextId).1.map (Program.relabel (.later k)),
          (Program.parse stream nextId).2 + k) := by
  have hread := Parsing.readAll_later (k := k) (Parsing.fuelFor stream.tokens)
    (Parsing.fuelFor stream.tokens) ⟨stream.tokens, nextId⟩
  unfold Program.parse
  dsimp only [Parsing.Cursor.later] at hread ⊢
  rw [hread]
  cases Parsing.readAll (Parsing.fuelFor stream.tokens) (Parsing.fuelFor stream.tokens)
    ⟨stream.tokens, nextId⟩ with
  | none => rfl
  | some reading =>
    obtain ⟨statements, refusals, next⟩ := reading
    cases refusals <;> rfl

theorem Expr.parse_later (stream : TokenStream) :
    Expr.parse stream (nextId + k)
      = ((Expr.parse stream nextId).1.map (Expr.relabel (.later k)),
          (Expr.parse stream nextId).2 + k) := by
  have hwhole := Parsing.wholeExpression_shifts (k := k) (Parsing.fuelFor stream.tokens)
    ⟨stream.tokens, nextId⟩
  unfold Expr.parse
  dsimp only [Parsing.Cursor.later] at hwhole
  rw [hwhole]
  cases Parsing.wholeExpression (Parsing.fuelFor stream.tokens) ⟨stream.tokens, nextId⟩ <;> rfl

variable (source : String)

theorem parseSource_later :
    parseSource source (nextId + k)
      = ((parseSource source nextId).1.map (Program.relabel (.later k)),
          (parseSource source nextId).2 + k) := by
  unfold parseSource
  cases (scan source).tokens? with
  | error faults => rfl
  | ok stream =>
    dsimp only
    rw [Program.parse_later]
    obtain ⟨answer, next⟩ := Program.parse stream nextId
    cases answer <;> rfl

/-- A checked program with later identities. -/
def Checked.later (c : Checked) : Checked :=
  ⟨c.program.relabel (.later k), Distances.relabel (.later k) c.distances⟩

/-- A source read from a later identity on has the same faults, or is the same program with later
identities. -/
theorem checkSource_later :
    checkSource source (nextId + k)
      = ((checkSource source nextId).1.map (Checked.later k),
          (checkSource source nextId).2 + k) := by
  unfold checkSource
  rw [parseSource_later]
  cases parseSource source nextId with
  | mk answer next =>
    cases answer with
    | error problems => rfl
    | ok program =>
      dsimp only [Except.map]
      rw [resolve_relabel]
      cases Program.resolve program with
      | error e => rfl
      | ok distances => rfl

theorem parseExpressionSource_later :
    parseExpressionSource source (nextId + k)
      = ((parseExpressionSource source nextId).1.map (Expr.relabel (.later k)),
          (parseExpressionSource source nextId).2 + k) := by
  unfold parseExpressionSource
  cases (scan source).tokens? with
  | error faults => rfl
  | ok stream =>
    dsimp only
    rw [Expr.parse_later]
    obtain ⟨answer, next⟩ := Expr.parse stream nextId
    cases answer <;> rfl

end

end LoxLang
