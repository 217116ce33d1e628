import LoxLang.Proofs.Parsing.Slices

/-!
# Rules over a slice

Every rule of the grammar ends over a slice as it does over its tokens, with the lines of the slice
in its tree. Where a rule over tokens looks at the kind of the next one, it is first written with
its alternatives one after the other, as a slice is read.

* `expression_mirrors`: for expressions;
* `statements_mirror`: for declarations and statements, by induction on the fuel of both rules.
-/

namespace LoxLang

namespace Parsing

namespace Indexed

variable {S : Slice}

/-! ## Lists -/

section
variable {α β : Type} {φ : α → β} {item : Parser α} {item' : Reads β}

theorem separated_mirrors (tooMany : SyntaxFault) (htooMany : tooMany ≠ .assignmentTarget)
    (hitem : Mirrors S φ item item') (fuel count : Nat) :
    Mirrors S (List.map φ) (Parsing.separated tooMany item fuel count)
      (separated tooMany item' fuel count) := by
  induction fuel generalizing count with
  | zero => exact .outOfFuel
  | succ fuel ih =>
    refine .ite (object_mirrors tooMany htooMany) (hitem.bind fun first => ?_)
    refine (accept_mirrors (.symbol .comma)).bind fun comma => ?_
    cases comma with
    | none => exact .pure rfl
    | some _ => exact (ih (count + 1)).bind fun _ => .pure rfl

theorem separatedOrNone_mirrors (tooMany : SyntaxFault) (htooMany : tooMany ≠ .assignmentTarget)
    (hitem : Mirrors S φ item item') (fuel : Nat) :
    Mirrors S (List.map φ) (Parsing.separatedOrNone tooMany item fuel)
      (separatedOrNone tooMany item' fuel) := by
  refine (check_mirrors (.symbol .rightParen)).bind fun _ => ?_
  exact .ite (.pure rfl) (separated_mirrors tooMany htooMany hitem fuel 0)

theorem untilBrace_mirrors (hitem : Mirrors S φ item item') (fuel : Nat) :
    Mirrors S (List.map φ) (Parsing.untilBrace item fuel) (untilBrace item' fuel) := by
  induction fuel with
  | zero => exact .outOfFuel
  | succ fuel ih =>
    refine goesOn_mirrors.bind fun _ => ?_
    exact .ite (hitem.bind fun _ => ih.bind fun _ => .pure rfl) (.pure rfl)

end

/-! ## Expressions -/

/-- A rule for expressions that reads the same expression over a slice. -/
abbrev MirrorsExpr (S : Slice) (x : Parser Expr) (y : Reads Expr) : Prop :=
  Mirrors S (Expr.relabel S.lines) x y

/-- The table has the operators of the level. -/
def Lists (level : Level) (table : Table) : Prop :=
  ∀ t : Token, level t.kind = (table.find? (·.1.isOf t)).map (·.2)

theorem tables_list : List.Forall₂ Lists levels tables := by
  refine .cons ?_ (.cons ?_ (.cons ?_ (.cons ?_ (.cons ?_ (.cons ?_ .nil)))))
  all_goals
    rintro ⟨kind, lexeme, line⟩
    cases kind with
    | symbol s => cases s <;> rfl
    | keyword k => cases k <;> rfl
    | _ => rfl

/-- Two rules are the same if they do the same at the end and before a token of every kind. -/
theorem rule_ext {α : Type} {x y : Parser α} (hnil : ∀ nextId, x ⟨[], nextId⟩ = y ⟨[], nextId⟩)
    (hcons : ∀ kind lexeme line rest nextId,
      x ⟨⟨kind, lexeme, line⟩ :: rest, nextId⟩ = y ⟨⟨kind, lexeme, line⟩ :: rest, nextId⟩) :
    x = y := by
  funext ⟨tokens, nextId⟩
  cases tokens with
  | nil => exact hnil nextId
  | cons t rest => exact hcons t.kind t.lexeme t.line rest nextId

theorem choose_nil {α : Type} (otherwise : Parser α) (branches : List (Sign × (Token → Parser α)))
    (nextId : NodeId) : choose otherwise branches ⟨[], nextId⟩ = otherwise ⟨[], nextId⟩ := by
  induction branches with
  | nil => rfl
  | cons b others ih => exact ih

theorem choose_cons {α : Type} (otherwise : Parser α) (branches : List (Sign × (Token → Parser α)))
    (t : Token) (rest : List Token) (nextId : NodeId) :
    choose otherwise branches ⟨t :: rest, nextId⟩ =
      match branches.find? (·.1.isOf t) with
      | some b => b.2 t ⟨rest, nextId⟩
      | none => otherwise ⟨t :: rest, nextId⟩ := by
  induction branches with
  | nil => rfl
  | cons b others ih =>
    obtain ⟨sign, rule⟩ := b
    simp only [choose, List.find?_cons]
    cases sign.isOf t with
    | true => rfl
    | false => exact ih

/-- Taking an operator, with its alternatives one after the other. -/
theorem takeOperator_eq {level : Level} {table : Table} (h : Lists level table) :
    Parsing.takeOperator level
      = choose (pure none) (table.map fun b => (b.1, fun t => pure (some (b.2, t.line)))) := by
  funext ⟨tokens, nextId⟩
  cases tokens with
  | nil =>
    rw [choose_nil]
    rfl
  | cons t rest =>
    rw [choose_cons, List.find?_map]
    unfold Parsing.takeOperator
    simp only [h t, Function.comp_def]
    cases table.find? (·.1.isOf t) <;> rfl

/-- The operator with its line in the slice. -/
def moveOperator (S : Slice) : DyadicOp × Nat → DyadicOp × Nat
  | (.binary op, line) => (.binary op, S.line line)
  | (.logical op, _) => (.logical op, 0)

theorem operatorLine_mirrors (op : DyadicOp) (t : Token) :
    MirrorsBehind S t (Option.map (moveOperator S)) (pure (some (op, t.line)))
      (do return some (op, ← operatorLine op)) := by
  intro c s hs
  cases op with
  | binary op =>
    refine .of_eq (Action.bind_of_ok (Action.bind_of_ok hs.previous_eq)) ?_
    exact .ok rfl hs.toPoints
  | logical op => exact .ok rfl hs.toPoints

theorem takeOperator_mirrors {level : Level} {table : Table} (h : Lists level table) :
    Mirrors S (Option.map (moveOperator S)) (Parsing.takeOperator level) (takeOperator table) := by
  rw [takeOperator_eq h]
  refine firstOf_mirrors (.pure rfl) ?_
  rw [List.forall₂_map_left_iff, List.forall₂_map_right_iff]
  exact List.forall₂_same.mpr fun b _ => ⟨rfl, fun t _ => operatorLine_mirrors b.2 t⟩

theorem apply_moveOperator (op : DyadicOp) (line : Nat) (left right : Expr) :
    (moveOperator S (op, line)).1.apply (moveOperator S (op, line)).2 (left.relabel S.lines)
        (right.relabel S.lines)
      = (op.apply line left right).relabel S.lines := by
  cases op <;> rfl

section
variable {ex : Parser Expr} {ex' : Reads Expr}

theorem operands_mirror {level : Level} {table : Table} (h : Lists level table)
    {operand : Parser Expr} {operand' : Reads Expr} (hoperand : MirrorsExpr S operand operand')
    (fuel : Nat) (left : Expr) :
    Mirrors S (Expr.relabel S.lines) (Parsing.operands level operand fuel left)
      (operands table operand' fuel (left.relabel S.lines)) := by
  induction fuel generalizing left with
  | zero => exact .outOfFuel
  | succ fuel ih =>
    refine (takeOperator_mirrors h).bind fun operator => ?_
    cases operator with
    | none => exact .pure rfl
    | some operator =>
      obtain ⟨op, line⟩ := operator
      refine hoperand.bind fun right => ?_
      have hnext := ih (op.apply line left right)
      rw [← apply_moveOperator] at hnext
      exact hnext

theorem levels_mirror {operand : Parser Expr} {operand' : Reads Expr}
    (hoperand : MirrorsExpr S operand operand') (fuel : Nat) {levels : List Level}
    {tables : List Table} (h : List.Forall₂ Lists levels tables) :
    MirrorsExpr S (levels.foldr (Parsing.binaryLevel fuel) operand)
      (tables.foldr (binaryLevel fuel) operand') := by
  induction h with
  | nil => exact hoperand
  | cons hlevel _ ih => exact ih.bind fun first => operands_mirror hlevel ih fuel first

/-- An identity is given out before the token is skipped, or behind it. -/
theorem freshId_advance_mirrors {f : NodeId → Expr} {g : NodeId → Expr}
    (h : ∀ id, g id = (f id).relabel S.lines) :
    MirrorsExpr S (skip >>= fun _ => Parsing.freshId >>= fun id => pure (f id))
      (freshId >>= fun id => advance >>= fun _ => pure (g id)) := by
  change MirrorsExpr S (Parsing.freshId >>= fun id => skip >>= fun _ => pure (f id)) _
  exact freshId_mirrors.bind fun id => advance_mirrors fun _ => .pure (h id)

theorem primary_mirrors (hex : MirrorsExpr S ex ex') :
    MirrorsExpr S (Parsing.primary ex) (primary ex') := by
  refine peek_mirrors.bind fun here => ?_
  cases here with
  | nil => exact object_mirrors .expression nofun
  | cons t rest =>
    obtain ⟨kind, lexeme, line⟩ := t
    cases kind with
    | symbol s =>
      cases s with
      | leftParen =>
        exact advance_mirrors fun _ => hex.bind fun _ =>
          (consumeSymbol_mirrors .groupEnd nofun).bind fun _ => .pure rfl
      | _ => exact object_mirrors .expression nofun
    | keyword k =>
      cases k with
      | falseWord | trueWord | nilWord => exact advance_mirrors fun _ => .pure rfl
      | thisWord => exact freshId_advance_mirrors fun _ => rfl
      | _ => exact object_mirrors .expression nofun
    | identifier => exact freshId_advance_mirrors fun _ => rfl
    | string value => exact advance_mirrors fun _ => .pure rfl
    | number value => exact advance_mirrors fun _ => .pure rfl

/-- Calls and property accesses, one after the other. -/
theorem suffixes_eq (fuel : Nat) (callee : Expr) :
    Parsing.suffixes ex (fuel + 1) callee = choose (pure callee)
      [(.symbol .leftParen, fun _ => do
          let arguments ← Parsing.separatedOrNone .tooManyArguments ex fuel
          let paren ← expect .rightParen .argumentsEnd
          Parsing.suffixes ex fuel (.call callee paren.line arguments)),
       (.symbol .dot, fun _ => do
          let name ← expectName .propertyName
          Parsing.suffixes ex fuel (.get callee name))] := by
  refine rule_ext (fun _ => rfl) fun kind _ _ _ _ => ?_
  cases kind with
  | symbol s => cases s <;> rfl
  | _ => rfl

theorem finishCall_bind {α : Type} (fuel : Nat) (callee : Expr) (f : Expr → Reads α) :
    finishCall ex' fuel callee >>= f = (do
      let arguments ← separatedOrNone .tooManyArguments ex' fuel
      let paren ← consumeSymbol .rightParen .argumentsEnd
      f (.call callee paren.line arguments)) := by
  unfold finishCall
  rw [Action.bind_assoc]
  exact congrArg (_ >>= ·) (funext fun _ => Action.bind_assoc _ _ _)

theorem property_bind {α : Type} (object : Expr) (f : Expr → Reads α) :
    property object >>= f = (do
      let name ← consumeName .propertyName
      f (.get object name)) :=
  Action.bind_assoc _ _ _

theorem suffixes_mirror (hex : MirrorsExpr S ex ex') (fuel : Nat) (callee : Expr) :
    Mirrors S (Expr.relabel S.lines) (Parsing.suffixes ex fuel callee)
      (suffixes ex' fuel (callee.relabel S.lines)) := by
  induction fuel generalizing callee with
  | zero => exact .outOfFuel
  | succ fuel ih =>
    rw [suffixes_eq]
    refine firstOf_mirrors (.pure rfl) (.cons (.plain ?_) (.cons (.plain ?_) .nil))
    · rw [finishCall_bind]
      refine (separatedOrNone_mirrors .tooManyArguments nofun hex fuel).bind fun arguments => ?_
      rw [← Expr.allRelabel_eq_map]
      exact (consumeSymbol_mirrors .argumentsEnd nofun).bind fun _ => ih _
    · rw [property_bind]
      exact (consumeName_mirrors .propertyName nofun).bind fun name => ih (.get callee name)

/-- Taking a prefix operator, with its alternatives one after the other. -/
def takePrefixOver : Parser (Option (UnaryOp × Nat)) :=
  choose (pure none)
    [(.symbol .bang, fun t => pure (some (.not, t.line))),
     (.symbol .minus, fun t => pure (some (.negate, t.line)))]

theorem unary_eq (fuel : Nat) :
    Parsing.unary ex (fuel + 1) = (do
      match ← takePrefixOver with
      | some (op, line) =>
        let operand ← Parsing.unary ex fuel
        return .unary op line operand
      | none =>
        let callee ← Parsing.primary ex
        Parsing.suffixes ex (fuel + 1) callee) := by
  refine rule_ext (fun _ => rfl) fun kind _ _ _ _ => ?_
  cases kind with
  | symbol s => cases s <;> rfl
  | _ => rfl

theorem takePrefix_mirrors :
    Mirrors S (Option.map fun (op, line) => (op, S.line line)) takePrefixOver takePrefix := by
  have hline (op : UnaryOp) (t : Token) :
      MirrorsBehind S t (Option.map fun (op, line) => (op, S.line line)) (pure (some (op, t.line)))
        (do return some (op, (← previous).line)) := fun c s hs =>
    .of_eq (Action.bind_of_ok hs.previous_eq) (.ok rfl hs.toPoints)
  exact firstOf_mirrors (.pure rfl)
    (.cons ⟨rfl, fun t _ => hline .not t⟩ (.cons ⟨rfl, fun t _ => hline .negate t⟩ .nil))

theorem unary_mirrors (hex : MirrorsExpr S ex ex') (fuel : Nat) :
    MirrorsExpr S (Parsing.unary ex fuel) (unary ex' fuel) := by
  induction fuel with
  | zero => exact .outOfFuel
  | succ fuel ih =>
    rw [unary_eq]
    refine takePrefix_mirrors.bind fun operator => ?_
    cases operator with
    | none => exact (primary_mirrors hex).bind fun callee => suffixes_mirror hex _ callee
    | some operator => exact ih.bind fun _ => .pure rfl

/-- The value of an assignment, from behind the equals sign `t`. -/
def assignOver (ex : Parser Expr) (target : Expr) (t : Token) : Parser Expr := fun c =>
  (do
    let value ← ex
    match target with
    | .variable _ name =>
      let id ← Parsing.freshId
      return .assign id name value
    | .get object name => return .set object name value
    | _ => refuseAt (t :: c.rest) .assignmentTarget : Parser Expr) c

theorem assignment_eq (fuel : Nat) :
    Parsing.assignment ex fuel = (do
      let target ← levels.foldr (Parsing.binaryLevel fuel) (Parsing.unary ex fuel)
      choose (pure target) [(.symbol .equal, assignOver ex target)]) := by
  unfold Parsing.assignment
  refine congrArg (levels.foldr (Parsing.binaryLevel fuel) (Parsing.unary ex fuel) >>= ·) ?_
  refine funext fun target => rule_ext (fun _ => rfl) fun kind _ _ _ _ => ?_
  cases kind with
  | symbol s => cases s <;> rfl
  | _ => rfl

theorem assign_mirrors (hex : MirrorsExpr S ex ex') (target : Expr) {t : Token}
    (ht : t.isSymbol .equal = true) :
    MirrorsBehind S t (Expr.relabel S.lines) (assignOver ex target t)
      (assign ex' (target.relabel S.lines)) := by
  intro c s hs
  refine .of_eq (Action.bind_of_ok hs.previous_eq) ?_
  refine (hex c s hs.toPoints).bind fun value c' s' hs' => ?_
  have hrefused : Reported S ⟨.assignmentTarget, t :: c.rest⟩ s'.current
      ⟨.assignmentTarget, s.current - 1, t.lexeme, S.line t.line⟩ :=
    ⟨⟨rfl, hs.drop_eq, rfl, rfl⟩, fun h => absurd rfl h, fun _ => ht⟩
  cases target with
  | «variable» id name =>
    have hassign : MirrorsExpr S (do return .assign (← Parsing.freshId) name value)
        (do return .assign (← freshId) (name.relabel S.lines) (value.relabel S.lines)) :=
      freshId_mirrors.bind fun _ => .pure rfl
    exact hassign c' s' hs'
  | get object name => exact .ok rfl hs'
  | _ => exact .error hrefused hs'

theorem assignment_mirrors (hex : MirrorsExpr S ex ex') (fuel : Nat) :
    MirrorsExpr S (Parsing.assignment ex fuel) (assignment ex' fuel) := by
  rw [assignment_eq]
  refine (levels_mirror (unary_mirrors hex fuel) fuel tables_list).bind fun target => ?_
  exact firstOf_mirrors (.pure rfl) (.cons ⟨rfl, fun t ht => assign_mirrors hex target ht⟩ .nil)

theorem expression_mirrors (fuel : Nat) :
    MirrorsExpr S (Parsing.expression fuel) (expression fuel) := by
  induction fuel with
  | zero => exact .outOfFuel
  | succ fuel ih => exact assignment_mirrors ih _

theorem wholeExpression_mirrors (fuel : Nat) :
    MirrorsExpr S (Parsing.wholeExpression fuel) (wholeExpression fuel) := by
  refine (expression_mirrors fuel).bind fun e => isAtEnd_mirrors.bind fun here => ?_
  cases here with
  | nil => exact .pure rfl
  | cons t rest => exact object_mirrors .endOfExpression nofun

end

/-! ## Statements -/

/-- A rule for statements that reads the same statement over a slice. -/
abbrev MirrorsStmt (S : Slice) (x : Parser Stmt) (y : Reads Stmt) : Prop :=
  Mirrors S (Stmt.relabel S.lines) x y

/-- Rules for what may stand inside a statement that read the same statements over a slice. -/
structure MirrorsNested (S : Slice) (nested : Parsing.Nested) (nested' : Nested) : Prop where
  declaration : MirrorsStmt S nested.declaration nested'.declaration
  statement : MirrorsStmt S nested.statement nested'.statement

section
variable {nested : Parsing.Nested} {nested' : Nested} (fuel : Nat)

/-- An expression and what ends the statement. -/
theorem expression_then_mirrors (f : Expr → Stmt) (fault : SyntaxFault)
    (hfault : fault ≠ .assignmentTarget) {s : Symbol}
    (hf : ∀ e, f (e.relabel S.lines) = (f e).relabel S.lines) :
    MirrorsStmt S (do
      let e ← Parsing.expression fuel
      let _ ← expect s fault
      return f e)
      (do
      let e ← expression fuel
      let _ ← consumeSymbol s fault
      return f e) :=
  (expression_mirrors fuel).bind fun e => (consumeSymbol_mirrors fault hfault).bind fun _ =>
    .pure (hf e)

/-- An expression that may be left out. -/
theorem some_expression_mirrors :
    Mirrors S (Option.map (Expr.relabel S.lines)) (some <$> Parsing.expression fuel)
      (some <$> expression fuel) :=
  (expression_mirrors fuel).map fun _ => rfl

theorem blockBody_mirrors (h : MirrorsNested S nested nested') :
    Mirrors S (Stmt.allRelabel S.lines) (Parsing.blockBody fuel nested)
      (blockBody fuel nested') := by
  refine (untilBrace_mirrors h.declaration fuel).bind fun body => ?_
  refine (consumeSymbol_mirrors .blockEnd nofun).bind fun _ => .pure ?_
  exact (Stmt.allRelabel_eq_map _ body).symm

theorem function_mirrors (h : MirrorsNested S nested nested') (kind : FunctionKind) :
    Mirrors S (FunctionDecl.relabel S.lines) (Parsing.function fuel nested kind)
      (function fuel nested' kind) := by
  have hparams := separatedOrNone_mirrors (S := S) .tooManyParameters nofun
    (consumeName_mirrors .parameterName nofun) fuel
  refine (consumeName_mirrors (.functionName kind) nofun).bind fun _ => ?_
  refine (consumeSymbol_mirrors (.parametersStart kind) nofun).bind fun _ => ?_
  refine hparams.bind fun params => ?_
  refine (consumeSymbol_mirrors .parametersEnd nofun).bind fun _ => ?_
  refine (consumeSymbol_mirrors (.bodyStart kind) nofun).bind fun _ => ?_
  exact (blockBody_mirrors fuel h).bind fun _ => .pure rfl

theorem classDeclaration_mirrors (h : MirrorsNested S nested nested') :
    MirrorsStmt S (Parsing.classDeclaration fuel nested) (classDeclaration fuel nested') := by
  have hmethods := untilBrace_mirrors (function_mirrors fuel h .method) fuel
  refine (consumeName_mirrors .className nofun).bind fun name => ?_
  refine (consumeSymbol_mirrors .classStart nofun).bind fun _ => hmethods.bind fun methods => ?_
  refine (consumeSymbol_mirrors .classEnd nofun).bind fun _ => .pure ?_
  exact congrArg (Stmt.classDecl _) (FunctionDecl.allRelabel_eq_map _ methods).symm

theorem varDeclaration_mirrors :
    MirrorsStmt S (Parsing.varDeclaration fuel) (varDeclaration fuel) := by
  refine (consumeName_mirrors .variableName nofun).bind fun name => ?_
  refine (accept_mirrors (.symbol .equal)).bind fun equal => ?_
  cases equal with
  | none => exact (consumeSymbol_mirrors .variableEnd nofun).bind fun _ => .pure rfl
  | some _ =>
    exact (expression_mirrors fuel).bind fun _ =>
      (consumeSymbol_mirrors .variableEnd nofun).bind fun _ => .pure rfl

theorem expressionStatement_mirrors :
    MirrorsStmt S (Parsing.expressionStatement fuel) (expressionStatement fuel) :=
  expression_then_mirrors fuel .expression .expressionEnd nofun fun _ => rfl

theorem printStatement_mirrors :
    MirrorsStmt S (Parsing.printStatement fuel) (printStatement fuel) :=
  expression_then_mirrors fuel .print .printEnd nofun fun _ => rfl

theorem ifStatement_mirrors (h : MirrorsNested S nested nested') :
    MirrorsStmt S (Parsing.ifStatement fuel nested) (ifStatement fuel nested') := by
  refine (consumeSymbol_mirrors .ifStart nofun).bind fun _ => ?_
  refine (expression_mirrors fuel).bind fun condition => ?_
  refine (consumeSymbol_mirrors .ifConditionEnd nofun).bind fun _ => ?_
  refine h.statement.bind fun thenBranch => ?_
  refine (accept_mirrors (.keyword .elseWord)).bind fun elseWord => ?_
  cases elseWord with
  | none => exact .pure rfl
  | some _ => exact h.statement.bind fun _ => .pure rfl

theorem whileStatement_mirrors (h : MirrorsNested S nested nested') :
    MirrorsStmt S (Parsing.whileStatement fuel nested) (whileStatement fuel nested') := by
  refine (consumeSymbol_mirrors .whileStart nofun).bind fun _ => ?_
  refine (expression_mirrors fuel).bind fun condition => ?_
  refine (consumeSymbol_mirrors .whileConditionEnd nofun).bind fun _ => ?_
  exact h.statement.bind fun _ => .pure rfl

theorem forInitializer_eq :
    Parsing.forInitializer fuel = choose (some <$> Parsing.expressionStatement fuel)
      [(.symbol .semicolon, fun _ => pure none),
       (.keyword .varWord, fun _ => some <$> Parsing.varDeclaration fuel)] := by
  refine rule_ext (fun _ => rfl) fun kind _ _ _ _ => ?_
  cases kind with
  | symbol s => cases s <;> rfl
  | keyword k => cases k <;> rfl
  | _ => rfl

theorem forInitializer_mirrors :
    Mirrors S (Option.map (Stmt.relabel S.lines)) (Parsing.forInitializer fuel)
      (forInitializer fuel) := by
  rw [forInitializer_eq]
  refine firstOf_mirrors ((expressionStatement_mirrors fuel).map fun _ => rfl) ?_
  refine .cons (.plain (.pure rfl)) (.cons (.plain ?_) .nil)
  exact (varDeclaration_mirrors fuel).map fun _ => rfl

theorem desugarFor_lines (initializer : Option Stmt) (condition : Expr) (increment : Option Expr)
    (body : Stmt) :
    desugarFor (initializer.map (Stmt.relabel S.lines)) (condition.relabel S.lines)
        (increment.map (Expr.relabel S.lines)) (body.relabel S.lines)
      = (desugarFor initializer condition increment body).relabel S.lines :=
  (Grammar.desugarFor_relabel S.line initializer (some condition) increment body).symm

theorem forStatement_mirrors (h : MirrorsNested S nested nested') :
    MirrorsStmt S (Parsing.forStatement fuel nested) (forStatement fuel nested') := by
  have hex : MirrorsExpr S (Parsing.expression fuel) (expression fuel) := expression_mirrors fuel
  refine (consumeSymbol_mirrors .forStart nofun).bind fun _ => ?_
  refine (forInitializer_mirrors fuel).bind fun first => ?_
  refine (check_mirrors (.symbol .semicolon)).bind fun _ => ?_
  refine .orElse (.pure rfl) hex fun condition => ?_
  refine (consumeSymbol_mirrors .forConditionEnd nofun).bind fun _ => ?_
  refine (check_mirrors (.symbol .rightParen)).bind fun _ => ?_
  refine .orElse (.pure rfl) (some_expression_mirrors fuel) fun increment => ?_
  refine (consumeSymbol_mirrors .forClausesEnd nofun).bind fun _ => ?_
  exact h.statement.bind fun body => .pure (desugarFor_lines first condition increment body)

theorem returnStatement_mirrors (t : Token) :
    MirrorsBehind S t (Stmt.relabel S.lines) (Parsing.returnStatement fuel t.line)
      (returnStatement fuel) := by
  intro c s hs
  have hvalue : MirrorsStmt S (Parsing.returnStatement fuel t.line) (do
      let value ← if ← check (.symbol .semicolon) then pure none else some <$> expression fuel
      let _ ← consumeSymbol .semicolon .returnEnd
      return .returnValue (S.line t.line) value) := by
    refine (check_mirrors (.symbol .semicolon)).bind fun _ => ?_
    refine .orElse (.pure rfl) (some_expression_mirrors fuel) fun value => ?_
    refine (consumeSymbol_mirrors .returnEnd nofun).bind fun _ => .pure ?_
    cases value <;> rfl
  exact .of_eq (Action.bind_of_ok hs.previous_eq) (hvalue c s hs.toPoints)

theorem breakStatement_mirrors (t : Token) :
    MirrorsBehind S t (Stmt.relabel S.lines) (Parsing.breakStatement t.line) breakStatement := by
  intro c s hs
  have hend : MirrorsStmt S (Parsing.breakStatement t.line) (do
      let _ ← consumeSymbol .semicolon .breakEnd
      return .breakLoop (S.line t.line)) :=
    (consumeSymbol_mirrors .breakEnd nofun).bind fun _ => .pure rfl
  exact .of_eq (Action.bind_of_ok hs.previous_eq) (hend c s hs.toPoints)

theorem statementWith_eq :
    Parsing.statementWith fuel nested = choose (Parsing.expressionStatement fuel)
      [(.keyword .forWord, fun _ => Parsing.forStatement fuel nested),
       (.keyword .ifWord, fun _ => Parsing.ifStatement fuel nested),
       (.keyword .whileWord, fun _ => Parsing.whileStatement fuel nested),
       (.keyword .returnWord, fun t => Parsing.returnStatement fuel t.line),
       (.keyword .breakWord, fun t => Parsing.breakStatement t.line),
       (.symbol .leftBrace, fun _ => .block <$> Parsing.blockBody fuel nested),
       (.keyword .printWord, fun _ => Parsing.printStatement fuel)] := by
  refine rule_ext (fun _ => rfl) fun kind _ _ _ _ => ?_
  cases kind with
  | symbol s => cases s <;> rfl
  | keyword k => cases k <;> rfl
  | _ => rfl

theorem statementWith_mirrors (h : MirrorsNested S nested nested') :
    MirrorsStmt S (Parsing.statementWith fuel nested) (statementWith fuel nested') := by
  rw [statementWith_eq]
  refine firstOf_mirrors (expressionStatement_mirrors fuel) ?_
  refine .cons (.plain (forStatement_mirrors fuel h)) ?_
  refine .cons (.plain (ifStatement_mirrors fuel h)) ?_
  refine .cons (.plain (whileStatement_mirrors fuel h)) ?_
  refine .cons ⟨rfl, fun t _ => returnStatement_mirrors fuel t⟩ ?_
  refine .cons ⟨rfl, fun t _ => breakStatement_mirrors t⟩ ?_
  refine .cons (.plain ((blockBody_mirrors fuel h).map fun _ => rfl)) ?_
  exact .cons (.plain (printStatement_mirrors fuel)) .nil

theorem declarationWith_eq :
    Parsing.declarationWith fuel nested = choose (Parsing.statementWith fuel nested)
      [(.keyword .classWord, fun _ => Parsing.classDeclaration fuel nested),
       (.keyword .funWord, fun _ => .funDecl <$> Parsing.function fuel nested .function),
       (.keyword .varWord, fun _ => Parsing.varDeclaration fuel)] := by
  refine rule_ext (fun _ => rfl) fun kind _ _ _ _ => ?_
  cases kind with
  | keyword k => cases k <;> rfl
  | _ => rfl

theorem declarationWith_mirrors (h : MirrorsNested S nested nested') :
    MirrorsStmt S (Parsing.declarationWith fuel nested) (declarationWith fuel nested') := by
  rw [declarationWith_eq]
  refine firstOf_mirrors (statementWith_mirrors fuel h) ?_
  refine .cons (.plain (classDeclaration_mirrors fuel h)) ?_
  refine .cons (.plain ((function_mirrors fuel h .function).map fun _ => rfl)) ?_
  exact .cons (.plain (varDeclaration_mirrors fuel)) .nil

theorem statements_mirror :
    MirrorsStmt S (Parsing.declaration fuel) (declaration fuel) ∧
      MirrorsStmt S (Parsing.statement fuel) (statement fuel) := by
  induction fuel with
  | zero => exact ⟨.outOfFuel, .outOfFuel⟩
  | succ fuel ih =>
    obtain ⟨hdeclaration, hstatement⟩ := ih
    constructor
    · exact declarationWith_mirrors _ ⟨hdeclaration, hstatement⟩
    · exact statementWith_mirrors _ ⟨hdeclaration, hstatement⟩

end

end Indexed

end Parsing

end LoxLang
