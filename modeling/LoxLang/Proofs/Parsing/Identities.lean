import LoxLang.Proofs.Checking
import LoxLang.Proofs.Parsing.Soundness

/-!
# Identities are not given back

A rule that is refused keeps the identities it took, as one that succeeds does.

* `Advances`: the next free identity never goes down, however a rule ends;
* `Advances.bind`: for two rules in a row, and from there for every rule of the grammar;
* `checkSource_advances`, `parseExpressionSource_advances`: for whole sources;
* `parseExpressionSource_fresh`: the nodes of an expression have identities of their own.
-/

namespace LoxLang

namespace Parsing

/-- The next free identity does not go down, however the rule ends. -/
structure Advances {α : Type} (x : Parser α) : Prop where
  ok : ∀ c a c', x c = .ok a c' → c.nextId ≤ c'.nextId
  error : ∀ c e c', x c = .error e c' → c.nextId ≤ c'.nextId

namespace Advances

variable {α β : Type}

/-- A step that ends with the same identities. -/
theorem of_same {x : Parser α} (hok : ∀ c a c', x c = .ok a c' → c'.nextId = c.nextId)
    (herror : ∀ c e c', x c = .error e c' → c'.nextId = c.nextId) : Advances x where
  ok c a c' h := Nat.le_of_eq (hok c a c' h).symm
  error c e c' h := Nat.le_of_eq (herror c e c' h).symm

theorem pure (a : α) : Advances (Pure.pure a) := by
  apply of_same
  · intro c a c' h
    cases h
    rfl
  · intro c e c' h
    cases h

theorem outOfFuel : Advances (Action.outOfFuel : Parser α) where
  ok _ _ _ h := nomatch h
  error _ _ _ h := nomatch h

theorem fail (e : Refusal) : Advances (Action.fail e : Parser α) := by
  apply of_same
  · intro c a c' h
    cases h
  · intro c e c' h
    cases h
    rfl

theorem refuse (fault : SyntaxFault) : Advances (Parsing.refuse fault : Parser α) := by
  apply of_same
  · intro c a c' h
    cases h
  · intro c e c' h
    cases h
    rfl

/-- A look at the tokens. -/
theorem look (f : Cursor → α) : Advances (fun c => .ok (f c) c) := by
  apply of_same
  · intro c a c' h
    cases h
    rfl
  · intro c e c' h
    cases h

theorem bind {x : Parser α} {f : α → Parser β} (hx : Advances x) (hf : ∀ a, Advances (f a)) :
    Advances (x >>= f) where
  ok c b c'' h := by
    obtain ⟨a, c', hxc, hfc⟩ := Action.bind_eq_ok.mp h
    exact Nat.le_trans (hx.ok c a c' hxc) ((hf a).ok c' b c'' hfc)
  error c e c'' h := by
    cases hxc : x c with
    | ok a c' =>
      rw [Action.bind_of_ok hxc] at h
      exact Nat.le_trans (hx.ok c a c' hxc) ((hf a).error c' e c'' h)
    | error e' c' =>
      rw [Action.bind_of_error hxc] at h
      cases h
      exact hx.error c e c'' hxc
    | outOfFuel =>
      rw [Action.bind_of_outOfFuel hxc] at h
      cases h

theorem map (f : α → β) {x : Parser α} (hx : Advances x) : Advances (f <$> x) :=
  hx.bind fun a => pure (f a)

/-- A rule that goes on in the one or in the other way. -/
theorem ite {p : Prop} [Decidable p] {x y : Parser α} (hx : Advances x) (hy : Advances y) :
    Advances (if p then x else y) := by
  split
  · exact hx
  · exact hy

/-- One of two rules, and what is read behind it. -/
theorem orElse {p : Prop} [Decidable p] {x y : Parser α} {f : α → Parser β} (hx : Advances x)
    (hy : Advances y) (hf : ∀ a, Advances (f a)) :
    Advances (if p then x >>= f else y >>= f) :=
  .ite (hx.bind hf) (hy.bind hf)

end Advances

/-! ## Steps -/

theorem skip_advances : Advances skip := by
  apply Advances.of_same
  · intro c a c' h
    cases h
    rfl
  · intro c e c' h
    cases h

theorem freshId_advances : Advances freshId where
  ok c a c' h := by
    cases h
    exact Nat.le_succ _
  error _ _ _ h := nomatch h

theorem takeIf_advances (test : Token → Bool) : Advances (takeIf test) := by
  apply Advances.of_same
  · intro c a c' h
    unfold takeIf at h
    split at h
    · cases h
      rfl
    · split at h <;> cases h <;> rfl
  · intro c e c' h
    unfold takeIf at h
    split at h
    · cases h
    · split at h <;> cases h

theorem expectIf_advances (test : Token → Bool) (fault : SyntaxFault) :
    Advances (expectIf test fault) := by
  apply Advances.of_same
  · intro c a c' h
    unfold expectIf at h
    split at h
    · cases h
    · split at h <;> cases h
      rfl
  · intro c e c' h
    unfold expectIf at h
    split at h
    · cases h
      rfl
    · split at h <;> cases h
      rfl

theorem expect_advances (s : Symbol) (fault : SyntaxFault) : Advances (expect s fault) :=
  expectIf_advances _ fault

theorem expectName_advances (fault : SyntaxFault) : Advances (expectName fault) :=
  (expectIf_advances _ fault).bind fun _ => .pure _

theorem separated_advances {α : Type} {tooMany : SyntaxFault} {item : Parser α}
    (hitem : Advances item) (fuel count : Nat) : Advances (separated tooMany item fuel count) := by
  induction fuel generalizing count with
  | zero => exact .outOfFuel
  | succ fuel ih =>
    refine .ite (.refuse tooMany) (hitem.bind fun first => ?_)
    refine (takeIf_advances _).bind fun comma => ?_
    cases comma with
    | none => exact .pure _
    | some _ => exact (ih (count + 1)).bind fun _ => .pure _

theorem separatedOrNone_advances {α : Type} (tooMany : SyntaxFault) {item : Parser α}
    (hitem : Advances item) (fuel : Nat) : Advances (separatedOrNone tooMany item fuel) :=
  (Advances.look _).bind fun _ => .ite (.pure _) (separated_advances hitem fuel 0)

theorem untilBrace_advances {α : Type} {item : Parser α} (hitem : Advances item) (fuel : Nat) :
    Advances (untilBrace item fuel) := by
  induction fuel with
  | zero => exact .outOfFuel
  | succ fuel ih =>
    have hcons := hitem.bind fun first => ih.bind fun others => .pure (first :: others)
    exact (Advances.look _).bind fun _ => .ite hcons (.pure _)

/-! ## Expressions -/

section
variable {ex : Parser Expr}

theorem takeOperator_advances (level : Level) : Advances (takeOperator level) := by
  apply Advances.of_same
  · intro c a c' h
    unfold takeOperator at h
    split at h
    · cases h
      rfl
    · split at h <;> cases h <;> rfl
  · intro c e c' h
    unfold takeOperator at h
    split at h
    · cases h
    · split at h <;> cases h

theorem operands_advance {level : Level} {operand : Parser Expr} (hoperand : Advances operand)
    (fuel : Nat) (left : Expr) : Advances (operands level operand fuel left) := by
  induction fuel generalizing left with
  | zero => exact .outOfFuel
  | succ fuel ih =>
    refine (takeOperator_advances level).bind fun operator => ?_
    cases operator with
    | none => exact .pure _
    | some op => exact hoperand.bind fun _ => ih _

theorem levels_advance {operand : Parser Expr} (hoperand : Advances operand) (fuel : Nat)
    (levels : List Level) : Advances (levels.foldr (binaryLevel fuel) operand) := by
  induction levels with
  | nil => exact hoperand
  | cons level rest ih => exact ih.bind fun first => operands_advance ih fuel first

theorem primary_advances (hex : Advances ex) : Advances (primary ex) := by
  refine (Advances.look _).bind fun here => ?_
  split
  · exact .refuse _
  · split
    · exact skip_advances.bind fun _ => .pure _
    · exact skip_advances.bind fun _ => .pure _
    · exact skip_advances.bind fun _ => .pure _
    · exact skip_advances.bind fun _ => .pure _
    · exact skip_advances.bind fun _ => .pure _
    · exact skip_advances.bind fun _ => freshId_advances.bind fun _ => .pure _
    · exact skip_advances.bind fun _ => freshId_advances.bind fun _ => .pure _
    · exact skip_advances.bind fun _ => hex.bind fun _ => (expect_advances _ _).bind fun _ => .pure _
    · exact .refuse _

theorem suffixes_advance (hex : Advances ex) (fuel : Nat) (callee : Expr) :
    Advances (suffixes ex fuel callee) := by
  induction fuel generalizing callee with
  | zero => exact .outOfFuel
  | succ fuel ih =>
    refine (Advances.look _).bind fun kind => ?_
    split
    · have harguments := separatedOrNone_advances .tooManyArguments hex fuel
      exact skip_advances.bind fun _ => harguments.bind fun _ =>
        (expect_advances _ _).bind fun _ => ih _
    · exact skip_advances.bind fun _ => (expectName_advances _).bind fun _ => ih _
    · exact .pure _

theorem unary_advances (hex : Advances ex) (fuel : Nat) : Advances (unary ex fuel) := by
  induction fuel with
  | zero => exact .outOfFuel
  | succ fuel ih =>
    refine (takeIf_advances _).bind fun operator => ?_
    cases operator with
    | none => exact (primary_advances hex).bind fun callee => suffixes_advance hex _ callee
    | some t => exact ih.bind fun _ => .pure _

theorem assignment_advances (hex : Advances ex) (fuel : Nat) : Advances (assignment ex fuel) := by
  refine (levels_advance (unary_advances hex fuel) fuel levels).bind fun target => ?_
  refine (Advances.look _).bind fun here => (takeIf_advances _).bind fun equal => ?_
  cases equal with
  | none => exact .pure _
  | some _ =>
    refine hex.bind fun value => ?_
    split
    · exact freshId_advances.bind fun _ => .pure _
    · exact .pure _
    · exact .fail _

theorem expression_advances (fuel : Nat) : Advances (expression fuel) := by
  induction fuel with
  | zero => exact .outOfFuel
  | succ fuel ih => exact assignment_advances ih _

theorem wholeExpression_advances (fuel : Nat) : Advances (wholeExpression fuel) := by
  refine (expression_advances fuel).bind fun e => (Advances.look _).bind fun here => ?_
  cases here with
  | nil => exact .pure _
  | cons _ _ => exact .refuse _

end

/-! ## Statements -/

section
variable {nested : Nested} (fuel : Nat)

theorem expression_then_advances {s : Symbol} {fault : SyntaxFault} {f : Expr → Token → Stmt} :
    Advances (do
      let e ← expression fuel
      let t ← expect s fault
      return f e t) :=
  (expression_advances fuel).bind fun _ => (expect_advances s fault).bind fun _ => .pure _

theorem blockBody_advances (hdeclaration : Advances nested.declaration) :
    Advances (blockBody fuel nested) :=
  (untilBrace_advances hdeclaration fuel).bind fun _ => (expect_advances _ _).bind fun _ => .pure _

theorem function_advances (hdeclaration : Advances nested.declaration) (kind : FunctionKind) :
    Advances (function fuel nested kind) := by
  have hparams := separatedOrNone_advances .tooManyParameters (expectName_advances .parameterName) fuel
  refine (expectName_advances _).bind fun _ => (expect_advances _ _).bind fun _ => ?_
  refine hparams.bind fun _ => (expect_advances _ _).bind fun _ => ?_
  exact (expect_advances _ _).bind fun _ =>
    (blockBody_advances fuel hdeclaration).bind fun _ => .pure _

theorem classDeclaration_advances (hdeclaration : Advances nested.declaration) :
    Advances (classDeclaration fuel nested) := by
  have hmethods := untilBrace_advances (function_advances fuel hdeclaration .method) fuel
  refine (expectName_advances _).bind fun _ => (expect_advances _ _).bind fun _ => ?_
  exact hmethods.bind fun _ => (expect_advances _ _).bind fun _ => .pure _

theorem varDeclaration_advances : Advances (varDeclaration fuel) := by
  refine (expectName_advances _).bind fun name => (takeIf_advances _).bind fun equal => ?_
  cases equal with
  | none => exact (expect_advances _ _).bind fun _ => .pure _
  | some _ => exact expression_then_advances fuel

theorem ifStatement_advances (hstatement : Advances nested.statement) :
    Advances (ifStatement fuel nested) := by
  refine (expect_advances _ _).bind fun _ => (expression_advances fuel).bind fun _ => ?_
  refine (expect_advances _ _).bind fun _ => hstatement.bind fun _ => ?_
  refine (takeIf_advances _).bind fun elseWord => ?_
  cases elseWord with
  | none => exact .pure _
  | some _ => exact hstatement.bind fun _ => .pure _

theorem whileStatement_advances (hstatement : Advances nested.statement) :
    Advances (whileStatement fuel nested) := by
  refine (expect_advances _ _).bind fun _ => (expression_advances fuel).bind fun _ => ?_
  exact (expect_advances _ _).bind fun _ => hstatement.bind fun _ => .pure _

theorem forInitializer_advances : Advances (forInitializer fuel) := by
  refine (Advances.look _).bind fun kind => ?_
  split
  · exact skip_advances.bind fun _ => .pure _
  · exact skip_advances.bind fun _ => (varDeclaration_advances fuel).bind fun _ => .pure _
  · exact (expression_then_advances fuel).bind fun _ => .pure _

theorem forStatement_advances (hstatement : Advances nested.statement) :
    Advances (forStatement fuel nested) := by
  have hex := expression_advances fuel
  refine (expect_advances _ _).bind fun _ => (forInitializer_advances fuel).bind fun _ => ?_
  refine (Advances.look _).bind fun _ => .orElse (.pure _) hex fun _ => ?_
  refine (expect_advances _ _).bind fun _ => ?_
  refine (Advances.look _).bind fun _ => .orElse (.pure _) (hex.map _) fun _ => ?_
  exact (expect_advances _ _).bind fun _ => hstatement.bind fun _ => .pure _

theorem returnStatement_advances (line : Nat) : Advances (returnStatement fuel line) := by
  have hvalue := (expression_advances fuel).map some
  refine (Advances.look _).bind fun _ => .orElse (.pure _) hvalue fun _ => ?_
  exact (expect_advances _ _).bind fun _ => .pure _

theorem breakStatement_advances (line : Nat) : Advances (breakStatement line) :=
  (expect_advances _ _).bind fun _ => .pure _

theorem statementWith_advances (hdeclaration : Advances nested.declaration)
    (hstatement : Advances nested.statement) : Advances (statementWith fuel nested) := by
  refine (Advances.look _).bind fun here => ?_
  split
  · exact expression_then_advances fuel
  · split
    · exact skip_advances.bind fun _ => forStatement_advances fuel hstatement
    · exact skip_advances.bind fun _ => ifStatement_advances fuel hstatement
    · exact skip_advances.bind fun _ => whileStatement_advances fuel hstatement
    · exact skip_advances.bind fun _ => returnStatement_advances fuel _
    · exact skip_advances.bind fun _ => breakStatement_advances _
    · exact skip_advances.bind fun _ => expression_then_advances fuel
    · exact skip_advances.bind fun _ =>
        (blockBody_advances fuel hdeclaration).bind fun _ => .pure _
    · exact expression_then_advances fuel

theorem declarationWith_advances (hdeclaration : Advances nested.declaration)
    (hstatement : Advances nested.statement) : Advances (declarationWith fuel nested) := by
  refine (Advances.look _).bind fun kind => ?_
  split
  · exact skip_advances.bind fun _ => classDeclaration_advances fuel hdeclaration
  · exact skip_advances.bind fun _ =>
      (function_advances fuel hdeclaration .function).bind fun _ => .pure _
  · exact skip_advances.bind fun _ => varDeclaration_advances fuel
  · exact statementWith_advances fuel hdeclaration hstatement

theorem statements_advance : Advances (declaration fuel) ∧ Advances (statement fuel) := by
  induction fuel with
  | zero => exact ⟨.outOfFuel, .outOfFuel⟩
  | succ fuel ih =>
    obtain ⟨hdeclaration, hstatement⟩ := ih
    constructor
    · exact declarationWith_advances _ hdeclaration hstatement
    · exact statementWith_advances _ hdeclaration hstatement

end

theorem readAll_advances {fuel turns : Nat} {c : Cursor} {r : Reading}
    (h : readAll fuel turns c = some r) : c.nextId ≤ r.nextId := by
  induction turns generalizing c r with
  | zero => cases h
  | succ turns ih =>
    unfold readAll at h
    split at h
    · cases h
      exact Nat.le_refl _
    · have hdeclaration := (statements_advance fuel).1
      split at h
      · rename_i s c' hs
        obtain ⟨r', hr', hr⟩ := Option.bind_eq_some_iff.mp h
        cases hr
        have hrest := ih hr'
        exact Nat.le_trans (hdeclaration.ok c s c' hs) hrest
      · rename_i e c' hs
        obtain ⟨r', hr', hr⟩ := Option.bind_eq_some_iff.mp h
        cases hr
        have hrest := ih hr'
        exact Nat.le_trans (hdeclaration.error c e c' hs) hrest
      · cases h

end Parsing

/-! ## Sources -/

theorem Program.parse_advances (source : TokenStream) (nextId : NodeId) :
    nextId ≤ (Program.parse source nextId).2 := by
  unfold Program.parse
  dsimp only
  split
  · rename_i h
    exact Parsing.readAll_advances h
  · rename_i h
    exact Parsing.readAll_advances h
  · exact Nat.le_refl _

theorem Expr.parse_advances (source : TokenStream) (nextId : NodeId) :
    nextId ≤ (Expr.parse source nextId).2 := by
  have hwhole := Parsing.wholeExpression_advances (Parsing.fuelFor source.tokens)
  unfold Expr.parse
  split
  · rename_i h
    exact hwhole.ok _ _ _ h
  · rename_i h
    exact hwhole.error _ _ _ h
  · exact Nat.le_refl _

theorem parseSource_advances (source : String) (nextId : NodeId) :
    nextId ≤ (parseSource source nextId).2 := by
  unfold parseSource
  split
  · exact Nat.le_refl _
  · rename_i tokens _
    have hparse := Program.parse_advances tokens nextId
    split <;> rename_i h <;> rw [h] at hparse <;> exact hparse

theorem checkSource_advances (source : String) (nextId : NodeId) :
    nextId ≤ (checkSource source nextId).2 := by
  have hparse := parseSource_advances source nextId
  unfold checkSource
  split <;> rename_i h <;> rw [h] at hparse
  · exact hparse
  · split <;> exact hparse

theorem parseExpressionSource_advances (source : String) (nextId : NodeId) :
    nextId ≤ (parseExpressionSource source nextId).2 := by
  unfold parseExpressionSource
  split
  · exact Nat.le_refl _
  · rename_i tokens _
    have hparse := Expr.parse_advances tokens nextId
    split <;> rename_i h <;> rw [h] at hparse <;> exact hparse

theorem parseExpressionSource_fresh {source : String} {nextId next : NodeId} {e : Expr}
    (h : parseExpressionSource source nextId = (.ok e, next)) : Fresh nextId next e.ids := by
  obtain ⟨stream, -, hparse⟩ := parseExpressionSource_eq_ok h
  exact (expression_of_parse hparse).2

end LoxLang
