import LoxLang.Scoping.Resolve

/-!
# What it takes to resolve a tree

A tree is resolved just when its parts are, each in the context it stands in, and then its distances
are those of the parts, the last one first. There is one rule for each kind of tree, and what is
proved of the distances goes by these rules.

* `except_bind_eq_ok`: two steps in a row succeed just when both do;
* `resolveExpr_assign`, `resolveExpr_binary`, …: the rules for expressions;
* `resolveStmt_varDecl`, `resolveStmt_whileLoop`, …: those for statements and functions, which also
  say what the context behind the statement is.
-/

namespace LoxLang

open Scoping

section
variable {ε α β γ : Type} {x : Except ε α} {y : Except ε β}

/-- Two steps in a row succeed just when both do. -/
theorem except_bind_eq_ok {f : α → Except ε β} {b : β} :
    x >>= f = .ok b ↔ ∃ a, x = .ok a ∧ f a = .ok b := by
  cases x with
  | error e =>
    constructor
    · intro h
      cases h
    · rintro ⟨a, h, -⟩
      cases h
  | ok a =>
    constructor
    · intro h
      exact ⟨a, rfl, h⟩
    · rintro ⟨a', h, h'⟩
      cases h
      exact h'

theorem except_pure_eq_ok {a b : α} : (pure a : Except ε α) = .ok b ↔ b = a := by
  constructor
  · intro h
    cases h
    rfl
  · rintro rfl
    rfl

/-- The results of two steps that do not need each other. -/
theorem except_both_eq_ok {g : α → β → γ} {c : γ} :
    (x >>= fun a => y >>= fun b => pure (g a b)) = .ok c ↔
      ∃ a b, x = .ok a ∧ y = .ok b ∧ c = g a b := by
  simp only [except_bind_eq_ok, except_pure_eq_ok, exists_and_left]

end

/-! ## Expressions -/

section
variable {ctx : Context} {d : Distances} {id : NodeId} {name : Identifier} {line : Nat}
  {e e' : Expr} {es : List Expr}

theorem resolveExpr_variable :
    resolveExpr ctx (.variable id name) = .ok d ↔
      ctx.isInitializing name.name = false ∧ d = ctx.entry id name.name := by
  unfold resolveExpr
  cases ctx.isInitializing name.name with
  | true => simp
  | false => simp [eq_comm]

theorem resolveExpr_this :
    resolveExpr ctx (.this id line) = .ok d ↔ ctx.inClass = true ∧ d = ctx.entry id "this" := by
  unfold resolveExpr
  cases ctx.inClass with
  | true => simp [eq_comm]
  | false => simp

theorem resolveExpr_assign :
    resolveExpr ctx (.assign id name e) = .ok d ↔
      ∃ inside, resolveExpr ctx e = .ok inside ∧ d = ctx.entry id name.name ++ inside := by
  simp only [resolveExpr, except_bind_eq_ok, except_pure_eq_ok]

theorem resolveExpr_binary {op : BinaryOp} :
    resolveExpr ctx (.binary op line e e') = .ok d ↔ ∃ first second,
      resolveExpr ctx e = .ok first ∧ resolveExpr ctx e' = .ok second ∧ d = second ++ first :=
  except_both_eq_ok

theorem resolveExpr_logical {op : LogicalOp} :
    resolveExpr ctx (.logical op e e') = .ok d ↔ ∃ first second,
      resolveExpr ctx e = .ok first ∧ resolveExpr ctx e' = .ok second ∧ d = second ++ first :=
  except_both_eq_ok

theorem resolveExpr_call :
    resolveExpr ctx (.call e line es) = .ok d ↔ ∃ first second,
      resolveExpr ctx e = .ok first ∧ resolveExprs ctx es = .ok second ∧ d = second ++ first :=
  except_both_eq_ok

/-- The value is resolved before the object that it is given to. -/
theorem resolveExpr_set :
    resolveExpr ctx (.set e name e') = .ok d ↔ ∃ first second,
      resolveExpr ctx e' = .ok first ∧ resolveExpr ctx e = .ok second ∧ d = second ++ first :=
  except_both_eq_ok

theorem resolveExprs_cons :
    resolveExprs ctx (e :: es) = .ok d ↔ ∃ first others,
      resolveExpr ctx e = .ok first ∧ resolveExprs ctx es = .ok others ∧ d = others ++ first :=
  except_both_eq_ok

end

/-! ## Statements -/

section
variable {ctx behind : Context} {d : Distances} {name : Identifier} {line : Nat} {e : Expr}
  {s s' : Stmt} {ss : List Stmt} {f : FunctionDecl} {fs : List FunctionDecl}

theorem resolveStmt_expression :
    resolveStmt ctx (.expression e) = .ok (behind, d) ↔
      resolveExpr ctx e = .ok d ∧ behind = ctx := by
  simp only [resolveStmt, except_bind_eq_ok, except_pure_eq_ok]
  simp

theorem resolveStmt_print :
    resolveStmt ctx (.print e) = .ok (behind, d) ↔ resolveExpr ctx e = .ok d ∧ behind = ctx := by
  simp only [resolveStmt, except_bind_eq_ok, except_pure_eq_ok]
  simp

theorem resolveStmt_varDecl :
    resolveStmt ctx (.varDecl name e) = .ok (behind, d) ↔ ∃ declared,
      ctx.declare name = .ok declared ∧
        resolveExpr (declared.inInitializer name.name) e = .ok d ∧
          behind = declared.mark name.name true := by
  simp only [resolveStmt, except_bind_eq_ok, except_pure_eq_ok]
  simp

theorem resolveStmt_block :
    resolveStmt ctx (.block ss) = .ok (behind, d) ↔
      (∃ inner, resolveStmts (ctx.push []) ss = .ok (inner, d)) ∧ behind = ctx := by
  simp only [resolveStmt, except_bind_eq_ok, except_pure_eq_ok]
  simp

theorem resolveStmt_ifThen :
    resolveStmt ctx (.ifElse e s none) = .ok (behind, d) ↔ ∃ first second,
      resolveExpr ctx e = .ok first ∧ resolveStmt ctx s = .ok (behind, second) ∧
        d = second ++ first := by
  constructor
  · intro h
    obtain ⟨first, hcondition, h⟩ := except_bind_eq_ok.mp h
    obtain ⟨⟨inner, second⟩, hthen, h⟩ := except_bind_eq_ok.mp h
    cases h
    exact ⟨first, second, hcondition, hthen, rfl⟩
  · rintro ⟨first, second, hcondition, hthen, rfl⟩
    exact except_bind_eq_ok.mpr ⟨first, hcondition, except_bind_eq_ok.mpr ⟨_, hthen, rfl⟩⟩

/-- The branch that is not taken is resolved behind the other one. -/
theorem resolveStmt_ifElse :
    resolveStmt ctx (.ifElse e s (some s')) = .ok (behind, d) ↔ ∃ first middle second third,
      resolveExpr ctx e = .ok first ∧ resolveStmt ctx s = .ok (middle, second) ∧
        resolveStmt middle s' = .ok (behind, third) ∧ d = third ++ (second ++ first) := by
  constructor
  · intro h
    obtain ⟨first, hcondition, h⟩ := except_bind_eq_ok.mp h
    obtain ⟨⟨middle, second⟩, hthen, h⟩ := except_bind_eq_ok.mp h
    obtain ⟨⟨inner, third⟩, helse, h⟩ := except_bind_eq_ok.mp h
    cases h
    exact ⟨first, middle, second, third, hcondition, hthen, helse, rfl⟩
  · rintro ⟨first, middle, second, third, hcondition, hthen, helse, rfl⟩
    exact except_bind_eq_ok.mpr ⟨first, hcondition, except_bind_eq_ok.mpr ⟨_, hthen,
      except_bind_eq_ok.mpr ⟨_, helse, rfl⟩⟩⟩

theorem resolveStmt_whileLoop :
    resolveStmt ctx (.whileLoop e s) = .ok (behind, d) ↔ ∃ first inner second,
      resolveExpr ctx e = .ok first ∧
        resolveStmt { ctx with inLoop := true } s = .ok (inner, second) ∧
          behind = { inner with inLoop := ctx.inLoop } ∧ d = second ++ first := by
  simp only [resolveStmt, except_bind_eq_ok, except_pure_eq_ok]
  simp

theorem resolveStmt_breakLoop :
    resolveStmt ctx (.breakLoop line) = .ok (behind, d) ↔
      ctx.inLoop = true ∧ behind = ctx ∧ d = [] := by
  unfold resolveStmt
  cases ctx.inLoop with
  | true => simp [eq_comm]
  | false => simp

theorem resolveStmt_funDecl :
    resolveStmt ctx (.funDecl f) = .ok (behind, d) ↔
      ctx.introduce f.name = .ok behind ∧
        resolveFunction (behind.inRoutine .ordinary) f = .ok d := by
  simp only [resolveStmt, except_bind_eq_ok, except_pure_eq_ok]
  simp

theorem resolveStmt_return :
    resolveStmt ctx (.returnValue line none) = .ok (behind, d) ↔
      checkReturn ctx line none = .ok () ∧ behind = ctx ∧ d = [] := by
  constructor
  · intro h
    obtain ⟨_, hreturn, h⟩ := except_bind_eq_ok.mp h
    cases h
    exact ⟨hreturn, rfl, rfl⟩
  · rintro ⟨hreturn, rfl, rfl⟩
    exact except_bind_eq_ok.mpr ⟨(), hreturn, rfl⟩

theorem resolveStmt_returnValue :
    resolveStmt ctx (.returnValue line (some e)) = .ok (behind, d) ↔
      checkReturn ctx line (some e) = .ok () ∧ resolveExpr ctx e = .ok d ∧ behind = ctx := by
  constructor
  · intro h
    obtain ⟨_, hreturn, h⟩ := except_bind_eq_ok.mp h
    obtain ⟨inside, hvalue, h⟩ := except_bind_eq_ok.mp h
    cases h
    exact ⟨hreturn, hvalue, rfl⟩
  · rintro ⟨hreturn, hvalue, rfl⟩
    exact except_bind_eq_ok.mpr ⟨(), hreturn, except_bind_eq_ok.mpr ⟨_, hvalue, rfl⟩⟩

theorem resolveStmt_classDecl :
    resolveStmt ctx (.classDecl name fs) = .ok (behind, d) ↔
      ctx.introduce name = .ok behind ∧ resolveMethods behind.inClassBody fs = .ok d := by
  simp only [resolveStmt, except_bind_eq_ok, except_pure_eq_ok]
  simp

theorem resolveStmts_cons :
    resolveStmts ctx (s :: ss) = .ok (behind, d) ↔ ∃ middle first others,
      resolveStmt ctx s = .ok (middle, first) ∧ resolveStmts middle ss = .ok (behind, others) ∧
        d = others ++ first := by
  constructor
  · intro h
    obtain ⟨⟨middle, first⟩, hs, h⟩ := except_bind_eq_ok.mp h
    obtain ⟨⟨inner, others⟩, hrest, h⟩ := except_bind_eq_ok.mp h
    cases h
    exact ⟨middle, first, others, hs, hrest, rfl⟩
  · rintro ⟨middle, first, others, hs, hrest, rfl⟩
    exact except_bind_eq_ok.mpr ⟨_, hs, except_bind_eq_ok.mpr ⟨_, hrest, rfl⟩⟩

theorem resolveFunction_mk {params : List Identifier} :
    resolveFunction ctx (.mk name params ss) = .ok d ↔ ∃ inside behind,
      ctx.introduceAll params = .ok inside ∧ resolveStmts inside ss = .ok (behind, d) := by
  simp only [resolveFunction, except_bind_eq_ok, except_pure_eq_ok]
  simp

theorem resolveMethods_cons :
    resolveMethods ctx (f :: fs) = .ok d ↔ ∃ first others,
      resolveFunction (ctx.inRoutine (if f.isInitializer then .initializer else .ordinary)) f
          = .ok first ∧
        resolveMethods ctx fs = .ok others ∧ d = others ++ first :=
  except_both_eq_ok

end

theorem resolve_eq_ok {p : Program} {d : Distances} :
    p.resolve = .ok d ↔ ∃ behind, resolveStmts .top p = .ok (behind, d) := by
  simp only [Program.resolve, except_bind_eq_ok, except_pure_eq_ok]
  simp

end LoxLang
