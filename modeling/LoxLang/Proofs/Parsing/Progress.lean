import LoxLang.Proofs.Parsing.Steps

/-!
# Reading moves forward

With more fuel than there are tokens a rule comes to an end: it has taken tokens, or it objects to
one of those that were before it.

* `Settles`: how a rule may end that was to read given tokens;
* `Proceeds`: it ends so wherever there are fewer tokens than a limit;
* `Proceeds.bind`, `Proceeds.behind`: for two rules in a row, where what the first one takes may
  count for the limit of the second; from there for every rule of the grammar;
* `readAll_proceeds`: a whole source is read, and each refusal lies behind the one before.
-/

namespace LoxLang

namespace Parsing

variable {α β : Type}

/-- A rule that was to read `start` ends, with at least `k` of the tokens taken or with an
objection to one of them, and does not stop before the token that it objects to. -/
def Settles (start : List Token) (k : Nat) : Outcome Refusal Cursor α → Prop
  | .ok _ c => c.rest <:+ start ∧ c.rest.length + k ≤ start.length
  | .error r c => c.rest <:+ r.place ∧ r.place <:+ start
  | .outOfFuel => False

namespace Settles

variable {start : List Token} {k j : Nat}

theorem le {o : Outcome Refusal Cursor α} (h : Settles start k o) (hj : j ≤ k) :
    Settles start j o := by
  cases o with
  | ok a c => exact ⟨h.1, by have := h.2; omega⟩
  | error r c => exact h
  | outOfFuel => exact h

/-- What is read behind `k` tokens. -/
theorem later {rest : List Token} {o : Outcome Refusal Cursor α} (h : Settles rest j o)
    (hrest : rest <:+ start) (hlength : rest.length + k ≤ start.length) :
    Settles start (k + j) o := by
  cases o with
  | ok a c => exact ⟨h.1.trans hrest, by have := h.2; omega⟩
  | error r c => exact ⟨h.1, h.2.trans hrest⟩
  | outOfFuel => exact h

/-- One rule behind another, where what is read by both is looked at as a whole. -/
theorem bind {x : Parser α} {f : α → Parser β} {c : Cursor} (hx : Settles start k (x c))
    (hf : ∀ a c', c'.rest <:+ start → c'.rest.length + k ≤ start.length →
      Settles start j (f a c')) :
    Settles start j ((x >>= f) c) := by
  cases h : x c with
  | ok a c' =>
    rw [h] at hx
    rw [Action.bind_of_ok h]
    exact hf a c' hx.1 hx.2
  | error r c' =>
    rw [h] at hx
    rwa [Action.bind_of_error h]
  | outOfFuel =>
    rw [h] at hx
    exact hx.elim

end Settles

/-- The rule settles where these tokens are to be read. -/
def SettlesOn (here : List Token) (k : Nat) (x : Parser α) : Prop :=
  ∀ c, c.rest = here → Settles here k (x c)

theorem SettlesOn.le {here : List Token} {k j : Nat} {x : Parser α} (h : SettlesOn here k x)
    (hj : j ≤ k) : SettlesOn here j x := fun c hc => (h c hc).le hj

/-- A kind that is next is that of a token. -/
theorem ne_nil_of_kind {here : List Token} {kind : TokenKind}
    (h : here.head?.map (·.kind) = some kind) : here ≠ [] := by
  rintro rfl
  cases h

/-- The rule settles wherever there are fewer tokens than the limit. -/
def Proceeds (limit k : Nat) (x : Parser α) : Prop :=
  ∀ c, c.rest.length < limit → Settles c.rest k (x c)

namespace Proceeds

variable {limit k j : Nat} {x : Parser α} {f : α → Parser β}

/-- There are never fewer tokens than none. -/
theorem zero : Proceeds 0 k x := fun _ h => nomatch h

theorem le (hx : Proceeds limit k x) (hj : j ≤ k) : Proceeds limit j x :=
  fun c hc => (hx c hc).le hj

/-- A rule that takes something proceeds. -/
theorem any (hx : Proceeds limit k x) : Proceeds limit 0 x := hx.le (Nat.zero_le k)

theorem below {limit' : Nat} (hx : Proceeds limit k x) (hlimit : limit' ≤ limit) :
    Proceeds limit' k x := fun c hc => hx c (Nat.lt_of_lt_of_le hc hlimit)

theorem pure (a : α) : Proceeds limit 0 (Pure.pure a) :=
  fun _ _ => ⟨List.suffix_refl _, Nat.le_refl _⟩

theorem refuse (fault : SyntaxFault) : Proceeds limit k (Parsing.refuse fault : Parser α) :=
  fun _ _ => ⟨List.suffix_refl _, List.suffix_refl _⟩

/-- A look at the tokens. -/
theorem look {g : Cursor → α} (hf : ∀ a, Proceeds limit k (f a)) :
    Proceeds limit k ((fun c => .ok (g c) c : Parser α) >>= f) := fun c hc => hf (g c) c hc

theorem on (hx : Proceeds limit k x) {here : List Token} (hhere : here.length < limit) :
    SettlesOn here k x := by
  rintro c rfl
  exact hx c hhere

/-- A look at the tokens, and what is read where they are seen. -/
theorem seeing {g : List Token → α}
    (hf : ∀ here, here.length < limit → SettlesOn here k (f (g here))) :
    Proceeds limit k ((fun c => .ok (g c.rest) c : Parser α) >>= f) :=
  fun c hc => hf c.rest hc c rfl

/-- One rule behind another; the first one takes what the two are known to take. -/
theorem bind (hx : Proceeds limit k x) (hf : ∀ a, Proceeds limit 0 (f a)) :
    Proceeds limit k (x >>= f) := fun c hc =>
  (hx c hc).bind fun a c' hrest hlength =>
    (hf a c' (Nat.lt_of_le_of_lt hrest.length_le hc)).later hrest hlength

/-- What stands behind a token has fewer tokens to read. -/
theorem behind (hx : Proceeds (limit + 1) 1 x) (hf : ∀ a, Proceeds limit 0 (f a)) :
    Proceeds (limit + 1) 1 (x >>= f) := fun c hc =>
  (hx c hc).bind fun a c' hrest hlength => (hf a c' (by omega)).later hrest hlength

theorem map (g : α → β) (hx : Proceeds limit k x) : Proceeds limit k (g <$> x) :=
  hx.bind fun a => pure (g a)

/-- A rule that goes on in the one or in the other way. -/
theorem ite {p : Prop} [Decidable p] {y : Parser α} (hx : Proceeds limit k x)
    (hy : Proceeds limit k y) : Proceeds limit k (if p then x else y) := by
  split
  · exact hx
  · exact hy

/-- One of two rules, and what is read behind it. -/
theorem orElse {p : Prop} [Decidable p] {y : Parser α} (hx : Proceeds limit 0 x)
    (hy : Proceeds limit 0 y) (hf : ∀ a, Proceeds limit 0 (f a)) :
    Proceeds limit 0 (if p then x >>= f else y >>= f) :=
  .ite (hx.bind hf) (hy.bind hf)

end Proceeds

/-! ## Steps -/

section
variable {limit : Nat}

/-- What follows a token that is known to be there. -/
theorem skip_settles {f : Unit → Parser α} (hf : ∀ u, Proceeds limit 0 (f u))
    {here : List Token} (hhere : here.length < limit + 1) (hne : here ≠ []) :
    SettlesOn here 1 (skip >>= f) := by
  obtain ⟨t, rest, rfl⟩ := List.exists_cons_of_ne_nil hne
  intro c hrest
  have h : skip c = .ok () { c with rest } := by simp [skip, Action.modify, hrest]
  rw [Action.bind_of_ok h]
  have hsettles := hf () { c with rest } (Nat.lt_of_succ_lt_succ hhere)
  exact hsettles.later (List.suffix_cons t rest) (Nat.le_refl _)

theorem freshId_proceeds : Proceeds limit 0 freshId :=
  fun _ _ => ⟨List.suffix_refl _, Nat.le_refl _⟩

/-- The rule takes one token and has something to give for it, or takes none. -/
def TakesOneOrNone (x : Parser (Option α)) : Prop :=
  ∀ c, x c = .ok none c ∨
    ∃ t rest a, c.rest = t :: rest ∧ x c = .ok (some a) { c with rest := rest }

namespace TakesOneOrNone

variable {x : Parser (Option α)} {f : Option α → Parser β}

theorem proceeds (hx : TakesOneOrNone x) : Proceeds limit 0 x := by
  intro c _
  obtain h | ⟨t, rest, a, hrest, h⟩ := hx c
  · rw [h]
    exact ⟨List.suffix_refl _, Nat.le_refl _⟩
  · rw [h, hrest]
    exact ⟨List.suffix_cons t rest, Nat.le_succ _⟩

/-- What follows the token, or what follows where there is none. -/
theorem orElse (hx : TakesOneOrNone x) {k : Nat} (hk : k ≤ 1)
    (hnone : Proceeds (limit + 1) k (f none)) (hsome : ∀ a, Proceeds limit 0 (f (some a))) :
    Proceeds (limit + 1) k (x >>= f) := by
  intro c hc
  obtain h | ⟨t, rest, a, hrest, h⟩ := hx c
  · rw [Action.bind_of_ok h]
    exact hnone c hc
  · rw [Action.bind_of_ok h, hrest]
    rw [hrest] at hc
    have hsettles := hsome a { c with rest } (Nat.lt_of_succ_lt_succ hc)
    exact (hsettles.later (List.suffix_cons t rest) (Nat.le_refl _)).le hk

end TakesOneOrNone

theorem takeIf_takes (test : Token → Bool) : TakesOneOrNone (takeIf test) := by
  intro c
  cases hrest : c.rest with
  | nil => exact .inl (by simp [takeIf, hrest])
  | cons t rest =>
    cases ht : test t with
    | false => exact .inl (by simp [takeIf, hrest, ht])
    | true => exact .inr ⟨t, rest, t, rfl, by simp [takeIf, hrest, ht]⟩

theorem takeOperator_takes (level : Level) : TakesOneOrNone (takeOperator level) := by
  intro c
  cases hrest : c.rest with
  | nil => exact .inl (by simp [takeOperator, hrest])
  | cons t rest =>
    cases hop : level t.kind with
    | none => exact .inl (by simp [takeOperator, hrest, hop])
    | some op => exact .inr ⟨t, rest, (op, t.line), rfl, by simp [takeOperator, hrest, hop]⟩

theorem expectIf_proceeds (test : Token → Bool) (fault : SyntaxFault) :
    Proceeds limit 1 (expectIf test fault) := by
  intro c _
  unfold expectIf
  split
  · rename_i hrest
    exact ⟨hrest ▸ List.suffix_refl _, List.nil_suffix⟩
  · rename_i t rest hrest
    split
    · rw [hrest]
      exact ⟨List.suffix_cons t rest, Nat.le_refl _⟩
    · rw [hrest]
      exact ⟨hrest ▸ List.suffix_refl _, List.suffix_refl _⟩

theorem expect_proceeds (s : Symbol) (fault : SyntaxFault) : Proceeds limit 1 (expect s fault) :=
  expectIf_proceeds _ fault

theorem expectName_proceeds (fault : SyntaxFault) : Proceeds limit 1 (expectName fault) :=
  (expectIf_proceeds _ fault).bind fun _ => .pure _

theorem separated_proceeds {tooMany : SyntaxFault} {item : Parser α} {fuel : Nat}
    (hlimit : limit ≤ fuel) (hitem : Proceeds limit 1 item) (count : Nat) :
    Proceeds limit 0 (separated tooMany item fuel count) := by
  induction fuel generalizing limit count with
  | zero =>
    obtain rfl : limit = 0 := by omega
    exact .zero
  | succ fuel ih =>
    cases limit with
    | zero => exact .zero
    | succ limit =>
      have hothers := ih (Nat.le_of_succ_le_succ hlimit) (hitem.below (Nat.le_succ _)) (count + 1)
      refine .ite (.refuse tooMany) (hitem.behind fun first => ?_).any
      refine (takeIf_takes _).proceeds.bind fun rest => ?_
      cases rest with
      | none => exact .pure _
      | some _ => exact hothers.bind fun _ => .pure _

theorem separatedOrNone_proceeds (tooMany : SyntaxFault) {item : Parser α} {fuel : Nat}
    (hlimit : limit ≤ fuel) (hitem : Proceeds limit 1 item) :
    Proceeds limit 0 (separatedOrNone tooMany item fuel) :=
  .look fun _ => .ite (.pure _) (separated_proceeds hlimit hitem 0)

theorem untilBrace_proceeds {item : Parser α} {fuel : Nat} (hlimit : limit ≤ fuel)
    (hitem : Proceeds limit 1 item) : Proceeds limit 0 (untilBrace item fuel) := by
  induction fuel generalizing limit with
  | zero =>
    obtain rfl : limit = 0 := by omega
    exact .zero
  | succ fuel ih =>
    cases limit with
    | zero => exact .zero
    | succ limit =>
      have hothers := ih (Nat.le_of_succ_le_succ hlimit) (hitem.below (Nat.le_succ _))
      have hcons := hitem.behind fun first => hothers.bind fun others => .pure (first :: others)
      exact .look fun _ => .ite hcons.any (.pure _)

end

/-! ## Expressions -/

section
variable {limit fuel : Nat} {ex : Parser Expr}

theorem operands_proceed {level : Level} {operand : Parser Expr}
    (hoperand : Proceeds limit 1 operand) (hlimit : limit ≤ fuel) (left : Expr) :
    Proceeds limit 0 (operands level operand fuel left) := by
  induction fuel generalizing limit left with
  | zero =>
    obtain rfl : limit = 0 := by omega
    exact .zero
  | succ fuel ih =>
    cases limit with
    | zero => exact .zero
    | succ limit =>
      have hoperand' := hoperand.below (Nat.le_succ limit)
      refine (takeOperator_takes level).orElse (Nat.zero_le 1) (.pure _) fun op => ?_
      exact (hoperand'.bind fun _ => ih hoperand' (Nat.le_of_succ_le_succ hlimit) _).any

theorem levels_proceed {operand : Parser Expr} (hoperand : Proceeds limit 1 operand)
    (hlimit : limit ≤ fuel) (levels : List Level) :
    Proceeds limit 1 (levels.foldr (binaryLevel fuel) operand) := by
  induction levels with
  | nil => exact hoperand
  | cons level rest ih => exact ih.bind fun first => operands_proceed ih hlimit first

theorem primary_proceeds (hex : Proceeds limit 1 ex) : Proceeds (limit + 1) 1 (primary ex) := by
  refine .seeing (g := fun rest => rest) fun here hhere => ?_
  split
  · exact (Proceeds.refuse _).on hhere
  · split
    · exact skip_settles (fun _ => .pure _) hhere (List.cons_ne_nil _ _)
    · exact skip_settles (fun _ => .pure _) hhere (List.cons_ne_nil _ _)
    · exact skip_settles (fun _ => .pure _) hhere (List.cons_ne_nil _ _)
    · exact skip_settles (fun _ => .pure _) hhere (List.cons_ne_nil _ _)
    · exact skip_settles (fun _ => .pure _) hhere (List.cons_ne_nil _ _)
    · exact skip_settles (fun _ => freshId_proceeds.bind fun _ => .pure _) hhere
        (List.cons_ne_nil _ _)
    · exact skip_settles (fun _ => freshId_proceeds.bind fun _ => .pure _) hhere
        (List.cons_ne_nil _ _)
    · have hgroup := hex.bind fun inner =>
        (expect_proceeds .rightParen .groupEnd).any.bind fun _ => .pure (Expr.grouping inner)
      exact skip_settles (fun _ => hgroup.any) hhere (List.cons_ne_nil _ _)
    · exact (Proceeds.refuse _).on hhere

theorem suffixes_proceed (hex : Proceeds limit 1 ex) (hfuel : fuel ≤ limit + 1) (callee : Expr) :
    Proceeds fuel 0 (suffixes ex fuel callee) := by
  induction fuel generalizing callee with
  | zero => exact .zero
  | succ fuel ih =>
    refine .seeing (g := fun rest => rest.head?.map (·.kind)) fun here hhere => ?_
    split
    · rename_i hkind
      have harguments := separatedOrNone_proceeds .tooManyArguments (Nat.le_refl fuel)
        (hex.below (Nat.le_of_succ_le_succ hfuel))
      have hcall := harguments.bind fun arguments =>
        ((expect_proceeds .rightParen .argumentsEnd).bind fun paren =>
          ih (Nat.le_of_succ_le hfuel) (.call callee paren.line arguments)).any
      exact (skip_settles (fun _ => hcall) hhere (ne_nil_of_kind hkind)).le (Nat.zero_le 1)
    · rename_i hkind
      have hget := (expectName_proceeds .propertyName).bind fun name =>
        ih (Nat.le_of_succ_le hfuel) (.get callee name)
      exact (skip_settles (fun _ => hget.any) hhere (ne_nil_of_kind hkind)).le (Nat.zero_le 1)
    · exact (Proceeds.pure callee).on hhere

theorem unary_proceeds (hex : Proceeds limit 1 ex) (hfuel : fuel ≤ limit + 1) :
    Proceeds fuel 1 (unary ex fuel) := by
  induction fuel with
  | zero => exact .zero
  | succ fuel ih =>
    have hprimary := (primary_proceeds hex).below hfuel
    refine (takeIf_takes _).orElse (Nat.le_refl 1) ?_ fun t => ?_
    · exact hprimary.bind fun callee => suffixes_proceed hex hfuel callee
    · exact (ih (Nat.le_of_succ_le hfuel)).any.bind fun _ => .pure _

theorem assignment_proceeds (hex : Proceeds limit 1 ex) :
    Proceeds (limit + 1) 1 (assignment ex (limit + 1)) := by
  have hunary := unary_proceeds hex (Nat.le_refl (limit + 1))
  refine (levels_proceed hunary (Nat.le_refl _) levels).behind fun target => ?_
  refine .seeing (g := fun rest => rest) fun here hhere => ?_
  rintro c rfl
  -- A target that is refused is refused at the equals sign, before what has been read by then.
  refine ((takeIf_takes _).proceeds c hhere).bind fun equal c₁ hequal _ => ?_
  cases equal with
  | none => exact ⟨hequal, hequal.length_le⟩
  | some _ =>
    have hvalue := hex c₁ (Nat.lt_of_le_of_lt hequal.length_le hhere)
    refine (hvalue.later (k := 0) hequal hequal.length_le).bind fun value c₂ hrest _ => ?_
    split
    · exact ⟨hrest, hrest.length_le⟩
    · exact ⟨hrest, hrest.length_le⟩
    · exact ⟨hrest, List.suffix_refl _⟩

theorem expression_proceeds (fuel : Nat) : Proceeds fuel 1 (expression fuel) := by
  induction fuel with
  | zero => exact .zero
  | succ fuel ih => exact assignment_proceeds ih

end

/-! ## Statements -/

section
variable {limit fuel : Nat} {nested : Nested} (hlimit : limit ≤ fuel)
include hlimit

theorem expression_then_proceeds {s : Symbol} {fault : SyntaxFault} {f : Expr → Token → Stmt} :
    Proceeds limit 1 (do
      let e ← expression fuel
      let t ← expect s fault
      return f e t) :=
  ((expression_proceeds fuel).below hlimit).bind fun _ =>
    (expect_proceeds s fault).any.bind fun _ => .pure _

theorem blockBody_proceeds (hdeclaration : Proceeds limit 1 nested.declaration) :
    Proceeds limit 0 (blockBody fuel nested) :=
  (untilBrace_proceeds hlimit hdeclaration).bind fun _ =>
    (expect_proceeds _ _).any.bind fun _ => .pure _

theorem function_proceeds (hdeclaration : Proceeds limit 1 nested.declaration)
    (kind : FunctionKind) : Proceeds limit 1 (function fuel nested kind) := by
  have hparams := separatedOrNone_proceeds .tooManyParameters hlimit
    (expectName_proceeds .parameterName)
  refine (expectName_proceeds _).bind fun _ => (expect_proceeds _ _).any.bind fun _ => ?_
  refine hparams.bind fun _ => (expect_proceeds _ _).any.bind fun _ => ?_
  exact (expect_proceeds _ _).any.bind fun _ =>
    (blockBody_proceeds hlimit hdeclaration).bind fun _ => .pure _

theorem classDeclaration_proceeds (hdeclaration : Proceeds limit 1 nested.declaration) :
    Proceeds limit 0 (classDeclaration fuel nested) := by
  have hmethods := untilBrace_proceeds hlimit (function_proceeds hlimit hdeclaration .method)
  refine (expectName_proceeds _).any.bind fun _ => (expect_proceeds _ _).any.bind fun _ => ?_
  exact hmethods.bind fun _ => (expect_proceeds _ _).any.bind fun _ => .pure _

theorem varDeclaration_proceeds : Proceeds limit 0 (varDeclaration fuel) := by
  refine (expectName_proceeds _).any.bind fun name => ?_
  refine (takeIf_takes _).proceeds.bind fun equal => ?_
  cases equal with
  | none => exact (expect_proceeds _ _).any.bind fun _ => .pure _
  | some _ => exact (expression_then_proceeds hlimit).any

theorem ifStatement_proceeds (hstatement : Proceeds limit 1 nested.statement) :
    Proceeds limit 0 (ifStatement fuel nested) := by
  have hcondition := ((expression_proceeds fuel).below hlimit).any
  refine (expect_proceeds _ _).any.bind fun _ => hcondition.bind fun _ => ?_
  refine (expect_proceeds _ _).any.bind fun _ => hstatement.any.bind fun _ => ?_
  refine (takeIf_takes _).proceeds.bind fun elseWord => ?_
  cases elseWord with
  | none => exact .pure _
  | some _ => exact hstatement.any.bind fun _ => .pure _

theorem whileStatement_proceeds (hstatement : Proceeds limit 1 nested.statement) :
    Proceeds limit 0 (whileStatement fuel nested) := by
  have hcondition := ((expression_proceeds fuel).below hlimit).any
  refine (expect_proceeds _ _).any.bind fun _ => hcondition.bind fun _ => ?_
  exact (expect_proceeds _ _).any.bind fun _ => hstatement.any.bind fun _ => .pure _

theorem forInitializer_proceeds : Proceeds limit 0 (forInitializer fuel) := by
  refine .seeing (g := fun rest => rest.head?.map (·.kind)) fun here hhere => ?_
  have hhere' : here.length < limit + 1 := Nat.lt_succ_of_lt hhere
  split
  · rename_i hkind
    exact (skip_settles (fun _ => .pure _) hhere' (ne_nil_of_kind hkind)).le (Nat.zero_le 1)
  · rename_i hkind
    have hdeclaration := (varDeclaration_proceeds hlimit).bind fun s => .pure (some s)
    exact (skip_settles (fun _ => hdeclaration) hhere' (ne_nil_of_kind hkind)).le (Nat.zero_le 1)
  · exact ((expression_then_proceeds hlimit).any.bind fun _ => .pure _).on hhere

theorem forStatement_proceeds (hstatement : Proceeds limit 1 nested.statement) :
    Proceeds limit 0 (forStatement fuel nested) := by
  have hex := ((expression_proceeds fuel).below hlimit).any
  refine (expect_proceeds _ _).any.bind fun _ => ?_
  refine (forInitializer_proceeds hlimit).bind fun _ => ?_
  refine .look fun _ => .orElse (.pure _) hex fun _ => ?_
  refine (expect_proceeds _ _).any.bind fun _ => ?_
  refine .look fun _ => .orElse (.pure _) (hex.map _) fun _ => ?_
  exact (expect_proceeds _ _).any.bind fun _ => hstatement.any.bind fun _ => .pure _

theorem returnStatement_proceeds (line : Nat) : Proceeds limit 0 (returnStatement fuel line) := by
  have hvalue := (((expression_proceeds fuel).below hlimit).map some).any
  refine .look fun _ => .orElse (.pure _) hvalue fun _ => ?_
  exact (expect_proceeds _ _).any.bind fun _ => .pure _

omit hlimit in
theorem breakStatement_proceeds (line : Nat) : Proceeds limit 0 (breakStatement line) :=
  (expect_proceeds _ _).any.bind fun _ => .pure _

end

section
variable {limit fuel : Nat} {nested : Nested} (hlimit : limit + 1 ≤ fuel)
include hlimit

theorem statementWith_proceeds (hdeclaration : Proceeds limit 1 nested.declaration)
    (hstatement : Proceeds limit 1 nested.statement) :
    Proceeds (limit + 1) 1 (statementWith fuel nested) := by
  have hle : limit ≤ fuel := Nat.le_of_succ_le hlimit
  have hexpression : Proceeds (limit + 1) 1 (expressionStatement fuel) :=
    expression_then_proceeds hlimit
  refine .seeing (g := fun rest => rest) fun here hhere => ?_
  split
  · exact hexpression.on hhere
  · rename_i t rest
    have hne : t :: rest ≠ [] := List.cons_ne_nil t rest
    split
    · exact skip_settles (fun _ => forStatement_proceeds hle hstatement) hhere hne
    · exact skip_settles (fun _ => ifStatement_proceeds hle hstatement) hhere hne
    · exact skip_settles (fun _ => whileStatement_proceeds hle hstatement) hhere hne
    · exact skip_settles (fun _ => returnStatement_proceeds hle _) hhere hne
    · exact skip_settles (fun _ => breakStatement_proceeds _) hhere hne
    · exact skip_settles (fun _ => (expression_then_proceeds hle).any) hhere hne
    · have hblock := (blockBody_proceeds hle hdeclaration).bind fun body => .pure (Stmt.block body)
      exact skip_settles (fun _ => hblock) hhere hne
    · exact hexpression.on hhere

theorem declarationWith_proceeds (hdeclaration : Proceeds limit 1 nested.declaration)
    (hstatement : Proceeds limit 1 nested.statement) :
    Proceeds (limit + 1) 1 (declarationWith fuel nested) := by
  have hle : limit ≤ fuel := Nat.le_of_succ_le hlimit
  refine .seeing (g := fun rest => rest.head?.map (·.kind)) fun here hhere => ?_
  split
  · rename_i hkind
    have hclass := classDeclaration_proceeds hle hdeclaration
    exact skip_settles (fun _ => hclass) hhere (ne_nil_of_kind hkind)
  · rename_i hkind
    have hfunction := (function_proceeds hle hdeclaration .function).any.bind fun f =>
      .pure (Stmt.funDecl f)
    exact skip_settles (fun _ => hfunction) hhere (ne_nil_of_kind hkind)
  · rename_i hkind
    exact skip_settles (fun _ => varDeclaration_proceeds hle) hhere (ne_nil_of_kind hkind)
  · exact (statementWith_proceeds hlimit hdeclaration hstatement).on hhere

end

theorem statements_proceed (fuel : Nat) :
    Proceeds fuel 1 (declaration fuel) ∧ Proceeds fuel 1 (statement fuel) := by
  induction fuel with
  | zero => exact ⟨.zero, .zero⟩
  | succ fuel ih =>
    obtain ⟨hdeclaration, hstatement⟩ := ih
    constructor
    · exact declarationWith_proceeds (Nat.le_refl _) hdeclaration hstatement
    · exact statementWith_proceeds (Nat.le_refl _) hdeclaration hstatement

/-! ## Sources -/

theorem dropToBoundary_suffix (behindSemicolon : Bool) (tokens : List Token) :
    dropToBoundary behindSemicolon tokens <:+ tokens := by
  induction tokens generalizing behindSemicolon with
  | nil => exact List.suffix_refl _
  | cons t rest ih =>
    unfold dropToBoundary
    split
    · exact List.suffix_refl _
    · exact (ih _).trans (List.suffix_cons t rest)

theorem synchronize_suffix (tokens : List Token) : synchronize tokens <:+ tokens.tail := by
  cases tokens with
  | nil => exact List.suffix_refl _
  | cons t rest => exact dropToBoundary_suffix _ rest

/-- What is refused in these tokens is refused there, each time behind the time before. -/
structure RefusedInOrder (tokens : List Token) (refusals : List Refusal) : Prop where
  within : ∀ q ∈ refusals, tokens ≠ [] ∧ q.place <:+ tokens
  behind : refusals.Pairwise fun q q' => q'.place.length < q.place.length

namespace RefusedInOrder

variable {tokens rest : List Token} {refusals : List Refusal}

theorem nil : RefusedInOrder tokens [] := ⟨by simp, .nil⟩

theorem later (h : RefusedInOrder rest refusals) (hrest : rest <:+ tokens) :
    RefusedInOrder tokens refusals where
  within q hq := by
    obtain ⟨hne, hplace⟩ := h.within q hq
    exact ⟨fun hnil => hne (List.suffix_nil.mp (hnil ▸ hrest)), hplace.trans hrest⟩
  behind := h.behind

/-- One refusal, and those behind the statement boundary that follows it. -/
theorem cons {q : Refusal} (h : RefusedInOrder (synchronize rest) refusals)
    (hrest : rest <:+ q.place) (hplace : q.place <:+ tokens) (hne : tokens ≠ []) :
    RefusedInOrder tokens (q :: refusals) where
  within q' hq' := by
    obtain rfl | hq' := List.mem_cons.mp hq'
    · exact ⟨hne, hplace⟩
    · obtain ⟨-, hq'⟩ := h.within q' hq'
      have htail := (synchronize_suffix rest).trans (List.tail_suffix rest)
      exact ⟨hne, (hq'.trans htail).trans (hrest.trans hplace)⟩
  behind := by
    refine .cons (fun q' hq' => ?_) h.behind
    obtain ⟨hsynchronized, hq'⟩ := h.within q' hq'
    have hshort : q'.place.length ≤ rest.tail.length :=
      (hq'.trans (synchronize_suffix rest)).length_le
    cases rest with
    | nil => exact absurd rfl hsynchronized
    | cons t rest => exact Nat.lt_of_lt_of_le (Nat.lt_succ_of_le hshort) hrest.length_le

end RefusedInOrder

theorem readAll_proceeds {fuel turns : Nat} {c : Cursor} (hfuel : c.rest.length < fuel)
    (hturns : c.rest.length < turns) :
    ∃ r, readAll fuel turns c = some r ∧ RefusedInOrder c.rest r.refusals := by
  induction turns generalizing c with
  | zero => cases hturns
  | succ turns ih =>
    unfold readAll
    split
    · exact ⟨_, rfl, .nil⟩
    · rename_i hempty
      have hne : c.rest ≠ [] := by simpa using hempty
      have hsettles := (statements_proceed fuel).1 c hfuel
      cases hdeclaration : declaration fuel c with
      | ok s c' =>
        rw [hdeclaration] at hsettles
        obtain ⟨hrest, hlength⟩ := hsettles
        obtain ⟨r, hr, hrefused⟩ := ih (c := c') (by omega) (by omega)
        exact ⟨{ r with statements := s :: r.statements }, by simp [hr], hrefused.later hrest⟩
      | error q c' =>
        rw [hdeclaration] at hsettles
        obtain ⟨hrest, hplace⟩ := hsettles
        have hshorter : (synchronize c'.rest).length < c.rest.length := by
          have htail := (synchronize_suffix c'.rest).length_le
          have hle := (hrest.trans hplace).length_le
          have hpos := List.length_pos_iff.mpr hne
          rw [List.length_tail] at htail
          omega
        obtain ⟨r, hr, hrefused⟩ :=
          ih (c := { c' with rest := synchronize c'.rest }) (Nat.lt_trans hshorter hfuel)
            (Nat.lt_of_lt_of_le hshorter (Nat.le_of_lt_succ hturns))
        exact ⟨{ r with refusals := q :: r.refusals }, by simp [hr],
          hrefused.cons hrest hplace hne⟩
      | outOfFuel =>
        rw [hdeclaration] at hsettles
        exact hsettles.elim

end Parsing

end LoxLang
