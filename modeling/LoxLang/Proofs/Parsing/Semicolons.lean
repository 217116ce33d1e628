import LoxLang.Proofs.Parsing.Segments

/-!
# Expressions before a semicolon

No rule of an expression takes a semicolon or looks behind it. So an expression that is read from
some tokens is read in the same way, with the same identities, where a semicolon stands behind.

* `KeptBefore`: a rule that succeeds does the same with the semicolon behind;
* `expression_kept`: rule by rule, for all expressions;
* `parse_print`: what is parsed as one expression is parsed as a `print` statement between the
  keyword and a semicolon.
-/

namespace LoxLang

namespace Parsing

variable {α β : Type} {semicolon : Token}

/-- If one rule succeeds on these tokens, the other one does the same with the semicolon behind. -/
def KeptOn (semicolon : Token) (here : List Token) (x y : Parser α) : Prop :=
  ∀ n a c, x ⟨here, n⟩ = .ok a c → y ⟨here ++ [semicolon], n⟩ = .ok a (c.before [semicolon])

/-- The rule does the same with the semicolon behind, if it succeeds without. -/
def KeptBefore (semicolon : Token) (x : Parser α) : Prop := ∀ here, KeptOn semicolon here x x

/-- One rule behind another, where both sides may go on differently. -/
theorem KeptOn.bind {here : List Token} {x y : Parser α} {f g : α → Parser β}
    (h : KeptOn semicolon here x y) (hf : ∀ a rest, KeptOn semicolon rest (f a) (g a)) :
    KeptOn semicolon here (x >>= f) (y >>= g) := by
  intro n b c hx
  obtain ⟨a, c₁, ha, hb⟩ := Action.bind_eq_ok.mp hx
  exact (Action.bind_of_ok (h n a c₁ ha)).trans (hf a c₁.rest c₁.nextId b c hb)

namespace KeptBefore

variable {x : Parser α} {f : α → Parser β}

theorem pure (a : α) : KeptBefore semicolon (Pure.pure a) := by
  rintro here n _ _ ⟨⟩
  rfl

theorem refuse (fault : SyntaxFault) : KeptBefore semicolon (Parsing.refuse fault : Parser α) :=
  fun _ _ _ _ h => nomatch h

theorem outOfFuel : KeptBefore semicolon (Action.outOfFuel : Parser α) :=
  fun _ _ _ _ h => nomatch h

theorem freshId : KeptBefore semicolon Parsing.freshId := by
  rintro here n _ _ ⟨⟩
  rfl

theorem bind (hx : KeptBefore semicolon x) (hf : ∀ a, KeptBefore semicolon (f a)) :
    KeptBefore semicolon (x >>= f) := fun here => (hx here).bind hf

theorem ite {p : Prop} [Decidable p] {y : Parser α} (hx : KeptBefore semicolon x)
    (hy : KeptBefore semicolon y) : KeptBefore semicolon (if p then x else y) := by
  split
  · exact hx
  · exact hy

/-- A look at the next token that sees no difference between the semicolon and the end. -/
theorem look {g : Option Token → α} (h : g (some semicolon) = g none) :
    KeptBefore semicolon (fun c => .ok (g c.rest.head?) c) := by
  rintro here n _ _ ⟨⟩
  cases here with
  | nil => exact congrArg (fun a => Outcome.ok a _) h
  | cons t rest => rfl

/-- A look at the tokens, and what is read where they are seen. -/
theorem seeing {f : List Token → Parser α} (hend : KeptOn semicolon [] (f []) (f [semicolon]))
    (hf : ∀ t rest, KeptOn semicolon (t :: rest) (f (t :: rest)) (f (t :: (rest ++ [semicolon])))) :
    KeptBefore semicolon (remaining >>= f) := by
  intro here
  cases here with
  | nil => exact hend
  | cons t rest => exact hf t rest

/-- A look at the kind of the next token, and what is read where it is seen. -/
theorem seeingKind {f : Option TokenKind → Parser α}
    (hend : KeptOn semicolon [] (f none) (f (some semicolon.kind)))
    (hf : ∀ t rest, KeptOn semicolon (t :: rest) (f (some t.kind)) (f (some t.kind))) :
    KeptBefore semicolon (nextKind >>= f) := by
  intro here
  cases here with
  | nil => exact hend
  | cons t rest => exact hf t rest

/-- What follows a token that is known to be there. -/
theorem behind (hx : KeptBefore semicolon x) (t : Token) (rest : List Token) :
    KeptOn semicolon (t :: rest) (skip >>= fun _ => x) (skip >>= fun _ => x) :=
  fun n => hx rest n

theorem takeIf {test : Token → Bool} (h : test semicolon = false) :
    KeptBefore semicolon (takeIf test) := by
  intro here n a c hx
  cases here with
  | nil =>
    cases hx
    simp [Parsing.takeIf, Cursor.before, h]
  | cons t rest =>
    by_cases ht : test t = true
    · simp only [Parsing.takeIf, List.cons_append, ht, if_true] at hx ⊢
      cases hx
      rfl
    · simp only [Parsing.takeIf, List.cons_append, if_neg ht] at hx ⊢
      cases hx
      rfl

theorem expectIf (test : Token → Bool) (fault : SyntaxFault) :
    KeptBefore semicolon (expectIf test fault) := by
  intro here n a c hx
  cases here with
  | nil => cases hx
  | cons t rest =>
    by_cases ht : test t = true
    · simp only [Parsing.expectIf, List.cons_append, ht, if_true] at hx ⊢
      cases hx
      rfl
    · simp only [Parsing.expectIf, if_neg ht] at hx
      cases hx

theorem expectName (fault : SyntaxFault) : KeptBefore semicolon (expectName fault) :=
  (expectIf _ fault).bind fun _ => .pure _

theorem takeOperator {level : Level} (h : level semicolon.kind = none) :
    KeptBefore semicolon (takeOperator level) := by
  intro here n a c hx
  cases here with
  | nil =>
    cases hx
    simp [Parsing.takeOperator, Cursor.before, h]
  | cons t rest =>
    cases hop : level t.kind with
    | none =>
      simp only [Parsing.takeOperator, List.cons_append, hop] at hx ⊢
      cases hx
      rfl
    | some op =>
      simp only [Parsing.takeOperator, List.cons_append, hop] at hx ⊢
      cases hx
      rfl

end KeptBefore

/-! ## Expressions -/

section
variable (hsemicolon : semicolon.kind = .symbol .semicolon)
include hsemicolon

theorem accept_kept {s : Symbol} (hs : s ≠ .semicolon) : KeptBefore semicolon (accept s) := by
  refine .takeIf (Bool.eq_false_iff.mpr fun htest => hs ?_)
  rw [Token.isSymbol_iff.mp htest] at hsemicolon
  cases hsemicolon
  rfl

theorem separated_kept (tooMany : SyntaxFault) {item : Parser α} (hitem : KeptBefore semicolon item)
    (fuel count : Nat) : KeptBefore semicolon (separated tooMany item fuel count) := by
  induction fuel generalizing count with
  | zero => exact .outOfFuel
  | succ fuel ih =>
    refine .ite (.refuse _) (hitem.bind fun first => ?_)
    refine (accept_kept hsemicolon (by simp)).bind fun comma => ?_
    cases comma with
    | none => exact .pure _
    | some _ => exact (ih (count + 1)).bind fun _ => .pure _

theorem separatedOrNone_kept (tooMany : SyntaxFault) {item : Parser α}
    (hitem : KeptBefore semicolon item) (fuel : Nat) :
    KeptBefore semicolon (separatedOrNone tooMany item fuel) := by
  have hnext : KeptBefore semicolon (isNext .rightParen) := by
    refine .look (g := Option.any (·.isSymbol .rightParen)) ?_
    simp [Token.isSymbol, hsemicolon]
  exact hnext.bind fun _ => .ite (.pure _) (separated_kept hsemicolon tooMany hitem fuel 0)

theorem operands_kept {level : Level} {operand : Parser Expr}
    (hlevel : level (.symbol .semicolon) = none) (hoperand : KeptBefore semicolon operand)
    (fuel : Nat) (left : Expr) : KeptBefore semicolon (operands level operand fuel left) := by
  induction fuel generalizing left with
  | zero => exact .outOfFuel
  | succ fuel ih =>
    rw [← hsemicolon] at hlevel
    refine (KeptBefore.takeOperator hlevel).bind fun operator => ?_
    cases operator with
    | none => exact .pure _
    | some _ => exact hoperand.bind fun _ => ih _

theorem levels_kept {operand : Parser Expr} (hoperand : KeptBefore semicolon operand) (fuel : Nat)
    {levels : List Level} (hlevels : ∀ level ∈ levels, level (.symbol .semicolon) = none) :
    KeptBefore semicolon (levels.foldr (binaryLevel fuel) operand) := by
  induction levels with
  | nil => exact hoperand
  | cons level rest ih =>
    obtain ⟨hlevel, hrest⟩ := List.forall_mem_cons.mp hlevels
    exact (ih hrest).bind fun first => operands_kept hsemicolon hlevel (ih hrest) fuel first

variable {ex : Parser Expr} (hex : KeptBefore semicolon ex)
include hex

theorem primary_kept : KeptBefore semicolon (primary ex) := by
  have hend : KeptOn semicolon [] (refuse .expression : Parser Expr) (refuse .expression) :=
    KeptBefore.refuse _ []
  refine .seeing (by simpa [hsemicolon] using hend) fun t rest => ?_
  dsimp only
  split
  case h_8 =>
    have hgroup := hex.bind fun inner =>
      (KeptBefore.expectIf (·.isSymbol .rightParen) .groupEnd).bind fun _ =>
        .pure (Expr.grouping inner)
    exact hgroup.behind t rest
  case h_9 => exact KeptBefore.refuse _ _
  case h_6 => exact (KeptBefore.freshId.bind fun _ => .pure _).behind t rest
  case h_7 => exact (KeptBefore.freshId.bind fun _ => .pure _).behind t rest
  all_goals exact (KeptBefore.pure _).behind t rest

theorem suffixes_kept (fuel : Nat) (callee : Expr) :
    KeptBefore semicolon (suffixes ex fuel callee) := by
  induction fuel generalizing callee with
  | zero => exact .outOfFuel
  | succ fuel ih =>
    have hend : KeptOn semicolon [] (Pure.pure callee) (Pure.pure callee) :=
      KeptBefore.pure callee []
    refine .seeingKind (by rwa [hsemicolon]) fun t rest => ?_
    split
    · have harguments := separatedOrNone_kept hsemicolon .tooManyArguments hex fuel
      have hcall := harguments.bind fun arguments =>
        (KeptBefore.expectIf (·.isSymbol .rightParen) .argumentsEnd).bind fun paren =>
          ih (.call callee paren.line arguments)
      exact hcall.behind t rest
    · have hget := (KeptBefore.expectName .propertyName).bind fun name => ih (.get callee name)
      exact hget.behind t rest
    · exact KeptBefore.pure callee _

theorem unary_kept (fuel : Nat) : KeptBefore semicolon (unary ex fuel) := by
  induction fuel with
  | zero => exact .outOfFuel
  | succ fuel ih =>
    have hprefix : (semicolon.isSymbol .bang || semicolon.isSymbol .minus) = false := by
      simp [Token.isSymbol, hsemicolon]
    refine (KeptBefore.takeIf hprefix).bind fun t => ?_
    cases t with
    | none =>
      exact (primary_kept hsemicolon hex).bind fun callee => suffixes_kept hsemicolon hex _ callee
    | some t => exact ih.bind fun _ => .pure _

theorem assignment_kept (fuel : Nat) : KeptBefore semicolon (assignment ex fuel) := by
  have hlevels : ∀ level ∈ levels, level (.symbol .semicolon) = none := by simp [levels]
  have htarget := levels_kept hsemicolon (unary_kept hsemicolon hex fuel) fuel hlevels
  refine htarget.bind fun target => ?_
  -- A target is refused elsewhere, but nothing is said of a rule that is refused.
  have hequal : KeptBefore semicolon (accept .equal) := accept_kept hsemicolon (by simp)
  refine .seeing ((hequal _).bind fun equal rest => ?_) fun t here =>
    (hequal _).bind fun equal rest => ?_
  all_goals
    cases equal with
    | none => exact KeptBefore.pure target rest
    | some _ =>
      refine (hex rest).bind fun value rest => ?_
      cases target with
      | «variable» id name => exact (KeptBefore.freshId rest).bind fun id => KeptBefore.pure _
      | get object name => exact KeptBefore.pure _ rest
      | _ =>
        intro n a c h
        cases h

end

theorem expression_kept (hsemicolon : semicolon.kind = .symbol .semicolon) (fuel : Nat) :
    KeptBefore semicolon (expression fuel) := by
  induction fuel with
  | zero => exact .outOfFuel
  | succ fuel ih => exact assignment_kept hsemicolon ih (fuel + 1)

/-- A `print` statement, from its expression. -/
theorem declaration_print {tokens : List Token} {n next : NodeId} {e : Expr} {fuel : Nat}
    (h : expression (fuel + 1) ⟨tokens, n⟩ = .ok e ⟨[], next⟩) (lexeme : String) (line : Nat)
    (hsemicolon : semicolon.kind = .symbol .semicolon) :
    declaration (fuel + 1) ⟨⟨.keyword .printWord, lexeme, line⟩ :: (tokens ++ [semicolon]), n⟩
      = .ok (.print e) ⟨[], next⟩ := by
  have hkept := expression_kept hsemicolon (fuel + 1) tokens n e _ h
  have hend : expect .semicolon .printEnd ⟨[semicolon], next⟩ = .ok semicolon ⟨[], next⟩ := by
    simp [expect, expectIf, Token.isSymbol, hsemicolon]
  have hprint : printStatement (fuel + 1) ⟨tokens ++ [semicolon], n⟩ = .ok (.print e) ⟨[], next⟩ :=
    (Action.bind_of_ok hkept).trans (Action.bind_of_ok hend)
  exact hprint

end Parsing

open Parsing

/-- **An expression is printed as it is parsed**, with the same identities. -/
theorem parse_print {tokens : List Token} {line endLine : Nat} {n next : NodeId} {e : Expr}
    (h : Expr.parse ⟨tokens, line⟩ n = (.ok e, next)) {print semicolon : Token}
    (hprint : print.kind = .keyword .printWord)
    (hsemicolon : semicolon.kind = .symbol .semicolon) :
    Program.parse ⟨print :: (tokens ++ [semicolon]), endLine⟩ n = (.ok [.print e], next) := by
  obtain ⟨kind, lexeme, line⟩ := print
  obtain rfl : kind = _ := hprint
  have hdeclaration := declaration_print (Expr.read_of_parse h) lexeme line hsemicolon
  have hyields := (yields_nil rfl).ok (List.cons_ne_nil _ _) hdeclaration
  exact @Program.parse_of_yields ⟨_, endLine⟩ n _ hyields

end LoxLang
