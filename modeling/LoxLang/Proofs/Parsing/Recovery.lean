import LoxLang.Proofs.Parsing.Completeness
import LoxLang.Proofs.Parsing.Segments

/-!
# Missing semicolons

An expression without its semicolon is refused at the token behind it. Reading then goes on behind
that token, also where it opens a statement: what the statement has to report is lost.

* `declaration_unended`: where an expression without its semicolon is refused;
* `unended_errors`: the errors that are reported from there on;
* `missing_semicolon_hides_statement`: a statement behind it is skipped, and nothing else is.
-/

namespace LoxLang

namespace Parsing

open Grammar (Form)

section
variable {t : Token} {rest tokens : List Token} {n : NodeId}

/-- A token that opens a statement does not continue an expression, and is no semicolon. -/
theorem opensStatement_stops (ht : opensStatement t = true) (rest : List Token) :
    Form.expression.StopsAt (t :: rest) ∧ t.isSymbol .semicolon = false := by
  obtain ⟨kind, lexeme, line⟩ := t
  cases kind with
  | keyword k => cases k <;> first | exact ⟨.cons rfl rfl, rfl⟩ | cases ht
  | _ => cases ht

theorem expect_refused {s : Symbol} {fault : SyntaxFault} (ht : t.isSymbol s = false) :
    expect s fault ⟨t :: rest, n⟩ = .error ⟨fault, t :: rest⟩ ⟨t :: rest, n⟩ := by
  simp [expect, expectIf, ht]

/-- An expression without its semicolon is refused at the token behind it. -/
theorem declaration_unended {e : Expr} {fuel : Nat}
    (he : Grammar.Expression .expression tokens e) (hstop : Form.expression.StopsAt (t :: rest))
    (ht : t.isSymbol .semicolon = false) (hlength : tokens.length + (t :: rest).length < fuel + 1) :
    ∃ n', declaration (fuel + 1) ⟨tokens ++ t :: rest, n⟩
      = .error ⟨.expressionEnd, t :: rest⟩ ⟨t :: rest, n'⟩ := by
  obtain ⟨e', n', hread, -⟩ := expression_accepts (fuel + 1) _ _ he (t :: rest) n hlength hstop
  have hexpression : expressionStatement (fuel + 1) ⟨tokens ++ t :: rest, n⟩
      = .error ⟨.expressionEnd, t :: rest⟩ ⟨t :: rest, n'⟩ :=
    (Action.bind_of_ok hread).trans (Action.bind_of_error (expect_refused ht))
  obtain ⟨first, more, rfl, hfirst⟩ := he.starts
  refine ⟨n', ?_⟩
  exact (declarationWith_statement (Grammar.Kind.opens_of_unary hfirst)).trans
    ((statementWith_expression hfirst).trans hexpression)

end

end Parsing

open Parsing

section
variable {e rest : List Token} {t : Token} {expr : Expr} {line : Nat} {n next : NodeId}

/-- An expression without its semicolon, and a token behind it that opens a statement. -/
theorem unended_errors (he : Expr.parse ⟨e, line⟩ n = (.ok expr, next))
    (ht : opensStatement t = true) (endLine : Nat) (k k' : NodeId) :
    TokenStream.syntaxErrors ⟨e ++ t :: rest, endLine⟩ k
      = ⟨.expressionEnd, some t.lexeme, t.line⟩ ::
        TokenStream.syntaxErrors ⟨synchronize (t :: rest), endLine⟩ k' := by
  have hgrammar : Grammar.Expression .expression e expr.withoutIds := (expression_of_parse he).1
  obtain ⟨hstop, hsemicolon⟩ := opensStatement_stops ht rest
  obtain ⟨k₁, hdeclaration⟩ := declaration_unended (n := k) hgrammar hstop hsemicolon
    (Nat.lt_succ_self _)
  obtain ⟨r, hr⟩ := exists_yields ⟨synchronize (t :: rest), k₁⟩
  have hwhole := hr.error (by simp) hdeclaration
  rw [TokenStream.syntaxErrors_of_yields hwhole, TokenStream.syntaxErrors_ids _ k' k₁,
    TokenStream.syntaxErrors_of_yields hr]
  rfl

/-- **A missing semicolon hides the statement behind it.** -/
theorem missing_semicolon_hides_statement (he : Expr.parse ⟨e, line⟩ n = (.ok expr, next))
    (ht : opensStatement t = true) (endLine : Nat) (k : NodeId) :
    let whole := TokenStream.syntaxErrors ⟨e ++ t :: rest, endLine⟩ k
    let missing : SyntaxError := ⟨.expressionEnd, some t.lexeme, t.line⟩
    whole = missing :: TokenStream.syntaxErrors ⟨synchronize (t :: rest), endLine⟩ k ∧
    ∀ hidden behind, t :: rest = hidden ++ behind → Segment hidden →
      (∀ t ∈ behind.head?, t.isKeyword .elseWord = false) →
      whole = missing :: TokenStream.syntaxErrors ⟨behind, endLine⟩ k ∧
      (whole = missing :: TokenStream.syntaxErrors ⟨t :: rest, endLine⟩ k ↔
        ∃ p, (Program.parse ⟨hidden, endLine⟩ k).1 = .ok p) := by
  intro whole missing
  have hwhole : whole = missing :: TokenStream.syntaxErrors ⟨synchronize (t :: rest), endLine⟩ k :=
    unended_errors he ht endLine k k
  refine ⟨hwhole, fun hidden behind htokens hhidden hbehind => ?_⟩
  have hskipped : synchronize (t :: rest) = behind := by
    rw [htokens]
    exact synchronize_closing hhidden.closing hhidden.opens
  rw [hskipped] at hwhole
  have hboth : TokenStream.syntaxErrors ⟨t :: rest, endLine⟩ k
      = TokenStream.syntaxErrors ⟨hidden, endLine⟩ k ++
        TokenStream.syntaxErrors ⟨behind, endLine⟩ k := by
    rw [htokens]
    exact hhidden.errors_append hbehind
  refine ⟨hwhole, ?_⟩
  rw [hwhole, hboth, ← TokenStream.syntaxErrors_eq_nil, List.cons_inj_right]
  exact List.self_eq_append_left

/-- The second error of this source is not reported. -/
theorem print_behind_expression_hidden :
    let a : Token := ⟨.identifier, "a", 1⟩
    let print : Token := ⟨.keyword .printWord, "print", 2⟩
    let others : List Token :=
      [⟨.identifier, "b", 2⟩, ⟨.symbol .plus, "+", 2⟩, ⟨.symbol .semicolon, ";", 2⟩]
    let whole : TokenStream := ⟨[a] ++ print :: others, 3⟩
    (scan "a\nprint b +;\n").tokens? = .ok whole ∧
    whole.syntaxErrors 0 = [⟨.expressionEnd, some "print", 2⟩] ∧
    TokenStream.syntaxErrors ⟨print :: others, 3⟩ 0 = [⟨.expression, some ";", 2⟩] := by
  intro a print others whole
  have ha : Expr.parse ⟨[a], 1⟩ 0 = (.ok (.variable 0 ⟨"a", 1⟩), 1) := by cbv
  have hothers : Segment (print :: others) := by
    refine ⟨?_, by decide⟩
    exact .plain rfl (.plain rfl (.plain rfl (.semicolon rfl)))
  have hhidden := @missing_semicolon_hides_statement [a] others print _ 1 0 1 ha rfl 3 0
  obtain ⟨hmissing, -⟩ := hhidden.2 (print :: others) [] (by simp) hothers (by simp)
  exact ⟨by cbv, hmissing.trans (by cbv), by cbv⟩

end

end LoxLang
