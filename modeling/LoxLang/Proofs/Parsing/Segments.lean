import LoxLang.Proofs.Parsing.Fuel
import Mathlib

/-!
# Segments

A segment is one statement up to its semicolon, well-formed or not, without braces and without the
words that may stand after a semicolon of the same statement. It is read in the same way wherever
it stands, and what is behind it is read as if it stood alone.

* `Closing`, `Segment`: tokens up to the only semicolon among them;
* `Confined`: what a rule does on such tokens does not depend on what is behind;
* `expression_confined`, `statements_confined`: an expression ends before the semicolon, and a
  statement ends with it or is refused before it;
* `synchronize_closing`: after a refusal reading goes on right behind the semicolon;
* `segments_read_alone`: sources that are made of segments.
-/

namespace LoxLang

namespace Parsing

variable {α β : Type}

/-! ## Tokens up to a semicolon -/

/-- The token neither ends a statement nor opens one in which other statements stand in a row. -/
def isPlain (t : Token) : Bool :=
  match t.kind with
  | .symbol .semicolon | .symbol .leftBrace | .symbol .rightBrace => false
  | .keyword .forWord | .keyword .elseWord => false
  | _ => true

/-- Plain tokens and a semicolon behind them. -/
inductive Closing : List Token → Prop
  | semicolon {t : Token} (ht : t.kind = .symbol .semicolon) : Closing [t]
  | plain {t : Token} {rest : List Token} (ht : isPlain t = true) (hrest : Closing rest) :
      Closing (t :: rest)

/-- One statement: the words that open statements stand at its beginning only. -/
structure Segment (tokens : List Token) : Prop where
  closing : Closing tokens
  opens : ∀ t ∈ tokens.tail, opensStatement t = false

namespace Closing

variable {t : Token} {rest tokens tail : List Token}

theorem ne_nil (h : Closing tokens) : tokens ≠ [] := by
  cases h <;> exact List.cons_ne_nil _ _

theorem tail_of_ne (h : Closing (t :: rest)) (ht : t.kind ≠ .symbol .semicolon) :
    Closing rest := by
  cases h with
  | semicolon hsemicolon => exact absurd hsemicolon ht
  | plain _ hrest => exact hrest

theorem tail_of_semicolon (h : Closing (t :: rest)) (ht : t.kind = .symbol .semicolon) :
    rest = [] := by
  cases h with
  | semicolon => rfl
  | plain hplain _ =>
    rw [isPlain, ht] at hplain
    cases hplain

/-- Some kinds of tokens do not occur. -/
theorem kind_ne (h : Closing (t :: rest)) {kind : TokenKind}
    (hkind : kind ∈ [TokenKind.symbol .leftBrace, .symbol .rightBrace, .keyword .forWord,
      .keyword .elseWord]) : t.kind ≠ kind := by
  rintro rfl
  cases h with
  | semicolon ht =>
    rw [ht] at hkind
    simp at hkind
  | plain hplain _ =>
    simp only [List.mem_cons, List.not_mem_nil, or_false] at hkind
    obtain ht | ht | ht | ht := hkind <;> simp [isPlain, ht] at hplain

theorem head?_append (h : Closing tokens) : (tokens ++ tail).head? = tokens.head? := by
  cases h <;> rfl

end Closing

/-! ## Rules on such tokens -/

/-- The cursor with other tokens behind. -/
def Cursor.before (c : Cursor) (tail : List Token) : Cursor := { c with rest := c.rest ++ tail }

/-- How a rule may end, and how it then ends with other tokens behind: if it succeeds it stops as
said, and if it is refused the semicolon is still to be read. -/
def EndsBefore (tail : List Token) (stop : List Token → Prop) :
    Outcome Refusal Cursor α → Outcome Refusal Cursor α → Prop
  | .ok a c, o => stop c.rest ∧ o = .ok a (c.before tail)
  | .error q c, o => Closing c.rest ∧ o = .error ⟨q.fault, q.place ++ tail⟩ (c.before tail)
  | .outOfFuel, _ => True

/-- What is read behind, where both sides may go on differently. -/
theorem EndsBefore.bind {tail : List Token} {stop stop' : List Token → Prop} {x : Parser α}
    {f g : α → Parser β} {c : Cursor} (h : EndsBefore tail stop (x c) (x (c.before tail)))
    (hf : ∀ a c', stop c'.rest → EndsBefore tail stop' (f a c') (g a (c'.before tail))) :
    EndsBefore tail stop' ((x >>= f) c) ((x >>= g) (c.before tail)) := by
  cases hx : x c with
  | ok a c' =>
    rw [hx] at h
    obtain ⟨hstop, hy⟩ := h
    rw [Action.bind_of_ok hx, Action.bind_of_ok hy]
    exact hf a c' hstop
  | error q c' =>
    rw [hx] at h
    obtain ⟨hclosing, hy⟩ := h
    rw [Action.bind_of_error hx, Action.bind_of_error hy]
    exact ⟨hclosing, rfl⟩
  | outOfFuel =>
    rw [Action.bind_of_outOfFuel hx]
    trivial

/-- The rule does the same with other tokens behind as without them. -/
def Confined (tail : List Token) (stop : List Token → Prop) (x : Parser α) : Prop :=
  ∀ c, Closing c.rest → EndsBefore tail stop (x c) (x (c.before tail))

/-- One rule on these tokens does what another one does with the other tokens behind. -/
def ConfinedOn (tail : List Token) (stop : List Token → Prop) (here : List Token)
    (x y : Parser α) : Prop :=
  ∀ n, EndsBefore tail stop (x ⟨here, n⟩) (y ⟨here ++ tail, n⟩)

namespace Confined

variable {tail : List Token} {stop stop' : List Token → Prop} {x : Parser α} {f : α → Parser β}

theorem pure (a : α) : Confined tail Closing (Pure.pure a) := fun _ hc => ⟨hc, rfl⟩

theorem outOfFuel : Confined tail stop (Action.outOfFuel : Parser α) := fun _ _ => trivial

theorem refuse (fault : SyntaxFault) : Confined tail stop (Parsing.refuse fault : Parser α) :=
  fun _ hc => ⟨hc, rfl⟩

/-- One rule behind another. -/
theorem bind (h : Confined tail stop x)
    (hf : ∀ a c, stop c.rest → EndsBefore tail stop' (f a c) (f a (c.before tail))) :
    Confined tail stop' (x >>= f) := fun c hc => (h c hc).bind hf

/-- One rule behind another that ends before the semicolon. -/
theorem behind (h : Confined tail Closing x) (hf : ∀ a, Confined tail stop (f a)) :
    Confined tail stop (x >>= f) := h.bind hf

/-- A rule that never succeeds, and any rule behind it. -/
theorem never (h : Confined tail (fun _ => False) x) : Confined tail stop (x >>= f) :=
  h.bind fun _ _ hstop => hstop.elim

/-- What is made of a result. -/
theorem map (h : Confined tail stop x) (g : α → β) : Confined tail stop (g <$> x) :=
  h.bind fun _ _ hstop => ⟨hstop, rfl⟩

theorem ite {p : Prop} [Decidable p] {y : Parser α} (h : Confined tail stop x)
    (h' : Confined tail stop y) : Confined tail stop (if p then x else y) := by
  split
  · exact h
  · exact h'

/-- A look at the next token. -/
theorem look (g : Option Token → α) : Confined tail Closing (fun c => .ok (g c.rest.head?) c) := by
  intro c hc
  have hhead : (c.before tail).rest.head? = c.rest.head? := hc.head?_append
  exact ⟨hc, congrArg (fun t => Outcome.ok (g t) (c.before tail)) hhead⟩

theorem on (h : Confined tail stop x) {here : List Token} (hhere : Closing here) :
    ConfinedOn tail stop here x x := fun n => h ⟨here, n⟩ hhere

/-- A look at the tokens, and what is read where they are seen. -/
theorem seeing {f : List Token → Parser α}
    (hf : ∀ t rest, Closing (t :: rest) →
      ConfinedOn tail stop (t :: rest) (f (t :: rest)) (f (t :: (rest ++ tail)))) :
    Confined tail stop (remaining >>= f) := by
  rintro ⟨tokens, n⟩ hc
  obtain ⟨t, rest, rfl⟩ := List.exists_cons_of_ne_nil hc.ne_nil
  exact hf t rest hc n

/-- A look at the kind of the next token, and what is read where it is seen. -/
theorem seeingKind {f : Option TokenKind → Parser α}
    (hf : ∀ t rest, Closing (t :: rest) →
      ConfinedOn tail stop (t :: rest) (f (some t.kind)) (f (some t.kind))) :
    Confined tail stop (nextKind >>= f) := by
  rintro ⟨tokens, n⟩ hc
  obtain ⟨t, rest, rfl⟩ := List.exists_cons_of_ne_nil hc.ne_nil
  exact hf t rest hc n

end Confined

/-! ## Steps -/

section
variable {tail : List Token} {stop : List Token → Prop}

/-- What follows a token that is known to be there and is not the semicolon. -/
theorem skip_confined {f : Unit → Parser α} {t : Token} {rest : List Token}
    (hf : Confined tail stop (f ())) (hc : Closing (t :: rest))
    (ht : t.kind ≠ .symbol .semicolon) :
    ConfinedOn tail stop (t :: rest) (skip >>= f) (skip >>= f) :=
  fun n => hf ⟨rest, n⟩ (hc.tail_of_ne ht)

theorem freshId_confined : Confined tail Closing freshId := fun _ hc => ⟨hc, rfl⟩

theorem takeIf_confined {test : Token → Bool}
    (htest : ∀ t, test t = true → t.kind ≠ .symbol .semicolon) :
    Confined tail Closing (takeIf test) := by
  rintro ⟨tokens, n⟩ hc
  obtain ⟨t, rest, rfl⟩ := List.exists_cons_of_ne_nil hc.ne_nil
  by_cases ht : test t = true
  · simp only [takeIf, Cursor.before, List.cons_append, ht, if_true]
    exact ⟨hc.tail_of_ne (htest t ht), rfl⟩
  · simp only [takeIf, Cursor.before, List.cons_append, if_neg ht]
    exact ⟨hc, rfl⟩

theorem accept_confined {s : Symbol} (hs : s ≠ .semicolon) : Confined tail Closing (accept s) := by
  refine takeIf_confined fun t ht hkind => hs ?_
  rw [Token.isSymbol_iff.mp ht] at hkind
  cases hkind
  rfl

theorem expectIf_confined {test : Token → Bool}
    (htest : ∀ t rest, Closing (t :: rest) → test t = true → stop rest) (fault : SyntaxFault) :
    Confined tail stop (expectIf test fault) := by
  rintro ⟨tokens, n⟩ hc
  obtain ⟨t, rest, rfl⟩ := List.exists_cons_of_ne_nil hc.ne_nil
  by_cases ht : test t = true
  · simp only [expectIf, Cursor.before, List.cons_append, ht, if_true]
    exact ⟨htest t rest hc ht, rfl⟩
  · simp only [expectIf, Cursor.before, List.cons_append, if_neg ht]
    exact ⟨hc, rfl⟩

theorem expect_confined {s : Symbol} (hs : s ≠ .semicolon) (fault : SyntaxFault) :
    Confined tail Closing (expect s fault) := by
  refine expectIf_confined (fun t rest hc ht => hc.tail_of_ne fun hkind => hs ?_) fault
  rw [Token.isSymbol_iff.mp ht] at hkind
  cases hkind
  rfl

/-- A statement ends with its semicolon. -/
theorem semicolon_confined (fault : SyntaxFault) :
    Confined tail (· = []) (expect .semicolon fault) :=
  expectIf_confined (fun _ _ hc ht => hc.tail_of_semicolon (Token.isSymbol_iff.mp ht)) fault

/-- There are no braces. -/
theorem leftBrace_confined (fault : SyntaxFault) :
    Confined tail (fun _ => False) (expect .leftBrace fault) :=
  expectIf_confined (fun _ _ hc ht => hc.kind_ne (by simp) (Token.isSymbol_iff.mp ht)) fault

theorem expectName_confined (fault : SyntaxFault) : Confined tail Closing (expectName fault) := by
  refine (expectIf_confined (fun t rest hc ht => hc.tail_of_ne fun hkind => ?_) fault).behind
    fun _ => .pure _
  rw [hkind] at ht
  cases ht

theorem takeOperator_confined {level : Level} (hlevel : level (.symbol .semicolon) = none) :
    Confined tail Closing (takeOperator level) := by
  rintro ⟨tokens, n⟩ hc
  obtain ⟨t, rest, rfl⟩ := List.exists_cons_of_ne_nil hc.ne_nil
  cases hop : level t.kind with
  | none =>
    simp only [takeOperator, Cursor.before, List.cons_append, hop]
    exact ⟨hc, rfl⟩
  | some op =>
    simp only [takeOperator, Cursor.before, List.cons_append, hop]
    refine ⟨hc.tail_of_ne fun hkind => ?_, rfl⟩
    rw [hkind, hlevel] at hop
    cases hop

theorem separated_confined {tooMany : SyntaxFault} {item : Parser α}
    (hitem : Confined tail Closing item) (fuel count : Nat) :
    Confined tail Closing (separated tooMany item fuel count) := by
  induction fuel generalizing count with
  | zero => exact .outOfFuel
  | succ fuel ih =>
    refine .ite (.refuse _) (hitem.behind fun first => ?_)
    refine (accept_confined (by simp)).behind fun comma => ?_
    cases comma with
    | none => exact .pure _
    | some _ => exact (ih (count + 1)).behind fun _ => .pure _

theorem separatedOrNone_confined (tooMany : SyntaxFault) {item : Parser α}
    (hitem : Confined tail Closing item) (fuel : Nat) :
    Confined tail Closing (separatedOrNone tooMany item fuel) :=
  (Confined.look (Option.any (·.isSymbol .rightParen))).behind fun _ =>
    .ite (.pure _) (separated_confined hitem fuel 0)

end

/-! ## Expressions -/

section
variable {tail : List Token}

theorem operands_confined {level : Level} {operand : Parser Expr}
    (hlevel : level (.symbol .semicolon) = none) (hoperand : Confined tail Closing operand)
    (fuel : Nat) (left : Expr) : Confined tail Closing (operands level operand fuel left) := by
  induction fuel generalizing left with
  | zero => exact .outOfFuel
  | succ fuel ih =>
    refine (takeOperator_confined hlevel).behind fun operator => ?_
    cases operator with
    | none => exact .pure _
    | some _ => exact hoperand.behind fun _ => ih _

theorem levels_confined {operand : Parser Expr} (hoperand : Confined tail Closing operand)
    (fuel : Nat) {levels : List Level}
    (hlevels : ∀ level ∈ levels, level (.symbol .semicolon) = none) :
    Confined tail Closing (levels.foldr (binaryLevel fuel) operand) := by
  induction levels with
  | nil => exact hoperand
  | cons level rest ih =>
    obtain ⟨hlevel, hrest⟩ := List.forall_mem_cons.mp hlevels
    exact (ih hrest).behind fun first => operands_confined hlevel (ih hrest) fuel first

variable {ex : Parser Expr} (hex : Confined tail Closing ex)
include hex

theorem primary_confined : Confined tail Closing (primary ex) := by
  refine .seeing fun t rest hc => ?_
  dsimp only
  split
  case h_9 => exact (Confined.refuse _).on hc
  all_goals
    rename_i hkind
    have ht : t.kind ≠ .symbol .semicolon := by simp [hkind]
  case h_6 => exact skip_confined (freshId_confined.behind fun _ => .pure _) hc ht
  case h_7 => exact skip_confined (freshId_confined.behind fun _ => .pure _) hc ht
  case h_8 =>
    have hclose : Confined tail Closing (expect .rightParen .groupEnd) :=
      expect_confined (by simp) _
    have hgroup := hex.behind fun inner => hclose.behind fun _ => .pure (Expr.grouping inner)
    exact skip_confined hgroup hc ht
  all_goals exact skip_confined (.pure _) hc ht

theorem suffixes_confined (fuel : Nat) (callee : Expr) :
    Confined tail Closing (suffixes ex fuel callee) := by
  induction fuel generalizing callee with
  | zero => exact .outOfFuel
  | succ fuel ih =>
    refine .seeingKind fun t rest hc => ?_
    split
    · rename_i hkind
      have ht : t.kind ≠ .symbol .semicolon := by simp [Option.some.inj hkind]
      have harguments := separatedOrNone_confined .tooManyArguments hex fuel
      have hclose : Confined tail Closing (expect .rightParen .argumentsEnd) :=
        expect_confined (by simp) _
      have hcall := harguments.behind fun arguments => hclose.behind fun paren =>
        ih (.call callee paren.line arguments)
      exact skip_confined hcall hc ht
    · rename_i hkind
      have ht : t.kind ≠ .symbol .semicolon := by simp [Option.some.inj hkind]
      have hget := (expectName_confined .propertyName).behind fun name => ih (.get callee name)
      exact skip_confined hget hc ht
    · exact (Confined.pure callee).on hc

theorem unary_confined (fuel : Nat) : Confined tail Closing (unary ex fuel) := by
  induction fuel with
  | zero => exact .outOfFuel
  | succ fuel ih =>
    have hprefix : ∀ t : Token, (t.isSymbol .bang || t.isSymbol .minus) = true →
        t.kind ≠ .symbol .semicolon := by
      intro t ht hkind
      simp [Token.isSymbol, hkind] at ht
    refine (takeIf_confined hprefix).behind fun t => ?_
    cases t with
    | none => exact (primary_confined hex).behind fun callee => suffixes_confined hex _ callee
    | some t => exact ih.behind fun _ => .pure _

theorem assignment_confined (fuel : Nat) : Confined tail Closing (assignment ex fuel) := by
  have hlevels : ∀ level ∈ levels, level (.symbol .semicolon) = none := by simp [levels]
  refine (levels_confined (unary_confined hex fuel) fuel hlevels).behind fun target => ?_
  refine .seeing fun t rest hc n => ?_
  -- A target that is refused is refused at the equals sign, wherever its value ends.
  refine (accept_confined (s := .equal) (by simp) ⟨t :: rest, n⟩ hc).bind fun equal c hequal => ?_
  cases equal with
  | none => exact ⟨hequal, rfl⟩
  | some _ =>
    refine (hex c hequal).bind fun value c' hvalue => ?_
    cases target <;> exact ⟨hvalue, rfl⟩

end

theorem expression_confined {tail : List Token} (fuel : Nat) :
    Confined tail Closing (expression fuel) := by
  induction fuel with
  | zero => exact .outOfFuel
  | succ fuel ih => exact assignment_confined ih (fuel + 1)

/-! ## Statements -/

section
variable {tail : List Token} {stop : List Token → Prop} (fuel : Nat) {nested : Nested}

theorem expression_then_confined {fault : SyntaxFault} {f : Expr → Token → Stmt} :
    Confined tail (· = []) (do
      let e ← expression fuel
      let t ← expect .semicolon fault
      return f e t) :=
  (expression_confined fuel).behind fun e => (semicolon_confined fault).map (f e)

/-- A function has a body between braces. -/
theorem function_confined (kind : FunctionKind) :
    Confined tail stop (function fuel nested kind) := by
  have hparam : Confined tail Closing (expectName .parameterName) := expectName_confined _
  have hparams := separatedOrNone_confined .tooManyParameters hparam fuel
  refine (expectName_confined _).behind fun _ => (expect_confined (by simp) _).behind fun _ => ?_
  refine hparams.behind fun _ => (expect_confined (by simp) _).behind fun _ => ?_
  exact (leftBrace_confined _).never

theorem classDeclaration_confined : Confined tail stop (classDeclaration fuel nested) :=
  (expectName_confined _).behind fun _ => (leftBrace_confined _).never

theorem varDeclaration_confined : Confined tail (· = []) (varDeclaration fuel) := by
  refine (expectName_confined _).behind fun name => ?_
  refine (accept_confined (by simp)).behind fun equal => ?_
  cases equal with
  | none => exact (semicolon_confined _).map _
  | some _ => exact expression_then_confined fuel

theorem whileStatement_confined (hstatement : Confined tail (· = []) nested.statement) :
    Confined tail (· = []) (whileStatement fuel nested) := by
  refine (expect_confined (by simp) _).behind fun _ => (expression_confined fuel).behind fun _ => ?_
  exact (expect_confined (by simp) _).behind fun _ => hstatement.map _

/-- What is behind does not belong to the statement, as it does not start with an `else`. -/
theorem ifStatement_confined (htail : ∀ t ∈ tail.head?, t.isKeyword .elseWord = false)
    (hstatement : Confined tail (· = []) nested.statement) :
    Confined tail (· = []) (ifStatement fuel nested) := by
  refine (expect_confined (by simp) _).behind fun _ => (expression_confined fuel).behind fun _ => ?_
  refine (expect_confined (by simp) _).behind fun _ => hstatement.bind fun thenBranch c hc => ?_
  obtain ⟨tokens, n⟩ := c
  obtain rfl : tokens = [] := hc
  have helse : takeIf (·.isKeyword .elseWord) (Cursor.before ⟨[], n⟩ tail)
      = .ok none ⟨tail, n⟩ := takeIf_stop htail
  rw [Action.bind_of_ok (takeIf_stop (by simp)), Action.bind_of_ok helse]
  exact ⟨rfl, rfl⟩

theorem returnStatement_confined (line : Nat) :
    Confined tail (· = []) (returnStatement fuel line) := by
  have hsemicolon : Confined tail (· = []) (expect .semicolon .returnEnd) := semicolon_confined _
  have hend (value : Option Expr) := hsemicolon.map fun _ => Stmt.returnValue line value
  refine (Confined.look (Option.any (·.isSymbol .semicolon))).behind fun _ => ?_
  exact .ite ((Confined.pure none).behind hend) (((expression_confined fuel).map some).behind hend)

theorem breakStatement_confined (line : Nat) : Confined tail (· = []) (breakStatement line) :=
  (semicolon_confined _).map _

theorem statementWith_confined (htail : ∀ t ∈ tail.head?, t.isKeyword .elseWord = false)
    (hstatement : Confined tail (· = []) nested.statement) :
    Confined tail (· = []) (statementWith fuel nested) := by
  have hexpression : Confined tail (· = []) (expressionStatement fuel) :=
    expression_then_confined fuel
  refine .seeing fun t rest hc => ?_
  dsimp only
  split
  case h_8 => exact hexpression.on hc
  case h_1 hkind => exact absurd hkind (hc.kind_ne (by simp))
  case h_7 hkind => exact absurd hkind (hc.kind_ne (by simp))
  all_goals
    rename_i hkind
    have ht : t.kind ≠ .symbol .semicolon := by simp [hkind]
  · exact skip_confined (ifStatement_confined fuel htail hstatement) hc ht
  · exact skip_confined (whileStatement_confined fuel hstatement) hc ht
  · exact skip_confined (returnStatement_confined fuel _) hc ht
  · exact skip_confined (breakStatement_confined _) hc ht
  · exact skip_confined (expression_then_confined fuel) hc ht

theorem declarationWith_confined (htail : ∀ t ∈ tail.head?, t.isKeyword .elseWord = false)
    (hstatement : Confined tail (· = []) nested.statement) :
    Confined tail (· = []) (declarationWith fuel nested) := by
  refine .seeingKind fun t rest hc => ?_
  split
  case h_4 => exact (statementWith_confined fuel htail hstatement).on hc
  all_goals
    rename_i hkind
    have ht : t.kind ≠ .symbol .semicolon := by simp [Option.some.inj hkind]
  · exact skip_confined (classDeclaration_confined fuel) hc ht
  · exact skip_confined ((function_confined fuel .function).map _) hc ht
  · exact skip_confined (varDeclaration_confined fuel) hc ht

/-- **A statement is read from its own tokens.** -/
theorem statements_confined (htail : ∀ t ∈ tail.head?, t.isKeyword .elseWord = false) :
    Confined tail (· = []) (declaration fuel) ∧ Confined tail (· = []) (statement fuel) := by
  induction fuel with
  | zero => exact ⟨.outOfFuel, .outOfFuel⟩
  | succ fuel ih =>
    constructor
    · exact declarationWith_confined _ htail ih.2
    · exact statementWith_confined _ htail ih.2

end

/-! ## Sources -/

theorem dropToBoundary_behind (tokens : List Token) : dropToBoundary true tokens = tokens := by
  cases tokens with
  | nil => rfl
  | cons t rest => simp [dropToBoundary]

section
variable {tokens tail : List Token}

theorem dropToBoundary_closing (h : Closing tokens)
    (hopens : ∀ t ∈ tokens, opensStatement t = false) :
    dropToBoundary false (tokens ++ tail) = tail := by
  induction h with
  | @semicolon t ht =>
    have hopen := hopens t (List.mem_singleton_self t)
    simp [dropToBoundary, hopen, Token.isSymbol_iff.mpr ht, dropToBoundary_behind]
  | @plain t rest ht _ ih =>
    obtain ⟨hopen, hrest⟩ := List.forall_mem_cons.mp hopens
    have hsemicolon : t.isSymbol .semicolon = false := by
      refine Bool.eq_false_iff.mpr fun hs => ?_
      simp [isPlain, Token.isSymbol_iff.mp hs] at ht
    simp [dropToBoundary, hopen, hsemicolon, ih hrest]

/-- Behind a refusal in a segment reading goes on at the next segment. -/
theorem synchronize_closing (h : Closing tokens)
    (hopens : ∀ t ∈ tokens.tail, opensStatement t = false) :
    synchronize (tokens ++ tail) = tail := by
  cases h with
  | semicolon ht => simp [synchronize, Token.isSymbol_iff.mpr ht, dropToBoundary_behind]
  | @plain t rest ht hrest =>
    have hsemicolon : t.isSymbol .semicolon = false := by
      refine Bool.eq_false_iff.mpr fun hs => ?_
      simp [isPlain, Token.isSymbol_iff.mp hs] at ht
    simp only [List.cons_append, synchronize, hsemicolon]
    exact dropToBoundary_closing hrest hopens

end

/-- Behind the beginning of a segment no token opens a statement. -/
theorem Segment.opens_behind {tokens rest : List Token} (h : Segment tokens)
    (hrest : rest <:+ tokens) : ∀ t ∈ rest.tail, opensStatement t = false := by
  obtain ⟨front, rfl⟩ := hrest
  intro t ht
  cases front with
  | nil => exact h.opens t ht
  | cons first others =>
    exact h.opens t (List.mem_append_right others (List.mem_of_mem_tail ht))

/-- A refusal with other tokens behind. -/
def Refusal.before (q : Refusal) (tail : List Token) : Refusal := ⟨q.fault, q.place ++ tail⟩

theorem Refusal.error_before {q : Refusal} (h : q.place ≠ []) (tail : List Token)
    (endLine endLine' : Nat) : (q.before tail).error endLine = q.error endLine' := by
  obtain ⟨fault, place⟩ := q
  obtain ⟨t, rest, rfl⟩ := List.exists_cons_of_ne_nil h
  rfl

/-- **A segment is a statement or a single refusal**, and what is behind is read as if it stood
alone. -/
theorem Segment.yields {tokens : List Token} (h : Segment tokens) (n : NodeId) :
    ∃ alone, Yields ⟨tokens, n⟩ alone ∧
      ((∃ s, alone = ⟨[s], [], alone.nextId⟩) ∨
        ∃ q, q.place ≠ [] ∧ alone = ⟨[], [q], alone.nextId⟩) ∧
      ∀ tail r, (∀ t ∈ tail.head?, t.isKeyword .elseWord = false) →
        Yields ⟨tail, alone.nextId⟩ r → Yields ⟨tokens ++ tail, n⟩
          ⟨alone.statements ++ r.statements, alone.refusals.map (·.before tail) ++ r.refusals,
            r.nextId⟩ := by
  have hne := h.closing.ne_nil
  have hsettles := (statements_proceed (tokens.length + 1)).1 ⟨tokens, n⟩ (Nat.lt_succ_self _)
  have hconfined (tail : List Token) (htail : ∀ t ∈ tail.head?, t.isKeyword .elseWord = false) :=
    (statements_confined (tokens.length + 1) htail).1 ⟨tokens, n⟩ h.closing
  have hnone := hconfined [] (by simp)
  cases hdeclaration : declaration (tokens.length + 1) ⟨tokens, n⟩ with
  | ok s c' =>
    rw [hdeclaration] at hnone
    have hrest : c'.rest = [] := hnone.1
    refine ⟨⟨[s], [], c'.nextId⟩, (yields_nil hrest).ok hne hdeclaration, .inl ⟨s, rfl⟩, ?_⟩
    intro tail r htail hr
    have hends := hconfined tail htail
    rw [hdeclaration] at hends
    have hbehind : c'.before tail = ⟨tail, c'.nextId⟩ := by simp [Cursor.before, hrest]
    exact hr.ok (by simp [hne]) (hends.2.trans (by rw [hbehind]))
  | error q c' =>
    rw [hdeclaration] at hnone hsettles
    obtain ⟨hplace, hwithin⟩ := hsettles
    have hclosing : Closing c'.rest := hnone.1
    have hopens := h.opens_behind (hplace.trans hwithin)
    have hplace : q.place ≠ [] := by
      rintro hnil
      rw [hnil] at hplace
      exact hclosing.ne_nil (List.suffix_nil.mp hplace)
    have hboundary (tail : List Token) : synchronize (c'.rest ++ tail) = tail :=
      synchronize_closing hclosing hopens
    refine ⟨⟨[], [q], c'.nextId⟩, ?_, .inr ⟨q, hplace, rfl⟩, ?_⟩
    · have hend : synchronize c'.rest = [] := by simpa using hboundary []
      exact (yields_nil (c := { c' with rest := synchronize c'.rest }) hend).error hne hdeclaration
    · intro tail r htail hr
      have hends := hconfined tail htail
      rw [hdeclaration] at hends
      refine Yields.error ?_ (by simp [hne]) hends.2
      have hbehind : synchronize (c'.before tail).rest = tail := hboundary tail
      rw [hbehind]
      exact hr
  | outOfFuel =>
    rw [hdeclaration] at hsettles
    exact hsettles.elim

/-- A segment does not start with an `else`. -/
theorem Segment.head {tokens : List Token} (h : Segment tokens) (tail : List Token) :
    ∀ t ∈ (tokens ++ tail).head?, t.isKeyword .elseWord = false := by
  intro t ht
  rw [h.closing.head?_append] at ht
  obtain ⟨rest, rfl⟩ := List.head?_eq_some_iff.mp ht
  refine Bool.eq_false_iff.mpr fun helse => ?_
  exact h.closing.kind_ne (by simp) (Token.isKeyword_iff.mp helse)

end Parsing

open Parsing

section
variable {tokens tail : List Token} {line endLine : Nat} {n n' n'' : NodeId}

/-- **A segment and what is behind it are refused apart from each other.** -/
theorem Parsing.Segment.errors_append (h : Segment tokens)
    (htail : ∀ t ∈ tail.head?, t.isKeyword .elseWord = false) :
    TokenStream.syntaxErrors ⟨tokens ++ tail, endLine⟩ n
      = TokenStream.syntaxErrors ⟨tokens, line⟩ n' ++
        TokenStream.syntaxErrors ⟨tail, endLine⟩ n'' := by
  obtain ⟨alone, halone, hone, hbehind⟩ := h.yields n
  obtain ⟨r, hr⟩ := exists_yields ⟨tail, alone.nextId⟩
  have hfirst : TokenStream.syntaxErrors ⟨tokens, line⟩ n'
      = alone.refusals.map (·.error line) := by
    rw [TokenStream.syntaxErrors_ids _ n' n]
    exact TokenStream.syntaxErrors_of_yields halone
  have hothers : TokenStream.syntaxErrors ⟨tail, endLine⟩ n''
      = r.refusals.map (·.error endLine) := by
    rw [TokenStream.syntaxErrors_ids _ n'' alone.nextId]
    exact TokenStream.syntaxErrors_of_yields hr
  rw [TokenStream.syntaxErrors_of_yields (hbehind tail r htail hr), hfirst, hothers,
    List.map_append, List.map_map]
  refine congrArg (· ++ _) (List.map_congr_left fun q hq => ?_)
  obtain ⟨s, hs⟩ | ⟨q', hplace, hq'⟩ := hone
  · rw [hs] at hq
    cases hq
  · rw [hq'] at hq
    obtain rfl := List.mem_singleton.mp hq
    exact Refusal.error_before hplace tail endLine line

/-- A segment is one statement or has one error. -/
theorem Parsing.Segment.parse_cases (h : Segment tokens) :
    (∃ s, (Program.parse ⟨tokens, line⟩ n).1 = .ok [s]) ∨
      ∃ e, (Program.parse ⟨tokens, line⟩ n).1 = .error [e] := by
  obtain ⟨alone, halone, hone, -⟩ := h.yields n
  rw [@Program.parse_of_yields ⟨tokens, line⟩ n alone halone]
  obtain ⟨s, hs⟩ | ⟨q, -, hq⟩ := hone
  · left
    rw [hs]
    exact ⟨s, rfl⟩
  · right
    rw [hq]
    exact ⟨_, rfl⟩

/-- A well-formed segment is read as the same statement wherever it stands. -/
theorem Parsing.Segment.parse_append {p q : Program} (h : Segment tokens)
    (htail : ∀ t ∈ tail.head?, t.isKeyword .elseWord = false)
    (hp : (Program.parse ⟨tokens, line⟩ n').1 = .ok p)
    (hq : (Program.parse ⟨tail, endLine⟩ n'').1 = .ok q) :
    ∃ p', (Program.parse ⟨tokens ++ tail, endLine⟩ n).1 = .ok p' ∧
      p'.withoutIds = p.withoutIds ++ q.withoutIds := by
  obtain ⟨alone, halone, -, hbehind⟩ := h.yields n
  obtain ⟨r, hr⟩ := exists_yields ⟨tail, alone.nextId⟩
  obtain ⟨p₁, hp₁, hsame⟩ := Program.parse_ids hp n
  obtain ⟨q₁, hq₁, hsame'⟩ := Program.parse_ids hq alone.nextId
  obtain ⟨hfirst, rfl⟩ := (@Program.parse_ok_iff_of_yields ⟨tokens, line⟩ n _ _ halone).mp hp₁
  obtain ⟨hothers, rfl⟩ := (@Program.parse_ok_iff_of_yields ⟨tail, endLine⟩ _ _ _ hr).mp hq₁
  have hwhole := hbehind tail r htail hr
  refine ⟨alone.statements ++ r.statements,
    (@Program.parse_ok_iff_of_yields ⟨tokens ++ tail, endLine⟩ n _ _ hwhole).mpr ?_, ?_⟩
  · simp [hfirst, hothers]
  · rw [← hsame, ← hsame']
    simp [Program.withoutIds, Stmt.allWithoutIds_eq_map]

end

/-- No segment starts with an `else`, and neither do several of them. -/
theorem Parsing.Segment.flatMap_head {segments : List TokenStream}
    (h : ∀ s ∈ segments, Segment s.tokens) :
    ∀ t ∈ (segments.flatMap (·.tokens)).head?, t.isKeyword .elseWord = false := by
  cases segments with
  | nil => simp
  | cons s rest =>
    rw [List.flatMap_cons]
    exact (h s List.mem_cons_self).head _

/-- **Every malformed segment has its own error, and no other segment has one.** The errors of some
segments in a row are those that each of them has alone, one for each malformed segment; if there
are none, the program is made of the statements that the segments are alone. -/
theorem segments_read_alone (segments : List TokenStream)
    (hsegments : ∀ s ∈ segments, Segment s.tokens) (endLine : Nat) (nextId : NodeId)
    (nextIds : TokenStream → NodeId) :
    let whole : TokenStream := ⟨segments.flatMap (·.tokens), endLine⟩
    whole.syntaxErrors nextId = segments.flatMap (fun s => s.syntaxErrors (nextIds s)) ∧
    (∀ s ∈ segments, (∃ stmt, (Program.parse s (nextIds s)).1 = .ok [stmt]) ∨
      ∃ e, (Program.parse s (nextIds s)).1 = .error [e]) ∧
    ∀ programs, List.Forall₂ (fun s p => (Program.parse s (nextIds s)).1 = .ok p)
        segments programs →
      ∃ p, (Program.parse whole nextId).1 = .ok p ∧
        p.withoutIds = programs.flatMap Program.withoutIds := by
  intro whole
  refine ⟨?_, fun s hs => (hsegments s hs).parse_cases, ?_⟩
  · induction segments with
    | nil => exact TokenStream.syntaxErrors_of_yields (yields_nil rfl)
    | cons s rest ih =>
      obtain ⟨hs, hrest⟩ := List.forall_mem_cons.mp hsegments
      rw [List.flatMap_cons, ← ih hrest]
      exact hs.errors_append (Segment.flatMap_head hrest)
  · intro programs hprograms
    induction hprograms generalizing nextId with
    | nil => exact ⟨[], congrArg Prod.fst (Program.parse_of_yields (yields_nil rfl)), rfl⟩
    | @cons s p rest others hp _ ih =>
      obtain ⟨hs, hrest⟩ := List.forall_mem_cons.mp hsegments
      obtain ⟨q, hq, hsame⟩ := ih hrest nextId
      obtain ⟨p', hp', hsame'⟩ := hs.parse_append (Segment.flatMap_head hrest) hp hq
      refine ⟨p', hp', ?_⟩
      rw [hsame', hsame, List.flatMap_cons]

/-- What a refused statement leaves behind is read, and refused, as if it stood alone. -/
theorem refused_read_refused :
    let semicolon (line : Nat) : Token := ⟨.symbol .semicolon, ";", line⟩
    let a (line : Nat) : Token := ⟨.identifier, "a", line⟩
    let refused : TokenStream := ⟨[⟨.keyword .printWord, "print", 1⟩, semicolon 1], 1⟩
    let good : TokenStream := ⟨[a 2, semicolon 2], 2⟩
    let targetless : TokenStream := ⟨[a 3, ⟨.symbol .leftParen, "(", 3⟩,
      ⟨.symbol .rightParen, ")", 3⟩, ⟨.symbol .equal, "=", 3⟩, a 3, semicolon 3], 3⟩
    let whole : TokenStream := ⟨refused.tokens ++ good.tokens ++ targetless.tokens, 3⟩
    (scan "print;\na;\na() = a;").tokens? = .ok whole ∧
    whole.syntaxErrors 0 = [⟨.expression, some ";", 1⟩, ⟨.assignmentTarget, some "=", 3⟩] ∧
    ∃ p, (Program.parse ⟨good.tokens ++ good.tokens, 3⟩ 0).1 = .ok p ∧
      p.withoutIds = [.expression (.variable 0 ⟨"a", 2⟩), .expression (.variable 0 ⟨"a", 2⟩)] := by
  intro semicolon a refused good targetless whole
  have hrefused : Segment refused.tokens := ⟨.plain rfl (.semicolon rfl), by decide⟩
  have hgood : Segment good.tokens := ⟨.plain rfl (.semicolon rfl), by decide⟩
  have htargetless : Segment targetless.tokens := by
    refine ⟨?_, by decide⟩
    exact .plain rfl (.plain rfl (.plain rfl (.plain rfl (.plain rfl (.semicolon rfl)))))
  have hgood_read : (Program.parse good 0).1 = .ok [.expression (.variable 0 ⟨"a", 2⟩)] := by cbv
  have hmixed := segments_read_alone [refused, good, targetless]
    (by simp [hrefused, hgood, htargetless]) 3 0 fun _ => 0
  have hread := segments_read_alone [good, good] (by simp [hgood]) 3 0 fun _ => 0
  refine ⟨by cbv, ?_, ?_⟩
  · exact hmixed.1.trans (by cbv)
  · exact hread.2.2 _ (.cons hgood_read (.cons hgood_read .nil))

end LoxLang
