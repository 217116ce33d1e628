import LoxLang.Proofs.Approximation
import LoxLang.Proofs.Parsing.Shifting
import LoxLang.Proofs.Parsing.Progress

/-!
# Reading on more fuel

A rule that comes to an end does the same on any more fuel. So what is read does not depend on the
fuel, and reading can be described without it.

* `expression_more`, `statements_more`: a rule on less fuel precedes the rule on more;
* `Yields`: what reading from some place on gives, on enough fuel;
* `Yields.unique`, `exists_yields`: it always gives one thing;
* `Yields.ok`, `Yields.error`: declaration after declaration;
* `Program.parse_of_yields`: for a whole source.
-/

namespace LoxLang

namespace Parsing

open Action (Precedes)

variable {α : Type} {fuel fuel' : Nat}

/-! ## Rules -/

section
variable {item item' : Parser α}

theorem separated_more {tooMany : SyntaxFault} (hitem : Precedes item item')
    (hle : fuel ≤ fuel') (count : Nat) :
    Precedes (separated tooMany item fuel count) (separated tooMany item' fuel' count) := by
  induction fuel generalizing fuel' count with
  | zero => exact .outOfFuel _
  | succ fuel ih =>
    cases fuel' with
    | zero => cases hle
    | succ fuel' =>
      refine .ite (.refl _) (hitem.bind fun first => (Precedes.refl _).bind fun comma => ?_)
      cases comma with
      | none => exact .refl _
      | some _ => exact (ih (Nat.le_of_succ_le_succ hle) (count + 1)).bind fun _ => .refl _

theorem separatedOrNone_more (tooMany : SyntaxFault) (hitem : Precedes item item')
    (hle : fuel ≤ fuel') :
    Precedes (separatedOrNone tooMany item fuel) (separatedOrNone tooMany item' fuel') :=
  (Precedes.refl _).bind fun _ => .ite (.refl _) (separated_more hitem hle 0)

theorem untilBrace_more (hitem : Precedes item item') (hle : fuel ≤ fuel') :
    Precedes (untilBrace item fuel) (untilBrace item' fuel') := by
  induction fuel generalizing fuel' with
  | zero => exact .outOfFuel _
  | succ fuel ih =>
    cases fuel' with
    | zero => cases hle
    | succ fuel' =>
      have hothers := ih (Nat.le_of_succ_le_succ hle)
      have hcons := hitem.bind fun first => hothers.bind fun others =>
        .refl (Pure.pure (first :: others))
      exact (Precedes.refl _).bind fun _ => .ite hcons (.refl _)

end

section
variable {operand operand' : Parser Expr}

theorem operands_more {level : Level} (hoperand : Precedes operand operand')
    (hle : fuel ≤ fuel') (left : Expr) :
    Precedes (operands level operand fuel left) (operands level operand' fuel' left) := by
  induction fuel generalizing fuel' left with
  | zero => exact .outOfFuel _
  | succ fuel ih =>
    cases fuel' with
    | zero => cases hle
    | succ fuel' =>
      refine (Precedes.refl _).bind fun operator => ?_
      cases operator with
      | none => exact .refl _
      | some _ => exact hoperand.bind fun _ => ih (Nat.le_of_succ_le_succ hle) _

theorem levels_more (hoperand : Precedes operand operand') (hle : fuel ≤ fuel')
    (levels : List Level) :
    Precedes (levels.foldr (binaryLevel fuel) operand)
      (levels.foldr (binaryLevel fuel') operand') := by
  induction levels with
  | nil => exact hoperand
  | cons level rest ih => exact ih.bind fun first => operands_more ih hle first

end

section
variable {ex ex' : Parser Expr} (hex : Precedes ex ex')
include hex

theorem primary_more : Precedes (primary ex) (primary ex') := by
  refine (Precedes.refl _).bind fun here => ?_
  split
  · exact .refl _
  · split
    case h_8 => exact (Precedes.refl _).bind fun _ => hex.bind fun _ => .refl _
    all_goals exact .refl _

theorem suffixes_more (hle : fuel ≤ fuel') (callee : Expr) :
    Precedes (suffixes ex fuel callee) (suffixes ex' fuel' callee) := by
  induction fuel generalizing fuel' callee with
  | zero => exact .outOfFuel _
  | succ fuel ih =>
    cases fuel' with
    | zero => cases hle
    | succ fuel' =>
      have hle' := Nat.le_of_succ_le_succ hle
      refine (Precedes.refl _).bind fun kind => ?_
      split
      · have harguments := separatedOrNone_more .tooManyArguments hex hle'
        exact (Precedes.refl _).bind fun _ => harguments.bind fun _ =>
          (Precedes.refl _).bind fun _ => ih hle' _
      · exact (Precedes.refl _).bind fun _ => (Precedes.refl _).bind fun _ => ih hle' _
      · exact .refl _

theorem unary_more (hle : fuel ≤ fuel') : Precedes (unary ex fuel) (unary ex' fuel') := by
  induction fuel generalizing fuel' with
  | zero => exact .outOfFuel _
  | succ fuel ih =>
    cases fuel' with
    | zero => cases hle
    | succ fuel' =>
      refine (Precedes.refl _).bind fun t => ?_
      cases t with
      | none => exact (primary_more hex).bind fun callee => suffixes_more hex hle callee
      | some t => exact (ih (Nat.le_of_succ_le_succ hle)).bind fun _ => .refl _

theorem assignment_more (hle : fuel ≤ fuel') :
    Precedes (assignment ex fuel) (assignment ex' fuel') := by
  have htarget := levels_more (unary_more hex hle) hle levels
  refine htarget.bind fun target => (Precedes.refl _).bind fun here => ?_
  refine (Precedes.refl _).bind fun equal => ?_
  cases equal with
  | none => exact .refl _
  | some _ => exact hex.bind fun _ => .refl _

end

theorem expression_more (hle : fuel ≤ fuel') :
    Precedes (expression fuel) (expression fuel') := by
  induction fuel generalizing fuel' with
  | zero => exact .outOfFuel _
  | succ fuel ih =>
    cases fuel' with
    | zero => cases hle
    | succ fuel' => exact assignment_more (ih (Nat.le_of_succ_le_succ hle)) hle

section
variable {nested nested' : Nested} (hle : fuel ≤ fuel')
include hle

theorem blockBody_more (hdeclaration : Precedes nested.declaration nested'.declaration) :
    Precedes (blockBody fuel nested) (blockBody fuel' nested') :=
  (untilBrace_more hdeclaration hle).bind fun _ => .refl _

theorem function_more (hdeclaration : Precedes nested.declaration nested'.declaration)
    (kind : FunctionKind) :
    Precedes (function fuel nested kind) (function fuel' nested' kind) := by
  have hparams := separatedOrNone_more .tooManyParameters
    (Precedes.refl (expectName .parameterName)) hle
  refine (Precedes.refl _).bind fun _ => (Precedes.refl _).bind fun _ => ?_
  refine hparams.bind fun _ => (Precedes.refl _).bind fun _ => ?_
  exact (Precedes.refl _).bind fun _ => (blockBody_more hle hdeclaration).bind fun _ => .refl _

theorem classDeclaration_more
    (hdeclaration : Precedes nested.declaration nested'.declaration) :
    Precedes (classDeclaration fuel nested) (classDeclaration fuel' nested') := by
  have hmethods := untilBrace_more (function_more hle hdeclaration .method) hle
  refine (Precedes.refl _).bind fun _ => (Precedes.refl _).bind fun _ => ?_
  exact hmethods.bind fun _ => .refl _

theorem varDeclaration_more : Precedes (varDeclaration fuel) (varDeclaration fuel') := by
  refine (Precedes.refl _).bind fun name => (Precedes.refl _).bind fun equal => ?_
  cases equal with
  | none => exact .refl _
  | some _ => exact (expression_more hle).bind fun _ => .refl _

theorem expressionStatement_more :
    Precedes (expressionStatement fuel) (expressionStatement fuel') :=
  (expression_more hle).bind fun _ => .refl _

theorem printStatement_more : Precedes (printStatement fuel) (printStatement fuel') :=
  (expression_more hle).bind fun _ => .refl _

theorem ifStatement_more (hstatement : Precedes nested.statement nested'.statement) :
    Precedes (ifStatement fuel nested) (ifStatement fuel' nested') := by
  refine (Precedes.refl _).bind fun _ => (expression_more hle).bind fun _ => ?_
  refine (Precedes.refl _).bind fun _ => hstatement.bind fun _ => ?_
  refine (Precedes.refl _).bind fun elseWord => ?_
  cases elseWord with
  | none => exact .refl _
  | some _ => exact hstatement.bind fun _ => .refl _

theorem whileStatement_more (hstatement : Precedes nested.statement nested'.statement) :
    Precedes (whileStatement fuel nested) (whileStatement fuel' nested') := by
  refine (Precedes.refl _).bind fun _ => (expression_more hle).bind fun _ => ?_
  exact (Precedes.refl _).bind fun _ => hstatement.bind fun _ => .refl _

theorem forInitializer_more : Precedes (forInitializer fuel) (forInitializer fuel') := by
  refine (Precedes.refl _).bind fun kind => ?_
  split
  · exact .refl _
  · exact (Precedes.refl _).bind fun _ => (varDeclaration_more hle).bind fun _ => .refl _
  · exact (expressionStatement_more hle).bind fun _ => .refl _

theorem forStatement_more (hstatement : Precedes nested.statement nested'.statement) :
    Precedes (forStatement fuel nested) (forStatement fuel' nested') := by
  have hex := expression_more hle
  refine (Precedes.refl _).bind fun _ => (forInitializer_more hle).bind fun _ => ?_
  refine (Precedes.refl _).bind fun _ => .orElse (.refl _) hex fun _ => ?_
  refine (Precedes.refl _).bind fun _ => ?_
  refine (Precedes.refl _).bind fun _ => .orElse (.refl _) (hex.map some) fun _ => ?_
  exact (Precedes.refl _).bind fun _ => hstatement.bind fun _ => .refl _

theorem returnStatement_more (line : Nat) :
    Precedes (returnStatement fuel line) (returnStatement fuel' line) :=
  (Precedes.refl _).bind fun _ =>
    .orElse (.refl _) ((expression_more hle).map some) fun _ => .refl _

theorem statementWith_more (hdeclaration : Precedes nested.declaration nested'.declaration)
    (hstatement : Precedes nested.statement nested'.statement) :
    Precedes (statementWith fuel nested) (statementWith fuel' nested') := by
  have hexpression := expressionStatement_more hle
  refine (Precedes.refl _).bind fun here => ?_
  split
  · exact hexpression
  · split
    · exact (Precedes.refl _).bind fun _ => forStatement_more hle hstatement
    · exact (Precedes.refl _).bind fun _ => ifStatement_more hle hstatement
    · exact (Precedes.refl _).bind fun _ => whileStatement_more hle hstatement
    · exact (Precedes.refl _).bind fun _ => returnStatement_more hle _
    · exact .refl _
    · exact (Precedes.refl _).bind fun _ => printStatement_more hle
    · exact (Precedes.refl _).bind fun _ => (blockBody_more hle hdeclaration).bind fun _ =>
        .refl _
    · exact hexpression

theorem declarationWith_more (hdeclaration : Precedes nested.declaration nested'.declaration)
    (hstatement : Precedes nested.statement nested'.statement) :
    Precedes (declarationWith fuel nested) (declarationWith fuel' nested') := by
  refine (Precedes.refl _).bind fun kind => ?_
  split
  · exact (Precedes.refl _).bind fun _ => classDeclaration_more hle hdeclaration
  · exact (Precedes.refl _).bind fun _ =>
      (function_more hle hdeclaration .function).bind fun _ => .refl _
  · exact (Precedes.refl _).bind fun _ => varDeclaration_more hle
  · exact statementWith_more hle hdeclaration hstatement

end

theorem statements_more (hle : fuel ≤ fuel') :
    Precedes (declaration fuel) (declaration fuel') ∧
      Precedes (statement fuel) (statement fuel') := by
  induction fuel generalizing fuel' with
  | zero => exact ⟨.outOfFuel _, .outOfFuel _⟩
  | succ fuel ih =>
    cases fuel' with
    | zero => cases hle
    | succ fuel' =>
      obtain ⟨hdeclaration, hstatement⟩ := ih (Nat.le_of_succ_le_succ hle)
      constructor
      · exact declarationWith_more hle hdeclaration hstatement
      · exact statementWith_more hle hdeclaration hstatement

/-! ## Sources -/

theorem readAll_more {turns turns' : Nat} {c : Cursor} {r : Reading} (hle : fuel ≤ fuel')
    (hturns : turns ≤ turns') (h : readAll fuel turns c = some r) :
    readAll fuel' turns' c = some r := by
  induction turns generalizing turns' c r with
  | zero => cases h
  | succ turns ih =>
    cases turns' with
    | zero => cases hturns
    | succ turns' =>
      have hturns' := Nat.le_of_succ_le_succ hturns
      unfold readAll at h ⊢
      split at h
      · rename_i hempty
        rw [if_pos hempty]
        exact h
      · rename_i hempty
        rw [if_neg hempty]
        obtain hnone | hsame := (statements_more hle).1 c
        · rw [hnone] at h
          cases h
        · rw [hsame]
          cases hdeclaration : declaration fuel c with
          | ok s c' =>
            rw [hdeclaration] at h
            obtain ⟨others, hothers, h⟩ := Option.bind_eq_some_iff.mp h
            exact Option.bind_eq_some_iff.mpr ⟨others, ih hturns' hothers, h⟩
          | error q c' =>
            rw [hdeclaration] at h
            obtain ⟨others, hothers, h⟩ := Option.bind_eq_some_iff.mp h
            exact Option.bind_eq_some_iff.mpr ⟨others, ih hturns' hothers, h⟩
          | outOfFuel =>
            rw [hdeclaration] at h
            cases h

/-- Reading from here on gives this, on enough fuel. -/
def Yields (c : Cursor) (r : Reading) : Prop := ∃ fuel turns, readAll fuel turns c = some r

section
variable {c c' : Cursor} {r r' : Reading} {s : Stmt} {q : Refusal}

theorem Yields.unique (h : Yields c r) (h' : Yields c r') : r = r' := by
  obtain ⟨fuel, turns, h⟩ := h
  obtain ⟨fuel', turns', h'⟩ := h'
  have hmore := readAll_more (Nat.le_max_left fuel fuel') (Nat.le_max_left turns turns') h
  have hmore' := readAll_more (Nat.le_max_right fuel fuel') (Nat.le_max_right turns turns') h'
  exact Option.some.inj (hmore.symm.trans hmore')

theorem exists_yields (c : Cursor) : ∃ r, Yields c r := by
  have hlimit := Nat.lt_succ_self c.rest.length
  obtain ⟨r, hr, -⟩ := readAll_proceeds hlimit hlimit
  exact ⟨r, _, _, hr⟩

theorem yields_nil (h : c.rest = []) : Yields c ⟨[], [], c.nextId⟩ := by
  refine ⟨0, 1, ?_⟩
  simp [readAll, h]

/-- Behind a declaration reading goes on where it ends. -/
theorem Yields.ok (h : Yields c' r) (hne : c.rest ≠ []) (hs : declaration fuel c = .ok s c') :
    Yields c { r with statements := s :: r.statements } := by
  obtain ⟨fuel', turns, hr⟩ := h
  have hs' : declaration (max fuel fuel') c = .ok s c' := by
    rw [← hs]
    exact (statements_more (Nat.le_max_left fuel fuel')).1.eq_of_ne (by rw [hs]; simp)
  have hr' := readAll_more (Nat.le_max_right fuel fuel') (Nat.le_refl turns) hr
  refine ⟨max fuel fuel', turns + 1, ?_⟩
  simp [readAll, hne, hs', hr']

/-- Behind a refusal reading goes on at the next statement boundary. -/
theorem Yields.error (h : Yields { c' with rest := synchronize c'.rest } r) (hne : c.rest ≠ [])
    (hq : declaration fuel c = .error q c') :
    Yields c { r with refusals := q :: r.refusals } := by
  obtain ⟨fuel', turns, hr⟩ := h
  have hq' : declaration (max fuel fuel') c = .error q c' := by
    rw [← hq]
    exact (statements_more (Nat.le_max_left fuel fuel')).1.eq_of_ne (by rw [hq]; simp)
  have hr' := readAll_more (Nat.le_max_right fuel fuel') (Nat.le_refl turns) hr
  refine ⟨max fuel fuel', turns + 1, ?_⟩
  simp [readAll, hne, hq', hr']

theorem Yields.later (h : Yields c r) (k : Nat) : Yields (c.later k) (r.later k) := by
  obtain ⟨fuel, turns, h⟩ := h
  refine ⟨fuel, turns, ?_⟩
  rw [readAll_later, h]
  rfl

end

end Parsing

/-! ## Programs -/

section
variable {source : TokenStream} {nextId : NodeId} {r : Parsing.Reading}

theorem Program.parse_of_yields (h : Parsing.Yields ⟨source.tokens, nextId⟩ r) :
    Program.parse source nextId =
      (if r.refusals = [] then .ok r.statements
        else .error (r.refusals.map (·.error source.endLine)), r.nextId) := by
  have hlimit := Nat.lt_succ_self source.tokens.length
  obtain ⟨r', hr', -⟩ := Parsing.readAll_proceeds (c := ⟨source.tokens, nextId⟩) hlimit hlimit
  obtain rfl := h.unique ⟨_, _, hr'⟩
  simp only [Program.parse, Parsing.fuelFor, Nat.succ_eq_add_one] at hr' ⊢
  rw [hr']
  obtain ⟨statements, refusals, next⟩ := r
  cases refusals <;> rfl

theorem Program.parse_ok_iff_of_yields {p : Program}
    (h : Parsing.Yields ⟨source.tokens, nextId⟩ r) :
    (Program.parse source nextId).1 = .ok p ↔ r.refusals = [] ∧ r.statements = p := by
  rw [Program.parse_of_yields h]
  by_cases hrefusals : r.refusals = []
  · simp [hrefusals]
  · simp [hrefusals]

/-- Whether a source is a program does not depend on the identities that are given out, and neither
does anything else about the program. -/
theorem Program.parse_ids {p : Program} (h : (Program.parse source nextId).1 = .ok p)
    (n : NodeId) : ∃ q, (Program.parse source n).1 = .ok q ∧ q.withoutIds = p.withoutIds := by
  have hlater (k : NodeId) := congrArg Prod.fst (Program.parse_later k 0 source)
  simp only [Nat.zero_add] at hlater
  rw [hlater] at h
  cases hzero : (Program.parse source 0).1 with
  | error errors =>
    rw [hzero] at h
    cases h
  | ok q =>
    rw [hzero] at h
    cases h
    refine ⟨q.relabel (.later n), by rw [hlater, hzero]; rfl, ?_⟩
    exact (Stmt.allWithoutIds_ofIds _ q).trans (Stmt.allWithoutIds_ofIds _ q).symm

/-- The errors that are reported for a source. -/
def TokenStream.syntaxErrors (source : TokenStream) (nextId : NodeId) : List SyntaxError :=
  match (Program.parse source nextId).1 with
  | .ok _ => []
  | .error errors => errors

theorem TokenStream.syntaxErrors_of_yields (h : Parsing.Yields ⟨source.tokens, nextId⟩ r) :
    source.syntaxErrors nextId = r.refusals.map (·.error source.endLine) := by
  unfold syntaxErrors
  rw [Program.parse_of_yields h]
  by_cases hrefusals : r.refusals = []
  · simp [hrefusals]
  · simp [hrefusals]

/-- A source without errors is a program. -/
theorem TokenStream.syntaxErrors_eq_nil :
    source.syntaxErrors nextId = [] ↔ ∃ p, (Program.parse source nextId).1 = .ok p := by
  obtain ⟨r, hr⟩ := Parsing.exists_yields ⟨source.tokens, nextId⟩
  rw [syntaxErrors_of_yields hr, List.map_eq_nil_iff]
  simp [Program.parse_ok_iff_of_yields hr]

/-- The errors do not depend on the identities that are given out. -/
theorem TokenStream.syntaxErrors_ids (source : TokenStream) (n n' : NodeId) :
    source.syntaxErrors n = source.syntaxErrors n' := by
  have hzero (k : NodeId) : source.syntaxErrors k = source.syntaxErrors 0 := by
    obtain ⟨r, hr⟩ := Parsing.exists_yields ⟨source.tokens, 0⟩
    have hlater := hr.later k
    rw [Parsing.Cursor.later, Nat.zero_add] at hlater
    rw [syntaxErrors_of_yields hr, syntaxErrors_of_yields hlater]
    rfl
  rw [hzero n, hzero n']

end

end LoxLang
