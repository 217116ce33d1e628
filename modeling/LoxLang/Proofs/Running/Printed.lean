import Mathlib
import LoxLang.Proofs.Layout
import LoxLang.Proofs.Parsing.Recovery
import LoxLang.Proofs.Parsing.Semicolons
import LoxLang.Proofs.Running.Sinks
import LoxLang.Proofs.Sources

/-!
# Expressions that are printed

An expression can be evaluated by itself, or printed by a program that is scanned, parsed and
resolved as a whole. Without `this` there is nothing to resolve in it, and the two agree.

* `scan_print`: the tokens of an expression between a `print` and a semicolon;
* `Grammar.Expression.resolves`: outside of all scopes an expression without `this` is accepted, and
  nothing is recorded of it;
* `runProgram_print`: the run of the program, from that of the expression;
* `evaluate_agrees_with_run`.
-/

namespace LoxLang

open Scanning Scoping Running

/-- The program that prints an expression. What the source ends with may be a comment. -/
def printSource (source : String) : String := "print " ++ source ++ "\n;"

/-! ## Scanning -/

/-- The first token of the program. -/
def printToken : Token := ⟨.keyword .printWord, "print", 1⟩

theorem scan_behind_print {source : String} {stream : TokenStream}
    (h : (scan source).tokens? = .ok stream) :
    (scan ("print " ++ source)).tokens? = .ok ⟨printToken :: stream.tokens, stream.endLine⟩ := by
  obtain ⟨hitems, hline⟩ := Scan.tokens?_eq_ok.mp h
  have hprint : "print ".toList = Keyword.printWord.spelling.toList ++ [' '] := by decide
  have htext : ("print " ++ source).toList
      = Keyword.printWord.spelling.toList ++ ([' '] ++ source.toList) := by
    rw [String.toList_append, hprint, List.append_assoc]
  have hblank : ∀ c ∈ [' '], isBlank c = true := List.forall_mem_singleton.mpr rfl
  rw [Scan.tokens?_eq_ok]
  constructor
  · change (pieces 1 ("print " ++ source).toList).filterMap (·.item?) = _
    change (pieces 1 source.toList).filterMap (·.item?) = _ at hitems
    rw [htext, items_of_lexeme (.keyword .printWord) (apart_of_blank (by simp) hblank _),
      items_behind_blank hblank]
    exact congrArg (List.cons _) hitems
  · change 1 + ("print " ++ source).toList.count '\n' = stream.endLine
    have hnone : (Keyword.printWord.spelling.toList ++ [' ']).count '\n' = 0 := by decide
    rw [htext, ← List.append_assoc, List.count_append, hnone, Nat.zero_add, ← hline]
    rfl

theorem scan_print {source : String} {stream : TokenStream}
    (h : (scan source).tokens? = .ok stream) :
    (scan (printSource source)).tokens? = .ok
      ⟨printToken :: (stream.tokens ++ [⟨.symbol .semicolon, ";", 1 + stream.endLine⟩]),
        1 + stream.endLine⟩ := by
  have hend : (scan ";").tokens? = .ok ⟨[⟨.symbol .semicolon, ";", 1⟩], 1⟩ := by cbv
  have hsource : printSource source = "print " ++ source ++ "\n" ++ ";" := by
    have hsemicolon : "\n;" = "\n" ++ ";" := by decide
    rw [printSource, hsemicolon, ← String.append_assoc]
  rw [hsource]
  exact scan_joined (scan_behind_print h) hend

/-! ## Resolving -/

/-- There is no `this` among the tokens. -/
def Grammar.WithoutThis (tokens : List Token) : Prop := ∀ t ∈ tokens, t.kind ≠ .keyword .thisWord

theorem Grammar.WithoutThis.mono {tokens tokens' : List Token} (h : WithoutThis tokens')
    (hsub : tokens ⊆ tokens') : WithoutThis tokens := fun t ht => h t (hsub ht)

theorem resolveExprs_nil {ctx : Context} {es : List Expr}
    (h : ∀ e ∈ es, resolveExpr ctx e = .ok []) : resolveExprs ctx es = .ok [] := by
  induction es with
  | nil => rfl
  | cons e rest ih =>
    obtain ⟨he, hrest⟩ := List.forall_mem_cons.mp h
    simp only [resolveExprs, he, ih hrest]
    rfl

/-- **Outside of all scopes nothing is recorded of an expression**, and without `this` it is
accepted. -/
theorem Grammar.Expression.resolves {form : Form} {tokens : List Token} {e : Expr}
    (h : Expression form tokens e) (hthis : WithoutThis tokens) :
    resolveExpr .top e = .ok [] := by
  induction h with
  | assign _ _ _ ih =>
    simp only [resolveExpr, ih (hthis.mono (by simp))]
    rfl
  | @set dot name equal front tokens _ _ _ _ _ _ _ ihobject ihvalue =>
    have hsub : tokens ⊆ front ++ dot :: name :: equal :: tokens := fun t ht => by simp [ht]
    simp only [resolveExpr, ihobject (hthis.mono (List.subset_append_left _ _)),
      ihvalue (hthis.mono hsub)]
    rfl
  | plain _ ih | operand _ ih | unprefixed _ ih | uncalled _ ih => exact ih hthis
  | @operation _ front tokens left right sign op _ _ _ ihleft ihright =>
    have hsub : tokens ⊆ front ++ sign :: tokens :=
      fun t ht => List.mem_append_right _ (List.mem_cons_of_mem _ ht)
    have hleft := ihleft (hthis.mono (List.subset_append_left _ _))
    have hright := ihright (hthis.mono hsub)
    cases op <;> simp only [Parsing.DyadicOp.apply, resolveExpr, hleft, hright] <;> rfl
  | prefixed _ _ ih =>
    exact ih (hthis.mono (List.subset_cons_self _ _))
  | @call start finish front tokens _ arguments _ _ _ hlisted _ _ ihcallee iharguments =>
    have hcallee := ihcallee (hthis.mono (List.subset_append_left _ _))
    have harguments : resolveExprs .top (arguments.map (·.expr)) = .ok [] := by
      refine resolveExprs_nil fun e he => ?_
      obtain ⟨a, ha, rfl⟩ := List.mem_map.mp he
      refine iharguments a ha (hthis.mono fun t ht => ?_)
      have hmem : t ∈ tokens := hlisted.mem (List.mem_map_of_mem ha) ht
      simp [hmem]
    simp only [resolveExpr, hcallee, harguments]
    rfl
  | get _ _ _ ih => exact ih (hthis.mono (List.subset_append_left _ _))
  | literal _ => rfl
  | this ht => exact absurd ht (hthis _ (List.mem_singleton_self _))
  | name _ => rfl
  | grouping _ _ _ ih =>
    exact ih (hthis.mono fun t ht => List.mem_cons_of_mem _ (List.mem_append_left _ ht))

theorem resolve_print {tokens : List Token} {line : Nat} {n next : NodeId} {e : Expr}
    (h : Expr.parse ⟨tokens, line⟩ n = (.ok e, next)) (hthis : Grammar.WithoutThis tokens) :
    Program.resolve [.print e] = .ok [] := by
  have hwithout := (expression_of_parse h).1.resolves hthis
  rw [Expr.withoutIds_eq, resolveExpr_relabel] at hwithout
  have hexpr : resolveExpr .top e = .ok [] := by
    cases hd : resolveExpr .top e with
    | error fault =>
      rw [hd] at hwithout
      cases hwithout
    | ok d =>
      rw [hd] at hwithout
      rw [List.map_eq_nil_iff.mp (Except.ok.inj hwithout)]
  simp only [Program.resolve, resolveStmts, resolveStmt, hexpr]
  rfl

/-- The program is accepted, with the identities that the expression has by itself. -/
theorem checkSource_print {source : String} {stream : TokenStream} {n next : NodeId} {e : Expr}
    (hscan : (scan source).tokens? = .ok stream) (hthis : Grammar.WithoutThis stream.tokens)
    (h : parseExpressionSource source n = (.ok e, next)) :
    checkSource (printSource source) n = (.ok ⟨[.print e], []⟩, next) := by
  have hexpr : Expr.parse stream n = (.ok e, next) := by
    obtain ⟨stream', hscan', hparse⟩ := parseExpressionSource_eq_ok h
    rw [hscan] at hscan'
    cases hscan'
    exact hparse
  have hprogram : Program.parse ⟨printToken :: (stream.tokens ++
      [⟨.symbol .semicolon, ";", 1 + stream.endLine⟩]), 1 + stream.endLine⟩ n
        = (.ok [.print e], next) := parse_print hexpr rfl rfl
  have hparse := parseSource_eq_ok.mpr ⟨_, scan_print hscan, hprogram⟩
  exact checkSource_of_parse hparse (resolve_print hexpr hthis)

/-! ## Running -/

/-- What a program makes of an expression: the value is written with a newline behind it. -/
def Session.showing : Except (List Problem) Value × Session →
    Except (List Problem) Unit × Session
  | (.ok value, s) =>
    (.ok (), { s with machine := s.machine.adding (s.machine.store.display value ++ "\n") })
  | (.error problems, s) => (.error problems, s)

/-- A program that prints an expression, on a machine at rest whose output takes everything. -/
theorem runProgram_print {m : Machine} (hrest : m.AtRest) (hopen : m.output.TakesAll)
    (fuel : Nat) (e : Expr) :
    runProgram (fuel + 1) [.print e] [] m = match evaluate fuel e m with
      | .ok value m' => .ok () (m'.adding (m'.store.display value ++ "\n"))
      | .error cause m' => .error cause m'
      | .outOfFuel => .outOfFuel := by
  have hprint : execute (fuel + 1) (.print e) = (do
      let value ← evaluate fuel e
      Run.printLine value
      return .normal) := by rw [execute]
  have hextended : m.extend [] = m := rfl
  rw [runProgram_apply, hextended, runToEnd]
  cases he : evaluate fuel e m with
  | ok value m' =>
    have hopen' := ((evaluate_keepsSink fuel e).ok he).takesAll hopen
    have hstatement : execute (fuel + 1) (.print e) m
        = .ok .normal (m'.adding (m'.store.display value ++ "\n")) := by
      rw [hprint, Action.bind_of_ok he, Action.bind_of_ok (printLine_open hopen' value)]
      rfl
    have hstatements : runStatements (fuel + 1) [.print e] m
        = .ok () (m'.adding (m'.store.display value ++ "\n")) := by
      simp only [runStatements, hstatement]
      rfl
    rw [Action.bind_of_ok hstatements]
    exact flush_open ⟨hopen'.write, hopen'.flush⟩
  | error cause m' =>
    have hkept := (evaluate_keeps fuel e).error he
    have hstatement : execute (fuel + 1) (.print e) m = .error cause m' := by
      rw [hprint, Action.bind_of_error he]
    have hstatements : runStatements (fuel + 1) [.print e] m = .error cause m' := by
      simp only [runStatements, hstatement, (hkept.atRest hrest).reset]
    rw [Action.bind_of_error hstatements]
  | outOfFuel =>
    have hstatement : execute (fuel + 1) (.print e) m = .outOfFuel := by
      rw [hprint, Action.bind_of_outOfFuel he]
    have hstatements : runStatements (fuel + 1) [.print e] m = .outOfFuel := by
      simp only [runStatements, hstatement]
    rw [Action.bind_of_outOfFuel hstatements]

/-- **Evaluating an expression agrees with running a program that prints it**, after any steps of a
session whose output takes everything, and for every expression without `this`. The program is
accepted; it is the expression with its lines and identities, and there is nothing to resolve in it.
It fails with the same error, having printed the same, or else writes the value with a newline
behind what the expression itself has printed. In all cases the session behind it is the same. -/
theorem evaluate_agrees_with_run {maxDepth fuel₀ : Nat} {output : Output} {host : Host}
    {steps : List Step} {replies : List (Option Reply)} {s : Session} (hopen : output.TakesAll)
    (hs : (Session.initial maxDepth output host).follow fuel₀ steps = some (replies, s))
    {source : String} {stream : TokenStream} (hscan : (scan source).tokens? = .ok stream)
    (hthis : Grammar.WithoutThis stream.tokens) {e : Expr} {next : NodeId}
    (h : parseExpressionSource source s.nextId = (.ok e, next)) :
    checkSource (printSource source) s.nextId = (.ok ⟨[.print e], []⟩, next) ∧
      ∀ fuel, s.run (fuel + 1) (printSource source)
        = (s.evaluate fuel source).map Session.showing := by
  have hcheck := checkSource_print hscan hthis h
  refine ⟨hcheck, fun fuel => ?_⟩
  have hinitial : (Session.initial maxDepth output host).machine.AtRest := ⟨rfl, rfl⟩
  have hrest := Session.follow_atRest hinitial hs
  have hopen' : s.machine.output.TakesAll := (Session.follow_sink hs).takesAll hopen
  simp only [Session.run, Session.evaluate, hcheck, h, Session.perform,
    runProgram_print hrest hopen']
  cases evaluate fuel e s.machine <;> rfl

/-- A function that prints what it gives back. -/
def echoDeclared : List Step := [.request (.run "fun f(x) \x7b print x; return x; \x7d")]

/-- A call that prints, with a comment behind it. -/
def echoCall : String := "f(true) // twice"

set_option maxRecDepth 1000 in
theorem echoCall_agrees :
    ∃ s e next, (Session.initial 8 .unlimited .nominal).follow 60 echoDeclared
        = some ([some (.ok none)], s) ∧
      parseExpressionSource echoCall s.nextId = (.ok e, next) ∧
      checkSource (printSource echoCall) s.nextId = (.ok ⟨[.print e], []⟩, next) ∧
      (s.evaluate 60 echoCall).map (·.2.machine.output.written) = some "true\n" ∧
      (s.run 61 (printSource echoCall)).map (·.2.machine.output.written)
        = some "true\ntrue\n" := by
  have hsteps : ((Session.initial 8 .unlimited .nominal).follow 60 echoDeclared).map
      (fun r => (r.1, r.2.nextId)) = some ([some (.ok none)], 2) := by cbv
  have hevaluated : (((Session.initial 8 .unlimited .nominal).follow 60 echoDeclared).bind fun r =>
      (r.2.evaluate 60 echoCall).map (·.2.machine.output.written)) = some "true\n" := by cbv
  have hshown : (((Session.initial 8 .unlimited .nominal).follow 60 echoDeclared).bind fun r =>
      (r.2.evaluate 60 echoCall).map fun a => (Session.showing a).2.machine.output.written)
        = some "true\ntrue\n" := by cbv
  obtain ⟨⟨replies, s⟩, hfollow, hparts⟩ := Option.map_eq_some_iff.mp hsteps
  obtain ⟨rfl, hnext⟩ := Prod.mk.inj hparts
  rw [hfollow, Option.bind_some] at hevaluated hshown
  have hscan : (scan echoCall).tokens? = .ok ⟨[⟨.identifier, "f", 1⟩, ⟨.symbol .leftParen, "(", 1⟩,
      ⟨.keyword .trueWord, "true", 1⟩, ⟨.symbol .rightParen, ")", 1⟩], 1⟩ := by cbv
  have hparse : parseExpressionSource echoCall s.nextId
      = (.ok (.call (.variable 2 ⟨"f", 1⟩) 1 [.literal (.bool true)]), 3) := by
    rw [hnext]
    cbv
  obtain ⟨hcheck, hruns⟩ := evaluate_agrees_with_run Output.unlimited_takesAll hfollow hscan
    (by simp [Grammar.WithoutThis]) hparse
  refine ⟨s, _, _, hfollow, hparse, hcheck, hevaluated, ?_⟩
  rw [hruns 60, Option.map_map]
  exact hshown

end LoxLang
