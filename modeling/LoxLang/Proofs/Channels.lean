import Mathlib
import LoxLang.Command.Perform
import LoxLang.Proofs.Encoding
import LoxLang.Proofs.Parsing.Progress
import LoxLang.Proofs.Running.Sessions

/-!
# What is reported on a source

A source is scanned, parsed, resolved and run, and each stage only begins where the one before has
found nothing wrong. So all that is reported on a source was found by one stage.

* `Scan.faults`, `InTokenOrder`: the faults of a text, and errors that follow the tokens;
* `Stage.Finds`: what a stage may report on a source as a whole;
* `Session.run_finds`: a run that fails reports something, and all of it from one stage;
* `ReportsRun`: exit code, output and errors of the program follow the stage;
* `failures_by_stage`: the two together, for every session and for every file of text.
-/

namespace LoxLang

/-! ## Scanning -/

/-- The fault that an item is, if it is one. -/
def Item.fault? : Item → Option LexicalError
  | .token _ => none
  | .fault e => some e

namespace Scan

/-- The faults of a source, in its order. -/
def faults (s : Scan) : List LexicalError := s.items.filterMap Item.fault?

theorem sort_faults (items : List Item) : (sort items).2 = items.filterMap Item.fault? := by
  induction items with
  | nil => rfl
  | cons item rest ih =>
    cases item with
    | token t => exact ih
    | fault e => exact congrArg (List.cons e) ih

theorem tokens?_eq_error {s : Scan} {found : List LexicalError} (h : s.tokens? = .error found) :
    found = s.faults ∧ found ≠ [] := by
  unfold tokens? at h
  split at h
  · cases h
  · rename_i tokens faults hne hsort
    cases h
    refine ⟨?_, hne⟩
    rw [Scan.faults, ← sort_faults, hsort]

end Scan

/-! ## Parsing -/

/-- The error is about the token at this position, or about the end of the source behind all of
them. -/
def SyntaxError.StandsAt (source : TokenStream) (e : SyntaxError) (position : Nat) : Prop :=
  position ≤ source.tokens.length ∧
    e.lexeme = source.tokens[position]?.map (·.lexeme) ∧
    e.line = (source.tokens[position]?.map (·.line)).getD source.endLine

/-- Each error stands at a token behind that of the error before. -/
def InTokenOrder (source : TokenStream) (errors : List SyntaxError) : Prop :=
  ∃ positions : List Nat, positions.Pairwise (· < ·) ∧
    List.Forall₂ (SyntaxError.StandsAt source) errors positions

namespace Parsing

theorem Refusal.standsAt {source : TokenStream} {q : Refusal} (h : q.place <:+ source.tokens) :
    (q.error source.endLine).StandsAt source (source.tokens.length - q.place.length) := by
  obtain ⟨before, h⟩ := h
  have hat : source.tokens[source.tokens.length - q.place.length]? = q.place.head? := by
    have hposition : source.tokens.length - q.place.length = before.length := by simp [← h]
    rw [hposition, ← h, List.getElem?_append_right (Nat.le_refl _), Nat.sub_self,
      List.head?_eq_getElem?]
  refine ⟨Nat.sub_le _ _, ?_⟩
  rw [hat]
  unfold Refusal.error
  cases q.place with
  | nil => exact ⟨rfl, rfl⟩
  | cons t rest => exact ⟨rfl, rfl⟩

theorem RefusedInOrder.inTokenOrder {source : TokenStream} {refusals : List Refusal}
    (h : RefusedInOrder source.tokens refusals) :
    InTokenOrder source (refusals.map (·.error source.endLine)) := by
  refine ⟨refusals.map fun q => source.tokens.length - q.place.length, ?_, ?_⟩
  · rw [List.pairwise_map]
    refine h.behind.imp_of_mem fun {q q'} hq _ hlt => ?_
    have hle := (h.within q hq).2.length_le
    omega
  · rw [List.forall₂_map_left_iff, List.forall₂_map_right_iff, List.forall₂_same]
    exact fun q hq => Refusal.standsAt (h.within q hq).2

end Parsing

theorem Program.parse_eq_error {source : TokenStream} {nextId next : NodeId}
    {errors : List SyntaxError} (h : Program.parse source nextId = (.error errors, next)) :
    errors ≠ [] ∧ InTokenOrder source errors := by
  obtain ⟨r, hread, hrefused⟩ := @Parsing.readAll_proceeds (Parsing.fuelFor source.tokens)
    (Parsing.fuelFor source.tokens) ⟨source.tokens, nextId⟩ (Nat.lt_succ_self _) (Nat.lt_succ_self _)
  unfold Program.parse at h
  dsimp only at h
  rw [hread] at h
  obtain ⟨statements, refusals, nextId'⟩ := r
  cases refusals with
  | nil => cases h
  | cons q refusals =>
    cases h
    exact ⟨by simp, hrefused.inTokenOrder⟩

/-! ## The stages -/

/-- Where something can be found to be wrong with a source. -/
inductive Stage
  | scanning | parsing | resolving | running
  deriving DecidableEq, Repr

def Problem.stage : Problem → Stage
  | lexical _ => .scanning
  | grammar _ => .parsing
  | scope _ => .resolving
  | runtime _ => .running

/-- What a stage reports on a source: every fault of its text; errors in its tokens, from front to
back; or the first thing that is wrong. -/
def Stage.Finds (source : String) : Stage → List Problem → Prop
  | scanning, problems => problems = (scan source).faults.map .lexical
  | parsing, problems =>
    ∃ stream errors, (scan source).tokens? = .ok stream ∧ InTokenOrder stream errors ∧
      problems = errors.map .grammar
  | resolving, problems => ∃ e, problems = [.scope e]
  | running, problems => ∃ e, problems = [.runtime e]

theorem Stage.Finds.stage_eq {source : String} {stage : Stage} {problems : List Problem}
    (h : stage.Finds source problems) {p : Problem} (hp : p ∈ problems) : p.stage = stage := by
  cases stage with
  | scanning =>
    rw [Stage.Finds] at h
    rw [h] at hp
    obtain ⟨e, -, rfl⟩ := List.mem_map.mp hp
    rfl
  | parsing =>
    obtain ⟨stream, errors, -, -, rfl⟩ := h
    obtain ⟨e, -, rfl⟩ := List.mem_map.mp hp
    rfl
  | resolving | running =>
    obtain ⟨e, rfl⟩ := h
    rw [List.mem_singleton.mp hp]
    rfl

/-- Problems that a stage finds are found by no other stage. -/
theorem Stage.Finds.existsUnique {source : String} {stage : Stage} {problems : List Problem}
    (hne : problems ≠ []) (h : stage.Finds source problems) :
    ∃! stage : Stage, stage.Finds source problems := by
  obtain ⟨p, hp⟩ := List.exists_mem_of_ne_nil problems hne
  exact ⟨stage, h, fun other hother => (hother.stage_eq hp).symm.trans (h.stage_eq hp)⟩

theorem checkSource_finds {source : String} {nextId next : NodeId} {problems : List Problem}
    (h : checkSource source nextId = (.error problems, next)) :
    problems ≠ [] ∧ ∃ stage : Stage, stage.Finds source problems := by
  obtain hparse | ⟨_, e, -, -, rfl⟩ := checkSource_eq_error h
  · obtain ⟨faults, hscan, rfl⟩ | ⟨stream, errors, hscan, herrors, rfl⟩ :=
      parseSource_eq_error hparse
    · obtain ⟨hfaults, hne⟩ := Scan.tokens?_eq_error hscan
      exact ⟨by simpa using hne, .scanning, congrArg _ hfaults⟩
    · obtain ⟨hne, horder⟩ := Program.parse_eq_error herrors
      exact ⟨by simpa using hne, .parsing, stream, errors, hscan, horder, rfl⟩
  · exact ⟨List.cons_ne_nil _ _, .resolving, e, rfl⟩

/-! ## Runs -/

namespace Session

/-- The source is a program, which ends on the machine of the session in this way. -/
def Executes (fuel : Nat) (source : String) (s : Session)
    (outcome : Outcome RuntimeError Machine Unit) : Prop :=
  ∃ checked next, checkSource source s.nextId = (.ok checked, next) ∧
    Running.runProgram fuel checked.program checked.distances s.machine = outcome

section
variable {fuel : Nat} {source : String} {s s' : Session} {problems : List Problem}

/-- A run that fails has not begun, or the program failed. -/
theorem run_eq_error (h : s.run fuel source = some (.error problems, s')) :
    (∃ next, checkSource source s.nextId = (.error problems, next)) ∨
      ∃ e m, s.Executes fuel source (.error e m) ∧ problems = [.runtime e] := by
  unfold run at h
  cases hcheck : checkSource source s.nextId with
  | mk answer next =>
    rw [hcheck] at h
    cases answer with
    | error found =>
      cases h
      exact .inl ⟨next, rfl⟩
    | ok checked =>
      dsimp only [perform] at h
      cases hrun : Running.runProgram fuel checked.program checked.distances s.machine with
      | ok a m =>
        rw [hrun] at h
        cases h
      | error e m =>
        rw [hrun] at h
        cases h
        exact .inr ⟨e, m, ⟨checked, next, hcheck, hrun⟩, rfl⟩
      | outOfFuel =>
        rw [hrun] at h
        cases h

theorem run_finds (h : s.run fuel source = some (.error problems, s')) :
    problems ≠ [] ∧ ∃! stage : Stage, stage.Finds source problems := by
  obtain ⟨next, hcheck⟩ | ⟨e, m, -, rfl⟩ := run_eq_error h
  · obtain ⟨hne, stage, hstage⟩ := checkSource_finds hcheck
    exact ⟨hne, hstage.existsUnique hne⟩
  · have hne : [Problem.runtime e] ≠ [] := List.cons_ne_nil _ _
    have hfinds : Stage.running.Finds source [.runtime e] := ⟨e, rfl⟩
    exact ⟨hne, hfinds.existsUnique hne⟩

end

end Session

/-! ## The program -/

/-- The report on a source that was to be run: the exit code tells whether it was a program and
whether that failed, the output is what the program had written by then, and the errors are the
texts of what is wrong. -/
structure ReportsRun (fuel : Nat) (source : String) (s : Session) (r : Report) : Prop where
  static : r.code = 65 ↔ ∃ problems, (checkSource source s.nextId).1 = .error problems
  refused : ∀ problems, (checkSource source s.nextId).1 = .error problems →
    r.output = "" ∧ r.errors = unlines (problems.map (·.message))
  runtime : r.code = 70 ↔ ∃ e m, s.Executes fuel source (.error e m)
  failed : ∀ e m, s.Executes fuel source (.error e m) →
    r.output = m.output.written ∧ r.errors = unlines [e.message]
  success : r.code = 0 ↔ ∃ m, s.Executes fuel source (.ok () m)
  done : ∀ m, s.Executes fuel source (.ok () m) → r.output = m.output.written ∧ r.errors = ""

section
variable {fuel : Nat} {source : String} {s : Session}

/-- A source ends in one way. -/
theorem Session.Executes.unique {o o' : Outcome RuntimeError Machine Unit}
    (h : s.Executes fuel source o) (h' : s.Executes fuel source o') : o = o' := by
  obtain ⟨checked, next, hcheck, rfl⟩ := h
  obtain ⟨checked', next', hcheck', rfl⟩ := h'
  cases hcheck.symm.trans hcheck'
  rfl

/-- Only a program is run. -/
theorem Session.Executes.accepted {o : Outcome RuntimeError Machine Unit}
    (h : s.Executes fuel source o) (problems : List Problem) :
    (checkSource source s.nextId).1 ≠ .error problems := by
  obtain ⟨checked, next, hcheck, -⟩ := h
  rw [hcheck]
  exact fun h => nomatch h

namespace ReportsRun

variable {r : Report} {m : Machine}

theorem of_refused {problems : List Problem}
    (h : (checkSource source s.nextId).1 = .error problems) (hcode : r.code = 65)
    (houtput : r.output = "") (herrors : r.errors = unlines (problems.map (·.message))) :
    ReportsRun fuel source s r where
  static := ⟨fun _ => ⟨problems, h⟩, fun _ => hcode⟩
  refused problems' h' := by
    cases h.symm.trans h'
    exact ⟨houtput, herrors⟩
  runtime := by
    rw [hcode]
    exact ⟨fun h => absurd h (by decide), fun ⟨_, _, hrun⟩ => absurd h (hrun.accepted _)⟩
  failed _ _ hrun := absurd h (hrun.accepted _)
  success := by
    rw [hcode]
    exact ⟨fun h => absurd h (by decide), fun ⟨_, hrun⟩ => absurd h (hrun.accepted _)⟩
  done _ hrun := absurd h (hrun.accepted _)

theorem of_failed {e : RuntimeError} (h : s.Executes fuel source (.error e m))
    (hcode : r.code = 70) (houtput : r.output = m.output.written)
    (herrors : r.errors = unlines [e.message]) : ReportsRun fuel source s r where
  static := by
    rw [hcode]
    exact ⟨fun h => absurd h (by decide), fun ⟨_, hcheck⟩ => absurd hcheck (h.accepted _)⟩
  refused _ hcheck := absurd hcheck (h.accepted _)
  runtime := ⟨fun _ => ⟨e, m, h⟩, fun _ => hcode⟩
  failed e' m' h' := by
    cases h.unique h'
    exact ⟨houtput, herrors⟩
  success := by
    rw [hcode]
    exact ⟨fun h => absurd h (by decide), fun ⟨_, hrun⟩ => nomatch h.unique hrun⟩
  done _ hrun := nomatch h.unique hrun

theorem of_done (h : s.Executes fuel source (.ok () m)) (hcode : r.code = 0)
    (houtput : r.output = m.output.written) (herrors : r.errors = "") :
    ReportsRun fuel source s r where
  static := by
    rw [hcode]
    exact ⟨fun h => absurd h (by decide), fun ⟨_, hcheck⟩ => absurd hcheck (h.accepted _)⟩
  refused _ hcheck := absurd hcheck (h.accepted _)
  runtime := by
    rw [hcode]
    exact ⟨fun h => absurd h (by decide), fun ⟨_, _, hrun⟩ => nomatch h.unique hrun⟩
  failed _ _ hrun := nomatch h.unique hrun
  success := ⟨fun _ => ⟨m, h⟩, fun _ => hcode⟩
  done m' h' := by
    cases h.unique h'
    exact ⟨houtput, herrors⟩

/-- The files that were made do not matter. -/
theorem withCreated (h : ReportsRun fuel source s r) (created : List String) :
    ReportsRun fuel source s { r with created } :=
  ⟨h.static, h.refused, h.runtime, h.failed, h.success, h.done⟩

end ReportsRun

theorem exitCode_static {problems : List Problem} (h : ∀ p ∈ problems, p.isStatic = true) :
    ExitCode.ofProblems problems = 65 := by
  cases problems with
  | nil => rfl
  | cons p rest => exact if_pos (h p List.mem_cons_self)

/-- A run of a source on a machine that has written nothing yet is reported, unless its fuel runs
out. -/
theorem Task.runReport_cases (hwritten : s.machine.output.written = "") :
    (∃ r, Task.runReport fuel source s = some r ∧ ReportsRun fuel source s r) ∨
      Task.runReport fuel source s = none ∧ s.Executes fuel source .outOfFuel := by
  unfold Task.runReport Session.run
  cases hcheck : checkSource source s.nextId with
  | mk answer next =>
    cases answer with
    | error problems =>
      have hrefused : (checkSource source s.nextId).1 = .error problems := by rw [hcheck]
      have hcode := exitCode_static (checkSource_static hcheck)
      exact .inl ⟨_, rfl, .of_refused hrefused hcode hwritten rfl⟩
    | ok checked =>
      dsimp only [Session.perform]
      cases hrun : Running.runProgram fuel checked.program checked.distances s.machine with
      | ok a m => exact .inl ⟨_, rfl, .of_done ⟨checked, next, hcheck, hrun⟩ rfl rfl rfl⟩
      | error e m => exact .inl ⟨_, rfl, .of_failed ⟨checked, next, hcheck, hrun⟩ rfl rfl rfl⟩
      | outOfFuel => exact .inr ⟨rfl, checked, next, hcheck, hrun⟩

theorem Task.runReport_eq_none (h : s.Executes fuel source .outOfFuel) :
    Task.runReport fuel source s = none := by
  obtain ⟨checked, next, hcheck, hrun⟩ := h
  unfold Task.runReport Session.run
  rw [hcheck]
  dsimp only [Session.perform]
  rw [hrun]
  rfl

end

section
variable {fuel : Nat} {w : Surroundings} {arguments : List String} {options : Options}
  {file : String} {created : List String} {settings : Settings} {text : List Char}

/-- The program on a file of text. -/
theorem commandReport_run
    (harguments : Invocation.ofArguments? arguments = some (.perform options (.run file)))
    (hprepare : Invocation.prepare w options = .ok (created, settings))
    (hread : w.read file = .ok (Utf8.encode text)) :
    commandReport fuel w arguments =
      (Task.runReport fuel (String.ofList text) (Task.session w settings)).map
        fun r => { r with created } := by
  unfold commandReport
  rw [harguments]
  dsimp only [Invocation.report]
  rw [hprepare]
  dsimp only [Task.report, Task.readSource]
  rw [hread]
  dsimp only [Except.mapError, bind, Except.bind]
  rw [Utf8.decode_encode]

end

/-- **All that is reported on a source comes from the stage at which it fails.** A failing run of a
session reports something: all lexical faults in the order of the source, or syntax errors in the
order of the tokens, or the first fault in its scopes, or the error that ended it. So for a file of
text, whatever the program is asked besides, the exit code is 65 without output just when the text
is not a program, 70 with all that was written just when the program fails, and otherwise 0; there
is no report only where there was no end. -/
theorem failures_by_stage :
    (∀ (fuel : Nat) (source : String) (s s' : Session) (problems : List Problem),
      s.run fuel source = some (.error problems, s') →
        problems ≠ [] ∧ ∃! stage : Stage, stage.Finds source problems) ∧
    ∀ (fuel : Nat) (w : Surroundings) (arguments : List String) (options : Options)
      (file : String) (created : List String) (settings : Settings) (source : String),
      Invocation.ofArguments? arguments = some (.perform options (.run file)) →
      Invocation.prepare w options = .ok (created, settings) →
      w.read file = .ok source.toUTF8.data.toList →
      (∀ r, commandReport fuel w arguments = some r →
        ReportsRun fuel source (Task.session w settings) r) ∧
      (commandReport fuel w arguments = none ↔
        (Task.session w settings).Executes fuel source .outOfFuel) := by
  refine ⟨fun _ _ _ _ _ => Session.run_finds, ?_⟩
  intro fuel w arguments options file created settings source harguments hprepare hread
  rw [← Utf8.encode_toList] at hread
  have hreport := @commandReport_run fuel _ _ _ _ _ _ _ harguments hprepare hread
  rw [String.ofList_toList] at hreport
  rw [hreport]
  have hfresh : (Task.session w settings).machine.output.written = "" := rfl
  constructor
  · intro r hr
    obtain ⟨r', hr', rfl⟩ := Option.map_eq_some_iff.mp hr
    obtain ⟨r, hr, hreports⟩ | ⟨hnone, -⟩ := Task.runReport_cases hfresh
    · cases hr.symm.trans hr'
      exact hreports.withCreated created
    · cases hnone.symm.trans hr'
  · rw [Option.map_eq_none_iff]
    refine ⟨fun h => ?_, Task.runReport_eq_none⟩
    obtain ⟨r, hr, -⟩ | ⟨-, hends⟩ := Task.runReport_cases hfresh
    · cases hr.symm.trans h
    · exact hends

/-- A file whose program fails after it has written a line. -/
theorem failures_by_stage_late :
    let source := "print true;\nnil();"
    let w : Surroundings := ⟨fun _ => .ok (Utf8.encode source.toList), fun _ => .ok (), [], .nominal⟩
    let s := Task.session w {}
    let r : Report := ⟨70, "true\n", "Can only call functions and classes.\n[line 2]\n", []⟩
    commandReport 60 w ["run", "main.lox"] = some r ∧ ReportsRun 60 source s r ∧
      ∃! stage : Stage, stage.Finds source [.runtime (.notCallable 2)] := by
  intro source w s r
  have harguments : Invocation.ofArguments? ["run", "main.lox"]
      = some (.perform {} (.run "main.lox")) := by cbv
  have hends : (s.run 60 source).map (fun p => (p.1, p.2.machine.output.written))
      = some (.error [.runtime (.notCallable 2)], "true\n") := by cbv
  have htext : unlines ([Problem.runtime (.notCallable 2)].map (·.message)) = r.errors := by decide
  obtain ⟨⟨_, s'⟩, hrun, hpair⟩ := Option.map_eq_some_iff.mp hends
  obtain ⟨rfl, hwritten⟩ := Prod.mk.inj hpair
  have hreport : commandReport 60 w ["run", "main.lox"] = some r := by
    rw [@commandReport_run 60 w _ _ _ [] {} _ harguments rfl rfl, String.ofList_toList]
    unfold Task.runReport
    rw [hrun]
    dsimp only [Option.bind_eq_bind, Option.bind_some, Option.pure_def, Option.map_some,
      Report.ofProblems]
    rw [hwritten, htext]
    rfl
  have hread : w.read "main.lox" = .ok source.toUTF8.data.toList := congrArg _ (Utf8.encode_toList _)
  obtain ⟨hfinds, hreports⟩ := failures_by_stage
  refine ⟨hreport, ?_, (hfinds 60 source s s' _ hrun).2⟩
  exact (hreports 60 w _ {} "main.lox" [] {} source harguments rfl hread).1 r hreport

end LoxLang
