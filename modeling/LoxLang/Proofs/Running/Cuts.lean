import LoxLang.Proofs.Running.Plans
import LoxLang.Proofs.Running.Sinks

/-!
# Outputs that stop taking text

An output may take some of the pieces of a line and then refuse. Where it does so first, the run
ends.

* `Machine.opened`: the machine with an output that takes everything;
* `Printer.Honest`: a line is accepted as a whole, or else its printing fails and part of it is;
* `Plan.Compared`, `Plan.compare`: what any plan tells and how it ends, beside the same plan with an
  output that takes everything;
* `refusal_cuts_run`: the same for programs in a session.
-/

namespace LoxLang

open Running

namespace Machine

def opened (m : Machine) : Machine :=
  { m with output := { m.output with refusal? := fun _ => none, flushRefusal? := none } }

theorem opened_takesAll (m : Machine) : m.opened.output.TakesAll := ⟨fun _ => rfl, rfl⟩

/-- What is written to print a value. -/
def line (m : Machine) (v : Value) : String := m.store.display v ++ "\n"

end Machine

def Event.opened : Event → Event
  | passes mark m => passes mark m.opened
  | prints v m => prints v m.opened
  | calls callee m result m' => calls callee m.opened result m'.opened

namespace Printer

/-- All of the line is accepted. -/
def Accepts (p : Printer) (v : Value) (m : Machine) : Prop := p v m = .ok () (m.adding (m.line v))

/-- This part of the line is accepted, but not all of it. -/
structure Refuses (p : Printer) (v : Value) (m : Machine) (reason part : String) : Prop where
  error : p v m = .error (.output reason) (m.adding part)
  lacks : ∃ rest, rest ≠ "" ∧ m.line v = part ++ rest

/-- Whichever pieces a line is written in, and whenever the output begins to refuse them. -/
def Honest (p : Printer) : Prop :=
  ∀ v m, p.Accepts v m ∨ ∃ reason part, p.Refuses v m reason part

theorem Honest.keeps {p : Printer} (hp : p.Honest) (v : Value) : Keeps (p v) := by
  intro m m' h
  have hadding (text : String) : Kept m (m.adding text) :=
    ⟨rfl, rfl, rfl, rfl, rfl, rfl, text, rfl⟩
  obtain haccepts | ⟨reason, part, hrefuses⟩ := hp v m
  · rw [haccepts] at h
    cases h
    exact hadding _
  · rw [hrefuses.error] at h
    cases h
    exact hadding _

end Printer

/-- The newline goes behind the text. -/
theorem write_newline (m : Machine) (text : String) :
    Run.write "\n" (m.adding text) = .ok () (m.adding (text ++ "\n")) ∨
      ∃ reason, Run.write "\n" (m.adding text) = .error (.output reason) (m.adding text) := by
  have hadded : (m.adding text).adding "\n" = m.adding (text ++ "\n") := by
    simp only [Machine.adding, String.append_assoc]
  have hnewline : ¬"\n".isEmpty = true := by decide
  rw [← hadded]
  unfold Run.write
  rw [if_neg hnewline]
  cases (m.adding text).output.refusal? (m.adding text).output.written with
  | none => exact .inl rfl
  | some reason => exact .inr ⟨reason, rfl⟩

/-- A value and a newline are written one after the other. -/
theorem printLine_honest : Printer.Honest Run.printLine := by
  intro v m
  have hlines : Run.printLine v m
      = (Run.write (m.store.display v) >>= fun _ => Run.write "\n") m := rfl
  have hnewline : "\n" ≠ "" := by decide
  have hbehind (hwrite : Run.write (m.store.display v) m = .ok () (m.adding (m.store.display v))) :
      Printer.Accepts Run.printLine v m ∨
        ∃ reason part, Printer.Refuses Run.printLine v m reason part := by
    have hprint := hlines.trans (Action.bind_of_ok hwrite)
    obtain haccepted | ⟨reason, hrefused⟩ := write_newline m (m.store.display v)
    · exact .inl (hprint.trans haccepted)
    · exact .inr ⟨reason, m.store.display v, hprint.trans hrefused, "\n", hnewline, rfl⟩
  by_cases hempty : (m.store.display v).isEmpty = true
  · refine hbehind ?_
    rw [String.isEmpty_iff.mp hempty]
    simp [Run.write, Machine.adding]
  · cases hrefusal : m.output.refusal? m.output.written with
    | none => exact hbehind (by simp only [Run.write, if_neg hempty, hrefusal]; rfl)
    | some reason =>
      have hwrite : Run.write (m.store.display v) m = .error (.output reason) m := by
        simp only [Run.write, if_neg hempty, hrefusal]
      have hnothing : m.adding "" = m := by simp only [Machine.adding, String.append_empty]
      refine .inr ⟨reason, "", ?_, m.line v, ?_, (String.empty_append).symm⟩
      · rw [hnothing]
        exact hlines.trans (Action.bind_of_error hwrite)
      · exact fun h => hnewline (String.append_eq_empty_iff.mp h).2

namespace Plan

variable {α β : Type} {p : Printer}

/-- What a run with this printer tells and how it ends, beside what the run tells and how it ends if
nothing is refused. -/
inductive Compared (p : Printer) (told : List Event) (o : Outcome RuntimeError Machine α)
    (whole : List Event) (o' : Outcome RuntimeError Machine α) : Prop
  | same (accepted : ∀ v m, .prints v m ∈ told → p.Accepts v m)
      (events : whole = told.map Event.opened) (ends : o' = o.mapState Machine.opened)
  /-- The first print that is not accepted as a whole is the last thing that happens. -/
  | cut {earlier later : List Event} {v : Value} {m m' : Machine} {reason part : String}
      (last : told = earlier ++ [.prints v m])
      (accepted : ∀ w n, .prints w n ∈ earlier → p.Accepts w n)
      (refuses : p.Refuses v m reason part) (ends : o = .error (.output reason) m')
      (left : m'.reset = (m.adding part).reset) (events : whole = told.map Event.opened ++ later)
      (written : ∀ m'', o'.state? = some m'' → WritesOn (m.adding (m.line v)) m'')

namespace Compared

variable {told whole : List Event}

theorem quiet {o o' : Outcome RuntimeError Machine α} (ends : o' = o.mapState Machine.opened) :
    Compared p [] o [] o' :=
  .same (fun _ _ h => nomatch h) rfl ends

/-- The machine is put back as it was in part, which changes nothing that is printed. -/
theorem restored {o o' : Outcome RuntimeError Machine α} (h : Compared p told o whole o')
    {g : Machine → Machine} (hopened : ∀ m, g m.opened = (g m).opened)
    (hreset : ∀ m, (g m).reset = m.reset) (houtput : ∀ m, (g m).output = m.output) :
    Compared p told (o.mapState g) whole (o'.mapState g) := by
  cases h with
  | same accepted events ends =>
    refine .same accepted events ?_
    rw [ends]
    cases o with
    | ok a m => exact congrArg (Outcome.ok a) (hopened m)
    | error e m => exact congrArg (Outcome.error e) (hopened m)
    | outOfFuel => rfl
  | cut last accepted refuses ends left events written =>
    refine .cut last accepted refuses (congrArg (·.mapState g) ends) ((hreset _).trans left)
      events fun m'' hm'' => ?_
    rw [Outcome.state?_mapState] at hm''
    obtain ⟨m₁, hm₁, rfl⟩ := Option.map_eq_some_iff.mp hm''
    obtain ⟨more, hmore⟩ := written m₁ hm₁
    exact ⟨more, by rw [houtput, hmore]⟩

/-- What goes before was accepted. -/
theorem behind {earlier : List Event} {o o' : Outcome RuntimeError Machine α}
    (haccepted : ∀ v m, .prints v m ∈ earlier → p.Accepts v m) (h : Compared p told o whole o') :
    Compared p (earlier ++ told) o (earlier.map Event.opened ++ whole) o' := by
  have hboth {rest : List Event} (hrest : ∀ v m, .prints v m ∈ rest → p.Accepts v m) (v : Value)
      (m : Machine) (hmem : .prints v m ∈ earlier ++ rest) : p.Accepts v m :=
    (List.mem_append.mp hmem).elim (haccepted v m) (hrest v m)
  cases h with
  | same accepted events ends =>
    exact .same (hboth accepted) (by rw [events, List.map_append]) ends
  | cut last accepted refuses ends left events written =>
    have hevents := congrArg (earlier.map Event.opened ++ ·) events
    rw [← List.append_assoc, ← List.map_append] at hevents
    refine .cut ?_ (hboth accepted) refuses ends left hevents written
    rw [last, List.append_assoc]

/-- Two runs in a row. -/
theorem bind {x y : Run α} {f g : α → Run β} {m n : Machine} {next next' : α → Machine → List Event}
    (h : Compared p told (x m) whole (y n))
    (hf : ∀ a m₁, x m = .ok a m₁ →
      Compared p (next a m₁) (f a m₁) (next' a m₁.opened) (g a m₁.opened))
    (hg : ∀ a, Keeps (g a)) :
    Compared p (told ++ onward (x m) next) ((x >>= f) m) (whole ++ onward (y n) next')
      ((y >>= g) n) := by
  cases h with
  | same accepted events ends =>
    cases hx : x m with
    | ok a m₁ =>
      rw [hx] at ends
      rw [Action.bind_of_ok hx, Action.bind_of_ok ends, ends, events]
      exact (hf a m₁ hx).behind accepted
    | error e m₁ =>
      rw [hx] at ends
      rw [Action.bind_of_error hx, Action.bind_of_error ends, ends, events]
      simp only [Outcome.mapState, onward_error, List.append_nil]
      exact .same accepted rfl rfl
    | outOfFuel =>
      rw [hx] at ends
      rw [Action.bind_of_outOfFuel hx, Action.bind_of_outOfFuel ends, ends, events]
      simp only [Outcome.mapState, onward_outOfFuel, List.append_nil]
      exact .same accepted rfl rfl
  | cut last accepted refuses ends left events written =>
    rw [ends, Action.bind_of_error ends, onward_error, List.append_nil, events, List.append_assoc]
    refine .cut last accepted refuses rfl left rfl fun m'' hm'' => ?_
    cases hy : y n with
    | ok a n₁ =>
      rw [Action.bind_of_ok hy] at hm''
      exact (written n₁ (by rw [hy]; rfl)).trans (hg a n₁ m'' hm'').printed
    | error e n₁ =>
      rw [Action.bind_of_error hy] at hm''
      exact written m'' (by rw [hy]; exact hm'')
    | outOfFuel =>
      rw [Action.bind_of_outOfFuel hy] at hm''
      cases hm''

end Compared

theorem keeps (hp : p.Honest) (x : Plan α) : Keeps (x.perform p) :=
  respected respects_keeps hp.keeps (fun _ => .outOfFuel) x

/-- Whatever the plan, the first refusal is the end of its run. -/
theorem compare (hp : p.Honest) (x : Plan α) (m : Machine) :
    Compared p (x.tell p m) (x.perform p m) (x.tell Run.printLine m.opened)
      (x.perform Run.printLine m.opened) := by
  induction x generalizing m with
  | step f =>
    refine .quiet ?_
    have hstep : f m.opened.distances m.opened.frame m.opened.store
        = f m.distances m.frame m.store := rfl
    simp only [perform, Run.onStore, hstep]
    cases f m.distances m.frame m.store <;> rfl
  | print value =>
    have hopen : Run.printLine value m.opened = .ok () (m.opened.adding (m.line value)) :=
      printLine_open m.opened_takesAll value
    obtain haccepts | ⟨reason, part, hrefuses⟩ := hp value m
    · refine .same (fun v n hmem => ?_) rfl ?_
      · cases List.mem_singleton.mp hmem
        exact haccepts
      · change Run.printLine value m.opened = (p value m).mapState Machine.opened
        rw [hopen, haccepts]
        rfl
    · have hnone : ∀ w n, Event.prints w n ∈ [] → p.Accepts w n :=
        fun _ _ hmem => absurd hmem List.not_mem_nil
      refine .cut (List.nil_append _).symm hnone hrefuses hrefuses.error rfl
        (List.append_nil _).symm fun m'' hm'' => ?_
      change (Run.printLine value m.opened).state? = some m'' at hm''
      rw [hopen] at hm''
      cases hm''
      exact .refl _
  | native f arguments =>
    refine .quiet ?_
    have hcall : m.opened.host.call f m.opened.store arguments
        = m.host.call f m.store arguments := rfl
    simp only [perform, callNative, hcall]
    split
    · rfl
    · cases m.host.call f m.store arguments <;> rfl
  | outOfFuel => exact .quiet rfl
  | bind x f ihx ihf =>
    exact (ihx m).bind (fun a m₁ _ => ihf a m₁) fun a => (f a).keeps printLine_honest
  | inFrame frame x ih =>
    have h := (ih { m with frame }).restored (g := fun m' => { m' with frame := m.frame })
      (fun _ => rfl) (fun _ => rfl) fun _ => rfl
    rw [perform, perform, Run.inFrame_apply, Run.inFrame_apply]
    exact h
  | ifRoom line x ih =>
    have h := (ih { m with depth := m.depth + 1 }).restored
      (g := fun m' => { m' with depth := m'.depth - 1 }) (fun _ => rfl) (fun _ => rfl) fun _ => rfl
    have hdepth : m.opened.maxDepth ≤ m.opened.depth ↔ m.maxDepth ≤ m.depth := .rfl
    simp only [perform, tell, Run.ifRoom, hdepth]
    split
    · exact .quiet rfl
    · rw [Run.oneDeeper_apply, Run.oneDeeper_apply]
      exact h
  | note mark => exact .same (fun v n hmem => by cases List.mem_singleton.mp hmem) rfl rfl
  | called callee x ih =>
    have hpure (y : Run Value) (n : Machine) : (y >>= Pure.pure) n = y n := by
      cases hy : y n with
      | ok a n₁ => exact Action.bind_of_ok hy
      | error e n₁ => exact Action.bind_of_error hy
      | outOfFuel => exact Action.bind_of_outOfFuel hy
    rw [← hpure (perform p _), ← hpure (perform Run.printLine _)]
    refine (ih m).bind (fun a m₁ _ => ?_) fun a => respects_keeps.pure a
    exact .same (fun v n hmem => by cases List.mem_singleton.mp hmem) rfl rfl

end Plan

/-! ## Programs in a session -/

namespace Session

/-- The session with an output that takes everything. -/
def opened (s : Session) : Session := { s with machine := s.machine.opened }

/-- How a program ends with this printer, beside its run with an output that takes everything. -/
inductive Cuts (p : Printer) (fuel : Nat) (source : String) (s : Session) : Prop
  /-- It makes no difference. -/
  | same
      (accepted : ∀ v m, .prints v m ∈ s.story p fuel (.run source) → p.Accepts v m)
      (events : s.opened.story Run.printLine fuel (.run source)
        = (s.story p fuel (.run source)).map Event.opened)
      (ends : s.opened.run fuel source
        = (s.runWith p fuel source).map fun r => (r.1, r.2.opened))
  /-- The first print that is not accepted as a whole is the last thing that happens. What was in
  the store stays, and no call is in progress. -/
  | cut {earlier later : List Event} {v : Value} {m : Machine} {reason part : String}
      (last : s.story p fuel (.run source) = earlier ++ [.prints v m])
      (accepted : ∀ w n, .prints w n ∈ earlier → p.Accepts w n)
      (refuses : p.Refuses v m reason part)
      (ends : s.runWith p fuel source = some (.error [.runtime (.output reason)],
        ⟨(m.adding part).reset, (checkSource source s.nextId).2⟩))
      (events : s.opened.story Run.printLine fuel (.run source)
        = (s.story p fuel (.run source)).map Event.opened ++ later)
      (written : ∀ reply t, s.opened.run fuel source = some (reply, t) →
        WritesOn (m.adding (m.line v)) t.machine)

variable {p : Printer} {s : Session}

theorem perform_opened {x y : Run Unit}
    (h : y s.machine.opened = (x s.machine).mapState Machine.opened) :
    s.opened.perform y = (s.perform x).map fun r => (r.1, r.2.opened) := by
  have hy : y s.opened.machine = (x s.machine).mapState Machine.opened := h
  simp only [perform, hy]
  cases x s.machine <;> rfl

/-- Where flushing succeeds, it makes no difference to the comparison. -/
theorem finish_opened {o : Outcome RuntimeError Machine Unit}
    (h : ∀ m, o.state? = some m → m.output.flushRefusal? = none) :
    Plan.finish (o.mapState Machine.opened) = (Plan.finish o).mapState Machine.opened := by
  cases o with
  | ok u m =>
    have hflush : Run.flush m = .ok () m := by simp only [Run.flush, h m rfl]
    have hopened : Run.flush m.opened = .ok () m.opened := flush_open m.opened_takesAll
    simp only [Plan.finish, Outcome.mapState, hflush, hopened]
  | error e m => rfl
  | outOfFuel => rfl

/-- A source that is refused does the same with any output. -/
theorem cuts_of_refused {source : String} {problems : List Problem} {next : NodeId}
    (h : checkSource source s.nextId = (.error problems, next)) (fuel : Nat) :
    s.Cuts p fuel source := by
  have hopened : checkSource source s.opened.nextId = (.error problems, next) := h
  have hstory : s.story p fuel (.run source) = [] := by simp only [story, h]
  have hstory' : s.opened.story Run.printLine fuel (.run source) = [] := by
    simp only [story, hopened]
  refine .same ?_ ?_ ?_
  · rw [hstory]
    exact fun _ _ hmem => absurd hmem List.not_mem_nil
  · rw [hstory, hstory']
    rfl
  · simp only [run, runWith, h, hopened]
    rfl

theorem cuts_of_accepted (hp : p.Honest) (hflush : s.machine.output.flushRefusal? = none)
    {source : String} {checked : Checked} {next : NodeId}
    (h : checkSource source s.nextId = (.ok checked, next)) (fuel : Nat) :
    s.Cuts p fuel source := by
  have hopened : checkSource source s.opened.nextId = (.ok checked, next) := h
  have hcompared := Plan.compare hp (Plan.program fuel checked.program)
    (s.machine.extend checked.distances)
  rw [← story_of_accepted p h] at hcompared
  have hstory : s.opened.story Run.printLine fuel (.run source)
      = (Plan.program fuel checked.program).tell Run.printLine
        (s.machine.extend checked.distances).opened := story_of_accepted _ hopened fuel
  rw [← hstory] at hcompared
  have hrun := runWith_of_accepted p h fuel
  have hrun' := runWith_of_accepted Run.printLine hopened fuel
  rw [runWith_printLine] at hrun'
  cases hcompared with
  | same accepted events ends =>
    refine .same accepted events ?_
    rw [hrun, hrun']
    refine perform_opened (s := { s with nextId := next }) ?_
    refine (congrArg Plan.finish ends).trans (finish_opened fun m hm => ?_)
    exact (Plan.keeps hp _ _ _ hm).flushRefusal?.trans hflush
  | cut last accepted refuses ends left events written =>
    refine .cut last accepted refuses ?_ events fun reply t ht => ?_
    · have hends : Plan.runProgram p fuel checked.program checked.distances s.machine
          = .error _ _ := congrArg Plan.finish ends
      rw [hrun, perform, hends, left, h]
    · rw [hrun'] at ht
      obtain ⟨m', hm', hstate⟩ := Plan.state?_finish (perform_eq_some ht).1
      obtain ⟨more, hmore⟩ := written m' hm'
      refine ⟨more, ?_⟩
      obtain hstate | hstate := hstate <;> rw [hstate] <;> exact hmore

theorem cuts (hp : p.Honest) (hflush : s.machine.output.flushRefusal? = none) (fuel : Nat)
    (source : String) : s.Cuts p fuel source := by
  cases h : checkSource source s.nextId with
  | mk answer next =>
    cases answer with
    | error problems => exact cuts_of_refused h fuel
    | ok checked => exact cuts_of_accepted hp hflush h fuel

/-- What was accepted stands at the start of what is written if nothing is refused. -/
theorem Cuts.writesOn {fuel : Nat} {source : String} {s' t : Session}
    {reply reply' : Except (List Problem) Unit} (h : s.Cuts p fuel source)
    (hs' : s.runWith p fuel source = some (reply, s'))
    (ht : s.opened.run fuel source = some (reply', t)) : WritesOn s'.machine t.machine := by
  cases h with
  | same accepted events ends =>
    rw [hs', ht] at ends
    cases ends
    exact .refl _
  | @cut _ _ _ m _ part last accepted refuses ends events written =>
    rw [hs'] at ends
    cases ends
    obtain ⟨more, hmore⟩ := written reply' t ht
    obtain ⟨rest, -, hrest⟩ := refuses.lacks
    refine ⟨rest ++ more, hmore.trans ?_⟩
    simp only [Machine.adding, Machine.reset, hrest, String.append_assoc]

/-- The program leaves the session in the global scope, with no call in progress. -/
theorem runWith_atRest (hp : p.Honest) (hs : s.machine.AtRest) {fuel : Nat} {source : String}
    {s' : Session} {reply : Except (List Problem) Unit}
    (hs' : s.runWith p fuel source = some (reply, s')) : s'.machine.AtRest := by
  cases h : checkSource source s.nextId with
  | mk answer next =>
    cases answer with
    | error problems =>
      rw [runWith, h] at hs'
      cases hs'
      exact hs
    | ok checked =>
      rw [runWith_of_accepted p h] at hs'
      have hextended : (s.machine.extend checked.distances).AtRest := ⟨hs.frame, hs.depth⟩
      obtain ⟨m', hm', hstate⟩ := Plan.state?_finish (perform_eq_some hs').1
      have hm'rest := (Plan.keeps hp _ _ _ hm').atRest hextended
      obtain hstate | hstate := hstate <;> rw [hstate]
      · exact hm'rest
      · exact ⟨rfl, rfl⟩

end Session

/-- **A refusal cuts the run.** Between two steps of any session whose output can be flushed, a
program is run with an output that may begin to refuse at any piece of any line. It runs as with an
output that takes everything, or it fails with the refusal at the first print whose line is not
accepted as a whole. Nothing happens then after this print, the text that was accepted stands at the
start of what the output would have taken, and the session keeps the store as it was at this print.
Either way the session is in the global scope with no call in progress. `Run.printLine`, which asks
`refusal?` before each piece, is one way to print to such an output. -/
theorem refusal_cuts_run {maxDepth : Nat} {output : Output} {host : Host} {fuel : Nat}
    {steps : List Step} {replies : List (Option Reply)} {s : Session}
    (hs : (Session.initial maxDepth output host).follow fuel steps = some (replies, s))
    (hflush : output.flushRefusal? = none) :
    (Printer.Honest Run.printLine ∧
      ∀ fuel source, s.runWith Run.printLine fuel source = s.run fuel source) ∧
    ∀ p : Printer, p.Honest → ∀ fuel source, s.Cuts p fuel source ∧
      ∀ reply s', s.runWith p fuel source = some (reply, s') → s'.machine.AtRest ∧
        ∀ reply' t, s.opened.run fuel source = some (reply', t) →
          WritesOn s'.machine t.machine := by
  have hinitial : (Session.initial maxDepth output host).machine.AtRest := ⟨rfl, rfl⟩
  have hrest := Session.follow_atRest hinitial hs
  have hflushed : s.machine.output.flushRefusal? = none :=
    (Session.follow_sink hs).flushRefusal?.trans hflush
  refine ⟨⟨printLine_honest, fun fuel source => s.runWith_printLine fuel source⟩, ?_⟩
  intro p hp fuel source
  have hcuts := Session.cuts hp hflushed fuel source
  exact ⟨hcuts, fun reply s' hs' =>
    ⟨Session.runWith_atRest hp hrest hs', fun reply' t ht => hcuts.writesOn hs' ht⟩⟩

/-- An output that takes no more pieces when it has this many characters. -/
def Output.upTo (length : Nat) : Output where
  written := ""
  refusal? text := if text.length < length then none else some "full"
  flushRefusal? := none

/-- An initializer that prints before and after it changes a variable. -/
def printingSource : String :=
  "var a = nil; class A \x7b init() \x7b print \"ab\"; a = this; print a; a = nil; \x7d \x7d\n" ++
    "A(); print a;"

set_option maxRecDepth 1000 in
/-- The output takes the text of the second line, but not its newline. -/
theorem printingSource_cut :
    ∃ s' t, (Session.initial 8 (.upTo 4) .nominal).run 60 printingSource
          = some (.error [.runtime (.output "full")], s') ∧
        (Session.initial 8 (.upTo 4) .nominal).opened.run 60 printingSource = some (.ok (), t) ∧
      s'.machine.output.written = "ab\nA instance" ∧ s'.global "a" = .ok (.object 0) ∧
      s'.machine.AtRest ∧ WritesOn s'.machine t.machine ∧
      (Session.initial 8 (.upTo 4) .nominal).Cuts Run.printLine 60 printingSource := by
  have hrun : ((Session.initial 8 (.upTo 4) .nominal).run 60 printingSource).map
      (fun r => (r.1, r.2.machine.output.written, r.2.global "a"))
        = some (.error [.runtime (.output "full")], "ab\nA instance", .ok (.object 0)) := by cbv
  have hopened : ((Session.initial 8 (.upTo 4) .nominal).opened.run 60 printingSource).map (·.1)
      = some (.ok ()) := by cbv
  obtain ⟨⟨_, s'⟩, hs', heq⟩ := Option.map_eq_some_iff.mp hrun
  obtain ⟨⟨_, t⟩, ht, rfl⟩ := Option.map_eq_some_iff.mp hopened
  simp only [Prod.mk.injEq] at heq
  obtain ⟨rfl, hwritten, hglobal⟩ := heq
  obtain ⟨⟨hhonest, hprints⟩, hcuts⟩ := @refusal_cuts_run 8 (.upTo 4) .nominal 60 [] [] _ rfl rfl
  obtain ⟨hcut, hends⟩ := hcuts Run.printLine hhonest 60 printingSource
  obtain ⟨hrest, hwrites⟩ := hends _ s' ((hprints 60 printingSource).trans hs')
  exact ⟨s', t, hs', ht, hwritten, hglobal, hrest, hwrites _ t ht, hcut⟩

end LoxLang
