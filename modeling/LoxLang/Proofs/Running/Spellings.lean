import Mathlib
import LoxLang.Proofs.Running.Sessions
import LoxLang.Proofs.Scoping.Written

/-!
# Other spellings run alike

* `RepliesAlike`: two replies of a session that cannot be told apart, but for a name in a failure;
* `respelled_runs_alike`: a program whose local variables are spelled anew has the same distances
  and the same replies.
-/

namespace LoxLang

open Scoping

variable {ρ : Renaming}

/-- Two replies with the same result, but for a name in a failure. Behind both the same was printed
and the clock was read as often. -/
inductive RepliesAlike (ρ : Renaming) : Option (Except (List Problem) Unit × Session) →
    Option (Except (List Problem) Unit × Session) → Prop
  | ok {s s' : Session} :
      s'.machine.output = s.machine.output → s'.machine.readings = s.machine.readings →
      RepliesAlike ρ (some (.ok (), s)) (some (.ok (), s'))
  | error {e e' : RuntimeError} {s s' : Session} :
      ErrorLinked ρ e e' →
      s'.machine.output = s.machine.output → s'.machine.readings = s.machine.readings →
      RepliesAlike ρ (some (.error [.runtime e], s)) (some (.error [.runtime e'], s'))
  | outOfFuel : RepliesAlike ρ none none

/-- Two runs that settle give replies that are alike. -/
theorem Settles.replies {next : NodeId} {placed : Site → Expr → Prop} {x : Tracing Unit}
    {y y' : Run Unit} {t : Traced} {m : Machine} {s s' : Session} {R : World → Unit → Unit → Prop}
    (h : Settles ρ next placed R (x t) (y' m)) (hxy : Erases x y) (hs : t.machine = s.machine)
    (hs' : m = s'.machine) : RepliesAlike ρ (s.perform y) (s'.perform y') := by
  have herase := hxy t
  rw [hs] at herase
  unfold Session.perform
  rw [← herase, ← hs']
  generalize x t = out at h
  generalize y' m = out' at h
  cases h with
  | ok hbetween => exact .ok hbetween.linked.output hbetween.linked.readings
  | error hbetween _ _ herror => exact .error herror hbetween.linked.output hbetween.linked.readings
  | outOfFuel => exact .outOfFuel

section
variable {maxDepth : Nat} {output : Output} {host : Host} {s : Session} {source : String}
  {p : Program} {d : Distances} {next : NodeId}

/-- A program that a session accepts is linked with its spellings, and these run alike. -/
theorem Session.Reachable.spellings (h : Session.Reachable maxDepth output host s)
    (hcheck : checkSource source s.nextId = (.ok ⟨p, d⟩, next)) {p' : Program}
    (hp : StmtsRespelled ρ d.of? [] p p') :
    (∃ K, StmtsLinked ρ K .top [] p p') ∧
      ∀ fuel, ∀ s' : Session, s'.machine = s.machine →
        RepliesAlike ρ (s.run fuel source) (s'.perform (Running.runProgram fuel p' d)) := by
  obtain ⟨t, ht, rfl⟩ := h.traced
  obtain ⟨labels, hw⟩ := (ht.sound (ρ := ρ)).facing (.run source)
  let placed : Site → Expr → Prop := fun _ _ => True
  have hnext : t.nextId ≤ next := by
    have hadvances := checkSource_advances source t.nextId
    rwa [show checkSource source t.nextId = _ from hcheck] at hadvances
  have hplaced : ∀ place ∈ p.placed, placed place.1 place.2 := fun _ _ => trivial
  obtain ⟨hfar, hlinked⟩ := checkSource_linked hw hcheck hplaced hp
  refine ⟨⟨_, hlinked⟩, fun fuel s' hs' => ?_⟩
  have hruns := runProgram_runs fuel hw rfl hnext hfar (fun _ _ _ => trivial) hlinked
  have hrun : t.session.run fuel source
      = { t.session with nextId := next }.perform (Running.runProgram fuel p d) := by
    simp only [Session.run, hcheck]
  rw [hrun]
  exact hruns.replies (Tracing.runProgram_erases fuel p d) rfl hs'.symm

/-- **The names of local variables do not matter.** In a program that a session accepts, let some
variables and parameters of one name be spelled anew, each with exactly the references that its
scope is found for, and let the new name not occur in the program. The program is accepted again,
with the same distances. From the same session it prints the same, reads the clock as often and
ends with the same result, but for that name in a failure. -/
theorem respelled_runs_alike (h : Session.Reachable maxDepth output host s)
    (hcheck : checkSource source s.nextId = (.ok ⟨p, d⟩, next)) (ρ : Renaming)
    (hnew : ρ.new ∉ p.variables) (hthis : ρ.new ≠ "this") (chosen : List Nat → Bool) :
    Program.resolve (p.respell ρ d.of? chosen) = .ok d ∧
      (∀ fuel, RepliesAlike ρ (s.run fuel source)
        (s.perform (Running.runProgram fuel (p.respell ρ d.of? chosen) d))) ∧
      ∀ source' next', parseSource source' s.nextId = (.ok (p.respell ρ d.of? chosen), next') →
        checkSource source' s.nextId = (.ok ⟨p.respell ρ d.of? chosen, d⟩, next') ∧
          ∀ fuel, RepliesAlike ρ (s.run fuel source) (s.run fuel source') := by
  obtain ⟨-, hresolve⟩ := checkSource_eq_ok hcheck
  obtain ⟨⟨K, hlinked⟩, halike⟩ := h.spellings hcheck (Program.respell_respelled hnew)
  have hagain : Program.resolve (p.respell ρ d.of? chosen) = .ok d :=
    resolve_written hlinked hthis hnew hresolve
  refine ⟨hagain, fun fuel => halike fuel s rfl, fun source' next' hparse => ?_⟩
  have hcheck' : checkSource source' s.nextId = (.ok ⟨p.respell ρ d.of? chosen, d⟩, next') := by
    simp only [checkSource, hparse, hagain]
  refine ⟨hcheck', fun fuel => ?_⟩
  have hrun : s.run fuel source' = { s with nextId := next' }.perform
      (Running.runProgram fuel (p.respell ρ d.of? chosen) d) := by
    simp only [Session.run, hcheck']
  rw [hrun]
  exact halike fuel _ rfl

/-- The variable of an inner block is spelled anew, and the reference behind it. The reference
before it means the variable of the outer block. -/
theorem inner_variable_respelled :
    RepliesAlike ⟨"a", "b"⟩
      ((Session.initial 8 .unlimited .nominal).run 60
        "\x7b var a = nil; \x7b print a; var a = true; print a; \x7d \x7d")
      ((Session.initial 8 .unlimited .nominal).run 60
        "\x7b var a = nil; \x7b print a; var b = true; print b; \x7d \x7d") := by
  let p : Program := [.block [.varDecl ⟨"a", 1⟩ (.literal .nil),
    .block [.print (.variable 0 ⟨"a", 1⟩), .varDecl ⟨"a", 1⟩ (.literal (.bool true)),
      .print (.variable 1 ⟨"a", 1⟩)]]]
  let d : Distances := [(1, 0), (0, 1)]
  have hcheck : checkSource "\x7b var a = nil; \x7b print a; var a = true; print a; \x7d \x7d" 0
      = (.ok ⟨p, d⟩, 2) := by cbv
  have hnew : "b" ∉ p.variables := by decide
  have hinitial : Session.Reachable 8 .unlimited .nominal (.initial 8 .unlimited .nominal) :=
    .initial
  obtain ⟨-, -, hsource⟩ :=
    respelled_runs_alike hinitial hcheck ⟨"a", "b"⟩ hnew (by decide) (· == [1, 0])
  have hparse : parseSource "\x7b var a = nil; \x7b print a; var b = true; print b; \x7d \x7d" 0
      = (.ok (p.respell ⟨"a", "b"⟩ d.of? (· == [1, 0])), 2) := by cbv
  exact (hsource _ 2 hparse).2 60

end

end LoxLang
