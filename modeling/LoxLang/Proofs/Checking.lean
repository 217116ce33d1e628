import LoxLang.Session

/-!
# What a source is read as

A source is scanned, then parsed and then resolved, each stage only when the one before it has
found nothing wrong.

* `parseSource_eq_ok`, `parseSource_eq_error`: the program in a source, or what is wrong with it;
* `checkSource_eq_ok`, `checkSource_of_parse`, `checkSource_eq_error`: the same with the distances of
  the program;
* `parseExpressionSource_eq_ok`: the one expression in a source.
-/

namespace LoxLang

section
variable {source : String} {nextId next : NodeId} {problems : List Problem}

theorem parseSource_eq_ok {p : Program} :
    parseSource source nextId = (.ok p, next) ↔
      ∃ stream, (scan source).tokens? = .ok stream ∧
        Program.parse stream nextId = (.ok p, next) := by
  constructor
  · intro h
    unfold parseSource at h
    split at h
    · cases h
    · rename_i stream hstream
      split at h
      · cases h
      · rename_i hparse
        cases h
        exact ⟨stream, hstream, hparse⟩
  · rintro ⟨stream, hstream, hparse⟩
    simp only [parseSource, hstream, hparse]

/-- The parser is not asked when the scanner has faults to report. -/
theorem parseSource_eq_error (h : parseSource source nextId = (.error problems, next)) :
    (∃ faults, (scan source).tokens? = .error faults ∧ problems = faults.map .lexical) ∨
      ∃ stream errors, (scan source).tokens? = .ok stream ∧
        Program.parse stream nextId = (.error errors, next) ∧ problems = errors.map .grammar := by
  unfold parseSource at h
  split at h
  · rename_i faults hfaults
    cases h
    exact .inl ⟨faults, hfaults, rfl⟩
  · rename_i stream hstream
    split at h
    · rename_i errors _ hparse
      cases h
      exact .inr ⟨stream, errors, hstream, hparse, rfl⟩
    · cases h

theorem checkSource_eq_ok {checked : Checked} (h : checkSource source nextId = (.ok checked, next)) :
    parseSource source nextId = (.ok checked.program, next) ∧
      Program.resolve checked.program = .ok checked.distances := by
  unfold checkSource at h
  split at h
  · cases h
  · rename_i p next' hparse
    split at h
    · cases h
    · rename_i d hresolve
      cases h
      exact ⟨hparse, hresolve⟩

theorem checkSource_of_parse {p : Program} {d : Distances}
    (h : parseSource source nextId = (.ok p, next)) (hd : p.resolve = .ok d) :
    checkSource source nextId = (.ok ⟨p, d⟩, next) := by
  simp only [checkSource, h, hd]

/-- The resolver reports one fault, and only for what is a program. -/
theorem checkSource_eq_error (h : checkSource source nextId = (.error problems, next)) :
    parseSource source nextId = (.error problems, next) ∨
      ∃ p e, parseSource source nextId = (.ok p, next) ∧ p.resolve = .error e ∧
        problems = [.scope e] := by
  unfold checkSource at h
  split at h
  · rename_i hparse
    cases h
    exact .inl hparse
  · rename_i p next' hparse
    split at h
    · rename_i e hresolve
      cases h
      exact .inr ⟨p, e, hparse, hresolve, rfl⟩
    · cases h

theorem parseExpressionSource_eq_ok {e : Expr}
    (h : parseExpressionSource source nextId = (.ok e, next)) :
    ∃ stream, (scan source).tokens? = .ok stream ∧ Expr.parse stream nextId = (.ok e, next) := by
  unfold parseExpressionSource at h
  split at h
  · cases h
  · rename_i stream hstream
    split at h
    · cases h
    · rename_i hparse
      cases h
      exact ⟨stream, hstream, hparse⟩

end

end LoxLang
