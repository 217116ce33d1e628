import LoxLang.Proofs.Parsing.Completeness
import LoxLang.Proofs.Parsing.Lines
import LoxLang.Proofs.Running.Sessions
import LoxLang.Proofs.Scoping.Relabeled

/-!
# Sources one after the other

* `Accepted`: a source that is a program with distances; the identities its nodes get do not matter;
* `checkSource_joined`: two accepted sources with a newline between them are accepted, as one
  program behind the other.
-/

namespace LoxLang

/-- The source is scanned, parsed and resolved without a fault. -/
def Accepted (source : String) : Prop :=
  ∃ nextId checked next, checkSource source nextId = (.ok checked, next)

theorem Accepted.of_isOk {source : String} (h : (checkSource source 0).1.isOk = true) :
    Accepted source := by
  cases hcheck : checkSource source 0 with
  | mk answer next =>
    rw [hcheck] at h
    cases answer with
    | ok checked => exact ⟨0, checked, next, hcheck⟩
    | error problems => cases h

/-- Whether a program has a fault in its scopes does not depend on its identities. -/
theorem resolve_of_withoutIds {p p' : Program} {d : Distances}
    (h : p.withoutIds = p'.withoutIds) (hd : Program.resolve p = .ok d) :
    ∃ d', Program.resolve p' = .ok d' := by
  have hzero := resolve_relabel .zero p
  have hzero' := resolve_relabel .zero p'
  rw [Program.withoutIds_eq, Program.withoutIds_eq] at h
  rw [h, hzero', hd] at hzero
  cases hp' : Program.resolve p' with
  | ok d' => exact ⟨d', rfl⟩
  | error e =>
    rw [hp'] at hzero
    cases hzero

theorem Accepted.check {source : String} (h : Accepted source) (nextId : NodeId) :
    ∃ checked next, checkSource source nextId = (.ok checked, next) := by
  obtain ⟨nextId₀, checked, next₀, hcheck⟩ := h
  obtain ⟨hparse, hresolve⟩ := checkSource_eq_ok hcheck
  obtain ⟨stream, hstream, hparse⟩ := parseSource_eq_ok.mp hparse
  obtain ⟨hsource, -⟩ := source_of_parse hparse
  obtain ⟨p, next, hagain, hsame⟩ := parse_of_source hsource nextId
  obtain ⟨d, hd⟩ := resolve_of_withoutIds hsame.symm hresolve
  exact ⟨⟨p, d⟩, next, checkSource_of_parse (parseSource_eq_ok.mpr ⟨stream, hstream, hagain⟩) hd⟩

section
variable {first second : String} {n n₁ n₂ : NodeId} {c₁ c₂ : Checked}

/-- The program of two sources in a row is the one behind the other, up to its identities. -/
theorem parseSource_joined {p₁ p₂ : Program} (h₁ : parseSource first n = (.ok p₁, n₁))
    (h₂ : parseSource second n₁ = (.ok p₂, n₂)) :
    ∃ p next, parseSource (first ++ "\n" ++ second) n = (.ok p, next) ∧
      p.withoutIds = Program.withoutIds
        (p₁ ++ p₂.relabel (.ofLines (· + (scan first).endLine))) := by
  obtain ⟨stream₁, hstream₁, hparse₁⟩ := parseSource_eq_ok.mp h₁
  obtain ⟨stream₂, hstream₂, hparse₂⟩ := parseSource_eq_ok.mp h₂
  obtain ⟨hsource₁, -⟩ := source_of_parse hparse₁
  obtain ⟨hsource₂, -⟩ := source_of_parse hparse₂
  have hline : (scan first).endLine = stream₁.endLine := (Scan.tokens?_eq_ok.mp hstream₁).2
  have hscan := scan_joined hstream₁ hstream₂
  have hsource := hsource₁.append (hsource₂.moved (· + stream₁.endLine))
  obtain ⟨p, next, hparse, hsame⟩ := @parse_of_source
    ⟨stream₁.tokens ++ stream₂.tokens.map (Token.moved (· + stream₁.endLine)),
      stream₂.endLine + stream₁.endLine⟩ _ hsource n
  refine ⟨p, next, parseSource_eq_ok.mpr ⟨_, hscan, hparse⟩, ?_⟩
  rw [hsame, hline]
  simp only [Program.withoutIds_eq, Stmt.allRelabel_append, Stmt.allRelabel_allRelabel]
  rfl

/-- **Two accepted sources in a row are accepted**, as the one program behind the other: its lines
are moved, the identities are changed one to one, and the distances are those of both. -/
theorem checkSource_joined (h₁ : checkSource first n = (.ok c₁, n₁))
    (h₂ : checkSource second n₁ = (.ok c₂, n₂)) :
    ∃ c next f, checkSource (first ++ "\n" ++ second) n = (.ok c, next) ∧
      Function.Injective f ∧ (∀ id, id < n → f id = id) ∧
      c.program = Program.relabel (.ofIds f)
        (c₁.program ++ c₂.program.relabel (.ofLines (· + (scan first).endLine))) ∧
      c.distances = Distances.relabel (.ofIds f) (c₂.distances ++ c₁.distances) := by
  obtain ⟨hparse₁, hresolve₁⟩ := checkSource_eq_ok h₁
  obtain ⟨hparse₂, hresolve₂⟩ := checkSource_eq_ok h₂
  obtain ⟨hregular, hfresh₁⟩ := parseSource_regular hparse₁
  obtain ⟨-, hfresh₂⟩ := parseSource_regular hparse₂
  obtain ⟨p, next, hparse, hsame⟩ := parseSource_joined hparse₁ hparse₂
  obtain ⟨-, hfresh⟩ := parseSource_regular hparse
  let whole := c₁.program ++ c₂.program.relabel (.ofLines (· + (scan first).endLine))
  have hwhole : Fresh n n₂ (Stmt.allIds whole) := by
    have hids : Stmt.allIds whole = Stmt.allIds c₁.program ++ Stmt.allIds c₂.program := by
      rw [Stmt.allIds_append, Stmt.allIds_allRelabel]
      exact congrArg _ (List.map_id _)
    rw [hids]
    exact hfresh₁.append hfresh₂
  obtain ⟨f, hinjective, hbelow, hmap⟩ := exists_renaming (Program.ids_length hsame.symm)
    hwhole.nodup hfresh.nodup (fun id hid => (hwhole.within id hid).1)
    (fun id hid => (hfresh.within id hid).1)
  have hp : Program.relabel (.ofIds f) whole = p := Stmt.allRelabel_eq hsame.symm hmap
  -- Neither the lines nor the identities change whether there is a fault.
  have hmoved : Program.resolve (c₂.program.relabel (.ofLines (· + (scan first).endLine)))
      = .ok c₂.distances := by
    rw [resolve_relabel, hresolve₂]
    exact congrArg Except.ok (List.map_id _)
  have hresolve : Program.resolve p
      = .ok (Distances.relabel (.ofIds f) (c₂.distances ++ c₁.distances)) := by
    rw [← hp, resolve_relabel, resolve_append hregular hresolve₁ hmoved]
    rfl
  exact ⟨⟨p, _⟩, next, f, checkSource_of_parse hparse hresolve, hinjective, hbelow, hp.symm, rfl⟩

end

end LoxLang
