import LoxLang.Proofs.Parsing.Progress
import LoxLang.Proofs.Parsing.SliceRules

/-!
# Turns over a slice

A slice is read in turns, each of which takes at least one entry, and never outside its bounds.

* `seekBoundary_eq`, `synchronize_eq`: what is skipped behind an objection;
* `turn_of_ok`, `turn_of_error`: one turn;
* `Turn.Sound`, `Follows`: what holds of every turn, and of all turns against the tokens;
* `Completes`: the slice is read to its mark, by one lemma for each way a turn can end;
* `parse_follows`: for a whole slice, by induction on the turns;
* `parse_moved`, `wholeExpression_moved`: the tokens of a source, on any lines, are read as a slice
  of them is; `parse_agrees` is about the lines that they stand on;
* `slices_are_parsed_in_bounds`: for every slice that ends in its only mark.
-/

namespace LoxLang

namespace Parsing

namespace Indexed

variable {S : Slice} {c c' : Cursor} {s : SliceParser}

/-! ## Statement boundaries -/

theorem Points.length_eq (h : Points S c s) :
    s.current + c.rest.length + 1 = S.entries.length := by
  have hlength := congrArg List.length h.rest
  rw [List.length_drop, Slice.holding, List.length_append, List.length_map,
    List.length_singleton] at hlength
  omega

/-- One step to a statement boundary, where a token is looked at. -/
theorem seekBoundary_step {fuel : Nat} {t : Token} {rest : List Token} {e : Entry}
    (h : Points S c s) (hrest : c.rest = t :: rest) (he : previous s = .ok e s) :
    seekBoundary (fuel + 1) s =
      if e.passes (·.isSymbol .semicolon) || opensStatement t then .ok () s
      else seekBoundary fuel { s with current := s.current + 1 } := by
  have hend := h.isAtEnd_eq
  have hpeek := h.peek_eq
  have hadvance := h.advance_eq hrest
  rw [hrest] at hend hpeek
  rw [seekBoundary.eq_2, Action.bind_of_ok hend, List.isEmpty_cons, if_neg Bool.false_ne_true,
    Action.bind_of_ok he]
  cases e.passes (·.isSymbol .semicolon) with
  | true => rfl
  | false =>
    rw [if_neg Bool.false_ne_true, Action.bind_of_ok hpeek]
    change (if opensStatement t = true then pure () else (_ : Reads Unit)) s = _
    cases opensStatement t with
    | true => rfl
    | false => exact Action.bind_of_ok hadvance

theorem seekBoundary_eq {fuel : Nat} (h : Points S c s) (hfuel : c.rest.length < fuel) {e : Entry}
    (he : previous s = .ok e s) :
    ∃ s', Points S { c with
        rest := dropToBoundary (e.passes (·.isSymbol .semicolon)) c.rest } s' ∧
      seekBoundary fuel s = .ok () s' := by
  induction fuel generalizing c s e with
  | zero => cases hfuel
  | succ fuel ih =>
    cases hrest : c.rest with
    | nil =>
      have hend := h.isAtEnd_eq
      rw [hrest] at hend
      refine ⟨s, ?_, Action.bind_of_ok hend⟩
      have hsame : Cursor.mk [] c.nextId = c := by rw [← hrest]
      exact hsame ▸ h
    | cons t rest =>
      rw [seekBoundary_step h hrest he]
      unfold dropToBoundary
      split
      · refine ⟨s, ?_, rfl⟩
        have hsame : Cursor.mk (t :: rest) c.nextId = c := by rw [← hrest]
        exact hsame ▸ h
      · rw [hrest] at hfuel
        have hpast := h.past hrest
        exact ih hpast.toPoints (Nat.lt_of_succ_lt_succ hfuel) hpast.previous_eq

/-- What is skipped behind an objection. -/
theorem synchronize_eq {fuel : Nat} (h : Points S c s) (hfuel : c.rest.length < fuel) :
    ∃ s', Points S { c with rest := Parsing.synchronize c.rest } s' ∧
      synchronize fuel s = .ok () s' := by
  obtain ⟨tokens, nextId⟩ := c
  cases tokens with
  | nil =>
    obtain ⟨e, hadvance⟩ := h.advance_end rfl
    cases fuel with
    | zero => cases hfuel
    | succ fuel =>
      refine ⟨s, h, (Action.bind_of_ok hadvance).trans ?_⟩
      exact Action.bind_of_ok h.isAtEnd_eq
  | cons t rest =>
    have hpast := h.past rfl
    obtain ⟨s', hs', hseek⟩ :=
      seekBoundary_eq hpast.toPoints (Nat.lt_of_succ_lt hfuel) hpast.previous_eq
    exact ⟨s', hs', (Action.bind_of_ok (h.advance_eq rfl)).trans hseek⟩

/-! ## One turn -/

theorem turn_of_ok {fuel : Nat} {stmt : Stmt} (h : Points S c s)
    (hdeclaration : Parsing.declaration fuel c = .ok stmt c') :
    ∃ s', Points S c' s' ∧
      turn fuel s = .ok ⟨s.current, s'.current, s'.current, .ok (stmt.relabel S.lines)⟩ s' := by
  have hagree := (statements_mirror fuel).1 c s h
  rw [hdeclaration] at hagree
  unfold turn
  generalize declaration fuel s = o at hagree
  cases hagree with
  | ok hvalue hs' =>
    rw [hvalue]
    exact ⟨_, hs', rfl⟩

theorem turn_of_error {fuel : Nat} {q : Refusal} (h : Points S c s) (hfuel : c'.rest.length < fuel)
    (hdeclaration : Parsing.declaration fuel c = .error q c') :
    ∃ o s' s'', Reported S q s'.current o ∧ Points S c' s' ∧
      Points S { c' with rest := Parsing.synchronize c'.rest } s'' ∧
      turn fuel s = .ok ⟨s.current, s'.current, s''.current, .error o⟩ s'' := by
  have hagree := (statements_mirror fuel).1 c s h
  rw [hdeclaration] at hagree
  unfold turn
  generalize declaration fuel s = o at hagree
  cases hagree with
  | @error _ o _ s' hreport hs' =>
    obtain ⟨s'', hs'', hsynchronize⟩ := synchronize_eq hs' hfuel
    exact ⟨o, s', s'', hreport, hs', hs'', Action.bind_of_ok hsynchronize⟩

/-! ## All turns -/

/-- The objection has the lexeme and the line of an entry of the slice: of the equals sign behind a
target that cannot be assigned to, or else of the entry that was looked at last. -/
structure Objection.StandsAt (entries : List Entry) (stopped : Nat) (o : Objection) : Prop where
  entry : ∃ e, entries[o.index]? = some e ∧ o.lexeme = e.lexeme ∧ o.line = e.line ∧
    (o.fault = .assignmentTarget → e.passes (·.isSymbol .equal) = true)
  looked : o.fault ≠ .assignmentTarget → o.index = stopped

/-- A turn takes at least one entry, and what it objects to is one of those it looked at. -/
structure Turn.Sound (entries : List Entry) (t : Turn) : Prop where
  moves : t.first < t.next
  reached : t.stopped ≤ t.next
  objection : ∀ o, t.outcome = .error o →
    t.first ≤ o.index ∧ o.index ≤ t.stopped ∧ o.StandsAt entries t.stopped

/-- Each turn starts where the one before ended. -/
def Consecutive (first : Nat) : List Turn → Nat → Prop
  | [], last => first = last
  | t :: ts, last => t.first = first ∧ Consecutive t.next ts last

/-- The turns over a slice, against what its tokens read as. -/
structure Follows (S : Slice) (r : Reading) (first : Nat) (ts : List Turn) : Prop where
  statements : statements ts = Stmt.allRelabel S.lines r.statements
  refused : List.Forall₂ (Refers S) r.refusals (objections ts)
  consecutive : Consecutive first ts (S.entries.length - 1)
  sound : ∀ t ∈ ts, t.Sound S.entries

theorem Refers.length_eq {q : Refusal} {o : Objection} (h : Refers S q o) :
    o.index + q.place.length + 1 = S.entries.length := by
  have hlength := congrArg List.length h.place
  rw [List.length_drop, Slice.holding, List.length_append, List.length_map,
    List.length_singleton] at hlength
  omega

theorem Reported.standsAt {q : Refusal} {stopped : Nat} {o : Objection}
    (h : Reported S q stopped o) : o.StandsAt S.entries stopped :=
  ⟨⟨_, Slice.getElem?_of_drop h.place, h.lexeme, h.line, h.equals⟩, h.looked⟩

/-- A turn without an objection, and those behind it. -/
theorem Follows.cons_ok {r : Reading} {first next : Nat} {ts : List Turn} {stmt : Stmt}
    (h : Follows S r next ts) (hmoves : first < next) :
    Follows S { r with statements := stmt :: r.statements } first
      (⟨first, next, next, .ok (stmt.relabel S.lines)⟩ :: ts) where
  statements := congrArg (stmt.relabel S.lines :: ·) h.statements
  refused := h.refused
  consecutive := ⟨rfl, h.consecutive⟩
  sound := List.forall_mem_cons.mpr ⟨⟨hmoves, Nat.le_refl _, nofun⟩, h.sound⟩

/-- A turn with an objection, and those behind what is skipped. -/
theorem Follows.cons_error {r : Reading} {first stopped next : Nat} {ts : List Turn} {q : Refusal}
    {o : Objection} (h : Follows S r next ts) (hreport : Reported S q stopped o)
    (hmoves : first < next) (hreached : stopped ≤ next) (hfirst : first ≤ o.index)
    (hindex : o.index ≤ stopped) :
    Follows S { r with refusals := q :: r.refusals } first
      (⟨first, stopped, next, .error o⟩ :: ts) where
  statements := h.statements
  refused := .cons hreport.toRefers h.refused
  consecutive := ⟨rfl, h.consecutive⟩
  sound := by
    refine List.forall_mem_cons.mpr ⟨⟨hmoves, hreached, ?_⟩, h.sound⟩
    rintro o' ⟨⟩
    exact ⟨hfirst, hindex, hreport.standsAt⟩

theorem turns_succ {fuel count : Nat} {t : Token} {rest : List Token} {s' s'' : SliceParser}
    {first : Turn} {others : List Turn} (h : Points S c s) (hrest : c.rest = t :: rest)
    (hturn : turn fuel s = .ok first s') (hothers : turns fuel count s' = .ok others s'') :
    turns fuel (count + 1) s = .ok (first :: others) s'' := by
  have hend := h.isAtEnd_eq
  rw [hrest] at hend
  rw [turns.eq_2, Action.bind_of_ok hend, List.isEmpty_cons, if_neg Bool.false_ne_true,
    Action.bind_of_ok hturn, Action.bind_of_ok hothers]
  rfl

/-- From here on the slice is read to its mark, in turns that follow what its tokens read as. -/
def Completes (S : Slice) (fuel count : Nat) (r : Reading) (s : SliceParser) : Prop :=
  ∃ ts s', turns fuel count s = .ok ts s' ∧ Points S ⟨[], r.nextId⟩ s' ∧ Follows S r s.current ts

theorem completes_at_end {fuel count : Nat} (h : Points S c s) (hrest : c.rest = []) :
    Completes S fuel (count + 1) ⟨[], [], c.nextId⟩ s := by
  have hend := h.isAtEnd_eq
  have hlength := h.length_eq
  rw [hrest] at hend hlength
  have hsame : Cursor.mk [] c.nextId = c := by rw [← hrest]
  refine ⟨[], s, Action.bind_of_ok hend, hsame ▸ h, rfl, .nil, ?_, nofun⟩
  exact Nat.eq_sub_of_add_eq hlength

/-- A declaration, and the turns behind it. -/
theorem completes_of_ok {fuel count : Nat} {r : Reading} {t : Token} {rest : List Token}
    {stmt : Stmt} (h : Points S c s) (hrest : c.rest = t :: rest) (hfuel : c.rest.length < fuel)
    (hdeclaration : Parsing.declaration fuel c = .ok stmt c')
    (hothers : ∀ s', Points S c' s' → Completes S fuel count r s') :
    Completes S fuel (count + 1) { r with statements := stmt :: r.statements } s := by
  have hsettles := (statements_proceed fuel).1 c hfuel
  rw [hdeclaration] at hsettles
  obtain ⟨-, hlength⟩ := hsettles
  obtain ⟨s', hs', hturn⟩ := turn_of_ok h hdeclaration
  obtain ⟨ts, s'', hturns, hs'', hfollows⟩ := hothers s' hs'
  have hstart := h.length_eq
  have hnext := hs'.length_eq
  exact ⟨_, s'', turns_succ h hrest hturn hturns, hs'', hfollows.cons_ok (by omega)⟩

/-- An objection, and the turns behind what is skipped. -/
theorem completes_of_error {fuel count : Nat} {r : Reading} {t : Token} {rest : List Token}
    {q : Refusal} (h : Points S c s) (hrest : c.rest = t :: rest) (hfuel : c.rest.length < fuel)
    (hdeclaration : Parsing.declaration fuel c = .error q c')
    (hothers : ∀ s', Points S { c' with rest := Parsing.synchronize c'.rest } s' →
      Completes S fuel count r s') :
    Completes S fuel (count + 1) { r with refusals := q :: r.refusals } s := by
  have hsettles := (statements_proceed fuel).1 c hfuel
  rw [hdeclaration] at hsettles
  obtain ⟨hbehind, hplace⟩ := hsettles
  have hstopped := hbehind.length_le
  have hobjected := hplace.length_le
  have hskipped := (synchronize_suffix c'.rest).length_le
  rw [List.length_tail] at hskipped
  obtain ⟨o, s', s'', hreport, hs', hs'', hturn⟩ := turn_of_error h (by omega) hdeclaration
  obtain ⟨ts, s₃, hturns, hs₃, hfollows⟩ := hothers s'' hs''
  have hstart := h.length_eq
  have hindex := hreport.length_eq
  have hat := hs'.length_eq
  have hnext := hs''.length_eq
  dsimp only at hnext
  rw [hrest, List.length_cons] at hstart hobjected
  refine ⟨_, s₃, turns_succ h hrest hturn hturns, hs₃, ?_⟩
  exact hfollows.cons_error hreport (by omega) (by omega) (by omega) (by omega)

/-- The turns over a slice give the statements of its tokens and object to what is refused there. -/
theorem turns_follow {fuel count : Nat} {r : Reading} (h : Points S c s)
    (hfuel : c.rest.length < fuel) (hread : readAll fuel count c = some r) :
    Completes S fuel count r s := by
  induction count generalizing c s r with
  | zero => cases hread
  | succ count ih =>
    have hsettles := (statements_proceed fuel).1 c hfuel
    unfold readAll at hread
    cases hrest : c.rest with
    | nil =>
      rw [hrest] at hread
      cases hread
      exact completes_at_end h hrest
    | cons t rest =>
      rw [hrest, List.isEmpty_cons, if_neg Bool.false_ne_true] at hread
      cases hdeclaration : Parsing.declaration fuel c with
      | ok stmt c' =>
        rw [hdeclaration] at hread hsettles
        obtain ⟨r', hr', heq⟩ := Option.bind_eq_some_iff.mp hread
        cases heq
        have hshorter : c'.rest.length < fuel := by
          have hlength := hsettles.2
          omega
        exact completes_of_ok h hrest hfuel hdeclaration fun s' hs' => ih hs' hshorter hr'
      | error q c' =>
        rw [hdeclaration] at hread hsettles
        obtain ⟨r', hr', heq⟩ := Option.bind_eq_some_iff.mp hread
        cases heq
        have hshorter : (Parsing.synchronize c'.rest).length < fuel := by
          have hbehind := hsettles.1.length_le
          have hplace := hsettles.2.length_le
          have hskipped := (synchronize_suffix c'.rest).length_le
          rw [List.length_tail] at hskipped
          omega
        exact completes_of_error h hrest hfuel hdeclaration fun s' hs' => ih hs' hshorter hr'
      | outOfFuel =>
        rw [hdeclaration] at hread
        cases hread

/-! ## Whole slices -/

theorem parse_follows {tokens : List Token} (hentries : S.entries = S.holding tokens)
    (nextId : NodeId) :
    ∃ r ts s, readAll (fuelFor tokens) (fuelFor tokens) ⟨tokens, nextId⟩ = some r ∧
      RefusedInOrder tokens r.refusals ∧ parse S.entries nextId = .ok ts s ∧
      Points S ⟨[], r.nextId⟩ s ∧ Follows S r 0 ts := by
  have hfuel : tokens.length < fuelFor tokens := Nat.lt_succ_self _
  have hlength : S.entries.length = fuelFor tokens := by
    rw [hentries, Slice.holding, List.length_append, List.length_map]
    rfl
  obtain ⟨r, hread, hordered⟩ := readAll_proceeds (c := ⟨tokens, nextId⟩) hfuel hfuel
  have hstart : Points S ⟨tokens, nextId⟩ ⟨S.entries, 0, nextId⟩ := ⟨rfl, hentries, rfl⟩
  obtain ⟨ts, s, hturns, hs, hfollows⟩ := turns_follow hstart hfuel hread
  rw [← hlength] at hturns
  exact ⟨r, ts, s, hread, hordered, hturns, hs, hfollows⟩

/-- What is refused further down is objected to further down. -/
theorem Follows.ordered {r : Reading} {first : Nat} {ts : List Turn} (h : Follows S r first ts)
    (hordered : r.refusals.Pairwise fun q q' => q'.place.length < q.place.length) :
    (objections ts).Pairwise (·.index < ·.index) := by
  have hplaces : r.refusals.map (·.place.length)
      = (objections ts).map (S.entries.length - 1 - ·.index) := by
    refine List.forall₂_eq_eq_eq ▸ ?_
    rw [List.forall₂_map_left_iff, List.forall₂_map_right_iff]
    refine h.refused.imp fun q o hrefers => ?_
    have hlength := hrefers.length_eq
    omega
  have hdown : (r.refusals.map (·.place.length)).Pairwise (· > ·) := List.pairwise_map.mpr hordered
  rw [hplaces] at hdown
  refine (List.pairwise_map.mp hdown).imp fun hlt => ?_
  omega

/-- Whatever is objected to is an entry of the slice. -/
theorem Follows.refers {r : Reading} {first : Nat} {ts : List Turn} (h : Follows S r first ts) :
    ∀ o ∈ objections ts, ∃ q, Refers S q o := by
  obtain ⟨-, hrefused, -, -⟩ := h
  generalize r.refusals = refusals, objections ts = os at hrefused
  induction hrefused with
  | nil => exact fun o ho => nomatch ho
  | cons hrefers _ ih => exact List.forall_mem_cons.mpr ⟨⟨_, hrefers⟩, ih⟩

/-- The slice of a token stream on other lines, with this lexeme of its mark. -/
def sliceOf (lexeme : String) (line : Nat → Nat) (source : TokenStream) : Slice where
  entries := source.tokens.map (fun t => .token (t.moved line))
    ++ [.ending lexeme (line source.endLine)]
  endLexeme := lexeme
  endLine := line source.endLine
  line := line

/-- An error of another line. -/
def moveError (line : Nat → Nat) (e : SyntaxError) : SyntaxError := { e with line := line e.line }

/-- The error that an objection stands for where a source has so many tokens. -/
def Objection.error (size : Nat) (o : Objection) : SyntaxError :=
  ⟨o.fault, if o.index = size then none else some o.lexeme, o.line⟩

section
variable {lexeme : String} {line : Nat → Nat} {source : TokenStream}

theorem Refers.error_eq {q : Refusal} {o : Objection} (h : Refers (sliceOf lexeme line source) q o) :
    moveError line (q.error source.endLine) = o.error source.tokens.length := by
  have hlength := h.length_eq
  have hsize : (sliceOf lexeme line source).entries.length = source.tokens.length + 1 := by
    simp [sliceOf]
  rw [hsize] at hlength
  obtain ⟨hfault, -, hlexeme, hline⟩ := h
  unfold Refusal.error Objection.error moveError
  cases hplace : q.place with
  | nil =>
    rw [hplace] at hlength hline
    have hindex : o.index = source.tokens.length := Nat.succ.inj hlength
    rw [if_pos hindex, hfault, hline]
    rfl
  | cons t rest =>
    rw [hplace] at hlength hlexeme hline
    rw [List.length_cons] at hlength
    have hindex : o.index ≠ source.tokens.length := by omega
    rw [if_neg hindex, hfault, hlexeme, hline]
    rfl

/-- What is read from a token stream, with other lines in it. -/
def moveResult (line : Nat → Nat) (result : Except (List SyntaxError) Program) :
    Except (List SyntaxError) Program :=
  (result.map (Program.relabel (.ofLines line))).mapError (List.map (moveError line))

/-- A program with other lines is what its slice on these lines is parsed as. -/
theorem parse_moved (lexeme : String) (line : Nat → Nat) (source : TokenStream)
    (nextId : NodeId) :
    ∃ ts s, parse (sliceOf lexeme line source).entries nextId = .ok ts s ∧
      moveResult line (Program.parse source nextId).1
        = (result ts).mapError (List.map (Objection.error source.tokens.length)) ∧
      (Program.parse source nextId).2 = s.nextId := by
  have hentries : (sliceOf lexeme line source).entries
      = (sliceOf lexeme line source).holding source.tokens := rfl
  obtain ⟨r, ts, s, hread, -, hparse, hs, hfollows⟩ := parse_follows hentries nextId
  refine ⟨ts, s, hparse, ?_⟩
  have hstatements := hfollows.statements
  have herrors : r.refusals.map (fun q => moveError line (q.error source.endLine))
      = (objections ts).map (Objection.error source.tokens.length) := by
    refine List.forall₂_eq_eq_eq ▸ ?_
    rw [List.forall₂_map_left_iff, List.forall₂_map_right_iff]
    exact hfollows.refused.imp fun _ _ hrefers => hrefers.error_eq
  have hnext : r.nextId = s.nextId := hs.nextId.symm
  obtain ⟨statements, refusals, next⟩ := r
  unfold Program.parse result
  dsimp only
  rw [hread]
  cases refusals with
  | nil =>
    have hnone : objections ts = [] := List.map_eq_nil_iff.mp herrors.symm
    rw [hnone, hstatements]
    exact ⟨rfl, hnext⟩
  | cons q refusals =>
    cases hobjections : objections ts with
    | nil =>
      rw [hobjections] at herrors
      cases herrors
    | cons o others =>
      rw [hobjections] at herrors
      refine ⟨congrArg Except.error ?_, hnext⟩
      rw [List.map_map]
      exact herrors

/-- **A program is what its slice is parsed as**, and its syntax errors are the objections. -/
theorem parse_agrees (lexeme : String) (source : TokenStream) (nextId : NodeId) :
    ∃ ts s, parse (source.tokens.map .token ++ [.ending lexeme source.endLine]) nextId = .ok ts s ∧
      Program.parse source nextId
        = ((result ts).mapError (List.map (Objection.error source.tokens.length)), s.nextId) := by
  obtain ⟨ts, s, hparse, hresult, hnext⟩ := parse_moved lexeme (fun line => line) source nextId
  refine ⟨ts, s, hparse, Prod.ext (.trans ?_ hresult) hnext⟩
  cases (Program.parse source nextId).1 with
  | ok program => exact congrArg Except.ok (Stmt.allRelabel_self fun _ _ => rfl).symm
  | error errors => exact congrArg Except.error (List.map_id errors).symm

/-- An expression that is read over a slice, or what is objected to where a source has so many
tokens and ends on this line, with the next free node identity. -/
def expressionResult (size endLine : Nat) (nextId : NodeId) :
    Outcome Halt SliceParser Expr → Except SyntaxError Expr × NodeId
  | .ok e s => (.ok e, s.nextId)
  | .error (.objection o) s => (.error (o.error size), s.nextId)
  | .error .outOfRange _ | .outOfFuel => (.error ⟨.expression, none, endLine⟩, nextId)

/-- What is read as one expression, with other lines in it. -/
def moveExpression (line : Nat → Nat) (result : Except SyntaxError Expr) :
    Except SyntaxError Expr :=
  (result.map (Expr.relabel (.ofLines line))).mapError (moveError line)

/-- An expression with other lines is what its slice on these lines is read as. -/
theorem wholeExpression_moved (lexeme : String) (line : Nat → Nat) (source : TokenStream)
    (nextId : NodeId) :
    (moveExpression line (Expr.parse source nextId).1, (Expr.parse source nextId).2)
      = expressionResult source.tokens.length (line source.endLine) nextId
          (wholeExpression (fuelFor source.tokens)
            ⟨(sliceOf lexeme line source).entries, 0, nextId⟩) := by
  have hstart : Points (sliceOf lexeme line source) ⟨source.tokens, nextId⟩
      ⟨(sliceOf lexeme line source).entries, 0, nextId⟩ := ⟨rfl, rfl, rfl⟩
  have hagree := wholeExpression_mirrors (fuelFor source.tokens) _ _ hstart
  unfold Expr.parse
  generalize Parsing.wholeExpression _ _ = o, wholeExpression _ _ = o' at hagree
  cases hagree with
  | ok hvalue hpoints =>
    rw [hvalue]
    exact Prod.ext rfl hpoints.nextId.symm
  | error hreport hpoints =>
    exact Prod.ext (congrArg Except.error hreport.error_eq) hpoints.nextId.symm
  | outOfFuel => rfl

/-- An objection says that it is at the end where its entry has an empty lexeme. -/
theorem Objection.lexeme_of_place {o : Objection} (h : o.place = " at end") : o.lexeme = "" := by
  unfold place at h
  split at h
  · rename_i hempty
    exact String.isEmpty_iff.mp hempty
  · have hquoted : (" at '" ++ o.lexeme ++ "'").toList.take 5 = " at '".toList := by simp
    rw [h] at hquoted
    exact absurd hquoted (by decide)

/-- What is said to be at the end is the mark, or a token with an empty lexeme. -/
theorem Refers.at_end {q : Refusal} {o : Objection} (h : Refers S q o)
    (hplace : o.place = " at end") :
    o.index + 1 = S.entries.length ∨
      ∃ t, S.entries[o.index]? = some (.token t) ∧ t.lexeme = "" := by
  have hlength := h.length_eq
  have hentry := Slice.getElem?_of_drop h.place
  have hlexeme := Objection.lexeme_of_place hplace
  rw [h.lexeme] at hlexeme
  cases hq : q.place with
  | nil =>
    rw [hq] at hlength
    exact .inl hlength
  | cons t rest =>
    rw [hq] at hlexeme hentry
    exact .inr ⟨_, hentry, hlexeme⟩

/-- Nothing is objected to behind an objection to the mark. -/
theorem Follows.last {r : Reading} {first : Nat} {ts : List Turn} (h : Follows S r first ts)
    (hordered : (objections ts).Pairwise (·.index < ·.index)) {before behind : List Objection}
    {o : Objection} (hobjections : objections ts = before ++ o :: behind)
    (hmark : o.index + 1 = S.entries.length) : behind = [] := by
  refine List.eq_nil_iff_forall_not_mem.mpr fun o' ho' => ?_
  obtain ⟨q, hrefers⟩ := h.refers o' (by simp [hobjections, ho'])
  have hlength := hrefers.length_eq
  rw [hobjections] at hordered
  have hlt := (List.pairwise_cons.mp (List.pairwise_append.mp hordered).2.1).1 o' ho'
  omega

/-- **Every slice that ends in its only mark is parsed to its end, in bounds and forwards.** No
entry outside it is asked for, and it is read as its tokens are. The turns follow each other from the first entry to the mark, and
each takes at least one. The objections are to entries further and further down, each to the equals
sign behind a target or to the entry that was looked at last. The one that is to the mark is the
last of them; another one says that it is at the end only if its token has an empty lexeme. -/
theorem slices_are_parsed_in_bounds (tokens : List Token) (lexeme : String) (line : Nat)
    (nextId : NodeId) :
    let entries := tokens.map .token ++ [.ending lexeme line]
    ∃ ts s, parse entries nextId = .ok ts s ∧ s.current = tokens.length ∧
      Program.parse ⟨tokens, line⟩ nextId
        = ((result ts).mapError (List.map (Objection.error tokens.length)), s.nextId) ∧
      Consecutive 0 ts tokens.length ∧ (∀ t ∈ ts, t.Sound entries) ∧
      (objections ts).Pairwise (·.index < ·.index) ∧
      ∀ before o behind, objections ts = before ++ o :: behind →
        (o.index = tokens.length → behind = []) ∧
        (o.place = " at end" →
          behind = [] ∨ ∃ t, entries[o.index]? = some (.token t) ∧ t.lexeme = "") := by
  intro entries
  let S : Slice := ⟨entries, lexeme, line, fun line => line⟩
  have hentries : S.entries = S.holding tokens := rfl
  obtain ⟨r, ts, s, -, hordered, hparse, hs, hfollows⟩ := parse_follows hentries nextId
  obtain ⟨ts', s', hparse', hagrees⟩ := parse_agrees lexeme ⟨tokens, line⟩ nextId
  cases hparse.symm.trans hparse'
  have hsize : S.entries.length = tokens.length + 1 := by simp [S, entries]
  have hcurrent : s.current + 1 = S.entries.length := hs.length_eq
  have hconsecutive := hfollows.consecutive
  have hpairwise := hfollows.ordered hordered.behind
  rw [hsize, Nat.add_sub_cancel] at hconsecutive
  refine ⟨ts, s, hparse, by omega, hagrees, hconsecutive, hfollows.sound, hpairwise, ?_⟩
  intro before o behind hobjections
  have hlast := hfollows.last hpairwise hobjections
  obtain ⟨q, hrefers⟩ := hfollows.refers o (by simp [hobjections])
  refine ⟨fun hindex => hlast (by omega), fun hplace => ?_⟩
  exact (hrefers.at_end hplace).imp_left hlast

end

end Indexed

end Parsing

end LoxLang
