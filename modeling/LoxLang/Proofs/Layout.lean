import Mathlib
import LoxLang.Proofs.Munching
import LoxLang.Proofs.Parsing.SliceTurns

/-!
# The layout of a source

The tokens of a source are found again in any text that joins their lexemes by blank space, and the
parser asks for no more of a source than its tokens. What stands between them moves lines only.

* `TokenStream.words`: the tokens of a stream without their lines;
* `Joined`: texts in a row with blank space between them;
* `tokens_are_lexemes`: every token of a source is read from a lexeme of its kind;
* `items_behind_blank`, `items_of_lexeme`: the items behind blank space, and behind a lexeme;
* `scan_rejoined`: the tokens of joined lexemes, by induction on how they are joined;
* `parse_of_words`, `expression_of_words`: what is parsed from tokens alike;
* `layout_moves_lines_only`: for every source that is accepted.
-/

namespace LoxLang

open Scanning Parsing.Indexed

/-! ## Words with blank space between them -/

/-- The kind and the lexeme of each token. The kind of a literal has its value. -/
def TokenStream.words (stream : TokenStream) : List (TokenKind × String) :=
  stream.tokens.map fun t => (t.kind, t.lexeme)

/-- The texts in their order, with blank space between each and the next. -/
inductive Joined : List String → List Char → Prop
  | none : Joined [] []
  | last (text : String) : Joined [text] text.toList
  | more {text next : String} {others : List String} {gap rest : List Char} (hne : gap ≠ [])
    (hgap : ∀ c ∈ gap, c ∈ [' ', '\t', '\r', '\n']) (h : Joined (next :: others) rest) :
    Joined (text :: next :: others) (text.toList ++ (gap ++ rest))

/-- The lexeme of a token of a source is one of its kind. -/
theorem tokens_are_lexemes {source : String} {stream : TokenStream}
    (h : (scan source).tokens? = .ok stream) :
    ∀ t ∈ stream.tokens, Lexeme t.kind t.lexeme.toList := by
  intro t ht
  have hitem : Item.token t ∈ (pieces 1 source.toList).filterMap (·.item?) := by
    have hitems : (scan source).items = _ := (Scan.tokens?_eq_ok.mp h).1
    change _ ∈ (scan source).items
    rw [hitems]
    exact List.mem_map_of_mem ht
  rw [← locate_items 0] at hitem
  obtain ⟨⟨item, first, last⟩, hlocated, rfl⟩ := List.mem_map.mp hitem
  obtain ⟨before, c, rest, -, -, -, hpiece⟩ := mem_locate_pieces 0 1 hlocated
  cases firstPiece_readFrom hpiece with
  | token hlongest hlexeme =>
    rw [hlexeme, String.toList_ofList]
    exact hlongest.lexeme

/-! ## Scanning the lexemes again -/

section
variable {kind : TokenKind} {text behind : List Char}

theorem items_behind_blank {gap : List Char} (hgap : ∀ c ∈ gap, isBlank c = true) (line : Nat)
    (text : List Char) :
    (pieces line (gap ++ text)).filterMap (·.item?)
      = (pieces (line + gap.count '\n') text).filterMap (·.item?) := by
  induction gap generalizing line with
  | nil => rfl
  | cons c gap ih =>
    obtain ⟨hc, hrest⟩ := List.forall_mem_cons.mp hgap
    have hcut : cut c (gap ++ text) = ⟨.blank, [c], gap ++ text⟩ := by
      unfold cut
      rw [if_pos hc]
    rw [List.cons_append, pieces, hcut]
    refine (ih hrest (line + [c].count '\n')).trans ?_
    rw [Nat.add_assoc, ← List.count_append, List.singleton_append]

theorem items_of_lexeme (h : Lexeme kind text) (hbehind : Apart behind) (line : Nat) :
    (pieces line (text ++ behind)).filterMap (·.item?)
      = .token ⟨kind, String.ofList text, line + text.count '\n'⟩
          :: (pieces (line + text.count '\n') behind).filterMap (·.item?) := by
  obtain ⟨c, rest, rfl⟩ := List.exists_cons_of_ne_nil h.ne_nil
  rw [List.cons_append, pieces, h.cut hbehind]
  rfl

theorem apart_of_blank {gap : List Char} (hne : gap ≠ []) (hgap : ∀ c ∈ gap, isBlank c = true)
    (behind : List Char) : Apart (gap ++ behind) := by
  obtain ⟨c, gap, rfl⟩ := List.exists_cons_of_ne_nil hne
  rintro b ⟨⟩
  exact hgap c List.mem_cons_self

/-- Lexemes with blank space between them are read back one by one. -/
theorem items_of_joined {tokens : List Token} (line : Nat)
    (htokens : ∀ t ∈ tokens, Lexeme t.kind t.lexeme.toList)
    (h : Joined (tokens.map (·.lexeme)) text) :
    ∃ tokens' : List Token, (pieces line text).filterMap (·.item?) = tokens'.map .token ∧
      tokens'.map (fun t => (t.kind, t.lexeme)) = tokens.map fun t => (t.kind, t.lexeme) := by
  generalize htexts : tokens.map (·.lexeme) = texts at h
  induction h generalizing tokens line with
  | none =>
    rw [List.map_eq_nil_iff.mp htexts, pieces]
    exact ⟨[], rfl, rfl⟩
  | last lexeme =>
    obtain ⟨t, rest, rfl, rfl, hrest⟩ := List.map_eq_cons_iff.mp htexts
    rw [List.map_eq_nil_iff.mp hrest]
    have hitems := items_of_lexeme (htokens t List.mem_cons_self) Apart.nil line
    rw [List.append_nil, String.ofList_toList, pieces] at hitems
    exact ⟨[_], hitems, rfl⟩
  | more hne hgap _ ih =>
    obtain ⟨t, rest, rfl, rfl, hrest⟩ := List.map_eq_cons_iff.mp htexts
    obtain ⟨ht, htokens⟩ := List.forall_mem_cons.mp htokens
    have hblank := fun c hc => isBlank_iff_mem.mpr (hgap c hc)
    rw [items_of_lexeme ht (apart_of_blank hne hblank _), items_behind_blank hblank,
      String.ofList_toList]
    obtain ⟨tokens', hitems, hwords⟩ := ih _ htokens hrest
    exact ⟨_ :: tokens', congrArg (List.cons _) hitems, congrArg (List.cons _) hwords⟩

end

/-- **The lexemes of a source are scanned to its tokens again**, with other lines. -/
theorem scan_rejoined {source text : String} {stream : TokenStream}
    (h : (scan source).tokens? = .ok stream)
    (hjoined : Joined (stream.tokens.map (·.lexeme)) text.toList) :
    ∃ stream', (scan text).tokens? = .ok stream' ∧ stream'.words = stream.words := by
  obtain ⟨tokens, hitems, hwords⟩ := items_of_joined 1 (tokens_are_lexemes h) hjoined
  exact ⟨⟨tokens, (scan text).endLine⟩, Scan.tokens?_eq_ok.mpr ⟨hitems, rfl⟩, hwords⟩

/-! ## Parsing without lines -/

section
variable {stream stream' : TokenStream}

/-- Streams of the same words are the same slice, where all lines are one. -/
theorem sliceOf_words (h : stream'.words = stream.words) :
    sliceOf "" (fun _ => 0) stream' = sliceOf "" (fun _ => 0) stream := by
  have hslice (stream : TokenStream) : sliceOf "" (fun _ => 0) stream =
      ⟨stream.words.map (fun w => .token ⟨w.1, w.2, 0⟩) ++ [.ending "" 0], "", 0, fun _ => 0⟩ := by
    unfold TokenStream.words
    rw [List.map_map]
    rfl
  rw [hslice, hslice, h]

theorem length_of_words (h : stream'.words = stream.words) :
    stream'.tokens.length = stream.tokens.length := by
  simpa [TokenStream.words] using congrArg List.length h

/-- Streams of the same words are the same program, or have the same errors, up to lines. -/
theorem parse_of_words (h : stream'.words = stream.words) (nextId : NodeId) :
    moveResult (fun _ => 0) (Program.parse stream' nextId).1
        = moveResult (fun _ => 0) (Program.parse stream nextId).1 ∧
      (Program.parse stream' nextId).2 = (Program.parse stream nextId).2 := by
  obtain ⟨ts, s, hparse, hresult, hnext⟩ := parse_moved "" (fun _ => 0) stream nextId
  obtain ⟨ts', s', hparse', hresult', hnext'⟩ := parse_moved "" (fun _ => 0) stream' nextId
  rw [sliceOf_words h, hparse] at hparse'
  cases hparse'
  rw [hresult, hresult', hnext, hnext', length_of_words h]
  exact ⟨rfl, rfl⟩

theorem expression_of_words (h : stream'.words = stream.words) (nextId : NodeId) :
    moveExpression (fun _ => 0) (Expr.parse stream' nextId).1
        = moveExpression (fun _ => 0) (Expr.parse stream nextId).1 ∧
      (Expr.parse stream' nextId).2 = (Expr.parse stream nextId).2 := by
  have hmoved := wholeExpression_moved "" (fun _ => 0) stream nextId
  have hmoved' := wholeExpression_moved "" (fun _ => 0) stream' nextId
  unfold Parsing.fuelFor at hmoved hmoved'
  rw [sliceOf_words h, length_of_words h] at hmoved'
  exact Prod.ext_iff.mp (hmoved'.trans hmoved.symm)

end

/-- **Layout moves lines only.** If a source is accepted, so is every text in which the lexemes of
its tokens are joined by blank space: with the same kinds, lexemes and values. And any source with
these is parsed alike, as a program and as one expression, up to the lines in what is parsed and in
the errors. -/
theorem layout_moves_lines_only {source : String} {stream : TokenStream}
    (h : (scan source).tokens? = .ok stream) :
    (∀ text : String, Joined (stream.tokens.map (·.lexeme)) text.toList →
      ∃ stream', (scan text).tokens? = .ok stream' ∧ stream'.words = stream.words) ∧
    ∀ source' stream', (scan source').tokens? = .ok stream' → stream'.words = stream.words →
      ∀ nextId,
        (moveResult (fun _ => 0) (Program.parse stream' nextId).1
            = moveResult (fun _ => 0) (Program.parse stream nextId).1 ∧
          (Program.parse stream' nextId).2 = (Program.parse stream nextId).2) ∧
        moveExpression (fun _ => 0) (Expr.parse stream' nextId).1
            = moveExpression (fun _ => 0) (Expr.parse stream nextId).1 ∧
          (Expr.parse stream' nextId).2 = (Expr.parse stream nextId).2 := by
  refine ⟨fun text hjoined => scan_rejoined h hjoined, fun source' stream' _ hwords nextId => ?_⟩
  exact ⟨parse_of_words hwords nextId, expression_of_words hwords nextId⟩

/-- A statement with a comment behind it, and its tokens on two lines. -/
theorem print_on_two_lines :
    let print : Token := ⟨.keyword .printWord, "print", 1⟩
    let stream : TokenStream := ⟨[print, ⟨.identifier, "x", 1⟩, ⟨.symbol .semicolon, ";", 1⟩], 1⟩
    let moved : TokenStream := ⟨[print, ⟨.identifier, "x", 2⟩, ⟨.symbol .semicolon, ";", 2⟩], 2⟩
    (scan "print x;// x").tokens? = .ok stream ∧ (scan "print\n\tx ;").tokens? = .ok moved ∧
    Joined ["print", "x", ";"] "print\n\tx ;".toList ∧ moved.words = stream.words ∧
    (∃ stream', (scan "print\n\tx ;").tokens? = .ok stream' ∧ stream'.words = stream.words) ∧
    moveResult (fun _ => 0) (Program.parse moved 0).1
      = moveResult (fun _ => 0) (Program.parse stream 0).1 := by
  intro print stream moved
  have hscan : (scan "print x;// x").tokens? = .ok stream := by cbv
  have hmoved : (scan "print\n\tx ;").tokens? = .ok moved := by cbv
  have htail : Joined ["x", ";"] "x ;".toList :=
    @Joined.more "x" ";" [] [' '] _ (by simp) (by simp) (.last ";")
  have hjoined : Joined ["print", "x", ";"] "print\n\tx ;".toList :=
    @Joined.more "print" "x" [";"] ['\n', '\t'] _ (by simp) (by simp) htail
  obtain ⟨hrejoined, hparsed⟩ := layout_moves_lines_only hscan
  exact ⟨hscan, hmoved, hjoined, rfl, hrejoined _ hjoined, (hparsed _ _ hmoved rfl 0).1.1⟩

end LoxLang
