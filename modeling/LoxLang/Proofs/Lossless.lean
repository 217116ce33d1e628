import LoxLang.Proofs.Bytewise

/-!
# Nothing of a source is lost

The items that the scanner yields stand in the source one behind the other, and what stands between
them is blank space and comments.

* `Skipped`: blank space and comments, before some further text;
* `Item.Spells`: the text of an item;
* `Tiles`: items with the bytes that they were read from, between which all text is skipped;
* `nextWithin_cases`: one call goes on to the next item, or to the end, by induction on the pieces
  that it goes through; `calls_eq` is about a number of calls in a row;
* `mem_locate_pieces`, `mem_found`: the piece that an item is read from, and what a call yields;
* `scanning_is_lossless`: for every source.
-/

namespace LoxLang

open Scanning ByteScanner Utf8

/-! ## A source covered by items -/

/-- A text of blank space and comments. A comment goes on to a newline or to the end of the source,
where `behind` is what follows the text there. -/
inductive Skipped (behind : List Char) : List Char → Prop
  | nil : Skipped behind []
  | blank {c : Char} {text : List Char} (hc : c ∈ [' ', '\t', '\r', '\n'])
      (h : Skipped behind text) : Skipped behind (c :: text)
  | comment {body text : List Char} (hbody : '\n' ∉ body)
      (hend : ∀ c ∈ (text ++ behind).head?, c = '\n') (h : Skipped behind text) :
      Skipped behind ('/' :: '/' :: (body ++ text))

theorem isBlank_iff_mem {c : Char} : isBlank c = true ↔ c ∈ [' ', '\t', '\r', '\n'] := by
  simp [isBlank, or_assoc, or_comm, or_left_comm]

/-- The text that an item is read from: the lexeme of a token, a character that none starts with, or
a quote and all that follows it without another one. -/
def Item.Spells : Item → List Char → Prop
  | .token t, text => t.lexeme = String.ofList text
  | .fault ⟨.unexpectedCharacter c, _⟩, text => text = [c]
  | .fault ⟨.unterminatedString, _⟩, text => ∃ body, text = '"' :: body ∧ '"' ∉ body

/-- An item with the index of its first byte and that of the byte behind its last. -/
abbrev Located : Type := Item × Nat × Nat

/-- The text from the byte `offset` on is made up of the items in their order, none of which is
empty, and of text that is skipped before, between and behind them. An index is that of a byte with
which a character starts, as a whole number of characters stands before it. -/
inductive Tiles : Nat → List Char → List Located → Prop
  | finish {offset : Nat} {text : List Char} (h : Skipped [] text) : Tiles offset text []
  | item {offset first last : Nat} {gap text rest : List Char} {item : Item}
      {others : List Located} (hgap : Skipped (text ++ rest) gap) (htext : text ≠ [])
      (hspells : item.Spells text) (hfirst : first = offset + (encode gap).length)
      (hlast : last = first + (encode text).length) (h : Tiles last rest others) :
      Tiles offset (gap ++ text ++ rest) ((item, first, last) :: others)

theorem Skipped.append {behind text gap : List Char} (htext : Skipped (gap ++ behind) text)
    (hgap : Skipped behind gap) : Skipped behind (text ++ gap) := by
  induction htext with
  | nil => exact hgap
  | blank hc _ ih => exact .blank hc ih
  | comment hbody hend _ ih =>
    rw [List.cons_append, List.cons_append, List.append_assoc]
    exact .comment hbody (by rwa [List.append_assoc]) ih

/-- What is skipped before a covered text. -/
theorem Tiles.skip {offset : Nat} {gap text : List Char} {found : List Located}
    (hgap : Skipped text gap) (h : Tiles (offset + (encode gap).length) text found) :
    Tiles offset (gap ++ text) found := by
  cases h with
  | finish h =>
    exact .finish (Skipped.append (by rwa [List.append_nil]) h)
  | @item _ _ _ gap' text rest _ _ hgap' htext hspells hfirst hlast h =>
    rw [← List.append_assoc, ← List.append_assoc]
    refine .item (Skipped.append (by rwa [← List.append_assoc]) hgap') htext hspells ?_ hlast h
    rw [hfirst, encode_append, List.length_append, Nat.add_assoc]

/-! ## The items of the pieces -/

/-- The items of pieces in a row, from the byte `offset` on. -/
def locate (offset : Nat) : List Piece → List Located
  | [] => []
  | p :: rest =>
    let last := offset + (encode p.text).length
    match p.item? with
    | none => locate last rest
    | some item => (item, offset, last) :: locate last rest

section
variable {offset : Nat} {p : Piece} {rest : List Piece}

theorem locate_none (h : p.item? = none) :
    locate offset (p :: rest) = locate (offset + (encode p.text).length) rest := by
  rw [locate, h]

theorem locate_some {item : Item} (h : p.item? = some item) :
    locate offset (p :: rest)
      = (item, offset, offset + (encode p.text).length)
          :: locate (offset + (encode p.text).length) rest := by
  rw [locate, h]

end

theorem locate_items (offset : Nat) (ps : List Piece) :
    (locate offset ps).map (·.1) = ps.filterMap (·.item?) := by
  induction ps generalizing offset with
  | nil => rfl
  | cons p rest ih =>
    cases hitem : p.item? with
    | none => rw [locate_none hitem, ih, List.filterMap_cons_none hitem]
    | some item => rw [locate_some hitem, List.map_cons, ih, List.filterMap_cons_some hitem]

/-- The shapes of a piece. -/
inductive Shaped : Cut → Prop
  | blank {c : Char} {rest : List Char} (hc : isBlank c = true) : Shaped ⟨.blank, [c], rest⟩
  | comment {body rest : List Char} (hbody : '\n' ∉ body) (hend : ∀ c ∈ rest.head?, c = '\n') :
      Shaped ⟨.blank, '/' :: '/' :: body, rest⟩
  | token {kind : TokenKind} {text rest : List Char} : Shaped ⟨.token kind, text, rest⟩
  | unexpected {c : Char} {rest : List Char} : Shaped ⟨.fault (.unexpectedCharacter c), [c], rest⟩
  | unterminated {body : List Char} (hbody : '"' ∉ body) :
      Shaped ⟨.fault .unterminatedString, '"' :: body, []⟩

theorem not_mem_takeWhile_ne (a : Char) (text : List Char) : a ∉ text.takeWhile (· != a) := by
  intro hmem
  simpa using List.all_eq_true.mp List.all_takeWhile a hmem

theorem head_dropWhile_ne (a : Char) (text : List Char) :
    ∀ c ∈ (text.dropWhile (· != a)).head?, c = a := by
  intro c hc
  obtain ⟨rest, hdrop⟩ := List.head?_eq_some_iff.mp (Option.mem_def.mp hc)
  have hfirst := List.head_dropWhile_not (· != a) (l := text) (by simp [hdrop])
  simpa [hdrop] using hfirst

theorem cutString_shaped (body : List Char) : Shaped (cutString body) := by
  unfold cutString
  dsimp only
  split
  · exact .unterminated (not_mem_takeWhile_ne '"' body)
  · exact .token

theorem cutNumber_shaped (text : List Char) : Shaped (cutNumber text) := by
  unfold cutNumber
  dsimp only
  split
  · split
    · exact .token
    · exact .token
  · exact .token

theorem cutSymbol_shaped (c : Char) (rest : List Char) : Shaped (cutSymbol c rest) := by
  unfold cutSymbol
  split
  · exact .token
  · split
    · exact .token
    · exact .unexpected

theorem cut_shaped (c : Char) (rest : List Char) : Shaped (cut c rest) := by
  unfold cut
  split
  · exact .blank ‹_›
  · split
    · rename_i hslashes
      rw [Bool.and_eq_true, beq_iff_eq, beq_iff_eq] at hslashes
      obtain ⟨rfl, hnext⟩ := hslashes
      obtain ⟨rest, rfl⟩ := List.head?_eq_some_iff.mp hnext
      exact .comment (not_mem_takeWhile_ne '\n' rest) (head_dropWhile_ne '\n' rest)
    · split
      · exact cutString_shaped rest
      · split
        · exact cutNumber_shaped _
        · split
          · exact .token
          · exact cutSymbol_shaped c rest

namespace Shaped

variable {k : Cut}

/-- Blank space that was cut off is skipped. -/
theorem skipped (h : Shaped k) (hblank : k.matter = .blank) : Skipped k.rest k.text := by
  cases h with
  | blank hc => exact .blank (isBlank_iff_mem.mp hc) .nil
  | @comment body rest hbody hend =>
    have h : Skipped rest ('/' :: '/' :: (body ++ [])) := .comment hbody hend .nil
    rwa [List.append_nil] at h
  | token | unexpected | unterminated => cases hblank

/-- An item that was cut off spells the text it was cut from. -/
theorem spells (h : Shaped k) {line : Nat} {item : Item}
    (hitem : (Piece.mk k.matter k.text line).item? = some item) : item.Spells k.text := by
  cases h with
  | blank | comment => cases hitem
  | token =>
    cases hitem
    exact rfl
  | unexpected =>
    cases hitem
    exact rfl
  | unterminated hbody =>
    cases hitem
    exact ⟨_, rfl, hbody⟩

end Shaped

/-- The first piece of a text, with the line on which it ends. -/
def firstPiece (line : Nat) (c : Char) (rest : List Char) : Piece :=
  ⟨(cut c rest).matter, (cut c rest).text, line + (cut c rest).text.count '\n'⟩

theorem pieces_cons (line : Nat) (c : Char) (rest : List Char) :
    pieces line (c :: rest)
      = firstPiece line c rest :: pieces (firstPiece line c rest).line (cut c rest).rest := by
  rw [pieces]
  rfl

/-- The pieces of a text cover it. -/
theorem pieces_tile (offset line : Nat) (text : List Char) :
    Tiles offset text (locate offset (pieces line text)) := by
  induction line, text using pieces.induct generalizing offset with
  | case1 line =>
    rw [pieces]
    exact .finish .nil
  | case2 line c rest first line' ih =>
    have hshaped : Shaped (cut c rest) := cut_shaped c rest
    rw [pieces_cons, ← cut_append c rest]
    cases hitem : (firstPiece line c rest).item? with
    | none =>
      have hblank : (cut c rest).matter = .blank := by
        unfold Piece.item? firstPiece at hitem
        split at hitem
        · assumption
        · cases hitem
        · cases hitem
      rw [locate_none hitem]
      exact .skip (hshaped.skipped hblank) (ih _)
    | some item =>
      rw [locate_some hitem]
      exact @Tiles.item offset offset _ [] (cut c rest).text (cut c rest).rest item _ .nil
        (cut_text_ne_nil c rest) (hshaped.spells hitem) rfl rfl (ih _)

/-- An item of a text, and the piece at its place. -/
theorem mem_locate_pieces (offset line : Nat) {text : List Char} {item : Item} {first last : Nat}
    (h : (item, first, last) ∈ locate offset (pieces line text)) :
    ∃ before c rest, text = before ++ c :: rest ∧
      first = offset + (encode before).length ∧
      last = first + (encode (cut c rest).text).length ∧
      (firstPiece (line + before.count '\n') c rest).item? = some item := by
  induction line, text using pieces.induct generalizing offset with
  | case1 line =>
    rw [pieces] at h
    cases h
  | case2 line c rest piece line' ih =>
    have hlater {offset' : Nat} (hoffset : offset' = offset + (encode (cut c rest).text).length)
        (h : (item, first, last)
          ∈ locate offset' (pieces (firstPiece line c rest).line (cut c rest).rest)) :
        ∃ before d rest', c :: rest = before ++ d :: rest' ∧
          first = offset + (encode before).length ∧
          last = first + (encode (cut d rest').text).length ∧
          (firstPiece (line + before.count '\n') d rest').item? = some item := by
      obtain ⟨before, d, rest', htext, hfirst, hlast, hitem⟩ := ih _ h
      refine ⟨(cut c rest).text ++ before, d, rest', ?_, ?_, hlast, ?_⟩
      · rw [List.append_assoc, ← htext, cut_append]
      · rw [hfirst, hoffset, encode_append, List.length_append, Nat.add_assoc]
      · rw [List.count_append, ← Nat.add_assoc]
        exact hitem
    rw [pieces_cons] at h
    cases hitem : (firstPiece line c rest).item? with
    | none =>
      rw [locate_none hitem] at h
      exact hlater rfl h
    | some found =>
      rw [locate_some hitem] at h
      obtain heq | h := List.mem_cons.mp h
      · cases heq
        exact ⟨[], c, rest, rfl, rfl, rfl, hitem⟩
      · exact hlater rfl h

/-! ## Calls in a row -/

/-- The scanner is between two lexemes. -/
structure Stands (s : ByteScanner) (before text : List Char) (line : Nat) : Prop where
  bytes : s.bytes = encode before ++ encode text
  current : s.current = (encode before).length
  line : s.line = line

/-- What the scanner yields for an item. -/
def Item.emission : Item → Emission
  | .token t => .token t
  | .fault e => .fault e.fault.message e.line

namespace Stands

variable {s : ByteScanner} {before text rest : List Char} {c : Char} {line fuel : Nat}

theorem ofSource (source : String) : Stands (.ofSource source) [] source.toList 1 where
  bytes := (encode_toList source).symm
  current := rfl
  line := rfl

/-- At the start of a lexeme. -/
theorem reads (h : Stands s before text line) : Reads s.starting before [] text where
  bytes := by
    rw [encode_nil, List.append_nil]
    exact h.bytes
  start := h.current
  current := h.current

/-- Behind a piece of the text. -/
theorem past (h : Stands s before (c :: rest) line) {s' : ByteScanner}
    (hbytes : s'.bytes = s.bytes)
    (hcurrent : s'.current = s.current + (encode (cut c rest).text).length)
    (hline : s'.line = s.line + (cut c rest).text.count '\n') :
    Stands s' (before ++ (cut c rest).text) (cut c rest).rest
      (line + (cut c rest).text.count '\n') where
  bytes := by
    rw [hbytes, h.bytes, ← encode_append, ← encode_append, List.append_assoc, cut_append]
  current := by rw [hcurrent, h.current, encode_append, List.length_append]
  line := by rw [hline, h.line]

/-- The token that was kept has the lexeme that was read. -/
theorem giveOut_eq {read left : List Char} (h : Reads s before read left) (hnone : s.pending = none)
    (kind : TokenKind) :
    giveOut kind { s with pending := some kind }
      = .ok (some (.token ⟨kind, String.ofList read, s.line⟩)) s := by
  have hsame : { s with pending := none } = s := by rw [← hnone]
  change (lexeme >>= fun text => do
    let s ← Action.get
    return some (Emission.token ⟨kind, text, s.line⟩)) { s with pending := none } = _
  rw [hsame, Action.bind_of_ok (lexeme_eq h)]
  rfl

theorem inside (h : Stands s before (c :: rest) line) : s.current < s.bytes.length := by
  have hne : encode (c :: rest) ≠ [] := by simp
  have hpos := List.length_pos_iff.mpr hne
  rw [h.current, h.bytes, List.length_append]
  omega

/-- Reading goes on with the first piece of the text. -/
theorem nextWithin_cons (h : Stands s before (c :: rest) line) (fuel : Nat) :
    ∃ s', Stands s' (before ++ (cut c rest).text) (cut c rest).rest (firstPiece line c rest).line ∧
      s'.start = (encode before).length ∧
      s'.current = (encode before).length + (encode (cut c rest).text).length ∧
      nextWithin (fuel + 1) s =
        match (firstPiece line c rest).item? with
        | none => nextWithin fuel s'
        | some item => .ok (some item.emission) s' := by
  have hscan := scanToken_cut h.reads
  have hread : Reads (s.starting.past (encode (cut c rest).text)) before
      ([] ++ (cut c rest).text) (cut c rest).rest := by
    refine Reads.past ?_
    rw [cut_append]
    exact h.reads
  have hcount := count_encode (cut c rest).text
  have hline :
      (s.starting.past (encode (cut c rest).text)).line = (firstPiece line c rest).line := by
    unfold firstPiece
    rw [← hcount, ← h.line]
    rfl
  have hinside := h.inside
  refine ⟨s.starting.past (encode (cut c rest).text),
    h.past rfl rfl (congrArg _ hcount), h.current, hread.current, ?_⟩
  rw [nextWithin.eq_2, get_bind, if_neg (by omega), if_neg (by omega),
    Action.bind_of_ok (show Action.modify starting s = .ok () s.starting from rfl)]
  cases hmatter : (cut c rest).matter with
  | blank =>
    have hitem : (firstPiece line c rest).item? = none := by
      unfold firstPiece Piece.item?
      rw [hmatter]
    unfold having at hscan
    rw [hmatter] at hscan
    rw [hitem, Action.bind_of_ok hscan]
    rfl
  | token kind =>
    have hitem : (firstPiece line c rest).item?
        = some (.token ⟨kind, String.ofList (cut c rest).text, (firstPiece line c rest).line⟩) := by
      unfold firstPiece Piece.item?
      rw [hmatter]
    unfold having at hscan
    rw [hmatter] at hscan
    rw [hitem, Action.bind_of_ok hscan]
    refine (giveOut_eq hread rfl kind).trans ?_
    rw [hline, List.nil_append]
    rfl
  | fault f =>
    have hitem : (firstPiece line c rest).item?
        = some (.fault ⟨f, (firstPiece line c rest).line⟩) := by
      unfold firstPiece Piece.item?
      rw [hmatter]
    unfold having at hscan
    rw [hmatter] at hscan
    rw [hitem, Action.bind_of_ok hscan, hline]
    rfl

/-- One call yields the end of the source behind its last item, or else its next item. -/
theorem nextWithin_cases (h : Stands s before text line) (hfuel : text.length < fuel) :
    (locate (encode before).length (pieces line text) = [] ∧
      ∃ s', s'.bytes.length < s'.current ∧
        nextWithin fuel s = .ok (some (.ending "" (line + text.count '\n'))) s') ∨
    ∃ item before' text' line' s',
      locate (encode before).length (pieces line text)
        = (item, s'.start, s'.current) :: locate (encode before').length (pieces line' text') ∧
      Stands s' before' text' line' ∧ line' + text'.count '\n' = line + text.count '\n' ∧
      nextWithin fuel s = .ok (some item.emission) s' := by
  induction fuel generalizing s before text line with
  | zero => cases hfuel
  | succ fuel ih =>
    cases text with
    | nil =>
      have hend : s.current = s.bytes.length := by
        rw [h.current, h.bytes, encode_nil, List.append_nil]
      refine .inl ⟨by rw [pieces]; rfl, { s with current := s.current + 1 }, ?_, ?_⟩
      · exact Nat.lt_succ_of_le (Nat.le_of_eq hend.symm)
      · rw [nextWithin.eq_2, get_bind, if_neg (by omega), if_pos hend, ← h.line]
        rfl
    | cons c rest =>
      obtain ⟨s', hs', hstart, hcurrent, hnext⟩ := h.nextWithin_cons fuel
      have hcount : (firstPiece line c rest).line + (cut c rest).rest.count '\n'
          = line + (c :: rest).count '\n' := by
        rw [← cut_append c rest, List.count_append, ← Nat.add_assoc]
        rfl
      have hlength : (encode before).length + (encode (firstPiece line c rest).text).length
          = (encode (before ++ (cut c rest).text)).length := by
        rw [encode_append, List.length_append]
        rfl
      rw [pieces_cons]
      cases hitem : (firstPiece line c rest).item? with
      | none =>
        rw [hitem] at hnext
        rw [locate_none hitem, hlength, hnext, ← hcount]
        have hshorter := cut_rest_length c rest
        exact ih hs' (Nat.lt_of_lt_of_le hshorter (Nat.le_of_lt_succ hfuel))
      | some item =>
        rw [hitem] at hnext
        refine .inr ⟨item, _, _, _, s', ?_, hs', hcount, hnext⟩
        rw [locate_some hitem, hlength, hstart, hcurrent, ← hlength]
        rfl

theorem length_le (h : Stands s before text line) : text.length ≤ s.bytes.length := by
  rw [h.bytes, List.length_append]
  exact Nat.le_trans (length_le_encode text) (Nat.le_add_left _ _)

end Stands

/-- What the calls yield up to the end of the source: the items, then the end. -/
def emissions (found : List Located) (endLine : Nat) :
    List (Option Emission × Option (Nat × Nat)) :=
  found.map (fun (item, bounds) => (some item.emission, some bounds))
    ++ [(some (.ending "" endLine), none)]

theorem emissions_cons (item : Item) (bounds : Nat × Nat) (found : List Located) (endLine : Nat) :
    emissions ((item, bounds) :: found) endLine
      = (some item.emission, some bounds) :: emissions found endLine := rfl

theorem located_emission (item : Item) (s : ByteScanner) :
    located (some item.emission) s = (some item.emission, some (s.start, s.current)) := by
  cases item with
  | token | fault => rfl

theorem calls_succ {s s' s'' : ByteScanner} {emission : Option Emission}
    {others : List (Option Emission × Option (Nat × Nat))} {n : Nat}
    (hnext : next s = .ok emission s') (hothers : calls n s' = .ok others s'') :
    calls (n + 1) s = .ok (located emission s' :: others) s'' := by
  rw [calls, Action.bind_of_ok hnext, get_bind, Action.bind_of_ok hothers]
  rfl

/-- Behind the end nothing is yielded any more. -/
theorem calls_behind {s : ByteScanner} (h : s.bytes.length < s.current) (n : Nat) :
    calls n s = .ok (List.replicate n (none, none)) s := by
  induction n with
  | zero => rfl
  | succ n ih =>
    have hnext : next s = .ok none s := by
      rw [next, nextWithin.eq_2, get_bind, if_pos h]
      rfl
    exact calls_succ hnext ih

/-- Calls in a row yield the items of the text in their order, its end, and then nothing. -/
theorem Stands.calls_eq {s : ByteScanner} {before text : List Char} {line : Nat}
    (h : Stands s before text line) (n : Nat) :
    ∃ s', calls n s = .ok
      ((emissions (locate (encode before).length (pieces line text)) (line + text.count '\n')
        ++ List.replicate n (none, none)).take n) s' := by
  induction n generalizing s before text line with
  | zero => exact ⟨s, rfl⟩
  | succ n ih =>
    obtain ⟨hnone, s', hbehind, hnext⟩ |
        ⟨item, before', text', line', s', hsome, hs', hend, hnext⟩ :=
      h.nextWithin_cases (Nat.lt_succ_of_le h.length_le)
    · refine ⟨s', (calls_succ hnext (calls_behind hbehind n)).trans ?_⟩
      rw [hnone]
      simp [emissions, located]
    · obtain ⟨s'', hothers⟩ := ih hs'
      refine ⟨s'', (calls_succ hnext hothers).trans ?_⟩
      rw [hsome, located_emission, hend, emissions_cons, List.cons_append, List.take_succ_cons,
        List.replicate_succ', ← List.append_assoc]
      exact congrArg (Outcome.ok · s'') (congrArg (_ :: ·)
        (List.take_append_of_le_length (by simp)).symm)

/-- What is yielded in one of some calls: the end of the source, or an item of it from its place. -/
theorem mem_found {found : List Located} {endLine n : Nat} {emission : Emission}
    {place : Option (Nat × Nat)}
    (h : (some emission, place) ∈
      (emissions found endLine ++ List.replicate n (none, none)).take n) :
    (emission = .ending "" endLine ∧ place = none) ∨
    ∃ item first last, emission = item.emission ∧ place = some (first, last) ∧
      (item, first, last) ∈ found := by
  obtain h | hnone := List.mem_append.mp (List.mem_of_mem_take h)
  · obtain hitem | hend := List.mem_append.mp h
    · obtain ⟨⟨item, first, last⟩, hlocated, heq⟩ := List.mem_map.mp hitem
      cases heq
      exact .inr ⟨item, first, last, rfl, rfl, hlocated⟩
    · cases List.mem_singleton.mp hend
      exact .inl ⟨rfl, rfl⟩
  · cases (List.mem_replicate.mp hnone).2

/-- **The scanner is lossless.** For every source there are places of its items, in their order,
that together with blank space and comments make it up. However often the scanner is called, it
does not slip on the bytes of the source, and it yields each of the items from its place, once the
end with an empty lexeme, and then nothing. -/
theorem scanning_is_lossless (source : String) :
    ∃ found : List Located,
      found.map (·.1) = (scan source).items ∧ Tiles 0 source.toList found ∧
      ∀ n, ∃ s, calls n (.ofSource source) = .ok
        ((emissions found (scan source).endLine ++ List.replicate n (none, none)).take n) s :=
  ⟨locate 0 (pieces 1 source.toList), locate_items 0 _, pieces_tile 0 1 _,
    (Stands.ofSource source).calls_eq⟩

end LoxLang
