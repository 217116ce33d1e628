import LoxLang.Proofs.Munching

/-!
# The line of every item

The scanner counts newlines in two of its loops and must skip none in the others. The line of what
it yields is that of the last byte that was read for it.

* `newlines`: the newlines among bytes, which are those of the text (`newlines_encode`);
* `firstPiece_line`: the line of a piece, by the bytes up to its end;
* `pieces_ordered`: the lines of pieces never decrease;
* `lines_count_newlines`: for everything that the scanner yields.
-/

namespace LoxLang

open Scanning ByteScanner Utf8

/-- How many of the bytes are newlines. -/
def newlines (bytes : List UInt8) : Nat := bytes.count 0x0A

def Emission.line : Emission → Nat
  | .token t => t.line
  | .fault _ line => line
  | .ending _ line => line

theorem ascii_eq_newline (b : UInt8) : (ascii b == '\n') = (b == 0x0A) := by
  rw [Bool.eq_iff_iff, beq_iff_eq, beq_iff_eq]
  constructor
  · intro h
    have hnat := toNat_ascii b
    rw [h] at hnat
    exact UInt8.toNat_inj.mp hnat.symm
  · rintro rfl
    rfl

theorem newlines_encode (text : List Char) : newlines (encode text) = text.count '\n' := by
  rw [← count_encode, newlines, List.count]
  simp only [ascii_eq_newline]

/-! ## Lines of pieces -/

section
variable {line : Nat} {c : Char} {before rest text : List Char} {p : Piece} {item : Item}

/-- An item has the line of its piece. -/
theorem line_of_item (h : p.item? = some item) : item.emission.line = p.line := by
  unfold Piece.item? at h
  split at h <;> cases h <;> rfl

/-- The line of a piece behind some text counts the newlines up to its end. -/
theorem firstPiece_line (before : List Char) (c : Char) (rest : List Char) :
    (firstPiece (line + before.count '\n') c rest).line
      = line + newlines (encode (before ++ (cut c rest).text)) := by
  rw [newlines_encode, List.count_append, ← Nat.add_assoc]
  rfl

/-- No piece ends above the line on which the text starts or below that on which it ends. -/
theorem pieces_within (line : Nat) (text : List Char) :
    ∀ p ∈ pieces line text, line ≤ p.line ∧ p.line ≤ line + text.count '\n' := by
  induction line, text using pieces.induct with
  | case1 line =>
    rw [pieces]
    exact List.forall_mem_nil _
  | case2 line c rest first line' ih =>
    have hcount : line' + (cut c rest).rest.count '\n' = line + (c :: rest).count '\n' := by
      rw [← cut_append c rest, List.count_append, ← Nat.add_assoc]
    have hfirst : line ≤ line' := Nat.le_add_right _ _
    rw [pieces_cons]
    refine List.forall_mem_cons.mpr ⟨⟨hfirst, ?_⟩, fun p hp => ?_⟩
    · rw [← hcount]
      exact Nat.le_add_right _ _
    · obtain ⟨habove, hbelow⟩ := ih p hp
      rw [hcount] at hbelow
      exact ⟨Nat.le_trans hfirst habove, hbelow⟩

theorem pieces_ordered (line : Nat) (text : List Char) :
    (pieces line text).Pairwise (·.line ≤ ·.line) := by
  induction line, text using pieces.induct with
  | case1 line =>
    rw [pieces]
    exact .nil
  | case2 line c rest first line' ih =>
    rw [pieces_cons]
    exact .cons (fun p hp => (pieces_within line' _ p hp).1) ih

end

/-! ## Lines of what is yielded -/

/-- The fault of an open string has its own message. -/
theorem eq_unterminated_of_message {f : LexicalFault}
    (h : f.message = LexicalFault.unterminatedString.message) : f = .unterminatedString := by
  cases f with
  | unterminatedString => rfl
  | unexpectedCharacter c =>
    have hother : (LexicalFault.unexpectedCharacter c).message.toList.take 3 = ['U', 'n', 'e'] := by
      change ("Unexpected character: " ++ String.singleton c).toList.take 3 = _
      simp
    rw [h] at hother
    exact absurd hother (by decide +kernel)

/-- An open string is read to the end. -/
theorem rest_of_unterminated {line : Nat} {text behind : List Char} {emission : Emission}
    (hread : emission.ReadFrom text behind)
    (h : emission = .fault LexicalFault.unterminatedString.message line) : behind = [] := by
  cases hread with
  | token => cases h
  | unexpected => cases eq_unterminated_of_message (Emission.fault.inj h).1
  | unterminated => rfl

/-- The lines of what is yielded up to the end of a source. -/
theorem emissions_ordered (offset line : Nat) (text : List Char) :
    ((emissions (locate offset (pieces line text)) (line + text.count '\n')).filterMap
      (·.1)).Pairwise (·.line ≤ ·.line) := by
  have hitems : (emissions (locate offset (pieces line text)) (line + text.count '\n')).filterMap
      (·.1)
        = ((pieces line text).filterMap (·.item?)).map Item.emission
          ++ [.ending "" (line + text.count '\n')] := by
    rw [← locate_items offset, emissions, List.filterMap_append, List.filterMap_map, List.map_map]
    exact congrArg (· ++ _) (congrFun List.filterMap_eq_map _)
  have hordered : (((pieces line text).filterMap (·.item?)).map Item.emission).Pairwise
      (·.line ≤ ·.line) := by
    refine List.pairwise_map.mpr (List.pairwise_filterMap.mpr ?_)
    refine (pieces_ordered line text).imp fun hle item hitem item' hitem' => ?_
    rw [line_of_item hitem, line_of_item hitem']
    exact hle
  rw [hitems]
  refine List.pairwise_append.mpr ⟨hordered, List.pairwise_singleton _ _, ?_⟩
  intro emission hemission ending hending
  obtain ⟨item, hitem, rfl⟩ := List.mem_map.mp hemission
  obtain ⟨p, hp, hsome⟩ := List.mem_filterMap.mp hitem
  rw [List.mem_singleton.mp hending, line_of_item hsome]
  exact (pieces_within line text p hp).2

theorem bytes_eq (source : String) : (ofSource source).bytes = encode source.toList :=
  (encode_toList source).symm

/-- The bytes up to the end of a text in a source. -/
theorem bytes_take {source : String} {before text behind : List Char}
    (h : source.toList = before ++ text ++ behind) :
    (ofSource source).bytes.take ((encode before).length + (encode text).length)
      = encode (before ++ text) := by
  rw [bytes_eq, h, encode_append, ← List.length_append, ← encode_append, List.take_left]

/-- **Lines are right everywhere.** The line of whatever the scanner yields is one more than the
number of newlines before the end of the text that it was read from. The end of the source has the
newlines of all of it, and so has a string without a closing quote, which is read up to there. So
lines never decrease. -/
theorem lines_count_newlines (source : String) (n : Nat) :
    ∃ found s, calls n (.ofSource source) = .ok found s ∧
      (∀ emission place, (some emission, place) ∈ found →
        (emission = .ending "" (1 + newlines (ofSource source).bytes) ∧ place = none) ∨
        ∃ before text behind first last, place = some (first, last) ∧
          source.toList = before ++ text ++ behind ∧
          first = (encode before).length ∧ last = first + (encode text).length ∧
          emission.ReadFrom text behind ∧
          emission.line = 1 + newlines ((ofSource source).bytes.take last) ∧
          ∀ line, emission = .fault LexicalFault.unterminatedString.message line →
            line = 1 + newlines (ofSource source).bytes) ∧
      (found.filterMap (·.1)).Pairwise (·.line ≤ ·.line) := by
  obtain ⟨s, hcalls⟩ := (Stands.ofSource source).calls_eq n
  refine ⟨_, s, hcalls, fun emission place hmem => ?_, ?_⟩
  · obtain ⟨rfl, rfl⟩ | ⟨item, first, last, rfl, rfl, hlocated⟩ := mem_found hmem
    · rw [bytes_eq, newlines_encode]
      exact .inl ⟨rfl, rfl⟩
    · obtain ⟨before, c, rest, hsource, hfirst, hlast, hitem⟩ := mem_locate_pieces 0 1 hlocated
      have hread := firstPiece_readFrom hitem
      have hline := (line_of_item hitem).trans (firstPiece_line before c rest)
      have hwhole : source.toList = before ++ (cut c rest).text ++ (cut c rest).rest := by
        rw [hsource, List.append_assoc, cut_append]
      rw [Nat.zero_add] at hfirst
      refine .inr ⟨before, _, _, first, last, rfl, hwhole, hfirst, hlast, hread, ?_, ?_⟩
      · rw [hline, hlast, hfirst, bytes_take hwhole]
      · intro line hfault
        have hnone := rest_of_unterminated hread hfault
        rw [hnone, List.append_nil] at hwhole
        rw [hfault, ← hwhole, ← bytes_eq] at hline
        exact hline
  · refine .sublist ((List.take_sublist _ _).filterMap _) ?_
    rw [List.filterMap_append, List.filterMap_replicate_of_none rfl, List.append_nil]
    exact emissions_ordered 0 1 source.toList

end LoxLang
