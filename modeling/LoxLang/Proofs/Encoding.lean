import LoxLang.Text.Utf8

/-!
# A text in UTF-8 is read back

* `Utf8.encode`: the bytes of a text, which are those that a string is kept in;
* `utf8EncodeChar_ascii`, `utf8EncodeChar_wide`: one byte, or a first one and others that go on;
* `lead_two`, `lead_three`, `lead_four`: the first byte of a character calls for those that follow;
* `decodeFrom_encode_cons`: one character is read from its bytes;
* `decode_encode`: so is a whole text.
-/

namespace LoxLang.Utf8

/-- The bytes of a code point. -/
def bytesOf (v : Nat) : List UInt8 :=
  if v ≤ 0x7F then [UInt8.ofNat v]
  else if v ≤ 0x7FF then [UInt8.ofNat (v / 64 % 32 + 192), UInt8.ofNat (v % 64 + 128)]
  else if v ≤ 0xFFFF then
    [UInt8.ofNat (v / 4096 % 16 + 224), UInt8.ofNat (v / 64 % 64 + 128), UInt8.ofNat (v % 64 + 128)]
  else
    [UInt8.ofNat (v / 262144 % 8 + 240), UInt8.ofNat (v / 4096 % 64 + 128),
      UInt8.ofNat (v / 64 % 64 + 128), UInt8.ofNat (v % 64 + 128)]

theorem utf8EncodeChar_eq (c : Char) : String.utf8EncodeChar c = bytesOf c.toNat := rfl

/-- The bytes of a text. -/
def encode (text : List Char) : List UInt8 := text.flatMap String.utf8EncodeChar

@[simp] theorem encode_nil : encode [] = [] := rfl

@[simp] theorem encode_cons (c : Char) (text : List Char) :
    encode (c :: text) = String.utf8EncodeChar c ++ encode text := rfl

@[simp] theorem encode_append (text more : List Char) :
    encode (text ++ more) = encode text ++ encode more := List.flatMap_append

theorem length_le_encode (text : List Char) : text.length ≤ (encode text).length := by
  induction text with
  | nil => exact Nat.le_refl 0
  | cons c text ih =>
    have hpos : 0 < (String.utf8EncodeChar c).length := by
      rw [String.length_utf8EncodeChar]
      exact Char.utf8Size_pos c
    rw [encode_cons, List.length_append, List.length_cons]
    omega

/-- A string is kept in the bytes of its text. -/
theorem encode_toList (s : String) : encode s.toList = s.toUTF8.data.toList := by
  change encode s.toList = s.toByteArray.data.toList
  rw [← String.utf8Encode_toList]
  exact List.toList_data_toByteArray.symm

/-- The code point of a character. -/
theorem codePoint_lt (c : Char) : c.toNat < 0xD800 ∨ 0xDFFF < c.toNat ∧ c.toNat < 0x110000 :=
  c.valid

/-! ## The bytes of a character -/

/-- A character of ASCII is a byte of its own. -/
theorem utf8EncodeChar_ascii {c : Char} (h : c.toNat < 128) :
    String.utf8EncodeChar c = [UInt8.ofNat c.toNat] := by
  rw [utf8EncodeChar_eq, bytesOf, if_pos (by omega)]

/-- Any other character has a first byte and bytes that go on with it. -/
theorem utf8EncodeChar_wide {c : Char} (h : 128 ≤ c.toNat) :
    ∃ b tail, String.utf8EncodeChar c = b :: tail ∧ 0xC0 ≤ b.toNat ∧
      ∀ b' ∈ tail, 0x80 ≤ b'.toNat ∧ b'.toNat < 0xC0 := by
  have hvalid := codePoint_lt c
  have byte {n : Nat} (h : n < 256) : (UInt8.ofNat n).toNat = n := UInt8.toNat_ofNat_of_lt' h
  have goesOn (n : Nat) :
      0x80 ≤ (UInt8.ofNat (n % 64 + 128)).toNat ∧ (UInt8.ofNat (n % 64 + 128)).toNat < 0xC0 := by
    rw [byte (by omega)]
    omega
  rw [utf8EncodeChar_eq, bytesOf]
  generalize c.toNat = v at h hvalid
  rw [if_neg (by omega)]
  by_cases htwo : v ≤ 0x7FF
  · rw [if_pos htwo]
    refine ⟨_, _, rfl, by rw [byte (by omega)]; omega, ?_⟩
    simpa using goesOn v
  rw [if_neg htwo]
  by_cases hthree : v ≤ 0xFFFF
  · rw [if_pos hthree]
    refine ⟨_, _, rfl, by rw [byte (by omega)]; omega, ?_⟩
    simpa using ⟨goesOn (v / 64), goesOn v⟩
  · rw [if_neg hthree]
    refine ⟨_, _, rfl, by rw [byte (by omega)]; omega, ?_⟩
    simpa using ⟨goesOn (v / 4096), goesOn (v / 64), goesOn v⟩

/-! ## Reading -/

section
variable {v : Nat}

theorem lead_two (hlow : 0x7F < v) (hhigh : v ≤ 0x7FF) :
    lead (v / 64 % 32 + 192) = some (v / 64, [tail]) := by
  unfold lead
  rw [if_neg (by omega), if_neg (by omega), if_pos (by omega),
    show v / 64 % 32 + 192 - 0xC0 = v / 64 by omega]

theorem lead_three (hlow : 0x7FF < v) (hhigh : v ≤ 0xFFFF) (hvalid : v < 0xD800 ∨ 0xDFFF < v) :
    ∃ low high, lead (v / 4096 % 16 + 224) = some (v / 4096, [(low, high), tail]) ∧
      low ≤ v / 64 % 64 + 128 ∧ v / 64 % 64 + 128 ≤ high := by
  unfold lead
  rw [if_neg (by omega), if_neg (by omega), if_neg (by omega)]
  by_cases hfirst : v / 4096 = 0
  · exact ⟨0xA0, 0xBF, by rw [if_pos (by omega), hfirst], by omega, by omega⟩
  by_cases hlast : v / 4096 = 13
  · refine ⟨0x80, 0x9F, ?_, by omega, by omega⟩
    rw [if_neg (by omega), if_pos (by omega), hlast]
  · refine ⟨0x80, 0xBF, ?_, by omega, by omega⟩
    rw [if_neg (by omega), if_neg (by omega), if_pos (by omega),
      show v / 4096 % 16 + 224 - 0xE0 = v / 4096 by omega]
    rfl

theorem lead_four (hlow : 0xFFFF < v) (hhigh : v < 0x110000) :
    ∃ low high, lead (v / 262144 % 8 + 240) = some (v / 262144, [(low, high), tail, tail]) ∧
      low ≤ v / 4096 % 64 + 128 ∧ v / 4096 % 64 + 128 ≤ high := by
  unfold lead
  rw [if_neg (by omega), if_neg (by omega), if_neg (by omega), if_neg (by omega),
    if_neg (by omega), if_neg (by omega)]
  by_cases hfirst : v / 262144 = 0
  · exact ⟨0x90, 0xBF, by rw [if_pos (by omega), hfirst], by omega, by omega⟩
  by_cases hlast : v / 262144 = 4
  · refine ⟨0x80, 0x8F, ?_, by omega, by omega⟩
    rw [if_neg (by omega), if_neg (by omega), if_pos (by omega), hlast]
  · refine ⟨0x80, 0xBF, ?_, by omega, by omega⟩
    rw [if_neg (by omega), if_pos (by omega),
      show v / 262144 % 8 + 240 - 0xF0 = v / 262144 by omega]
    rfl

end

section
variable {index seen value low high : Nat} {owed : Owed} {b : UInt8} {rest : List UInt8}

theorem decodeFrom_single (hlead : lead b.toNat = some (value, [])) :
    decodeFrom index 0 0 [] (b :: rest)
      = (Char.ofNat value :: ·) <$> decodeFrom (index + 1) 0 0 [] rest := by
  simp only [decodeFrom, hlead]
  rfl

theorem decodeFrom_lead {o : Nat × Nat} (hlead : lead b.toNat = some (value, o :: owed)) :
    decodeFrom index 0 0 [] (b :: rest) = decodeFrom (index + 1) 1 value (o :: owed) rest := by
  simp only [decodeFrom, hlead]

theorem decodeFrom_owed {o : Nat × Nat} (hlow : low ≤ b.toNat) (hhigh : b.toNat ≤ high) :
    decodeFrom index seen value ((low, high) :: o :: owed) (b :: rest)
      = decodeFrom (index + 1) (seen + 1) (value * 64 + b.toNat % 64) (o :: owed) rest := by
  simp only [decodeFrom, hlow, hhigh, and_self, if_true]

theorem decodeFrom_last (hlow : low ≤ b.toNat) (hhigh : b.toNat ≤ high) :
    decodeFrom index seen value [(low, high)] (b :: rest)
      = (Char.ofNat (value * 64 + b.toNat % 64) :: ·) <$> decodeFrom (index + 1) 0 0 [] rest := by
  simp only [decodeFrom, hlow, hhigh, and_self, if_true]
  rfl

end

/-- A code point is read from its bytes. -/
theorem decodeFrom_bytesOf {v : Nat} (hvalid : v < 0xD800 ∨ 0xDFFF < v ∧ v < 0x110000)
    (index : Nat) (rest : List UInt8) :
    decodeFrom index 0 0 [] (bytesOf v ++ rest)
      = (Char.ofNat v :: ·) <$> decodeFrom (index + (bytesOf v).length) 0 0 [] rest := by
  have byte {n : Nat} (h : n < 256) : (UInt8.ofNat n).toNat = n := UInt8.toNat_ofNat_of_lt' h
  -- A byte behind the first one is `n % 64 + 128`, which adds `n % 64` to what is known.
  have tailByte (n : Nat) : (UInt8.ofNat (n % 64 + 128)).toNat = n % 64 + 128 := byte (by omega)
  have above (n : Nat) : 0x80 ≤ (UInt8.ofNat (n % 64 + 128)).toNat := by rw [tailByte]; omega
  have below (n : Nat) : (UInt8.ofNat (n % 64 + 128)).toNat ≤ 0xBF := by rw [tailByte]; omega
  have adds (n : Nat) : (n % 64 + 128) % 64 = n % 64 := by omega
  unfold bytesOf
  by_cases hone : v ≤ 0x7F
  · have hlead : lead (UInt8.ofNat v).toNat = some (v, []) := by
      rw [byte (by omega)]
      exact if_pos hone
    rw [if_pos hone]
    exact decodeFrom_single hlead
  rw [if_neg hone]
  by_cases htwo : v ≤ 0x7FF
  · have hlead := lead_two (v := v) (by omega) htwo
    rw [← byte (by omega : v / 64 % 32 + 192 < 256)] at hlead
    rw [if_pos htwo, List.cons_append, List.cons_append, decodeFrom_lead hlead, tail,
      decodeFrom_last (above v) (below v), tailByte, adds, show v / 64 * 64 + v % 64 = v by omega]
    rfl
  rw [if_neg htwo]
  by_cases hthree : v ≤ 0xFFFF
  · obtain ⟨low, high, hlead, hlow, hhigh⟩ := lead_three (v := v) (by omega) hthree (by omega)
    rw [← byte (by omega : v / 4096 % 16 + 224 < 256)] at hlead
    rw [← tailByte (v / 64)] at hlow hhigh
    rw [if_pos hthree, List.cons_append, List.cons_append, List.cons_append,
      decodeFrom_lead hlead, decodeFrom_owed hlow hhigh, tail,
      decodeFrom_last (above v) (below v), tailByte, tailByte, adds, adds,
      show (v / 4096 * 64 + v / 64 % 64) * 64 + v % 64 = v by omega]
    rfl
  · obtain ⟨low, high, hlead, hlow, hhigh⟩ := lead_four (v := v) (by omega) (by omega)
    rw [← byte (by omega : v / 262144 % 8 + 240 < 256)] at hlead
    rw [← tailByte (v / 4096)] at hlow hhigh
    rw [if_neg hthree, List.cons_append, List.cons_append, List.cons_append, List.cons_append,
      decodeFrom_lead hlead, decodeFrom_owed hlow hhigh, tail,
      decodeFrom_owed (above (v / 64)) (below (v / 64)), decodeFrom_last (above v) (below v),
      tailByte, tailByte, tailByte, adds, adds, adds,
      show ((v / 262144 * 64 + v / 4096 % 64) * 64 + v / 64 % 64) * 64 + v % 64 = v by omega]
    rfl

/-- One character is read from its bytes. -/
theorem decodeFrom_encode_cons (index : Nat) (c : Char) (rest : List UInt8) :
    decodeFrom index 0 0 [] (String.utf8EncodeChar c ++ rest)
      = (c :: ·) <$> decodeFrom (index + (String.utf8EncodeChar c).length) 0 0 [] rest := by
  rw [utf8EncodeChar_eq, decodeFrom_bytesOf (codePoint_lt c), Char.ofNat_toNat]

/-- **A text is read back from its bytes.** -/
theorem decode_encode (text : List Char) : decode (encode text) = .ok (String.ofList text) := by
  have hfrom (index : Nat) : decodeFrom index 0 0 [] (encode text) = .ok text := by
    induction text generalizing index with
    | nil => rfl
    | cons c text ih =>
      rw [encode_cons, decodeFrom_encode_cons, ih]
      rfl
  unfold decode
  rw [hfrom]
  rfl

end LoxLang.Utf8
