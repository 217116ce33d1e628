import LoxLang.Proofs.Encoding
import LoxLang.Token.Bytewise
import Mathlib.Data.List.TakeWhile

/-!
# The scanner over bytes reads the pieces of the text

The bytes of a text tell its characters apart, as a byte below 128 is a character and no other byte
is. So a scanner that looks at bytes stops where one that looks at characters does.

* `Uniform`: a test that tells no two characters beyond ASCII apart; `takeWhile_encode` finds the
  same run in a text and in its bytes;
* `At`: where a scanner stands between bytes that it has read and bytes that are left;
* `loop_takes`: a loop over bytes, by induction on what is left;
* `scanToken_cut`: what is read from the start of a lexeme is the first piece of the text.
-/

namespace LoxLang

namespace ByteScanner

open Scanning Utf8

/-! ## Bytes and characters -/

theorem toNat_ascii (b : UInt8) : (ascii b).toNat = b.toNat := by
  have hb := b.toNat_lt
  have hvalid : b.toNat.isValidChar := .inl (by omega)
  unfold ascii
  rw [Char.ofNat, dif_pos hvalid]
  rfl

theorem ascii_ofNat {c : Char} (h : c.toNat < 128) : ascii (UInt8.ofNat c.toNat) = c := by
  unfold ascii
  rw [UInt8.toNat_ofNat_of_lt' (Nat.lt_trans h (by decide)), Char.ofNat_toNat]

theorem isContinuation_eq (b : UInt8) :
    isContinuation b = (decide (0x80 ≤ b.toNat) && decide (b.toNat < 0xC0)) := by
  have hall : ∀ n < 256,
      isContinuation (UInt8.ofNat n) = (decide (0x80 ≤ n) && decide (n < 0xC0)) := by
    decide +kernel
  have h := hall b.toNat b.toNat_lt
  rwa [UInt8.ofNat_toNat] at h

/-- Only the first byte of a character does not go on with one. -/
theorem utf8EncodeChar_cons (c : Char) :
    ∃ b tail, String.utf8EncodeChar c = b :: tail ∧ isContinuation b = false ∧
      ∀ b' ∈ tail, isContinuation b' = true := by
  by_cases hc : c.toNat < 128
  · refine ⟨_, [], utf8EncodeChar_ascii hc, ?_, by simp⟩
    rw [isContinuation_eq, UInt8.toNat_ofNat_of_lt' (Nat.lt_trans hc (by decide))]
    simp [Nat.not_le.mpr hc]
  · obtain ⟨first, tail, hbytes, hfirst, htail⟩ := utf8EncodeChar_wide (Nat.not_lt.mp hc)
    refine ⟨first, tail, hbytes, ?_, fun b hb => ?_⟩
    · simp [isContinuation_eq, Nat.not_lt.mpr hfirst]
    · simp [isContinuation_eq, htail b hb]

/-- The test tells no two characters beyond ASCII apart. -/
def Uniform (q : Char → Bool) : Prop :=
  ∀ c d : Char, 128 ≤ c.toNat → 128 ≤ d.toNat → q c = q d

/-- A test that no character beyond ASCII passes. -/
theorem Uniform.of_lt {q : Char → Bool} (h : ∀ c, q c = true → c.toNat < 128) : Uniform q := by
  intro c d hc hd
  have hfalse {c : Char} (hc : 128 ≤ c.toNat) : q c = false := by
    cases hq : q c with
    | false => rfl
    | true => exact absurd (h c hq) (Nat.not_lt.mpr hc)
  rw [hfalse hc, hfalse hd]

/-- A test that every character beyond ASCII passes. -/
theorem Uniform.not {q : Char → Bool} (h : Uniform q) : Uniform fun c => !q c :=
  fun c d hc hd => congrArg _ (h c d hc hd)

section
variable {q : Char → Bool}

/-- The bytes of a character pass the test as the character does. -/
theorem Uniform.bytes (hq : Uniform q) (c : Char) :
    ∀ b ∈ String.utf8EncodeChar c, q (ascii b) = q c := by
  intro b hb
  by_cases hc : c.toNat < 128
  · rw [utf8EncodeChar_ascii hc] at hb
    rw [List.mem_singleton.mp hb, ascii_ofNat hc]
  · obtain ⟨first, tail, hbytes, hfirst, htail⟩ := utf8EncodeChar_wide (Nat.not_lt.mp hc)
    rw [hbytes] at hb
    refine hq _ _ ?_ (Nat.not_lt.mp hc)
    rw [toNat_ascii]
    obtain rfl | hb := List.mem_cons.mp hb
    · omega
    · exact (htail b hb).1

theorem utf8EncodeChar_ne_nil (c : Char) : String.utf8EncodeChar c ≠ [] := by
  obtain ⟨b, tail, hbytes, -⟩ := utf8EncodeChar_cons c
  simp [hbytes]

theorem takeWhile_encode (hq : Uniform q) (text : List Char) :
    (encode text).takeWhile (fun b => q (ascii b)) = encode (text.takeWhile q) := by
  induction text with
  | nil => rfl
  | cons c text ih =>
    rw [encode_cons]
    cases hc : q c with
    | true =>
      have hall : ∀ b ∈ String.utf8EncodeChar c, q (ascii b) = true := fun b hb =>
        (hq.bytes c b hb).trans hc
      rw [List.takeWhile_append_of_pos hall, List.takeWhile_cons_of_pos hc, encode_cons, ih]
    | false =>
      obtain ⟨b, tail, hbytes⟩ := List.exists_cons_of_ne_nil (utf8EncodeChar_ne_nil c)
      have hb : q (ascii b) = false := (hq.bytes c b (by simp [hbytes])).trans hc
      simp [hbytes, hb, hc]

/-- The first byte of a text passes the test as its first character does. -/
theorem headD_encode (hq : Uniform q) (hzero : q (ascii 0) = false) (text : List Char) :
    q (ascii ((encode text).headD 0)) = text.head?.any q := by
  cases text with
  | nil => exact hzero
  | cons c text =>
    obtain ⟨b, tail, hbytes⟩ := List.exists_cons_of_ne_nil (utf8EncodeChar_ne_nil c)
    have hb := hq.bytes c b (by simp [hbytes])
    simpa [hbytes] using hb

end

theorem isBlank_lt {c : Char} (h : isBlank c = true) : c.toNat < 128 := by
  simp only [isBlank, Bool.or_eq_true, beq_iff_eq] at h
  obtain ((rfl | rfl) | rfl) | rfl := h <;> decide

theorem isDigit_lt {c : Char} (h : isDigit c = true) : c.toNat < 128 := by
  simp only [isDigit, Bool.and_eq_true, decide_eq_true_eq] at h
  exact Nat.lt_of_le_of_lt h.2 (by decide)

theorem isNameStart_lt {c : Char} (h : isNameStart c = true) : c.toNat < 128 := by
  simp only [isNameStart, Bool.or_eq_true, Bool.and_eq_true, decide_eq_true_eq, beq_iff_eq] at h
  obtain (h | h) | rfl := h
  · exact Nat.lt_of_le_of_lt h.2 (by decide)
  · exact Nat.lt_of_le_of_lt h.2 (by decide)
  · decide

theorem isNamePart_lt {c : Char} (h : isNamePart c = true) : c.toNat < 128 := by
  obtain h | h := Bool.or_eq_true_iff.mp h
  · exact isNameStart_lt h
  · exact isDigit_lt h

theorem single?_lt {c : Char} {s : Symbol} (h : single? c = some s) : c.toNat < 128 := by
  unfold single? at h
  split at h <;> first | decide | cases h

theorem withEqual?_lt {c : Char} {s : Symbol} (h : withEqual? c = some s) : c.toNat < 128 := by
  unfold withEqual? at h
  split at h <;> first | decide | cases h

/-- Being a given character of ASCII. -/
theorem Uniform.eq {a : Char} (ha : a.toNat < 128) : Uniform (· == a) :=
  .of_lt fun c h => by rwa [beq_iff_eq.mp h]

theorem count_encode (text : List Char) :
    (encode text).countP (fun b => ascii b == '\n') = text.count '\n' := by
  have hnewline : Uniform (· == '\n') := .eq (by decide)
  induction text with
  | nil => rfl
  | cons c text ih =>
    rw [encode_cons, List.countP_append, ih, List.count_cons, Nat.add_comm]
    congr 1
    by_cases hc : c = '\n'
    · subst hc
      rfl
    · have hnone : ∀ b ∈ String.utf8EncodeChar c, ¬(ascii b == '\n') = true := fun b hb => by
        rw [hnewline.bytes c b hb]
        simpa using hc
      rw [List.countP_eq_zero.mpr hnone]
      simp [hc]

/-! ## Where a scanner stands -/

/-- The scanner has read the bytes `done`, and the bytes `left` are to be read. -/
structure At (s : ByteScanner) (done left : List UInt8) : Prop where
  bytes : s.bytes = done ++ left
  current : s.current = done.length

/-- The scanner behind bytes that come next. -/
def past (s : ByteScanner) (taken : List UInt8) : ByteScanner :=
  { s with
    current := s.current + taken.length
    line := s.line + taken.countP (fun b => ascii b == '\n') }

section
variable {s : ByteScanner} {done left taken more : List UInt8} {b : UInt8}

@[simp] theorem past_nil (s : ByteScanner) : s.past [] = s := rfl

theorem past_past (s : ByteScanner) (taken more : List UInt8) :
    (s.past taken).past more = s.past (taken ++ more) := by
  simp only [past, List.length_append, List.countP_append, Nat.add_assoc]

theorem At.past (h : At s done (taken ++ left)) : At (s.past taken) (done ++ taken) left where
  bytes := by
    rw [List.append_assoc]
    exact h.bytes
  current := by
    rw [List.length_append, ← h.current]
    rfl

theorem At.length_le (h : At s done left) : left.length ≤ s.bytes.length := by
  rw [h.bytes, List.length_append]
  exact Nat.le_add_left _ _

theorem At.peek (h : At s done left) : s.peek = left.headD 0 := by
  unfold ByteScanner.peek
  rw [h.bytes, h.current, List.getD_eq_getElem?_getD,
    List.getElem?_append_right (Nat.le_refl _), Nat.sub_self]
  cases left <;> rfl

theorem At.peekNext (h : At s done left) : s.peekNext = left.tail.headD 0 := by
  unfold ByteScanner.peekNext
  rw [h.bytes, h.current, List.getD_eq_getElem?_getD,
    List.getElem?_append_right (Nat.le_add_right _ 1), Nat.add_sub_cancel_left]
  match left with
  | [] | [_] | _ :: _ :: _ => rfl

theorem At.isAtEnd (h : At s done left) : s.isAtEnd = left.isEmpty := by
  unfold ByteScanner.isAtEnd
  rw [h.bytes, h.current, List.length_append]
  cases left <;> simp

theorem advance_eq (h : At s done (b :: left)) :
    advance s = .ok b { s with current := s.current + 1 } := by
  have hb : s.bytes[s.current]? = some b := by
    rw [h.bytes, h.current, List.getElem?_append_right (Nat.le_refl _), Nat.sub_self]
    rfl
  unfold advance
  rw [hb]

/-- A byte that is no newline. -/
theorem past_single (hb : ascii b ≠ '\n') :
    s.past [b] = { s with current := s.current + 1 } := by
  simp [ByteScanner.past, hb]

theorem past_newline (hb : ascii b = '\n') :
    s.past [b] = { s with current := s.current + 1, line := s.line + 1 } := by
  simp [ByteScanner.past, hb]

theorem get_bind {β : Type} (f : ByteScanner → Scans β) (s : ByteScanner) :
    (Action.get >>= f) s = f s s := rfl

/-! ## Loops -/

/-- A loop takes the bytes up to the first that fails the test, if it stops at the end and each of
its steps takes one byte. -/
theorem loop_takes {test : ByteScanner → Bool} {step : Scans Unit} {p : UInt8 → Bool}
    (hend : ∀ s done, At s done [] → test s = false)
    (htest : ∀ s done b left, At s done (b :: left) → test s = p b)
    (hstep : ∀ s done b left, At s done (b :: left) → p b = true → step s = .ok () (s.past [b]))
    (h : At s done left) {fuel : Nat} (hfuel : left.length < fuel) :
    loop test step fuel s = .ok () (s.past (left.takeWhile p)) := by
  induction fuel generalizing s done left with
  | zero => cases hfuel
  | succ fuel ih =>
    unfold loop
    cases left with
    | nil => rw [hend s done h, if_neg Bool.false_ne_true, List.takeWhile_nil, past_nil]
    | cons b left =>
      rw [htest s done b left h]
      cases hb : p b with
      | false =>
        rw [if_neg Bool.false_ne_true, List.takeWhile_cons_of_neg (by simp [hb]), past_nil]
      | true =>
        have hnext : At (s.past [b]) (done ++ [b]) left := At.past h
        rw [if_pos rfl, Action.bind_of_ok (hstep s done b left h hb),
          ih hnext (Nat.lt_of_succ_lt_succ hfuel), past_past, List.takeWhile_cons_of_pos hb]
        rfl

theorem advanceWhile_eq {q : Char → Bool} (hzero : q (ascii 0) = false)
    (hnewline : q '\n' = false) (h : At s done left) :
    advanceWhile q s = .ok () (s.past (left.takeWhile fun b => q (ascii b))) := by
  refine loop_takes ?_ ?_ ?_ h (Nat.lt_succ_of_le h.length_le)
  · intro s done h
    rw [h.peek]
    exact hzero
  · intro s done b left h
    rw [h.peek]
    rfl
  · intro s done b left h hb
    have hne : ascii b ≠ '\n' := fun heq => by rw [heq, hnewline] at hb; cases hb
    rw [Action.bind_of_ok (advance_eq h), past_single hne]
    rfl

/-- The body of a string literal, with its newlines. -/
theorem stringBody_eq (h : At s done left) :
    whileHolds (fun s => !s.isAtEnd && ascii s.peek != '"') (do
      if ascii (← advance) == '\n' then countLine) s
      = .ok () (s.past (left.takeWhile fun b => ascii b != '"')) := by
  refine loop_takes ?_ ?_ ?_ h (Nat.lt_succ_of_le h.length_le)
  · intro s done h
    rw [h.isAtEnd]
    rfl
  · intro s done b left h
    rw [h.isAtEnd, h.peek]
    rfl
  · intro s done b left h _
    rw [Action.bind_of_ok (advance_eq h)]
    by_cases hb : ascii b = '\n'
    · rw [past_newline hb, hb]
      rfl
    · rw [past_single hb, if_neg (by simpa using hb)]
      rfl

/-- The bytes that go on with a character. -/
theorem skipContinuation_eq (h : At s done left) :
    whileHolds (fun s => isContinuation s.peek) (skipBytes 1) s
      = .ok () (s.past (left.takeWhile isContinuation)) := by
  refine loop_takes ?_ ?_ ?_ h (Nat.lt_succ_of_le h.length_le)
  · intro s done h
    rw [h.peek]
    rfl
  · intro s done b left h
    rw [h.peek]
    rfl
  · intro s done b left h hb
    have hne : ascii b ≠ '\n' := fun heq => by
      have hnat := toNat_ascii b
      rw [heq] at hnat
      rw [isContinuation_eq, ← hnat] at hb
      exact absurd hb (by decide)
    rw [past_single hne]
    rfl

end

/-! ## Lexemes -/

/-- Within a lexeme: `before` stands before it, `read` was read of it, and `left` is to be read. -/
structure Reads (s : ByteScanner) (before read left : List Char) : Prop where
  bytes : s.bytes = encode before ++ encode read ++ encode left
  start : s.start = (encode before).length
  current : s.current = (encode before).length + (encode read).length

section
variable {s : ByteScanner} {before read more left : List Char} {a : Char}

theorem Reads.at (h : Reads s before read left) : At s (encode (before ++ read)) (encode left) where
  bytes := by rw [encode_append, h.bytes]
  current := by rw [encode_append, List.length_append, h.current]

theorem Reads.past (h : Reads s before read (more ++ left)) :
    Reads (s.past (encode more)) before (read ++ more) left where
  bytes := by
    change s.bytes = _
    simp only [h.bytes, encode_append, List.append_assoc]
  start := h.start
  current := by
    rw [encode_append, List.length_append, ← Nat.add_assoc, ← h.current]
    rfl

/-- Behind the first character of a lexeme. -/
theorem Reads.behind (h : Reads s before [] (a :: left)) :
    Reads (s.past (encode [a])) before [a] left :=
  @Reads.past s before [] [a] left h

theorem isBoundary_encode (before left : List Char) :
    isBoundary (encode before ++ encode left) (encode before).length = true := by
  unfold isBoundary
  rw [List.getElem?_append_right (Nat.le_refl _), Nat.sub_self]
  cases left with
  | nil => simp
  | cons c left =>
    obtain ⟨b, tail, hbytes, hb, -⟩ := utf8EncodeChar_cons c
    rw [encode_cons, hbytes]
    simp [hb]

/-- A text between two others is cut out of them. -/
theorem slice_eq {first last : Nat} (hbytes : s.bytes = encode before ++ encode read ++ encode left)
    (hfirst : first = (encode before).length)
    (hlast : last = (encode before).length + (encode read).length) :
    slice first last s = .ok (String.ofList read) s := by
  have hlength : s.bytes.length
      = (encode before).length + (encode read).length + (encode left).length := by
    rw [hbytes, List.length_append, List.length_append]
  have hstarts : isBoundary s.bytes first = true := by
    rw [hbytes, hfirst, List.append_assoc, ← encode_append]
    exact isBoundary_encode before (read ++ left)
  have hends : isBoundary s.bytes last = true := by
    rw [hbytes, hlast, ← List.length_append, ← encode_append]
    exact isBoundary_encode (before ++ read) left
  have hcut : (s.bytes.take last).drop first = encode read := by
    rw [hbytes, hlast, ← List.length_append, List.take_left, hfirst, List.drop_left]
  unfold slice
  rw [if_pos (by omega), hstarts, hends, hcut, decode_encode]
  rfl

theorem lexeme_eq (h : Reads s before read left) : lexeme s = .ok (String.ofList read) s :=
  slice_eq h.bytes h.start h.current

theorem past_ascii (ha : a.toNat < 128) (hne : a ≠ '\n') (s : ByteScanner) :
    s.past (encode [a]) = { s with current := s.current + 1 } := by
  rw [encode_cons, utf8EncodeChar_ascii ha, encode_nil, List.append_nil]
  exact past_single (by rwa [ascii_ofNat ha])

/-- A character of ASCII is taken as one byte. -/
theorem advance_reads (ha : a.toNat < 128) (h : Reads s before read (a :: left)) :
    advance s = .ok (UInt8.ofNat a.toNat) { s with current := s.current + 1 } := by
  have hat := h.at
  rw [encode_cons, utf8EncodeChar_ascii ha] at hat
  exact advance_eq hat

/-- The next character is matched if it comes next. -/
theorem matchNext_eq (ha : a.toNat < 128) (hne : a ≠ '\n') (hzero : ascii 0 ≠ a)
    (h : Reads s before read left) :
    matchNext a s =
      if left.head? = some a then .ok true (s.past (encode [a])) else .ok false s := by
  have hpeek : (ascii s.peek == a) = left.head?.any (· == a) := by
    rw [h.at.peek]
    exact headD_encode (.eq ha) (by simpa using hzero) left
  unfold matchNext
  rw [hpeek, h.at.isAtEnd, past_ascii ha hne]
  cases left with
  | nil => rfl
  | cons c left =>
    have hbytes : (encode (c :: left)).isEmpty = false := by simp
    rw [hbytes]
    by_cases hc : c = a
    · simp [hc]
    · simp [hc]

/-- The first byte of a text with `memchr`'s reading: where the first byte that passes a test
stands. -/
theorem findIdx?_eq (p : UInt8 → Bool) (bytes : List UInt8) :
    ((bytes.findIdx? p).getD bytes.length) = (bytes.takeWhile fun b => !p b).length := by
  induction bytes with
  | nil => rfl
  | cons b bytes ih =>
    rw [List.findIdx?_cons]
    cases hb : p b with
    | true => simp [hb]
    | false =>
      simp only [hb, Bool.not_false, List.takeWhile_cons_of_pos, List.length_cons]
      rw [← ih]
      cases bytes.findIdx? p <;> simp

/-! ## The kinds of lexemes -/

theorem uniform_ne {a : Char} (ha : a.toNat < 128) : Uniform (· != a) := Uniform.not (.eq ha)

theorem advanceWhile_reads {q : Char → Bool} (hq : Uniform q) (hzero : q (ascii 0) = false)
    (hnewline : q '\n' = false) (h : Reads s before read left) :
    advanceWhile q s = .ok () (s.past (encode (left.takeWhile q))) ∧
      Reads (s.past (encode (left.takeWhile q))) before (read ++ left.takeWhile q)
        (left.dropWhile q) := by
  constructor
  · rw [advanceWhile_eq hzero hnewline h.at, takeWhile_encode hq]
  · refine Reads.past ?_
    rwa [List.takeWhile_append_dropWhile]

theorem skipComment_eq (h : Reads s before read left) :
    skipComment s = .ok () (s.past (encode (left.takeWhile (· != '\n')))) := by
  have hat := h.at
  have hlength : s.bytes.length = s.current + (encode left).length := by
    rw [hat.bytes, List.length_append, hat.current]
  have hdrop : s.bytes.drop s.current = encode left := by
    rw [hat.bytes, hat.current, List.drop_left]
  have hfound : ((encode left).findIdx? (ascii · == '\n')).getD (encode left).length
      = (encode (left.takeWhile (· != '\n'))).length := by
    rw [← takeWhile_encode (uniform_ne (a := '\n') (by decide))]
    exact findIdx?_eq _ _
  have hcount : (encode (left.takeWhile (· != '\n'))).countP (fun b => ascii b == '\n') = 0 := by
    rw [count_encode, List.count_eq_zero]
    intro hmem
    simpa using List.all_eq_true.mp List.all_takeWhile _ hmem
  unfold skipComment
  rw [if_pos (by omega), hdrop, ByteScanner.past, hcount, ← hfound, hlength]
  cases (encode left).findIdx? (ascii · == '\n') <;> rfl

theorem closeString_eq {contents : List Char} (h : Reads s before ('"' :: contents) ('"' :: left)) :
    closeString s = .ok (.string (String.ofList contents)) (s.past (encode ['"'])) := by
  have hclosed : Reads (s.past (encode ['"'])) before ('"' :: contents ++ ['"']) left := h.past
  have hone : (encode ['"']).length = 1 := rfl
  have hcut : slice ((s.past (encode ['"'])).start + 1) ((s.past (encode ['"'])).current - 1)
      (s.past (encode ['"'])) = .ok (String.ofList contents) (s.past (encode ['"'])) := by
    have hbytes : (s.past (encode ['"'])).bytes
        = encode (before ++ ['"']) ++ encode contents ++ encode ('"' :: left) := by
      rw [hclosed.bytes]
      simp only [encode_append, encode_cons, encode_nil, List.append_assoc, List.nil_append]
    refine slice_eq hbytes ?_ ?_
    · rw [hclosed.start, encode_append, List.length_append, hone]
    · rw [hclosed.current, encode_append, ← List.singleton_append, encode_append]
      simp only [encode_append, List.length_append, hone]
      omega
  unfold closeString
  rw [Action.bind_of_ok (advance_reads (by decide) h),
    ← past_ascii (a := '"') (by decide) (by decide), get_bind, Action.bind_of_ok hcut]
  rfl

/-- A string literal, from behind its opening quote. -/
theorem string_eq {body : List Char} (h : Reads s before ['"'] body) :
    string s =
      match body.dropWhile (· != '"') with
      | [] => .ok (.error .unterminatedString) (s.past (encode (body.takeWhile (· != '"'))))
      | q :: _ =>
        .ok (.ok (.string (String.ofList (body.takeWhile (· != '"')))))
          (s.past (encode (body.takeWhile (· != '"') ++ [q]))) := by
  have hbody := stringBody_eq h.at
  rw [takeWhile_encode (uniform_ne (by decide))] at hbody
  have hreads : Reads (s.past (encode (body.takeWhile (· != '"')))) before
      (['"'] ++ body.takeWhile (· != '"')) (body.dropWhile (· != '"')) := by
    refine Reads.past ?_
    rwa [List.takeWhile_append_dropWhile]
  unfold string
  rw [Action.bind_of_ok hbody, get_bind, hreads.at.isAtEnd]
  cases hdrop : body.dropWhile (· != '"') with
  | nil => rfl
  | cons q rest =>
    rw [hdrop] at hreads
    obtain rfl : q = '"' := by
      have hq := List.head_dropWhile_not (· != '"') (l := body) (by simp [hdrop])
      simpa [hdrop] using hq
    have hclose := closeString_eq hreads
    rw [past_past, ← encode_append] at hclose
    exact Action.bind_of_ok hclose

theorem decimalValue_whole {whole : List Char} (h : ∀ c ∈ whole, isDigit c = true) :
    decimalValue whole = nearestDouble (digitsValue whole) 0 := by
  have htake : whole.takeWhile isDigit = whole := List.takeWhile_eq_self_iff.mpr h
  have hdrop : whole.dropWhile isDigit = [] := List.dropWhile_eq_nil_iff.mpr h
  unfold decimalValue
  dsimp only
  rw [htake, hdrop, List.tail_nil, List.append_nil]
  rfl

theorem decimalValue_point {whole places : List Char} (h : ∀ c ∈ whole, isDigit c = true) :
    decimalValue (whole ++ '.' :: places)
      = nearestDouble (digitsValue (whole ++ places)) places.length := by
  have hpoint : ¬isDigit '.' = true := by decide
  unfold decimalValue
  rw [List.takeWhile_append_of_pos h, List.dropWhile_append_of_pos h,
    List.takeWhile_cons_of_neg hpoint, List.dropWhile_cons_of_neg hpoint, List.append_nil]
  rfl

/-- The point and the digits at the front of a text. -/
def fractionOf : List Char → List Char
  | '.' :: d :: rest => if isDigit d then '.' :: (d :: rest).takeWhile isDigit else []
  | _ => []

theorem fractionOf_point (d : Char) (rest : List Char) :
    fractionOf ('.' :: d :: rest)
      = if isDigit d then '.' :: (d :: rest).takeWhile isDigit else [] :=
  rfl

theorem fractionOf_other {text : List Char} (h : ∀ d rest, text ≠ '.' :: d :: rest) :
    fractionOf text = [] := by
  unfold fractionOf
  split
  · exact absurd rfl (h _ _)
  · rfl

theorem fractionOf_prefix (text : List Char) : ∃ rest, text = fractionOf text ++ rest := by
  unfold fractionOf
  split
  · rename_i d rest
    split
    · exact ⟨(d :: rest).dropWhile isDigit,
        congrArg _ List.takeWhile_append_dropWhile.symm⟩
    · exact ⟨_, rfl⟩
  · exact ⟨_, rfl⟩

theorem cutNumber_eq (text : List Char) :
    let lexeme := text.takeWhile isDigit ++ fractionOf (text.dropWhile isDigit)
    (cutNumber text).matter = .token (.number (decimalValue lexeme)) ∧
      (cutNumber text).text = lexeme := by
  have hall : ∀ d ∈ text.takeWhile isDigit, isDigit d = true :=
    fun d hd => List.all_eq_true.mp List.all_takeWhile d hd
  unfold cutNumber
  generalize text.takeWhile isDigit = whole at hall
  generalize text.dropWhile isDigit = left
  dsimp only
  split
  · rw [fractionOf_point]
    split
    · rw [decimalValue_point hall]
      exact ⟨rfl, rfl⟩
    · rw [List.append_nil, decimalValue_whole hall]
      exact ⟨rfl, rfl⟩
  · rename_i hno
    rw [fractionOf_other hno, List.append_nil, decimalValue_whole hall]
    exact ⟨rfl, rfl⟩

theorem fraction_eq (h : Reads s before read left) :
    fraction s = .ok () (s.past (encode (fractionOf left))) := by
  have hdigits : Uniform isDigit := .of_lt fun _ => isDigit_lt
  have hpeek : (ascii s.peek == '.') = left.head?.any (· == '.') := by
    rw [h.at.peek]
    exact headD_encode (.eq (by decide)) (by decide) left
  unfold fraction
  rw [get_bind, hpeek]
  by_cases hpoint : ∃ d rest, left = '.' :: d :: rest
  · obtain ⟨d, rest, rfl⟩ := hpoint
    have hnext : isDigit (ascii s.peekNext) = isDigit d := by
      rw [h.at.peekNext]
      exact headD_encode hdigits (by decide) (d :: rest)
    have hbehind : Reads (s.past (encode ['.'])) before (read ++ ['.']) (d :: rest) := h.past
    obtain ⟨hplaces, -⟩ := advanceWhile_reads hdigits (by decide) (by decide) hbehind
    rw [hnext, fractionOf_point]
    cases isDigit d with
    | true =>
      change (advance >>= fun _ => advanceWhile isDigit) s = _
      rw [Action.bind_of_ok (advance_reads (by decide) h),
        ← past_ascii (a := '.') (by decide) (by decide), hplaces, past_past, ← encode_append]
      rfl
    | false => rfl
  · have hno : ∀ d rest, left ≠ '.' :: d :: rest := fun d rest heq => hpoint ⟨d, rest, heq⟩
    rw [fractionOf_other hno]
    match left with
    | [] => rfl
    | [c] =>
      by_cases hc : c = '.'
      · subst hc
        have hnext : isDigit (ascii s.peekNext) = false := by
          rw [h.at.peekNext]
          rfl
        rw [hnext, Bool.and_false]
        rfl
      · simp [hc]
        rfl
    | c :: d :: rest =>
      have hc : c ≠ '.' := fun heq => hno d rest (by rw [heq])
      simp [hc]
      rfl

/-- A number, from behind its first digit. -/
theorem number_eq {c : Char} {rest : List Char} (hc : isDigit c = true)
    (h : Reads s before [c] rest) :
    ∃ kind more, (cutNumber (c :: rest)).matter = .token kind ∧
      (cutNumber (c :: rest)).text = c :: more ∧ number s = .ok kind (s.past (encode more)) := by
  have hdigits : Uniform isDigit := .of_lt fun _ => isDigit_lt
  obtain ⟨hwhole, hreads⟩ := advanceWhile_reads hdigits (by decide) (by decide) h
  have hfraction := fraction_eq hreads
  obtain ⟨rest', hrest⟩ := fractionOf_prefix (rest.dropWhile isDigit)
  rw [hrest] at hreads
  have hlexeme := lexeme_eq hreads.past
  obtain ⟨hmatter, htext⟩ := cutNumber_eq (c :: rest)
  rw [List.takeWhile_cons_of_pos hc, List.dropWhile_cons_of_pos hc] at hmatter htext
  refine ⟨_, rest.takeWhile isDigit ++ fractionOf (rest.dropWhile isDigit), hmatter, htext, ?_⟩
  unfold number
  rw [Action.bind_of_ok hwhole, Action.bind_of_ok hfraction, Action.bind_of_ok hlexeme,
    String.toList_ofList, past_past, ← encode_append]
  rfl

/-- A word, from behind its first letter. -/
theorem identifier_eq {c : Char} {rest : List Char} (hc : isNamePart c = true)
    (h : Reads s before [c] rest) :
    ∃ kind more, (cutWord (c :: rest)).matter = .token kind ∧
      (cutWord (c :: rest)).text = c :: more ∧ identifier s = .ok kind (s.past (encode more)) := by
  have hparts : Uniform isNamePart := .of_lt fun _ => isNamePart_lt
  obtain ⟨hword, hreads⟩ := advanceWhile_reads hparts (by decide) (by decide) h
  refine ⟨_, rest.takeWhile isNamePart, rfl, List.takeWhile_cons_of_pos hc, ?_⟩
  unfold identifier
  rw [Action.bind_of_ok hword, Action.bind_of_ok (lexeme_eq hreads), String.toList_ofList,
    List.takeWhile_cons_of_pos hc]
  rfl

theorem cutSymbol_longer {c : Char} {longer : Symbol} (hc : withEqual? c = some longer)
    (rest : List Char) : cutSymbol c ('=' :: rest) = ⟨.token (.symbol longer), [c, '='], rest⟩ := by
  unfold cutSymbol
  rw [hc]
  rfl

/-- Without a longer operator a character stands for itself. -/
theorem cutSymbol_single {c : Char} {rest : List Char}
    (h : withEqual? c = none ∨ rest.head? ≠ some '=') :
    cutSymbol c rest =
      match single? c with
      | some s => ⟨.token (.symbol s), [c], rest⟩
      | none => ⟨.fault (.unexpectedCharacter c), [c], rest⟩ := by
  unfold cutSymbol
  split
  · rename_i hc
    obtain hnone | hne := h
    · cases hnone.symm.trans hc
    · exact absurd rfl hne
  · rfl

/-- An operator, from behind its first character. -/
theorem operator_eq {c : Char} {rest : List Char} (h : Reads s before [c] rest) :
    ∃ more, (cutSymbol c rest).text = c :: more ∧
      ((cutSymbol c rest).matter = .fault (.unexpectedCharacter c) ∧ more = [] ∧
          operator c s = .ok none s ∨
        ∃ kind, (cutSymbol c rest).matter = .token kind ∧
          operator c s = .ok (some kind) (s.past (encode more))) := by
  have hmatch : matchNext '=' s =
      if rest.head? = some '=' then .ok true (s.past (encode ['='])) else .ok false s :=
    matchNext_eq (by decide) (by decide) (by decide) h
  have single (hcut : withEqual? c = none ∨ rest.head? ≠ some '=')
      (hoperator : operator c s = .ok ((single? c).map .symbol) s) :
      ∃ more, (cutSymbol c rest).text = c :: more ∧
        ((cutSymbol c rest).matter = .fault (.unexpectedCharacter c) ∧ more = [] ∧
            operator c s = .ok none s ∨
          ∃ kind, (cutSymbol c rest).matter = .token kind ∧
            operator c s = .ok (some kind) (s.past (encode more))) := by
    rw [cutSymbol_single hcut, hoperator]
    cases single? c with
    | none => exact ⟨[], rfl, .inl ⟨rfl, rfl, rfl⟩⟩
    | some symbol => exact ⟨[], rfl, .inr ⟨_, rfl, rfl⟩⟩
  cases hlonger : withEqual? c with
  | none =>
    refine single (.inl hlonger) ?_
    unfold operator
    rw [hlonger]
    rfl
  | some longer =>
    by_cases hnext : rest.head? = some '='
    · obtain ⟨rest, rfl⟩ : ∃ rest', rest = '=' :: rest' := by
        cases rest with
        | nil => cases hnext
        | cons d rest => exact ⟨rest, by rw [Option.some.inj hnext]⟩
      rw [if_pos hnext] at hmatch
      rw [cutSymbol_longer hlonger]
      refine ⟨['='], rfl, .inr ⟨_, rfl, ?_⟩⟩
      unfold operator
      rw [hlonger]
      exact Action.bind_of_ok hmatch
    · rw [if_neg hnext] at hmatch
      refine single (.inr hnext) ?_
      unfold operator
      rw [hlonger]
      exact Action.bind_of_ok hmatch

end

/-! ## The first piece of a text -/

/-- What reading a piece leaves: nothing to give out yet, or a fault. -/
def having (s : ByteScanner) (k : Cut) : Outcome Slip ByteScanner (Option Emission) :=
  match k.matter with
  | .blank => .ok none (s.past (encode k.text))
  | .token kind => .ok none { s.past (encode k.text) with pending := some kind }
  | .fault f =>
    .ok (some (.fault f.message (s.past (encode k.text)).line)) (s.past (encode k.text))

section
variable {s : ByteScanner} {before rest : List Char} {c : Char}

/-- A piece whose first character has been read. -/
theorem having_cons {k : Cut} {more : List Char} (htext : k.text = c :: more) :
    having s k =
      match k.matter with
      | .blank => .ok none ((s.past (encode [c])).past (encode more))
      | .token kind =>
        .ok none { (s.past (encode [c])).past (encode more) with pending := some kind }
      | .fault f =>
        .ok (some (.fault f.message ((s.past (encode [c])).past (encode more)).line))
          ((s.past (encode [c])).past (encode more)) := by
  have hpast : (s.past (encode [c])).past (encode more) = s.past (encode k.text) := by
    rw [past_past, ← encode_append, htext]
    rfl
  rw [hpast]
  rfl

/-- A comment, or a slash. -/
theorem scanBehind_slash (h : Reads (s.past (encode ['/'])) before ['/'] rest) :
    scanBehind '/' (s.past (encode ['/'])) = having s (cut '/' rest) := by
  have hmatch := matchNext_eq (a := '/') (by decide) (by decide) (by decide) h
  change (matchNext '/' >>= fun double =>
    if double then (do skipComment; return none) else settle (.symbol .slash)) _ = _
  by_cases hnext : rest.head? = some '/'
  · obtain ⟨rest, rfl⟩ : ∃ rest', rest = '/' :: rest' := by
      cases rest with
      | nil => cases hnext
      | cons d rest => exact ⟨rest, by rw [Option.some.inj hnext]⟩
    rw [if_pos hnext] at hmatch
    have hread : Reads ((s.past (encode ['/'])).past (encode ['/'])) before (['/'] ++ ['/']) rest :=
      h.past
    have hcomment := skipComment_eq hread
    rw [Action.bind_of_ok hmatch]
    change (skipComment >>= fun _ => pure none) _ = _
    rw [Action.bind_of_ok hcomment, past_past, past_past, ← encode_append, ← encode_append]
    rfl
  · rw [if_neg hnext] at hmatch
    have hcut : cut '/' rest = ⟨.token (.symbol .slash), ['/'], rest⟩ := by
      unfold cut
      rw [if_neg (by decide), if_neg (by simpa using hnext)]
      exact cutSymbol_single (c := '/') (.inl rfl)
    rw [Action.bind_of_ok hmatch, hcut]
    rfl

/-- A string literal. -/
theorem scanBehind_quote (h : Reads (s.past (encode ['"'])) before ['"'] rest) :
    scanBehind '"' (s.past (encode ['"'])) = having s (cut '"' rest) := by
  have hstring := string_eq h
  change (string >>= _) _ = having s (cutString rest)
  unfold cutString
  cases hdrop : rest.dropWhile (· != '"') with
  | nil =>
    rw [hdrop] at hstring
    rw [Action.bind_of_ok hstring, having_cons rfl]
    rfl
  | cons q rest' =>
    rw [hdrop] at hstring
    rw [Action.bind_of_ok hstring, having_cons rfl]
    rfl

theorem takeWhile_isContinuation (text : List Char) :
    (encode text).takeWhile isContinuation = [] := by
  cases text with
  | nil => rfl
  | cons c text =>
    obtain ⟨b, tail, hbytes, hb, -⟩ := utf8EncodeChar_cons c
    rw [encode_cons, hbytes, List.cons_append, List.takeWhile_cons_of_neg (by simp [hb])]

/-- A character is taken to its last byte, from behind its first one. -/
theorem unexpected_eq {b : UInt8} {tail : List UInt8} (hbytes : String.utf8EncodeChar c = b :: tail)
    (htail : ∀ b' ∈ tail, isContinuation b' = true) (h : Reads s before [] (c :: rest)) :
    unexpected (s.past [b]) =
      .ok (some (.fault (LexicalFault.unexpectedCharacter c).message (s.past (encode [c])).line))
        (s.past (encode [c])) := by
  have hencode : encode [c] = [b] ++ tail := by
    rw [encode_cons, hbytes, encode_nil, List.append_nil]
    rfl
  have hread : Reads (s.past (encode [c])) before [c] rest := h.behind
  have hat : At s (encode (before ++ [])) ([b] ++ (tail ++ encode rest)) := by
    rw [← List.append_assoc, ← hencode, ← encode_append]
    exact h.at
  have hrest := skipContinuation_eq hat.past
  rw [List.takeWhile_append_of_pos htail, takeWhile_isContinuation, List.append_nil, past_past,
    ← hencode] at hrest
  unfold unexpected
  rw [Action.bind_of_ok hrest, Action.bind_of_ok (lexeme_eq hread)]
  rfl

/-- What stands behind the first character of a lexeme, if that is of ASCII and no newline. -/
theorem scanBehind_eq (hc : c.toNat < 128) (hne : c ≠ '\n')
    (hstart : Reads s before [] (c :: rest)) :
    scanBehind c (s.past (encode [c])) = having s (cut c rest) := by
  have h : Reads (s.past (encode [c])) before [c] rest := hstart.behind
  by_cases hslash : c = '/'
  · subst hslash
    exact scanBehind_slash h
  by_cases hquote : c = '"'
  · subst hquote
    exact scanBehind_quote h
  have hslash' : (c == '/') = false := by simpa using hslash
  have hquote' : (c == '"') = false := by simpa using hquote
  have hnewline' : (c == '\n') = false := by simpa using hne
  unfold scanBehind cut
  simp only [hslash', hquote', hnewline', Bool.false_and, Bool.false_eq_true, if_false]
  cases hblank : isBlank c with
  | true => rfl
  | false =>
    simp only [Bool.false_eq_true, if_false]
    cases hdigit : isDigit c with
    | true =>
      obtain ⟨kind, more, hmatter, htext, hnumber⟩ := number_eq hdigit h
      simp only [if_true]
      rw [Action.bind_of_ok hnumber, having_cons htext, hmatter]
      rfl
    | false =>
      simp only [Bool.false_eq_true, if_false]
      cases hname : isNameStart c with
      | true =>
        have hpart : isNamePart c = true := by rw [isNamePart, hname, Bool.true_or]
        obtain ⟨kind, more, hmatter, htext, hword⟩ := identifier_eq hpart h
        simp only [if_true]
        rw [Action.bind_of_ok hword, having_cons htext, hmatter]
        rfl
      | false =>
        simp only [Bool.false_eq_true, if_false]
        obtain ⟨more, htext, ⟨hmatter, rfl, hoperator⟩ | ⟨kind, hmatter, hoperator⟩⟩ :=
          operator_eq h
        · have hencode : encode [c] = [UInt8.ofNat c.toNat] := by
            rw [encode_cons, utf8EncodeChar_ascii hc, encode_nil, List.append_nil]
          have hwhole := unexpected_eq (utf8EncodeChar_ascii hc) (by simp) hstart
          rw [← hencode] at hwhole
          rw [Action.bind_of_ok hoperator, having_cons htext, hmatter]
          exact hwhole
        · rw [Action.bind_of_ok hoperator, having_cons htext, hmatter]
          rfl

/-- No lexeme starts with a character beyond ASCII. -/
structure StartsNothing (c : Char) : Prop where
  blank : isBlank c = false
  slash : (c == '/') = false
  quote : (c == '"') = false
  digit : isDigit c = false
  name : isNameStart c = false
  longer : withEqual? c = none
  single : single? c = none

theorem StartsNothing.of_wide (hc : 128 ≤ c.toNat) : StartsNothing c := by
  have no {p : Bool} (h : p = true → c.toNat < 128) : p = false := by
    cases p with
    | false => rfl
    | true => exact absurd (h rfl) (Nat.not_lt.mpr hc)
  refine ⟨no isBlank_lt, no fun h => ?_, no fun h => ?_, no isDigit_lt, no isNameStart_lt, ?_, ?_⟩
  · rw [beq_iff_eq.mp h]
    decide
  · rw [beq_iff_eq.mp h]
    decide
  · exact Option.eq_none_iff_forall_ne_some.mpr fun s h =>
      absurd (withEqual?_lt h) (Nat.not_lt.mpr hc)
  · exact Option.eq_none_iff_forall_ne_some.mpr fun s h =>
      absurd (single?_lt h) (Nat.not_lt.mpr hc)

theorem StartsNothing.cut (hc : StartsNothing c) :
    Scanning.cut c rest = ⟨.fault (.unexpectedCharacter c), [c], rest⟩ := by
  unfold Scanning.cut
  simp only [hc.blank, hc.slash, hc.quote, hc.digit, hc.name, Bool.false_and, Bool.false_eq_true,
    if_false]
  rw [cutSymbol_single (.inl hc.longer), hc.single]

theorem StartsNothing.scanBehind (hc : StartsNothing c) (s : ByteScanner) :
    ByteScanner.scanBehind c s = unexpected s := by
  have hoperator : operator c s = .ok none s := by
    unfold operator
    rw [hc.longer, hc.single]
    rfl
  unfold ByteScanner.scanBehind
  simp only [hc.blank, hc.slash, hc.quote, hc.digit, hc.name, Bool.false_eq_true, if_false]
  rw [Action.bind_of_ok hoperator]

/-- **What is read from the start of a lexeme is the first piece of the text.** -/
theorem scanToken_cut (h : Reads s before [] (c :: rest)) :
    scanToken s = having s (cut c rest) := by
  obtain ⟨b, tail, hbytes, -, htail⟩ := utf8EncodeChar_cons c
  have hat : At s (encode (before ++ [])) (b :: (tail ++ encode rest)) := by
    have hat := h.at
    rwa [encode_cons, hbytes] at hat
  unfold scanToken
  rw [Action.bind_of_ok (advance_eq hat)]
  by_cases hc : c.toNat < 128
  · rw [utf8EncodeChar_ascii hc] at hbytes
    cases hbytes
    rw [ascii_ofNat hc]
    by_cases hne : c = '\n'
    · subst hne
      rfl
    · rw [← past_ascii hc hne]
      exact scanBehind_eq hc hne h
  · obtain ⟨b', tail', hbytes', hfirst, -⟩ := utf8EncodeChar_wide (Nat.not_lt.mp hc)
    cases hbytes.symm.trans hbytes'
    have hwide : 128 ≤ (ascii b).toNat := by
      rw [toNat_ascii]
      omega
    have hne : ascii b ≠ '\n' := fun heq => by rw [heq] at hwide; exact absurd hwide (by decide)
    rw [(StartsNothing.of_wide hwide).scanBehind, (StartsNothing.of_wide (Nat.not_lt.mp hc)).cut,
      ← past_single hne]
    exact unexpected_eq hbytes htail h

end

end ByteScanner

end LoxLang
