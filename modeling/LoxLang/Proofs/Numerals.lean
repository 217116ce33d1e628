import LoxLang.Program.Parenthesized
import LoxLang.Proofs.Lexemes
import LoxLang.Proofs.Rounding

/-!
# Written numbers

A number in a program in parentheses is written with digits and one point, and no two numbers are
written alike.

* `Pointed`: digits with a point among them, and the rational number that they stand for;
* `Decimal.pointed`, `writeFinite_pointed`: what is written for a decimal, and for a double;
* `Binary64.eq_of_ofFloat`: the double of a mantissa and an exponent;
* `Numeral.not_negative`: no numeral is read as a negative number;
* `write_injective`: different numbers of sources have different texts.
-/

namespace LoxLang

open Scanning

/-! ## Digits with a point -/

/-- Digits with a point among them, and the number that they stand for. -/
inductive Pointed : List Char → ℚ → Prop
  | mk {digits places : List Char} (h : IsDigits digits) (hplaces : IsDigits places) :
    Pointed (digits ++ '.' :: places) (digitsValue (digits ++ places) / 10 ^ places.length)

theorem Pointed.unique {text : List Char} {x y : ℚ} (h : Pointed text x) (h' : Pointed text y) :
    x = y := by
  generalize htext : text = text' at h'
  obtain ⟨hdigits, hplaces⟩ := h
  obtain ⟨hdigits', hplaces'⟩ := h'
  have hpoint (rest : List Char) : ∀ b ∈ ('.' :: rest).head?, isDigit b = false := by
    rintro b ⟨⟩
    decide
  obtain ⟨htake, hdrop⟩ := run_append hdigits.all (hpoint _)
  obtain ⟨htake', hdrop'⟩ := run_append hdigits'.all (hpoint _)
  rw [htext] at htake hdrop
  rw [List.cons.inj (hdrop.symm.trans hdrop') |>.2, htake.symm.trans htake']

/-- Digits with a point are read as a number. -/
theorem Pointed.lexeme {text : List Char} {x : ℚ} (h : Pointed text x) :
    ∃ value, Lexeme (.number value) text := by
  obtain ⟨hdigits, hplaces⟩ := h
  exact ⟨_, .number (.decimal hdigits hplaces)⟩

theorem isDigits_toDigits (n : Nat) : IsDigits (Nat.toDigits 10 n) :=
  ⟨Nat.toDigits_ne_nil, fun _ hc => Nat.isDigit_of_mem_toDigits (by decide) (by decide) hc⟩

theorem IsDigits.append {text text' : List Char} (h : ∀ c ∈ text, c.isDigit = true)
    (h' : IsDigits text') : IsDigits (text ++ text') :=
  ⟨List.append_ne_nil_of_right_ne_nil _ h'.1, List.forall_mem_append.mpr ⟨h, h'.2⟩⟩

theorem digitsValue_toDigits (n : Nat) : digitsValue (Nat.toDigits 10 n) = n :=
  Nat.ofDigitChars_ten_toDigits

/-- Zeros in front do not count. -/
theorem digitsValue_zeros (k : Nat) (text : List Char) :
    digitsValue (List.replicate k '0' ++ text) = digitsValue text := by
  induction k with
  | zero => rfl
  | succ k ih => exact ih

/-! ## Decimals -/

/-- A decimal with places is written with a point. -/
theorem Decimal.pointed {d : Decimal} {k : Nat} (h : d.exponent = .negSucc k) :
    Pointed d.positional.toList d.value := by
  have hvalue : d.value = (d.digits : ℚ) / 10 ^ (k + 1) := by
    rw [Decimal.value, h, zpow_negSucc, div_eq_mul_inv]
  have hdigits := isDigits_toDigits d.digits
  unfold Decimal.positional
  rw [h, hvalue]
  dsimp only
  split
  · rename_i hlt
    generalize hds : Nat.toDigits 10 d.digits = ds at hdigits hlt
    have hfront : IsDigits (ds.take (ds.length - (k + 1))) := by
      refine ⟨?_, fun c hc => hdigits.2 c (List.mem_of_mem_take hc)⟩
      rw [← List.length_pos_iff, List.length_take]
      omega
    have hplaces : IsDigits (ds.drop (ds.length - (k + 1))) := by
      refine ⟨?_, fun c hc => hdigits.2 c (List.mem_of_mem_drop hc)⟩
      rw [← List.length_pos_iff, List.length_drop]
      omega
    have hpointed := Pointed.mk hfront hplaces
    rw [List.take_append_drop, List.length_drop, Nat.sub_sub_self hlt.le, ← hds,
      digitsValue_toDigits] at hpointed
    rw [String.toList_ofList, ← hds]
    exact hpointed
  · rename_i hge
    generalize hds : Nat.toDigits 10 d.digits = ds at hdigits hge
    have hzeros (n : Nat) : ∀ c ∈ List.replicate n '0', c.isDigit = true := by
      intro c hc
      rw [List.eq_of_mem_replicate hc]
      decide
    have hplaces := IsDigits.append (hzeros (k + 1 - ds.length)) hdigits
    have hzero : IsDigits (List.replicate 1 '0') := ⟨List.cons_ne_nil _ _, hzeros 1⟩
    have hpointed := Pointed.mk hzero hplaces
    rw [digitsValue_zeros, digitsValue_zeros, List.length_append, List.length_replicate,
      Nat.sub_add_cancel (Nat.le_of_not_lt hge), ← hds, digitsValue_toDigits] at hpointed
    rw [String.toList_ofList, ← hds]
    exact hpointed

/-! ## Doubles -/

/-- What is written for a finite double stands for a number in its interval. -/
theorem writeFinite_pointed {m : Nat} {q : Int} (hdouble : IsDouble m q) :
    ∃ x, Pointed (Literal.numberFormat.writeFinite m q).toList x ∧
      (RoundingInterval.ofDyadic m q).Contains x := by
  have hfull (n? : Option Nat) : n?.filter (fun n => Literal.numberFormat.fullBelow.all (n < ·))
      = n? := by
    cases n? <;> rfl
  unfold NumberFormat.writeFinite
  rw [hfull]
  cases hwhole : (Binary64.finite false m q).whole? with
  | some n =>
    refine ⟨n, ?_, RoundingInterval.cast_of_whole? hwhole ▸ RoundingInterval.contains_self m q⟩
    have hplaces : IsDigits ['0'] :=
      ⟨List.cons_ne_nil _ _, List.forall_mem_singleton.mpr (by decide)⟩
    have hpointed := Pointed.mk (isDigits_toDigits n) hplaces
    have hvalue : digitsValue (Nat.toDigits 10 n ++ ['0']) = 10 * n := by
      unfold digitsValue
      rw [List.foldl_append, ← digitsValue, digitsValue_toDigits]
      rfl
    rw [hvalue, List.length_singleton] at hpointed
    push_cast at hpointed
    rw [pow_one, mul_div_cancel_left₀ _ (by norm_num)] at hpointed
    change Pointed (digitsOf n ++ ".0").toList n
    rw [String.toList_append, digitsOf, String.toList_ofList]
    exact hpointed
  | none =>
    have hm : 0 < m := by
      refine Nat.pos_of_ne_zero fun hzero => ?_
      subst hzero
      cases q <;> simp [Binary64.whole?] at hwhole
    have hcontains := RoundingInterval.shortest_contains hdouble hm Literal.numberFormat.tie
    refine ⟨_, ?_, hcontains⟩
    cases hexponent : (shortest Literal.numberFormat.tie m q).exponent with
    | ofNat k =>
      refine absurd hcontains ?_
      rw [Decimal.value, hexponent, Int.ofNat_eq_natCast, zpow_natCast]
      exact_mod_cast RoundingInterval.not_contains_whole hwhole _
    | negSucc k => exact Decimal.pointed hexponent

namespace Binary64

/-- The bits of a finite double, but for its sign. -/
theorem of_ofBits {bits : UInt64} {negative : Bool} {m : Nat} {q : Int}
    (h : ofBits bits = .finite negative m q) :
    IsDouble m q ∧ negative = bits.toNat.testBit 63 ∧
      bits.toNat % 2 ^ 63 = (q - minExponent).toNat * 2 ^ 52 + m := by
  have hhidden : hiddenBit = 4503599627370496 := rfl
  unfold ofBits at h
  rw [hhidden] at h
  dsimp only at h
  split at h
  · split at h <;> cases h
  · split at h
    · cases h
      refine ⟨⟨?_, le_rfl, .inr rfl⟩, rfl, ?_⟩ <;> omega
    · cases h
      refine ⟨⟨?_, ?_, ?_⟩, rfl, ?_⟩ <;> omega

/-- A mantissa and an exponent are those of one double that is not negative. -/
theorem eq_of_ofFloat {x y : Float} {m : Nat} {q : Int} (hx : ofFloat x = .finite false m q)
    (hy : ofFloat y = .finite false m q) : x = y := by
  rw [← Float.toBits_inj, ← UInt64.toNat_inj]
  have hpositive (z : Float) (hz : ofFloat z = .finite false m q) :
      z.toBits.toNat = (q - minExponent).toNat * 2 ^ 52 + m := by
    obtain ⟨-, hsign, hbits⟩ := of_ofBits hz
    rw [← hbits, Nat.mod_eq_of_lt]
    have hlt := z.toBits.toNat_lt
    rw [Nat.testBit_eq_decide_div_mod_eq, eq_comm, decide_eq_false_iff_not] at hsign
    omega
  rw [hpositive x hx, hpositive y hy]

end Binary64

/-! ## Numbers of a source -/

/-- Bits up to those of infinity are kept by a double. -/
theorem toBits_ofBits {bits : UInt64} (h : bits.toNat ≤ 2047 * 2 ^ 52) :
    (Float.ofBits bits).toBits = bits := by
  have hvalid : Float.Model.Format.binary64.Valid bits.toBitVec := by
    refine ⟨fun hexponent hmantissa => (hmantissa (BitVec.eq_of_toNat_eq ?_)).elim⟩
    have hexponent : bits.toNat / 2 ^ 52 % 2048 = 2047 := by
      simpa [Float.Model.UnpackedFloat.unpackExponent, Nat.shiftRight_eq_div_pow]
        using congrArg BitVec.toNat hexponent
    have hmantissa : (@Float.Model.UnpackedFloat.unpackMantissa .binary64
        bits.toBitVec).toNat = bits.toNat % 2 ^ 52 := by
      simp [Float.Model.UnpackedFloat.unpackMantissa]
    rw [hmantissa]
    change bits.toNat % 2 ^ 52 = 0
    omega
  exact UInt64.toBitVec_inj.mp (Float.Model.UnpackedFloat.pack_unpack_of_valid hvalid)

theorem nearestBits_le (num den : Nat) : (nearestBits num den).toNat ≤ 2047 * 2 ^ 52 := by
  unfold nearestBits
  split
  · exact Nat.zero_le _
  · dsimp only
    rw [Nat.toUInt64_eq, UInt64.toNat_ofNat']
    exact (Nat.mod_le _ _).trans (min_le_right _ _)

/-- No numeral stands for a negative number. -/
theorem Numeral.not_negative {text : List Char} {value : Float} (h : Numeral text value)
    {negative : Bool} {m : Nat} {q : Int}
    (hvalue : Binary64.ofFloat value = .finite negative m q) : negative = false := by
  have hbits : ∃ num den, value = Float.ofBits (nearestBits num den) := by
    cases h <;> exact ⟨_, _, rfl⟩
  obtain ⟨num, den, rfl⟩ := hbits
  have hle := nearestBits_le num den
  rw [Binary64.ofFloat, toBits_ofBits hle] at hvalue
  obtain ⟨-, hsign, -⟩ := Binary64.of_ofBits hvalue
  rw [hsign, Nat.testBit_eq_decide_div_mod_eq, decide_eq_false_iff_not]
  omega

/-! ## What is written -/

/-- A number that can be written with digits and a point. -/
def IsFinite (value : Float) : Prop :=
  ∃ negative m q, Binary64.ofFloat value = .finite negative m q

section
variable {x y : Float}

/-- What is written for a number of a source. -/
theorem write_pointed {text : List Char} (h : Numeral text x) (hfinite : IsFinite x) :
    ∃ m q r, Binary64.ofFloat x = .finite false m q ∧
      Pointed (Literal.numberFormat.write x).toList r ∧
        (RoundingInterval.ofDyadic m q).Contains r := by
  obtain ⟨negative, m, q, hx⟩ := hfinite
  obtain rfl := h.not_negative hx
  obtain ⟨r, hpointed, hcontains⟩ := writeFinite_pointed (Binary64.of_ofBits hx).1
  refine ⟨m, q, r, hx, ?_, hcontains⟩
  unfold NumberFormat.write
  rw [hx]
  exact hpointed

/-- **Different numbers of sources are written differently.** -/
theorem write_injective {text text' : List Char} (hx : Numeral text x) (hy : Numeral text' y)
    (hfinite : IsFinite x) (hfinite' : IsFinite y)
    (h : Literal.numberFormat.write x = Literal.numberFormat.write y) : x = y := by
  obtain ⟨m, q, r, hm, hpointed, hcontains⟩ := write_pointed hx hfinite
  obtain ⟨m', q', r', hm', hpointed', hcontains'⟩ := write_pointed hy hfinite'
  rw [h] at hpointed
  obtain rfl := hpointed.unique hpointed'
  obtain ⟨rfl, rfl⟩ := RoundingInterval.contains_unique (Binary64.of_ofBits hm).1
    (Binary64.of_ofBits hm').1 hcontains hcontains'
  exact Binary64.eq_of_ofFloat hm hm'

end

end LoxLang
