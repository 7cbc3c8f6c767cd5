import Mathlib.Tactic
import ProcProfile.Json.Printer
import ProcProfile.Json.Reader

/-!
# Written texts and numbers

A quoted text is read back as the text that was quoted, whatever its characters are, and a number as the digits that
were written, provided that they follow the grammar of numbers and that nothing comes after them which could go on
with the number.  Whole numbers follow the grammar, and so does the shortest decimal of a double.

* `readUnits_escape`, `readText_quote`: one character of a text, and all of it;
* `JsonNumber.Written`, `Ends`, `readNumber_writeNumber`: numbers that follow the grammar;
* `written_ofNat`, `written_ofInt`, `written_ofFloat`: the numbers of documents.
-/

namespace ProcProfile

namespace Json

/-! ### Texts -/

theorem hex4?_digitChar : ∀ n < 32,
    hex4? (some '0') (some '0') (some (Nat.digitChar (n / 16))) (some (Nat.digitChar (n % 16))) = some n := by
  decide

/-- A character is read from the signs that it is written with. -/
theorem readUnits_escape (c : Char) (passed : List TextUnit) (rest : List Sign) :
    readUnits passed ((escape c).map some ++ rest) = readUnits (.char c :: passed) rest := by
  unfold escape
  split_ifs with h₁ h₂ h₃ h₄ h₅ h₆ h₇ hlow
  · subst h₁
    rfl
  · subst h₂
    rfl
  · subst h₃
    rfl
  · subst h₄
    rfl
  · subst h₅
    rfl
  · subst h₆
    rfl
  · subst h₇
    rfl
  · have hcode : TextUnit.ofCode c.toNat = .char c := by
      have hhalf : (isHighHalf c.toNat || isLowHalf c.toNat) = false := by
        simp only [isHighHalf, isLowHalf, Bool.or_eq_false_iff, decide_eq_false_iff_not]
        omega
      rw [TextUnit.ofCode, hhalf, Char.ofNat_toNat]
      rfl
    simp only [List.map_cons, List.map_nil, List.cons_append, List.nil_append]
    rw [readUnits, hex4?_digitChar _ hlow]
    simp only [hcode]
  · simp only [List.map_cons, List.map_nil, List.cons_append, List.nil_append]
    rw [readUnits]
    · simp [hlow, h₂]
    · simp [h₁]
    · simp [h₂]
    · simp [h₂]

theorem readUnits_quote (text : List Char) (passed : List TextUnit) (rest : List Sign) :
    readUnits passed ((text.flatMap escape).map some ++ some '"' :: rest) =
      some (passed.reverse ++ text.map .char, rest) := by
  induction text generalizing passed with
  | nil => simp [readUnits]
  | cons c text ih =>
    rw [List.flatMap_cons, List.map_append, List.append_assoc, readUnits_escape, ih]
    simp

theorem joinUnits_char (text passed : List Char) :
    joinUnits passed (text.map .char) = some (passed.reverse ++ text) := by
  induction text generalizing passed with
  | nil => simp [joinUnits]
  | cons c text ih =>
    rw [List.map_cons, joinUnits, ih]
    simp

/-- A quoted text, after its opening quote. -/
theorem readText_quote (text : List Char) (rest : List Sign) :
    readText ((text.flatMap escape).map some ++ some '"' :: rest) = some (some text, rest) := by
  have hjoin := joinUnits_char text []
  rw [List.reverse_nil, List.nil_append] at hjoin
  rw [readText, readUnits_quote, Option.map_some, List.reverse_nil, List.nil_append]
  simp only [hjoin]

end Json

/-! ### Numbers -/

namespace JsonNumber

/-- Digits, at least one of them. -/
def AreDigits (digits : List Char) : Prop := digits ≠ [] ∧ ∀ c ∈ digits, c.isDigit

/-- Numbers that follow the grammar. -/
structure Written (n : JsonNumber) : Prop where
  whole : AreDigits n.whole
  /-- No zeros stand in front of a number. -/
  leading : n.whole.head? = some '0' → n.whole = ['0']
  fraction : ∀ c ∈ n.fraction, c.isDigit
  exponent : ∀ e ∈ n.exponent, AreDigits e.digits

end JsonNumber

namespace Json

open JsonNumber

/-- Whether a number goes on with a character. -/
def goesOn (c : Char) : Bool := c.isDigit || c == '.' || c == 'e' || c == 'E'

/-- Signs with which a number that comes before them does not go on. -/
def Ends (rest : List Sign) : Prop := ∀ c, rest.head? = some (some c) → goesOn c = false

theorem ends_nil : Ends [] := by
  intro c h
  cases h

theorem ends_cons {c : Char} (h : goesOn c = false) (rest : List Sign) : Ends (some c :: rest) := by
  intro c' h'
  cases h'
  exact h

/-- Signs that do not start with a digit. -/
def NoDigit (rest : List Sign) : Prop := ∀ c, rest.head? = some (some c) → c.isDigit = false

theorem noDigit_cons {c : Char} (h : c.isDigit = false) (rest : List Sign) : NoDigit (some c :: rest) := by
  intro c' h'
  cases h'
  exact h

theorem Ends.noDigit {rest : List Sign} (h : Ends rest) : NoDigit rest := by
  intro c hc
  have hends := h c hc
  simp only [goesOn, Bool.or_eq_false_iff] at hends
  exact hends.1.1.1

theorem readDigits_append {digits : List Char} (hdigits : ∀ c ∈ digits, c.isDigit) {rest : List Sign}
    (hrest : NoDigit rest) : readDigits (digits.map some ++ rest) = (digits, rest) := by
  have hall : ∀ c ∈ digits.map some, (c : Sign).any Char.isDigit = true := by
    simp only [List.mem_map]
    rintro _ ⟨c, hc, rfl⟩
    exact hdigits c hc
  have htake : rest.takeWhile (fun c => c.any Char.isDigit) = [] ∧
      rest.dropWhile (fun c => c.any Char.isDigit) = rest := by
    cases rest with
    | nil => exact ⟨rfl, rfl⟩
    | cons c rest =>
      have hc : c.any Char.isDigit = false := by
        cases c with
        | none => rfl
        | some c => exact hrest c rfl
      simp [hc]
  rw [readDigits, List.takeWhile_append_of_pos hall, List.dropWhile_append_of_pos hall, htake.1, htake.2]
  simp

/-- The fraction of a number as it is written. -/
def pointSigns (fraction : List Char) : List Char := if fraction.isEmpty then [] else '.' :: fraction

/-- The exponent of a number as it is written. -/
def exponentSigns (exponent : Option JsonExponent) : List Char :=
  exponent.elim [] fun e => 'e' :: (if e.negative then '-' else '+') :: e.digits

theorem writeNumber_eq (n : JsonNumber) : writeNumber n =
    (if n.negative then ['-'] else []) ++ (n.whole ++ (pointSigns n.fraction ++ exponentSigns n.exponent)) := by
  unfold writeNumber
  cases h : n.exponent with
  | none => rfl
  | some e => rfl

theorem readExponentDigits_append {digits : List Char} (h : AreDigits digits) (negative : Bool) {rest : List Sign}
    (hrest : NoDigit rest) :
    readExponentDigits negative (digits.map some ++ rest) = some (some ⟨negative, digits⟩, rest) := by
  have hne : digits.isEmpty = false := by simpa using h.1
  rw [readExponentDigits, readDigits_append h.2 hrest]
  simp [hne]

theorem readExponent_append {exponent : Option JsonExponent} (h : ∀ e ∈ exponent, AreDigits e.digits)
    {rest : List Sign} (hrest : Ends rest) :
    readExponent ((exponentSigns exponent).map some ++ rest) = some (exponent, rest) := by
  cases exponent with
  | none =>
    cases rest with
    | nil => rfl
    | cons c rest =>
      have hc : (c = some 'e' || c = some 'E') = false := by
        cases c with
        | none => rfl
        | some c =>
          have hends := hrest c rfl
          simp only [goesOn, Bool.or_eq_false_iff, beq_eq_false_iff_ne] at hends
          simp [hends]
      show readExponent (c :: rest) = _
      simp only [readExponent, hc]
      rfl
  | some e =>
    obtain ⟨negative, digits⟩ := e
    have hread := readExponentDigits_append (h _ rfl) negative hrest.noDigit
    cases negative with
    | true => exact hread
    | false => exact hread

theorem readFraction_append {fraction : List Char} (h : ∀ c ∈ fraction, c.isDigit) {rest : List Sign}
    (hrest : NoDigit rest) (hpoint : rest.head? ≠ some (some '.')) :
    readFraction ((pointSigns fraction).map some ++ rest) = some (fraction, rest) := by
  cases fraction with
  | nil =>
    show readFraction rest = _
    rw [readFraction]
    intro cs hcs
    rw [hcs] at hpoint
    exact hpoint rfl
  | cons c fraction =>
    show readFraction (some '.' :: ((c :: fraction).map some ++ rest)) = _
    rw [readFraction, readDigits_append h hrest]
    rfl

/-- What comes after a whole part: no digit, and what comes after a fraction is no point. -/
theorem noDigit_exponentSigns (exponent : Option JsonExponent) {rest : List Sign} (hrest : Ends rest) :
    NoDigit ((exponentSigns exponent).map some ++ rest) ∧
      ((exponentSigns exponent).map some ++ rest).head? ≠ some (some '.') := by
  cases exponent with
  | none =>
    refine ⟨hrest.noDigit, ?_⟩
    intro hpoint
    have hends := hrest '.' hpoint
    exact absurd hends (by decide)
  | some e => exact ⟨noDigit_cons (by decide) _, by simp [exponentSigns]⟩

theorem readMagnitude_append {n : JsonNumber} (h : n.Written) {rest : List Sign} (hrest : Ends rest) :
    readMagnitude n.negative
      ((n.whole ++ (pointSigns n.fraction ++ exponentSigns n.exponent)).map some ++ rest) = some (n, rest) := by
  obtain ⟨hexponent, hpoint⟩ := noDigit_exponentSigns n.exponent hrest
  have hfraction : NoDigit ((pointSigns n.fraction).map some ++
      ((exponentSigns n.exponent).map some ++ rest)) := by
    unfold pointSigns
    split_ifs
    · exact hexponent
    · exact noDigit_cons (by decide) _
  have hleading : (n.whole.isEmpty || (decide (n.whole.length ≠ 1) && n.whole.head? == some '0')) = false := by
    rw [Bool.or_eq_false_iff, List.isEmpty_eq_false_iff, Bool.and_eq_false_iff]
    refine ⟨h.whole.1, ?_⟩
    by_cases hhead : n.whole.head? = some '0'
    · left
      rw [h.leading hhead]
      rfl
    · right
      exact beq_eq_false_iff_ne.2 hhead
  simp only [List.map_append, List.append_assoc]
  rw [readMagnitude, readDigits_append h.whole.2 hfraction]
  simp only [hleading, readFraction_append h.fraction hexponent hpoint]
  show (readExponent _ >>= _) = _
  rw [readExponent_append h.exponent hrest]
  rfl

/-- A number is read back as it is written. -/
theorem readNumber_writeNumber {n : JsonNumber} (h : n.Written) {rest : List Sign} (hrest : Ends rest) :
    readNumber ((writeNumber n).map some ++ rest) = some (n, rest) := by
  have hread := readMagnitude_append h hrest
  rw [writeNumber_eq]
  cases hnegative : n.negative with
  | true =>
    rw [hnegative] at hread
    exact hread
  | false =>
    obtain ⟨c, whole, hwhole⟩ := List.exists_cons_of_ne_nil h.whole.1
    have hc : c.isDigit := h.whole.2 c (by rw [hwhole]; exact List.mem_cons_self)
    rw [hnegative, hwhole] at hread
    show readNumber ((n.whole ++ _).map some ++ rest) = _
    rw [hwhole]
    simp only [List.cons_append, List.map_cons] at hread ⊢
    rw [readNumber]
    · exact hread
    · rintro cs hcs
      cases hcs
      exact absurd hc (by decide)

/-- The character with which a number begins. -/
theorem exists_writeNumber {n : JsonNumber} (h : n.Written) :
    ∃ c cs, writeNumber n = c :: cs ∧ (c = '-' ∨ c.isDigit) := by
  rw [writeNumber_eq]
  cases n.negative with
  | true => exact ⟨'-', _, rfl, .inl rfl⟩
  | false =>
    obtain ⟨c, whole, hwhole⟩ := List.exists_cons_of_ne_nil h.whole.1
    rw [hwhole]
    exact ⟨c, _, rfl, .inr (h.whole.2 c (by rw [hwhole]; exact List.mem_cons_self))⟩

end Json

/-! ### Whole numbers -/

namespace JsonNumber

theorem areDigits_toDigits (n : Nat) : AreDigits (Nat.toDigits 10 n) :=
  ⟨Nat.toDigits_ne_nil, fun _ hc => Nat.isDigit_of_mem_toDigits (by decide) (by decide) hc⟩

/-- Only zero is written with a zero in front. -/
theorem eq_zero_of_head?_toDigits {n : Nat} (h : (Nat.toDigits 10 n).head? = some '0') : n = 0 := by
  have hdigit : ∀ k < 10, Nat.digitChar k = '0' → k = 0 := by decide
  induction n using Nat.strong_induction_on with
  | _ n ih =>
    rw [Nat.toDigits_eq_if (by decide)] at h
    split_ifs at h with hn
    · exact hdigit n hn (Option.some.inj h)
    · rw [List.head?_append_of_ne_nil _ Nat.toDigits_ne_nil] at h
      have hzero := ih (n / 10) (by omega) h
      omega

theorem toDigits_of_head? {n : Nat} (h : (Nat.toDigits 10 n).head? = some '0') : Nat.toDigits 10 n = ['0'] := by
  rw [eq_zero_of_head?_toDigits h]
  rfl

theorem take_toDigits_of_head? {n k : Nat} (h : ((Nat.toDigits 10 n).take (k + 1)).head? = some '0') :
    (Nat.toDigits 10 n).take (k + 1) = ['0'] := by
  rw [List.head?_take, if_neg (by omega)] at h
  rw [toDigits_of_head? h, List.take_succ_cons, List.take_nil]

theorem written_ofNat (n : Nat) : (ofNat n).Written where
  whole := areDigits_toDigits n
  leading := toDigits_of_head?
  fraction := by simp [ofNat]
  exponent := by simp [ofNat]

theorem written_ofInt (n : Int) : (ofInt n).Written := by
  cases n with
  | ofNat n => exact written_ofNat n
  | negSucc n => exact ⟨(written_ofNat (n + 1)).1, (written_ofNat (n + 1)).2, by simp [ofInt, ofNat],
      by simp [ofInt, ofNat]⟩

/-! ### Doubles -/

/-- A decimal with digits, or zero without an exponent, is written as the grammar wants it. -/
theorem written_ofDecimal (negative : Bool) {d : Decimal} (h : d.digits = 0 → d.exponent = 0) :
    (ofDecimal negative d).Written := by
  obtain ⟨hne, hall⟩ := areDigits_toDigits d.digits
  have hzeros : ∀ k, ∀ c ∈ List.replicate k '0', c.isDigit := by
    intro k c hc
    rw [List.eq_of_mem_replicate hc]
    rfl
  have hzero : ∀ c ∈ ['0'], c.isDigit := hzeros 1
  unfold ofDecimal
  dsimp only
  split_ifs with hplain hexponent hpoint
  · refine ⟨⟨by simp [hne], ?_⟩, ?_, hzero, by simp⟩
    · intro c hc
      rcases List.mem_append.1 hc with hc | hc
      · exact hall c hc
      · exact hzeros _ c hc
    · intro hhead
      dsimp only at hhead ⊢
      rw [List.head?_append_of_ne_nil _ hne] at hhead
      rw [toDigits_of_head? hhead, h (eq_zero_of_head?_toDigits hhead)]
      rfl
  · exact ⟨⟨by simp [hne], fun c hc => hall c (List.mem_of_mem_take hc)⟩, take_toDigits_of_head?,
      fun c hc => hall c (List.mem_of_mem_drop hc), by simp⟩
  · refine ⟨⟨by simp, hzero⟩, by simp, ?_, by simp⟩
    intro c hc
    rcases List.mem_append.1 hc with hc | hc
    · exact hzeros _ c hc
    · exact hall c hc
  · refine ⟨⟨by simp [hne], fun c hc => hall c (List.mem_of_mem_take hc)⟩, take_toDigits_of_head?,
      fun c hc => hall c (List.mem_of_mem_drop hc), ?_⟩
    intro e he
    cases he
    exact areDigits_toDigits _

end JsonNumber

namespace Decimal

theorem digits_strip {d : Decimal} (h : d.digits ≠ 0) (fuel : Nat) : (strip fuel d).digits ≠ 0 := by
  induction fuel generalizing d with
  | zero => exact h
  | succ fuel ih =>
    rw [strip]
    split_ifs with hzero
    · apply ih
      dsimp only
      omega
    · exact h

/-- Nothing but zero has zero nearby. -/
theorem roundsTo_zero {b : Binary} (h : 0 < b.mantissa) (k : Int) : roundsTo b k 0 = false := by
  have hpower : ∀ e : Int, 0 < power 2 e ∧ 0 < power 10 e := by
    intro e
    exact ⟨Nat.pow_pos (by decide), Nat.pow_pos (by decide)⟩
  have hunit : 0 < (scale b k).1 := Nat.mul_pos (hpower _).1 (hpower _).2
  have hlow : 0 < (4 * b.mantissa - (if b.narrowBelow then 1 else 2)) * (scale b k).1 := by
    apply Nat.mul_pos _ hunit
    split_ifs
    · omega
    · omega
  unfold roundsTo
  dsimp only
  generalize (4 * b.mantissa - (if b.narrowBelow then 1 else 2)) * (scale b k).1 = low at hlow ⊢
  split_ifs
  · rw [decide_eq_false_iff_not]
    omega
  · rw [decide_eq_false_iff_not]
    omega

/-- What is found on a grid rounds to the number. -/
theorem roundsTo_of_onGrid {b : Binary} {k : Int} {d : Nat} (h : onGrid b k = some d) : roundsTo b k d = true := by
  unfold onGrid at h
  dsimp only at h
  split_ifs at h
  all_goals
    cases h
    assumption

/-- A shortest decimal has digits, or it is a plain zero. -/
theorem exponent_shortest {b : Binary} (h : 0 < b.mantissa) (hd : (shortest b).digits = 0) :
    (shortest b).exponent = 0 := by
  unfold shortest at hd ⊢
  dsimp only at hd ⊢
  generalize hfound : (List.range 17).findSome? _ = found at hd ⊢
  cases found with
  | none => rfl
  | some d =>
    obtain ⟨n, -, hn⟩ := List.exists_of_findSome?_eq_some hfound
    obtain ⟨digits, hgrid, rfl⟩ := Option.map_eq_some_iff.1 hn
    have hne : digits ≠ 0 := by
      rintro rfl
      have hrounds := roundsTo_of_onGrid hgrid
      rw [roundsTo_zero h] at hrounds
      cases hrounds
    exact absurd hd (digits_strip hne 20)

end Decimal

/-- A finite double other than zero has a mantissa. -/
theorem Binary.mantissa_ofBits {bits : UInt64} (hne : bits ≠ 0) (hlt : bits < 0x8000000000000000) :
    0 < (ofBits bits).mantissa := by
  have hpos : 0 < bits.toNat := by
    rw [Nat.pos_iff_ne_zero]
    exact fun hzero => hne (UInt64.toNat_inj.1 hzero)
  have hsmall : bits.toNat < 0x8000000000000000 := UInt64.lt_iff_toNat_lt.1 hlt
  have hbiased : ((bits >>> 52) &&& 0x7ff).toNat = bits.toNat / 2 ^ 52 % 2 ^ 11 := by
    rw [UInt64.toNat_and, UInt64.toNat_shiftRight, ← Nat.and_two_pow_sub_one_eq_mod, ← Nat.shiftRight_eq_div_pow]
    rfl
  have hfraction : (bits &&& 0xfffffffffffff).toNat = bits.toNat % 2 ^ 52 := by
    rw [UInt64.toNat_and, ← Nat.and_two_pow_sub_one_eq_mod]
    rfl
  unfold ofBits
  dsimp only
  rw [hbiased, hfraction]
  split_ifs
  · dsimp only
    omega
  · dsimp only
    omega

namespace JsonNumber

/-- Doubles are written as the grammar wants it. -/
theorem written_ofFloat {x : Float} {n : JsonNumber} (h : ofFloat? x = some n) : n.Written := by
  unfold ofFloat? at h
  dsimp only at h
  split_ifs at h with hinf hzero
  · cases h
    exact ⟨⟨by simp, by simp⟩, by simp, by simp, by simp⟩
  · cases h
    apply written_ofDecimal
    apply Decimal.exponent_shortest
    apply Binary.mantissa_ofBits hzero
    rw [UInt64.not_le] at hinf
    exact UInt64.lt_trans hinf (by decide)

end JsonNumber

end ProcProfile
