import RiscvSim.Binary64
import RiscvSim.Lexer
import RiscvSim.ParsePasses

/-! The way of a floating-point literal: the lexer converts it to a double-precision number and
prints that with six digits after the point, and the parser converts this text again. -/

namespace RiscvSim

/-- `std::stod` of a decimal text. A number that is too large and one that loses digits below the
normal numbers are out of range. -/
def stod (s : String) : Except Thrown Binary64 :=
  match Decimal.signed s with
  | none => .error .invalidArgument
  | some (negative, x) =>
    let place := Binary64.nearest (x * 2 ^ 1074)
    if h : place < Binary64.infinity then
      if x * 2 ^ 1074 ≠ Binary64.scaled place ∧ x * 2 ^ 1074 < 2 ^ 52 - 1 / 4 then
        .error .outOfRange
      else .ok ⟨negative, place, h⟩
    else .error .outOfRange

/-- `std::to_string`, which prints with `%f`. -/
def doubleToString (d : Binary64) : String :=
  Decimal.fixed 6 d.negative (Decimal.roundEven (d.magnitude * 10 ^ 6))

/-- The text of a `FLOAT` token. -/
def literalText (s : String) : Except Thrown String := (stod s).map doubleToString

/-- The parser's conversion for `.double`. -/
def doubleBits (s : String) : Except Thrown (BitVec 64) := (stod s).map Binary64.bits

/-- The token denotes the number, and a `.double` directive stores it. -/
def KeepsValue (cfg : ParserConfig) (t : Token) (q : ℚ) : Prop :=
  Decimal.rational t.value = some q ∧
    ∃ d : Binary64, d.toRat = q ∧ ∀ p : Parser, p.currentToken = t →
      ∃ p', p.elementTurn { cfg with stod := doubleBits } .double = .ok p' ∧
        p'.dataBuffer = p.dataBuffer ++ [.double d.bits]

section

variable {s : String} {negative : Bool} {x q : ℚ} {d : Binary64} {cs : List Char}

theorem magnitude_nonneg (d : Binary64) : 0 ≤ d.magnitude := by
  unfold Binary64.magnitude
  positivity

/-- A text that denotes a double-precision number is converted to it. -/
theorem stod_eq_ok (hs : Decimal.signed s = some (negative, d.magnitude)) :
    stod s = .ok ⟨negative, d.place, d.finite⟩ := by
  have hscaled : d.magnitude * 2 ^ 1074 = Binary64.scaled d.place :=
    div_mul_cancel₀ _ (by positivity)
  have hnearest : Binary64.nearest (d.magnitude * 2 ^ 1074) = d.place := by
    rw [hscaled, Binary64.nearest_scaled]
  rw [stod, hs]
  dsimp only
  rw [dif_pos (hnearest ▸ d.finite), if_neg]
  · simp only [hnearest]
  · rw [hnearest, hscaled]
    exact fun h => h.1 rfl

/-- The sign and the magnitude of a text that denotes a double-precision number. -/
theorem signed_of_rational (hs : Decimal.rational s = some q) (hq : Binary64.Representable q) :
    ∃ d : Binary64, Decimal.signed s = some (d.negative, d.magnitude) ∧ d.toRat = q := by
  obtain ⟨⟨negative, x⟩, hsigned, rfl⟩ := Option.map_eq_some_iff.mp hs
  obtain ⟨d, hd⟩ := hq
  have hmagnitude : d.magnitude = x :=
    Decimal.withSign_injective (magnitude_nonneg d) (Decimal.signed_nonneg hsigned) hd
  refine ⟨⟨negative, d.place, d.finite⟩, ?_, ?_⟩
  · rw [hsigned, ← hmagnitude]
    rfl
  · rw [← hmagnitude]
    rfl

/-- What the printed text denotes. -/
theorem rational_doubleToString (d : Binary64) : Decimal.rational (doubleToString d) =
    some (Decimal.withSign d.negative
      ((Decimal.roundEven (d.magnitude * 10 ^ 6) : ℚ) / 10 ^ 6)) := by
  rw [Decimal.rational, doubleToString, Decimal.signed_fixed (by decide)]
  rfl

theorem roundEven_div_eq_iff (d : Binary64) :
    (Decimal.roundEven (d.magnitude * 10 ^ 6) : ℚ) / 10 ^ 6 = d.magnitude ↔
      ∃ n : Int, d.toRat * 10 ^ 6 = n := by
  rw [div_eq_iff (by norm_num), Decimal.roundEven_eq_iff]
  unfold Binary64.toRat Decimal.withSign
  constructor
  · rintro ⟨n, hn⟩
    cases d.negative with
    | true => exact ⟨-n, by rw [if_pos rfl, neg_mul, hn]; push_cast; rfl⟩
    | false => exact ⟨n, by rw [if_neg (by decide), hn]; rfl⟩
  · rintro ⟨n, hn⟩
    have hnonneg : 0 ≤ d.magnitude * 10 ^ 6 := mul_nonneg (magnitude_nonneg d) (by norm_num)
    refine ⟨n.natAbs, ?_⟩
    rw [Nat.cast_natAbs, Int.cast_abs, ← hn]
    cases d.negative with
    | true => rw [if_pos rfl, neg_mul, abs_neg, abs_of_nonneg hnonneg]
    | false => rw [if_neg (by decide), abs_of_nonneg hnonneg]

/-- The printed text denotes the number exactly if it needs no more than six digits. -/
theorem rational_doubleToString_iff (d : Binary64) :
    Decimal.rational (doubleToString d) = some d.toRat ↔ ∃ n : Int, d.toRat * 10 ^ 6 = n := by
  rw [rational_doubleToString, ← roundEven_div_eq_iff]
  constructor
  · intro h
    exact Decimal.withSign_injective (by positivity) (magnitude_nonneg d) (Option.some.inj h)
  · intro h
    rw [h]
    rfl

/-- A conversion that changes no digit changes nothing else, and only such a one does not. -/
theorem keepsValue_iff (cfg : ParserConfig) (d : Binary64) {t : Token} (htype : t.type = .FLOAT)
    (htext : t.value = doubleToString d) :
    KeepsValue cfg t d.toRat ↔ ∃ n : Int, d.toRat * 10 ^ 6 = n := by
  rw [← rational_doubleToString_iff]
  constructor
  · intro h
    rw [← htext]
    exact h.1
  · intro h
    obtain ⟨d', hsigned, hd'⟩ := signed_of_rational h ⟨d, rfl⟩
    refine ⟨htext ▸ h, d', hd', ?_⟩
    rintro p rfl
    have hstod : doubleBits p.currentToken.value = .ok d'.bits := by
      rw [htext, doubleBits, stod_eq_ok hsigned]
      rfl
    have halign : (p.align DataDirective.double.alignment).dataBuffer = p.dataBuffer := by
      unfold Parser.align
      split <;> rfl
    have hitems : Parser.elementItems { cfg with stod := doubleBits } .double p.currentToken.value =
        .ok (some [.double d'.bits]) := by
      rw [Parser.elementItems]
      dsimp only
      rw [hstod]
      rfl
    have htype' : p.currentToken.type = DataDirective.double.tokenType := htype
    rw [Parser.elementTurn, if_pos htype', hitems]
    refine ⟨_, rfl, ?_⟩
    simp [Parser.nextToken, Parser.place, halign]

end

namespace NumberText

variable {cs ds : List Char} {lower upper : Char}

/-- A literal with a prefix is no floating-point literal. -/
theorem isFloat_of_base (h : afterPrefix lower upper (unsigned cs) = some ds)
    (hletters : ∀ x, x = lower ∨ x = upper →
      x.isDigit = false ∧ x ≠ '.' ∧ (x == 'e' || x == 'E') = false) : isFloat cs = false := by
  unfold afterPrefix at h
  split at h
  · rename_i x rest heq
    split at h
    · rename_i hx
      obtain ⟨hdigit, hpoint, hexponent⟩ := hletters x hx
      have hdrop : (unsigned cs).dropWhile Char.isDigit = x :: rest := by
        rw [heq, List.dropWhile_cons_of_pos (by decide),
          List.dropWhile_cons_of_neg (by simp [hdigit])]
      have hnone : isExponent (x :: rest) = false := by
        unfold isExponent
        split
        all_goals simp_all
      unfold isFloat
      dsimp only
      rw [hdrop]
      split
      · rename_i heq'
        injection heq' with heq'
        exact absurd heq' hpoint
      · rw [hnone, Bool.and_false]
    · cases h
  · cases h

theorem hasPrefix_of_isFloat (f : Char → Bool) (h : isFloat cs = true)
    (hletters : ∀ x, x = lower ∨ x = upper →
      x.isDigit = false ∧ x ≠ '.' ∧ (x == 'e' || x == 'E') = false) :
    hasPrefix lower upper f (unsigned cs) = false := by
  unfold hasPrefix
  cases hprefix : afterPrefix lower upper (unsigned cs) with
  | none => rfl
  | some ds =>
    rw [isFloat_of_base hprefix hletters] at h
    cases h

theorem isDecimal_of_isFloat (h : isFloat cs = true) : isDecimal cs = false := by
  by_contra hdecimal
  have hall : isDigits Char.isDigit (unsigned cs) = true := Bool.not_eq_false _ ▸ hdecimal
  have hdrop : (unsigned cs).dropWhile Char.isDigit = [] := by
    rw [List.dropWhile_eq_nil_iff]
    unfold isDigits at hall
    rw [Bool.and_eq_true, List.all_eq_true] at hall
    exact hall.2
  unfold isFloat at h
  dsimp only at h
  rw [hdrop] at h
  simp [isExponent] at h

theorem unsigned_cases (cs : List Char) :
    (∃ ds, cs = '-' :: ds ∧ unsigned cs = ds) ∨ cs.head? ≠ some '-' ∧ unsigned cs = cs := by
  cases cs with
  | nil => exact .inr ⟨by simp, rfl⟩
  | cons c cs =>
    by_cases hc : c = '-'
    · exact .inl ⟨cs, by rw [hc], by rw [hc]; rfl⟩
    · refine .inr ⟨by simpa using hc, ?_⟩
      unfold unsigned
      split
      · rename_i heq
        injection heq with heq
        exact absurd heq hc
      · rfl

theorem isUnsignedHex_of_isFloat (h : isFloat cs = true)
    (hhex : hasPrefix 'x' 'X' isHexDigit (unsigned cs) = false) : isUnsignedHex cs = false := by
  rcases unsigned_cases cs with ⟨ds, rfl, -⟩ | ⟨-, hunsigned⟩
  · rfl
  · rw [isUnsignedHex, ← hunsigned]
    exact hhex

/-- A floating-point literal has digits that a conversion reads. -/
theorem magnitude_of_isFloat (h : isFloat cs = true) :
    ∃ x, Decimal.magnitude (unsigned cs) = some x := by
  unfold Decimal.magnitude
  dsimp only
  rw [if_neg]
  · exact ⟨_, rfl⟩
  · intro hempty
    obtain ⟨hwhole, hfraction⟩ := List.append_eq_nil_iff.mp hempty
    unfold isFloat at h
    dsimp only at h
    split at h
    · rename_i fraction heq
      rw [heq] at hfraction
      change fraction.takeWhile Char.isDigit = [] at hfraction
      rw [hfraction] at h
      cases h
    · rw [hwhole] at h
      cases h

theorem head_of_isFloat (h : isFloat cs = true) :
    ∃ c ds, unsigned cs = c :: ds ∧ (c.isDigit = true ∨ c = '.') := by
  cases hcs : unsigned cs with
  | nil =>
    unfold isFloat at h
    dsimp only at h
    rw [hcs] at h
    cases h
  | cons c ds =>
    refine ⟨c, ds, rfl, ?_⟩
    by_cases hdigit : c.isDigit = true
    · exact .inl hdigit
    · unfold isFloat at h
      dsimp only at h
      rw [hcs, List.dropWhile_cons_of_neg hdigit, List.takeWhile_cons_of_neg hdigit] at h
      split at h
      · rename_i heq
        injection heq with heq
        exact .inr heq
      · cases h

/-- It denotes a number. -/
theorem rational_of_isFloat (h : isFloat cs = true) :
    ∃ q, Decimal.rational (String.ofList cs) = some q := by
  obtain ⟨x, hx⟩ := magnitude_of_isFloat h
  obtain ⟨c, ds, hhead, hc⟩ := head_of_isFloat h
  have hplain : Decimal.isSpace c = false ∧ c ≠ '-' ∧ c ≠ '+' := by
    rcases hc with hc | rfl
    · exact Decimal.digit_plain hc
    · decide
  obtain ⟨hspace, hminus, hplus⟩ := hplain
  unfold Decimal.rational Decimal.signed
  rw [String.toList_ofList]
  rcases unsigned_cases cs with ⟨ds', rfl, hunsigned⟩ | ⟨-, hunsigned⟩
  · rw [List.dropWhile_cons_of_neg (by decide)]
    rw [hunsigned] at hx
    simp only [hx]
    exact ⟨_, rfl⟩
  · rw [hunsigned] at hx hhead
    rw [hhead, List.dropWhile_cons_of_neg (by simp [hspace])]
    split
    · rename_i heq
      injection heq with heq
      exact absurd heq hminus
    · rename_i heq
      injection heq with heq
      exact absurd heq hplus
    · rw [← hhead, hx]
      exact ⟨_, rfl⟩

end NumberText

theorem readNumber_of_isFloat (floatText : String → Except Thrown String) {cs : List Char}
    (h : NumberText.isFloat cs = true) : Lexer.readNumber floatText cs =
      (floatText (String.ofList cs)).map fun text => (.FLOAT, text) := by
  have hhex : NumberText.isHex cs = false :=
    NumberText.hasPrefix_of_isFloat _ h (by rintro x (rfl | rfl) <;> decide)
  have hbinary : NumberText.isBinary cs = false :=
    NumberText.hasPrefix_of_isFloat _ h (by rintro x (rfl | rfl) <;> decide)
  have hoctal : NumberText.isOctal cs = false :=
    NumberText.hasPrefix_of_isFloat _ h (by rintro x (rfl | rfl) <;> decide)
  have hunsigned := NumberText.isUnsignedHex_of_isFloat h hhex
  have hdecimal := NumberText.isDecimal_of_isFloat h
  rw [Lexer.readNumber]
  simp only [hunsigned, hhex, hbinary, hoctal, hdecimal, h, if_false, if_true, Bool.false_eq_true]
  cases floatText (String.ofList cs) with
  | error e => rfl
  | ok text => rfl

/-- The token of a literal whose value is a double-precision number. -/
theorem number_of_representable {l : Lexer} {q : ℚ}
    (hfloat : NumberText.isFloat (l.rest.takeWhile Lexer.isNumberChar) = true)
    (hq : Decimal.rational (String.ofList (l.rest.takeWhile Lexer.isNumberChar)) = some q)
    (hrepresentable : Binary64.Representable q) :
    ∃ d : Binary64, d.toRat = q ∧ l.number literalText =
      .ok (⟨.FLOAT, doubleToString d, l.lineNumber, l.columnNumber⟩,
        l.skipWhile Lexer.isNumberChar) := by
  obtain ⟨d, hsigned, hd⟩ := signed_of_rational hq hrepresentable
  have htext : literalText (String.ofList (l.rest.takeWhile Lexer.isNumberChar)) =
      .ok (doubleToString d) := by
    rw [literalText, stod_eq_ok hsigned]
    rfl
  refine ⟨d, hd, ?_⟩
  rw [Lexer.number, readNumber_of_isFloat literalText hfloat, htext]
  rfl

/-- The token of a literal whose value is a double-precision number keeps this value exactly if
the value needs no more than six digits after the point. -/
theorem number_keepsValue_iff (cfg : ParserConfig) (l : Lexer)
    (hfloat : NumberText.isFloat (l.rest.takeWhile Lexer.isNumberChar) = true) :
    ∃ q, Decimal.rational (String.ofList (l.rest.takeWhile Lexer.isNumberChar)) = some q ∧
      (Binary64.Representable q → ∃ t l', l.number literalText = .ok (t, l') ∧
        t.type = .FLOAT ∧ (KeepsValue cfg t q ↔ ∃ n : Int, q * 10 ^ 6 = n)) := by
  obtain ⟨q, hq⟩ := NumberText.rational_of_isFloat hfloat
  refine ⟨q, hq, fun hrepresentable => ?_⟩
  obtain ⟨d, rfl, hnumber⟩ := number_of_representable hfloat hq hrepresentable
  exact ⟨_, _, hnumber, rfl, keepsValue_iff cfg d rfl rfl⟩

/-- `0.5` is kept. -/
theorem number_keepsValue_half : ∃ t l',
    Lexer.number literalText { rest := ['0', '.', '5'] } = .ok (t, l') ∧
      KeepsValue .default t (1 / 2) := by
  obtain ⟨q, hq, hkeeps⟩ := number_keepsValue_iff .default { rest := ['0', '.', '5'] } (by decide)
  have hvalue : Decimal.rational (String.ofList ['0', '.', '5']) = some (1 / 2) := by
    decide +kernel
  obtain rfl : q = 1 / 2 := Option.some.inj (hq.symm.trans hvalue)
  have hd : Binary64.toRat ⟨false, 1022 * 2 ^ 52, by decide⟩ = 1 / 2 := by decide +kernel
  obtain ⟨t, l', hnumber, -, hiff⟩ := hkeeps ⟨_, hd⟩
  exact ⟨t, l', hnumber, hiff.mpr ⟨500000, by norm_num⟩⟩

/-- `0.0078125` is printed as `0.007812`. -/
theorem not_keepsValue_eighth : ¬ ∀ (cfg : ParserConfig) (l : Lexer) (q : ℚ),
    NumberText.isFloat (l.rest.takeWhile Lexer.isNumberChar) = true →
    Decimal.rational (String.ofList (l.rest.takeWhile Lexer.isNumberChar)) = some q →
    Binary64.Representable q →
    ∃ t l', l.number literalText = .ok (t, l') ∧ t.type = .FLOAT ∧ KeepsValue cfg t q := by
  intro hall
  have hvalue : Decimal.rational (String.ofList (['0', '.', '0', '0', '7', '8', '1', '2', '5'])) =
      some (1 / 128) ∧ Binary64.toRat ⟨false, 1016 * 2 ^ 52, by decide⟩ = 1 / 128 := by
    decide +kernel
  have hrepresentable : Binary64.Representable (1 / 128) := ⟨_, hvalue.2⟩
  have hfloat : NumberText.isFloat ['0', '.', '0', '0', '7', '8', '1', '2', '5'] = true := by decide
  obtain ⟨d, hd, hnumber⟩ := number_of_representable
    (l := { rest := ['0', '.', '0', '0', '7', '8', '1', '2', '5'] }) hfloat hvalue.1 hrepresentable
  obtain ⟨t, l', hnumber', -, hkeeps⟩ := hall .default
    { rest := ['0', '.', '0', '0', '7', '8', '1', '2', '5'] } _ hfloat hvalue.1 hrepresentable
  obtain ⟨rfl, -⟩ := Prod.mk.inj (Except.ok.inj (hnumber.symm.trans hnumber'))
  rw [← hd] at hkeeps
  obtain ⟨n, hn⟩ := (keepsValue_iff .default d rfl rfl).mp hkeeps
  have hodd : (15625 : ℚ) = 2 * n := by
    rw [← hn, hd]
    norm_num
  have hint : (15625 : Int) = 2 * n := by exact_mod_cast hodd
  omega

end RiscvSim
