import Backbook.DomainValues
import Backbook.OutcomeRules
import Backbook.DecimalPoints

namespace Backbook

open DecimalText

inductive MoneyError
  | invalidFormat | negativeZero | overflow | currencyMismatch | unsupportedCurrency
deriving DecidableEq, Repr

def Currency.exponent : Currency → ℕ
  | .usd => 2
  | .jpy => 0
  | .kwd => 3

def scanFraction (exponent : ℕ) : Bytes → Except MoneyError (Bytes × Bytes)
  | [] => .ok ([], [])
  | character :: rest =>
    if character ≠ decimalPoint ∨ exponent = 0 then .error .invalidFormat
    else
      let fraction := rest.takeWhile isDigit
      if fraction.length = 0 ∨ fraction.length > exponent then .error .invalidFormat
      else .ok (fraction, rest.dropWhile isDigit)

def scanBody (exponent : ℕ) (negative : Bool) (body : Bytes) : Except MoneyError Decimal :=
  let integer := body.takeWhile isDigit
  if integer.length = 0 then .error .invalidFormat
  else if integer.length > 1 ∧ integer.head? = some zeroDigit then .error .invalidFormat
  else do
    let (fraction, remaining) ← scanFraction exponent (body.dropWhile isDigit)
    if remaining ≠ [] then .error .invalidFormat else .ok ⟨negative, integer, fraction⟩

def scanDecimal (exponent : ℕ) (decimal : Bytes) : Except MoneyError Decimal :=
  if decimal = [] then .error .invalidFormat
  else if decimal.head? = some minusSign then
    if decimal.tail = [] then .error .invalidFormat
    else scanBody exponent true decimal.tail
  else scanBody exponent false decimal

theorem scanFraction_ok_iff {exponent : ℕ} {text fraction : Bytes} :
    scanFraction exponent text = .ok (fraction, []) ↔
      (∀ c ∈ fraction, isDigit c = true) ∧ fraction.length ≤ exponent ∧
        text = if fraction = [] then [] else decimalPoint :: fraction := by
  constructor
  · intro h
    cases text with
    | nil =>
      obtain rfl : [] = fraction := congrArg Prod.fst (Except.ok.inj h)
      simp
    | cons character rest =>
      simp only [scanFraction] at h
      split_ifs at h with hpoint hlength
      simp only [Except.ok.injEq, Prod.mk.injEq] at h
      obtain ⟨rfl, hrest⟩ := h
      -- Nothing is left, so the rest of the text is its digits.
      have hall : rest.takeWhile isDigit = rest := by
        have hsplit := List.takeWhile_append_dropWhile (p := isDigit) (l := rest)
        rwa [hrest, List.append_nil] at hsplit
      rw [hall] at hlength ⊢
      have hne : rest ≠ [] := by
        rintro rfl
        simp at hlength
      refine ⟨List.takeWhile_eq_self_iff.mp hall, by omega, ?_⟩
      rw [if_neg hne, not_not.mp (not_or.mp hpoint).1]
  · rintro ⟨hdigits, hlength, rfl⟩
    split_ifs with hne
    · rw [hne]
      rfl
    · have hpos := List.length_pos_of_ne_nil hne
      have hzero : ¬(decimalPoint ≠ decimalPoint ∨ exponent = 0) := by
        rw [not_or]
        exact ⟨fun h => h rfl, by omega⟩
      simp only [scanFraction]
      rw [if_neg hzero, List.takeWhile_eq_self_iff.mpr hdigits, if_neg (by omega),
        List.dropWhile_eq_nil_iff.mpr hdigits]

theorem scanFraction_error {exponent : ℕ} {text : Bytes} {e : MoneyError}
    (h : scanFraction exponent text = .error e) : e = .invalidFormat := by
  cases text with
  | nil => contradiction
  | cons character rest =>
    simp only [scanFraction] at h
    split_ifs at h
    · exact (Except.error.inj h).symm
    · exact (Except.error.inj h).symm

/-- A list of digits without a superfluous zero in front, as the scanner sees it. -/
theorem leading_iff {integer : Bytes} (hne : integer ≠ []) :
    ¬(integer.length > 1 ∧ integer.head? = some zeroDigit) ↔
      integer = [zeroDigit] ∨ integer.head? ≠ some zeroDigit := by
  obtain ⟨c, rest, rfl⟩ := List.exists_cons_of_ne_nil hne
  cases rest with
  | nil => simp [Classical.em]
  | cons b rest => simp

theorem scanBody_ok_iff {exponent : ℕ} {negative : Bool} {body : Bytes} {d : Decimal} :
    scanBody exponent negative body = .ok d ↔
      d.negative = negative ∧ d.Canonical exponent ∧ body = d.integer ++ d.fractionText := by
  constructor
  · intro h
    simp only [scanBody] at h
    split_ifs at h with hempty hzero
    obtain ⟨⟨fraction, remaining⟩, hfraction, h⟩ := Outcome.bind_ok_iff.mp h
    split_ifs at h with hremaining
    obtain rfl := not_not.mp hremaining
    obtain rfl := Except.ok.inj h
    obtain ⟨hdigits, hlength, hrest⟩ := scanFraction_ok_iff.mp hfraction
    have hne : body.takeWhile isDigit ≠ [] := fun hnil => hempty (by rw [hnil]; rfl)
    refine ⟨rfl, ⟨hne, fun c hc => List.mem_takeWhile_imp hc, (leading_iff hne).mp hzero, hdigits,
      hlength⟩, ?_⟩
    rw [Decimal.fractionText, ← hrest, List.takeWhile_append_dropWhile]
  · rintro ⟨rfl, hcanonical, rfl⟩
    have hempty : ¬d.integer.length = 0 := fun h =>
      hcanonical.integer_ne (List.length_eq_zero_iff.mp h)
    have hfraction : scanFraction exponent d.fractionText = .ok (d.fraction, []) :=
      scanFraction_ok_iff.mpr ⟨hcanonical.fraction_digits, hcanonical.fraction_length, rfl⟩
    simp only [scanBody]
    rw [Decimal.takeWhile_integer hcanonical, Decimal.dropWhile_integer hcanonical, if_neg hempty,
      if_neg ((leading_iff hcanonical.integer_ne).mpr hcanonical.leading), hfraction]
    rfl

theorem scanBody_error {exponent : ℕ} {negative : Bool} {body : Bytes} {e : MoneyError}
    (h : scanBody exponent negative body = .error e) : e = .invalidFormat := by
  simp only [scanBody] at h
  split_ifs at h
  · exact (Except.error.inj h).symm
  · exact (Except.error.inj h).symm
  · rcases Outcome.bind_error_iff.mp h with h | ⟨⟨fraction, remaining⟩, _, h⟩
    · exact scanFraction_error h
    · split_ifs at h
      exact (Except.error.inj h).symm

/-- The scanner accepts the canonical texts and cuts them into their parts. -/
theorem scanDecimal_ok_iff {exponent : ℕ} {decimal : Bytes} {d : Decimal} :
    scanDecimal exponent decimal = .ok d ↔ d.Canonical exponent ∧ decimal = d.text := by
  constructor
  · intro h
    unfold scanDecimal at h
    split_ifs at h with hempty hsign hrest
    · obtain ⟨hnegative, hcanonical, htail⟩ := scanBody_ok_iff.mp h
      refine ⟨hcanonical, ?_⟩
      rw [Decimal.text, hnegative, if_pos rfl, ← htail]
      exact List.eq_cons_of_mem_head? hsign
    · obtain ⟨hnegative, hcanonical, htail⟩ := scanBody_ok_iff.mp h
      refine ⟨hcanonical, ?_⟩
      rw [Decimal.text, hnegative, htail]
      rfl
  · rintro ⟨hcanonical, rfl⟩
    have hbody : d.integer ++ d.fractionText ≠ [] :=
      List.append_ne_nil_of_left_ne_nil hcanonical.integer_ne _
    have hscan := scanBody_ok_iff.mpr ⟨rfl, hcanonical, rfl⟩
    have hsign := Decimal.text_head hcanonical
    unfold scanDecimal
    cases hnegative : d.negative with
    | false =>
      rw [hnegative] at hsign hscan
      have htext : d.text = d.integer ++ d.fractionText := by simp [Decimal.text, hnegative]
      rw [htext] at hsign ⊢
      rw [if_neg hbody, if_neg (by simpa using hsign), hscan]
    | true =>
      rw [hnegative] at hscan
      have htext : d.text = minusSign :: (d.integer ++ d.fractionText) := by
        simp [Decimal.text, hnegative]
      rw [htext, if_neg (List.cons_ne_nil _ _), List.head?_cons, if_pos rfl, List.tail_cons,
        if_neg hbody, hscan]

theorem scanDecimal_error {exponent : ℕ} {decimal : Bytes} {e : MoneyError}
    (h : scanDecimal exponent decimal = .error e) : e = .invalidFormat := by
  unfold scanDecimal at h
  split_ifs at h
  · exact (Except.error.inj h).symm
  · exact (Except.error.inj h).symm
  · exact scanBody_error h
  · exact scanBody_error h

/-- The guard comes before the arithmetic, which is that of the machine. -/
def appendDigit (limit magnitude : UInt64) (digit : UInt8) : Option UInt64 :=
  let numericDigit := (digit - zeroDigit).toUInt64
  if magnitude > (limit - numericDigit) / 10 then none
  else some (magnitude * 10 + numericDigit)

def appendDigits (limit : UInt64) (magnitude : UInt64) (digits : Bytes) : Option UInt64 :=
  digits.foldlM (appendDigit limit) magnitude

def positiveLimit : UInt64 := 9223372036854775807

def negativeLimit : UInt64 := positiveLimit + 1

def magnitudeLimit (negative : Bool) : UInt64 :=
  if negative then negativeLimit else positiveLimit

/-- The three loops: integer digits, fraction digits, and zeros up to the exponent. -/
def accumulate (exponent : ℕ) (d : Decimal) : Option UInt64 := do
  let limit := magnitudeLimit d.negative
  let magnitude ← appendDigits limit 0 d.integer
  let magnitude ← appendDigits limit magnitude d.fraction
  appendDigits limit magnitude (List.replicate (exponent - d.fraction.length) zeroDigit)

/-- The sign is applied to the magnitude, the smallest number by itself. -/
def signedMinorUnits (negative : Bool) (magnitude : UInt64) : Int64 :=
  if negative then
    if magnitude = negativeLimit then Int64.minValue else -magnitude.toInt64
  else magnitude.toInt64

def Money.parse (currency : Currency) (decimal : Bytes) : Except MoneyError Money := do
  let d ← scanDecimal currency.exponent decimal
  match accumulate currency.exponent d with
  | none => .error .overflow
  | some magnitude =>
    if d.negative ∧ magnitude = 0 then .error .negativeZero
    else .ok (Money.fromMinorUnits currency (signedMinorUnits d.negative magnitude))

def DigitExact (limit magnitude : UInt64) (digit : UInt8) : Prop :=
  zeroDigit ≤ digit ∧ digitValue digit ≤ limit.toNat ∧
    (appendDigit limit magnitude digit ≠ none →
      magnitude.toNat * 10 + digitValue digit < 2 ^ 64)

theorem numericDigit_toNat {c : UInt8} (hc : isDigit c = true) :
    (c - zeroDigit).toUInt64.toNat = digitValue c := by
  have hb := isDigit_iff.mp hc
  have hle : zeroDigit ≤ c := by
    rw [UInt8.le_iff_toNat_le]
    exact hb.1
  rw [UInt8.toNat_toUInt64, UInt8.toNat_sub_of_le _ _ hle]
  rfl

/-- The guard refuses a digit just when the number would exceed the limit. -/
theorem appendDigit_spec {limit : UInt64} (hlimit : 9 ≤ limit.toNat) (magnitude : UInt64)
    {c : UInt8} (hc : isDigit c = true) :
    (magnitude.toNat * 10 + digitValue c ≤ limit.toNat ∧
      ∃ next, appendDigit limit magnitude c = some next ∧
        next.toNat = magnitude.toNat * 10 + digitValue c) ∨
    (limit.toNat < magnitude.toNat * 10 + digitValue c ∧
      appendDigit limit magnitude c = none) := by
  have hdigit := numericDigit_toNat hc
  have hlt := digitValue_lt hc
  have hle : (c - zeroDigit).toUInt64 ≤ limit := by
    rw [UInt64.le_iff_toNat_le, hdigit]
    omega
  have hguard : magnitude > (limit - (c - zeroDigit).toUInt64) / 10 ↔
      limit.toNat < magnitude.toNat * 10 + digitValue c := by
    rw [gt_iff_lt, UInt64.lt_iff_toNat_lt, UInt64.toNat_div, UInt64.toNat_sub_of_le _ _ hle, hdigit]
    change (limit.toNat - digitValue c) / 10 < magnitude.toNat ↔ _
    omega
  simp only [appendDigit]
  split_ifs with h
  · exact .inr ⟨hguard.mp h, rfl⟩
  · have hfit := Nat.not_lt.mp (mt hguard.mpr h)
    have hsize := limit.toNat_lt
    refine .inl ⟨hfit, _, rfl, ?_⟩
    rw [UInt64.toNat_add, UInt64.toNat_mul, hdigit]
    change (magnitude.toNat * 10 % 2 ^ 64 + digitValue c) % 2 ^ 64 = _
    omega

/-- Appending digits succeeds with the exact number, or that number exceeds the
limit: it never shrinks again. -/
theorem appendDigits_spec {limit : UInt64} (hlimit : 9 ≤ limit.toNat) {digits : Bytes}
    (hd : ∀ c ∈ digits, isDigit c = true) (magnitude : UInt64) (hm : magnitude ≤ limit) :
    (magnitude.toNat * 10 ^ digits.length + value digits ≤ limit.toNat ∧
      ∃ total, appendDigits limit magnitude digits = some total ∧
        total.toNat = magnitude.toNat * 10 ^ digits.length + value digits) ∨
    (limit.toNat < magnitude.toNat * 10 ^ digits.length + value digits ∧
      appendDigits limit magnitude digits = none) := by
  induction digits generalizing magnitude with
  | nil =>
    rw [UInt64.le_iff_toNat_le] at hm
    exact .inl ⟨by simpa using hm, magnitude, rfl, by simp⟩
  | cons c digits ih =>
    have hnumber : magnitude.toNat * 10 ^ (c :: digits).length + value (c :: digits) =
        (magnitude.toNat * 10 + digitValue c) * 10 ^ digits.length + value digits := by
      rw [← List.singleton_append, value_append, value_singleton, List.length_append,
        List.length_singleton]
      ring
    have hrest := fun b hb => hd b (List.mem_cons_of_mem c hb)
    rw [hnumber]
    rcases appendDigit_spec hlimit magnitude (hd c List.mem_cons_self) with
      ⟨hfit, next, hnext, hvalue⟩ | ⟨hover, hnone⟩
    · have hstep : appendDigits limit magnitude (c :: digits) = appendDigits limit next digits := by
        simp [appendDigits, hnext]
      rw [hstep, ← hvalue]
      exact ih hrest next (by rw [UInt64.le_iff_toNat_le, hvalue]; exact hfit)
    · refine .inr ⟨?_, by simp [appendDigits, hnone]⟩
      have hpow : 0 < 10 ^ digits.length := by positivity
      calc limit.toNat < magnitude.toNat * 10 + digitValue c := hover
        _ ≤ (magnitude.toNat * 10 + digitValue c) * 10 ^ digits.length :=
          Nat.le_mul_of_pos_right _ hpow
        _ ≤ _ := Nat.le_add_right _ _

theorem appendDigits_append (limit magnitude : UInt64) (front back : Bytes) :
    appendDigits limit magnitude (front ++ back) =
      (appendDigits limit magnitude front).bind fun next => appendDigits limit next back :=
  List.foldlM_append

theorem accumulate_eq (exponent : ℕ) (d : Decimal) :
    accumulate exponent d = appendDigits (magnitudeLimit d.negative) 0 (d.digits exponent) := by
  rw [Decimal.digits, appendDigits_append]
  simp only [appendDigits_append]
  rfl

theorem magnitudeLimit_toNat (negative : Bool) :
    (magnitudeLimit negative).toNat = if negative then 2 ^ 63 else 2 ^ 63 - 1 := by
  cases negative <;> rfl

theorem nine_le_magnitudeLimit (negative : Bool) : 9 ≤ (magnitudeLimit negative).toNat := by
  cases negative <;> decide

theorem toInt64_toInt_of_lt {magnitude : UInt64} (h : magnitude.toNat < 2 ^ 63) :
    magnitude.toInt64.toInt = magnitude.toNat := by
  rw [← UInt64.ofNat_toNat (x := magnitude), UInt64.toInt64_ofNat', Int64.toInt_ofNat_of_lt h,
    UInt64.ofNat_toNat]

theorem signedMinorUnits_toInt {negative : Bool} {magnitude : UInt64}
    (h : magnitude.toNat ≤ (magnitudeLimit negative).toNat) :
    (signedMinorUnits negative magnitude).toInt =
      (if negative then -1 else 1) * (magnitude.toNat : ℤ) := by
  rw [magnitudeLimit_toNat] at h
  unfold signedMinorUnits
  cases negative with
  | false =>
    simp only [Bool.false_eq_true, if_false] at h ⊢
    rw [toInt64_toInt_of_lt (by omega), one_mul]
  | true =>
    simp only [if_true] at h ⊢
    split_ifs with hmin
    · subst hmin
      rfl
    · rw [← UInt64.ofNat_toNat (x := magnitude), UInt64.toInt64_ofNat',
        Int64.toInt_neg_ofNat_of_le h, UInt64.ofNat_toNat]
      ring

/-- The three loops compute the number of all digits, unless it exceeds the limit. -/
theorem accumulate_spec {exponent : ℕ} {d : Decimal} (h : d.Canonical exponent) :
    (value (d.digits exponent) ≤ (magnitudeLimit d.negative).toNat ∧
      ∃ magnitude, accumulate exponent d = some magnitude ∧
        magnitude.toNat = value (d.digits exponent)) ∨
    ((magnitudeLimit d.negative).toNat < value (d.digits exponent) ∧
      accumulate exponent d = none) := by
  have hspec := appendDigits_spec (nine_le_magnitudeLimit d.negative) (Decimal.digits_isDigit h) 0
    (UInt64.le_iff_toNat_le.mpr (Nat.zero_le _))
  rw [← accumulate_eq, UInt64.toNat_zero, zero_mul, zero_add] at hspec
  exact hspec

/-- The number fits just when its magnitude is within the limit of its sign. -/
theorem fits_units_iff {exponent : ℕ} {d : Decimal} : FitsInt64 (d.units exponent) ↔
    value (d.digits exponent) ≤ (magnitudeLimit d.negative).toNat := by
  rw [magnitudeLimit_toNat, FitsInt64, Decimal.units]
  cases d.negative <;> simp <;> omega

/-- What the parser makes of a canonical text, by the number that it denotes. -/
theorem Money.parse_canonical {currency : Currency} {d : Decimal}
    (h : d.Canonical currency.exponent) :
    (¬FitsInt64 (d.units currency.exponent) ∧
      Money.parse currency d.text = .error .overflow) ∨
    ((d.negative = true ∧ d.units currency.exponent = 0) ∧
      Money.parse currency d.text = .error .negativeZero) ∨
    ((FitsInt64 (d.units currency.exponent) ∧
        ¬(d.negative = true ∧ d.units currency.exponent = 0)) ∧
      ∃ money, Money.parse currency d.text = .ok money ∧ money.currency = currency ∧
        money.minorUnits = d.units currency.exponent) := by
  have hscan := scanDecimal_ok_iff.mpr ⟨h, rfl⟩
  rw [fits_units_iff]
  rcases accumulate_spec h with ⟨hfit, magnitude, hsome, hvalue⟩ | ⟨hover, hnone⟩
  · have hzero : magnitude = 0 ↔ d.units currency.exponent = 0 := by
      rw [← UInt64.toNat_inj, hvalue, Decimal.units]
      cases d.negative <;> simp
    right
    by_cases hnegative : d.negative = true ∧ magnitude = 0
    · refine .inl ⟨by rwa [← hzero], ?_⟩
      rw [Money.parse, hscan, Outcome.ok_bind, hsome]
      exact if_pos hnegative
    · refine .inr ⟨⟨hfit, by rwa [← hzero]⟩,
        Money.fromMinorUnits currency (signedMinorUnits d.negative magnitude), ?_, rfl, ?_⟩
      · rw [Money.parse, hscan, Outcome.ok_bind, hsome]
        exact if_neg hnegative
      · change (signedMinorUnits d.negative magnitude).toInt = _
        rw [signedMinorUnits_toInt (by rw [hvalue]; exact hfit), hvalue, Decimal.units]
  · refine .inl ⟨by omega, ?_⟩
    rw [Money.parse, hscan, Outcome.ok_bind, hnone]

theorem Money.parse_canonical_iff {currency : Currency} {d : Decimal}
    (h : d.Canonical currency.exponent) :
    (Money.parse currency d.text = .error .overflow ↔
      ¬FitsInt64 (d.units currency.exponent)) ∧
    (Money.parse currency d.text = .error .negativeZero ↔
      d.negative = true ∧ d.units currency.exponent = 0) ∧
    ∀ money, Money.parse currency d.text = .ok money ↔
      FitsInt64 (d.units currency.exponent) ∧
        ¬(d.negative = true ∧ d.units currency.exponent = 0) ∧
        money.currency = currency ∧ money.minorUnits = d.units currency.exponent := by
  have hzero : FitsInt64 0 := ⟨by norm_num, by norm_num⟩
  rcases Money.parse_canonical h with ⟨hover, hp⟩ | ⟨hneg, hp⟩ | ⟨⟨hfit, hneg⟩, money, hp, hc, hu⟩
  · have hneg : ¬(d.negative = true ∧ d.units currency.exponent = 0) := by
      rintro ⟨_, hunits⟩
      exact hover (by rwa [hunits])
    simp [hp, hover, hneg]
  · simp [hp, hneg, hzero]
  · have hmoney (other : Money) : money = other ↔
        other.currency = currency ∧ other.minorUnits = d.units currency.exponent := by
      rw [Money.ext_iff, hc, hu, eq_comm, eq_comm (a := d.units currency.exponent)]
    simp only [hp, hfit, hneg, Except.ok.injEq, hmoney, reduceCtorEq, not_true, not_false_eq_true,
      true_and, iff_self, implies_true, and_self]

theorem Money.parse_invalidFormat_iff {currency : Currency} {decimal : Bytes} :
    Money.parse currency decimal = .error .invalidFormat ↔
      ¬∃ d : Decimal, d.Canonical currency.exponent ∧ decimal = d.text := by
  constructor
  · rintro hparse ⟨d, hcanonical, rfl⟩
    rcases Money.parse_canonical hcanonical with ⟨_, h⟩ | ⟨_, h⟩ | ⟨_, money, h, _⟩
    · exact absurd (hparse.symm.trans h) (by simp)
    · exact absurd (hparse.symm.trans h) (by simp)
    · exact absurd (hparse.symm.trans h) (by simp)
  · intro hnone
    cases hscan : scanDecimal currency.exponent decimal with
    | ok d => exact absurd ⟨d, scanDecimal_ok_iff.mp hscan⟩ hnone
    | error e =>
      obtain rfl := scanDecimal_error hscan
      rw [Money.parse, hscan]
      rfl

/-- No digit step of the parser wraps around. -/
theorem digitExact_of_canonical {exponent : ℕ} {d : Decimal} (h : d.Canonical exponent)
    {front back : Bytes} {c : UInt8} (hdigits : d.digits exponent = front ++ c :: back)
    (magnitude : UInt64) : DigitExact (magnitudeLimit d.negative) magnitude c := by
  have hc := Decimal.digits_isDigit h c (by rw [hdigits]; simp)
  have hb := isDigit_iff.mp hc
  have hlt := digitValue_lt hc
  have hlimit := nine_le_magnitudeLimit d.negative
  refine ⟨UInt8.le_iff_toNat_le.mpr hb.1, by omega, ?_⟩
  intro hpassed
  rcases appendDigit_spec hlimit magnitude hc with ⟨hfit, _⟩ | ⟨_, hnone⟩
  · have hsize := (magnitudeLimit d.negative).toNat_lt
    omega
  · exact absurd hnone hpassed

def absoluteMagnitude (value : Int64) : UInt64 :=
  if value ≥ 0 then value.toUInt64 else (-(value + 1)).toUInt64 + 1

def padDigits (exponent : ℕ) (digits : Bytes) : Bytes :=
  let requiredDigits := exponent + 1
  if digits.length < requiredDigits then
    List.replicate (requiredDigits - digits.length) zeroDigit ++ digits
  else digits

def Money.format (self : Money) : Bytes :=
  let magnitude := absoluteMagnitude (Int64.ofInt self.minorUnits)
  let exponent := self.currency.exponent
  let digits := numeral magnitude.toNat
  let digits :=
    if exponent ≠ 0 then
      let padded := padDigits exponent digits
      padded.insertIdx (padded.length - exponent) decimalPoint
    else digits
  if self.minorUnits < 0 then minusSign :: digits else digits

theorem absoluteMagnitude_toNat (value : Int64) :
    (absoluteMagnitude value).toNat = value.toInt.natAbs := by
  have hmin := Int64.le_toInt value
  have hmax := Int64.toInt_lt value
  unfold absoluteMagnitude
  split_ifs with h
  · have hnonneg := Int64.le_iff_toInt_le.mp h
    rw [Int64.toNat_toUInt64_of_le h]
    change value.toInt.toNat = _
    rw [Int64.toInt_zero] at hnonneg
    omega
  · have hneg := mt Int64.le_iff_toInt_le.mpr h
    rw [Int64.toInt_zero] at hneg
    -- The complement of a negative number has no sign and fits.
    have hsum : (value + 1).toInt = value.toInt + 1 := by
      rw [Int64.toInt_add, Int64.toInt_one, Int.bmod_eq_of_le_mul_two (by omega) (by omega)]
    have hcomplement : (-(value + 1)).toInt = -(value.toInt + 1) := by
      rw [Int64.toInt_neg, hsum, Int.bmod_eq_of_le_mul_two (by omega) (by omega)]
    have hle : 0 ≤ -(value + 1) := by
      rw [Int64.le_iff_toInt_le, hcomplement, Int64.toInt_zero]
      omega
    rw [UInt64.toNat_add, Int64.toNat_toUInt64_of_le hle]
    change ((-(value + 1)).toInt.toNat + 1) % 2 ^ 64 = _
    rw [hcomplement]
    omega

theorem padDigits_length (exponent n : ℕ) :
    exponent + 1 ≤ (padDigits exponent (numeral n)).length := by
  simp only [padDigits]
  split_ifs with h
  · rw [List.length_append, List.length_replicate]
    omega
  · omega

theorem padDigits_isDigit (exponent n : ℕ) :
    ∀ c ∈ padDigits exponent (numeral n), isDigit c = true := by
  intro c hc
  simp only [padDigits] at hc
  split_ifs at hc
  · rcases List.mem_append.mp hc with hc | hc
    · rw [List.eq_of_mem_replicate hc]
      rfl
    · exact numeral_digits c hc
  · exact numeral_digits c hc

theorem value_padDigits (exponent n : ℕ) : value (padDigits exponent (numeral n)) = n := by
  simp only [padDigits]
  split_ifs
  · rw [value_padded, value_numeral]
  · exact value_numeral n

/-- Padding brings in a zero only where the integer part is that zero alone. -/
theorem padDigits_leading (exponent n : ℕ) :
    let padded := padDigits exponent (numeral n)
    padded.take (padded.length - exponent) = [zeroDigit] ∨
      (padded.take (padded.length - exponent)).head? ≠ some zeroDigit := by
  intro padded
  have hpadded : padded = padDigits exponent (numeral n) := rfl
  simp only [padDigits] at hpadded
  split_ifs at hpadded with h
  · left
    have hlength : padded.length - exponent = 1 := by
      rw [hpadded, List.length_append, List.length_replicate]
      omega
    obtain ⟨k, hk⟩ := Nat.exists_eq_add_of_lt h
    have hsucc : exponent + 1 - (numeral n).length = k + 1 := by omega
    rw [hlength, hpadded, hsucc, List.replicate_succ]
    rfl
  · have hpos : 0 < padded.length - exponent := by
      rw [hpadded]
      omega
    by_cases hn : n = 0
    · -- The only digit is a zero, and nothing stands behind the point.
      subst hn
      left
      have hzero : exponent = 0 := by
        have hone : (numeral 0).length = 1 := rfl
        omega
      rw [hpadded, hzero]
      rfl
    · right
      rw [List.head?_take, if_neg (by omega), hpadded]
      exact fun hc => numeral_head hn hc rfl

def Money.decimal (self : Money) : Decimal :=
  let padded := padDigits self.currency.exponent (numeral self.minorUnits.natAbs)
  ⟨decide (self.minorUnits < 0), padded.take (padded.length - self.currency.exponent),
    padded.drop (padded.length - self.currency.exponent)⟩

theorem insertIdx_eq_append {digits : Bytes} {position : ℕ} (h : position ≤ digits.length)
    (c : UInt8) : digits.insertIdx position c =
      digits.take position ++ c :: digits.drop position := by
  induction position generalizing digits with
  | zero => simp
  | succ position ih =>
    cases digits with
    | nil => simp at h
    | cons d digits => simp [ih (Nat.le_of_succ_le_succ h)]

theorem Money.decimal_fraction_length (self : Money) :
    self.decimal.fraction.length = self.currency.exponent := by
  have hlength := padDigits_length self.currency.exponent self.minorUnits.natAbs
  simp only [Money.decimal]
  rw [List.length_drop]
  omega

theorem Money.decimal_canonical (self : Money) :
    self.decimal.Canonical self.currency.exponent where
  integer_ne := by
    have hlength := padDigits_length self.currency.exponent self.minorUnits.natAbs
    apply List.ne_nil_of_length_pos
    simp only [Money.decimal]
    rw [List.length_take]
    omega
  integer_digits c hc := padDigits_isDigit _ _ c (List.mem_of_mem_take hc)
  leading := padDigits_leading _ _
  fraction_digits c hc := padDigits_isDigit _ _ c (List.mem_of_mem_drop hc)
  fraction_length := self.decimal_fraction_length.le

theorem Money.format_eq (self : Money) : self.format = self.decimal.text := by
  have hmagnitude : (absoluteMagnitude (Int64.ofInt self.minorUnits)).toNat =
      self.minorUnits.natAbs := by
    rw [absoluteMagnitude_toNat, Int64.toInt_ofInt_of_le self.inRange.1 self.inRange.2]
  have hfraction := self.decimal_fraction_length
  -- Sign apart, both are the padded digits with a point in front of the last ones.
  have hbody : (if self.currency.exponent ≠ 0 then
        (padDigits self.currency.exponent (numeral self.minorUnits.natAbs)).insertIdx
          ((padDigits self.currency.exponent (numeral self.minorUnits.natAbs)).length -
            self.currency.exponent) decimalPoint
      else numeral self.minorUnits.natAbs) = self.decimal.integer ++ self.decimal.fractionText := by
    unfold Decimal.fractionText
    split_ifs with hexponent hnil hnil
    · rw [hnil] at hfraction
      exact absurd hfraction.symm hexponent
    · exact insertIdx_eq_append (Nat.sub_le _ _) _
    · have hzero := not_not.mp hexponent
      have hpos := List.length_pos_of_ne_nil (numeral_ne_nil self.minorUnits.natAbs)
      simp only [Money.decimal, padDigits, hzero]
      rw [if_neg (by omega), Nat.sub_zero, List.take_length, List.append_nil]
    · rw [not_not.mp hexponent] at hfraction
      exact absurd (List.length_eq_zero_iff.mp hfraction) hnil
  have hnegative : self.decimal.negative = decide (self.minorUnits < 0) := rfl
  simp only [Money.format, hmagnitude]
  rw [hbody, Decimal.text, hnegative]
  by_cases hneg : self.minorUnits < 0 <;> simp [hneg]

theorem Money.decimal_units (self : Money) :
    self.decimal.units self.currency.exponent = self.minorUnits := by
  have hdigits : self.decimal.digits self.currency.exponent =
      padDigits self.currency.exponent (numeral self.minorUnits.natAbs) := by
    rw [Decimal.digits, self.decimal_fraction_length, Nat.sub_self, List.replicate_zero,
      List.append_nil]
    exact List.take_append_drop _ _
  rw [Decimal.units, hdigits, value_padDigits]
  simp only [Money.decimal, decide_eq_true_eq]
  split_ifs <;> omega

theorem Money.parse_format (self : Money) :
    Money.parse self.currency self.format = .ok self := by
  have hfits : FitsInt64 self.minorUnits := self.inRange
  rw [self.format_eq]
  rcases Money.parse_canonical self.decimal_canonical with h | h | h
  · rw [self.decimal_units] at h
    exact absurd hfits h.1
  · -- A minus sign is written for negative amounts only.
    rw [self.decimal_units] at h
    obtain ⟨⟨hneg, hzero⟩, _⟩ := h
    have hlt : self.minorUnits < 0 := of_decide_eq_true hneg
    omega
  · obtain ⟨_, money, hparse, hcurrency, hunits⟩ := h
    rw [self.decimal_units] at hunits
    rw [hparse, Money.ext hcurrency hunits]

/-- Parsing and formatting of decimal amounts are exact, over the rational
number that a text denotes. -/
theorem money_decimal_exact :
    (∀ (currency : Currency) (decimal : Bytes),
      Money.parse currency decimal = .error .invalidFormat ↔
        ¬∃ d : Decimal, d.Canonical currency.exponent ∧ decimal = d.text) ∧
    (∀ (currency : Currency) (d : Decimal), d.Canonical currency.exponent →
      let x := d.amount * 10 ^ currency.exponent
      (Money.parse currency d.text = .error .overflow ↔ x < -2 ^ 63 ∨ 2 ^ 63 - 1 < x) ∧
      (Money.parse currency d.text = .error .negativeZero ↔
        d.text.head? = some minusSign ∧ x = 0) ∧
      (∀ money, Money.parse currency d.text = .ok money ↔
        (-2 ^ 63 ≤ x ∧ x ≤ 2 ^ 63 - 1) ∧ ¬(d.text.head? = some minusSign ∧ x = 0) ∧
          money.currency = currency ∧ (money.minorUnits : ℚ) = x) ∧
      ∀ front c back magnitude, d.digits currency.exponent = front ++ c :: back →
        appendDigits (magnitudeLimit d.negative) 0 front = some magnitude →
          DigitExact (magnitudeLimit d.negative) magnitude c) ∧
    (∀ money : Money, Money.parse money.currency money.format = .ok money) ∧
    ∀ a b : Money, a.currency = b.currency → a.format = b.format → a = b := by
  refine ⟨fun _ _ => Money.parse_invalidFormat_iff, ?_, Money.parse_format, ?_⟩
  · intro currency d hcanonical x
    have hx : x = (d.units currency.exponent : ℚ) :=
      Decimal.amount_scaled hcanonical.fraction_length
    have hzero : x = 0 ↔ d.units currency.exponent = 0 := by
      rw [hx]
      exact Int.cast_eq_zero
    have hfits : FitsInt64 (d.units currency.exponent) ↔ -2 ^ 63 ≤ x ∧ x ≤ 2 ^ 63 - 1 := by
      have hlast : FitsInt64 (d.units currency.exponent) ↔ -2 ^ 63 ≤ d.units currency.exponent ∧
          d.units currency.exponent ≤ 2 ^ 63 - 1 := by
        unfold FitsInt64
        omega
      rw [hx, hlast]
      norm_cast
    have hover : ¬FitsInt64 (d.units currency.exponent) ↔ x < -2 ^ 63 ∨ 2 ^ 63 - 1 < x := by
      rw [hfits, not_and_or, not_le, not_le]
    rw [Decimal.text_head hcanonical, ← hover, ← hfits, hzero, hx]
    obtain ⟨hoverflow, hnegativeZero, hok⟩ := Money.parse_canonical_iff hcanonical
    refine ⟨hoverflow, hnegativeZero, ?_, ?_⟩
    · intro money
      rw [hok money, Int.cast_inj]
    · intro front c back magnitude hdigits _
      exact digitExact_of_canonical hcanonical hdigits magnitude
  · intro a b hcurrency hformat
    have hparse := a.parse_format
    rw [hcurrency, hformat, b.parse_format] at hparse
    exact (Except.ok.inj hparse).symm

end Backbook
