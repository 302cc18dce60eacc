import Backbook.DigitTexts
import Backbook.DomainMoney
import Backbook.BrowserViews

namespace Backbook

open JsonTree DecimalText

namespace Browser

def comma : UInt8 := ','.toUInt8

def exponents : Currency → ℕ
  | .usd => 2
  | .jpy => 0
  | .kwd => 3

structure MoneyParts where
  negative : Bool
  integer : Bytes
  fraction : Bytes
  currency : Currency
deriving DecidableEq, Repr

structure MoneyDto where
  currency : Currency
  minorUnits : Bytes
deriving DecidableEq, Repr

def MoneyDto.json (dto : MoneyDto) : Json :=
  ofTable [("currency", some (.string (currencyText dto.currency))),
    ("minorUnits", some (.string dto.minorUnits))]

section Formatting

-- The number formatting of the browser for the en-US locale.
variable (toLocaleString : ℤ → Bytes)

def moneyParts (money : Money) : MoneyParts :=
  let exponent := exponents money.currency
  let negative := decide (money.minorUnits < 0)
  let absolute := if negative then -money.minorUnits else money.minorUnits
  let scale : ℤ := 10 ^ exponent
  let integer := toLocaleString (absolute.tdiv scale)
  let fraction :=
    if exponent = 0 then []
    else (signedNumeral (absolute.tmod scale)).leftpad exponent zeroDigit
  ⟨negative, integer, fraction, money.currency⟩

def moneyInputValue (money : Money) : Bytes :=
  let parts := moneyParts toLocaleString money
  let integer := parts.integer.filter fun character => character ≠ comma
  let unsigned :=
    if parts.fraction.length = 0 then integer else integer ++ decimalPoint :: parts.fraction
  if parts.negative then minusSign :: unsigned else unsigned

/-- Grouping inserts commas into the numeral and does nothing else. -/
def OnlyInsertsCommas : Prop :=
  ∀ n : ℕ, (toLocaleString n).filter (fun character => character ≠ comma) = numeral n

end Formatting

/-- The two groups of a text of the form `(0|[1-9][0-9]*)(\.([0-9]+))?`. The second
one is there only behind a point. -/
def amountMatch (text : Bytes) : Option (Bytes × Option Bytes) :=
  let whole := text.takeWhile isDigit
  if unsignedPattern whole then
    match text.dropWhile isDigit with
    | [] => some (whole, none)
    | character :: fraction =>
      if character = decimalPoint ∧ fraction ≠ [] ∧ fraction.all isDigit then
        some (whole, some fraction)
      else none
  else none

def parsePositiveMoney (text : Bytes) (currency : Currency) : Decoded (Option MoneyDto) :=
  let exponent := exponents currency
  match amountMatch text with
  | none => .ok none
  | some (whole, group) =>
    let fraction := group.getD []
    if fraction.length > exponent then .ok none
    else if exponent = 0 ∧ fraction.length ≠ 0 then .ok none
    else
      let paddedFraction := fraction.rightpad exponent zeroDigit
      let combined := stripLeadingZeros (whole ++ paddedFraction)
      let canonical := if combined.length = 0 then [zeroDigit] else combined
      if bigInt canonical ≤ 0 then .ok none
      else do
        let minorUnits ← decodeDecimalString (.string canonical) "$"
        .ok (some ⟨currency, minorUnits⟩)

end Browser

open Browser (MoneyDto exponents amountMatch parsePositiveMoney moneyParts moneyInputValue
  OnlyInsertsCommas unsignedPattern)

@[simp] theorem exponents_eq (currency : Currency) : exponents currency = currency.exponent := by
  cases currency <;> rfl

theorem amountMatch_text {places : ℕ} {d : Decimal} (h : d.Canonical places)
    (hnegative : d.negative = false) : amountMatch d.text =
      some (d.integer, if d.fraction = [] then none else some d.fraction) := by
  have htext : d.text = d.integer ++ d.fractionText := by simp [Decimal.text, hnegative]
  have hwhole : unsignedPattern d.integer = true := unsignedPattern_iff.mpr h.exists_numeral
  simp only [amountMatch, htext, Decimal.takeWhile_integer h, Decimal.dropWhile_integer h,
    if_pos hwhole]
  -- The second group is there just when the text has a fraction.
  unfold Decimal.fractionText
  by_cases hnil : d.fraction = []
  · rw [if_pos hnil, if_pos hnil]
  · rw [if_neg hnil, if_neg hnil]
    exact if_pos ⟨rfl, hnil, List.all_eq_true.mpr h.fraction_digits⟩

example : amountMatch (asciiBytes "10.05") = some (asciiBytes "10", some (asciiBytes "05")) := by
  decide

example : amountMatch (asciiBytes "010") = none := by decide

/-- A text that matches is that of its two groups, which are canonical. -/
theorem amountMatch_some {text whole : Bytes} {group : Option Bytes}
    (h : amountMatch text = some (whole, group)) : ∃ d : Decimal,
      d.Canonical d.fraction.length ∧ d.negative = false ∧ text = d.text ∧
        d.integer = whole ∧ d.fraction = group.getD [] := by
  have hsplit := List.takeWhile_append_dropWhile (p := isDigit) (l := text)
  simp only [amountMatch] at h
  split_ifs at h with hwhole
  obtain ⟨n, hn⟩ := unsignedPattern_iff.mp hwhole
  rw [hn] at h hsplit
  cases hrest : text.dropWhile isDigit with
  | nil =>
    -- Nothing stands behind the whole part.
    simp only [hrest, Option.some.injEq, Prod.mk.injEq] at h
    obtain ⟨rfl, rfl⟩ := h
    refine ⟨⟨false, numeral n, []⟩, Decimal.canonical_numeral (List.forall_mem_nil _) le_rfl, rfl,
      ?_, rfl, rfl⟩
    rw [← hsplit, hrest]
    rfl
  | cons character fraction =>
    -- A point stands there, and behind it one digit at least.
    simp only [hrest] at h
    split_ifs at h with hfraction
    obtain ⟨hpoint, hne, hdigits⟩ := hfraction
    simp only [Option.some.injEq, Prod.mk.injEq] at h
    obtain ⟨rfl, rfl⟩ := h
    refine ⟨⟨false, numeral n, fraction⟩,
      Decimal.canonical_numeral (List.all_eq_true.mp hdigits) le_rfl, rfl, ?_, rfl, rfl⟩
    rw [← hsplit, hrest, hpoint, Decimal.text, Decimal.fractionText, if_neg hne]
    rfl

/-- A canonical text is read as the number of its smallest units, unless that is zero. -/
theorem parsePositiveMoney_canonical {currency : Currency} {d : Decimal}
    (h : d.Canonical currency.exponent) (hnegative : d.negative = false) :
    let n := value (d.digits currency.exponent)
    parsePositiveMoney d.text currency =
      .ok (if n = 0 then none else some ⟨currency, numeral n⟩) := by
  intro n
  have hfraction : (if d.fraction = [] then none else some d.fraction).getD [] = d.fraction := by
    split_ifs with hnil
    · exact hnil.symm
    · rfl
  have hshort : ¬d.fraction.length > currency.exponent := h.fraction_length.not_gt
  -- The check for currencies without a fraction finds nothing that the length left.
  have hnone : ¬(currency.exponent = 0 ∧ d.fraction.length ≠ 0) := by omega
  have hstrip : stripLeadingZeros (d.integer ++ d.fraction.rightpad currency.exponent zeroDigit) =
      numeral n := by
    apply stripLeadingZeros_digits
    · exact List.append_ne_nil_of_left_ne_nil h.integer_ne _
    · exact Decimal.digits_isDigit h
  have hne : ¬(numeral n).length = 0 := by simp [numeral_ne_nil]
  -- The canonical form is a numeral, which the big integers and the schema both take.
  have hbig : Browser.bigInt (numeral n) = n := by
    rw [← signedNumeral_natCast, bigInt_signedNumeral]
  have hdecode : Browser.decodeDecimalString (.string (numeral n)) "$" = .ok (numeral n) := by
    rw [← signedNumeral_natCast]
    exact patternText_string (decimalPattern_signedNumeral n) _ _
  simp only [parsePositiveMoney, amountMatch_text h hnegative, exponents_eq, hfraction,
    if_neg hshort, if_neg hnone, hstrip, if_neg hne, hbig, hdecode, Outcome.ok_bind]
  by_cases hzero : n = 0
  · simp [hzero]
  · rw [if_neg (by omega), if_neg hzero]

/-- Every other text is refused without an error. -/
theorem parsePositiveMoney_refused {currency : Currency} {text : Bytes}
    (h : ¬∃ d : Decimal, d.Canonical currency.exponent ∧ d.negative = false ∧ text = d.text) :
    parsePositiveMoney text currency = .ok none := by
  cases hmatch : amountMatch text with
  | none => simp only [parsePositiveMoney, hmatch]
  | some groups =>
    obtain ⟨whole, group⟩ := groups
    obtain ⟨d, hcanonical, hnegative, htext, -, hfraction⟩ := amountMatch_some hmatch
    -- It matches, so only a fraction that is too long keeps it from being canonical.
    have hlong : (group.getD []).length > currency.exponent := by
      by_contra hshort
      rw [← hfraction] at hshort
      exact h ⟨d, { hcanonical with fraction_length := Nat.not_lt.mp hshort }, hnegative, htext⟩
    simp only [parsePositiveMoney, hmatch, exponents_eq, if_pos hlong]

end Backbook
