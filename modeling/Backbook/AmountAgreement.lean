import Backbook.AmountEntry
import Backbook.CommandDocuments

namespace Backbook

open JsonTree DecimalText Validation
open Browser (MoneyDto parsePositiveMoney moneyParts moneyInputValue OnlyInsertsCommas)

def Browser.Money.decimal (money : Browser.Money) : Decimal :=
  ⟨decide (money.minorUnits < 0), numeral (money.minorUnits.natAbs / 10 ^ money.currency.exponent),
    fixedNumeral money.currency.exponent
      (money.minorUnits.natAbs % 10 ^ money.currency.exponent)⟩

theorem Browser.Money.decimal_canonical (money : Browser.Money) :
    money.decimal.Canonical money.currency.exponent :=
  Decimal.canonical_numeral (fixedNumeral_digits _ _) (fixedNumeral_length _ _).le

theorem Browser.Money.decimal_digits (money : Browser.Money) :
    value (money.decimal.digits money.currency.exponent) = money.minorUnits.natAbs := by
  simp only [Decimal.digits, Browser.Money.decimal, fixedNumeral_length, Nat.sub_self,
    List.replicate_zero, List.append_nil]
  rw [value_append, value_numeral, fixedNumeral_length, value_fixedNumeral, Nat.mod_mod,
    Nat.div_add_mod']

section Form

variable {toLocaleString : ℤ → Bytes} (hlocale : OnlyInsertsCommas toLocaleString)
include hlocale

/-- Up to its commas the displayed amount has the parts of that decimal. -/
theorem moneyParts_eq (money : Browser.Money) :
    let parts := moneyParts toLocaleString money
    parts.negative = money.decimal.negative ∧
      parts.integer.filter (fun character => character ≠ Browser.comma) = money.decimal.integer ∧
      parts.fraction = money.decimal.fraction := by
  have habsolute : (if decide (money.minorUnits < 0) then -money.minorUnits
      else money.minorUnits) = (money.minorUnits.natAbs : ℤ) := by
    by_cases hneg : money.minorUnits < 0
    · simp only [hneg, decide_true, if_true]
      omega
    · simp only [hneg, decide_false, Bool.false_eq_true, if_false]
      omega
  -- Truncated division of what is not negative is that of the natural numbers.
  have hwhole : (money.minorUnits.natAbs : ℤ).tdiv (10 ^ money.currency.exponent) =
      (money.minorUnits.natAbs / 10 ^ money.currency.exponent : ℕ) := by
    rw [Int.tdiv_eq_ediv_of_nonneg (by omega)]
    norm_cast
  have hrest : (money.minorUnits.natAbs : ℤ).tmod (10 ^ money.currency.exponent) =
      (money.minorUnits.natAbs % 10 ^ money.currency.exponent : ℕ) := by
    rw [Int.tmod_eq_emod_of_nonneg (by omega)]
    norm_cast
  simp only [moneyParts, exponents_eq, habsolute, hwhole, hrest, signedNumeral_natCast]
  refine ⟨rfl, hlocale _, ?_⟩
  by_cases hexponent : money.currency.exponent = 0
  · simp [Browser.Money.decimal, hexponent, fixedNumeral]
  · rw [if_neg hexponent]
    exact leftpad_numeral (Nat.pos_of_ne_zero hexponent) (Nat.mod_lt _ (by positivity))

theorem moneyInputValue_eq (money : Browser.Money) :
    moneyInputValue toLocaleString money = money.decimal.text := by
  obtain ⟨hnegative, hinteger, hfraction⟩ := moneyParts_eq hlocale money
  have hbody : (if money.decimal.fraction = [] then money.decimal.integer
      else money.decimal.integer ++ decimalPoint :: money.decimal.fraction) =
        money.decimal.integer ++ money.decimal.fractionText := by
    unfold Decimal.fractionText
    split_ifs
    · exact (List.append_nil _).symm
    · rfl
  simp only [moneyInputValue, hnegative, hinteger, hfraction, List.length_eq_zero_iff, hbody]
  unfold Decimal.text
  cases money.decimal.negative <;> rfl

/-- A form that is sent back unchanged sends the amount it was opened with. -/
theorem parsePositiveMoney_moneyInputValue {money : Browser.Money} (hpos : 0 < money.minorUnits) :
    parsePositiveMoney (moneyInputValue toLocaleString money) money.currency =
      .ok (some ⟨money.currency, signedNumeral money.minorUnits⟩) := by
  have hnegative : money.decimal.negative = false := decide_eq_false (by omega)
  have hnat : (money.minorUnits.natAbs : ℤ) = money.minorUnits := by omega
  rw [moneyInputValue_eq hlocale, parsePositiveMoney_canonical money.decimal_canonical hnegative,
    money.decimal_digits, if_neg (by omega), ← signedNumeral_natCast, hnat]

end Form

theorem Browser.MoneyDto.json_sorted (dto : MoneyDto) : dto.json.Sorted := by
  apply sorted_ofTable (by simp only [List.map_cons, List.map_nil]; decide)
  simp [Value.Sorted.string]

theorem Browser.MoneyDto.find_minorUnits (dto : MoneyDto) :
    dto.json.find "minorUnits" = some (.string dto.minorUnits) :=
  find_ofTable (by simp only [List.map_cons, List.map_nil]; decide)
    (m := (("minorUnits" : Bytes), some (.string dto.minorUnits)))
    (List.mem_cons_of_mem _ List.mem_cons_self)

/-- The server reads an amount in range as it is. -/
theorem parseMoney_dto {currency : Currency} {money : Money} (hcurrency : money.currency = currency)
    (path : Bytes) :
    parseMoney (MoneyDto.json ⟨currency, signedNumeral money.minorUnits⟩) path =
      pure (some money) := by
  apply (parseMoney_reads (MoneyDto.json_sorted _) path).accepts
  rw [← hcurrency]
  rfl

theorem requiredString_value {object : Json} {name text : Bytes} (ho : object.isObject = true)
    (hfind : object.find name = some (.string text)) (path : Bytes) (maximumLength : ℕ) :
    (requiredString object name path maximumLength).value =
      if text.length > maximumLength then none else some text := by
  have hmember : requiredMember object name path = pure (some (.string text)) := by
    simp [requiredMember, ho, hfind]
  rw [requiredString, hmember, Validation.pure_bind]
  dsimp only
  split_ifs
  · rfl
  · rfl

section OutOfRange

variable (currency : Currency) {n : ℕ} (hn : 2 ^ 63 - 1 < n) (path : Bytes)
include hn

/-- Beyond the range the text of the units is too long, or it is refused for its value. -/
theorem parseMoney_dto_value :
    (parseMoney (MoneyDto.json ⟨currency, numeral n⟩) path).value = none := by
  have hobject : (MoneyDto.json ⟨currency, numeral n⟩).isObject = true := rfl
  have hunits := requiredString_value hobject (MoneyDto.find_minorUnits _) path
  -- A text that is short enough for its field still fails where it is read.
  have hchars : fromCharsSigned (-2 ^ 63) (2 ^ 63 - 1) (numeral n) =
      .error .resultOutOfRange := by
    rw [← signedNumeral_natCast, fromCharsSigned_signedNumeral, if_pos (by omega)]
  have hcanonical : isCanonicalSigned (numeral n) = true :=
    isCanonicalSigned_iff.mpr ⟨n, (signedNumeral_natCast n).symm⟩
  simp only [parseMoney, Validation.value_bind, hobject, Bool.not_true, Bool.false_eq_true,
    if_false, hunits]
  cases (requiredString (MoneyDto.json ⟨currency, numeral n⟩) "currency" path 3).value with
  | none => rfl
  | some currencyText =>
    split_ifs
    · rfl
    · simp only [hcanonical, hchars, Bool.not_true, Bool.false_eq_true, if_false,
        Validation.value_bind]
      rfl

/-- The document of such an amount is no document of the domain, so it is reported. -/
theorem parseMoney_dto_reports :
    (parseMoney (MoneyDto.json ⟨currency, numeral n⟩) path).reports ≠ [] := by
  apply (parseMoney_reads (MoneyDto.json_sorted _) path).rejects
  intro money hjson
  -- Otherwise the amount of that document would be out of its own range.
  have hsent := MoneyDto.find_minorUnits ⟨currency, numeral n⟩
  have hread := MoneyDto.find_minorUnits ⟨money.currency, signedNumeral money.minorUnits⟩
  rw [hjson] at hsent
  have htexts := Option.some.inj (hsent.symm.trans hread)
  have hunits : numeral n = signedNumeral money.minorUnits := Value.string.inj htexts
  rw [← signedNumeral_natCast] at hunits
  have hz := signedNumeral_injective hunits
  have hrange := money.inRange
  omega

end OutOfRange

/-- The texts that the browser takes, and what it makes of them. -/
theorem parsePositiveMoney_some_iff {currency : Currency} {text : Bytes} {dto : MoneyDto} :
    parsePositiveMoney text currency = .ok (some dto) ↔
      ∃ d, scanDecimal currency.exponent text = .ok d ∧ d.negative = false ∧
        0 < value (d.digits currency.exponent) ∧
        dto = ⟨currency, numeral (value (d.digits currency.exponent))⟩ := by
  constructor
  · intro h
    by_cases htext : ∃ d : Decimal, d.Canonical currency.exponent ∧ d.negative = false ∧
        text = d.text
    · obtain ⟨d, hcanonical, hnegative, rfl⟩ := htext
      have hread := parsePositiveMoney_canonical hcanonical hnegative
      rw [h, Except.ok.injEq] at hread
      split_ifs at hread with hzero
      exact ⟨d, scanDecimal_ok_iff.mpr ⟨hcanonical, rfl⟩, hnegative, Nat.pos_of_ne_zero hzero,
        Option.some.inj hread⟩
    · rw [parsePositiveMoney_refused htext, Except.ok.injEq] at h
      contradiction
  · rintro ⟨d, hscan, hnegative, hpos, rfl⟩
    obtain ⟨hcanonical, rfl⟩ := scanDecimal_ok_iff.mp hscan
    rw [parsePositiveMoney_canonical hcanonical hnegative, if_neg hpos.ne']

/-- The parser of the browser throws nothing. -/
theorem parsePositiveMoney_returns (currency : Currency) (text : Bytes) :
    ∃ result, parsePositiveMoney text currency = .ok result := by
  by_cases htext : ∃ d : Decimal, d.Canonical currency.exponent ∧ d.negative = false ∧
      text = d.text
  · obtain ⟨d, hcanonical, hnegative, rfl⟩ := htext
    exact ⟨_, parsePositiveMoney_canonical hcanonical hnegative⟩
  · exact ⟨none, parsePositiveMoney_refused htext⟩

/-- The domain reads what the browser takes as the same number, if that fits. -/
theorem parse_of_browser {currency : Currency} {text : Bytes} {d : Decimal}
    (hscan : scanDecimal currency.exponent text = .ok d) (hnegative : d.negative = false) :
    let n := value (d.digits currency.exponent)
    (n ≤ 2 ^ 63 - 1 → ∃ money : Money, money.currency = currency ∧ money.minorUnits = n ∧
      Money.parse currency text = .ok money) ∧
    (2 ^ 63 - 1 < n → Money.parse currency text = .error .overflow) := by
  intro n
  obtain ⟨hcanonical, rfl⟩ := scanDecimal_ok_iff.mp hscan
  have hunits : d.units currency.exponent = n := Decimal.units_of_nonnegative hnegative
  have hsign : ¬(d.negative = true ∧ d.units currency.exponent = 0) := by simp [hnegative]
  obtain ⟨hoverflow, -, hok⟩ := Money.parse_canonical_iff hcanonical
  have hfits : FitsInt64 (d.units currency.exponent) ↔ n ≤ 2 ^ 63 - 1 := by
    rw [hunits, FitsInt64]
    omega
  constructor
  · intro hn
    have hrange : FitsInt64 n := hunits ▸ hfits.mpr hn
    let money : Money := ⟨currency, n, hrange⟩
    exact ⟨money, rfl, rfl, (hok money).mpr ⟨hfits.mpr hn, hsign, rfl, hunits.symm⟩⟩
  · intro hn
    exact hoverflow.mpr fun hfit => absurd (hfits.mp hfit) (by omega)

/-- Amount entry agrees with the domain and with the server, and a form gives
back the amount that it shows. -/
theorem amount_entry_agrees {toLocaleString : ℤ → Bytes}
    (hlocale : OnlyInsertsCommas toLocaleString) :
    (∀ (currency : Currency) (text : Bytes),
      (∃ result, parsePositiveMoney text currency = .ok result) ∧
      ((∃ dto, parsePositiveMoney text currency = .ok (some dto)) ↔
        ∃ d, scanDecimal currency.exponent text = .ok d ∧ d.negative = false ∧
          0 < d.amount * 10 ^ currency.exponent) ∧
      ∀ dto, parsePositiveMoney text currency = .ok (some dto) →
        ∃ (d : Decimal) (n : ℕ), scanDecimal currency.exponent text = .ok d ∧
          (n : ℚ) = d.amount * 10 ^ currency.exponent ∧ dto = ⟨currency, numeral n⟩ ∧
          (n ≤ 2 ^ 63 - 1 → ∃ money : Money, money.currency = currency ∧ money.minorUnits = n ∧
            Money.parse currency text = .ok money ∧
            ∀ path, parseMoney dto.json path = pure (some money)) ∧
          (2 ^ 63 - 1 < n → Money.parse currency text = .error .overflow ∧
            ∀ path, (parseMoney dto.json path).value = none ∧
              (parseMoney dto.json path).reports ≠ [])) ∧
    (∀ money : Browser.Money, 0 < money.minorUnits →
      parsePositiveMoney (moneyInputValue toLocaleString money) money.currency =
        .ok (some ⟨money.currency, signedNumeral money.minorUnits⟩)) ∧
    ∀ money : Money, 0 < money.minorUnits → ∃ dto,
      parsePositiveMoney (moneyInputValue toLocaleString money.view) money.currency =
        .ok (some dto) ∧ ∀ path, parseMoney dto.json path = pure (some money) := by
  have hscaled : ∀ {currency : Currency} {text : Bytes} {d : Decimal},
      scanDecimal currency.exponent text = .ok d → d.negative = false →
        d.amount * 10 ^ currency.exponent = (value (d.digits currency.exponent) : ℚ) := by
    intro currency text d hscan hnegative
    obtain ⟨hcanonical, -⟩ := scanDecimal_ok_iff.mp hscan
    rw [Decimal.amount_scaled hcanonical.fraction_length, Decimal.units_of_nonnegative hnegative,
      Int.cast_natCast]
  refine ⟨?_, fun _ hpos => parsePositiveMoney_moneyInputValue hlocale hpos, ?_⟩
  · intro currency text
    refine ⟨parsePositiveMoney_returns currency text, ?_, ?_⟩
    -- Taking a text is a fact about its decimal, stated with scaled amounts here.
    · simp only [parsePositiveMoney_some_iff]
      constructor
      · rintro ⟨dto, d, hscan, hnegative, hpos, -⟩
        refine ⟨d, hscan, hnegative, ?_⟩
        rw [hscaled hscan hnegative]
        exact_mod_cast hpos
      · rintro ⟨d, hscan, hnegative, hpos⟩
        rw [hscaled hscan hnegative] at hpos
        exact ⟨_, d, hscan, hnegative, by exact_mod_cast hpos, rfl⟩
    · intro dto hread
      obtain ⟨d, hscan, hnegative, -, rfl⟩ := parsePositiveMoney_some_iff.mp hread
      -- The domain decides by the range, and the server reads what the domain has.
      obtain ⟨hfits, hover⟩ := parse_of_browser hscan hnegative
      refine ⟨d, _, hscan, (hscaled hscan hnegative).symm, rfl, ?_, ?_⟩
      · intro hn
        obtain ⟨money, hcurrency, hunits, hparse⟩ := hfits hn
        refine ⟨money, hcurrency, hunits, hparse, ?_⟩
        intro path
        rw [← signedNumeral_natCast, ← hunits]
        exact parseMoney_dto hcurrency path
      · intro hn
        refine ⟨hover hn, ?_⟩
        intro path
        exact ⟨parseMoney_dto_value currency hn path, parseMoney_dto_reports currency hn path⟩
  · intro money hpos
    exact ⟨_, parsePositiveMoney_moneyInputValue hlocale hpos, parseMoney_dto rfl⟩

def groupThousands : Bytes → Bytes
  | a :: b :: c :: d :: rest => a :: b :: c :: Browser.comma :: groupThousands (d :: rest)
  | digits => digits

def enUsNumber (z : ℤ) : Bytes :=
  (if z < 0 then [minusSign] else []) ++ (groupThousands (numeral z.natAbs).reverse).reverse

example : (groupThousands (asciiBytes "1234567").reverse).reverse = asciiBytes "1,234,567" := by
  decide

theorem filter_groupThousands {digits : Bytes} (h : ∀ c ∈ digits, isDigit c = true) :
    (groupThousands digits).filter (fun character => character ≠ Browser.comma) = digits := by
  have hcomma : isDigit Browser.comma = false := by decide
  have hkept : ∀ c, isDigit c = true → c ≠ Browser.comma := by
    rintro c hc rfl
    rw [hcomma] at hc
    contradiction
  fun_induction groupThousands digits with
  | case1 a b c d rest ih =>
    simp only [List.forall_mem_cons] at h
    obtain ⟨ha, hb, hc, hd, hrest⟩ := h
    have htail := ih (List.forall_mem_cons.mpr ⟨hd, hrest⟩)
    simpa [hkept a ha, hkept b hb, hkept c hc] using htail
  | case2 digits =>
    apply List.filter_eq_self.mpr
    intro c hc
    exact decide_eq_true (hkept c (h c hc))

theorem enUsNumber_onlyInsertsCommas : OnlyInsertsCommas enUsNumber := by
  intro n
  have hdigits : ∀ c ∈ (numeral n).reverse, isDigit c = true := by
    intro c hc
    exact numeral_digits c (List.mem_reverse.mp hc)
  have hnonnegative : ¬(n : ℤ) < 0 := by omega
  rw [enUsNumber, if_neg hnonnegative, List.nil_append, List.filter_reverse,
    Int.natAbs_natCast, filter_groupThousands hdigits, List.reverse_reverse]

theorem amount_entry_agrees_enUs : OnlyInsertsCommas enUsNumber ∧
    parsePositiveMoney (moneyInputValue enUsNumber ⟨.usd, 123456789⟩) .usd =
      .ok (some ⟨.usd, signedNumeral 123456789⟩) :=
  ⟨enUsNumber_onlyInsertsCommas, (amount_entry_agrees enUsNumber_onlyInsertsCommas).2.1
    ⟨.usd, 123456789⟩ (by decide)⟩

end Backbook
