import Backbook.ConsoleRequests
import Backbook.DateAgreement

/-! The forms of the console. A form that is submitted means the command that the
domain's own parsers read off its texts: what they read is submitted and understood,
and what is submitted without a meaning is an amount beyond 64 bits or a date before
the calendar of the domain, which the server refuses. -/
namespace Backbook

open JsonTree DecimalText

namespace Browser

def uuidPattern (text : Bytes) : Bool :=
  text.length == 36 && text.zipIdx.all fun (character, index) =>
    if index = 8 ∨ index = 13 ∨ index = 18 ∨ index = 23 then character == '-'.toUInt8
    else isHexDigit character

def decodeCommandId : Json → Bytes → Decoded Bytes := identifier

def newCommandId (randomUuid : Bytes) : Decoded Bytes := decodeCommandId (.string randomUuid) "$"

def postingId (scope suffix : Bytes) : Decoded Bytes :=
  decodePostingId (.string (asciiBytes "P-" ++ scope ++ asciiBytes "-" ++ suffix)) "$"

def newConfirmationPostingIds (scope : Bytes) : Decoded ConfirmationTexts := do
  let payControlDebit ← postingId scope "PCD"
  let payPayableCredit ← postingId scope "PPC"
  let receiveReceivableDebit ← postingId scope "RRD"
  let receiveControlCredit ← postingId scope "RCC"
  .ok ⟨payControlDebit, payPayableCredit, receiveReceivableDebit, receiveControlCredit⟩

def newReversalPostingIds (scope : Bytes) : Decoded ReversalTexts := do
  let payControlCredit ← postingId scope "PCC"
  let payPayableDebit ← postingId scope "PPD"
  let receiveReceivableCredit ← postingId scope "RRC"
  let receiveControlDebit ← postingId scope "RCD"
  .ok ⟨payControlCredit, payPayableDebit, receiveReceivableCredit, receiveControlDebit⟩

def currency (value : Bytes) : Currency :=
  if value = "USD" then .usd else if value = "JPY" then .jpy else if value = "KWD" then .kwd
  else .usd

def instrument (value : Bytes) : InstrumentKind :=
  if value = "FX_FORWARD" then .fxForward else .fxSpot

structure TermsEntries where
  kind : InstrumentKind
  tradeDate : Bytes
  valueDate : Bytes
  payCurrency : Currency
  payAmount : Bytes
  receiveCurrency : Currency
  receiveAmount : Bytes

structure BookEntries extends TermsEntries where
  tradeId : Bytes
  bookId : Bytes
  counterpartyId : Bytes
  nettingSetId : Bytes

def toUpper (character : UInt8) : UInt8 :=
  if 'a'.toUInt8 ≤ character ∧ character ≤ 'z'.toUInt8 then character - 32 else character

def BookEntries.initial (randomUuid : Bytes) : BookEntries where
  tradeId := asciiBytes "TRD-" ++ (randomUuid.take 8).map toUpper
  bookId := "BOOK-FX-1"
  counterpartyId := "CPTY-A"
  nettingSetId := "NET-A"
  kind := .fxSpot
  tradeDate := "2026-07-25"
  valueDate := "2026-07-29"
  payCurrency := .usd
  payAmount := "25000.00"
  receiveCurrency := .jpy
  receiveAmount := "3750000"

section Submitting

variable (isRealDay : Bytes → Bool)

def TermsEntries.request (entries : TermsEntries) (pay receive : MoneyDto) :
    Decoded FxTermsRequest := do
  let tradeDate ← decodeIsoDate isRealDay (.string entries.tradeDate) "$"
  let valueDate ← decodeIsoDate isRealDay (.string entries.valueDate) "$"
  .ok ⟨entries.kind, tradeDate, valueDate, pay, receive⟩

/-- The part that both `submit` functions share. What it throws is not caught; what
the payload throws is, and leaves a message under the form. -/
def TermsEntries.submit {π : Type} (entries : TermsEntries)
    (payload : MoneyDto → MoneyDto → Decoded π) (complaint : Bytes) :
    Decoded (Except Bytes π) := do
  let pay ← parsePositiveMoney entries.payAmount entries.payCurrency
  let receive ← parsePositiveMoney entries.receiveAmount entries.receiveCurrency
  match pay, receive with
  | some pay, some receive =>
    if entries.payCurrency = entries.receiveCurrency then
      .ok (.error "Pay and receive currencies must differ.")
    else
      match payload pay receive with
      | .ok payload => .ok (.ok payload)
      | .error _ => .ok (.error complaint)
  | _, _ => .ok (.error "Enter positive amounts using each currency's precision.")

def BookEntries.submit (entries : BookEntries) : Decoded (Except Bytes BookPayload) :=
  entries.toTermsEntries.submit (fun pay receive => do
    let tradeId ← decodeTradeId (.string entries.tradeId) "$"
    let bookId ← decodeBookId (.string entries.bookId) "$"
    let counterpartyId ← decodeCounterpartyId (.string entries.counterpartyId) "$"
    let nettingSetId ← decodeNettingSetId (.string entries.nettingSetId) "$"
    let terms ← entries.request isRealDay pay receive
    .ok ⟨tradeId, bookId, counterpartyId, nettingSetId, terms⟩)
    "Review identifiers and ISO dates before submitting."

/-- `submit` of the amendment dialog, as far as it does not depend on the trade. -/
def TermsEntries.submitAmend (entries : TermsEntries) : Decoded (Except Bytes FxTermsRequest) :=
  entries.submit (entries.request isRealDay) "Review the ISO dates before submitting."

end Submitting

def TermsEntries.opened (toLocaleString : ℤ → Bytes) (trade : Trade) : TermsEntries where
  kind := trade.terms.kind
  tradeDate := trade.terms.tradeDate
  valueDate := trade.terms.valueDate
  payCurrency := trade.terms.pay.currency
  payAmount := moneyInputValue toLocaleString trade.terms.pay
  receiveCurrency := trade.terms.receive.currency
  receiveAmount := moneyInputValue toLocaleString trade.terms.receive

def bookRequest (commandId : Bytes) (payload : BookPayload) : CommandRequest :=
  ⟨commandId, .bookTrade payload⟩

def amendRequest (commandId : Bytes) (trade : Trade) (terms : FxTermsRequest)
    (reversalPostingIds : ReversalTexts) (replacementPostingIds : ConfirmationTexts) :
    CommandRequest :=
  ⟨commandId, .amendTrade trade.version
    ⟨trade.tradeId, terms, reversalPostingIds, replacementPostingIds⟩⟩

def eodRequest (commandId eodDate : Bytes) : CommandRequest := ⟨commandId, .runEod eodDate⟩

end Browser

open Browser (parsePositiveMoney identifier identifierPattern datePattern decodeIsoDate patternText
  stringValue)

/-- A positive amount of the domain is what the form takes, unit for unit. -/
theorem parsePositiveMoney_dto_iff {currency : Currency} {text : Bytes} {money : Money} :
    parsePositiveMoney text currency = .ok (some money.dto) ↔
      Money.parse currency text = .ok money ∧ 0 < money.minorUnits := by
  constructor
  · intro h
    obtain ⟨d, hscan, hnegative, hpos, hdto⟩ := parsePositiveMoney_some_iff.mp h
    have hcurrency : money.currency = currency := congrArg Browser.MoneyDto.currency hdto
    have htexts : signedNumeral money.minorUnits = numeral (value (d.digits currency.exponent)) :=
      congrArg Browser.MoneyDto.minorUnits hdto
    have hunits : money.minorUnits = value (d.digits currency.exponent) := by
      rw [← signedNumeral_natCast] at htexts
      exact signedNumeral_injective htexts
    -- The amount of the domain is in range, so the text is one the domain reads.
    have hrange := money.inRange.2
    have hfits : value (d.digits currency.exponent) ≤ 2 ^ 63 - 1 := by omega
    obtain ⟨read, hreadCurrency, hreadUnits, hparse⟩ := (parse_of_browser hscan hnegative).1 hfits
    have hread : read = money :=
      Money.ext (hreadCurrency.trans hcurrency.symm) (hreadUnits.trans hunits.symm)
    rw [hread] at hparse
    exact ⟨hparse, by omega⟩
  · intro h
    obtain ⟨hparse, hpos⟩ := h
    have hscan : ∃ d : Decimal, d.Canonical currency.exponent ∧ text = d.text := by
      by_contra hnone
      rw [Money.parse_invalidFormat_iff.mpr hnone] at hparse
      contradiction
    obtain ⟨d, hcanonical, rfl⟩ := hscan
    obtain ⟨_, _, hok⟩ := Money.parse_canonical_iff hcanonical
    obtain ⟨_, _, hcurrency, hunits⟩ := (hok money).mp hparse
    have hnegative : d.negative = false := by
      by_contra hsign
      have hle : d.units currency.exponent ≤ 0 := by
        simp only [Decimal.units, Bool.not_eq_false] at hsign ⊢
        simp [hsign]
      omega
    have hvalue : money.minorUnits = value (d.digits currency.exponent) := by
      rw [hunits, Decimal.units_of_nonnegative hnegative]
    apply parsePositiveMoney_some_iff.mpr
    refine ⟨d, scanDecimal_ok_iff.mpr ⟨hcanonical, rfl⟩, hnegative, by omega, ?_⟩
    rw [Money.dto, hcurrency, hvalue, signedNumeral_natCast]

theorem validateId_of_pattern {text : Bytes} (h : identifierPattern text = true) :
    validateId text = .ok () := by
  cases text with
  | nil => contradiction
  | cons first rest =>
    simp only [identifierPattern, Bool.and_eq_true, decide_eq_true_eq] at h
    obtain ⟨⟨hfirst, hrest⟩, hlength⟩ := h
    simp [validateId, hfirst, hrest]
    omega

/-- An identifier of the console is an identifier of the domain. -/
theorem identifier_ok_iff (tag : IdTag) {text read path : Bytes} :
    identifier (.string text) path = .ok read ↔
      ∃ id : Id tag, Id.parse tag text = .ok id ∧ read = id.value := by
  have htext : identifier (.string text) path =
      if identifierPattern text then .ok text
      else Browser.complain path " is not a valid identifier" := rfl
  rw [htext]
  constructor
  · intro h
    split_ifs at h with hpattern
    · obtain rfl := Except.ok.inj h
      exact ⟨⟨text, validateId_of_pattern hpattern⟩, Id.parse_ok_iff.mpr rfl, rfl⟩
    · contradiction
  · rintro ⟨id, hparse, rfl⟩
    obtain rfl := Id.parse_ok_iff.mp hparse
    rw [if_pos (identifierPattern_value id)]

theorem identifier_value_iff {tag : IdTag} {text path : Bytes} {id : Id tag} :
    identifier (.string text) path = .ok id.value ↔ Id.parse tag text = .ok id := by
  rw [identifier_ok_iff tag]
  constructor
  · rintro ⟨other, hparse, hvalue⟩
    obtain rfl := Id.ext hvalue
    exact hparse
  · intro hparse
    exact ⟨id, hparse, rfl⟩

/-- What the browser's `Date` is documented to say of a text in the form of a date:
the days of the Gregorian calendar are real, those of a year 0 among them. -/
def RealDays (isRealDay : Bytes → Bool) : Prop :=
  ∀ text year month day, SpellsDate text year month day →
    (isRealDay text = true ↔ 1 ≤ month ∧ month ≤ 12 ∧ 1 ≤ day ∧ day ≤ lastDayOfMonth year month)

variable {isRealDay : Bytes → Bool}

theorem RealDays.toString (hday : RealDays isRealDay) (date : IsoDate) :
    isRealDay date.toString = true := by
  obtain ⟨_, _, hvalid⟩ := date.valid
  exact (hday _ _ _ _ (spellsDate_iff.mpr rfl)).mpr hvalid

theorem spells_of_datePattern {text : Bytes} (h : datePattern text = true) :
    ∃ year month day, SpellsDate text year month day := by
  unfold datePattern at h
  split at h
  · rename_i y0 y1 y2 y3 s4 m0 m1 s7 d0 d1
    simp only [List.all_cons, List.all_nil, Bool.and_eq_true, beq_iff_eq, and_true] at h
    obtain ⟨⟨hy0, hy1, hy2, hy3, hm0, hm1, hd0, hd1⟩, rfl, rfl⟩ := h
    exact ⟨_, _, _, [y0, y1, y2, y3], [m0, m1], [d0, d1], rfl, ⟨rfl, rfl, rfl⟩, by simp [*], rfl,
      rfl, rfl⟩
  · contradiction

theorem decodeIsoDate_text {text read path : Bytes}
    (h : decodeIsoDate isRealDay (.string text) path = .ok read) :
    read = text ∧ datePattern text = true ∧ isRealDay text = true := by
  have htext : decodeIsoDate isRealDay (.string text) path =
      ((if datePattern text then .ok text else Browser.complain path " must be an ISO date") >>=
        fun text => if isRealDay text then .ok text
          else Browser.complain path " must be a real ISO date") := rfl
  rw [htext] at h
  by_cases hpattern : datePattern text = true
  · by_cases hreal : isRealDay text = true
    · rw [if_pos hpattern] at h
      change (if isRealDay text then _ else _) = _ at h
      rw [if_pos hreal] at h
      exact ⟨(Except.ok.inj h).symm, hpattern, hreal⟩
    · rw [if_pos hpattern] at h
      change (if isRealDay text then _ else _) = _ at h
      rw [if_neg hreal] at h
      contradiction
  · rw [if_neg hpattern] at h
    contradiction

theorem decodeIsoDate_value_iff (hday : RealDays isRealDay) {text path : Bytes} {date : IsoDate} :
    decodeIsoDate isRealDay (.string text) path = .ok date.toString ↔
      IsoDate.parse text = .ok date := by
  rw [IsoDate.parse_ok_iff]
  constructor
  · intro h
    exact (decodeIsoDate_text h).1.symm
  · rintro rfl
    exact decodeIsoDate_toString hday.toString date path

/-- The form takes the dates of the domain, and those of the year 0. -/
theorem decodeIsoDate_cases (hday : RealDays isRealDay) {text read path : Bytes}
    (h : decodeIsoDate isRealDay (.string text) path = .ok read) :
    (∃ date, IsoDate.parse text = .ok date) ∨ ∃ month day, SpellsDate text 0 month day := by
  obtain ⟨_, hpattern, hreal⟩ := decodeIsoDate_text h
  obtain ⟨year, month, day, hspells⟩ := spells_of_datePattern hpattern
  have hcalendar := (hday _ _ _ _ hspells).mp hreal
  by_cases hyear : year = 0
  · subst hyear
    exact .inr ⟨month, day, hspells⟩
  · left
    obtain ⟨y, m, d, rfl, ⟨hy, _, _⟩, hdigits, rfl, rfl, rfl⟩ := id hspells
    have hfour : ∀ c ∈ y, isDigit c = true := by
      simp only [List.forall_mem_append] at hdigits
      exact hdigits.1.1
    have hlt : value y < 10 ^ 4 := hy ▸ value_lt hfour
    have hvalid : isCalendarDate (value y) (value m) (value d) :=
      ⟨by omega, by omega, hcalendar⟩
    exact IsoDate.parse_succeeds_iff.mpr ⟨_, _, _, hspells, hvalid⟩

namespace Browser

def TermsEntries.Denotes (entries : TermsEntries) (terms : Backbook.FxTerms) : Prop :=
  entries.kind = terms.kind ∧ IsoDate.parse entries.tradeDate = .ok terms.tradeDate ∧
    IsoDate.parse entries.valueDate = .ok terms.valueDate ∧
    Backbook.Money.parse entries.payCurrency entries.payAmount = .ok terms.pay ∧
    Backbook.Money.parse entries.receiveCurrency entries.receiveAmount = .ok terms.receive

def BookEntries.Denotes (entries : BookEntries) (command : BookTradeCommand) : Prop :=
  Id.parse .trade entries.tradeId = .ok command.tradeId ∧
    Id.parse .book entries.bookId = .ok command.bookId ∧
    Id.parse .counterparty entries.counterpartyId = .ok command.counterpartyId ∧
    Id.parse .nettingSet entries.nettingSetId = .ok command.nettingSetId ∧
    entries.toTermsEntries.Denotes command.terms

def TermsEntries.Unrepresentable (entries : TermsEntries) : Prop :=
  (Backbook.Money.parse entries.payCurrency entries.payAmount = .error .overflow ∨
    Backbook.Money.parse entries.receiveCurrency entries.receiveAmount = .error .overflow) ∨
  (∃ month day, SpellsDate entries.tradeDate 0 month day) ∨
    ∃ month day, SpellsDate entries.valueDate 0 month day

variable {entries : TermsEntries} {π : Type} {payload : MoneyDto → MoneyDto → Decoded π}
  {complaint : Bytes}

theorem TermsEntries.submit_ok_iff {result : π} :
    entries.submit payload complaint = .ok (.ok result) ↔ ∃ pay receive,
      parsePositiveMoney entries.payAmount entries.payCurrency = .ok (some pay) ∧
      parsePositiveMoney entries.receiveAmount entries.receiveCurrency = .ok (some receive) ∧
      entries.payCurrency ≠ entries.receiveCurrency ∧ payload pay receive = .ok result := by
  obtain ⟨pay, hpay⟩ := parsePositiveMoney_returns entries.payCurrency entries.payAmount
  obtain ⟨receive, hreceive⟩ :=
    parsePositiveMoney_returns entries.receiveCurrency entries.receiveAmount
  unfold TermsEntries.submit
  rw [hpay, hreceive]
  cases pay with
  | none => simp [bind, Except.bind]
  | some pay =>
    cases receive with
    | none => simp [bind, Except.bind]
    | some receive =>
      by_cases hsame : entries.payCurrency = entries.receiveCurrency
      · simp [bind, Except.bind, hsame]
      · cases hread : payload pay receive with
        | ok read => simp [bind, Except.bind, hsame, hread]
        | error e => simp [bind, Except.bind, hsame, hread]

/-- A form that is not submitted has a message for the first thing that is wrong. -/
theorem TermsEntries.submit_cases :
    (∃ result, entries.submit payload complaint = .ok (.ok result)) ∨
    ∃ message, entries.submit payload complaint = .ok (.error message) ∧
      (message = "Enter positive amounts using each currency's precision." ∧
          (parsePositiveMoney entries.payAmount entries.payCurrency = .ok none ∨
            parsePositiveMoney entries.receiveAmount entries.receiveCurrency = .ok none) ∨
        message = "Pay and receive currencies must differ." ∧
          entries.payCurrency = entries.receiveCurrency ∨
        message = complaint ∧ ∃ pay receive e, payload pay receive = .error e) := by
  obtain ⟨pay, hpay⟩ := parsePositiveMoney_returns entries.payCurrency entries.payAmount
  obtain ⟨receive, hreceive⟩ :=
    parsePositiveMoney_returns entries.receiveCurrency entries.receiveAmount
  unfold TermsEntries.submit
  rw [hpay, hreceive]
  cases pay with
  | none => exact .inr ⟨_, rfl, .inl ⟨rfl, .inl rfl⟩⟩
  | some pay =>
    cases receive with
    | none => exact .inr ⟨_, rfl, .inl ⟨rfl, .inr rfl⟩⟩
    | some receive =>
      by_cases hsame : entries.payCurrency = entries.receiveCurrency
      · right
        refine ⟨"Pay and receive currencies must differ.", ?_, .inr (.inl ⟨rfl, hsame⟩)⟩
        simp [bind, Except.bind, hsame]
      · cases hread : payload pay receive with
        | ok read =>
          left
          exact ⟨read, by simp [bind, Except.bind, hsame, hread]⟩
        | error e =>
          right
          refine ⟨complaint, ?_, .inr (.inr ⟨rfl, pay, receive, e, hread⟩)⟩
          simp [bind, Except.bind, hsame, hread]

theorem TermsEntries.request_ok_iff {pay receive : MoneyDto} {read : FxTermsRequest} :
    entries.request isRealDay pay receive = .ok read ↔
      entries.kind = read.kind ∧
        decodeIsoDate isRealDay (.string entries.tradeDate) "$" = .ok read.tradeDate ∧
        decodeIsoDate isRealDay (.string entries.valueDate) "$" = .ok read.valueDate ∧
        pay = read.pay ∧ receive = read.receive := by
  unfold TermsEntries.request
  simp only [Outcome.bind_ok_iff, Except.ok.injEq]
  constructor
  · rintro ⟨tradeDate, htrade, valueDate, hvalue, rfl⟩
    exact ⟨rfl, htrade, hvalue, rfl, rfl⟩
  · rintro ⟨hkind, htrade, hvalue, hpay, hreceive⟩
    refine ⟨_, htrade, _, hvalue, ?_⟩
    rw [hkind, hpay, hreceive]

/-- The form holds the request of the terms just when its texts are those terms. -/
theorem TermsEntries.request_iff (hday : RealDays isRealDay) {terms : Backbook.FxTerms} :
    (∃ pay receive, parsePositiveMoney entries.payAmount entries.payCurrency = .ok (some pay) ∧
      parsePositiveMoney entries.receiveAmount entries.receiveCurrency = .ok (some receive) ∧
      entries.payCurrency ≠ entries.receiveCurrency ∧
      entries.request isRealDay pay receive = .ok terms.request) ↔ entries.Denotes terms := by
  simp only [TermsEntries.request_ok_iff]
  constructor
  · intro h
    obtain ⟨pay, receive, hpay, hreceive, _, hkind, htrade, hvalue, rfl, rfl⟩ := h
    exact ⟨hkind, (decodeIsoDate_value_iff hday).mp htrade,
      (decodeIsoDate_value_iff hday).mp hvalue, (parsePositiveMoney_dto_iff.mp hpay).1,
      (parsePositiveMoney_dto_iff.mp hreceive).1⟩
  · intro h
    obtain ⟨hkind, htrade, hvalue, hpay, hreceive⟩ := h
    have hpayDto := parsePositiveMoney_dto_iff.mpr ⟨hpay, terms.pay_pos⟩
    have hreceiveDto := parsePositiveMoney_dto_iff.mpr ⟨hreceive, terms.receive_pos⟩
    -- The form's currencies are those of the amounts, and those differ.
    have hdiffer : entries.payCurrency ≠ entries.receiveCurrency := by
      obtain ⟨_, _, _, _, hpayCurrency⟩ := parsePositiveMoney_some_iff.mp hpayDto
      obtain ⟨_, _, _, _, hreceiveCurrency⟩ := parsePositiveMoney_some_iff.mp hreceiveDto
      have hleft : terms.pay.currency = entries.payCurrency :=
        congrArg MoneyDto.currency hpayCurrency
      have hright : terms.receive.currency = entries.receiveCurrency :=
        congrArg MoneyDto.currency hreceiveCurrency
      rw [← hleft, ← hright]
      exact terms.currency_ne
    exact ⟨_, _, hpayDto, hreceiveDto, hdiffer, hkind, (decodeIsoDate_value_iff hday).mpr htrade,
      (decodeIsoDate_value_iff hday).mpr hvalue, rfl, rfl⟩

theorem TermsEntries.submitAmend_iff (hday : RealDays isRealDay) {terms : Backbook.FxTerms} :
    entries.submitAmend isRealDay = .ok (.ok terms.request) ↔ entries.Denotes terms := by
  rw [TermsEntries.submitAmend, TermsEntries.submit_ok_iff]
  exact TermsEntries.request_iff hday

theorem BookEntries.submit_ok_iff {entries : BookEntries} {payload : BookPayload} :
    entries.submit isRealDay = .ok (.ok payload) ↔
      identifier (.string entries.tradeId) "$" = .ok payload.tradeId ∧
      identifier (.string entries.bookId) "$" = .ok payload.bookId ∧
      identifier (.string entries.counterpartyId) "$" = .ok payload.counterpartyId ∧
      identifier (.string entries.nettingSetId) "$" = .ok payload.nettingSetId ∧
      ∃ pay receive, parsePositiveMoney entries.payAmount entries.payCurrency = .ok (some pay) ∧
        parsePositiveMoney entries.receiveAmount entries.receiveCurrency = .ok (some receive) ∧
        entries.payCurrency ≠ entries.receiveCurrency ∧
        entries.request isRealDay pay receive = .ok payload.terms := by
  rw [BookEntries.submit, TermsEntries.submit_ok_iff]
  simp only [Outcome.bind_ok_iff, Except.ok.injEq]
  constructor
  · rintro ⟨pay, receive, hpay, hreceive, hdiffer, tradeId, htrade, bookId, hbook, counterpartyId,
      hcounterparty, nettingSetId, hnetting, terms, hterms, rfl⟩
    exact ⟨htrade, hbook, hcounterparty, hnetting, pay, receive, hpay, hreceive, hdiffer, hterms⟩
  · rintro ⟨htrade, hbook, hcounterparty, hnetting, pay, receive, hpay, hreceive, hdiffer, hterms⟩
    exact ⟨pay, receive, hpay, hreceive, hdiffer, _, htrade, _, hbook, _, hcounterparty, _,
      hnetting, _, hterms, rfl⟩

theorem BookEntries.submit_iff (hday : RealDays isRealDay) {entries : BookEntries}
    {command : BookTradeCommand} :
    entries.submit isRealDay = .ok (.ok command.request) ↔ entries.Denotes command := by
  rw [BookEntries.submit_ok_iff]
  apply and_congr identifier_value_iff
  apply and_congr identifier_value_iff
  apply and_congr identifier_value_iff
  apply and_congr identifier_value_iff
  exact TermsEntries.request_iff hday

/-- What is submitted has a meaning, unless it is not representable. -/
theorem TermsEntries.request_cases (hday : RealDays isRealDay) {pay receive : MoneyDto}
    {read : FxTermsRequest}
    (hpay : parsePositiveMoney entries.payAmount entries.payCurrency = .ok (some pay))
    (hreceive : parsePositiveMoney entries.receiveAmount entries.receiveCurrency =
      .ok (some receive))
    (hdiffer : entries.payCurrency ≠ entries.receiveCurrency)
    (hrequest : entries.request isRealDay pay receive = .ok read) :
    (∃ terms, entries.Denotes terms) ∨ entries.Unrepresentable := by
  have hamount : ∀ {currency : Currency} {text : Bytes} {dto : MoneyDto},
      parsePositiveMoney text currency = .ok (some dto) →
      Backbook.Money.parse currency text = .error .overflow ∨
        ∃ money : Backbook.Money, Backbook.Money.parse currency text = .ok money ∧
          money.currency = currency ∧ 0 < money.minorUnits := by
    intro currency text dto h
    obtain ⟨d, hscan, hnegative, hpos, _⟩ := parsePositiveMoney_some_iff.mp h
    obtain ⟨hfits, hover⟩ := parse_of_browser hscan hnegative
    rcases le_or_gt (value (d.digits currency.exponent)) (2 ^ 63 - 1) with hle | hlt
    · right
      obtain ⟨money, hcurrency, hunits, hparse⟩ := hfits hle
      exact ⟨money, hparse, hcurrency, by omega⟩
    · exact .inl (hover hlt)
  obtain ⟨hkind, htrade, hvalue, _, _⟩ := TermsEntries.request_ok_iff.mp hrequest
  rcases hamount hpay with hover | ⟨payMoney, hpayParse, hpayCurrency, hpayPos⟩
  · exact .inr (.inl (.inl hover))
  rcases hamount hreceive with hover | ⟨receiveMoney, hreceiveParse, hreceiveCurrency, hreceivePos⟩
  · exact .inr (.inl (.inr hover))
  rcases decodeIsoDate_cases hday htrade with ⟨tradeDate, htradeParse⟩ | hyear
  · rcases decodeIsoDate_cases hday hvalue with ⟨valueDate, hvalueParse⟩ | hyear
    · left
      have hne : payMoney.currency ≠ receiveMoney.currency := by
        rw [hpayCurrency, hreceiveCurrency]
        exact hdiffer
      exact ⟨⟨entries.kind, tradeDate, valueDate, payMoney, receiveMoney, hpayPos, hreceivePos,
        hne⟩, rfl, htradeParse, hvalueParse, hpayParse, hreceiveParse⟩
    · exact .inr (.inr (.inr hyear))
  · exact .inr (.inr (.inl hyear))

/-- The domain has no date in a year 0 and no amount that overflows. -/
theorem TermsEntries.Unrepresentable.not_denotes (h : entries.Unrepresentable)
    (terms : Backbook.FxTerms) : ¬entries.Denotes terms := by
  have hdate : ∀ {text : Bytes} {date : IsoDate}, IsoDate.parse text = .ok date →
      ¬∃ month day, SpellsDate text 0 month day := by
    intro text date hparse hspells
    obtain ⟨month, day, y, m, d, rfl, ⟨hy, hm, _⟩, _, hyear, _, _⟩ := hspells
    have htext := spellsDate_iff.mpr (IsoDate.parse_ok_iff.mp hparse)
    obtain ⟨y', m', d', heq, ⟨hy', hm', _⟩, _, hyear', _, _⟩ := htext
    -- Both readings take the year from the first four characters.
    have hsame : y = y' := (List.append_inj heq (hy.trans hy'.symm)).1
    have hpositive := date.valid.1
    rw [hsame] at hyear
    omega
  rintro ⟨_, htrade, hvalue, hpay, hreceive⟩
  rcases h with (hover | hover) | hyear | hyear
  · rw [hpay] at hover
    contradiction
  · rw [hreceive] at hover
    contradiction
  · exact hdate htrade hyear
  · exact hdate hvalue hyear

def BookEntries.showing (command : BookTradeCommand) : BookEntries where
  kind := instrument (instrumentText command.terms.kind)
  tradeDate := command.terms.tradeDate.toString
  valueDate := command.terms.valueDate.toString
  payCurrency := currency (currencyText command.terms.pay.currency)
  payAmount := command.terms.pay.format
  receiveCurrency := currency (currencyText command.terms.receive.currency)
  receiveAmount := command.terms.receive.format
  tradeId := command.tradeId.value
  bookId := command.bookId.value
  counterpartyId := command.counterpartyId.value
  nettingSetId := command.nettingSetId.value

theorem currency_currencyText (c : Currency) : currency (currencyText c) = c := by
  cases c <;> decide

theorem instrument_instrumentText (kind : InstrumentKind) :
    instrument (instrumentText kind) = kind := by
  cases kind <;> decide

theorem BookEntries.showing_denotes (command : BookTradeCommand) :
    (BookEntries.showing command).Denotes command := by
  have hid {tag : IdTag} (id : Id tag) : Id.parse tag id.value = .ok id := Id.parse_ok_iff.mpr rfl
  refine ⟨hid _, hid _, hid _, hid _, instrument_instrumentText _, IsoDate.parse_toString _,
    IsoDate.parse_toString _, ?_, ?_⟩
  · simp only [BookEntries.showing, currency_currencyText]
    exact Money.parse_format _
  · simp only [BookEntries.showing, currency_currencyText]
    exact Money.parse_format _

theorem uuid_character {text : Bytes} (h : uuidPattern text = true) {index : ℕ}
    (hindex : index < text.length) : if index = 8 ∨ index = 13 ∨ index = 18 ∨ index = 23 then
      text[index] = '-'.toUInt8 else isHexDigit text[index] = true := by
  unfold uuidPattern at h
  obtain ⟨_, hall⟩ := Bool.and_eq_true_iff.mp h
  have hpair : (text[index], index) ∈ text.zipIdx := by
    rw [List.mk_mem_zipIdx_iff_getElem?]
    exact List.getElem?_eq_getElem hindex
  have hone := List.all_eq_true.mp hall _ hpair
  dsimp only at hone
  split_ifs at hone ⊢
  · exact beq_iff_eq.mp hone
  · exact hone

theorem uuid_hexDigit {text : Bytes} (h : uuidPattern text = true) {character : UInt8}
    (hmem : character ∈ text.take 8) : isHexDigit character = true := by
  obtain ⟨index, hindex, rfl⟩ := List.mem_iff_getElem.mp hmem
  have hlt : index < 8 ∧ index < text.length := by
    simpa only [List.length_take, lt_min_iff] using hindex
  have hother : ¬(index = 8 ∨ index = 13 ∨ index = 18 ∨ index = 23) := by omega
  have hone := uuid_character h hlt.2
  rw [if_neg hother] at hone
  rwa [List.getElem_take]

theorem uuid_letters {text : Bytes} (h : uuidPattern text = true) : text.length = 36 ∧
    ∀ character ∈ text, isValidIdCharacter character = true := by
  have hlength : text.length = 36 := by
    unfold uuidPattern at h
    simpa using (Bool.and_eq_true_iff.mp h).1
  refine ⟨hlength, ?_⟩
  intro character hmem
  obtain ⟨index, hindex, rfl⟩ := List.mem_iff_getElem.mp hmem
  have hletters : ∀ c : UInt8, c = '-'.toUInt8 ∨ isHexDigit c = true →
      isValidIdCharacter c = true := by decide +kernel
  apply hletters
  have hone := uuid_character h hindex
  split_ifs at hone
  · exact .inl hone
  · exact .inr hone

/-- A UUID is an identifier of the domain. -/
theorem exists_commandId {randomUuid : Bytes} (h : uuidPattern randomUuid = true) :
    ∃ commandId : CommandId, newCommandId randomUuid = .ok commandId.value := by
  obtain ⟨hlength, hall⟩ := uuid_letters h
  have hpattern : identifierPattern randomUuid = true := by
    have halphanumeric : ∀ c : UInt8, isHexDigit c = true → isAsciiAlphanumeric c = true := by
      decide +kernel
    cases randomUuid with
    | nil => simp at hlength
    | cons first rest =>
      have hfirst : isHexDigit first = true := uuid_hexDigit h (by simp)
      have hrest : rest.all isValidIdCharacter = true :=
        List.all_eq_true.mpr fun c hc => hall c (List.mem_cons_of_mem _ hc)
      rw [List.length_cons] at hlength
      have hle : rest.length ≤ 63 := by omega
      simp [identifierPattern, halphanumeric first hfirst, hrest, hle]
  let drawn : CommandId := ⟨_, validateId_of_pattern hpattern⟩
  have hparse : Id.parse .command drawn.value = .ok drawn := Id.parse_ok_iff.mpr rfl
  exact ⟨drawn, identifier_value_iff.mpr hparse⟩

theorem toUpper_hexDigit {character : UInt8} (h : isHexDigit character = true) :
    isAsciiAlphanumeric (toUpper character) = true := by
  revert character
  decide +kernel

theorem BookEntries.initial_denotes (randomUuid : Bytes) (h : uuidPattern randomUuid = true) :
    ∃ command, (BookEntries.initial randomUuid).Denotes command := by
  have hpattern : identifierPattern (BookEntries.initial randomUuid).tradeId = true := by
    have hletters : ((randomUuid.take 8).map toUpper).all isValidIdCharacter = true := by
      rw [List.all_eq_true]
      intro character hmem
      obtain ⟨digit, hdigit, rfl⟩ := List.mem_map.mp hmem
      simp [isValidIdCharacter, toUpper_hexDigit (uuid_hexDigit h hdigit)]
    have hrest : (asciiBytes "RD-").all isValidIdCharacter = true := by decide
    have hfirst : isAsciiAlphanumeric 'T'.toUInt8 = true := by decide
    have hlength : (asciiBytes "RD-").length = 3 := by decide
    have htext : (BookEntries.initial randomUuid).tradeId =
        'T'.toUInt8 :: (asciiBytes "RD-" ++ (randomUuid.take 8).map toUpper) := rfl
    rw [htext, identifierPattern, hfirst, List.all_append, hrest, hletters, List.length_append,
      hlength, List.length_map, List.length_take]
    simp only [Bool.and_self, Bool.true_and, decide_eq_true_eq]
    omega
  let tradeId : TradeId := ⟨_, validateId_of_pattern hpattern⟩
  let pay : Backbook.Money := ⟨.usd, 2500000, by decide⟩
  let receive : Backbook.Money := ⟨.jpy, 3750000, by decide⟩
  let terms : Backbook.FxTerms := ⟨.fxSpot, ⟨2026, 7, 25, by decide⟩, ⟨2026, 7, 29, by decide⟩, pay,
    receive, by decide, by decide, by decide⟩
  refine ⟨⟨tradeId, ⟨asciiBytes "BOOK-FX-1", by decide⟩, ⟨asciiBytes "CPTY-A", by decide⟩,
    ⟨asciiBytes "NET-A", by decide⟩, terms⟩, Id.parse_ok_iff.mpr rfl, Id.parse_ok_iff.mpr rfl,
    Id.parse_ok_iff.mpr rfl, Id.parse_ok_iff.mpr rfl, rfl, ?_, ?_, ?_, ?_⟩
  · apply IsoDate.parse_ok_iff.mpr
    show asciiBytes "2026-07-25" = IsoDate.toString ⟨2026, 7, 25, by decide⟩
    decide
  · apply IsoDate.parse_ok_iff.mpr
    show asciiBytes "2026-07-29" = IsoDate.toString ⟨2026, 7, 29, by decide⟩
    decide
  · show Backbook.Money.parse .usd (asciiBytes "25000.00") = .ok pay
    decide
  · show Backbook.Money.parse .jpy (asciiBytes "3750000") = .ok receive
    decide

def BookEntries.Unreadable (entries : BookEntries) : Prop :=
  ((∀ id, Id.parse .trade entries.tradeId ≠ .ok id) ∨
    (∀ id, Id.parse .book entries.bookId ≠ .ok id) ∨
    (∀ id, Id.parse .counterparty entries.counterpartyId ≠ .ok id) ∨
    ∀ id, Id.parse .nettingSet entries.nettingSetId ≠ .ok id) ∨
  (∀ date, IsoDate.parse entries.tradeDate ≠ .ok date) ∨
    ∀ date, IsoDate.parse entries.valueDate ≠ .ok date

theorem BookEntries.payload_reads (hday : RealDays isRealDay) {entries : BookEntries}
    (h : ¬entries.Unreadable) (pay receive : MoneyDto) : ∃ payload : BookPayload, (do
      let tradeId ← decodeTradeId (.string entries.tradeId) "$"
      let bookId ← decodeBookId (.string entries.bookId) "$"
      let counterpartyId ← decodeCounterpartyId (.string entries.counterpartyId) "$"
      let nettingSetId ← decodeNettingSetId (.string entries.nettingSetId) "$"
      let terms ← entries.request isRealDay pay receive
      .ok ⟨tradeId, bookId, counterpartyId, nettingSetId, terms⟩) = (.ok payload : Decoded _) := by
  unfold BookEntries.Unreadable at h
  push Not at h
  obtain ⟨⟨⟨tradeId, htrade⟩, ⟨bookId, hbook⟩, ⟨counterpartyId, hcounterparty⟩,
    ⟨nettingSetId, hnetting⟩⟩, ⟨tradeDate, htradeDate⟩, ⟨valueDate, hvalueDate⟩⟩ := h
  have hread : entries.request isRealDay pay receive =
      .ok ⟨entries.kind, tradeDate.toString, valueDate.toString, pay, receive⟩ :=
    TermsEntries.request_ok_iff.mpr ⟨rfl, (decodeIsoDate_value_iff hday).mpr htradeDate,
      (decodeIsoDate_value_iff hday).mpr hvalueDate, rfl, rfl⟩
  simp only [Outcome.bind_ok_iff, Except.ok.injEq]
  exact ⟨_, _, identifier_value_iff.mpr htrade, _, identifier_value_iff.mpr hbook, _,
    identifier_value_iff.mpr hcounterparty, _, identifier_value_iff.mpr hnetting, _, hread, rfl⟩

theorem no_positive_amount {currency : Currency} {text : Bytes}
    (h : parsePositiveMoney text currency = .ok none) (money : Backbook.Money)
    (hparse : Backbook.Money.parse currency text = .ok money) : money.minorUnits ≤ 0 := by
  by_contra hpos
  rw [parsePositiveMoney_dto_iff.mpr ⟨hparse, not_le.mp hpos⟩] at h
  simp at h

/-- The booking form means what the parsers of the domain read off its texts. A
booking that they read is submitted, and the server decodes it to that booking.
What is submitted without being a booking is not representable, and the server
refuses it. What is not submitted has a message that says why. Every booking can
be entered, the form opens with one, and a command identifier can be drawn for it. -/
theorem booking_form_is_understood (parse : Bytes → Option ParsedJson)
    (stringify : CommandRequest → Bytes) (hday : RealDays isRealDay) (entries : BookEntries)
    (commandId : CommandId)
    (hwire : ∀ payload, entries.submit isRealDay = .ok (.ok payload) →
      parse (stringify (bookRequest commandId.value payload)) =
        some (bookRequest commandId.value payload).document) :
    (∀ command, (∃ payload, entries.submit isRealDay = .ok (.ok payload) ∧
        decodeCommandRequest parse (stringify (bookRequest commandId.value payload)) =
          .ok ⟨commandId, .bookTrade command⟩) ↔ entries.Denotes command) ∧
    (∀ payload, entries.submit isRealDay = .ok (.ok payload) →
      ((∀ command, ¬entries.Denotes command) ↔ entries.Unrepresentable) ∧
      (entries.Unrepresentable → ∃ violations, violations ≠ [] ∧
        decodeCommandRequest parse (stringify (bookRequest commandId.value payload)) =
          .error ⟨.validationFailed, violations⟩)) ∧
    ((∃ payload, entries.submit isRealDay = .ok (.ok payload)) ∨
      ∃ message, entries.submit isRealDay = .ok (.error message) ∧
        (message = "Enter positive amounts using each currency's precision." ∧
            ((∀ money, Backbook.Money.parse entries.payCurrency entries.payAmount = .ok money →
              money.minorUnits ≤ 0) ∨
            ∀ money, Backbook.Money.parse entries.receiveCurrency entries.receiveAmount =
              .ok money → money.minorUnits ≤ 0) ∨
          message = "Pay and receive currencies must differ." ∧
            entries.payCurrency = entries.receiveCurrency ∨
          message = "Review identifiers and ISO dates before submitting." ∧
            entries.Unreadable)) ∧
    (∀ command, (BookEntries.showing command).Denotes command) ∧
    ∀ randomUuid, uuidPattern randomUuid = true →
      (∃ command, (BookEntries.initial randomUuid).Denotes command) ∧
        ∃ drawn : CommandId, newCommandId randomUuid = .ok drawn.value := by
  have hdecodes : ∀ payload, entries.submit isRealDay = .ok (.ok payload) → ∀ command,
      (decodeCommandRequest parse (stringify (bookRequest commandId.value payload)) =
        .ok ⟨commandId, .bookTrade command⟩ ↔ command.request = payload) := by
    intro payload hsubmit command
    have hversioned : (Command.bookTrade command).Versioned := .of_none rfl
    rw [CommandRequest.decoded_iff (hwire payload hsubmit) hversioned]
    simp [bookRequest, Command.request]
  have hnone : entries.Unrepresentable → ∀ command, ¬entries.Denotes command := by
    intro h command hdenotes
    exact h.not_denotes _ hdenotes.2.2.2.2
  refine ⟨?_, ?_, ?_, BookEntries.showing_denotes,
    fun randomUuid h => ⟨BookEntries.initial_denotes randomUuid h, exists_commandId h⟩⟩
  · intro command
    rw [← BookEntries.submit_iff hday]
    constructor
    · rintro ⟨payload, hsubmit, hdecode⟩
      rw [(hdecodes payload hsubmit command).mp hdecode]
      exact hsubmit
    · intro hsubmit
      exact ⟨_, hsubmit, (hdecodes _ hsubmit command).mpr rfl⟩
  · intro payload hsubmit
    obtain ⟨htrade, hbook, hcounterparty, hnetting, pay, receive, hpay, hreceive, hdiffer,
      hterms⟩ := BookEntries.submit_ok_iff.mp hsubmit
    refine ⟨⟨?_, hnone⟩, ?_⟩
    · intro hmeaning
      rcases TermsEntries.request_cases hday hpay hreceive hdiffer hterms with
        ⟨terms, hterms⟩ | hunrepresentable
      · obtain ⟨tradeId, htrade, _⟩ := (identifier_ok_iff .trade).mp htrade
        obtain ⟨bookId, hbook, _⟩ := (identifier_ok_iff .book).mp hbook
        obtain ⟨counterpartyId, hcounterparty, _⟩ :=
          (identifier_ok_iff .counterparty).mp hcounterparty
        obtain ⟨nettingSetId, hnetting, _⟩ := (identifier_ok_iff .nettingSet).mp hnetting
        exact absurd ⟨htrade, hbook, hcounterparty, hnetting, hterms⟩
          (hmeaning ⟨tradeId, bookId, counterpartyId, nettingSetId, terms⟩)
      · exact hunrepresentable
    · intro hunrepresentable
      apply CommandRequest.refused (hwire payload hsubmit)
      intro envelope _ hrequest
      obtain ⟨id, command⟩ := envelope
      cases command with
      | bookTrade value =>
        have hpayload : value.request = payload := by
          simpa [bookRequest, Command.request] using hrequest
        rw [← hpayload, BookEntries.submit_iff hday] at hsubmit
        exact hnone hunrepresentable value hsubmit
      | _ => simp [bookRequest, Command.request] at hrequest
  · rcases TermsEntries.submit_cases with hsubmit | ⟨message, hsubmit, hreason⟩
    · exact .inl hsubmit
    · refine .inr ⟨message, hsubmit, ?_⟩
      rcases hreason with ⟨hmessage, hamount⟩ | hsame | ⟨hmessage, pay, receive, e, hthrows⟩
      · left
        refine ⟨hmessage, ?_⟩
        rcases hamount with hpay | hreceive
        · exact .inl (no_positive_amount hpay)
        · exact .inr (no_positive_amount hreceive)
      · exact .inr (.inl hsame)
      · right; right
        refine ⟨hmessage, ?_⟩
        by_contra hreadable
        obtain ⟨payload, hreads⟩ := BookEntries.payload_reads hday hreadable pay receive
        rw [hreads] at hthrows
        contradiction

section Sample

def isGregorianDay (text : Bytes) : Bool :=
  let year := value (text.take 4)
  let month := value ((text.drop 5).take 2)
  let day := value ((text.drop 8).take 2)
  decide (1 ≤ month ∧ month ≤ 12 ∧ 1 ≤ day ∧ day ≤ lastDayOfMonth year month)

theorem isGregorianDay_realDays : RealDays isGregorianDay := by
  intro text year month day h
  obtain ⟨y, m, d, rfl, ⟨hy, hm, hd⟩, _, rfl, rfl, rfl⟩ := h
  match y, m, d, hy, hm, hd with
  | [_, _, _, _], [_, _], [_, _], _, _, _ => simp [isGregorianDay]

def sampleUuid : Bytes := "1f0a4c5e-2b3d-4e5f-8a9b-0c1d2e3f4a5b"

def samplePayload : BookPayload where
  tradeId := "TRD-1F0A4C5E"
  bookId := "BOOK-FX-1"
  counterpartyId := "CPTY-A"
  nettingSetId := "NET-A"
  terms := ⟨.fxSpot, "2026-07-25", "2026-07-29", ⟨.usd, "2500000"⟩, ⟨.jpy, "3750000"⟩⟩

def sampleRequestBody : Bytes :=
  asciiBytes "\x7b\"commandId\":\"C1\",\"type\":\"BOOK_TRADE\"," ++
    asciiBytes "\"payload\":\x7b\"tradeId\":\"TRD-1F0A4C5E\",\"bookId\":\"BOOK-FX-1\"," ++
    asciiBytes "\"counterpartyId\":\"CPTY-A\",\"nettingSetId\":\"NET-A\"," ++
    asciiBytes "\"terms\":\x7b\"kind\":\"FX_SPOT\",\"tradeDate\":\"2026-07-25\"," ++
    asciiBytes "\"valueDate\":\"2026-07-29\"," ++
    asciiBytes "\"pay\":\x7b\"currency\":\"USD\",\"minorUnits\":\"2500000\"\x7d," ++
    asciiBytes "\"receive\":\x7b\"currency\":\"JPY\",\"minorUnits\":\"3750000\"\x7d\x7d\x7d\x7d"

def sampleRequestParse (body : Bytes) : Option ParsedJson :=
  if body = sampleRequestBody then some (bookRequest "C1" samplePayload).document else none

/-- The booking that the form opens with, submitted and decoded. -/
theorem booking_form_is_understood_initial : ∃ command,
    decodeCommandRequest sampleRequestParse sampleRequestBody =
      .ok ⟨⟨asciiBytes "C1", by decide⟩, .bookTrade command⟩ := by
  let entries := BookEntries.initial sampleUuid
  have hsubmit : entries.submit isGregorianDay = .ok (.ok samplePayload) := by
    rfl
  have hwire : ∀ payload, entries.submit isGregorianDay = .ok (.ok payload) →
      sampleRequestParse sampleRequestBody =
        some (bookRequest "C1" payload).document := by
    intro payload hother
    rw [hsubmit] at hother
    obtain rfl := Except.ok.inj (Except.ok.inj hother)
    exact if_pos rfl
  obtain ⟨hunderstood, _, _, _, hinitial⟩ := booking_form_is_understood sampleRequestParse
    (fun _ => sampleRequestBody) isGregorianDay_realDays entries ⟨asciiBytes "C1", by decide⟩ hwire
  obtain ⟨⟨command, hdenotes⟩, _⟩ := hinitial sampleUuid (by decide)
  obtain ⟨_, _, hdecode⟩ := (hunderstood command).mpr hdenotes
  exact ⟨command, hdecode⟩

end Sample

end Browser

end Backbook
