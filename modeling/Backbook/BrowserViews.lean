import Backbook.DecoderRules

namespace Backbook

open JsonTree DecimalText
open Browser (Decoded decodeCurrency decodeInstrumentKind decodeTradeState decodeLimitLevel
  decodePostingSide decodeDirection decodeProblemCode decodeRevision decodeMoney decodeIsoDate)

def Money.view (money : Money) : Browser.Money := ⟨money.currency, money.minorUnits⟩

def FxTerms.view (terms : FxTerms) : Browser.FxTerms :=
  ⟨terms.kind, terms.tradeDate.toString, terms.valueDate.toString, terms.pay.view,
    terms.receive.view⟩

def versionText (version : UInt32) : Bytes := numeral version.toNat

def stateVersionText (version : UInt64) : Bytes := numeral version.toNat

def Trade.view (trade : Trade) : Browser.Trade where
  tradeId := trade.id.value
  version := versionText trade.version
  state := trade.state
  bookId := trade.bookId.value
  counterpartyId := trade.counterpartyId.value
  nettingSetId := trade.nettingSetId.value
  terms := trade.terms.view
  supersedes := trade.supersedes.map versionText
  supersededBy := trade.supersededBy.map versionText

def LimitNode.levelView : LimitNode → Browser.LimitLevel
  | .group => .group
  | .counterparty _ => .counterparty
  | .nettingSet _ _ => .nettingSet
  | .book _ _ _ => .book

def LimitBalanceSnapshot.view (balance : LimitBalanceSnapshot) : Browser.LimitBalance where
  level := balance.node.levelView
  nodePath := balance.node.pathComponents
  currency := balance.currency
  capacity := ⟨balance.currency, balance.capacityMinorUnits⟩
  reserved := ⟨balance.currency, balance.reservedMinorUnits⟩
  -- The server takes the difference in 64 bits; in range it is this one.
  headroom := ⟨balance.currency, balance.capacityMinorUnits - balance.reservedMinorUnits⟩

def Posting.view (posting : Posting) : Browser.Posting where
  postingId := posting.id.value
  tradeId := posting.tradeId.value
  tradeVersion := versionText posting.tradeVersion
  account := posting.account
  side := posting.side
  amount := posting.amount.view
  reversalOf := posting.reversalOf.map Id.value

def LedgerEntry.view (entryIndex : ℕ) (entry : LedgerEntry) : Browser.LedgerEntry :=
  ⟨numeral entryIndex, entry.postings.map Posting.view⟩

def SettlementObligation.view (obligation : SettlementObligation) :
    Browser.SettlementObligation where
  counterpartyId := obligation.counterpartyId.value
  nettingSetId := obligation.nettingSetId.value
  valueDate := obligation.valueDate.toString
  direction := obligation.direction
  amount := obligation.amount.view

def State.dataView (state : State) : Browser.StateData :=
  ⟨state.trades.toList.map fun stored => stored.2.view,
    state.limits.snapshots.map LimitBalanceSnapshot.view⟩

def State.ledgerView (state : State) : Browser.LedgerData where
  balanced := decide (∀ currency, state.ledgerTotals.totals currency = 0)
  totals := reportedCurrencies.map fun currency => ⟨currency, state.ledgerTotals.totals currency⟩
  entries := state.ledgerEntries.mapIdx LedgerEntry.view

def State.settlementsView (state : State) : Browser.SettlementData :=
  ⟨state.settlements.map SettlementObligation.view⟩

def State.envelopeView {δ : Type} (state : State) (fingerprint : UInt64) (data : δ) :
    Browser.ReadEnvelope δ :=
  ⟨stateVersionText state.version, fingerprintText fingerprint, data⟩

def State.dashboard (state : State) (fingerprint : UInt64) : Browser.DashboardSnapshot where
  stateVersion := stateVersionText state.version
  stateFingerprint := fingerprintText fingerprint
  state := state.dataView
  ledger := state.ledgerView
  settlements := state.settlementsView

def CommandResult.view : CommandResult → Browser.CommandResult
  | .tradeBooked value => .versioned .tradeBooked value.tradeId.value (versionText value.version)
      (stateVersionText value.stateVersion)
  | .tradeConfirmed value => .versioned .tradeConfirmed value.tradeId.value
      (versionText value.version) (stateVersionText value.stateVersion)
  | .tradeAmended value => .tradeAmended value.tradeId.value (versionText value.supersededVersion)
      (versionText value.replacementVersion) (stateVersionText value.stateVersion)
  | .tradeCancelled value => .versioned .tradeCancelled value.tradeId.value
      (versionText value.version) (stateVersionText value.stateVersion)
  | .eodRun value => .eodRun value.asOfDate.toString (versionText value.settledTradeCount)
      (stateVersionText value.stateVersion)

def CommandReceipt.view (receipt : CommandReceipt) : Browser.CommandResponse :=
  ⟨receipt.idempotentReplay, receipt.result.view⟩

def ProblemDetails.view (problem : ProblemDetails) : Browser.ProblemDetails where
  type := asciiBytes "urn:backbook:problem:" ++ problemCodeName problem.code
  title := problem.title
  status := problem.status.toInt
  detail := problem.detail
  code := problem.code
  violations := nonEmpty problem.violations
  expectedVersion := problem.expectedVersion.map versionText
  actualVersion := problem.actualVersion.map versionText
  nodePath := nonEmpty problem.nodePath
  currency := problem.breach.map fun breach => breach.1
  required := problem.breach.map fun breach => ⟨breach.1, breach.2.1⟩
  remaining := problem.breach.map fun breach => ⟨breach.1, breach.2.2⟩

section Texts

variable (path : Bytes)

theorem identifier_value {tag : IdTag} (id : Id tag) :
    Browser.identifier (.string id.value) path = .ok id.value :=
  patternText_string (identifierPattern_value id) _ _

theorem decodeRevision_numeral (n : ℕ) :
    decodeRevision (.string (numeral n)) path = .ok (numeral n) :=
  patternText_string (unsignedPattern_numeral n) _ _

theorem decodeRevision_versionJson (version : UInt32) :
    decodeRevision (versionJson version) path = .ok (versionText version) :=
  decodeRevision_numeral path _

theorem decodeRevision_stateVersionJson (version : UInt64) :
    decodeRevision (stateVersionJson version) path = .ok (stateVersionText version) :=
  decodeRevision_numeral path _

theorem decodeCurrency_text (currency : Currency) :
    decodeCurrency (.string (currencyText currency)) path = .ok currency := by
  apply decodeUnion_string
  cases currency <;> rfl

theorem decodeInstrumentKind_text (kind : InstrumentKind) :
    decodeInstrumentKind (.string (instrumentText kind)) path = .ok kind := by
  apply decodeUnion_string
  cases kind <;> rfl

theorem decodeTradeState_text (state : TradeState) :
    decodeTradeState (.string (tradeStateText state)) path = .ok state := by
  apply decodeUnion_string
  cases state <;> rfl

theorem decodeLimitLevel_text (node : LimitNode) :
    decodeLimitLevel (.string (limitLevelText node.level)) path = .ok node.levelView := by
  apply decodeUnion_string
  cases node <;> rfl

theorem decodePostingSide_text (side : PostingSide) :
    decodePostingSide (.string (postingSideText side)) path = .ok side := by
  apply decodeUnion_string
  cases side <;> rfl

theorem decodeDirection_text (direction : SettlementDirection) :
    decodeDirection (.string (settlementDirectionText direction)) path = .ok direction := by
  apply decodeUnion_string
  cases direction <;> rfl

theorem decodeProblemCode_name (code : ProblemCode) :
    decodeProblemCode (.string (problemCodeName code)) path = .ok code := by
  apply decodeUnion_string
  cases code <;> rfl

theorem nullableRevision_json (version : Option UInt32) :
    Browser.nullableRevision (nullableJson versionJson version) path =
      .ok (version.map versionText) :=
  nullable_json nofun (decodeRevision_versionJson path) version

theorem decodeTexts_json (texts : List Bytes) :
    Browser.decodeArray Browser.stringValue (textsJson texts) path = .ok texts := by
  have h : Browser.decodeArray Browser.stringValue (textsJson texts) path = .ok (texts.map id) :=
    decodeArray_map (fun _ _ _ => rfl) path
  rwa [List.map_id] at h

end Texts

theorem decodeMoney_unitsJson (currency : Currency) (minorUnits : ℤ) (path : Bytes) :
    decodeMoney (unitsJson currency minorUnits) path = .ok ⟨currency, minorUnits⟩ := by
  have hdecimal : ∀ z path, Browser.decodeDecimalString (.string (signedNumeral z)) path =
      .ok (signedNumeral z) := fun z => patternText_string (decimalPattern_signedNumeral z) _
  obtain ⟨hrecord, hfields⟩ :=
    record_fields (rfl : unitsJson currency minorUnits = _) (of_decide_eq_true rfl)
  simp only [List.forall_mem_cons] at hfields
  simp only [decodeMoney, hrecord, Outcome.ok_bind, Browser.field, Browser.member, hfields,
    decodeCurrency_text, hdecimal, bigInt_signedNumeral]

theorem decodeMoney_moneyJson (money : Money) (path : Bytes) :
    decodeMoney (moneyJson money) path = .ok money.view :=
  decodeMoney_unitsJson money.currency money.minorUnits path

section Dates

variable {isRealDay : Bytes → Bool} (hday : ∀ date : IsoDate, isRealDay date.toString = true)

include hday

theorem decodeIsoDate_toString (date : IsoDate) (path : Bytes) :
    decodeIsoDate isRealDay (.string date.toString) path = .ok date.toString := by
  simp [decodeIsoDate, patternText_string (datePattern_toString date), hday]

theorem decodeTerms_termsJson (terms : FxTerms) (path : Bytes) :
    Browser.decodeTerms isRealDay (termsJson terms) path = .ok terms.view := by
  obtain ⟨_, hfields⟩ := record_fields (rfl : termsJson terms = _) (of_decide_eq_true rfl)
  simp only [List.forall_mem_cons] at hfields
  simp only [Browser.decodeTerms, Browser.field, Browser.member, hfields, Outcome.ok_bind,
    decodeInstrumentKind_text, decodeIsoDate_toString hday, decodeMoney_moneyJson, FxTerms.view]

theorem decodeTrade_tradeJson (trade : Trade) (path : Bytes) :
    Browser.decodeTrade isRealDay (tradeJson trade) path = .ok trade.view := by
  obtain ⟨hrecord, hfields⟩ := record_fields (rfl : tradeJson trade = _) (of_decide_eq_true rfl)
  -- The terms are met twice: as an object first, and field by field later.
  obtain ⟨hterms, -⟩ := record_fields (rfl : termsJson trade.terms = _) (of_decide_eq_true rfl)
  simp only [List.forall_mem_cons, idJson] at hfields
  simp only [Browser.decodeTrade, hrecord, hterms, Outcome.ok_bind, Browser.field, Browser.member,
    hfields, Browser.decodeTradeId, Browser.decodeBookId, Browser.decodeCounterpartyId,
    Browser.decodeNettingSetId, identifier_value, decodeRevision_versionJson, decodeTradeState_text,
    decodeTerms_termsJson hday, nullableRevision_json, Trade.view]

theorem decodeObligation_obligationJson (obligation : SettlementObligation) (path : Bytes) :
    Browser.decodeObligation isRealDay (obligationJson obligation) path = .ok obligation.view := by
  obtain ⟨hrecord, hfields⟩ :=
    record_fields (rfl : obligationJson obligation = _) (of_decide_eq_true rfl)
  simp only [List.forall_mem_cons, idJson] at hfields
  simp only [Browser.decodeObligation, hrecord, Outcome.ok_bind, Browser.field, Browser.member,
    hfields, Browser.decodeCounterpartyId, Browser.decodeNettingSetId, identifier_value,
    decodeIsoDate_toString hday, decodeDirection_text, decodeMoney_moneyJson,
    SettlementObligation.view]

end Dates

theorem decodePosting_postingJson (posting : Posting) (path : Bytes) :
    Browser.decodePosting (postingJson posting) path = .ok posting.view := by
  have hlink : ∀ path, Browser.nullablePostingId
      (nullableJson (fun id => .string id.value) posting.reversalOf) path =
        .ok (posting.reversalOf.map Id.value) :=
    fun path => nullable_json nofun (identifier_value path) _
  obtain ⟨hrecord, hfields⟩ :=
    record_fields (rfl : postingJson posting = _) (of_decide_eq_true rfl)
  simp only [List.forall_mem_cons, idJson] at hfields
  simp only [Browser.decodePosting, hrecord, Outcome.ok_bind, Browser.field, Browser.member,
    hfields, Browser.decodePostingId, Browser.decodeTradeId, identifier_value,
    decodeRevision_versionJson, Browser.stringValue, decodePostingSide_text,
    decodeMoney_moneyJson, hlink, Posting.view]

theorem decodeLedgerEntry_entryJson (entryIndex : ℕ) (entry : LedgerEntry) (path : Bytes) :
    Browser.decodeLedgerEntry (entryJson entryIndex entry) path = .ok (entry.view entryIndex) := by
  obtain ⟨hrecord, hfields⟩ :=
    record_fields (rfl : entryJson entryIndex entry = _) (of_decide_eq_true rfl)
  simp only [List.forall_mem_cons] at hfields
  have hpostings : ∀ path, Browser.decodeArray Browser.decodePosting
      (.array (entry.postings.map postingJson)) path = .ok (entry.postings.map Posting.view) :=
    decodeArray_map fun posting _ => decodePosting_postingJson posting
  simp only [Browser.decodeLedgerEntry, hrecord, Outcome.ok_bind, Browser.field, Browser.member,
    hfields, decodeRevision_numeral, hpostings, LedgerEntry.view]

/-- The difference of two amounts in range does not wrap. -/
theorem headroomMinorUnits_toInt {balance : LimitBalanceSnapshot}
    (h : 0 ≤ balance.reservedMinorUnits ∧
      balance.reservedMinorUnits ≤ balance.capacityMinorUnits ∧
      balance.capacityMinorUnits < 2 ^ 63) : balance.headroomMinorUnits.toInt =
      balance.capacityMinorUnits - balance.reservedMinorUnits := by
  unfold LimitBalanceSnapshot.headroomMinorUnits
  rw [← Int64.ofInt_sub]
  apply Int64.toInt_ofInt_of_le <;> omega

theorem decodeLimit_limitJson {balance : LimitBalanceSnapshot}
    (h : 0 ≤ balance.reservedMinorUnits ∧
      balance.reservedMinorUnits ≤ balance.capacityMinorUnits ∧
      balance.capacityMinorUnits < 2 ^ 63) (path : Bytes) :
    Browser.decodeLimit (limitJson balance) path = .ok balance.view := by
  obtain ⟨hrecord, hfields⟩ := record_fields (rfl : limitJson balance = _) (of_decide_eq_true rfl)
  simp only [List.forall_mem_cons] at hfields
  simp only [Browser.decodeLimit, hrecord, Outcome.ok_bind, Browser.field, Browser.member,
    hfields, decodeTexts_json, decodeLimitLevel_text, decodeCurrency_text, decodeMoney_unitsJson,
    headroomMinorUnits_toInt h, LimitBalanceSnapshot.view]

end Backbook
