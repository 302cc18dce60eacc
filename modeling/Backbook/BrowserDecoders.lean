import Backbook.ServerResponses

namespace Backbook.Browser

open JsonTree DecimalText

structure Money where
  currency : Currency
  minorUnits : ℤ
deriving DecidableEq, Repr

structure FxTerms where
  kind : InstrumentKind
  tradeDate : Bytes
  valueDate : Bytes
  pay : Money
  receive : Money
deriving DecidableEq, Repr

structure Trade where
  tradeId : Bytes
  version : Bytes
  state : TradeState
  bookId : Bytes
  counterpartyId : Bytes
  nettingSetId : Bytes
  terms : FxTerms
  supersedes : Option Bytes
  supersededBy : Option Bytes
deriving DecidableEq, Repr

inductive LimitLevel
  | group | counterparty | nettingSet | book
deriving DecidableEq, Repr

structure LimitBalance where
  level : LimitLevel
  nodePath : List Bytes
  currency : Currency
  capacity : Money
  reserved : Money
  headroom : Money
deriving DecidableEq, Repr

structure StateData where
  trades : List Trade
  limits : List LimitBalance
deriving DecidableEq, Repr

structure Posting where
  postingId : Bytes
  tradeId : Bytes
  tradeVersion : Bytes
  account : Bytes
  side : PostingSide
  amount : Money
  reversalOf : Option Bytes
deriving DecidableEq, Repr

structure LedgerEntry where
  entryIndex : Bytes
  postings : List Posting
deriving DecidableEq, Repr

structure LedgerData where
  balanced : Bool
  totals : List Money
  entries : List LedgerEntry
deriving DecidableEq, Repr

structure SettlementObligation where
  counterpartyId : Bytes
  nettingSetId : Bytes
  valueDate : Bytes
  direction : SettlementDirection
  amount : Money
deriving DecidableEq, Repr

structure SettlementData where
  obligations : List SettlementObligation
deriving DecidableEq, Repr

structure ReadEnvelope (δ : Type) where
  stateVersion : Bytes
  stateFingerprint : Bytes
  data : δ
deriving DecidableEq, Repr

structure DashboardSnapshot where
  stateVersion : Bytes
  stateFingerprint : Bytes
  state : StateData
  ledger : LedgerData
  settlements : SettlementData
deriving DecidableEq, Repr

structure ProblemDetails where
  type : Bytes
  title : Bytes
  status : ℤ
  detail : Bytes
  code : ProblemCode
  violations : Option (List FieldViolation)
  expectedVersion : Option Bytes
  actualVersion : Option Bytes
  nodePath : Option (List Bytes)
  currency : Option Currency
  required : Option Money
  remaining : Option Money
deriving DecidableEq, Repr

inductive VersionedResult
  | tradeBooked | tradeConfirmed | tradeCancelled
deriving DecidableEq, Repr

inductive CommandResult
  | versioned (type : VersionedResult) (tradeId version stateVersion : Bytes)
  | tradeAmended (tradeId supersededVersion replacementVersion stateVersion : Bytes)
  | eodRun (asOfDate settledTradeCount stateVersion : Bytes)
deriving DecidableEq, Repr

structure CommandResponse where
  idempotentReplay : Bool
  result : CommandResult
deriving DecidableEq, Repr

structure ProtocolDecodeError where
  message : Bytes
deriving DecidableEq, Repr

abbrev Decoded := Except ProtocolDecodeError

def complain {α : Type} (path complaint : Bytes) : Decoded α := .error ⟨path ++ complaint⟩

def elementPath (path : Bytes) (index : ℕ) : Bytes :=
  path ++ (asciiBytes "[" ++ (numeral index ++ asciiBytes "]"))

def record (value : Json) (path : Bytes) : Decoded Json :=
  match value with
  | .object _ => .ok value
  | _ => complain path " must be an object"

/-- No name that is asked for stands on the prototype of an object. -/
def member (value : Json) (name path : Bytes) : Decoded Json :=
  match value.find name with
  | none => complain (childPath path name) " is required"
  | some found => .ok found

def stringValue (value : Json) (path : Bytes) : Decoded Bytes :=
  match value with
  | .string text => .ok text
  | _ => complain path " must be a string"

def booleanValue (value : Json) (path : Bytes) : Decoded Bool :=
  match value with
  | .boolean flag => .ok flag
  | _ => complain path " must be a boolean"

def floatInteger (bits : BitVec 64) : Option ℤ :=
  let exponent := bits.toNat / 2 ^ 52 % 2 ^ 11
  let fraction := bits.toNat % 2 ^ 52
  -- The value is the significand times two to the scale less 1075.
  let significand := if exponent = 0 then fraction else 2 ^ 52 + fraction
  let scale := max exponent 1
  let magnitude : Option ℕ :=
    if exponent = 2047 then none
    else if 1075 ≤ scale then some (significand * 2 ^ (scale - 1075))
    else if 2 ^ (1075 - scale) ∣ significand then some (significand / 2 ^ (1075 - scale))
    else none
  magnitude.map fun m => if bits.msb then -m else m

/-- A number beyond the safe integers is rounded when it is read, and what it is
rounded to is not safe either. -/
def isSafeInteger (value : ℤ) : Bool := value.natAbs ≤ 2 ^ 53 - 1

def integerValue (value : Json) (path : Bytes) : Decoded ℤ :=
  let integer : Option ℤ := match value with
    | .numberInteger z => some z
    | .numberUnsigned n => some n
    | .numberFloat bits => floatInteger bits
    | _ => none
  match integer.filter isSafeInteger with
  | some z => .ok z
  | none => complain path " must be an integer"

def arrayValue (value : Json) (path : Bytes) : Decoded (List Json) :=
  match value with
  | .array elements => .ok elements
  | _ => complain path " must be an array"

def decodeElements {α : Type} (decode : Json → Bytes → Decoded α) (path : Bytes) :
    ℕ → List Json → Decoded (List α)
  | _, [] => .ok []
  | index, element :: rest => do
    let first ← decode element (elementPath path index)
    let others ← decodeElements decode path (index + 1) rest
    .ok (first :: others)

def decodeArray {α : Type} (decode : Json → Bytes → Decoded α) (value : Json) (path : Bytes) :
    Decoded (List α) := do
  let elements ← arrayValue value path
  decodeElements decode path 0 elements

def field {α : Type} (decode : Json → Bytes → Decoded α) (source : Json) (name path : Bytes) :
    Decoded α := do
  let value ← member source name path
  decode value (childPath path name)

def optionalField {α : Type} (decode : Json → Bytes → Decoded α) (source : Json)
    (name path : Bytes) : Decoded (Option α) :=
  match source.find name with
  | none => .ok none
  | some value => (decode value (childPath path name)).map some

def nullable {α : Type} (decode : Json → Bytes → Decoded α) (value : Json) (path : Bytes) :
    Decoded (Option α) :=
  match value with
  | .null => .ok none
  | _ => (decode value path).map some

def identifierPattern : Bytes → Bool
  | [] => false
  | first :: rest =>
    isAsciiAlphanumeric first && rest.all isValidIdCharacter && decide (rest.length ≤ 63)

def unsignedPattern : Bytes → Bool
  | [] => false
  | first :: rest =>
    first == zeroDigit && rest.isEmpty ||
      (isDigit first && first != zeroDigit) && rest.all isDigit

def decimalPattern : Bytes → Bool
  | [] => false
  | first :: rest =>
    if first = minusSign then unsignedPattern rest else unsignedPattern (first :: rest)

def datePattern : Bytes → Bool
  | [y0, y1, y2, y3, s4, m0, m1, s7, d0, d1] =>
    [y0, y1, y2, y3, m0, m1, d0, d1].all isDigit && [s4, s7].all (· == dateSeparator)
  | _ => false

def isHexDigit (character : UInt8) : Bool :=
  isDigit character || ('a'.toUInt8 ≤ character && character ≤ 'f'.toUInt8)

def fingerprintPattern : Bytes → Bool
  | zero :: x :: digits =>
    zero == zeroDigit && x == 'x'.toUInt8 && digits.length == 16 && digits.all isHexDigit
  | _ => false

def patternText (pattern : Bytes → Bool) (complaint : Bytes) (value : Json) (path : Bytes) :
    Decoded Bytes := do
  let text ← stringValue value path
  if pattern text then .ok text else complain path complaint

def identifier : Json → Bytes → Decoded Bytes :=
  patternText identifierPattern " is not a valid identifier"

def decodeTradeId : Json → Bytes → Decoded Bytes := identifier

def decodeBookId : Json → Bytes → Decoded Bytes := identifier

def decodeCounterpartyId : Json → Bytes → Decoded Bytes := identifier

def decodeNettingSetId : Json → Bytes → Decoded Bytes := identifier

def decodePostingId : Json → Bytes → Decoded Bytes := identifier

def decodeRevision : Json → Bytes → Decoded Bytes :=
  patternText unsignedPattern " must be a canonical unsigned decimal string"

def decodeDecimalString : Json → Bytes → Decoded Bytes :=
  patternText decimalPattern " must be a canonical signed decimal string"

def decodeFingerprint : Json → Bytes → Decoded Bytes :=
  patternText fingerprintPattern " must be a canonical fingerprint"

def decodeUnion {κ : Type} (choices : List (Bytes × κ)) (complaint : Bytes) (value : Json)
    (path : Bytes) : Decoded κ := do
  let text ← stringValue value path
  match choices.lookup text with
  | some choice => .ok choice
  | none => complain path complaint

def decodeCurrency : Json → Bytes → Decoded Currency :=
  decodeUnion [("USD", .usd), ("JPY", .jpy), ("KWD", .kwd)] " contains an unsupported currency"

def decodeInstrumentKind : Json → Bytes → Decoded InstrumentKind :=
  decodeUnion [("FX_SPOT", .fxSpot), ("FX_FORWARD", .fxForward)]
    " contains an unsupported instrument"

def decodeTradeState : Json → Bytes → Decoded TradeState :=
  decodeUnion [("CAPTURED", .captured), ("CONFIRMED", .confirmed), ("SUPERSEDED", .superseded),
    ("CANCELLED", .cancelled), ("SETTLED", .settled)] " contains an unsupported trade state"

def decodeLimitLevel : Json → Bytes → Decoded LimitLevel :=
  decodeUnion [("GROUP", .group), ("COUNTERPARTY", .counterparty), ("NETTING_SET", .nettingSet),
    ("BOOK", .book)] " contains an unsupported limit level"

def decodePostingSide : Json → Bytes → Decoded PostingSide :=
  decodeUnion [("DEBIT", .debit), ("CREDIT", .credit)] " contains an unsupported posting side"

def decodeDirection : Json → Bytes → Decoded SettlementDirection :=
  decodeUnion [("OUTGOING", .outgoing), ("INCOMING", .incoming)]
    " contains an unsupported settlement direction"

def decodeProblemCode : Json → Bytes → Decoded ProblemCode :=
  decodeUnion [("VALIDATION_FAILED", .validationFailed), ("NOT_FOUND", .notFound),
    ("ILLEGAL_TRANSITION", .illegalTransition), ("VERSION_CONFLICT", .versionConflict),
    ("LIMIT_BREACH", .limitBreach), ("IDEMPOTENCY_CONFLICT", .idempotencyConflict),
    ("JOURNAL_UNAVAILABLE", .journalUnavailable), ("INTERNAL_ERROR", .internalError)]
    " contains an unsupported problem code"

def bigInt (text : Bytes) : ℤ :=
  if text.head? = some minusSign then -(DecimalText.value text.tail : ℤ)
  else DecimalText.value text

def decodeMoney (value : Json) (path : Bytes) : Decoded Money := do
  let source ← record value path
  let currency ← field decodeCurrency source "currency" path
  let minorUnits ← field decodeDecimalString source "minorUnits" path
  .ok ⟨currency, bigInt minorUnits⟩

def nullableRevision : Json → Bytes → Decoded (Option Bytes) := nullable decodeRevision

def nullablePostingId : Json → Bytes → Decoded (Option Bytes) := nullable decodePostingId

section Dates

/- What the browser's `Date` says of a text in the form of a date. -/
variable (isRealDay : Bytes → Bool)

def decodeIsoDate (value : Json) (path : Bytes) : Decoded Bytes := do
  let text ← patternText datePattern " must be an ISO date" value path
  if isRealDay text then .ok text else complain path " must be a real ISO date"

def decodeTerms (terms : Json) (path : Bytes) : Decoded FxTerms := do
  let kind ← field decodeInstrumentKind terms "kind" path
  let tradeDate ← field (decodeIsoDate isRealDay) terms "tradeDate" path
  let valueDate ← field (decodeIsoDate isRealDay) terms "valueDate" path
  let pay ← field decodeMoney terms "pay" path
  let receive ← field decodeMoney terms "receive" path
  .ok ⟨kind, tradeDate, valueDate, pay, receive⟩

/-- The terms must be an object before any field is looked at. -/
def decodeTrade (value : Json) (path : Bytes) : Decoded Trade := do
  let source ← record value path
  let terms ← field record source "terms" path
  let tradeId ← field decodeTradeId source "tradeId" path
  let version ← field decodeRevision source "version" path
  let state ← field decodeTradeState source "state" path
  let bookId ← field decodeBookId source "bookId" path
  let counterpartyId ← field decodeCounterpartyId source "counterpartyId" path
  let nettingSetId ← field decodeNettingSetId source "nettingSetId" path
  let terms ← decodeTerms isRealDay terms (childPath path "terms")
  let supersedes ← field nullableRevision source "supersedes" path
  let supersededBy ← field nullableRevision source "supersededBy" path
  .ok ⟨tradeId, version, state, bookId, counterpartyId, nettingSetId, terms, supersedes,
    supersededBy⟩

def decodeLimit (value : Json) (path : Bytes) : Decoded LimitBalance := do
  let source ← record value path
  let nodePath ← field (decodeArray stringValue) source "nodePath" path
  let level ← field decodeLimitLevel source "level" path
  let currency ← field decodeCurrency source "currency" path
  let capacity ← field decodeMoney source "capacity" path
  let reserved ← field decodeMoney source "reserved" path
  let headroom ← field decodeMoney source "headroom" path
  .ok ⟨level, nodePath, currency, capacity, reserved, headroom⟩

def decodeStateData (value : Json) (path : Bytes) : Decoded StateData := do
  let source ← record value path
  let trades ← field (decodeArray (decodeTrade isRealDay)) source "trades" path
  let limits ← field (decodeArray decodeLimit) source "limits" path
  .ok ⟨trades, limits⟩

def decodePosting (value : Json) (path : Bytes) : Decoded Posting := do
  let source ← record value path
  let postingId ← field decodePostingId source "postingId" path
  let tradeId ← field decodeTradeId source "tradeId" path
  let tradeVersion ← field decodeRevision source "tradeVersion" path
  let account ← field stringValue source "account" path
  let side ← field decodePostingSide source "side" path
  let amount ← field decodeMoney source "amount" path
  let reversalOf ← field nullablePostingId source "reversalOf" path
  .ok ⟨postingId, tradeId, tradeVersion, account, side, amount, reversalOf⟩

def decodeLedgerEntry (value : Json) (path : Bytes) : Decoded LedgerEntry := do
  let source ← record value path
  let entryIndex ← field decodeRevision source "entryIndex" path
  let postings ← field (decodeArray decodePosting) source "postings" path
  .ok ⟨entryIndex, postings⟩

def decodeLedgerData (value : Json) (path : Bytes) : Decoded LedgerData := do
  let source ← record value path
  let balanced ← field booleanValue source "balanced" path
  let totals ← field (decodeArray decodeMoney) source "totals" path
  let entries ← field (decodeArray decodeLedgerEntry) source "entries" path
  .ok ⟨balanced, totals, entries⟩

def decodeObligation (value : Json) (path : Bytes) : Decoded SettlementObligation := do
  let source ← record value path
  let counterpartyId ← field decodeCounterpartyId source "counterpartyId" path
  let nettingSetId ← field decodeNettingSetId source "nettingSetId" path
  let valueDate ← field (decodeIsoDate isRealDay) source "valueDate" path
  let direction ← field decodeDirection source "direction" path
  let amount ← field decodeMoney source "amount" path
  .ok ⟨counterpartyId, nettingSetId, valueDate, direction, amount⟩

def decodeSettlementData (value : Json) (path : Bytes) : Decoded SettlementData := do
  let source ← record value path
  let obligations ← field (decodeArray (decodeObligation isRealDay)) source "obligations" path
  .ok ⟨obligations⟩

def decodeEnvelope {δ : Type} (value : Json) (decodeData : Json → Bytes → Decoded δ) :
    Decoded (ReadEnvelope δ) := do
  let source ← record value "$"
  let stateVersion ← field decodeRevision source "stateVersion" "$"
  let stateFingerprint ← field decodeFingerprint source "stateFingerprint" "$"
  let data ← field decodeData source "data" "$"
  .ok ⟨stateVersion, stateFingerprint, data⟩

def decodeStateResponse (value : Json) : Decoded (ReadEnvelope StateData) :=
  decodeEnvelope value (decodeStateData isRealDay)

def decodeLedgerResponse (value : Json) : Decoded (ReadEnvelope LedgerData) :=
  decodeEnvelope value decodeLedgerData

def decodeSettlementsResponse (value : Json) : Decoded (ReadEnvelope SettlementData) :=
  decodeEnvelope value (decodeSettlementData isRealDay)

def decodeViolation (value : Json) (path : Bytes) : Decoded FieldViolation := do
  let source ← record value path
  let field' ← field stringValue source "field" path
  let message ← field stringValue source "message" path
  .ok ⟨field', message⟩

def decodeProblem (value : Json) : Decoded ProblemDetails := do
  let source ← record value "$"
  let type ← field stringValue source "type" "$"
  let title ← field stringValue source "title" "$"
  let status ← field integerValue source "status" "$"
  let detail ← field stringValue source "detail" "$"
  let code ← field decodeProblemCode source "code" "$"
  let violations ← optionalField (decodeArray decodeViolation) source "violations" "$"
  let expectedVersion ← optionalField decodeRevision source "expectedVersion" "$"
  let actualVersion ← optionalField decodeRevision source "actualVersion" "$"
  let nodePath ← optionalField (decodeArray stringValue) source "nodePath" "$"
  let currency ← optionalField decodeCurrency source "currency" "$"
  let required ← optionalField decodeMoney source "required" "$"
  let remaining ← optionalField decodeMoney source "remaining" "$"
  .ok ⟨type, title, status, detail, code, violations, expectedVersion, actualVersion, nodePath,
    currency, required, remaining⟩

def versionedResults : List (Bytes × VersionedResult) :=
  [("TRADE_BOOKED", .tradeBooked), ("TRADE_CONFIRMED", .tradeConfirmed),
    ("TRADE_CANCELLED", .tradeCancelled)]

def decodeCommandResponse (value : Json) : Decoded CommandResponse := do
  let source ← record value "$"
  let result ← field record source "result" "$"
  let type ← field stringValue result "type" "$.result"
  let stateVersion ← field decodeRevision result "stateVersion" "$.result"
  match versionedResults.lookup type with
  | some type => do
    let idempotentReplay ← field booleanValue source "idempotentReplay" "$"
    let tradeId ← field decodeTradeId result "tradeId" "$.result"
    let version ← field decodeRevision result "version" "$.result"
    .ok ⟨idempotentReplay, .versioned type tradeId version stateVersion⟩
  | none =>
    if type = "TRADE_AMENDED" then do
      let idempotentReplay ← field booleanValue source "idempotentReplay" "$"
      let tradeId ← field decodeTradeId result "tradeId" "$.result"
      let supersededVersion ← field decodeRevision result "supersededVersion" "$.result"
      let replacementVersion ← field decodeRevision result "replacementVersion" "$.result"
      .ok ⟨idempotentReplay,
        .tradeAmended tradeId supersededVersion replacementVersion stateVersion⟩
    else if type = "EOD_RUN" then do
      let idempotentReplay ← field booleanValue source "idempotentReplay" "$"
      let asOfDate ← field (decodeIsoDate isRealDay) result "asOfDate" "$.result"
      let settledTradeCount ← field decodeRevision result "settledTradeCount" "$.result"
      .ok ⟨idempotentReplay, .eodRun asOfDate settledTradeCount stateVersion⟩
    else complain "$.result.type" " is unsupported"

end Dates

structure SnapshotMismatchError where
  message : Bytes
deriving DecidableEq, Repr

def combineSnapshots (state : ReadEnvelope StateData) (ledger : ReadEnvelope LedgerData)
    (settlements : ReadEnvelope SettlementData) : Except SnapshotMismatchError DashboardSnapshot :=
  if state.stateVersion ≠ ledger.stateVersion ∨ state.stateVersion ≠ settlements.stateVersion ∨
      state.stateFingerprint ≠ ledger.stateFingerprint ∨
      state.stateFingerprint ≠ settlements.stateFingerprint then
    .error ⟨"Read endpoints did not describe the same immutable snapshot."⟩
  else .ok ⟨state.stateVersion, state.stateFingerprint, state.data, ledger.data, settlements.data⟩

end Backbook.Browser
