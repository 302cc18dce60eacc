import Backbook.CommandDocuments
import Backbook.ServiceExecute
import Backbook.StateExport

namespace Backbook

open JsonTree DecimalText

def fnv1a64 (bytes : Bytes) : UInt64 :=
  bytes.foldl (fun hash byte => (hash ^^^ byte.toUInt64) * 1099511628211) 14695981039346656037

def stateFingerprint (state : State) : Except FingerprintError UInt64 :=
  (canonicalStateBytes state).map fnv1a64

def hexDigit (digit : ℕ) : UInt8 := UInt8.ofNat (if digit < 10 then 48 + digit else 87 + digit)

def hexNumeral (n : ℕ) : Bytes :=
  if n = 0 then [zeroDigit] else ((Nat.digits 16 n).map hexDigit).reverse

def fingerprintText (value : UInt64) : Bytes :=
  let encoded := hexNumeral value.toNat
  asciiBytes "0x" ++ (List.replicate (16 - encoded.length) zeroDigit ++ encoded)

def tradeStateText : TradeState → Bytes
  | .captured => "CAPTURED"
  | .confirmed => "CONFIRMED"
  | .superseded => "SUPERSEDED"
  | .cancelled => "CANCELLED"
  | .settled => "SETTLED"

def postingSideText : PostingSide → Bytes
  | .debit => "DEBIT"
  | .credit => "CREDIT"

def settlementDirectionText : SettlementDirection → Bytes
  | .outgoing => "OUTGOING"
  | .incoming => "INCOMING"

def limitLevelText (level : UInt8) : Bytes :=
  if level = 0 then "GROUP"
  else if level = 1 then "COUNTERPARTY"
  else if level = 2 then "NETTING_SET"
  else if level = 3 then "BOOK"
  else []

inductive ResponseEncodingError
  | fingerprintFailed | invalidState
deriving DecidableEq, Repr

/-- The second `money_json` of the source, which takes the two parts. -/
def unitsJson (currency : Currency) (minorUnits : ℤ) : Json :=
  ofTable [("currency", some (.string (currencyText currency))),
    ("minorUnits", some (.string (signedNumeral minorUnits)))]

def stateVersionJson (version : UInt64) : Json := .string (numeral version.toNat)

def nullableJson {α : Type} (json : α → Json) (value : Option α) : Json := value.elim .null json

def textsJson (texts : List Bytes) : Json := .array (texts.map .string)

def envelopeJson (version fingerprint : UInt64) (data : Json) : Json :=
  ofTable [("stateVersion", some (stateVersionJson version)),
    ("stateFingerprint", some (.string (fingerprintText fingerprint))), ("data", some data)]

def readEnvelope (state : State) (data : Json) : Except ResponseEncodingError Json :=
  match stateFingerprint state with
  | .error _ => .error .fingerprintFailed
  | .ok fingerprint => .ok (envelopeJson state.version fingerprint data)

def tradeJson (trade : Trade) : Json :=
  ofTable [("tradeId", idJson trade.id), ("version", some (versionJson trade.version)),
    ("state", some (.string (tradeStateText trade.state))), ("bookId", idJson trade.bookId),
    ("counterpartyId", idJson trade.counterpartyId), ("nettingSetId", idJson trade.nettingSetId),
    ("terms", some (termsJson trade.terms)),
    ("supersedes", some (nullableJson versionJson trade.supersedes)),
    ("supersededBy", some (nullableJson versionJson trade.supersededBy))]

def LimitNode.pathComponents (node : LimitNode) : List Bytes :=
  asciiBytes "GROUP" :: (node.counterpartyId.toList.map Id.value ++
    (node.nettingSetId.toList.map Id.value ++ node.bookId.toList.map Id.value))

def LimitBalanceSnapshot.headroomMinorUnits (balance : LimitBalanceSnapshot) : Int64 :=
  Int64.ofInt balance.capacityMinorUnits - Int64.ofInt balance.reservedMinorUnits

def limitJson (balance : LimitBalanceSnapshot) : Json :=
  ofTable [("level", some (.string (limitLevelText balance.node.level))),
    ("nodePath", some (textsJson balance.node.pathComponents)),
    ("currency", some (.string (currencyText balance.currency))),
    ("capacity", some (unitsJson balance.currency balance.capacityMinorUnits)),
    ("reserved", some (unitsJson balance.currency balance.reservedMinorUnits)),
    ("headroom", some (unitsJson balance.currency balance.headroomMinorUnits.toInt))]

def stateDataJson (state : State) : Json :=
  ofTable [("trades", some (.array (state.trades.toList.map fun stored => tradeJson stored.2))),
    ("limits", some (.array (state.limits.snapshots.map limitJson)))]

def encodeStateResponse (state : State) : Except ResponseEncodingError Json :=
  readEnvelope state (stateDataJson state)

def postingJson (posting : Posting) : Json :=
  ofTable [("postingId", idJson posting.id), ("tradeId", idJson posting.tradeId),
    ("tradeVersion", some (versionJson posting.tradeVersion)),
    ("account", some (.string posting.account)),
    ("side", some (.string (postingSideText posting.side))),
    ("amount", some (moneyJson posting.amount)),
    ("reversalOf", some (nullableJson (fun id => .string id.value) posting.reversalOf))]

def entryJson (entryIndex : ℕ) (entry : LedgerEntry) : Json :=
  ofTable [("entryIndex", some (.string (numeral entryIndex))),
    ("postings", some (.array (entry.postings.map postingJson)))]

def reportedCurrencies : List Currency := [.usd, .jpy, .kwd]

def ledgerDataJson (totals : List Money) (entries : List LedgerEntry) : Json :=
  ofTable [("balanced", some (.boolean (totals.all fun total => total.minorUnits == 0))),
    ("totals", some (.array (totals.map moneyJson))),
    ("entries", some (.array (entries.mapIdx entryJson)))]

/-- Every currency has a total, so the source's `InvalidState` cannot be met. -/
def encodeLedgerResponse (state : State) : Except ResponseEncodingError Json :=
  readEnvelope state
    (ledgerDataJson (reportedCurrencies.map state.ledgerTotals.total) state.ledgerEntries)

def obligationJson (obligation : SettlementObligation) : Json :=
  ofTable [("counterpartyId", idJson obligation.counterpartyId),
    ("nettingSetId", idJson obligation.nettingSetId),
    ("valueDate", some (.string obligation.valueDate.toString)),
    ("direction", some (.string (settlementDirectionText obligation.direction))),
    ("amount", some (moneyJson obligation.amount))]

def settlementDataJson (obligations : List SettlementObligation) : Json :=
  ofTable [("obligations", some (.array (obligations.map obligationJson)))]

def encodeSettlementsResponse (state : State) : Except ResponseEncodingError Json :=
  readEnvelope state (settlementDataJson state.settlements)

def versionedResultJson (type : Bytes) (tradeId : TradeId) (version : UInt32)
    (stateVersion : UInt64) : Json :=
  ofTable [("type", some (.string type)), ("tradeId", idJson tradeId),
    ("version", some (versionJson version)),
    ("stateVersion", some (stateVersionJson stateVersion))]

def commandResultJson : CommandResult → Json
  | .tradeBooked value =>
    versionedResultJson "TRADE_BOOKED" value.tradeId value.version value.stateVersion
  | .tradeConfirmed value =>
    versionedResultJson "TRADE_CONFIRMED" value.tradeId value.version value.stateVersion
  | .tradeAmended value =>
    ofTable [("type", some (.string "TRADE_AMENDED")), ("tradeId", idJson value.tradeId),
      ("supersededVersion", some (versionJson value.supersededVersion)),
      ("replacementVersion", some (versionJson value.replacementVersion)),
      ("stateVersion", some (stateVersionJson value.stateVersion))]
  | .tradeCancelled value =>
    versionedResultJson "TRADE_CANCELLED" value.tradeId value.version value.stateVersion
  | .eodRun value =>
    ofTable [("type", some (.string "EOD_RUN")),
      ("asOfDate", some (.string value.asOfDate.toString)),
      ("settledTradeCount", some (versionJson value.settledTradeCount)),
      ("stateVersion", some (stateVersionJson value.stateVersion))]

def commandResponseJson (idempotentReplay : Bool) (result : Json) : Json :=
  ofTable [("idempotentReplay", some (.boolean idempotentReplay)), ("result", some result)]

def encodeCommandResponse (receipt : CommandReceipt) : Json :=
  commandResponseJson receipt.idempotentReplay (commandResultJson receipt.result)

inductive ProblemCode
  | validationFailed | notFound | illegalTransition | versionConflict | limitBreach
  | idempotencyConflict | journalUnavailable | internalError
deriving DecidableEq, Repr

def problemCodeName : ProblemCode → Bytes
  | .validationFailed => "VALIDATION_FAILED"
  | .notFound => "NOT_FOUND"
  | .illegalTransition => "ILLEGAL_TRANSITION"
  | .versionConflict => "VERSION_CONFLICT"
  | .limitBreach => "LIMIT_BREACH"
  | .idempotencyConflict => "IDEMPOTENCY_CONFLICT"
  | .journalUnavailable => "JOURNAL_UNAVAILABLE"
  | .internalError => "INTERNAL_ERROR"

structure ProblemDetails where
  code : ProblemCode
  status : Int32
  title : Bytes
  detail : Bytes
  violations : List FieldViolation := []
  expectedVersion : Option UInt32 := none
  actualVersion : Option UInt32 := none
  nodePath : List Bytes := []
  currency : Option Currency := none
  requiredMinorUnits : Option ℤ := none
  remainingMinorUnits : Option ℤ := none
deriving DecidableEq, Repr

def internalProblem : ProblemDetails where
  code := .internalError
  status := 500
  title := "Internal error"
  detail := "The request could not be completed."

def validationProblem (detail : Bytes) : ProblemDetails where
  code := .validationFailed
  status := 422
  title := "Validation failed"
  detail := detail

def stateProblem : StateError → ProblemDetails
  | .tradeNotFound =>
    { code := .notFound
      status := 404
      title := "Trade not found"
      detail := "The requested trade does not exist." }
  | .versionConflict expectedVersion actualVersion =>
    { code := .versionConflict
      status := 409
      title := "Version conflict"
      detail := "The expected trade version does not match the current version."
      expectedVersion := some expectedVersion
      actualVersion := some actualVersion }
  | .illegalTransition _ | .duplicateTradeId =>
    { code := .illegalTransition
      status := 409
      title := "Illegal transition"
      detail := "The command is not valid for the trade's current lifecycle state." }
  | .limitFailure breach =>
    if breach.code = .breach then
      { code := .limitBreach
        status := 409
        title := "Settlement limit breached"
        detail := "The outgoing cashflow exceeds remaining settlement headroom."
        nodePath := breach.node.pathComponents
        currency := some breach.currency
        requiredMinorUnits := some breach.requiredMinorUnits
        remainingMinorUnits := some breach.remainingMinorUnits }
    else validationProblem "The command references an invalid settlement-limit path."
  | .amendmentFailure _ | .postingPolicyFailure _ | .duplicatePostingId
  | .missingConfirmationEntry | .missingReversalIds | .unexpectedReversalIds =>
    validationProblem "The command is inconsistent with the current trade."
  | .ledgerTotalsFailure _ | .settlementFailure _ | .stateVersionOverflow => internalProblem

def problemFromServiceError : CommandServiceError → ProblemDetails
  | .idempotencyConflict =>
    { code := .idempotencyConflict
      status := 409
      title := "Idempotency conflict"
      detail := "The command identifier was already used for a different request." }
  | .journalUnavailable _ =>
    { code := .journalUnavailable
      status := 503
      title := "Journal unavailable"
      detail := "Persistent command storage is unavailable until restart." }
  | .domainRejected stateError => stateProblem stateError
  | .missingStore | .recoveryFailure _ | .replayFailure _ | .duplicateJournalCommandId
  | .sequenceExhausted | .commandEncodingFailure _ | .invalidCanonicalRequest _
  | .journalEncodingFailure _ | .invariantViolation => internalProblem

def violationJson (violation : FieldViolation) : Json :=
  ofTable [("field", some (.string violation.field)),
    ("message", some (.string violation.message))]

/-- The three members of a breach are written together or not at all. -/
def ProblemDetails.breach (problem : ProblemDetails) : Option (Currency × ℤ × ℤ) :=
  match problem.currency, problem.requiredMinorUnits, problem.remainingMinorUnits with
  | some currency, some required, some remaining => some (currency, required, remaining)
  | _, _, _ => none

def nonEmpty {α : Type} (elements : List α) : Option (List α) :=
  if elements.isEmpty then none else some elements

def encodeProblemResponse (problem : ProblemDetails) : Json :=
  let code := problemCodeName problem.code
  ofTable [("type", some (.string (asciiBytes "urn:backbook:problem:" ++ code))),
    ("title", some (.string problem.title)),
    ("status", some (.numberInteger problem.status.toInt)),
    ("detail", some (.string problem.detail)), ("code", some (.string code)),
    ("violations", (nonEmpty problem.violations).map fun violations =>
      .array (violations.map violationJson)),
    ("expectedVersion", problem.expectedVersion.map versionJson),
    ("actualVersion", problem.actualVersion.map versionJson),
    ("nodePath", (nonEmpty problem.nodePath).map textsJson),
    ("currency", problem.breach.map fun breach => .string (currencyText breach.1)),
    ("required", problem.breach.map fun breach => unitsJson breach.1 breach.2.1),
    ("remaining", problem.breach.map fun breach => unitsJson breach.1 breach.2.2)]

end Backbook
