import Backbook.Validations
import Backbook.JsonTrees
import Backbook.DateText
import Backbook.ServiceCommand

/-! The decoder of command requests. It reads a parsed JSON value and collects a
violation for every field that is wrong. The texts of the fields and of the
messages are those of the source, whose functions share one list of violations. -/
namespace Backbook

open JsonTree DecimalText

instance : Coe String Bytes := ⟨asciiBytes⟩

abbrev Json := JsonTree.Value Bytes

structure FieldViolation where
  field : Bytes
  message : Bytes
deriving DecidableEq, Repr

inductive CommandDecodeErrorCode
  | malformedJson | validationFailed
deriving DecidableEq, Repr

structure CommandDecodeError where
  code : CommandDecodeErrorCode
  violations : List FieldViolation
deriving DecidableEq, Repr

def maximumTypeLength : ℕ := 32

def maximumDateLength : ℕ := 10

def maximumVersionLength : ℕ := 10

def maximumMinorUnitsLength : ℕ := 20

abbrev Checked := Validation FieldViolation

def childPath (parent child : Bytes) : Bytes := parent ++ ('.'.toUInt8 :: child)

def addViolation (field message : Bytes) : Checked Unit :=
  .report ⟨field, message⟩

def rejectField {α : Type} (field message : Bytes) : Checked (Option α) := do
  addViolation field message
  pure none

def isAllowed (name : Bytes) (allowed : List Bytes) : Bool := allowed.contains name

def rejectUnknownFields (value : Json) (path : Bytes) (allowed : List Bytes) :
    Checked Unit :=
  match value with
  | .object members => members.forM fun member =>
      if isAllowed member.1 allowed then pure ()
      else addViolation (childPath path member.1) "is not a supported field"
  | _ => addViolation path "must be a JSON object"

def requiredMember (object : Json) (name path : Bytes) : Checked (Option Json) :=
  if !object.isObject then pure none
  else match object.find name with
    | none => rejectField (childPath path name) "is required"
    | some member => pure (some member)

def requiredString (object : Json) (name path : Bytes) (maximumLength : ℕ) :
    Checked (Option Bytes) := do
  match ← requiredMember object name path with
  | none => pure none
  | some (.string text) =>
    if text.length > maximumLength then rejectField (childPath path name) "is too long"
    else pure (some text)
  | some _ => rejectField (childPath path name) "must be a string"

/-- The six identifier readers of the source differ in the type alone. -/
def parseId (tag : IdTag) (object : Json) (name path : Bytes) : Checked (Option (Id tag)) := do
  match ← requiredString object name path 64 with
  | none => pure none
  | some text =>
    match Id.parse tag text with
    | .ok id => pure (some id)
    | .error _ =>
      rejectField (childPath path name) "must match the documented identifier grammar"

def parseCommandId : Json → Bytes → Bytes → Checked (Option CommandId) := parseId .command

def parseTradeId : Json → Bytes → Bytes → Checked (Option TradeId) := parseId .trade

def parseBookId : Json → Bytes → Bytes → Checked (Option BookId) := parseId .book

def parseCounterpartyId : Json → Bytes → Bytes → Checked (Option CounterpartyId) :=
  parseId .counterparty

def parseNettingSetId : Json → Bytes → Bytes → Checked (Option NettingSetId) := parseId .nettingSet

def parsePostingId : Json → Bytes → Bytes → Checked (Option PostingId) := parseId .posting

def isCanonicalUnsigned (text : Bytes) : Bool :=
  match text with
  | [] => false
  | first :: _ =>
    if text = "0" then true
    else if first < '1'.toUInt8 || first > '9'.toUInt8 then false
    else text.all isDigit

def isCanonicalSigned (text : Bytes) : Bool :=
  match text with
  | [] => false
  | first :: rest =>
    if first ≠ minusSign then isCanonicalUnsigned text
    else match rest with
      | [] => false
      | second :: _ => if second = zeroDigit then false else isCanonicalUnsigned rest

def parseExpectedVersion (object : Json) : Checked (Option UInt32) := do
  match ← requiredString object "expectedVersion" "$" maximumVersionLength with
  | none => pure none
  | some text =>
    if !isCanonicalUnsigned text then
      rejectField "$.expectedVersion" "must be a canonical unsigned decimal string"
    else match fromChars 4294967295 text with
      | .ok (version, []) =>
        if version = 0 then
          rejectField "$.expectedVersion" "must be between 1 and 4294967295"
        else pure (some (UInt32.ofNat version))
      | _ => rejectField "$.expectedVersion" "must be between 1 and 4294967295"

def parseCurrency (text path : Bytes) : Checked (Option Currency) :=
  if text = "USD" then pure (some .usd)
  else if text = "JPY" then pure (some .jpy)
  else if text = "KWD" then pure (some .kwd)
  else rejectField path "must be one of USD, JPY, or KWD"

def parseMoney (value : Json) (path : Bytes) : Checked (Option Money) := do
  rejectUnknownFields value path ["currency", "minorUnits"]
  if !value.isObject then pure none
  else do
    let currencyText ← requiredString value "currency" path 3
    let unitsText ← requiredString value "minorUnits" path maximumMinorUnitsLength
    match currencyText, unitsText with
    | some currencyText, some unitsText => do
      let currency ← parseCurrency currencyText (childPath path "currency")
      if !isCanonicalSigned unitsText then
        rejectField (childPath path "minorUnits") "must be a canonical signed decimal string"
      else match fromCharsSigned (-2 ^ 63) (2 ^ 63 - 1) unitsText with
        | .ok (minorUnits, []) =>
          pure (currency.map fun c => Money.fromMinorUnits c (Int64.ofInt minorUnits))
        | _ => rejectField (childPath path "minorUnits") "is outside the signed 64-bit range"
    | _, _ => pure none

def parseDate (object : Json) (name path : Bytes) : Checked (Option IsoDate) := do
  match ← requiredString object name path maximumDateLength with
  | none => pure none
  | some text =>
    match IsoDate.parse text with
    | .ok date => pure (some date)
    | .error _ => rejectField (childPath path name) "must be a real ISO date in YYYY-MM-DD form"

def parseInstrumentKind (object : Json) (path : Bytes) : Checked (Option InstrumentKind) := do
  match ← requiredString object "kind" path 16 with
  | none => pure none
  | some kind =>
    if kind = "FX_SPOT" then pure (some .fxSpot)
    else if kind = "FX_FORWARD" then pure (some .fxForward)
    else rejectField (childPath path "kind") "must be FX_SPOT or FX_FORWARD"

def readMember {α : Type} (member : Option Json) (reader : Json → Checked (Option α)) :
    Checked (Option α) :=
  match member with
  | none => pure none
  | some value => reader value

def parseTerms (value : Json) (path : Bytes) : Checked (Option FxTerms) := do
  rejectUnknownFields value path ["kind", "tradeDate", "valueDate", "pay", "receive"]
  if !value.isObject then pure none
  else do
    let kind ← parseInstrumentKind value path
    let tradeDate ← parseDate value "tradeDate" path
    let valueDate ← parseDate value "valueDate" path
    let payJson ← requiredMember value "pay" path
    let receiveJson ← requiredMember value "receive" path
    let pay ← readMember payJson fun json => parseMoney json (childPath path "pay")
    let receive ← readMember receiveJson fun json => parseMoney json (childPath path "receive")
    match kind, tradeDate, valueDate, pay, receive with
    | some kind, some tradeDate, some valueDate, some pay, some receive =>
      match FxTerms.create kind tradeDate valueDate pay receive with
      | .ok terms => pure (some terms)
      | .error _ => rejectField path "contains invalid FX cashflow terms"
    | _, _, _, _, _ => pure none

def parseConfirmationIds (value : Json) (path : Bytes) :
    Checked (Option ConfirmationPostingIds) := do
  rejectUnknownFields value path
    ["payControlDebit", "payPayableCredit", "receiveReceivableDebit", "receiveControlCredit"]
  if !value.isObject then pure none
  else do
    let payControl ← parsePostingId value "payControlDebit" path
    let payPayable ← parsePostingId value "payPayableCredit" path
    let receiveReceivable ← parsePostingId value "receiveReceivableDebit" path
    let receiveControl ← parsePostingId value "receiveControlCredit" path
    match payControl, payPayable, receiveReceivable, receiveControl with
    | some payControl, some payPayable, some receiveReceivable, some receiveControl =>
      pure (some ⟨payControl, payPayable, receiveReceivable, receiveControl⟩)
    | _, _, _, _ => pure none

def parseReversalIds (value : Json) (path : Bytes) : Checked (Option ReversalPostingIds) := do
  rejectUnknownFields value path
    ["payControlCredit", "payPayableDebit", "receiveReceivableCredit", "receiveControlDebit"]
  if !value.isObject then pure none
  else do
    let payControl ← parsePostingId value "payControlCredit" path
    let payPayable ← parsePostingId value "payPayableDebit" path
    let receiveReceivable ← parsePostingId value "receiveReceivableCredit" path
    let receiveControl ← parsePostingId value "receiveControlDebit" path
    match payControl, payPayable, receiveReceivable, receiveControl with
    | some payControl, some payPayable, some receiveReceivable, some receiveControl =>
      pure (some ⟨payControl, payPayable, receiveReceivable, receiveControl⟩)
    | _, _, _, _ => pure none

def rejectExpectedVersion (document : Json) : Checked Unit :=
  if (document.find "expectedVersion").isSome then
    addViolation "$.expectedVersion" "is not valid for this command type"
  else pure ()

def parseBookCommand (document payload : Json) : Checked (Option Command) := do
  rejectExpectedVersion document
  rejectUnknownFields payload "$.payload"
    ["tradeId", "bookId", "counterpartyId", "nettingSetId", "terms"]
  if !payload.isObject then pure none
  else do
    let tradeId ← parseTradeId payload "tradeId" "$.payload"
    let bookId ← parseBookId payload "bookId" "$.payload"
    let counterpartyId ← parseCounterpartyId payload "counterpartyId" "$.payload"
    let nettingSetId ← parseNettingSetId payload "nettingSetId" "$.payload"
    let termsJson ← requiredMember payload "terms" "$.payload"
    let terms ← readMember termsJson fun json => parseTerms json "$.payload.terms"
    match tradeId, bookId, counterpartyId, nettingSetId, terms with
    | some tradeId, some bookId, some counterpartyId, some nettingSetId, some terms =>
      pure (some (.bookTrade ⟨tradeId, bookId, counterpartyId, nettingSetId, terms⟩))
    | _, _, _, _, _ => pure none

def parseConfirmCommand (document payload : Json) : Checked (Option Command) := do
  rejectUnknownFields payload "$.payload" ["tradeId", "postingIds"]
  if !payload.isObject then pure none
  else do
    let version ← parseExpectedVersion document
    let tradeId ← parseTradeId payload "tradeId" "$.payload"
    let postingJson ← requiredMember payload "postingIds" "$.payload"
    let postingIds ← readMember postingJson fun json =>
      parseConfirmationIds json "$.payload.postingIds"
    match version, tradeId, postingIds with
    | some version, some tradeId, some postingIds =>
      pure (some (.confirmTrade ⟨tradeId, version, postingIds⟩))
    | _, _, _ => pure none

def parseAmendCommand (document payload : Json) : Checked (Option Command) := do
  rejectUnknownFields payload "$.payload"
    ["tradeId", "replacementTerms", "reversalPostingIds", "replacementPostingIds"]
  if !payload.isObject then pure none
  else do
    let version ← parseExpectedVersion document
    let tradeId ← parseTradeId payload "tradeId" "$.payload"
    let termsJson ← requiredMember payload "replacementTerms" "$.payload"
    let reversalJson ← requiredMember payload "reversalPostingIds" "$.payload"
    let replacementJson ← requiredMember payload "replacementPostingIds" "$.payload"
    let terms ← readMember termsJson fun json => parseTerms json "$.payload.replacementTerms"
    let reversalIds ← readMember reversalJson fun json =>
      parseReversalIds json "$.payload.reversalPostingIds"
    let replacementIds ← readMember replacementJson fun json =>
      parseConfirmationIds json "$.payload.replacementPostingIds"
    match version, tradeId, terms, reversalIds, replacementIds with
    | some version, some tradeId, some terms, some reversalIds, some replacementIds =>
      pure (some (.amendTrade ⟨tradeId, version, terms, reversalIds, replacementIds⟩))
    | _, _, _, _, _ => pure none

def parseCancelCommand (document payload : Json) : Checked (Option Command) := do
  rejectUnknownFields payload "$.payload" ["tradeId", "reversalPostingIds"]
  if !payload.isObject then pure none
  else do
    let version ← parseExpectedVersion document
    let tradeId ← parseTradeId payload "tradeId" "$.payload"
    let reversal := payload.find "reversalPostingIds"
    let reversalIds ← readMember reversal fun json =>
      parseReversalIds json "$.payload.reversalPostingIds"
    match version, tradeId with
    | some version, some tradeId =>
      if reversal.isSome && reversalIds.isNone then pure none
      else pure (some (.cancelTrade ⟨tradeId, version, reversalIds⟩))
    | _, _ => pure none

def parseEodCommand (document payload : Json) : Checked (Option Command) := do
  rejectExpectedVersion document
  rejectUnknownFields payload "$.payload" ["asOfDate"]
  if !payload.isObject then pure none
  else do
    match ← parseDate payload "asOfDate" "$.payload" with
    | none => pure none
    | some date => pure (some (.runEod ⟨date⟩))

def parseCommand (type : Bytes) (document payload : Json) : Checked (Option Command) :=
  if type = "BOOK_TRADE" then parseBookCommand document payload
  else if type = "CONFIRM_TRADE" then parseConfirmCommand document payload
  else if type = "AMEND_TRADE" then parseAmendCommand document payload
  else if type = "CANCEL_TRADE" then parseCancelCommand document payload
  else if type = "RUN_EOD" then parseEodCommand document payload
  else rejectField "$.type" "is not a supported command type"

def parseEnvelope (document : Json) : Checked (Option CommandEnvelope) := do
  rejectUnknownFields document "$" ["commandId", "type", "expectedVersion", "payload"]
  if !document.isObject then pure none
  else do
    let commandId ← parseCommandId document "commandId" "$"
    let type ← requiredString document "type" "$" maximumTypeLength
    let payload ← requiredMember document "payload" "$"
    let command ← match type, payload with
      | some type, some payload => parseCommand type document payload
      | _, _ => pure none
    match commandId, command with
    | some commandId, some command => pure (some ⟨commandId, command⟩)
    | _, _ => pure none

/-- What the JSON library yields: a tree whose objects are maps. -/
@[ext] structure ParsedJson where
  tree : Json
  sorted : tree.Sorted

/-- The parser of JSON texts is the library's. It gives nothing for a malformed
text. -/
def decodeCommandRequest (parse : Bytes → Option ParsedJson) (body : Bytes) :
    Except CommandDecodeError CommandEnvelope :=
  match parse body with
  | none => .error ⟨.malformedJson, []⟩
  | some document =>
    let checked := parseEnvelope document.tree
    match checked.reports, checked.value with
    | [], some envelope => .ok envelope
    | violations, _ => .error ⟨.validationFailed, violations⟩

def currencyText : Currency → Bytes
  | .usd => "USD"
  | .jpy => "JPY"
  | .kwd => "KWD"

def instrumentText : InstrumentKind → Bytes
  | .fxSpot => "FX_SPOT"
  | .fxForward => "FX_FORWARD"

def moneyJson (money : Money) : Json :=
  ofTable [("currency", some (.string (currencyText money.currency))),
    ("minorUnits", some (.string (signedNumeral money.minorUnits)))]

def termsJson (terms : FxTerms) : Json :=
  ofTable [("kind", some (.string (instrumentText terms.kind))),
    ("tradeDate", some (.string terms.tradeDate.toString)),
    ("valueDate", some (.string terms.valueDate.toString)),
    ("pay", some (moneyJson terms.pay)), ("receive", some (moneyJson terms.receive))]

end Backbook
