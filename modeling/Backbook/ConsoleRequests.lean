import Backbook.BrowserSubmissions
import Backbook.AmountAgreement

namespace Backbook

open JsonTree DecimalText

namespace Browser

structure FxTermsRequest where
  kind : InstrumentKind
  tradeDate : Bytes
  valueDate : Bytes
  pay : MoneyDto
  receive : MoneyDto
deriving DecidableEq

structure ConfirmationTexts where
  payControlDebit : Bytes
  payPayableCredit : Bytes
  receiveReceivableDebit : Bytes
  receiveControlCredit : Bytes
deriving DecidableEq

structure ReversalTexts where
  payControlCredit : Bytes
  payPayableDebit : Bytes
  receiveReceivableCredit : Bytes
  receiveControlDebit : Bytes
deriving DecidableEq

structure BookPayload where
  tradeId : Bytes
  bookId : Bytes
  counterpartyId : Bytes
  nettingSetId : Bytes
  terms : FxTermsRequest
deriving DecidableEq

structure AmendPayload where
  tradeId : Bytes
  replacementTerms : FxTermsRequest
  reversalPostingIds : ReversalTexts
  replacementPostingIds : ConfirmationTexts
deriving DecidableEq

inductive RequestBody
  | bookTrade (payload : BookPayload)
  | amendTrade (expectedVersion : Bytes) (payload : AmendPayload)
  | runEod (asOfDate : Bytes)
deriving DecidableEq

structure CommandRequest where
  commandId : Bytes
  body : RequestBody
deriving DecidableEq

def FxTermsRequest.table (terms : FxTermsRequest) : List (Bytes × Option Json) :=
  [("kind", some (.string (instrumentText terms.kind))),
    ("tradeDate", some (.string terms.tradeDate)), ("valueDate", some (.string terms.valueDate)),
    ("pay", some terms.pay.json), ("receive", some terms.receive.json)]

def FxTermsRequest.json (terms : FxTermsRequest) : Json := ofTable terms.table

def ConfirmationTexts.table (ids : ConfirmationTexts) : List (Bytes × Option Json) :=
  [("payControlDebit", some (.string ids.payControlDebit)),
    ("payPayableCredit", some (.string ids.payPayableCredit)),
    ("receiveReceivableDebit", some (.string ids.receiveReceivableDebit)),
    ("receiveControlCredit", some (.string ids.receiveControlCredit))]

def ReversalTexts.table (ids : ReversalTexts) : List (Bytes × Option Json) :=
  [("payControlCredit", some (.string ids.payControlCredit)),
    ("payPayableDebit", some (.string ids.payPayableDebit)),
    ("receiveReceivableCredit", some (.string ids.receiveReceivableCredit)),
    ("receiveControlDebit", some (.string ids.receiveControlDebit))]

def BookPayload.table (payload : BookPayload) : List (Bytes × Option Json) :=
  [("tradeId", some (.string payload.tradeId)), ("bookId", some (.string payload.bookId)),
    ("counterpartyId", some (.string payload.counterpartyId)),
    ("nettingSetId", some (.string payload.nettingSetId)), ("terms", some payload.terms.json)]

def AmendPayload.table (payload : AmendPayload) : List (Bytes × Option Json) :=
  [("tradeId", some (.string payload.tradeId)),
    ("replacementTerms", some payload.replacementTerms.json),
    ("reversalPostingIds", some (ofTable payload.reversalPostingIds.table)),
    ("replacementPostingIds", some (ofTable payload.replacementPostingIds.table))]

def RequestBody.type : RequestBody → Bytes
  | .bookTrade _ => "BOOK_TRADE"
  | .amendTrade _ _ => "AMEND_TRADE"
  | .runEod _ => "RUN_EOD"

def RequestBody.expectedVersion : RequestBody → Option Bytes
  | .amendTrade expectedVersion _ => some expectedVersion
  | _ => none

def RequestBody.payload : RequestBody → Json
  | .bookTrade payload => ofTable payload.table
  | .amendTrade _ payload => ofTable payload.table
  | .runEod asOfDate => ofTable [("asOfDate", some (.string asOfDate))]

def CommandRequest.table (request : CommandRequest) : List (Bytes × Option Json) :=
  [("commandId", some (.string request.commandId)), ("type", some (.string request.body.type)),
    ("expectedVersion", request.body.expectedVersion.map .string),
    ("payload", some request.body.payload)]

theorem FxTermsRequest.json_sorted (terms : FxTermsRequest) : terms.json.Sorted := by
  apply sorted_ofTable (by simp only [table, List.map_cons, List.map_nil]; decide)
  simp [table, Value.Sorted.string, MoneyDto.json_sorted]

theorem RequestBody.payload_sorted (body : RequestBody) : body.payload.Sorted := by
  cases body with
  | bookTrade payload =>
    apply sorted_ofTable (by simp only [BookPayload.table, List.map_cons, List.map_nil]; decide)
    simp [BookPayload.table, Value.Sorted.string, FxTermsRequest.json_sorted]
  | amendTrade expectedVersion payload =>
    have hreversal : (ofTable payload.reversalPostingIds.table).Sorted := by
      apply sorted_ofTable (by simp only [ReversalTexts.table, List.map_cons, List.map_nil]; decide)
      simp [ReversalTexts.table, Value.Sorted.string]
    have hreplacement : (ofTable payload.replacementPostingIds.table).Sorted := by
      apply sorted_ofTable
        (by simp only [ConfirmationTexts.table, List.map_cons, List.map_nil]; decide)
      simp [ConfirmationTexts.table, Value.Sorted.string]
    apply sorted_ofTable (by simp only [AmendPayload.table, List.map_cons, List.map_nil]; decide)
    simp [AmendPayload.table, Value.Sorted.string, FxTermsRequest.json_sorted, hreversal,
      hreplacement]
  | runEod asOfDate =>
    apply sorted_ofTable (by simp only [List.map_cons, List.map_nil]; decide)
    simp [Value.Sorted.string]

theorem CommandRequest.table_sorted (request : CommandRequest) :
    (ofTable request.table).Sorted := by
  apply sorted_ofTable (by simp only [table, List.map_cons, List.map_nil]; decide)
  cases hversion : request.body.expectedVersion with
  | none => simp [table, hversion, Value.Sorted.string, RequestBody.payload_sorted]
  | some version => simp [table, hversion, Value.Sorted.string, RequestBody.payload_sorted]

def CommandRequest.document (request : CommandRequest) : ParsedJson :=
  ⟨ofTable request.table, request.table_sorted⟩

end Browser

open Browser (CommandRequest RequestBody)

def Money.dto (money : Money) : Browser.MoneyDto :=
  ⟨money.currency, signedNumeral money.minorUnits⟩

def FxTerms.request (terms : FxTerms) : Browser.FxTermsRequest :=
  ⟨terms.kind, terms.tradeDate.toString, terms.valueDate.toString, terms.pay.dto, terms.receive.dto⟩

def ConfirmationPostingIds.texts (ids : ConfirmationPostingIds) : Browser.ConfirmationTexts :=
  ⟨ids.payControlDebit.value, ids.payPayableCredit.value, ids.receiveReceivableDebit.value,
    ids.receiveControlCredit.value⟩

def ReversalPostingIds.texts (ids : ReversalPostingIds) : Browser.ReversalTexts :=
  ⟨ids.payControlCredit.value, ids.payPayableDebit.value, ids.receiveReceivableCredit.value,
    ids.receiveControlDebit.value⟩

def BookTradeCommand.request (command : BookTradeCommand) : Browser.BookPayload :=
  ⟨command.tradeId.value, command.bookId.value, command.counterpartyId.value,
    command.nettingSetId.value, command.terms.request⟩

def AmendTradeCommand.request (command : AmendTradeCommand) : Browser.AmendPayload :=
  ⟨command.tradeId.value, command.replacementTerms.request, command.reversalIds.texts,
    command.replacementPostingIds.texts⟩

/-- The console has no form for the other commands. -/
def Command.request : Command → Option RequestBody
  | .bookTrade value => some (.bookTrade value.request)
  | .amendTrade value => some (.amendTrade (versionText value.expectedVersion) value.request)
  | .runEod value => some (.runEod value.asOfDate.toString)
  | _ => none

theorem instrumentText_injective : Function.Injective instrumentText := by
  intro a b h
  cases a <;> cases b <;> first | rfl | exact absurd h (by decide)

namespace Browser

theorem MoneyDto.json_injective : Function.Injective MoneyDto.json := by
  intro a b h
  unfold MoneyDto.json at h
  rw [ofTable_inj (by simp only [List.map_cons, List.map_nil]; decide) (by rfl)] at h
  simp only [List.cons.injEq, Prod.mk.injEq, Option.some.injEq, Value.string.injEq, true_and,
    and_true] at h
  cases a
  cases b
  exact congrArg₂ MoneyDto.mk (currencyText_injective h.1) h.2

theorem FxTermsRequest.json_injective : Function.Injective FxTermsRequest.json := by
  apply ofTable_injective table
  · intro terms
    simp only [table, List.map_cons, List.map_nil]
    decide
  · exact fun _ _ => rfl
  · intro a b h
    simp only [table, List.cons.injEq, Prod.mk.injEq, Option.some.injEq, Value.string.injEq,
      true_and, and_true, instrumentText_injective.eq_iff, MoneyDto.json_injective.eq_iff] at h
    cases a
    cases b
    simp_all

theorem ConfirmationTexts.table_injective :
    Function.Injective fun ids : ConfirmationTexts => (ofTable ids.table : Json) := by
  apply ofTable_injective table
  · intro ids
    simp only [table, List.map_cons, List.map_nil]
    decide
  · exact fun _ _ => rfl
  · intro a b h
    cases a
    cases b
    simpa [table] using h

theorem ReversalTexts.table_injective :
    Function.Injective fun ids : ReversalTexts => (ofTable ids.table : Json) := by
  apply ofTable_injective table
  · intro ids
    simp only [table, List.map_cons, List.map_nil]
    decide
  · exact fun _ _ => rfl
  · intro a b h
    cases a
    cases b
    simpa [table] using h

theorem BookPayload.table_injective :
    Function.Injective fun payload : BookPayload => (ofTable payload.table : Json) := by
  apply ofTable_injective table
  · intro payload
    simp only [table, List.map_cons, List.map_nil]
    decide
  · exact fun _ _ => rfl
  · intro a b h
    cases a
    cases b
    simpa [table, FxTermsRequest.json_injective.eq_iff] using h

theorem AmendPayload.table_injective :
    Function.Injective fun payload : AmendPayload => (ofTable payload.table : Json) := by
  apply ofTable_injective table
  · intro payload
    simp only [table, List.map_cons, List.map_nil]
    decide
  · exact fun _ _ => rfl
  · intro a b h
    simp only [table, List.cons.injEq, Prod.mk.injEq, Option.some.injEq, Value.string.injEq,
      true_and, and_true, FxTermsRequest.json_injective.eq_iff,
      ReversalTexts.table_injective.eq_iff, ConfirmationTexts.table_injective.eq_iff] at h
    cases a
    cases b
    simp_all

end Browser

namespace Browser.RequestBody

theorem payload_bookTrade {payload : BookPayload} {value : BookTradeCommand} :
    (bookTrade payload).payload = payloadJson (.bookTrade value) ↔ value.request = payload := by
  have hrequest : payloadJson (.bookTrade value) = ofTable value.request.table := rfl
  rw [hrequest, eq_comm, RequestBody.payload]
  exact BookPayload.table_injective.eq_iff

theorem payload_amendTrade {version : Bytes} {payload : AmendPayload} {value : AmendTradeCommand} :
    (amendTrade version payload).payload = payloadJson (.amendTrade value) ↔
      value.request = payload := by
  have hrequest : payloadJson (.amendTrade value) = ofTable value.request.table := rfl
  rw [hrequest, eq_comm, RequestBody.payload]
  exact AmendPayload.table_injective.eq_iff

theorem payload_runEod {asOfDate : Bytes} {value : RunEodCommand} :
    (runEod asOfDate).payload = payloadJson (.runEod value) ↔
      value.asOfDate.toString = asOfDate := by
  have hrequest : payloadJson (.runEod value) =
      (ofTable [("asOfDate", some (.string value.asOfDate.toString))] : Json) := rfl
  rw [hrequest, RequestBody.payload,
    ofTable_inj (by simp only [List.map_cons, List.map_nil]; decide) (by rfl)]
  simp [eq_comm]

def action : RequestBody → TradeAction
  | .bookTrade _ => .bookTrade
  | .amendTrade _ _ => .amendTrade
  | .runEod _ => .runEod

theorem type_eq (body : RequestBody) : body.type = actionText body.action := by
  cases body <;> rfl

/-- The members of a document that depend on the command. The type tells the
constructor. -/
theorem request_eq_iff {body : RequestBody} {command : Command} :
    (body.type = actionText command.action ∧
      body.expectedVersion.map Value.string = command.version.map versionJson ∧
      body.payload = payloadJson command) ↔ command.request = some body := by
  rw [type_eq, actionText_injective.eq_iff]
  cases body with
  | bookTrade payload =>
    cases command with
    | bookTrade value =>
      simp [action, Command.action, RequestBody.expectedVersion, Command.version, Command.request,
        payload_bookTrade]
    | _ => simp [Command.request, action, Command.action]
  | amendTrade version payload =>
    cases command with
    | amendTrade value =>
      simp [action, Command.action, RequestBody.expectedVersion, Command.version, Command.request,
        payload_amendTrade, versionJson, versionText, eq_comm (a := version)]
    | _ => simp [Command.request, action, Command.action]
  | runEod asOfDate =>
    cases command with
    | runEod value =>
      simp [action, Command.action, RequestBody.expectedVersion, Command.version, Command.request,
        payload_runEod]
    | _ => simp [Command.request, action, Command.action]

end Browser.RequestBody

/-- The document of a request is that of a command just when the texts agree. -/
theorem Browser.CommandRequest.document_eq_iff {request : CommandRequest}
    {envelope : CommandEnvelope} : request.document = requestDocument envelope ↔
      request.commandId = envelope.commandId.value ∧
        envelope.command.request = some request.body := by
  have htables : request.document = requestDocument envelope ↔
      request.table = requestMembers envelope := by
    rw [ParsedJson.ext_iff]
    apply ofTable_inj
    · simp only [CommandRequest.table, List.map_cons, List.map_nil]
      decide
    · rfl
  rw [htables, ← RequestBody.request_eq_iff]
  simp only [CommandRequest.table, requestMembers, idJson, List.cons.injEq, Prod.mk.injEq,
    Option.some.injEq, Value.string.injEq, true_and, and_true]

/-- A document is decoded to the command that has it, or refused with violations. -/
theorem decodeCommandRequest_cases {parse : Bytes → Option ParsedJson} {body : Bytes}
    {document : ParsedJson} (hparse : parse body = some document) :
    (∃ envelope : CommandEnvelope, envelope.command.Versioned ∧
      document = requestDocument envelope ∧ decodeCommandRequest parse body = .ok envelope) ∨
    (∀ envelope : CommandEnvelope, envelope.command.Versioned →
      document ≠ requestDocument envelope) ∧
      ∃ violations, violations ≠ [] ∧
        decodeCommandRequest parse body = .error ⟨.validationFailed, violations⟩ := by
  by_cases hany : ∃ envelope : CommandEnvelope, envelope.command.Versioned ∧
      document = requestDocument envelope
  · left
    obtain ⟨envelope, hversioned, rfl⟩ := hany
    exact ⟨envelope, hversioned, rfl,
      HttpServer.decodeCommandRequest_document hversioned hparse⟩
  · right
    have hnone : ∀ envelope : CommandEnvelope, envelope.command.Versioned →
        document ≠ requestDocument envelope := by
      intro envelope hversioned heq
      exact hany ⟨envelope, hversioned, heq⟩
    refine ⟨hnone, ?_⟩
    have hreports : (parseEnvelope document.tree).reports ≠ [] := by
      apply (parseEnvelope_reads document.sorted).rejects
      intro envelope hread
      obtain ⟨_, ⟨rfl, hversioned⟩, htree⟩ := hread
      exact hnone envelope hversioned (ParsedJson.ext htree)
    obtain ⟨violation, violations, hcons⟩ := List.exists_cons_of_ne_nil hreports
    refine ⟨violation :: violations, List.cons_ne_nil _ _, ?_⟩
    unfold decodeCommandRequest
    rw [hparse]
    simp only [hcons]

/-- A command that names no version names no zero version. -/
theorem Command.Versioned.of_none {command : Command} (h : command.version = none) :
    command.Versioned := by
  intro version hversion
  rw [h] at hversion
  contradiction

section Decoding

variable {parse : Bytes → Option ParsedJson} {body : Bytes} {request : CommandRequest}
  (hparse : parse body = some request.document)
include hparse

theorem Browser.CommandRequest.decoded_iff {envelope : CommandEnvelope}
    (hversioned : envelope.command.Versioned) :
    decodeCommandRequest parse body = .ok envelope ↔
      request.commandId = envelope.commandId.value ∧
        envelope.command.request = some request.body := by
  rw [← document_eq_iff]
  constructor
  · intro hok
    rcases decodeCommandRequest_cases hparse with ⟨other, _, heq, hother⟩ | ⟨_, _, _, hrefused⟩
    · rw [hok] at hother
      obtain rfl := Except.ok.inj hother
      exact heq
    · rw [hok] at hrefused
      contradiction
  · intro heq
    exact HttpServer.decodeCommandRequest_document hversioned
      (hparse.trans (congrArg some heq))

theorem Browser.CommandRequest.refused (hnone : ∀ envelope : CommandEnvelope,
    envelope.command.Versioned → envelope.command.request ≠ some request.body) :
    ∃ violations, violations ≠ [] ∧
      decodeCommandRequest parse body = .error ⟨.validationFailed, violations⟩ := by
  rcases decodeCommandRequest_cases hparse with ⟨envelope, hversioned, heq, _⟩ | ⟨_, hrefused⟩
  · have hrequest := (document_eq_iff.mp heq).2
    exact absurd hrequest (hnone envelope hversioned)
  · exact hrefused

end Decoding

end Backbook
