import Backbook.ServerFieldReaders

namespace Backbook

open JsonTree
open DecimalText (numeral)
open Validation (Reads Guards)

def Command.action : Command → TradeAction
  | .bookTrade _ => .bookTrade
  | .confirmTrade _ => .confirmTrade
  | .amendTrade _ => .amendTrade
  | .cancelTrade _ => .cancelTrade
  | .runEod _ => .runEod

def actionText : TradeAction → Bytes
  | .bookTrade => "BOOK_TRADE"
  | .confirmTrade => "CONFIRM_TRADE"
  | .amendTrade => "AMEND_TRADE"
  | .cancelTrade => "CANCEL_TRADE"
  | .runEod => "RUN_EOD"

def Command.version : Command → Option UInt32
  | .bookTrade _ => none
  | .confirmTrade value => some value.expectedVersion
  | .amendTrade value => some value.expectedVersion
  | .cancelTrade value => some value.expectedVersion
  | .runEod _ => none

def idJson {tag : IdTag} (id : Id tag) : Option Json := some (.string id.value)

def versionJson (version : UInt32) : Json := .string (numeral version.toNat)

def bookPayload (value : BookTradeCommand) : List (Bytes × Option Json) :=
  [("tradeId", idJson value.tradeId), ("bookId", idJson value.bookId),
    ("counterpartyId", idJson value.counterpartyId), ("nettingSetId", idJson value.nettingSetId),
    ("terms", some (termsJson value.terms))]

def confirmPayload (value : ConfirmTradeCommand) : List (Bytes × Option Json) :=
  [("tradeId", idJson value.tradeId), ("postingIds", some (confirmationIdsJson value.postingIds))]

def amendPayload (value : AmendTradeCommand) : List (Bytes × Option Json) :=
  [("tradeId", idJson value.tradeId), ("replacementTerms", some (termsJson value.replacementTerms)),
    ("reversalPostingIds", some (reversalIdsJson value.reversalIds)),
    ("replacementPostingIds", some (confirmationIdsJson value.replacementPostingIds))]

def cancelPayload (value : CancelTradeCommand) : List (Bytes × Option Json) :=
  [("tradeId", idJson value.tradeId),
    ("reversalPostingIds", value.reversalIds.map reversalIdsJson)]

def eodPayload (value : RunEodCommand) : List (Bytes × Option Json) :=
  [("asOfDate", some (.string value.asOfDate.toString))]

def payloadJson : Command → Json
  | .bookTrade value => ofTable (bookPayload value)
  | .confirmTrade value => ofTable (confirmPayload value)
  | .amendTrade value => ofTable (amendPayload value)
  | .cancelTrade value => ofTable (cancelPayload value)
  | .runEod value => ofTable (eodPayload value)

def requestMembers (envelope : CommandEnvelope) : List (Bytes × Option Json) :=
  [("commandId", idJson envelope.commandId),
    ("type", some (.string (actionText envelope.command.action))),
    ("expectedVersion", envelope.command.version.map versionJson),
    ("payload", some (payloadJson envelope.command))]

def Command.Versioned (command : Command) : Prop := ∀ version ∈ command.version, version ≠ 0

variable {document payload : Json}

/-- A command that names no version, read behind the check that there is none. -/
theorem unversioned_reads {β : Type} {make : β → Command} {table : β → List (Bytes × Option Json)}
    {reader : Checked (Option Command)}
    (hreader : Reads reader fun command => ∃ value, command = make value ∧
      payload = ofTable (table value)) :
    Reads (do rejectExpectedVersion document; reader) fun command => ∃ value,
      (command = make value ∧ document.find "expectedVersion" = none) ∧
        payload = ofTable (table value) := by
  refine (Reads.guard (rejectExpectedVersion_guards document) fun _ => hreader).congr
    fun command => ?_
  constructor
  · rintro ⟨hversion, value, hcommand, heq⟩
    exact ⟨value, ⟨hcommand, hversion⟩, heq⟩
  · rintro ⟨value, ⟨hcommand, hversion⟩, heq⟩
    exact ⟨hversion, value, hcommand, heq⟩

theorem parseBookCommand_reads (hp : payload.Sorted) :
    Reads (parseBookCommand document payload) fun command => ∃ value,
      (command = .bookTrade value ∧ document.find "expectedVersion" = none) ∧
        payload = ofTable (bookPayload value) := by
  apply unversioned_reads
  apply fields_reads hp "$.payload"
  · decide
  · exact fun _ => rfl
  · intro ho
    refine (Reads.bind (parseId_reads ho .trade "tradeId" _) fun tradeId _ =>
      Reads.bind (parseId_reads ho .book "bookId" _) fun bookId _ =>
      Reads.bind (parseId_reads ho .counterparty "counterpartyId" _) fun counterpartyId _ =>
      Reads.bind (parseId_reads ho .nettingSet "nettingSetId" _) fun nettingSetId _ =>
      Reads.bind (requiredMember_reads ho "terms" _) fun termsJson hterms =>
      Reads.bind (parseTerms_reads (hp.find hterms) _) fun terms _ =>
      Reads.pure (Command.bookTrade
        ⟨tradeId, bookId, counterpartyId, nettingSetId, terms⟩)).congr fun command => ?_
    simp only [bookPayload, List.forall_mem_cons]
    constructor
    · rintro ⟨_, htrade, _, hbook, _, hcounterparty, _, hnetting, _, hterms, _, rfl, rfl⟩
      exact ⟨_, rfl, htrade, hbook, hcounterparty, hnetting, hterms, nofun⟩
    · rintro ⟨_, rfl, htrade, hbook, hcounterparty, hnetting, hterms, -⟩
      exact ⟨_, htrade, _, hbook, _, hcounterparty, _, hnetting, _, hterms, _, rfl, rfl⟩

theorem parseConfirmCommand_reads (hd : document.isObject = true) (hp : payload.Sorted) :
    Reads (parseConfirmCommand document payload) fun command => ∃ value,
      (command = .confirmTrade value ∧ value.expectedVersion ≠ 0 ∧
        document.find "expectedVersion" = some (versionJson value.expectedVersion)) ∧
        payload = ofTable (confirmPayload value) := by
  apply fields_reads hp "$.payload"
  · decide
  · exact fun _ => rfl
  · intro ho
    refine (Reads.bind (parseExpectedVersion_reads hd) fun version _ =>
      Reads.bind (parseId_reads ho .trade "tradeId" _) fun tradeId _ =>
      Reads.bind (requiredMember_reads ho "postingIds" _) fun postingJson hposting =>
      Reads.bind (parseConfirmationIds_reads (hp.find hposting) _) fun postingIds _ =>
      Reads.pure (Command.confirmTrade ⟨tradeId, version, postingIds⟩)).congr fun command => ?_
    simp only [confirmPayload, List.forall_mem_cons]
    constructor
    · rintro ⟨_, ⟨hne, hversion⟩, _, htrade, _, hposting, _, rfl, rfl⟩
      exact ⟨_, ⟨rfl, hne, hversion⟩, htrade, hposting, nofun⟩
    · rintro ⟨_, ⟨rfl, hne, hversion⟩, htrade, hposting, -⟩
      exact ⟨_, ⟨hne, hversion⟩, _, htrade, _, hposting, _, rfl, rfl⟩

theorem parseAmendCommand_reads (hd : document.isObject = true) (hp : payload.Sorted) :
    Reads (parseAmendCommand document payload) fun command => ∃ value,
      (command = .amendTrade value ∧ value.expectedVersion ≠ 0 ∧
        document.find "expectedVersion" = some (versionJson value.expectedVersion)) ∧
        payload = ofTable (amendPayload value) := by
  apply fields_reads hp "$.payload"
  · decide
  · exact fun _ => rfl
  · intro ho
    refine (Reads.bind (parseExpectedVersion_reads hd) fun version _ =>
      Reads.bind (parseId_reads ho .trade "tradeId" _) fun tradeId _ =>
      Reads.bind (requiredMember_reads ho "replacementTerms" _) fun termsJson hterms =>
      Reads.bind (requiredMember_reads ho "reversalPostingIds" _) fun reversalJson hreversal =>
      Reads.bind (requiredMember_reads ho "replacementPostingIds" _)
        fun replacementJson hreplacement =>
      Reads.bind (parseTerms_reads (hp.find hterms) _) fun terms _ =>
      Reads.bind (parseReversalIds_reads (hp.find hreversal) _) fun reversalIds _ =>
      Reads.bind (parseConfirmationIds_reads (hp.find hreplacement) _) fun replacementIds _ =>
      Reads.pure (Command.amendTrade
        ⟨tradeId, version, terms, reversalIds, replacementIds⟩)).congr fun command => ?_
    simp only [amendPayload, List.forall_mem_cons]
    constructor
    · rintro ⟨_, ⟨hne, hversion⟩, _, htrade, _, hterms, _, hreversal, _, hreplacement,
        _, rfl, _, rfl, _, rfl, rfl⟩
      exact ⟨_, ⟨rfl, hne, hversion⟩, htrade, hterms, hreversal, hreplacement, nofun⟩
    · rintro ⟨_, ⟨rfl, hne, hversion⟩, htrade, hterms, hreversal, hreplacement, -⟩
      exact ⟨_, ⟨hne, hversion⟩, _, htrade, _, hterms, _, hreversal, _, hreplacement,
        _, rfl, _, rfl, _, rfl, rfl⟩

/-- Reversal identifiers may be missing, but not be wrong. -/
theorem optionalReversal_reads (hp : payload.Sorted) (tradeId : TradeId) (version : UInt32) :
    Reads (do
      let reversalIds ← readMember (payload.find "reversalPostingIds") fun json =>
        parseReversalIds json "$.payload.reversalPostingIds"
      match some version, some tradeId with
      | some version, some tradeId =>
        if (payload.find "reversalPostingIds").isSome && reversalIds.isNone then pure none
        else pure (some (Command.cancelTrade ⟨tradeId, version, reversalIds⟩))
      | _, _ => pure none) fun command => ∃ reversalIds,
        payload.find "reversalPostingIds" = reversalIds.map reversalIdsJson ∧
          command = .cancelTrade ⟨tradeId, version, reversalIds⟩ := by
  cases hfind : payload.find "reversalPostingIds" with
  | none =>
    refine Reads.pure_of ⟨none, rfl, rfl⟩ ?_
    rintro _ ⟨reversalIds, hnone, rfl⟩
    obtain rfl := Option.map_eq_none_iff.mp hnone.symm
    rfl
  | some json =>
    refine (Reads.bind (parseReversalIds_reads (hp.find hfind) _) fun reversalIds _ =>
      Reads.pure (Command.cancelTrade ⟨tradeId, version, some reversalIds⟩)).congr
        fun command => ?_
    constructor
    · rintro ⟨reversalIds, rfl, rfl⟩
      exact ⟨some reversalIds, rfl, rfl⟩
    · rintro ⟨reversalIds, hsome, rfl⟩
      obtain ⟨ids, rfl, rfl⟩ := Option.map_eq_some_iff.mp hsome.symm
      exact ⟨ids, rfl, rfl⟩

theorem parseCancelCommand_reads (hd : document.isObject = true) (hp : payload.Sorted) :
    Reads (parseCancelCommand document payload) fun command => ∃ value,
      (command = .cancelTrade value ∧ value.expectedVersion ≠ 0 ∧
        document.find "expectedVersion" = some (versionJson value.expectedVersion)) ∧
        payload = ofTable (cancelPayload value) := by
  apply fields_reads hp "$.payload"
  · decide
  · exact fun _ => rfl
  · intro ho
    refine (Reads.bind (parseExpectedVersion_reads hd) fun version _ =>
      Reads.bind (parseId_reads ho .trade "tradeId" _) fun tradeId _ =>
      optionalReversal_reads hp tradeId version).congr fun command => ?_
    simp only [cancelPayload, List.forall_mem_cons]
    constructor
    · rintro ⟨_, ⟨hne, hversion⟩, _, htrade, _, hreversal, rfl⟩
      exact ⟨_, ⟨rfl, hne, hversion⟩, htrade, hreversal, nofun⟩
    · rintro ⟨_, ⟨rfl, hne, hversion⟩, htrade, hreversal, -⟩
      exact ⟨_, ⟨hne, hversion⟩, _, htrade, _, hreversal, rfl⟩

theorem parseEodCommand_reads (hp : payload.Sorted) :
    Reads (parseEodCommand document payload) fun command => ∃ value,
      (command = .runEod value ∧ document.find "expectedVersion" = none) ∧
        payload = ofTable (eodPayload value) := by
  apply unversioned_reads
  apply fields_reads hp "$.payload"
  · decide
  · exact fun _ => rfl
  · intro ho
    refine (Reads.bind (parseDate_reads ho "asOfDate" _) fun date _ =>
      Reads.pure (Command.runEod ⟨date⟩)).congr fun command => ?_
    simp only [eodPayload, List.forall_mem_cons]
    constructor
    · rintro ⟨_, hdate, rfl⟩
      exact ⟨_, rfl, hdate, nofun⟩
    · rintro ⟨_, rfl, hdate, -⟩
      exact ⟨_, hdate, rfl⟩

theorem actionText_injective : Function.Injective actionText := by
  intro a b h
  cases a <;> cases b <;> first | rfl | exact absurd h (by decide)

/-- One branch of the decoder. Its type fixes the constructor of the command, and
the constructor says whether a version is expected. -/
theorem commandBranch_reads (action : TradeAction) {α : Type} {mk : α → Command} {type : Bytes}
    {P : α → Prop} {payloadOf : α → Json} {reader : Checked (Option Command)}
    (hreader : Reads reader fun command => ∃ value,
      (command = mk value ∧ P value) ∧ payload = payloadOf value)
    (htype : type = actionText action)
    (hmk : ∀ command : Command, command.action = action ↔ ∃ value, command = mk value)
    (hP : ∀ value, P value ↔ (mk value).Versioned ∧
      document.find "expectedVersion" = (mk value).version.map versionJson)
    (hpayload : ∀ value, payloadOf value = payloadJson (mk value)) :
    Reads reader fun command => type = actionText command.action ∧ command.Versioned ∧
      document.find "expectedVersion" = command.version.map versionJson ∧
      payload = payloadJson command := by
  refine hreader.congr fun command => ?_
  constructor
  · rintro ⟨value, ⟨rfl, hvalue⟩, heq⟩
    obtain ⟨hversioned, hfind⟩ := (hP value).mp hvalue
    have haction : (mk value).action = action := (hmk _).mpr ⟨value, rfl⟩
    exact ⟨by rw [haction, htype], hversioned, hfind, heq.trans (hpayload value)⟩
  · rintro ⟨hcommand, hversioned, hfind, heq⟩
    have haction : action = command.action := actionText_injective (htype.symm.trans hcommand)
    obtain ⟨value, rfl⟩ := (hmk command).mp haction.symm
    exact ⟨value, ⟨rfl, (hP value).mpr ⟨hversioned, hfind⟩⟩, heq.trans (hpayload value).symm⟩

theorem parseCommand_reads (hd : document.isObject = true) (hp : payload.Sorted) (type : Bytes) :
    Reads (parseCommand type document payload) fun command =>
      type = actionText command.action ∧ command.Versioned ∧
        document.find "expectedVersion" = command.version.map versionJson ∧
        payload = payloadJson command := by
  unfold parseCommand
  split_ifs with hbook hconfirm hamend hcancel heod
  · refine commandBranch_reads .bookTrade (parseBookCommand_reads hp) hbook ?_ ?_ fun _ => rfl
    · intro command
      cases command <;> simp [Command.action]
    · simp [Command.Versioned, Command.version]
  · refine commandBranch_reads .confirmTrade (parseConfirmCommand_reads hd hp) hconfirm ?_ ?_
      fun _ => rfl
    · intro command
      cases command <;> simp [Command.action]
    · simp [Command.Versioned, Command.version]
  · refine commandBranch_reads .amendTrade (parseAmendCommand_reads hd hp) hamend ?_ ?_ fun _ => rfl
    · intro command
      cases command <;> simp [Command.action]
    · simp [Command.Versioned, Command.version]
  · refine commandBranch_reads .cancelTrade (parseCancelCommand_reads hd hp) hcancel ?_ ?_
      fun _ => rfl
    · intro command
      cases command <;> simp [Command.action]
    · simp [Command.Versioned, Command.version]
  · refine commandBranch_reads .runEod (parseEodCommand_reads hp) heod ?_ ?_ fun _ => rfl
    · intro command
      cases command <;> simp [Command.action]
    · simp [Command.Versioned, Command.version]
  · refine rejectField_reads _ _ ?_
    rintro command ⟨htype, -⟩
    cases command with
    | bookTrade value => exact hbook htype
    | confirmTrade value => exact hconfirm htype
    | amendTrade value => exact hamend htype
    | cancelTrade value => exact hcancel htype
    | runEod value => exact heod htype

theorem actionText_length (action : TradeAction) :
    (actionText action).length ≤ maximumTypeLength := by
  cases action <;> decide

theorem parseEnvelope_reads (hs : document.Sorted) :
    Reads (parseEnvelope document) fun envelope => ∃ e,
      (envelope = e ∧ e.command.Versioned) ∧ document = ofTable (requestMembers e) := by
  apply fields_reads hs "$"
  · decide
  · exact fun _ => rfl
  · intro ho
    refine (Reads.bind (parseId_reads ho .command "commandId" _) fun commandId _ =>
      Reads.bind (requiredString_reads ho "type" _ _) fun type _ =>
      Reads.bind (requiredMember_reads ho "payload" _) fun payload hpayload =>
      Reads.bind (parseCommand_reads ho (hs.find hpayload) type) fun command _ =>
      Reads.pure (CommandEnvelope.mk commandId command)).congr fun envelope => ?_
    simp only [requestMembers, List.forall_mem_cons]
    constructor
    · rintro ⟨_, hid, _, ⟨htype, -⟩, _, hpayload, _, ⟨rfl, hversioned, hversion, rfl⟩, rfl⟩
      exact ⟨_, ⟨rfl, hversioned⟩, hid, htype, hversion, hpayload, nofun⟩
    · rintro ⟨_, ⟨rfl, hversioned⟩, hid, htype, hversion, hpayload, -⟩
      exact ⟨_, hid, _, ⟨htype, actionText_length _⟩, _, hpayload, _,
        ⟨rfl, hversioned, hversion, rfl⟩, rfl⟩

theorem moneyJson_sorted (money : Money) : (moneyJson money).Sorted := by
  apply sorted_ofTable (by simp only [List.map_cons, List.map_nil]; decide)
  simp [Value.Sorted.string]

theorem termsJson_sorted (terms : FxTerms) : (termsJson terms).Sorted := by
  apply sorted_ofTable (by simp only [List.map_cons, List.map_nil]; decide)
  simp [Value.Sorted.string, moneyJson_sorted]

theorem confirmationIdsJson_sorted (ids : ConfirmationPostingIds) :
    (confirmationIdsJson ids).Sorted := by
  apply sorted_ofTable (by simp only [List.map_cons, List.map_nil]; decide)
  simp [Value.Sorted.string]

theorem reversalIdsJson_sorted (ids : ReversalPostingIds) : (reversalIdsJson ids).Sorted := by
  apply sorted_ofTable (by simp only [List.map_cons, List.map_nil]; decide)
  simp [Value.Sorted.string]

theorem payloadJson_sorted (command : Command) : (payloadJson command).Sorted := by
  cases command with
  | bookTrade value =>
    apply sorted_ofTable (by simp only [bookPayload, List.map_cons, List.map_nil]; decide)
    simp [bookPayload, idJson, Value.Sorted.string, termsJson_sorted]
  | confirmTrade value =>
    apply sorted_ofTable (by simp only [confirmPayload, List.map_cons, List.map_nil]; decide)
    simp [confirmPayload, idJson, Value.Sorted.string, confirmationIdsJson_sorted]
  | amendTrade value =>
    apply sorted_ofTable (by simp only [amendPayload, List.map_cons, List.map_nil]; decide)
    simp [amendPayload, idJson, Value.Sorted.string, termsJson_sorted, reversalIdsJson_sorted,
      confirmationIdsJson_sorted]
  | cancelTrade value =>
    apply sorted_ofTable (by simp only [cancelPayload, List.map_cons, List.map_nil]; decide)
    simp [cancelPayload, idJson, Value.Sorted.string, reversalIdsJson_sorted]
  | runEod value =>
    apply sorted_ofTable (by simp only [eodPayload, List.map_cons, List.map_nil]; decide)
    simp [eodPayload, Value.Sorted.string]

theorem requestMembers_sorted (envelope : CommandEnvelope) :
    (ofTable (requestMembers envelope)).Sorted := by
  apply sorted_ofTable (by simp only [requestMembers, List.map_cons, List.map_nil]; decide)
  simp [requestMembers, idJson, versionJson, Value.Sorted.string, payloadJson_sorted]

/-- The documented JSON object of a command. -/
def requestDocument (envelope : CommandEnvelope) : ParsedJson :=
  ⟨ofTable (requestMembers envelope), requestMembers_sorted envelope⟩

/-- The decoder accepts exactly one document for each command, and reports a
violation for every other one. -/
theorem request_documents_exact (parse : Bytes → Option ParsedJson) (body : Bytes)
    (document : ParsedJson) (hparse : parse body = some document) :
    (∀ e : CommandEnvelope, e.command.Versioned → document = requestDocument e →
      decodeCommandRequest parse body = .ok e) ∧
    (∀ e, decodeCommandRequest parse body = .ok e →
      e.command.Versioned ∧ document = requestDocument e) ∧
    ((∀ e : CommandEnvelope, e.command.Versioned → document ≠ requestDocument e) →
      ∃ violations, violations ≠ [] ∧
        decodeCommandRequest parse body = .error ⟨.validationFailed, violations⟩) := by
  have hreads : Reads (parseEnvelope document.tree) fun e =>
      e.command.Versioned ∧ document = requestDocument e := by
    refine (parseEnvelope_reads document.sorted).congr fun e => ?_
    constructor
    · rintro ⟨_, ⟨rfl, hversioned⟩, htree⟩
      exact ⟨hversioned, ParsedJson.ext htree⟩
    · rintro ⟨hversioned, heq⟩
      exact ⟨e, ⟨rfl, hversioned⟩, congrArg ParsedJson.tree heq⟩
  unfold decodeCommandRequest
  rw [hparse]
  dsimp only
  refine ⟨fun e hversioned heq => ?_, fun e hok => ?_, fun hnone => ?_⟩
  · rw [hreads.accepts e ⟨hversioned, heq⟩]
    rfl
  · cases hreports : (parseEnvelope document.tree).reports with
    | nil =>
      obtain ⟨e', he', hread⟩ := hreads.silent hreports
      rw [hread] at hok
      obtain rfl := Except.ok.inj hok
      exact he'
    | cons violation violations =>
      rw [hreports] at hok
      contradiction
  · have hreports := hreads.rejects fun e he => hnone e he.1 he.2
    obtain ⟨violation, violations, hcons⟩ := List.exists_cons_of_ne_nil hreports
    exact ⟨violation :: violations, List.cons_ne_nil _ _, by rw [hcons]⟩

def sampleEod : CommandEnvelope := ⟨⟨asciiBytes "C1", by decide⟩, .runEod ⟨⟨2026, 1, 2, by decide⟩⟩⟩

def sampleBody : Bytes :=
  asciiBytes "\x7b\"commandId\":\"C1\",\"type\":\"RUN_EOD\"," ++
    asciiBytes "\"payload\":\x7b\"asOfDate\":\"2026-01-02\"\x7d\x7d"

def sampleParse (body : Bytes) : Option ParsedJson :=
  if body = sampleBody then some (requestDocument sampleEod) else none

theorem request_documents_exact_sample :
    decodeCommandRequest sampleParse sampleBody = .ok sampleEod :=
  (request_documents_exact sampleParse sampleBody (requestDocument sampleEod) (if_pos rfl)).1
    sampleEod nofun rfl

end Backbook
