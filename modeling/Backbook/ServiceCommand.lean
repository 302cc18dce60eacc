import Backbook.JournalCodec

namespace Backbook

open ByteParser

def commandRequestFormatVersion : UInt8 := 1

structure BookTradeCommand where
  tradeId : TradeId
  bookId : BookId
  counterpartyId : CounterpartyId
  nettingSetId : NettingSetId
  terms : FxTerms
deriving DecidableEq

structure ConfirmTradeCommand where
  tradeId : TradeId
  expectedVersion : UInt32
  postingIds : ConfirmationPostingIds
deriving DecidableEq

structure AmendTradeCommand where
  tradeId : TradeId
  expectedVersion : UInt32
  replacementTerms : FxTerms
  reversalIds : ReversalPostingIds
  replacementPostingIds : ConfirmationPostingIds
deriving DecidableEq

structure CancelTradeCommand where
  tradeId : TradeId
  expectedVersion : UInt32
  reversalIds : Option ReversalPostingIds
deriving DecidableEq

structure RunEodCommand where
  asOfDate : IsoDate
deriving DecidableEq

inductive Command
  | bookTrade (value : BookTradeCommand)
  | confirmTrade (value : ConfirmTradeCommand)
  | amendTrade (value : AmendTradeCommand)
  | cancelTrade (value : CancelTradeCommand)
  | runEod (value : RunEodCommand)
deriving DecidableEq

structure CommandEnvelope where
  commandId : CommandId
  command : Command
deriving DecidableEq

inductive CommandEncodingError
  | sizeOverflow
deriving DecidableEq, Repr

inductive CanonicalCommandRequestError
  | empty | unsupportedVersion | malformed | commandIdMismatch | commandEventMismatch
deriving DecidableEq, Repr

def commandTag : Command → UInt8
  | .bookTrade _ => 1
  | .confirmTrade _ => 2
  | .amendTrade _ => 3
  | .cancelTrade _ => 4
  | .runEod _ => 5

def writeCommandFields : Command → Bytes
  | .bookTrade value =>
    writeId value.tradeId ++ (writeId value.bookId ++ (writeId value.counterpartyId ++
      (writeId value.nettingSetId ++ writeTerms value.terms)))
  | .confirmTrade value =>
    writeId value.tradeId ++ (writeU32 value.expectedVersion ++
      writeConfirmationIds value.postingIds)
  | .amendTrade value =>
    writeId value.tradeId ++ (writeU32 value.expectedVersion ++
      (writeTerms value.replacementTerms ++ (writeReversalIds value.reversalIds ++
        writeConfirmationIds value.replacementPostingIds)))
  | .cancelTrade value =>
    writeId value.tradeId ++ (writeU32 value.expectedVersion ++
      writeReversalOption value.reversalIds)
  | .runEod value => writeDate value.asOfDate

def writeCommand (command : Command) : Bytes :=
  writeU8 (commandTag command) ++ writeCommandFields command

def canonicalCommandBytes (envelope : CommandEnvelope) : Except CommandEncodingError Bytes :=
  if envelope.commandId.value.length > 65535 then .error .sizeOverflow
  else .ok (writeU8 commandRequestFormatVersion ++
    (writeId envelope.commandId ++ writeCommand envelope.command))

abbrev RequestReader := Parser CanonicalCommandRequestError

def malformed (_ : ℕ) : CanonicalCommandRequestError := .malformed

def Request.skip (count : ℕ) : RequestReader Unit := do
  let _ ← takeBytes count malformed
  pure ()

def Request.validId : Bytes → Bool
  | [] => false
  | first :: rest => isAsciiAlphanumeric first && rest.all isValidIdCharacter

def Request.readId : RequestReader Bytes := do
  let length ← readU16 malformed
  if length = 0 ∨ length > 64 then throw .malformed
  else do
    let value ← takeBytes length.toNat malformed
    if Request.validId value then pure value else throw .malformed

def Request.skipId : RequestReader Unit := do
  let _ ← Request.readId
  pure ()

def Request.readMoney : RequestReader Unit := do
  let currency ← readU8 malformed
  if currency ≤ 2 then Request.skip 8 else throw .malformed

def Request.readTerms : RequestReader Unit := do
  let instrument ← readU8 malformed
  if instrument ≤ 1 then do
    Request.skip (4 * 2)
    Request.readMoney
    Request.readMoney
  else throw .malformed

def Request.readPostingIds : RequestReader Unit := do
  Request.skipId
  Request.skipId
  Request.skipId
  Request.skipId

def Request.readCommandBody (tag : UInt8) : RequestReader Unit :=
  if tag = 1 then do
    Request.skipId
    Request.skipId
    Request.skipId
    Request.skipId
    Request.readTerms
  else if tag = 2 then do
    Request.skipId
    Request.skip 4
    Request.readPostingIds
  else if tag = 3 then do
    Request.skipId
    Request.skip 4
    Request.readTerms
    Request.readPostingIds
    Request.readPostingIds
  else if tag = 4 then do
    Request.skipId
    Request.skip 4
    let hasReversalIds ← readU8 malformed
    if hasReversalIds > 1 then throw .malformed
    else if hasReversalIds = 0 then pure ()
    else Request.readPostingIds
  else if tag = 5 then Request.skip 4
  else throw .malformed

def validateCanonicalCommandRequest (bytes : Bytes) (expectedCommandId : CommandId) :
    Except CanonicalCommandRequestError UInt8 :=
  if bytes = [] then .error .empty
  else complete (do
    let version ← readU8 fun _ => .empty
    if version ≠ commandRequestFormatVersion then throw .unsupportedVersion
    else do
      let encodedCommandId ← Request.readId
      if encodedCommandId ≠ expectedCommandId.value then throw .commandIdMismatch
      else do
        let tag ← readU8 malformed
        Request.readCommandBody tag
        pure tag) (fun _ _ => .malformed) bytes

theorem Id.validId {tag : IdTag} (id : Id tag) : Request.validId id.value = true := by
  obtain ⟨first, rest, hv, _, hfirst, hrest⟩ := id.value_shape
  rw [hv, Request.validId, hfirst, hrest]
  rfl

theorem consumes_readId {tag : IdTag} (id : Id tag) :
    Consumes Request.readId (writeId id) id.value := by
  apply ((exact_readU16 _).consumes trivial).bind
  have hne : ¬(UInt16.ofNat id.value.length = 0 ∨ UInt16.ofNat id.value.length > 64) := by
    have hpos := List.length_pos_of_ne_nil id.value_ne_nil
    have hle := id.length_le
    have hn := id.writeU16_length
    rintro (hz | hgt)
    · rw [hz] at hn
      simp only [UInt16.toNat_zero] at hn
      omega
    · have hlt := UInt16.lt_iff_toNat_lt.mp hgt
      rw [hn] at hlt
      have h64 : (64 : UInt16).toNat = 64 := rfl
      omega
  rw [if_neg hne]
  apply (consumes_takeBytes id.writeU16_length.symm).last
  rw [id.validId, if_pos rfl]
  exact consumes_pure _

theorem consumes_skipId {tag : IdTag} (id : Id tag) :
    Consumes Request.skipId (writeId id) () :=
  (consumes_readId id).last (consumes_pure _)

theorem consumes_skip {count : ℕ} {bytes : Bytes} (h : bytes.length = count) :
    Consumes (Request.skip count) bytes () :=
  (consumes_takeBytes h).last (consumes_pure _)

theorem consumes_readMoney (money : Money) : Consumes Request.readMoney (writeMoney money) () := by
  apply ((exact_readU8 _).consumes trivial).bind
  have hle : money.currency.code ≤ 2 := by
    cases money.currency <;> decide
  rw [if_pos hle]
  exact consumes_skip (leBytes_length 8 _)

theorem consumes_readTerms (terms : FxTerms) :
    Consumes Request.readTerms (writeTerms terms) () := by
  apply ((exact_readU8 _).consumes trivial).bind
  have hle : terms.kind.code ≤ 1 := by
    cases terms.kind <;> decide
  rw [if_pos hle, ← List.append_assoc]
  -- The two dates are skipped together.
  apply Consumes.bind (a := ())
  · exact consumes_skip (by simp [writeDate, writeI32, writeU32])
  · exact (consumes_readMoney _).bind (consumes_readMoney _)

theorem consumes_readPostingIds (a b c d : PostingId) :
    Consumes Request.readPostingIds (writeFourIds a b c d) () := by
  apply (consumes_skipId a).bind
  apply (consumes_skipId b).bind
  exact (consumes_skipId c).bind (consumes_skipId d)

theorem consumes_skipVersion (version : UInt32) :
    Consumes (Request.skip 4) (writeU32 version) () :=
  consumes_skip (leBytes_length 4 _)

theorem consumes_readCommandBody (command : Command) :
    Consumes (Request.readCommandBody (commandTag command)) (writeCommandFields command) () := by
  cases command with
  | bookTrade value =>
    apply (consumes_skipId _).bind
    apply (consumes_skipId _).bind
    apply (consumes_skipId _).bind
    exact (consumes_skipId _).bind (consumes_readTerms _)
  | confirmTrade value =>
    apply (consumes_skipId _).bind
    exact (consumes_skipVersion _).bind (consumes_readPostingIds _ _ _ _)
  | amendTrade value =>
    apply (consumes_skipId _).bind
    apply (consumes_skipVersion _).bind
    apply (consumes_readTerms _).bind
    exact (consumes_readPostingIds _ _ _ _).bind (consumes_readPostingIds _ _ _ _)
  | cancelTrade value =>
    apply (consumes_skipId _).bind
    apply (consumes_skipVersion _).bind
    apply ((exact_readU8 _).consumes trivial).bind
    rcases value.reversalIds with _ | ids
    · exact consumes_pure _
    · exact consumes_readPostingIds _ _ _ _
  | runEod value => exact consumes_skip (leBytes_length 4 _)

/-- What the service writes for a request, recovery accepts for that command. -/
theorem validate_canonicalCommandBytes {envelope : CommandEnvelope} {bytes : Bytes}
    (h : canonicalCommandBytes envelope = .ok bytes) :
    validateCanonicalCommandRequest bytes envelope.commandId =
      .ok (commandTag envelope.command) := by
  unfold canonicalCommandBytes at h
  split_ifs at h
  obtain rfl := Except.ok.inj h
  unfold validateCanonicalCommandRequest
  rw [if_neg (by simp [writeU8, leBytes])]
  apply Consumes.complete
  apply ((exact_readU8 _).consumes trivial).bind
  rw [if_neg (not_not.mpr rfl)]
  apply (consumes_readId _).bind
  rw [if_neg (not_not.mpr rfl)]
  apply ((exact_readU8 _).consumes trivial).bind
  exact (consumes_readCommandBody _).last (consumes_pure _)

/-- An identifier is never too long for its length prefix. -/
theorem canonicalCommandBytes_eq (envelope : CommandEnvelope) :
    canonicalCommandBytes envelope = .ok (writeU8 commandRequestFormatVersion ++
      (writeId envelope.commandId ++ writeCommand envelope.command)) := by
  have hle := envelope.commandId.length_le
  rw [canonicalCommandBytes, if_neg (by omega)]

def Command.event : Command → Event
  | .bookTrade value => .tradeBooked ⟨value.tradeId, value.bookId, value.counterpartyId,
      value.nettingSetId, value.terms⟩
  | .confirmTrade value => .tradeConfirmed ⟨value.tradeId, value.expectedVersion, value.postingIds⟩
  | .amendTrade value => .tradeAmended ⟨value.tradeId, value.expectedVersion,
      value.replacementTerms, value.reversalIds, value.replacementPostingIds⟩
  | .cancelTrade value => .tradeCancelled ⟨value.tradeId, value.expectedVersion, value.reversalIds⟩
  | .runEod value => .eodRun ⟨value.asOfDate⟩

theorem Command.event_injective : Function.Injective Command.event := by
  intro a b h
  rcases a with ⟨⟨⟩⟩ | ⟨⟨⟩⟩ | ⟨⟨⟩⟩ | ⟨⟨⟩⟩ | ⟨⟨⟩⟩ <;>
    rcases b with ⟨⟨⟩⟩ | ⟨⟨⟩⟩ | ⟨⟨⟩⟩ | ⟨⟨⟩⟩ | ⟨⟨⟩⟩ <;> simp_all [Command.event]

theorem commandTag_eq (command : Command) : commandTag command = eventTag command.event := by
  cases command <;> rfl

theorem writeCommandFields_eq (command : Command) :
    writeCommandFields command = writeEvent command.event := by
  cases command <;> rfl

/-- Equal requests are requests for the same command under the same identifier. -/
theorem canonicalCommandBytes_injective {first second : CommandEnvelope} {bytes : Bytes}
    (hf : canonicalCommandBytes first = .ok bytes) (hs : canonicalCommandBytes second = .ok bytes) :
    first = second := by
  rw [canonicalCommandBytes_eq] at hf hs
  have hbytes := (Except.ok.inj hf).trans (Except.ok.inj hs).symm
  have hfields := List.append_cancel_left hbytes
  obtain ⟨hid, hcommand⟩ := (exact_readId .command).append_inj trivial trivial hfields
  have hparts := (exact_readU8 malformed).append_inj trivial trivial hcommand
  obtain ⟨htag, hbody⟩ := hparts
  rw [writeCommandFields_eq, writeCommandFields_eq] at hbody
  rw [commandTag_eq, commandTag_eq] at htag
  have hbody' : writeEvent first.command.event ++ [] = writeEvent second.command.event ++ [] := by
    rw [hbody]
  have hevent := ((exact_readEvent (eventTag second.command.event)).append_inj htag rfl hbody').1
  rcases first with ⟨id, command⟩
  rcases second with ⟨id', command'⟩
  simp only at hid hevent
  rw [hid, Command.event_injective hevent]

end Backbook
