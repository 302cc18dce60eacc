import Backbook.JournalFields

namespace Backbook

open ByteParser

structure EncodedVariant where
  tag : UInt8
  body : Bytes
deriving DecidableEq

def eventFormatVersion : UInt8 := 1

def resultFormatVersion : UInt8 := 1

def maximumPayloadLength : ℕ := 64 * 1024 * 1024

def writeTradeBookedEvent (value : TradeBookedEvent) : Bytes :=
  writeId value.tradeId ++ (writeId value.bookId ++ (writeId value.counterpartyId ++
    (writeId value.nettingSetId ++ writeTerms value.terms)))

def readTradeBookedEvent : Reader TradeBookedEvent := do
  let tradeId ← readId .trade
  let bookId ← readId .book
  let counterpartyId ← readId .counterparty
  let nettingSetId ← readId .nettingSet
  let terms ← readTerms
  pure ⟨tradeId, bookId, counterpartyId, nettingSetId, terms⟩

theorem exact_readTradeBookedEvent : Exact readTradeBookedEvent writeTradeBookedEvent := by
  apply (exact_readId .trade).field TradeBookedEvent.tradeId fun _ _ => trivial
  intro tradeId _
  apply (exact_readId .book).field TradeBookedEvent.bookId fun _ _ => trivial
  intro bookId _
  apply (exact_readId .counterparty).field TradeBookedEvent.counterpartyId fun _ _ => trivial
  intro counterpartyId _
  apply (exact_readId .nettingSet).field TradeBookedEvent.nettingSetId fun _ _ => trivial
  intro nettingSetId _
  apply exact_readTerms.lastField TradeBookedEvent.terms fun _ _ => trivial
  intro terms value _
  rcases value with ⟨a, b, c, d, e⟩
  simp [and_assoc]

def writeTradeConfirmedEvent (value : TradeConfirmedEvent) : Bytes :=
  writeId value.tradeId ++ (writeU32 value.expectedVersion ++ writeConfirmationIds value.postingIds)

def readTradeConfirmedEvent : Reader TradeConfirmedEvent := do
  let tradeId ← readId .trade
  let expectedVersion ← readU32 unexpectedEnd
  let ids ← readConfirmationIds
  pure ⟨tradeId, expectedVersion, ids⟩

theorem exact_readTradeConfirmedEvent :
    Exact readTradeConfirmedEvent writeTradeConfirmedEvent := by
  apply (exact_readId .trade).field TradeConfirmedEvent.tradeId fun _ _ => trivial
  intro tradeId _
  apply (exact_readU32 _).field TradeConfirmedEvent.expectedVersion fun _ _ => trivial
  intro expectedVersion _
  apply exact_readConfirmationIds.lastField TradeConfirmedEvent.postingIds fun _ _ => trivial
  intro ids value _
  rcases value with ⟨a, b, c⟩
  simp [and_assoc]

def writeTradeAmendedEvent (value : TradeAmendedEvent) : Bytes :=
  writeId value.tradeId ++ (writeU32 value.expectedVersion ++ (writeTerms value.replacementTerms ++
    (writeReversalIds value.reversalIds ++ writeConfirmationIds value.replacementPostingIds)))

def readTradeAmendedEvent : Reader TradeAmendedEvent := do
  let tradeId ← readId .trade
  let expectedVersion ← readU32 unexpectedEnd
  let terms ← readTerms
  let reversalIds ← readReversalIds
  let replacementIds ← readConfirmationIds
  pure ⟨tradeId, expectedVersion, terms, reversalIds, replacementIds⟩

theorem exact_readTradeAmendedEvent : Exact readTradeAmendedEvent writeTradeAmendedEvent := by
  apply (exact_readId .trade).field TradeAmendedEvent.tradeId fun _ _ => trivial
  intro tradeId _
  apply (exact_readU32 _).field TradeAmendedEvent.expectedVersion fun _ _ => trivial
  intro expectedVersion _
  apply exact_readTerms.field TradeAmendedEvent.replacementTerms fun _ _ => trivial
  intro terms _
  apply exact_readReversalIds.field TradeAmendedEvent.reversalIds fun _ _ => trivial
  intro reversalIds _
  apply exact_readConfirmationIds.lastField TradeAmendedEvent.replacementPostingIds
    fun _ _ => trivial
  intro replacementIds value _
  rcases value with ⟨a, b, c, d, e⟩
  simp [and_assoc]

def reversalFlag (reversalIds : Option ReversalPostingIds) : UInt8 :=
  if reversalIds.isSome then 1 else 0

def writeReversalOption (reversalIds : Option ReversalPostingIds) : Bytes :=
  writeU8 (reversalFlag reversalIds) ++ reversalIds.elim [] writeReversalIds

def readReversalOption : Reader (Option ReversalPostingIds) := do
  let hasReversal ← readU8 unexpectedEnd
  let offset ← position
  -- The offset is past the flag, which the error points to.
  if hasReversal > 1 then throw ⟨.invalidOptionalFlag, offset - 1, hasReversal.toNat⟩
  else if hasReversal = 1 then do
    let ids ← readReversalIds
    pure (some ids)
  else pure none

theorem exact_readReversalOption : Exact readReversalOption writeReversalOption := by
  apply (exact_readU8 _).field reversalFlag fun _ _ => trivial
  intro flag _
  apply ExactOn.at_position
  intro offset
  have hflag : ∀ o : Option ReversalPostingIds, reversalFlag o = 0 ∧ o = none ∨
      reversalFlag o = 1 ∧ o.isSome := by
    intro o
    cases o <;> simp [reversalFlag]
  split_ifs with hgt hone
  · -- No option has a flag above 1, so there is nothing to accept.
    apply ExactOn.refuse
    rintro o ⟨_, rfl⟩
    rcases hflag o with ⟨h, _⟩ | ⟨h, _⟩ <;> rw [h] at hgt <;> revert hgt <;> decide
  · apply exact_readReversalIds.variant some
    · intro o
      rcases o with _ | ids <;> simp [reversalFlag, hone]
    · intro ids _
      rfl
  · have hzero : flag = 0 := by
      have hle : flag.toNat ≤ 1 := by simpa [UInt8.lt_iff_toNat_lt] using hgt
      have hne : flag.toNat ≠ 1 := fun h => hone (UInt8.toNat_inj.mp h)
      apply UInt8.toNat_inj.mp
      simp only [UInt8.toNat_zero]
      omega
    intro i o k
    rw [ByteParser.pure_ok_iff]
    rcases o with _ | ids <;> simp [reversalFlag, hzero]

def writeTradeCancelledEvent (value : TradeCancelledEvent) : Bytes :=
  writeId value.tradeId ++ (writeU32 value.expectedVersion ++ writeReversalOption value.reversalIds)

def readTradeCancelledEvent : Reader TradeCancelledEvent := do
  let tradeId ← readId .trade
  let expectedVersion ← readU32 unexpectedEnd
  let reversalIds ← readReversalOption
  pure ⟨tradeId, expectedVersion, reversalIds⟩

theorem exact_readTradeCancelledEvent :
    Exact readTradeCancelledEvent writeTradeCancelledEvent := by
  apply (exact_readId .trade).field TradeCancelledEvent.tradeId fun _ _ => trivial
  intro tradeId _
  apply (exact_readU32 _).field TradeCancelledEvent.expectedVersion fun _ _ => trivial
  intro expectedVersion _
  apply exact_readReversalOption.lastField TradeCancelledEvent.reversalIds fun _ _ => trivial
  intro ids value _
  rcases value with ⟨a, b, c⟩
  simp [and_assoc]

def eventTag (event : Event) : UInt8 := UInt8.ofNat (event.index + 1)

def writeEvent : Event → Bytes
  | .tradeBooked value => writeTradeBookedEvent value
  | .tradeConfirmed value => writeTradeConfirmedEvent value
  | .tradeAmended value => writeTradeAmendedEvent value
  | .tradeCancelled value => writeTradeCancelledEvent value
  | .eodRun value => writeDate value.asOfDate

def encodeEvent (event : Event) : EncodedVariant :=
  ⟨eventTag event, writeU8 eventFormatVersion ++ writeEvent event⟩

def readEvent (tag : UInt8) : Reader Event :=
  if tag = 1 then do
    let value ← readTradeBookedEvent
    pure (.tradeBooked value)
  else if tag = 2 then do
    let value ← readTradeConfirmedEvent
    pure (.tradeConfirmed value)
  else if tag = 3 then do
    let value ← readTradeAmendedEvent
    pure (.tradeAmended value)
  else if tag = 4 then do
    let value ← readTradeCancelledEvent
    pure (.tradeCancelled value)
  else if tag = 5 then do
    let asOfDate ← readDate
    pure (.eodRun ⟨asOfDate⟩)
  else throw ⟨.invalidEventTag, 0, tag.toNat⟩

/-- Each tag reads the events that carry it and no others. -/
theorem exact_readEvent (tag : UInt8) :
    ExactOn (fun event => eventTag event = tag) (readEvent tag) writeEvent := by
  unfold readEvent
  split_ifs with h1 h2 h3 h4 h5
  · apply exact_readTradeBookedEvent.variant Event.tradeBooked
    · intro event
      cases event <;> simp [eventTag, Event.index, h1]
    · intro value _
      rfl
  · apply exact_readTradeConfirmedEvent.variant Event.tradeConfirmed
    · intro event
      cases event <;> simp [eventTag, Event.index, h2]
    · intro value _
      rfl
  · apply exact_readTradeAmendedEvent.variant Event.tradeAmended
    · intro event
      cases event <;> simp [eventTag, Event.index, h3]
    · intro value _
      rfl
  · apply exact_readTradeCancelledEvent.variant Event.tradeCancelled
    · intro event
      cases event <;> simp [eventTag, Event.index, h4]
    · intro value _
      rfl
  · apply exact_readDate.variant fun asOfDate => Event.eodRun ⟨asOfDate⟩
    · intro event
      rcases event with _ | _ | _ | _ | ⟨asOfDate⟩ <;> simp [eventTag, Event.index, h5]
    · intro value _
      rfl
  · apply ExactOn.refuse
    rintro event rfl
    cases event <;> simp [eventTag, Event.index] at h1 h2 h3 h4 h5

def trailingBytes (offset remaining : ℕ) : CodecError := ⟨.trailingBytes, offset, remaining⟩

def decodeEvent (tag : UInt8) (bytes : Bytes) : Except CodecError Event :=
  complete (do
    let version ← readU8 fun _ => unexpectedEnd 0
    if version ≠ eventFormatVersion then throw ⟨.unsupportedEventVersion, 0, version.toNat⟩
    else readEvent tag) trailingBytes bytes

theorem decodeEvent_ok_iff {tag : UInt8} {bytes : Bytes} {event : Event} :
    decodeEvent tag bytes = .ok event ↔ encodeEvent event = ⟨tag, bytes⟩ := by
  have hexact : ExactOn (fun event => eventTag event = tag) (do
      let version ← readU8 fun _ => unexpectedEnd 0
      if version ≠ eventFormatVersion then throw ⟨.unsupportedEventVersion, 0, version.toNat⟩
      else readEvent tag) fun event => (encodeEvent event).body := by
    apply (exact_readU8 _).field (fun _ => eventFormatVersion) fun _ _ => trivial
    intro version _
    split_ifs with hv
    · apply ExactOn.refuse
      rintro event ⟨_, h⟩
      exact hv h.symm
    · apply (exact_readEvent tag).congr
      · intro event
        have hv' : eventFormatVersion = version := (not_not.mp hv).symm
        exact ⟨fun h => ⟨h, hv'⟩, fun h => h.1⟩
      · intro event _
        rfl
  unfold decodeEvent
  rw [hexact.complete_ok_iff]
  simp only [encodeEvent, EncodedVariant.mk.injEq, eq_comm]

def writeTradeVersionResult (value : TradeId × UInt32 × UInt64) : Bytes :=
  writeId value.1 ++ (writeU32 value.2.1 ++ writeU64 value.2.2)

def writeTradeAmendedResult (value : TradeAmendedResult) : Bytes :=
  writeId value.tradeId ++ (writeU32 value.supersededVersion ++
    (writeU32 value.replacementVersion ++ writeU64 value.stateVersion))

def writeEodRunResult (value : EodRunResult) : Bytes :=
  writeDate value.asOfDate ++ (writeU32 value.settledTradeCount ++ writeU64 value.stateVersion)

def writeResult : CommandResult → Bytes
  | .tradeBooked value => writeTradeVersionResult (value.tradeId, value.version, value.stateVersion)
  | .tradeConfirmed value =>
    writeTradeVersionResult (value.tradeId, value.version, value.stateVersion)
  | .tradeAmended value => writeTradeAmendedResult value
  | .tradeCancelled value =>
    writeTradeVersionResult (value.tradeId, value.version, value.stateVersion)
  | .eodRun value => writeEodRunResult value

def resultTag : CommandResult → UInt8
  | .tradeBooked _ => 1
  | .tradeConfirmed _ => 2
  | .tradeAmended _ => 3
  | .tradeCancelled _ => 4
  | .eodRun _ => 5

def encodeResult (result : CommandResult) : EncodedVariant :=
  ⟨resultTag result, writeU8 resultFormatVersion ++ writeResult result⟩

def readTradeVersionResult : Reader (TradeId × UInt32 × UInt64) := do
  let tradeId ← readId .trade
  let version ← readU32 unexpectedEnd
  let stateVersion ← readU64 unexpectedEnd
  pure (tradeId, version, stateVersion)

theorem exact_readTradeVersionResult :
    Exact readTradeVersionResult writeTradeVersionResult := by
  apply (exact_readId .trade).field Prod.fst fun _ _ => trivial
  intro tradeId _
  apply (exact_readU32 _).field (fun value : TradeId × UInt32 × UInt64 => value.2.1)
    fun _ _ => trivial
  intro version _
  apply (exact_readU64 _).lastField (fun value : TradeId × UInt32 × UInt64 => value.2.2)
    fun _ _ => trivial
  intro stateVersion value _
  rcases value with ⟨a, b, c⟩
  simp [and_assoc]

def readTradeAmendedResult : Reader TradeAmendedResult := do
  let tradeId ← readId .trade
  let supersededVersion ← readU32 unexpectedEnd
  let replacementVersion ← readU32 unexpectedEnd
  let stateVersion ← readU64 unexpectedEnd
  pure ⟨tradeId, supersededVersion, replacementVersion, stateVersion⟩

theorem exact_readTradeAmendedResult :
    Exact readTradeAmendedResult writeTradeAmendedResult := by
  apply (exact_readId .trade).field TradeAmendedResult.tradeId fun _ _ => trivial
  intro tradeId _
  apply (exact_readU32 _).field TradeAmendedResult.supersededVersion fun _ _ => trivial
  intro supersededVersion _
  apply (exact_readU32 _).field TradeAmendedResult.replacementVersion fun _ _ => trivial
  intro replacementVersion _
  apply (exact_readU64 _).lastField TradeAmendedResult.stateVersion fun _ _ => trivial
  intro stateVersion value _
  rcases value with ⟨a, b, c, d⟩
  simp [and_assoc]

def readEodRunResult : Reader EodRunResult := do
  let asOfDate ← readDate
  let settledTradeCount ← readU32 unexpectedEnd
  let stateVersion ← readU64 unexpectedEnd
  pure ⟨asOfDate, settledTradeCount, stateVersion⟩

theorem exact_readEodRunResult : Exact readEodRunResult writeEodRunResult := by
  apply exact_readDate.field EodRunResult.asOfDate fun _ _ => trivial
  intro asOfDate _
  apply (exact_readU32 _).field EodRunResult.settledTradeCount fun _ _ => trivial
  intro settledTradeCount _
  apply (exact_readU64 _).lastField EodRunResult.stateVersion fun _ _ => trivial
  intro stateVersion value _
  rcases value with ⟨a, b, c⟩
  simp [and_assoc]

/-- Three results share one layout, which their tag tells apart. -/
def tradeVersionResult (tag : UInt8) (value : TradeId × UInt32 × UInt64) : CommandResult :=
  if tag = 1 then .tradeBooked ⟨value.1, value.2.1, value.2.2⟩
  else if tag = 2 then .tradeConfirmed ⟨value.1, value.2.1, value.2.2⟩
  else .tradeCancelled ⟨value.1, value.2.1, value.2.2⟩

def readResult (tagOffset : ℕ) (tag : UInt8) : Reader CommandResult :=
  if tag = 1 ∨ tag = 2 ∨ tag = 4 then do
    let value ← readTradeVersionResult
    pure (tradeVersionResult tag value)
  else if tag = 3 then do
    let value ← readTradeAmendedResult
    pure (.tradeAmended value)
  else if tag = 5 then do
    let value ← readEodRunResult
    pure (.eodRun value)
  else throw ⟨.invalidResultTag, tagOffset, tag.toNat⟩

theorem exact_readResult (tagOffset : ℕ) (tag : UInt8) :
    ExactOn (fun result => resultTag result = tag) (readResult tagOffset tag) writeResult := by
  unfold readResult
  split_ifs with h124 h3 h5
  · apply exact_readTradeVersionResult.variant
    · intro result
      rcases h124 with rfl | rfl | rfl <;>
        rcases result with ⟨a, b, c⟩ | ⟨a, b, c⟩ | _ | ⟨a, b, c⟩ | _ <;>
        simp [tradeVersionResult, resultTag]
    · intro value _
      rcases h124 with rfl | rfl | rfl <;> rfl
  · apply exact_readTradeAmendedResult.variant CommandResult.tradeAmended
    · intro result
      cases result <;> simp [resultTag, h3]
    · intro value _
      rfl
  · apply exact_readEodRunResult.variant CommandResult.eodRun
    · intro result
      cases result <;> simp [resultTag, h5]
    · intro value _
      rfl
  · apply ExactOn.refuse
    rintro result rfl
    cases result <;> simp [resultTag] at h124 h3 h5

def decodeResult : Reader CommandResult := do
  let tagOffset ← position
  let tag ← readU8 fun _ => unexpectedEnd tagOffset
  let version ← readU8 fun _ => unexpectedEnd tagOffset
  if version ≠ resultFormatVersion then
    throw ⟨.unsupportedResultVersion, tagOffset + 1, version.toNat⟩
  else readResult tagOffset tag

theorem exact_decodeResult : Exact decodeResult
    fun result => writeU8 (encodeResult result).tag ++ (encodeResult result).body := by
  apply ExactOn.at_position
  intro tagOffset
  apply (exact_readU8 _).field resultTag fun _ _ => trivial
  intro tag _
  apply (exact_readU8 _).field (fun _ => resultFormatVersion) fun _ _ => trivial
  intro version _
  split_ifs with hv
  · apply ExactOn.refuse
    rintro result ⟨_, h⟩
    exact hv h.symm
  · have hv' : resultFormatVersion = version := (not_not.mp hv).symm
    apply (exact_readResult tagOffset tag).congr
    · intro result
      simp [hv']
    · intro result _
      rfl

end Backbook
