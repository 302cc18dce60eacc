import Backbook.ByteParsers
import Backbook.JournalBatch

namespace Backbook

open ByteParser

inductive CodecErrorCode
  | sizeOverflow | unexpectedEnd | invalidMagic | unsupportedFrameVersion
  | unsupportedEventVersion | unsupportedResultVersion | invalidEventTag | invalidResultTag
  | invalidEnum | invalidId | invalidDate | invalidMoney | invalidTerms | invalidBatch
  | invalidOptionalFlag | crcMismatch | trailingBytes | malformedPayload | payloadTooLarge
deriving DecidableEq, Repr

structure CodecError where
  code : CodecErrorCode
  offset : ℕ
  detail : ℕ
deriving DecidableEq, Repr

def unexpectedEnd (offset : ℕ) : CodecError := ⟨.unexpectedEnd, offset, 0⟩

abbrev Reader := Parser CodecError

def writeU8 (value : UInt8) : Bytes := leBytes 1 value.toNat

def writeU16 (value : UInt16) : Bytes := leBytes 2 value.toNat

def writeU32 (value : UInt32) : Bytes := leBytes 4 value.toNat

def writeU64 (value : UInt64) : Bytes := leBytes 8 value.toNat

def writeI32 (value : Int32) : Bytes := writeU32 value.toUInt32

def writeI64 (value : Int64) : Bytes := writeU64 value.toUInt64

-- A short read moves nothing; its caller chooses the offset to report.
def readU8 {ε : Type} (short : ℕ → ε) : Parser ε UInt8 := do
  let value ← littleEndian 1 short
  pure (UInt8.ofNat value)

def readU16 {ε : Type} (short : ℕ → ε) : Parser ε UInt16 := do
  let value ← littleEndian 2 short
  pure (UInt16.ofNat value)

def readU32 (short : ℕ → CodecError) : Reader UInt32 := do
  let value ← littleEndian 4 short
  pure (UInt32.ofNat value)

def readU64 (short : ℕ → CodecError) : Reader UInt64 := do
  let value ← littleEndian 8 short
  pure (UInt64.ofNat value)

def readI32 (short : ℕ → CodecError) : Reader Int32 := do
  let encoded ← readU32 short
  pure encoded.toInt32

def readI64 (short : ℕ → CodecError) : Reader Int64 := do
  let encoded ← readU64 short
  pure encoded.toInt64

theorem exact_readU8 {ε : Type} (short : ℕ → ε) : Exact (readU8 short) writeU8 :=
  exact_littleEndian UInt8.toNat UInt8.ofNat (fun a => by simpa using a.toNat_lt)
    (fun a => by simp) (fun v hv => by simpa using Nat.mod_eq_of_lt hv)

theorem exact_readU16 {ε : Type} (short : ℕ → ε) : Exact (readU16 short) writeU16 :=
  exact_littleEndian UInt16.toNat UInt16.ofNat (fun a => by simpa using a.toNat_lt)
    (fun a => by simp) (fun v hv => by simpa using Nat.mod_eq_of_lt hv)

theorem exact_readU32 (short : ℕ → CodecError) : Exact (readU32 short) writeU32 :=
  exact_littleEndian UInt32.toNat UInt32.ofNat (fun a => by simpa using a.toNat_lt)
    (fun a => by simp) (fun v hv => by simpa using Nat.mod_eq_of_lt hv)

theorem exact_readU64 (short : ℕ → CodecError) : Exact (readU64 short) writeU64 :=
  exact_littleEndian UInt64.toNat UInt64.ofNat (fun a => by simpa using a.toNat_lt)
    (fun a => by simp) (fun v hv => by simpa using Nat.mod_eq_of_lt hv)

-- Signed values cross the format through bit casts, which lose nothing.
theorem exact_readI32 (short : ℕ → CodecError) : Exact (readI32 short) writeI32 := by
  apply (exact_readU32 short).lastField Int32.toUInt32 fun _ _ => trivial
  intro a b _
  constructor
  · rintro ⟨_, rfl⟩
    simp
  · rintro rfl
    simp

theorem exact_readI64 (short : ℕ → CodecError) : Exact (readI64 short) writeI64 := by
  apply (exact_readU64 short).lastField Int64.toUInt64 fun _ _ => trivial
  intro a b _
  constructor
  · rintro ⟨_, rfl⟩
    simp
  · rintro rfl
    simp

def writeCurrency (currency : Currency) : Bytes := writeU8 currency.code

def currencyOfTag (start : ℕ) (tag : UInt8) : Except CodecError Currency :=
  if tag = 0 then .ok .usd
  else if tag = 1 then .ok .jpy
  else if tag = 2 then .ok .kwd
  else .error ⟨.invalidEnum, start, tag.toNat⟩

def readCurrency : Reader Currency := do
  let start ← position
  let tag ← readU8 fun _ => unexpectedEnd start
  attempt (currencyOfTag start tag)

theorem currencyOfTag_ok_iff {start : ℕ} {tag : UInt8} {currency : Currency} :
    currencyOfTag start tag = .ok currency ↔ currency.code = tag := by
  unfold currencyOfTag
  split_ifs with h0 h1 h2 <;> cases currency <;> simp_all [Currency.code, eq_comm]

theorem exact_readCurrency : Exact readCurrency writeCurrency := by
  apply ExactOn.at_position
  intro start
  apply (exact_readU8 _).decoded Currency.code fun _ _ => trivial
  intro tag currency _
  rw [currencyOfTag_ok_iff, true_and]

def InstrumentKind.code : InstrumentKind → UInt8
  | .fxSpot => 0
  | .fxForward => 1

def writeInstrumentKind (kind : InstrumentKind) : Bytes := writeU8 kind.code

def instrumentKindOfTag (start : ℕ) (tag : UInt8) : Except CodecError InstrumentKind :=
  if tag = 0 then .ok .fxSpot
  else if tag = 1 then .ok .fxForward
  else .error ⟨.invalidEnum, start, tag.toNat⟩

def readInstrumentKind : Reader InstrumentKind := do
  let start ← position
  let tag ← readU8 fun _ => unexpectedEnd start
  attempt (instrumentKindOfTag start tag)

theorem instrumentKindOfTag_ok_iff {start : ℕ} {tag : UInt8} {kind : InstrumentKind} :
    instrumentKindOfTag start tag = .ok kind ↔ kind.code = tag := by
  unfold instrumentKindOfTag
  split_ifs with h0 h1 <;> cases kind <;> simp_all [InstrumentKind.code, eq_comm]

theorem exact_readInstrumentKind : Exact readInstrumentKind writeInstrumentKind := by
  apply ExactOn.at_position
  intro start
  apply (exact_readU8 _).decoded InstrumentKind.code fun _ _ => trivial
  intro tag kind _
  rw [instrumentKindOfTag_ok_iff, true_and]

def writeId {tag : IdTag} (id : Id tag) : Bytes :=
  writeU16 (UInt16.ofNat id.value.length) ++ id.value

def readId (tag : IdTag) : Reader (Id tag) := do
  let start ← position
  let size ← readU16 fun _ => unexpectedEnd start
  let encoded ← takeBytes size.toNat fun _ => unexpectedEnd start
  attempt ((Id.parse tag encoded).mapError fun e => ⟨.invalidId, start, e.ctorIdx⟩)

/-- The length of an identifier is at most 64, so the narrowing cast keeps it. -/
theorem Id.writeU16_length {tag : IdTag} (id : Id tag) :
    (UInt16.ofNat id.value.length).toNat = id.value.length := by
  have h := id.length_le
  rw [UInt16.toNat_ofNat']
  omega

theorem exact_readId (tag : IdTag) : Exact (readId tag) writeId := by
  apply ExactOn.at_position
  intro start
  apply (exact_readU16 _).field (fun id : Id tag => UInt16.ofNat id.value.length)
    fun _ _ => trivial
  intro size _
  apply (exact_takeBytes size.toNat _).decoded Id.value
  · rintro id ⟨_, rfl⟩
    exact id.writeU16_length.symm
  · -- The parser keeps the text, so only the length prefix is left to compare.
    intro encoded id hlen
    rw [Outcome.mapError_ok_iff, Id.parse_ok_iff, true_and]
    constructor
    · rintro rfl
      refine ⟨?_, rfl⟩
      rw [hlen, UInt16.ofNat_toNat]
    · rintro ⟨_, rfl⟩
      rfl

def writeDate (value : IsoDate) : Bytes := writeI32 value.toEpochDays

def readDate : Reader IsoDate := do
  let start ← position
  let epochDays ← readI32 fun _ => unexpectedEnd start
  attempt ((IsoDate.fromEpochDays epochDays).mapError fun e => ⟨.invalidDate, start, e.ctorIdx⟩)

theorem exact_readDate : Exact readDate writeDate := by
  apply ExactOn.at_position
  intro start
  apply (exact_readI32 _).decoded IsoDate.toEpochDays fun _ _ => trivial
  intro epochDays date _
  rw [Outcome.mapError_ok_iff, IsoDate.fromEpochDays_ok_iff, true_and, eq_comm]

def writeMoney (value : Money) : Bytes :=
  writeCurrency value.currency ++ writeI64 (Int64.ofInt value.minorUnits)

def readMoney : Reader Money := do
  let start ← position
  let currency ← readCurrency
  let minorUnits ← readI64 fun _ => unexpectedEnd start
  pure (Money.fromMinorUnits currency minorUnits)

theorem Money.fromMinorUnits_eq_iff {currency : Currency} {minorUnits : Int64} {money : Money} :
    money = Money.fromMinorUnits currency minorUnits ↔
      money.currency = currency ∧ Int64.ofInt money.minorUnits = minorUnits := by
  constructor
  · rintro rfl
    exact ⟨rfl, Int64.ofInt_toInt _⟩
  · rintro ⟨rfl, rfl⟩
    apply Money.ext
    · rfl
    · exact (Int64.toInt_ofInt_of_le money.inRange.1 money.inRange.2).symm

theorem exact_readMoney : Exact readMoney writeMoney := by
  apply ExactOn.at_position
  intro start
  apply exact_readCurrency.field Money.currency fun _ _ => trivial
  intro currency _
  apply (exact_readI64 _).lastField (fun money : Money => Int64.ofInt money.minorUnits)
    fun _ _ => trivial
  intro minorUnits money _
  rw [Money.fromMinorUnits_eq_iff, true_and]

def writeTerms (terms : FxTerms) : Bytes :=
  writeInstrumentKind terms.kind ++ (writeDate terms.tradeDate ++ (writeDate terms.valueDate ++
    (writeMoney terms.pay ++ writeMoney terms.receive)))

def readTerms : Reader FxTerms := do
  let start ← position
  let kind ← readInstrumentKind
  let tradeDate ← readDate
  let valueDate ← readDate
  let pay ← readMoney
  let receive ← readMoney
  attempt ((FxTerms.create kind tradeDate valueDate pay receive).mapError
    fun e => ⟨.invalidTerms, start, e.ctorIdx⟩)

theorem exact_readTerms : Exact readTerms writeTerms := by
  apply ExactOn.at_position
  intro start
  apply exact_readInstrumentKind.field FxTerms.kind fun _ _ => trivial
  intro kind _
  apply exact_readDate.field FxTerms.tradeDate fun _ _ => trivial
  intro tradeDate _
  apply exact_readDate.field FxTerms.valueDate fun _ _ => trivial
  intro valueDate _
  apply exact_readMoney.field FxTerms.pay fun _ _ => trivial
  intro pay _
  apply exact_readMoney.decoded FxTerms.receive fun _ _ => trivial
  intro receive terms _
  rw [Outcome.mapError_ok_iff, FxTerms.create_ok_iff]
  simp only [true_and, and_assoc, eq_comm]

def writeFourIds (a b c d : PostingId) : Bytes :=
  writeId a ++ (writeId b ++ (writeId c ++ writeId d))

def readFourIds {α : Type} (make : PostingId → PostingId → PostingId → PostingId → α) :
    Reader α := do
  let a ← readId .posting
  let b ← readId .posting
  let c ← readId .posting
  let d ← readId .posting
  pure (make a b c d)

theorem exact_readFourIds {α : Type} {make : PostingId → PostingId → PostingId → PostingId → α}
    (first second third fourth : α → PostingId)
    (hmake : ∀ ids a b c d, ids = make a b c d ↔
      first ids = a ∧ second ids = b ∧ third ids = c ∧ fourth ids = d) :
    Exact (readFourIds make) fun ids =>
      writeFourIds (first ids) (second ids) (third ids) (fourth ids) := by
  have hid := exact_readId .posting
  apply hid.field first fun _ _ => trivial
  intro a _
  apply hid.field second fun _ _ => trivial
  intro b _
  apply hid.field third fun _ _ => trivial
  intro c _
  apply hid.lastField fourth fun _ _ => trivial
  intro d ids _
  rw [hmake]
  simp only [true_and, and_assoc]

def writeConfirmationIds (ids : ConfirmationPostingIds) : Bytes :=
  writeFourIds ids.payControlDebit ids.payPayableCredit ids.receiveReceivableDebit
    ids.receiveControlCredit

def readConfirmationIds : Reader ConfirmationPostingIds := readFourIds ConfirmationPostingIds.mk

theorem exact_readConfirmationIds : Exact readConfirmationIds writeConfirmationIds := by
  apply exact_readFourIds
  intro ids a b c d
  rw [ConfirmationPostingIds.ext_iff]

def writeReversalIds (ids : ReversalPostingIds) : Bytes :=
  writeFourIds ids.payControlCredit ids.payPayableDebit ids.receiveReceivableCredit
    ids.receiveControlDebit

def readReversalIds : Reader ReversalPostingIds := readFourIds ReversalPostingIds.mk

theorem exact_readReversalIds : Exact readReversalIds writeReversalIds := by
  apply exact_readFourIds
  intro ids a b c d
  rw [ReversalPostingIds.ext_iff]

end Backbook
