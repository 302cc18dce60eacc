import Backbook.CyclicCheck
import Backbook.FramedLog
import Backbook.JournalPayload

namespace Backbook

open ByteParser FramedLog CyclicCheck

/-- One bit of the source's loop, whose mask is all ones just when the low bit
is set. -/
def crcBit (crc : UInt32) : UInt32 :=
  let mask := 0 - (crc &&& 1)
  (crc >>> 1) ^^^ (0xedb88320 &&& mask)

def crcByte (crc : UInt32) (byte : UInt8) : UInt32 := crcBit^[8] (crc ^^^ byte.toUInt32)

def crc32 (bytes : Bytes) : UInt32 := ~~~(bytes.foldl crcByte 0xffffffff)

theorem crcBit_toBitVec (crc : UInt32) :
    (crcBit crc).toBitVec = CyclicCheck.shiftStep 0xedb88320#32 crc.toBitVec := by
  -- The mask is computed by a subtraction, so the low bit decides all of it.
  have hlow : crc.toBitVec &&& 1#32 = if crc.toBitVec.getLsbD 0 then 1#32 else 0#32 := by
    rw [BitVec.and_one_eq_setWidth_ofBool_getLsbD]
    cases crc.toBitVec.getLsbD 0 <;> rfl
  have hmask : (0 - (crc &&& 1)).toBitVec =
      if crc.toBitVec.getLsbD 0 then BitVec.allOnes 32 else 0#32 := by
    rw [UInt32.toBitVec_sub, UInt32.toBitVec_and]
    change 0#32 - (crc.toBitVec &&& 1#32) = _
    rw [hlow]
    cases crc.toBitVec.getLsbD 0 <;> rfl
  unfold crcBit CyclicCheck.shiftStep
  simp only [UInt32.toBitVec_xor, UInt32.toBitVec_and, UInt32.toBitVec_shiftRight, hmask]
  cases crc.toBitVec.getLsbD 0 <;> simp

theorem crcBit_injective : Function.Injective crcBit := by
  intro a b h
  apply UInt32.toBitVec_inj.mp
  apply CyclicCheck.shiftStep_injective (by decide : (0xedb88320#32).msb = true)
  rw [← crcBit_toBitVec, ← crcBit_toBitVec, h]

theorem crcByte_state_injective (byte : UInt8) :
    Function.Injective fun crc => crcByte crc byte := by
  intro a b h
  exact (UInt32.xor_left_inj _).mp (crcBit_injective.iterate 8 h)

theorem crcByte_byte_injective (crc : UInt32) : Function.Injective (crcByte crc) := by
  intro a b h
  have hx := (UInt32.xor_right_inj _).mp (crcBit_injective.iterate 8 h)
  have hn := congrArg UInt32.toNat hx
  simpa [UInt8.toNat_inj] using hn

/-- One changed byte changes the check. -/
theorem crc32_ne_of_oneChange {first second : Bytes} (h : OneChange first second) :
    crc32 first ≠ crc32 second := by
  intro heq
  exact h.foldl_ne crcByte_state_injective crcByte_byte_injective 0xffffffff
    (UInt32.not_inj.mp heq)

example : crc32 (asciiBytes "123456789") = 0xcbf43926 := by decide +kernel

def frameHeaderSize : ℕ := 9

def frameCrcSize : ℕ := 4

def frameFormatVersion : UInt8 := 1

def frameMagic : Bytes := [0x42, 0x42, 0x4b, 0x31]

def encodeFrame (batch : CommandBatch) : Except CodecError Bytes := do
  let payload ← encodePayload batch
  if payload.length > maximumU32 then .error ⟨.sizeOverflow, 0, 0⟩
  else .ok (frameMagic ++ (writeU8 frameFormatVersion ++
    (writeU32 (UInt32.ofNat payload.length) ++ (payload ++ writeU32 (crc32 payload)))))

structure DecodedFrame where
  batch : CommandBatch
  bytesConsumed : ℕ
deriving DecidableEq

def readU32At (bytes : Bytes) (offset : ℕ) : UInt32 :=
  UInt32.ofNat (leValue ((bytes.drop offset).take 4))

def checkMagic (bytes : Bytes) : Except CodecError Unit :=
  (List.range 4).forM fun index =>
    if bytes.getD index 0 ≠ frameMagic.getD index 0 then
      .error ⟨.invalidMagic, index, (bytes.getD index 0).toNat⟩
    else .ok ()

/-- The payload's own errors, counted from the frame. The end of a payload is
not the end of the journal, so it gets a code of its own. -/
def payloadFailure (failure : CodecError) : CodecError where
  code := if failure.code = .unexpectedEnd then .malformedPayload else failure.code
  offset := failure.offset + frameHeaderSize
  detail := failure.detail

def decodeFrame (bytes : Bytes) : Except CodecError DecodedFrame :=
  if bytes.length < frameHeaderSize then
    .error ⟨.unexpectedEnd, bytes.length, frameHeaderSize⟩
  else do
    -- The order of the checks decides which damage is reported as a short frame.
    checkMagic bytes
    let version := bytes.getD 4 0
    if version ≠ frameFormatVersion then .error ⟨.unsupportedFrameVersion, 4, version.toNat⟩
    else do
      let payloadSize := (readU32At bytes 5).toNat
      if payloadSize > maximumPayloadLength then .error ⟨.payloadTooLarge, 5, payloadSize⟩
      else do
        -- Nothing has checked the length so far but its upper limit.
        let frameSize := frameHeaderSize + payloadSize + frameCrcSize
        if bytes.length < frameSize then .error ⟨.unexpectedEnd, bytes.length, frameSize⟩
        else do
          let payload := (bytes.drop frameHeaderSize).take payloadSize
          let storedCrc := readU32At bytes (frameHeaderSize + payloadSize)
          if storedCrc ≠ crc32 payload then
            .error ⟨.crcMismatch, frameHeaderSize + payloadSize, storedCrc.toNat⟩
          else do
            let batch ← (decodePayload payload).mapError payloadFailure
            .ok ⟨batch, frameSize⟩

def writeFrame (payload : Bytes) : Bytes :=
  frameMagic ++ (frameFormatVersion :: (writeU32 (UInt32.ofNat payload.length) ++
    (payload ++ writeU32 (crc32 payload))))

theorem writeU8_eq (value : UInt8) : writeU8 value = [value] := by
  simp [writeU8, leBytes]

@[simp] theorem writeU32_length (value : UInt32) : (writeU32 value).length = 4 :=
  leBytes_length 4 _

theorem writeFrame_length (payload : Bytes) :
    (writeFrame payload).length = payload.length + 13 := by
  simp [writeFrame, frameMagic]
  omega

theorem encodeFrame_ok_iff {batch : CommandBatch} {frame : Bytes} :
    encodeFrame batch = .ok frame ↔
      ∃ payload, encodePayload batch = .ok payload ∧ frame = writeFrame payload := by
  unfold encodeFrame
  rw [Outcome.bind_ok_iff]
  constructor
  · rintro ⟨payload, hp, h⟩
    split_ifs at h
    obtain rfl := Except.ok.inj h
    exact ⟨payload, hp, by rw [writeU8_eq]; rfl⟩
  · rintro ⟨payload, hp, rfl⟩
    -- Within the payload limit the length prefix cannot overflow.
    have hle : ¬payload.length > maximumU32 := by
      have h := (encodePayload_ok_iff.mp hp).2.2
      simp only [maximumPayloadLength, maximumU32] at h ⊢
      omega
    exact ⟨payload, hp, by rw [if_neg hle, writeU8_eq]; rfl⟩

def decodeBody (payloadSize : ℕ) (rest : Bytes) : Except CodecError DecodedFrame :=
  if rest.length < payloadSize + frameCrcSize then
    .error ⟨.unexpectedEnd, frameHeaderSize + rest.length,
      frameHeaderSize + payloadSize + frameCrcSize⟩
  else if readU32At rest payloadSize ≠ crc32 (rest.take payloadSize) then
    .error ⟨.crcMismatch, frameHeaderSize + payloadSize, (readU32At rest payloadSize).toNat⟩
  else do
    let batch ← (decodePayload (rest.take payloadSize)).mapError payloadFailure
    .ok ⟨batch, frameHeaderSize + payloadSize + frameCrcSize⟩

theorem readU32_value (value : UInt32) : UInt32.ofNat (leValue (writeU32 value)) = value := by
  rw [writeU32, leValue_leBytes 4 _ (by simpa using value.toNat_lt), UInt32.ofNat_toNat]

theorem writeU32_leValue {bytes : Bytes} (h : bytes.length = 4) :
    writeU32 (UInt32.ofNat (leValue bytes)) = bytes := by
  have hlt := leValue_lt bytes
  have hval : (UInt32.ofNat (leValue bytes)).toNat = leValue bytes := by
    rw [UInt32.toNat_ofNat']
    rw [h] at hlt
    exact Nat.mod_eq_of_lt hlt
  rw [writeU32, hval, ← h, leBytes_leValue]

/-- A frame decoder sees the header field by field. -/
theorem decodeFrame_header (m0 m1 m2 m3 version : UInt8) (size : UInt32) (rest : Bytes) :
    decodeFrame (m0 :: m1 :: m2 :: m3 :: version :: (writeU32 size ++ rest)) = (do
      checkMagic [m0, m1, m2, m3]
      if version ≠ frameFormatVersion then .error ⟨.unsupportedFrameVersion, 4, version.toNat⟩
      else if size.toNat > maximumPayloadLength then .error ⟨.payloadTooLarge, 5, size.toNat⟩
      else decodeBody size.toNat rest) := by
  have hlen : (m0 :: m1 :: m2 :: m3 :: version :: (writeU32 size ++ rest)).length =
      frameHeaderSize + rest.length := by
    simp [frameHeaderSize]
    omega
  have hsize : readU32At (m0 :: m1 :: m2 :: m3 :: version :: (writeU32 size ++ rest)) 5 = size := by
    simp only [readU32At, List.drop_succ_cons, List.drop_zero]
    rw [List.take_append_of_le_length (by simp), List.take_of_length_le (by simp), readU32_value]
  have hdrop (n : ℕ) : (m0 :: m1 :: m2 :: m3 :: version :: (writeU32 size ++ rest)).drop
      (frameHeaderSize + n) = rest.drop n := by
    have h9 : frameHeaderSize + n = 5 + (4 + n) := by
      simp only [frameHeaderSize]
      omega
    rw [h9, ← List.drop_drop]
    simp only [List.drop_succ_cons, List.drop_zero]
    rw [← List.drop_drop, List.drop_left' (writeU32_length size)]
  have hmagic : checkMagic (m0 :: m1 :: m2 :: m3 :: version :: (writeU32 size ++ rest)) =
      checkMagic [m0, m1, m2, m3] := rfl
  have hrest := hdrop 0
  rw [Nat.add_zero, List.drop_zero] at hrest
  unfold decodeFrame decodeBody
  rw [hlen, hmagic, hsize, hrest, if_neg (by omega)]
  simp only [readU32At, hdrop, List.getD_cons_succ, List.getD_cons_zero]
  have hlt : frameHeaderSize + rest.length < frameHeaderSize + size.toNat + frameCrcSize ↔
      rest.length < size.toNat + frameCrcSize := by omega
  simp only [hlt]
  rfl

theorem checkMagic_cases (m0 m1 m2 m3 : UInt8) :
    [m0, m1, m2, m3] = frameMagic ∧ checkMagic [m0, m1, m2, m3] = .ok () ∨
      [m0, m1, m2, m3] ≠ frameMagic ∧
        ∃ offset detail, checkMagic [m0, m1, m2, m3] = .error ⟨.invalidMagic, offset, detail⟩ := by
  -- The first byte that differs is the one that is reported.
  by_cases h0 : m0 = 0x42
  · by_cases h1 : m1 = 0x42
    · by_cases h2 : m2 = 0x4b
      · by_cases h3 : m3 = 0x31
        · subst h0 h1 h2 h3
          exact Or.inl ⟨rfl, rfl⟩
        · refine Or.inr ⟨by simp [frameMagic, h3], 3, m3.toNat, ?_⟩
          simp [checkMagic, frameMagic, List.range, List.range.loop, h0, h1, h2, h3]
      · refine Or.inr ⟨by simp [frameMagic, h2], 2, m2.toNat, ?_⟩
        simp [checkMagic, frameMagic, List.range, List.range.loop, h0, h1, h2]
    · refine Or.inr ⟨by simp [frameMagic, h1], 1, m1.toNat, ?_⟩
      simp [checkMagic, frameMagic, List.range, List.range.loop, h0, h1]
  · refine Or.inr ⟨by simp [frameMagic, h0], 0, m0.toNat, ?_⟩
    simp [checkMagic, frameMagic, List.range, List.range.loop, h0]

/-- Every string of at least a header's length is a header and what follows. -/
theorem exists_header {bytes : Bytes} (h : ¬bytes.length < frameHeaderSize) :
    ∃ (m0 m1 m2 m3 version : UInt8) (size : UInt32) (rest : Bytes),
      bytes = m0 :: m1 :: m2 :: m3 :: version :: (writeU32 size ++ rest) := by
  unfold frameHeaderSize at h
  obtain ⟨m0, m1, m2, m3, version, tail, rfl⟩ : ∃ (m0 m1 m2 m3 version : UInt8) (tail : Bytes),
      bytes = m0 :: m1 :: m2 :: m3 :: version :: tail := by
    rcases bytes with _ | ⟨m0, _ | ⟨m1, _ | ⟨m2, _ | ⟨m3, _ | ⟨version, tail⟩⟩⟩⟩⟩
    · simp at h
    · simp at h
    · simp at h
    · simp at h
    · simp at h
    · exact ⟨m0, m1, m2, m3, version, tail, rfl⟩
  have h4 : (tail.take 4).length = 4 := by
    rw [List.length_take]
    simp only [List.length_cons] at h
    omega
  refine ⟨m0, m1, m2, m3, version, UInt32.ofNat (leValue (tail.take 4)), tail.drop 4, ?_⟩
  rw [writeU32_leValue h4, List.take_append_drop]

theorem uint32_of_payload_length {payload : Bytes} (hle : payload.length ≤ maximumPayloadLength) :
    (UInt32.ofNat payload.length).toNat = payload.length := by
  apply uint32_of_length
  unfold maximumPayloadLength at hle
  unfold maximumU32
  omega

/-- A complete frame is read back from the head of any journal. -/
theorem decodeFrame_writeFrame {payload : Bytes} (hle : payload.length ≤ maximumPayloadLength)
    (rest : Bytes) :
    decodeFrame (writeFrame payload ++ rest) = (do
      let batch ← (decodePayload payload).mapError payloadFailure
      .ok ⟨batch, (writeFrame payload).length⟩) := by
  have hsize := uint32_of_payload_length hle
  have hshape : writeFrame payload ++ rest = 0x42 :: 0x42 :: 0x4b :: 0x31 :: frameFormatVersion ::
      (writeU32 (UInt32.ofNat payload.length) ++
        (payload ++ (writeU32 (crc32 payload) ++ rest))) := by
    simp [writeFrame, frameMagic]
  have hmagic : checkMagic [0x42, 0x42, 0x4b, 0x31] = .ok () := rfl
  have hcrc : readU32At (payload ++ (writeU32 (crc32 payload) ++ rest)) payload.length =
      crc32 payload := by
    rw [readU32At, List.drop_left, List.take_left' (writeU32_length _), readU32_value]
  rw [hshape, decodeFrame_header, hmagic, Outcome.ok_bind, hsize,
    if_neg (not_not.mpr rfl), if_neg (Nat.not_lt.mpr hle)]
  unfold decodeBody
  rw [hcrc, List.take_left, if_neg (by simp [frameCrcSize]), if_neg (not_not.mpr rfl),
    writeFrame_length]
  have hn : frameHeaderSize + payload.length + frameCrcSize = payload.length + 13 := by
    simp only [frameHeaderSize, frameCrcSize]
    omega
  rw [hn]

/-- A body that decodes is a payload of the announced size with its check. -/
theorem decodeBody_ok {size : ℕ} {rest : Bytes} {batch : CommandBatch} {consumed : ℕ}
    (h : decodeBody size rest = .ok ⟨batch, consumed⟩) : ∃ payload tail,
      encodePayload batch = .ok payload ∧ payload.length = size ∧
      rest = payload ++ (writeU32 (crc32 payload) ++ tail) ∧
      consumed = frameHeaderSize + size + frameCrcSize := by
  unfold decodeBody at h
  split_ifs at h with hrest hcrc
  obtain ⟨found, hp, hfound⟩ := Outcome.bind_ok_iff.mp h
  rw [Outcome.mapError_ok_iff] at hp
  simp only [Except.ok.injEq, DecodedFrame.mk.injEq] at hfound
  obtain ⟨rfl, rfl⟩ := hfound
  refine ⟨rest.take size, rest.drop (size + 4), decodePayload_ok_iff.mp hp, ?_, ?_, rfl⟩
  · rw [List.length_take]
    omega
  · -- The stored check is the four bytes behind the payload.
    have h4 : ((rest.drop size).take 4).length = 4 := by
      rw [List.length_take, List.length_drop]
      unfold frameCrcSize at hrest
      omega
    have hcheck : writeU32 (crc32 (rest.take size)) = (rest.drop size).take 4 := by
      rw [← not_not.mp hcrc, readU32At, writeU32_leValue h4]
    rw [hcheck, ← List.drop_drop, List.take_append_drop, List.take_append_drop]

/-- A journal's head decodes to a batch just when it is the batch's frame. -/
theorem decodeFrame_ok_iff {bytes : Bytes} {batch : CommandBatch} {consumed : ℕ} :
    decodeFrame bytes = .ok ⟨batch, consumed⟩ ↔
      ∃ frame rest, encodeFrame batch = .ok frame ∧ bytes = frame ++ rest ∧
        consumed = frame.length := by
  constructor
  · intro h
    have hlen : ¬bytes.length < frameHeaderSize := by
      intro hshort
      rw [decodeFrame, if_pos hshort] at h
      contradiction
    obtain ⟨m0, m1, m2, m3, version, size, rest, rfl⟩ := exists_header hlen
    rw [decodeFrame_header] at h
    -- Success needs every check of the header passed, one after the other.
    rcases checkMagic_cases m0 m1 m2 m3 with ⟨hm, hok⟩ | ⟨_, _, _, herror⟩
    · rw [hok, Outcome.ok_bind] at h
      split_ifs at h with hv hmax
      obtain ⟨payload, tail, hp, hn, rfl, rfl⟩ := decodeBody_ok h
      refine ⟨_, tail, encodeFrame_ok_iff.mpr ⟨payload, hp, rfl⟩, ?_, ?_⟩
      · have hmagic : m0 :: m1 :: m2 :: m3 :: version ::
            (writeU32 size ++ (payload ++ (writeU32 (crc32 payload) ++ tail))) =
          [m0, m1, m2, m3] ++ (version ::
            (writeU32 size ++ (payload ++ (writeU32 (crc32 payload) ++ tail)))) := rfl
        rw [hmagic, hm, not_not.mp hv, writeFrame, hn, UInt32.ofNat_toNat]
        simp only [List.append_assoc, List.cons_append]
      · rw [writeFrame_length, hn]
        simp only [frameHeaderSize, frameCrcSize]
        omega
    · rw [herror] at h
      contradiction
  · rintro ⟨frame, rest, hf, rfl, rfl⟩
    obtain ⟨payload, hp, rfl⟩ := encodeFrame_ok_iff.mp hf
    rw [decodeFrame_writeFrame (encodePayload_ok_iff.mp hp).2.2,
      decodePayload_ok_iff.mpr hp]
    rfl

/-- The frame format is a bijection between batches that encode and the byte
strings that decode, for frames at the head of a journal and for payloads. -/
theorem frame_format_bijective :
    (∀ (batch : CommandBatch) (frame suffix : Bytes), encodeFrame batch = .ok frame →
      decodeFrame (frame ++ suffix) = .ok ⟨batch, frame.length⟩) ∧
    (∀ (bytes : Bytes) (batch : CommandBatch) (consumed : ℕ),
      decodeFrame bytes = .ok ⟨batch, consumed⟩ →
        encodeFrame batch = .ok (bytes.take consumed) ∧ consumed ≤ bytes.length) ∧
    (∀ (payload : Bytes) (batch : CommandBatch), decodePayload payload = .ok batch →
      encodePayload batch = .ok payload) ∧
    (∀ (first second : Bytes) (batch : CommandBatch), decodePayload first = .ok batch →
      decodePayload second = .ok batch → first = second) ∧
    (∀ (first second : CommandBatch) (payload : Bytes), encodePayload first = .ok payload →
      encodePayload second = .ok payload → first = second) := by
  refine ⟨?_, ?_, ?_, ?_, ?_⟩
  · intro batch frame suffix h
    exact decodeFrame_ok_iff.mpr ⟨frame, suffix, h, rfl, rfl⟩
  · intro bytes batch consumed h
    obtain ⟨frame, rest, hf, rfl, rfl⟩ := decodeFrame_ok_iff.mp h
    rw [List.take_left]
    exact ⟨hf, by simp⟩
  · intro payload batch h
    exact decodePayload_ok_iff.mp h
  · intro first second batch h h'
    have hsame := (decodePayload_ok_iff.mp h).symm.trans (decodePayload_ok_iff.mp h')
    exact Except.ok.inj hsame
  · intro first second payload h h'
    have hsame := (decodePayload_ok_iff.mpr h).symm.trans (decodePayload_ok_iff.mpr h')
    exact Except.ok.inj hsame

end Backbook
