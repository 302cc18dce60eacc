import Backbook.JournalCorruption

namespace Backbook

open ByteParser FramedLog CyclicCheck

theorem crcByte_toBitVec (crc : UInt32) (byte : UInt8) :
    (crcByte crc byte).toBitVec = absorb 0xedb88320#32 crc.toBitVec byte.toBitVec := by
  have hbits (x : UInt32) :
      (crcBit^[8] x).toBitVec = (shiftStep 0xedb88320#32)^[8] x.toBitVec :=
    Function.Semiconj.iterate_right (f := UInt32.toBitVec) crcBit_toBitVec 8 x
  rw [crcByte, hbits, absorb]
  rfl

theorem foldl_crcByte_toBitVec (bytes : Bytes) (crc : UInt32) :
    (bytes.foldl crcByte crc).toBitVec =
      (bytes.map UInt8.toBitVec).foldl (absorb 0xedb88320#32) crc.toBitVec := by
  induction bytes generalizing crc with
  | nil => rfl
  | cons byte bytes ih => rw [List.foldl_cons, ih, crcByte_toBitVec, List.map_cons, List.foldl_cons]

/-- Changes within four bytes change the check, however many bytes follow. -/
theorem crc32_ne_of_burst {front mid mid' back : Bytes} (hlen : mid.length = mid'.length)
    (hshort : mid.length ≤ 4) (hne : mid ≠ mid') :
    crc32 (front ++ (mid ++ back)) ≠ crc32 (front ++ (mid' ++ back)) := by
  intro heq
  have hstate := congrArg UInt32.toBitVec (UInt32.not_inj.mp heq)
  rw [foldl_crcByte_toBitVec, foldl_crcByte_toBitVec] at hstate
  simp only [List.map_append] at hstate
  have hmid : mid.map UInt8.toBitVec ≠ mid'.map UInt8.toBitVec := by
    intro h
    exact hne (List.map_injective_iff.mpr (fun _ _ => UInt8.toBitVec_inj.mp) h)
  refine foldl_absorb_ne (by decide) ?_ ?_ hmid _ hstate
  · rw [List.length_map, List.length_map, hlen]
  · rw [List.length_map]
    omega

theorem crc32_ne_of_agreeOutside {first second : Bytes} {start width : ℕ}
    (hagree : AgreeOutside start width first second) (hlen : first.length = second.length)
    (hwidth : width ≤ 4) (hne : first ≠ second) : crc32 first ≠ crc32 second := by
  obtain ⟨front, mid, mid', back, rfl, rfl, hmid, hshort⟩ := hagree.parts hlen
  refine crc32_ne_of_burst hmid (by omega) ?_
  rintro rfl
  exact hne rfl

def writeHeader (payloadSize : ℕ) : Bytes :=
  frameMagic ++ (frameFormatVersion :: writeU32 (UInt32.ofNat payloadSize))

theorem writeHeader_length (payloadSize : ℕ) :
    (writeHeader payloadSize).length = frameHeaderSize := by
  simp [writeHeader, frameMagic, frameHeaderSize]

theorem writeFrame_eq (payload : Bytes) : writeFrame payload =
    writeHeader payload.length ++ (payload ++ writeU32 (crc32 payload)) := by
  simp [writeFrame, writeHeader]

/-- Behind an intact header, the decoder goes on to the payload and its check. -/
theorem decodeFrame_intact_header {size : ℕ} (hle : size ≤ maximumPayloadLength) (rest : Bytes) :
    decodeFrame (writeHeader size ++ rest) = decodeBody size rest := by
  have hsize : (UInt32.ofNat size).toNat = size := by
    apply uint32_of_length
    unfold maximumPayloadLength at hle
    unfold maximumU32
    omega
  have hmagic : checkMagic [0x42, 0x42, 0x4b, 0x31] = .ok () := rfl
  change decodeFrame (0x42 :: 0x42 :: 0x4b :: 0x31 :: frameFormatVersion ::
    (writeU32 (UInt32.ofNat size) ++ rest)) = _
  rw [decodeFrame_header, hmagic, Outcome.ok_bind, hsize, if_neg (not_not.mpr rfl),
    if_neg (Nat.not_lt.mpr hle)]

/-- A payload under a stored check that is not its own is refused for it. -/
theorem decodeBody_mismatch {payload stored : Bytes} (hstored : stored.length = 4)
    (hne : stored ≠ writeU32 (crc32 payload)) :
    decodeBody payload.length (payload ++ stored) =
      .error ⟨.crcMismatch, frameHeaderSize + payload.length,
        (UInt32.ofNat (leValue stored)).toNat⟩ := by
  have hread : readU32At (payload ++ stored) payload.length = UInt32.ofNat (leValue stored) := by
    rw [readU32At, List.drop_left, List.take_of_length_le hstored.le]
  have hcrc : UInt32.ofNat (leValue stored) ≠ crc32 payload := by
    intro h
    rw [← h, writeU32_leValue hstored] at hne
    exact hne rfl
  unfold decodeBody
  rw [if_neg (by simp [hstored, frameCrcSize]), hread, List.take_left, if_pos hcrc]

/-- A frame that changed only behind its header, cut where the frame is cut. -/
theorem damaged_parts {payload damaged : Bytes} {start width : ℕ}
    (hlen : damaged.length = (writeFrame payload).length) (hstart : frameHeaderSize ≤ start)
    (hagree : AgreeOutside start width (writeFrame payload) damaged) :
    ∃ payload' stored, damaged = writeHeader payload.length ++ (payload' ++ stored) ∧
      payload'.length = payload.length ∧ stored.length = 4 ∧
      AgreeOutside (start - frameHeaderSize) width payload payload' ∧
      (start + width ≤ frameHeaderSize + payload.length → stored = writeU32 (crc32 payload)) ∧
      (frameHeaderSize + payload.length ≤ start → payload' = payload) := by
  have hbody := hagree.drop hstart
  rw [writeFrame_eq, List.drop_left' (writeHeader_length _)] at hbody
  have hhead := hagree.take_eq hstart
  rw [writeFrame_eq, List.take_left' (writeHeader_length _)] at hhead
  have htake := hbody.take payload.length
  rw [List.take_left] at htake
  have hlength : damaged.length = frameHeaderSize + (payload.length + 4) := by
    rw [hlen, writeFrame_eq, List.length_append, writeHeader_length, List.length_append,
      writeU32_length]
  refine ⟨(damaged.drop frameHeaderSize).take payload.length,
    (damaged.drop frameHeaderSize).drop payload.length, ?_, ?_, ?_, htake, ?_, ?_⟩
  · rw [hhead, List.take_append_drop, List.take_append_drop]
  · rw [List.length_take, List.length_drop]
    omega
  · rw [List.length_drop, List.length_drop]
    omega
  · intro hwithin
    have hdrop := hbody.drop_eq (k := payload.length) (by omega)
    rw [List.drop_left] at hdrop
    exact hdrop.symm
  · intro hbehind
    have hsame := hbody.take_eq (k := payload.length) (by omega)
    rw [List.take_left] at hsame
    exact hsame.symm

/-- Damage to a frame within four bytes of its payload, or within its stored
check, is always reported as a mismatch of the check. -/
theorem burst_reported {batch : CommandBatch} {frame damaged : Bytes}
    (hframe : encodeFrame batch = .ok frame) (hlen : damaged.length = frame.length)
    (hne : damaged ≠ frame) {start width : ℕ} (hwidth : width ≤ 4)
    (hwindow : (frameHeaderSize ≤ start ∧ start + width ≤ frame.length - frameCrcSize) ∨
      (frame.length - frameCrcSize ≤ start ∧ start + width ≤ frame.length))
    (hagree : AgreeOutside start width frame damaged) :
    decodeFrame damaged = .error ⟨.crcMismatch, frame.length - frameCrcSize,
      (readU32At damaged (frame.length - frameCrcSize)).toNat⟩ := by
  obtain ⟨payload, hp, rfl⟩ := encodeFrame_ok_iff.mp hframe
  have hle := (encodePayload_ok_iff.mp hp).2.2
  have hlength := writeFrame_length payload
  have hend : (writeFrame payload).length - frameCrcSize = frameHeaderSize + payload.length := by
    have hlength := writeFrame_length payload
    unfold frameCrcSize frameHeaderSize
    omega
  rw [hend] at hwindow ⊢
  obtain ⟨payload', stored, rfl, hpayload, hstored, hinside, hcrc, hsame⟩ :=
    damaged_parts hlen (by omega) hagree
  have hmismatch : stored ≠ writeU32 (crc32 payload') := by
    rcases hwindow with ⟨_, hwithin⟩ | ⟨hbehind, _⟩
    · -- The stored check is the old one, and the payload is new.
      obtain rfl := hcrc hwithin
      have hchanged : payload ≠ payload' := by
        rintro rfl
        exact hne (writeFrame_eq _).symm
      intro heq
      have hvalue := congrArg (fun l => UInt32.ofNat (leValue l)) heq
      simp only [readU32_value] at hvalue
      exact crc32_ne_of_agreeOutside hinside hpayload.symm hwidth hchanged hvalue
    · -- The payload is the old one, and the stored check is new.
      obtain rfl := hsame hbehind
      rintro rfl
      exact hne (writeFrame_eq _).symm
  have hread : readU32At (writeHeader payload.length ++ (payload' ++ stored))
      (frameHeaderSize + payload.length) = UInt32.ofNat (leValue stored) := by
    rw [readU32At, ← List.drop_drop, List.drop_left' (writeHeader_length _),
      List.drop_left' hpayload, List.take_of_length_le hstored.le]
  rw [decodeFrame_intact_header hle, hread, ← hpayload]
  exact decodeBody_mismatch hstored hmismatch

/-- Two bytes of a payload changed together. -/
theorem burst_reported_sample : decodeFrame (((runFrame firstRunBatch).set 10 7).set 12 7) =
    .error ⟨.crcMismatch, (runFrame firstRunBatch).length - frameCrcSize,
      (readU32At (((runFrame firstRunBatch).set 10 7).set 12 7)
        ((runFrame firstRunBatch).length - frameCrcSize)).toNat⟩ := by
  have hframe := (List.forall₂_cons.mp sampleRuns_framed).1
  refine @burst_reported _ _ _ hframe ?_ ?_ 10 3 (by omega) (.inl ?_) ?_
  · rw [List.length_set, List.length_set]
  · decide +kernel
  · decide +kernel
  · intro i hi
    rw [List.getElem?_set_ne (by omega), List.getElem?_set_ne (by omega)]

end Backbook
