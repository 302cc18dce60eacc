import Backbook.JournalFrames

namespace Backbook

open FramedLog

def Incomplete (bytes : Bytes) : Prop :=
  bytes.length < frameHeaderSize ∨ ∃ (size : UInt32) (tail : Bytes),
    bytes = frameMagic ++ (frameFormatVersion :: (writeU32 size ++ tail)) ∧
    size.toNat ≤ maximumPayloadLength ∧
    bytes.length < frameHeaderSize + size.toNat + frameCrcSize

theorem payloadFailure_code_ne (failure : CodecError) :
    (payloadFailure failure).code ≠ .unexpectedEnd := by
  unfold payloadFailure
  dsimp only
  split_ifs with h
  · decide
  · exact h

theorem header_length (size : UInt32) (tail : Bytes) :
    (frameMagic ++ (frameFormatVersion :: (writeU32 size ++ tail))).length =
      frameHeaderSize + tail.length := by
  simp [frameMagic, frameHeaderSize]
  omega

/-- A valid header leaves the decision to what follows it. -/
theorem decodeFrame_valid_header {size : UInt32} (hle : size.toNat ≤ maximumPayloadLength)
    (tail : Bytes) :
    decodeFrame (frameMagic ++ (frameFormatVersion :: (writeU32 size ++ tail))) =
      decodeBody size.toNat tail := by
  have hmagic : checkMagic [0x42, 0x42, 0x4b, 0x31] = .ok () := rfl
  have hshape : frameMagic ++ (frameFormatVersion :: (writeU32 size ++ tail)) =
      0x42 :: 0x42 :: 0x4b :: 0x31 :: frameFormatVersion :: (writeU32 size ++ tail) := rfl
  rw [hshape, decodeFrame_header, hmagic, Outcome.ok_bind, if_neg (not_not.mpr rfl),
    if_neg (Nat.not_lt.mpr hle)]

/-- Only a body that is too short is refused as one. -/
theorem decodeBody_short {size : ℕ} {rest : Bytes} {failure : CodecError}
    (h : decodeBody size rest = .error failure) (hcode : failure.code = .unexpectedEnd) :
    rest.length < size + frameCrcSize := by
  unfold decodeBody at h
  split_ifs at h with hshort hcrc
  · exact hshort
  · obtain rfl := Except.error.inj h
    contradiction
  · -- The payload is complete, so its errors have other codes.
    rcases Outcome.bind_error_iff.mp h with hp | ⟨batch, _, hbatch⟩
    · obtain ⟨inner, _, rfl⟩ := Outcome.mapError_error_iff.mp hp
      exact absurd hcode (payloadFailure_code_ne inner)
    · contradiction

/-- A frame refused as too short has all of its header right. -/
theorem decodeFrame_short {bytes : Bytes} (hlen : ¬bytes.length < frameHeaderSize)
    {failure : CodecError} (h : decodeFrame bytes = .error failure)
    (hcode : failure.code = .unexpectedEnd) : Incomplete bytes := by
  obtain ⟨m0, m1, m2, m3, version, size, rest, rfl⟩ := exists_header hlen
  rw [decodeFrame_header] at h
  rcases checkMagic_cases m0 m1 m2 m3 with ⟨hm, hok⟩ | ⟨_, offset, detail, herror⟩
  · -- The magic is right; version, size and body are asked in turn.
    rw [hok, Outcome.ok_bind] at h
    have hshape : m0 :: m1 :: m2 :: m3 :: version :: (writeU32 size ++ rest) =
        frameMagic ++ (version :: (writeU32 size ++ rest)) := by
      rw [← hm]
      rfl
    split_ifs at h with hv hmax
    · obtain rfl := Except.error.inj h
      contradiction
    · obtain rfl := Except.error.inj h
      contradiction
    · have hshort := decodeBody_short h hcode
      rw [hshape, not_not.mp hv, Incomplete]
      refine Or.inr ⟨size, rest, rfl, Nat.not_lt.mp hmax, ?_⟩
      rw [header_length]
      omega
  · rw [herror] at h
    obtain rfl := Except.error.inj h
    contradiction

/-- The code for a short read is kept for frames whose bytes are missing. -/
theorem decodeFrame_unexpectedEnd_iff {bytes : Bytes} :
    (∃ failure, decodeFrame bytes = .error failure ∧ failure.code = .unexpectedEnd) ↔
      Incomplete bytes := by
  by_cases hlen : bytes.length < frameHeaderSize
  · have hd : decodeFrame bytes = .error ⟨.unexpectedEnd, bytes.length, frameHeaderSize⟩ := by
      rw [decodeFrame, if_pos hlen]
    exact ⟨fun _ => Or.inl hlen, fun _ => ⟨_, hd, rfl⟩⟩
  · constructor
    · rintro ⟨failure, hd, hcode⟩
      exact decodeFrame_short hlen hd hcode
    · rintro (h | ⟨size, tail, rfl, hle, hshort⟩)
      · exact absurd h hlen
      · rw [header_length] at hshort
        have htail : tail.length < size.toNat + frameCrcSize := by omega
        rw [decodeFrame_valid_header hle, decodeBody, if_pos htail]
        exact ⟨_, rfl, rfl⟩

def journalFormat : Format UInt8 CodecError CommandBatch where
  decode bytes := (decodeFrame bytes).map fun frame => (frame.batch, frame.bytesConsumed)
  short failure := failure.code == .unexpectedEnd
  relocate offset failure := { failure with offset := failure.offset + offset }
  progress bytes batch consumed h := by
    obtain ⟨⟨found, n⟩, hd, hfound⟩ := Outcome.map_ok_iff.mp h
    simp only [Prod.mk.injEq] at hfound
    obtain ⟨rfl, rfl⟩ := hfound
    obtain ⟨frame, rest, hf, _, rfl⟩ := decodeFrame_ok_iff.mp hd
    obtain ⟨payload, _, rfl⟩ := encodeFrame_ok_iff.mp hf
    rw [writeFrame_length]
    omega

abbrev JournalScanResult := ScanResult CommandBatch

def scanJournal (bytes : Bytes) : Except CodecError JournalScanResult := journalFormat.scan bytes

abbrev Framed (batches : List CommandBatch) (frames : List Bytes) : Prop :=
  List.Forall₂ (fun batch frame => encodeFrame batch = .ok frame) batches frames

theorem writeFrame_take_incomplete {payload : Bytes} (hle : payload.length ≤ maximumPayloadLength)
    {k : ℕ} (hk : k < (writeFrame payload).length) : Incomplete ((writeFrame payload).take k) := by
  have hsize := uint32_of_payload_length hle
  rw [writeFrame_length] at hk
  by_cases hhead : k < frameHeaderSize
  · left
    rw [List.length_take]
    omega
  · -- The cut is behind the header, which therefore stands.
    have hcut : (writeFrame payload).take k = frameMagic ++ (frameFormatVersion ::
        (writeU32 (UInt32.ofNat payload.length) ++
          (payload ++ writeU32 (crc32 payload)).take (k - frameHeaderSize))) := by
      have hsplit : writeFrame payload = (frameMagic ++ (frameFormatVersion ::
          writeU32 (UInt32.ofNat payload.length))) ++ (payload ++ writeU32 (crc32 payload)) := by
        simp [writeFrame]
      have hheader : (frameMagic ++ (frameFormatVersion ::
          writeU32 (UInt32.ofNat payload.length))).length = frameHeaderSize := by
        simp [frameMagic, frameHeaderSize]
      rw [hsplit, List.take_append, hheader, List.take_of_length_le (by omega)]
      simp
    refine Or.inr ⟨_, _, hcut, by rwa [hsize], ?_⟩
    rw [List.length_take, hsize]
    simp only [frameHeaderSize, frameCrcSize]
    omega

theorem journalFormat_lawful :
    journalFormat.Lawful fun batch frame => encodeFrame batch = .ok frame where
  decode_iff bytes batch consumed := by
    change (decodeFrame bytes).map _ = _ ↔ _
    rw [Outcome.map_ok_iff, ← decodeFrame_ok_iff]
    constructor
    · rintro ⟨⟨found, n⟩, hd, hfound⟩
      simp only [Prod.mk.injEq] at hfound
      obtain ⟨rfl, rfl⟩ := hfound
      exact hd
    · intro hd
      exact ⟨_, hd, rfl⟩
  cut_short batch frame k hf hk := by
    obtain ⟨payload, hp, rfl⟩ := encodeFrame_ok_iff.mp hf
    have hle := (encodePayload_ok_iff.mp hp).2.2
    -- A proper part of a frame lacks its header or bytes that its header promises.
    have hcut := writeFrame_take_incomplete hle hk
    obtain ⟨failure, hd, hcode⟩ := decodeFrame_unexpectedEnd_iff.mpr hcut
    refine ⟨failure, ?_, by simp [journalFormat, hcode]⟩
    change (decodeFrame _).map _ = _
    rw [hd]
    rfl

theorem journalFormat_decode_error_iff {bytes : Bytes} {failure : CodecError} :
    journalFormat.decode bytes = .error failure ↔ decodeFrame bytes = .error failure :=
  Outcome.map_error_iff

/-- A complete frame whose payload ends too early stops the scan as corruption. -/
theorem scanJournal_short_payload {batches : List CommandBatch} {frames : List Bytes}
    (h : Framed batches frames) {payload : Bytes} {failure : CodecError}
    (hle : payload.length ≤ maximumPayloadLength) (hp : decodePayload payload = .error failure)
    (hcode : failure.code = .unexpectedEnd) (rest : Bytes) :
    scanJournal (frames.flatten ++ (writeFrame payload ++ rest)) = .error ⟨.malformedPayload,
      failure.offset + frameHeaderSize + frames.flatten.length, failure.detail⟩ := by
  have hd : decodeFrame (writeFrame payload ++ rest) = .error (payloadFailure failure) := by
    rw [decodeFrame_writeFrame hle, hp]
    rfl
  have hne : writeFrame payload ++ rest ≠ [] := by
    simp [writeFrame, frameMagic]
  have hscan := journalFormat_lawful.scan_stuck h hne (journalFormat_decode_error_iff.mpr hd)
  rw [scanJournal, hscan]
  simp [journalFormat, payloadFailure, hcode]

/-- A scan of any cut of a journal returns the batches whose frames are whole; a
scan of any bytes that succeeds has read exactly the frames of its batches and
stopped at the end of the bytes or at an incomplete frame. A payload that ends
too early in a complete frame is an error, never a torn tail. -/
theorem scan_journal_exact :
    (∀ (batches : List CommandBatch) (frames : List Bytes) (k : ℕ), Framed batches frames →
      k ≤ frames.flatten.length → ∃ (m : ℕ) (torn : Bool), m ≤ batches.length ∧
        (∀ i ≤ frames.length, frameEnd frames i ≤ k ↔ i ≤ m) ∧
        scanJournal (frames.flatten.take k) = .ok ⟨batches.take m, frameEnd frames m, torn⟩ ∧
        (torn = true ↔ ∀ i ≤ frames.length, frameEnd frames i ≠ k)) ∧
    (∀ (bytes : Bytes) (result : JournalScanResult), scanJournal bytes = .ok result →
      ∃ frames : List Bytes, Framed result.batches frames ∧
        bytes.take result.lastValidOffset = frames.flatten ∧
        result.lastValidOffset ≤ bytes.length ∧
        (result.truncatedTail = false ∧ bytes.drop result.lastValidOffset = [] ∨
          result.truncatedTail = true ∧ bytes.drop result.lastValidOffset ≠ [] ∧
            Incomplete (bytes.drop result.lastValidOffset))) ∧
    (∀ (batches : List CommandBatch) (frames : List Bytes) (payload rest : Bytes)
      (failure : CodecError), Framed batches frames → payload.length ≤ maximumPayloadLength →
      decodePayload payload = .error failure → failure.code = .unexpectedEnd →
      scanJournal (frames.flatten ++ (writeFrame payload ++ rest)) = .error ⟨.malformedPayload,
        failure.offset + frameHeaderSize + frames.flatten.length, failure.detail⟩) := by
  refine ⟨?_, ?_, ?_⟩
  · intro batches frames k h hk
    have hm : wholeFrames frames k ≤ batches.length := by
      rw [h.length_eq]
      exact wholeFrames_le_length frames k
    have hends := frameEnd_le_iff frames k
    refine ⟨wholeFrames frames k, _, hm, hends, journalFormat_lawful.scan_take h hk, ?_⟩
    exact decide_eq_true_iff.trans (frameEnd_ne_iff frames k)
  · intro bytes result h
    obtain ⟨frames, rest, hf, rfl, hoffset, hend⟩ := journalFormat_lawful.scan_ok h
    rw [hoffset, List.take_left, List.drop_left, List.length_append]
    refine ⟨frames, hf, rfl, by omega, ?_⟩
    rcases hend with ⟨ht, hrest⟩ | ⟨ht, hne, failure, hd, hshort⟩
    · exact Or.inl ⟨ht, hrest⟩
    · have hcode : failure.code = .unexpectedEnd := by simpa [journalFormat] using hshort
      have hinc := decodeFrame_unexpectedEnd_iff.mp
        ⟨failure, journalFormat_decode_error_iff.mp hd, hcode⟩
      exact Or.inr ⟨ht, hne, hinc⟩
  · intro batches frames payload rest failure h hle hp hcode
    exact scanJournal_short_payload h hle hp hcode rest

end Backbook
