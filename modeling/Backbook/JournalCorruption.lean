import Backbook.StorageJournal

/-! One damaged byte in a journal. The check covers the payload and the format
covers the rest of the header, so damage is found wherever it lies, except in a
length that still looks plausible: it makes a whole frame look cut short. -/
namespace Backbook

open ByteParser FramedLog CyclicCheck

def LengthOverruns (bytes : Bytes) : Prop :=
  (readU32At bytes 5).toNat ≤ maximumPayloadLength ∧
    bytes.length < frameHeaderSize + (readU32At bytes 5).toNat + frameCrcSize

/-- A frame: magic and version, the length, then what the length counts. -/
theorem writeFrame_parts (payload : Bytes) : writeFrame payload =
    (frameMagic ++ [frameFormatVersion]) ++ (writeU32 (UInt32.ofNat payload.length) ++
      (payload ++ writeU32 (crc32 payload))) := by
  simp [writeFrame]

theorem readU32At_five {head : Bytes} (hhead : head.length = 5) (size : UInt32) (tail : Bytes) :
    readU32At (head ++ (writeU32 size ++ tail)) 5 = size := by
  rw [readU32At, List.drop_left' hhead, List.take_left' (writeU32_length size), readU32_value]

theorem incomplete_overruns {bytes : Bytes} (h : Incomplete bytes)
    (hlen : frameHeaderSize ≤ bytes.length) : LengthOverruns bytes := by
  rcases h with hshort | ⟨size, tail, rfl, hle, hshort⟩
  · omega
  · have hsize : readU32At (frameMagic ++ (frameFormatVersion :: (writeU32 size ++ tail))) 5 =
        size := by
      have hh := @readU32At_five (frameMagic ++ [frameFormatVersion]) rfl size tail
      rwa [List.append_assoc] at hh
    unfold LengthOverruns
    rw [hsize]
    exact ⟨hle, hshort⟩

/-- A damaged frame is not the frame of any batch, whatever follows it. -/
theorem damaged_not_decoded {batch other : CommandBatch} {frame damaged rest : Bytes}
    {consumed : ℕ} (hframe : encodeFrame batch = .ok frame) (hchange : OneChange frame damaged) :
    decodeFrame (damaged ++ rest) ≠ .ok ⟨other, consumed⟩ := by
  intro hdecoded
  obtain ⟨payload, hp, rfl⟩ := encodeFrame_ok_iff.mp hframe
  obtain ⟨frame', rest', hframe', hsplit, _⟩ := decodeFrame_ok_iff.mp hdecoded
  obtain ⟨payload', hp', rfl⟩ := encodeFrame_ok_iff.mp hframe'
  have hle := (encodePayload_ok_iff.mp hp).2.2
  have hle' := (encodePayload_ok_iff.mp hp').2.2
  have hwhole := hchange.append_right rest
  rw [hsplit, writeFrame_parts, writeFrame_parts] at hwhole
  simp only [List.append_assoc] at hwhole
  -- Magic and version are those of every frame, so the change lies behind them.
  rcases OneChange.split rfl hwhole with ⟨h, _⟩ | ⟨_, hrest⟩
  · exact h.ne rfl
  rcases OneChange.split rfl hrest with ⟨h, _⟩ | ⟨_, hrest⟩
  · exact h.ne rfl
  rcases OneChange.split (by simp) hrest with ⟨hlength, htail⟩ | ⟨hlength, htail⟩
  · -- Only the length changed, so one payload would be a part of the other.
    have hsame := encodePayload_prefix_free hp hp' htail
    rw [hsame] at hlength
    exact hlength.ne rfl
  · have hsame : payload.length = payload'.length := by
      have hnum := congrArg (fun l => (UInt32.ofNat (leValue l)).toNat) hlength
      simp only [readU32_value] at hnum
      rwa [uint32_of_payload_length hle, uint32_of_payload_length hle'] at hnum
    rcases OneChange.split hsame htail with ⟨hpayload, hcheck⟩ | ⟨rfl, hcheck⟩
    · -- The payload changed under an unchanged check.
      have hcrc := (List.append_inj hcheck (by simp)).1
      have hvalue := congrArg (fun l => UInt32.ofNat (leValue l)) hcrc
      simp only [readU32_value] at hvalue
      exact crc32_ne_of_oneChange hpayload hvalue
    · -- Nothing is left that could have changed.
      have hsame := (List.append_inj hsplit hchange.length_eq.symm).1
      exact hchange.ne hsame.symm

/-- A damaged frame that overruns the journal still has a valid header. -/
theorem overruns_incomplete {batch : CommandBatch} {frame damaged rest : Bytes}
    (hframe : encodeFrame batch = .ok frame) (hchange : OneChange frame damaged)
    (h : LengthOverruns (damaged ++ rest)) : Incomplete (damaged ++ rest) := by
  obtain ⟨payload, hp, rfl⟩ := encodeFrame_ok_iff.mp hframe
  have hle := (encodePayload_ok_iff.mp hp).2.2
  have hlen : damaged.length = payload.length + 13 := by
    rw [← hchange.length_eq, writeFrame_length]
  -- The damaged frame keeps its length, so it splits where the frame did.
  obtain ⟨head, size, tail, hhead, rfl⟩ : ∃ (head : Bytes) (size : UInt32) (tail : Bytes),
      head.length = 5 ∧ damaged = head ++ (writeU32 size ++ tail) := by
    have hsize : ((damaged.drop 5).take 4).length = 4 := by
      rw [List.length_take, List.length_drop]
      omega
    refine ⟨damaged.take 5, UInt32.ofNat (leValue ((damaged.drop 5).take 4)),
      (damaged.drop 5).drop 4, ?_, ?_⟩
    · rw [List.length_take]
      omega
    · rw [writeU32_leValue hsize, List.take_append_drop, List.take_append_drop]
  rw [writeFrame_parts] at hchange
  simp only [List.append_assoc] at h ⊢
  have hoverrun := h
  unfold LengthOverruns at hoverrun
  rw [readU32At_five hhead] at hoverrun
  have hheads : (frameMagic ++ [frameFormatVersion]).length = head.length := hhead.symm
  rcases OneChange.split hheads hchange with ⟨_, hrest⟩ | ⟨rfl, _⟩
  · -- With the length untouched, the frame fits.
    have hsame := congrArg (fun l => UInt32.ofNat (leValue l))
      (List.append_inj hrest (by simp)).1
    simp only [readU32_value] at hsame
    have hfits : size.toNat = payload.length := by
      rw [← hsame, uint32_of_payload_length hle]
    simp only [List.length_append, writeU32_length, hhead] at hlen
    have hshort := hoverrun.2
    simp only [List.length_append, writeU32_length, hhead, frameHeaderSize, frameCrcSize] at hshort
    omega
  · refine Or.inr ⟨size, tail ++ rest, ?_, hoverrun.1, hoverrun.2⟩
    simp

/-- What recovery makes of a journal whose tail is one damaged frame and more. -/
theorem recoverJournal_damaged {batches : List CommandBatch} {front back : List Bytes}
    {frame damaged : Bytes} (hframed : Framed batches (front ++ frame :: back))
    (hchange : OneChange frame damaged) :
    let journal := MemoryJournalStore.ofBytes (front.flatten ++ (damaged ++ back.flatten))
    LengthOverruns (damaged ++ back.flatten) ∧
        recoverJournal journal = (.ok ⟨batches.take front.length, front.flatten.length, true⟩,
          MemoryJournalStore.ofBytes front.flatten) ∨
      ¬LengthOverruns (damaged ++ back.flatten) ∧
        ∃ failure, recoverJournal journal = (.error (.codecFailure failure), journal) := by
  have hfront := List.forall₂_take_append batches front (frame :: back) hframed
  have hrest := List.forall₂_drop_append batches front (frame :: back) hframed
  obtain ⟨batch, _, hframe, _⟩ := List.forall₂_cons_right_iff.mp hrest
  have hpos : 0 < (damaged ++ back.flatten).length := by
    rw [List.length_append, ← hchange.length_eq]
    have h := journalFormat_lawful.frame_pos hframe
    omega
  have hne := List.ne_nil_of_length_pos hpos
  -- A damaged frame never decodes, so the scan stops in front of it.
  obtain ⟨failure, hd⟩ : ∃ failure, decodeFrame (damaged ++ back.flatten) = .error failure := by
    rcases hd : decodeFrame (damaged ++ back.flatten) with failure | ⟨other, consumed⟩
    · exact ⟨failure, rfl⟩
    · exact absurd hd (damaged_not_decoded hframe hchange)
  have hscan := journalFormat_lawful.scan_stuck hfront hne
    (journalFormat_decode_error_iff.mpr hd)
  by_cases hover : LengthOverruns (damaged ++ back.flatten)
  · left
    obtain ⟨failure', hd', hcode⟩ :=
      decodeFrame_unexpectedEnd_iff.mpr (overruns_incomplete hframe hchange hover)
    obtain rfl := Except.error.inj (hd.symm.trans hd')
    rw [if_pos (by simp [journalFormat, hcode])] at hscan
    refine ⟨hover, ?_⟩
    have hrecover := recoverJournal_memory hscan
    rw [List.take_left] at hrecover
    exact hrecover
  · right
    have hcode : failure.code ≠ .unexpectedEnd := by
      intro hcode
      have hinc := decodeFrame_unexpectedEnd_iff.mp ⟨failure, hd, hcode⟩
      refine hover (incomplete_overruns hinc ?_)
      obtain ⟨payload, _, rfl⟩ := encodeFrame_ok_iff.mp hframe
      rw [List.length_append, ← hchange.length_eq, writeFrame_length]
      simp only [frameHeaderSize]
      omega
    rw [if_neg (by simp [journalFormat, hcode])] at hscan
    exact ⟨hover, _, recoverJournal_codecFailure hscan⟩

/-- Recovery refuses a journal with one damaged byte, and leaves it as it is,
just when the damage did not make a length overrun the journal. -/
theorem damage_refused_iff {batches : List CommandBatch} {front back : List Bytes}
    {frame damaged : Bytes} (hframed : Framed batches (front ++ frame :: back))
    (hchange : OneChange frame damaged) :
    (∃ failure, recoverJournal
        (MemoryJournalStore.ofBytes (front.flatten ++ (damaged ++ back.flatten))) =
      (.error (.codecFailure failure),
        MemoryJournalStore.ofBytes (front.flatten ++ (damaged ++ back.flatten)))) ↔
      ¬LengthOverruns (damaged ++ back.flatten) := by
  rcases recoverJournal_damaged hframed hchange with ⟨hover, hok⟩ | ⟨hover, herror⟩
  · constructor
    · rintro ⟨failure, h⟩
      rw [hok] at h
      simp at h
    · intro h
      exact absurd hover h
  · exact ⟨fun _ => hover, fun _ => herror⟩

theorem sampleRunDate_valid : isCalendarDate 2024 1 2 := by decide

def sampleRunDate : IsoDate := ⟨2024, 1, 2, sampleRunDate_valid⟩

def sampleRunRequest (id : CommandId) : Bytes :=
  writeU8 1 ++ (writeId id ++ (writeU8 5 ++ writeDate sampleRunDate))

def firstRunId : CommandId := ⟨asciiBytes "run-1", by decide⟩

def secondRunId : CommandId := ⟨asciiBytes "run-2", by decide⟩

def firstRunBatch : CommandBatch :=
  ⟨1, firstRunId, sampleRunRequest firstRunId, [.eodRun ⟨sampleRunDate⟩],
    .eodRun ⟨sampleRunDate, 0, 1⟩, firstSequence_ne, by decide⟩

def secondRunBatch : CommandBatch :=
  ⟨2, secondRunId, sampleRunRequest secondRunId, [.eodRun ⟨sampleRunDate⟩],
    .eodRun ⟨sampleRunDate, 0, 2⟩, by decide, by decide⟩

def runFrame (batch : CommandBatch) : Bytes := writeFrame (writePayload batch.fields)

theorem sampleRuns_framed :
    Framed [firstRunBatch, secondRunBatch] [runFrame firstRunBatch, runFrame secondRunBatch] := by
  have hencodes (batch : CommandBatch) (hmem : batch ∈ [firstRunBatch, secondRunBatch]) :
      encodeFrame batch = .ok (runFrame batch) := by
    have hsizes : ∀ b ∈ [firstRunBatch, secondRunBatch],
        b.canonicalRequest.length ≤ maximumU32 ∧ b.events.length ≤ maximumU16 ∧
        (∀ event ∈ b.events, (encodeEvent event).body.length ≤ maximumU32) ∧
        (writePayload b.fields).length ≤ maximumPayloadLength := by decide +kernel
    obtain ⟨hr, hc, hb, hp⟩ := hsizes batch hmem
    exact encodeFrame_ok_iff.mpr ⟨_, encodePayload_ok_iff.mpr ⟨⟨hr, hc, hb⟩, rfl, hp⟩, rfl⟩
  exact .cons (hencodes _ (by simp)) (.cons (hencodes _ (by simp)) .nil)

/-- Setting one byte to another value is one change. -/
theorem oneChange_set {frame : Bytes} {i : ℕ} {byte : UInt8} (hi : i < frame.length)
    (hne : frame[i] ≠ byte) : OneChange frame (frame.set i byte) := by
  refine ⟨frame.take i, frame.drop (i + 1), frame[i], byte, hne, ?_, ?_⟩
  · rw [List.cons_getElem_drop_succ, List.take_append_drop]
  · exact List.set_eq_take_append_cons_drop.trans (if_pos hi)

/-- A damaged magic byte is refused. -/
theorem damage_refused_iff_sample : ∃ failure, recoverJournal (MemoryJournalStore.ofBytes
      (List.flatten [] ++
        ((runFrame firstRunBatch).set 0 0 ++ [runFrame secondRunBatch].flatten))) =
    (.error (.codecFailure failure), MemoryJournalStore.ofBytes
      (List.flatten [] ++
        ((runFrame firstRunBatch).set 0 0 ++ [runFrame secondRunBatch].flatten))) := by
  have hfits : ¬LengthOverruns
      ((runFrame firstRunBatch).set 0 0 ++ [runFrame secondRunBatch].flatten) := by
    unfold LengthOverruns
    decide +kernel
  exact (@damage_refused_iff _ [] _ _ _ sampleRuns_framed
    (oneChange_set (by decide +kernel) (by decide +kernel))).mpr hfits

/-- One changed byte in the length of the first frame makes recovery drop both
frames and report success. -/
theorem overrun_not_refused : ¬∀ (batches : List CommandBatch) (front back : List Bytes)
    (frame damaged : Bytes), Framed batches (front ++ frame :: back) → back ≠ [] →
    OneChange frame damaged → ∃ failure, recoverJournal
        (MemoryJournalStore.ofBytes (front.flatten ++ (damaged ++ back.flatten))) =
      (.error (.codecFailure failure),
        MemoryJournalStore.ofBytes (front.flatten ++ (damaged ++ back.flatten))) := by
  intro h
  have hchange : OneChange (runFrame firstRunBatch) ((runFrame firstRunBatch).set 6 255) :=
    oneChange_set (by decide +kernel) (by decide +kernel)
  have hover : LengthOverruns
      ((runFrame firstRunBatch).set 6 255 ++ [runFrame secondRunBatch].flatten) := by
    unfold LengthOverruns
    decide +kernel
  obtain ⟨failure, hrefused⟩ := h _ [] _ _ _ sampleRuns_framed (List.cons_ne_nil _ _) hchange
  rcases @recoverJournal_damaged _ [] _ _ _ sampleRuns_framed hchange with ⟨_, hok⟩ | ⟨hnot, _⟩
  · have houtcome := congrArg Prod.fst (hok.symm.trans hrefused)
    contradiction
  · exact hnot hover

end Backbook
