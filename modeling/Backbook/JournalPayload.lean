import Backbook.JournalCodec

namespace Backbook

open ByteParser

def maximumU32 : ℕ := 4294967295

def maximumU16 : ℕ := 65535

-- Within these limits the length prefixes lose nothing.
theorem uint32_of_length {n : ℕ} (hn : n ≤ maximumU32) : (UInt32.ofNat n).toNat = n := by
  rw [UInt32.toNat_ofNat']
  unfold maximumU32 at hn
  omega

theorem uint16_of_length {n : ℕ} (hn : n ≤ maximumU16) : (UInt16.ofNat n).toNat = n := by
  rw [UInt16.toNat_ofNat']
  unfold maximumU16 at hn
  omega

theorem UInt32.toNat_le_maximum (value : UInt32) : value.toNat ≤ maximumU32 := by
  have h := value.toNat_lt
  unfold maximumU32
  omega

theorem UInt16.toNat_le_maximum (value : UInt16) : value.toNat ≤ maximumU16 := by
  have h := value.toNat_lt
  unfold maximumU16
  omega

def writeEventRecord (event : Event) : Bytes :=
  let encoded := encodeEvent event
  writeU8 encoded.tag ++ (writeU32 (UInt32.ofNat encoded.body.length) ++ encoded.body)

def encodeEvents : List Event → Except CodecError Bytes
  | [] => .ok []
  | event :: events =>
    if (encodeEvent event).body.length > maximumU32 then .error ⟨.sizeOverflow, 0, 0⟩
    else do
      let rest ← encodeEvents events
      .ok (writeEventRecord event ++ rest)

theorem encodeEvents_ok_iff {events : List Event} {bytes : Bytes} :
    encodeEvents events = .ok bytes ↔
      (∀ event ∈ events, (encodeEvent event).body.length ≤ maximumU32) ∧
        bytes = (events.map writeEventRecord).flatten := by
  induction events generalizing bytes with
  | nil => simp [encodeEvents, eq_comm]
  | cons event events ih =>
    unfold encodeEvents
    split_ifs with hsize
    · refine ⟨nofun, ?_⟩
      rintro ⟨h, _⟩
      have hle := h event List.mem_cons_self
      omega
    · have hle : (encodeEvent event).body.length ≤ maximumU32 := by omega
      rw [Outcome.bind_ok_iff]
      constructor
      · rintro ⟨rest, hrest, h⟩
        obtain ⟨hall, rfl⟩ := ih.mp hrest
        obtain rfl := Except.ok.inj h
        exact ⟨by simpa using ⟨hle, hall⟩, by simp⟩
      · rintro ⟨hall, rfl⟩
        have hrest : ∀ other ∈ events, (encodeEvent other).body.length ≤ maximumU32 :=
          fun other hmem => hall other (List.mem_cons_of_mem _ hmem)
        exact ⟨_, ih.mpr ⟨hrest, rfl⟩, by simp⟩

def readEventRecord : Reader Event := do
  let tag ← readU8 unexpectedEnd
  let bodySize ← readU32 unexpectedEnd
  let body ← takeBytes bodySize.toNat unexpectedEnd
  let offset ← position
  -- The event reader counts from the start of its body.
  attempt ((decodeEvent tag body).mapError fun failure =>
    { failure with offset := failure.offset + (offset - body.length) })

theorem exact_readEventRecord :
    ExactOn (fun event => (encodeEvent event).body.length ≤ maximumU32) readEventRecord
      writeEventRecord := by
  apply (exact_readU8 _).field (fun event => (encodeEvent event).tag) fun _ _ => trivial
  intro tag _
  apply (exact_readU32 _).field (fun event => UInt32.ofNat (encodeEvent event).body.length)
    fun _ _ => trivial
  intro bodySize _
  apply ExactOn.of_append_nil
  apply (exact_takeBytes bodySize.toNat _).field (fun event => (encodeEvent event).body)
  · rintro event ⟨⟨hle, _⟩, rfl⟩
    exact (uint32_of_length hle).symm
  intro body hlen
  apply ExactOn.at_position
  intro offset
  apply ExactOn.decide
  intro event
  rw [Outcome.mapError_ok_iff, decodeEvent_ok_iff]
  constructor
  · intro h
    rw [h]
    have hle : body.length ≤ maximumU32 := by
      rw [hlen]
      exact UInt32.toNat_le_maximum bodySize
    have hprefix : UInt32.ofNat body.length = bodySize := by rw [hlen, UInt32.ofNat_toNat]
    exact ⟨⟨⟨hle, rfl⟩, hprefix⟩, rfl⟩
  · rintro ⟨⟨⟨_, rfl⟩, _⟩, rfl⟩
    rfl

structure PayloadFields where
  sequence : UInt64
  commandId : CommandId
  canonicalRequest : Bytes
  events : List Event
  result : CommandResult

def CommandBatch.fields (batch : CommandBatch) : PayloadFields :=
  ⟨batch.sequence, batch.commandId, batch.canonicalRequest, batch.events, batch.result⟩

structure PayloadFields.Fits (fields : PayloadFields) : Prop where
  request : fields.canonicalRequest.length ≤ maximumU32
  count : fields.events.length ≤ maximumU16
  bodies : ∀ event ∈ fields.events, (encodeEvent event).body.length ≤ maximumU32

def writePayload (fields : PayloadFields) : Bytes :=
  writeU64 fields.sequence ++ (writeId fields.commandId ++
    (writeU32 (UInt32.ofNat fields.canonicalRequest.length) ++ (fields.canonicalRequest ++
      (writeU16 (UInt16.ofNat fields.events.length) ++
        ((fields.events.map writeEventRecord).flatten ++
          (writeU8 (encodeResult fields.result).tag ++ (encodeResult fields.result).body))))))

def encodePayload (batch : CommandBatch) : Except CodecError Bytes :=
  if batch.canonicalRequest.length > maximumU32 ∨ batch.events.length > maximumU16 then
    .error ⟨.sizeOverflow, 0, 0⟩
  else do
    let events ← encodeEvents batch.events
    let result := encodeResult batch.result
    let payload := writeU64 batch.sequence ++ (writeId batch.commandId ++
      (writeU32 (UInt32.ofNat batch.canonicalRequest.length) ++ (batch.canonicalRequest ++
        (writeU16 (UInt16.ofNat batch.events.length) ++ (events ++
          (writeU8 result.tag ++ result.body))))))
    if payload.length > maximumPayloadLength then .error ⟨.payloadTooLarge, 0, payload.length⟩
    else .ok payload

theorem encodePayload_ok_iff {batch : CommandBatch} {payload : Bytes} :
    encodePayload batch = .ok payload ↔ batch.fields.Fits ∧ payload = writePayload batch.fields ∧
      payload.length ≤ maximumPayloadLength := by
  unfold encodePayload
  split_ifs with hsize
  · refine ⟨nofun, ?_⟩
    rintro ⟨⟨hr, hc, _⟩, _⟩
    simp only [CommandBatch.fields] at hr hc
    omega
  · rw [Outcome.bind_ok_iff]
    constructor
    · rintro ⟨events, hevents, h⟩
      obtain ⟨hbodies, rfl⟩ := encodeEvents_ok_iff.mp hevents
      simp only at h
      split_ifs at h with hlarge
      obtain rfl := Except.ok.inj h
      refine ⟨⟨?_, ?_, hbodies⟩, rfl, Nat.not_lt.mp hlarge⟩
      · simp only [CommandBatch.fields]
        omega
      · simp only [CommandBatch.fields]
        omega
    · rintro ⟨hfits, rfl, hle⟩
      refine ⟨_, encodeEvents_ok_iff.mpr ⟨hfits.bodies, rfl⟩, ?_⟩
      exact if_neg (Nat.not_lt.mpr hle)

def readPayload : Reader PayloadFields := do
  let sequence ← readU64 unexpectedEnd
  let commandId ← readId .command
  let requestSize ← readU32 unexpectedEnd
  let request ← takeBytes requestSize.toNat unexpectedEnd
  let eventCount ← readU16 unexpectedEnd
  let events ← many readEventRecord eventCount.toNat
  let result ← decodeResult
  pure ⟨sequence, commandId, request, events, result⟩

theorem exact_readPayload : ExactOn PayloadFields.Fits readPayload writePayload := by
  apply (exact_readU64 _).field PayloadFields.sequence fun _ _ => trivial
  intro sequence _
  apply (exact_readId .command).field PayloadFields.commandId fun _ _ => trivial
  intro commandId _
  apply (exact_readU32 _).field
    (fun fields : PayloadFields => UInt32.ofNat fields.canonicalRequest.length) fun _ _ => trivial
  intro requestSize _
  apply (exact_takeBytes requestSize.toNat _).field PayloadFields.canonicalRequest
  · rintro fields ⟨⟨⟨hfits, _⟩, _⟩, rfl⟩
    exact (uint32_of_length hfits.request).symm
  intro request hrequest
  apply (exact_readU16 _).field
    (fun fields : PayloadFields => UInt16.ofNat fields.events.length) fun _ _ => trivial
  intro eventCount _
  apply (exact_readEventRecord.many eventCount.toNat).field PayloadFields.events
  · rintro fields ⟨⟨⟨⟨⟨hfits, _⟩, _⟩, _⟩, _⟩, rfl⟩
    exact ⟨(uint16_of_length hfits.count).symm, hfits.bodies⟩
  rintro events ⟨hcount, hbodies⟩
  apply exact_decodeResult.lastField PayloadFields.result fun _ _ => trivial
  intro result fields _
  constructor
  · rintro ⟨⟨⟨⟨⟨⟨⟨_, rfl⟩, rfl⟩, _⟩, rfl⟩, _⟩, rfl⟩, rfl⟩
    rfl
  · rintro rfl
    -- The prefixes read are the lengths of what was read after them.
    have hr : request.length ≤ maximumU32 := by
      rw [hrequest]
      exact UInt32.toNat_le_maximum requestSize
    have hc : events.length ≤ maximumU16 := by
      rw [hcount]
      exact UInt16.toNat_le_maximum eventCount
    refine ⟨⟨⟨⟨⟨⟨⟨⟨hr, hc, hbodies⟩, rfl⟩, rfl⟩, ?_⟩, rfl⟩, ?_⟩, rfl⟩, rfl⟩
    · simp only [hrequest, UInt32.ofNat_toNat]
    · simp only [hcount, UInt16.ofNat_toNat]

def decodePayload (payload : Bytes) : Except CodecError CommandBatch :=
  if payload.length > maximumPayloadLength then .error ⟨.payloadTooLarge, 0, payload.length⟩
  else do
    let fields ← complete readPayload trailingBytes payload
    (CommandBatch.create fields.sequence fields.commandId fields.canonicalRequest fields.events
      fields.result).mapError fun e => ⟨.invalidBatch, 0, e.ctorIdx⟩

/-- A payload decodes to a batch just when the batch encodes to it. -/
theorem decodePayload_ok_iff {payload : Bytes} {batch : CommandBatch} :
    decodePayload payload = .ok batch ↔ encodePayload batch = .ok payload := by
  rw [encodePayload_ok_iff]
  unfold decodePayload
  split_ifs with hlarge
  · refine ⟨nofun, ?_⟩
    rintro ⟨_, _, hle⟩
    omega
  · have hle : payload.length ≤ maximumPayloadLength := Nat.not_lt.mp hlarge
    rw [Outcome.bind_ok_iff]
    simp only [exact_readPayload.complete_ok_iff, Outcome.mapError_ok_iff,
      CommandBatch.create_ok_iff]
    constructor
    · rintro ⟨⟨_, _, _, _, _⟩, ⟨hfits, rfl⟩, rfl, rfl, rfl, rfl, rfl⟩
      exact ⟨hfits, rfl, hle⟩
    · rintro ⟨hfits, rfl, _⟩
      exact ⟨batch.fields, ⟨hfits, rfl⟩, rfl, rfl, rfl, rfl, rfl⟩

/-- No payload is a proper prefix of another. -/
theorem encodePayload_prefix_free {first second : CommandBatch} {p q : Bytes} {r s : Bytes}
    (hp : encodePayload first = .ok p) (hq : encodePayload second = .ok q)
    (h : p ++ r = q ++ s) : p = q := by
  obtain ⟨hfp, rfl, _⟩ := encodePayload_ok_iff.mp hp
  obtain ⟨hfq, rfl, _⟩ := encodePayload_ok_iff.mp hq
  obtain ⟨hfields, _⟩ := exact_readPayload.append_inj hfp hfq h
  rw [hfields]

end Backbook
