import Backbook.EvaluatorReplay
import Backbook.ServiceRuns

/-! What recovery knows of a stored request: its version, its identifier, the
variant of its event, and the shape of its fields. The numbers among the fields
are neither interpreted nor compared with the event. -/
namespace Backbook

open Std ByteParser

def identifierShape : Language UInt8 := {bytes | ∃ id : TradeId, bytes = writeId id}

def numberShape (width : ℕ) : Language UInt8 := {bytes | bytes.length = width}

def codeShape {κ : Type} (code : κ → UInt8) : Language UInt8 :=
  {bytes | ∃ value, bytes = writeU8 (code value)}

def moneyShape : Language UInt8 := codeShape Currency.code * numberShape 8

def termsShape : Language UInt8 :=
  codeShape InstrumentKind.code * (numberShape 8 * (moneyShape * moneyShape))

def postingIdsShape : Language UInt8 :=
  identifierShape * (identifierShape * (identifierShape * identifierShape))

def bodyShape (tag : UInt8) : Language UInt8 :=
  if tag = 1 then
    identifierShape * (identifierShape * (identifierShape * (identifierShape * termsShape)))
  else if tag = 2 then identifierShape * (numberShape 4 * postingIdsShape)
  else if tag = 3 then
    identifierShape * (numberShape 4 * (termsShape * (postingIdsShape * postingIdsShape)))
  else if tag = 4 then
    identifierShape * (numberShape 4 * ({writeU8 0} + {writeU8 1} * postingIdsShape))
  else if tag = 5 then numberShape 4
  else 0

def requestShape (commandId : CommandId) (tag : UInt8) : Language UInt8 :=
  {bytes | ∃ body ∈ bodyShape tag, bytes =
    writeU8 commandRequestFormatVersion ++ (writeId commandId ++ (writeU8 tag ++ body))}

/-- The checks of an identifier, in the words of its parser. -/
theorem validateId_of_validId {value : Bytes} (hv : Request.validId value = true)
    (hl : value.length ≤ 64) : validateId value = .ok () := by
  cases value with
  | nil => cases hv
  | cons first rest =>
    simp only [Request.validId, Bool.and_eq_true] at hv
    have hlen : ¬(first :: rest).length > 64 := by omega
    unfold validateId
    simp only [hlen, hv.1, hv.2, Bool.not_true, Bool.false_eq_true, if_false]

theorem Request.readId_ok_iff (tag : IdTag) {i j : Input} {value : Bytes} :
    Request.readId i = .ok (value, j) ↔
      ∃ id : Id tag, id.value = value ∧ Reads i (writeId id) j := by
  constructor
  · intro h
    obtain ⟨length, k, hlength, h⟩ := ByteParser.bind_ok_iff.mp h
    obtain ⟨_, hrl⟩ := (exact_readU16 malformed _ _ _).mp hlength
    split_ifs at h with hbad
    · exact (throw_ne_ok h).elim
    · obtain ⟨bytes, l, htake, h⟩ := ByteParser.bind_ok_iff.mp h
      obtain ⟨hlen, hrv⟩ := takeBytes_ok_iff.mp htake
      split_ifs at h with hvalid
      · obtain ⟨rfl, rfl⟩ := ByteParser.pure_ok_iff.mp h
        have hle : bytes.length ≤ 64 := by
          have hn := UInt16.not_lt.mp (not_or.mp hbad).2
          rw [UInt16.le_iff_toNat_le] at hn
          have h64 : (64 : UInt16).toNat = 64 := rfl
          omega
        refine ⟨⟨bytes, validateId_of_validId hvalid hle⟩, rfl, ?_⟩
        -- The prefix that was read is the length of what was read after it.
        have hcount : UInt16.ofNat bytes.length = length := by
          rw [hlen, UInt16.ofNat_toNat]
        unfold writeId
        rw [hcount]
        exact reads_append.mpr ⟨k, hrl, hrv⟩
      · exact (throw_ne_ok h).elim
  · rintro ⟨id, rfl, hr⟩
    exact consumes_readId id i j hr

theorem accepts_skipId : Accepts Request.skipId identifierShape := by
  intro i j
  simp only [Request.skipId, ByteParser.bind_ok_iff, Request.readId_ok_iff .trade,
    ByteParser.pure_ok_iff]
  constructor
  · rintro ⟨_, _, ⟨id, _, hr⟩, _, rfl⟩
    exact ⟨_, ⟨id, rfl⟩, hr⟩
  · rintro ⟨_, ⟨id, rfl⟩, hr⟩
    exact ⟨_, j, ⟨id, rfl, hr⟩, trivial, rfl⟩

theorem accepts_skipNumber (width : ℕ) : Accepts (Request.skip width) (numberShape width) :=
  accepts_skip width malformed

/-- A closed enumeration is checked by the bound of its codes. -/
theorem accepts_code {κ : Type} (code : κ → UInt8) {last : UInt8} {rest : RequestReader Unit}
    {M : Language UInt8} (hcode : ∀ byte, byte ≤ last ↔ ∃ value, code value = byte)
    (hrest : Accepts rest M) :
    Accepts (do
      let byte ← readU8 malformed
      if byte ≤ last then rest else throw .malformed) (codeShape code * M) := by
  have h := (exact_readU8 malformed).accepts (M := fun byte => if byte ≤ last then M else 0)
    (f := fun byte => if byte ≤ last then rest else throw .malformed) (by
      intro byte _
      by_cases hle : byte ≤ last
      · simpa only [hle, if_true] using hrest
      · simpa only [hle, if_false] using accepts_throw _)
  intro i j
  rw [h]
  constructor
  · rintro ⟨_, ⟨byte, _, tail, hmem, rfl⟩, hr⟩
    by_cases hle : byte ≤ last
    · rw [if_pos hle] at hmem
      obtain ⟨value, rfl⟩ := (hcode byte).mp hle
      exact ⟨_, Language.append_mem_mul ⟨value, rfl⟩ hmem, hr⟩
    · rw [if_neg hle] at hmem
      exact hmem.elim
  · rintro ⟨_, hmem, hr⟩
    obtain ⟨_, ⟨value, rfl⟩, tail, htail, rfl⟩ := Language.mem_mul.mp hmem
    refine ⟨_, ⟨code value, trivial, tail, ?_, rfl⟩, hr⟩
    rw [if_pos ((hcode _).mpr ⟨value, rfl⟩)]
    exact htail

theorem accepts_readMoney : Accepts Request.readMoney moneyShape := by
  apply accepts_code Currency.code _ (accepts_skipNumber 8)
  intro byte
  constructor
  · intro hle
    obtain ⟨currency, hok⟩ : ∃ currency, currencyOfTag 0 byte = .ok currency := by
      unfold currencyOfTag
      split_ifs with h0 h1 h2
      · exact ⟨_, rfl⟩
      · exact ⟨_, rfl⟩
      · exact ⟨_, rfl⟩
      · grind
    exact ⟨currency, currencyOfTag_ok_iff.mp hok⟩
  · rintro ⟨currency, rfl⟩
    cases currency <;> decide

theorem accepts_readTerms : Accepts Request.readTerms termsShape := by
  apply accepts_code InstrumentKind.code _
    ((accepts_skipNumber 8).seq (accepts_readMoney.seq accepts_readMoney))
  intro byte
  constructor
  · intro hle
    obtain ⟨kind, hok⟩ : ∃ kind, instrumentKindOfTag 0 byte = .ok kind := by
      unfold instrumentKindOfTag
      split_ifs with h0 h1
      · exact ⟨_, rfl⟩
      · exact ⟨_, rfl⟩
      · grind
    exact ⟨kind, instrumentKindOfTag_ok_iff.mp hok⟩
  · rintro ⟨kind, rfl⟩
    cases kind <;> decide

theorem accepts_readPostingIds : Accepts Request.readPostingIds postingIdsShape :=
  accepts_skipId.seq (accepts_skipId.seq (accepts_skipId.seq accepts_skipId))

/-- A flag decides whether the reversals follow. -/
theorem accepts_reversals : Accepts (do
      let hasReversalIds ← readU8 malformed
      if hasReversalIds > 1 then throw .malformed
      else if hasReversalIds = 0 then pure ()
      else Request.readPostingIds)
    ({writeU8 0} + {writeU8 1} * postingIdsShape) := by
  have h := (exact_readU8 malformed).accepts
    (M := fun flag => if flag > 1 then 0 else if flag = 0 then 1 else postingIdsShape)
    (f := fun flag => if flag > 1 then throw .malformed
      else if flag = 0 then pure () else Request.readPostingIds) (by
      intro flag _
      split_ifs
      · exact accepts_throw _
      · exact accepts_pure
      · exact accepts_readPostingIds)
  intro i j
  rw [h]
  constructor
  · rintro ⟨_, ⟨flag, _, tail, hmem, rfl⟩, hr⟩
    split_ifs at hmem with hbig hzero
    · exact hmem.elim
    · obtain rfl : tail = [] := hmem
      rw [hzero, List.append_nil] at hr
      exact ⟨_, Or.inl rfl, hr⟩
    · obtain rfl : flag = 1 := by grind
      exact ⟨_, Or.inr (Language.append_mem_mul rfl hmem), hr⟩
  · rintro ⟨_, rfl | hmem, hr⟩
    · exact ⟨_, ⟨0, trivial, [], rfl, List.append_nil _⟩, hr⟩
    · obtain ⟨_, rfl, tail, htail, rfl⟩ := Language.mem_mul.mp hmem
      exact ⟨_, ⟨1, trivial, tail, htail, rfl⟩, hr⟩

theorem accepts_readCommandBody (tag : UInt8) :
    Accepts (Request.readCommandBody tag) (bodyShape tag) := by
  unfold Request.readCommandBody bodyShape
  split_ifs
  · exact accepts_skipId.seq (accepts_skipId.seq (accepts_skipId.seq
      (accepts_skipId.seq accepts_readTerms)))
  · exact accepts_skipId.seq ((accepts_skipNumber 4).seq accepts_readPostingIds)
  · exact accepts_skipId.seq ((accepts_skipNumber 4).seq (accepts_readTerms.seq
      (accepts_readPostingIds.seq accepts_readPostingIds)))
  · exact accepts_skipId.seq ((accepts_skipNumber 4).seq accepts_reversals)
  · exact accepts_skipNumber 4
  · exact accepts_throw _

/-- The check of a stored request, as a language. -/
theorem validate_ok_iff {bytes : Bytes} {commandId : CommandId} {tag : UInt8} :
    validateCanonicalCommandRequest bytes commandId = .ok tag ↔
      bytes ∈ requestShape commandId tag := by
  constructor
  · intro h
    unfold validateCanonicalCommandRequest ByteParser.complete at h
    split_ifs at h
    obtain ⟨⟨found, last⟩, hparse, h⟩ := Outcome.bind_ok_iff.mp h
    obtain ⟨version, i, hversion, hparse⟩ := ByteParser.bind_ok_iff.mp hparse
    split_ifs at hparse with hv
    · exact (throw_ne_ok hparse).elim
    obtain ⟨encoded, j, hencoded, hparse⟩ := ByteParser.bind_ok_iff.mp hparse
    split_ifs at hparse with hid
    · exact (throw_ne_ok hparse).elim
    obtain ⟨tag', k, htag, hparse⟩ := ByteParser.bind_ok_iff.mp hparse
    obtain ⟨_, l, hbody, hparse⟩ := ByteParser.bind_ok_iff.mp hparse
    obtain ⟨rfl, rfl⟩ := ByteParser.pure_ok_iff.mp hparse
    simp only at h
    split_ifs at h with hrest
    obtain rfl := Except.ok.inj h
    -- Each part was read from where the part before it ended.
    obtain ⟨_, hr, _⟩ := (exact_readU8 _ _ _ _).mp hversion
    obtain ⟨id, hvalue, hr', _⟩ := (Request.readId_ok_iff .command).mp hencoded
    obtain ⟨_, hr'', _⟩ := (exact_readU8 _ _ _ _).mp htag
    obtain ⟨body, hmem, hr''', _⟩ := (accepts_readCommandBody _ _ _).mp hbody
    have hend : l.rest = [] := by simpa using hrest
    obtain rfl : id = commandId := Id.ext (hvalue.trans (not_not.mp hid))
    refine ⟨body, hmem, ?_⟩
    rw [hend, List.append_nil] at hr'''
    rw [← not_not.mp hv, ← hr''', ← hr'', ← hr', ← hr]
    rfl
  · rintro ⟨body, hmem, rfl⟩
    unfold validateCanonicalCommandRequest
    rw [if_neg (by simp [writeU8, leBytes])]
    have hbody : Consumes (Request.readCommandBody tag) body () := by
      intro i j hr
      exact (accepts_readCommandBody tag i j).mpr ⟨body, hmem, hr⟩
    apply Consumes.complete
    apply ((exact_readU8 _).consumes trivial).bind
    rw [if_neg (not_not.mpr rfl)]
    apply (consumes_readId _).bind
    rw [if_neg (not_not.mpr rfl)]
    apply ((exact_readU8 _).consumes trivial).bind
    exact hbody.last (consumes_pure _)

section Recovery

variable {limits : LimitHierarchy} {batches : List CommandBatch} {state : State}

/-- Replay takes only batches of one event. -/
theorem replayBatches_events {first : State} {sequence : UInt64} {reached : State × UInt64}
    (h : replayBatches batches first sequence = .ok reached) :
    ∀ batch ∈ batches, ∃ event, batch.events = [event] := by
  induction batches generalizing first sequence with
  | nil => exact nofun
  | cons batch batches ih =>
    obtain ⟨next, hbatch, hrest⟩ := Outcome.bind_ok_iff.mp h
    intro other hmem
    rcases List.mem_cons.mp hmem with rfl | hmem
    · unfold replayBatch at hbatch
      split_ifs at hbatch
      split at hbatch
      · rename_i event hevents
        exact ⟨event, hevents⟩
      · cases hbatch
    · exact ih hrest other hmem

theorem replay_events (h : replay limits batches = .ok state) :
    ∀ batch ∈ batches, ∃ event, batch.events = [event] := by
  obtain ⟨reached, hbatches, _⟩ := Outcome.bind_ok_iff.mp h
  exact replayBatches_events hbatches

/-- A record that is in the index stays in it. -/
theorem emplaceRecords_kept {index result : IdempotencyIndex} {id : CommandId}
    {record : IdempotencyRecord} (h : batches.foldlM emplaceRecord index = .ok result)
    (hrecord : index[id]? = some record) : result[id]? = some record := by
  induction batches generalizing index with
  | nil =>
    obtain rfl := Except.ok.inj h
    exact hrecord
  | cons batch batches ih =>
    rw [List.foldlM_cons] at h
    obtain ⟨next, hnext, hrest⟩ := Outcome.bind_ok_iff.mp h
    unfold emplaceRecord at hnext
    split_ifs at hnext with hin
    obtain rfl := Except.ok.inj hnext
    apply ih hrest
    have hne : id ≠ batch.commandId := by
      rintro rfl
      apply hin
      rw [ExtTreeMap.mem_iff_isSome_getElem?, hrecord]
      rfl
    rw [OrderedMap.getElem?_insert_eq, if_neg hne, hrecord]

/-- Every batch has its own record. -/
theorem emplaceRecords_found {index result : IdempotencyIndex}
    (h : batches.foldlM emplaceRecord index = .ok result) :
    ∀ batch ∈ batches,
      result[batch.commandId]? = some ⟨batch.canonicalRequest, batch.result⟩ := by
  induction batches generalizing index with
  | nil => exact nofun
  | cons batch batches ih =>
    rw [List.foldlM_cons] at h
    obtain ⟨next, hnext, hrest⟩ := Outcome.bind_ok_iff.mp h
    intro other hmem
    rcases List.mem_cons.mp hmem with rfl | hmem
    · unfold emplaceRecord at hnext
      split_ifs at hnext
      obtain rfl := Except.ok.inj hnext
      exact emplaceRecords_kept hrest ExtTreeMap.getElem?_insert_self
    · exact ih hrest other hmem

theorem forM_ok {α ε : Type} {xs : List α} {f : α → Except ε Unit} (h : xs.forM f = .ok ()) :
    ∀ x ∈ xs, f x = .ok () := by
  induction xs with
  | nil => exact nofun
  | cons x xs ih =>
    obtain ⟨_, hx, hrest⟩ := Outcome.bind_ok_iff.mp h
    intro other hmem
    rcases List.mem_cons.mp hmem with rfl | hmem
    · exact hx
    · exact ih hrest other hmem

/-- Everything that a creation which succeeds has gone through. -/
theorem CommandService.create_ok {S : Type} [JournalStore S] {store : S}
    {service : CommandService S}
    (h : CommandService.create (some store) limits = .ok service) :
    ∃ recovered, recoverJournal store = (.ok recovered, service.store) ∧
      (∀ batch ∈ recovered.batches, validateBatchRequest batch = .ok ()) ∧
      replay limits recovered.batches = .ok service.snapshot ∧
      recovered.batches.foldlM emplaceRecord ∅ = .ok service.idempotency := by
  unfold CommandService.create at h
  simp only at h
  split at h
  · cases h
  · rename_i recovered after hrecover
    simp only [Outcome.bind_ok_iff, Outcome.mapError_ok_iff] at h
    obtain ⟨_, hvalid, state, hreplay, index, hindex, h⟩ := h
    obtain rfl := Except.ok.inj h
    exact ⟨recovered, hrecover, forM_ok hvalid, hreplay, hindex⟩

/-- A batch that passes has a request of the shape of its event. -/
theorem validateBatchRequest_ok {batch : CommandBatch} {event : Event}
    (hevents : batch.events = [event]) (h : validateBatchRequest batch = .ok ()) :
    batch.canonicalRequest ∈ requestShape batch.commandId (eventTag event) := by
  obtain ⟨tag, hvalid, h⟩ := Outcome.bind_ok_iff.mp h
  rw [hevents] at h
  simp only at h
  split_ifs at h with hne
  have htag : tag = eventTag event := by
    apply UInt8.toNat_inj.mp
    rw [eventTag_toNat]
    exact not_not.mp hne
  rw [← htag]
  exact validate_ok_iff.mp hvalid

/-- In a journal of its own commits, a service finds canonical requests only. -/
theorem Committed.canonical (h : Committed limits batches state) : ∀ batch ∈ batches,
    ∃ event, batch.events = [event] ∧
      canonicalCommandBytes ⟨batch.commandId, event.command⟩ = .ok batch.canonicalRequest := by
  induction h with
  | nil => exact nofun
  | @commit batches state envelope evaluation last _ hc ih =>
    intro batch hmem
    rcases List.mem_append.mp hmem with hmem | hmem
    · exact ih batch hmem
    · obtain rfl := List.mem_singleton.mp hmem
      obtain ⟨hevent, _⟩ := evaluateCommand_ok hc.evaluated
      refine ⟨evaluation.event, hc.events, ?_⟩
      rw [hevent, Command.event_command, hc.commandId]
      exact hc.request

end Recovery

section Strays

def strayDate : IsoDate := ⟨2024, 1, 3, by decide⟩

def strayBatch : CommandBatch where
  sequence := 1
  commandId := sampleId .command
  canonicalRequest := writeU8 commandRequestFormatVersion ++
    (writeId (sampleId .command) ++ writeCommand (.runEod ⟨strayDate⟩))
  events := [.eodRun ⟨sampleDate⟩]
  result := .eodRun ⟨sampleDate, 0, 0⟩
  sequence_ne := firstSequence_ne
  result_le := by decide

/-- The last day that four bytes can name, far behind the calendar. -/
def strayRequest : Bytes :=
  writeU8 commandRequestFormatVersion ++
    (writeId (sampleId .command) ++ (writeU8 5 ++ [255, 255, 255, 127]))

theorem strayRequest_not_canonical (envelope : CommandEnvelope) :
    canonicalCommandBytes envelope ≠ .ok strayRequest := by
  intro h
  rw [canonicalCommandBytes_eq] at h
  have hfields := List.append_cancel_left (Except.ok.inj h)
  obtain ⟨_, hcommand⟩ := (exact_readId .command).append_inj trivial trivial hfields
  obtain ⟨htag, hbody⟩ := (exact_readU8 malformed).append_inj trivial trivial hcommand
  rw [writeCommandFields_eq] at hbody
  rw [commandTag_eq] at htag
  -- The reader of the journal interprets the date, and there is no such date.
  have hread := (exact_readEvent 5).decode_append htag [] 0
  rw [List.append_nil, hbody] at hread
  have hfails : (readEvent 5 ⟨[255, 255, 255, 127], 0⟩).isOk = false := by decide +kernel
  rw [hread] at hfails
  cases hfails

/-- The journal of this one batch is accepted. -/
theorem create_strayBatch : ∃ frame, encodeFrame strayBatch = .ok frame ∧
    ∃ service : CommandService MemoryJournalStore,
      CommandService.create (some (MemoryJournalStore.ofBytes frame)) ⟨∅⟩ = .ok service := by
  obtain ⟨frame, hframe⟩ := ok_of_isOk (x := encodeFrame strayBatch) (by decide +kernel)
  have hrun : (match encodeFrame strayBatch with
      | .ok frame => (CommandService.create (some (MemoryJournalStore.ofBytes frame)) ⟨∅⟩).isOk
      | .error _ => false) = true := by decide +kernel
  simp only [hframe] at hrun
  obtain ⟨service, hcreate⟩ := ok_of_isOk hrun
  exact ⟨frame, hframe, service, hcreate⟩

/-- A journal is accepted although a request in it belongs to another command, and
the check accepts a request that no command has. -/
theorem recovered_request_not_canonical :
    (∃ (bytes : Bytes) (limits : LimitHierarchy) (service : CommandService MemoryJournalStore)
      (scan : JournalScanResult) (batch : CommandBatch) (event : Event),
      CommandService.create (some (MemoryJournalStore.ofBytes bytes)) limits = .ok service ∧
      scanJournal bytes = .ok scan ∧ batch ∈ scan.batches ∧ batch.events = [event] ∧
      canonicalCommandBytes ⟨batch.commandId, event.command⟩ ≠ .ok batch.canonicalRequest) ∧
    ∃ bytes commandId tag, validateCanonicalCommandRequest bytes commandId = .ok tag ∧
      ∀ envelope, canonicalCommandBytes envelope ≠ .ok bytes := by
  constructor
  · obtain ⟨frame, hframe, service, hcreate⟩ := create_strayBatch
    have hscan := journalFormat_lawful.scan_frames (.cons hframe .nil)
    rw [List.flatten_singleton] at hscan
    refine ⟨frame, _, service, _, strayBatch, _, hcreate, hscan, List.mem_singleton_self _, rfl, ?_⟩
    intro hcanonical
    have hother : canonicalCommandBytes ⟨strayBatch.commandId, .runEod ⟨strayDate⟩⟩ =
        .ok strayBatch.canonicalRequest := canonicalCommandBytes_eq _
    have hsame := canonicalCommandBytes_injective hcanonical hother
    have hdate : sampleDate ≠ strayDate := by decide
    simp only [CommandEnvelope.mk.injEq, Event.command, Command.runEod.injEq,
      RunEodCommand.mk.injEq, true_and] at hsame
    exact hdate hsame
  · exact ⟨strayRequest, sampleId .command, 5, by decide +kernel, strayRequest_not_canonical⟩

end Strays

/-- Recovery validates the shape of a stored request: exactly the version, the
identifier of the batch, the variant of its one event, and fields of that variant
with numbers of any value. It records the request as it is. What a service has
written itself is the canonical request of its event's command. -/
theorem recovered_requests_have_shape :
    (∀ (bytes : Bytes) (commandId : CommandId) (tag : UInt8),
      validateCanonicalCommandRequest bytes commandId = .ok tag ↔
        bytes ∈ requestShape commandId tag) ∧
    (∀ (S : Type) [JournalStore S] (store : S) (limits : LimitHierarchy)
      (service : CommandService S), CommandService.create (some store) limits = .ok service →
      ∃ recovered, (recoverJournal store).1 = .ok recovered ∧
        ∀ batch ∈ recovered.batches, ∃ event, batch.events = [event] ∧
          batch.canonicalRequest ∈ requestShape batch.commandId (eventTag event) ∧
          service.idempotency[batch.commandId]? =
            some ⟨batch.canonicalRequest, batch.result⟩) ∧
    ∀ (limits : LimitHierarchy) (service : FileService), service.Reachable limits →
      ∃ scan, scanJournal service.store.bytes = .ok scan ∧
        ∀ batch ∈ scan.batches, ∃ event, batch.events = [event] ∧
          canonicalCommandBytes ⟨batch.commandId, event.command⟩ =
            .ok batch.canonicalRequest := by
  refine ⟨fun bytes commandId tag => validate_ok_iff, ?_, ?_⟩
  · intro S _ store limits service hcreate
    obtain ⟨recovered, hrecover, hvalid, hreplay, hindex⟩ := CommandService.create_ok hcreate
    refine ⟨recovered, by rw [hrecover], fun batch hmem => ?_⟩
    obtain ⟨event, hevents⟩ := replay_events hreplay batch hmem
    exact ⟨event, hevents, validateBatchRequest_ok hevents (hvalid batch hmem),
      emplaceRecords_found hindex batch hmem⟩
  · intro limits service hr
    obtain ⟨batches, frames, tail, hdurable⟩ := hr.durable
    obtain ⟨kept, whole, state, torn, _, _, hcommitted, _, hscan, _⟩ := hdurable.scan
    exact ⟨_, hscan, hcommitted.canonical⟩

theorem recovered_requests_have_shape_sample : ∃ frame, encodeFrame strayBatch = .ok frame ∧
    ∃ recovered, (recoverJournal (MemoryJournalStore.ofBytes frame)).1 = .ok recovered ∧
      ∀ batch ∈ recovered.batches, ∃ event, batch.events = [event] ∧
        batch.canonicalRequest ∈ requestShape batch.commandId (eventTag event) := by
  obtain ⟨frame, hframe, service, hcreate⟩ := create_strayBatch
  obtain ⟨recovered, hrecovered, hall⟩ :=
    recovered_requests_have_shape.2.1 MemoryJournalStore _ ⟨∅⟩ service hcreate
  refine ⟨frame, hframe, recovered, hrecovered, fun batch hmem => ?_⟩
  obtain ⟨event, hevents, hshape, _⟩ := hall batch hmem
  exact ⟨event, hevents, hshape⟩

end Backbook
