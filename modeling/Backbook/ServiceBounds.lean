import Backbook.CrashRecovery
import Backbook.EvaluatorReplay

namespace Backbook

open Std ByteParser FramedLog Relation

theorem writeId_length_le {tag : IdTag} (id : Id tag) : (writeId id).length ≤ 66 := by
  have hid := id.length_le
  simp only [writeId, writeU16, List.length_append, leBytes_length]
  omega

@[simp] theorem writeDate_length (date : IsoDate) : (writeDate date).length = 4 :=
  leBytes_length 4 _

@[simp] theorem writeTerms_length (terms : FxTerms) : (writeTerms terms).length = 27 := by
  simp [writeTerms, writeInstrumentKind, writeMoney, writeCurrency, writeU8, writeI64, writeU64]

theorem writeFourIds_length_le (a b c d : PostingId) : (writeFourIds a b c d).length ≤ 264 := by
  have ha := writeId_length_le a
  have hb := writeId_length_le b
  have hc := writeId_length_le c
  have hd := writeId_length_le d
  simp only [writeFourIds, List.length_append]
  omega

theorem writeReversalOption_length_le (reversalIds : Option ReversalPostingIds) :
    (writeReversalOption reversalIds).length ≤ 265 := by
  cases reversalIds with
  | none => simp [writeReversalOption, writeU8]
  | some ids =>
    have hids := writeFourIds_length_le ids.payControlCredit ids.payPayableDebit
      ids.receiveReceivableCredit ids.receiveControlDebit
    simp only [writeReversalOption, Option.elim_some, writeReversalIds, writeU8,
      List.length_append, leBytes_length]
    omega

/-- An event holds the fields of its command. -/
theorem writeEvent_length_le (event : Event) : (writeEvent event).length ≤ 625 := by
  cases event with
  | tradeBooked value =>
    have ht := writeId_length_le value.tradeId
    have hb := writeId_length_le value.bookId
    have hc := writeId_length_le value.counterpartyId
    have hn := writeId_length_le value.nettingSetId
    simp only [writeEvent, writeTradeBookedEvent, List.length_append, writeTerms_length]
    omega
  | tradeConfirmed value =>
    have ht := writeId_length_le value.tradeId
    have hp := writeFourIds_length_le value.postingIds.payControlDebit
      value.postingIds.payPayableCredit value.postingIds.receiveReceivableDebit
      value.postingIds.receiveControlCredit
    simp only [writeEvent, writeTradeConfirmedEvent, writeConfirmationIds, List.length_append,
      writeU32_length]
    omega
  | tradeAmended value =>
    have ht := writeId_length_le value.tradeId
    have hr := writeFourIds_length_le value.reversalIds.payControlCredit
      value.reversalIds.payPayableDebit value.reversalIds.receiveReceivableCredit
      value.reversalIds.receiveControlDebit
    have hp := writeFourIds_length_le value.replacementPostingIds.payControlDebit
      value.replacementPostingIds.payPayableCredit
      value.replacementPostingIds.receiveReceivableDebit
      value.replacementPostingIds.receiveControlCredit
    simp only [writeEvent, writeTradeAmendedEvent, writeReversalIds, writeConfirmationIds,
      List.length_append, writeU32_length, writeTerms_length]
    omega
  | tradeCancelled value =>
    have ht := writeId_length_le value.tradeId
    have hr := writeReversalOption_length_le value.reversalIds
    simp only [writeEvent, writeTradeCancelledEvent, List.length_append, writeU32_length]
    omega
  | eodRun value =>
    rw [writeEvent, writeDate_length]
    omega

/-- Identifiers are short, so a command always has canonical bytes, and few. -/
theorem canonicalCommandBytes_succeeds (envelope : CommandEnvelope) : ∃ canonical,
    canonicalCommandBytes envelope = .ok canonical ∧ canonical.length ≤ 693 := by
  have hwritten := writeId_length_le envelope.commandId
  have hfields := writeEvent_length_le envelope.command.event
  refine ⟨_, canonicalCommandBytes_eq envelope, ?_⟩
  simp only [writeCommand, writeCommandFields_eq, writeU8, List.length_append, leBytes_length]
  omega

theorem writeResult_length_le (result : CommandResult) : (writeResult result).length ≤ 82 := by
  have hversion (value : TradeId × UInt32 × UInt64) :
      (writeTradeVersionResult value).length ≤ 78 := by
    have ht := writeId_length_le value.1
    simp only [writeTradeVersionResult, writeU64, List.length_append, writeU32_length,
      leBytes_length]
    omega
  cases result with
  | tradeBooked value => exact (hversion _).trans (by omega)
  | tradeConfirmed value => exact (hversion _).trans (by omega)
  | tradeAmended value =>
    have ht := writeId_length_le value.tradeId
    simp only [writeResult, writeTradeAmendedResult, writeU64, List.length_append,
      writeU32_length, leBytes_length]
    omega
  | tradeCancelled value => exact (hversion _).trans (by omega)
  | eodRun value =>
    simp only [writeResult, writeEodRunResult, writeU64, List.length_append, writeDate_length,
      writeU32_length, leBytes_length]
    omega

/-- A batch of one event and a short request is far from every size limit. -/
theorem encodePayload_succeeds {batch : CommandBatch} {event : Event}
    (hrequest : batch.canonicalRequest.length ≤ 693) (hevents : batch.events = [event]) :
    ∃ payload, encodePayload batch = .ok payload ∧ payload.length < maximumPayloadLength := by
  have hevent := writeEvent_length_le event
  have hbody : (encodeEvent event).body.length ≤ 626 := by
    simp only [encodeEvent, writeU8, List.length_append, leBytes_length]
    omega
  -- Each size limit of the format is far above what one event can take.
  have hfits : batch.fields.Fits := by
    refine ⟨?_, ?_, ?_⟩
    · exact hrequest.trans (by decide)
    · rw [CommandBatch.fields, hevents]
      exact Nat.le_of_ble_eq_true rfl
    · intro other hother
      rw [CommandBatch.fields, hevents, List.mem_singleton] at hother
      rw [hother]
      exact hbody.trans (by decide)
  have hshort : (writePayload batch.fields).length < maximumPayloadLength := by
    have hid := writeId_length_le batch.commandId
    have hresult := writeResult_length_le batch.result
    simp only [writePayload, CommandBatch.fields, hevents, List.map_cons, List.map_nil,
      List.flatten_cons, List.flatten_nil, List.append_nil, writeEventRecord, encodeResult,
      writeU64, writeU16, writeU8, List.length_append, writeU32_length, leBytes_length,
      maximumPayloadLength]
    omega
  exact ⟨_, encodePayload_ok_iff.mpr ⟨hfits, rfl, hshort.le⟩, hshort⟩

variable {S : Type} [JournalStore S] {limits : LimitHierarchy} {service next : CommandService S}

/-- Any client's command, or anything that happens to the store between two. -/
inductive CommandService.Step : CommandService S → CommandService S → Prop
  | execute (service : CommandService S) (envelope : CommandEnvelope) :
      Step service (service.execute envelope).2
  | store (service : CommandService S) (store : S) : Step service { service with store := store }

structure CommandService.Counted (limits : LimitHierarchy) (service : CommandService S) :
    Prop where
  reachable : service.snapshot.Reachable limits
  behind : service.nextSequence ≠ 0 →
    service.snapshot.version.toNat < service.nextSequence.toNat

/-- An operation takes at most one state version. -/
theorem applyEvent_version_le {state after : State} {event : Event} (hs : state.Coherent)
    (h : applyEvent state event = .ok after) :
    after.version.toNat ≤ state.version.toNat + 1 := by
  rw [applyEvent_eq] at h
  rcases Operation.version_cases hs h with ⟨_, rfl⟩ | ⟨_, hv, hnext⟩
  · omega
  · rw [hnext, toNat_next_version hv]

theorem CommandService.Counted.step (h : service.Counted limits) (hstep : Step service next) :
    next.Counted limits := by
  cases hstep with
  | store store => exact ⟨h.reachable, h.behind⟩
  | execute envelope =>
    -- Only a commit moves snapshot and sequence, and it moves them together.
    rcases service.execute_cases envelope with ⟨hsame, _⟩ |
      ⟨canonical, frame, evaluation, batch, hp, ⟨failure, store, _, hexec⟩ | ⟨store, _, hexec⟩⟩
    · rw [hsame]
      exact h
    · rw [hexec]
      exact ⟨h.reachable, h.behind⟩
    · obtain ⟨_, happly, _⟩ := evaluateCommand_ok hp.evaluated
      have hversion := applyEvent_version_le h.reachable.coherent happly
      have hbehind := h.behind hp.sequence_ne
      rw [hexec]
      refine ⟨h.reachable.tail (applyEvent_step happly), ?_⟩
      simp only [followingSequence]
      split_ifs with hlast
      · exact fun hzero => absurd rfl hzero
      · intro _
        rw [toNat_next_version hlast]
        omega

theorem CommandService.Counted.of_empty {store after : S} {first : CommandService S}
    (hempty : JournalStore.readAll store = (.ok [], after))
    (hcreate : CommandService.create (some store) limits = .ok first)
    (hrun : ReflTransGen Step first service) : service.Counted limits := by
  refine RunHistory.invariant_of_steps ?_ (fun _ _ hs hstep => hs.step hstep) hrun
  rw [CommandService.create_empty hempty] at hcreate
  rw [← Except.ok.inj hcreate]
  exact ⟨.refl, fun _ => Nat.zero_lt_one⟩

section Counted

variable {envelope : CommandEnvelope} {after : State}

/-- A run can settle no more versions than there are. -/
theorem Event.countable_of_size {state : State} (hsize : state.trades.size < 2 ^ 32)
    (event : Event) : event.Countable state :=
  fun value _ => (state.eligible_length_le value.asOfDate).trans_lt hsize

omit [JournalStore S] in
/-- A command that applies is evaluated, and its batch fits everywhere. -/
theorem CommandService.Counted.writes (h : service.Counted limits) (hb : limits.Built)
    (hsize : service.snapshot.trades.size < 2 ^ 32)
    (happly : applyEvent service.snapshot envelope.command.event = .ok after)
    (hne : service.nextSequence ≠ 0) : ∃ canonical evaluation batch payload,
      canonicalCommandBytes envelope = .ok canonical ∧
      evaluateCommand service.snapshot envelope.command = .ok evaluation ∧
      evaluation.prospectiveState = after ∧
      CommandBatch.create service.nextSequence envelope.commandId canonical [evaluation.event]
        evaluation.result = .ok batch ∧
      encodePayload batch = .ok payload ∧ payload.length < maximumPayloadLength := by
  obtain ⟨canonical, hcanonical, hshort⟩ := canonicalCommandBytes_succeeds envelope
  have heval := evaluateCommand_of_applyEvent hb h.reachable happly
    (Event.countable_of_size hsize _)
  rw [Command.event_command] at heval
  have hversion := applyEvent_version_le h.reachable.coherent happly
  have hbehind := h.behind hne
  -- The batch type demands this bound, so the batch can be built.
  have hresult : resultStateVersion (envelope.command.event.result service.snapshot after) ≤
      service.nextSequence := by
    have hstate : resultStateVersion (envelope.command.event.result service.snapshot after) =
        after.version := by
      cases envelope.command <;> rfl
    rw [hstate, UInt64.le_iff_toNat_le]
    omega
  let batch : CommandBatch := ⟨service.nextSequence, envelope.commandId, canonical,
    [envelope.command.event], envelope.command.event.result service.snapshot after, hne, hresult⟩
  have hbatch : CommandBatch.create service.nextSequence envelope.commandId canonical
      [envelope.command.event] (envelope.command.event.result service.snapshot after) =
        .ok batch := CommandBatch.create_ok_iff.mpr ⟨rfl, rfl, rfl, rfl, rfl⟩
  have hrequest : batch.canonicalRequest.length ≤ 693 := hshort
  obtain ⟨payload, hpayload, hlength⟩ := encodePayload_succeeds hrequest rfl
  exact ⟨canonical, _, batch, payload, hcanonical, heval, rfl, hbatch, hpayload, hlength⟩

/-- A preparation that fails blames the store, the sequence or the command. -/
theorem CommandService.Counted.prepare_cases (h : service.Counted limits) (hb : limits.Built)
    (hsize : service.snapshot.trades.size < 2 ^ 32) {canonical : Bytes}
    (hcanonical : canonicalCommandBytes envelope = .ok canonical) :
    (∃ prepared, service.prepare envelope canonical = .ok prepared) ∨
      service.prepare envelope canonical = .error (.journalUnavailable none) ∨
      service.prepare envelope canonical = .error .sequenceExhausted ∨
      ∃ failure, service.prepare envelope canonical = .error (.domainRejected failure) := by
  -- The checks of the source in their order: the store, the sequence, the command.
  by_cases hw : JournalStore.writable service.store = true
  · by_cases hne : service.nextSequence = 0
    · right; right; left
      simp [CommandService.prepare, hw, hne]
    · cases happly : applyEvent service.snapshot envelope.command.event with
      | error failure =>
        right; right; right
        obtain ⟨factory, heq⟩ := evaluateCommand_eq service.snapshot envelope.command
        refine ⟨failure, ?_⟩
        rw [happly] at heq
        unfold CommandService.prepare
        rw [heq]
        simp [hw, hne, completeTransition, evaluationFailure, Except.mapError]
      | ok after =>
        left
        obtain ⟨canonical', evaluation, batch, payload, hc, heval, _, hbatch, hpayload, _⟩ :=
          h.writes hb hsize happly hne
        obtain rfl := Except.ok.inj (hcanonical.symm.trans hc)
        have hframe := encodeFrame_ok_iff.mpr ⟨payload, hpayload, rfl⟩
        exact ⟨_, CommandService.prepare_ok_iff.mpr ⟨hw, hne, heval, hbatch, hframe⟩⟩
  · right; left
    simp [CommandService.prepare, hw]

end Counted

/-- The service's own checks never fail on its own work. -/
theorem execute_never_defensive {store after : S} {first : CommandService S} (hb : limits.Built)
    (hempty : JournalStore.readAll store = (.ok [], after))
    (hcreate : CommandService.create (some store) limits = .ok first)
    (hrun : ReflTransGen CommandService.Step first service)
    (hsize : service.snapshot.trades.size < 2 ^ 32) (envelope : CommandEnvelope) :
    ((service.execute envelope).1 ≠ .error .invariantViolation ∧
      (∀ failure, (service.execute envelope).1 ≠ .error (.commandEncodingFailure failure)) ∧
      ∀ failure, (service.execute envelope).1 ≠ .error (.journalEncodingFailure failure)) ∧
    ∀ prospective, applyEvent service.snapshot envelope.command.event = .ok prospective →
      (invariantsHold prospective = true ∧
        recomputeLedgerTotals prospective.ledgerEntries = .ok prospective.ledgerTotals ∧
        ∀ (key : LimitKey) (balance : LimitBalance),
          prospective.limits.balances[key]? = some balance →
            0 ≤ balance.reserved ∧ balance.reserved ≤ balance.capacity) ∧
      (service.nextSequence ≠ 0 → prospective.version ≤ service.nextSequence ∧
        ∃ canonical evaluation batch payload,
          canonicalCommandBytes envelope = .ok canonical ∧
          evaluateCommand service.snapshot envelope.command = .ok evaluation ∧
          evaluation.prospectiveState = prospective ∧
          CommandBatch.create service.nextSequence envelope.commandId canonical
            [evaluation.event] evaluation.result = .ok batch ∧
          encodePayload batch = .ok payload ∧ payload.length < maximumPayloadLength) := by
  have hcounted := CommandService.Counted.of_empty hempty hcreate hrun
  constructor
  · obtain ⟨canonical, hcanonical, _⟩ := canonicalCommandBytes_succeeds envelope
    have hcases := hcounted.prepare_cases hb hsize hcanonical
    unfold CommandService.execute
    rw [hcanonical]
    -- A known identifier answers from the index, a new one prepares and appends.
    cases hi : service.idempotency[envelope.commandId]? with
    | some existing =>
      by_cases heq : existing.canonicalRequest = canonical <;> simp [heq]
    | none =>
      rcases hcases with ⟨⟨evaluation, batch, frame⟩, hp⟩ | hp | hp | ⟨failure, hp⟩
      · rcases ha : JournalStore.appendAndFlush frame service.store with ⟨failure | _, _⟩ <;>
          simp [hp, ha]
      · simp [hp]
      · simp [hp]
      · simp [hp]
  · intro prospective happly
    have hreach : prospective.Reachable limits :=
      hcounted.reachable.tail (applyEvent_step happly)
    have htotals := hreach.coherent.totals
    refine ⟨⟨State.Reachable.invariantsHold hb hreach, ?_, (hreach.limits_built hb).within⟩, ?_⟩
    · rw [htotals]
      exact recomputeLedgerTotals_eq_zero prospective.ledgerEntries
    · intro hne
      have hversion := applyEvent_version_le hcounted.reachable.coherent happly
      have hbehind := hcounted.behind hne
      refine ⟨?_, hcounted.writes hb hsize happly hne⟩
      rw [UInt64.le_iff_toNat_le]
      omega

/-- A service that has booked a trade meets its confirmation. -/
theorem execute_never_defensive_sample : ∃ service : CommandService MemoryJournalStore,
    service.nextSequence = 2 ∧
    (service.execute ⟨sampleId .command, .confirmTrade ⟨sampleId .trade, 1, samplePostingIds⟩⟩).1 ≠
      .error .invariantViolation := by
  let booking : CommandEnvelope := ⟨sampleId .command, .bookTrade ⟨sampleId .trade, sampleId .book,
    sampleId .counterparty, sampleId .nettingSet, sampleTerms⟩⟩
  let first : CommandService MemoryJournalStore :=
    ⟨MemoryJournalStore.ofBytes [], State.initial ⟨∅⟩, ∅, 1, false⟩
  have hlimits : LimitHierarchy.create [] = .ok ⟨∅⟩ := rfl
  have hbuilt : LimitHierarchy.Built ⟨∅⟩ := .create hlimits
  have hcreate : CommandService.create (some (MemoryJournalStore.ofBytes [])) ⟨∅⟩ = .ok first :=
    CommandService.create_empty rfl
  have hrun : ReflTransGen CommandService.Step first (first.execute booking).2 :=
    .single (.execute first booking)
  have hsequence : (first.execute booking).2.nextSequence = 2 := by decide +kernel
  have hsize : (first.execute booking).2.snapshot.trades.size < 2 ^ 32 := by decide +kernel
  exact ⟨_, hsequence, (execute_never_defensive hbuilt rfl hcreate hrun hsize _).1.1⟩

end Backbook
