import Backbook.RequestShapes
import Backbook.ServiceBounds

/-! A journal that recovery accepts is a history, whoever wrote it. Executing the
commands of its events in their order gives the recorded results and leads to the
recovered service, up to what its stored requests say. -/
namespace Backbook

open Std FramedLog

def FileService.run (service : FileService) : List (Option WriteFault × CommandEnvelope) →
    List (Except CommandServiceError CommandReceipt) × FileService
  | [] => ([], service)
  | (fault, envelope) :: commands =>
    let executed := (service.withFault fault).execute envelope
    let rest := FileService.run executed.2 commands
    (executed.1 :: rest.1, rest.2)

def CommandBatch.envelopes (batch : CommandBatch) : List CommandEnvelope :=
  batch.events.map fun event => ⟨batch.commandId, event.command⟩

theorem FileService.run_append (service : FileService)
    (first second : List (Option WriteFault × CommandEnvelope)) :
    service.run (first ++ second) =
      ((service.run first).1 ++ ((service.run first).2.run second).1,
        ((service.run first).2.run second).2) := by
  induction first generalizing service with
  | nil => rfl
  | cons command first ih =>
    obtain ⟨fault, envelope⟩ := command
    simp only [List.cons_append, FileService.run, ih]

section Retelling

variable {limits : LimitHierarchy} {service : FileService} {batches : List CommandBatch}
  {batch : CommandBatch} {state next : State} {event : Event} {sequence : UInt64}

/-- An index that was built record by record has no identifier twice. -/
theorem emplaceRecords_index {index : IdempotencyIndex}
    (h : batches.foldlM emplaceRecord ∅ = .ok index) :
    index = indexOf batches ∧ (batches.map CommandBatch.commandId).Nodup := by
  induction batches using List.reverseRecOn generalizing index with
  | nil => exact ⟨(Except.ok.inj h).symm, List.nodup_nil⟩
  | append_singleton batches batch ih =>
    rw [List.foldlM_append] at h
    obtain ⟨before, hbefore, hlast⟩ := Outcome.bind_ok_iff.mp h
    obtain ⟨rfl, hnodup⟩ := ih hbefore
    have hemplace : emplaceRecord (indexOf batches) batch = .ok index := by simpa using hlast
    unfold emplaceRecord at hemplace
    split_ifs at hemplace with hin
    rw [mem_indexOf_iff] at hin
    refine ⟨?_, ?_⟩
    · rw [indexOf_append, Except.ok.inj hemplace]
    · rw [List.map_append, List.map_cons, List.map_nil, List.nodup_append_comm]
      exact List.nodup_cons.mpr ⟨hin, hnodup⟩

/-- The stored count of an end-of-day run has 32 bits, so a run that matches its
result is no longer than that. -/
theorem countable_of_matches {result : CommandResult} (hr : state.Reachable limits)
    (happly : applyEvent state event = .ok next)
    (h : resultMatches result event state next = true) : event.Countable state := by
  rintro value rfl
  have heod : runEod state value.asOfDate = .ok next := happly
  obtain ⟨_, hcount⟩ := runEod_settledTradeCount hr heod
  rw [← hcount]
  unfold resultMatches at h
  cases result with
  | eodRun stored =>
    simp only [Bool.and_eq_true, beq_iff_eq] at h
    have hsame := h.2.2
    rw [← hsame, UInt32.toNat_toUInt64]
    exact UInt32.toNat_lt stored.settledTradeCount
  | tradeBooked stored => simp at h
  | tradeConfirmed stored => simp at h
  | tradeAmended stored => simp at h
  | tradeCancelled stored => simp at h

/-- What replay has done with a batch that it went past. -/
theorem replayBatch_ok_iff : replayBatch state sequence batch = .ok next ↔
    batch.sequence = sequence ∧ ∃ event, batch.events = [event] ∧
      applyEvent state event = .ok next ∧ resultMatches batch.result event state next = true := by
  constructor
  · intro h
    unfold replayBatch at h
    split_ifs at h with hsequence
    split at h
    · rename_i event hevents
      split at h
      · cases h
      · rename_i after happly
        split_ifs at h with hmatch
        obtain rfl := Except.ok.inj h
        exact ⟨not_not.mp hsequence, event, hevents, happly, by simpa using hmatch⟩
    · cases h
  · rintro ⟨rfl, event, hevents, happly, hmatch⟩
    exact replayBatch_ok hevents happly hmatch

structure FileService.Retells (service : FileService) (limits : LimitHierarchy)
    (batches : List CommandBatch) (state : State) (sequence : UInt64) : Prop where
  reachable : service.snapshot.Reachable limits
  opened : service.store.writable = true
  snapshot : service.snapshot = state
  sequence : service.nextSequence = sequence
  results : ∀ id : CommandId, service.idempotency[id]?.map IdempotencyRecord.result =
    (indexOf batches)[id]?.map IdempotencyRecord.result

/-- A batch that replays is executed anew, with the same result. -/
theorem FileService.Retells.execute (hb : limits.Built)
    (h : service.Retells limits batches state sequence)
    (hreplay : replayBatch state sequence batch = .ok next)
    (hnew : batch.commandId ∉ batches.map CommandBatch.commandId) :
    ∃ envelope executed, batch.envelopes = [envelope] ∧
      (service.withFault none).execute envelope = (.ok ⟨batch.result, false⟩, executed) ∧
      FileService.Retells executed limits (batches ++ [batch]) next (sequence + 1) := by
  obtain ⟨hsequence, event, hevents, happly, hmatch⟩ := replayBatch_ok_iff.mp hreplay
  have hsnapshot := h.snapshot
  have hr : state.Reachable limits := hsnapshot ▸ h.reachable
  have hcountable := countable_of_matches hr happly hmatch
  have hresult : batch.result = event.result state next := eq_result_of_resultMatches hmatch
  have hevaluated := evaluateCommand_of_applyEvent hb hr happly hcountable
  let envelope : CommandEnvelope := ⟨batch.commandId, event.command⟩
  obtain ⟨canonical, hcanonical, hshort⟩ := canonicalCommandBytes_succeeds envelope
  -- The batch of the new execution differs in its request at most.
  let retold : CommandBatch := { batch with canonicalRequest := canonical }
  have hretold : CommandBatch.create service.nextSequence envelope.commandId canonical [event]
      (event.result state next) = .ok retold :=
    CommandBatch.create_ok_iff.mpr ⟨hsequence.trans h.sequence.symm, rfl, rfl, hevents, hresult⟩
  have hrequest : retold.canonicalRequest.length ≤ 693 := hshort
  obtain ⟨payload, hpayload, _⟩ := encodePayload_succeeds hrequest hevents
  have hframe := encodeFrame_ok_iff.mpr ⟨payload, hpayload, rfl⟩
  have hunseen : service.idempotency[envelope.commandId]? = none := by
    have hindex := h.results batch.commandId
    have hnone : (indexOf batches)[batch.commandId]? = none := by
      apply ExtTreeMap.getElem?_eq_none
      rw [mem_indexOf_iff]
      exact hnew
    rw [hnone, Option.map_none] at hindex
    exact Option.map_eq_none_iff.mp hindex
  have hne : service.nextSequence ≠ 0 := by
    rw [h.sequence, ← hsequence]
    exact batch.sequence_ne
  have hprepared : (service.withFault none).prepare envelope canonical =
      .ok (⟨next, event, event.result state next⟩, retold, writeFrame payload) := by
    refine CommandService.prepare_ok_iff.mpr ⟨h.opened, hne, ?_, hretold, hframe⟩
    show evaluateCommand service.snapshot event.command = _
    rw [hsnapshot]
    exact hevaluated
  have happend : JournalStore.appendAndFlush (writeFrame payload) (service.withFault none).store =
      (.ok (), { (service.withFault none).store with
        bytes := service.store.bytes ++ writeFrame payload }) := by
    show FileJournalStore.appendAndFlush _ _ = _
    simp [FileJournalStore.appendAndFlush, FileService.withFault, h.opened]
  have hexecute : (service.withFault none).execute envelope =
      (.ok ⟨event.result state next, false⟩, { service.withFault none with
        store := { (service.withFault none).store with
          bytes := service.store.bytes ++ writeFrame payload }
        snapshot := next
        idempotency := service.idempotency.insert batch.commandId
          ⟨canonical, event.result state next⟩
        nextSequence := followingSequence service.nextSequence }) := by
    have hunseen' : (service.withFault none).idempotency[envelope.commandId]? = none := hunseen
    simp only [CommandService.execute, hcanonical, hunseen', hprepared, happend]
    rfl
  have henvelopes : batch.envelopes = [envelope] := by
    rw [CommandBatch.envelopes, hevents]
    rfl
  rw [hresult]
  refine ⟨envelope, _, henvelopes, hexecute, ⟨?_, h.opened, rfl, ?_, ?_⟩⟩
  · exact hr.tail (applyEvent_step happly)
  · show followingSequence service.nextSequence = sequence + 1
    rw [followingSequence_eq, h.sequence]
  · intro id
    show (service.idempotency.insert batch.commandId _)[id]?.map _ = _
    rw [indexOf_append, OrderedMap.getElem?_insert_eq, OrderedMap.getElem?_insert_eq]
    split_ifs
    · rw [Option.map_some, Option.map_some, hresult]
    · exact h.results id

/-- What replays is executed anew, batch by batch. -/
theorem FileService.retells_of_replay (hb : limits.Built)
    (h : replayBatches batches (State.initial limits) 1 = .ok (state, sequence))
    (hnodup : (batches.map CommandBatch.commandId).Nodup) :
    ∃ last, (FileService.fresh limits).run
        ((batches.flatMap CommandBatch.envelopes).map (none, ·)) =
          (batches.map fun batch => .ok ⟨batch.result, false⟩, last) ∧
      FileService.Retells last limits batches state sequence := by
  induction batches using List.reverseRecOn generalizing state sequence with
  | nil =>
    obtain ⟨rfl, rfl⟩ := Prod.mk.inj (Except.ok.inj h)
    exact ⟨_, rfl, .refl, rfl, rfl, rfl, fun _ => rfl⟩
  | append_singleton batches batch ih =>
    rw [List.map_append, List.nodup_append] at hnodup
    obtain ⟨hnodup, _, hdisjoint⟩ := hnodup
    have hnew : batch.commandId ∉ batches.map CommandBatch.commandId := by
      intro hmem
      exact hdisjoint _ hmem _ (List.mem_singleton_self _) rfl
    rw [replayBatches_append] at h
    obtain ⟨⟨before, expected⟩, hbefore, hlast⟩ := Outcome.bind_ok_iff.mp h
    obtain ⟨after, hafter, hend⟩ := Outcome.bind_ok_iff.mp hlast
    obtain ⟨rfl, rfl⟩ := Prod.mk.inj (Except.ok.inj hend)
    obtain ⟨reached, hrun, hretells⟩ := ih hbefore hnodup
    obtain ⟨envelope, executed, henvelope, hexecute, hnext⟩ := hretells.execute hb hafter hnew
    refine ⟨executed, ?_, hnext⟩
    have hone : reached.run [(none, envelope)] = ([.ok ⟨batch.result, false⟩], executed) := by
      simp only [FileService.run, hexecute]
    rw [List.flatMap_append, List.map_append, FileService.run_append, hrun, List.flatMap_cons,
      List.flatMap_nil, List.append_nil, henvelope, List.map_cons, List.map_nil, hone,
      List.map_append]
    rfl

end Retelling

/-- Two services that may remember the commands in `known` differently. -/
structure FileService.Alike (known : List CommandId) (service other : FileService) : Prop where
  writable : service.store.writable = other.store.writable
  snapshot : service.snapshot = other.snapshot
  sequence : service.nextSequence = other.nextSequence
  unknown : ∀ id : CommandId, id ∉ known → service.idempotency[id]? = other.idempotency[id]?

section Continuations

variable {known : List CommandId} {service other : FileService}

/-- An append fails or succeeds whatever the file holds. -/
theorem FileJournalStore.append_alike {store other : FileJournalStore} (frame : Bytes)
    (hw : store.writable = other.writable) (hf : store.fault = other.fault) :
    (store.appendAndFlush frame).1 = (other.appendAndFlush frame).1 ∧
      (store.appendAndFlush frame).2.writable = (other.appendAndFlush frame).2.writable := by
  unfold FileJournalStore.appendAndFlush
  rw [hw, hf]
  cases hopen : other.writable with
  | false => simp [hw]
  | true => cases other.fault <;> simp

theorem FileService.Alike.prepare (h : FileService.Alike known service other)
    (fault : Option WriteFault) (envelope : CommandEnvelope) (canonical : Bytes) :
    (service.withFault fault).prepare envelope canonical =
      (other.withFault fault).prepare envelope canonical := by
  have hw : JournalStore.writable (service.withFault fault).store =
      JournalStore.writable (other.withFault fault).store := h.writable
  have hs : (service.withFault fault).snapshot = (other.withFault fault).snapshot := h.snapshot
  have hn : (service.withFault fault).nextSequence = (other.withFault fault).nextSequence :=
    h.sequence
  unfold CommandService.prepare
  rw [hw, hs, hn]

/-- A command under another identifier cannot tell the two services apart. -/
theorem FileService.Alike.execute (h : FileService.Alike known service other)
    (fault : Option WriteFault) {envelope : CommandEnvelope} (hid : envelope.commandId ∉ known) :
    ((service.withFault fault).execute envelope).1 =
        ((other.withFault fault).execute envelope).1 ∧
      FileService.Alike known ((service.withFault fault).execute envelope).2
        ((other.withFault fault).execute envelope).2 := by
  have hstay : FileService.Alike known (service.withFault fault) (other.withFault fault) :=
    ⟨h.writable, h.snapshot, h.sequence, h.unknown⟩
  have hindex : (service.withFault fault).idempotency[envelope.commandId]? =
      (other.withFault fault).idempotency[envelope.commandId]? := h.unknown _ hid
  have hprepare := h.prepare fault envelope
  cases hc : canonicalCommandBytes envelope with
  | error failure =>
    simp only [CommandService.execute, hc]
    exact ⟨trivial, hstay⟩
  | ok canonical =>
    cases hi : (other.withFault fault).idempotency[envelope.commandId]? with
    | some existing =>
      simp only [CommandService.execute, hc, hindex, hi]
      split_ifs
      · exact ⟨rfl, hstay⟩
      · exact ⟨rfl, hstay⟩
    | none =>
      rcases hp : (other.withFault fault).prepare envelope canonical with
        failure | ⟨evaluation, batch, frame⟩
      · simp only [CommandService.execute, hc, hindex, hi, hprepare, hp]
        exact ⟨trivial, hstay⟩
      -- The files differ, but the appends to them have one outcome.
      obtain ⟨houtcome, hwritable⟩ : (JournalStore.appendAndFlush frame
            (service.withFault fault).store).1 =
          (JournalStore.appendAndFlush frame (other.withFault fault).store).1 ∧ _ :=
        FileJournalStore.append_alike frame h.writable rfl
      rcases hone : JournalStore.appendAndFlush frame (service.withFault fault).store with
        ⟨outcome, store⟩
      rcases htwo : JournalStore.appendAndFlush frame (other.withFault fault).store with
        ⟨outcome', store'⟩
      rw [hone, htwo] at houtcome
      obtain rfl : outcome = outcome' := houtcome
      have hw : store.writable = store'.writable := by
        have hone' : (service.withFault fault).store.appendAndFlush frame = _ := hone
        have htwo' : (other.withFault fault).store.appendAndFlush frame = _ := htwo
        rw [hone', htwo'] at hwritable
        exact hwritable
      cases outcome with
      | error failure =>
        simp only [CommandService.execute, hc, hindex, hi, hprepare, hp, hone, htwo]
        exact ⟨trivial, hw, h.snapshot, h.sequence, h.unknown⟩
      | ok done =>
        simp only [CommandService.execute, hc, hindex, hi, hprepare, hp, hone, htwo]
        refine ⟨trivial, hw, rfl, congrArg followingSequence h.sequence, ?_⟩
        intro id hother
        have hsame : (service.withFault fault).idempotency[id]? =
            (other.withFault fault).idempotency[id]? := h.unknown id hother
        simp only [OrderedMap.getElem?_insert_eq, hsame]

theorem FileService.Alike.run {commands : List (Option WriteFault × CommandEnvelope)}
    (h : FileService.Alike known service other)
    (hids : ∀ command ∈ commands, command.2.commandId ∉ known) :
    (service.run commands).1 = (other.run commands).1 ∧
      FileService.Alike known (service.run commands).2 (other.run commands).2 := by
  induction commands generalizing service other with
  | nil => exact ⟨rfl, h⟩
  | cons command commands ih =>
    obtain ⟨fault, envelope⟩ := command
    have hfirst := hids _ List.mem_cons_self
    obtain ⟨hanswer, hnext⟩ := h.execute fault hfirst
    obtain ⟨hanswers, hlast⟩ := ih hnext fun later hlater =>
      hids later (List.mem_cons_of_mem _ hlater)
    refine ⟨?_, hlast⟩
    simp only [FileService.run]
    rw [hanswer, hanswers]

end Continuations

section Recovery

variable {limits : LimitHierarchy} {bytes : Bytes} {service : FileService}

/-- What creation has checked. -/
theorem FileService.create_ok_iff :
    CommandService.create (some (FileJournalStore.opened bytes)) limits = .ok service ↔
      ∃ (scan : JournalScanResult) (state : State) (index : IdempotencyIndex),
        scanJournal bytes = .ok scan ∧ scan.batches.forM validateBatchRequest = .ok () ∧
        replay limits scan.batches = .ok state ∧
        scan.batches.foldlM emplaceRecord ∅ = .ok index ∧
        service = ⟨FileJournalStore.opened (bytes.take scan.lastValidOffset), state, index,
          nextSequenceAfter scan.batches, scan.truncatedTail⟩ := by
  cases hscan : scanJournal bytes with
  | error failure =>
    have hread : JournalStore.readAll (FileJournalStore.opened bytes) =
        (.ok bytes, FileJournalStore.opened bytes) := rfl
    simp [CommandService.create, recoverJournal, hread, hscan]
  | ok scan =>
    have hrecover := recoverJournal_file hscan
    unfold CommandService.create
    simp only [hrecover, Outcome.bind_ok_iff, Outcome.mapError_ok_iff, Except.ok.injEq]
    constructor
    · rintro ⟨_, hvalid, state, hreplay, index, hindex, rfl⟩
      exact ⟨scan, state, index, rfl, hvalid, hreplay, hindex, rfl⟩
    · rintro ⟨_, state, index, rfl, hvalid, hreplay, hindex, rfl⟩
      exact ⟨(), hvalid, state, hreplay, index, hindex, rfl⟩

/-- Replay ends where the next sequence begins. -/
theorem replayBatches_sequence {batches : List CommandBatch} {state : State} {sequence : UInt64}
    (h : replayBatches batches (State.initial limits) 1 = .ok (state, sequence)) :
    sequence = nextSequenceAfter batches := by
  induction batches using List.reverseRecOn generalizing state sequence with
  | nil =>
    obtain ⟨_, rfl⟩ := Prod.mk.inj (Except.ok.inj h)
    rfl
  | append_singleton batches batch _ =>
    rw [replayBatches_append] at h
    obtain ⟨⟨before, expected⟩, _, hlast⟩ := Outcome.bind_ok_iff.mp h
    obtain ⟨after, hafter, hend⟩ := Outcome.bind_ok_iff.mp hlast
    obtain ⟨_, rfl⟩ := Prod.mk.inj (Except.ok.inj hend)
    obtain ⟨hsequence, _⟩ := replayBatch_ok_iff.mp hafter
    rw [nextSequenceAfter_append, followingSequence_eq, hsequence]

theorem replay_batches {batches : List CommandBatch} {state : State}
    (h : replay limits batches = .ok state) :
    replayBatches batches (State.initial limits) 1 = .ok (state, nextSequenceAfter batches) := by
  obtain ⟨⟨reached, sequence⟩, hreached, h⟩ := Outcome.bind_ok_iff.mp h
  have hsequence := replayBatches_sequence hreached
  dsimp only at h
  split at h
  · cases h
  · split_ifs at h
    obtain rfl := Except.ok.inj h
    rw [hreached, hsequence]

end Recovery

/-- A journal that the service accepts is a history of it, whoever wrote the
bytes. The commands of its events, executed in the order of the journal over an
empty file, are all accepted with the recorded results, and lead to the recovered
snapshot and sequence and to the recovered result of every identifier. From there
on, commands under other identifiers get the same answers from both services,
whichever of their appends fail, and leave the same snapshots. -/
theorem accepted_journal_is_a_history (limits : LimitHierarchy) (hb : limits.Built)
    (bytes : Bytes) (service : FileService)
    (h : CommandService.create (some (FileJournalStore.opened bytes)) limits = .ok service) :
    ∃ (scan : JournalScanResult) (retold : FileService), scanJournal bytes = .ok scan ∧
      (FileService.fresh limits).run
          ((scan.batches.flatMap CommandBatch.envelopes).map (none, ·)) =
        (scan.batches.map fun batch => .ok ⟨batch.result, false⟩, retold) ∧
      retold.snapshot = service.snapshot ∧ retold.nextSequence = service.nextSequence ∧
      (∀ id : CommandId, retold.idempotency[id]?.map IdempotencyRecord.result =
        service.idempotency[id]?.map IdempotencyRecord.result) ∧
      ∀ commands : List (Option WriteFault × CommandEnvelope),
        (∀ command ∈ commands,
          command.2.commandId ∉ scan.batches.map CommandBatch.commandId) →
        (retold.run commands).1 = (service.run commands).1 ∧
          (retold.run commands).2.snapshot = (service.run commands).2.snapshot := by
  obtain ⟨scan, state, index, hscan, _, hreplay, hindex, rfl⟩ := FileService.create_ok_iff.mp h
  have hreplays := replay_batches hreplay
  obtain ⟨rfl, hnodup⟩ := emplaceRecords_index hindex
  obtain ⟨retold, hrun, hretells⟩ := FileService.retells_of_replay hb hreplays hnodup
  refine ⟨scan, retold, hscan, hrun, hretells.snapshot, hretells.sequence, hretells.results, ?_⟩
  intro commands hcommands
  -- Outside the journal neither index holds anything.
  have hunknown : ∀ id : CommandId, id ∉ scan.batches.map CommandBatch.commandId →
      retold.idempotency[id]? = (indexOf scan.batches)[id]? := by
    intro id hid
    have hnone : (indexOf scan.batches)[id]? = none := by
      apply ExtTreeMap.getElem?_eq_none
      rw [mem_indexOf_iff]
      exact hid
    have hresult := hretells.results id
    rw [hnone, Option.map_none] at hresult
    rw [hnone]
    exact Option.map_eq_none_iff.mp hresult
  have halike : FileService.Alike (scan.batches.map CommandBatch.commandId) retold
      ⟨FileJournalStore.opened (bytes.take scan.lastValidOffset), state, indexOf scan.batches,
        nextSequenceAfter scan.batches, scan.truncatedTail⟩ :=
    ⟨hretells.opened, hretells.snapshot, hretells.sequence, hunknown⟩
  obtain ⟨hanswers, hlast⟩ := halike.run hcommands
  exact ⟨hanswers, hlast.snapshot⟩

/-- A file whose stored request is not the one of its event is accepted too. -/
theorem create_strayFile : ∃ frame, encodeFrame strayBatch = .ok frame ∧ ∃ service : FileService,
    CommandService.create (some (FileJournalStore.opened frame)) ⟨∅⟩ = .ok service := by
  obtain ⟨frame, hframe⟩ := ok_of_isOk (x := encodeFrame strayBatch) (by decide +kernel)
  have hrun : (match encodeFrame strayBatch with
      | .ok frame => (CommandService.create (some (FileJournalStore.opened frame)) ⟨∅⟩).isOk
      | .error _ => false) = true := by decide +kernel
  simp only [hframe] at hrun
  obtain ⟨service, hcreate⟩ := ok_of_isOk hrun
  exact ⟨frame, hframe, service, hcreate⟩

/-- The run of the stray batch's event is accepted anew, with its own request. -/
theorem accepted_journal_is_a_history_stray : ∃ frame, encodeFrame strayBatch = .ok frame ∧
    ∃ retold : FileService, (FileService.fresh ⟨∅⟩).run
        [(none, ⟨sampleId .command, .runEod ⟨sampleDate⟩⟩)] =
      ([.ok ⟨.eodRun ⟨sampleDate, 0, 0⟩, false⟩], retold) := by
  obtain ⟨frame, hframe, service, hcreate⟩ := create_strayFile
  have hlimits : LimitHierarchy.create [] = .ok ⟨∅⟩ := rfl
  obtain ⟨scan, retold, hscan, hrun, _⟩ :=
    accepted_journal_is_a_history ⟨∅⟩ (.create hlimits) frame service hcreate
  have hframes := journalFormat_lawful.scan_frames (.cons hframe .nil)
  rw [List.flatten_singleton] at hframes
  obtain rfl := Except.ok.inj (hscan.symm.trans hframes)
  exact ⟨frame, hframe, retold, hrun⟩

end Backbook
