import Backbook.ReachableStates
import Backbook.ServiceRuns

namespace Backbook

open FramedLog Relation

def FileService.Executed (service later : FileService) : Prop :=
  ReflTransGen (fun before after : FileService => ∃ (fault : Option WriteFault)
    (envelope : CommandEnvelope), after = ((before.withFault fault).execute envelope).2) service
    later

section Answers

variable {service failed later : FileService} {fault : Option WriteFault}
  {envelope : CommandEnvelope}

/-- A retry is answered from the index, any other use of its identifier refused. -/
theorem FileService.execute_indexed {original : CommandEnvelope} {record : IdempotencyRecord}
    (hrecord : service.idempotency[envelope.commandId]? = some record)
    (hcanonical : canonicalCommandBytes original = .ok record.canonicalRequest) :
    (service.withFault fault).execute envelope =
      (if envelope = original then .ok ⟨record.result, true⟩ else .error .idempotencyConflict,
        service.withFault fault) := by
  have hindex : (service.withFault fault).idempotency[envelope.commandId]? = some record := hrecord
  obtain ⟨canonical, hc⟩ : ∃ canonical, canonicalCommandBytes envelope = .ok canonical :=
    ⟨_, canonicalCommandBytes_eq envelope⟩
  -- Equal canonical bytes are the same envelope, so the comparison is exact.
  have hsame : record.canonicalRequest = canonical ↔ envelope = original := by
    constructor
    · rintro rfl
      exact canonicalCommandBytes_injective hc hcanonical
    · rintro rfl
      exact Except.ok.inj (hcanonical.symm.trans hc)
  unfold CommandService.execute
  simp only [hc, hindex, hsame]
  split_ifs <;> rfl

/-- A closed store keeps executions from changing the service. -/
theorem FileService.execute_closed (hclosed : service.store.writable = false) :
    ((service.withFault fault).execute envelope).2 = service.withFault fault := by
  rcases (service.withFault fault).execute_cases envelope with ⟨hsame, _⟩ |
    ⟨canonical, frame, evaluation, batch, hp, _⟩
  · exact hsame
  · have hw : service.store.writable = true := hp.writable
    rw [hclosed] at hw
    contradiction

theorem FileService.Executed.closed (hclosed : service.store.writable = false)
    (h : service.Executed later) : ∃ fault, later = service.withFault fault := by
  induction h with
  | refl => exact ⟨service.store.fault, rfl⟩
  | tail _ hstep ih =>
    obtain ⟨fault, rfl⟩ := ih
    obtain ⟨fault', envelope, rfl⟩ := hstep
    have hkept : (service.withFault fault).store.writable = false := hclosed
    refine ⟨fault', ?_⟩
    rw [FileService.execute_closed hkept]
    rfl

/-- A failed append leaves part of the frame in the file and closes the store. -/
theorem FileService.execute_failed {failure : JournalStoreError}
    (h : (service.withFault fault).execute envelope =
      (.error (.journalUnavailable (some failure)), failed)) :
    ∃ (canonical : Bytes) (evaluation : CommandEvaluation) (batch : CommandBatch) (frame : Bytes)
      (persisted : ℕ),
      (service.withFault fault).Prepared envelope canonical evaluation batch frame ∧
      failed = { service with store := ⟨service.store.bytes ++ frame.take persisted, false, none⟩ }
      := by
  rcases (service.withFault fault).execute_cases envelope with ⟨_, _, hne⟩ |
    ⟨canonical, frame, evaluation, batch, hp, ⟨cause, store, happend, hexec⟩ | ⟨_, _, hexec⟩⟩
  · exact absurd (congrArg Prod.fst h) (hne failure)
  · refine ⟨canonical, evaluation, batch, frame, ?_⟩
    have hw : (service.withFault fault).store.writable = true := hp.writable
    rw [hexec] at h
    obtain ⟨_, rfl⟩ := Prod.mk.inj h
    rcases FileJournalStore.append_cases hw happend with ⟨kept, _, _, rfl⟩ | ⟨hok, _⟩
    · exact ⟨kept.persisted, hp, rfl⟩
    · cases hok
  · rw [hexec] at h
    cases (Prod.mk.inj h).1

/-- An accepted command is in the index with its request and its result. -/
theorem FileService.execute_accepted {result : CommandResult}
    (h : (service.withFault fault).execute envelope = (.ok ⟨result, false⟩, later)) :
    ∃ canonical, canonicalCommandBytes envelope = .ok canonical ∧
      later.idempotency[envelope.commandId]? = some ⟨canonical, result⟩ := by
  rcases (service.withFault fault).execute_cases envelope with ⟨_, hne, _⟩ |
    ⟨canonical, frame, evaluation, batch, hp, ⟨_, _, _, hexec⟩ | ⟨_, _, hexec⟩⟩
  · exact absurd (congrArg Prod.fst h) (hne result)
  · rw [hexec] at h
    cases (Prod.mk.inj h).1
  · rw [hexec] at h
    obtain ⟨hreceipt, rfl⟩ := Prod.mk.inj h
    obtain ⟨rfl, _⟩ := CommandReceipt.mk.inj (Except.ok.inj hreceipt)
    refine ⟨canonical, hp.canonical_eq, ?_⟩
    simp only [OrderedMap.getElem?_insert_eq, if_true]

end Answers

section Runs

variable {limits : LimitHierarchy} {service later failed : FileService}
  {batches : List CommandBatch} {frames : List Bytes} {tail : Bytes}

/-- What the index holds, it holds for good. -/
theorem FileService.Durable.index_kept (hr : service.Reachable limits)
    (h : service.Durable limits batches frames tail)
    (hrun : ReflTransGen (FileService.Step limits) service later) {id : CommandId}
    {record : IdempotencyRecord} (hrecord : service.idempotency[id]? = some record) :
    later.idempotency[id]? = some record := by
  obtain ⟨_, batches', frames', tail', hprefix, h'⟩ := h.run hr hrun
  rw [h.journaled.index, h.journaled.committed.getElem?_indexOf_iff] at hrecord
  rw [h'.journaled.index, h'.journaled.committed.getElem?_indexOf_iff]
  obtain ⟨batch, hmem, hbatch⟩ := hrecord
  exact ⟨batch, hprefix.subset hmem, hbatch⟩

/-- Every record of the index comes from an execution of its command. -/
theorem FileService.Durable.indexed (h : service.Durable limits batches frames tail)
    {id : CommandId} {record : IdempotencyRecord}
    (hrecord : service.idempotency[id]? = some record) :
    ∃ original : CommandEnvelope, original.commandId = id ∧
      canonicalCommandBytes original = .ok record.canonicalRequest ∧
      service.Origin limits original record.result := by
  rw [h.journaled.index, h.journaled.committed.getElem?_indexOf_iff] at hrecord
  obtain ⟨batch, hmem, rfl, rfl⟩ := hrecord
  exact h.recorded batch hmem

/-- A failed append is decided by how much of its frame was kept. -/
theorem FileService.Durable.restart_failed (h : service.Durable limits batches frames tail)
    {fault : Option WriteFault} {envelope : CommandEnvelope} {canonical frame : Bytes}
    {evaluation : CommandEvaluation} {batch : CommandBatch} {persisted : ℕ}
    (hp : (service.withFault fault).Prepared envelope canonical evaluation batch frame)
    (hlater : later.store.bytes = service.store.bytes ++ frame.take persisted) :
    later.restart limits = .ok (if frame.length ≤ persisted then
      ⟨FileJournalStore.opened (service.store.bytes ++ frame), evaluation.prospectiveState,
        service.idempotency.insert envelope.commandId ⟨canonical, evaluation.result⟩,
        followingSequence service.nextSequence, false⟩
    else ⟨FileJournalStore.opened service.store.bytes, service.snapshot, service.idempotency,
      service.nextSequence, decide (persisted ≠ 0)⟩) := by
  have hw : (service.withFault fault).store.writable = true := hp.writable
  obtain rfl := h.tail_nil hw
  have hbytes := h.bytes
  rw [List.append_nil] at hbytes
  rw [hbytes] at hlater ⊢
  split_ifs with hwhole
  · -- The whole frame was kept: its batch is as committed as any other.
    have hjournaled : (service.withFault fault).Journaled limits batches frames :=
      h.journaled.with_store _
    have hnext := hjournaled.publish hp service.store
    have hframes : (frames ++ [frame]).flatten = frames.flatten ++ frame := by
      rw [List.flatten_append, List.flatten_singleton]
    have hscan := journalFormat_lawful.scan_frames hnext.framed
    rw [List.take_of_length_le hwhole] at hlater
    rw [hframes, ← hlater] at hscan
    have hrestart := FileService.restart_eq hnext.committed hscan
    rw [List.take_length, ← hnext.index, ← hnext.sequence, hlater] at hrestart
    exact hrestart
  · -- Recovery cuts the part off, and everything is as before the command.
    have hscan := journalFormat_lawful.scan_torn h.journaled.framed hp.encoded
      (Nat.lt_of_not_le hwhole)
    rw [← hlater] at hscan
    have hrestart := FileService.restart_eq h.journaled.committed hscan
    rw [hlater, List.take_left, ← h.journaled.index, ← h.journaled.sequence] at hrestart
    exact hrestart

end Runs

/-- Over any run of executions, failed appends and restarts: a restart succeeds;
the journal holds no command twice; a command in the index is answered with its
first result when it is sent again, and any other command under its identifier is
refused, both without a change; an accepted command stays in the index. After a
failed append, whatever is executed until the restart, the restarted service has
the command committed as it was evaluated when the file kept its whole frame, and
is the service before the command when it did not. -/
theorem commands_take_effect_once (limits : LimitHierarchy) (service : FileService)
    (h : service.Reachable limits) :
    (∃ restarted, service.restart limits = .ok restarted) ∧
    (∃ scan, scanJournal service.store.bytes = .ok scan ∧
      (scan.batches.map CommandBatch.commandId).Nodup) ∧
    (∀ (id : CommandId) (record : IdempotencyRecord), service.idempotency[id]? = some record →
      ∃ original : CommandEnvelope, original.commandId = id ∧
        service.Origin limits original record.result ∧
        ∀ (fault : Option WriteFault) (envelope : CommandEnvelope), envelope.commandId = id →
          (service.withFault fault).execute envelope =
            (if envelope = original then .ok ⟨record.result, true⟩ else .error .idempotencyConflict,
              service.withFault fault)) ∧
    (∀ (fault : Option WriteFault) (envelope : CommandEnvelope) (result : CommandResult)
      (accepted later : FileService),
      (service.withFault fault).execute envelope = (.ok ⟨result, false⟩, accepted) →
      ReflTransGen (FileService.Step limits) accepted later →
      ∃ canonical, canonicalCommandBytes envelope = .ok canonical ∧
        later.idempotency[envelope.commandId]? = some ⟨canonical, result⟩) ∧
    ∀ (fault : Option WriteFault) (envelope : CommandEnvelope) (failure : JournalStoreError)
      (failed : FileService),
      (service.withFault fault).execute envelope =
        (.error (.journalUnavailable (some failure)), failed) →
      ∃ (canonical : Bytes) (evaluation : CommandEvaluation) (batch : CommandBatch)
        (frame : Bytes) (persisted : ℕ),
        (service.withFault fault).Prepared envelope canonical evaluation batch frame ∧
        failed.store.bytes = service.store.bytes ++ frame.take persisted ∧
        ∀ later, failed.Executed later → later.restart limits =
          .ok (if frame.length ≤ persisted then
            ⟨FileJournalStore.opened (service.store.bytes ++ frame), evaluation.prospectiveState,
              service.idempotency.insert envelope.commandId ⟨canonical, evaluation.result⟩,
              followingSequence service.nextSequence, false⟩
          else ⟨FileJournalStore.opened service.store.bytes, service.snapshot,
            service.idempotency, service.nextSequence, decide (persisted ≠ 0)⟩) := by
  obtain ⟨batches, frames, tail, hdurable⟩ := h.durable
  refine ⟨?_, ?_, ?_, ?_, ?_⟩
  · obtain ⟨restarted, _, _, hrestart, _⟩ := hdurable.restart
    exact ⟨restarted, hrestart⟩
  · obtain ⟨kept, whole, state, torn, _, _, hcommitted, _, hscan, _⟩ := hdurable.scan
    exact ⟨_, hscan, hcommitted.ids_nodup⟩
  · intro id record hrecord
    obtain ⟨original, hid, hcanonical, horigin⟩ := hdurable.indexed hrecord
    refine ⟨original, hid, horigin, ?_⟩
    intro fault envelope henvelope
    rw [← henvelope] at hrecord
    exact FileService.execute_indexed hrecord hcanonical
  · intro fault envelope result accepted later hexec hrun
    obtain ⟨canonical, hcanonical, hindex⟩ := FileService.execute_accepted hexec
    refine ⟨canonical, hcanonical, ?_⟩
    have hstep : FileService.Step limits service _ := .execute service fault envelope
    rw [hexec] at hstep
    obtain ⟨hr, batches', frames', tail', _, hdurable'⟩ := hdurable.run h (.single hstep)
    exact hdurable'.index_kept hr hrun hindex
  · intro fault envelope failure failed hexec
    obtain ⟨canonical, evaluation, batch, frame, persisted, hp, rfl⟩ :=
      FileService.execute_failed hexec
    refine ⟨canonical, evaluation, batch, frame, persisted, hp, rfl, ?_⟩
    intro later hlater
    obtain ⟨fault', rfl⟩ := FileService.Executed.closed rfl hlater
    exact hdurable.restart_failed hp rfl

/-- An end-of-day run whose frame reaches the file although its flush fails. -/
theorem commands_take_effect_once_sample : ∃ service : FileService,
    service.store.bytes.length = 67 ∧ service.store.writable = false ∧
      ∃ restarted, service.restart ⟨∅⟩ = .ok restarted := by
  let envelope : CommandEnvelope := ⟨sampleId .command, .runEod ⟨sampleDate⟩⟩
  let fault : WriteFault := ⟨.flushFailed, 67⟩
  let service : FileService := (((FileService.fresh ⟨∅⟩).withFault (some fault)).execute envelope).2
  have hreachable : service.Reachable ⟨∅⟩ :=
    ⟨_, FileService.create_fresh ⟨∅⟩, .single (.execute _ (some fault) envelope)⟩
  have hbytes : service.store.bytes.length = 67 := by decide +kernel
  have hclosed : service.store.writable = false := by decide +kernel
  exact ⟨service, hbytes, hclosed, (commands_take_effect_once ⟨∅⟩ service hreachable).1⟩

end Backbook
