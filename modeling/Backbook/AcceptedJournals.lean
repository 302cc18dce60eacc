import Backbook.JournalHistories

/-! A journal that the service has accepted once is accepted for good. What runs,
failed appends and restarts add to it passes every check of the next creation. -/
namespace Backbook

open Std FramedLog Relation

structure Accepted (limits : LimitHierarchy) (batches : List CommandBatch) (state : State) :
    Prop where
  validates : batches.forM validateBatchRequest = .ok ()
  replays : replayBatches batches (State.initial limits) 1 =
    .ok (state, nextSequenceAfter batches)
  rebuilds : batches.foldlM emplaceRecord ∅ = .ok (indexOf batches)

section Accepted

variable {limits : LimitHierarchy} {batches : List CommandBatch} {state : State}

theorem Accepted.reachable (h : Accepted limits batches state) : state.Reachable limits :=
  replayBatches_reaches h.replays

theorem Accepted.replay (h : Accepted limits batches state) :
    replay limits batches = .ok state := by
  have hzero := recomputeLedgerTotals_eq_zero state.ledgerEntries
  have htotals : recomputeLedgerTotals state.ledgerEntries = .ok state.ledgerTotals := by
    rw [hzero, h.reachable.coherent.totals]
  unfold Backbook.replay
  rw [h.replays, Outcome.ok_bind]
  simp only [htotals]
  exact if_neg (not_not.mpr rfl)

theorem Accepted.create (h : Accepted limits batches state) {bytes : Bytes} {offset : ℕ}
    {torn : Bool} (hscan : scanJournal bytes = .ok ⟨batches, offset, torn⟩) :
    CommandService.create (some (FileJournalStore.opened bytes)) limits =
      .ok ⟨FileJournalStore.opened (bytes.take offset), state, indexOf batches,
        nextSequenceAfter batches, torn⟩ :=
  FileService.create_ok_iff.mpr
    ⟨_, _, _, hscan, h.validates, h.replay, h.rebuilds, rfl⟩

/-- One more commit passes the checks as well. -/
theorem Accepted.commit (h : Accepted limits batches state) {envelope : CommandEnvelope}
    {evaluation : CommandEvaluation} {batch : CommandBatch}
    (hc : Commits batches state envelope evaluation batch) :
    Accepted limits (batches ++ [batch]) evaluation.prospectiveState where
  validates := by
    have hvalid := h.validates
    rw [List.forM_eq_forM] at hvalid ⊢
    rw [List.forM_append, hvalid]
    simp [hc.validates]
  replays := by
    obtain ⟨_, happly, _⟩ := evaluateCommand_ok hc.evaluated
    have hmatch := evaluateCommand_matches h.reachable.coherent hc.evaluated
    rw [← hc.result] at hmatch
    have hbatch := replayBatch_ok hc.events happly hmatch
    rw [replayBatches_append, h.replays, Outcome.ok_bind, ← hc.sequence]
    simp only [replayBatches, hbatch, Outcome.ok_bind, nextSequenceAfter_append,
      followingSequence_eq]
  rebuilds := by
    rw [List.foldlM_append, h.rebuilds, indexOf_append]
    simp [emplaceRecord, hc.unseen]

/-- A record of the index is the request and the result of a batch. -/
theorem Accepted.getElem?_indexOf_iff (h : Accepted limits batches state) {id : CommandId}
    {record : IdempotencyRecord} : (indexOf batches)[id]? = some record ↔
      ∃ batch ∈ batches, batch.commandId = id ∧
        record = ⟨batch.canonicalRequest, batch.result⟩ := by
  constructor
  · intro hrecord
    have hmem : id ∈ indexOf batches := by
      rw [ExtTreeMap.mem_iff_isSome_getElem?, hrecord]
      rfl
    rw [mem_indexOf_iff] at hmem
    obtain ⟨batch, hbatch, rfl⟩ := List.mem_map.mp hmem
    have hfound := emplaceRecords_found h.rebuilds batch hbatch
    exact ⟨batch, hbatch, rfl, Option.some.inj (hrecord.symm.trans hfound)⟩
  · rintro ⟨batch, hbatch, rfl, rfl⟩
    exact emplaceRecords_found h.rebuilds batch hbatch

end Accepted

inductive FileService.Behind (service : FileService) (batches : List CommandBatch) : Bytes → Prop
  | none : Behind service batches []
  | attempt {envelope : CommandEnvelope} {evaluation : CommandEvaluation} {batch : CommandBatch}
      {frame : Bytes} (persisted : ℕ) (closed : service.store.writable = false)
      (hc : Commits batches service.snapshot envelope evaluation batch)
      (hf : encodeFrame batch = .ok frame) : Behind service batches (frame.take persisted)

/-- A service in step with the accepted journal in its file. -/
structure FileService.Standing (limits : LimitHierarchy) (service : FileService)
    (batches : List CommandBatch) (frames : List Bytes) (tail : Bytes) : Prop where
  accepted : Accepted limits batches service.snapshot
  framed : Framed batches frames
  index : service.idempotency = indexOf batches
  sequence : service.nextSequence = nextSequenceAfter batches
  bytes : service.store.bytes = frames.flatten ++ tail
  behind : service.Behind batches tail

section Runs

variable {limits : LimitHierarchy} {service next : FileService} {batches : List CommandBatch}
  {frames : List Bytes} {tail : Bytes}

theorem FileService.Standing.tail_nil (h : service.Standing limits batches frames tail)
    (hw : service.store.writable = true) : tail = [] := by
  cases h.behind with
  | none => rfl
  | attempt _ closed _ _ =>
    rw [hw] at closed
    contradiction

theorem FileService.Standing.withFault (h : service.Standing limits batches frames tail)
    (fault : Option WriteFault) :
    (service.withFault fault).Standing limits batches frames tail := by
  refine ⟨h.accepted, h.framed, h.index, h.sequence, h.bytes, ?_⟩
  cases h.behind with
  | none => exact .none
  | attempt persisted closed hc hf => exact .attempt persisted closed hc hf

theorem FileService.Standing.commits (h : service.Standing limits batches frames tail)
    {envelope : CommandEnvelope} {canonical frame : Bytes} {evaluation : CommandEvaluation}
    {batch : CommandBatch} (hp : service.Prepared envelope canonical evaluation batch frame) :
    Commits batches service.snapshot envelope evaluation batch := by
  obtain ⟨hsequence, hid, hrequest, hevents, hresult⟩ := CommandBatch.create_ok_iff.mp hp.batched
  have hfresh := hp.fresh
  have hne := hp.sequence_ne
  rw [h.index] at hfresh
  rw [h.sequence] at hne hsequence
  exact ⟨hfresh, hne, hp.evaluated, hsequence, hid, hrequest ▸ hp.canonical_eq, hevents, hresult⟩

/-- An execution keeps the journal, tears one frame, or adds a whole one. -/
theorem FileService.Standing.execute (h : service.Standing limits batches frames tail)
    (envelope : CommandEnvelope) :
    ∃ (batches' : List CommandBatch) (frames' : List Bytes) (tail' : Bytes),
      batches <+: batches' ∧
      FileService.Standing limits (service.execute envelope).2 batches' frames' tail' := by
  rcases service.execute_cases envelope with ⟨hsame, _⟩ |
    ⟨canonical, frame, evaluation, batch, hp, ⟨failure, store, happend, hexec⟩ |
      ⟨store, happend, hexec⟩⟩
  · rw [hsame]
    exact ⟨batches, frames, tail, List.prefix_rfl, h⟩
  · -- The store closes behind a part of the frame.
    have hw : service.store.writable = true := hp.writable
    obtain rfl := h.tail_nil hw
    have hc := h.commits hp
    rcases FileJournalStore.append_cases hw happend with ⟨cause, _, _, rfl⟩ | ⟨hok, _⟩
    · rw [hexec]
      refine ⟨batches, frames, frame.take cause.persisted, List.prefix_rfl,
        ⟨h.accepted, h.framed, h.index, h.sequence, ?_, ?_⟩⟩
      · rw [h.bytes, List.append_nil]
      · exact .attempt cause.persisted rfl hc hp.encoded
    · cases hok
  · have hw : service.store.writable = true := hp.writable
    obtain rfl := h.tail_nil hw
    have hc := h.commits hp
    obtain ⟨hsequence, hid, hrequest, _, hresult⟩ := CommandBatch.create_ok_iff.mp hp.batched
    rcases FileJournalStore.append_cases hw happend with ⟨cause, _, herror, _⟩ | ⟨_, hbytes, _⟩
    · cases herror
    · rw [hexec]
      refine ⟨batches ++ [batch], frames ++ [frame], [], List.prefix_append _ _,
        ⟨h.accepted.commit hc, framed_append h.framed hp.encoded, ?_, ?_, ?_, .none⟩⟩
      · rw [indexOf_append, h.index, hid, hrequest, hresult]
      · rw [nextSequenceAfter_append, hsequence]
      · rw [hbytes, h.bytes, List.flatten_append, List.flatten_singleton, List.append_nil,
          List.append_nil]

/-- A frame of which a part was written scans to nothing, or to its batch when the part
is all of it. -/
theorem scan_attempt {batch : CommandBatch} {frame : Bytes} (hframed : Framed batches frames)
    (hf : encodeFrame batch = .ok frame) (persisted : ℕ) :
    (∃ torn, scanJournal (frames.flatten ++ frame.take persisted) =
        .ok ⟨batches, frames.flatten.length, torn⟩) ∨
      frames.flatten ++ frame.take persisted = (frames ++ [frame]).flatten ∧
        Framed (batches ++ [batch]) (frames ++ [frame]) ∧
        scanJournal (frames ++ [frame]).flatten =
          .ok ⟨batches ++ [batch], (frames ++ [frame]).flatten.length, false⟩ := by
  rcases Nat.lt_or_ge persisted frame.length with htorn | hwhole
  · left
    exact ⟨_, journalFormat_lawful.scan_torn hframed hf htorn⟩
  · right
    have happend := framed_append hframed hf
    have hbytes : frames.flatten ++ frame.take persisted = (frames ++ [frame]).flatten := by
      rw [List.take_of_length_le hwhole, List.flatten_append, List.flatten_singleton]
    exact ⟨hbytes, happend, journalFormat_lawful.scan_frames happend⟩

/-- What the file of a standing service scans to: its journal, or its journal and
the attempt when all of that frame was kept. -/
theorem FileService.Standing.scan (h : service.Standing limits batches frames tail) :
    ∃ (kept : List CommandBatch) (whole : List Bytes) (state : State) (torn : Bool),
      batches <+: kept ∧ Framed kept whole ∧ Accepted limits kept state ∧
      (state = service.snapshot ∨ service.store.writable = false ∧
        ∃ (envelope : CommandEnvelope) (evaluation : CommandEvaluation),
          evaluateCommand service.snapshot envelope.command = .ok evaluation ∧
          state = evaluation.prospectiveState) ∧
      scanJournal service.store.bytes = .ok ⟨kept, whole.flatten.length, torn⟩ ∧
      service.store.bytes.take whole.flatten.length = whole.flatten := by
  rw [h.bytes]
  cases h.behind with
  | none =>
    have hscan := journalFormat_lawful.scan_frames h.framed
    rw [List.append_nil]
    exact ⟨batches, frames, _, false, List.prefix_rfl, h.framed, h.accepted, Or.inl rfl, hscan,
      List.take_length⟩
  | @attempt envelope evaluation batch frame persisted closed hc hf =>
    rcases scan_attempt h.framed hf persisted with ⟨torn, hscan⟩ | ⟨hbytes, hframed, hscan⟩
    · exact ⟨batches, frames, _, torn, List.prefix_rfl, h.framed, h.accepted, Or.inl rfl, hscan,
        List.take_left⟩
    · rw [hbytes]
      exact ⟨batches ++ [batch], frames ++ [frame], _, false, List.prefix_append _ _, hframed,
        h.accepted.commit hc, Or.inr ⟨closed, envelope, evaluation, hc.evaluated, rfl⟩, hscan,
        List.take_length⟩

theorem FileService.Standing.restart (h : service.Standing limits batches frames tail) :
    ∃ (restarted : FileService) (kept : List CommandBatch) (whole : List Bytes),
      service.restart limits = .ok restarted ∧ batches <+: kept ∧
      restarted.Standing limits kept whole [] ∧
      (restarted.snapshot = service.snapshot ∨ service.store.writable = false ∧
        ∃ (envelope : CommandEnvelope) (evaluation : CommandEvaluation),
          evaluateCommand service.snapshot envelope.command = .ok evaluation ∧
          restarted.snapshot = evaluation.prospectiveState) := by
  obtain ⟨kept, whole, state, torn, hprefix, hframed, haccepted, hstate, hscan, hbytes⟩ := h.scan
  have hrestart := haccepted.create hscan
  rw [hbytes] at hrestart
  refine ⟨_, kept, whole, hrestart, hprefix, ⟨haccepted, hframed, rfl, rfl, ?_, .none⟩, hstate⟩
  exact (List.append_nil _).symm

theorem FileService.Standing.step (h : service.Standing limits batches frames tail)
    (hstep : FileService.Step limits service next) :
    ∃ (batches' : List CommandBatch) (frames' : List Bytes) (tail' : Bytes),
      batches <+: batches' ∧ next.Standing limits batches' frames' tail' := by
  cases hstep with
  | execute fault envelope => exact (h.withFault fault).execute envelope
  | restart hrestart =>
    obtain ⟨restarted, kept, whole, hrestart', hprefix, hnext, _⟩ := h.restart
    obtain rfl := Except.ok.inj (hrestart.symm.trans hrestart')
    exact ⟨kept, whole, [], hprefix, hnext⟩

theorem FileService.Standing.run (h : service.Standing limits batches frames tail)
    (hrun : ReflTransGen (FileService.Step limits) service next) :
    ∃ (batches' : List CommandBatch) (frames' : List Bytes) (tail' : Bytes),
      batches <+: batches' ∧ next.Standing limits batches' frames' tail' := by
  induction hrun with
  | refl => exact ⟨batches, frames, tail, List.prefix_rfl, h⟩
  | tail _ hstep ih =>
    obtain ⟨_, _, _, hprefix, hmiddle⟩ := ih
    obtain ⟨batches'', frames'', tail'', hprefix', hnext⟩ := hmiddle.step hstep
    exact ⟨batches'', frames'', tail'', hprefix.trans hprefix', hnext⟩

/-- A file with whole frames alone gives back the service that left it. -/
theorem FileService.Standing.restart_whole (h : service.Standing limits batches frames []) :
    service.restart limits = .ok { service with
      store := .opened service.store.bytes
      recoveredTornTail := false } := by
  have hbytes := h.bytes
  rw [List.append_nil] at hbytes
  have hscan := journalFormat_lawful.scan_frames h.framed
  rw [← hbytes] at hscan
  have hcreate := h.accepted.create hscan
  rw [List.take_length, ← h.index, ← h.sequence] at hcreate
  exact hcreate

/-- A longer journal has every record of a shorter one. -/
theorem FileService.Standing.index_kept (h : service.Standing limits batches frames tail)
    {batches' : List CommandBatch} {frames' : List Bytes} {tail' : Bytes}
    (hnext : next.Standing limits batches' frames' tail')
    (hkept : batches <+: batches')
    {id : CommandId} {record : IdempotencyRecord}
    (hrecord : service.idempotency[id]? = some record) : next.idempotency[id]? = some record := by
  rw [h.index, h.accepted.getElem?_indexOf_iff] at hrecord
  rw [hnext.index, hnext.accepted.getElem?_indexOf_iff]
  obtain ⟨batch, hmem, hbatch⟩ := hrecord
  exact ⟨batch, hkept.subset hmem, hbatch⟩

/-- Creation over any bytes leaves the file with its whole frames alone. -/
theorem FileService.standing_of_create {bytes : Bytes}
    (h : CommandService.create (some (FileJournalStore.opened bytes)) limits = .ok service) :
    ∃ (batches : List CommandBatch) (frames : List Bytes),
      service.Standing limits batches frames [] := by
  obtain ⟨scan, state, index, hscan, hvalid, hreplay, hindex, rfl⟩ :=
    FileService.create_ok_iff.mp h
  obtain ⟨frames, rest, hframed, rfl, hoffset, _⟩ := journalFormat_lawful.scan_ok hscan
  obtain ⟨rfl, _⟩ := emplaceRecords_index hindex
  refine ⟨scan.batches, frames, ⟨⟨hvalid, replay_batches hreplay, hindex⟩, hframed, rfl, rfl, ?_,
    .none⟩⟩
  show (frames.flatten ++ rest).take scan.lastValidOffset = frames.flatten ++ []
  rw [hoffset, List.take_left, List.append_nil]

structure FileService.ClosedBy (limits : LimitHierarchy) (first before service : FileService)
    (fault : Option WriteFault) (envelope : CommandEnvelope) : Prop where
  reached : ReflTransGen (FileService.Step limits) first before
  failed : ∃ failure, ((before.withFault fault).execute envelope).1 =
    .error (.journalUnavailable (some failure))
  followed : ReflTransGen (FileService.Step limits) ((before.withFault fault).execute envelope).2
    service
  snapshot : service.snapshot = before.snapshot
  index : service.idempotency = before.idempotency
  bytes : service.store.bytes = ((before.withFault fault).execute envelope).2.store.bytes

/-- A store is closed by a failed append only, and until the next restart nothing moves. -/
theorem FileService.closed_by_append {first : FileService} (hopen : first.store.writable = true)
    (hrun : ReflTransGen (FileService.Step limits) first service) :
    service.store.writable = true ∨
      ∃ before fault envelope, FileService.ClosedBy limits first before service fault envelope := by
  induction hrun with
  | refl => exact Or.inl hopen
  | @tail middle last hpath hstep ih =>
    cases hstep with
    | restart hrestart =>
      obtain ⟨_, _, _, _, _, _, _, rfl⟩ := FileService.create_ok_iff.mp hrestart
      exact Or.inl rfl
    | execute fault envelope =>
      rcases CommandService.execute_cases (middle.withFault fault) envelope with ⟨hsame, _⟩ |
        ⟨_, _, _, _, hp, ⟨failure, store, happend, hexec⟩ | ⟨store, happend, hexec⟩⟩
      · rcases ih with hw | ⟨before, fault', envelope', hclosed⟩
        · left
          rw [hsame]
          exact hw
        · right
          refine ⟨before, fault', envelope', hclosed.reached, hclosed.failed,
            hclosed.followed.tail (.execute middle fault envelope), ?_, ?_, ?_⟩
          · rw [hsame]
            exact hclosed.snapshot
          · rw [hsame]
            exact hclosed.index
          · rw [hsame]
            exact hclosed.bytes
      · right
        refine ⟨middle, fault, envelope, hpath, ⟨failure, by rw [hexec]⟩, .refl, ?_, ?_, rfl⟩
        · rw [hexec]
          rfl
        · rw [hexec]
          rfl
      · left
        have hw : (middle.withFault fault).store.writable = true := hp.writable
        rcases FileJournalStore.append_cases hw happend with ⟨_, _, herror, _⟩ | ⟨_, _, hopen'⟩
        · cases herror
        · rw [hexec]
          exact hopen'

/-- What a failed append leaves in the file of a standing service. -/
theorem FileService.Standing.execute_failed (h : service.Standing limits batches frames tail)
    {envelope : CommandEnvelope} {failure : JournalStoreError}
    (hfails : (service.execute envelope).1 = .error (.journalUnavailable (some failure))) :
    ∃ (evaluation : CommandEvaluation) (batch : CommandBatch) (frame : Bytes) (persisted : ℕ),
      Commits batches service.snapshot envelope evaluation batch ∧
      encodeFrame batch = .ok frame ∧
      (service.execute envelope).2.store.bytes = frames.flatten ++ frame.take persisted := by
  rcases service.execute_cases envelope with ⟨_, _, hno⟩ |
    ⟨canonical, frame, evaluation, batch, hp, ⟨_, store, happend, hexec⟩ | ⟨_, _, hexec⟩⟩
  · exact absurd hfails (hno failure)
  · have hw : service.store.writable = true := hp.writable
    obtain rfl := h.tail_nil hw
    rcases FileJournalStore.append_cases hw happend with ⟨cause, _, _, rfl⟩ | ⟨hok, _⟩
    · refine ⟨evaluation, batch, frame, cause.persisted, h.commits hp, hp.encoded, ?_⟩
      rw [hexec, h.bytes, List.append_nil]
    · cases hok
  · rw [hexec] at hfails
    cases hfails

/-- The next start takes the failed command for done, or for never made. -/
theorem FileService.ClosedBy.restarts {first before restarted : FileService}
    {fault : Option WriteFault} {envelope : CommandEnvelope}
    (h : FileService.ClosedBy limits first before service fault envelope)
    (hbefore : before.Standing limits batches frames tail)
    (hrestart : service.restart limits = .ok restarted) :
    restarted.snapshot = service.snapshot ∧ restarted.idempotency = service.idempotency ∨
      ∃ evaluation canonical, evaluateCommand before.snapshot envelope.command = .ok evaluation ∧
        canonicalCommandBytes envelope = .ok canonical ∧
        restarted.snapshot = evaluation.prospectiveState ∧
        restarted.idempotency =
          service.idempotency.insert envelope.commandId ⟨canonical, evaluation.result⟩ := by
  obtain ⟨failure, hfails⟩ := h.failed
  obtain ⟨evaluation, batch, frame, persisted, hc, hf, hbytes⟩ :=
    (hbefore.withFault fault).execute_failed hfails
  have hc' : Commits batches before.snapshot envelope evaluation batch := hc
  rw [FileService.restart, h.bytes, hbytes] at hrestart
  rcases scan_attempt hbefore.framed hf persisted with ⟨torn, hscan⟩ | ⟨hwhole, _, hscan⟩
  · left
    rw [hbefore.accepted.create hscan] at hrestart
    obtain rfl := Except.ok.inj hrestart
    exact ⟨h.snapshot.symm, (h.index.trans hbefore.index).symm⟩
  · right
    rw [hwhole, (hbefore.accepted.commit hc').create hscan] at hrestart
    obtain rfl := Except.ok.inj hrestart
    refine ⟨evaluation, batch.canonicalRequest, hc'.evaluated, hc'.request, rfl, ?_⟩
    rw [h.index, hbefore.index, ← hc'.commandId, ← hc'.result]
    exact indexOf_append

end Runs

/-- A service that has come up once, over whatever bytes, comes up again after any
run of commands, failed appends and restarts. It then has every record that was in
an index at any point of the run. It stands where it stood, or the run has ended
behind a command whose append failed, and it stands past this command and has its
result in the index. Coming up a third time changes nothing more. -/
theorem accepted_journal_stays_accepted (limits : LimitHierarchy) (bytes : Bytes)
    (first : FileService)
    (h : CommandService.create (some (FileJournalStore.opened bytes)) limits = .ok first)
    (service : FileService) (hrun : ReflTransGen (FileService.Step limits) first service) :
    ∃ restarted, service.restart limits = .ok restarted ∧
      (∀ middle : FileService, ReflTransGen (FileService.Step limits) first middle →
        ReflTransGen (FileService.Step limits) middle service →
        ∀ (id : CommandId) (record : IdempotencyRecord), middle.idempotency[id]? = some record →
          service.idempotency[id]? = some record ∧ restarted.idempotency[id]? = some record) ∧
      (restarted.snapshot = service.snapshot ∧ restarted.idempotency = service.idempotency ∨
        ∃ (before : FileService) (fault : Option WriteFault) (envelope : CommandEnvelope)
          (evaluation : CommandEvaluation) (canonical : Bytes),
          FileService.ClosedBy limits first before service fault envelope ∧
          evaluateCommand before.snapshot envelope.command = .ok evaluation ∧
          canonicalCommandBytes envelope = .ok canonical ∧
          restarted.snapshot = evaluation.prospectiveState ∧
          restarted.idempotency = service.idempotency.insert envelope.commandId
            ⟨canonical, evaluation.result⟩) ∧
      restarted.restart limits = .ok { restarted with recoveredTornTail := false } := by
  obtain ⟨batches, frames, hfirst⟩ := FileService.standing_of_create h
  obtain ⟨batches', frames', tail', _, hservice⟩ := hfirst.run hrun
  obtain ⟨restarted, kept, whole, hrestart, hkept, hrestarted, _⟩ := hservice.restart
  refine ⟨restarted, hrestart, ?_, ?_, ?_⟩
  · intro middle hmiddle hrest id record hrecord
    obtain ⟨_, _, _, _, hstanding⟩ := hfirst.run hmiddle
    obtain ⟨_, _, _, hprefix, hend⟩ := hstanding.run hrest
    have hpresent := hstanding.index_kept hend hprefix hrecord
    exact ⟨hpresent, hservice.index_kept hrestarted hkept hpresent⟩
  · have hopen : first.store.writable = true := by
      obtain ⟨_, _, _, _, _, _, _, rfl⟩ := FileService.create_ok_iff.mp h
      rfl
    rcases FileService.closed_by_append hopen hrun with hw | ⟨before, fault, envelope, hclosed⟩
    · obtain rfl := hservice.tail_nil hw
      obtain rfl := Except.ok.inj (hservice.restart_whole.symm.trans hrestart)
      exact Or.inl ⟨rfl, rfl⟩
    · obtain ⟨_, _, _, _, hbefore⟩ := hfirst.run hclosed.reached
      rcases hclosed.restarts hbefore hrestart with hsame | ⟨evaluation, canonical, hmade⟩
      · exact Or.inl hsame
      · exact Or.inr ⟨before, fault, envelope, evaluation, canonical, hclosed, hmade⟩
  · -- Behind the last restart there is nothing left to cut.
    have hopened : restarted.store = FileJournalStore.opened restarted.store.bytes := by
      obtain ⟨_, _, _, _, _, _, _, rfl⟩ := FileService.create_ok_iff.mp hrestart
      rfl
    rw [hrestarted.restart_whole, ← hopened]

/-- A stray journal, then a run whose frame is torn after ten bytes. -/
theorem accepted_journal_stays_accepted_stray : ∃ frame, encodeFrame strayBatch = .ok frame ∧
    ∃ first : FileService,
      CommandService.create (some (FileJournalStore.opened frame)) ⟨∅⟩ = .ok first ∧
      ∀ envelope : CommandEnvelope, ∃ restarted, FileService.restart
        ((first.withFault (some ⟨.appendFailed, 10⟩)).execute envelope).2 ⟨∅⟩ = .ok restarted ∧
        ∀ (id : CommandId) (record : IdempotencyRecord), first.idempotency[id]? = some record →
          restarted.idempotency[id]? = some record := by
  obtain ⟨frame, hframe, first, hcreate⟩ := create_strayFile
  refine ⟨frame, hframe, first, hcreate, ?_⟩
  intro envelope
  have hrun : ReflTransGen (FileService.Step ⟨∅⟩) first _ :=
    .single (.execute first (some ⟨.appendFailed, 10⟩) envelope)
  obtain ⟨restarted, hrestart, hkept, _⟩ :=
    accepted_journal_stays_accepted ⟨∅⟩ frame first hcreate _ hrun
  refine ⟨restarted, hrestart, ?_⟩
  intro id record hrecord
  exact (hkept first .refl hrun id record hrecord).2

end Backbook
