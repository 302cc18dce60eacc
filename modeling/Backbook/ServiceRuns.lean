import Backbook.CrashRecovery

/-! Runs of executions, failed appends and restarts over one file. An append that
fails leaves some first bytes of its frame and closes the store, so a journal is a
list of frames and at most one attempt that was never answered. A restart decides
that attempt. -/
namespace Backbook

open FramedLog Relation

abbrev FileService := CommandService FileJournalStore

/-- The operating system decides before each command whether its append fails. -/
def FileService.withFault (service : FileService) (fault : Option WriteFault) : FileService :=
  { service with store := { service.store with fault := fault } }

def FileService.restart (service : FileService) (limits : LimitHierarchy) :
    Except CommandServiceError FileService :=
  CommandService.create (some (FileJournalStore.opened service.store.bytes)) limits

/-- Any client's command with any fault, or a restart. The lock makes every
interleaving of clients a sequence of these. -/
inductive FileService.Step (limits : LimitHierarchy) : FileService → FileService → Prop
  | execute (service : FileService) (fault : Option WriteFault) (envelope : CommandEnvelope) :
      Step limits service ((service.withFault fault).execute envelope).2
  | restart {service restarted : FileService} (h : service.restart limits = .ok restarted) :
      Step limits service restarted

def FileService.Reachable (limits : LimitHierarchy) (service : FileService) : Prop :=
  ∃ first, CommandService.create (some (FileJournalStore.opened [])) limits = .ok first ∧
    ReflTransGen (FileService.Step limits) first service

/-- The execution a result comes from, in the past of a service. The command was
evaluated under a new identifier, and its append was answered or failed. -/
def FileService.Origin (limits : LimitHierarchy) (service : FileService)
    (original : CommandEnvelope) (result : CommandResult) : Prop :=
  ∃ (before : FileService) (fault : Option WriteFault) (evaluation : CommandEvaluation),
    before.Reachable limits ∧ before.idempotency[original.commandId]? = none ∧
    evaluateCommand before.snapshot original.command = .ok evaluation ∧
    evaluation.result = result ∧
    (((before.withFault fault).execute original).1 = .ok ⟨result, false⟩ ∨
      ∃ failure, ((before.withFault fault).execute original).1 =
        .error (.journalUnavailable (some failure))) ∧
    ReflTransGen (FileService.Step limits) ((before.withFault fault).execute original).2 service

def FileService.Recorded (limits : LimitHierarchy) (service : FileService) (batch : CommandBatch) :
    Prop :=
  ∃ original : CommandEnvelope, original.commandId = batch.commandId ∧
    canonicalCommandBytes original = .ok batch.canonicalRequest ∧
    service.Origin limits original batch.result

inductive FileService.Tail (limits : LimitHierarchy) (service : FileService)
    (batches : List CommandBatch) : Bytes → Prop
  | none : Tail limits service batches []
  | attempt {envelope : CommandEnvelope} {evaluation : CommandEvaluation} {batch : CommandBatch}
      {frame : Bytes} (persisted : ℕ) (closed : service.store.writable = false)
      (hc : Commits batches service.snapshot envelope evaluation batch)
      (hf : encodeFrame batch = .ok frame) (ho : service.Recorded limits batch) :
      Tail limits service batches (frame.take persisted)

structure FileService.Durable (limits : LimitHierarchy) (service : FileService)
    (batches : List CommandBatch) (frames : List Bytes) (tail : Bytes) : Prop where
  journaled : service.Journaled limits batches frames
  bytes : service.store.bytes = frames.flatten ++ tail
  recorded : ∀ batch ∈ batches, service.Recorded limits batch
  behind : service.Tail limits batches tail

section Steps

variable {limits : LimitHierarchy} {service next : FileService} {batches : List CommandBatch}
  {frames : List Bytes} {tail : Bytes}

theorem FileService.Origin.later {original : CommandEnvelope} {result : CommandResult}
    (h : service.Origin limits original result)
    (hstep : ReflTransGen (FileService.Step limits) service next) :
    next.Origin limits original result := by
  obtain ⟨before, fault, evaluation, hr, hnew, he, hres, hanswer, hpath⟩ := h
  exact ⟨before, fault, evaluation, hr, hnew, he, hres, hanswer, hpath.trans hstep⟩

theorem FileService.Recorded.later {batch : CommandBatch} (h : service.Recorded limits batch)
    (hstep : ReflTransGen (FileService.Step limits) service next) :
    next.Recorded limits batch := by
  obtain ⟨original, hid, hcanonical, horigin⟩ := h
  exact ⟨original, hid, hcanonical, horigin.later hstep⟩

theorem FileService.Reachable.step (h : service.Reachable limits)
    (hstep : FileService.Step limits service next) : next.Reachable limits := by
  obtain ⟨first, hfirst, hpath⟩ := h
  exact ⟨first, hfirst, hpath.tail hstep⟩

theorem FileService.Tail.later (h : service.Tail limits batches tail)
    (hw : next.store.writable = service.store.writable) (hs : next.snapshot = service.snapshot)
    (hstep : ReflTransGen (FileService.Step limits) service next) :
    next.Tail limits batches tail := by
  cases h with
  | none => exact .none
  | attempt persisted closed hc hf ho =>
    exact .attempt persisted (hw.trans closed) (hs ▸ hc) hf (ho.later hstep)

theorem FileService.Durable.tail_nil (h : service.Durable limits batches frames tail)
    (hw : service.store.writable = true) : tail = [] := by
  cases h.behind with
  | none => rfl
  | attempt _ closed _ _ _ =>
    rw [hw] at closed
    contradiction

/-- Nothing but the fault differs from a durable service. -/
theorem FileService.Durable.same (h : service.Durable limits batches frames tail)
    {fault : Option WriteFault} (hnext : next = service.withFault fault)
    (hstep : FileService.Step limits service next) :
    next.Durable limits batches frames tail := by
  subst hnext
  refine ⟨h.journaled.with_store _, h.bytes, ?_, ?_⟩
  · intro batch hmem
    exact (h.recorded batch hmem).later (.single hstep)
  · exact h.behind.later rfl rfl (.single hstep)

/-- The append of a file store, as its fault decides. -/
theorem FileJournalStore.append_cases {store after : FileJournalStore} {frame : Bytes}
    {outcome : Except JournalStoreError Unit} (hw : store.writable = true)
    (h : JournalStore.appendAndFlush frame store = (outcome, after)) :
    (∃ fault, store.fault = some fault ∧ outcome = .error ⟨fault.code⟩ ∧
        after = ⟨store.bytes ++ frame.take fault.persisted, false, none⟩) ∨
      outcome = .ok () ∧ after.bytes = store.bytes ++ frame ∧ after.writable = true := by
  change FileJournalStore.appendAndFlush frame store = _ at h
  unfold FileJournalStore.appendAndFlush at h
  rw [hw] at h
  simp only [Bool.not_true, Bool.false_eq_true, if_false] at h
  split at h
  · rename_i fault hfault
    obtain ⟨rfl, rfl⟩ := Prod.mk.inj h
    exact Or.inl ⟨fault, hfault, rfl, rfl⟩
  · obtain ⟨rfl, rfl⟩ := Prod.mk.inj h
    exact Or.inr ⟨rfl, rfl, rfl⟩

/-- The batch of a prepared command comes from this execution. -/
theorem FileService.recorded_of_prepared {fault : Option WriteFault} {envelope : CommandEnvelope}
    {canonical frame : Bytes} {evaluation : CommandEvaluation} {batch : CommandBatch}
    (hr : service.Reachable limits)
    (hp : (service.withFault fault).Prepared envelope canonical evaluation batch frame)
    (hanswer : ((service.withFault fault).execute envelope).1 = .ok ⟨evaluation.result, false⟩ ∨
      ∃ failure, ((service.withFault fault).execute envelope).1 =
        .error (.journalUnavailable (some failure))) :
    FileService.Recorded limits ((service.withFault fault).execute envelope).2 batch := by
  obtain ⟨_, hid, hrequest, _, hresult⟩ := CommandBatch.create_ok_iff.mp hp.batched
  refine ⟨envelope, hid.symm, hrequest ▸ hp.canonical_eq, ?_⟩
  rw [hresult]
  exact ⟨service, fault, evaluation, hr, hp.fresh, hp.evaluated, rfl, hanswer, .refl⟩

/-- One execution keeps the journal, or adds the batch of the command to it. -/
theorem FileService.Durable.execute (hr : service.Reachable limits)
    (h : service.Durable limits batches frames tail) (fault : Option WriteFault)
    (envelope : CommandEnvelope) :
    (∃ tail', FileService.Durable limits ((service.withFault fault).execute envelope).2
        batches frames tail') ∨
      ∃ batch frame, FileService.Durable limits ((service.withFault fault).execute envelope).2
        (batches ++ [batch]) (frames ++ [frame]) [] := by
  have hstep : FileService.Step limits service _ := .execute service fault envelope
  have hjournaled : (service.withFault fault).Journaled limits batches frames :=
    h.journaled.with_store _
  rcases (service.withFault fault).execute_cases envelope with ⟨hsame, _⟩ |
    ⟨canonical, frame, evaluation, batch, hp, ⟨failure, store, happend, hexec⟩ |
      ⟨store, happend, hexec⟩⟩
  · exact Or.inl ⟨tail, h.same hsame hstep⟩
  · -- The append failed and left part of the frame behind.
    left
    have hw : (service.withFault fault).store.writable = true := hp.writable
    obtain rfl := h.tail_nil hw
    rcases FileJournalStore.append_cases hw happend with ⟨cause, _, _, rfl⟩ | ⟨hok, _⟩
    · have hrecorded := FileService.recorded_of_prepared hr hp
        (Or.inr ⟨failure, by rw [hexec]⟩)
      rw [hexec] at hstep hrecorded ⊢
      refine ⟨frame.take cause.persisted, ⟨?_, ?_, ?_, ?_⟩⟩
      · exact hjournaled.with_store _
      · have hbytes : (service.withFault fault).store.bytes = frames.flatten ++ [] := h.bytes
        simp only [hbytes, List.append_nil]
      · intro other hmem
        exact (h.recorded other hmem).later (.single hstep)
      · exact .attempt cause.persisted rfl (hjournaled.commits hp) hp.encoded hrecorded
    · cases hok
  · -- The append succeeded, and its frame stands behind the others.
    right
    have hw : (service.withFault fault).store.writable = true := hp.writable
    obtain rfl := h.tail_nil hw
    rcases FileJournalStore.append_cases hw happend with ⟨cause, _, herror, _⟩ | ⟨_, hbytes, _⟩
    · cases herror
    · have hrecorded := FileService.recorded_of_prepared hr hp (Or.inl (by rw [hexec]))
      have hjournaled' := hjournaled.publish hp store
      rw [hexec] at hstep hrecorded ⊢
      refine ⟨batch, frame, ⟨hjournaled', ?_, ?_, .none⟩⟩
      · have hold : (service.withFault fault).store.bytes = frames.flatten ++ [] := h.bytes
        simp only [hbytes, hold, List.append_nil, List.flatten_append, List.flatten_singleton]
      · intro other hmem
        rcases List.mem_append.mp hmem with hmem | hmem
        · exact (h.recorded other hmem).later (.single hstep)
        · obtain rfl := List.mem_singleton.mp hmem
          exact hrecorded

end Steps

section Restarts

variable {limits : LimitHierarchy} {service next : FileService} {batches : List CommandBatch}
  {frames : List Bytes} {tail : Bytes} {state : State}

/-- A restart rebuilds the service from the batches that it scans. -/
theorem FileService.restart_eq (hc : Committed limits batches state) {offset : ℕ} {torn : Bool}
    (hscan : scanJournal service.store.bytes = .ok ⟨batches, offset, torn⟩) :
    service.restart limits = .ok ⟨FileJournalStore.opened (service.store.bytes.take offset), state,
      indexOf batches, nextSequenceAfter batches, torn⟩ :=
  hc.create (recoverJournal_file hscan)

/-- The file of a durable service scans to its journal, or to its journal and the
batch of the attempt when all of that frame was kept. -/
theorem FileService.Durable.scan (h : service.Durable limits batches frames tail) :
    ∃ (kept : List CommandBatch) (whole : List Bytes) (state : State) (torn : Bool),
      batches <+: kept ∧ Framed kept whole ∧ Committed limits kept state ∧
      (∀ batch ∈ kept, service.Recorded limits batch) ∧
      scanJournal service.store.bytes = .ok ⟨kept, whole.flatten.length, torn⟩ ∧
      service.store.bytes.take whole.flatten.length = whole.flatten := by
  rw [h.bytes]
  cases h.behind with
  | none =>
    have hscan := journalFormat_lawful.scan_frames h.journaled.framed
    rw [List.append_nil]
    exact ⟨batches, frames, _, false, List.prefix_rfl, h.journaled.framed, h.journaled.committed,
      h.recorded, hscan, List.take_length⟩
  | @attempt envelope evaluation batch frame persisted closed hc hf ho =>
    rcases Nat.lt_or_ge persisted frame.length with htorn | hwhole
    · have hscan := journalFormat_lawful.scan_torn h.journaled.framed hf htorn
      exact ⟨batches, frames, _, _, List.prefix_rfl, h.journaled.framed, h.journaled.committed,
        h.recorded, hscan, List.take_left⟩
    · have hframed := framed_append h.journaled.framed hf
      have hscan := journalFormat_lawful.scan_frames hframed
      have hbytes : frames.flatten ++ frame.take persisted = (frames ++ [frame]).flatten := by
        rw [List.take_of_length_le hwhole, List.flatten_append, List.flatten_singleton]
      rw [hbytes]
      refine ⟨batches ++ [batch], frames ++ [frame], _, false, List.prefix_append _ _, hframed,
        h.journaled.committed.commit hc, ?_, hscan, List.take_length⟩
      intro other hmem
      rcases List.mem_append.mp hmem with hmem | hmem
      · exact h.recorded other hmem
      · obtain rfl := List.mem_singleton.mp hmem
        exact ho

/-- A restart always succeeds. It loses no batch and leaves no attempt. -/
theorem FileService.Durable.restart (h : service.Durable limits batches frames tail) :
    ∃ (restarted : FileService) (kept : List CommandBatch) (whole : List Bytes),
      service.restart limits = .ok restarted ∧ batches <+: kept ∧
      restarted.Durable limits kept whole [] := by
  obtain ⟨kept, whole, state, torn, hprefix, hframed, hcommitted, hrecorded, hscan, hbytes⟩ :=
    h.scan
  have hrestart := FileService.restart_eq hcommitted hscan
  rw [hbytes] at hrestart
  refine ⟨_, kept, whole, hrestart, hprefix, ⟨hframed, hcommitted, rfl, rfl⟩, ?_, ?_, .none⟩
  · exact (List.append_nil _).symm
  · intro batch hmem
    exact (hrecorded batch hmem).later (.single (.restart hrestart))

/-- One step of a run loses no batch. -/
theorem FileService.Durable.step (hr : service.Reachable limits)
    (h : service.Durable limits batches frames tail)
    (hstep : FileService.Step limits service next) :
    ∃ (batches' : List CommandBatch) (frames' : List Bytes) (tail' : Bytes),
      batches <+: batches' ∧ next.Durable limits batches' frames' tail' := by
  cases hstep with
  | execute fault envelope =>
    rcases h.execute hr fault envelope with ⟨tail', hnext⟩ | ⟨batch, frame, hnext⟩
    · exact ⟨batches, frames, tail', List.prefix_rfl, hnext⟩
    · exact ⟨batches ++ [batch], frames ++ [frame], [], List.prefix_append _ _, hnext⟩
  | restart hrestart =>
    -- The restart that happened is the one that always succeeds.
    obtain ⟨restarted, kept, whole, hrestart', hprefix, hnext⟩ := h.restart
    rw [hrestart'] at hrestart
    obtain rfl := Except.ok.inj hrestart
    exact ⟨kept, whole, [], hprefix, hnext⟩

/-- A run loses no batch. -/
theorem FileService.Durable.run (hr : service.Reachable limits)
    (h : service.Durable limits batches frames tail)
    (hrun : ReflTransGen (FileService.Step limits) service next) :
    next.Reachable limits ∧ ∃ (batches' : List CommandBatch) (frames' : List Bytes) (tail' : Bytes),
      batches <+: batches' ∧ next.Durable limits batches' frames' tail' := by
  induction hrun with
  | refl => exact ⟨hr, batches, frames, tail, List.prefix_rfl, h⟩
  | tail _ hstep ih =>
    obtain ⟨hr', batches', frames', tail', hprefix, h'⟩ := ih
    obtain ⟨batches'', frames'', tail'', hprefix', h''⟩ := h'.step hr' hstep
    exact ⟨hr'.step hstep, batches'', frames'', tail'', hprefix.trans hprefix', h''⟩

def FileService.fresh (limits : LimitHierarchy) : FileService :=
  ⟨FileJournalStore.opened [], State.initial limits, ∅, 1, false⟩

theorem FileService.create_fresh (limits : LimitHierarchy) :
    CommandService.create (some (FileJournalStore.opened [])) limits =
      .ok (FileService.fresh limits) :=
  CommandService.create_empty rfl

theorem FileService.fresh_durable (limits : LimitHierarchy) :
    (FileService.fresh limits).Durable limits [] [] [] :=
  ⟨⟨.nil, .nil, rfl, rfl⟩, rfl, nofun, .none⟩

theorem FileService.Reachable.durable (h : service.Reachable limits) :
    ∃ (batches : List CommandBatch) (frames : List Bytes) (tail : Bytes),
      service.Durable limits batches frames tail := by
  obtain ⟨first, hfirst, hrun⟩ := h
  have hcreate := hfirst.symm.trans (FileService.create_fresh limits)
  obtain rfl := Except.ok.inj hcreate
  obtain ⟨_, batches, frames, tail, _, hdurable⟩ :=
    (FileService.fresh_durable limits).run ⟨_, hfirst, .refl⟩ hrun
  exact ⟨batches, frames, tail, hdurable⟩

end Restarts

end Backbook
