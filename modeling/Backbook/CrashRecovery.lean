import Backbook.ServiceRecovery

namespace Backbook

open FramedLog

variable {limits : LimitHierarchy}

structure CommandService.Journaled {S : Type} (service : CommandService S)
    (limits : LimitHierarchy) (batches : List CommandBatch) (frames : List Bytes) : Prop where
  framed : Framed batches frames
  committed : Committed limits batches service.snapshot
  index : service.idempotency = indexOf batches
  sequence : service.nextSequence = nextSequenceAfter batches

/-- The store is no part of what a service stands for. -/
theorem CommandService.Journaled.with_store {S : Type} {service : CommandService S}
    {batches : List CommandBatch} {frames : List Bytes}
    (h : service.Journaled limits batches frames) (store : S) :
    CommandService.Journaled { service with store := store } limits batches frames :=
  ⟨h.framed, h.committed, h.index, h.sequence⟩

section Commit

variable {S : Type} [JournalStore S] {service : CommandService S} {batches : List CommandBatch}
  {frames : List Bytes} {envelope : CommandEnvelope} {canonical frame : Bytes}
  {evaluation : CommandEvaluation} {batch : CommandBatch}

/-- What the service prepares is the next commit of its journal. -/
theorem CommandService.Journaled.commits (h : service.Journaled limits batches frames)
    (hp : service.Prepared envelope canonical evaluation batch frame) :
    Commits batches service.snapshot envelope evaluation batch := by
  obtain ⟨hsequence, hid, hrequest, hevents, hresult⟩ := CommandBatch.create_ok_iff.mp hp.batched
  -- Index and counter of the service are those of its journal.
  have hfresh := hp.fresh
  have hne := hp.sequence_ne
  rw [h.index] at hfresh
  rw [h.sequence] at hne hsequence
  exact ⟨hfresh, hne, hp.evaluated, hsequence, hid, hrequest ▸ hp.canonical_eq, hevents, hresult⟩

theorem framed_append {batches : List CommandBatch} {frames : List Bytes}
    (h : Framed batches frames) (hf : encodeFrame batch = .ok frame) :
    Framed (batches ++ [batch]) (frames ++ [frame]) :=
  List.rel_append h (.cons hf .nil)

/-- Publishing after the append keeps the service in step with its journal. -/
theorem CommandService.Journaled.publish (h : service.Journaled limits batches frames)
    (hp : service.Prepared envelope canonical evaluation batch frame) (store : S) :
    CommandService.Journaled { service with
        store := store
        snapshot := evaluation.prospectiveState
        idempotency := service.idempotency.insert envelope.commandId
          ⟨canonical, evaluation.result⟩
        nextSequence := followingSequence service.nextSequence }
      limits (batches ++ [batch]) (frames ++ [frame]) where
  framed := framed_append h.framed hp.encoded
  committed := h.committed.commit (h.commits hp)
  index := by
    obtain ⟨_, hid, hrequest, _, hresult⟩ := CommandBatch.create_ok_iff.mp hp.batched
    rw [indexOf_append, h.index, hid, hrequest, hresult]
  sequence := by
    obtain ⟨hsequence, _⟩ := CommandBatch.create_ok_iff.mp hp.batched
    rw [nextSequenceAfter_append, hsequence]

/-- A committed journal determines its state. -/
theorem Committed.unique {state state' : State} (h : Committed limits batches state)
    (h' : Committed limits batches state') : state = state' :=
  Except.ok.inj (h.replay.symm.trans h'.replay)

/-- Frames are read back uniquely, so bytes determine the batches. -/
theorem Framed.unique {batches' : List CommandBatch} {frames' : List Bytes}
    (h : Framed batches frames) (h' : Framed batches' frames')
    (hbytes : frames.flatten = frames'.flatten) : batches = batches' := by
  have hscan := journalFormat_lawful.scan_frames h
  have hscan' := journalFormat_lawful.scan_frames h'
  rw [hbytes, hscan'] at hscan
  have hresult := Except.ok.inj hscan
  exact (congrArg ScanResult.batches hresult).symm

end Commit

def CommandService.executeAll {S : Type} [JournalStore S] (service : CommandService S)
    (envelopes : List CommandEnvelope) : CommandService S :=
  envelopes.foldl (fun reached envelope => (reached.execute envelope).2) service

@[simp] theorem CommandService.executeAll_nil {S : Type} [JournalStore S]
    (service : CommandService S) : service.executeAll [] = service := rfl

@[simp] theorem CommandService.executeAll_append {S : Type} [JournalStore S]
    (service : CommandService S) (envelopes : List CommandEnvelope) (envelope : CommandEnvelope) :
    service.executeAll (envelopes ++ [envelope]) =
      ((service.executeAll envelopes).execute envelope).2 := by
  simp [CommandService.executeAll]

section Memory

structure CommandService.Stored (service : CommandService MemoryJournalStore)
    (limits : LimitHierarchy) (batches : List CommandBatch) (frames : List Bytes) : Prop where
  journaled : service.Journaled limits batches frames
  store : service.store = MemoryJournalStore.ofBytes frames.flatten
  intact : service.recoveredTornTail = false

theorem appendAndFlush_ofBytes (frame bytes : Bytes) :
    JournalStore.appendAndFlush frame (MemoryJournalStore.ofBytes bytes) =
      (.ok (), MemoryJournalStore.ofBytes (bytes ++ frame)) := rfl

/-- One execution leaves the journal as it is or adds one batch to it. -/
theorem CommandService.Stored.execute {service : CommandService MemoryJournalStore}
    {batches : List CommandBatch} {frames : List Bytes} (h : service.Stored limits batches frames)
    (envelope : CommandEnvelope) :
    (service.execute envelope).2.Stored limits batches frames ∨
      ∃ batch frame, (service.execute envelope).2.Stored limits (batches ++ [batch])
        (frames ++ [frame]) := by
  rcases service.execute_cases envelope with ⟨hsame, _⟩ |
    ⟨canonical, frame, evaluation, batch, hp, ⟨failure, store, happend, _⟩ |
      ⟨store, happend, hexec⟩⟩
  · rw [hsame]
    exact Or.inl h
  · -- A memory store that nothing told to fail does not fail.
    rw [h.store, appendAndFlush_ofBytes] at happend
    cases happend
  · right
    rw [h.store, appendAndFlush_ofBytes] at happend
    obtain rfl := (Prod.mk.inj happend).2
    refine ⟨batch, frame, ?_⟩
    rw [hexec]
    refine ⟨h.journaled.publish hp _, ?_, h.intact⟩
    simp

/-- A run of executions, with the services that had committed each first part of
its journal. -/
theorem CommandService.Stored.executeAll {service : CommandService MemoryJournalStore}
    (h : service.Stored limits [] []) (envelopes : List CommandEnvelope) :
    ∃ (batches : List CommandBatch) (frames : List Bytes),
      (service.executeAll envelopes).Stored limits batches frames ∧
      ∀ m ≤ frames.length, ∃ done, done <+: envelopes ∧
        (service.executeAll done).Stored limits (batches.take m) (frames.take m) := by
  induction envelopes using List.reverseRecOn with
  | nil => exact ⟨[], [], h, fun m _ => ⟨[], List.prefix_rfl, by simpa using h⟩⟩
  | append_singleton envelopes envelope ih =>
    obtain ⟨batches, frames, hrun, hpast⟩ := ih
    have hpast' : ∀ m ≤ frames.length, ∃ done, done <+: envelopes ++ [envelope] ∧
        (service.executeAll done).Stored limits (batches.take m) (frames.take m) := by
      intro m hm
      obtain ⟨done, hdone, hstored⟩ := hpast m hm
      exact ⟨done, hdone.trans (List.prefix_append _ _), hstored⟩
    rcases hrun.execute envelope with hsame | ⟨batch, frame, hnext⟩
    · rw [← CommandService.executeAll_append] at hsame
      exact ⟨batches, frames, hsame, hpast'⟩
    · rw [← CommandService.executeAll_append] at hnext
      refine ⟨batches ++ [batch], frames ++ [frame], hnext, ?_⟩
      intro m hm
      rcases Nat.lt_or_ge frames.length m with hlast | hold
      · -- The whole journal is that of the run itself.
        refine ⟨envelopes ++ [envelope], List.prefix_rfl, ?_⟩
        have hlen : (batches ++ [batch]).length = (frames ++ [frame]).length :=
          hnext.journaled.framed.length_eq
        have hm' : (frames ++ [frame]).length ≤ m := by
          rw [List.length_append]
          simpa using hlast
        rw [List.take_of_length_le hm', List.take_of_length_le (by omega)]
        exact hnext
      · have hlen : batches.length = frames.length := hrun.journaled.framed.length_eq
        rw [List.take_append_of_le_length hold, List.take_append_of_le_length (by omega)]
        exact hpast' m hold

/-- Creation over the first bytes of a journal. -/
theorem CommandService.Stored.recover {service past : CommandService MemoryJournalStore}
    {batches : List CommandBatch} {frames : List Bytes} (h : service.Stored limits batches frames)
    {k : ℕ} (hk : k ≤ frames.flatten.length)
    (hpast : past.Stored limits (batches.take (wholeFrames frames k))
      (frames.take (wholeFrames frames k))) :
    CommandService.create (some (MemoryJournalStore.ofBytes (frames.flatten.take k))) limits =
      .ok { past with
        recoveredTornTail := decide (frameEnd frames (wholeFrames frames k) ≠ k) } := by
  have hscan := journalFormat_lawful.scan_take h.journaled.framed hk
  have hrecover := recoverJournal_memory hscan
  have hend := (frameEnd_le_iff frames k _ (wholeFrames_le_length frames k)).mpr le_rfl
  have hkept : (frames.flatten.take k).take (frameEnd frames (wholeFrames frames k)) =
      (frames.take (wholeFrames frames k)).flatten := by
    rw [List.take_take, Nat.min_eq_left hend]
    have hsplit := congrArg List.flatten (List.take_append_drop (wholeFrames frames k) frames)
    rw [List.flatten_append] at hsplit
    rw [← hsplit, frameEnd, List.take_left]
  simp only [hkept] at hrecover
  rw [hpast.journaled.committed.create hrecover]
  rw [← hpast.store, ← hpast.journaled.index, ← hpast.journaled.sequence]

end Memory

/-- Over any limits, creation over an empty store succeeds, and after any
executions the journal is a list of frames. Creation over its first `k` bytes
succeeds, keeps the whole frames, reports a torn tail just when the cut is not
at the end of a frame, and is the service that had committed exactly those
frames. Creation over the whole journal is the live service. -/
theorem crash_recovery_refines (limits : LimitHierarchy) (envelopes : List CommandEnvelope) :
    ∃ service, CommandService.create (some (MemoryJournalStore.ofBytes [])) limits = .ok service ∧
      CommandService.create (some (MemoryJournalStore.ofBytes
        (service.executeAll envelopes).store.bytes)) limits = .ok (service.executeAll envelopes) ∧
      ∃ (batches : List CommandBatch) (frames : List Bytes), Framed batches frames ∧
        (service.executeAll envelopes).store.bytes = frames.flatten ∧
        ∀ k ≤ (service.executeAll envelopes).store.bytes.length, ∃ m ≤ frames.length,
          (∀ i ≤ frames.length, frameEnd frames i ≤ k ↔ i ≤ m) ∧ ∃ recovered,
          CommandService.create (some (MemoryJournalStore.ofBytes
            ((service.executeAll envelopes).store.bytes.take k))) limits = .ok recovered ∧
          recovered.store = MemoryJournalStore.ofBytes (frames.take m).flatten ∧
          (recovered.recoveredTornTail = true ↔ ∀ i ≤ frames.length, frameEnd frames i ≠ k) ∧
          (∃ done, done <+: envelopes ∧
            (service.executeAll done).store.bytes = (frames.take m).flatten) ∧
          ∀ done, done <+: envelopes →
            (service.executeAll done).store.bytes = (frames.take m).flatten →
            recovered.snapshot = (service.executeAll done).snapshot ∧
            recovered.idempotency = (service.executeAll done).idempotency ∧
            recovered.nextSequence = (service.executeAll done).nextSequence := by
  let service : CommandService MemoryJournalStore :=
    ⟨MemoryJournalStore.ofBytes [], State.initial limits, ∅, 1, false⟩
  have hcreate : CommandService.create (some (MemoryJournalStore.ofBytes [])) limits =
      .ok service := CommandService.create_empty rfl
  have hstart : service.Stored limits [] [] := ⟨⟨.nil, .nil, rfl, rfl⟩, rfl, rfl⟩
  obtain ⟨batches, frames, hrun, hpast⟩ := hstart.executeAll envelopes
  have hbytes : (service.executeAll envelopes).store.bytes = frames.flatten := by
    rw [hrun.store]
    rfl
  refine ⟨service, hcreate, ?_, batches, frames, hrun.journaled.framed, hbytes, ?_⟩
  · have hscan := journalFormat_lawful.scan_frames hrun.journaled.framed
    have hrecover := recoverJournal_memory hscan
    rw [hbytes, hrun.journaled.committed.create hrecover]
    simp only [List.take_length]
    rw [← hrun.store, ← hrun.journaled.index, ← hrun.journaled.sequence, ← hrun.intact]
  · rw [hbytes]
    intro k hk
    have hm := wholeFrames_le_length frames k
    obtain ⟨done, hdone, hstored⟩ := hpast _ hm
    have hcut := hrun.recover hk hstored
    refine ⟨wholeFrames frames k, hm, frameEnd_le_iff frames k, _, hcut, hstored.store, ?_,
      ⟨done, hdone, by rw [hstored.store]; rfl⟩, ?_⟩
    · exact decide_eq_true_iff.trans (frameEnd_ne_iff frames k)
    · intro other _ hother
      -- The same bytes hold the same batches, which determine the rest.
      obtain ⟨batches', frames', hrun', _⟩ := hstart.executeAll other
      rw [hrun'.store] at hother
      obtain rfl := hrun'.journaled.framed.unique hstored.journaled.framed hother
      have hstate := hstored.journaled.committed.unique hrun'.journaled.committed
      exact ⟨hstate, hstored.journaled.index.trans hrun'.journaled.index.symm,
        hstored.journaled.sequence.trans hrun'.journaled.sequence.symm⟩

end Backbook
