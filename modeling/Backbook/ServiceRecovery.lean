import Backbook.ServiceExecute

namespace Backbook

open Std FramedLog

def indexOf (batches : List CommandBatch) : IdempotencyIndex :=
  batches.foldl (fun index batch =>
    index.insert batch.commandId ⟨batch.canonicalRequest, batch.result⟩) ∅

structure Commits (batches : List CommandBatch) (state : State) (envelope : CommandEnvelope)
    (evaluation : CommandEvaluation) (batch : CommandBatch) : Prop where
  fresh : (indexOf batches)[envelope.commandId]? = none
  sequence_ne : nextSequenceAfter batches ≠ 0
  evaluated : evaluateCommand state envelope.command = .ok evaluation
  sequence : batch.sequence = nextSequenceAfter batches
  commandId : batch.commandId = envelope.commandId
  request : canonicalCommandBytes envelope = .ok batch.canonicalRequest
  events : batch.events = [evaluation.event]
  result : batch.result = evaluation.result

inductive Committed (limits : LimitHierarchy) : List CommandBatch → State → Prop
  | nil : Committed limits [] (State.initial limits)
  | commit {batches : List CommandBatch} {state : State} {envelope : CommandEnvelope}
      {evaluation : CommandEvaluation} {batch : CommandBatch} (h : Committed limits batches state)
      (hc : Commits batches state envelope evaluation batch) :
      Committed limits (batches ++ [batch]) evaluation.prospectiveState

section Lists

variable {batches : List CommandBatch} {batch : CommandBatch}

@[simp] theorem indexOf_append : indexOf (batches ++ [batch]) =
    (indexOf batches).insert batch.commandId ⟨batch.canonicalRequest, batch.result⟩ := by
  simp [indexOf]

@[simp] theorem nextSequenceAfter_append :
    nextSequenceAfter (batches ++ [batch]) = followingSequence batch.sequence := by
  simp [nextSequenceAfter]

/-- The exhausted sequence is where the counter of replay wraps. -/
theorem followingSequence_eq (sequence : UInt64) : followingSequence sequence = sequence + 1 := by
  unfold followingSequence
  split_ifs with h
  · rw [h]
    rfl
  · rfl

theorem mem_indexOf_iff {id : CommandId} :
    id ∈ indexOf batches ↔ id ∈ batches.map CommandBatch.commandId := by
  induction batches using List.reverseRecOn with
  | nil => simp [indexOf]
  | append_singleton batches batch ih =>
    rw [indexOf_append, ExtTreeMap.mem_insert, ih, List.map_append, List.mem_append]
    simp only [List.map_cons, List.map_nil, List.mem_singleton, LawfulEqCmp.compare_eq_iff_eq]
    tauto

end Lists

section Committed

variable {limits : LimitHierarchy} {batches : List CommandBatch} {state : State}

theorem Committed.reachable (h : Committed limits batches state) : state.Reachable limits := by
  induction h with
  | nil => exact .refl
  | commit _ hc ih =>
    obtain ⟨_, happly, _⟩ := evaluateCommand_ok hc.evaluated
    exact ih.tail (applyEvent_step happly)

/-- Replay repeats the commits. -/
theorem Committed.replays (h : Committed limits batches state) :
    replayBatches batches (State.initial limits) 1 = .ok (state, nextSequenceAfter batches) := by
  induction h with
  | nil => rfl
  | @commit batches state envelope evaluation batch hcommitted hc ih =>
    obtain ⟨_, happly, _⟩ := evaluateCommand_ok hc.evaluated
    -- The stored result is the one of the evaluation, which matches its event.
    have hmatch := evaluateCommand_matches hcommitted.reachable.coherent hc.evaluated
    rw [← hc.result] at hmatch
    have hbatch := replayBatch_ok hc.events happly hmatch
    rw [replayBatches_append, ih, Outcome.ok_bind, ← hc.sequence]
    simp only [replayBatches, hbatch, Outcome.ok_bind, nextSequenceAfter_append,
      followingSequence_eq]

/-- The totals of a committed state are those of its ledger. -/
theorem Committed.totals (h : Committed limits batches state) :
    recomputeLedgerTotals state.ledgerEntries = .ok state.ledgerTotals := by
  have hzero := recomputeLedgerTotals_eq_zero state.ledgerEntries
  rw [hzero, h.reachable.coherent.totals]

theorem Committed.replay (h : Committed limits batches state) :
    replay limits batches = .ok state := by
  unfold Backbook.replay
  rw [h.replays, Outcome.ok_bind]
  simp only [h.totals]
  exact if_neg (not_not.mpr rfl)

theorem eventTag_toNat (event : Event) : (eventTag event).toNat = event.index + 1 := by
  cases event <;> rfl

theorem Commits.unseen {envelope : CommandEnvelope} {evaluation : CommandEvaluation}
    {batch : CommandBatch} (hc : Commits batches state envelope evaluation batch) :
    batch.commandId ∉ indexOf batches := by
  rw [ExtTreeMap.mem_iff_isSome_getElem?, hc.commandId, hc.fresh]
  exact Bool.false_ne_true

/-- Recovery accepts the stored request of a committed batch. -/
theorem Commits.validates {envelope : CommandEnvelope} {evaluation : CommandEvaluation}
    {batch : CommandBatch} (hc : Commits batches state envelope evaluation batch) :
    validateBatchRequest batch = .ok () := by
  -- The tag of the request and the index of the event come from one command.
  have hvalid := validate_canonicalCommandBytes hc.request
  obtain ⟨hevent, _⟩ := evaluateCommand_ok hc.evaluated
  unfold validateBatchRequest
  rw [hc.commandId, hvalid, Outcome.ok_bind, hc.events]
  simp only
  rw [commandTag_eq, ← hevent, eventTag_toNat]
  exact if_neg (not_not.mpr rfl)

theorem Committed.validates (h : Committed limits batches state) :
    batches.forM validateBatchRequest = .ok () := by
  induction h with
  | nil => rfl
  | commit _ hc ih =>
    rw [List.forM_eq_forM] at ih ⊢
    rw [List.forM_append, ih]
    simp [hc.validates]

theorem Committed.rebuilds (h : Committed limits batches state) :
    batches.foldlM emplaceRecord ∅ = .ok (indexOf batches) := by
  induction h with
  | nil => rfl
  | @commit batches state envelope evaluation batch _ hc ih =>
    rw [List.foldlM_append, ih, indexOf_append]
    simp [emplaceRecord, hc.unseen]

/-- No command is committed twice. -/
theorem Committed.ids_nodup (h : Committed limits batches state) :
    (batches.map CommandBatch.commandId).Nodup := by
  induction h with
  | nil => exact List.nodup_nil
  | @commit batches state envelope evaluation batch _ hc ih =>
    have hfresh : batch.commandId ∉ batches.map CommandBatch.commandId := by
      rw [← mem_indexOf_iff]
      exact hc.unseen
    rw [List.map_append, List.nodup_append]
    refine ⟨ih, by simp, ?_⟩
    intro a ha b hb
    obtain rfl : b = batch.commandId := by simpa using hb
    rintro rfl
    exact hfresh ha

/-- The index finds a command just where the journal holds it. -/
theorem Committed.getElem?_indexOf_iff (h : Committed limits batches state) {id : CommandId}
    {record : IdempotencyRecord} : (indexOf batches)[id]? = some record ↔
      ∃ batch ∈ batches, batch.commandId = id ∧
        record = ⟨batch.canonicalRequest, batch.result⟩ := by
  induction h with
  | nil => simp [indexOf]
  | @commit batches state envelope evaluation last hcommitted hc ih =>
    have hunseen : last.commandId ∉ batches.map CommandBatch.commandId := by
      rw [← mem_indexOf_iff]
      exact hc.unseen
    rw [indexOf_append, OrderedMap.getElem?_insert_eq]
    simp only [List.mem_append, List.mem_singleton, or_and_right, exists_or, exists_eq_left, ← ih]
    split_ifs with hid
    · -- No earlier batch carries the identifier of the last one.
      subst hid
      have hnone : (indexOf batches)[last.commandId]? ≠ some record := by
        intro hsome
        obtain ⟨batch, hmem, hbatch, _⟩ := ih.mp hsome
        apply hunseen
        rw [← hbatch]
        exact List.mem_map_of_mem hmem
      simp only [hnone, false_or, true_and, Option.some.injEq]
      exact eq_comm
    · have hother : ¬last.commandId = id := fun hlast => hid hlast.symm
      simp only [hother, false_and, or_false]

/-- Creation over a committed journal rebuilds what the commits had left. -/
theorem Committed.create {S : Type} [JournalStore S] (h : Committed limits batches state)
    {store store' : S} {offset : ℕ} {torn : Bool}
    (hrecover : recoverJournal store = (.ok ⟨batches, offset, torn⟩, store')) :
    CommandService.create (some store) limits =
      .ok ⟨store', state, indexOf batches, nextSequenceAfter batches, torn⟩ := by
  unfold CommandService.create
  simp only [hrecover, h.validates, h.replay, h.rebuilds, Except.mapError, Outcome.ok_bind]

end Committed

section Created

variable {limits : LimitHierarchy} {state next : State} {sequence last : UInt64}

theorem replayBatch_step {batch : CommandBatch}
    (h : replayBatch state sequence batch = .ok next) : state.Step next := by
  unfold replayBatch at h
  split_ifs at h
  split at h
  · split at h
    · cases h
    · rename_i happly
      split_ifs at h
      obtain rfl := Except.ok.inj h
      exact applyEvent_step happly
  · cases h

/-- Whatever a journal holds, replay gets to its state by operations. -/
theorem replayBatches_reaches {batches : List CommandBatch}
    (h : replayBatches batches state sequence = .ok (next, last)) :
    Relation.ReflTransGen State.Step state next := by
  induction batches generalizing state sequence with
  | nil =>
    obtain ⟨rfl, _⟩ := Prod.mk.inj (Except.ok.inj h)
    exact .refl
  | cons batch batches ih =>
    obtain ⟨middle, hbatch, hrest⟩ := Outcome.bind_ok_iff.mp h
    exact .head (replayBatch_step hbatch) (ih hrest)

theorem replay_reachable {batches : List CommandBatch} (h : replay limits batches = .ok state) :
    state.Reachable limits := by
  obtain ⟨⟨reached, _⟩, hreached, h⟩ := Outcome.bind_ok_iff.mp h
  dsimp only at h
  split at h
  · cases h
  · split_ifs at h
    obtain rfl := Except.ok.inj h
    exact replayBatches_reaches hreached

/-- A service that was created starts from a reachable state. -/
theorem CommandService.create_reachable {S : Type} [JournalStore S] {store : Option S}
    {service : CommandService S} (h : CommandService.create store limits = .ok service) :
    service.snapshot.Reachable limits := by
  unfold CommandService.create at h
  split at h
  · cases h
  · split at h
    · cases h
    · simp only [Outcome.bind_ok_iff, Outcome.mapError_ok_iff] at h
      obtain ⟨_, _, state, hreplay, _, _, h⟩ := h
      obtain rfl := Except.ok.inj h
      exact replay_reachable hreplay

end Created

/-- Over an empty journal the service starts with the first state and sequence 1. -/
theorem CommandService.create_empty {S : Type} [JournalStore S] {limits : LimitHierarchy}
    {store after : S} (hempty : JournalStore.readAll store = (.ok [], after)) :
    CommandService.create (some store) limits =
      .ok ⟨after, State.initial limits, ∅, 1, false⟩ := by
  have hscan : scanJournal [] = .ok ⟨[], 0, false⟩ := journalFormat_lawful.scan_frames .nil
  have hrecover : recoverJournal store = (.ok ⟨[], 0, false⟩, after) := by
    unfold recoverJournal
    rw [hempty]
    simp [hscan]
  exact Committed.nil.create hrecover

end Backbook
