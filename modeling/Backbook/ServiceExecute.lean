import Backbook.ServiceEvaluator
import Backbook.StorageJournal

/-! The command service: recovery when it is created, and the execution of one
command under its lock. A command is committed by the append of its frame and
published only after it. -/
namespace Backbook

open Std

inductive CommandServiceError
  | missingStore
  | recoveryFailure (recoveryError : JournalRecoveryError)
  | replayFailure (replayError : ReplayError)
  | duplicateJournalCommandId
  | sequenceExhausted
  | commandEncodingFailure (commandEncodingError : CommandEncodingError)
  | invalidCanonicalRequest (canonicalRequestError : CanonicalCommandRequestError)
  | idempotencyConflict
  | domainRejected (stateError : StateError)
  | journalEncodingFailure (codecError : CodecError)
  | journalUnavailable (storeError : Option JournalStoreError)
  | invariantViolation
deriving DecidableEq

structure CommandReceipt where
  result : CommandResult
  idempotentReplay : Bool
deriving DecidableEq

structure IdempotencyRecord where
  canonicalRequest : Bytes
  result : CommandResult
deriving DecidableEq

abbrev IdempotencyIndex := ExtTreeMap CommandId IdempotencyRecord

/-- The service over a store. Its atomic snapshot and its lock leave one state
between any two commands. -/
@[ext] structure CommandService (S : Type) where
  store : S
  snapshot : State
  idempotency : IdempotencyIndex
  nextSequence : UInt64
  recoveredTornTail : Bool

def validateBatchRequest (batch : CommandBatch) : Except CanonicalCommandRequestError Unit := do
  let validated ← validateCanonicalCommandRequest batch.canonicalRequest batch.commandId
  match batch.events with
  | [event] =>
    if validated.toNat ≠ event.index + 1 then .error .commandEventMismatch else .ok ()
  | _ => .ok ()

/-- The `emplace` of the source: a second batch under one identifier is an error. -/
def emplaceRecord (index : IdempotencyIndex) (batch : CommandBatch) :
    Except CommandServiceError IdempotencyIndex :=
  if batch.commandId ∈ index then .error .duplicateJournalCommandId
  else .ok (index.insert batch.commandId ⟨batch.canonicalRequest, batch.result⟩)

/-- Zero stands for an exhausted sequence. -/
def followingSequence (sequence : UInt64) : UInt64 :=
  if sequence = 18446744073709551615 then 0 else sequence + 1

def nextSequenceAfter (batches : List CommandBatch) : UInt64 :=
  match batches.getLast? with
  | none => 1
  | some last => followingSequence last.sequence

def CommandService.create {S : Type} [JournalStore S] (store : Option S)
    (initialLimits : LimitHierarchy) : Except CommandServiceError (CommandService S) :=
  match store with
  | none => .error .missingStore
  | some store =>
    match recoverJournal store with
    | (.error failure, _) => .error (.recoveryFailure failure)
    | (.ok recovered, store) => do
      (recovered.batches.forM validateBatchRequest).mapError .invalidCanonicalRequest
      let state ← (replay initialLimits recovered.batches).mapError .replayFailure
      let idempotency ← recovered.batches.foldlM emplaceRecord ∅
      .ok ⟨store, state, idempotency, nextSequenceAfter recovered.batches,
        recovered.truncatedTail⟩

def evaluationFailure : CommandEvaluationError → CommandServiceError
  | .domainRejected stateError => .domainRejected stateError
  | .invariantViolation => .invariantViolation

variable {S : Type} [JournalStore S]

/-- Everything before the append: it fails without touching the service. -/
def CommandService.prepare (service : CommandService S) (envelope : CommandEnvelope)
    (canonical : Bytes) : Except CommandServiceError (CommandEvaluation × CommandBatch × Bytes) :=
  if !JournalStore.writable service.store then .error (.journalUnavailable none)
  else if service.nextSequence = 0 then .error .sequenceExhausted
  else do
    let evaluation ←
      (evaluateCommand service.snapshot envelope.command).mapError evaluationFailure
    let batch ← (CommandBatch.create service.nextSequence envelope.commandId canonical
      [evaluation.event] evaluation.result).mapError fun _ => .invariantViolation
    let frame ← (encodeFrame batch).mapError .journalEncodingFailure
    .ok (evaluation, batch, frame)

def CommandService.execute (service : CommandService S) (envelope : CommandEnvelope) :
    Except CommandServiceError CommandReceipt × CommandService S :=
  match canonicalCommandBytes envelope with
  | .error failure => (.error (.commandEncodingFailure failure), service)
  | .ok canonical =>
    match service.idempotency[envelope.commandId]? with
    | some existing =>
      if existing.canonicalRequest = canonical then (.ok ⟨existing.result, true⟩, service)
      else (.error .idempotencyConflict, service)
    | none =>
      -- Only an unseen identifier gets this far.
      match service.prepare envelope canonical with
      | .error failure => (.error failure, service)
      | .ok (evaluation, _, frame) =>
        match JournalStore.appendAndFlush frame service.store with
        | (.error failure, store) =>
          (.error (.journalUnavailable (some failure)), { service with store := store })
        | (.ok (), store) =>
          -- The append is the commit; snapshot, index and sequence follow it together.
          (.ok ⟨evaluation.result, false⟩, { service with
            store := store
            snapshot := evaluation.prospectiveState
            idempotency := service.idempotency.insert envelope.commandId
              ⟨canonical, evaluation.result⟩
            nextSequence := followingSequence service.nextSequence })

structure CommandService.Prepared (service : CommandService S) (envelope : CommandEnvelope)
    (canonical : Bytes) (evaluation : CommandEvaluation) (batch : CommandBatch) (frame : Bytes) :
    Prop where
  canonical_eq : canonicalCommandBytes envelope = .ok canonical
  fresh : service.idempotency[envelope.commandId]? = none
  writable : JournalStore.writable service.store = true
  sequence_ne : service.nextSequence ≠ 0
  evaluated : evaluateCommand service.snapshot envelope.command = .ok evaluation
  batched : CommandBatch.create service.nextSequence envelope.commandId canonical
    [evaluation.event] evaluation.result = .ok batch
  encoded : encodeFrame batch = .ok frame

theorem CommandService.prepare_ok_iff {service : CommandService S} {envelope : CommandEnvelope}
    {canonical frame : Bytes} {evaluation : CommandEvaluation} {batch : CommandBatch} :
    service.prepare envelope canonical = .ok (evaluation, batch, frame) ↔
      JournalStore.writable service.store = true ∧ service.nextSequence ≠ 0 ∧
      evaluateCommand service.snapshot envelope.command = .ok evaluation ∧
      CommandBatch.create service.nextSequence envelope.commandId canonical
        [evaluation.event] evaluation.result = .ok batch ∧
      encodeFrame batch = .ok frame := by
  unfold CommandService.prepare
  split_ifs with hw hz
  · simp only [Bool.not_eq_true', false_iff] at hw ⊢
    rintro ⟨hw', _⟩
    rw [hw] at hw'
    contradiction
  · refine ⟨nofun, ?_⟩
    rintro ⟨_, hz', _⟩
    exact absurd hz hz'
  · have hw' : JournalStore.writable service.store = true := by simpa using hw
    simp only [Outcome.bind_ok_iff, Outcome.mapError_ok_iff, Except.ok.injEq, Prod.mk.injEq]
    constructor
    · rintro ⟨e, he, b, hb, f, hf, rfl, rfl, rfl⟩
      exact ⟨hw', hz, he, hb, hf⟩
    · rintro ⟨_, _, he, hb, hf⟩
      exact ⟨evaluation, he, batch, hb, frame, hf, rfl, rfl, rfl⟩

/-- Only the store reports a failed append. -/
theorem CommandService.prepare_ne_unavailable {service : CommandService S}
    {envelope : CommandEnvelope} {canonical : Bytes} {failure : JournalStoreError} :
    service.prepare envelope canonical ≠ .error (.journalUnavailable (some failure)) := by
  unfold CommandService.prepare
  split_ifs
  · simp
  · simp
  · intro h
    simp only [Outcome.bind_error_iff, Outcome.mapError_error_iff, reduceCtorEq, and_false,
      exists_false, or_false] at h
    obtain ⟨rejected, _, hrejected⟩ := h
    cases rejected <;> cases hrejected

/-- An execution leaves the service as it is, or it appends one prepared frame. -/
theorem CommandService.execute_cases (service : CommandService S) (envelope : CommandEnvelope) :
    ((service.execute envelope).2 = service ∧
        (∀ result, (service.execute envelope).1 ≠ .ok ⟨result, false⟩) ∧
        ∀ failure, (service.execute envelope).1 ≠ .error (.journalUnavailable (some failure))) ∨
      ∃ (canonical frame : Bytes) (evaluation : CommandEvaluation) (batch : CommandBatch),
        service.Prepared envelope canonical evaluation batch frame ∧
        ((∃ failure store, JournalStore.appendAndFlush frame service.store =
              (.error failure, store) ∧
            service.execute envelope =
              (.error (.journalUnavailable (some failure)), { service with store := store })) ∨
          ∃ store, JournalStore.appendAndFlush frame service.store = (.ok (), store) ∧
            service.execute envelope = (.ok ⟨evaluation.result, false⟩, { service with
              store := store
              snapshot := evaluation.prospectiveState
              idempotency := service.idempotency.insert envelope.commandId
                ⟨canonical, evaluation.result⟩
              nextSequence := followingSequence service.nextSequence })) := by
  rcases hc : canonicalCommandBytes envelope with failure | canonical
  · left
    simp [CommandService.execute, hc]
  · rcases hi : service.idempotency[envelope.commandId]? with _ | existing
    · rcases hp : service.prepare envelope canonical with failure | ⟨evaluation, batch, frame⟩
      · left
        have hne : ∀ cause, failure ≠ .journalUnavailable (some cause) := by
          intro cause hcause
          rw [hcause] at hp
          exact CommandService.prepare_ne_unavailable hp
        simp [CommandService.execute, hc, hi, hp, hne]
      · right
        obtain ⟨hw, hz, he, hb, hf⟩ := CommandService.prepare_ok_iff.mp hp
        refine ⟨canonical, frame, evaluation, batch, ⟨hc, hi, hw, hz, he, hb, hf⟩, ?_⟩
        rcases ha : JournalStore.appendAndFlush frame service.store with ⟨failure | _, store⟩
        · exact Or.inl ⟨failure, store, rfl, by simp [CommandService.execute, hc, hi, hp, ha]⟩
        · exact Or.inr ⟨store, rfl, by simp [CommandService.execute, hc, hi, hp, ha]⟩
    · left
      by_cases heq : existing.canonicalRequest = canonical
      · simp [CommandService.execute, hc, hi, heq]
      · simp [CommandService.execute, hc, hi, heq]

end Backbook
