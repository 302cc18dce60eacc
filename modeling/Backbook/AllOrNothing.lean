import Backbook.ServiceBounds

namespace Backbook

open Std Relation

/-- What the service relies on in a store. -/
class ClosingStore (S : Type) extends JournalStore S where
  bytes : S → Bytes
  appended : ∀ {frame : Bytes} {store after : S},
    JournalStore.appendAndFlush frame store = (.ok (), after) → bytes after = bytes store ++ frame
  closed : ∀ {frame : Bytes} {store after : S} {failure : JournalStoreError},
    JournalStore.appendAndFlush frame store = (.error failure, after) →
      JournalStore.writable after = false

instance : ClosingStore MemoryJournalStore where
  bytes := MemoryJournalStore.bytes
  appended {frame store after} h := by
    change MemoryJournalStore.appendAndFlush frame store = _ at h
    unfold MemoryJournalStore.appendAndFlush at h
    split_ifs at h <;> obtain ⟨hok, hafter⟩ := Prod.mk.inj h
    · cases hok
    · cases hok
    · rw [← hafter]
  closed {frame store after failure} h := by
    change MemoryJournalStore.appendAndFlush frame store = _ at h
    change after.writable = false
    unfold MemoryJournalStore.appendAndFlush at h
    split_ifs at h with hw hfail <;> obtain ⟨hok, hafter⟩ := Prod.mk.inj h
    · rw [← hafter]
      simpa using hw
    · rw [← hafter]
    · cases hok

instance : ClosingStore FileJournalStore where
  bytes := FileJournalStore.bytes
  appended {frame store after} h := by
    change FileJournalStore.appendAndFlush frame store = _ at h
    unfold FileJournalStore.appendAndFlush at h
    split_ifs at h
    · obtain ⟨hok, _⟩ := Prod.mk.inj h
      cases hok
    · split at h <;> obtain ⟨hok, hafter⟩ := Prod.mk.inj h
      · cases hok
      · rw [← hafter]
  closed {frame store after failure} h := by
    change FileJournalStore.appendAndFlush frame store = _ at h
    change after.writable = false
    unfold FileJournalStore.appendAndFlush at h
    split_ifs at h with hw
    · obtain ⟨_, hafter⟩ := Prod.mk.inj h
      rw [← hafter]
      simpa using hw
    · split at h <;> obtain ⟨hok, hafter⟩ := Prod.mk.inj h
      · rw [← hafter]
      · cases hok

section Outcomes

variable {S : Type} [ClosingStore S] {service later next : CommandService S}
  {envelope other : CommandEnvelope} {result : CommandResult} {failure : CommandServiceError}

structure CommandService.Committed (service next : CommandService S) (envelope : CommandEnvelope)
    (result : CommandResult) (canonical frame : Bytes) (evaluation : CommandEvaluation)
    (batch : CommandBatch) : Prop where
  canonical_eq : canonicalCommandBytes envelope = .ok canonical
  fresh : service.idempotency[envelope.commandId]? = none
  evaluated : evaluateCommand service.snapshot envelope.command = .ok evaluation
  answered : evaluation.result = result
  batch_eq : batch.sequence = service.nextSequence ∧ batch.commandId = envelope.commandId ∧
    batch.canonicalRequest = canonical ∧ batch.events = [evaluation.event] ∧ batch.result = result
  encoded : encodeFrame batch = .ok frame
  bytes : ClosingStore.bytes next.store = ClosingStore.bytes service.store ++ frame
  snapshot : next.snapshot = evaluation.prospectiveState
  index : next.idempotency = service.idempotency.insert envelope.commandId ⟨canonical, result⟩
  sequence : next.nextSequence = service.nextSequence + 1

theorem CommandService.execute_committed (h : (service.execute envelope).1 = .ok ⟨result, false⟩) :
    ∃ canonical frame evaluation batch, service.Committed (service.execute envelope).2 envelope
      result canonical frame evaluation batch := by
  rcases service.execute_cases envelope with ⟨_, hne, _⟩ |
    ⟨canonical, frame, evaluation, batch, hp, ⟨_, _, _, hexec⟩ | ⟨store, happend, hexec⟩⟩
  · exact absurd h (hne result)
  · rw [hexec] at h
    cases h
  · rw [hexec] at h ⊢
    have hresult : evaluation.result = result := by
      simp only [Except.ok.injEq, CommandReceipt.mk.injEq, and_true] at h
      exact h
    obtain ⟨hsequence, hid, hrequest, hevents, hbatch⟩ := CommandBatch.create_ok_iff.mp hp.batched
    rw [hresult] at hbatch
    refine ⟨canonical, frame, evaluation, batch, hp.canonical_eq, hp.fresh, hp.evaluated, hresult,
      ⟨hsequence, hid, hrequest, hevents, hbatch⟩, hp.encoded, ClosingStore.appended happend, rfl,
      ?_, followingSequence_eq _⟩
    rw [hresult]

/-- Whatever else is answered, nothing is published, and only a failed append has
touched the store. -/
theorem CommandService.execute_unpublished
    (h : ∀ result, (service.execute envelope).1 ≠ .ok ⟨result, false⟩) :
    ((service.execute envelope).2.snapshot = service.snapshot ∧
      (service.execute envelope).2.idempotency = service.idempotency ∧
      (service.execute envelope).2.nextSequence = service.nextSequence) ∧
    ((∀ cause, (service.execute envelope).1 ≠ .error (.journalUnavailable (some cause))) →
      (service.execute envelope).2 = service) := by
  rcases service.execute_cases envelope with ⟨hsame, _⟩ |
    ⟨canonical, frame, evaluation, batch, hp, ⟨cause, store, _, hexec⟩ | ⟨store, _, hexec⟩⟩
  · rw [hsame]
    exact ⟨⟨rfl, rfl, rfl⟩, fun _ => rfl⟩
  · rw [hexec]
    exact ⟨⟨rfl, rfl, rfl⟩, fun hne => absurd rfl (hne cause)⟩
  · exact absurd (congrArg Prod.fst hexec) (h evaluation.result)

/-- Only a conflict is reported under an identifier that is in use. -/
theorem CommandService.execute_rejected (h : (service.execute envelope).1 = .error failure)
    (hne : failure ≠ .idempotencyConflict) :
    (service.execute envelope).2.idempotency[envelope.commandId]? = none := by
  have hpublished : ∀ result, (service.execute envelope).1 ≠ .ok ⟨result, false⟩ := by
    rw [h]
    exact fun _ => nofun
  rw [(CommandService.execute_unpublished hpublished).1.2.1]
  cases hi : service.idempotency[envelope.commandId]? with
  | none => rfl
  | some existing =>
    -- Under a bound identifier the answer is a replay or a conflict.
    simp only [CommandService.execute, canonicalCommandBytes_eq, hi] at h
    split_ifs at h
    exact absurd (Except.error.inj h).symm hne

inductive CommandService.Continues : CommandService S → CommandService S → Prop
  | execute (service : CommandService S) (envelope : CommandEnvelope) :
      Continues service (service.execute envelope).2
  | store (service : CommandService S) {store : S}
      (hb : ClosingStore.bytes store = ClosingStore.bytes service.store)
      (hw : JournalStore.writable store = JournalStore.writable service.store) :
      Continues service { service with store := store }

def CommandService.Accepted (service : CommandService S) (envelope : CommandEnvelope) : Prop :=
  ∃ record, service.idempotency[envelope.commandId]? = some record ∧
    canonicalCommandBytes envelope = .ok record.canonicalRequest

/-- Over a closed store an execution changes nothing and accepts nothing new. -/
theorem CommandService.execute_closed (hclosed : JournalStore.writable service.store = false) :
    (service.execute envelope).2 = service ∧
      (¬service.Accepted envelope → ∃ failure, (service.execute envelope).1 = .error failure) := by
  -- Nothing new is prepared over a closed store.
  have hprepare (canonical : Bytes) :
      service.prepare envelope canonical = .error (.journalUnavailable none) := by
    simp [CommandService.prepare, hclosed]
  cases hi : service.idempotency[envelope.commandId]? with
  | none =>
    simp only [CommandService.execute, canonicalCommandBytes_eq, hi, hprepare]
    exact ⟨trivial, fun _ => ⟨_, rfl⟩⟩
  | some existing =>
    simp only [CommandService.execute, canonicalCommandBytes_eq, hi]
    split_ifs with heq
    · refine ⟨rfl, fun hnot => absurd ⟨existing, hi, ?_⟩ hnot⟩
      rw [heq]
      exact canonicalCommandBytes_eq envelope
    · exact ⟨rfl, fun _ => ⟨_, rfl⟩⟩

structure CommandService.Frozen (service later : CommandService S) : Prop where
  closed : JournalStore.writable later.store = false
  bytes : ClosingStore.bytes later.store = ClosingStore.bytes service.store
  snapshot : later.snapshot = service.snapshot
  index : later.idempotency = service.idempotency
  sequence : later.nextSequence = service.nextSequence

theorem CommandService.Frozen.step (h : service.Frozen later) (hstep : later.Continues next) :
    service.Frozen next := by
  cases hstep with
  | execute envelope =>
    rw [(CommandService.execute_closed h.closed).1]
    exact h
  | store hb hw => exact ⟨hw.trans h.closed, hb.trans h.bytes, h.snapshot, h.index, h.sequence⟩

/-- After a failed append the run goes on over a closed store. -/
theorem CommandService.execute_quarantines {cause : JournalStoreError}
    (h : (service.execute envelope).1 = .error (.journalUnavailable (some cause)))
    (hrun : ReflTransGen CommandService.Continues (service.execute envelope).2 later) :
    (service.execute envelope).2.Frozen later := by
  -- The failed append itself closes the store, and then every step keeps it frozen.
  refine RunHistory.invariant_of_steps ?_ (fun _ _ hs hstep => hs.step hstep) hrun
  rcases service.execute_cases envelope with ⟨_, _, hne⟩ |
    ⟨_, _, _, _, _, ⟨_, store, happend, hexec⟩ | ⟨_, _, hexec⟩⟩
  · exact absurd h (hne cause)
  · rw [hexec]
    exact ⟨ClosingStore.closed happend, rfl, rfl, rfl, rfl⟩
  · rw [hexec] at h
    cases h

end Outcomes

def sampleLimits : LimitHierarchy := (LimitHierarchy.create sampleDefinitions).toOption.getD ⟨∅⟩

theorem sampleLimits_created : LimitHierarchy.create sampleDefinitions = .ok sampleLimits := by
  have hcreated : (LimitHierarchy.create sampleDefinitions).isOk = true := by decide +kernel
  obtain ⟨limits, hl⟩ := ok_of_isOk hcreated
  rw [sampleLimits, hl]
  rfl

def sampleConfirmation : CommandEnvelope :=
  ⟨sampleId .command, .confirmTrade ⟨sampleId .trade, 1, samplePostingIds⟩⟩

def sampleBooking (commandId : CommandId) : CommandEnvelope :=
  ⟨commandId, .bookTrade ⟨sampleId .trade, sampleId .book, sampleId .counterparty,
    sampleId .nettingSet, sampleTerms⟩⟩

/-- One command has all its effects or none, and a failed append ends the effects
of the commands behind it. -/
theorem execute_all_or_nothing :
    (∀ (S : Type) [ClosingStore S] (service : CommandService S) (envelope : CommandEnvelope),
      (∀ result, (service.execute envelope).1 = .ok ⟨result, false⟩ →
        ∃ canonical frame evaluation batch, service.Committed (service.execute envelope).2
          envelope result canonical frame evaluation batch) ∧
      ((∀ result, (service.execute envelope).1 ≠ .ok ⟨result, false⟩) →
        ((service.execute envelope).2.snapshot = service.snapshot ∧
          (service.execute envelope).2.idempotency = service.idempotency ∧
          (service.execute envelope).2.nextSequence = service.nextSequence) ∧
        ((∀ cause, (service.execute envelope).1 ≠ .error (.journalUnavailable (some cause))) →
          (service.execute envelope).2 = service)) ∧
      (∀ failure, (service.execute envelope).1 = .error failure →
        failure ≠ .idempotencyConflict →
          (service.execute envelope).2.idempotency[envelope.commandId]? = none) ∧
      ∀ cause, (service.execute envelope).1 = .error (.journalUnavailable (some cause)) →
        ∀ later, ReflTransGen CommandService.Continues (service.execute envelope).2 later →
          (service.execute envelope).2.Frozen later ∧
          ∀ other, (later.execute other).2 = later ∧
            (¬(service.execute envelope).2.Accepted other →
              ∃ failure, (later.execute other).1 = .error failure)) ∧
    ∃ (limits : LimitHierarchy) (first : CommandService MemoryJournalStore)
      (rejected other between : CommandEnvelope),
      CommandService.create (some (MemoryJournalStore.ofBytes [])) limits = .ok first ∧
      other.commandId = rejected.commandId ∧ other ≠ rejected ∧
      (∃ failure, (first.execute rejected).1 = .error (.domainRejected failure)) ∧
      (∃ result, ((first.execute rejected).2.execute other).1 = .ok ⟨result, false⟩) ∧
      ∃ result, (((first.execute rejected).2.execute between).2.execute rejected).1 =
        .ok ⟨result, false⟩ := by
  constructor
  · intro S _ service envelope
    refine ⟨fun _ h => CommandService.execute_committed h, CommandService.execute_unpublished,
      fun _ h hne => CommandService.execute_rejected h hne, ?_⟩
    intro cause h later hrun
    -- After a failed append nothing moves until a restart.
    have hfrozen := CommandService.execute_quarantines h hrun
    refine ⟨hfrozen, fun other => ?_⟩
    have hexecute : (later.execute other).2 = later ∧ _ :=
      CommandService.execute_closed hfrozen.closed
    obtain ⟨hsame, hfails⟩ := hexecute
    refine ⟨hsame, fun hnot => hfails ?_⟩
    rintro ⟨record, hrecord, hcanonical⟩
    rw [hfrozen.index] at hrecord
    exact hnot ⟨record, hrecord, hcanonical⟩
  · -- A rejected command, then its identifier under other content, or itself again.
    let first : CommandService MemoryJournalStore :=
      ⟨MemoryJournalStore.ofBytes [], State.initial sampleLimits, ∅, 1, false⟩
    have hcreate : CommandService.create (some (MemoryJournalStore.ofBytes [])) sampleLimits =
        .ok first := CommandService.create_empty rfl
    have hrejected : (first.execute sampleConfirmation).1 =
        .error (.domainRejected .tradeNotFound) := by decide +kernel
    have hother : (((first.execute sampleConfirmation).2.execute
        (sampleBooking (sampleId .command))).1.map CommandReceipt.idempotentReplay) =
          .ok false := by decide +kernel
    have hagain : ((((first.execute sampleConfirmation).2.execute
        (sampleBooking ⟨asciiBytes "B", by decide⟩)).2.execute sampleConfirmation).1.map
          CommandReceipt.idempotentReplay) = .ok false := by decide +kernel
    have hfirst {outcome : Except CommandServiceError CommandReceipt}
        (h : outcome.map CommandReceipt.idempotentReplay = .ok false) :
        ∃ result, outcome = .ok ⟨result, false⟩ := by
      obtain ⟨⟨result, replay⟩, hreceipt, hreplay⟩ := Outcome.map_ok_iff.mp h
      simp only at hreplay
      exact ⟨result, by rw [hreceipt, hreplay]⟩
    exact ⟨sampleLimits, first, sampleConfirmation, sampleBooking (sampleId .command),
      sampleBooking ⟨asciiBytes "B", by decide⟩, hcreate, rfl, by decide, ⟨_, hrejected⟩,
      hfirst hother, hfirst hagain⟩

end Backbook
