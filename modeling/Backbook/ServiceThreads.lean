import Backbook.AcceptedJournals
import Backbook.VisibleTraces

/-! The service between its threads. A writer holds the lock while it decides,
appends and publishes in three stores; readers load the snapshot without it, and
the process may die at any point. Whatever is seen of this is seen of a service
that executes each command in one step. -/
namespace Backbook

open Std FramedLog Relation VisibleTrace

variable {T : Type}

inductive Occurrence (T : Type)
  | called (thread : T) (envelope : CommandEnvelope)
  | returned (thread : T) (envelope : CommandEnvelope)
      (answer : Except CommandServiceError CommandReceipt)
  | loaded (thread : T) (snapshot : State)
  | crashed

/-- How far a thread has come in `execute`. It holds the lock from `locked` to
`answered`. -/
inductive Phase
  | idle
  | waiting (envelope : CommandEnvelope)
  | locked (envelope : CommandEnvelope)
  | prepared (envelope : CommandEnvelope) (canonical : Bytes) (evaluation : CommandEvaluation)
      (frame : Bytes)
  | appended (envelope : CommandEnvelope) (canonical : Bytes) (evaluation : CommandEvaluation)
  | indexed (envelope : CommandEnvelope) (evaluation : CommandEvaluation)
  | counted (envelope : CommandEnvelope) (evaluation : CommandEvaluation)
  | answered (envelope : CommandEnvelope) (answer : Except CommandServiceError CommandReceipt)
  | leaving (envelope : CommandEnvelope) (answer : Except CommandServiceError CommandReceipt)

/-- The part of `execute` before the append. It reads what only the holder of the
lock writes. -/
def Phase.decide (service : FileService) (envelope : CommandEnvelope) : Phase :=
  match canonicalCommandBytes envelope with
  | .error failure => .answered envelope (.error (.commandEncodingFailure failure))
  | .ok canonical =>
    match service.idempotency[envelope.commandId]? with
    | some existing =>
      .answered envelope (if existing.canonicalRequest = canonical then
        .ok ⟨existing.result, true⟩ else .error .idempotencyConflict)
    | none =>
      match service.prepare envelope canonical with
      | .error failure => .answered envelope (.error failure)
      | .ok (evaluation, _, frame) => .prepared envelope canonical evaluation frame

def Phase.afterAppend (envelope : CommandEnvelope) (canonical : Bytes)
    (evaluation : CommandEvaluation) : Except JournalStoreError Unit → Phase
  | .error failure => .answered envelope (.error (.journalUnavailable (some failure)))
  | .ok () => .appended envelope canonical evaluation

structure Process (T : Type) where
  service : FileService
  phase : T → Phase
  lock : Option T

def Process.started (T : Type) (service : FileService) : Process T :=
  ⟨service, fun _ => .idle, none⟩

def Process.moved [DecidableEq T] (process : Process T) (thread : T) (phase : Phase) : Process T :=
  { process with phase := Function.update process.phase thread phase }

/-- What a crash leaves in the file: all that was appended, and any part of the
frame of an append that has not returned. -/
def Process.Leaves (process : Process T) (bytes : Bytes) : Prop :=
  bytes = process.service.store.bytes ∨
    ∃ thread envelope canonical evaluation frame persisted,
      process.phase thread = .prepared envelope canonical evaluation frame ∧
      bytes = process.service.store.bytes ++ frame.take persisted

inductive Process.Step [DecidableEq T] (limits : LimitHierarchy) :
    Process T → Option (Occurrence T) → Process T → Prop
  | call {process : Process T} (thread : T) (envelope : CommandEnvelope)
      (h : process.phase thread = .idle) :
      Step limits process (some (.called thread envelope))
        (process.moved thread (.waiting envelope))
  | acquire {process : Process T} {thread : T} {envelope : CommandEnvelope}
      (h : process.phase thread = .waiting envelope) (free : process.lock = none) :
      Step limits process none
        { process.moved thread (.locked envelope) with lock := some thread }
  | decide {process : Process T} {thread : T} {envelope : CommandEnvelope}
      (h : process.phase thread = .locked envelope) :
      Step limits process none
        (process.moved thread (Phase.decide process.service envelope))
  | append {process : Process T} {thread : T} {envelope : CommandEnvelope} {canonical : Bytes}
      {evaluation : CommandEvaluation} {frame : Bytes} {store : FileJournalStore}
      {outcome : Except JournalStoreError Unit} (fault : Option WriteFault)
      (h : process.phase thread = .prepared envelope canonical evaluation frame)
      (happend : (process.service.withFault fault).store.appendAndFlush frame =
        (outcome, store)) :
      Step limits process none
        { process.moved thread (Phase.afterAppend envelope canonical evaluation outcome) with
          service := { process.service with store := store } }
  | index {process : Process T} {thread : T} {envelope : CommandEnvelope} {canonical : Bytes}
      {evaluation : CommandEvaluation}
      (h : process.phase thread = .appended envelope canonical evaluation) :
      Step limits process none
        { process.moved thread (.indexed envelope evaluation) with
          service := { process.service with
            idempotency := process.service.idempotency.insert envelope.commandId
              ⟨canonical, evaluation.result⟩ } }
  | count {process : Process T} {thread : T} {envelope : CommandEnvelope}
      {evaluation : CommandEvaluation} (h : process.phase thread = .indexed envelope evaluation) :
      Step limits process none
        { process.moved thread (.counted envelope evaluation) with
          service := { process.service with
            nextSequence := followingSequence process.service.nextSequence } }
  | publish {process : Process T} {thread : T} {envelope : CommandEnvelope}
      {evaluation : CommandEvaluation} (h : process.phase thread = .counted envelope evaluation) :
      Step limits process none
        { process.moved thread (.answered envelope (.ok ⟨evaluation.result, false⟩)) with
          service := { process.service with snapshot := evaluation.prospectiveState } }
  | release {process : Process T} {thread : T} {envelope : CommandEnvelope}
      {answer : Except CommandServiceError CommandReceipt}
      (h : process.phase thread = .answered envelope answer) :
      Step limits process none
        { process.moved thread (.leaving envelope answer) with lock := none }
  | answer {process : Process T} {thread : T} {envelope : CommandEnvelope}
      {answer : Except CommandServiceError CommandReceipt}
      (h : process.phase thread = .leaving envelope answer) :
      Step limits process (some (.returned thread envelope answer)) (process.moved thread .idle)
  | load {process : Process T} (thread : T) :
      Step limits process (some (.loaded thread process.service.snapshot)) process
  | crash {process : Process T} {bytes : Bytes} {restarted : FileService}
      (h : process.Leaves bytes)
      (hcreate : CommandService.create (some (FileJournalStore.opened bytes)) limits =
        .ok restarted) :
      Step limits process (some .crashed) (Process.started T restarted)

inductive Call
  | idle
  | pending (envelope : CommandEnvelope)
  | done (envelope : CommandEnvelope) (answer : Except CommandServiceError CommandReceipt)

structure Atomic (T : Type) where
  service : FileService
  call : T → Call

def Atomic.started (T : Type) (service : FileService) : Atomic T := ⟨service, fun _ => .idle⟩

def Atomic.moved [DecidableEq T] (atomic : Atomic T) (thread : T) (call : Call) : Atomic T :=
  { atomic with call := Function.update atomic.call thread call }

inductive Atomic.Step [DecidableEq T] (limits : LimitHierarchy) :
    Atomic T → Option (Occurrence T) → Atomic T → Prop
  | call {atomic : Atomic T} (thread : T) (envelope : CommandEnvelope)
      (h : atomic.call thread = .idle) :
      Step limits atomic (some (.called thread envelope)) (atomic.moved thread (.pending envelope))
  | execute {atomic : Atomic T} {thread : T} {envelope : CommandEnvelope}
      (fault : Option WriteFault) (h : atomic.call thread = .pending envelope) :
      Step limits atomic none
        { atomic.moved thread
            (.done envelope ((atomic.service.withFault fault).execute envelope).1) with
          service := ((atomic.service.withFault fault).execute envelope).2 }
  | answer {atomic : Atomic T} {thread : T} {envelope : CommandEnvelope}
      {answer : Except CommandServiceError CommandReceipt}
      (h : atomic.call thread = .done envelope answer) :
      Step limits atomic (some (.returned thread envelope answer)) (atomic.moved thread .idle)
  | load {atomic : Atomic T} (thread : T) :
      Step limits atomic (some (.loaded thread atomic.service.snapshot)) atomic
  | crash {atomic : Atomic T} {restarted : FileService}
      (h : atomic.service.restart limits = .ok restarted) :
      Step limits atomic (some .crashed) (Atomic.started T restarted)

def Phase.outer : Phase → Call
  | .idle => .idle
  | .waiting envelope | .locked envelope | .prepared envelope _ _ _ | .appended envelope _ _
  | .indexed envelope _ | .counted envelope _ => .pending envelope
  | .answered envelope answer | .leaving envelope answer => .done envelope answer

def Phase.holds : Phase → Bool
  | .idle | .waiting _ | .leaving _ _ => false
  | _ => true

inductive Publishing : Phase → FileService → FileService → Prop
  | locked {envelope : CommandEnvelope} {service : FileService} :
      Publishing (.locked envelope) service service
  | prepared {envelope : CommandEnvelope} {canonical frame : Bytes}
      {evaluation : CommandEvaluation} {batch : CommandBatch} {service : FileService}
      (hp : service.Prepared envelope canonical evaluation batch frame) :
      Publishing (.prepared envelope canonical evaluation frame) service service
  | appended {envelope : CommandEnvelope} {canonical frame : Bytes}
      {evaluation : CommandEvaluation} {batch : CommandBatch} {service : FileService}
      {fault : Option WriteFault} {store : FileJournalStore}
      (hp : service.Prepared envelope canonical evaluation batch frame)
      (happend : (service.withFault fault).store.appendAndFlush frame = (.ok (), store)) :
      Publishing (.appended envelope canonical evaluation) { service with store := store } service
  | indexed {envelope : CommandEnvelope} {canonical frame : Bytes}
      {evaluation : CommandEvaluation} {batch : CommandBatch} {service : FileService}
      {fault : Option WriteFault} {store : FileJournalStore}
      (hp : service.Prepared envelope canonical evaluation batch frame)
      (happend : (service.withFault fault).store.appendAndFlush frame = (.ok (), store)) :
      Publishing (.indexed envelope evaluation)
        { service with
          store := store
          idempotency := service.idempotency.insert envelope.commandId
            ⟨canonical, evaluation.result⟩ }
        service
  | counted {envelope : CommandEnvelope} {canonical frame : Bytes}
      {evaluation : CommandEvaluation} {batch : CommandBatch} {service : FileService}
      {fault : Option WriteFault} {store : FileJournalStore}
      (hp : service.Prepared envelope canonical evaluation batch frame)
      (happend : (service.withFault fault).store.appendAndFlush frame = (.ok (), store)) :
      Publishing (.counted envelope evaluation)
        { service with
          store := store
          idempotency := service.idempotency.insert envelope.commandId
            ⟨canonical, evaluation.result⟩
          nextSequence := followingSequence service.nextSequence }
        service
  | answered {envelope : CommandEnvelope} {service : FileService}
      {answer : Except CommandServiceError CommandReceipt} :
      Publishing (.answered envelope answer) service service

structure Process.Follows (process : Process T) (atomic : Atomic T) : Prop where
  calls : ∀ thread, atomic.call thread = (process.phase thread).outer
  holds : ∀ thread, (process.phase thread).holds = true ↔ process.lock = some thread
  free : process.lock = none → atomic.service = process.service
  held : ∀ thread, process.lock = some thread →
    Publishing (process.phase thread) process.service atomic.service

section Executions

variable {service : FileService} {envelope : CommandEnvelope} {canonical frame : Bytes}
  {evaluation : CommandEvaluation} {batch : CommandBatch} {store : FileJournalStore}

/-- Before the append a command is answered without a change, or prepared. -/
theorem Phase.decide_cases (service : FileService) (envelope : CommandEnvelope) :
    (∃ answer, Phase.decide service envelope = .answered envelope answer ∧
        service.execute envelope = (answer, service)) ∨
      ∃ canonical evaluation batch frame,
        Phase.decide service envelope = .prepared envelope canonical evaluation frame ∧
        service.Prepared envelope canonical evaluation batch frame := by
  cases hc : canonicalCommandBytes envelope with
  | error failure =>
    left
    simp [Phase.decide, CommandService.execute, hc]
  | ok canonical =>
    cases hi : service.idempotency[envelope.commandId]? with
    | some existing =>
      left
      by_cases hsame : existing.canonicalRequest = canonical
      · simp [Phase.decide, CommandService.execute, hc, hi, hsame]
      · simp [Phase.decide, CommandService.execute, hc, hi, hsame]
    | none =>
      rcases hp : service.prepare envelope canonical with failure | ⟨evaluation, batch, frame⟩
      · left
        simp [Phase.decide, CommandService.execute, hc, hi, hp]
      · right
        obtain ⟨hw, hz, he, hb, hf⟩ := CommandService.prepare_ok_iff.mp hp
        refine ⟨canonical, evaluation, batch, frame, ?_, ⟨hc, hi, hw, hz, he, hb, hf⟩⟩
        simp [Phase.decide, hc, hi, hp]

/-- Whether an append will fail is not asked before it. -/
theorem prepared_withFault (hp : service.Prepared envelope canonical evaluation batch frame)
    (fault : Option WriteFault) :
    (service.withFault fault).Prepared envelope canonical evaluation batch frame :=
  ⟨hp.canonical_eq, hp.fresh, hp.writable, hp.sequence_ne, hp.evaluated, hp.batched, hp.encoded⟩

theorem prepared_prepare (hp : service.Prepared envelope canonical evaluation batch frame) :
    service.prepare envelope canonical = .ok (evaluation, batch, frame) :=
  CommandService.prepare_ok_iff.mpr
    ⟨hp.writable, hp.sequence_ne, hp.evaluated, hp.batched, hp.encoded⟩

theorem execute_appended (hp : service.Prepared envelope canonical evaluation batch frame)
    {fault : Option WriteFault}
    (happend : (service.withFault fault).store.appendAndFlush frame = (.ok (), store)) :
    (service.withFault fault).execute envelope =
      (.ok ⟨evaluation.result, false⟩, ⟨store, evaluation.prospectiveState,
        service.idempotency.insert envelope.commandId ⟨canonical, evaluation.result⟩,
        followingSequence service.nextSequence, service.recoveredTornTail⟩) := by
  have hp' := prepared_withFault hp fault
  have hprepare := prepared_prepare hp'
  have happend' : JournalStore.appendAndFlush frame (service.withFault fault).store =
      (.ok (), store) := happend
  simp only [CommandService.execute, hp'.canonical_eq, hp'.fresh, hprepare, happend']
  rfl

theorem execute_refused (hp : service.Prepared envelope canonical evaluation batch frame)
    {fault : Option WriteFault} {failure : JournalStoreError}
    (happend : (service.withFault fault).store.appendAndFlush frame = (.error failure, store)) :
    (service.withFault fault).execute envelope =
      (.error (.journalUnavailable (some failure)), { service with store := store }) := by
  have hp' := prepared_withFault hp fault
  have hprepare := prepared_prepare hp'
  have happend' : JournalStore.appendAndFlush frame (service.withFault fault).store =
      (.error failure, store) := happend
  simp only [CommandService.execute, hp'.canonical_eq, hp'.fresh, hprepare, happend']
  rfl

/-- An append that dies leaves what an append that fails leaves. -/
theorem execute_torn (hp : service.Prepared envelope canonical evaluation batch frame)
    (persisted : ℕ) :
    ((service.withFault (some ⟨.appendFailed, persisted⟩)).execute envelope).2 =
      { service with store := ⟨service.store.bytes ++ frame.take persisted, false, none⟩ } := by
  have hw : service.store.writable = true := hp.writable
  have happend :
      (service.withFault (some ⟨.appendFailed, persisted⟩)).store.appendAndFlush frame =
        (.error ⟨.appendFailed⟩, ⟨service.store.bytes ++ frame.take persisted, false, none⟩) := by
    simp [FileJournalStore.appendAndFlush, FileService.withFault, hw]
  rw [execute_refused hp happend]

theorem append_bytes (hp : service.Prepared envelope canonical evaluation batch frame)
    {fault : Option WriteFault}
    (happend : (service.withFault fault).store.appendAndFlush frame = (.ok (), store)) :
    store.bytes = service.store.bytes ++ frame := by
  have hw : (service.withFault fault).store.writable = true := hp.writable
  rcases FileJournalStore.append_cases hw happend with ⟨_, _, herror, _⟩ | ⟨_, hbytes, _⟩
  · cases herror
  · exact hbytes

end Executions

section Simulation

variable {limits : LimitHierarchy} {process : Process T} {atomic : Atomic T} {thread : T}

theorem Publishing.of_prepared {envelope : CommandEnvelope} {canonical frame : Bytes}
    {evaluation : CommandEvaluation} {service next : FileService}
    (h : Publishing (.prepared envelope canonical evaluation frame) service next) :
    service = next ∧ ∃ batch, next.Prepared envelope canonical evaluation batch frame := by
  cases h with
  | prepared hp => exact ⟨rfl, _, hp⟩

/-- What has been prepared and appended, from the stores that are still to come. -/
theorem Publishing.of_appended {envelope : CommandEnvelope} {canonical : Bytes}
    {evaluation : CommandEvaluation} {service next : FileService}
    (h : Publishing (.appended envelope canonical evaluation) service next) :
    ∃ (frame : Bytes) (batch : CommandBatch) (fault : Option WriteFault)
      (store : FileJournalStore), next.Prepared envelope canonical evaluation batch frame ∧
      (next.withFault fault).store.appendAndFlush frame = (.ok (), store) ∧
      service = { next with store := store } := by
  cases h with
  | appended hp happend => exact ⟨_, _, _, _, hp, happend, rfl⟩

theorem Publishing.of_indexed {envelope : CommandEnvelope} {evaluation : CommandEvaluation}
    {service next : FileService} (h : Publishing (.indexed envelope evaluation) service next) :
    ∃ (canonical frame : Bytes) (batch : CommandBatch) (fault : Option WriteFault)
      (store : FileJournalStore), next.Prepared envelope canonical evaluation batch frame ∧
      (next.withFault fault).store.appendAndFlush frame = (.ok (), store) ∧
      service = { next with
        store := store
        idempotency := next.idempotency.insert envelope.commandId
          ⟨canonical, evaluation.result⟩ } := by
  cases h with
  | indexed hp happend => exact ⟨_, _, _, _, _, hp, happend, rfl⟩

theorem Publishing.of_counted {envelope : CommandEnvelope} {evaluation : CommandEvaluation}
    {service next : FileService} (h : Publishing (.counted envelope evaluation) service next) :
    ∃ (canonical frame : Bytes) (batch : CommandBatch) (fault : Option WriteFault)
      (store : FileJournalStore), next.Prepared envelope canonical evaluation batch frame ∧
      (next.withFault fault).store.appendAndFlush frame = (.ok (), store) ∧
      service = { next with
        store := store
        idempotency := next.idempotency.insert envelope.commandId
          ⟨canonical, evaluation.result⟩
        nextSequence := followingSequence next.nextSequence } := by
  cases h with
  | counted hp happend => exact ⟨_, _, _, _, _, hp, happend, rfl⟩

theorem Publishing.snapshot {phase : Phase} {service next : FileService}
    (h : Publishing phase service next) : service.snapshot = next.snapshot := by
  cases h <;> rfl

/-- Readers see the snapshot of the service that executes at once. -/
theorem Process.Follows.snapshot (h : process.Follows atomic) :
    process.service.snapshot = atomic.service.snapshot := by
  cases hlock : process.lock with
  | none => rw [h.free hlock]
  | some thread => exact (h.held thread hlock).snapshot

theorem Process.Follows.lock_of (h : process.Follows atomic) {phase : Phase}
    (hphase : process.phase thread = phase) (hholds : phase.holds = true) :
    process.lock = some thread := by
  rw [← h.holds, hphase, hholds]

theorem Process.Follows.call_of (h : process.Follows atomic) {phase : Phase}
    (hphase : process.phase thread = phase) : atomic.call thread = phase.outer := by
  rw [h.calls, hphase]

theorem Process.Follows.publishing (h : process.Follows atomic) {phase : Phase}
    (hphase : process.phase thread = phase) (hholds : phase.holds = true) :
    Publishing phase process.service atomic.service := by
  have hheld := h.held thread (h.lock_of hphase hholds)
  rw [hphase] at hheld
  exact hheld

theorem Publishing.of_locked {envelope : CommandEnvelope} {service next : FileService}
    (h : Publishing (.locked envelope) service next) : service = next := by
  cases h
  rfl

theorem Publishing.of_answered {envelope : CommandEnvelope}
    {answer : Except CommandServiceError CommandReceipt} {service next : FileService}
    (h : Publishing (.answered envelope answer) service next) : service = next := by
  cases h
  rfl

theorem Process.started_follows (service : FileService) :
    (Process.started T service).Follows (Atomic.started T service) :=
  ⟨fun _ => rfl, fun _ => ⟨nofun, nofun⟩, fun _ => rfl, nofun⟩

variable [DecidableEq T]

theorem Atomic.moved_self (atomic : Atomic T) (thread : T) :
    atomic.moved thread (atomic.call thread) = atomic := by
  rw [Atomic.moved, Function.update_eq_self]

/-- A thread without the lock moves alone. -/
theorem Process.Follows.outside (h : process.Follows atomic) {phase : Phase}
    (hbefore : (process.phase thread).holds = false) (hafter : phase.holds = false) :
    (process.moved thread phase).Follows (atomic.moved thread phase.outer) := by
  refine ⟨?_, ?_, h.free, ?_⟩
  · intro other
    by_cases hother : other = thread
    · subst hother
      simp [Process.moved, Atomic.moved]
    · simp [Process.moved, Atomic.moved, hother, h.calls]
  · intro other
    by_cases hother : other = thread
    · subst hother
      have hlock : process.lock ≠ some other := by
        rw [Ne, ← h.holds, hbefore]
        exact Bool.false_ne_true
      simp [Process.moved, hafter, hlock]
    · simp [Process.moved, hother, h.holds]
  · intro other hother
    have hheld := h.held other hother
    have hne : other ≠ thread := by
      rintro rfl
      have hholds := (h.holds other).mpr hother
      rw [hbefore] at hholds
      cases hholds
    simpa [Process.moved, Atomic.moved, hne] using hheld

/-- The holder of the lock moves, and the service with it. -/
theorem Process.Follows.inside (h : process.Follows atomic) {phase : Phase}
    {service next : FileService} (hlock : process.lock = some thread)
    (hafter : phase.holds = true) (hservice : Publishing phase service next) :
    Process.Follows { process.moved thread phase with service := service }
      { atomic.moved thread phase.outer with service := next } := by
  refine ⟨?_, ?_, ?_, ?_⟩
  · intro other
    by_cases hother : other = thread
    · subst hother
      simp [Process.moved, Atomic.moved]
    · simp [Process.moved, Atomic.moved, hother, h.calls]
  · intro other
    by_cases hother : other = thread
    · subst hother
      simp [Process.moved, hafter, hlock]
    · simp [Process.moved, hother, h.holds]
  · intro hfree
    have hfree' : process.lock = none := hfree
    rw [hlock] at hfree'
    cases hfree'
  · intro other hother
    have hother' : process.lock = some other := hother
    obtain rfl := Option.some.inj (hlock.symm.trans hother')
    simpa [Process.moved] using hservice

/-- Between two stores of the publication nothing has happened yet. -/
theorem Process.Follows.silent (h : process.Follows atomic) {phase : Phase}
    {service : FileService} (hlock : process.lock = some thread) (hafter : phase.holds = true)
    (hcall : (process.phase thread).outer = phase.outer)
    (hservice : Publishing phase service atomic.service) :
    Process.Follows { process.moved thread phase with service := service } atomic := by
  have hinside := h.inside hlock hafter hservice
  have hsame : atomic.moved thread phase.outer = atomic := by
    rw [← hcall, ← h.calls, Atomic.moved_self]
  rw [hsame] at hinside
  exact hinside

/-- The process dies: what it leaves is what the atomic service leaves, if need be
after an append that it never answers. -/
theorem Process.Follows.leaves (h : process.Follows atomic) {bytes : Bytes}
    (hbytes : process.Leaves bytes) :
    ∃ last, Run (Atomic.Step limits) atomic [] last ∧ last.service.store.bytes = bytes := by
  -- A thread that has prepared a frame may have brought any part of it to the file.
  have htorn {thread : T} {envelope : CommandEnvelope} {canonical frame : Bytes}
      {evaluation : CommandEvaluation} {batch : CommandBatch} (persisted : ℕ)
      (hcall : atomic.call thread = .pending envelope)
      (hp : atomic.service.Prepared envelope canonical evaluation batch frame) :
      ∃ last, Run (Atomic.Step limits) atomic [] last ∧
        last.service.store.bytes = atomic.service.store.bytes ++ frame.take persisted := by
    have hstep : Atomic.Step limits atomic none _ :=
      .execute (some ⟨.appendFailed, persisted⟩) hcall
    refine ⟨_, Run.single hstep, ?_⟩
    rw [execute_torn hp]
  have hwhole {thread : T} {envelope : CommandEnvelope} {canonical frame : Bytes}
      {evaluation : CommandEvaluation} {batch : CommandBatch} {fault : Option WriteFault}
      {store : FileJournalStore} (hcall : atomic.call thread = .pending envelope)
      (hp : atomic.service.Prepared envelope canonical evaluation batch frame)
      (happend : (atomic.service.withFault fault).store.appendAndFlush frame = (.ok (), store)) :
      ∃ last, Run (Atomic.Step limits) atomic [] last ∧
        last.service.store.bytes = store.bytes := by
    obtain ⟨last, hrun, hlast⟩ := htorn frame.length hcall hp
    refine ⟨last, hrun, ?_⟩
    rw [hlast, List.take_length, append_bytes hp happend]
  rcases hbytes with rfl | ⟨thread, envelope, canonical, evaluation, frame, persisted, hphase, rfl⟩
  · cases hlock : process.lock with
    | none => exact ⟨atomic, .nil, by rw [h.free hlock]⟩
    | some thread =>
      have hheld := h.held thread hlock
      have hcall := h.calls thread
      revert hheld hcall
      generalize process.phase thread = phase
      generalize process.service = service
      intro hheld hcall
      cases hheld with
      | locked => exact ⟨atomic, .nil, rfl⟩
      | prepared _ => exact ⟨atomic, .nil, rfl⟩
      | answered => exact ⟨atomic, .nil, rfl⟩
      | appended hp happend => exact hwhole hcall hp happend
      | indexed hp happend => exact hwhole hcall hp happend
      | counted hp happend => exact hwhole hcall hp happend
  · have hlock : process.lock = some thread := by
      rw [← h.holds, hphase]
      rfl
    have hheld := h.held thread hlock
    have hcall := h.calls thread
    rw [hphase] at hheld hcall
    revert hheld
    generalize process.service = service
    intro hheld
    cases hheld with
    | prepared hp => exact htorn persisted hcall hp

section Steps

variable {envelope : CommandEnvelope} {canonical frame : Bytes} {evaluation : CommandEvaluation}

/-- The lock goes to one thread. -/
theorem Process.Follows.acquire (h : process.Follows atomic)
    (hphase : process.phase thread = .waiting envelope)
    (free : process.lock = none) : Process.Follows
      { process.moved thread (.locked envelope) with lock := some thread } atomic := by
  refine ⟨?_, ?_, nofun, ?_⟩
  · intro other
    by_cases hother : other = thread
    · subst hother
      simpa [Process.moved, Phase.outer] using h.call_of hphase
    · simp [Process.moved, hother, h.calls]
  · intro other
    by_cases hother : other = thread
    · subst hother
      simp [Process.moved, Phase.holds]
    · -- Nobody else was inside, for the lock was free.
      have hout : (process.phase other).holds = false := by
        rw [Bool.eq_false_iff, Ne, h.holds, free]
        exact nofun
      simp [Process.moved, hother, hout, Ne.symm hother]
  · intro other hother
    obtain rfl := Option.some.inj hother
    have hfree := h.free free
    simp only [Process.moved, Function.update_self]
    rw [hfree]
    exact .locked

/-- A decision without an append is the whole execution, and one for an append is none
of it yet. -/
theorem Process.Follows.decide (h : process.Follows atomic)
    (hphase : process.phase thread = .locked envelope) :
    ∃ next, Run (Atomic.Step limits) atomic [] next ∧
      (process.moved thread (Phase.decide process.service envelope)).Follows next := by
  have hinside := h.lock_of hphase rfl
  have hcall := h.call_of hphase
  have hsame := (h.publishing hphase rfl).of_locked
  rcases Phase.decide_cases process.service envelope with ⟨answer, hdecide, hexecute⟩ |
    ⟨canonical, evaluation, batch, frame, hdecide, hp⟩
  · rw [hsame] at hexecute
    have hstep : Atomic.Step limits atomic none _ := .execute atomic.service.store.fault hcall
    have hfault : atomic.service.withFault atomic.service.store.fault = atomic.service := rfl
    rw [hfault, hexecute] at hstep
    refine ⟨_, Run.single hstep, ?_⟩
    rw [hdecide]
    exact h.inside hinside rfl (hsame ▸ .answered)
  · rw [hdecide]
    refine ⟨atomic, .nil, h.silent hinside rfl (by rw [hphase]; rfl) ?_⟩
    rw [← hsame]
    exact .prepared hp

/-- A refused append is the whole execution. -/
theorem Process.Follows.append (h : process.Follows atomic)
    (hphase : process.phase thread = .prepared envelope canonical evaluation frame)
    {fault : Option WriteFault} {outcome : Except JournalStoreError Unit}
    {store : FileJournalStore}
    (happend : (process.service.withFault fault).store.appendAndFlush frame = (outcome, store)) :
    ∃ next, Run (Atomic.Step limits) atomic [] next ∧ Process.Follows
      { process.moved thread (Phase.afterAppend envelope canonical evaluation outcome) with
        service := { process.service with store := store } } next := by
  have hinside := h.lock_of hphase rfl
  have hcall := h.call_of hphase
  obtain ⟨hsame, batch, hp⟩ := (h.publishing hphase rfl).of_prepared
  rw [hsame] at happend ⊢
  cases outcome with
  | error failure =>
    have hstep : Atomic.Step limits atomic none _ := .execute fault hcall
    rw [execute_refused hp happend] at hstep
    exact ⟨_, Run.single hstep, h.inside hinside rfl .answered⟩
  | ok done =>
    exact ⟨atomic, .nil, h.silent hinside rfl (by rw [hphase]; rfl) (.appended hp happend)⟩

theorem Process.Follows.index (h : process.Follows atomic)
    (hphase : process.phase thread = .appended envelope canonical evaluation) : Process.Follows
      { process.moved thread (.indexed envelope evaluation) with
        service := { process.service with
          idempotency := process.service.idempotency.insert envelope.commandId
            ⟨canonical, evaluation.result⟩ } } atomic := by
  obtain ⟨_, _, _, _, hp, happend, hservice⟩ := (h.publishing hphase rfl).of_appended
  rw [hservice]
  exact h.silent (h.lock_of hphase rfl) rfl (by rw [hphase]; rfl) (.indexed hp happend)

theorem Process.Follows.count (h : process.Follows atomic)
    (hphase : process.phase thread = .indexed envelope evaluation) :
    Process.Follows { process.moved thread (.counted envelope evaluation) with
      service := { process.service with
        nextSequence := followingSequence process.service.nextSequence } } atomic := by
  obtain ⟨_, _, _, _, _, hp, happend, hservice⟩ := (h.publishing hphase rfl).of_indexed
  rw [hservice]
  exact h.silent (h.lock_of hphase rfl) rfl (by rw [hphase]; rfl) (.counted hp happend)

/-- The last store makes the execution visible. -/
theorem Process.Follows.publish (h : process.Follows atomic)
    (hphase : process.phase thread = .counted envelope evaluation) :
    ∃ next, Run (Atomic.Step limits) atomic [] next ∧ Process.Follows
      { process.moved thread (.answered envelope (.ok ⟨evaluation.result, false⟩)) with
        service := { process.service with snapshot := evaluation.prospectiveState } } next := by
  obtain ⟨_, _, _, fault, _, hp, happend, hservice⟩ := (h.publishing hphase rfl).of_counted
  have hstep : Atomic.Step limits atomic none _ := .execute fault (h.call_of hphase)
  rw [execute_appended hp happend] at hstep
  rw [hservice]
  exact ⟨_, Run.single hstep, h.inside (h.lock_of hphase rfl) rfl .answered⟩

theorem Process.Follows.release (h : process.Follows atomic)
    {answer : Except CommandServiceError CommandReceipt}
    (hphase : process.phase thread = .answered envelope answer) : Process.Follows
      { process.moved thread (.leaving envelope answer) with lock := none } atomic := by
  have hinside := h.lock_of hphase rfl
  have hsame := (h.publishing hphase rfl).of_answered
  refine ⟨?_, ?_, fun _ => hsame.symm, nofun⟩
  · intro other
    by_cases hother : other = thread
    · subst hother
      simp [Process.moved, h.calls, hphase, Phase.outer]
    · simp [Process.moved, hother, h.calls]
  · intro other
    by_cases hother : other = thread
    · subst hother
      simp [Process.moved, Phase.holds]
    · simp [Process.moved, hother, h.holds, hinside, Ne.symm hother]

theorem Process.Follows.crash (h : process.Follows atomic) {bytes : Bytes}
    {restarted : FileService}
    (hleaves : process.Leaves bytes)
    (hcreate : CommandService.create (some (FileJournalStore.opened bytes)) limits =
      .ok restarted) :
    ∃ next, Run (Atomic.Step limits) atomic [.crashed] next ∧
      (Process.started T restarted).Follows next := by
  obtain ⟨last, hrun, hlast⟩ : ∃ last, Run (Atomic.Step limits) atomic [] last ∧
    last.service.store.bytes = bytes := h.leaves hleaves
  have hrestart : last.service.restart limits = .ok restarted := by
    rw [FileService.restart, hlast, hcreate]
  have hcrash : Atomic.Step limits last (some (.crashed : Occurrence T)) _ := .crash hrestart
  exact ⟨_, hrun.trans (Run.single hcrash), Process.started_follows restarted⟩

end Steps

/-- Each step of a thread is silent for the atomic service, or is its execution. -/
theorem Process.step_matched :
    Simulates (Process.Step (T := T) limits) (Atomic.Step limits) Process.Follows := by
  intro process event next atomic h hstep
  cases hstep with
  | call thread envelope hphase =>
    exact ⟨_, Run.single (.call thread envelope (h.call_of hphase)),
      h.outside (by rw [hphase]; rfl) rfl⟩
  | acquire hphase free => exact ⟨atomic, .nil, h.acquire hphase free⟩
  | decide hphase => exact h.decide hphase
  | append _ hphase happend => exact h.append hphase happend
  | index hphase => exact ⟨atomic, .nil, h.index hphase⟩
  | count hphase => exact ⟨atomic, .nil, h.count hphase⟩
  | publish hphase => exact h.publish hphase
  | release hphase => exact ⟨atomic, .nil, h.release hphase⟩
  | answer hphase =>
    exact ⟨_, Run.single (.answer (h.call_of hphase)), h.outside (by rw [hphase]; rfl) rfl⟩
  | load thread =>
    have hload : Atomic.Step limits atomic (some (.loaded thread atomic.service.snapshot)) atomic :=
      .load thread
    rw [← h.snapshot] at hload
    exact ⟨atomic, Run.single hload, h⟩
  | crash hleaves hcreate => exact h.crash hleaves hcreate

end Simulation

section Journals

variable [DecidableEq T] {limits : LimitHierarchy} {atomic next : Atomic T}
  {event : Option (Occurrence T)}

def Atomic.Stands (limits : LimitHierarchy) (atomic : Atomic T) : Prop :=
  ∃ batches frames tail, atomic.service.Standing limits batches frames tail

omit [DecidableEq T] in
theorem Atomic.Stands.restart (h : atomic.Stands limits) :
    ∃ restarted : FileService, atomic.service.restart limits = .ok restarted ∧
      Atomic.Stands limits (Atomic.started T restarted) := by
  obtain ⟨_, _, _, hstanding⟩ := h
  obtain ⟨restarted, kept, whole, hrestart, _, hnext, _⟩ := hstanding.restart
  exact ⟨restarted, hrestart, kept, whole, [], hnext⟩

theorem Atomic.Stands.step (h : atomic.Stands limits)
    (hstep : Atomic.Step limits atomic event next) : next.Stands limits := by
  cases hstep with
  | call thread envelope _ => exact h
  | @execute thread envelope fault _ =>
    obtain ⟨batches, frames, tail, hstanding⟩ := h
    obtain ⟨batches', frames', tail', _, hnext⟩ := (hstanding.withFault fault).execute envelope
    exact ⟨batches', frames', tail', hnext⟩
  | answer _ => exact h
  | load _ => exact h
  | crash hrestart =>
    obtain ⟨restarted, hrestart', hnext⟩ := h.restart
    obtain rfl := Except.ok.inj (hrestart.symm.trans hrestart')
    exact hnext

omit [DecidableEq T] in
theorem Atomic.started_stands {bytes : Bytes} {first : FileService}
    (h : CommandService.create (some (FileJournalStore.opened bytes)) limits = .ok first) :
    (Atomic.started T first).Stands limits := by
  obtain ⟨batches, frames, hstanding⟩ := FileService.standing_of_create h
  exact ⟨batches, frames, [], hstanding⟩

end Journals

/-- Threads that enter, decide, append, publish and read in any order, processes
that die between any two stores or in the middle of an append: the calls, answers,
snapshots and crashes that are seen of them are those of a service that executes
each command in one step, between its call and its answer, and they leave the same
service behind when no thread is inside. One thread at most is inside, and the
service comes up again over whatever file a crash leaves. -/
theorem service_is_linearizable [DecidableEq T] (limits : LimitHierarchy) (bytes : Bytes)
    (first : FileService)
    (h : CommandService.create (some (FileJournalStore.opened bytes)) limits = .ok first)
    (trace : List (Occurrence T)) (process : Process T)
    (hrun : Run (Process.Step limits) (Process.started T first) trace process) :
    (∃ atomic, Run (Atomic.Step limits) (Atomic.started T first) trace atomic ∧
      (process.lock = none → atomic.service = process.service)) ∧
    (∀ thread other, (process.phase thread).holds = true → (process.phase other).holds = true →
      thread = other) ∧
    ∀ left, process.Leaves left → ∃ restarted : FileService,
      CommandService.create (some (FileJournalStore.opened left)) limits = .ok restarted := by
  obtain ⟨atomic, hatomic, hfollows⟩ :=
    Process.step_matched.run (Process.started_follows first) hrun
  refine ⟨⟨atomic, hatomic, hfollows.free⟩, ?_, ?_⟩
  · intro thread other hthread hother
    rw [hfollows.holds] at hthread hother
    exact Option.some.inj (hthread.symm.trans hother)
  · intro left hleft
    obtain ⟨last, hlast, hbytes⟩ : ∃ last, Run (Atomic.Step limits) atomic [] last ∧
      last.service.store.bytes = left := hfollows.leaves hleft
    have hstands : last.Stands limits := by
      have hwhole := hatomic.trans hlast
      exact hwhole.invariant (Atomic.started_stands h) fun _ _ _ hs hstep => hs.step hstep
    obtain ⟨restarted, hrestart, _⟩ := hstands.restart
    rw [FileService.restart, hbytes] at hrestart
    exact ⟨restarted, hrestart⟩

/-- A thread on its own gets as far as the append. -/
theorem Process.run_to_append [DecidableEq T] {limits : LimitHierarchy} {process : Process T}
    {thread : T} {envelope : CommandEnvelope} {canonical frame : Bytes}
    {evaluation : CommandEvaluation} {store : FileJournalStore}
    (hidle : process.phase thread = .idle) (hfree : process.lock = none)
    (hdecide : Phase.decide process.service envelope =
      .prepared envelope canonical evaluation frame)
    (happend : (process.service.withFault none).store.appendAndFlush frame = (.ok (), store)) :
    Run (Process.Step limits) process [.called thread envelope]
      { process.moved thread (.appended envelope canonical evaluation) with
        service := { process.service with store := store }
        lock := some thread } := by
  have hcall : Process.Step limits process _ _ := .call thread envelope hidle
  have hacquire : Process.Step limits (process.moved thread (.waiting envelope)) none _ :=
    .acquire (Function.update_self ..) hfree
  have hdecided : Process.Step limits
      { process.moved thread (.locked envelope) with lock := some thread } none _ :=
    .decide (Function.update_self ..)
  have happended : Process.Step limits
      { process.moved thread (.prepared envelope canonical evaluation frame) with
        lock := some thread } none _ := .append none (Function.update_self ..) happend
  have hservice : Phase.decide (process.moved thread (.locked envelope)).service envelope = _ :=
    hdecide
  simp only [Process.moved, Function.update_idem] at hcall hacquire hdecided happended hservice
  rw [hservice] at hdecided
  have hrun := (Run.single hcall).trans
    ((Run.single hacquire).trans ((Run.single hdecided).trans (Run.single happended)))
  simpa [Process.moved, Phase.afterAppend] using hrun

/-- A command that one of two threads has brought to the file and not published yet. -/
theorem fresh_run_to_append {envelope : CommandEnvelope}
    (h : ((FileService.fresh ⟨∅⟩).execute envelope).2.store.bytes ≠ []) :
    ∃ process : Process Bool, process.service.store.bytes =
      ((FileService.fresh ⟨∅⟩).execute envelope).2.store.bytes ∧
    process.service.snapshot = State.initial ⟨∅⟩ ∧
    Run (Process.Step ⟨∅⟩) (Process.started Bool (FileService.fresh ⟨∅⟩))
      [.called true envelope] process := by
  rcases Phase.decide_cases (FileService.fresh ⟨∅⟩) envelope with ⟨answer, _, hexecute⟩ |
    ⟨canonical, evaluation, batch, frame, hdecide, hp⟩
  · rw [hexecute] at h
    exact absurd rfl h
  have happend : ((FileService.fresh ⟨∅⟩).withFault none).store.appendAndFlush frame =
      (.ok (), ⟨frame, true, none⟩) := rfl
  have hexecute : ((FileService.fresh ⟨∅⟩).execute envelope).2.store.bytes = frame :=
    congrArg (fun outcome => outcome.2.store.bytes) (execute_appended hp happend)
  exact ⟨_, hexecute.symm, rfl, Process.run_to_append rfl rfl hdecide happend⟩

/-- A reader between the append of a run and its publication sees the first state. -/
theorem service_is_linearizable_read : ∃ (process : Process Bool) (atomic : Atomic Bool),
    process.service.store.bytes ≠ [] ∧
    Run (Process.Step ⟨∅⟩) (Process.started Bool (FileService.fresh ⟨∅⟩))
      [.called true ⟨sampleId .command, .runEod ⟨sampleDate⟩⟩,
        .loaded false (State.initial ⟨∅⟩)] process ∧
    Run (Atomic.Step ⟨∅⟩) (Atomic.started Bool (FileService.fresh ⟨∅⟩))
      [.called true ⟨sampleId .command, .runEod ⟨sampleDate⟩⟩,
        .loaded false (State.initial ⟨∅⟩)] atomic := by
  let envelope : CommandEnvelope := ⟨sampleId .command, .runEod ⟨sampleDate⟩⟩
  have hne : ((FileService.fresh ⟨∅⟩).execute envelope).2.store.bytes ≠ [] := by decide +kernel
  obtain ⟨process, hbytes, hsnapshot, happended⟩ := fresh_run_to_append hne
  have hload : Process.Step ⟨∅⟩ process (some (.loaded false process.service.snapshot)) process :=
    .load false
  rw [hsnapshot] at hload
  have hrun := happended.trans (Run.single hload)
  obtain ⟨⟨atomic, hatomic, _⟩, _⟩ := service_is_linearizable ⟨∅⟩ [] (FileService.fresh ⟨∅⟩)
    (FileService.create_fresh ⟨∅⟩) _ _ hrun
  exact ⟨process, atomic, hbytes ▸ hne, hrun, hatomic⟩

end Backbook
