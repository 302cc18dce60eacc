import Backbook.BrowserDecoders

/-! The console's refresh and the system it runs in. A refresh reads the state, the
ledger and the settlements side by side, tries once more when they disagree, and
shows what it read only while no later refresh was started. -/
namespace Backbook

structure HttpResponse where
  status : Int32
  body : Json

def setReadResponse : Except ResponseEncodingError Json → HttpResponse
  | .error _ => ⟨internalProblem.status, encodeProblemResponse internalProblem⟩
  | .ok encoded => ⟨200, encoded⟩

namespace Browser

inductive TransportReason
  | network | timeout
deriving DecidableEq, Repr

inductive ClientError
  | problem (problem : ProblemDetails)
  | transport (reason : TransportReason) (message : Bytes)
  | protocol (message : Bytes)
deriving DecidableEq, Repr

abbrev ClientResult (δ : Type) := Except ClientError δ

def request {δ : Type} (decoder : Json → Decoded δ) (response : HttpResponse) : ClientResult δ :=
  if 200 ≤ response.status ∧ response.status < 300 then
    match decoder response.body with
    | .ok value => .ok value
    | .error _ => .error (.protocol "The service response failed validation.")
  else
    match decodeProblem response.body with
    | .ok problem => .error (.problem problem)
    | .error _ => .error (.protocol "The service returned an invalid problem response.")

section Reads

variable (isRealDay : Bytes → Bool) (snapshot : State)

def readState : ClientResult (ReadEnvelope StateData) :=
  request (decodeStateResponse isRealDay) (setReadResponse (encodeStateResponse snapshot))

def readLedger : ClientResult (ReadEnvelope LedgerData) :=
  request decodeLedgerResponse (setReadResponse (encodeLedgerResponse snapshot))

def readSettlements : ClientResult (ReadEnvelope SettlementData) :=
  request (decodeSettlementsResponse isRealDay)
    (setReadResponse (encodeSettlementsResponse snapshot))

end Reads

inductive SnapshotLoadResult
  | success (value : DashboardSnapshot)
  | failure (error : ClientError) (mismatch : Bool)
deriving DecidableEq, Repr

def snapshotAfterLoad (current : Option DashboardSnapshot) :
    SnapshotLoadResult → Option DashboardSnapshot
  | .success value => some value
  | .failure _ _ => current

/-- The part behind the three awaited reads. -/
def loadSnapshot (state : ClientResult (ReadEnvelope StateData))
    (ledger : ClientResult (ReadEnvelope LedgerData))
    (settlements : ClientResult (ReadEnvelope SettlementData)) : SnapshotLoadResult :=
  match state, ledger, settlements with
  | .error error, _, _ => .failure error false
  | .ok _, .error error, _ => .failure error false
  | .ok _, .ok _, .error error => .failure error false
  | .ok state, .ok ledger, .ok settlements =>
    match combineSnapshots state ledger settlements with
    | .ok value => .success value
    | .error mismatch => .failure (.protocol mismatch.message) true

structure ReadSet where
  state : Option (ClientResult (ReadEnvelope StateData))
  ledger : Option (ClientResult (ReadEnvelope LedgerData))
  settlements : Option (ClientResult (ReadEnvelope SettlementData))

def ReadSet.sent : ReadSet := ⟨none, none, none⟩

def ReadSet.loaded (reads : ReadSet) : Option SnapshotLoadResult := do
  let state ← reads.state
  let ledger ← reads.ledger
  let settlements ← reads.settlements
  some (loadSnapshot state ledger settlements)

/-- One read is answered from the snapshot of the moment, or it fails. An answer
that is on its way can still be lost. -/
inductive ReadSet.Progress (isRealDay : Bytes → Bool) (snapshot : State) :
    ReadSet → ReadSet → Prop
  | state {reads : ReadSet} (h : reads.state = none) :
      Progress isRealDay snapshot reads { reads with state := some (readState isRealDay snapshot) }
  | ledger {reads : ReadSet} (h : reads.ledger = none) :
      Progress isRealDay snapshot reads { reads with ledger := some (readLedger snapshot) }
  | settlements {reads : ReadSet} (h : reads.settlements = none) :
      Progress isRealDay snapshot reads
        { reads with settlements := some (readSettlements isRealDay snapshot) }
  | stateFails (reads : ReadSet) (error : ClientError) :
      Progress isRealDay snapshot reads { reads with state := some (.error error) }
  | ledgerFails (reads : ReadSet) (error : ClientError) :
      Progress isRealDay snapshot reads { reads with ledger := some (.error error) }
  | settlementsFails (reads : ReadSet) (error : ClientError) :
      Progress isRealDay snapshot reads { reads with settlements := some (.error error) }

inductive ConnectionStatus
  | connecting | live | refreshing | stale | offline
deriving DecidableEq, Repr

structure BackbookModel where
  snapshot : Option DashboardSnapshot
  connection : ConnectionStatus
  error : Option ClientError
  requestSequence : ℕ

def BackbookModel.initial : BackbookModel := ⟨none, .connecting, none, 0⟩

/-- What `refreshOnce` does before it waits. -/
def BackbookModel.beginRefresh (model : BackbookModel) : BackbookModel :=
  { model with
    requestSequence := model.requestSequence + 1
    connection := if model.snapshot.isNone then .connecting else .refreshing }

def ClientError.connection : ClientError → ConnectionStatus
  | .transport _ _ => .offline
  | _ => .stale

/-- What `refreshOnce` does when it has waited, with the number it was given. -/
def BackbookModel.endRefresh (model : BackbookModel) (sequence : ℕ)
    (loaded : SnapshotLoadResult) : BackbookModel :=
  if sequence ≠ model.requestSequence then model
  else match loaded with
    | .success _ =>
      { model with
        snapshot := snapshotAfterLoad model.snapshot loaded
        connection := .live
        error := none }
    | .failure error _ => { model with connection := error.connection, error := some error }

@[simp] theorem BackbookModel.endRefresh_requestSequence (model : BackbookModel) (sequence : ℕ)
    (loaded : SnapshotLoadResult) :
    (model.endRefresh sequence loaded).requestSequence = model.requestSequence := by
  unfold endRefresh
  split_ifs
  · rfl
  · cases loaded <;> rfl

/-- Only a load that succeeds for the newest refresh reaches the screen. -/
theorem BackbookModel.endRefresh_snapshot (model : BackbookModel) (sequence : ℕ)
    (loaded : SnapshotLoadResult) : (model.endRefresh sequence loaded).snapshot =
      if sequence = model.requestSequence then snapshotAfterLoad model.snapshot loaded
      else model.snapshot := by
  unfold endRefresh
  by_cases h : sequence = model.requestSequence
  · rw [if_pos h, if_neg (not_not.mpr h)]
    cases loaded <;> rfl
  · rw [if_neg h, if_pos h]

structure Refresh where
  reads : ReadSet
  retried : Bool

def Refresh.retry (refresh : Refresh) : SnapshotLoadResult → Option Refresh
  | .failure _ true => if refresh.retried then none else some ⟨.sent, true⟩
  | _ => none

theorem Refresh.retry_reads {refresh again : Refresh} {loaded : SnapshotLoadResult}
    (h : refresh.retry loaded = some again) : again.reads = .sent := by
  unfold retry at h
  split at h
  · split_ifs at h
    obtain rfl := Option.some.inj h
    rfl
  · cases h

/-- One server run with one console. The published snapshots are kept with the
latest first, and a refresh that waits is found under its number. -/
structure Console (S : Type) where
  service : CommandService S
  published : List State
  model : BackbookModel
  refreshes : ℕ → Option Refresh

variable {S : Type}

def Console.opened (service : CommandService S) : Console S :=
  ⟨service, [service.snapshot], .initial, fun _ => none⟩

/-- Any client's command. The store may have been given another fault before it. -/
def Console.commit [JournalStore S] (console : Console S) (store : S)
    (envelope : CommandEnvelope) : Console S :=
  let service := (CommandService.execute { console.service with store := store } envelope).2
  { console with service := service, published := service.snapshot :: console.published }

def Console.setRefresh (console : Console S) (sequence : ℕ) (refresh : Option Refresh) :
    Console S :=
  { console with refreshes := Function.update console.refreshes sequence refresh }

def Console.start (console : Console S) : Console S :=
  let model := console.model.beginRefresh
  { console.setRefresh model.requestSequence (some ⟨.sent, false⟩) with model := model }

def Console.resume (console : Console S) (sequence : ℕ) (refresh : Refresh)
    (loaded : SnapshotLoadResult) : Console S :=
  match refresh.retry loaded with
  | some again => console.setRefresh sequence (some again)
  | none =>
    { console.setRefresh sequence none with model := console.model.endRefresh sequence loaded }

/-- A load that fails, mismatches or was superseded leaves what is shown. -/
theorem Console.resume_snapshot (console : Console S) (sequence : ℕ) (refresh : Refresh)
    (loaded : SnapshotLoadResult) : (console.resume sequence refresh loaded).model.snapshot =
      if sequence = console.model.requestSequence then
        snapshotAfterLoad console.model.snapshot loaded
      else console.model.snapshot := by
  unfold resume
  cases hretry : refresh.retry loaded with
  | none => exact BackbookModel.endRefresh_snapshot _ _ _
  | some again =>
    -- Only a failure is tried again.
    cases loaded with
    | success value => cases hretry
    | failure error mismatch => exact (ite_self _).symm

inductive Console.Step [JournalStore S] (isRealDay : Bytes → Bool) : Console S → Console S → Prop
  | commit (console : Console S) (store : S) (envelope : CommandEnvelope) :
      Step isRealDay console (console.commit store envelope)
  | start (console : Console S) : Step isRealDay console console.start
  | read {console : Console S} {sequence : ℕ} {refresh : Refresh} {reads : ReadSet}
      (h : console.refreshes sequence = some refresh)
      (hr : refresh.reads.Progress isRealDay console.service.snapshot reads) :
      Step isRealDay console (console.setRefresh sequence (some { refresh with reads := reads }))
  | resume {console : Console S} {sequence : ℕ} {refresh : Refresh} {loaded : SnapshotLoadResult}
      (h : console.refreshes sequence = some refresh) (hl : refresh.reads.loaded = some loaded) :
      Step isRealDay console (console.resume sequence refresh loaded)

end Browser

end Backbook
