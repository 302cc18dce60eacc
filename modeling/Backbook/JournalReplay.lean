import Backbook.DomainState
import Backbook.JournalBatch

namespace Backbook

inductive ReplayErrorCode
  | sequenceMismatch | invalidBatchShape | eventApplicationFailed | resultMismatch
  | ledgerTotalsMismatch
deriving DecidableEq, Repr

structure ReplayError where
  code : ReplayErrorCode
  batchSequence : UInt64
  expectedSequence : UInt64
  eventIndex : ℕ
  stateError : Option StateError
  ledgerTotalsError : Option LedgerTotalsError
deriving DecidableEq

def replayError (code : ReplayErrorCode) (batchSequence expectedSequence : UInt64)
    (eventIndex : ℕ) : ReplayError :=
  ⟨code, batchSequence, expectedSequence, eventIndex, none, none⟩

def applyEvent (state : State) : Event → Except StateError State
  | .tradeBooked value =>
    bookTrade state value.tradeId value.bookId value.counterpartyId value.nettingSetId value.terms
  | .tradeConfirmed value =>
    confirmTrade state value.tradeId value.expectedVersion value.postingIds
  | .tradeAmended value =>
    amendTrade state value.tradeId value.expectedVersion value.replacementTerms value.reversalIds
      value.replacementPostingIds
  | .tradeCancelled value =>
    cancelTrade state value.tradeId value.expectedVersion value.reversalIds
  | .eodRun value => runEod state value.asOfDate

def settledTradeCount (state : State) : UInt64 :=
  UInt64.ofNat (state.trades.toList.filter (·.2.state = .settled)).length

def State.holds (state : State) (tradeId : TradeId) (version : UInt32) (expected : TradeState) :
    Bool :=
  (state.findTrade tradeId version).any (·.state = expected)

def resultMatches (result : CommandResult) (event : Event) (before after : State) : Bool :=
  resultStateVersion result == after.version &&
  match result, event with
  | .tradeBooked value, .tradeBooked applied =>
    applied.tradeId == value.tradeId && value.version == 1 &&
      after.holds value.tradeId value.version .captured
  | .tradeConfirmed value, .tradeConfirmed applied =>
    applied.tradeId == value.tradeId && value.version == applied.expectedVersion &&
      after.holds value.tradeId value.version .confirmed
  | .tradeAmended value, .tradeAmended applied =>
    applied.tradeId == value.tradeId && value.supersededVersion == applied.expectedVersion &&
      value.replacementVersion == applied.expectedVersion + 1 &&
      after.holds value.tradeId value.supersededVersion .superseded &&
      after.holds value.tradeId value.replacementVersion .confirmed
  | .tradeCancelled value, .tradeCancelled applied =>
    applied.tradeId == value.tradeId && value.version == applied.expectedVersion &&
      after.holds value.tradeId value.version .cancelled
  | .eodRun value, .eodRun applied =>
    applied.asOfDate == value.asOfDate &&
      value.settledTradeCount.toUInt64 == settledTradeCount after - settledTradeCount before
  | _, _ => false

/-- One batch: its sequence, its one event, and its stored result. -/
def replayBatch (state : State) (expectedSequence : UInt64) (batch : CommandBatch) :
    Except ReplayError State :=
  if batch.sequence ≠ expectedSequence then
    .error (replayError .sequenceMismatch batch.sequence expectedSequence 0)
  else match batch.events with
    | [event] =>
      match applyEvent state event with
      | .error failure => .error { replayError .eventApplicationFailed batch.sequence
          expectedSequence 0 with stateError := some failure }
      | .ok next =>
        if !resultMatches batch.result event state next then
          .error (replayError .resultMismatch batch.sequence expectedSequence 0)
        else .ok next
    | events => .error
        (replayError .invalidBatchShape batch.sequence expectedSequence events.length)

def replayBatches : List CommandBatch → State → UInt64 → Except ReplayError (State × UInt64)
  | [], state, expectedSequence => .ok (state, expectedSequence)
  | batch :: batches, state, expectedSequence => do
    let next ← replayBatch state expectedSequence batch
    replayBatches batches next (expectedSequence + 1)

def replay (initialLimits : LimitHierarchy) (batches : List CommandBatch) :
    Except ReplayError State := do
  let (state, expectedSequence) ← replayBatches batches (State.initial initialLimits) 1
  let lastSequence := batches.getLast?.elim 0 CommandBatch.sequence
  match recomputeLedgerTotals state.ledgerEntries with
  | .error failure =>
    .error { replayError .ledgerTotalsMismatch lastSequence expectedSequence 0 with
      ledgerTotalsError := some failure }
  | .ok recomputed =>
    if recomputed ≠ state.ledgerTotals then
      .error (replayError .ledgerTotalsMismatch lastSequence expectedSequence 0)
    else .ok state

theorem replayBatches_append (first second : List CommandBatch) (state : State)
    (expectedSequence : UInt64) :
    replayBatches (first ++ second) state expectedSequence =
      (replayBatches first state expectedSequence >>= fun reached =>
        replayBatches second reached.1 reached.2) := by
  induction first generalizing state expectedSequence with
  | nil => rfl
  | cons batch first ih =>
    simp only [List.cons_append, replayBatches]
    cases replayBatch state expectedSequence batch with
    | error failure => rfl
    | ok next => exact ih next (expectedSequence + 1)

/-- A batch replays when its event applies and its result describes it. -/
theorem replayBatch_ok {state next : State} {batch : CommandBatch} {event : Event}
    (hevents : batch.events = [event]) (happly : applyEvent state event = .ok next)
    (hresult : resultMatches batch.result event state next = true) :
    replayBatch state batch.sequence batch = .ok next := by
  unfold replayBatch
  rw [if_neg (not_not.mpr rfl), hevents]
  simp only [happly, hresult]
  rfl

end Backbook
