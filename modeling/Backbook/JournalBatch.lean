import Backbook.DomainPostingPolicy

namespace Backbook

structure TradeBookedEvent where
  tradeId : TradeId
  bookId : BookId
  counterpartyId : CounterpartyId
  nettingSetId : NettingSetId
  terms : FxTerms
deriving DecidableEq

structure TradeConfirmedEvent where
  tradeId : TradeId
  expectedVersion : UInt32
  postingIds : ConfirmationPostingIds
deriving DecidableEq

structure TradeAmendedEvent where
  tradeId : TradeId
  expectedVersion : UInt32
  replacementTerms : FxTerms
  reversalIds : ReversalPostingIds
  replacementPostingIds : ConfirmationPostingIds
deriving DecidableEq

structure TradeCancelledEvent where
  tradeId : TradeId
  expectedVersion : UInt32
  reversalIds : Option ReversalPostingIds
deriving DecidableEq

structure EodRunEvent where
  asOfDate : IsoDate
deriving DecidableEq

inductive Event
  | tradeBooked (value : TradeBookedEvent)
  | tradeConfirmed (value : TradeConfirmedEvent)
  | tradeAmended (value : TradeAmendedEvent)
  | tradeCancelled (value : TradeCancelledEvent)
  | eodRun (value : EodRunEvent)
deriving DecidableEq

def Event.index : Event → ℕ
  | .tradeBooked _ => 0
  | .tradeConfirmed _ => 1
  | .tradeAmended _ => 2
  | .tradeCancelled _ => 3
  | .eodRun _ => 4

structure TradeBookedResult where
  tradeId : TradeId
  version : UInt32
  stateVersion : UInt64
deriving DecidableEq

structure TradeConfirmedResult where
  tradeId : TradeId
  version : UInt32
  stateVersion : UInt64
deriving DecidableEq

structure TradeAmendedResult where
  tradeId : TradeId
  supersededVersion : UInt32
  replacementVersion : UInt32
  stateVersion : UInt64
deriving DecidableEq

structure TradeCancelledResult where
  tradeId : TradeId
  version : UInt32
  stateVersion : UInt64
deriving DecidableEq

structure EodRunResult where
  asOfDate : IsoDate
  settledTradeCount : UInt32
  stateVersion : UInt64
deriving DecidableEq

inductive CommandResult
  | tradeBooked (value : TradeBookedResult)
  | tradeConfirmed (value : TradeConfirmedResult)
  | tradeAmended (value : TradeAmendedResult)
  | tradeCancelled (value : TradeCancelledResult)
  | eodRun (value : EodRunResult)
deriving DecidableEq

def resultStateVersion : CommandResult → UInt64
  | .tradeBooked value => value.stateVersion
  | .tradeConfirmed value => value.stateVersion
  | .tradeAmended value => value.stateVersion
  | .tradeCancelled value => value.stateVersion
  | .eodRun value => value.stateVersion

inductive CommandBatchError
  | zeroSequence | resultStateVersionExceedsSequence
deriving DecidableEq, Repr

structure CommandBatch where
  sequence : UInt64
  commandId : CommandId
  canonicalRequest : Bytes
  events : List Event
  result : CommandResult
  sequence_ne : sequence ≠ 0
  result_le : resultStateVersion result ≤ sequence
deriving DecidableEq

/-- The sequence of a journal's first batch. -/
theorem firstSequence_ne : (1 : UInt64) ≠ 0 := by decide

def CommandBatch.create (sequence : UInt64) (commandId : CommandId) (canonicalRequest : Bytes)
    (events : List Event) (result : CommandResult) : Except CommandBatchError CommandBatch :=
  if hs : sequence = 0 then .error .zeroSequence
  else if hr : resultStateVersion result > sequence then
    .error .resultStateVersionExceedsSequence
  else .ok ⟨sequence, commandId, canonicalRequest, events, result, hs, UInt64.not_lt.mp hr⟩

theorem CommandBatch.create_ok_iff {sequence : UInt64} {commandId : CommandId}
    {canonicalRequest : Bytes} {events : List Event} {result : CommandResult}
    {batch : CommandBatch} :
    CommandBatch.create sequence commandId canonicalRequest events result = .ok batch ↔
      batch.sequence = sequence ∧ batch.commandId = commandId ∧
      batch.canonicalRequest = canonicalRequest ∧ batch.events = events ∧
      batch.result = result := by
  unfold CommandBatch.create
  constructor
  · intro h
    split_ifs at h
    obtain rfl := Except.ok.inj h
    exact ⟨rfl, rfl, rfl, rfl, rfl⟩
  · rintro ⟨rfl, rfl, rfl, rfl, rfl⟩
    have hr : ¬resultStateVersion batch.result > batch.sequence := UInt64.not_lt.mpr batch.result_le
    rw [dif_neg batch.sequence_ne, dif_neg hr]

end Backbook
