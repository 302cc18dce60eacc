import Backbook.JournalReplay
import Backbook.ServiceCommand
import Backbook.StateRuns

namespace Backbook

structure CommandEvaluation where
  prospectiveState : State
  event : Event
  result : CommandResult

inductive CommandEvaluationError
  | domainRejected (stateError : StateError)
  | invariantViolation
deriving DecidableEq

def invariantsHold (state : State) : Bool :=
  match recomputeLedgerTotals state.ledgerEntries with
  | .error _ => false
  | .ok recomputed =>
    if recomputed ≠ state.ledgerTotals then false
    else state.limits.snapshots.all fun balance =>
      !(balance.capacityMinorUnits < 0 || balance.reservedMinorUnits < 0 ||
        balance.reservedMinorUnits > balance.capacityMinorUnits)

def completeTransition (prospective : Except StateError State) (event : Event)
    (resultFactory : State → Except CommandEvaluationError CommandResult) :
    Except CommandEvaluationError CommandEvaluation :=
  match prospective with
  | .error failure => .error (.domainRejected failure)
  | .ok after =>
    if !invariantsHold after then .error .invariantViolation
    else do
      let result ← resultFactory after
      .ok ⟨after, event, result⟩

def evaluateCommand (current : State) : Command → Except CommandEvaluationError CommandEvaluation
  | .bookTrade value =>
    completeTransition
      (bookTrade current value.tradeId value.bookId value.counterpartyId value.nettingSetId
        value.terms)
      (.tradeBooked ⟨value.tradeId, value.bookId, value.counterpartyId, value.nettingSetId,
        value.terms⟩)
      fun after => .ok (.tradeBooked ⟨value.tradeId, 1, after.version⟩)
  | .confirmTrade value =>
    completeTransition
      (confirmTrade current value.tradeId value.expectedVersion value.postingIds)
      (.tradeConfirmed ⟨value.tradeId, value.expectedVersion, value.postingIds⟩)
      fun after => .ok (.tradeConfirmed ⟨value.tradeId, value.expectedVersion, after.version⟩)
  | .amendTrade value =>
    completeTransition
      (amendTrade current value.tradeId value.expectedVersion value.replacementTerms
        value.reversalIds value.replacementPostingIds)
      (.tradeAmended ⟨value.tradeId, value.expectedVersion, value.replacementTerms,
        value.reversalIds, value.replacementPostingIds⟩)
      fun after =>
        if value.expectedVersion = 4294967295 then .error .invariantViolation
        else .ok (.tradeAmended ⟨value.tradeId, value.expectedVersion, value.expectedVersion + 1,
          after.version⟩)
  | .cancelTrade value =>
    completeTransition
      (cancelTrade current value.tradeId value.expectedVersion value.reversalIds)
      (.tradeCancelled ⟨value.tradeId, value.expectedVersion, value.reversalIds⟩)
      fun after => .ok (.tradeCancelled ⟨value.tradeId, value.expectedVersion, after.version⟩)
  | .runEod value =>
    completeTransition (runEod current value.asOfDate) (.eodRun ⟨value.asOfDate⟩)
      fun after =>
        let beforeCount := settledTradeCount current
        let afterCount := settledTradeCount after
        if afterCount < beforeCount ∨ afterCount - beforeCount > 4294967295 then
          .error .invariantViolation
        else .ok (.eodRun ⟨value.asOfDate, (afterCount - beforeCount).toUInt32, after.version⟩)

theorem completeTransition_ok {prospective : Except StateError State} {event : Event}
    {resultFactory : State → Except CommandEvaluationError CommandResult}
    {evaluation : CommandEvaluation}
    (h : completeTransition prospective event resultFactory = .ok evaluation) :
    prospective = .ok evaluation.prospectiveState ∧ evaluation.event = event ∧
      invariantsHold evaluation.prospectiveState = true ∧
      resultFactory evaluation.prospectiveState = .ok evaluation.result := by
  unfold completeTransition at h
  cases prospective with
  | error failure => cases h
  | ok after =>
    simp only at h
    split_ifs at h with hinv
    obtain ⟨result, hresult, h⟩ := Outcome.bind_ok_iff.mp h
    obtain rfl := Except.ok.inj h
    exact ⟨rfl, rfl, by simpa using hinv, hresult⟩

/-- Every command is evaluated by applying its event. -/
theorem evaluateCommand_eq (current : State) (command : Command) : ∃ resultFactory,
    evaluateCommand current command =
      completeTransition (applyEvent current command.event) command.event resultFactory := by
  cases command <;> exact ⟨_, rfl⟩

/-- The event carries the command's fields, and it applies with the same result. -/
theorem evaluateCommand_ok {current : State} {command : Command} {evaluation : CommandEvaluation}
    (h : evaluateCommand current command = .ok evaluation) :
    evaluation.event = command.event ∧
      applyEvent current evaluation.event = .ok evaluation.prospectiveState ∧
      invariantsHold evaluation.prospectiveState = true := by
  obtain ⟨resultFactory, heq⟩ := evaluateCommand_eq current command
  rw [heq] at h
  obtain ⟨hstate, hevent, hinv, _⟩ := completeTransition_ok h
  refine ⟨hevent, ?_, hinv⟩
  rw [hevent]
  exact hstate

def Event.operation : Event → Operation
  | .tradeBooked value => .bookTrade value.tradeId value.bookId value.counterpartyId
      value.nettingSetId value.terms
  | .tradeConfirmed value => .confirmTrade value.tradeId value.expectedVersion value.postingIds
  | .tradeAmended value => .amendTrade value.tradeId value.expectedVersion value.replacementTerms
      value.reversalIds value.replacementPostingIds
  | .tradeCancelled value => .cancelTrade value.tradeId value.expectedVersion value.reversalIds
  | .eodRun value => .runEod value.asOfDate

theorem applyEvent_eq (state : State) (event : Event) :
    applyEvent state event = event.operation.apply state := by
  cases event <;> rfl

theorem applyEvent_step {state next : State} {event : Event}
    (h : applyEvent state event = .ok next) : state.Step next :=
  ⟨event.operation, by rw [← applyEvent_eq, h]⟩

theorem holds_of_getElem? {state : State} {tradeId : TradeId} {version : UInt32} {trade : Trade}
    {expected : TradeState}
    (ht : state.trades[(⟨tradeId, version⟩ : TradeVersionKey)]? = some trade)
    (hs : trade.state = expected) : state.holds tradeId version expected = true := by
  unfold State.holds State.findTrade
  rw [ht]
  simpa using hs

-- What each transition leaves under the versions it has touched.
section Held

variable {state next : State} {tradeId : TradeId} {version : UInt32}
  (hc : VersionChain state.trades state.currentVersions)

include hc

theorem bookTrade_holds {bookId : BookId} {counterpartyId : CounterpartyId}
    {nettingSetId : NettingSetId} {terms : FxTerms}
    (h : bookTrade state tradeId bookId counterpartyId nettingSetId terms = .ok next) :
    next.holds tradeId 1 .captured = true := by
  obtain ⟨_, _, rfl⟩ := bookTrade_ok hc h
  exact holds_of_getElem? Std.ExtTreeMap.getElem?_insert_self rfl

theorem confirmTrade_holds {postingIds : ConfirmationPostingIds}
    (h : confirmTrade state tradeId version postingIds = .ok next) :
    next.holds tradeId version .confirmed = true := by
  obtain ⟨current, _, _, _, hrun⟩ := confirmTrade_ok hc h
  rw [hrun.next_eq]
  exact holds_of_getElem? Std.ExtTreeMap.getElem?_insert_self rfl

/-- The replacement is stored under the next version, beside the version it supersedes. -/
theorem amendTrade_holds {terms : FxTerms} {reversalIds : ReversalPostingIds}
    {postingIds : ConfirmationPostingIds}
    (h : amendTrade state tradeId version terms reversalIds postingIds = .ok next) :
    next.holds tradeId version .superseded = true ∧
      next.holds tradeId (version + 1) .confirmed = true := by
  obtain ⟨current, _, _, _, _, _, _, _, _, hrun⟩ := amendTrade_ok hc h
  rw [hrun.next_eq]
  constructor
  · have hkey : (⟨tradeId, version⟩ : TradeVersionKey) ≠ ⟨tradeId, version + 1⟩ := by simp
    have hstored := Std.ExtTreeMap.getElem?_insert_self (t := state.trades)
      (k := ⟨tradeId, version⟩) (v := current.asSuperseded)
    refine holds_of_getElem? ?_ (rfl : current.asSuperseded.state = .superseded)
    rw [OrderedMap.getElem?_insert_eq, if_neg hkey, hstored]
  · exact holds_of_getElem? Std.ExtTreeMap.getElem?_insert_self rfl

theorem cancelTrade_holds {reversalIds : Option ReversalPostingIds}
    (h : cancelTrade state tradeId version reversalIds = .ok next) :
    next.holds tradeId version .cancelled = true := by
  obtain ⟨current, _, _, ⟨_, hnext⟩ | ⟨_, _, _, _, _, _, _, hrun⟩⟩ := cancelTrade_ok hc h
  · rw [hnext]
    exact holds_of_getElem? Std.ExtTreeMap.getElem?_insert_self rfl
  · rw [hrun.next_eq]
    exact holds_of_getElem? Std.ExtTreeMap.getElem?_insert_self rfl

end Held

/-- Narrowing a count that fits and widening it again gives the count. -/
theorem toUInt64_toUInt32 {count : UInt64} (h : ¬count > 4294967295) :
    count.toUInt32.toUInt64 = count := by
  apply UInt64.toNat_inj.mp
  have hle : count.toNat ≤ 4294967295 := by
    have hn := UInt64.not_lt.mp h
    simpa [UInt64.le_iff_toNat_le] using hn
  rw [UInt32.toNat_toUInt64, UInt64.toNat_toUInt32]
  exact Nat.mod_eq_of_lt (by omega)

/-- The result of an evaluation is the one replay checks for. -/
theorem evaluateCommand_matches {current : State} (hs : current.Coherent) {command : Command}
    {evaluation : CommandEvaluation} (h : evaluateCommand current command = .ok evaluation) :
    resultMatches evaluation.result evaluation.event current evaluation.prospectiveState =
      true := by
  cases command with
  | bookTrade value =>
    obtain ⟨hstate, hevent, _, hresult⟩ := completeTransition_ok h
    have hnew := bookTrade_holds hs.chain hstate
    rw [hevent, ← Except.ok.inj hresult]
    simp [resultMatches, resultStateVersion, hnew]
  | confirmTrade value =>
    obtain ⟨hstate, hevent, _, hresult⟩ := completeTransition_ok h
    have hnew := confirmTrade_holds hs.chain hstate
    rw [hevent, ← Except.ok.inj hresult]
    simp [resultMatches, resultStateVersion, hnew]
  | amendTrade value =>
    obtain ⟨hstate, hevent, _, hresult⟩ := completeTransition_ok h
    obtain ⟨hold, hnew⟩ := amendTrade_holds hs.chain hstate
    rw [hevent]
    split_ifs at hresult with hmax
    rw [← Except.ok.inj hresult]
    simp [resultMatches, resultStateVersion, hold, hnew]
  | cancelTrade value =>
    obtain ⟨hstate, hevent, _, hresult⟩ := completeTransition_ok h
    have hnew := cancelTrade_holds hs.chain hstate
    rw [hevent, ← Except.ok.inj hresult]
    simp [resultMatches, resultStateVersion, hnew]
  | runEod value =>
    obtain ⟨hstate, hevent, _, hresult⟩ := completeTransition_ok h
    rw [hevent]
    simp only at hresult
    split_ifs at hresult with hcount
    rw [← Except.ok.inj hresult]
    -- The count was narrowed only after it was seen to fit.
    have hfits := toUInt64_toUInt32 (not_or.mp hcount).2
    simp only [resultMatches, resultStateVersion, hfits, beq_self_eq_true, Bool.and_self]

end Backbook
