import Backbook.HistoryFrames
import Backbook.ServiceEvaluator

namespace Backbook

open Std

def Event.command : Event → Command
  | .tradeBooked value => .bookTrade ⟨value.tradeId, value.bookId, value.counterpartyId,
      value.nettingSetId, value.terms⟩
  | .tradeConfirmed value => .confirmTrade ⟨value.tradeId, value.expectedVersion, value.postingIds⟩
  | .tradeAmended value => .amendTrade ⟨value.tradeId, value.expectedVersion,
      value.replacementTerms, value.reversalIds, value.replacementPostingIds⟩
  | .tradeCancelled value => .cancelTrade ⟨value.tradeId, value.expectedVersion, value.reversalIds⟩
  | .eodRun value => .runEod ⟨value.asOfDate⟩

@[simp] theorem Command.event_command (command : Command) : command.event.command = command := by
  cases command <;> rfl

def Event.result (before after : State) : Event → CommandResult
  | .tradeBooked value => .tradeBooked ⟨value.tradeId, 1, after.version⟩
  | .tradeConfirmed value => .tradeConfirmed ⟨value.tradeId, value.expectedVersion, after.version⟩
  | .tradeAmended value => .tradeAmended ⟨value.tradeId, value.expectedVersion,
      value.expectedVersion + 1, after.version⟩
  | .tradeCancelled value => .tradeCancelled ⟨value.tradeId, value.expectedVersion, after.version⟩
  | .eodRun value => .eodRun ⟨value.asOfDate,
      (settledTradeCount after - settledTradeCount before).toUInt32, after.version⟩

variable {limits : LimitHierarchy} {state next : State} {asOfDate : IsoDate}

/-- The operations change limits by reservations and releases only. -/
theorem State.Reachable.limits_built (hb : limits.Built) (h : state.Reachable limits) :
    state.limits.Built := by
  apply h.keeps (P := fun p => p.limits.Built) hb
  intro p q hp hm
  cases hm with
  | capture _ _ => exact hp
  | discard _ _ => exact hp
  | enter _ _ _ hres _ _ => exact hp.reserve hres
  | leave _ _ _ _ _ hrel _ _ _ _ _ => exact hp.release hrel
  | settle _ _ hrel => exact hp.release hrel

/-- No reachable state fails the checks of the evaluator. -/
theorem State.Reachable.invariantsHold (hb : limits.Built) (h : state.Reachable limits) :
    Backbook.invariantsHold state = true := by
  have hzero := recomputeLedgerTotals_eq_zero state.ledgerEntries
  have htotals := h.coherent.totals
  unfold Backbook.invariantsHold
  rw [hzero]
  simp only [htotals, ne_eq, not_true_eq_false, if_false, List.all_eq_true]
  -- Every reported balance is a stored one, and those stay within capacity.
  intro snapshot hmem
  obtain ⟨⟨key, balance⟩, hbound, rfl⟩ := List.mem_map.mp hmem
  have hkey : state.limits.balances[key]? = some balance :=
    ExtTreeMap.mem_toList_iff_getElem?_eq_some.mp hbound
  have hwithin := (h.limits_built hb).within key balance hkey
  simp only [Bool.not_eq_true', Bool.or_eq_false_iff, decide_eq_false_iff_not]
  omega

/-- Every stored version took a state version of its own. -/
theorem Operation.size_le {operation : Operation} (hs : state.Coherent)
    (h : operation.apply state = .ok next) : next.trades.size ≤ state.trades.size + 1 := by
  -- Only a booking and an amendment store under a key that was free.
  have hbound {key : TradeVersionKey} {old new : Trade} (hk : state.trades[key]? = some old) :
      (state.trades.insert key new).size = state.trades.size := by
    have hmem : state.trades.contains key = true := by
      rw [ExtTreeMap.contains_eq_isSome_getElem?, hk]
      rfl
    rw [ExtTreeMap.size_insert, if_pos hmem]
  cases operation with
  | bookTrade tradeId bookId counterpartyId nettingSetId terms =>
    obtain ⟨_, _, rfl⟩ := bookTrade_ok hs.chain h
    exact ExtTreeMap.size_insert_le
  | confirmTrade tradeId expectedVersion postingIds =>
    obtain ⟨current, _, _, _, hrun⟩ := confirmTrade_ok hs.chain h
    rw [hrun.next_eq]
    exact (hbound hrun.stored).le.trans (Nat.le_succ _)
  | amendTrade tradeId expectedVersion terms reversalIds postingIds =>
    obtain ⟨current, _, _, _, _, _, _, _, _, hrun⟩ := amendTrade_ok hs.chain h
    rw [hrun.next_eq, ← @hbound _ _ current.asSuperseded hrun.stored]
    exact ExtTreeMap.size_insert_le
  | cancelTrade tradeId expectedVersion reversalIds =>
    obtain ⟨current, ht, _, hcase⟩ := cancelTrade_ok hs.chain h
    rcases hcase with ⟨_, hnext⟩ | ⟨_, _, _, _, _, _, _, hrun⟩
    · rw [hnext]
      exact (hbound ht).le.trans (Nat.le_succ _)
    · rw [hrun.next_eq]
      exact (hbound ht).le.trans (Nat.le_succ _)
  | runEod date =>
    rw [runEod_trades hs h, ExtTreeMap.size_map]
    exact Nat.le_succ _

theorem State.Reachable.size_le_version (h : state.Reachable limits) :
    state.trades.size ≤ state.version.toNat := by
  have hboth : state.Coherent ∧ state.trades.size ≤ state.version.toNat := by
    refine RunHistory.invariant_of_steps (P := fun s : State => s.Coherent ∧
      s.trades.size ≤ s.version.toNat) ⟨.initial limits, ?_⟩ ?_ h
    · exact Nat.zero_le _
    · rintro s t ⟨hs, hle⟩ hstep
      refine ⟨hs.step hstep, ?_⟩
      obtain ⟨operation, happly⟩ := hstep
      rcases Operation.version_cases hs happly with ⟨_, rfl⟩ | ⟨_, hv, hnext⟩
      · exact hle
      · have hsize := Operation.size_le hs happly
        rw [hnext, toNat_next_version hv]
        omega
  exact hboth.2

def State.settledCount (state : State) : ℕ :=
  (state.trades.toList.filter (·.2.state = .settled)).length

theorem State.settledCount_le (state : State) : state.settledCount ≤ state.trades.size := by
  unfold State.settledCount
  rw [← ExtTreeMap.length_toList]
  exact List.length_filter_le _ _

theorem State.eligible_length_le (state : State) (asOfDate : IsoDate) :
    (state.eligible asOfDate).length ≤ state.trades.size := by
  unfold State.eligible
  rw [List.length_map, ← ExtTreeMap.length_toList]
  exact List.length_filter_le _ _

/-- A run settles what it selected, on top of what was settled. -/
theorem settledCount_endOfDay (bindings : List (TradeVersionKey × Trade)) :
    ((bindings.map fun p => (p.1, p.2.endOfDay asOfDate)).filter
        (·.2.state = .settled)).length =
      (bindings.filter (·.2.state = .settled)).length +
        (bindings.filter fun p =>
          p.2.state = .confirmed ∧ p.2.terms.valueDate ≤ asOfDate).length := by
  induction bindings with
  | nil => rfl
  | cons p bindings ih =>
    rw [List.map_cons, List.filter_cons, List.filter_cons, List.filter_cons]
    -- The head joins the settled ones when it is selected, and keeps its state when not.
    by_cases hsel : p.2.state = .confirmed ∧ p.2.terms.valueDate ≤ asOfDate
    · have hset : (p.2.endOfDay asOfDate).state = .settled := by
        rw [Trade.endOfDay_selected hsel.1 hsel.2]
      simp only [hset, hsel, and_self, reduceCtorEq, decide_true, decide_false, if_true, if_false,
        Bool.false_eq_true, List.length_cons, ih]
      omega
    · have hkept : p.2.endOfDay asOfDate = p.2 := by rw [Trade.endOfDay, if_neg hsel]
      rw [hkept]
      by_cases hset : p.2.state = .settled
      · simp only [hset, reduceCtorEq, false_and, decide_true, decide_false, if_true, if_false,
          Bool.false_eq_true, List.length_cons, ih]
        omega
      · simp only [hset, hsel, decide_false, if_false, Bool.false_eq_true, ih]

theorem runEod_settledCount (hs : state.Coherent) (h : runEod state asOfDate = .ok next) :
    next.settledCount = state.settledCount + (state.eligible asOfDate).length := by
  unfold State.settledCount State.eligible
  rw [runEod_trades hs h, ExtTreeMap.toList_map, List.length_map]
  exact settledCount_endOfDay _

/-- The wrapping count of the source is the exact one in a reachable state. -/
theorem State.Reachable.settledTradeCount (h : state.Reachable limits) :
    (Backbook.settledTradeCount state).toNat = state.settledCount := by
  have hle := state.settledCount_le.trans h.size_le_version
  have hlt := state.version.toNat_lt
  unfold Backbook.settledTradeCount
  rw [UInt64.toNat_ofNat']
  exact Nat.mod_eq_of_lt (by unfold State.settledCount at hle; omega)

/-- The difference of two counts is the number of versions that settled. -/
theorem runEod_settledTradeCount (hr : state.Reachable limits)
    (h : runEod state asOfDate = .ok next) :
    Backbook.settledTradeCount state ≤ Backbook.settledTradeCount next ∧
      (Backbook.settledTradeCount next - Backbook.settledTradeCount state).toNat =
        (state.eligible asOfDate).length := by
  have hnext : next.Reachable limits := hr.tail ⟨.runEod asOfDate, h⟩
  -- Below 2^64 the counts of the source are exact, so their difference is too.
  have hcount := runEod_settledCount hr.coherent h
  rw [← hr.settledTradeCount, ← hnext.settledTradeCount] at hcount
  have hle : Backbook.settledTradeCount state ≤ Backbook.settledTradeCount next := by
    rw [UInt64.le_iff_toNat_le]
    omega
  refine ⟨hle, ?_⟩
  rw [UInt64.toNat_sub_of_le _ _ hle]
  omega

def Event.Countable (state : State) (event : Event) : Prop :=
  ∀ value, event = .eodRun value → (state.eligible value.asOfDate).length < 2 ^ 32

/-- An event that applies is evaluated to its result. -/
theorem evaluateCommand_of_applyEvent {event : Event} (hb : limits.Built)
    (hr : state.Reachable limits) (h : applyEvent state event = .ok next)
    (hn : event.Countable state) :
    evaluateCommand state event.command = .ok ⟨next, event, event.result state next⟩ := by
  have hinv : invariantsHold next = true :=
    State.Reachable.invariantsHold hb (hr.tail (applyEvent_step h))
  -- What the five commands share: apply, check, then build the result.
  have hcomplete (factory : State → Except CommandEvaluationError CommandResult)
      (hf : factory next = .ok (event.result state next)) :
      completeTransition (applyEvent state event) event factory =
        .ok ⟨next, event, event.result state next⟩ := by
    rw [h]
    simp only [completeTransition, hinv, Bool.not_true, Bool.false_eq_true, if_false, hf,
      Outcome.ok_bind]
  cases event with
  | tradeBooked value => exact hcomplete _ rfl
  | tradeConfirmed value => exact hcomplete _ rfl
  | tradeAmended value =>
    refine hcomplete _ ?_
    obtain ⟨_, _, _, _, _, _, _, _, _, hrun⟩ := amendTrade_ok hr.coherent.chain h
    exact if_neg hrun.key_ne
  | tradeCancelled value => exact hcomplete _ rfl
  | eodRun value =>
    refine hcomplete _ ?_
    obtain ⟨hle, hdiff⟩ := runEod_settledTradeCount hr h
    have hlt := hn value rfl
    refine if_neg (not_or.mpr ⟨UInt64.not_lt.mpr hle, ?_⟩)
    rw [gt_iff_lt, UInt64.lt_iff_toNat_lt, hdiff]
    simp only [UInt64.reduceToNat]
    omega

/-- A result that matches is the result of the event. -/
theorem eq_result_of_resultMatches {result : CommandResult} {event : Event}
    (h : resultMatches result event state next = true) : result = event.result state next := by
  unfold resultMatches at h
  rw [Bool.and_eq_true, beq_iff_eq] at h
  obtain ⟨hversion, hfields⟩ := h
  -- Results and events of different kinds never match.
  cases result <;> cases event <;>
    simp only [Bool.false_eq_true, Bool.and_eq_true, beq_iff_eq, resultStateVersion]
      at hversion hfields
  · obtain ⟨⟨hid, hone⟩, _⟩ := hfields
    simp only [Event.result, hid, ← hversion, ← hone]
  · obtain ⟨⟨hid, hone⟩, _⟩ := hfields
    simp only [Event.result, hid, ← hversion, ← hone]
  · obtain ⟨⟨⟨⟨hid, hold⟩, hnew⟩, _⟩, _⟩ := hfields
    rw [← hold] at hnew
    simp only [Event.result, hid, ← hversion, ← hold, ← hnew]
  · obtain ⟨⟨hid, hone⟩, _⟩ := hfields
    simp only [Event.result, hid, ← hversion, ← hone]
  · obtain ⟨hdate, hcount⟩ := hfields
    simp only [Event.result, hdate, ← hversion, ← hcount, UInt32.toUInt32_toUInt64]

theorem resultMatches_iff {result : CommandResult} {event : Event} (hb : limits.Built)
    (hr : state.Reachable limits) (h : applyEvent state event = .ok next)
    (hn : event.Countable state) :
    resultMatches result event state next = true ↔ result = event.result state next := by
  constructor
  · exact eq_result_of_resultMatches
  · rintro rfl
    exact evaluateCommand_matches hr.coherent (evaluateCommand_of_applyEvent hb hr h hn)

/-- Live evaluation and replay agree. What is evaluated applies as an event with
the same state. An event that applies is accepted with exactly one result, the one
its command is evaluated to, and any other is reported as a mismatch. -/
theorem evaluation_agrees_with_replay :
    (∀ (state : State) (command : Command) (evaluation : CommandEvaluation),
      evaluateCommand state command = .ok evaluation →
      evaluation.event = command.event ∧
        applyEvent state evaluation.event = .ok evaluation.prospectiveState) ∧
    ∀ (definitions : List LimitDefinition) (limits : LimitHierarchy) (state next : State)
      (event : Event), LimitHierarchy.create definitions = .ok limits →
      state.Reachable limits → applyEvent state event = .ok next → event.Countable state →
      (∀ result, resultMatches result event state next = true ↔
        ∃ evaluation, evaluateCommand state event.command = .ok evaluation ∧
          evaluation.result = result) ∧
      ∃ result, ∀ batch : CommandBatch, batch.events = [event] →
        replayBatch state batch.sequence batch =
          if batch.result = result then .ok next
          else .error (replayError .resultMismatch batch.sequence batch.sequence 0) := by
  refine ⟨fun state command evaluation h => ?_, ?_⟩
  · obtain ⟨hevent, happly, _⟩ := evaluateCommand_ok h
    exact ⟨hevent, happly⟩
  intro definitions limits state next event hc hr h hn
  have hb : limits.Built := .create hc
  have heval := evaluateCommand_of_applyEvent hb hr h hn
  refine ⟨fun result => ?_, event.result state next, ?_⟩
  · rw [resultMatches_iff hb hr h hn, heval]
    constructor
    · rintro rfl
      exact ⟨_, rfl, rfl⟩
    · rintro ⟨evaluation, he, rfl⟩
      rw [← Except.ok.inj he]
  · intro batch hevents
    unfold replayBatch
    rw [if_neg (not_not.mpr rfl), hevents]
    simp only [h]
    by_cases hresult : batch.result = event.result state next
    · rw [if_pos hresult, (resultMatches_iff hb hr h hn).mpr hresult]
      rfl
    · have hmatch : resultMatches batch.result event state next = false := by
        rw [Bool.eq_false_iff, ne_eq, resultMatches_iff hb hr h hn]
        exact hresult
      rw [if_neg hresult, hmatch]
      rfl

theorem evaluation_agrees_with_replay_sample : ∃ (before state : State) (event : Event),
    event.index = 1 ∧ applyEvent before event = .ok state ∧
    ∃ result, ∀ batch : CommandBatch, batch.events = [event] →
      replayBatch before batch.sequence batch =
        if batch.result = result then .ok state
        else .error (replayError .resultMismatch batch.sequence batch.sequence 0) := by
  let event : Event := .tradeConfirmed ⟨sampleId .trade, 1, samplePostingIds⟩
  have hrun : (do
      let limits ← (LimitHierarchy.create sampleDefinitions).mapError StateError.limitFailure
      let before ← Operation.apply (State.initial limits) sampleOperations[0]
      applyEvent before event : Except StateError State).isOk = true := by
    decide +kernel
  obtain ⟨state, h⟩ := ok_of_isOk hrun
  simp only [Outcome.bind_ok_iff, Outcome.mapError_ok_iff] at h
  obtain ⟨limits, hl, before, hb, happly⟩ := h
  have hr : before.Reachable limits := .single ⟨_, hb⟩
  have hcount : event.Countable before := by
    intro value heq
    have hindex : (1 : ℕ) = 4 := congrArg Event.index heq
    omega
  have hagree := evaluation_agrees_with_replay.2 _ limits before state event hl hr happly hcount
  exact ⟨before, state, event, rfl, happly, hagree.2⟩

end Backbook
