import Backbook.DomainTotals
import Backbook.DomainPostingPolicy
import Backbook.DomainLimits
import Backbook.DomainSettlement

/-! The domain state and its five operations. An operation checks and builds
everything first and returns a complete new state, or an error and no state. -/
namespace Backbook

open Std

structure TradeVersionKey where
  tradeId : TradeId
  version : UInt32
deriving DecidableEq

instance : Ord TradeVersionKey :=
  ⟨compareLex (compareOn TradeVersionKey.tradeId) (compareOn TradeVersionKey.version)⟩

instance : TransOrd TradeVersionKey := inferInstanceAs (TransCmp
  (compareLex (compareOn TradeVersionKey.tradeId) (compareOn TradeVersionKey.version)))

instance : LawfulEqOrd TradeVersionKey where
  eq_of_compare {a b} h := by
    obtain ⟨hi, hv⟩ := compareLex_eq_eq.mp h
    simp only [compareOn, LawfulEqCmp.compare_eq_iff_eq] at hi hv
    cases a
    cases b
    simp_all

/-- Each code with the payload that its constructor in the source sets. -/
inductive StateError
  | duplicateTradeId
  | tradeNotFound
  | versionConflict (expectedVersion actualVersion : UInt32)
  | illegalTransition (failure : LifecycleError)
  | amendmentFailure (failure : TradeError)
  | limitFailure (failure : LimitError)
  | postingPolicyFailure (failure : PostingPolicyError)
  | duplicatePostingId
  | missingConfirmationEntry
  | missingReversalIds
  | unexpectedReversalIds
  | ledgerTotalsFailure (failure : LedgerTotalsError)
  | settlementFailure (failure : SettlementError)
  | stateVersionOverflow
deriving DecidableEq

@[ext] structure State where
  version : UInt64
  trades : ExtTreeMap TradeVersionKey Trade
  currentVersions : ExtTreeMap TradeId UInt32
  ledgerEntries : List LedgerEntry
  confirmationEntries : ExtTreeMap TradeVersionKey ℕ
  postingIds : ExtTreeSet PostingId
  ledgerTotals : LedgerTotals
  limits : LimitHierarchy
  settlements : List SettlementObligation

def State.initial (limits : LimitHierarchy) : State :=
  ⟨0, ∅, ∅, [], ∅, ∅, LedgerTotals.zero, limits, []⟩

def Trade.limitPath (trade : Trade) : LimitPath :=
  ⟨trade.counterpartyId, trade.nettingSetId, trade.bookId⟩

def State.findTrade (state : State) (tradeId : TradeId) (version : UInt32) : Option Trade :=
  state.trades[(⟨tradeId, version⟩ : TradeVersionKey)]?

def State.currentTrade (state : State) (tradeId : TradeId) : Option Trade := do
  let current ← state.currentVersions[tradeId]?
  state.findTrade tradeId current

def State.requireCurrent (state : State) (tradeId : TradeId) (expectedVersion : UInt32) :
    Except StateError Trade :=
  match state.currentTrade tradeId with
  | none => .error .tradeNotFound
  | some current =>
    if current.version ≠ expectedVersion then
      .error (.versionConflict expectedVersion current.version)
    else .ok current

/-- The entry an index slot points to. The source reads its vector unchecked
after the lookup; a position outside the ledger counts as missing here. -/
def State.confirmationEntry (state : State) (key : TradeVersionKey) :
    Except StateError LedgerEntry :=
  match state.confirmationEntries[key]?.bind (state.ledgerEntries[·]?) with
  | none => .error .missingConfirmationEntry
  | some entry => .ok entry

def insertPostingIds (postingIds : ExtTreeSet PostingId) (entry : LedgerEntry) :
    ExtTreeSet PostingId :=
  entry.postings.foldl (fun ids posting => ids.insert posting.id) postingIds

def State.appendEntry (state : State) (entry : LedgerEntry) : Except StateError State :=
  if entry.postings.any fun posting => posting.id ∈ state.postingIds then
    .error .duplicatePostingId
  else do
    let totals ← (state.ledgerTotals.withEntry entry).mapError .ledgerTotalsFailure
    .ok { state with
      postingIds := insertPostingIds state.postingIds entry
      ledgerTotals := totals
      ledgerEntries := state.ledgerEntries ++ [entry] }

def State.advanceVersion (state : State) : Except StateError State :=
  if state.version = 18446744073709551615 then .error .stateVersionOverflow
  else .ok { state with version := state.version + 1 }

def bookTrade (state : State) (tradeId : TradeId) (bookId : BookId)
    (counterpartyId : CounterpartyId) (nettingSetId : NettingSetId) (terms : FxTerms) :
    Except StateError State :=
  if tradeId ∈ state.currentVersions then .error .duplicateTradeId
  else
    let captured := Trade.capture tradeId bookId counterpartyId nettingSetId terms
    State.advanceVersion { state with
      trades := state.trades.insertIfNew ⟨tradeId, captured.version⟩ captured
      currentVersions := state.currentVersions.insertIfNew tradeId captured.version }

/-- Stores at a key as `map::at` does, which throws where the key is not bound. -/
def storeAt {κ υ : Type} [Ord κ] [TransOrd κ] (map : ExtTreeMap κ υ) (key : κ) (value : υ) :
    ExtTreeMap κ υ :=
  map.modify key fun _ => value

def confirmTrade (state : State) (tradeId : TradeId) (expectedVersion : UInt32)
    (postingIds : ConfirmationPostingIds) : Except StateError State := do
  let current ← state.requireCurrent tradeId expectedVersion
  let confirmed ← (current.apply .confirmTrade).mapError .illegalTransition
  let reserved ← (state.limits.reserve current.limitPath current.terms.pay).mapError .limitFailure
  let entry ← (buildConfirmationEntry confirmed postingIds).mapError .postingPolicyFailure
  let key : TradeVersionKey := ⟨tradeId, expectedVersion⟩
  let entryIndex := state.ledgerEntries.length
  let next ← State.appendEntry
    { state with limits := reserved, trades := storeAt state.trades key confirmed } entry
  State.advanceVersion
    { next with confirmationEntries := next.confirmationEntries.insertIfNew key entryIndex }

/-- The old reservation is released before the replacement is reserved, and
reversal and rebook enter the new state together. -/
def amendTrade (state : State) (tradeId : TradeId) (expectedVersion : UInt32)
    (replacementTerms : FxTerms) (reversalIds : ReversalPostingIds)
    (replacementPostingIds : ConfirmationPostingIds) : Except StateError State := do
  let current ← state.requireCurrent tradeId expectedVersion
  if current.state ≠ .confirmed then .error (.illegalTransition .illegalTransition)
  else do
    let currentKey : TradeVersionKey := ⟨tradeId, expectedVersion⟩
    let original ← state.confirmationEntry currentKey
    let released ← (state.limits.release current.limitPath current.terms.pay).mapError .limitFailure
    let amendment ← (current.amend replacementTerms).mapError .amendmentFailure
    -- Headroom for the replacement is asked after the old amount is free.
    let reserved ← (released.reserve amendment.replacement.limitPath
      amendment.replacement.terms.pay).mapError .limitFailure
    let reversal ← (buildReversalEntry original reversalIds).mapError .postingPolicyFailure
    let replacement ← (buildConfirmationEntry amendment.replacement
      replacementPostingIds).mapError .postingPolicyFailure
    let replacementKey : TradeVersionKey := ⟨tradeId, amendment.replacement.version⟩
    let next ← State.appendEntry { state with
      limits := reserved
      trades := (storeAt state.trades currentKey amendment.superseded).insertIfNew replacementKey
        amendment.replacement
      currentVersions := storeAt state.currentVersions tradeId replacementKey.version } reversal
    let replacementIndex := next.ledgerEntries.length
    let next ← next.appendEntry replacement
    State.advanceVersion { next with
      confirmationEntries := next.confirmationEntries.insertIfNew replacementKey replacementIndex }

/-- A captured trade has never posted, so its cancellation reverses and releases
nothing. -/
def cancelTrade (state : State) (tradeId : TradeId) (expectedVersion : UInt32)
    (reversalIds : Option ReversalPostingIds) : Except StateError State := do
  let current ← state.requireCurrent tradeId expectedVersion
  let cancelled ← (current.apply .cancelTrade).mapError .illegalTransition
  let key : TradeVersionKey := ⟨tradeId, expectedVersion⟩
  if current.state = .captured then
    if reversalIds.isSome then .error .unexpectedReversalIds
    else State.advanceVersion { state with trades := storeAt state.trades key cancelled }
  else
    match reversalIds with
    | none => .error .missingReversalIds
    | some reversalIds => do
      let original ← state.confirmationEntry key
      let released ←
        (state.limits.release current.limitPath current.terms.pay).mapError .limitFailure
      let reversal ← (buildReversalEntry original reversalIds).mapError .postingPolicyFailure
      let next ← State.appendEntry
        { state with limits := released, trades := storeAt state.trades key cancelled } reversal
      next.advanceVersion

def State.eligible (state : State) (asOfDate : IsoDate) : List TradeVersionKey :=
  (state.trades.toList.filter fun (_, trade) =>
    trade.state = .confirmed ∧ trade.terms.valueDate ≤ asOfDate).map Prod.fst

def settleEach : List TradeVersionKey → State → Except StateError State
  | [], next => .ok next
  | key :: keys, next =>
    match next.trades[key]? with
    -- Every key comes from this map, so the lookup of the source cannot throw.
    | none => settleEach keys next
    | some trade => do
      let released ← (next.limits.release trade.limitPath trade.terms.pay).mapError .limitFailure
      let settled ← (trade.apply .runEod).mapError .illegalTransition
      settleEach keys
        { next with limits := released, trades := storeAt next.trades key settled }

def runEod (state : State) (asOfDate : IsoDate) : Except StateError State :=
  let eligible := state.eligible asOfDate
  if eligible = [] then .ok state
  else do
    let next ← settleEach eligible state
    let settledTrades := (next.trades.toList.map Prod.snd).filter (·.state = .settled)
    let obligations ← (deriveBilateralSettlements settledTrades).mapError .settlementFailure
    State.advanceVersion { next with settlements := obligations }

inductive Operation
  | bookTrade (tradeId : TradeId) (bookId : BookId) (counterpartyId : CounterpartyId)
      (nettingSetId : NettingSetId) (terms : FxTerms)
  | confirmTrade (tradeId : TradeId) (expectedVersion : UInt32)
      (postingIds : ConfirmationPostingIds)
  | amendTrade (tradeId : TradeId) (expectedVersion : UInt32) (replacementTerms : FxTerms)
      (reversalIds : ReversalPostingIds) (replacementPostingIds : ConfirmationPostingIds)
  | cancelTrade (tradeId : TradeId) (expectedVersion : UInt32)
      (reversalIds : Option ReversalPostingIds)
  | runEod (asOfDate : IsoDate)
deriving DecidableEq

def Operation.apply (state : State) : Operation → Except StateError State
  | .bookTrade tradeId bookId counterpartyId nettingSetId terms =>
    Backbook.bookTrade state tradeId bookId counterpartyId nettingSetId terms
  | .confirmTrade tradeId expectedVersion postingIds =>
    Backbook.confirmTrade state tradeId expectedVersion postingIds
  | .amendTrade tradeId expectedVersion replacementTerms reversalIds replacementPostingIds =>
    Backbook.amendTrade state tradeId expectedVersion replacementTerms reversalIds
      replacementPostingIds
  | .cancelTrade tradeId expectedVersion reversalIds =>
    Backbook.cancelTrade state tradeId expectedVersion reversalIds
  | .runEod asOfDate => Backbook.runEod state asOfDate

theorem State.currentTrade_eq_some_iff {state : State} {tradeId : TradeId} {trade : Trade} :
    state.currentTrade tradeId = some trade ↔ ∃ current,
      state.currentVersions[tradeId]? = some current ∧
      state.trades[(⟨tradeId, current⟩ : TradeVersionKey)]? = some trade := by
  unfold State.currentTrade State.findTrade
  cases state.currentVersions[tradeId]? <;> simp

theorem State.requireCurrent_ok_iff {state : State} {tradeId : TradeId}
    {expectedVersion : UInt32} {current : Trade} :
    state.requireCurrent tradeId expectedVersion = .ok current ↔
      state.currentTrade tradeId = some current ∧ current.version = expectedVersion := by
  unfold State.requireCurrent
  cases hc : state.currentTrade tradeId with
  | none => simp
  | some trade =>
    simp only [Option.some.injEq]
    split_ifs with hv
    · simp only [false_iff, not_and]
      rintro rfl
      exact hv
    · simp only [Except.ok.injEq, iff_self_and]
      rintro rfl
      exact not_not.mp hv

theorem State.confirmationEntry_ok_iff {state : State} {key : TradeVersionKey}
    {entry : LedgerEntry} : state.confirmationEntry key = .ok entry ↔ ∃ index,
      state.confirmationEntries[key]? = some index ∧
      state.ledgerEntries[index]? = some entry := by
  unfold State.confirmationEntry
  cases hk : state.confirmationEntries[key]? with
  | none => simp
  | some index => cases hl : state.ledgerEntries[index]? <;> simp [hl]

theorem mem_insertPostingIds (postingIds : ExtTreeSet PostingId) (entry : LedgerEntry)
    (id : PostingId) : id ∈ insertPostingIds postingIds entry ↔
      id ∈ entry.postings.map Posting.id ∨ id ∈ postingIds := by
  unfold insertPostingIds
  induction entry.postings generalizing postingIds with
  | nil => simp
  | cons posting postings ih =>
    rw [List.foldl_cons, ih, ExtTreeSet.mem_insert, LawfulEqCmp.compare_eq_iff_eq, List.map_cons,
      List.mem_cons]
    tauto

/-- An append adds one entry of fresh identifiers and nothing else. -/
theorem State.appendEntry_ok_iff {state next : State} {entry : LedgerEntry} :
    state.appendEntry entry = .ok next ↔
      (∀ posting ∈ entry.postings, posting.id ∉ state.postingIds) ∧
      ∃ totals, state.ledgerTotals.withEntry entry = .ok totals ∧
        next = { state with
          postingIds := insertPostingIds state.postingIds entry
          ledgerTotals := totals
          ledgerEntries := state.ledgerEntries ++ [entry] } := by
  unfold State.appendEntry
  split_ifs with hd
  · simp only [List.any_eq_true, decide_eq_true_eq] at hd
    obtain ⟨posting, hm, hin⟩ := hd
    simp only [false_iff, not_and]
    exact fun hfresh => absurd hin (hfresh posting hm)
  · simp only [List.any_eq_true, decide_eq_true_eq, not_exists, not_and] at hd
    simp only [Outcome.bind_ok_iff, Outcome.mapError_ok_iff, Except.ok.injEq, @eq_comm _ _ next]
    exact ⟨fun h => ⟨hd, h⟩, fun h => h.2⟩

theorem State.advanceVersion_ok_iff {state next : State} : state.advanceVersion = .ok next ↔
    state.version ≠ 18446744073709551615 ∧ next = { state with version := state.version + 1 } := by
  unfold State.advanceVersion
  split_ifs with hv
  · simp [hv]
  · simp [hv, eq_comm]

theorem State.advanceVersion_error {state : State} {e : StateError}
    (h : state.advanceVersion = .error e) : e = .stateVersionOverflow := by
  unfold State.advanceVersion at h
  split_ifs at h
  exact (Except.error.inj h).symm

end Backbook
