import Backbook.VersionChain

namespace Backbook

open Std

variable {state next : State}

theorem bookTrade_ok {tradeId : TradeId} {bookId : BookId} {counterpartyId : CounterpartyId}
    {nettingSetId : NettingSetId} {terms : FxTerms}
    (hc : VersionChain state.trades state.currentVersions)
    (h : bookTrade state tradeId bookId counterpartyId nettingSetId terms = .ok next) :
    state.currentVersions[tradeId]? = none ∧ state.version ≠ 18446744073709551615 ∧
      next = { state with
        version := state.version + 1
        trades := state.trades.insert ⟨tradeId, 1⟩
          (Trade.capture tradeId bookId counterpartyId nettingSetId terms)
        currentVersions := state.currentVersions.insert tradeId 1 } := by
  unfold bookTrade at h
  split_ifs at h with hdup
  have hnone : state.currentVersions[tradeId]? = none := ExtTreeMap.getElem?_eq_none hdup
  obtain ⟨hv, rfl⟩ := State.advanceVersion_ok_iff.mp h
  refine ⟨hnone, hv, ?_⟩
  simp only [Trade.capture]
  rw [OrderedMap.insertIfNew_eq_insert _ _ _ hnone,
    OrderedMap.insertIfNew_eq_insert _ _ _ (hc.none_of_current_none hnone 1)]

/-- What an expected version that is accepted says about the stored trade. -/
theorem State.requireCurrent_ok {tradeId : TradeId} {expectedVersion : UInt32} {current : Trade}
    (hc : VersionChain state.trades state.currentVersions)
    (h : state.requireCurrent tradeId expectedVersion = .ok current) :
    state.currentVersions[tradeId]? = some expectedVersion ∧
      state.trades[(⟨tradeId, expectedVersion⟩ : TradeVersionKey)]? = some current := by
  obtain ⟨hcur, hv⟩ := State.requireCurrent_ok_iff.mp h
  obtain ⟨version, hver, ht⟩ := State.currentTrade_eq_some_iff.mp hcur
  -- The version that was compared is the one the trade is stored under.
  have hstored : current.version = version := (hc.stored_version ht).1
  have he : version = expectedVersion := hstored.symm.trans hv
  rw [← he]
  exact ⟨hver, ht⟩

structure State.Confirmation (state next : State) (key : TradeVersionKey)
    (postingIds : ConfirmationPostingIds) (current : Trade) (limits : LimitHierarchy)
    (entry : LedgerEntry) (totals : LedgerTotals) : Prop where
  stored : state.trades[key]? = some current
  captured : current.state = .captured
  reserves : state.limits.reserve current.limitPath current.terms.pay = .ok limits
  built : buildConfirmationEntry { current with state := .confirmed } postingIds = .ok entry
  fresh : ∀ posting ∈ entry.postings, posting.id ∉ state.postingIds
  added : state.ledgerTotals.withEntry entry = .ok totals
  version_ne : state.version ≠ 18446744073709551615
  next_eq : next = { state with
    version := state.version + 1
    trades := state.trades.insert key { current with state := .confirmed }
    ledgerEntries := state.ledgerEntries ++ [entry]
    confirmationEntries := state.confirmationEntries.insertIfNew key state.ledgerEntries.length
    postingIds := insertPostingIds state.postingIds entry
    ledgerTotals := totals
    limits := limits }

theorem confirmTrade_ok {tradeId : TradeId} {expectedVersion : UInt32}
    {postingIds : ConfirmationPostingIds} (hc : VersionChain state.trades state.currentVersions)
    (h : confirmTrade state tradeId expectedVersion postingIds = .ok next) :
    ∃ current limits entry totals, state.Confirmation next ⟨tradeId, expectedVersion⟩ postingIds
      current limits entry totals := by
  simp only [confirmTrade, Outcome.bind_ok_iff, Outcome.mapError_ok_iff] at h
  obtain ⟨current, hcur, confirmed, happ, limits, hres, entry, hent, appended, hadd, h⟩ := h
  obtain ⟨_, ht⟩ := State.requireCurrent_ok hc hcur
  obtain ⟨hcap, rfl⟩ := Trade.apply_confirm_ok_iff.mp happ
  obtain ⟨hfresh, totals, htot, rfl⟩ := State.appendEntry_ok_iff.mp hadd
  obtain ⟨hv, rfl⟩ := State.advanceVersion_ok_iff.mp h
  refine ⟨current, limits, entry, totals, ht, hcap, hres, hent, hfresh, htot, hv, ?_⟩
  rw [storeAt, OrderedMap.modify_const_eq_insert _ _ _ _ ht]

structure State.Amendment (state next : State) (key : TradeVersionKey) (terms : FxTerms)
    (reversalIds : ReversalPostingIds) (postingIds : ConfirmationPostingIds) (current : Trade)
    (index : ℕ) (original reversal replacement : LedgerEntry) (released limits : LimitHierarchy)
    (totals totals' : LedgerTotals) : Prop where
  last : state.currentVersions[key.tradeId]? = some key.version
  stored : state.trades[key]? = some current
  confirmed : current.state = .confirmed
  key_ne : key.version ≠ 4294967295
  indexed : state.confirmationEntries[key]? = some index
  posted : state.ledgerEntries[index]? = some original
  releases : state.limits.release current.limitPath current.terms.pay = .ok released
  reserves : released.reserve current.limitPath terms.pay = .ok limits
  reverses : buildReversalEntry original reversalIds = .ok reversal
  built : buildConfirmationEntry (current.asReplacement terms) postingIds = .ok replacement
  fresh : ∀ posting ∈ reversal.postings, posting.id ∉ state.postingIds
  added : state.ledgerTotals.withEntry reversal = .ok totals
  fresh' : ∀ posting ∈ replacement.postings,
    posting.id ∉ insertPostingIds state.postingIds reversal
  added' : totals.withEntry replacement = .ok totals'
  version_ne : state.version ≠ 18446744073709551615
  next_eq : next = { state with
    version := state.version + 1
    trades := (state.trades.insert key current.asSuperseded).insert
      ⟨key.tradeId, key.version + 1⟩ (current.asReplacement terms)
    currentVersions := state.currentVersions.insert key.tradeId (key.version + 1)
    ledgerEntries := state.ledgerEntries ++ [reversal] ++ [replacement]
    confirmationEntries := state.confirmationEntries.insertIfNew ⟨key.tradeId, key.version + 1⟩
      (state.ledgerEntries ++ [reversal]).length
    postingIds := insertPostingIds (insertPostingIds state.postingIds reversal) replacement
    ledgerTotals := totals'
    limits := limits }

theorem amendTrade_ok {tradeId : TradeId} {expectedVersion : UInt32} {terms : FxTerms}
    {reversalIds : ReversalPostingIds} {postingIds : ConfirmationPostingIds}
    (hc : VersionChain state.trades state.currentVersions)
    (h : amendTrade state tradeId expectedVersion terms reversalIds postingIds = .ok next) :
    ∃ current index original reversal replacement released limits totals totals',
      state.Amendment next ⟨tradeId, expectedVersion⟩ terms reversalIds postingIds current index
        original reversal replacement released limits totals totals' := by
  obtain ⟨current, hcur, h⟩ := Outcome.bind_ok_iff.mp h
  split_ifs at h with hconf
  simp only [Outcome.bind_ok_iff, Outcome.mapError_ok_iff] at h
  obtain ⟨original, horig, released, hrel, amendment, ham, limits, hres,
    reversal, hrev, replacement, hrep, first, hadd, second, hadd', h⟩ := h
  obtain ⟨hver, ht⟩ := State.requireCurrent_ok hc hcur
  have hlv : current.version = expectedVersion := (hc.stored_version ht).1
  obtain ⟨hst, _, hmax, hsup, hnew⟩ := Trade.amend_ok_iff.mp ham
  obtain ⟨index, hidx, hled⟩ := State.confirmationEntry_ok_iff.mp horig
  rw [hsup, hnew] at hadd
  rw [hnew] at hres hrep h
  obtain ⟨hfresh, totals, htot, rfl⟩ := State.appendEntry_ok_iff.mp hadd
  obtain ⟨hfresh', totals', htot', rfl⟩ := State.appendEntry_ok_iff.mp hadd'
  obtain ⟨hv, rfl⟩ := State.advanceVersion_ok_iff.mp h
  rw [hlv] at hmax
  refine ⟨current, index, original, reversal, replacement, released, limits, totals, totals', hver,
    ht, hst, hmax, hidx, hled, hrel, hres, hrev, hrep, hfresh, htot, hfresh', htot', hv, ?_⟩
  have hversion : (current.asReplacement terms).version = expectedVersion + 1 := by
    rw [← hlv]
    rfl
  -- Both insertions behind the old version are of keys that were not there.
  have hnone : (state.trades.insert ⟨tradeId, expectedVersion⟩ current.asSuperseded)[
      (⟨tradeId, expectedVersion + 1⟩ : TradeVersionKey)]? = none := by
    rw [OrderedMap.getElem?_insert_eq, if_neg (by simp)]
    exact hc.none_of_next hver hmax
  simp only [storeAt, hversion]
  rw [OrderedMap.modify_const_eq_insert _ _ _ _ ht, OrderedMap.modify_const_eq_insert _ _ _ _ hver,
    OrderedMap.insertIfNew_eq_insert _ _ _ hnone]

structure State.Cancellation (state next : State) (key : TradeVersionKey)
    (ids : ReversalPostingIds) (current : Trade) (index : ℕ) (original reversal : LedgerEntry)
    (limits : LimitHierarchy) (totals : LedgerTotals) : Prop where
  confirmed : current.state = .confirmed
  indexed : state.confirmationEntries[key]? = some index
  posted : state.ledgerEntries[index]? = some original
  releases : state.limits.release current.limitPath current.terms.pay = .ok limits
  reverses : buildReversalEntry original ids = .ok reversal
  fresh : ∀ posting ∈ reversal.postings, posting.id ∉ state.postingIds
  added : state.ledgerTotals.withEntry reversal = .ok totals
  next_eq : next = { state with
    version := state.version + 1
    trades := state.trades.insert key { current with state := .cancelled }
    ledgerEntries := state.ledgerEntries ++ [reversal]
    postingIds := insertPostingIds state.postingIds reversal
    ledgerTotals := totals
    limits := limits }

/-- A cancellation takes one of two shapes. A captured version only changes its
state; a confirmed one is unwound. -/
theorem cancelTrade_ok {tradeId : TradeId} {expectedVersion : UInt32}
    {reversalIds : Option ReversalPostingIds}
    (hc : VersionChain state.trades state.currentVersions)
    (h : cancelTrade state tradeId expectedVersion reversalIds = .ok next) :
    ∃ current, state.trades[(⟨tradeId, expectedVersion⟩ : TradeVersionKey)]? = some current ∧
      state.version ≠ 18446744073709551615 ∧
      ((current.state = .captured ∧ next = { state with
          version := state.version + 1
          trades := state.trades.insert ⟨tradeId, expectedVersion⟩
            { current with state := .cancelled } }) ∨
        ∃ ids index original reversal limits totals, reversalIds = some ids ∧
          state.Cancellation next ⟨tradeId, expectedVersion⟩ ids current index original reversal
            limits totals) := by
  simp only [cancelTrade, Outcome.bind_ok_iff, Outcome.mapError_ok_iff] at h
  obtain ⟨current, hcur, cancelled, happ, h⟩ := h
  obtain ⟨_, ht⟩ := State.requireCurrent_ok hc hcur
  obtain ⟨hst, rfl⟩ := Trade.apply_cancel_ok_iff.mp happ
  have hstore := OrderedMap.modify_const_eq_insert state.trades _
    { current with state := TradeState.cancelled } _ ht
  split_ifs at h with hcap hids
  · obtain ⟨hv, rfl⟩ := State.advanceVersion_ok_iff.mp h
    refine ⟨current, ht, hv, Or.inl ⟨hcap, ?_⟩⟩
    rw [storeAt, hstore]
  · cases reversalIds with
    | none => cases h
    | some ids =>
      simp only [Outcome.bind_ok_iff, Outcome.mapError_ok_iff] at h
      obtain ⟨original, horig, limits, hrel, reversal, hrev, appended, hadd, h⟩ := h
      obtain ⟨index, hidx, hled⟩ := State.confirmationEntry_ok_iff.mp horig
      obtain ⟨hfresh, totals, htot, rfl⟩ := State.appendEntry_ok_iff.mp hadd
      obtain ⟨hv, rfl⟩ := State.advanceVersion_ok_iff.mp h
      refine ⟨current, ht, hv, Or.inr ⟨ids, index, original, reversal, limits, totals, rfl,
        hst.resolve_left hcap, hidx, hled, hrel, hrev, hfresh, htot, ?_⟩⟩
      rw [storeAt, hstore]

/-- What end of day selects: confirmed versions, each once. -/
theorem State.mem_eligible {asOfDate : IsoDate} {key : TradeVersionKey} :
    key ∈ state.eligible asOfDate ↔ ∃ trade, state.trades[key]? = some trade ∧
      trade.state = .confirmed ∧ trade.terms.valueDate ≤ asOfDate := by
  unfold State.eligible
  simp only [List.mem_map, List.mem_filter, Prod.exists, exists_and_right, exists_eq_right,
    ExtTreeMap.mem_toList_iff_getElem?_eq_some, decide_eq_true_eq]

theorem State.eligible_confirmed (asOfDate : IsoDate) : ∀ key ∈ state.eligible asOfDate,
    ∃ trade, state.trades[key]? = some trade ∧ trade.state = .confirmed := by
  intro key hk
  obtain ⟨trade, ht, hst, _⟩ := State.mem_eligible.mp hk
  exact ⟨trade, ht, hst⟩

/-- One pass of the settlement loop over a confirmed version. -/
theorem settleEach_cons {state : State} {key : TradeVersionKey} {trade : Trade}
    (ht : state.trades[key]? = some trade) (hst : trade.state = .confirmed)
    (keys : List TradeVersionKey) : settleEach (key :: keys) state =
      (state.limits.release trade.limitPath trade.terms.pay).mapError .limitFailure >>=
        fun released => settleEach keys { state with
          limits := released
          trades := state.trades.insert key { trade with state := .settled } } := by
  have happ : trade.apply .runEod = .ok { trade with state := .settled } :=
    Trade.apply_eod_ok_iff.mpr ⟨hst, rfl⟩
  simp only [settleEach, ht, happ, storeAt, OrderedMap.modify_const_eq_insert _ _ _ _ ht,
    Except.mapError, Outcome.ok_bind]

/-- Settling one version leaves the other selected versions confirmed. -/
theorem others_confirmed {trades : ExtTreeMap TradeVersionKey Trade} {key : TradeVersionKey}
    {keys : List TradeVersionKey} (hout : key ∉ keys)
    (hall : ∀ k ∈ key :: keys, ∃ trade : Trade, trades[k]? = some trade ∧ trade.state = .confirmed)
    (settled : Trade) : ∀ k ∈ keys,
      ∃ trade : Trade, (trades.insert key settled)[k]? = some trade ∧ trade.state = .confirmed := by
  intro k hk
  obtain ⟨other, ho, hst⟩ := hall k (List.mem_cons_of_mem _ hk)
  have hne : k ≠ key := by
    rintro rfl
    exact hout hk
  refine ⟨other, ?_, hst⟩
  rw [OrderedMap.getElem?_insert_eq, if_neg hne, ho]

theorem State.eligible_nodup (asOfDate : IsoDate) : (state.eligible asOfDate).Nodup := by
  -- A map binds every key once.
  have hkeys : (state.trades.toList.map Prod.fst).Nodup := by
    rw [List.Nodup, List.pairwise_map]
    refine (ExtTreeMap.distinct_keys_toList (t := state.trades)).imp ?_
    intro a b hab he
    exact hab (by rw [he]; exact ReflCmp.compare_self)
  exact hkeys.sublist ((List.filter_sublist).map _)

theorem runEod_ok {asOfDate : IsoDate} (h : runEod state asOfDate = .ok next) :
    (state.eligible asOfDate = [] ∧ next = state) ∨
    (state.eligible asOfDate ≠ [] ∧ ∃ settled obligations,
      settleEach (state.eligible asOfDate) state = .ok settled ∧
      deriveBilateralSettlements
        ((settled.trades.toList.map Prod.snd).filter (·.state = .settled)) = .ok obligations ∧
      settled.version ≠ 18446744073709551615 ∧
      next = { settled with version := settled.version + 1, settlements := obligations }) := by
  simp only [runEod] at h
  split_ifs at h with he
  · exact Or.inl ⟨he, (Except.ok.inj h).symm⟩
  · simp only [Outcome.bind_ok_iff, Outcome.mapError_ok_iff] at h
    obtain ⟨settled, hset, obligations, hob, h⟩ := h
    obtain ⟨hv, rfl⟩ := State.advanceVersion_ok_iff.mp h
    exact Or.inr ⟨he, settled, obligations, hset, hob, hv, rfl⟩

end Backbook
