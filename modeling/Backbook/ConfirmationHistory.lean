import Backbook.ReachableStates

namespace Backbook

open Std Relation RunHistory

variable {limits : LimitHierarchy} {state next : State} {past : List State}

def State.confirms (key : TradeVersionKey) (state : State) : Prop :=
  ∃ trade, state.trades[key]? = some trade ∧ trade.state = .confirmed

/-- A new entry of the index belongs to a version that is stored as confirmed. -/
theorem insertIfNew_index_cases {index : ExtTreeMap TradeVersionKey ℕ} {k key : TradeVersionKey}
    {n : ℕ} {trades : ExtTreeMap TradeVersionKey Trade} {trade : Trade}
    (hst : trade.state = .confirmed) : (index.insertIfNew k n)[key]? = index[key]? ∨
      index[key]? = none ∧ ∃ t : Trade, (trades.insert k trade)[key]? = some t ∧
        t.state = .confirmed := by
  by_cases hk : k = key
  · subst hk
    cases hold : index[k]? with
    | none => exact Or.inr ⟨rfl, trade, by simp, hst⟩
    | some i =>
      have hin : k ∈ index := by
        rw [ExtTreeMap.mem_iff_isSome_getElem?, hold]
        rfl
      left
      rw [ExtTreeMap.getElem?_insertIfNew, if_neg (fun hc => hc.2 hin), hold]
  · left
    rw [ExtTreeMap.getElem?_insertIfNew, if_neg]
    exact fun hc => hk (LawfulEqCmp.eq_of_compare hc.1)

/-- An operation changes the index only by adding a version it confirms. -/
theorem State.Step.index_cases (hs : state.Coherent) (h : state.Step next) (key : TradeVersionKey) :
    next.confirmationEntries[key]? = state.confirmationEntries[key]? ∨
      state.confirmationEntries[key]? = none ∧ next.confirms key := by
  obtain ⟨operation, h⟩ := h
  cases operation with
  | bookTrade tradeId bookId counterpartyId nettingSetId terms =>
    obtain ⟨_, _, rfl⟩ := bookTrade_ok hs.chain h
    exact Or.inl rfl
  | confirmTrade tradeId expectedVersion postingIds =>
    obtain ⟨_, _, _, _, hrun⟩ := confirmTrade_ok hs.chain h
    obtain rfl := hrun.next_eq
    exact insertIfNew_index_cases rfl
  | amendTrade tradeId expectedVersion terms reversalIds postingIds =>
    obtain ⟨_, _, _, _, _, _, _, _, _, hrun⟩ := amendTrade_ok hs.chain h
    obtain rfl := hrun.next_eq
    exact insertIfNew_index_cases rfl
  | cancelTrade tradeId expectedVersion reversalIds =>
    obtain ⟨_, _, _, ⟨_, rfl⟩ | ⟨_, _, _, _, _, _, _, hrun⟩⟩ := cancelTrade_ok hs.chain h
    · exact Or.inl rfl
    · obtain rfl := hrun.next_eq
      exact Or.inl rfl
  | runEod asOfDate =>
    rcases runEod_ok h with ⟨_, rfl⟩ | ⟨_, settled, obligations, hset, _, _, rfl⟩
    · exact Or.inl rfl
    · obtain ⟨_, _, hframe⟩ := settleEach_ok hset (State.eligible_nodup asOfDate)
        (State.eligible_confirmed asOfDate) hs.chain
      rw [hframe]
      exact Or.inl rfl

/-- A version is indexed exactly when some state of the run had it confirmed. -/
theorem indexed_iff_ever_confirmed (h : Trail State.Step (State.initial limits) past state)
    (key : TradeVersionKey) : (∃ i, state.confirmationEntries[key]? = some i) ↔
      ∃ seen ∈ state :: past, seen.confirms key := by
  -- The index is the record, and a confirmed version is what is shown.
  refine record_iff_ever (fun s : State => ∃ i, s.confirmationEntries[key]? = some i)
    (State.confirms key) State.Coherent (.initial limits) (fun _ _ hs hstep => hs.step hstep)
    ?_ ?_ ?_ ?_ h
  · rintro s hs ⟨trade, ht, hst⟩
    exact hs.posted.live key trade ht (Or.inl hst)
  · rintro ⟨i, hi⟩
    simp [State.initial] at hi
  · rintro s t hs hstep ⟨i, hi⟩
    rcases hstep.index_cases hs key with he | ⟨_, hc⟩
    · exact Or.inl ⟨i, he ▸ hi⟩
    · exact Or.inr hc
  · rintro s t hs hstep ⟨i, hi⟩
    rcases hstep.index_cases hs key with he | ⟨hn, _⟩
    · exact ⟨i, he ▸ hi⟩
    · rw [hn] at hi
      cases hi

/-- Ledger, index, identifiers and versions after a run through `past`. -/
structure PostedOnce (past : List State) (state : State) : Prop where
  /-- Posting identifiers are distinct over the whole ledger. -/
  ids_nodup : ((state.ledgerEntries.flatMap LedgerEntry.postings).map Posting.id).Nodup
  ids_mem : ∀ id, id ∈ state.postingIds ↔
    id ∈ (state.ledgerEntries.flatMap LedgerEntry.postings).map Posting.id
  /-- The index is defined on the versions that were confirmed. -/
  domain : ∀ key : TradeVersionKey, (∃ i, state.confirmationEntries[key]? = some i) ↔
    ∃ trade, state.trades[key]? = some trade ∧
      (trade.state = .confirmed ∨ trade.state = .superseded ∨ trade.state = .settled ∨
        trade.state = .cancelled ∧ ∃ earlier ∈ past, earlier.confirms key)
  injective : ∀ (key other : TradeVersionKey) (i : ℕ), state.confirmationEntries[key]? = some i →
    state.confirmationEntries[other]? = some i → key = other
  /-- An indexed entry is the confirmation of its own version. -/
  confirmation : ∀ (key : TradeVersionKey) (i : ℕ), state.confirmationEntries[key]? = some i →
    ∃ trade entry, state.trades[key]? = some trade ∧ trade.id = key.tradeId ∧
      trade.version = key.version ∧ state.ledgerEntries[i]? = some entry ∧
      entry.contents = trade.confirmationContents
  /-- Every other entry reverses one indexed entry that lies before it. -/
  reversal : ∀ (j : ℕ) (entry : LedgerEntry), state.ledgerEntries[j]? = some entry →
    (∀ key : TradeVersionKey, state.confirmationEntries[key]? ≠ some j) →
      ∃ (key : TradeVersionKey) (i : ℕ) (original : LedgerEntry),
        state.confirmationEntries[key]? = some i ∧ state.ledgerEntries[i]? = some original ∧
        IsReversalOf original entry ∧ i < j ∧
        ∀ (other : TradeVersionKey) (k : ℕ) (another : LedgerEntry),
          state.confirmationEntries[other]? = some k → state.ledgerEntries[k]? = some another →
            IsReversalOf another entry → other = key
  taken_back : ∀ (key : TradeVersionKey) (i : ℕ) (trade : Trade) (original : LedgerEntry),
    state.confirmationEntries[key]? = some i → state.trades[key]? = some trade →
    state.ledgerEntries[i]? = some original →
    trade.state = .superseded ∨ trade.state = .cancelled →
      ∃! j : ℕ, ∃ entry, state.ledgerEntries[j]? = some entry ∧ IsReversalOf original entry
  standing : ∀ (key : TradeVersionKey) (i : ℕ) (trade : Trade) (original : LedgerEntry),
    state.confirmationEntries[key]? = some i → state.trades[key]? = some trade →
    state.ledgerEntries[i]? = some original →
    trade.state = .confirmed ∨ trade.state = .settled →
      ∀ entry ∈ state.ledgerEntries, ¬IsReversalOf original entry

/-- The index is defined on the versions that were confirmed. A cancelled version
may have been cancelled before that, so its past is asked. -/
theorem indexed_domain (h : Trail State.Step (State.initial limits) past state)
    (key : TradeVersionKey) : (∃ i, state.confirmationEntries[key]? = some i) ↔
      ∃ trade, state.trades[key]? = some trade ∧
        (trade.state = .confirmed ∨ trade.state = .superseded ∨ trade.state = .settled ∨
          trade.state = .cancelled ∧ ∃ earlier ∈ past, earlier.confirms key) := by
  have hp := (show state.Reachable limits from h.reaches).coherent.posted
  constructor
  · rintro ⟨i, hi⟩
    obtain ⟨trade, _, ht, hcap, _⟩ := hp.indexed key i hi
    have ht : state.trades[key]? = some trade := ht
    refine ⟨trade, ht, ?_⟩
    cases hst : trade.state with
    | captured => exact absurd hst hcap
    | confirmed => exact Or.inl rfl
    | superseded => exact Or.inr (Or.inl rfl)
    | cancelled =>
      obtain ⟨seen, hm, hseen⟩ := (indexed_iff_ever_confirmed h key).mp ⟨i, hi⟩
      refine Or.inr (Or.inr (Or.inr ⟨rfl, ?_⟩))
      rcases List.mem_cons.mp hm with rfl | hm
      · obtain ⟨t, ht', hst'⟩ := hseen
        obtain rfl := Option.some.inj (ht.symm.trans ht')
        rw [hst] at hst'
        contradiction
      · exact ⟨seen, hm, hseen⟩
    | settled => exact Or.inr (Or.inr (Or.inl rfl))
  · rintro ⟨trade, ht, hs | hs | hs | ⟨_, seen, hm, hseen⟩⟩
    · exact hp.live key trade ht (Or.inl hs)
    · exact hp.live key trade ht (Or.inr (Or.inl hs))
    · exact hp.live key trade ht (Or.inr (Or.inr hs))
    · exact (indexed_iff_ever_confirmed h key).mpr ⟨seen, List.mem_cons_of_mem _ hm, hseen⟩

/-- Every confirmation is posted once and reversed at most once. -/
theorem confirmations_posted_once (h : Trail State.Step (State.initial limits) past state) :
    PostedOnce past state := by
  have hreach : state.Reachable limits := h.reaches
  have hp := hreach.coherent.posted
  have hc := hreach.coherent.chain
  refine ⟨hp.nodup, hp.ids, indexed_domain h, fun key => hp.injective key, ?confirmation, ?reversal,
    ?taken_back, ?standing⟩
  case confirmation =>
    intro key i hk
    obtain ⟨trade, entry, ht, _, he, hcon⟩ := hp.indexed key i hk
    obtain ⟨_, _, _, _, hl⟩ := hc.stored key trade ht
    exact ⟨trade, entry, ht, hl.id, hl.version, he, hcon⟩
  case reversal =>
    intro j entry he hno
    obtain ⟨key, i, _, original, hk, _, _, ho, hlt, hr⟩ := hp.others j entry he hno
    refine ⟨key, i, original, hk, ho, hr, hlt, fun other k another hko hka hra => ?_⟩
    -- Whatever else it reversed would hold the same identifiers.
    obtain rfl := index_unique hp.nodup ho hka (hr.ids_eq hra)
    exact hp.injective _ _ _ hko hk
  case taken_back =>
    intro key i trade original hk ht ho hs
    obtain ⟨j, entry, he, hr⟩ := hp.reversed key i trade original hk ht hs ho
    refine ⟨j, ⟨entry, he, hr⟩, ?_⟩
    rintro k ⟨other, hother, hr'⟩
    exact hp.once i k j original other entry ho hother he hr' hr
  case standing =>
    intro key i trade original hk ht ho hs entry hm
    obtain ⟨j, hj⟩ := List.mem_iff_getElem?.mp hm
    exact hp.stands hk ht (by rcases hs with hs | hs <;> simp [Trade.reversed, hs]) ho hj

/-- A booking, its confirmation and its cancellation, which reverses the entry. -/
theorem confirmations_posted_once_sample :
    ∃ (past : List State) (state : State) (trade : Trade) (original : LedgerEntry),
      past.length = 3 ∧ state.ledgerEntries.length = 2 ∧
      state.trades[TradeVersionKey.mk (sampleId .trade) 1]? = some trade ∧
      trade.state = .cancelled ∧ state.ledgerEntries[0]? = some original ∧ PostedOnce past state ∧
      ∃! j : ℕ, ∃ entry, state.ledgerEntries[j]? = some entry ∧ IsReversalOf original entry := by
  let key : TradeVersionKey := ⟨sampleId .trade, 1⟩
  let cancellation : Operation := .cancelTrade (sampleId .trade) 1 (some
    ⟨⟨asciiBytes "R1", by decide⟩, ⟨asciiBytes "R2", by decide⟩, ⟨asciiBytes "R3", by decide⟩,
      ⟨asciiBytes "R4", by decide⟩⟩)
  have hrun : (do
      let limits ← (LimitHierarchy.create sampleDefinitions).mapError StateError.limitFailure
      let booked ← Operation.apply (State.initial limits) sampleOperations[0]
      let confirmed ← Operation.apply booked sampleOperations[1]
      let state ← cancellation.apply confirmed
      if state.ledgerEntries.length = 2 ∧ state.confirmationEntries[key]? = some 0 ∧
          state.trades[key]?.map Trade.state = some .cancelled then .ok state
      else .error StateError.tradeNotFound : Except StateError State).isOk = true := by
    decide +kernel
  obtain ⟨state, h⟩ := ok_of_isOk hrun
  simp only [Outcome.bind_ok_iff, Outcome.mapError_ok_iff] at h
  obtain ⟨limits, _, booked, hb, confirmed, hc, cancelled, hcancel, h⟩ := h
  split_ifs at h with hfacts
  obtain rfl := Except.ok.inj h
  obtain ⟨hlen, hindexed, hcancelled⟩ := hfacts
  obtain ⟨trade, htrade, hstate⟩ := Option.map_eq_some_iff.mp hcancelled
  have hposted := confirmations_posted_once
    (((Trail.nil.snoc (s := State.initial limits) ⟨_, hb⟩).snoc ⟨_, hc⟩).snoc ⟨_, hcancel⟩)
  obtain ⟨_, original, _, _, _, horiginal, _⟩ := hposted.confirmation key 0 hindexed
  exact ⟨_, _, trade, original, rfl, hlen, htrade, hstate, horiginal, hposted,
    hposted.taken_back key 0 trade original hindexed htrade horiginal (Or.inr hstate)⟩

end Backbook
