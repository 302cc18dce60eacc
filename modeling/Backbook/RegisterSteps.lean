import Backbook.TradeDossiers
import Backbook.VisibleTraces

namespace Backbook

open Std

variable {state next : State} {limits : LimitHierarchy} {tradeId : TradeId} {version : UInt32}
  {trade : Trade}

theorem ledger_toFinset_append (ledger : List LedgerEntry) (entry : LedgerEntry) :
    (ledger ++ [entry]).toFinset = insert entry ledger.toFinset := by
  ext e
  simp only [List.mem_toFinset, List.mem_append, List.mem_singleton, Finset.mem_insert]
  exact or_comm

/-- Only the index has the confirmation of a version. -/
theorem State.Coherent.confirmation_index (hs : state.Coherent) {j : ℕ} {entry : LedgerEntry}
    (he : state.ledgerEntries[j]? = some entry) (hc : entry.contents = trade.confirmationContents) :
    state.confirmationEntries[trade.key]? = some j := by
  by_cases hm : ∃ key : TradeVersionKey, state.confirmationEntries[key]? = some j
  · obtain ⟨key, hk⟩ := hm
    obtain ⟨other, entry', ho, _, he', hc'⟩ := hs.posted.indexed key j hk
    rw [show state.ledgerEntries[j]? = some entry' from he'] at he
    obtain rfl := Option.some.inj he
    -- The contents name the version that they confirm.
    have hsame : other.key = trade.key := by
      have hboth := hc'.symm.trans hc
      simp only [Trade.confirmationContents, List.cons.injEq, PostingContent.mk.injEq] at hboth
      simp only [Trade.key, hboth.1.1, hboth.1.2.1]
    rw [← hsame, hs.chain.carries key other ho]
    exact hk
  · obtain ⟨_, _, _, original, _, _, _, _, _, hr⟩ :=
      hs.posted.others j entry he fun key hk => hm ⟨key, hk⟩
    exact absurd hr (not_isReversalOf_of_contents hc)

theorem State.Coherent.definite (hs : state.Coherent) : state.register.Definite where
  keyed t ht u hu hid hversion := by
    apply hs.chain.carries.eq_of_key_eq ht hu
    simp only [Trade.key, hid, hversion]
  confirmed_once entry he other ho t hc hc' := by
    obtain ⟨i, hi⟩ := List.mem_iff_getElem?.mp (List.mem_toFinset.mp he)
    obtain ⟨j, hj⟩ := List.mem_iff_getElem?.mp (List.mem_toFinset.mp ho)
    have hij := (hs.confirmation_index hi hc).symm.trans (hs.confirmation_index hj hc')
    obtain rfl := Option.some.inj hij
    rw [hi] at hj
    exact Option.some.inj hj

/-- What the limits hold once a confirmed version is released. -/
theorem State.released_limits (hs : state.Coherent) (hh : state.positions.Headroom limits)
    {released : LimitHierarchy} (ht : state.trades[trade.key]? = some trade)
    (hst : trade.state = .confirmed)
    (hrel : state.limits.release trade.limitPath trade.terms.pay = .ok released) (key : LimitKey) :
    released.capacityAt key = limits.capacityAt key ∧ released.reservedAt key =
      Register.exposure { state.register with versions := state.register.versions.erase trade }
        key := by
  have hnext : Positions.Headroom limits { state.positions with
      trades := state.trades.insert trade.key trade.asSuperseded
      limits := released } :=
    hh.release ht hst (by simp [Trade.asSuperseded]) hrel rfl rfl
  refine ⟨hnext.capacity key, ?_⟩
  have hold : state.trades[trade.key]?.elim 0 (Trade.exposure key) = trade.exposure key := by
    rw [ht]
    rfl
  calc
    released.reservedAt key =
        OrderedMap.total (state.trades.insert trade.key trade.asSuperseded)
          fun _ t => t.exposure key := hnext.reserved key
    _ = (OrderedMap.total state.trades fun _ t => t.exposure key) +
          trade.asSuperseded.exposure key - trade.exposure key :=
      OrderedMap.total_insert_eq _ _ _ _ _ hold
    _ = ∑ t ∈ state.register.versions.erase trade, t.exposure key := by
      rw [Finset.sum_erase_eq_sub (State.register_of_stored ht),
        Trade.exposure_of_ne (by simp [Trade.asSuperseded]), add_zero]
      congr 1
      exact (hs.chain.carries.sum_values _).symm

theorem posts_of_confirmation {ids : ConfirmationPostingIds} {entry : LedgerEntry}
    (h : buildConfirmationEntry trade ids = .ok entry) (hs : trade.state = .confirmed)
    (hv : trade.version ≠ 0) :
    entry.Posts trade.confirmationContents ids.toList ∧ ids.toList.Nodup := by
  rcases buildConfirmationEntry_cases trade ids hs hv with ⟨built, hok, hc, hids, hd⟩ | ⟨herr, _⟩
  · rw [hok] at h
    obtain rfl := Except.ok.inj h
    exact ⟨⟨hc, hids⟩, hd⟩
  · rw [herr] at h
    cases h

theorem posts_of_reversal {ids : ReversalPostingIds} {original reversal : LedgerEntry}
    (hc : original.contents = trade.confirmationContents)
    (h : buildReversalEntry original ids = .ok reversal) :
    reversal.Posts (original.postings.map Posting.reversalContent) ids.toList ∧
      ids.toList.Nodup := by
  rcases buildReversalEntry_cases ids hc with ⟨built, hok, hr, hids, hd⟩ | ⟨herr, _⟩ | ⟨herr, _⟩
  · rw [hok] at h
    obtain rfl := Except.ok.inj h
    exact ⟨⟨hr, hids⟩, hd⟩
  · rw [herr] at h
    cases h
  · rw [herr] at h
    cases h

theorem LedgerEntry.Posts.fresh_iff {entry : LedgerEntry} {contents : List PostingContent}
    {ids : List PostingId} (h : entry.Posts contents ids) (spent : ExtTreeSet PostingId) :
    (∀ posting ∈ entry.postings, posting.id ∉ spent) ↔ ∀ id ∈ ids, id ∉ spent := by
  simp only [← h.2, List.forall_mem_map]

variable {capacity : LimitKey → Option ℤ}

theorem bookTrade_takes {bookId : BookId} {counterpartyId : CounterpartyId}
    {nettingSetId : NettingSetId} {terms : FxTerms} (hs : state.Coherent)
    (h : bookTrade state tradeId bookId counterpartyId nettingSetId terms = .ok next) :
    state.register.Takes capacity (.bookTrade tradeId bookId counterpartyId nettingSetId terms)
      next.register := by
  obtain ⟨hnone, hv, rfl⟩ := bookTrade_ok hs.chain h
  have hfresh (version : UInt32) := hs.chain.none_of_current_none hnone version
  have hnew : ∀ t ∈ state.register.versions, t.id ≠ tradeId := by
    intro t ht hid
    have hstored := (State.mem_register hs.chain).mp ht
    simp only [Trade.key, hid, hfresh] at hstored
    cases hstored
  have htakes : state.register.Takes capacity
      (.bookTrade tradeId bookId counterpartyId nettingSetId terms) _ := .book hnew
  simp only [State.register, KeyedMap.values_insert_fresh (hfresh 1), toNat_next_version hv]
  exact htakes

/-- Restating the current version of a trade. -/
theorem State.Coherent.restated (hs : state.Coherent) {key : TradeVersionKey}
    (ht : state.trades[key]? = some trade) (new : Trade) :
    KeyedMap.values (state.trades.insert key new) =
      insert new (state.register.versions.erase trade) :=
  hs.chain.carries.values_insert ht

theorem State.Coherent.current (hs : state.Coherent)
    (ht : state.trades[(⟨tradeId, version⟩ : TradeVersionKey)]? = some trade)
    (hst : trade.state ≠ .superseded) : state.register.Current tradeId version trade :=
  (State.current_register_iff hs.chain).mpr ⟨hs.chain.current_of_not_superseded ht hst, ht⟩

theorem confirmTrade_takes {ids : ConfirmationPostingIds} (hs : state.Coherent)
    (hh : state.positions.Headroom limits)
    (h : confirmTrade state tradeId version ids = .ok next) :
    state.register.Takes limits.capacityAt (.confirmTrade tradeId version ids) next.register := by
  obtain ⟨current, reserved, entry, totals, hrun⟩ := confirmTrade_ok hs.chain h
  have hver : current.version ≠ 0 := (hs.chain.stored_version hrun.stored).2
  obtain ⟨hposts, hd⟩ := posts_of_confirmation hrun.built rfl hver
  have hroom : state.register.Room limits.capacityAt current.limitPath current.terms.pay := by
    intro node hn
    obtain ⟨most, hc, hfit⟩ :=
      (LimitHierarchy.exists_reserve_iff current.terms.pay_pos).mp ⟨_, hrun.reserves⟩ node hn
    rw [State.reservedAt_eq hs hh] at hfit
    exact ⟨most, (hh.capacity _).symm.trans hc, hfit⟩
  have hids : state.register.Unspent ids.toList :=
    (State.unspent_iff hs).mpr ⟨hd, (hposts.fresh_iff _).mp hrun.fresh⟩
  have htakes := Register.Takes.confirm (hs.current hrun.stored (by simp [hrun.captured]))
    hrun.captured hroom hids hposts
  rw [hrun.next_eq]
  simp only [State.register, hs.restated hrun.stored, ledger_toFinset_append,
    toNat_next_version hrun.version_ne]
  exact htakes

theorem amendTrade_takes {terms : FxTerms} {reversalIds : ReversalPostingIds}
    {ids : ConfirmationPostingIds} (hs : state.Coherent) (hh : state.positions.Headroom limits)
    (h : amendTrade state tradeId version terms reversalIds ids = .ok next) :
    state.register.Takes limits.capacityAt (.amendTrade tradeId version terms reversalIds ids)
      next.register := by
  obtain ⟨current, index, original, reversal, replacement, released, reserved, totals, totals',
    hrun⟩ := amendTrade_ok hs.chain h
  have hkey : current.key = ⟨tradeId, version⟩ := hs.chain.carries _ _ hrun.stored
  have hstored : state.trades[current.key]? = some current := hkey ▸ hrun.stored
  obtain ⟨hcontents, _⟩ := reversal_of_built hs.posted hrun.stored hrun.indexed hrun.posted
    hrun.reverses
  obtain ⟨hreversal, hd⟩ := posts_of_reversal hcontents hrun.reverses
  have hmax : current.version ≠ 4294967295 := by
    rw [(hs.chain.stored_version hrun.stored).1]
    exact hrun.key_ne
  obtain ⟨hreplacement, hd'⟩ := posts_of_confirmation hrun.built rfl
    (Trade.asReplacement_version_ne hmax)
  have hroom : Register.Room { state.register with
      versions := state.register.versions.erase current } limits.capacityAt current.limitPath
      terms.pay := by
    intro node hn
    obtain ⟨most, hc, hfit⟩ :=
      (LimitHierarchy.exists_reserve_iff terms.pay_pos).mp ⟨_, hrun.reserves⟩ node hn
    obtain ⟨hcapacity, hreserved⟩ := State.released_limits hs hh hstored hrun.confirmed
      hrun.releases ⟨node, terms.pay.currency⟩
    rw [hreserved] at hfit
    exact ⟨most, hcapacity.symm.trans hc, hfit⟩
  -- The replacement's identifiers avoid those that the reversal has just spent.
  have hids : state.register.Unspent (reversalIds.toList ++ ids.toList) := by
    have hfresh := (hreversal.fresh_iff _).mp hrun.fresh
    have hfresh' := (hreplacement.fresh_iff _).mp hrun.fresh'
    simp only [mem_insertPostingIds, hreversal.2, not_or] at hfresh'
    apply (State.unspent_iff hs).mpr
    constructor
    · refine List.nodup_append.mpr ⟨hd, hd', ?_⟩
      intro id hid other ho he
      exact (hfresh' other ho).1 (he ▸ hid)
    · intro id hid
      rcases List.mem_append.mp hid with hid | hid
      · exact hfresh id hid
      · exact (hfresh' id hid).2
  have htakes := Register.Takes.amend (hs.current hrun.stored (by simp [hrun.confirmed]))
    hrun.confirmed hrun.key_ne
    (List.mem_toFinset.mpr (List.mem_of_getElem? hrun.posted)) hcontents hroom hids hreversal
    hreplacement
  have hnone : (state.trades.insert ⟨tradeId, version⟩ current.asSuperseded)[
      (⟨tradeId, version + 1⟩ : TradeVersionKey)]? = none := by
    rw [OrderedMap.getElem?_insert_eq, if_neg (by simp)]
    exact hs.chain.none_of_next hrun.last hrun.key_ne
  rw [hrun.next_eq]
  simp only [State.register, KeyedMap.values_insert_fresh hnone, hs.restated hrun.stored,
    ledger_toFinset_append, toNat_next_version hrun.version_ne]
  exact htakes

/-- A captured version is cancelled without reversal identifiers. -/
theorem cancelTrade_captured {ids : Option ReversalPostingIds} (hs : state.Coherent)
    (h : cancelTrade state tradeId version ids = .ok next)
    (ht : state.trades[(⟨tradeId, version⟩ : TradeVersionKey)]? = some trade)
    (hcap : trade.state = .captured) : ids = none := by
  simp only [cancelTrade, Outcome.bind_ok_iff, Outcome.mapError_ok_iff] at h
  obtain ⟨current, hcur, cancelled, _, h⟩ := h
  obtain ⟨_, hstored⟩ := State.requireCurrent_ok hs.chain hcur
  obtain rfl := Option.some.inj (hstored.symm.trans ht)
  rw [if_pos hcap] at h
  split_ifs at h with hids
  exact Option.not_isSome_iff_eq_none.mp hids

theorem cancelTrade_takes {ids : Option ReversalPostingIds} (hs : state.Coherent)
    (h : cancelTrade state tradeId version ids = .ok next) :
    state.register.Takes capacity (.cancelTrade tradeId version ids) next.register := by
  obtain ⟨current, ht, hv, ⟨hcap, rfl⟩ | ⟨ids, index, original, reversal, reserved, totals, rfl,
    hrun⟩⟩ := cancelTrade_ok hs.chain h
  · obtain rfl := cancelTrade_captured hs h ht hcap
    have htakes : state.register.Takes capacity (.cancelTrade tradeId version none) _ :=
      .discard (hs.current ht (by simp [hcap])) hcap
    simp only [State.register, hs.restated ht, toNat_next_version hv]
    exact htakes
  · obtain ⟨hcontents, _⟩ := reversal_of_built hs.posted ht hrun.indexed hrun.posted hrun.reverses
    obtain ⟨hreversal, hd⟩ := posts_of_reversal hcontents hrun.reverses
    have hids : state.register.Unspent ids.toList :=
      (State.unspent_iff hs).mpr ⟨hd, (hreversal.fresh_iff _).mp hrun.fresh⟩
    have htakes : state.register.Takes capacity (.cancelTrade tradeId version (some ids)) _ :=
      .unwind (hs.current ht (by simp [hrun.confirmed])) hrun.confirmed
        (List.mem_toFinset.mpr (List.mem_of_getElem? hrun.posted)) hcontents hids hreversal
    rw [hrun.next_eq]
    simp only [State.register, hs.restated ht, ledger_toFinset_append, toNat_next_version hv]
    exact htakes

theorem runEod_takes {asOfDate : IsoDate} (hs : state.Coherent)
    (h : runEod state asOfDate = .ok next) :
    state.register.Takes capacity (.runEod asOfDate) next.register := by
  rcases runEod_effect hs h with ⟨hnone, rfl⟩ | ⟨reserved, obligations, hrun⟩
  · apply Register.Takes.idle
    intro t ht hst hdue
    have heligible : t.key ∈ next.eligible asOfDate :=
      State.mem_eligible.mpr ⟨t, (State.mem_register hs.chain).mp ht, hst, hdue⟩
    rw [hnone] at heligible
    cases heligible
  · obtain ⟨key, hkey⟩ := List.exists_mem_of_ne_nil _ hrun.selects
    obtain ⟨t, ht, hst, hdue⟩ := State.mem_eligible.mp hkey
    have hnets : ∀ key, |∑ t ∈ state.register.versions, (t.endOfDay asOfDate).cashflow key| ≤
        2 ^ 63 - 1 := by
      intro key
      have hfit := (deriveBilateralSettlements_ok_iff _).mp ⟨_, hrun.derives⟩ key
      rwa [show settlementNet (state.settledAfter asOfDate) key = state.netAfter asOfDate key
        from rfl, State.netAfter_eq_total, ← hs.chain.carries.sum_values] at hfit
    have htakes : state.register.Takes capacity (.runEod asOfDate) _ :=
      .settle ⟨t, State.register_of_stored ht, hst, hdue⟩ hnets
    rw [hrun.next_eq]
    simp only [State.register, KeyedMap.values_map, toNat_next_version hrun.version_ne]
    exact htakes

/-- The forward direction: the register takes whatever the state accepts. -/
theorem Operation.takes {operation : Operation} (hs : state.Coherent)
    (hh : state.positions.Headroom limits) (h : operation.apply state = .ok next) :
    state.register.Takes limits.capacityAt operation next.register := by
  cases operation with
  | bookTrade tradeId bookId counterpartyId nettingSetId terms => exact bookTrade_takes hs h
  | confirmTrade tradeId version ids => exact confirmTrade_takes hs hh h
  | amendTrade tradeId version terms reversalIds ids => exact amendTrade_takes hs hh h
  | cancelTrade tradeId version ids => exact cancelTrade_takes hs h
  | runEod asOfDate => exact runEod_takes hs h

end Backbook
