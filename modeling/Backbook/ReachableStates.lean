import Backbook.StateRuns

namespace Backbook

open Std Relation

variable {limits : LimitHierarchy} {state : State}

theorem ok_of_isOk {ε α : Type} {x : Except ε α} (h : x.isOk = true) : ∃ a, x = .ok a := by
  cases x with
  | error e => cases h
  | ok a => exact ⟨a, rfl⟩

section Sample

def sampleId (tag : IdTag) : Id tag := ⟨asciiBytes "A", by decide⟩

def samplePostingIds : ConfirmationPostingIds :=
  ⟨⟨asciiBytes "P1", by decide⟩, ⟨asciiBytes "P2", by decide⟩, ⟨asciiBytes "P3", by decide⟩,
    ⟨asciiBytes "P4", by decide⟩⟩

def sampleDate : IsoDate := ⟨2024, 1, 2, by decide⟩

def sampleTerms : FxTerms :=
  ⟨.fxSpot, sampleDate, sampleDate, ⟨.usd, 100, by decide⟩, ⟨.jpy, 15000, by decide⟩, by decide,
    by decide, by decide⟩

def samplePath : LimitPath := ⟨sampleId .counterparty, sampleId .nettingSet, sampleId .book⟩

def sampleDefinitions : List LimitDefinition :=
  samplePath.nodes.map fun node => ⟨node, ⟨.usd, 250, by decide⟩⟩

def sampleOperations : List Operation :=
  [.bookTrade (sampleId .trade) (sampleId .book) (sampleId .counterparty) (sampleId .nettingSet)
    sampleTerms, .confirmTrade (sampleId .trade) 1 samplePostingIds]

/-- One booked and confirmed trade, under limits that allow it. -/
theorem sample_run : ∃ limits before state,
    LimitHierarchy.create sampleDefinitions = .ok limits ∧
    (State.initial limits).Step before ∧ before.Step state ∧ state.ledgerEntries.length = 1 := by
  have hrun : (do
      let limits ← (LimitHierarchy.create sampleDefinitions).mapError StateError.limitFailure
      let before ← Operation.apply (State.initial limits) sampleOperations[0]
      let state ← Operation.apply before sampleOperations[1]
      if state.ledgerEntries.length = 1 then .ok state
      else .error StateError.tradeNotFound : Except StateError State).isOk = true := by
    decide +kernel
  obtain ⟨state, h⟩ := ok_of_isOk hrun
  simp only [Outcome.bind_ok_iff, Outcome.mapError_ok_iff] at h
  obtain ⟨limits, hl, before, hb, after, ha, h⟩ := h
  split_ifs at h with hlen
  exact ⟨limits, before, after, hl, ⟨_, hb⟩, ⟨_, ha⟩, hlen⟩

end Sample

/-- Version history of every trade in a reachable state. -/
theorem version_history_is_chain (h : state.Reachable limits) :
    (∀ (tradeId : TradeId) (current : UInt32), state.currentVersions[tradeId]? = some current →
      (∀ version, (∃ trade, state.findTrade tradeId version = some trade) ↔
        1 ≤ version ∧ version ≤ current) ∧
      ∀ version trade, state.findTrade tradeId version = some trade →
        trade.id = tradeId ∧ trade.version = version ∧
        (∀ other sibling, state.findTrade tradeId other = some sibling →
          sibling.bookId = trade.bookId ∧ sibling.counterpartyId = trade.counterpartyId ∧
            sibling.nettingSetId = trade.nettingSetId) ∧
        (version < current →
          trade.state = .superseded ∧ trade.supersededBy = some (version + 1)) ∧
        (version = current → trade.state ≠ .superseded ∧ trade.supersededBy = none) ∧
        (version = 1 → trade.supersedes = none) ∧
        (1 < version → trade.supersedes = some (version - 1) ∧ trade.state ≠ .captured)) ∧
    ∀ tradeId : TradeId, state.currentVersions[tradeId]? = none →
      ∀ version, state.findTrade tradeId version = none := by
  have hc := h.coherent.chain
  refine ⟨fun tradeId current hcur => ⟨fun version => ⟨?_, ?_⟩, ?_⟩, ?_⟩
  · rintro ⟨trade, ht⟩
    obtain ⟨other, ho, hge, hle, _⟩ := hc.stored _ trade ht
    obtain rfl := Option.some.inj (hcur.symm.trans ho)
    exact ⟨hge, hle⟩
  · rintro ⟨hge, hle⟩
    exact (hc.complete tradeId current hcur).2 version hge hle
  · intro version trade ht
    obtain ⟨other, ho, _, _, hl⟩ := hc.stored _ trade ht
    obtain rfl := Option.some.inj (hcur.symm.trans ho)
    refine ⟨hl.id, hl.version, ?_, hl.past, hl.last, hl.first, hl.later⟩
    intro w sibling hs
    -- Any two versions of a trade share their limit path.
    have hp := hc.parties tradeId w version sibling trade hs ht
    simp only [Trade.limitPath, LimitPath.mk.injEq] at hp
    exact ⟨hp.2.2, hp.1, hp.2.1⟩
  · exact fun tradeId hnone version => hc.none_of_current_none hnone version

theorem version_history_is_chain_sample : ∃ state : State, state.ledgerEntries.length = 1 ∧
    ∀ tradeId : TradeId, state.currentVersions[tradeId]? = none →
      ∀ version, state.findTrade tradeId version = none := by
  obtain ⟨limits, before, state, _, hb, hs, hlen⟩ := sample_run
  have h : state.Reachable limits := (ReflTransGen.single hb).tail hs
  exact ⟨state, hlen, (version_history_is_chain h).2⟩

def State.occupants (state : State) (key : LimitKey) : List Trade :=
  (state.trades.toList.map Prod.snd).filter fun trade =>
    trade.state = .confirmed ∧ trade.terms.pay.currency = key.currency ∧
      key.node ∈ trade.limitPath.nodes

/-- Reserved amounts are exactly what the confirmed versions occupy, between
zero and a capacity that never changes. -/
theorem reserved_eq_confirmed_pays {definitions : List LimitDefinition}
    (hc : LimitHierarchy.create definitions = .ok limits) (h : state.Reachable limits) :
    (∀ key, key ∈ state.limits.balances ↔ key ∈ limits.balances) ∧
    ∀ (key : LimitKey) (balance : LimitBalance), state.limits.balances[key]? = some balance →
      (∃ created, limits.balances[key]? = some created ∧ balance.capacity = created.capacity) ∧
      balance.reserved = ((state.occupants key).map fun t => t.terms.pay.minorUnits).sum ∧
      0 ≤ balance.reserved ∧ balance.reserved ≤ balance.capacity := by
  have hh := h.headroom hc
  refine ⟨fun key => ?_, fun key balance hk => ⟨?_, ?_, ?_, hh.within key balance hk⟩⟩
  · have hcap := hh.capacity key
    unfold LimitHierarchy.capacityAt at hcap
    rw [ExtTreeMap.mem_iff_isSome_getElem?, ExtTreeMap.mem_iff_isSome_getElem?,
      ← Option.isSome_map (f := LimitBalance.capacity) (x := limits.balances[key]?), ← hcap,
      Option.isSome_map]
    rfl
  · have hcap := hh.capacity key
    unfold LimitHierarchy.capacityAt at hcap
    rw [show state.positions.limits.balances[key]? = some balance from hk] at hcap
    obtain ⟨created, hcr, he⟩ := Option.map_eq_some_iff.mp hcap.symm
    exact ⟨created, hcr, he.symm⟩
  · have hres := hh.reserved key
    unfold LimitHierarchy.reservedAt at hres
    rw [show state.positions.limits.balances[key]? = some balance from hk] at hres
    simp only [Option.map_some, Option.getD_some] at hres
    -- A sum over the occupants is a sum over all versions with zeros between.
    rw [hres, State.occupants, OrderedMap.sum_filter_values]
    refine OrderedMap.total_congr _ _ _ fun _ trade _ => ?_
    simp only [Trade.exposure, decide_eq_true_eq]
  · have hn := hh.reservedAt_nonneg key
    unfold LimitHierarchy.reservedAt at hn
    rw [show state.positions.limits.balances[key]? = some balance from hk] at hn
    exact hn

theorem reserved_eq_confirmed_pays_sample : ∃ state : State, state.ledgerEntries.length = 1 ∧
    ∀ (key : LimitKey) (balance : LimitBalance), state.limits.balances[key]? = some balance →
      balance.reserved = ((state.occupants key).map fun t => t.terms.pay.minorUnits).sum := by
  obtain ⟨limits, before, state, hl, hb, hs, hlen⟩ := sample_run
  refine ⟨state, hlen, fun key balance hk => ?_⟩
  exact ((reserved_eq_confirmed_pays hl ((ReflTransGen.single hb).tail hs)).2 key balance hk).2.1

def State.liveTrades (state : State) : List Trade :=
  (state.trades.toList.map Prod.snd).filter fun trade => trade.live

def Money.inCurrency (amount : Money) (currency : Currency) : ℤ :=
  if amount.currency = currency then amount.minorUnits else 0

/-- A balance summed over the live versions that touch the account. -/
theorem accountBalance_eq_sum (h : state.Reachable limits) (account : Bytes) (currency : Currency) :
    accountBalance state.ledgerEntries account currency =
      (state.liveTrades.map (Trade.contribution account currency)).sum := by
  rw [show accountBalance state.ledgerEntries account currency = _ from h.balanced account currency,
    State.liveTrades, OrderedMap.sum_filter_values]
  refine OrderedMap.total_congr _ _ _ fun _ trade _ => ?_
  simp only [Trade.worth, decide_eq_true_eq]

theorem sum_filter_eq_sum_ite {α : Type} (xs : List α) (p : α → Bool) (f : α → ℤ) :
    ((xs.filter p).map f).sum = (xs.map fun x => if p x then f x else 0).sum := by
  simp [List.sum_map_ite]

/-- Every account holds what the live contracts put there and nothing else. -/
theorem account_balances_eq_live_contracts (h : state.Reachable limits) (currency : Currency) :
    (∀ counterpartyId,
      accountBalance state.ledgerEntries (controlAccount counterpartyId) currency =
        ((state.liveTrades.filter (·.counterpartyId = counterpartyId)).map fun trade =>
          trade.terms.pay.inCurrency currency - trade.terms.receive.inCurrency currency).sum) ∧
    (∀ bookId, accountBalance state.ledgerEntries (payableAccount bookId) currency =
        ((state.liveTrades.filter (·.bookId = bookId)).map fun trade =>
          -trade.terms.pay.inCurrency currency).sum) ∧
    (∀ bookId, accountBalance state.ledgerEntries (receivableAccount bookId) currency =
        ((state.liveTrades.filter (·.bookId = bookId)).map fun trade =>
          trade.terms.receive.inCurrency currency).sum) ∧
    ∀ account, (∀ counterpartyId, controlAccount counterpartyId ≠ account) →
      (∀ bookId, payableAccount bookId ≠ account) →
      (∀ bookId, receivableAccount bookId ≠ account) →
        accountBalance state.ledgerEntries account currency = 0 := by
  refine ⟨fun c => ?_, fun b => ?_, fun b => ?_, fun account hc hp hr => ?_⟩
  · rw [accountBalance_eq_sum h, sum_filter_eq_sum_ite]
    congr 2
    funext trade
    rw [Trade.contribution_control]
    simp only [decide_eq_true_eq, Money.inCurrency]
  · rw [accountBalance_eq_sum h, sum_filter_eq_sum_ite]
    congr 2
    funext trade
    rw [Trade.contribution_payable]
    simp only [decide_eq_true_eq, Money.inCurrency]
    split_ifs <;> simp
  · rw [accountBalance_eq_sum h, sum_filter_eq_sum_ite]
    congr 2
    funext trade
    rw [Trade.contribution_receivable]
    simp only [decide_eq_true_eq, Money.inCurrency]
  · rw [accountBalance_eq_sum h]
    exact List.sum_eq_zero (by
      intro x hx
      obtain ⟨trade, _, rfl⟩ := List.mem_map.mp hx
      exact trade.contribution_other currency hc hp hr)

theorem account_balances_eq_live_contracts_sample : ∃ state : State,
    state.ledgerEntries.length = 1 ∧ ∀ bookId,
      accountBalance state.ledgerEntries (payableAccount bookId) .usd =
        ((state.liveTrades.filter (·.bookId = bookId)).map fun trade =>
          -trade.terms.pay.inCurrency .usd).sum := by
  obtain ⟨limits, before, state, _, hb, hs, hlen⟩ := sample_run
  have h : state.Reachable limits := (ReflTransGen.single hb).tail hs
  exact ⟨state, hlen, (account_balances_eq_live_contracts h .usd).2.1⟩

end Backbook
