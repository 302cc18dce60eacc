import Backbook.HistoryFrames
import Backbook.SettlementNets

namespace Backbook

open Std Relation

variable {limits : LimitHierarchy} {state next : State} {asOfDate d₁ d₂ : IsoDate}

def settledVersions (trades : ExtTreeMap TradeVersionKey Trade) : List Trade :=
  (trades.toList.map Prod.snd).filter (·.state = .settled)

/-- Storing a version that is not settled over another one that is not. -/
theorem settledVersions_insert (trades : ExtTreeMap TradeVersionKey Trade) (key : TradeVersionKey)
    (trade : Trade) (ht : trade.state ≠ .settled)
    (hold : ∀ old : Trade, trades[key]? = some old → old.state ≠ .settled) :
    settledVersions (trades.insert key trade) = settledVersions trades := by
  have hlist (m : ExtTreeMap TradeVersionKey Trade) : settledVersions m =
      (m.filter fun _ trade => trade.state = .settled).toList.map Prod.snd := by
    rw [ExtTreeMap.toList_filter, settledVersions, List.filter_map]
    rfl
  rw [hlist, hlist, OrderedMap.filter_insert_eq]
  · exact decide_eq_false ht
  · intro old ho
    exact decide_eq_false (hold old ho)

/-- Only an end of day settles anything. -/
theorem Operation.settledVersions_kept {operation : Operation} (hs : state.Coherent)
    (h : operation.apply state = .ok next) (hne : ∀ asOfDate, operation ≠ .runEod asOfDate) :
    settledVersions next.trades = settledVersions state.trades ∧
      next.settlements = state.settlements := by
  -- Three operations restore a version that was not settled with one that is not.
  have hstored {key : TradeVersionKey} {old trade : Trade} (hk : state.trades[key]? = some old)
      (ht : trade.state ≠ .settled) (ho : old.state ≠ .settled) :
      settledVersions (state.trades.insert key trade) = settledVersions state.trades := by
    apply settledVersions_insert _ _ _ ht
    intro other hother
    rw [← Option.some.inj (hk.symm.trans hother)]
    exact ho
  cases operation with
  | bookTrade tradeId bookId counterpartyId nettingSetId terms =>
    obtain ⟨hnone, _, rfl⟩ := bookTrade_ok hs.chain h
    refine ⟨settledVersions_insert _ _ _ (by simp [Trade.capture]) ?_, rfl⟩
    intro old ho
    rw [hs.chain.none_of_current_none hnone 1] at ho
    cases ho
  | confirmTrade tradeId expectedVersion postingIds =>
    obtain ⟨current, _, _, _, hrun⟩ := confirmTrade_ok hs.chain h
    rw [hrun.next_eq]
    exact ⟨hstored hrun.stored (by simp) (by simp [hrun.captured]), rfl⟩
  | amendTrade tradeId expectedVersion terms reversalIds postingIds =>
    obtain ⟨current, _, _, _, _, _, _, _, _, hrun⟩ := amendTrade_ok hs.chain h
    have hfirst := hstored hrun.stored
      (by simp [Trade.asSuperseded] : current.asSuperseded.state ≠ .settled)
      (by simp [hrun.confirmed])
    rw [hrun.next_eq]
    refine ⟨?_, rfl⟩
    rw [settledVersions_insert, hfirst]
    · simp [Trade.asReplacement]
    · -- The replacement takes a key that no version held.
      intro old ho
      rw [OrderedMap.getElem?_insert_eq, if_neg (by simp),
        hs.chain.none_of_next hrun.last hrun.key_ne] at ho
      cases ho
  | cancelTrade tradeId expectedVersion reversalIds =>
    obtain ⟨current, ht, _, hcase⟩ := cancelTrade_ok hs.chain h
    rcases hcase with ⟨hcap, hnext⟩ | ⟨_, _, _, _, _, _, _, hrun⟩
    · rw [hnext]
      exact ⟨hstored ht (by simp) (by simp [hcap]), rfl⟩
    · rw [hrun.next_eq]
      exact ⟨hstored ht (by simp) (by simp [hrun.confirmed]), rfl⟩
  | runEod asOfDate => exact absurd rfl (hne asOfDate)

def State.Netted (state : State) : Prop :=
  deriveBilateralSettlements (settledVersions state.trades) = .ok state.settlements

theorem State.Netted.step (hs : state.Coherent) (hn : state.Netted) (h : state.Step next) :
    next.Netted := by
  obtain ⟨operation, h⟩ := h
  by_cases heod : ∃ asOfDate, operation = .runEod asOfDate
  · obtain ⟨asOfDate, rfl⟩ := heod
    rcases runEod_effect hs h with ⟨_, rfl⟩ | ⟨_, obligations, hrun⟩
    · exact hn
    · rw [hrun.next_eq]
      exact hrun.derives
  · obtain ⟨hsettled, hkept⟩ := operation.settledVersions_kept hs h
      fun asOfDate he => heod ⟨asOfDate, he⟩
    rw [State.Netted, hsettled, hkept]
    exact hn

theorem State.Reachable.netted (h : state.Reachable limits) : state.Netted := by
  induction h with
  | refl =>
    have hempty : settledVersions (State.initial limits).trades = [] := by
      simp [settledVersions, State.initial]
    rw [State.Netted, hempty]
    have hnil : (∅ : ExtTreeMap SettlementKey NetAccumulator).toList = [] :=
      ExtTreeMap.toList_eq_nil_iff.mpr rfl
    rw [deriveBilateralSettlements, List.foldl_nil, hnil, collectObligations, Outcome.ok_bind,
      List.mergeSort_nil]
    rfl
  | tail hpath hstep ih => exact ih.step (State.Reachable.coherent hpath) hstep

theorem Trade.endOfDay_endOfDay (h : d₁ ≤ d₂) (trade : Trade) :
    (trade.endOfDay d₁).endOfDay d₂ = trade.endOfDay d₂ := by
  by_cases hs : trade.state = .confirmed
  · by_cases hd : trade.terms.valueDate ≤ d₁
    · rw [Trade.endOfDay_selected hs hd, Trade.endOfDay_selected hs (hd.trans h)]
      exact Trade.endOfDay_of_ne nofun
    · rw [Trade.endOfDay_of_later hd]
  · rw [Trade.endOfDay_of_ne hs]

/-- Two runs in order of their dates leave the versions of the later one. -/
theorem map_endOfDay_endOfDay (h : d₁ ≤ d₂) (trades : ExtTreeMap TradeVersionKey Trade) :
    ((trades.map fun _ trade => trade.endOfDay d₁).map fun _ trade => trade.endOfDay d₂) =
      trades.map fun _ trade => trade.endOfDay d₂ := by
  apply ExtTreeMap.ext_getElem?
  intro key
  simp only [ExtTreeMap.getElem?_map]
  cases trades[key]? with
  | none => rfl
  | some trade =>
    simp only [Option.map_some, Trade.endOfDay_endOfDay h]

/-- The net of a key, as a sum over the stored versions. -/
theorem settlementNet_settledVersions (trades : ExtTreeMap TradeVersionKey Trade)
    (key : SettlementKey) : settlementNet (settledVersions trades) key =
      OrderedMap.total trades fun _ trade => trade.cashflow key := by
  rw [settlementNet, settledVersions, OrderedMap.sum_filter_values]
  apply OrderedMap.total_congr
  intro _ trade _
  by_cases hs : trade.state = .settled
  · simp [hs]
  · simp [hs, Trade.cashflow]

/-- Which part of a key's net a run can change: that of keys which are due. -/
theorem Trade.cashflow_endOfDay (h : d₁ ≤ d₂) (key : SettlementKey) (trade : Trade) :
    (key.valueDate ≤ d₁ →
      (trade.endOfDay d₁).cashflow key = (trade.endOfDay d₂).cashflow key) ∧
    (¬key.valueDate ≤ d₁ → (trade.endOfDay d₁).cashflow key = trade.cashflow key) := by
  -- A key of another value date gets nothing from the trade.
  have hother {date : IsoDate} (hne : key.valueDate ≠ trade.terms.valueDate) :
      (trade.endOfDay date).cashflow key = 0 := by
    have hterms : (trade.endOfDay date).terms = trade.terms := by
      unfold Trade.endOfDay
      split_ifs <;> rfl
    rw [Trade.cashflow, hterms, if_neg fun hc => hne hc.2.2.2]
  by_cases hk : key.valueDate = trade.terms.valueDate
  · constructor
    · intro hd
      rw [hk] at hd
      by_cases hs : trade.state = .confirmed
      · rw [Trade.endOfDay_selected hs hd, Trade.endOfDay_selected hs (hd.trans h)]
      · rw [Trade.endOfDay_of_ne hs, Trade.endOfDay_of_ne hs]
    · intro hd
      rw [hk] at hd
      rw [Trade.endOfDay_of_later hd]
  · refine ⟨fun _ => by rw [hother hk, hother hk], fun _ => ?_⟩
    rw [hother hk, Trade.cashflow, if_neg fun hc => hk hc.2.2.2]

def State.netAfter (state : State) (asOfDate : IsoDate) (key : SettlementKey) : ℤ :=
  settlementNet (state.settledAfter asOfDate) key

theorem State.netAfter_eq_total (state : State) (asOfDate : IsoDate) (key : SettlementKey) :
    state.netAfter asOfDate key =
      OrderedMap.total state.trades fun _ trade => (trade.endOfDay asOfDate).cashflow key := by
  calc
    state.netAfter asOfDate key =
        settlementNet (settledVersions (state.trades.map fun _ trade => trade.endOfDay asOfDate))
          key := rfl
    _ = OrderedMap.total (state.trades.map fun _ trade => trade.endOfDay asOfDate)
        fun _ trade => trade.cashflow key := settlementNet_settledVersions _ key
    _ = OrderedMap.total state.trades fun _ trade => (trade.endOfDay asOfDate).cashflow key := by
      rw [OrderedMap.total, ExtTreeMap.toList_map, List.map_map]
      rfl

/-- When the nets fit after the later run, they fit after the earlier one. -/
theorem State.Netted.netAfter_le (hn : state.Netted) (h : d₁ ≤ d₂)
    (hfit : ∀ key, |state.netAfter d₂ key| ≤ 2 ^ 63 - 1) (key : SettlementKey) :
    |state.netAfter d₁ key| ≤ 2 ^ 63 - 1 := by
  by_cases hdue : key.valueDate ≤ d₁
  · -- What is due under the key was due in both runs.
    have heq : state.netAfter d₁ key = state.netAfter d₂ key := by
      rw [State.netAfter_eq_total, State.netAfter_eq_total]
      apply OrderedMap.total_congr
      intro _ trade _
      exact (trade.cashflow_endOfDay h key).1 hdue
    calc
      |state.netAfter d₁ key| = |state.netAfter d₂ key| := by rw [heq]
      _ ≤ 2 ^ 63 - 1 := hfit key
  · -- The earlier run leaves the key as it was, and there it was netted.
    have heq : state.netAfter d₁ key = settlementNet (settledVersions state.trades) key := by
      rw [State.netAfter_eq_total, settlementNet_settledVersions]
      apply OrderedMap.total_congr
      intro _ trade _
      exact (trade.cashflow_endOfDay h key).2 hdue
    calc
      |state.netAfter d₁ key| = |settlementNet (settledVersions state.trades) key| := by rw [heq]
      _ ≤ 2 ^ 63 - 1 := (deriveBilateralSettlements_ok_iff _).mp ⟨_, hn⟩ key

/-- With a version left, a run succeeds just when every net fits. -/
theorem runEod_ok_iff_nets (hs : state.Coherent) (hh : state.positions.Headroom limits)
    (hn : state.Netted) (hv : state.version ≠ 18446744073709551615) :
    (∃ next, runEod state asOfDate = .ok next) ↔
      ∀ key, |state.netAfter asOfDate key| ≤ 2 ^ 63 - 1 := by
  have hderive := deriveBilateralSettlements_ok_iff (state.settledAfter asOfDate)
  rw [runEod_ok_iff hs hh, hderive]
  constructor
  · rintro (hnone | ⟨_, hfit⟩)
    -- A run that selects nothing keeps the versions, whose nets fit already.
    · apply hderive.mp
      rw [State.settledAfter, State.map_endOfDay_of_eligible_nil hnone]
      exact ⟨_, hn⟩
    · exact hfit
  · exact fun hfit => Or.inr ⟨hv, hfit⟩

/-- Two reachable states with equal trades hold equal limits and obligations. -/
theorem limits_eq_of_trades_eq {p q : Positions} (hp : p.Headroom limits)
    (hq : q.Headroom limits) (h : p.trades = q.trades) : p.limits = q.limits := by
  apply LimitHierarchy.ext
  apply ExtTreeMap.ext_getElem?
  intro key
  have hcapacity := (hp.capacity key).trans (hq.capacity key).symm
  have hreserved : p.limits.reservedAt key = q.limits.reservedAt key := by
    rw [hp.reserved key, hq.reserved key, h]
  unfold LimitHierarchy.capacityAt at hcapacity
  unfold LimitHierarchy.reservedAt at hreserved
  cases hb : p.limits.balances[key]? with
  | none =>
    -- Capacity tells whether a balance is bound, and both amounts fix it.
    rw [hb, Option.map_none, eq_comm, Option.map_eq_none_iff] at hcapacity
    exact hcapacity.symm
  | some balance =>
    rw [hb] at hcapacity hreserved
    obtain ⟨other, ho, hc⟩ := Option.map_eq_some_iff.mp hcapacity.symm
    rw [ho, Option.map_some, Option.map_some, Option.getD_some, Option.getD_some] at hreserved
    cases balance
    cases other
    simp only at hc hreserved
    rw [ho, hc, hreserved]

/-- What a successful run leaves behind. -/
theorem runEod_done (hs : state.Coherent) (h : runEod state asOfDate = .ok next) :
    (∀ (key : TradeVersionKey) (trade : Trade), next.trades[key]? = some trade →
      trade.state = .confirmed → ¬trade.terms.valueDate ≤ asOfDate) ∧
    (∀ (key : TradeVersionKey) (trade : Trade), state.trades[key]? = some trade →
      trade.state ≠ .confirmed ∨ ¬trade.terms.valueDate ≤ asOfDate →
        next.trades[key]? = some trade) ∧
    (next.ledgerEntries = state.ledgerEntries ∧ next.ledgerTotals = state.ledgerTotals ∧
      next.postingIds = state.postingIds ∧
      next.confirmationEntries = state.confirmationEntries ∧
      next.currentVersions = state.currentVersions) ∧
    runEod next asOfDate = .ok next := by
  have htrades := runEod_trades hs h
  have hdone : ∀ (key : TradeVersionKey) (trade : Trade), next.trades[key]? = some trade →
      trade.state = .confirmed → ¬trade.terms.valueDate ≤ asOfDate := by
    intro key trade ht hst hdate
    rw [htrades, ExtTreeMap.getElem?_map] at ht
    obtain ⟨old, ho, rfl⟩ := Option.map_eq_some_iff.mp ht
    by_cases hsel : old.state = .confirmed ∧ old.terms.valueDate ≤ asOfDate
    · rw [Trade.endOfDay_selected hsel.1 hsel.2] at hst
      cases hst
    · rw [Trade.endOfDay, if_neg hsel] at hst hdate
      exact hsel ⟨hst, hdate⟩
  refine ⟨hdone, ?_, ?_, ?_⟩
  · intro key trade ht hkept
    have hsame : trade.endOfDay asOfDate = trade := by
      rcases hkept with hne | hlater
      · exact Trade.endOfDay_of_ne hne
      · exact Trade.endOfDay_of_later hlater
    rw [htrades, ExtTreeMap.getElem?_map, ht, Option.map_some, hsame]
  · rcases runEod_effect hs h with ⟨_, rfl⟩ | ⟨_, _, hrun⟩
    · exact ⟨rfl, rfl, rfl, rfl, rfl⟩
    · rw [hrun.next_eq]
      exact ⟨rfl, rfl, rfl, rfl, rfl⟩
  · -- Nothing is left to select.
    have hnone : next.eligible asOfDate = [] := by
      apply List.eq_nil_iff_forall_not_mem.mpr
      intro key hin
      obtain ⟨trade, ht, hst, hdate⟩ := State.mem_eligible.mp hin
      exact hdone key trade ht hst hdate
    rw [runEod, if_pos hnone]

/-- A run takes at most one version. -/
theorem runEod_version_le (hs : state.Coherent) (h : runEod state asOfDate = .ok next) :
    next.version.toNat ≤ state.version.toNat + 1 := by
  rcases runEod_effect hs h with ⟨_, rfl⟩ | ⟨_, _, hrun⟩
  · omega
  · rw [hrun.next_eq, toNat_next_version hrun.version_ne]

/-- Reachable states with equal trades, ledgers and indices differ in their
versions only. -/
theorem State.Reachable.eq_of_trades_eq {definitions : List LimitDefinition} {first second : State}
    (hc : LimitHierarchy.create definitions = .ok limits) (hf : first.Reachable limits)
    (hsec : second.Reachable limits) (ht : first.trades = second.trades)
    (hl : first.ledgerEntries = second.ledgerEntries)
    (hto : first.ledgerTotals = second.ledgerTotals) (hp : first.postingIds = second.postingIds)
    (he : first.confirmationEntries = second.confirmationEntries)
    (hv : first.currentVersions = second.currentVersions) :
    first = { second with version := first.version } := by
  have hlimits : first.limits = second.limits :=
    limits_eq_of_trades_eq (hf.headroom hc) (hsec.headroom hc) ht
  have hsettlements : first.settlements = second.settlements := by
    have hnetted := hf.netted
    rw [State.Netted, ht, hsec.netted] at hnetted
    exact (Except.ok.inj hnetted).symm
  cases first
  cases second
  simp_all

section Twice

variable {definitions : List LimitDefinition} {d₁ d₂ : IsoDate} {direct first second : State}

/-- The run from an earlier date's result asks about the same nets. -/
theorem State.Reachable.runEod_again_ok_iff (hc : LimitHierarchy.create definitions = .ok limits)
    (h : state.Reachable limits) (hroom : state.version.toNat + 2 ≤ 18446744073709551615)
    (hle : d₁ ≤ d₂) (hf : runEod state d₁ = .ok first) :
    (∃ second, runEod first d₂ = .ok second) ↔ ∀ key, |state.netAfter d₂ key| ≤ 2 ^ 63 - 1 := by
  have hreach : first.Reachable limits := h.tail ⟨.runEod d₁, hf⟩
  have hversion := runEod_version_le h.coherent hf
  have hnets := @runEod_ok_iff_nets limits first d₂ hreach.coherent (hreach.headroom hc)
    hreach.netted (version_ne_last (by omega))
  have hafter : first.settledAfter d₂ = state.settledAfter d₂ := by
    rw [State.settledAfter, runEod_trades h.coherent hf, map_endOfDay_endOfDay hle]
    rfl
  simp only [State.netAfter, hafter] at hnets
  exact hnets

/-- A run for an earlier date in between shows in the version only. -/
theorem State.Reachable.runEod_again_eq (hc : LimitHierarchy.create definitions = .ok limits)
    (h : state.Reachable limits) (hle : d₁ ≤ d₂) (hd : runEod state d₂ = .ok direct)
    (hf : runEod state d₁ = .ok first) (hsec : runEod first d₂ = .ok second) :
    second = { direct with version := second.version } := by
  have hs := h.coherent
  have hfirst : first.Reachable limits := h.tail ⟨.runEod d₁, hf⟩
  obtain ⟨_, _, ⟨hl, hto, hp, he, hcv⟩, _⟩ := runEod_done hs hd
  obtain ⟨_, _, ⟨hl₁, hto₁, hp₁, he₁, hcv₁⟩, _⟩ := runEod_done hs hf
  obtain ⟨_, _, ⟨hl₂, hto₂, hp₂, he₂, hcv₂⟩, _⟩ := runEod_done hfirst.coherent hsec
  apply State.Reachable.eq_of_trades_eq hc (hfirst.tail ⟨.runEod d₂, hsec⟩)
    (h.tail ⟨.runEod d₂, hd⟩)
  · rw [runEod_trades hfirst.coherent hsec, runEod_trades hs hf, runEod_trades hs hd]
    exact map_endOfDay_endOfDay hle state.trades
  · exact hl₂.trans (hl₁.trans hl.symm)
  · exact hto₂.trans (hto₁.trans hto.symm)
  · exact hp₂.trans (hp₁.trans hp.symm)
  · exact he₂.trans (he₁.trans he.symm)
  · exact hcv₂.trans (hcv₁.trans hcv.symm)

end Twice

/-- Skipping or repeating dates changes nothing that a run produces. -/
theorem end_of_day_path_independent {definitions : List LimitDefinition}
    (hc : LimitHierarchy.create definitions = .ok limits) (h : state.Reachable limits) :
    deriveBilateralSettlements (state.trades.toList.map Prod.snd) = .ok state.settlements ∧
    (state.version.toNat + 2 ≤ 18446744073709551615 → ∀ d₁ d₂ : IsoDate, d₁ ≤ d₂ →
      ((∃ direct, runEod state d₂ = .ok direct) ↔
        ∃ first second, runEod state d₁ = .ok first ∧ runEod first d₂ = .ok second) ∧
      ∀ direct first second, runEod state d₂ = .ok direct → runEod state d₁ = .ok first →
        runEod first d₂ = .ok second → second = { direct with version := second.version }) ∧
    ∀ (asOfDate : IsoDate) (next : State), runEod state asOfDate = .ok next →
      (∀ (key : TradeVersionKey) (trade : Trade), next.trades[key]? = some trade →
        trade.state = .confirmed → ¬trade.terms.valueDate ≤ asOfDate) ∧
      (∀ (key : TradeVersionKey) (trade : Trade), state.trades[key]? = some trade →
        trade.state ≠ .confirmed ∨ ¬trade.terms.valueDate ≤ asOfDate →
          next.trades[key]? = some trade) ∧
      (next.ledgerEntries = state.ledgerEntries ∧ next.ledgerTotals = state.ledgerTotals ∧
        next.postingIds = state.postingIds ∧
        next.confirmationEntries = state.confirmationEntries ∧
        next.currentVersions = state.currentVersions) ∧
      runEod next asOfDate = .ok next := by
  have hs := h.coherent
  refine ⟨?_, ?_, fun asOfDate next hrun => runEod_done hs hrun⟩
  · rw [← deriveBilateralSettlements_filter]
    exact h.netted
  · intro hroom d₁ d₂ hle
    have hv : state.version ≠ 18446744073709551615 := version_ne_last (by omega)
    have hdirect (date : IsoDate) : (∃ next, runEod state date = .ok next) ↔
        ∀ key, |state.netAfter date key| ≤ 2 ^ 63 - 1 :=
      runEod_ok_iff_nets hs (h.headroom hc) h.netted hv
    constructor
    · rw [hdirect d₂]
      constructor
      · intro hfit
        obtain ⟨first, hf⟩ := (hdirect d₁).mpr (h.netted.netAfter_le hle hfit)
        obtain ⟨second, hsec⟩ := (h.runEod_again_ok_iff hc hroom hle hf).mpr hfit
        exact ⟨first, second, hf, hsec⟩
      · intro hboth
        obtain ⟨first, second, hf, hsec⟩ := hboth
        exact (h.runEod_again_ok_iff hc hroom hle hf).mp ⟨second, hsec⟩
    · intro direct first second hd hf hsec
      exact h.runEod_again_eq hc hle hd hf hsec

/-- Two confirmed trades that settle on different days. -/
theorem sample_two_days : ∃ (limits : LimitHierarchy) (state : State)
    (obligations : List SettlementObligation),
    LimitHierarchy.create sampleDefinitions = .ok limits ∧ state.Reachable limits ∧
    state.version = 4 ∧ obligations.length = 4 ∧
    deriveBilateralSettlements (state.settledAfter ⟨2024, 1, 4, by decide⟩) = .ok obligations ∧
    state.eligible ⟨2024, 1, 4, by decide⟩ ≠ [] ∧ state.eligible sampleDate ≠ [] ∧
    State.eligible { state with
      trades := state.trades.map fun _ trade => trade.endOfDay sampleDate }
        ⟨2024, 1, 4, by decide⟩ ≠ [] := by
  let day : IsoDate := ⟨2024, 1, 4, by decide⟩
  let other : TradeId := ⟨asciiBytes "B", by decide⟩
  let booking : Operation :=
    .bookTrade other (sampleId .book) (sampleId .counterparty) (sampleId .nettingSet)
      ⟨.fxSpot, sampleDate, day, ⟨.usd, 100, by decide⟩, ⟨.jpy, 15000, by decide⟩, by decide,
        by decide, by decide⟩
  let confirmation : Operation := .confirmTrade other 1
    ⟨⟨asciiBytes "Q1", by decide⟩, ⟨asciiBytes "Q2", by decide⟩, ⟨asciiBytes "Q3", by decide⟩,
      ⟨asciiBytes "Q4", by decide⟩⟩
  have hrun : (do
      let limits ← (LimitHierarchy.create sampleDefinitions).mapError StateError.limitFailure
      let booked ← Operation.apply (State.initial limits) sampleOperations[0]
      let confirmed ← Operation.apply booked sampleOperations[1]
      let both ← booking.apply confirmed
      let state ← confirmation.apply both
      let obligations ← (collectObligations
        ((state.settledAfter day).foldl netTrade ∅).toList).mapError StateError.settlementFailure
      if state.version = 4 ∧ obligations.length = 4 ∧ state.eligible day ≠ [] ∧
          state.eligible sampleDate ≠ [] ∧
          State.eligible { state with
            trades := state.trades.map fun _ trade => trade.endOfDay sampleDate } day ≠ []
        then .ok state
      else .error StateError.tradeNotFound : Except StateError State).isOk = true := by
    decide +kernel
  obtain ⟨_, h⟩ := ok_of_isOk hrun
  simp only [Outcome.bind_ok_iff, Outcome.mapError_ok_iff] at h
  obtain ⟨limits, hl, booked, hb, confirmed, hc, both, ho, state, hs, obligations, hob, h⟩ := h
  split_ifs at h with hfacts
  obtain ⟨hversion, hlen, hselects⟩ := hfacts
  have hreach : state.Reachable limits :=
    (((ReflTransGen.single (b := booked) ⟨_, hb⟩).tail (c := confirmed) ⟨_, hc⟩).tail
      (c := both) ⟨_, ho⟩).tail ⟨_, hs⟩
  have hderive : deriveBilateralSettlements (state.settledAfter day) =
      .ok (obligations.mergeSort fun lhs rhs => !settlementLess rhs lhs) := by
    rw [deriveBilateralSettlements, hob]
    rfl
  exact ⟨limits, state, _, hl, hreach, hversion, (List.length_mergeSort _).trans hlen, hderive,
    hselects⟩

/-- One run on the later day, and one run on each. -/
theorem end_of_day_path_independent_sample : ∃ state direct first second : State,
    runEod state ⟨2024, 1, 4, by decide⟩ = .ok direct ∧ runEod state sampleDate = .ok first ∧
    runEod first ⟨2024, 1, 4, by decide⟩ = .ok second ∧
    (state.version = 4 ∧ direct.version = 5 ∧ first.version = 5 ∧ second.version = 6) ∧
    direct.settlements.length = 4 ∧ second = { direct with version := second.version } ∧
    deriveBilateralSettlements (second.trades.toList.map Prod.snd) = .ok second.settlements ∧
    runEod second ⟨2024, 1, 4, by decide⟩ = .ok second := by
  obtain ⟨limits, state, obligations, hl, hreach, hversion, hlen, hderive, hday, hsample, hlater⟩ :=
    sample_two_days
  have hroom : state.version ≠ 18446744073709551615 := by
    rw [hversion]
    decide
  obtain ⟨direct, hdirect⟩ := (runEod_ok_iff hreach.coherent (hreach.headroom hl)).mpr
    (Or.inr ⟨hroom, _, hderive⟩)
  obtain ⟨_, htwice, _⟩ := end_of_day_path_independent hl hreach
  obtain ⟨hboth, hsame⟩ :=
    htwice (by rw [hversion]; decide) sampleDate ⟨2024, 1, 4, by decide⟩ (by decide)
  obtain ⟨first, second, hfirst, hsecond⟩ := hboth.mp ⟨direct, hdirect⟩
  have hfirstReach : first.Reachable limits := hreach.tail ⟨.runEod _, hfirst⟩
  have hlast : second.Reachable limits := hfirstReach.tail ⟨.runEod _, hsecond⟩
  obtain ⟨hderived, _⟩ := end_of_day_path_independent hl hlast
  obtain ⟨_, _, hdone⟩ := end_of_day_path_independent hl hfirstReach
  -- Each run has something to settle.
  obtain ⟨_, _, hrun⟩ := (runEod_effect hreach.coherent hdirect).resolve_left (hday ·.1)
  obtain ⟨_, _, hrun₁⟩ := (runEod_effect hreach.coherent hfirst).resolve_left (hsample ·.1)
  have hleft : first.eligible ⟨2024, 1, 4, by decide⟩ ≠ [] := by
    rw [hrun₁.next_eq]
    exact hlater
  obtain ⟨_, _, hrun₂⟩ := (runEod_effect hfirstReach.coherent hsecond).resolve_left (hleft ·.1)
  have hfirstVersion : first.version = 5 := by
    rw [hrun₁.next_eq, hversion]
    rfl
  refine ⟨state, direct, first, second, hdirect, hfirst, hsecond, ⟨hversion, ?_, hfirstVersion, ?_⟩,
    ?_, hsame _ _ _ hdirect hfirst hsecond, hderived, (hdone _ _ hsecond).2.2.2⟩
  · rw [hrun.next_eq, hversion]
    rfl
  · rw [hrun₂.next_eq, hfirstVersion]
    rfl
  · obtain rfl := Except.ok.inj (hderive.symm.trans hrun.derives)
    rw [hrun.next_eq]
    exact hlen

end Backbook
