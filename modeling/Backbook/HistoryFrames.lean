import Backbook.EndOfDay
import Backbook.ReachableStates

namespace Backbook

open Std Relation

inductive TradeState.Moves : TradeState → TradeState → Prop
  | confirm : Moves .captured .confirmed
  | discard : Moves .captured .cancelled
  | supersede : Moves .confirmed .superseded
  | cancel : Moves .confirmed .cancelled
  | settle : Moves .confirmed .settled

def TradeState.Final (state : TradeState) : Prop :=
  state = .superseded ∨ state = .cancelled ∨ state = .settled

theorem TradeState.Moves.not_final {old new : TradeState} (h : old.Moves new) : ¬old.Final := by
  cases h <;> simp [TradeState.Final]

theorem TradeState.Moves.not_captured {old new : TradeState} (h : old.Moves new) :
    new ≠ .captured := by
  cases h <;> exact nofun

structure Trade.Continues (old new : Trade) : Prop where
  id : new.id = old.id
  version : new.version = old.version
  bookId : new.bookId = old.bookId
  counterpartyId : new.counterpartyId = old.counterpartyId
  nettingSetId : new.nettingSetId = old.nettingSetId
  terms : new.terms = old.terms
  supersedes : new.supersedes = old.supersedes
  moved : new.state = old.state ∨ old.state.Moves new.state
  linked : new.supersededBy = old.supersededBy ∨
    (old.state ≠ .superseded ∧ new.state = .superseded)
  closed : old.state.Final → new = old

theorem Trade.Continues.refl (trade : Trade) : trade.Continues trade :=
  ⟨rfl, rfl, rfl, rfl, rfl, rfl, rfl, Or.inl rfl, Or.inl rfl, fun _ => rfl⟩

/-- A move of the lifecycle that leaves the link of the version alone. -/
theorem Trade.Continues.restate {trade : Trade} {state : TradeState}
    (h : trade.state.Moves state) : trade.Continues { trade with state := state } :=
  ⟨rfl, rfl, rfl, rfl, rfl, rfl, rfl, Or.inr h, Or.inl rfl, fun hf => absurd hf h.not_final⟩

theorem Trade.Continues.supersede {trade : Trade} (h : trade.state = .confirmed) :
    trade.Continues trade.asSuperseded := by
  have hmove : trade.state.Moves trade.asSuperseded.state := by
    rw [h]
    exact .supersede
  refine ⟨rfl, rfl, rfl, rfl, rfl, rfl, rfl, Or.inr hmove, Or.inr ⟨?_, rfl⟩, ?_⟩
  · rw [h]
    exact nofun
  · exact fun hf => absurd hf hmove.not_final

def VersionsKept (trades trades' : ExtTreeMap TradeVersionKey Trade) : Prop :=
  ∀ (key : TradeVersionKey) (old : Trade), trades[key]? = some old →
    ∃ new, trades'[key]? = some new ∧ old.Continues new

section Versions

variable {trades trades' : ExtTreeMap TradeVersionKey Trade} {k : TradeVersionKey} {trade : Trade}

theorem VersionsKept.refl (trades : ExtTreeMap TradeVersionKey Trade) :
    VersionsKept trades trades :=
  fun _ old ho => ⟨old, ho, .refl old⟩

/-- Storing at one key, over a version that the new one continues. -/
theorem VersionsKept.insert {old : Trade} (hk : trades[k]? = some old)
    (hc : old.Continues trade) : VersionsKept trades (trades.insert k trade) := by
  intro key other ho
  rw [OrderedMap.getElem?_insert_eq]
  split_ifs with he
  · subst he
    obtain rfl := Option.some.inj (hk.symm.trans ho)
    exact ⟨trade, rfl, hc⟩
  · exact ⟨other, ho, .refl other⟩

/-- A new key disturbs no stored version. -/
theorem VersionsKept.insert_fresh (h : VersionsKept trades trades') (hk : trades[k]? = none) :
    VersionsKept trades (trades'.insert k trade) := by
  intro key other ho
  have hne : key ≠ k := by
    rintro rfl
    rw [hk] at ho
    cases ho
  rw [OrderedMap.getElem?_insert_eq, if_neg hne]
  exact h key other ho

theorem VersionsKept.endOfDay (trades : ExtTreeMap TradeVersionKey Trade) (asOfDate : IsoDate) :
    VersionsKept trades (trades.map fun _ trade => Trade.endOfDay asOfDate trade) := by
  intro key old ho
  refine ⟨old.endOfDay asOfDate, by rw [ExtTreeMap.getElem?_map, ho]; rfl, ?_⟩
  unfold Trade.endOfDay
  split_ifs with hsel
  · apply Trade.Continues.restate
    rw [hsel.1]
    exact .settle
  · exact .refl old

end Versions

structure State.Extends (state next : State) : Prop where
  trades : VersionsKept state.trades next.trades
  ledger : state.ledgerEntries <+: next.ledgerEntries
  current : ∀ (tradeId : TradeId) (version : UInt32),
    state.currentVersions[tradeId]? = some version →
      ∃ later, next.currentVersions[tradeId]? = some later ∧ version ≤ later
  capacities : ∀ key, next.limits.capacityAt key = state.limits.capacityAt key

variable {state next : State}

theorem Positions.Move.capacityAt {p q : Positions} (h : p.Move q) (key : LimitKey) :
    q.limits.capacityAt key = p.limits.capacityAt key := by
  cases h with
  | capture | discard => rfl
  | enter trade _ _ hres =>
    obtain ⟨_, _, rfl⟩ := LimitHierarchy.reserve_ok_iff.mp hres
    exact LimitHierarchy.adjust_capacityAt _ _ _ _
  | leave _ _ _ _ _ hrel =>
    obtain ⟨_, _, rfl⟩ := LimitHierarchy.release_ok_iff.mp hrel
    exact LimitHierarchy.adjust_capacityAt _ _ _ _
  | settle _ _ hrel =>
    obtain ⟨_, _, rfl⟩ := LimitHierarchy.release_ok_iff.mp hrel
    exact LimitHierarchy.adjust_capacityAt _ _ _ _

/-- Reservations come and go, capacities stay. -/
theorem State.Refines.capacityAt (h : state.Refines next) (key : LimitKey) :
    next.limits.capacityAt key = state.limits.capacityAt key :=
  h.keeps (P := fun p => p.limits.capacityAt key = state.limits.capacityAt key)
    (fun _ _ hp hm => (hm.capacityAt key).trans hp) rfl

theorem current_insert_kept {currentVersions : ExtTreeMap TradeId UInt32} {id : TradeId}
    {version : UInt32} (h : ∀ old, currentVersions[id]? = some old → old ≤ version)
    (tradeId : TradeId) (current : UInt32) (hc : currentVersions[tradeId]? = some current) :
    ∃ later, (currentVersions.insert id version)[tradeId]? = some later ∧ current ≤ later := by
  rw [OrderedMap.getElem?_insert_eq]
  split_ifs with he
  · subst he
    exact ⟨version, rfl, h current hc⟩
  · exact ⟨current, hc, UInt32.le_refl current⟩

theorem current_same {currentVersions : ExtTreeMap TradeId UInt32} (tradeId : TradeId)
    (current : UInt32) (hc : currentVersions[tradeId]? = some current) :
    ∃ later, currentVersions[tradeId]? = some later ∧ current ≤ later :=
  ⟨current, hc, UInt32.le_refl current⟩

/-- One operation rewrites nothing. -/
theorem Operation.extends {operation : Operation} (hs : state.Coherent)
    (h : operation.apply state = .ok next) : state.Extends next := by
  -- Capacities follow from the refined positions, whatever the operation.
  have hcap := (State.Step.refines hs ⟨operation, h⟩).capacityAt
  cases operation with
  | bookTrade tradeId bookId counterpartyId nettingSetId terms =>
    obtain ⟨hnone, _, rfl⟩ := bookTrade_ok hs.chain h
    refine ⟨?_, List.prefix_rfl, current_insert_kept ?_, hcap⟩
    · exact (VersionsKept.refl _).insert_fresh (hs.chain.none_of_current_none hnone 1)
    · intro old ho
      rw [hnone] at ho
      cases ho
  | confirmTrade tradeId expectedVersion postingIds =>
    obtain ⟨current, limits, entry, totals, hrun⟩ := confirmTrade_ok hs.chain h
    have hmove : current.Continues { current with state := .confirmed } :=
      .restate (by rw [hrun.captured]; exact .confirm)
    rw [hrun.next_eq] at hcap ⊢
    exact ⟨.insert hrun.stored hmove, List.prefix_append _ _, current_same, hcap⟩
  | amendTrade tradeId expectedVersion terms reversalIds postingIds =>
    obtain ⟨current, index, original, reversal, replacement, released, limits, totals, totals',
      hrun⟩ := amendTrade_ok hs.chain h
    -- The replacement takes the next version number, which no version has yet.
    have hfresh := hs.chain.none_of_next hrun.last hrun.key_ne
    have hkept := VersionsKept.insert hrun.stored (.supersede hrun.confirmed)
    rw [hrun.next_eq] at hcap ⊢
    refine ⟨hkept.insert_fresh hfresh, ?_, current_insert_kept ?_, hcap⟩
    · rw [List.append_assoc]
      exact List.prefix_append _ _
    · intro old ho
      obtain rfl := Option.some.inj (hrun.last.symm.trans ho)
      have hmax := hrun.key_ne
      grind
  | cancelTrade tradeId expectedVersion reversalIds =>
    obtain ⟨current, ht, _, hcase⟩ := cancelTrade_ok hs.chain h
    rcases hcase with ⟨hst, hnext⟩ | ⟨ids, index, original, reversal, limits, totals, _, hrun⟩
    · have hmove : current.Continues { current with state := .cancelled } :=
        .restate (by rw [hst]; exact .discard)
      rw [hnext] at hcap ⊢
      exact ⟨.insert ht hmove, List.prefix_rfl, current_same, hcap⟩
    · have hmove : current.Continues { current with state := .cancelled } :=
        .restate (by rw [hrun.confirmed]; exact .cancel)
      rw [hrun.next_eq] at hcap ⊢
      exact ⟨.insert ht hmove, List.prefix_append _ _, current_same, hcap⟩
  | runEod asOfDate =>
    have htrades := runEod_trades hs h
    have hkept := VersionsKept.endOfDay state.trades asOfDate
    rw [← htrades] at hkept
    rcases runEod_effect hs h with ⟨_, rfl⟩ | ⟨limits, obligations, hrun⟩
    · exact ⟨hkept, List.prefix_rfl, current_same, hcap⟩
    · rw [hrun.next_eq] at hcap hkept ⊢
      exact ⟨hkept, List.prefix_rfl, current_same, hcap⟩

def Operation.Idle (state : State) (operation : Operation) : Prop :=
  ∃ asOfDate, operation = .runEod asOfDate ∧ state.eligible asOfDate = []

/-- A version with room above it is not the last one. -/
theorem version_ne_last {version : UInt64} (h : version.toNat < 18446744073709551615) :
    version ≠ 18446744073709551615 := by
  rintro rfl
  exact absurd h (by decide)

theorem toNat_next_version {version : UInt64} (h : version ≠ 18446744073709551615) :
    (version + 1).toNat = version.toNat + 1 := by
  have hlt := version.toNat_lt
  have hne : version.toNat ≠ 18446744073709551615 := by
    intro he
    exact h (UInt64.toNat_inj.mp he)
  rw [UInt64.toNat_add, UInt64.toNat_one]
  omega

/-- Every operation but an idle run takes exactly one version. -/
theorem Operation.version_cases {operation : Operation} (hs : state.Coherent)
    (h : operation.apply state = .ok next) : (operation.Idle state ∧ next = state) ∨
      (¬operation.Idle state ∧ state.version ≠ 18446744073709551615 ∧
        next.version = state.version + 1) := by
  -- Only a run without a selected version is idle.
  have hbusy (hne : ∀ asOfDate, operation ≠ .runEod asOfDate) : ¬operation.Idle state := by
    rintro ⟨asOfDate, he, _⟩
    exact hne asOfDate he
  cases operation with
  | bookTrade tradeId bookId counterpartyId nettingSetId terms =>
    obtain ⟨_, hv, rfl⟩ := bookTrade_ok hs.chain h
    exact Or.inr ⟨hbusy nofun, hv, rfl⟩
  | confirmTrade tradeId expectedVersion postingIds =>
    obtain ⟨_, _, _, _, hrun⟩ := confirmTrade_ok hs.chain h
    exact Or.inr ⟨hbusy nofun, hrun.version_ne, by rw [hrun.next_eq]⟩
  | amendTrade tradeId expectedVersion terms reversalIds postingIds =>
    obtain ⟨_, _, _, _, _, _, _, _, _, hrun⟩ := amendTrade_ok hs.chain h
    exact Or.inr ⟨hbusy nofun, hrun.version_ne, by rw [hrun.next_eq]⟩
  | cancelTrade tradeId expectedVersion reversalIds =>
    obtain ⟨current, _, hv, hcase⟩ := cancelTrade_ok hs.chain h
    refine Or.inr ⟨hbusy nofun, hv, ?_⟩
    rcases hcase with ⟨_, hnext⟩ | ⟨_, _, _, _, _, _, _, hrun⟩
    · rw [hnext]
    · rw [hrun.next_eq]
  | runEod asOfDate =>
    rcases runEod_effect hs h with ⟨hnone, rfl⟩ | ⟨limits, obligations, hrun⟩
    · exact Or.inl ⟨⟨asOfDate, rfl, hnone⟩, rfl⟩
    · refine Or.inr ⟨?_, hrun.version_ne, by rw [hrun.next_eq]⟩
      rintro ⟨other, he, hnone⟩
      obtain rfl := Operation.runEod.inj he
      exact hrun.selects hnone

/-- A run either stays where it is or moves to a later version. -/
theorem State.Reachable.version_lt {limits : LimitHierarchy} (h : state.Reachable limits)
    {later : State} (hrun : ReflTransGen State.Step state later) :
    later = state ∨ state.version.toNat < later.version.toNat := by
  -- Idle runs stay at the state, every other step raises the version.
  induction hrun with
  | refl => exact Or.inl rfl
  | @tail before after hpath hstep ih =>
    obtain ⟨operation, happly⟩ := hstep
    have hs : before.Coherent := State.Reachable.coherent (h.trans hpath)
    rcases Operation.version_cases hs happly with ⟨_, rfl⟩ | ⟨_, hv, hnext⟩
    · exact ih
    · have hsucc := toNat_next_version hv
      right
      rw [hnext, hsucc]
      rcases ih with rfl | hlt
      · omega
      · omega

theorem State.Reachable.version_le {limits : LimitHierarchy} (h : state.Reachable limits)
    {later : State} (hrun : ReflTransGen State.Step state later) :
    state.version.toNat ≤ later.version.toNat := by
  rcases h.version_lt hrun with rfl | hlt
  · exact le_rfl
  · exact hlt.le

/-- A run that ends at the version it began with has gone nowhere. -/
theorem State.Reachable.eq_of_version_eq {limits : LimitHierarchy} (h : state.Reachable limits)
    {later : State} (hrun : ReflTransGen State.Step state later)
    (hversion : state.version = later.version) : state = later := by
  rcases h.version_lt hrun with heq | hlt
  · exact heq.symm
  · rw [hversion] at hlt
    exact absurd hlt (lt_irrefl _)

/-- Every operation on a reachable state keeps all of its history. It takes one
version, or none and then changes nothing, so a version names one state. -/
theorem history_append_only {limits : LimitHierarchy} {state : State}
    (h : state.Reachable limits) :
    (∀ (operation : Operation) (next : State), operation.apply state = .ok next →
      state.Extends next ∧
      (operation.Idle state → next = state) ∧
      (¬operation.Idle state → next.version.toNat = state.version.toNat + 1)) ∧
    ∀ later, ReflTransGen State.Step state later → later.version = state.version →
      later = state := by
  refine ⟨fun operation next happly => ⟨Operation.extends h.coherent happly, ?_, ?_⟩, ?_⟩
  · intro hidle
    rcases Operation.version_cases h.coherent happly with ⟨_, rfl⟩ | ⟨hbusy, _⟩
    · rfl
    · exact absurd hidle hbusy
  · intro hbusy
    rcases Operation.version_cases h.coherent happly with ⟨hidle, _⟩ | ⟨_, hv, hnext⟩
    · exact absurd hidle hbusy
    · rw [hnext, toNat_next_version hv]
  · intro later hrun hversion
    exact (h.eq_of_version_eq hrun hversion.symm).symm

theorem history_append_only_sample : ∃ before state : State, state.ledgerEntries.length = 1 ∧
    before.Extends state := by
  obtain ⟨limits, before, state, _, hb, ⟨operation, happly⟩, hlen⟩ := sample_run
  have h : before.Reachable limits := ReflTransGen.single hb
  exact ⟨before, state, hlen, ((history_append_only h).1 operation state happly).1⟩

end Backbook
