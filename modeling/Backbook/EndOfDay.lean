import Backbook.StateRuns
import Backbook.StateUnwinding

namespace Backbook

open Std

def Trade.endOfDay (asOfDate : IsoDate) (trade : Trade) : Trade :=
  if trade.state = .confirmed ∧ trade.terms.valueDate ≤ asOfDate then
    { trade with state := .settled }
  else trade

variable {state next : State} {asOfDate : IsoDate} {trade : Trade}

theorem Trade.endOfDay_selected (hs : trade.state = .confirmed)
    (hd : trade.terms.valueDate ≤ asOfDate) :
    trade.endOfDay asOfDate = { trade with state := .settled } := by
  rw [Trade.endOfDay, if_pos ⟨hs, hd⟩]

theorem Trade.endOfDay_of_ne (hs : trade.state ≠ .confirmed) :
    trade.endOfDay asOfDate = trade := by
  rw [Trade.endOfDay, if_neg fun h => hs h.1]

theorem Trade.endOfDay_of_later (hd : ¬trade.terms.valueDate ≤ asOfDate) :
    trade.endOfDay asOfDate = trade := by
  rw [Trade.endOfDay, if_neg fun h => hd h.2]

/-- The loop settles its keys and leaves every other version alone. -/
theorem settleEach_trades {keys : List TradeVersionKey} (h : settleEach keys state = .ok next)
    (hd : keys.Nodup)
    (hall : ∀ key ∈ keys, ∃ trade, state.trades[key]? = some trade ∧ trade.state = .confirmed)
    (k : TradeVersionKey) : next.trades[k]? =
      if k ∈ keys then state.trades[k]?.map fun trade => { trade with state := .settled }
      else state.trades[k]? := by
  -- The loop keeps the keys still to come confirmed, so the state is general.
  induction keys generalizing state with
  | nil =>
    obtain rfl := Except.ok.inj h
    simp
  | cons key keys ih =>
    obtain ⟨hout, hrest⟩ := List.nodup_cons.mp hd
    obtain ⟨trade, ht, hst⟩ := hall key List.mem_cons_self
    rw [settleEach_cons ht hst, Outcome.bind_ok_iff] at h
    obtain ⟨limits, hrel, h⟩ := h
    have hothers := others_confirmed hout hall { trade with state := .settled }
    have hk := ih h hrest hothers
    rw [hk, OrderedMap.getElem?_insert_eq]
    by_cases he : k = key
    · -- The first key is settled by this pass, and no later pass selects it.
      subst he
      simp [hout, ht]
    · simp [he]

/-- The run as a map over the stored versions. -/
theorem settleEach_eligible (h : settleEach (state.eligible asOfDate) state = .ok next) :
    next.trades = state.trades.map fun _ trade => trade.endOfDay asOfDate := by
  apply ExtTreeMap.ext_getElem?
  intro k
  have hk := settleEach_trades h (State.eligible_nodup asOfDate)
    (State.eligible_confirmed asOfDate) k
  rw [hk, ExtTreeMap.getElem?_map]
  cases ht : state.trades[k]? with
  | none => simp
  | some trade =>
    -- Selected keys are those whose version the map changes.
    by_cases hin : k ∈ state.eligible asOfDate
    · obtain ⟨other, ho, hst, hdate⟩ := State.mem_eligible.mp hin
      obtain rfl := Option.some.inj (ht.symm.trans ho)
      simp [hin, Trade.endOfDay_selected hst hdate]
    · have hkept : trade.endOfDay asOfDate = trade := by
        unfold Trade.endOfDay
        split_ifs with hsel
        · exact absurd (State.mem_eligible.mpr ⟨trade, ht, hsel⟩) hin
        · rfl
      simp [hin, hkept]

/-- Without a selected version the map changes nothing. -/
theorem State.map_endOfDay_of_eligible_nil (h : state.eligible asOfDate = []) :
    (state.trades.map fun _ trade => trade.endOfDay asOfDate) = state.trades := by
  apply ExtTreeMap.ext_getElem?
  intro k
  rw [ExtTreeMap.getElem?_map]
  cases ht : state.trades[k]? with
  | none => rfl
  | some trade =>
    have hsel : ¬(trade.state = .confirmed ∧ trade.terms.valueDate ≤ asOfDate) := by
      intro hsel
      have hin : k ∈ state.eligible asOfDate := State.mem_eligible.mpr ⟨trade, ht, hsel⟩
      rw [h] at hin
      cases hin
    rw [Option.map_some, Trade.endOfDay, if_neg hsel]

def State.settledAfter (state : State) (asOfDate : IsoDate) : List Trade :=
  ((state.trades.map fun _ trade => trade.endOfDay asOfDate).toList.map Prod.snd).filter
    (·.state = .settled)

structure State.EndOfDay (state next : State) (asOfDate : IsoDate) (limits : LimitHierarchy)
    (obligations : List SettlementObligation) : Prop where
  selects : state.eligible asOfDate ≠ []
  settles : settleEach (state.eligible asOfDate) state = .ok { state with
    trades := state.trades.map fun _ trade => trade.endOfDay asOfDate
    limits := limits }
  derives : deriveBilateralSettlements (state.settledAfter asOfDate) = .ok obligations
  version_ne : state.version ≠ 18446744073709551615
  next_eq : next = { state with
    version := state.version + 1
    trades := state.trades.map fun _ trade => trade.endOfDay asOfDate
    limits := limits
    settlements := obligations }

/-- The loop succeeds on every state whose reservations are backed. -/
theorem settleEach_eligible_ok (hs : state.Coherent) {limits : LimitHierarchy}
    (hh : state.positions.Headroom limits) : ∃ released,
      settleEach (state.eligible asOfDate) state = .ok { state with
        trades := state.trades.map fun _ trade => trade.endOfDay asOfDate
        limits := released } := by
  have hd : (state.eligible asOfDate).Nodup := State.eligible_nodup asOfDate
  have hall := @State.eligible_confirmed state asOfDate
  cases h : settleEach (state.eligible asOfDate) state with
  | error e => exact absurd h (settleEach_never_fails hh hd hall e)
  | ok settled =>
    obtain ⟨_, _, hframe⟩ := settleEach_ok h hd hall hs.chain
    have htrades := settleEach_eligible h
    rw [hframe, htrades]
    exact ⟨_, rfl⟩

theorem runEod_effect (hs : state.Coherent) (h : runEod state asOfDate = .ok next) :
    (state.eligible asOfDate = [] ∧ next = state) ∨
      ∃ limits obligations, state.EndOfDay next asOfDate limits obligations := by
  rcases runEod_ok h with hnone | ⟨hsel, settled, obligations, hset, hob, hv, rfl⟩
  · exact Or.inl hnone
  · obtain ⟨_, _, hframe⟩ := settleEach_ok hset (State.eligible_nodup asOfDate)
      (State.eligible_confirmed asOfDate) hs.chain
    have htrades := settleEach_eligible hset
    -- The loop touches trades and limits only, and the trades are the map.
    have hwhole : settled = { state with
        trades := state.trades.map fun _ trade => trade.endOfDay asOfDate
        limits := settled.limits } := by
      rw [← htrades]
      exact hframe
    right
    refine ⟨settled.limits, obligations, hsel, by rw [← hwhole]; exact hset, ?_, ?_, ?_⟩
    · rw [State.settledAfter, ← htrades]
      exact hob
    · rw [hwhole] at hv
      exact hv
    · rw [hwhole]

/-- A run succeeds just when there is nothing to settle, or when the obligations
can be netted and a version is left. -/
theorem runEod_ok_iff (hs : state.Coherent) {limits : LimitHierarchy}
    (hh : state.positions.Headroom limits) : (∃ next, runEod state asOfDate = .ok next) ↔
      state.eligible asOfDate = [] ∨ (state.version ≠ 18446744073709551615 ∧
        ∃ obligations, deriveBilateralSettlements (state.settledAfter asOfDate) =
          .ok obligations) := by
  constructor
  · rintro ⟨next, h⟩
    rcases runEod_effect hs h with ⟨hnone, _⟩ | ⟨_, obligations, hrun⟩
    · exact Or.inl hnone
    · exact Or.inr ⟨hrun.version_ne, obligations, hrun.derives⟩
  · intro h
    by_cases hnone : state.eligible asOfDate = []
    · exact ⟨state, by simp [runEod, hnone]⟩
    · obtain ⟨hv, obligations, hob⟩ := h.resolve_left hnone
      obtain ⟨released, hset⟩ := @settleEach_eligible_ok _ asOfDate hs _ hh
      simp only [runEod, if_neg hnone, hset, Outcome.ok_bind]
      exact ⟨_, Outcome.bind_ok_iff.mpr ⟨obligations, Outcome.mapError_ok_iff.mpr hob,
        State.advanceVersion_ok_iff.mpr ⟨hv, rfl⟩⟩⟩

/-- The lookup of a version after a run. -/
theorem runEod_trades (hs : state.Coherent) (h : runEod state asOfDate = .ok next) :
    next.trades = state.trades.map fun _ trade => trade.endOfDay asOfDate := by
  rcases runEod_effect hs h with ⟨hnone, rfl⟩ | ⟨_, _, hrun⟩
  · exact (State.map_endOfDay_of_eligible_nil hnone).symm
  · rw [hrun.next_eq]

end Backbook
