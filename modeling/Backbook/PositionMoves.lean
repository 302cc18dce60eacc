import Backbook.DomainState

/-! What the component is for: a trade version is captured, and then discarded,
or opened against the limits and the ledger and later closed or settled. The
operations of the state are sequences of these moves. -/
namespace Backbook

open Std

@[ext] structure Positions where
  trades : ExtTreeMap TradeVersionKey Trade
  ledgerEntries : List LedgerEntry
  confirmationEntries : ExtTreeMap TradeVersionKey ℕ
  postingIds : ExtTreeSet PostingId
  limits : LimitHierarchy

def State.positions (state : State) : Positions :=
  ⟨state.trades, state.ledgerEntries, state.confirmationEntries, state.postingIds, state.limits⟩

inductive Positions.Move : Positions → Positions → Prop
  | capture {p : Positions} {key : TradeVersionKey} {trade : Trade}
      (hfresh : p.trades[key]? = none) (hs : trade.state = .captured) :
      Move p { p with trades := p.trades.insert key trade }
  | discard {p : Positions} {key : TradeVersionKey} {trade : Trade}
      (ht : p.trades[key]? = some trade) (hs : trade.state = .captured) :
      Move p { p with trades := p.trades.insert key { trade with state := .cancelled } }
  | enter {p : Positions} {key : TradeVersionKey} (trade : Trade) {limits : LimitHierarchy}
      {entry : LedgerEntry} (hold : ∀ old, p.trades[key]? = some old → old.state = .captured)
      (hs : trade.state = .confirmed)
      (hres : p.limits.reserve trade.limitPath trade.terms.pay = .ok limits)
      (hent : entry.contents = trade.confirmationContents)
      (hids : ∀ posting ∈ entry.postings, posting.id ∉ p.postingIds) :
      Move p {
        trades := p.trades.insert key trade
        ledgerEntries := p.ledgerEntries ++ [entry]
        confirmationEntries := p.confirmationEntries.insert key p.ledgerEntries.length
        postingIds := insertPostingIds p.postingIds entry
        limits := limits }
  | leave {p : Positions} {key : TradeVersionKey} {trade : Trade} (left : Trade)
      {limits : LimitHierarchy} {index : ℕ} {original reversal : LedgerEntry}
      (ht : p.trades[key]? = some trade)
      (hs : trade.state = .confirmed) (hl : left.state = .superseded ∨ left.state = .cancelled)
      (hsame : left.confirmationContents = trade.confirmationContents)
      (hrel : p.limits.release trade.limitPath trade.terms.pay = .ok limits)
      (hidx : p.confirmationEntries[key]? = some index)
      (horig : p.ledgerEntries[index]? = some original)
      (hent : original.contents = trade.confirmationContents)
      (hrev : IsReversalOf original reversal)
      (hids : ∀ posting ∈ reversal.postings, posting.id ∉ p.postingIds) :
      Move p { p with
        trades := p.trades.insert key left
        ledgerEntries := p.ledgerEntries ++ [reversal]
        postingIds := insertPostingIds p.postingIds reversal
        limits := limits }
  | settle {p : Positions} {key : TradeVersionKey} {trade : Trade} {limits : LimitHierarchy}
      (ht : p.trades[key]? = some trade) (hs : trade.state = .confirmed)
      (hrel : p.limits.release trade.limitPath trade.terms.pay = .ok limits) :
      Move p { p with
        trades := p.trades.insert key { trade with state := .settled }
        limits := limits }

/-- What a version occupies at one node and currency: its pay amount while it is
confirmed and the node is on its path. -/
def Trade.exposure (key : LimitKey) (trade : Trade) : ℤ :=
  if trade.state = .confirmed ∧ trade.terms.pay.currency = key.currency ∧
      key.node ∈ trade.limitPath.nodes then
    trade.terms.pay.minorUnits
  else 0

theorem Trade.exposure_nonneg (key : LimitKey) (trade : Trade) : 0 ≤ trade.exposure key := by
  unfold Trade.exposure
  split_ifs
  · exact trade.terms.pay_pos.le
  · exact le_rfl

theorem Trade.exposure_of_ne {trade : Trade} (hs : trade.state ≠ .confirmed) (key : LimitKey) :
    trade.exposure key = 0 := by
  simp [Trade.exposure, hs]

theorem Trade.exposure_of_confirmed {trade : Trade} (hs : trade.state = .confirmed)
    (key : LimitKey) : trade.exposure key =
      if key.node ∈ trade.limitPath.nodes ∧ key.currency = trade.terms.pay.currency then
        trade.terms.pay.minorUnits
      else 0 := by
  simp only [Trade.exposure, hs, true_and, @eq_comm _ trade.terms.pay.currency, and_comm]

structure Positions.Headroom (limits : LimitHierarchy) (p : Positions) : Prop where
  capacity : ∀ key, p.limits.capacityAt key = limits.capacityAt key
  reserved : ∀ key, p.limits.reservedAt key =
    OrderedMap.total p.trades fun _ trade => trade.exposure key
  within : ∀ (key : LimitKey) (balance : LimitBalance), p.limits.balances[key]? = some balance →
    balance.reserved ≤ balance.capacity

variable {limits : LimitHierarchy} {p q : Positions}

theorem Positions.Headroom.reservedAt_nonneg (h : p.Headroom limits) (key : LimitKey) :
    0 ≤ p.limits.reservedAt key := by
  rw [h.reserved key]
  refine List.sum_nonneg ?_
  intro x hx
  obtain ⟨_, _, rfl⟩ := List.mem_map.mp hx
  exact Trade.exposure_nonneg _ _

/-- A version that leaves the confirmed state frees what it occupied. -/
theorem Positions.Headroom.release (h : p.Headroom limits) {key : TradeVersionKey}
    {trade left : Trade} {next : LimitHierarchy} (ht : p.trades[key]? = some trade)
    (hs : trade.state = .confirmed) (hl : left.state ≠ .confirmed)
    (hrel : p.limits.release trade.limitPath trade.terms.pay = .ok next)
    (htr : q.trades = p.trades.insert key left) (hlim : q.limits = next) :
    q.Headroom limits := by
  obtain ⟨hpos, hall, rfl⟩ := LimitHierarchy.release_ok_iff.mp hrel
  have hdef : ∀ node ∈ trade.limitPath.nodes, ∃ found,
      p.limits.balances[(⟨node, trade.terms.pay.currency⟩ : LimitKey)]? = some found :=
    fun node hn => (hall node hn).imp fun _ hf => hf.1
  refine ⟨fun k => ?_, fun k => ?_, fun k balance hk => ?_⟩
  · rw [hlim, LimitHierarchy.adjust_capacityAt, h.capacity]
  · rw [hlim, htr, LimitHierarchy.adjust_reservedAt _ _ hdef, h.reserved,
      OrderedMap.total_insert_eq _ _ key left (trade.exposure k) (by rw [ht]; rfl),
      left.exposure_of_ne hl, trade.exposure_of_confirmed hs]
    split_ifs <;> ring
  · rw [hlim] at hk
    obtain ⟨found, hf, hcapacity, hmoved⟩ := LimitHierarchy.adjust_origin hk
    have hold := h.within k found hf
    omega

/-- Every move keeps the headroom account exact. -/
theorem Positions.Headroom.move (h : p.Headroom limits) (hm : p.Move q) : q.Headroom limits := by
  cases hm with
  | @capture key trade hfresh hs =>
    refine ⟨h.capacity, fun k => ?_, h.within⟩
    rw [OrderedMap.total_insert_eq _ _ key trade 0 (by rw [hfresh]; rfl),
      trade.exposure_of_ne (by simp [hs])]
    simpa using h.reserved k
  | @discard key trade ht hs =>
    refine ⟨h.capacity, fun k => ?_, h.within⟩
    rw [OrderedMap.total_insert_eq _ _ key _ 0
      (by rw [ht]; exact trade.exposure_of_ne (by simp [hs]) k), Trade.exposure_of_ne (by simp)]
    simpa using h.reserved k
  | @enter key trade next entry hold hs hres hent hids =>
    obtain ⟨hpos, hall, rfl⟩ := LimitHierarchy.reserve_ok_iff.mp hres
    have hdef : ∀ node ∈ trade.limitPath.nodes, ∃ found,
        p.limits.balances[(⟨node, trade.terms.pay.currency⟩ : LimitKey)]? = some found :=
      fun node hn => (hall node hn).imp fun _ hf => hf.1
    -- What stood at the key was captured at most, and occupied nothing.
    have hzero (k : LimitKey) : p.trades[key]?.elim 0 (Trade.exposure k) = 0 := by
      cases hk : p.trades[key]? with
      | none => rfl
      | some old => exact old.exposure_of_ne (by simp [hold old hk]) k
    refine ⟨fun k => ?_, fun k => ?_, fun k balance hk => ?_⟩
    · rw [LimitHierarchy.adjust_capacityAt, h.capacity]
    · rw [LimitHierarchy.adjust_reservedAt _ _ hdef, h.reserved,
        OrderedMap.total_insert_eq _ _ key trade 0 (hzero k), trade.exposure_of_confirmed hs]
      ring
    · rw [LimitHierarchy.adjust_getElem? _ trade.limitPath.nodes_nodup] at hk
      split_ifs at hk with hin
      · obtain ⟨found, hf, rfl⟩ := Option.map_eq_some_iff.mp hk
        obtain ⟨found', hf', hroom⟩ := hall k.node hin.1
        rw [← hin.2, hf] at hf'
        obtain rfl := Option.some.inj hf'
        simp only
        omega
      · exact h.within k balance hk
  | @leave key trade left next _ _ _ ht hs hl _ hrel =>
    exact h.release ht hs (by rcases hl with hl | hl <;> simp [hl]) hrel rfl rfl
  | @settle key trade next ht hs hrel => exact h.release ht hs (by simp) hrel rfl rfl

/-- A confirmed version can always give back what it occupies. -/
theorem Positions.Headroom.release_ok (h : p.Headroom limits) {key : TradeVersionKey}
    {trade : Trade} (ht : p.trades[key]? = some trade) (hs : trade.state = .confirmed) :
    ∃ next, p.limits.release trade.limitPath trade.terms.pay = .ok next := by
  refine ⟨_, LimitHierarchy.release_ok_iff.mpr ⟨trade.terms.pay_pos, fun node hn => ?_, rfl⟩⟩
  have hexp : trade.exposure ⟨node, trade.terms.pay.currency⟩ = trade.terms.pay.minorUnits := by
    simp [Trade.exposure, hs, hn]
  -- One summand is at most the sum, which is what the node reserves.
  have hle := OrderedMap.single_le_total p.trades
    (fun _ t => Trade.exposure ⟨node, trade.terms.pay.currency⟩ t)
    (fun _ t _ => t.exposure_nonneg _) key trade ht
  have hpos := trade.terms.pay_pos
  simp only [hexp, ← h.reserved] at hle
  unfold LimitHierarchy.reservedAt at hle
  cases hf : p.limits.balances[(⟨node, trade.terms.pay.currency⟩ : LimitKey)]? with
  | none =>
    rw [hf] at hle
    simp only [Option.map_none, Option.getD_none] at hle
    omega
  | some found =>
    rw [hf] at hle
    exact ⟨found, rfl, hle⟩

theorem Positions.Headroom.initial {definitions : List LimitDefinition}
    (hc : LimitHierarchy.create definitions = .ok limits) :
    (State.initial limits).positions.Headroom limits := by
  refine ⟨fun _ => rfl, fun key => ?_, fun key balance hk => ?_⟩
  · rw [State.positions, State.initial]
    simp only [OrderedMap.total_empty, LimitHierarchy.reservedAt]
    cases hk : limits.balances[key]? with
    | none => rfl
    | some balance => simpa using (LimitHierarchy.create_getElem? hc key balance hk).1
  · obtain ⟨hr, hcap, _⟩ := LimitHierarchy.create_getElem? hc key balance hk
    rw [hr]
    exact hcap

end Backbook
