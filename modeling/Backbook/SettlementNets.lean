import Backbook.DomainSettlement
import Backbook.OrderedMaps

namespace Backbook

open Std

instance : LawfulEqOrd SettlementKey where
  eq_of_compare {a b} h := by
    obtain ⟨hc, h⟩ := compareLex_eq_eq.mp h
    obtain ⟨hn, h⟩ := compareLex_eq_eq.mp h
    obtain ⟨hd, hu⟩ := compareLex_eq_eq.mp h
    simp only [compareOn, LawfulEqCmp.compare_eq_iff_eq] at hc hn hd hu
    cases a
    cases b
    simp_all

def SettlementDirection.signed : SettlementDirection → ℤ → ℤ
  | .outgoing, amount => amount
  | .incoming, amount => -amount

def NetAccumulator.net (accumulator : NetAccumulator) : ℤ :=
  match accumulator.direction with
  | none => 0
  | some direction => direction.signed accumulator.unmatchedAmounts.sum

structure NetAccumulator.Sound (accumulator : NetAccumulator) : Prop where
  positive : ∀ amount ∈ accumulator.unmatchedAmounts, 0 < amount
  open_iff : accumulator.direction = none ↔ accumulator.unmatchedAmounts = []

theorem NetAccumulator.sound_empty : NetAccumulator.Sound ⟨none, []⟩ :=
  ⟨nofun, by simp⟩

theorem SettlementDirection.eq_or (a b : SettlementDirection) :
    a = b ∨ ∀ x, a.signed x = -b.signed x := by
  cases a <;> cases b <;> simp [SettlementDirection.signed]

theorem SettlementDirection.signed_add (d : SettlementDirection) (x y : ℤ) :
    d.signed (x + y) = d.signed x + d.signed y := by
  cases d with
  | outgoing => rfl
  | incoming => exact neg_add x y

theorem SettlementDirection.abs_signed (d : SettlementDirection) (x : ℤ) : |d.signed x| = |x| := by
  cases d <;> simp [SettlementDirection.signed]

/-- Cancelling keeps the difference of both sides, and only one side is left. -/
theorem cancelOpposite_spec (amounts : List ℤ) (amount : ℤ) (hpos : ∀ x ∈ amounts, 0 < x)
    (ha : 0 ≤ amount) :
    (cancelOpposite amounts amount).1.sum - (cancelOpposite amounts amount).2 =
        amounts.sum - amount ∧
      (∀ x ∈ (cancelOpposite amounts amount).1, 0 < x) ∧
      0 ≤ (cancelOpposite amounts amount).2 ∧
      (0 < (cancelOpposite amounts amount).2 → (cancelOpposite amounts amount).1 = []) := by
  -- The amount left over shrinks with every opposite amount that is used up.
  induction amounts generalizing amount with
  | nil =>
    simp [cancelOpposite, ha]
  | cons opposite rest ih =>
    have hopp := hpos opposite List.mem_cons_self
    have hrest : ∀ x ∈ rest, 0 < x := fun x hx => hpos x (List.mem_cons_of_mem _ hx)
    unfold cancelOpposite
    split_ifs with hdone hsmall
    · exact ⟨rfl, hpos, ha, fun hlt => absurd hlt (by simp only; omega)⟩
    · refine ⟨?_, ?_, le_rfl, fun hlt => absurd hlt (lt_irrefl _)⟩
      · simp only [List.sum_cons]
        ring
      · intro x hx
        rcases List.mem_cons.mp hx with rfl | hx
        · omega
        · exact hrest x hx
    · -- The whole of the opposite amount is used up.
      obtain ⟨hsum, hall, hnonneg, hempty⟩ := ih (amount - opposite) hrest (by omega)
      refine ⟨?_, hall, hnonneg, hempty⟩
      rw [hsum, List.sum_cons]
      ring

theorem NetAccumulator.Sound.addCashflow {accumulator : NetAccumulator} (h : accumulator.Sound)
    (direction : SettlementDirection) {amount : ℤ} (ha : 0 < amount) :
    (Backbook.addCashflow accumulator direction amount).Sound ∧
      (Backbook.addCashflow accumulator direction amount).net =
        accumulator.net + direction.signed amount := by
  unfold Backbook.addCashflow
  split_ifs with hsame
  · -- Nothing is open in the other direction.
    have hpush : ∀ x ∈ amount :: accumulator.unmatchedAmounts, 0 < x := by
      intro x hx
      rcases List.mem_cons.mp hx with rfl | hx
      · exact ha
      · exact h.positive x hx
    refine ⟨⟨hpush, by simp⟩, ?_⟩
    rcases hsame with hnone | hsome
    · have hnil := h.open_iff.mp hnone
      simp only [NetAccumulator.net, hnone, hnil, List.sum_cons, List.sum_nil, add_zero, zero_add]
    · simp only [NetAccumulator.net, hsome, List.sum_cons, SettlementDirection.signed_add]
      ring
  -- The new amount runs against what is open, and one of three things is left.
  · obtain ⟨hnone, hother⟩ := not_or.mp hsame
    obtain ⟨opposite, hopp⟩ := Option.ne_none_iff_exists'.mp hnone
    have hne : opposite ≠ direction := by
      rintro rfl
      exact hother hopp
    have hsign := (SettlementDirection.eq_or opposite direction).resolve_left hne
    obtain ⟨hsum, hall, hnonneg, hempty⟩ :=
      cancelOpposite_spec accumulator.unmatchedAmounts amount h.positive ha.le
    simp only [NetAccumulator.net, hopp]
    split_ifs with hleft hnil
    · have hgone := hempty hleft
      rw [hgone] at hsum ⊢
      refine ⟨⟨?_, by simp⟩, ?_⟩
      · intro x hx
        obtain rfl := List.mem_singleton.mp hx
        exact hleft
      · simp only [List.sum_nil, List.sum_cons, add_zero, hsign] at hsum ⊢
        cases direction <;> simp only [SettlementDirection.signed] at hsum ⊢ <;> omega
    · refine ⟨NetAccumulator.sound_empty, ?_⟩
      rw [hnil] at hsum
      simp only [List.sum_nil, hsign] at hsum ⊢
      cases direction <;> simp only [SettlementDirection.signed] <;> omega
    · refine ⟨⟨hall, by simp [hnil]⟩, ?_⟩
      simp only [hsign]
      cases direction <;> simp only [SettlementDirection.signed] <;> omega

/-- The checked sum of positive amounts fails just when the sum is too large. -/
theorem checkedSum_ok_iff (amounts : List ℤ) (total : ℤ) (hpos : ∀ x ∈ amounts, 0 < x) :
    (amounts.foldlM (fun total amount =>
        if total > 2 ^ 63 - 1 - amount then Except.error SettlementError.arithmeticOverflow
        else .ok (total + amount)) total).isOk = true ↔
      amounts = [] ∨ total + amounts.sum ≤ 2 ^ 63 - 1 := by
  induction amounts generalizing total with
  | nil => simp [Except.isOk, pure, Except.pure, Except.toBool]
  | cons amount rest ih =>
    have hrest : ∀ x ∈ rest, 0 < x := fun x hx => hpos x (List.mem_cons_of_mem _ hx)
    have hsum : 0 ≤ rest.sum := List.sum_nonneg fun x hx => (hrest x hx).le
    rw [List.foldlM_cons]
    split_ifs with hover
    · simp only [Outcome.error_bind, Except.isOk, Except.toBool, Bool.false_eq_true, false_or,
        false_iff, List.sum_cons]
      omega
    · rw [Outcome.ok_bind, ih _ hrest, List.sum_cons]
      simp only [false_or]
      constructor
      · rintro (rfl | hle)
        · simp only [List.sum_nil]
          omega
        · omega
      · intro hle
        right
        omega

theorem totalMagnitude_ok_iff {accumulator : NetAccumulator} (h : accumulator.Sound) :
    (∃ magnitude, totalMagnitude accumulator = .ok magnitude) ↔
      |accumulator.net| ≤ 2 ^ 63 - 1 := by
  have hpos : ∀ x ∈ accumulator.unmatchedAmounts.reverse, 0 < x := by
    intro x hx
    exact h.positive x (List.mem_reverse.mp hx)
  have hsum : 0 ≤ accumulator.unmatchedAmounts.sum :=
    List.sum_nonneg fun x hx => (h.positive x hx).le
  have hok := checkedSum_ok_iff accumulator.unmatchedAmounts.reverse 0 hpos
  have hex : (∃ magnitude, totalMagnitude accumulator = .ok magnitude) ↔
      (totalMagnitude accumulator).isOk = true := by
    cases totalMagnitude accumulator <;> simp [Except.isOk, Except.toBool]
  -- Open amounts have one sign, so their sum is the magnitude of the net.
  rw [hex, totalMagnitude, hok, List.reverse_eq_nil_iff, List.sum_reverse, zero_add]
  cases hd : accumulator.direction with
  | none =>
    have hnil := h.open_iff.mp hd
    simp [NetAccumulator.net, hd, hnil]
  | some direction =>
    have hnet : |accumulator.net| = accumulator.unmatchedAmounts.sum := by
      simp only [NetAccumulator.net, hd, SettlementDirection.abs_signed, abs_of_nonneg hsum]
    rw [hnet]
    constructor
    · rintro (hnil | hle)
      · rw [hnil]
        decide
      · exact hle
    · exact Or.inr

def Trade.cashflow (key : SettlementKey) (trade : Trade) : ℤ :=
  if trade.state = .settled ∧ key.counterpartyId = trade.counterpartyId ∧
      key.nettingSetId = trade.nettingSetId ∧ key.valueDate = trade.terms.valueDate then
    (if key.currency = trade.terms.pay.currency then trade.terms.pay.minorUnits else 0) -
      if key.currency = trade.terms.receive.currency then trade.terms.receive.minorUnits else 0
  else 0

def settlementNet (trades : List Trade) (key : SettlementKey) : ℤ :=
  (trades.map (Trade.cashflow key)).sum

def accumulatorAt (netByKey : ExtTreeMap SettlementKey NetAccumulator) (key : SettlementKey) :
    NetAccumulator :=
  netByKey.getD key ⟨none, []⟩

section Keys

variable {netByKey : ExtTreeMap SettlementKey NetAccumulator}

theorem accumulatorAt_addToKey (key k : SettlementKey) (direction : SettlementDirection)
    (amount : ℤ) : accumulatorAt (addToKey netByKey k direction amount) key =
      if key = k then addCashflow (accumulatorAt netByKey k) direction amount
      else accumulatorAt netByKey key := by
  unfold accumulatorAt addToKey
  rw [ExtTreeMap.getD_insert]
  by_cases he : key = k
  · subst he
    simp
  · have hne : compare k key ≠ .eq := fun hc => he (LawfulEqCmp.eq_of_compare hc).symm
    rw [if_neg hne, if_neg he]

/-- One cashflow keeps every accumulator sound and moves one net. -/
theorem addToKey_spec (h : ∀ key, (accumulatorAt netByKey key).Sound) (k : SettlementKey)
    (direction : SettlementDirection) {amount : ℤ} (ha : 0 < amount) (key : SettlementKey) :
    (accumulatorAt (addToKey netByKey k direction amount) key).Sound ∧
      (accumulatorAt (addToKey netByKey k direction amount) key).net =
        (accumulatorAt netByKey key).net +
          if key = k then direction.signed amount else 0 := by
  rw [accumulatorAt_addToKey]
  split_ifs with he
  · subst he
    exact (h key).addCashflow direction ha
  · exact ⟨h key, (add_zero _).symm⟩

theorem netTrade_spec (h : ∀ key, (accumulatorAt netByKey key).Sound) (trade : Trade)
    (key : SettlementKey) : (accumulatorAt (netTrade netByKey trade) key).Sound ∧
      (accumulatorAt (netTrade netByKey trade) key).net =
        (accumulatorAt netByKey key).net + trade.cashflow key := by
  unfold netTrade
  split_ifs with hs
  · rw [Trade.cashflow, if_neg fun hc => hs hc.1]
    exact ⟨h key, (add_zero _).symm⟩
  · have hset : trade.state = .settled := not_not.mp hs
    -- A settled trade adds one cashflow under each of its two currencies.
    have hpay := addToKey_spec h ⟨trade.counterpartyId, trade.nettingSetId, trade.terms.valueDate,
      trade.terms.pay.currency⟩ .outgoing trade.terms.pay_pos
    have hreceive := addToKey_spec (fun k => (hpay k).1) ⟨trade.counterpartyId, trade.nettingSetId,
      trade.terms.valueDate, trade.terms.receive.currency⟩ .incoming trade.terms.receive_pos key
    refine ⟨hreceive.1, ?_⟩
    simp only
    rw [hreceive.2, (hpay key).2]
    have hkey (currency : Currency) : key = ⟨trade.counterpartyId, trade.nettingSetId,
        trade.terms.valueDate, currency⟩ ↔ (key.counterpartyId = trade.counterpartyId ∧
          key.nettingSetId = trade.nettingSetId ∧ key.valueDate = trade.terms.valueDate) ∧
          key.currency = currency := by
      cases key
      simp only [SettlementKey.mk.injEq]
      tauto
    simp only [hkey, Trade.cashflow, hset, true_and, SettlementDirection.signed]
    split_ifs <;> simp_all
    ring

theorem foldl_netTrade_spec (trades : List Trade)
    (h : ∀ key, (accumulatorAt netByKey key).Sound) (key : SettlementKey) :
    (accumulatorAt (trades.foldl netTrade netByKey) key).Sound ∧
      (accumulatorAt (trades.foldl netTrade netByKey) key).net =
        (accumulatorAt netByKey key).net + settlementNet trades key := by
  induction trades generalizing netByKey with
  | nil => exact ⟨h key, (add_zero _).symm⟩
  | cons trade trades ih =>
    have hstep := netTrade_spec h trade
    obtain ⟨hsound, hnet⟩ := ih fun k => (hstep k).1
    refine ⟨hsound, ?_⟩
    calc
      (accumulatorAt ((trade :: trades).foldl netTrade netByKey) key).net =
          (accumulatorAt (netTrade netByKey trade) key).net + settlementNet trades key := hnet
      _ = (accumulatorAt netByKey key).net + (trade.cashflow key + settlementNet trades key) := by
        rw [(hstep key).2, add_assoc]
      _ = (accumulatorAt netByKey key).net + settlementNet (trade :: trades) key := by
        rw [settlementNet, settlementNet, List.map_cons, List.sum_cons]

end Keys

theorem collectObligations_ok_iff (nets : List (SettlementKey × NetAccumulator))
    (h : ∀ net ∈ nets, net.2.Sound) : (∃ obligations, collectObligations nets = .ok obligations) ↔
      ∀ net ∈ nets, |net.2.net| ≤ 2 ^ 63 - 1 := by
  induction nets with
  | nil => exact ⟨fun _ => nofun, fun _ => ⟨[], rfl⟩⟩
  | cons net nets ih =>
    obtain ⟨key, accumulator⟩ := net
    have hrest := ih fun net hmem => h net (List.mem_cons_of_mem _ hmem)
    have hsound : accumulator.Sound := h _ List.mem_cons_self
    have hmagnitude := totalMagnitude_ok_iff hsound
    simp only [List.mem_cons, forall_eq_or_imp]
    rw [← hrest, collectObligations]
    cases hd : accumulator.direction with
    | none =>
      have hzero : |accumulator.net| ≤ 2 ^ 63 - 1 := by simp [NetAccumulator.net, hd]
      simp only [hzero, true_and]
    | some direction =>
      rw [← hmagnitude]
      simp only [Outcome.bind_ok_iff]
      constructor
      · rintro ⟨_, magnitude, hm, rest, hr, _⟩
        exact ⟨⟨magnitude, hm⟩, ⟨rest, hr⟩⟩
      · rintro ⟨⟨magnitude, hm⟩, ⟨rest, hr⟩⟩
        exact ⟨_, magnitude, hm, rest, hr, rfl⟩

/-- After all trades, the accumulator under a key stands for the net. -/
theorem netted_spec (trades : List Trade) (key : SettlementKey) :
    (accumulatorAt (trades.foldl netTrade ∅) key).Sound ∧
      (accumulatorAt (trades.foldl netTrade ∅) key).net = settlementNet trades key := by
  have hempty (k : SettlementKey) : accumulatorAt ∅ k = ⟨none, []⟩ := ExtTreeMap.getD_empty
  have hfirst (k : SettlementKey) : (accumulatorAt ∅ k).Sound := by
    rw [hempty k]
    exact NetAccumulator.sound_empty
  obtain ⟨hsound, hnet⟩ := foldl_netTrade_spec trades hfirst key
  refine ⟨hsound, ?_⟩
  rw [hnet, hempty key]
  exact zero_add _

theorem netted_mem {trades : List Trade} {net : SettlementKey × NetAccumulator}
    (hmem : net ∈ (trades.foldl netTrade ∅).toList) :
    net.2.Sound ∧ net.2.net = settlementNet trades net.1 := by
  have hget := ExtTreeMap.mem_toList_iff_getElem?_eq_some.mp hmem
  have hat : accumulatorAt (trades.foldl netTrade ∅) net.1 = net.2 := by
    rw [accumulatorAt, ExtTreeMap.getD_eq_getD_getElem?, hget]
    rfl
  rw [← hat]
  exact netted_spec trades net.1

/-- A key without an entry has no cashflows to net. -/
theorem netted_of_ne {trades : List Trade} {key : SettlementKey}
    (h : settlementNet trades key ≠ 0) :
    ∃ accumulator, (key, accumulator) ∈ (trades.foldl netTrade ∅).toList := by
  cases hget : (trades.foldl netTrade ∅)[key]? with
  | none =>
    have hat : accumulatorAt (trades.foldl netTrade ∅) key = ⟨none, []⟩ := by
      rw [accumulatorAt, ExtTreeMap.getD_eq_getD_getElem?, hget]
      rfl
    have hnet := (netted_spec trades key).2
    rw [hat] at hnet
    exact absurd hnet.symm h
  | some accumulator =>
    exact ⟨accumulator, ExtTreeMap.mem_toList_iff_getElem?_eq_some.mpr hget⟩

/-- Netting succeeds just when every net fits. -/
theorem deriveBilateralSettlements_ok_iff (trades : List Trade) :
    (∃ obligations, deriveBilateralSettlements trades = .ok obligations) ↔
      ∀ key, |settlementNet trades key| ≤ 2 ^ 63 - 1 := by
  have hcollect := collectObligations_ok_iff (trades.foldl netTrade ∅).toList
    fun net hmem => (netted_mem hmem).1
  have hderive : (∃ obligations, deriveBilateralSettlements trades = .ok obligations) ↔
      ∃ obligations, collectObligations (trades.foldl netTrade ∅).toList = .ok obligations := by
    unfold deriveBilateralSettlements
    constructor
    · rintro ⟨_, h⟩
      obtain ⟨obligations, hc, _⟩ := Outcome.bind_ok_iff.mp h
      exact ⟨obligations, hc⟩
    · rintro ⟨obligations, hc⟩
      exact ⟨_, by rw [hc, Outcome.ok_bind]⟩
  rw [hderive, hcollect]
  constructor
  · intro hall key
    by_cases hzero : settlementNet trades key = 0
    · rw [hzero]
      decide
    · obtain ⟨accumulator, hmem⟩ := netted_of_ne hzero
      rw [← (netted_mem hmem).2]
      exact hall _ hmem
  · intro hall net hmem
    rw [(netted_mem hmem).2]
    exact hall net.1

/-- Trades that are not settled have no part in netting. -/
theorem deriveBilateralSettlements_filter (trades : List Trade) :
    deriveBilateralSettlements (trades.filter (·.state = .settled)) =
      deriveBilateralSettlements trades := by
  have hfold (netByKey : ExtTreeMap SettlementKey NetAccumulator) :
      (trades.filter (·.state = .settled)).foldl netTrade netByKey =
        trades.foldl netTrade netByKey := by
    induction trades generalizing netByKey with
    | nil => rfl
    | cons trade trades ih =>
      by_cases hs : trade.state = .settled
      · rw [List.filter_cons_of_pos (by simpa using hs), List.foldl_cons, List.foldl_cons, ih]
      · have hskip : netTrade netByKey trade = netByKey := if_pos hs
        rw [List.filter_cons_of_neg (by simpa using hs), List.foldl_cons, hskip, ih]
  unfold deriveBilateralSettlements
  rw [hfold]

end Backbook
