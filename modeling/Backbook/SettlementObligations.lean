import Backbook.SettlementNets

namespace Backbook

open Std

def Trade.settlementKey (trade : Trade) (currency : Currency) : SettlementKey :=
  ⟨trade.counterpartyId, trade.nettingSetId, trade.terms.valueDate, currency⟩

def receivedNet (trades : List Trade) (key : SettlementKey) : ℤ :=
  ((trades.filter (·.state = .settled)).map fun trade =>
    (if trade.settlementKey trade.terms.receive.currency = key then
      trade.terms.receive.minorUnits else 0) -
    if trade.settlementKey trade.terms.pay.currency = key then
      trade.terms.pay.minorUnits else 0).sum

def SettlementObligation.key (obligation : SettlementObligation) : SettlementKey :=
  ⟨obligation.counterpartyId, obligation.nettingSetId, obligation.valueDate,
    obligation.amount.currency⟩

def compareObligationKeys : SettlementKey → SettlementKey → Ordering :=
  compareLex (compareOn SettlementKey.valueDate) (compareLex (compareOn SettlementKey.currency)
    (compareLex (compareOn SettlementKey.counterpartyId) (compareOn SettlementKey.nettingSetId)))

def SettlementObligation.Precedes (first second : SettlementObligation) : Prop :=
  compareObligationKeys first.key second.key = .lt

def SettlementObligation.States (obligation : SettlementObligation) (net : ℤ) : Prop :=
  (0 < net ∧ obligation.direction = .incoming ∧ obligation.amount.minorUnits = net) ∨
    (net < 0 ∧ obligation.direction = .outgoing ∧ obligation.amount.minorUnits = -net)

theorem compare_bytes_lt_iff (a b : Bytes) : compare a b = .lt ↔ a < b := by
  induction a generalizing b with
  | nil =>
    cases b with
    | nil => simp
    | cons y ys => simp
  | cons x xs ih =>
    cases b with
    | nil => simp
    | cons y ys =>
      have hbyte : compare x y = .lt ↔ x < y := compareOfLessAndEq_eq_lt
      have heq : compare x y = .eq ↔ x = y := LawfulEqCmp.compare_eq_iff_eq
      rw [List.compare_cons_cons, Ordering.then_eq_lt, List.cons_lt_cons_iff, hbyte, heq, ih]

theorem Id.compare_lt_iff {tag : IdTag} (a b : Id tag) : compare a b = .lt ↔ a.value < b.value :=
  compare_bytes_lt_iff a.value b.value

theorem Currency.compare_lt_iff (a b : Currency) : compare a b = .lt ↔ a.code < b.code :=
  compareOfLessAndEq_eq_lt

/-- One member of a member-wise comparison, as the source writes it. -/
theorem less_member_iff {κ : Type} [DecidableEq κ] [Ord κ] [TransOrd κ] [LawfulEqOrd κ]
    {a b : κ} {less rest : Bool} (h : less = true ↔ compare a b = .lt) :
    (if a ≠ b then less else rest) = true ↔
      compare a b = .lt ∨ compare a b = .eq ∧ rest = true := by
  have heq : compare a b = .eq ↔ a = b := LawfulEqCmp.compare_eq_iff_eq
  by_cases hab : a = b
  · subst hab
    simp
  · simp [hab, heq, h]

def compareObligations : SettlementObligation → SettlementObligation → Ordering :=
  compareLex (fun a b => compareObligationKeys a.key b.key)
    (compareOn fun obligation => obligation.direction.code)

instance : TransCmp compareObligationKeys :=
  inferInstanceAs (TransCmp (compareLex (compareOn SettlementKey.valueDate)
    (compareLex (compareOn SettlementKey.currency)
      (compareLex (compareOn SettlementKey.counterpartyId)
        (compareOn SettlementKey.nettingSetId)))))

instance : LawfulEqCmp compareObligationKeys where
  eq_of_compare {a b} h := by
    obtain ⟨hd, h⟩ := compareLex_eq_eq.mp h
    obtain ⟨hu, h⟩ := compareLex_eq_eq.mp h
    obtain ⟨hc, hn⟩ := compareLex_eq_eq.mp h
    simp only [compareOn, LawfulEqCmp.compare_eq_iff_eq] at hd hu hc hn
    cases a
    cases b
    simp_all

theorem settlementLess_iff (first second : SettlementObligation) :
    settlementLess first second = true ↔ compareObligations first second = .lt := by
  unfold settlementLess
  rw [less_member_iff (by rw [decide_eq_true_iff, compare_lt_iff_lt]),
    less_member_iff (by rw [decide_eq_true_iff, Currency.compare_lt_iff]),
    less_member_iff (by rw [decide_eq_true_iff, Id.compare_lt_iff]),
    less_member_iff (by rw [decide_eq_true_iff, Id.compare_lt_iff])]
  have hcode : decide (first.direction.code < second.direction.code) = true ↔
      compare first.direction.code second.direction.code = .lt := by
    rw [decide_eq_true_iff]
    exact compareOfLessAndEq_eq_lt.symm
  simp only [hcode, compareObligations, compareObligationKeys, compareLex, compareOn,
    Ordering.then_eq_lt, Ordering.then_eq_eq, SettlementObligation.key]
  tauto

instance : TransCmp fun first second : SettlementObligation =>
    compareObligationKeys first.key second.key where
  eq_swap := OrientedCmp.eq_swap
  isLE_trans := TransCmp.isLE_trans

instance : TransCmp compareObligations := inferInstanceAs (TransCmp (compareLex _ _))

/-- Sorting by the comparison of the source sorts by the keys. -/
theorem mergeSort_settlementLess (obligations : List SettlementObligation) :
    (obligations.mergeSort fun first second => !settlementLess second first).Pairwise
      fun first second => (compareObligationKeys first.key second.key).isLE = true := by
  have hswap (first second : SettlementObligation) : compareObligations first second =
      (compareObligations second first).swap := OrientedCmp.eq_swap
  have hle (first second : SettlementObligation) : (!settlementLess second first) = true ↔
      (compareObligations first second).isLE = true := by
    rw [Bool.not_eq_true', ← Bool.not_eq_true, settlementLess_iff, hswap second first]
    cases compareObligations first second <;> simp
  refine (List.pairwise_mergeSort ?_ ?_ obligations).imp ?_
  · intro a b c hab hbc
    exact (hle a c).mpr (TransCmp.isLE_trans ((hle a b).mp hab) ((hle b c).mp hbc))
  · intro a b
    rw [Bool.or_eq_true, hle, hle, hswap b a]
    cases compareObligations a b <;> simp
  · intro a b hab
    have h := (hle a b).mp hab
    simp only [compareObligations, compareLex] at h
    cases hk : compareObligationKeys a.key b.key with
    | lt => rfl
    | eq => rfl
    | gt =>
      rw [hk] at h
      cases h

/-- The checked sum, when it succeeds, is the sum. -/
theorem checkedSum_eq {amounts : List ℤ} {total result : ℤ}
    (h : amounts.foldlM (fun total amount =>
        if total > 2 ^ 63 - 1 - amount then Except.error SettlementError.arithmeticOverflow
        else .ok (total + amount)) total = .ok result) : result = total + amounts.sum := by
  induction amounts generalizing total with
  | nil =>
    obtain rfl := Except.ok.inj h
    simp
  | cons amount rest ih =>
    rw [List.foldlM_cons] at h
    split_ifs at h
    · cases h
    · rw [ih h, List.sum_cons, add_assoc]

theorem totalMagnitude_eq {accumulator : NetAccumulator} {magnitude : ℤ}
    (h : totalMagnitude accumulator = .ok magnitude) :
    magnitude = accumulator.unmatchedAmounts.sum := by
  have hsum := checkedSum_eq h
  rwa [List.sum_reverse, zero_add] at hsum

def obligationOf (net : SettlementKey × NetAccumulator) : Option SettlementObligation :=
  net.2.direction.map fun direction =>
    ⟨net.1.counterpartyId, net.1.nettingSetId, net.1.valueDate, direction,
      Money.fromMinorUnits net.1.currency (Int64.ofInt net.2.unmatchedAmounts.sum)⟩

theorem collectObligations_eq {nets : List (SettlementKey × NetAccumulator)}
    {obligations : List SettlementObligation} (h : collectObligations nets = .ok obligations) :
    obligations = nets.filterMap obligationOf := by
  induction nets generalizing obligations with
  | nil => exact (Except.ok.inj h).symm
  | cons net rest ih =>
    obtain ⟨key, accumulator⟩ := net
    unfold collectObligations at h
    cases hd : accumulator.direction with
    | none =>
      simp only [hd] at h
      rw [List.filterMap_cons_none (by simp [obligationOf, hd])]
      exact ih h
    | some direction =>
      simp only [hd, Outcome.bind_ok_iff] at h
      obtain ⟨magnitude, hm, others, hothers, h⟩ := h
      obtain rfl := Except.ok.inj h
      have hsome : obligationOf (key, accumulator) = some ⟨key.counterpartyId, key.nettingSetId,
          key.valueDate, direction, Money.fromMinorUnits key.currency (Int64.ofInt magnitude)⟩ := by
        rw [totalMagnitude_eq hm]
        simp only [obligationOf, hd, Option.map_some]
      rw [List.filterMap_cons_some hsome, ih hothers]

/-- The nets of both sections differ in sign only. -/
theorem receivedNet_eq (trades : List Trade) (key : SettlementKey) :
    receivedNet trades key = -settlementNet trades key := by
  have hkey (trade : Trade) (currency : Currency) : trade.settlementKey currency = key ↔
      (key.counterpartyId = trade.counterpartyId ∧ key.nettingSetId = trade.nettingSetId ∧
        key.valueDate = trade.terms.valueDate) ∧ key.currency = currency := by
    cases key
    simp only [Trade.settlementKey, SettlementKey.mk.injEq]
    tauto
  have hflow (trade : Trade) (hs : trade.state = .settled) :
      ((if trade.settlementKey trade.terms.receive.currency = key then
          trade.terms.receive.minorUnits else 0) -
        if trade.settlementKey trade.terms.pay.currency = key then
          trade.terms.pay.minorUnits else 0) = -trade.cashflow key := by
    simp only [Trade.cashflow, hkey, hs, true_and]
    by_cases hparty : key.counterpartyId = trade.counterpartyId ∧
        key.nettingSetId = trade.nettingSetId ∧ key.valueDate = trade.terms.valueDate
    · simp only [hparty, and_self, true_and, if_true]
      omega
    · simp only [hparty, false_and, if_false, sub_self, neg_zero]
  induction trades with
  | nil => rfl
  | cons trade trades ih =>
    unfold receivedNet settlementNet at ih ⊢
    by_cases hs : trade.state = .settled
    · rw [List.filter_cons_of_pos (by simpa using hs), List.map_cons, List.sum_cons,
        List.map_cons, List.sum_cons, ih, hflow trade hs, neg_add]
    · rw [List.filter_cons_of_neg (by simpa using hs), List.map_cons, List.sum_cons, ih,
        Trade.cashflow, if_neg fun hc => hs hc.1, zero_add]

theorem receivedNet_perm {first second : List Trade}
    (h : (first.filter (·.state = .settled)).Perm (second.filter (·.state = .settled)))
    (key : SettlementKey) : receivedNet first key = receivedNet second key :=
  (h.map _).sum_eq

theorem obligationOf_key {net : SettlementKey × NetAccumulator}
    {obligation : SettlementObligation} (h : obligationOf net = some obligation) :
    obligation.key = net.1 := by
  obtain ⟨direction, _, rfl⟩ := Option.map_eq_some_iff.mp h
  rfl

/-- An accumulator within the range gives the obligation that its net calls for. -/
theorem obligationOf_states {net : SettlementKey × NetAccumulator}
    {obligation : SettlementObligation} (hs : net.2.Sound) (hfit : |net.2.net| ≤ 2 ^ 63 - 1)
    (h : obligationOf net = some obligation) : obligation.States (-net.2.net) := by
  obtain ⟨direction, hd, rfl⟩ := Option.map_eq_some_iff.mp h
  have hne : net.2.unmatchedAmounts ≠ [] := by
    intro hnil
    rw [hs.open_iff.mpr hnil] at hd
    cases hd
  have hpos : 0 < net.2.unmatchedAmounts.sum := List.sum_pos _ hs.positive hne
  have hnet : net.2.net = direction.signed net.2.unmatchedAmounts.sum := by
    simp only [NetAccumulator.net, hd]
  rw [hnet, SettlementDirection.abs_signed, abs_of_pos hpos] at hfit
  have hunits : (Money.fromMinorUnits net.1.currency
      (Int64.ofInt net.2.unmatchedAmounts.sum)).minorUnits = net.2.unmatchedAmounts.sum :=
    Int64.toInt_ofInt_of_le (by omega) (by omega)
  rw [hnet]
  cases direction with
  | outgoing =>
    refine Or.inr ⟨?_, rfl, ?_⟩
    · simp only [SettlementDirection.signed]
      omega
    · rw [hunits, SettlementDirection.signed, neg_neg]
  | incoming =>
    refine Or.inl ⟨?_, rfl, ?_⟩
    · simp only [SettlementDirection.signed]
      omega
    · rw [hunits, SettlementDirection.signed, neg_neg]

theorem obligationOf_none {net : SettlementKey × NetAccumulator} (h : obligationOf net = none) :
    net.2.net = 0 := by
  have hd := Option.map_eq_none_iff.mp h
  simp only [NetAccumulator.net, hd]

theorem SettlementObligation.States.unique {first second : SettlementObligation} {net : ℤ}
    (hf : first.States net) (hs : second.States net) (hkey : first.key = second.key) :
    first = second := by
  simp only [SettlementObligation.key, SettlementKey.mk.injEq] at hkey
  obtain ⟨hc, hn, hd, hu⟩ := hkey
  obtain ⟨hdirection, hunits⟩ : first.direction = second.direction ∧
      first.amount.minorUnits = second.amount.minorUnits := by
    rcases hf with ⟨hf, hfd, hfu⟩ | ⟨hf, hfd, hfu⟩ <;>
      rcases hs with ⟨hs, hsd, hsu⟩ | ⟨hs, hsd, hsu⟩
    · exact ⟨hfd.trans hsd.symm, hfu.trans hsu.symm⟩
    · omega
    · omega
    · exact ⟨hfd.trans hsd.symm, hfu.trans hsu.symm⟩
  have hamount := Money.ext hu hunits
  cases first
  cases second
  simp_all

variable {trades : List Trade} {obligations : List SettlementObligation}

/-- A successful netting returns the obligations of all keys, sorted. -/
theorem deriveBilateralSettlements_eq (h : deriveBilateralSettlements trades = .ok obligations) :
    obligations = ((trades.foldl netTrade ∅).toList.filterMap obligationOf).mergeSort
      fun first second => !settlementLess second first := by
  obtain ⟨collected, hc, h⟩ := Outcome.bind_ok_iff.mp h
  rw [← collectObligations_eq hc]
  exact (Except.ok.inj h).symm

/-- Each obligation states the net of its key, and every net but zero is stated. -/
theorem deriveBilateralSettlements_mem (h : deriveBilateralSettlements trades = .ok obligations)
    (obligation : SettlementObligation) :
    obligation ∈ obligations ↔ obligation.States (receivedNet trades obligation.key) := by
  have hfit := (deriveBilateralSettlements_ok_iff trades).mp ⟨_, h⟩
  -- What an accumulator gives, when it gives anything.
  have hstates {net : SettlementKey × NetAccumulator} {o : SettlementObligation}
      (hmem : net ∈ (trades.foldl netTrade ∅).toList) (ho : obligationOf net = some o) :
      o.States (receivedNet trades o.key) := by
    obtain ⟨hsound, hnet⟩ := netted_mem hmem
    have hle : |net.2.net| ≤ 2 ^ 63 - 1 := by
      rw [hnet]
      exact hfit net.1
    have hs := obligationOf_states hsound hle ho
    rwa [hnet, ← receivedNet_eq, ← obligationOf_key ho] at hs
  rw [deriveBilateralSettlements_eq h, (List.mergeSort_perm _ _).mem_iff, List.mem_filterMap]
  constructor
  · rintro ⟨net, hmem, ho⟩
    exact hstates hmem ho
  · intro hs
    have hne : settlementNet trades obligation.key ≠ 0 := by
      have heq := receivedNet_eq trades obligation.key
      rcases hs with ⟨hlt, _⟩ | ⟨hlt, _⟩ <;> omega
    obtain ⟨accumulator, hmem⟩ := netted_of_ne hne
    cases ho : obligationOf (obligation.key, accumulator) with
    | none =>
      have hzero := obligationOf_none ho
      rw [(netted_mem hmem).2] at hzero
      exact absurd hzero hne
    | some other =>
      have hkey := obligationOf_key ho
      have hother := hstates hmem ho
      rw [hkey] at hother
      exact ⟨_, hmem, by rw [ho, hother.unique hs hkey]⟩

/-- The obligations have different keys, in the order of the report. -/
theorem deriveBilateralSettlements_sorted
    (h : deriveBilateralSettlements trades = .ok obligations) :
    obligations.Pairwise SettlementObligation.Precedes := by
  have hsorted := mergeSort_settlementLess ((trades.foldl netTrade ∅).toList.filterMap obligationOf)
  rw [← deriveBilateralSettlements_eq h] at hsorted
  have hkeys : obligations.Pairwise fun first second => first.key ≠ second.key := by
    have hdistinct : ((trades.foldl netTrade ∅).toList.filterMap obligationOf).Pairwise
        fun first second => first.key ≠ second.key := by
      refine List.Pairwise.filterMap obligationOf ?_
        (ExtTreeMap.distinct_keys_toList (t := trades.foldl netTrade ∅))
      intro a b hab first hfirst second hsecond heq
      rw [obligationOf_key hfirst, obligationOf_key hsecond] at heq
      apply hab
      rw [heq]
      exact ReflCmp.compare_self
    rw [deriveBilateralSettlements_eq h]
    exact ((List.mergeSort_perm _ _).pairwise_iff fun hne => hne.symm).mpr hdistinct
  refine (hsorted.and hkeys).imp ?_
  rintro first second ⟨hle, hne⟩
  unfold SettlementObligation.Precedes
  cases hc : compareObligationKeys first.key second.key with
  | lt => rfl
  | eq => exact absurd (LawfulEqCmp.eq_of_compare hc) hne
  | gt =>
    rw [hc] at hle
    cases hle

/-- A report is determined by what is in it. -/
theorem eq_of_precedes {first second : List SettlementObligation}
    (hf : first.Pairwise SettlementObligation.Precedes)
    (hs : second.Pairwise SettlementObligation.Precedes)
    (h : ∀ obligation, obligation ∈ first ↔ obligation ∈ second) : first = second := by
  have hasymm (a b : SettlementObligation) (hab : a.Precedes b) : ¬b.Precedes a := by
    unfold SettlementObligation.Precedes at hab ⊢
    have hswap : compareObligationKeys b.key a.key = (compareObligationKeys a.key b.key).swap :=
      OrientedCmp.eq_swap
    rw [hswap, hab]
    exact nofun
  have hnodup {l : List SettlementObligation} (hl : l.Pairwise SettlementObligation.Precedes) :
      l.Nodup := by
    refine hl.imp ?_
    rintro a _ hab rfl
    exact hasymm a a hab hab
  have hperm := (List.perm_ext_iff_of_nodup (hnodup hf) (hnodup hs)).mpr h
  refine hperm.eq_of_pairwise ?_ hf hs
  intro a b _ _ hab hba
  exact absurd hba (hasymm a b hab)

/-- Netting asks for the settled trades only, in whatever order. -/
theorem deriveBilateralSettlements_perm {first second : List Trade}
    (h : (first.filter (·.state = .settled)).Perm (second.filter (·.state = .settled))) :
    deriveBilateralSettlements first = deriveBilateralSettlements second := by
  have hnets : settlementNet first = settlementNet second := by
    funext key
    have hf := receivedNet_eq first key
    have hs := receivedNet_eq second key
    have heq := receivedNet_perm h key
    omega
  have hok := deriveBilateralSettlements_ok_iff first
  rw [hnets, ← deriveBilateralSettlements_ok_iff second] at hok
  cases hf : deriveBilateralSettlements first with
  | error e =>
    cases hs : deriveBilateralSettlements second with
    | error e' =>
      rw [deriveBilateralSettlements_error hf, deriveBilateralSettlements_error hs]
    | ok obligations =>
      obtain ⟨_, hok⟩ := hok.mpr ⟨_, hs⟩
      rw [hf] at hok
      cases hok
  | ok obligations =>
    obtain ⟨others, hs⟩ := hok.mp ⟨_, hf⟩
    have hsame : obligations = others := by
      refine eq_of_precedes (deriveBilateralSettlements_sorted hf)
        (deriveBilateralSettlements_sorted hs) fun obligation => ?_
      rw [deriveBilateralSettlements_mem hf, deriveBilateralSettlements_mem hs,
        receivedNet_perm h]
    rw [hs, hsame]

theorem exists_states (key : SettlementKey) {net : ℤ} (hne : net ≠ 0)
    (hfit : |net| ≤ 2 ^ 63 - 1) :
    ∃ obligation : SettlementObligation, obligation.key = key ∧ obligation.States net := by
  obtain ⟨hlow, hhigh⟩ := abs_le.mp hfit
  rcases lt_or_gt_of_ne hne with hneg | hpos
  · refine ⟨⟨key.counterpartyId, key.nettingSetId, key.valueDate, .outgoing,
      ⟨key.currency, -net, by omega, by omega⟩⟩, rfl, Or.inr ⟨hneg, rfl, rfl⟩⟩
  · refine ⟨⟨key.counterpartyId, key.nettingSetId, key.valueDate, .incoming,
      ⟨key.currency, net, by omega, by omega⟩⟩, rfl, Or.inl ⟨hpos, rfl, rfl⟩⟩

/-- Under a key stands nothing, or the one obligation that states its net. -/
theorem obligations_filter_key (h : deriveBilateralSettlements trades = .ok obligations)
    (key : SettlementKey) :
    (receivedNet trades key = 0 ∧ obligations.filter (·.key = key) = []) ∨
      ∃ obligation, obligations.filter (·.key = key) = [obligation] ∧
        obligation.States (receivedNet trades key) := by
  have hmem := deriveBilateralSettlements_mem h
  by_cases hzero : receivedNet trades key = 0
  · refine Or.inl ⟨hzero, List.filter_eq_nil_iff.mpr fun obligation hin hkey => ?_⟩
    have hstates := (hmem obligation).mp hin
    rw [of_decide_eq_true hkey, hzero] at hstates
    rcases hstates with ⟨hlt, _⟩ | ⟨hlt, _⟩ <;> exact absurd hlt (lt_irrefl _)
  · have hfit : |receivedNet trades key| ≤ 2 ^ 63 - 1 := by
      rw [receivedNet_eq, abs_neg]
      exact (deriveBilateralSettlements_ok_iff trades).mp ⟨_, h⟩ key
    obtain ⟨obligation, rfl, hstates⟩ := exists_states key hzero hfit
    refine Or.inr ⟨obligation, ?_, hstates⟩
    refine eq_of_precedes ((deriveBilateralSettlements_sorted h).filter _)
      (List.pairwise_singleton _ _) fun other => ?_
    rw [List.mem_filter, List.mem_singleton, decide_eq_true_iff, hmem]
    constructor
    · rintro ⟨hother, hkey⟩
      rw [hkey] at hother
      exact hother.unique hstates hkey
    · rintro rfl
      exact ⟨hstates, rfl⟩

/-- Netting is exact: it succeeds just when every net is within the signed 64-bit
range, returns one obligation for each net but zero, strictly in the order of the
report, and depends on the multiset of settled trades only. -/
theorem netting_is_exact (trades : List Trade) :
    ((∃ obligations, deriveBilateralSettlements trades = .ok obligations) ↔
      ∀ key, |receivedNet trades key| ≤ 2 ^ 63 - 1) ∧
    (∀ e, deriveBilateralSettlements trades = .error e → e = .arithmeticOverflow) ∧
    (∀ obligations, deriveBilateralSettlements trades = .ok obligations →
      obligations.Pairwise SettlementObligation.Precedes ∧
      (∀ key, (receivedNet trades key = 0 ∧ obligations.filter (·.key = key) = []) ∨
        ∃ obligation, obligations.filter (·.key = key) = [obligation] ∧
          obligation.States (receivedNet trades key))) ∧
    ∀ others : List Trade,
      (trades.filter (·.state = .settled)).Perm (others.filter (·.state = .settled)) →
      deriveBilateralSettlements trades = deriveBilateralSettlements others := by
  refine ⟨?_, fun e he => deriveBilateralSettlements_error he, fun obligations h => ?_,
    fun others h => deriveBilateralSettlements_perm h⟩
  · rw [deriveBilateralSettlements_ok_iff]
    refine forall_congr' fun key => ?_
    rw [receivedNet_eq, abs_neg]
  · exact ⟨deriveBilateralSettlements_sorted h, obligations_filter_key h⟩

end Backbook
