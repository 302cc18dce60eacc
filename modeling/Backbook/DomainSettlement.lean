import Backbook.DomainTrade

namespace Backbook

open Std

inductive SettlementDirection
  | outgoing | incoming
deriving DecidableEq, Repr

def SettlementDirection.code : SettlementDirection → UInt8
  | .outgoing => 0
  | .incoming => 1

structure SettlementObligation where
  counterpartyId : CounterpartyId
  nettingSetId : NettingSetId
  valueDate : IsoDate
  direction : SettlementDirection
  amount : Money
deriving DecidableEq

inductive SettlementError
  | arithmeticOverflow | unsupportedCurrency
deriving DecidableEq, Repr

structure SettlementKey where
  counterpartyId : CounterpartyId
  nettingSetId : NettingSetId
  valueDate : IsoDate
  currency : Currency
deriving DecidableEq

def compareSettlementKeys : SettlementKey → SettlementKey → Ordering :=
  compareLex (compareOn SettlementKey.counterpartyId) (compareLex
    (compareOn SettlementKey.nettingSetId) (compareLex (compareOn SettlementKey.valueDate)
      (compareOn SettlementKey.currency)))

instance : Ord SettlementKey := ⟨compareSettlementKeys⟩

instance : TransOrd SettlementKey :=
  inferInstanceAs (TransCmp (compareLex (compareOn SettlementKey.counterpartyId) (compareLex
    (compareOn SettlementKey.nettingSetId) (compareLex (compareOn SettlementKey.valueDate)
      (compareOn SettlementKey.currency)))))

/-- The amounts still open in one direction, the latest first: the source pushes
and pops them at the back of its vector. -/
structure NetAccumulator where
  direction : Option SettlementDirection
  unmatchedAmounts : List ℤ

/-- The loop that cancels a cashflow against the open amounts of the other
direction; it returns what is left of both. -/
def cancelOpposite : List ℤ → ℤ → List ℤ × ℤ
  | [], amount => ([], amount)
  | opposite :: rest, amount =>
    if amount ≤ 0 then (opposite :: rest, amount)
    else if opposite > amount then ((opposite - amount) :: rest, 0)
    else cancelOpposite rest (amount - opposite)

def addCashflow (accumulator : NetAccumulator) (direction : SettlementDirection) (amount : ℤ) :
    NetAccumulator :=
  if accumulator.direction = none ∨ accumulator.direction = some direction then
    ⟨some direction, amount :: accumulator.unmatchedAmounts⟩
  else
    let (unmatched, left) := cancelOpposite accumulator.unmatchedAmounts amount
    if left > 0 then ⟨some direction, left :: unmatched⟩
    else if unmatched = [] then ⟨none, []⟩
    else ⟨accumulator.direction, unmatched⟩

def totalMagnitude (accumulator : NetAccumulator) : Except SettlementError ℤ :=
  accumulator.unmatchedAmounts.reverse.foldlM (fun total amount =>
    if total > 2 ^ 63 - 1 - amount then .error .arithmeticOverflow else .ok (total + amount)) 0

def addToKey (netByKey : ExtTreeMap SettlementKey NetAccumulator) (key : SettlementKey)
    (direction : SettlementDirection) (amount : ℤ) : ExtTreeMap SettlementKey NetAccumulator :=
  netByKey.insert key (addCashflow (netByKey.getD key ⟨none, []⟩) direction amount)

def netTrade (netByKey : ExtTreeMap SettlementKey NetAccumulator) (trade : Trade) :
    ExtTreeMap SettlementKey NetAccumulator :=
  if trade.state ≠ .settled then netByKey
  else
    -- Both cashflows of a trade fall under its own value date.
    let key (currency : Currency) : SettlementKey :=
      ⟨trade.counterpartyId, trade.nettingSetId, trade.terms.valueDate, currency⟩
    addToKey
      (addToKey netByKey (key trade.terms.pay.currency) .outgoing trade.terms.pay.minorUnits)
      (key trade.terms.receive.currency) .incoming trade.terms.receive.minorUnits

def settlementLess (lhs rhs : SettlementObligation) : Bool :=
  if lhs.valueDate ≠ rhs.valueDate then lhs.valueDate < rhs.valueDate
  else if lhs.amount.currency ≠ rhs.amount.currency then
    lhs.amount.currency.code < rhs.amount.currency.code
  else if lhs.counterpartyId ≠ rhs.counterpartyId then
    lhs.counterpartyId.value < rhs.counterpartyId.value
  else if lhs.nettingSetId ≠ rhs.nettingSetId then
    lhs.nettingSetId.value < rhs.nettingSetId.value
  else lhs.direction.code < rhs.direction.code

def collectObligations : List (SettlementKey × NetAccumulator) →
    Except SettlementError (List SettlementObligation)
  | [] => .ok []
  | (key, accumulator) :: rest =>
    match accumulator.direction with
    | none => collectObligations rest
    | some direction => do
      let magnitude ← totalMagnitude accumulator
      let amount := Money.fromMinorUnits key.currency (Int64.ofInt magnitude)
      let obligations ← collectObligations rest
      .ok (⟨key.counterpartyId, key.nettingSetId, key.valueDate, direction, amount⟩ :: obligations)

def deriveBilateralSettlements (trades : List Trade) :
    Except SettlementError (List SettlementObligation) := do
  let obligations ← collectObligations (trades.foldl netTrade ∅).toList
  .ok (obligations.mergeSort fun lhs rhs => !settlementLess rhs lhs)

theorem totalMagnitude_error {accumulator : NetAccumulator} {e : SettlementError}
    (h : totalMagnitude accumulator = .error e) : e = .arithmeticOverflow := by
  unfold totalMagnitude at h
  generalize (0 : ℤ) = total at h
  generalize accumulator.unmatchedAmounts.reverse = amounts at h
  induction amounts generalizing total with
  | nil => cases h
  | cons amount rest ih =>
    rw [List.foldlM_cons] at h
    split_ifs at h
    · exact (Except.error.inj h).symm
    · exact ih _ h

theorem collectObligations_error {nets : List (SettlementKey × NetAccumulator)}
    {e : SettlementError} (h : collectObligations nets = .error e) : e = .arithmeticOverflow := by
  induction nets with
  | nil => cases h
  | cons net rest ih =>
    obtain ⟨key, accumulator⟩ := net
    unfold collectObligations at h
    cases hd : accumulator.direction with
    | none =>
      simp only [hd] at h
      exact ih h
    | some direction =>
      simp only [hd, Outcome.bind_error_iff] at h
      rcases h with h | ⟨_, _, h | ⟨_, _, h⟩⟩
      · exact totalMagnitude_error h
      · exact ih h
      · cases h

/-- Netting fails only where a net leaves the signed 64-bit range. -/
theorem deriveBilateralSettlements_error {trades : List Trade} {e : SettlementError}
    (h : deriveBilateralSettlements trades = .error e) : e = .arithmeticOverflow := by
  rcases Outcome.bind_error_iff.mp h with h | ⟨_, _, h⟩
  · exact collectObligations_error h
  · cases h

end Backbook
