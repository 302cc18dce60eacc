import Backbook.DomainValues
import Backbook.DomainDate
import Backbook.OutcomeRules

namespace Backbook

open Std

inductive InstrumentKind
  | fxSpot | fxForward
deriving DecidableEq, Repr

inductive FxTermsError
  | invalidInstrumentKind | nonPositivePayAmount | nonPositiveReceiveAmount | sameCurrency
deriving DecidableEq, Repr

structure FxTerms where
  kind : InstrumentKind
  tradeDate : IsoDate
  valueDate : IsoDate
  pay : Money
  receive : Money
  pay_pos : 0 < pay.minorUnits
  receive_pos : 0 < receive.minorUnits
  currency_ne : pay.currency ≠ receive.currency
deriving DecidableEq

/-- The checks run in the order of the source, whose kind check cannot fail on
a closed enumeration. -/
def FxTerms.create (kind : InstrumentKind) (tradeDate valueDate : IsoDate) (pay receive : Money) :
    Except FxTermsError FxTerms :=
  if hp : pay.minorUnits ≤ 0 then .error .nonPositivePayAmount
  else if hr : receive.minorUnits ≤ 0 then .error .nonPositiveReceiveAmount
  else if hc : pay.currency = receive.currency then .error .sameCurrency
  else .ok ⟨kind, tradeDate, valueDate, pay, receive, by omega, by omega, hc⟩

theorem FxTerms.create_ok_iff {kind : InstrumentKind} {tradeDate valueDate : IsoDate}
    {pay receive : Money} {terms : FxTerms} :
    FxTerms.create kind tradeDate valueDate pay receive = .ok terms ↔
      kind = terms.kind ∧ tradeDate = terms.tradeDate ∧ valueDate = terms.valueDate ∧
      pay = terms.pay ∧ receive = terms.receive := by
  unfold FxTerms.create
  constructor
  · intro h
    split_ifs at h
    obtain rfl := Except.ok.inj h
    exact ⟨rfl, rfl, rfl, rfl, rfl⟩
  · rintro ⟨rfl, rfl, rfl, rfl, rfl⟩
    rw [dif_neg (by have := terms.pay_pos; omega), dif_neg (by have := terms.receive_pos; omega),
      dif_neg terms.currency_ne]

inductive TradeState
  | captured | confirmed | superseded | cancelled | settled
deriving DecidableEq, Repr

inductive TradeAction
  | bookTrade | confirmTrade | amendTrade | cancelTrade | runEod
deriving DecidableEq, Repr

inductive LifecycleError
  | illegalTransition | invalidState | invalidAction
deriving DecidableEq, Repr

/-- The transition table; `none` is an illegal transition. -/
def transitions : TradeState → TradeAction → Option TradeState
  | .captured, .confirmTrade => some .confirmed
  | .captured, .cancelTrade => some .cancelled
  | .confirmed, .amendTrade => some .superseded
  | .confirmed, .cancelTrade => some .cancelled
  | .confirmed, .runEod => some .settled
  | _, _ => none

/-- The index checks of the source cannot fail on closed enumerations. -/
def transition (state : TradeState) (action : TradeAction) : Except LifecycleError TradeState :=
  match transitions state action with
  | none => .error .illegalTransition
  | some next => .ok next

inductive TradeError
  | invalidVersion | amendmentRequiresConfirmed | versionOverflow
deriving DecidableEq, Repr

@[ext] structure Trade where
  id : TradeId
  version : UInt32
  bookId : BookId
  counterpartyId : CounterpartyId
  nettingSetId : NettingSetId
  terms : FxTerms
  state : TradeState
  supersedes : Option UInt32
  supersededBy : Option UInt32
deriving DecidableEq

def Trade.capture (tradeId : TradeId) (bookId : BookId) (counterpartyId : CounterpartyId)
    (nettingSetId : NettingSetId) (terms : FxTerms) : Trade :=
  ⟨tradeId, 1, bookId, counterpartyId, nettingSetId, terms, .captured, none, none⟩

def Trade.apply (trade : Trade) (action : TradeAction) : Except LifecycleError Trade := do
  let nextState ← transition trade.state action
  if action = .amendTrade then .error .illegalTransition
  else .ok { trade with state := nextState }

theorem Trade.apply_confirm_ok_iff {trade confirmed : Trade} :
    trade.apply .confirmTrade = .ok confirmed ↔
      trade.state = .captured ∧ confirmed = { trade with state := .confirmed } := by
  rcases hs : trade.state <;> simp [Trade.apply, transition, transitions, hs, eq_comm]

theorem Trade.apply_cancel_ok_iff {trade cancelled : Trade} :
    trade.apply .cancelTrade = .ok cancelled ↔
      (trade.state = .captured ∨ trade.state = .confirmed) ∧
        cancelled = { trade with state := .cancelled } := by
  rcases hs : trade.state <;> simp [Trade.apply, transition, transitions, hs, eq_comm]

theorem Trade.apply_eod_ok_iff {trade settled : Trade} :
    trade.apply .runEod = .ok settled ↔
      trade.state = .confirmed ∧ settled = { trade with state := .settled } := by
  rcases hs : trade.state <;> simp [Trade.apply, transition, transitions, hs, eq_comm]

structure TradeAmendment where
  superseded : Trade
  replacement : Trade
deriving DecidableEq

def nextTradeVersion (currentVersion : UInt32) : Except TradeError UInt32 :=
  if currentVersion = 0 then .error .invalidVersion
  else if currentVersion = 4294967295 then .error .versionOverflow
  else .ok (currentVersion + 1)

/-- The replacement stays confirmed, because it replaces a confirmed version. -/
def Trade.amend (current : Trade) (replacementTerms : FxTerms) : Except TradeError TradeAmendment :=
  match transition current.state .amendTrade with
  | .ok .superseded => do
    let replacementVersion ← nextTradeVersion current.version
    .ok ⟨{ current with state := .superseded, supersededBy := some replacementVersion },
      { current with
        version := replacementVersion, terms := replacementTerms, state := .confirmed,
        supersedes := some current.version, supersededBy := none }⟩
  | _ => .error .amendmentRequiresConfirmed

def Trade.asSuperseded (trade : Trade) : Trade :=
  { trade with state := .superseded, supersededBy := some (trade.version + 1) }

def Trade.asReplacement (trade : Trade) (terms : FxTerms) : Trade :=
  { trade with
    version := trade.version + 1, terms := terms, state := .confirmed,
    supersedes := some trade.version, supersededBy := none }

theorem Trade.amend_ok_iff {current : Trade} {terms : FxTerms} {amendment : TradeAmendment} :
    current.amend terms = .ok amendment ↔
      current.state = .confirmed ∧ current.version ≠ 0 ∧ current.version ≠ 4294967295 ∧
      amendment.superseded = current.asSuperseded ∧
      amendment.replacement = current.asReplacement terms := by
  rcases amendment with ⟨old, new⟩
  rcases hs : current.state <;>
    simp [Trade.amend, transition, transitions, hs, Trade.asSuperseded, Trade.asReplacement]
  unfold nextTradeVersion
  split_ifs <;> simp_all [eq_comm]

/-- The version number of a replacement never wraps. -/
theorem Trade.asReplacement_version_ne {current : Trade} {terms : FxTerms}
    (hmax : current.version ≠ 4294967295) : (current.asReplacement terms).version ≠ 0 := by
  simp only [Trade.asReplacement]
  grind

/-- An amendment of a confirmed version fails only at the version limits. -/
theorem Trade.amend_error {current : Trade} {terms : FxTerms} {e : TradeError}
    (hs : current.state = .confirmed) (hv : current.version ≠ 0)
    (h : current.amend terms = .error e) : e = .versionOverflow := by
  simp only [Trade.amend, hs, transition, transitions, nextTradeVersion, if_neg hv] at h
  split_ifs at h
  · exact (Except.error.inj h).symm
  · cases h

end Backbook
