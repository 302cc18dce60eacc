import Backbook.PositionPostings

namespace Backbook

open Std

def accountBalance (ledger : List LedgerEntry) (account : Bytes) (currency : Currency) : ℤ :=
  ((ledgerPostings ledger).map fun posting =>
    if posting.account = account ∧ posting.amount.currency = currency then posting.signedAmount
    else 0).sum

def PostingContent.net (account : Bytes) (currency : Currency) (content : PostingContent) : ℤ :=
  if content.account = account ∧ content.amount.currency = currency then
    match content.side with
    | .debit => content.amount.minorUnits
    | .credit => -content.amount.minorUnits
  else 0

def Trade.contribution (account : Bytes) (currency : Currency) (trade : Trade) : ℤ :=
  (trade.confirmationContents.map (PostingContent.net account currency)).sum

def Trade.live (trade : Trade) : Prop := trade.state = .confirmed ∨ trade.state = .settled

instance (trade : Trade) : Decidable trade.live := inferInstanceAs (Decidable (_ ∨ _))

def Trade.worth (account : Bytes) (currency : Currency) (trade : Trade) : ℤ :=
  if trade.live then trade.contribution account currency else 0

theorem Posting.net_content (account : Bytes) (currency : Currency) (posting : Posting) :
    posting.content.net account currency =
      if posting.account = account ∧ posting.amount.currency = currency then posting.signedAmount
      else 0 := rfl

theorem Posting.net_reversalContent (account : Bytes) (currency : Currency) (posting : Posting) :
    posting.reversalContent.net account currency = -posting.content.net account currency := by
  unfold PostingContent.net Posting.reversalContent Posting.content
  cases posting.side <;> simp only [PostingSide.opposite] <;> split_ifs <;> simp

theorem accountBalance_append (ledger : List LedgerEntry) (entry : LedgerEntry) (account : Bytes)
    (currency : Currency) : accountBalance (ledger ++ [entry]) account currency =
      accountBalance ledger account currency +
        (entry.contents.map (PostingContent.net account currency)).sum := by
  simp [accountBalance, ledgerPostings, LedgerEntry.contents, Function.comp_def,
    Posting.net_content]

theorem IsReversalOf.net_neg {original reversal : LedgerEntry} (h : IsReversalOf original reversal)
    (account : Bytes) (currency : Currency) :
    (reversal.contents.map (PostingContent.net account currency)).sum =
      -(original.contents.map (PostingContent.net account currency)).sum := by
  rw [h, LedgerEntry.contents, List.map_map, List.map_map]
  induction original.postings with
  | nil => rfl
  | cons posting postings ih =>
    simp only [List.map_cons, List.sum_cons, Function.comp_apply,
      Posting.net_reversalContent] at ih ⊢
    omega

def Positions.Balanced (p : Positions) : Prop :=
  ∀ account currency, accountBalance p.ledgerEntries account currency =
    OrderedMap.total p.trades fun _ trade => trade.worth account currency

variable {p q : Positions}

theorem Trade.worth_of_not_live {trade : Trade} (hl : ¬trade.live) (account : Bytes)
    (currency : Currency) : trade.worth account currency = 0 := by
  simp [Trade.worth, hl]

theorem Trade.worth_of_live {trade : Trade} (hl : trade.live) (account : Bytes)
    (currency : Currency) :
    trade.worth account currency = trade.contribution account currency := by
  simp [Trade.worth, hl]

/-- Every move keeps every account equal to the live versions. -/
theorem Positions.Balanced.move (h : p.Balanced) (hm : p.Move q) : q.Balanced := by
  intro account currency
  have hp := h account currency
  cases hm with
  | @capture key trade hfresh hs =>
    rw [OrderedMap.total_insert_eq _ _ key trade 0 (by rw [hfresh]; rfl),
      trade.worth_of_not_live (by simp [Trade.live, hs])]
    simpa using hp
  | @discard key trade ht hs =>
    rw [OrderedMap.total_insert_eq _ _ key _ 0
      (by rw [ht]; exact trade.worth_of_not_live (by simp [Trade.live, hs]) _ _),
      Trade.worth_of_not_live (by simp [Trade.live])]
    simpa using hp
  | @enter key trade limits entry hold hs _ hent _ =>
    have hzero : p.trades[key]?.elim 0 (Trade.worth account currency) = 0 := by
      cases hk : p.trades[key]? with
      | none => rfl
      | some old => exact old.worth_of_not_live (by simp [Trade.live, hold old hk]) _ _
    calc
      accountBalance (p.ledgerEntries ++ [entry]) account currency =
          accountBalance p.ledgerEntries account currency +
            trade.contribution account currency := by
        rw [accountBalance_append, hent]
        rfl
      _ = (OrderedMap.total p.trades fun _ t => t.worth account currency) +
          trade.worth account currency - 0 := by
        rw [hp, trade.worth_of_live (Or.inl hs), sub_zero]
      _ = OrderedMap.total (p.trades.insert key trade) fun _ t => t.worth account currency :=
        (OrderedMap.total_insert_eq _ _ key trade 0 hzero).symm
  | @leave key trade left limits index original reversal ht hs hl _ _ _ _ hent hrev _ =>
    -- The version stops counting, and its reversal takes its amounts back.
    have hout : ¬left.live := by rcases hl with hl | hl <;> simp [Trade.live, hl]
    calc
      accountBalance (p.ledgerEntries ++ [reversal]) account currency =
          accountBalance p.ledgerEntries account currency -
            trade.contribution account currency := by
        rw [accountBalance_append, hrev.net_neg, hent]
        rfl
      _ = (OrderedMap.total p.trades fun _ t => t.worth account currency) +
          left.worth account currency - trade.worth account currency := by
        rw [hp, left.worth_of_not_live hout, trade.worth_of_live (Or.inl hs), add_zero]
      _ = OrderedMap.total (p.trades.insert key left) fun _ t => t.worth account currency :=
        (OrderedMap.total_insert_eq _ _ key left _ (by rw [ht]; rfl)).symm
  | @settle key trade limits ht hs _ =>
    -- Settled counts as confirmed does.
    have hsame : ({ trade with state := .settled } : Trade).worth account currency =
        trade.worth account currency := by
      rw [trade.worth_of_live (Or.inl hs), Trade.worth_of_live (Or.inr rfl)]
      rfl
    rw [OrderedMap.total_insert_eq _ _ key _ (trade.worth account currency) (by rw [ht]; rfl),
      hsame, add_sub_cancel_right]
    exact hp

theorem Positions.Balanced.initial (limits : LimitHierarchy) :
    (State.initial limits).positions.Balanced := by
  intro account currency
  simp [State.initial, State.positions, accountBalance, ledgerPostings]

theorem controlAccount_inj {a b : CounterpartyId} :
    controlAccount a = controlAccount b ↔ a = b := by
  simp [controlAccount, Id.ext_iff]

theorem payableAccount_inj {a b : BookId} : payableAccount a = payableAccount b ↔ a = b := by
  simp [payableAccount, Id.ext_iff]

theorem receivableAccount_inj {a b : BookId} :
    receivableAccount a = receivableAccount b ↔ a = b := by
  simp [receivableAccount, Id.ext_iff]

theorem append_ne_append {a b : Bytes} (n : ℕ) (ha : n ≤ a.length) (hb : n ≤ b.length)
    (h : a.take n ≠ b.take n) (x y : Bytes) : a ++ x ≠ b ++ y := by
  intro he
  have htake := congrArg (List.take n) he
  rw [List.take_append_of_le_length ha, List.take_append_of_le_length hb] at htake
  exact h htake

/-- The three account families differ within their fixed texts, so an identifier
that contains the separator cannot move a posting between them. -/
theorem payableAccount_ne_controlAccount (b : BookId) (c : CounterpartyId) :
    payableAccount b ≠ controlAccount c :=
  append_ne_append 1 (by decide) (by decide) (by decide) b.value c.value

theorem receivableAccount_ne_controlAccount (b : BookId) (c : CounterpartyId) :
    receivableAccount b ≠ controlAccount c :=
  append_ne_append 1 (by decide) (by decide) (by decide) b.value c.value

theorem payableAccount_ne_receivableAccount (a b : BookId) :
    payableAccount a ≠ receivableAccount b :=
  append_ne_append 12 (by decide) (by decide) (by decide) a.value b.value

theorem Trade.contribution_control (trade : Trade) (c : CounterpartyId) (currency : Currency) :
    trade.contribution (controlAccount c) currency =
      if trade.counterpartyId = c then
        (if trade.terms.pay.currency = currency then trade.terms.pay.minorUnits else 0) -
          if trade.terms.receive.currency = currency then trade.terms.receive.minorUnits else 0
      else 0 := by
  simp only [Trade.contribution, Trade.confirmationContents, List.map_cons, List.map_nil,
    List.sum_cons, List.sum_nil, PostingContent.net, controlAccount_inj,
    payableAccount_ne_controlAccount, receivableAccount_ne_controlAccount, false_and, if_false]
  by_cases hc : trade.counterpartyId = c
  · simp only [hc, true_and, if_true]
    split_ifs <;> omega
  · simp [hc]

theorem Trade.contribution_payable (trade : Trade) (b : BookId) (currency : Currency) :
    trade.contribution (payableAccount b) currency =
      if trade.bookId = b then
        if trade.terms.pay.currency = currency then -trade.terms.pay.minorUnits else 0
      else 0 := by
  simp only [Trade.contribution, Trade.confirmationContents, List.map_cons, List.map_nil,
    List.sum_cons, List.sum_nil, PostingContent.net, payableAccount_inj,
    (payableAccount_ne_controlAccount _ _).symm, (payableAccount_ne_receivableAccount _ _).symm,
    false_and, if_false]
  by_cases hb : trade.bookId = b <;> simp [hb]

theorem Trade.contribution_receivable (trade : Trade) (b : BookId) (currency : Currency) :
    trade.contribution (receivableAccount b) currency =
      if trade.bookId = b then
        if trade.terms.receive.currency = currency then trade.terms.receive.minorUnits else 0
      else 0 := by
  simp only [Trade.contribution, Trade.confirmationContents, List.map_cons, List.map_nil,
    List.sum_cons, List.sum_nil, PostingContent.net, receivableAccount_inj,
    (receivableAccount_ne_controlAccount _ _).symm, payableAccount_ne_receivableAccount,
    false_and, if_false]
  by_cases hb : trade.bookId = b <;> simp [hb]

theorem Trade.contribution_other (trade : Trade) {account : Bytes} (currency : Currency)
    (hc : ∀ c, controlAccount c ≠ account) (hp : ∀ b, payableAccount b ≠ account)
    (hr : ∀ b, receivableAccount b ≠ account) : trade.contribution account currency = 0 := by
  simp [Trade.contribution, Trade.confirmationContents, PostingContent.net, hc, hp, hr]

end Backbook
