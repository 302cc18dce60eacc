import Backbook.DomainLedger

namespace Backbook

open Std

def asciiBytes (text : String) : Bytes := text.toList.map Char.toUInt8

def counterpartyControlPrefix : Bytes := asciiBytes "COUNTERPARTY_CONTROL:"

def settlementPayablePrefix : Bytes := asciiBytes "SETTLEMENT_PAYABLE:"

def settlementReceivablePrefix : Bytes := asciiBytes "SETTLEMENT_RECEIVABLE:"

@[ext] structure ConfirmationPostingIds where
  payControlDebit : PostingId
  payPayableCredit : PostingId
  receiveReceivableDebit : PostingId
  receiveControlCredit : PostingId
deriving DecidableEq

@[ext] structure ReversalPostingIds where
  payControlCredit : PostingId
  payPayableDebit : PostingId
  receiveReceivableCredit : PostingId
  receiveControlDebit : PostingId
deriving DecidableEq

def ConfirmationPostingIds.toList (ids : ConfirmationPostingIds) : List PostingId :=
  [ids.payControlDebit, ids.payPayableCredit, ids.receiveReceivableDebit, ids.receiveControlCredit]

def ReversalPostingIds.toList (ids : ReversalPostingIds) : List PostingId :=
  [ids.payControlCredit, ids.payPayableDebit, ids.receiveReceivableCredit, ids.receiveControlDebit]

inductive PostingPolicyError
  | tradeNotConfirmed | invalidOriginalShape
  | postingNonPositiveAmount | postingInvalidTradeVersion | postingEmptyAccount
  | postingInvalidSide | postingUnsupportedCurrency | postingSelfReversal
  | ledgerEmptyPostings | ledgerDuplicatePostingId | ledgerInvalidPostingSide
  | ledgerUnsupportedCurrency | ledgerBalanceOverflow | ledgerUnbalanced
deriving DecidableEq, Repr

def mapPostingError : PostingError → PostingPolicyError
  | .nonPositiveAmount => .postingNonPositiveAmount
  | .invalidTradeVersion => .postingInvalidTradeVersion
  | .emptyAccount => .postingEmptyAccount
  | .invalidSide => .postingInvalidSide
  | .unsupportedCurrency => .postingUnsupportedCurrency
  | .selfReversal => .postingSelfReversal

def mapLedgerError : LedgerError → PostingPolicyError
  | .emptyPostings => .ledgerEmptyPostings
  | .duplicatePostingId => .ledgerDuplicatePostingId
  | .invalidPostingSide => .ledgerInvalidPostingSide
  | .unsupportedCurrency => .ledgerUnsupportedCurrency
  | .balanceOverflow => .ledgerBalanceOverflow
  | .unbalanced => .ledgerUnbalanced

def makeLedgerEntry (postings : List Posting) : Except PostingPolicyError LedgerEntry :=
  (LedgerEntry.create postings).mapError mapLedgerError

def controlAccount (counterpartyId : CounterpartyId) : Bytes :=
  counterpartyControlPrefix ++ counterpartyId.value

def payableAccount (bookId : BookId) : Bytes := settlementPayablePrefix ++ bookId.value

def receivableAccount (bookId : BookId) : Bytes := settlementReceivablePrefix ++ bookId.value

/-- The first failing posting decides the error, as in the source, where all
four are built before the first is examined. -/
def buildConfirmationEntry (confirmed : Trade) (postingIds : ConfirmationPostingIds) :
    Except PostingPolicyError LedgerEntry :=
  if confirmed.state ≠ .confirmed then .error .tradeNotConfirmed
  else do
    let control := controlAccount confirmed.counterpartyId
    let payable := payableAccount confirmed.bookId
    let receivable := receivableAccount confirmed.bookId
    let post (id : PostingId) (account : Bytes) (side : PostingSide) (amount : Money) :=
      (Posting.create id confirmed.id confirmed.version account side amount).mapError
        mapPostingError
    let payControl ← post postingIds.payControlDebit control .debit confirmed.terms.pay
    let payPayable ← post postingIds.payPayableCredit payable .credit confirmed.terms.pay
    let receiveReceivable ←
      post postingIds.receiveReceivableDebit receivable .debit confirmed.terms.receive
    let receiveControl ←
      post postingIds.receiveControlCredit control .credit confirmed.terms.receive
    makeLedgerEntry [payControl, payPayable, receiveReceivable, receiveControl]

def isConfirmationShape : List Posting → Bool
  | [payControl, payPayable, receiveReceivable, receiveControl] =>
    payControl.side == .debit && payPayable.side == .credit &&
    receiveReceivable.side == .debit && receiveControl.side == .credit &&
    counterpartyControlPrefix.isPrefixOf payControl.account &&
    settlementPayablePrefix.isPrefixOf payPayable.account &&
    settlementReceivablePrefix.isPrefixOf receiveReceivable.account &&
    receiveControl.account == payControl.account &&
    !(payControl.account.drop counterpartyControlPrefix.length).isEmpty &&
    !(payPayable.account.drop settlementPayablePrefix.length).isEmpty &&
    payPayable.account.drop settlementPayablePrefix.length ==
      receiveReceivable.account.drop settlementReceivablePrefix.length &&
    payControl.amount == payPayable.amount &&
    receiveReceivable.amount == receiveControl.amount &&
    payControl.amount.currency != receiveReceivable.amount.currency &&
    [payControl, payPayable, receiveReceivable, receiveControl].all fun posting =>
      posting.tradeId == payControl.tradeId && posting.tradeVersion == payControl.tradeVersion &&
      posting.reversalOf.isNone
  | _ => false

/-- Position is significant: each new posting reverses the original posting at
its own index. -/
def reversePostings : List PostingId → List Posting → Except PostingPolicyError (List Posting)
  | id :: ids, original :: originals => do
    let reversal ← (Posting.reverse id original).mapError mapPostingError
    let reversals ← reversePostings ids originals
    .ok (reversal :: reversals)
  -- A confirmation has as many postings as there are identifiers.
  | _, _ => .ok []

def buildReversalEntry (original : LedgerEntry) (reversalIds : ReversalPostingIds) :
    Except PostingPolicyError LedgerEntry :=
  if !isConfirmationShape original.postings then .error .invalidOriginalShape
  else do
    let reversals ← reversePostings reversalIds.toList original.postings
    makeLedgerEntry reversals

structure PostingContent where
  tradeId : TradeId
  tradeVersion : UInt32
  account : Bytes
  side : PostingSide
  amount : Money
  reversalOf : Option PostingId
deriving DecidableEq

def Posting.content (posting : Posting) : PostingContent :=
  ⟨posting.tradeId, posting.tradeVersion, posting.account, posting.side, posting.amount,
    posting.reversalOf⟩

def Trade.confirmationContents (trade : Trade) : List PostingContent :=
  [⟨trade.id, trade.version, controlAccount trade.counterpartyId, .debit, trade.terms.pay, none⟩,
   ⟨trade.id, trade.version, payableAccount trade.bookId, .credit, trade.terms.pay, none⟩,
   ⟨trade.id, trade.version, receivableAccount trade.bookId, .debit, trade.terms.receive, none⟩,
   ⟨trade.id, trade.version, controlAccount trade.counterpartyId, .credit, trade.terms.receive,
    none⟩]

def LedgerEntry.contents (entry : LedgerEntry) : List PostingContent :=
  entry.postings.map Posting.content

def Posting.reversalContent (posting : Posting) : PostingContent :=
  { posting.content with side := posting.side.opposite, reversalOf := some posting.id }

def IsReversalOf (original reversal : LedgerEntry) : Prop :=
  reversal.contents = original.postings.map Posting.reversalContent

instance (original reversal : LedgerEntry) : Decidable (IsReversalOf original reversal) :=
  inferInstanceAs (Decidable (_ = _))

/-- Two equal amounts on opposite sides leave a zero balance as it was. -/
theorem balancePostings_pair (p q : Posting) (rest : List Posting)
    (ids : ExtTreeSet PostingId) (balances : Balances) (hz : balances p.amount.currency = 0)
    (ha : q.amount = p.amount) (hs : q.side = p.side.opposite) :
    balancePostings (p :: q :: rest) ids balances =
      if p.id ∈ ids ∨ q.id ∈ ids.insert p.id then .error .duplicatePostingId
      else balancePostings rest ((ids.insert p.id).insert q.id) balances := by
  have hpos := p.amount_pos
  have hrange := p.amount.inRange
  -- The second posting brings the balance back to the zero it was.
  have hback (x : ℤ) : Function.update (Function.update balances p.amount.currency x)
      p.amount.currency 0 = balances := by
    rw [Function.update_idem, ← hz, Function.update_eq_self]
  by_cases hp : p.id ∈ ids
  · simp [balancePostings, hp]
  · by_cases hq : q.id ∈ ids.insert p.id
    · cases hside : p.side <;>
        simp only [balancePostings, hp, hq, hside, hz, checkedAddPositive,
          checkedSubtractPositive, if_false, if_true, or_true]
      · rw [if_neg (by omega)]
      · rw [if_neg (by omega)]
    · cases hside : p.side <;>
        simp only [balancePostings, hp, hq, ha, hs, hside, hz, PostingSide.opposite,
          checkedAddPositive, checkedSubtractPositive, if_false, or_self]
      · rw [if_neg (by omega)]
        simp only [Function.update_self]
        rw [if_neg (by omega)]
        simp only [zero_add, sub_self, hback]
      · rw [if_neg (by omega)]
        simp only [Function.update_self]
        rw [if_neg (by omega)]
        simp only [zero_sub, neg_add_cancel, hback]

/-- Two such pairs make an entry unless an identifier repeats. -/
theorem makeLedgerEntry_pairs (p q r t : Posting) (hpq : q.amount = p.amount)
    (hpq' : q.side = p.side.opposite) (hrt : t.amount = r.amount)
    (hrt' : t.side = r.side.opposite) :
    (∃ entry, makeLedgerEntry [p, q, r, t] = .ok entry ∧ entry.postings = [p, q, r, t] ∧
      [p.id, q.id, r.id, t.id].Nodup) ∨
    (makeLedgerEntry [p, q, r, t] = .error .ledgerDuplicatePostingId ∧
      ¬[p.id, q.id, r.id, t.id].Nodup) := by
  by_cases hd : [p.id, q.id, r.id, t.id].Nodup
  · refine Or.inl ⟨⟨[p, q, r, t], ?_⟩, ?_, rfl, hd⟩
    · simp only [validateEntry, reduceCtorEq, if_false]
      rw [balancePostings_pair p q _ _ _ rfl hpq hpq', balancePostings_pair r t _ _ _ rfl hrt hrt']
      simp only [List.nodup_cons, List.mem_cons, List.not_mem_nil, or_false, not_or] at hd
      simp [balancePostings, ExtTreeSet.mem_insert, ExtTreeSet.not_mem_empty,
        LawfulEqCmp.compare_eq_iff_eq, hd]
    · simp only [makeLedgerEntry, Outcome.mapError_ok_iff]
      exact LedgerEntry.create_ok_iff.mpr rfl
  · refine Or.inr ⟨?_, hd⟩
    simp only [makeLedgerEntry, Outcome.mapError_error_iff]
    refine ⟨.duplicatePostingId, LedgerEntry.create_error_iff.mpr ?_, rfl⟩
    simp only [validateEntry, reduceCtorEq, if_false]
    rw [balancePostings_pair p q _ _ _ rfl hpq hpq', balancePostings_pair r t _ _ _ rfl hrt hrt']
    simp only [List.nodup_cons, List.mem_cons, List.not_mem_nil, or_false, not_or] at hd
    simp only [ExtTreeSet.mem_insert, ExtTreeSet.not_mem_empty, LawfulEqCmp.compare_eq_iff_eq,
      or_false, false_or]
    split_ifs with h1 h2
    · rfl
    · rfl
    · exfalso
      apply hd
      tauto

theorem controlAccount_ne (counterpartyId : CounterpartyId) :
    controlAccount counterpartyId ≠ [] := by
  simp [controlAccount, counterpartyId.value_ne_nil]

theorem payableAccount_ne (bookId : BookId) : payableAccount bookId ≠ [] := by
  simp [payableAccount, bookId.value_ne_nil]

theorem receivableAccount_ne (bookId : BookId) : receivableAccount bookId ≠ [] := by
  simp [receivableAccount, bookId.value_ne_nil]

/-- A confirmation fails only on a repeated identifier, and otherwise carries
the contents that the version owes. -/
theorem buildConfirmationEntry_cases (confirmed : Trade) (ids : ConfirmationPostingIds)
    (hs : confirmed.state = .confirmed) (hv : confirmed.version ≠ 0) :
    (∃ entry, buildConfirmationEntry confirmed ids = .ok entry ∧
      entry.contents = confirmed.confirmationContents ∧
      entry.postings.map Posting.id = ids.toList ∧ ids.toList.Nodup) ∨
    (buildConfirmationEntry confirmed ids = .error .ledgerDuplicatePostingId ∧
      ¬ids.toList.Nodup) := by
  have hpay := confirmed.terms.pay_pos
  have hreceive := confirmed.terms.receive_pos
  -- All four postings pass the checks of their factory.
  let post (id : PostingId) (account : Bytes) (side : PostingSide) (amount : Money)
      (ha : account ≠ []) (hm : 0 < amount.minorUnits) : Posting :=
    ⟨id, confirmed.id, confirmed.version, account, side, amount, none, hv, ha, hm,
      (Option.some_ne_none id).symm⟩
  have hpost (id : PostingId) (account : Bytes) (side : PostingSide) (amount : Money)
      (ha : account ≠ []) (hm : 0 < amount.minorUnits) :
      Posting.create id confirmed.id confirmed.version account side amount =
        .ok (post id account side amount ha hm) := by
    unfold Posting.create
    rw [dif_neg hv, dif_neg ha, dif_neg (by omega)]
  have hbuild : buildConfirmationEntry confirmed ids =
      makeLedgerEntry [
        post ids.payControlDebit _ .debit _ (controlAccount_ne confirmed.counterpartyId) hpay,
        post ids.payPayableCredit _ .credit _ (payableAccount_ne confirmed.bookId) hpay,
        post ids.receiveReceivableDebit _ .debit _ (receivableAccount_ne confirmed.bookId) hreceive,
        post ids.receiveControlCredit _ .credit _ (controlAccount_ne confirmed.counterpartyId)
          hreceive] := by
    simp only [buildConfirmationEntry, hs, ne_eq, not_true_eq_false, if_false]
    rw [hpost _ _ _ _ (controlAccount_ne confirmed.counterpartyId) hpay,
      hpost _ _ _ _ (payableAccount_ne confirmed.bookId) hpay,
      hpost _ _ _ _ (receivableAccount_ne confirmed.bookId) hreceive,
      hpost _ _ _ _ (controlAccount_ne confirmed.counterpartyId) hreceive]
    rfl
  rw [hbuild]
  rcases makeLedgerEntry_pairs
    (post ids.payControlDebit _ .debit _ (controlAccount_ne confirmed.counterpartyId) hpay)
    (post ids.payPayableCredit _ .credit _ (payableAccount_ne confirmed.bookId) hpay)
    (post ids.receiveReceivableDebit _ .debit _ (receivableAccount_ne confirmed.bookId) hreceive)
    (post ids.receiveControlCredit _ .credit _ (controlAccount_ne confirmed.counterpartyId)
      hreceive) rfl rfl rfl rfl with ⟨entry, hok, hp, hd⟩ | ⟨herr, hd⟩
  · refine Or.inl ⟨entry, hok, ?_, ?_, hd⟩
    · rw [LedgerEntry.contents, hp]
      rfl
    · rw [hp]
      rfl
  · exact Or.inr ⟨herr, hd⟩

/-- The four postings behind confirmation contents, in order. -/
theorem postings_of_confirmationContents {original : LedgerEntry} {trade : Trade}
    (h : original.contents = trade.confirmationContents) : ∃ p q r t,
    original.postings = [p, q, r, t] ∧
      p.content = ⟨trade.id, trade.version, controlAccount trade.counterpartyId, .debit,
        trade.terms.pay, none⟩ ∧
      q.content = ⟨trade.id, trade.version, payableAccount trade.bookId, .credit,
        trade.terms.pay, none⟩ ∧
      r.content = ⟨trade.id, trade.version, receivableAccount trade.bookId, .debit,
        trade.terms.receive, none⟩ ∧
      t.content = ⟨trade.id, trade.version, controlAccount trade.counterpartyId, .credit,
        trade.terms.receive, none⟩ := by
  unfold LedgerEntry.contents Trade.confirmationContents at h
  match hp : original.postings with
  | [] | [_] | [_, _] | [_, _, _] | _ :: _ :: _ :: _ :: _ :: _ => simp [hp] at h
  | [p, q, r, t] =>
    rw [hp] at h
    simp only [List.map_cons, List.map_nil, List.cons.injEq, and_true] at h
    exact ⟨p, q, r, t, rfl, h⟩

/-- Every confirmation is recognised as one, whatever its identifiers contain. -/
theorem isConfirmationShape_of_contents {original : LedgerEntry} {trade : Trade}
    (h : original.contents = trade.confirmationContents) :
    isConfirmationShape original.postings = true := by
  obtain ⟨p, q, r, t, hpost, hp, hq, hr, ht⟩ := postings_of_confirmationContents h
  simp only [Posting.content, PostingContent.mk.injEq] at hp hq hr ht
  obtain ⟨hp1, hp2, hp3, hp4, hp5, hp6⟩ := hp
  obtain ⟨hq1, hq2, hq3, hq4, hq5, hq6⟩ := hq
  obtain ⟨hr1, hr2, hr3, hr4, hr5, hr6⟩ := hr
  obtain ⟨ht1, ht2, ht3, ht4, ht5, ht6⟩ := ht
  rw [hpost]
  simp [isConfirmationShape, hp1, hp2, hp3, hp4, hp5, hp6, hq1, hq2, hq3, hq4, hq5, hq6,
    hr1, hr2, hr3, hr4, hr5, hr6, ht1, ht2, ht3, ht4, ht5, ht6, controlAccount, payableAccount,
    receivableAccount, trade.counterpartyId.value_ne_nil, trade.bookId.value_ne_nil,
    trade.terms.currency_ne]

theorem Posting.reverse_cases (id : PostingId) (original : Posting) :
    (∃ reversal, Posting.reverse id original = .ok reversal ∧ reversal.id = id ∧
      reversal.content = original.reversalContent) ∨
    (Posting.reverse id original = .error .selfReversal ∧ id = original.id) := by
  unfold Posting.reverse
  by_cases h : id = original.id
  · exact Or.inr ⟨dif_pos h, h⟩
  · refine Or.inl ⟨_, dif_neg h, rfl, ?_⟩
    simp [Posting.content, Posting.reversalContent]

/-- Reversals are made position by position, unless one would reverse itself. -/
theorem reversePostings_cases (ids : List PostingId) (originals : List Posting)
    (hl : ids.length = originals.length) :
    (∃ reversals, reversePostings ids originals = .ok reversals ∧
      reversals.map Posting.id = ids ∧
      reversals.map Posting.content = originals.map Posting.reversalContent) ∨
    (reversePostings ids originals = .error .postingSelfReversal ∧
      ∃ p ∈ originals, p.id ∈ ids) := by
  induction ids generalizing originals with
  | nil =>
    obtain rfl : originals = [] := List.length_eq_zero_iff.mp hl.symm
    exact Or.inl ⟨[], rfl, rfl, rfl⟩
  | cons id ids ih =>
    obtain ⟨original, originals, rfl⟩ := List.exists_cons_of_length_eq_add_one hl.symm
    rcases Posting.reverse_cases id original with ⟨reversal, hok, hid, hc⟩ | ⟨herr, he⟩
    · rcases ih originals (by simpa using hl) with ⟨reversals, hoks, hids, hcs⟩ | ⟨herr, p, hp, hm⟩
      · refine Or.inl ⟨reversal :: reversals, ?_, ?_, ?_⟩
        · simp only [reversePostings, hok, hoks]
          rfl
        · rw [List.map_cons, hid, hids]
        · rw [List.map_cons, List.map_cons, hc, hcs]
      · refine Or.inr ⟨?_, p, List.mem_cons_of_mem _ hp, List.mem_cons_of_mem _ hm⟩
        simp only [reversePostings, hok, herr]
        rfl
    · refine Or.inr ⟨?_, original, List.mem_cons_self, by simp [he]⟩
      simp only [reversePostings, herr]
      rfl

/-- The reversal of a confirmation fails only on a repeated identifier. -/
theorem buildReversalEntry_cases {original : LedgerEntry} {trade : Trade}
    (ids : ReversalPostingIds) (h : original.contents = trade.confirmationContents) :
    (∃ entry, buildReversalEntry original ids = .ok entry ∧ IsReversalOf original entry ∧
      entry.postings.map Posting.id = ids.toList ∧ ids.toList.Nodup) ∨
    (buildReversalEntry original ids = .error .postingSelfReversal ∧
      ∃ p ∈ original.postings, p.id ∈ ids.toList) ∨
    (buildReversalEntry original ids = .error .ledgerDuplicatePostingId ∧
      ¬ids.toList.Nodup) := by
  have hshape := isConfirmationShape_of_contents h
  obtain ⟨p, q, r, t, hpost, hp, hq, hr, ht⟩ := postings_of_confirmationContents h
  have hlen : ids.toList.length = original.postings.length := by
    rw [hpost]
    rfl
  simp only [buildReversalEntry, hshape, Bool.not_true, Bool.false_eq_true, if_false]
  rcases reversePostings_cases ids.toList original.postings hlen with
    ⟨reversals, hok, hids, hcs⟩ | ⟨herr, hself⟩
  · rw [hok, Outcome.ok_bind]
    simp only [Posting.content, PostingContent.mk.injEq] at hp hq hr ht
    rw [hpost] at hcs
    match reversals with
    | [] | [_] | [_, _] | [_, _, _] | _ :: _ :: _ :: _ :: _ :: _ => simp at hcs
    | [p', q', r', t'] =>
      simp only [List.map_cons, List.map_nil, List.cons.injEq, and_true, Posting.content,
        Posting.reversalContent, PostingContent.mk.injEq] at hcs
      obtain ⟨⟨_, _, _, hp4, hp5, _⟩, ⟨_, _, _, hq4, hq5, _⟩, ⟨_, _, _, hr4, hr5, _⟩,
        ⟨_, _, _, ht4, ht5, _⟩⟩ := hcs
      -- The reversals pair up as the originals did, with the sides swapped.
      rcases makeLedgerEntry_pairs p' q' r' t'
        (by rw [hp5, hq5, hp.2.2.2.2.1, hq.2.2.2.2.1])
        (by rw [hp4, hq4, hp.2.2.2.1, hq.2.2.2.1]; rfl)
        (by rw [hr5, ht5, hr.2.2.2.2.1, ht.2.2.2.2.1])
        (by rw [hr4, ht4, hr.2.2.2.1, ht.2.2.2.1]; rfl) with ⟨entry, hmk, he, hd⟩ | ⟨hmk, hd⟩
      · refine Or.inl ⟨entry, hmk, ?_, ?_, ?_⟩
        · rw [IsReversalOf, LedgerEntry.contents, he, hpost]
          simp_all [Posting.content, Posting.reversalContent]
        · rw [he]
          exact hids
        · rw [← hids]
          exact hd
      · refine Or.inr (Or.inr ⟨hmk, ?_⟩)
        rw [← hids]
        exact hd
  · exact Or.inr (Or.inl ⟨by rw [herr]; rfl, hself⟩)

end Backbook
