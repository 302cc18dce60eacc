import Backbook.DomainTrade

namespace Backbook

open Std

inductive PostingSide
  | debit | credit
deriving DecidableEq, Repr

def PostingSide.opposite : PostingSide → PostingSide
  | .debit => .credit
  | .credit => .debit

inductive PostingError
  | nonPositiveAmount | invalidTradeVersion | emptyAccount | invalidSide | unsupportedCurrency
  | selfReversal
deriving DecidableEq, Repr

structure Posting where
  id : PostingId
  tradeId : TradeId
  tradeVersion : UInt32
  account : Bytes
  side : PostingSide
  amount : Money
  reversalOf : Option PostingId
  version_ne : tradeVersion ≠ 0
  account_ne : account ≠ []
  amount_pos : 0 < amount.minorUnits
  not_self : reversalOf ≠ some id

@[ext] theorem Posting.ext {p q : Posting} (hid : p.id = q.id) (ht : p.tradeId = q.tradeId)
    (hv : p.tradeVersion = q.tradeVersion) (hacc : p.account = q.account) (hs : p.side = q.side)
    (ham : p.amount = q.amount) (hr : p.reversalOf = q.reversalOf) : p = q := by
  cases p
  cases q
  simp_all

instance : DecidableEq Posting := fun _ _ => decidable_of_iff _ Posting.ext_iff.symm

def Posting.create (id : PostingId) (tradeId : TradeId) (tradeVersion : UInt32) (account : Bytes)
    (side : PostingSide) (amount : Money) : Except PostingError Posting :=
  if hv : tradeVersion = 0 then .error .invalidTradeVersion
  else if ha : account = [] then .error .emptyAccount
  else if hm : amount.minorUnits ≤ 0 then .error .nonPositiveAmount
  else .ok ⟨id, tradeId, tradeVersion, account, side, amount, none, hv, ha, by omega, nofun⟩

def Posting.reverse (id : PostingId) (original : Posting) : Except PostingError Posting :=
  if h : id = original.id then .error .selfReversal
  else .ok ⟨id, original.tradeId, original.tradeVersion, original.account, original.side.opposite,
    original.amount, some original.id, original.version_ne, original.account_ne,
    original.amount_pos, fun he => h (Option.some.inj he).symm⟩

def Posting.signedAmount (posting : Posting) : ℤ :=
  match posting.side with
  | .debit => posting.amount.minorUnits
  | .credit => -posting.amount.minorUnits

abbrev Balances := Currency → ℤ

def checkedAddPositive (total amount : ℤ) : Option ℤ :=
  if total > 2 ^ 63 - 1 - amount then none else some (total + amount)

def checkedSubtractPositive (total amount : ℤ) : Option ℤ :=
  if total < -2 ^ 63 + amount then none else some (total - amount)

inductive LedgerError
  | emptyPostings | duplicatePostingId | invalidPostingSide | unsupportedCurrency
  | balanceOverflow | unbalanced
deriving DecidableEq, Repr

def balancePostings : List Posting → ExtTreeSet PostingId → Balances → Except LedgerError Balances
  | [], _, balances => .ok balances
  | posting :: rest, postingIds, balances =>
    if posting.id ∈ postingIds then .error .duplicatePostingId
    else
      let currency := posting.amount.currency
      let updated := match posting.side with
        | .debit => checkedAddPositive (balances currency) posting.amount.minorUnits
        | .credit => checkedSubtractPositive (balances currency) posting.amount.minorUnits
      match updated with
      | none => .error .balanceOverflow
      | some total =>
        balancePostings rest (postingIds.insert posting.id)
          (Function.update balances currency total)

def validateEntry (postings : List Posting) : Except LedgerError Unit :=
  if postings = [] then .error .emptyPostings
  else do
    let balances ← balancePostings postings ∅ (fun _ => 0)
    if ∀ currency, balances currency = 0 then .ok () else .error .unbalanced

structure LedgerEntry where
  postings : List Posting
  accepted : validateEntry postings = .ok ()
deriving DecidableEq

@[ext] theorem LedgerEntry.ext {a b : LedgerEntry} (h : a.postings = b.postings) : a = b := by
  cases a
  cases b
  simpa using h

def LedgerEntry.create (postings : List Posting) : Except LedgerError LedgerEntry :=
  match h : validateEntry postings with
  | .ok () => .ok ⟨postings, h⟩
  | .error e => .error e

theorem LedgerEntry.create_ok_iff {postings : List Posting} {entry : LedgerEntry} :
    LedgerEntry.create postings = .ok entry ↔ postings = entry.postings := by
  unfold LedgerEntry.create
  split
  · simp [LedgerEntry.ext_iff]
  · rename_i e h
    refine ⟨nofun, ?_⟩
    rintro rfl
    rw [entry.accepted] at h
    contradiction

theorem LedgerEntry.create_error_iff {postings : List Posting} {e : LedgerError} :
    LedgerEntry.create postings = .error e ↔ validateEntry postings = .error e := by
  unfold LedgerEntry.create
  split
  · rename_i h
    simp [h]
  · rename_i d h
    simp [h]

def netOf (postings : List Posting) (currency : Currency) : ℤ :=
  (postings.map fun p => if p.amount.currency = currency then p.signedAmount else 0).sum

@[simp] theorem netOf_nil (currency : Currency) : netOf [] currency = 0 := rfl

@[simp] theorem netOf_cons (p : Posting) (ps : List Posting) (currency : Currency) :
    netOf (p :: ps) currency =
      (if p.amount.currency = currency then p.signedAmount else 0) + netOf ps currency := by
  simp [netOf]

/-- A balance that passes its check is exact, and it stays in range. -/
theorem Posting.checked_ok {posting : Posting} {balance total : ℤ}
    (h : (match posting.side with
      | .debit => checkedAddPositive balance posting.amount.minorUnits
      | .credit => checkedSubtractPositive balance posting.amount.minorUnits) = some total) :
    total = balance + posting.signedAmount ∧ (0 < posting.signedAmount → total ≤ 2 ^ 63 - 1) ∧
      (posting.signedAmount < 0 → -2 ^ 63 ≤ total) := by
  have hpos := posting.amount_pos
  unfold Posting.signedAmount
  cases hs : posting.side with
  | debit =>
    simp only [hs, checkedAddPositive] at h ⊢
    split_ifs at h with hover
    obtain rfl := Option.some.inj h
    omega
  | credit =>
    simp only [hs, checkedSubtractPositive] at h ⊢
    split_ifs at h with hover
    obtain rfl := Option.some.inj h
    omega

/-- The posting loop succeeds with exact balances, over distinct new identifiers. -/
theorem balancePostings_ok {postings : List Posting} {postingIds : ExtTreeSet PostingId}
    {balances result : Balances} (h : balancePostings postings postingIds balances = .ok result) :
    (postings.map Posting.id).Nodup ∧ (∀ p ∈ postings, p.id ∉ postingIds) ∧
      ∀ currency, result currency = balances currency + netOf postings currency := by
  induction postings generalizing postingIds balances with
  | nil =>
    obtain rfl := Except.ok.inj h
    simp
  | cons p ps ih =>
    simp only [balancePostings] at h
    split_ifs at h with hp
    split at h
    · cases h
    · rename_i total htotal
      obtain ⟨hd, hf, hb⟩ := ih h
      -- What follows avoids the identifier that was just recorded.
      have hnew (q : Posting) (hq : q ∈ ps) : q.id ≠ p.id ∧ q.id ∉ postingIds := by
        have hh := hf q hq
        rw [ExtTreeSet.mem_insert, not_or] at hh
        exact ⟨fun he => hh.1 (by rw [he]; exact ReflCmp.compare_self), hh.2⟩
      have hupd : total = balances p.amount.currency + p.signedAmount :=
        (Posting.checked_ok htotal).1
      refine ⟨?_, ?_, ?_⟩
      · rw [List.map_cons, List.nodup_cons]
        refine ⟨?_, hd⟩
        intro hm
        obtain ⟨q, hq, he⟩ := List.mem_map.mp hm
        exact (hnew q hq).1 he
      · intro q hq
        rcases List.mem_cons.mp hq with rfl | hq
        · exact hp
        · exact (hnew q hq).2
      · intro currency
        rw [hb currency, netOf_cons]
        by_cases hc : p.amount.currency = currency
        · subst hc
          simp [hupd, add_assoc]
        · simp [hc, Function.update_of_ne (Ne.symm hc)]

theorem validateEntry_ok {postings : List Posting} (h : validateEntry postings = .ok ()) :
    postings ≠ [] ∧ (postings.map Posting.id).Nodup ∧ ∀ currency, netOf postings currency = 0 := by
  unfold validateEntry at h
  split_ifs at h with hne
  obtain ⟨balances, hb, hz⟩ := Outcome.bind_ok_iff.mp h
  split_ifs at hz with hzero
  obtain ⟨hd, _, hx⟩ := balancePostings_ok hb
  refine ⟨hne, hd, ?_⟩
  intro currency
  have hsum := hx currency
  rw [hzero currency, zero_add] at hsum
  exact hsum.symm

theorem LedgerEntry.postings_ne_nil (entry : LedgerEntry) : entry.postings ≠ [] :=
  (validateEntry_ok entry.accepted).1

theorem LedgerEntry.ids_nodup (entry : LedgerEntry) : (entry.postings.map Posting.id).Nodup :=
  (validateEntry_ok entry.accepted).2.1

theorem LedgerEntry.balanced (entry : LedgerEntry) (currency : Currency) :
    netOf entry.postings currency = 0 :=
  (validateEntry_ok entry.accepted).2.2 currency

end Backbook
