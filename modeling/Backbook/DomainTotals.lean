import Backbook.DomainLedger

namespace Backbook

inductive LedgerTotalsError
  | overflow | unsupportedCurrency | invalidPostingSide
deriving DecidableEq, Repr

def checkedAdd (total delta : ℤ) : Option ℤ :=
  if (0 < delta ∧ total > 2 ^ 63 - 1 - delta) ∨ (delta < 0 ∧ total < -2 ^ 63 - delta) then none
  else some (total + delta)

/-- One step of either fold; currency and side cannot be invalid here. -/
def addPosting (totals : Balances) (posting : Posting) : Except LedgerTotalsError Balances :=
  let currency := posting.amount.currency
  match checkedAdd (totals currency) posting.signedAmount with
  | none => .error .overflow
  | some total => .ok (Function.update totals currency total)

@[ext] structure LedgerTotals where
  totals : Balances
deriving DecidableEq

def LedgerTotals.zero : LedgerTotals := ⟨fun _ => 0⟩

def LedgerTotals.withPosting (self : LedgerTotals) (posting : Posting) :
    Except LedgerTotalsError LedgerTotals :=
  (addPosting self.totals posting).map LedgerTotals.mk

def LedgerTotals.withEntry (self : LedgerTotals) (entry : LedgerEntry) :
    Except LedgerTotalsError LedgerTotals :=
  entry.postings.foldlM LedgerTotals.withPosting self

def addEntry (totals : Balances) (entry : LedgerEntry) : Except LedgerTotalsError Balances :=
  entry.postings.foldlM addPosting totals

def recomputeLedgerTotals (entries : List LedgerEntry) : Except LedgerTotalsError LedgerTotals :=
  (entries.foldlM addEntry (fun _ => 0 : Balances)).map LedgerTotals.mk

theorem foldlM_withPosting (postings : List Posting) (totals : Balances) :
    postings.foldlM LedgerTotals.withPosting ⟨totals⟩ =
      (postings.foldlM addPosting totals).map LedgerTotals.mk := by
  induction postings generalizing totals with
  | nil => rfl
  | cons p ps ih =>
    simp only [List.foldlM_cons, LedgerTotals.withPosting]
    cases addPosting totals p with
    | error e => rfl
    | ok next => exact ih next

/-- The totals agree with the entry factory on every check. -/
theorem addPosting_of_balancePostings {postings : List Posting}
    {postingIds : Std.ExtTreeSet PostingId} {balances result : Balances}
    (h : balancePostings postings postingIds balances = .ok result) :
    postings.foldlM addPosting balances = .ok result := by
  induction postings generalizing postingIds balances with
  | nil =>
    obtain rfl := Except.ok.inj h
    rfl
  | cons p ps ih =>
    simp only [balancePostings] at h
    split_ifs at h
    split at h
    · cases h
    · rename_i total htotal
      -- Both checks bound the same exact sum, each in the direction it moves.
      have hadd : checkedAdd (balances p.amount.currency) p.signedAmount = some total := by
        obtain ⟨hsum, hmax, hmin⟩ := Posting.checked_ok htotal
        rw [checkedAdd, if_neg (by omega), hsum]
      simp only [List.foldlM_cons, addPosting, hadd, Outcome.ok_bind]
      exact ih h

/-- From zero, every entry keeps the totals at zero. -/
theorem addEntry_zero (entry : LedgerEntry) :
    addEntry (fun _ => 0) entry = .ok fun _ => 0 := by
  have hacc := entry.accepted
  unfold validateEntry at hacc
  rw [if_neg entry.postings_ne_nil] at hacc
  obtain ⟨balances, hb, hz⟩ := Outcome.bind_ok_iff.mp hacc
  split_ifs at hz with hzero
  -- The entry was accepted from the same zero balances.
  rw [addEntry, addPosting_of_balancePostings hb]
  exact congrArg _ (funext hzero)

theorem LedgerTotals.withEntry_zero (entry : LedgerEntry) :
    LedgerTotals.zero.withEntry entry = .ok LedgerTotals.zero := by
  have h := addEntry_zero entry
  rw [addEntry] at h
  rw [LedgerTotals.withEntry, LedgerTotals.zero, foldlM_withPosting, h]
  rfl

/-- Recomputing any ledger gives zero in every currency. -/
theorem recomputeLedgerTotals_eq_zero (entries : List LedgerEntry) :
    recomputeLedgerTotals entries = .ok LedgerTotals.zero := by
  have hfold : entries.foldlM addEntry (fun _ => 0) = .ok fun _ => 0 := by
    induction entries with
    | nil => rfl
    | cons entry entries ih =>
      rw [List.foldlM_cons, addEntry_zero]
      exact ih
  rw [recomputeLedgerTotals, hfold]
  rfl

end Backbook
