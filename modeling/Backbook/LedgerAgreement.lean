import Backbook.DomainTotals

namespace Backbook

/-- The independent loop over plain postings, which rebuilds no running totals. -/
def sumPostings (totals : Balances) : List Posting → Except LedgerTotalsError Balances
  | [] => .ok totals
  | posting :: rest =>
    match checkedAdd (totals posting.amount.currency) posting.signedAmount with
    | none => .error .overflow
    | some total => sumPostings (Function.update totals posting.amount.currency total) rest

def recomputePostingTotals (postings : List Posting) : Except LedgerTotalsError LedgerTotals :=
  (sumPostings (fun _ => 0) postings).map LedgerTotals.mk

def sideTotal (side : PostingSide) (postings : List Posting) (currency : Currency) : ℤ :=
  (postings.map fun p =>
    if p.side = side ∧ p.amount.currency = currency then p.amount.minorUnits else 0).sum

def RunningTotalsFit (totals : Balances) (postings : List Posting) : Prop :=
  ∀ taken, taken <+: postings → ∀ currency, FitsInt64 (totals currency + netOf taken currency)

theorem netOf_eq_sides (postings : List Posting) (currency : Currency) :
    netOf postings currency =
      sideTotal .debit postings currency - sideTotal .credit postings currency := by
  induction postings with
  | nil => rfl
  | cons p ps ih =>
    rw [netOf_cons, ih]
    simp only [sideTotal, List.map_cons, List.sum_cons, Posting.signedAmount]
    by_cases hc : p.amount.currency = currency
    · cases hs : p.side <;> simp [hc] <;> ring
    · simp [hc]

/-- Within range, the guard refuses exactly the sums that would leave it. -/
theorem checkedAdd_of_fits {total : ℤ} (ht : FitsInt64 total) (delta : ℤ) :
    (FitsInt64 (total + delta) ∧ checkedAdd total delta = some (total + delta)) ∨
      (¬ FitsInt64 (total + delta) ∧ checkedAdd total delta = none) := by
  unfold FitsInt64 at *
  unfold checkedAdd
  split_ifs with hguard
  · exact .inr ⟨by omega, rfl⟩
  · exact .inl ⟨by omega, rfl⟩

@[simp] theorem runningTotalsFit_nil {totals : Balances} :
    RunningTotalsFit totals [] ↔ ∀ currency, FitsInt64 (totals currency) := by
  simp [RunningTotalsFit]

/-- Taking one posting moves its own balance and leaves the others. -/
theorem update_add_netOf (totals : Balances) (p : Posting) (ps : List Posting)
    (currency : Currency) :
    Function.update totals p.amount.currency (totals p.amount.currency + p.signedAmount) currency +
      netOf ps currency = totals currency + netOf (p :: ps) currency := by
  rw [netOf_cons]
  by_cases hc : p.amount.currency = currency
  · subst hc
    simp [add_assoc]
  · simp [hc, Function.update_of_ne (Ne.symm hc)]

theorem runningTotalsFit_cons {totals : Balances} {p : Posting} {ps : List Posting} :
    RunningTotalsFit totals (p :: ps) ↔ (∀ currency, FitsInt64 (totals currency)) ∧
      RunningTotalsFit (Function.update totals p.amount.currency
        (totals p.amount.currency + p.signedAmount)) ps := by
  constructor
  · intro h
    refine ⟨fun currency => by simpa using h [] List.nil_prefix currency, ?_⟩
    intro taken htaken currency
    rw [update_add_netOf]
    exact h (p :: taken) ((List.prefix_cons_inj p).mpr htaken) currency
  · rintro ⟨hnow, hrest⟩ taken htaken currency
    cases taken with
    | nil => simpa using hnow currency
    | cons q qs =>
      obtain ⟨rfl, hqs⟩ := List.cons_prefix_cons.mp htaken
      rw [← update_add_netOf]
      exact hrest qs hqs currency

/-- What the independent loop does, from any totals already in range. -/
theorem sumPostings_spec {totals : Balances} (postings : List Posting)
    (ht : ∀ currency, FitsInt64 (totals currency)) :
    (RunningTotalsFit totals postings ∧ sumPostings totals postings =
      .ok fun currency => totals currency + netOf postings currency) ∨
    (¬ RunningTotalsFit totals postings ∧ sumPostings totals postings = .error .overflow) := by
  induction postings generalizing totals with
  | nil => exact .inl ⟨runningTotalsFit_nil.mpr ht, by simp [sumPostings]⟩
  | cons p ps ih =>
    rw [runningTotalsFit_cons, sumPostings]
    rcases checkedAdd_of_fits (ht p.amount.currency) p.signedAmount with
      ⟨hfit, hadd⟩ | ⟨hover, hadd⟩
    · rw [hadd]
      have hnext (currency : Currency) : FitsInt64 (Function.update totals p.amount.currency
          (totals p.amount.currency + p.signedAmount) currency) := by
        by_cases hc : currency = p.amount.currency
        · subst hc
          simpa using hfit
        · simpa [Function.update_of_ne hc] using ht currency
      simpa only [ht, implies_true, true_and, update_add_netOf] using ih hnext
    · rw [hadd]
      refine .inr ⟨?_, rfl⟩
      rintro ⟨-, hrest⟩
      -- The balance right after this posting is already out of range.
      have hnow := hrest [] List.nil_prefix p.amount.currency
      exact hover (by simpa using hnow)

/-- The incremental updates take the same steps as the independent loop. -/
theorem foldlM_addPosting (totals : Balances) (postings : List Posting) :
    postings.foldlM addPosting totals = sumPostings totals postings := by
  induction postings generalizing totals with
  | nil => rfl
  | cons p ps ih =>
    simp only [List.foldlM_cons, addPosting, sumPostings]
    cases checkedAdd (totals p.amount.currency) p.signedAmount with
    | none => rfl
    | some total => exact ih _

theorem foldlM_withEntry_zero (entries : List LedgerEntry) :
    entries.foldlM LedgerTotals.withEntry .zero = .ok .zero := by
  induction entries with
  | nil => rfl
  | cons entry entries ih =>
    rw [List.foldlM_cons, LedgerTotals.withEntry_zero]
    exact ih

/-- Balanced entries leave the totals at zero, and both totals of any list of
postings have one outcome: the exact sums while they fit, and else overflow. -/
theorem ledger_totals_agree :
    (∀ (entry : LedgerEntry) (currency : Currency),
      sideTotal .debit entry.postings currency = sideTotal .credit entry.postings currency) ∧
    (∀ entries : List LedgerEntry,
      entries.foldlM LedgerTotals.withEntry .zero = .ok .zero ∧
      recomputeLedgerTotals entries = .ok .zero) ∧
    ∀ postings : List Posting,
      postings.foldlM LedgerTotals.withPosting .zero = recomputePostingTotals postings ∧
      (∀ sums, recomputePostingTotals postings = .ok sums ↔
        RunningTotalsFit (fun _ => 0) postings ∧ ∀ currency, sums.totals currency =
          sideTotal .debit postings currency - sideTotal .credit postings currency) ∧
      ∀ error, recomputePostingTotals postings = .error error ↔
        error = .overflow ∧ ¬ RunningTotalsFit (fun _ => 0) postings := by
  refine ⟨?_, ?_, ?_⟩
  · intro entry currency
    have hnet := entry.balanced currency
    rw [netOf_eq_sides] at hnet
    exact sub_eq_zero.mp hnet
  · exact fun entries => ⟨foldlM_withEntry_zero entries, recomputeLedgerTotals_eq_zero entries⟩
  · intro postings
    refine ⟨?_, ?_⟩
    · rw [LedgerTotals.zero, foldlM_withPosting, foldlM_addPosting]
      rfl
    · have hzero (currency : Currency) : FitsInt64 ((fun _ => 0 : Balances) currency) := by
        simp [FitsInt64]
      simp only [recomputePostingTotals, ← netOf_eq_sides]
      rcases sumPostings_spec postings hzero with ⟨hfit, hsum⟩ | ⟨hover, hsum⟩
      · simp [hsum, hfit, Except.map, LedgerTotals.ext_iff, funext_iff, eq_comm]
      · simp [hsum, hover, Except.map, eq_comm]

end Backbook
