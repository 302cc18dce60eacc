import Backbook.ReachableStates

namespace Backbook

open Std Relation

variable {limits : LimitHierarchy} {state : State}

def StateError.Reportable : StateError → Prop
  | .missingConfirmationEntry => False
  | .ledgerTotalsFailure _ => False
  | .postingPolicyFailure failure =>
    failure = .ledgerDuplicatePostingId ∨ failure = .postingSelfReversal
  | .amendmentFailure failure => failure = .versionOverflow
  | _ => True

def StateError.LimitOnly (allowed : LimitError → Prop) : StateError → Prop
  | .limitFailure failure => allowed failure
  | _ => True

theorem State.requireCurrent_error {tradeId : TradeId} {expectedVersion : UInt32} {e : StateError}
    (h : state.requireCurrent tradeId expectedVersion = .error e) :
    e = .tradeNotFound ∨ ∃ actual, e = .versionConflict expectedVersion actual := by
  unfold State.requireCurrent at h
  split at h
  · exact Or.inl (Except.error.inj h).symm
  · split_ifs at h
    exact Or.inr ⟨_, (Except.error.inj h).symm⟩

/-- With zero totals an append fails only on a known identifier. -/
theorem State.appendEntry_error {entry : LedgerEntry} {e : StateError}
    (h : state.appendEntry entry = .error e) (ht : state.ledgerTotals = LedgerTotals.zero) :
    e = .duplicatePostingId := by
  unfold State.appendEntry at h
  split_ifs at h
  · exact (Except.error.inj h).symm
  · simp only [ht, LedgerTotals.withEntry_zero, Except.mapError, Outcome.ok_bind] at h
    cases h

theorem buildConfirmationEntry_error (confirmed : Trade) {ids : ConfirmationPostingIds}
    {e : PostingPolicyError} (hs : confirmed.state = .confirmed) (hv : confirmed.version ≠ 0)
    (h : buildConfirmationEntry confirmed ids = .error e) : e = .ledgerDuplicatePostingId := by
  rcases buildConfirmationEntry_cases confirmed ids hs hv with ⟨_, hok, _⟩ | ⟨herr, _⟩
  · rw [hok] at h
    cases h
  · rw [herr] at h
    exact (Except.error.inj h).symm

theorem buildReversalEntry_error {original : LedgerEntry} {trade : Trade}
    {ids : ReversalPostingIds} {e : PostingPolicyError}
    (hc : original.contents = trade.confirmationContents)
    (h : buildReversalEntry original ids = .error e) :
    e = .ledgerDuplicatePostingId ∨ e = .postingSelfReversal := by
  rcases buildReversalEntry_cases ids hc with ⟨_, hok, _⟩ | ⟨herr, _⟩ | ⟨herr, _⟩
  · rw [hok] at h
    cases h
  · rw [herr] at h
    exact Or.inr (Except.error.inj h).symm
  · rw [herr] at h
    exact Or.inl (Except.error.inj h).symm

/-- A confirmed version has its confirmation in the ledger. -/
theorem State.Coherent.confirmationEntry (hs : state.Coherent) {key : TradeVersionKey}
    {trade : Trade} (ht : state.trades[key]? = some trade) (hst : trade.state = .confirmed) :
    ∃ original, state.confirmationEntry key = .ok original ∧
      original.contents = trade.confirmationContents ∧
      ∀ posting ∈ original.postings, posting.id ∈ state.postingIds := by
  obtain ⟨i, hi⟩ := hs.posted.live key trade ht (Or.inl hst)
  obtain ⟨other, original, ho, _, he, hc⟩ := hs.posted.indexed key i hi
  obtain rfl := Option.some.inj (ht.symm.trans ho)
  refine ⟨original, State.confirmationEntry_ok_iff.mpr ⟨i, hi, he⟩, hc, fun posting hp => ?_⟩
  refine (hs.posted.ids posting.id).mpr (List.mem_map_of_mem ?_)
  exact List.mem_flatMap.mpr ⟨original, List.mem_of_getElem? he, hp⟩

/-- A confirmed version can give back what it occupies. -/
theorem State.release_ok (hh : state.positions.Headroom limits) {key : TradeVersionKey}
    {trade : Trade} (ht : state.trades[key]? = some trade) (hst : trade.state = .confirmed) :
    ∃ released, state.limits.release trade.limitPath trade.terms.pay = .ok released :=
  hh.release_ok ht hst

theorem bookTrade_error {tradeId : TradeId} {bookId : BookId} {counterpartyId : CounterpartyId}
    {nettingSetId : NettingSetId} {terms : FxTerms} {e : StateError}
    (h : bookTrade state tradeId bookId counterpartyId nettingSetId terms = .error e) :
    e = .duplicateTradeId ∨ e = .stateVersionOverflow := by
  unfold bookTrade at h
  split_ifs at h
  · exact Or.inl (Except.error.inj h).symm
  · exact Or.inr (State.advanceVersion_error h)

theorem confirmTrade_error {tradeId : TradeId} {expectedVersion : UInt32}
    {postingIds : ConfirmationPostingIds} {e : StateError} (hs : state.Coherent)
    (h : confirmTrade state tradeId expectedVersion postingIds = .error e) : e.Reportable := by
  simp only [confirmTrade, Outcome.bind_error_iff, Outcome.mapError_error_iff,
    Outcome.mapError_ok_iff] at h
  rcases h with h | ⟨current, hcur, h | ⟨confirmed, happ, h | ⟨reserved, hres, h | ⟨entry, hent,
    h | ⟨next, hadd, h⟩⟩⟩⟩⟩
  · rcases State.requireCurrent_error h with rfl | ⟨_, rfl⟩ <;> trivial
  · obtain ⟨_, _, rfl⟩ := h
    trivial
  · obtain ⟨_, _, rfl⟩ := h
    trivial
  · obtain ⟨failure, hf, rfl⟩ := h
    obtain ⟨_, ht⟩ := State.requireCurrent_ok hs.chain hcur
    have hver : current.version ≠ 0 := (hs.chain.stored_version ht).2
    obtain ⟨_, rfl⟩ := Trade.apply_confirm_ok_iff.mp happ
    left
    exact buildConfirmationEntry_error { current with state := .confirmed } rfl hver hf
  · obtain rfl := State.appendEntry_error h hs.totals
    trivial
  · obtain rfl := State.advanceVersion_error h
    trivial

/-- How an amendment can fail. Its release never does, so a limit failure is the
replacement's. -/
theorem amendTrade_error {tradeId : TradeId} {expectedVersion : UInt32} {terms : FxTerms}
    {reversalIds : ReversalPostingIds} {postingIds : ConfirmationPostingIds} {e : StateError}
    (hs : state.Coherent) (hh : state.positions.Headroom limits)
    (h : amendTrade state tradeId expectedVersion terms reversalIds postingIds = .error e) :
    e.Reportable ∧ e.LimitOnly fun failure => ∃ current released,
      state.currentTrade tradeId = some current ∧
      state.limits.release current.limitPath current.terms.pay = .ok released ∧
      released.reserve current.limitPath terms.pay = .error failure := by
  rcases Outcome.bind_error_iff.mp h with h | ⟨current, hcur, h⟩
  · rcases State.requireCurrent_error h with rfl | ⟨_, rfl⟩ <;> exact ⟨trivial, trivial⟩
  split_ifs at h with hst
  · obtain rfl := Except.error.inj h
    exact ⟨trivial, trivial⟩
  have hst := not_not.mp hst
  obtain ⟨_, ht⟩ := State.requireCurrent_ok hs.chain hcur
  have hver : current.version ≠ 0 := (hs.chain.stored_version ht).2
  -- A confirmed version can be looked up in the ledger and released.
  obtain ⟨original, horig, hcon, _⟩ := hs.confirmationEntry ht hst
  obtain ⟨released, hrel⟩ := State.release_ok hh ht hst
  simp only [Outcome.bind_error_iff, Outcome.mapError_error_iff, Outcome.mapError_ok_iff] at h
  rcases h with h | ⟨_, horig', h | ⟨_, hrel', h | ⟨amendment, ham, h | ⟨reserved, hres, h |
    ⟨reversal, hrev, h | ⟨replacement, hrep, h | ⟨next, hadd, h | ⟨last, hadd', h⟩⟩⟩⟩⟩⟩⟩⟩
  · rw [horig] at h
    cases h
  · obtain ⟨_, hf, _⟩ := h
    rw [hrel] at hf
    cases hf
  · obtain ⟨failure, hf, rfl⟩ := h
    exact ⟨Trade.amend_error hst hver hf, trivial⟩
  · -- The replacement reserves along the path that was released.
    obtain ⟨failure, hf, rfl⟩ := h
    obtain ⟨_, _, _, _, hnew⟩ := Trade.amend_ok_iff.mp ham
    rw [hnew] at hf
    exact ⟨trivial, current, _, (State.requireCurrent_ok_iff.mp hcur).1, hrel', hf⟩
  · obtain ⟨failure, hf, rfl⟩ := h
    rw [horig] at horig'
    obtain rfl := Except.ok.inj horig'
    exact ⟨buildReversalEntry_error hcon hf, trivial⟩
  · obtain ⟨failure, hf, rfl⟩ := h
    obtain ⟨_, _, hmax, _, hnew⟩ := Trade.amend_ok_iff.mp ham
    rw [hnew] at hf
    have hver' : (current.asReplacement terms).version ≠ 0 := Trade.asReplacement_version_ne hmax
    exact ⟨Or.inl (buildConfirmationEntry_error _ rfl hver' hf), trivial⟩
  · obtain rfl := State.appendEntry_error h hs.totals
    exact ⟨trivial, trivial⟩
  · obtain ⟨_, totals, htot, rfl⟩ := State.appendEntry_ok_iff.mp hadd
    simp only [hs.totals, LedgerTotals.withEntry_zero, Except.ok.injEq] at htot
    obtain rfl := State.appendEntry_error h htot.symm
    exact ⟨trivial, trivial⟩
  · obtain rfl := State.advanceVersion_error h
    exact ⟨trivial, trivial⟩

theorem cancelTrade_error {tradeId : TradeId} {expectedVersion : UInt32}
    {reversalIds : Option ReversalPostingIds} {e : StateError} (hs : state.Coherent)
    (hh : state.positions.Headroom limits)
    (h : cancelTrade state tradeId expectedVersion reversalIds = .error e) :
    e.Reportable ∧ e.LimitOnly fun _ => False := by
  simp only [cancelTrade, Outcome.bind_error_iff, Outcome.mapError_error_iff,
    Outcome.mapError_ok_iff] at h
  rcases h with h | ⟨current, hcur, h | ⟨cancelled, happ, h⟩⟩
  · rcases State.requireCurrent_error h with rfl | ⟨_, rfl⟩ <;> exact ⟨trivial, trivial⟩
  · obtain ⟨_, _, rfl⟩ := h
    exact ⟨trivial, trivial⟩
  split_ifs at h with hcap hids
  · obtain rfl := Except.error.inj h
    exact ⟨trivial, trivial⟩
  · obtain rfl := State.advanceVersion_error h
    exact ⟨trivial, trivial⟩
  · cases reversalIds with
    | none =>
      obtain rfl := Except.error.inj h
      exact ⟨trivial, trivial⟩
    | some ids =>
      -- Not captured, so confirmed, and again in the ledger and releasable.
      have hst := (Trade.apply_cancel_ok_iff.mp happ).1.resolve_left hcap
      obtain ⟨_, ht⟩ := State.requireCurrent_ok hs.chain hcur
      obtain ⟨original, horig, hcon, _⟩ := hs.confirmationEntry ht hst
      obtain ⟨released, hrel⟩ := State.release_ok hh ht hst
      simp only [Outcome.bind_error_iff, Outcome.mapError_error_iff, Outcome.mapError_ok_iff] at h
      rcases h with h | ⟨_, horig', h | ⟨_, _, h | ⟨reversal, hrev, h | ⟨next, hadd, h⟩⟩⟩⟩
      · rw [horig] at h
        cases h
      · obtain ⟨_, hf, _⟩ := h
        rw [hrel] at hf
        cases hf
      · obtain ⟨failure, hf, rfl⟩ := h
        rw [horig] at horig'
        obtain rfl := Except.ok.inj horig'
        exact ⟨buildReversalEntry_error hcon hf, trivial⟩
      · obtain rfl := State.appendEntry_error h hs.totals
        exact ⟨trivial, trivial⟩
      · obtain rfl := State.advanceVersion_error h
        exact ⟨trivial, trivial⟩

/-- The settlement loop never fails: every selected version is confirmed and can
give back what it occupies. -/
theorem settleEach_never_fails {keys : List TradeVersionKey} (hh : state.positions.Headroom limits)
    (hd : keys.Nodup)
    (hall : ∀ key ∈ keys, ∃ trade, state.trades[key]? = some trade ∧ trade.state = .confirmed)
    (e : StateError) : settleEach keys state ≠ .error e := by
  induction keys generalizing state with
  | nil => exact nofun
  | cons key keys ih =>
    obtain ⟨hout, hrest⟩ := List.nodup_cons.mp hd
    obtain ⟨trade, ht, hst⟩ := hall key List.mem_cons_self
    obtain ⟨released, hrel⟩ := State.release_ok hh ht hst
    rw [settleEach_cons ht hst, hrel]
    exact ih (hh.move (.settle ht hst hrel)) hrest (others_confirmed hout hall _)

theorem runEod_error {asOfDate : IsoDate} {e : StateError} (hh : state.positions.Headroom limits)
    (h : runEod state asOfDate = .error e) :
    e = .settlementFailure .arithmeticOverflow ∨ e = .stateVersionOverflow := by
  simp only [runEod] at h
  split_ifs at h
  simp only [Outcome.bind_error_iff, Outcome.mapError_error_iff, Outcome.mapError_ok_iff] at h
  rcases h with h | ⟨settled, _, h | ⟨obligations, _, h⟩⟩
  · exact absurd h (settleEach_never_fails hh (State.eligible_nodup asOfDate)
      (State.eligible_confirmed asOfDate) e)
  · obtain ⟨failure, hf, rfl⟩ := h
    obtain rfl := deriveBilateralSettlements_error hf
    exact Or.inl rfl
  · exact Or.inr (State.advanceVersion_error h)

/-- Nothing but a spent state version can stop the cancellation of a confirmed
version under four fresh identifiers. -/
theorem cancelTrade_confirmed_ok {tradeId : TradeId} {trade : Trade} {ids : ReversalPostingIds}
    (hs : state.Coherent) (hh : state.positions.Headroom limits)
    (hv : state.version ≠ 18446744073709551615) (hcur : state.currentTrade tradeId = some trade)
    (hst : trade.state = .confirmed) (hd : ids.toList.Nodup)
    (hf : ∀ id ∈ ids.toList, id ∉ state.postingIds) :
    ∃ next, cancelTrade state tradeId trade.version (some ids) = .ok next := by
  have hreq : state.requireCurrent tradeId trade.version = .ok trade :=
    State.requireCurrent_ok_iff.mpr ⟨hcur, rfl⟩
  obtain ⟨_, ht⟩ := State.requireCurrent_ok hs.chain hreq
  obtain ⟨original, horig, hcon, hold⟩ := hs.confirmationEntry ht hst
  obtain ⟨released, hrel⟩ := State.release_ok hh ht hst
  have happ : trade.apply .cancelTrade = .ok { trade with state := .cancelled } :=
    Trade.apply_cancel_ok_iff.mpr ⟨Or.inr hst, rfl⟩
  rcases buildReversalEntry_cases ids hcon with ⟨reversal, hrev, _, hids, _⟩ | ⟨_, p, hp, hin⟩ |
    ⟨_, hdup⟩
  · have htot : state.ledgerTotals.withEntry reversal = .ok LedgerTotals.zero := by
      rw [hs.totals, LedgerTotals.withEntry_zero]
    -- Every step of the unwinding is known, so the operation runs through.
    simp only [cancelTrade, hreq, happ, hst, reduceCtorEq, if_false, horig, hrel, hrev,
      Except.mapError, Outcome.ok_bind]
    exact ⟨_, Outcome.bind_ok_iff.mpr ⟨_, State.appendEntry_ok_iff.mpr ⟨posting_fresh hids hf,
      _, htot, rfl⟩, State.advanceVersion_ok_iff.mpr ⟨hv, rfl⟩⟩⟩
  · exact absurd (hold p hp) (hf p.id hin)
  · exact absurd hd hdup

structure State.Unwindable (state : State) : Prop where
  reportable : ∀ (operation : Operation) (e : StateError),
    Operation.apply state operation = .error e → e.Reportable
  /-- The reservation of a confirmed version can be released. -/
  release : ∀ (key : TradeVersionKey) (trade : Trade), state.trades[key]? = some trade →
    trade.state = .confirmed → ∃ released,
      state.limits.release trade.limitPath trade.terms.pay = .ok released
  /-- An amendment fails on a limit only where its replacement does not fit. -/
  amend_limit : ∀ tradeId expectedVersion terms reversalIds postingIds failure,
    amendTrade state tradeId expectedVersion terms reversalIds postingIds =
      .error (.limitFailure failure) → ∃ current released,
        state.currentTrade tradeId = some current ∧
        state.limits.release current.limitPath current.terms.pay = .ok released ∧
        released.reserve current.limitPath terms.pay = .error failure
  cancel_limit : ∀ tradeId expectedVersion reversalIds failure,
    cancelTrade state tradeId expectedVersion reversalIds ≠ .error (.limitFailure failure)
  eod : ∀ asOfDate e, runEod state asOfDate = .error e →
    e = .settlementFailure .arithmeticOverflow ∨ e = .stateVersionOverflow
  cancel : ∀ tradeId trade ids, state.version ≠ 18446744073709551615 →
    state.currentTrade tradeId = some trade → trade.state = .confirmed → ids.toList.Nodup →
    (∀ id ∈ ids.toList, id ∉ state.postingIds) →
      ∃ next, cancelTrade state tradeId trade.version (some ids) = .ok next

theorem reachable_unwindable {definitions : List LimitDefinition}
    (hc : LimitHierarchy.create definitions = .ok limits) (h : state.Reachable limits) :
    state.Unwindable := by
  have hs := h.coherent
  have hh := h.headroom hc
  refine ⟨fun operation e he => ?_, fun key trade ht hst => State.release_ok hh ht hst,
    fun _ _ _ _ _ failure he => (amendTrade_error hs hh he).2,
    fun _ _ _ failure he => (cancelTrade_error hs hh he).2,
    fun _ _ he => runEod_error hh he,
    fun _ _ _ hv hcur hst hd hf => cancelTrade_confirmed_ok hs hh hv hcur hst hd hf⟩
  cases operation with
  | bookTrade tradeId bookId counterpartyId nettingSetId terms =>
    rcases bookTrade_error he with rfl | rfl <;> trivial
  | confirmTrade tradeId expectedVersion postingIds => exact confirmTrade_error hs he
  | amendTrade tradeId expectedVersion terms reversalIds postingIds =>
    exact (amendTrade_error hs hh he).1
  | cancelTrade tradeId expectedVersion reversalIds => exact (cancelTrade_error hs hh he).1
  | runEod asOfDate => rcases runEod_error hh he with rfl | rfl <;> trivial

theorem reachable_unwindable_sample : ∃ state : State, state.ledgerEntries.length = 1 ∧
    state.Unwindable := by
  obtain ⟨limits, before, state, hl, hb, hs, hlen⟩ := sample_run
  exact ⟨state, hlen, reachable_unwindable hl ((ReflTransGen.single hb).tail hs)⟩

end Backbook
