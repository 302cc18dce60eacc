import Backbook.StateTransitions
import Backbook.PositionBalances

namespace Backbook

open Std Relation

def State.Step (state next : State) : Prop :=
  ∃ operation, Operation.apply state operation = .ok next

def State.Reachable (limits : LimitHierarchy) (state : State) : Prop :=
  ReflTransGen State.Step (State.initial limits) state

/-- What every operation relies on and keeps. -/
structure State.Coherent (state : State) : Prop where
  chain : VersionChain state.trades state.currentVersions
  posted : state.positions.Posted
  totals : state.ledgerTotals = LedgerTotals.zero

structure State.Refines (state next : State) : Prop where
  chain : VersionChain next.trades next.currentVersions
  totals : next.ledgerTotals = LedgerTotals.zero
  moves : ReflTransGen Positions.Move state.positions next.positions

variable {state next : State}

theorem posting_fresh {ids : ExtTreeSet PostingId} {entry : LedgerEntry} {names : List PostingId}
    (hn : entry.postings.map Posting.id = names)
    (hf : ∀ id ∈ names, id ∉ ids) : ∀ posting ∈ entry.postings, posting.id ∉ ids := by
  intro posting hp
  apply hf
  rw [← hn]
  exact List.mem_map_of_mem hp

theorem bookTrade_refines {tradeId : TradeId} {bookId : BookId} {counterpartyId : CounterpartyId}
    {nettingSetId : NettingSetId} {terms : FxTerms} (hs : state.Coherent)
    (h : bookTrade state tradeId bookId counterpartyId nettingSetId terms = .ok next) :
    state.Refines next := by
  obtain ⟨hnone, _, rfl⟩ := bookTrade_ok hs.chain h
  refine ⟨hs.chain.capture hnone rfl rfl (by simp [Trade.capture]) rfl rfl, hs.totals, .single ?_⟩
  exact .capture (hs.chain.none_of_current_none hnone 1) rfl

theorem confirmTrade_refines {tradeId : TradeId} {expectedVersion : UInt32}
    {postingIds : ConfirmationPostingIds} (hs : state.Coherent)
    (h : confirmTrade state tradeId expectedVersion postingIds = .ok next) :
    state.Refines next := by
  obtain ⟨current, limits, entry, totals, hrun⟩ := confirmTrade_ok hs.chain h
  have hver : current.version ≠ 0 := (hs.chain.stored_version hrun.stored).2
  have hold : ∀ old, state.positions.trades[(⟨tradeId, expectedVersion⟩ : TradeVersionKey)]? =
      some old → old.state = .captured := by
    intro old ho
    obtain rfl := Option.some.inj (hrun.stored.symm.trans ho)
    exact hrun.captured
  -- A captured version is not in the index, so the source's `emplace` inserts.
  have hindex : state.confirmationEntries[(⟨tradeId, expectedVersion⟩ : TradeVersionKey)]? = none :=
    hs.posted.not_indexed _ hold
  have hent := hrun.built
  rcases buildConfirmationEntry_cases { current with state := .confirmed } postingIds
    rfl hver with ⟨built, hok, hcon, _, _⟩ | ⟨herr, _⟩
  · rw [hok] at hent
    obtain rfl := Except.ok.inj hent
    have htot := hrun.added
    rw [hs.totals, LedgerTotals.withEntry_zero] at htot
    obtain rfl := hrun.next_eq
    refine ⟨hs.chain.restate hrun.stored (by simp [hrun.captured]) (by simp) (by simp),
      (Except.ok.inj htot).symm, .single ?_⟩
    rw [OrderedMap.insertIfNew_eq_insert _ _ _ hindex]
    exact .enter { current with state := .confirmed } hold rfl hrun.reserves hcon hrun.fresh
  · rw [herr] at hent
    cases hent

/-- The reversal that an operation builds for a confirmed version. -/
theorem reversal_of_built {key : TradeVersionKey} {current : Trade} {index : ℕ}
    {original reversal : LedgerEntry} {ids : ReversalPostingIds} (hp : state.positions.Posted)
    (ht : state.trades[key]? = some current) (hidx : state.confirmationEntries[key]? = some index)
    (horig : state.ledgerEntries[index]? = some original)
    (hrev : buildReversalEntry original ids = .ok reversal) :
    original.contents = current.confirmationContents ∧ IsReversalOf original reversal := by
  obtain ⟨trade, entry, ht', _, he, hc⟩ := hp.indexed key index hidx
  obtain rfl := Option.some.inj (ht.symm.trans ht')
  obtain rfl := Option.some.inj (horig.symm.trans he)
  refine ⟨hc, ?_⟩
  rcases buildReversalEntry_cases ids hc with ⟨built, hok, hr, _, _⟩ | ⟨herr, _⟩ | ⟨herr, _⟩
  · rw [hok] at hrev
    obtain rfl := Except.ok.inj hrev
    exact hr
  · rw [herr] at hrev
    cases hrev
  · rw [herr] at hrev
    cases hrev

theorem amendTrade_refines {tradeId : TradeId} {expectedVersion : UInt32} {terms : FxTerms}
    {reversalIds : ReversalPostingIds} {postingIds : ConfirmationPostingIds} (hs : state.Coherent)
    (h : amendTrade state tradeId expectedVersion terms reversalIds postingIds = .ok next) :
    state.Refines next := by
  obtain ⟨current, index, original, reversal, replacement, released, limits, totals, totals',
    hrun⟩ := amendTrade_ok hs.chain h
  obtain ⟨hcon, hrv⟩ := reversal_of_built hs.posted hrun.stored hrun.indexed hrun.posted
    hrun.reverses
  have hmax : current.version ≠ 4294967295 := by
    rw [(hs.chain.stored_version hrun.stored).1]
    exact hrun.key_ne
  have htot := hrun.added
  rw [hs.totals, LedgerTotals.withEntry_zero] at htot
  obtain rfl := Except.ok.inj htot
  have htot' := hrun.added'
  rw [LedgerTotals.withEntry_zero] at htot'
  have hnone : state.positions.trades[(⟨tradeId, expectedVersion + 1⟩ : TradeVersionKey)]? = none :=
    hs.chain.none_of_next hrun.last hrun.key_ne
  have hindex : state.confirmationEntries[(⟨tradeId, expectedVersion + 1⟩ : TradeVersionKey)]? =
      none := by
    apply hs.posted.not_indexed
    intro old ho
    rw [hnone] at ho
    cases ho
  have hrep := hrun.built
  rcases buildConfirmationEntry_cases (current.asReplacement terms) postingIds rfl
    (Trade.asReplacement_version_ne hmax) with ⟨built, hok, hbc, _, _⟩ | ⟨herr, _⟩
  · rw [hok] at hrep
    obtain rfl := Except.ok.inj hrep
    obtain rfl := hrun.next_eq
    refine ⟨hs.chain.amend hrun.stored hrun.last hrun.key_ne, (Except.ok.inj htot').symm, ?_⟩
    rw [OrderedMap.insertIfNew_eq_insert _ _ _ hindex]
    -- First the old version leaves, then its replacement enters.
    refine .tail (.single (.leave current.asSuperseded hrun.stored hrun.confirmed (Or.inl rfl) rfl
      hrun.releases hrun.indexed hrun.posted hcon hrv hrun.fresh)) ?_
    refine .enter (current.asReplacement terms) ?_ rfl hrun.reserves hbc hrun.fresh'
    intro old ho
    rw [OrderedMap.getElem?_insert_eq, if_neg (by simp), hnone] at ho
    cases ho
  · rw [herr] at hrep
    cases hrep

theorem cancelTrade_refines {tradeId : TradeId} {expectedVersion : UInt32}
    {reversalIds : Option ReversalPostingIds} (hs : state.Coherent)
    (h : cancelTrade state tradeId expectedVersion reversalIds = .ok next) :
    state.Refines next := by
  obtain ⟨current, ht, _, ⟨hcap, rfl⟩ | ⟨ids, index, original, reversal, limits, totals, _,
    hrun⟩⟩ := cancelTrade_ok hs.chain h
  · exact ⟨hs.chain.restate ht (by simp [hcap]) (by simp) (by simp), hs.totals,
      .single (.discard ht hcap)⟩
  · obtain ⟨hcon, hrv⟩ := reversal_of_built hs.posted ht hrun.indexed hrun.posted hrun.reverses
    have htot := hrun.added
    rw [hs.totals, LedgerTotals.withEntry_zero] at htot
    obtain rfl := hrun.next_eq
    refine ⟨hs.chain.restate ht (by simp [hrun.confirmed]) (by simp) (by simp),
      (Except.ok.inj htot).symm, .single ?_⟩
    exact .leave { current with state := .cancelled } ht hrun.confirmed (Or.inr rfl) rfl
      hrun.releases hrun.indexed hrun.posted hcon hrv hrun.fresh

/-- The settlement loop touches trades and limits only, one settle move for each
selected version. -/
theorem settleEach_ok {keys : List TradeVersionKey} (h : settleEach keys state = .ok next)
    (hd : keys.Nodup)
    (hall : ∀ key ∈ keys, ∃ trade, state.trades[key]? = some trade ∧ trade.state = .confirmed)
    (hc : VersionChain state.trades state.currentVersions) :
    VersionChain next.trades next.currentVersions ∧
      ReflTransGen Positions.Move state.positions next.positions ∧
      next = { state with trades := next.trades, limits := next.limits } := by
  induction keys generalizing state with
  | nil =>
    obtain rfl := Except.ok.inj h
    exact ⟨hc, .refl, rfl⟩
  | cons key keys ih =>
    obtain ⟨hout, hrest⟩ := List.nodup_cons.mp hd
    obtain ⟨trade, ht, hst⟩ := hall key List.mem_cons_self
    rw [settleEach_cons ht hst, Outcome.bind_ok_iff] at h
    obtain ⟨limits, hrel, h⟩ := h
    rw [Outcome.mapError_ok_iff] at hrel
    -- The loop goes on from a state whose other selected versions are as before.
    have hothers := others_confirmed hout hall { trade with state := .settled }
    have hchain := hc.restate ht (by simp [hst]) (by simp : TradeState.settled ≠ .superseded)
      (by simp)
    obtain ⟨hchain', hmoves, hframe⟩ := ih h hrest hothers hchain
    exact ⟨hchain', .head (.settle ht hst hrel) hmoves, hframe⟩

theorem runEod_refines {asOfDate : IsoDate} (hs : state.Coherent)
    (h : runEod state asOfDate = .ok next) : state.Refines next := by
  rcases runEod_ok h with ⟨_, rfl⟩ | ⟨_, settled, obligations, hset, _, _, rfl⟩
  · exact ⟨hs.chain, hs.totals, .refl⟩
  · obtain ⟨hchain, hmoves, hframe⟩ := settleEach_ok hset (State.eligible_nodup asOfDate)
      (State.eligible_confirmed asOfDate) hs.chain
    refine ⟨hchain, ?_, hmoves⟩
    rw [hframe]
    exact hs.totals

/-- Every successful operation is a sequence of position moves. -/
theorem State.Step.refines (hs : state.Coherent) (h : state.Step next) : state.Refines next := by
  obtain ⟨operation, h⟩ := h
  cases operation with
  | bookTrade tradeId bookId counterpartyId nettingSetId terms => exact bookTrade_refines hs h
  | confirmTrade tradeId expectedVersion postingIds => exact confirmTrade_refines hs h
  | amendTrade tradeId expectedVersion terms reversalIds postingIds =>
    exact amendTrade_refines hs h
  | cancelTrade tradeId expectedVersion reversalIds => exact cancelTrade_refines hs h
  | runEod asOfDate => exact runEod_refines hs h

/-- What the moves keep, an operation keeps. -/
theorem State.Refines.keeps {P : Positions → Prop} (h : state.Refines next)
    (hP : ∀ p q, P p → p.Move q → P q) (hs : P state.positions) : P next.positions :=
  RunHistory.invariant_of_steps hs hP h.moves

theorem State.Coherent.initial (limits : LimitHierarchy) : (State.initial limits).Coherent :=
  ⟨.empty, .initial limits, rfl⟩

theorem State.Coherent.step (hs : state.Coherent) (h : state.Step next) : next.Coherent := by
  have hr := h.refines hs
  exact ⟨hr.chain, hr.keeps (fun _ _ hp hm => hp.move hm) hs.posted, hr.totals⟩

variable {limits : LimitHierarchy}

theorem State.Reachable.coherent (h : state.Reachable limits) : state.Coherent :=
  RunHistory.invariant_of_steps (.initial limits) (fun _ _ hs hstep => hs.step hstep) h

/-- An invariant of the moves holds in every reachable state. -/
theorem State.Reachable.keeps {P : Positions → Prop} (h : state.Reachable limits)
    (hstart : P (State.initial limits).positions) (hP : ∀ p q, P p → p.Move q → P q) :
    P state.positions := by
  -- The moves of an operation need its start to be coherent, so both go together.
  have hboth : state.Coherent ∧ P state.positions :=
    RunHistory.invariant_of_steps (P := fun s : State => s.Coherent ∧ P s.positions)
      ⟨.initial limits, hstart⟩
      (fun _ _ hs hstep => ⟨hs.1.step hstep, (hstep.refines hs.1).keeps hP hs.2⟩) h
  exact hboth.2

theorem State.Reachable.headroom {definitions : List LimitDefinition}
    (hc : LimitHierarchy.create definitions = .ok limits) (h : state.Reachable limits) :
    state.positions.Headroom limits :=
  h.keeps (.initial hc) fun _ _ hp hm => hp.move hm

theorem State.Reachable.balanced (h : state.Reachable limits) : state.positions.Balanced :=
  h.keeps (.initial limits) fun _ _ hp hm => hp.move hm

end Backbook
