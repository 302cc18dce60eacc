import Backbook.HistoryFrames

namespace Backbook

open Std Relation

structure State.Rebookable (state : State) (current : Trade) (terms : FxTerms)
    (reversalIds : ReversalPostingIds) (postingIds : ConfirmationPostingIds)
    (released limits : LimitHierarchy) : Prop where
  releases : state.limits.release current.limitPath current.terms.pay = .ok released
  reserves : released.reserve current.limitPath terms.pay = .ok limits
  reversal_nodup : reversalIds.toList.Nodup
  reversal_fresh : ∀ id ∈ reversalIds.toList, id ∉ state.postingIds
  nodup : postingIds.toList.Nodup
  fresh : ∀ id ∈ postingIds.toList, id ∉ state.postingIds ∧ id ∉ reversalIds.toList

section Entries

variable {trade : Trade} {ids : ConfirmationPostingIds} {entry : LedgerEntry}

/-- What is known of a confirmation entry once it is built. -/
theorem buildConfirmationEntry_ok (hs : trade.state = .confirmed) (hv : trade.version ≠ 0)
    (h : buildConfirmationEntry trade ids = .ok entry) :
    entry.contents = trade.confirmationContents ∧ entry.postings.map Posting.id = ids.toList ∧
      ids.toList.Nodup := by
  rcases buildConfirmationEntry_cases trade ids hs hv with ⟨built, hok, hrest⟩ | ⟨herr, _⟩
  · rw [hok] at h
    obtain rfl := Except.ok.inj h
    exact hrest
  · rw [herr] at h
    cases h

theorem buildReversalEntry_ok {original reversal : LedgerEntry} {rids : ReversalPostingIds}
    (hc : original.contents = trade.confirmationContents)
    (h : buildReversalEntry original rids = .ok reversal) :
    reversal.postings.map Posting.id = rids.toList ∧ rids.toList.Nodup := by
  rcases buildReversalEntry_cases rids hc with ⟨built, hok, _, hrest⟩ | ⟨herr, _⟩ | ⟨herr, _⟩
  · rw [hok] at h
    obtain rfl := Except.ok.inj h
    exact hrest
  · rw [herr] at h
    cases h
  · rw [herr] at h
    cases h

/-- Freshness of an entry is freshness of its identifiers. -/
theorem fresh_iff {postingIds : ExtTreeSet PostingId} {names : List PostingId}
    (hn : entry.postings.map Posting.id = names) :
    (∀ posting ∈ entry.postings, posting.id ∉ postingIds) ↔ ∀ id ∈ names, id ∉ postingIds := by
  rw [← hn]
  simp only [List.mem_map, forall_exists_index, and_imp, forall_apply_eq_imp_iff₂]

/-- Only the identifiers of an entry enter the set. -/
theorem insertPostingIds_congr (postingIds : ExtTreeSet PostingId) {first second : LedgerEntry}
    (h : first.postings.map Posting.id = second.postings.map Posting.id) :
    insertPostingIds postingIds first = insertPostingIds postingIds second := by
  have hfold (entry : LedgerEntry) : insertPostingIds postingIds entry =
      (entry.postings.map Posting.id).foldl (fun ids id => ids.insert id) postingIds := by
    rw [List.foldl_map]
    rfl
  rw [hfold, hfold, h]

def Posting.carriedBy (tradeId : TradeId) (version : UInt32) (hv : version ≠ 0)
    (posting : Posting) : Posting :=
  { posting with tradeId := tradeId, tradeVersion := version, version_ne := hv }

/-- Confirmations that differ in the name of the trade differ in nothing else. -/
theorem postings_carriedBy {first second : LedgerEntry} {a b : Trade}
    (ha : first.contents = a.confirmationContents) (hb : second.contents = b.confirmationContents)
    (hids : first.postings.map Posting.id = second.postings.map Posting.id)
    (hparties : a.limitPath = b.limitPath) (hterms : a.terms = b.terms) (hv : b.version ≠ 0) :
    second.postings = first.postings.map (Posting.carriedBy b.id b.version hv) := by
  obtain ⟨p, q, r, t, hpost, hp, hq, hr, ht⟩ := postings_of_confirmationContents ha
  obtain ⟨p', q', r', t', hpost', hp', hq', hr', ht'⟩ := postings_of_confirmationContents hb
  simp only [Trade.limitPath, LimitPath.mk.injEq] at hparties
  obtain ⟨hcp, hns, hbook⟩ := hparties
  rw [hpost, hpost'] at hids ⊢
  simp only [List.map_cons, List.map_nil, List.cons.injEq, and_true] at hids
  simp only [Posting.content, PostingContent.mk.injEq, hcp, hbook, hterms] at hp hq hr ht
  simp only [Posting.content, PostingContent.mk.injEq] at hp' hq' hr' ht'
  -- Posting by posting: the same identifier and content, another name.
  have hsame {x y : Posting} (hid : x.id = y.id) (hname : y.tradeId = b.id)
      (hver : y.tradeVersion = b.version) (hacc : x.account = y.account)
      (hside : x.side = y.side) (ham : x.amount = y.amount) (hrev : x.reversalOf = y.reversalOf) :
      y = x.carriedBy b.id b.version hv :=
    Posting.ext hid.symm hname hver hacc.symm hside.symm ham.symm hrev.symm
  simp only [List.map_cons, List.map_nil, List.cons.injEq, and_true]
  refine ⟨?_, ?_, ?_, ?_⟩
  · exact hsame hids.1 hp'.1 hp'.2.1 (hp.2.2.1.trans hp'.2.2.1.symm)
      (hp.2.2.2.1.trans hp'.2.2.2.1.symm) (hp.2.2.2.2.1.trans hp'.2.2.2.2.1.symm)
      (hp.2.2.2.2.2.trans hp'.2.2.2.2.2.symm)
  · exact hsame hids.2.1 hq'.1 hq'.2.1 (hq.2.2.1.trans hq'.2.2.1.symm)
      (hq.2.2.2.1.trans hq'.2.2.2.1.symm) (hq.2.2.2.2.1.trans hq'.2.2.2.2.1.symm)
      (hq.2.2.2.2.2.trans hq'.2.2.2.2.2.symm)
  · exact hsame hids.2.2.1 hr'.1 hr'.2.1 (hr.2.2.1.trans hr'.2.2.1.symm)
      (hr.2.2.2.1.trans hr'.2.2.2.1.symm) (hr.2.2.2.2.1.trans hr'.2.2.2.2.1.symm)
      (hr.2.2.2.2.2.trans hr'.2.2.2.2.2.symm)
  · exact hsame hids.2.2.2 ht'.1 ht'.2.1 (ht.2.2.1.trans ht'.2.2.1.symm)
      (ht.2.2.2.1.trans ht'.2.2.2.1.symm) (ht.2.2.2.2.1.trans ht'.2.2.2.2.1.symm)
      (ht.2.2.2.2.2.trans ht'.2.2.2.2.2.symm)

end Entries

section Successes

variable {state : State} {tradeId : TradeId} {current : Trade} {terms : FxTerms}
  {reversalIds : ReversalPostingIds} {postingIds : ConfirmationPostingIds}
  {released limits : LimitHierarchy}

theorem bookTrade_succeeds {bookId : BookId} {counterpartyId : CounterpartyId}
    {nettingSetId : NettingSetId} (hnone : state.currentVersions[tradeId]? = none)
    (hv : state.version ≠ 18446744073709551615) :
    ∃ next, bookTrade state tradeId bookId counterpartyId nettingSetId terms = .ok next := by
  have hout : tradeId ∉ state.currentVersions := by
    rw [ExtTreeMap.mem_iff_isSome_getElem?, hnone]
    exact Bool.false_ne_true
  unfold bookTrade
  rw [if_neg hout]
  exact ⟨_, State.advanceVersion_ok_iff.mpr ⟨hv, rfl⟩⟩

/-- An entry whose identifiers are fresh can be appended. -/
theorem State.appendEntry_succeeds (state : State) {entry : LedgerEntry} {names : List PostingId}
    (htotals : state.ledgerTotals = LedgerTotals.zero)
    (hn : entry.postings.map Posting.id = names) (hf : ∀ id ∈ names, id ∉ state.postingIds) :
    state.appendEntry entry = .ok { state with
      postingIds := insertPostingIds state.postingIds entry
      ledgerEntries := state.ledgerEntries ++ [entry] } := by
  refine State.appendEntry_ok_iff.mpr ⟨(fresh_iff hn).mpr hf, LedgerTotals.zero, ?_, ?_⟩
  · rw [htotals, LedgerTotals.withEntry_zero]
  · rw [htotals]

theorem confirmTrade_succeeds (hs : state.Coherent)
    (hcur : state.currentTrade tradeId = some current) (hst : current.state = .captured)
    (hres : state.limits.reserve current.limitPath current.terms.pay = .ok limits)
    (hd : postingIds.toList.Nodup) (hf : ∀ id ∈ postingIds.toList, id ∉ state.postingIds)
    (hv : state.version ≠ 18446744073709551615) :
    ∃ next, confirmTrade state tradeId current.version postingIds = .ok next := by
  have hreq : state.requireCurrent tradeId current.version = .ok current :=
    State.requireCurrent_ok_iff.mpr ⟨hcur, rfl⟩
  obtain ⟨_, ht⟩ := State.requireCurrent_ok hs.chain hreq
  have happ : current.apply .confirmTrade = .ok { current with state := .confirmed } :=
    Trade.apply_confirm_ok_iff.mpr ⟨hst, rfl⟩
  have hver : current.version ≠ 0 := (hs.chain.stored_version ht).2
  rcases buildConfirmationEntry_cases { current with state := .confirmed } postingIds rfl hver with
    ⟨entry, hent, _, hids, _⟩ | ⟨_, hdup⟩
  · simp only [confirmTrade, hreq, happ, hres, hent, Except.mapError, Outcome.ok_bind]
    rw [State.appendEntry_succeeds { state with limits := limits, trades := _ } hs.totals hids hf,
      Outcome.ok_bind]
    exact ⟨_, State.advanceVersion_ok_iff.mpr ⟨hv, rfl⟩⟩
  · exact absurd hd hdup

/-- An amendment needs nothing beyond the shared conditions. -/
theorem State.Rebookable.amends (h : state.Rebookable current terms reversalIds postingIds
      released limits) (hs : state.Coherent)
    (hcur : state.currentTrade tradeId = some current) (hst : current.state = .confirmed)
    (hmax : current.version ≠ 4294967295) (hv : state.version ≠ 18446744073709551615) :
    ∃ next, amendTrade state tradeId current.version terms reversalIds postingIds = .ok next := by
  have hreq : state.requireCurrent tradeId current.version = .ok current :=
    State.requireCurrent_ok_iff.mpr ⟨hcur, rfl⟩
  obtain ⟨_, ht⟩ := State.requireCurrent_ok hs.chain hreq
  obtain ⟨original, horig, hcon, hold⟩ := hs.confirmationEntry ht hst
  have hver : current.version ≠ 0 := (hs.chain.stored_version ht).2
  have ham : current.amend terms = .ok ⟨current.asSuperseded, current.asReplacement terms⟩ :=
    Trade.amend_ok_iff.mpr ⟨hst, hver, hmax, rfl, rfl⟩
  have hres : released.reserve (current.asReplacement terms).limitPath
      (current.asReplacement terms).terms.pay = .ok limits := h.reserves
  have hne : (current.asReplacement terms).version ≠ 0 := Trade.asReplacement_version_ne hmax
  rcases buildReversalEntry_cases reversalIds hcon with ⟨reversal, hrev, _, hrids, _⟩ |
    ⟨_, p, hp, hin⟩ | ⟨_, hdup⟩
  · rcases buildConfirmationEntry_cases (current.asReplacement terms) postingIds rfl hne with
      ⟨replacement, hrep, _, hids, _⟩ | ⟨_, hdup⟩
    · have hnew : ∀ id ∈ postingIds.toList, id ∉ insertPostingIds state.postingIds reversal := by
        intro id hid hin
        rw [mem_insertPostingIds, hrids] at hin
        rcases hin with hin | hin
        · exact (h.fresh id hid).2 hin
        · exact (h.fresh id hid).1 hin
      simp only [amendTrade, hreq, hst, ne_eq, not_true_eq_false, if_false, horig, h.releases, ham,
        hres, hrev, hrep, Except.mapError, Outcome.ok_bind]
      -- The reversal is appended first, the replacement behind it.
      exact ⟨_, Outcome.bind_ok_iff.mpr ⟨_, State.appendEntry_succeeds _ hs.totals hrids
        h.reversal_fresh, Outcome.bind_ok_iff.mpr ⟨_,
        State.appendEntry_succeeds _ hs.totals hids hnew,
        State.advanceVersion_ok_iff.mpr ⟨hv, rfl⟩⟩⟩⟩
    · exact absurd h.nodup hdup
  · exact absurd (hold p hp) (h.reversal_fresh p.id hin)
  · exact absurd h.reversal_nodup hdup

end Successes

section Comparison

variable {limits : LimitHierarchy} {state amended cancelled booked rebooked : State}
  {tradeId other : TradeId} {current : Trade} {terms : FxTerms} {reversalIds : ReversalPostingIds}
  {postingIds : ConfirmationPostingIds}

/-- An amendment that succeeds has met the shared conditions. -/
theorem State.Amendment.rebookable {key : TradeVersionKey} {index : ℕ}
    {original reversal replacement : LedgerEntry} {released limits : LimitHierarchy}
    {totals totals' : LedgerTotals} (hs : state.Coherent)
    (h : state.Amendment amended key terms reversalIds postingIds current index original reversal
      replacement released limits totals totals') :
    state.Rebookable current terms reversalIds postingIds released limits ∧
      reversal.postings.map Posting.id = reversalIds.toList ∧
      replacement.contents = (current.asReplacement terms).confirmationContents ∧
      replacement.postings.map Posting.id = postingIds.toList := by
  have hversion : current.version = key.version := (hs.chain.stored_version h.stored).1
  have hmax : current.version ≠ 4294967295 := by
    rw [hversion]
    exact h.key_ne
  obtain ⟨hcon, _⟩ := reversal_of_built hs.posted h.stored h.indexed h.posted h.reverses
  obtain ⟨hrids, hrd⟩ := buildReversalEntry_ok hcon h.reverses
  obtain ⟨hcontents, hids, hd⟩ := buildConfirmationEntry_ok rfl
    (Trade.asReplacement_version_ne hmax) h.built
  refine ⟨⟨h.releases, h.reserves, hrd, (fresh_iff hrids).mp h.fresh, hd, ?_⟩, hrids, hcontents,
    hids⟩
  intro id hid
  have hout := (fresh_iff hids).mp h.fresh' id hid
  rw [mem_insertPostingIds, hrids, not_or] at hout
  exact ⟨hout.2, hout.1⟩

structure State.Rebooking (state rebooked : State) (other : TradeId) (current : Trade)
    (terms : FxTerms) (reversalIds : ReversalPostingIds) (postingIds : ConfirmationPostingIds)
    (original reversal entry : LedgerEntry) (released limits : LimitHierarchy) : Prop where
  rebookable : state.Rebookable current terms reversalIds postingIds released limits
  posted : state.confirmationEntry ⟨current.id, current.version⟩ = .ok original
  reverses : buildReversalEntry original reversalIds = .ok reversal
  contents : entry.contents = Trade.confirmationContents { Trade.capture other current.bookId
    current.counterpartyId current.nettingSetId terms with state := .confirmed }
  ids : entry.postings.map Posting.id = postingIds.toList
  ledger : rebooked.ledgerEntries = state.ledgerEntries ++ [reversal] ++ [entry]
  postingIds_eq : rebooked.postingIds =
    insertPostingIds (insertPostingIds state.postingIds reversal) entry
  limits_eq : rebooked.limits = limits
  settlements : rebooked.settlements = state.settlements

/-- Cancelling a confirmed version unwinds its entry under the given identifiers. -/
theorem cancelTrade_unwinds (hs : state.Coherent)
    (ht : state.trades[(⟨tradeId, current.version⟩ : TradeVersionKey)]? = some current)
    (hst : current.state = .confirmed)
    (h : cancelTrade state tradeId current.version (some reversalIds) = .ok cancelled) :
    ∃ index original reversal released totals,
      state.Cancellation cancelled ⟨tradeId, current.version⟩ reversalIds current index original
        reversal released totals ∧
      reversal.postings.map Posting.id = reversalIds.toList ∧ reversalIds.toList.Nodup := by
  obtain ⟨found, hfound, _, hcase⟩ := cancelTrade_ok hs.chain h
  obtain rfl := Option.some.inj (ht.symm.trans hfound)
  rcases hcase with ⟨hcap, _⟩ | ⟨ids, index, original, reversal, released, totals, hsome, hrun⟩
  · rw [hst] at hcap
    cases hcap
  · obtain rfl := Option.some.inj hsome
    -- The unwound entry is the confirmation of this version.
    obtain ⟨hcon, _⟩ := reversal_of_built hs.posted ht hrun.indexed hrun.posted hrun.reverses
    exact ⟨index, original, reversal, released, totals, hrun,
      buildReversalEntry_ok hcon hrun.reverses⟩

/-- Three successes in a row have met the shared conditions as well. -/
theorem rebooking_of_ok (hs : state.Coherent)
    (ht : state.trades[(⟨tradeId, current.version⟩ : TradeVersionKey)]? = some current)
    (hst : current.state = .confirmed)
    (hcancel : cancelTrade state tradeId current.version (some reversalIds) = .ok cancelled)
    (hbook : bookTrade cancelled other current.bookId current.counterpartyId current.nettingSetId
      terms = .ok booked)
    (hconfirm : confirmTrade booked other 1 postingIds = .ok rebooked) :
    ∃ original reversal entry released limits, state.Rebooking rebooked other current terms
      reversalIds postingIds original reversal entry released limits := by
  have hs₁ : cancelled.Coherent := hs.step ⟨.cancelTrade tradeId _ _, hcancel⟩
  have hs₂ : booked.Coherent := hs₁.step ⟨.bookTrade other _ _ _ _, hbook⟩
  have hid : current.id = tradeId := hs.chain.stored_id ht
  obtain ⟨index, original, reversal, released, totals, hrun, hrids, hrd⟩ :=
    cancelTrade_unwinds hs ht hst hcancel
  obtain ⟨_, _, hbooked⟩ := bookTrade_ok hs₁.chain hbook
  obtain ⟨captured, limits, entry, totals', hrun'⟩ := confirmTrade_ok hs₂.chain hconfirm
  -- What is confirmed is what has just been booked.
  have hcaptured : captured = Trade.capture other current.bookId current.counterpartyId
      current.nettingSetId terms := by
    have hstored := hrun'.stored
    rw [hbooked] at hstored
    exact (Option.some.inj (ExtTreeMap.getElem?_insert_self.symm.trans hstored)).symm
  subst hcaptured
  obtain ⟨hcontents, hids, hd⟩ := buildConfirmationEntry_ok (h := hrun'.built) rfl
    (by simp [Trade.capture])
  have hreserves := hrun'.reserves
  have hfresh := (fresh_iff hids).mp hrun'.fresh
  rw [hbooked, hrun.next_eq] at hreserves hfresh
  refine ⟨original, reversal, entry, released, limits, ⟨⟨hrun.releases, hreserves, hrd,
    (fresh_iff hrids).mp hrun.fresh, hd, ?_⟩, ?_, hrun.reverses, hcontents, hids, ?_, ?_, ?_, ?_⟩⟩
  · intro id hin
    have hout := hfresh id hin
    rw [mem_insertPostingIds, hrids, not_or] at hout
    exact ⟨hout.2, hout.1⟩
  · rw [hid]
    exact State.confirmationEntry_ok_iff.mpr ⟨index, hrun.indexed, hrun.posted⟩
  · rw [hrun'.next_eq, hbooked, hrun.next_eq]
  · rw [hrun'.next_eq, hbooked, hrun.next_eq]
  · rw [hrun'.next_eq]
  · rw [hrun'.next_eq, hbooked, hrun.next_eq]

/-- The shared conditions are enough for the three operations. -/
theorem State.Rebookable.rebooks {released after : LimitHierarchy} (hs : state.Coherent)
    (hh : state.positions.Headroom limits)
    (h : state.Rebookable current terms reversalIds postingIds released after)
    (hcur : state.currentTrade tradeId = some current) (hst : current.state = .confirmed)
    (hother : state.currentVersions[other]? = none)
    (hv : state.version.toNat + 4 ≤ 18446744073709551615) :
    ∃ cancelled booked rebooked,
      cancelTrade state tradeId current.version (some reversalIds) = .ok cancelled ∧
      bookTrade cancelled other current.bookId current.counterpartyId current.nettingSetId terms =
        .ok booked ∧
      confirmTrade booked other 1 postingIds = .ok rebooked := by
  -- Each of the three operations takes one version, so four are left at the start.
  have hv₀ : state.version ≠ 18446744073709551615 := version_ne_last (by omega)
  obtain ⟨cancelled, hcancel⟩ := cancelTrade_confirmed_ok hs hh hv₀ hcur hst h.reversal_nodup
    h.reversal_fresh
  have hs₁ : cancelled.Coherent := hs.step ⟨.cancelTrade tradeId _ _, hcancel⟩
  have hreq : state.requireCurrent tradeId current.version = .ok current :=
    State.requireCurrent_ok_iff.mpr ⟨hcur, rfl⟩
  obtain ⟨_, ht⟩ := State.requireCurrent_ok hs.chain hreq
  obtain ⟨index, original, reversal, freed, totals, hrun, hrids, _⟩ :=
    cancelTrade_unwinds hs ht hst hcancel
  obtain rfl := Except.ok.inj (h.releases.symm.trans hrun.releases)
  have hcversion : cancelled.version.toNat = state.version.toNat + 1 := by
    rw [hrun.next_eq, toNat_next_version hv₀]
  have hnone : cancelled.currentVersions[other]? = none := by
    rw [hrun.next_eq]
    exact hother
  have hv₁ : cancelled.version ≠ 18446744073709551615 := version_ne_last (by omega)
  obtain ⟨booked, hbook⟩ : ∃ booked, bookTrade cancelled other current.bookId
      current.counterpartyId current.nettingSetId terms = .ok booked :=
    bookTrade_succeeds hnone hv₁
  have hs₂ : booked.Coherent := hs₁.step ⟨.bookTrade other _ _ _ _, hbook⟩
  obtain ⟨_, _, hbooked⟩ := bookTrade_ok hs₁.chain hbook
  have hbversion : booked.version.toNat = cancelled.version.toNat + 1 := by
    rw [hbooked, toNat_next_version hv₁]
  have hv₂ : booked.version ≠ 18446744073709551615 := version_ne_last (by omega)
  have hcaptured : booked.currentTrade other = some (Trade.capture other current.bookId
      current.counterpartyId current.nettingSetId terms) := by
    rw [hbooked]
    exact State.currentTrade_eq_some_iff.mpr
      ⟨1, ExtTreeMap.getElem?_insert_self, ExtTreeMap.getElem?_insert_self⟩
  have hreserves : booked.limits.reserve current.limitPath terms.pay = .ok after := by
    rw [hbooked, hrun.next_eq]
    exact h.reserves
  have hfresh : ∀ id ∈ postingIds.toList, id ∉ booked.postingIds := by
    intro id hid
    rw [hbooked, hrun.next_eq, mem_insertPostingIds, hrids, not_or]
    exact ⟨(h.fresh id hid).2, (h.fresh id hid).1⟩
  obtain ⟨rebooked, hconfirm⟩ :=
    confirmTrade_succeeds hs₂ hcaptured rfl hreserves h.nodup hfresh hv₂
  exact ⟨cancelled, booked, rebooked, hcancel, hbook, hconfirm⟩

end Comparison

/-- An amendment succeeds just when the version can be cancelled, booked again
under a new identifier with the new terms, and confirmed. Limits, totals, posting
identifiers and settlements end up the same, and so does the ledger, but for the
trade that its last entry names. -/
theorem amend_eq_cancel_and_rebook {definitions : List LimitDefinition} {limits : LimitHierarchy}
    {state : State} (hc : LimitHierarchy.create definitions = .ok limits)
    (h : state.Reachable limits) (hv : state.version.toNat + 4 ≤ 18446744073709551615)
    (tradeId : TradeId) (current : Trade) (hcur : state.currentTrade tradeId = some current)
    (hst : current.state = .confirmed) (hmax : current.version ≠ 4294967295) (terms : FxTerms)
    (reversalIds : ReversalPostingIds) (postingIds : ConfirmationPostingIds) (other : TradeId)
    (hother : state.currentVersions[other]? = none) :
    ((∃ amended,
        amendTrade state tradeId current.version terms reversalIds postingIds = .ok amended) ↔
      ∃ cancelled booked rebooked,
        cancelTrade state tradeId current.version (some reversalIds) = .ok cancelled ∧
        bookTrade cancelled other current.bookId current.counterpartyId current.nettingSetId
          terms = .ok booked ∧
        confirmTrade booked other 1 postingIds = .ok rebooked) ∧
    ∀ amended cancelled booked rebooked,
      amendTrade state tradeId current.version terms reversalIds postingIds = .ok amended →
      cancelTrade state tradeId current.version (some reversalIds) = .ok cancelled →
      bookTrade cancelled other current.bookId current.counterpartyId current.nettingSetId
        terms = .ok booked →
      confirmTrade booked other 1 postingIds = .ok rebooked →
      amended.limits = rebooked.limits ∧ amended.ledgerTotals = rebooked.ledgerTotals ∧
      amended.postingIds = rebooked.postingIds ∧ amended.settlements = rebooked.settlements ∧
      ∃ ledger entry entry', amended.ledgerEntries = ledger ++ [entry] ∧
        rebooked.ledgerEntries = ledger ++ [entry'] ∧
        (∀ posting ∈ entry.postings,
          posting.tradeId = tradeId ∧ posting.tradeVersion = current.version + 1) ∧
        entry'.postings = entry.postings.map (Posting.carriedBy other 1 (by decide)) := by
  have hs := h.coherent
  have hh := h.headroom hc
  have hreq : state.requireCurrent tradeId current.version = .ok current :=
    State.requireCurrent_ok_iff.mpr ⟨hcur, rfl⟩
  obtain ⟨_, ht⟩ := State.requireCurrent_ok hs.chain hreq
  have hid : current.id = tradeId := hs.chain.stored_id ht
  have hv₀ : state.version ≠ 18446744073709551615 := version_ne_last (by omega)
  refine ⟨⟨?_, ?_⟩, ?_⟩
  · rintro ⟨amended, hamend⟩
    obtain ⟨_, _, _, _, _, _, _, _, _, hrun⟩ := amendTrade_ok hs.chain hamend
    obtain rfl := Option.some.inj (hrun.stored.symm.trans ht)
    exact (hrun.rebookable hs).1.rebooks hs hh hcur hst hother hv
  · rintro ⟨cancelled, booked, rebooked, hcancel, hbook, hconfirm⟩
    obtain ⟨_, _, _, _, _, hrun⟩ := rebooking_of_ok hs ht hst hcancel hbook hconfirm
    exact hrun.rebookable.amends hs hcur hst hmax hv₀
  · intro amended cancelled booked rebooked hamend hcancel hbook hconfirm
    obtain ⟨found, index, original, reversal, replacement, released, after, totals, totals',
      hrun⟩ := amendTrade_ok hs.chain hamend
    obtain rfl := Option.some.inj (hrun.stored.symm.trans ht)
    obtain ⟨hbookable, _, hcontents, hids⟩ := hrun.rebookable hs
    obtain ⟨original', reversal', entry, released', after', hrun'⟩ :=
      rebooking_of_ok hs ht hst hcancel hbook hconfirm
    -- Both sides release, reserve and reverse the same things.
    obtain rfl := Except.ok.inj (hbookable.releases.symm.trans hrun'.rebookable.releases)
    obtain rfl := Except.ok.inj (hbookable.reserves.symm.trans hrun'.rebookable.reserves)
    have horiginal : state.confirmationEntry ⟨found.id, found.version⟩ = .ok original := by
      rw [hid]
      exact State.confirmationEntry_ok_iff.mpr ⟨index, hrun.indexed, hrun.posted⟩
    obtain rfl := Except.ok.inj (horiginal.symm.trans hrun'.posted)
    obtain rfl := Except.ok.inj (hrun.reverses.symm.trans hrun'.reverses)
    have hsame : replacement.postings.map Posting.id = entry.postings.map Posting.id :=
      hids.trans hrun'.ids.symm
    have hs₁ : cancelled.Coherent := hs.step ⟨.cancelTrade tradeId _ _, hcancel⟩
    have hs₂ : booked.Coherent := hs₁.step ⟨.bookTrade other _ _ _ _, hbook⟩
    have hs₃ : rebooked.Coherent := hs₂.step ⟨.confirmTrade other 1 _, hconfirm⟩
    have hs' : amended.Coherent := hs.step ⟨.amendTrade tradeId _ _ _ _, hamend⟩
    refine ⟨?_, hs'.totals.trans hs₃.totals.symm, ?_, ?_, state.ledgerEntries ++ [reversal],
      replacement, entry, ?_, hrun'.ledger, ?_, ?_⟩
    · rw [hrun.next_eq, hrun'.limits_eq]
    · rw [hrun.next_eq, hrun'.postingIds_eq]
      exact insertPostingIds_congr _ hsame
    · rw [hrun.next_eq, hrun'.settlements]
    · rw [hrun.next_eq]
    · intro posting hmem
      obtain ⟨p, q, r, t, hpost, hp, hq, hr, ht'⟩ := postings_of_confirmationContents hcontents
      rw [hpost] at hmem
      simp only [Posting.content, PostingContent.mk.injEq] at hp hq hr ht'
      simp only [List.mem_cons, List.not_mem_nil, or_false] at hmem
      rcases hmem with rfl | rfl | rfl | rfl
      · exact ⟨hp.1.trans hid, hp.2.1⟩
      · exact ⟨hq.1.trans hid, hq.2.1⟩
      · exact ⟨hr.1.trans hid, hr.2.1⟩
      · exact ⟨ht'.1.trans hid, ht'.2.1⟩
    · exact postings_carriedBy hcontents hrun'.contents hsame rfl rfl (by simp [Trade.capture])

section Sample

def sampleReversalIds : ReversalPostingIds :=
  ⟨⟨asciiBytes "R1", by decide⟩, ⟨asciiBytes "R2", by decide⟩, ⟨asciiBytes "R3", by decide⟩,
    ⟨asciiBytes "R4", by decide⟩⟩

def sampleReplacementIds : ConfirmationPostingIds :=
  ⟨⟨asciiBytes "S1", by decide⟩, ⟨asciiBytes "S2", by decide⟩, ⟨asciiBytes "S3", by decide⟩,
    ⟨asciiBytes "S4", by decide⟩⟩

def sampleAmendment : Operation :=
  .amendTrade (sampleId .trade) 1 sampleTerms sampleReversalIds sampleReplacementIds

def sampleOther : TradeId := ⟨asciiBytes "B", by decide⟩

/-- The confirmed sample trade, amended. -/
theorem sample_amendment : ∃ limits before state current amended,
    LimitHierarchy.create sampleDefinitions = .ok limits ∧
    (State.initial limits).Step before ∧ before.Step state ∧
    state.currentTrade (sampleId .trade) = some current ∧ current.state = .confirmed ∧
    current.version = 1 ∧ state.version = 2 ∧ state.currentVersions[sampleOther]? = none ∧
    sampleAmendment.apply state = .ok amended := by
  have hrun : (do
      let limits ← (LimitHierarchy.create sampleDefinitions).mapError StateError.limitFailure
      let before ← Operation.apply (State.initial limits) sampleOperations[0]
      let state ← Operation.apply before sampleOperations[1]
      let current ← state.requireCurrent (sampleId .trade) 1
      let amended ← sampleAmendment.apply state
      if current.state = .confirmed ∧ state.version = 2 ∧
          state.currentVersions[sampleOther]? = none then .ok amended
      else .error StateError.tradeNotFound : Except StateError State).isOk = true := by
    decide +kernel
  obtain ⟨amended, h⟩ := ok_of_isOk hrun
  simp only [Outcome.bind_ok_iff, Outcome.mapError_ok_iff] at h
  obtain ⟨limits, hl, before, hb, state, hstate, current, hcur, amended', hamend, h⟩ := h
  split_ifs at h with hfacts
  obtain ⟨hcurrent, hversion⟩ := State.requireCurrent_ok_iff.mp hcur
  exact ⟨limits, before, state, current, amended', hl, ⟨_, hb⟩, ⟨_, hstate⟩, hcurrent, hfacts.1,
    hversion, hfacts.2.1, hfacts.2.2, hamend⟩

theorem amend_eq_cancel_and_rebook_sample : ∃ (state cancelled : State),
    cancelTrade state (sampleId .trade) 1 (some sampleReversalIds) = .ok cancelled := by
  obtain ⟨limits, before, state, current, amended, hl, hb, hs, hcur, hst, hone, hversion, hother,
    hamend⟩ := sample_amendment
  have h : state.Reachable limits := (ReflTransGen.single hb).tail hs
  have hsame := (amend_eq_cancel_and_rebook hl h (by rw [hversion]; decide) (sampleId .trade)
    current hcur hst (by rw [hone]; decide) sampleTerms sampleReversalIds sampleReplacementIds
    sampleOther hother).1
  rw [hone] at hsame
  obtain ⟨cancelled, _, _, hcancel, _⟩ := hsame.mp ⟨amended, hamend⟩
  exact ⟨state, cancelled, hcancel⟩

end Sample

end Backbook
