import Backbook.RegisterSteps

namespace Backbook

open Std VisibleTrace

variable {state next : State} {limits : LimitHierarchy} {tradeId : TradeId} {version : UInt32}
  {trade : Trade}

theorem State.appendEntry_accepts {entry : LedgerEntry}
    (ht : state.ledgerTotals = LedgerTotals.zero)
    (hf : ∀ posting ∈ entry.postings, posting.id ∉ state.postingIds) :
    state.appendEntry entry = .ok { state with
      postingIds := insertPostingIds state.postingIds entry
      ledgerTotals := LedgerTotals.zero
      ledgerEntries := state.ledgerEntries ++ [entry] } := by
  refine State.appendEntry_ok_iff.mpr ⟨hf, LedgerTotals.zero, ?_, rfl⟩
  rw [ht, LedgerTotals.withEntry_zero]

theorem State.advanceVersion_accepts (hv : state.version ≠ 18446744073709551615) :
    state.advanceVersion = .ok { state with version := state.version + 1 } :=
  State.advanceVersion_ok_iff.mpr ⟨hv, rfl⟩

theorem bookTrade_accepts {bookId : BookId} {counterpartyId : CounterpartyId}
    {nettingSetId : NettingSetId} {terms : FxTerms} (hs : state.Coherent)
    (hv : state.version ≠ 18446744073709551615)
    (hnew : ∀ t ∈ state.register.versions, t.id ≠ tradeId) :
    ∃ next, bookTrade state tradeId bookId counterpartyId nettingSetId terms = .ok next := by
  have hnone : tradeId ∉ state.currentVersions := by
    intro hmem
    obtain ⟨current, hcur⟩ := Option.isSome_iff_exists.mp
      (ExtTreeMap.mem_iff_isSome_getElem?.mp hmem)
    obtain ⟨hge, hall⟩ := hs.chain.complete tradeId current hcur
    obtain ⟨t, ht⟩ := hall current hge UInt32.le_rfl
    exact hnew t (State.register_of_stored ht) (hs.chain.stored_id ht)
  rw [bookTrade, if_neg hnone]
  exact ⟨_, State.advanceVersion_accepts hv⟩

theorem confirmTrade_accepts {ids : ConfirmationPostingIds} (hs : state.Coherent)
    (hh : state.positions.Headroom limits) (hv : state.version ≠ 18446744073709551615)
    (hcur : state.register.Current tradeId version trade) (hst : trade.state = .captured)
    (hroom : state.register.Room limits.capacityAt trade.limitPath trade.terms.pay)
    (hids : state.register.Unspent ids.toList) :
    ∃ next, confirmTrade state tradeId version ids = .ok next := by
  have hreq := (State.requireCurrent_iff hs.chain).mpr hcur
  obtain ⟨_, ht⟩ := State.requireCurrent_ok hs.chain hreq
  have happ : trade.apply .confirmTrade = .ok { trade with state := .confirmed } :=
    Trade.apply_confirm_ok_iff.mpr ⟨hst, rfl⟩
  obtain ⟨reserved, hres⟩ : ∃ reserved,
      state.limits.reserve trade.limitPath trade.terms.pay = .ok reserved := by
    apply (LimitHierarchy.exists_reserve_iff trade.terms.pay_pos).mpr
    intro node hn
    obtain ⟨most, hc, hfit⟩ := hroom node hn
    rw [← State.reservedAt_eq hs hh] at hfit
    exact ⟨most, (hh.capacity _).trans hc, hfit⟩
  obtain ⟨hd, hfresh⟩ := (State.unspent_iff hs).mp hids
  rcases buildConfirmationEntry_cases { trade with state := .confirmed } ids rfl
    (hs.chain.stored_version ht).2 with ⟨entry, hbuilt, hc, hnames, _⟩ | ⟨_, hdup⟩
  · have hposts : entry.Posts trade.confirmationContents ids.toList := ⟨hc, hnames⟩
    simp only [confirmTrade, hreq, happ, hres, hbuilt, Except.mapError, Outcome.ok_bind]
    exact ⟨_, Outcome.bind_ok_iff.mpr ⟨_, State.appendEntry_accepts hs.totals
      ((hposts.fresh_iff _).mpr hfresh), State.advanceVersion_accepts hv⟩⟩
  · exact absurd hd hdup

theorem amendTrade_accepts {terms : FxTerms} {reversalIds : ReversalPostingIds}
    {ids : ConfirmationPostingIds} (hs : state.Coherent) (hh : state.positions.Headroom limits)
    (hv : state.version ≠ 18446744073709551615)
    (hcur : state.register.Current tradeId version trade) (hst : trade.state = .confirmed)
    (hversion : version ≠ 4294967295)
    (hroom : Register.Room { state.register with versions := state.register.versions.erase trade }
      limits.capacityAt trade.limitPath terms.pay)
    (hids : state.register.Unspent (reversalIds.toList ++ ids.toList)) :
    ∃ next, amendTrade state tradeId version terms reversalIds ids = .ok next := by
  have hreq := (State.requireCurrent_iff hs.chain).mpr hcur
  obtain ⟨_, ht⟩ := State.requireCurrent_ok hs.chain hreq
  have hkey : trade.key = ⟨tradeId, version⟩ := hs.chain.carries _ _ ht
  have hstored : state.trades[trade.key]? = some trade := hkey ▸ ht
  obtain ⟨hnumber, hzero⟩ := hs.chain.stored_version ht
  have hmax : trade.version ≠ 4294967295 := hnumber ▸ hversion
  obtain ⟨original, horig, hcontents, hold⟩ := hs.confirmationEntry ht hst
  obtain ⟨released, hrel⟩ := State.release_ok hh ht hst
  have hamend : trade.amend terms = .ok ⟨trade.asSuperseded, trade.asReplacement terms⟩ :=
    Trade.amend_ok_iff.mpr ⟨hst, hzero, hmax, rfl, rfl⟩
  -- The replacement has the parties of the version that it replaces.
  obtain ⟨reserved, hres⟩ : ∃ reserved,
      released.reserve (trade.asReplacement terms).limitPath terms.pay = .ok reserved := by
    apply (LimitHierarchy.exists_reserve_iff terms.pay_pos).mpr
    intro node hn
    obtain ⟨most, hc, hfit⟩ := hroom node hn
    obtain ⟨hcapacity, hreserved⟩ :=
      State.released_limits hs hh hstored hst hrel ⟨node, terms.pay.currency⟩
    rw [← hreserved] at hfit
    exact ⟨most, hcapacity.trans hc, hfit⟩
  obtain ⟨hd, hfresh⟩ := (State.unspent_iff hs).mp hids
  obtain ⟨hdr, hdc, hdisjoint⟩ := List.nodup_append.mp hd
  rcases buildReversalEntry_cases reversalIds hcontents with ⟨reversal, hrev, hr, hnames, _⟩ |
    ⟨_, p, hp, hin⟩ | ⟨_, hdup⟩
  · rcases buildConfirmationEntry_cases (trade.asReplacement terms) ids rfl
      (Trade.asReplacement_version_ne hmax) with ⟨entry, hbuilt, hc, hnames', _⟩ | ⟨_, hdup⟩
    · have hreversal : reversal.Posts _ reversalIds.toList := ⟨hr, hnames⟩
      have hreplacement : entry.Posts _ ids.toList := ⟨hc, hnames'⟩
      have hfirst := (hreversal.fresh_iff state.postingIds).mpr fun id hid =>
        hfresh id (List.mem_append_left _ hid)
      have hsecond := (hreplacement.fresh_iff
        (insertPostingIds state.postingIds reversal)).mpr fun id hid => by
          rw [mem_insertPostingIds, hnames, not_or]
          exact ⟨fun hmem => hdisjoint id hmem id hid rfl, hfresh id (List.mem_append_right _ hid)⟩
      have hterms : (trade.asReplacement terms).terms = terms := rfl
      simp only [amendTrade, hreq, hst, ne_eq, not_true_eq_false, if_false, horig, hrel, hamend,
        hterms, hres, hrev, hbuilt, Except.mapError, Outcome.ok_bind]
      exact ⟨_, Outcome.bind_ok_iff.mpr ⟨_, State.appendEntry_accepts hs.totals hfirst,
        Outcome.bind_ok_iff.mpr ⟨_, State.appendEntry_accepts rfl hsecond,
          State.advanceVersion_accepts hv⟩⟩⟩
    · exact absurd hdc hdup
  · -- A spent identifier is not among the fresh ones.
    exact absurd (hold p hp) (hfresh p.id (List.mem_append_left _ hin))
  · exact absurd hdr hdup

theorem cancelTrade_discards (hs : state.Coherent) (hv : state.version ≠ 18446744073709551615)
    (hcur : state.register.Current tradeId version trade) (hst : trade.state = .captured) :
    ∃ next, cancelTrade state tradeId version none = .ok next := by
  have hreq := (State.requireCurrent_iff hs.chain).mpr hcur
  have happ : trade.apply .cancelTrade = .ok { trade with state := .cancelled } :=
    Trade.apply_cancel_ok_iff.mpr ⟨Or.inl hst, rfl⟩
  simp only [cancelTrade, hreq, happ, hst, if_true, Except.mapError, Outcome.ok_bind,
    Option.isSome_none, Bool.false_eq_true, if_false]
  exact ⟨_, State.advanceVersion_accepts hv⟩

/-- What the register takes, the state accepts. -/
theorem Register.Takes.accepted {operation : Operation} {register : Register} (hs : state.Coherent)
    (hh : state.positions.Headroom limits) (hn : state.Netted)
    (h : state.register.Takes limits.capacityAt operation register)
    (hcount : register.operations < 2 ^ 64) : ∃ next, operation.apply state = .ok next := by
  have hv : register.operations = state.version.toNat + 1 →
      state.version ≠ 18446744073709551615 := by
    intro hnext he
    rw [he] at hnext
    have hlast : (18446744073709551615 : UInt64).toNat = 18446744073709551615 := rfl
    omega
  cases h with
  | book hnew => exact bookTrade_accepts hs (hv rfl) hnew
  | confirm hcur hst hroom hids hentry =>
    exact confirmTrade_accepts hs hh (hv rfl) hcur hst hroom hids
  | amend hcur hst hversion horiginal hcontents hroom hids hreversal hreplacement =>
    exact amendTrade_accepts hs hh (hv rfl) hcur hst hversion hroom hids
  | discard hcur hst => exact cancelTrade_discards hs (hv rfl) hcur hst
  | @unwind _ _ ids trade _ _ hcur hst horiginal hcontents hids hreversal =>
    obtain ⟨hd, hfresh⟩ := (State.unspent_iff hs).mp hids
    have hrequired := (State.requireCurrent_iff hs.chain).mpr hcur
    have hcurrent := (State.requireCurrent_ok_iff.mp hrequired).1
    obtain ⟨next, hok⟩ := cancelTrade_confirmed_ok hs hh (hv rfl) hcurrent hst hd hfresh
    rw [hcur.version_eq] at hok
    exact ⟨next, hok⟩
  | settle hdue hnets =>
    apply (runEod_ok_iff_nets hs hh hn (hv rfl)).mpr
    intro key
    rw [State.netAfter_eq_total, ← hs.chain.carries.sum_values]
    exact hnets key
  | @idle asOfDate hnone =>
    apply (runEod_ok_iff hs hh).mpr
    left
    apply List.eq_nil_iff_forall_not_mem.mpr
    intro key hkey
    obtain ⟨t, ht, hst, hdue⟩ := State.mem_eligible.mp hkey
    exact hnone t (State.register_of_stored ht) hst hdue

/-- Registers with the same dossiers have the same members. -/
theorem Register.members_eq {first second : Register}
    (h : ∀ tradeId, first.dossier tradeId = second.dossier tradeId) :
    first.versions = second.versions ∧ first.entries = second.entries := by
  constructor
  · ext trade
    have hsame := congrArg (fun d : Dossier => trade ∈ d.versions) (h trade.id)
    simpa [dossier] using hsame
  · ext entry
    obtain ⟨posting, postings, hp⟩ := List.exists_cons_of_ne_nil entry.postings_ne_nil
    have hconcerns : entry.concerns posting.tradeId = true := by
      simp [LedgerEntry.concerns, LedgerEntry.contents, hp, Posting.content]
    have hsame := congrArg (fun d : Dossier => entry ∈ d.entries) (h posting.tradeId)
    simpa [dossier, hconcerns] using hsame

/-- An operation leads a register to one next register at most. -/
theorem Register.Takes.unique {register first second : Register} {capacity : LimitKey → Option ℤ}
    {operation : Operation} (hd : register.Definite)
    (h : register.Takes capacity operation first) (h' : register.Takes capacity operation second) :
    first = second := by
  obtain ⟨hversions, hentries⟩ :
      first.versions = second.versions ∧ first.entries = second.entries := by
    apply members_eq
    intro tradeId
    cases hc : operation.concerns tradeId with
    | false => rw [h.dossier_kept hc, h'.dossier_kept hc]
    | true => exact h.dossier_eq hd h' hc rfl
  have hcount : first.operations = second.operations := by
    cases h with
    | settle hdue hnets =>
      cases h' with
      | settle => rfl
      | idle hnone =>
        obtain ⟨t, ht, hst, hdate⟩ := hdue
        exact absurd hdate (hnone t ht hst)
    | idle hnone =>
      cases h' with
      | settle hdue hnets =>
        obtain ⟨t, ht, hst, hdate⟩ := hdue
        exact absurd hdate (hnone t ht hst)
      | idle => rfl
    | _ => cases h'; rfl
  exact Register.ext hversions hentries hcount

/-- States that differ at most in the order of their ledgers. -/
structure State.Same (first second : State) : Prop where
  rest : second = { first with
    ledgerEntries := second.ledgerEntries
    confirmationEntries := second.confirmationEntries }
  entries : second.ledgerEntries.Perm first.ledgerEntries
  confirmations : ∀ key, second.confirmationEntry key = first.confirmationEntry key

theorem State.Coherent.ledger_nodup (hs : state.Coherent) : state.ledgerEntries.Nodup := by
  rw [List.nodup_iff_getElem?_ne_getElem?]
  intro i j hij hj he
  have hentry : state.ledgerEntries[j]? = some state.ledgerEntries[j] :=
    List.getElem?_eq_getElem hj
  have hsame := index_unique hs.posted.nodup (he.trans hentry) hentry rfl
  omega

theorem State.Coherent.currentVersion_iff (hs : state.Coherent) :
    state.currentVersions[tradeId]? = some version ↔
      ∃ trade, state.register.Current tradeId version trade := by
  constructor
  · intro hcur
    obtain ⟨hge, hall⟩ := hs.chain.complete tradeId version hcur
    obtain ⟨trade, ht⟩ := hall version hge UInt32.le_rfl
    exact ⟨trade, (State.current_register_iff hs.chain).mpr ⟨hcur, ht⟩⟩
  · intro h
    obtain ⟨trade, hcurrent⟩ := h
    exact ((State.current_register_iff hs.chain).mp hcurrent).1

theorem State.Coherent.confirmationEntry_of_register {first second : State}
    (hf : first.Coherent) (hs : second.Coherent) (h : first.register = second.register)
    {key : TradeVersionKey} {entry : LedgerEntry} (he : first.confirmationEntry key = .ok entry) :
    second.confirmationEntry key = .ok entry := by
  obtain ⟨i, hi, hentry⟩ := State.confirmationEntry_ok_iff.mp he
  obtain ⟨t, entry', ht, _, hentry', hc⟩ := hf.posted.indexed key i hi
  obtain rfl := Option.some.inj (hentry.symm.trans hentry')
  have hmem : entry ∈ second.register.entries := by
    rw [← h]
    exact List.mem_toFinset.mpr (List.mem_of_getElem? hentry)
  obtain ⟨j, hj⟩ := List.mem_iff_getElem?.mp (List.mem_toFinset.mp hmem)
  have hkey : t.key = key := hf.chain.carries key t ht
  have hindex := hs.confirmation_index hj hc
  rw [hkey] at hindex
  exact State.confirmationEntry_ok_iff.mpr ⟨j, hindex, hj⟩

/-- Nothing in a reachable state but the order of the ledger goes beyond its
register. -/
theorem State.same_of_register {definitions : List LimitDefinition} {first second : State}
    (hc : LimitHierarchy.create definitions = .ok limits) (hf : first.Reachable limits)
    (hs : second.Reachable limits) (h : first.register = second.register) :
    first.Same second := by
  have htrades : first.trades = second.trades :=
    hf.coherent.chain.carries.ext hs.coherent.chain.carries (congrArg Register.versions h)
  have hcurrent : first.currentVersions = second.currentVersions := by
    apply ExtTreeMap.ext_getElem?
    intro tradeId
    apply Option.ext
    intro version
    rw [hf.coherent.currentVersion_iff, hs.coherent.currentVersion_iff, h]
  have hperm : second.ledgerEntries.Perm first.ledgerEntries := by
    rw [List.perm_ext_iff_of_nodup hs.coherent.ledger_nodup hf.coherent.ledger_nodup]
    intro entry
    have hentries : first.register.entries = second.register.entries :=
      congrArg Register.entries h
    rw [← List.mem_toFinset, ← List.mem_toFinset]
    exact (Finset.ext_iff.mp hentries entry).symm
  have hids : first.postingIds = second.postingIds := by
    apply ExtTreeSet.ext_mem
    intro id
    rw [show id ∈ first.postingIds ↔ _ from hf.coherent.posted.ids id,
      show id ∈ second.postingIds ↔ _ from hs.coherent.posted.ids id]
    exact ((hperm.flatMap_right LedgerEntry.postings).map Posting.id).mem_iff.symm
  have hversion : first.version = second.version :=
    UInt64.toNat_inj.mp (congrArg Register.operations h)
  have hlimits : first.limits = second.limits :=
    limits_eq_of_trades_eq (hf.headroom hc) (hs.headroom hc) htrades
  have hsettlements : first.settlements = second.settlements := by
    have hnetted := hf.netted
    rw [State.Netted, htrades, hs.netted] at hnetted
    exact (Except.ok.inj hnetted).symm
  have htotals : first.ledgerTotals = second.ledgerTotals :=
    hf.coherent.totals.trans hs.coherent.totals.symm
  refine ⟨?_, hperm, ?_⟩
  · cases first
    cases second
    simp_all
  · intro key
    -- Both lookups fail with the same error where they fail.
    have hmissing {s : State} {e : StateError} (he : s.confirmationEntry key = .error e) :
        e = .missingConfirmationEntry := by
      unfold State.confirmationEntry at he
      split at he
      · exact (Except.error.inj he).symm
      · cases he
    cases he : first.confirmationEntry key with
    | ok entry => exact hf.coherent.confirmationEntry_of_register hs.coherent h he
    | error e =>
      cases ho : second.confirmationEntry key with
      | ok entry =>
        rw [hs.coherent.confirmationEntry_of_register hf.coherent h.symm ho] at he
        cases he
      | error e' => rw [hmissing he, hmissing ho]

def State.Performs (state : State) (event : Option Operation) (next : State) : Prop :=
  ∃ operation, event = some operation ∧ operation.apply state = .ok next

theorem State.Reachable.of_run {history : List Operation}
    (h : Run State.Performs (State.initial limits) history state) : state.Reachable limits := by
  apply h.invariant .refl
  intro s event t hs hstep
  obtain ⟨operation, _, hok⟩ := hstep
  exact hs.tail ⟨operation, hok⟩

theorem State.initial_register (limits : LimitHierarchy) :
    (State.initial limits).register = .empty := by
  have hvalues : KeyedMap.values (State.initial limits).trades = ∅ := by
    ext trade
    simp [KeyedMap.mem_values, State.initial]
  rw [State.register, hvalues]
  rfl

/-- Steps of the state are steps of the register. -/
theorem State.Performs.step {definitions : List LimitDefinition} {event : Option Operation}
    (hc : LimitHierarchy.create definitions = .ok limits) (hr : state.Reachable limits)
    (h : state.Performs event next) :
    state.register.Step limits.capacityAt event next.register := by
  obtain ⟨operation, he, hok⟩ := h
  exact ⟨operation, he, Operation.takes hr.coherent (hr.headroom hc) hok, next.version.toNat_lt⟩

/-- And steps of the register are steps of the state. -/
theorem Register.Step.performed {definitions : List LimitDefinition} {event : Option Operation}
    {register : Register} (hc : LimitHierarchy.create definitions = .ok limits)
    (hr : state.Reachable limits) (h : state.register.Step limits.capacityAt event register) :
    ∃ next, state.Performs event next ∧ next.register = register := by
  obtain ⟨operation, he, htakes, hcount⟩ := h
  have hh := hr.headroom hc
  obtain ⟨next, hok⟩ := htakes.accepted hr.coherent hh hr.netted hcount
  have hnext : state.register.Takes limits.capacityAt operation next.register :=
    Operation.takes hr.coherent hh hok
  exact ⟨next, ⟨operation, he, hok⟩, hnext.unique hr.coherent.definite htakes⟩

/-- State and register have the same histories, with the register of the state at
the end of each, and the state holds nothing else but the order of its ledger. -/
theorem state_implements_register {definitions : List LimitDefinition}
    (hc : LimitHierarchy.create definitions = .ok limits) (history : List Operation) :
    (∀ state, Run State.Performs (State.initial limits) history state →
      Run (Register.Step limits.capacityAt) .empty history state.register) ∧
    (∀ register, Run (Register.Step limits.capacityAt) .empty history register →
      ∃ state, Run State.Performs (State.initial limits) history state ∧
        state.register = register) ∧
    ∀ first second : State, first.Reachable limits → second.Reachable limits →
      first.register = second.register → first.Same second := by
  have hinitial := State.initial_register limits
  -- The relation of both simulations: a reachable state and its register.
  have hforward : Simulates State.Performs (Register.Step limits.capacityAt)
      fun s r => s.Reachable limits ∧ s.register = r := by
    intro s event t r hr hstep
    obtain ⟨hreach, rfl⟩ := hr
    have hregister := State.Performs.step hc hreach hstep
    obtain ⟨operation, _, hok⟩ := hstep
    exact ⟨t.register, .single hregister, hreach.tail ⟨operation, hok⟩, rfl⟩
  have hbackward : Simulates (Register.Step limits.capacityAt) State.Performs
      fun r s => s.Reachable limits ∧ s.register = r := by
    intro r event r' s hr hstep
    obtain ⟨hreach, rfl⟩ := hr
    obtain ⟨t, hperforms, ht⟩ := hstep.performed hc hreach
    have hrun : Run State.Performs s event.toList t := .single hperforms
    obtain ⟨operation, _, hok⟩ := hperforms
    exact ⟨t, hrun, hreach.tail ⟨operation, hok⟩, ht⟩
  refine ⟨?_, ?_, fun first second hf hs => State.same_of_register hc hf hs⟩
  · intro state h
    obtain ⟨register, hrun, _, rfl⟩ := hforward.run ⟨.refl, hinitial⟩ h
    exact hrun
  · intro register h
    obtain ⟨state, hrun, _, rfl⟩ := hbackward.run ⟨.refl, hinitial⟩ h
    exact ⟨state, hrun, rfl⟩

theorem state_implements_register_sample : ∃ limits history register,
    LimitHierarchy.create sampleDefinitions = .ok limits ∧ history ≠ [] ∧
      Run (Register.Step limits.capacityAt) .empty history register ∧
      register.entries.card = 1 := by
  obtain ⟨limits, before, state, hc, ⟨first, hb⟩, ⟨second, hs⟩, hlen⟩ := sample_run
  have hbook : (State.initial limits).Performs (some first) before := ⟨first, rfl, hb⟩
  have hconfirm : before.Performs (some second) state := ⟨second, rfl, hs⟩
  have hrun : Run State.Performs (State.initial limits) [first, second] state :=
    (Run.single hbook).snoc hconfirm
  refine ⟨limits, _, state.register, hc, by simp, (state_implements_register hc _).1 state hrun, ?_⟩
  have hnodup := (State.Reachable.of_run hrun).coherent.ledger_nodup
  rw [State.register, List.toFinset_card_of_nodup hnodup]
  exact hlen

end Backbook
