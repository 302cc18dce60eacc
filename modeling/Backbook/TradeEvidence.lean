import Backbook.ConsoleActions

namespace Backbook

open Std

section Lists

variable {α β : Type*} {items : List α} {parts : α → List β}

theorem flatMap_of_none (h : ∀ (k : ℕ) (item : α), items[k]? = some item → parts item = []) :
    items.flatMap parts = [] := by
  rw [List.flatMap_eq_nil_iff]
  intro item hmem
  obtain ⟨k, hk⟩ := List.mem_iff_getElem?.mp hmem
  exact h k item hk

theorem flatMap_of_one {i : ℕ} {one : α} (hone : items[i]? = some one)
    (h : ∀ (k : ℕ) (item : α), items[k]? = some item → k ≠ i → parts item = []) :
    items.flatMap parts = parts one := by
  induction items generalizing i with
  | nil => cases hone
  | cons first items ih =>
    cases i with
    | zero =>
      obtain rfl := Option.some.inj hone
      have hrest : items.flatMap parts = [] :=
        flatMap_of_none fun k item hk => h (k + 1) item hk (Nat.succ_ne_zero k)
      rw [List.flatMap_cons, hrest, List.append_nil]
    | succ i =>
      have hfirst : parts first = [] := h 0 first rfl (Nat.succ_ne_zero i).symm
      have hrest := ih hone fun k item hk hne =>
        h (k + 1) item hk fun heq => hne (Nat.succ_injective heq)
      rw [List.flatMap_cons, hfirst, List.nil_append, hrest]

theorem flatMap_of_two {i j : ℕ} {one two : α} (hij : i < j) (hone : items[i]? = some one)
    (htwo : items[j]? = some two)
    (h : ∀ (k : ℕ) (item : α), items[k]? = some item → k ≠ i → k ≠ j → parts item = []) :
    items.flatMap parts = parts one ++ parts two := by
  induction items generalizing i j with
  | nil => cases hone
  | cons first items ih =>
    cases j with
    | zero => exact absurd hij (Nat.not_lt_zero i)
    | succ j =>
      cases i with
      | zero =>
        obtain rfl := Option.some.inj hone
        have hrest : items.flatMap parts = parts two :=
          flatMap_of_one htwo fun k item hk hne =>
            h (k + 1) item hk (Nat.succ_ne_zero k) fun heq => hne (Nat.succ_injective heq)
        rw [List.flatMap_cons, hrest]
      | succ i =>
        have hfirst : parts first = [] :=
          h 0 first rfl (Nat.succ_ne_zero i).symm (Nat.succ_ne_zero j).symm
        have hrest := ih (Nat.succ_lt_succ_iff.mp hij) hone htwo fun k item hk hi hj =>
          h (k + 1) item hk (fun heq => hi (Nat.succ_injective heq))
            fun heq => hj (Nat.succ_injective heq)
        rw [List.flatMap_cons, hfirst, List.nil_append, hrest]

end Lists

namespace Browser

def selectedPostings (ledger : LedgerData) (trade : Trade) : List Posting :=
  (ledger.entries.flatMap LedgerEntry.postings).filter fun posting =>
    posting.tradeId = trade.tradeId ∧ posting.tradeVersion = trade.version

structure LedgerLine where
  account : Bytes
  debit : Option Money
  credit : Option Money
  link : Bytes
deriving DecidableEq, Repr

def ledgerLine (posting : Posting) : LedgerLine where
  account := posting.account
  debit := if posting.side = .debit then some posting.amount else none
  credit := if posting.side = .credit then some posting.amount else none
  link := if posting.reversalOf = none then "ORIGINAL" else "REVERSAL"

def ledgerPanel (trade : Trade) (ledger : LedgerData) : List LedgerLine :=
  (selectedPostings ledger trade).map ledgerLine

def Trade.confirmationLines (trade : Trade) : List LedgerLine :=
  [⟨counterpartyControlPrefix ++ trade.counterpartyId, some trade.terms.pay, none, "ORIGINAL"⟩,
   ⟨settlementPayablePrefix ++ trade.bookId, none, some trade.terms.pay, "ORIGINAL"⟩,
   ⟨settlementReceivablePrefix ++ trade.bookId, some trade.terms.receive, none, "ORIGINAL"⟩,
   ⟨counterpartyControlPrefix ++ trade.counterpartyId, none, some trade.terms.receive,
    "ORIGINAL"⟩]

def LedgerLine.reversal (line : LedgerLine) : LedgerLine :=
  ⟨line.account, line.credit, line.debit, "REVERSAL"⟩

def columnTotal (column : LedgerLine → Option Money) (account : Bytes) (currency : Currency)
    (lines : List LedgerLine) : ℤ :=
  (lines.map fun line => match column line with
    | some money =>
      if line.account = account ∧ money.currency = currency then money.minorUnits else 0
    | none => 0).sum

end Browser

section Evidence

variable {limits : LimitHierarchy} {state : State} {key : TradeVersionKey} {trade : Trade}
  {original reversal entry : LedgerEntry} {posting : Posting}

def Posting.names (key : TradeVersionKey) (posting : Posting) : Bool :=
  posting.tradeId = key.tradeId ∧ posting.tradeVersion = key.version

theorem Posting.names_of_confirmation (h : original.contents = trade.confirmationContents)
    (hp : posting ∈ original.postings) : posting.names key = true ↔ trade.key = key := by
  have hmem : posting.content ∈ trade.confirmationContents := by
    rw [← h]
    exact List.mem_map_of_mem hp
  have hcontent : posting.tradeId = trade.id ∧ posting.tradeVersion = trade.version := by
    simp only [Trade.confirmationContents, Posting.content, List.mem_cons, List.not_mem_nil,
      or_false, PostingContent.mk.injEq] at hmem
    rcases hmem with hmem | hmem | hmem | hmem
    all_goals exact ⟨hmem.1, hmem.2.1⟩
  obtain ⟨tradeId, version⟩ := key
  rw [Posting.names, decide_eq_true_eq, hcontent.1, hcontent.2, Trade.key, TradeVersionKey.mk.injEq]

/-- The postings of a reversal name the version whose confirmation they take back. -/
theorem Posting.names_of_reversal (h : original.contents = trade.confirmationContents)
    (hr : IsReversalOf original reversal) (hp : posting ∈ reversal.postings) :
    posting.names key = true ↔ trade.key = key := by
  have hmem : posting.content ∈ original.postings.map Posting.reversalContent := by
    rw [← hr]
    exact List.mem_map_of_mem hp
  obtain ⟨source, hsource, hcontent⟩ := List.mem_map.mp hmem
  have hid : posting.tradeId = source.tradeId :=
    (congrArg PostingContent.tradeId hcontent).symm
  have hversion : posting.tradeVersion = source.tradeVersion :=
    (congrArg PostingContent.tradeVersion hcontent).symm
  rw [← Posting.names_of_confirmation h hsource, Posting.names, Posting.names, hid, hversion]

/-- A reversal stands behind the entry that it takes back. -/
theorem Positions.Posted.reversal_later {p : Positions} (h : p.Posted) {i j : ℕ}
    (ho : p.ledgerEntries[i]? = some original) (hj : p.ledgerEntries[j]? = some reversal)
    (hr : IsReversalOf original reversal) : i < j := by
  obtain ⟨_, k, _, source, _, _, _, hk, hlt, hr'⟩ := h.source hj hr
  obtain rfl := index_unique h.nodup hk ho (hr'.ids_eq hr)
  exact hlt

/-- Every entry confirms a version, or it takes the confirmation of one back. -/
theorem State.Coherent.entry_cases (hs : state.Coherent) {j : ℕ}
    (he : state.ledgerEntries[j]? = some entry) :
    ∃ (i : ℕ) (trade : Trade) (original : LedgerEntry),
      state.confirmationEntries[trade.key]? = some i ∧ state.trades[trade.key]? = some trade ∧
      state.ledgerEntries[i]? = some original ∧
      original.contents = trade.confirmationContents ∧
      (j = i ∨ trade.reversed ∧ i < j ∧ IsReversalOf original entry) := by
  by_cases hm : ∃ key : TradeVersionKey, state.confirmationEntries[key]? = some j
  · obtain ⟨key, hk⟩ := hm
    obtain ⟨trade, original, ht, _, ho, hc⟩ := hs.posted.indexed key j hk
    obtain rfl : trade.key = key := hs.chain.carries key trade ht
    exact ⟨j, trade, original, hk, ht, ho, hc, Or.inl rfl⟩
  · obtain ⟨key, i, trade, original, hk, ht, hrev, ho, hlt, hr⟩ :=
      hs.posted.others j entry he fun key hk => hm ⟨key, hk⟩
    obtain ⟨other, source, ht', _, ho', hc⟩ := hs.posted.indexed key i hk
    obtain rfl := Option.some.inj (ht.symm.trans ht')
    obtain rfl := Option.some.inj (ho.symm.trans ho')
    obtain rfl : trade.key = key := hs.chain.carries key trade ht
    exact ⟨i, trade, original, hk, ht, ho, hc, Or.inr ⟨hrev, hlt, hr⟩⟩

/-- The entries that name a version are its confirmation and its reversal. -/
theorem State.Coherent.names_cases (hs : state.Coherent) {j : ℕ}
    (he : state.ledgerEntries[j]? = some entry) (hp : posting ∈ entry.postings)
    (hn : posting.names key = true) :
    ∃ (i : ℕ) (original : LedgerEntry), state.confirmationEntries[key]? = some i ∧
      state.ledgerEntries[i]? = some original ∧ (j = i ∨ IsReversalOf original entry) := by
  obtain ⟨i, trade, original, hk, _, ho, hc, hcases⟩ := hs.entry_cases he
  have hkey : trade.key = key := by
    rcases hcases with rfl | ⟨_, _, hr⟩
    · obtain rfl := Option.some.inj (he.symm.trans ho)
      exact (Posting.names_of_confirmation hc hp).mp hn
    · exact (Posting.names_of_reversal hc hr hp).mp hn
  rw [hkey] at hk
  exact ⟨i, original, hk, ho, hcases.imp_right fun h => h.2.2⟩

def State.versionPostings (state : State) (key : TradeVersionKey) : List Posting :=
  (ledgerPostings state.ledgerEntries).filter (Posting.names key)

/-- The postings that name a version, in the order of the ledger. -/
theorem State.Coherent.versionPostings_cases (hs : state.Coherent)
    (ht : state.trades[key]? = some trade) :
    (state.confirmationEntries[key]? = none ∧ state.versionPostings key = []) ∨
      ∃ original, original.contents = trade.confirmationContents ∧ trade.state ≠ .captured ∧
        (¬trade.reversed ∧ state.versionPostings key = original.postings ∨
          ∃ reversal, trade.reversed ∧ IsReversalOf original reversal ∧
            state.versionPostings key = original.postings ++ reversal.postings) := by
  have hkey : trade.key = key := hs.chain.carries key trade ht
  have hparts : state.versionPostings key = state.ledgerEntries.flatMap fun entry =>
      entry.postings.filter (Posting.names key) := by
    rw [State.versionPostings, ledgerPostings, List.filter_flatMap]
  -- No other entry than those of the version contributes.
  have hnone {k : ℕ} {entry : LedgerEntry} (he : state.ledgerEntries[k]? = some entry)
      (hno : ∀ posting ∈ entry.postings, ¬posting.names key = true) :
      entry.postings.filter (Posting.names key) = [] :=
    List.filter_eq_nil_iff.mpr hno
  rw [hparts]
  cases hk : state.confirmationEntries[key]? with
  | none =>
    left
    refine ⟨rfl, flatMap_of_none fun k entry he => hnone he fun posting hp hn => ?_⟩
    obtain ⟨_, _, hindexed, _⟩ := hs.names_cases he hp hn
    rw [hk] at hindexed
    cases hindexed
  | some i =>
    right
    obtain ⟨other, original, ht', hcaptured, hposted, hc⟩ := hs.posted.indexed key i hk
    obtain rfl := Option.some.inj (ht.symm.trans ht')
    have ho : state.ledgerEntries[i]? = some original := hposted
    have hwhole : original.postings.filter (Posting.names key) = original.postings :=
      List.filter_eq_self.mpr fun posting hp => (Posting.names_of_confirmation hc hp).mpr hkey
    refine ⟨original, hc, hcaptured, ?_⟩
    by_cases hrev : trade.reversed
    · right
      obtain ⟨j, reversal, hposted', hr⟩ := hs.posted.reversed key i trade original hk ht hrev ho
      have hj : state.ledgerEntries[j]? = some reversal := hposted'
      have hlt := hs.posted.reversal_later ho hj hr
      have hback : reversal.postings.filter (Posting.names key) = reversal.postings :=
        List.filter_eq_self.mpr fun posting hp => (Posting.names_of_reversal hc hr hp).mpr hkey
      refine ⟨reversal, hrev, hr, ?_⟩
      rw [flatMap_of_two hlt ho hj, hwhole, hback]
      intro k entry he hki hkj
      apply hnone he
      intro posting hp hn
      obtain ⟨i', original', hk', ho', hcases⟩ := hs.names_cases he hp hn
      obtain rfl := Option.some.inj (hk.symm.trans hk')
      obtain rfl := Option.some.inj (ho.symm.trans ho')
      rcases hcases with heq | hr'
      · exact hki heq
      · exact hkj (hs.posted.once _ _ _ _ _ _ ho he hj hr' hr)
    · left
      refine ⟨hrev, ?_⟩
      rw [flatMap_of_one ho, hwhole]
      intro k entry he hki
      apply hnone he
      intro posting hp hn
      obtain ⟨i', original', hk', ho', hcases⟩ := hs.names_cases he hp hn
      obtain rfl := Option.some.inj (hk.symm.trans hk')
      obtain rfl := Option.some.inj (ho.symm.trans ho')
      rcases hcases with heq | hr'
      · exact hki heq
      · exact hs.posted.stands hk ht hrev ho he hr'

open Browser (selectedPostings ledgerPanel ledgerLine LedgerLine columnTotal)

theorem State.ledgerView_postings (state : State) :
    state.ledgerView.entries.flatMap Browser.LedgerEntry.postings =
      (ledgerPostings state.ledgerEntries).map Posting.view := by
  have hentries : state.ledgerView.entries.map Browser.LedgerEntry.postings =
      state.ledgerEntries.map fun entry => entry.postings.map Posting.view := by
    apply List.ext_getElem?
    intro i
    simp [State.ledgerView, LedgerEntry.view, Function.comp_def]
  rw [List.flatMap_def, hentries, ← List.flatMap_def, ledgerPostings, List.map_flatMap]

theorem Posting.view_selected (trade : Trade) (posting : Posting) :
    decide (posting.view.tradeId = trade.view.tradeId ∧
      posting.view.tradeVersion = trade.view.version) = posting.names trade.key := by
  have hid : posting.view.tradeId = trade.view.tradeId ↔ posting.tradeId = trade.id :=
    Id.ext_iff.symm
  have hversion : posting.view.tradeVersion = trade.view.version ↔
      posting.tradeVersion = trade.version := by
    constructor
    · intro htext
      exact UInt32.toNat_inj.mp (DecimalText.numeral_injective htext)
    · intro hsame
      exact congrArg versionText hsame
  exact decide_eq_decide.mpr (and_congr hid hversion)

/-- The panel selects the postings that name the version of its row. -/
theorem selectedPostings_view (state : State) (trade : Trade) :
    selectedPostings state.ledgerView trade.view =
      (state.versionPostings trade.key).map Posting.view := by
  rw [selectedPostings, State.ledgerView_postings, List.filter_map, State.versionPostings]
  apply congrArg
  apply List.filter_congr
  intro posting _
  exact posting.view_selected trade

def PostingContent.line (content : PostingContent) : LedgerLine where
  account := content.account
  debit := if content.side = .debit then some content.amount.view else none
  credit := if content.side = .credit then some content.amount.view else none
  link := if content.reversalOf = none then "ORIGINAL" else "REVERSAL"

theorem ledgerLine_view (posting : Posting) :
    ledgerLine posting.view = posting.content.line := by
  have hlink : (if posting.reversalOf.map Id.value = none then asciiBytes "ORIGINAL"
      else asciiBytes "REVERSAL") = if posting.reversalOf = none then asciiBytes "ORIGINAL"
      else asciiBytes "REVERSAL" := by
    cases posting.reversalOf with
    | none => rfl
    | some _ => rfl
  exact congrArg (LedgerLine.mk _ _ _) hlink

theorem lines_of_confirmation (h : original.contents = trade.confirmationContents) :
    (original.postings.map Posting.view).map ledgerLine = trade.view.confirmationLines := by
  have hlines : (original.postings.map Posting.view).map ledgerLine =
      original.contents.map PostingContent.line := by
    simp only [LedgerEntry.contents, List.map_map, Function.comp_def, ledgerLine_view]
  rw [hlines, h]
  rfl

theorem lines_of_reversal (hr : IsReversalOf original reversal) :
    (reversal.postings.map Posting.view).map ledgerLine =
      ((original.postings.map Posting.view).map ledgerLine).map LedgerLine.reversal := by
  have hline (source : Posting) :
      source.reversalContent.line = (ledgerLine source.view).reversal := by
    rw [ledgerLine_view]
    cases hside : source.side
    all_goals simp [PostingContent.line, LedgerLine.reversal, Posting.reversalContent,
      Posting.content, hside, PostingSide.opposite]
  have hlines : (reversal.postings.map Posting.view).map ledgerLine =
      reversal.contents.map PostingContent.line := by
    simp only [LedgerEntry.contents, List.map_map, Function.comp_def, ledgerLine_view]
  rw [hlines, hr]
  simp only [List.map_map, Function.comp_def, hline]

/-- Taking lines back evens the columns out. -/
theorem columnTotal_reversed (account : Bytes) (currency : Currency) (lines : List LedgerLine) :
    columnTotal LedgerLine.debit account currency (lines ++ lines.map LedgerLine.reversal) =
      columnTotal LedgerLine.credit account currency (lines ++ lines.map LedgerLine.reversal) := by
  have hdebit : columnTotal LedgerLine.debit account currency (lines.map LedgerLine.reversal) =
      columnTotal LedgerLine.credit account currency lines := by
    simp only [columnTotal, List.map_map]
    rfl
  have hcredit : columnTotal LedgerLine.credit account currency (lines.map LedgerLine.reversal) =
      columnTotal LedgerLine.debit account currency lines := by
    simp only [columnTotal, List.map_map]
    rfl
  have happend (column : LedgerLine → Option Browser.Money) (more : List LedgerLine) :
      columnTotal column account currency (lines ++ more) =
        columnTotal column account currency lines + columnTotal column account currency more := by
    rw [columnTotal, List.map_append, List.sum_append]
    rfl
  calc
    columnTotal LedgerLine.debit account currency (lines ++ lines.map LedgerLine.reversal) =
        columnTotal LedgerLine.debit account currency lines +
          columnTotal LedgerLine.credit account currency lines := by
      rw [happend, hdebit]
    _ = columnTotal LedgerLine.credit account currency lines +
          columnTotal LedgerLine.debit account currency lines := add_comm _ _
    _ = columnTotal LedgerLine.credit account currency
          (lines ++ lines.map LedgerLine.reversal) := by
      rw [happend, hcredit]

theorem Trade.live_of_posted (hc : trade.state ≠ .captured) (hr : ¬trade.reversed) :
    trade.live := by
  cases hstate : trade.state with
  | captured => exact absurd hstate hc
  | confirmed => exact Or.inl hstate
  | superseded => exact absurd (Or.inl hstate) hr
  | cancelled => exact absurd (Or.inr hstate) hr
  | settled => exact Or.inr hstate

theorem Trade.not_reversed_of_live (hl : trade.live) : ¬trade.reversed := by
  rcases hl with h | h
  all_goals simp [Trade.reversed, h]

/-- The panel of a version, by what the version has been through. -/
theorem State.Coherent.panel_cases (hs : state.Coherent)
    (ht : state.trades[trade.key]? = some trade) :
    (¬trade.live ∧ trade.state ≠ .superseded ∧
        ledgerPanel trade.view state.ledgerView = []) ∨
      trade.state ≠ .captured ∧
        (¬trade.reversed ∧
            ledgerPanel trade.view state.ledgerView = trade.view.confirmationLines ∨
          trade.reversed ∧ ledgerPanel trade.view state.ledgerView =
            trade.view.confirmationLines ++
              trade.view.confirmationLines.map LedgerLine.reversal) := by
  rw [ledgerPanel, selectedPostings_view]
  rcases hs.versionPostings_cases ht with ⟨hnone, hpostings⟩ |
    ⟨original, hc, hcaptured, ⟨hrev, hpostings⟩ | ⟨reversal, hrev, hr, hpostings⟩⟩
  · left
    have hindexed := hs.posted.live trade.key trade ht
    have hnever : ¬(trade.state = .confirmed ∨ trade.state = .superseded ∨
        trade.state = .settled) := by
      intro hlive
      obtain ⟨i, hi⟩ := hindexed hlive
      have hsome : state.confirmationEntries[trade.key]? = some i := hi
      rw [hnone] at hsome
      cases hsome
    rw [not_or, not_or] at hnever
    rw [hpostings]
    exact ⟨not_or.mpr ⟨hnever.1, hnever.2.2⟩, hnever.2.1, rfl⟩
  · right
    rw [hpostings, lines_of_confirmation hc]
    exact ⟨hcaptured, Or.inl ⟨hrev, rfl⟩⟩
  · right
    rw [hpostings, List.map_append, List.map_append, lines_of_reversal hr,
      lines_of_confirmation hc]
    exact ⟨hcaptured, Or.inr ⟨hrev, rfl⟩⟩

/-- Every posting of the ledger stands in the panel of one row. -/
theorem State.Coherent.posting_row (hs : state.Coherent)
    (hp : posting ∈ ledgerPostings state.ledgerEntries) :
    ∃ trade ∈ state.register.versions, posting ∈ state.versionPostings trade.key ∧
      ∀ other ∈ state.register.versions,
        posting.view ∈ selectedPostings state.ledgerView other.view → other = trade := by
  obtain ⟨entry, he, hmem⟩ := List.mem_flatMap.mp hp
  obtain ⟨j, hj⟩ := List.mem_iff_getElem?.mp he
  obtain ⟨i, trade, original, _, ht, ho, hc, hcases⟩ := hs.entry_cases hj
  have hnames (key : TradeVersionKey) : posting.names key = true ↔ trade.key = key := by
    rcases hcases with rfl | ⟨_, _, hr⟩
    · obtain rfl := Option.some.inj (hj.symm.trans ho)
      exact Posting.names_of_confirmation hc hmem
    · exact Posting.names_of_reversal hc hr hmem
  have htrade : trade ∈ state.register.versions := State.register_of_stored ht
  refine ⟨trade, htrade, List.mem_filter.mpr ⟨hp, (hnames _).mpr rfl⟩, ?_⟩
  intro other hother hselected
  have hfound : posting.names other.key = true := by
    rw [← posting.view_selected other]
    exact (List.mem_filter.mp hselected).2
  exact (hs.chain.carries.eq_of_key_eq htrade hother ((hnames _).mp hfound)).symm

end Evidence

open Browser (selectedPostings ledgerPanel LedgerLine columnTotal)

/-- From every reachable state the inspector shows the history of the row that is
selected: nothing for a captured version, the four lines of the confirmation for a
confirmed or settled one, these lines and their reversals for a superseded one, and
one or the other for a cancelled version. The columns of a version that is out of
force are even on every account. The lines of a panel have keys of their own, and
each posting of the ledger stands in the panel of exactly one row. -/
theorem inspector_shows_the_history {limits : LimitHierarchy} {state : State}
    (hr : state.Reachable limits) :
    (∀ row ∈ state.dataView.trades,
      (row.state = .captured → ledgerPanel row state.ledgerView = []) ∧
      (row.state = .confirmed ∨ row.state = .settled →
        ledgerPanel row state.ledgerView = row.confirmationLines) ∧
      (row.state = .superseded → ledgerPanel row state.ledgerView =
        row.confirmationLines ++ row.confirmationLines.map LedgerLine.reversal) ∧
      (row.state = .cancelled → ledgerPanel row state.ledgerView = [] ∨
        ledgerPanel row state.ledgerView =
          row.confirmationLines ++ row.confirmationLines.map LedgerLine.reversal) ∧
      (row.state ≠ .confirmed → row.state ≠ .settled → ∀ account currency,
        columnTotal LedgerLine.debit account currency (ledgerPanel row state.ledgerView) =
          columnTotal LedgerLine.credit account currency (ledgerPanel row state.ledgerView)) ∧
      ((selectedPostings state.ledgerView row).map Browser.Posting.postingId).Nodup) ∧
    ∀ posting ∈ state.ledgerView.entries.flatMap Browser.LedgerEntry.postings,
      ∃! row, row ∈ state.dataView.trades ∧ posting ∈ selectedPostings state.ledgerView row := by
  have hs := hr.coherent
  constructor
  · intro row hrow
    obtain ⟨trade, hmem, rfl⟩ := State.mem_dataView.mp hrow
    have ht := (State.mem_register hs.chain).mp hmem
    have hkeys : ((selectedPostings state.ledgerView trade.view).map
        Browser.Posting.postingId).Nodup := by
      have hids : (state.versionPostings trade.key).map Posting.id |>.Nodup :=
        hs.posted.nodup.sublist (List.filter_sublist.map _)
      have htexts : (selectedPostings state.ledgerView trade.view).map
          Browser.Posting.postingId =
            ((state.versionPostings trade.key).map Posting.id).map Id.value := by
        rw [selectedPostings_view, List.map_map, List.map_map]
        rfl
      rw [htexts]
      exact hids.map fun _ _ h => Id.ext h
    have hstate : trade.view.state = trade.state := rfl
    rw [hstate]
    rcases hs.panel_cases ht with ⟨hlive, hsuperseded, hpanel⟩ |
      ⟨hcaptured, ⟨hrev, hpanel⟩ | ⟨hrev, hpanel⟩⟩
    · rw [hpanel]
      exact ⟨fun _ => rfl, fun h => absurd h hlive, fun h => absurd h hsuperseded,
        fun _ => Or.inl rfl, fun _ _ _ _ => rfl, hkeys⟩
    · rw [hpanel]
      refine ⟨fun h => absurd h hcaptured, fun _ => rfl, fun h => absurd (Or.inl h) hrev,
        fun h => absurd (Or.inr h) hrev, ?_, hkeys⟩
      intro hconfirmed hsettled
      rcases Trade.live_of_posted hcaptured hrev with h | h
      · exact absurd h hconfirmed
      · exact absurd h hsettled
    · rw [hpanel]
      refine ⟨fun h => absurd h hcaptured, ?_, fun _ => rfl, fun _ => Or.inr rfl, ?_, hkeys⟩
      · intro hlive
        exact absurd hrev (Trade.not_reversed_of_live hlive)
      · intro _ _ account currency
        exact columnTotal_reversed account currency _
  · intro shown hshown
    rw [State.ledgerView_postings] at hshown
    obtain ⟨posting, hposting, rfl⟩ := List.mem_map.mp hshown
    obtain ⟨trade, hmem, hfound, hunique⟩ := hs.posting_row hposting
    refine ⟨trade.view, ⟨State.mem_dataView.mpr ⟨trade, hmem, rfl⟩, ?_⟩, ?_⟩
    · rw [selectedPostings_view]
      exact List.mem_map_of_mem hfound
    · intro row hrow
      obtain ⟨other, hother, rfl⟩ := State.mem_dataView.mp hrow.1
      rw [hunique other hother hrow.2]

/-- The panel of the sample screen's row. -/
theorem inspector_shows_the_history_sample : ∃ state : State,
    sampleConfirmed.view ∈ state.dataView.trades ∧
      ledgerPanel sampleConfirmed.view state.ledgerView =
        sampleConfirmed.view.confirmationLines := by
  obtain ⟨_, state, _, hr, hselected, _⟩ := sample_screen
  have hrow : sampleConfirmed.view ∈ state.dataView.trades :=
    List.mem_of_find?_eq_some hselected
  obtain ⟨hrows, _⟩ := inspector_shows_the_history hr
  obtain ⟨_, hstanding, _⟩ := hrows _ hrow
  exact ⟨state, hrow, hstanding (Or.inl rfl)⟩

end Backbook
