import Backbook.OptimisticVersions
import Backbook.JournalFields
import Backbook.PrefixCodes

namespace Backbook

open Std Relation PrefixCode

inductive FingerprintError
  | sizeOverflow
deriving DecidableEq, Repr

def stateExportFormatVersion : UInt8 := 1

def TradeState.code : TradeState → UInt8
  | .captured => 0
  | .confirmed => 1
  | .superseded => 2
  | .cancelled => 3
  | .settled => 4

def PostingSide.code : PostingSide → UInt8
  | .debit => 0
  | .credit => 1

-- The export writes identifiers, money and terms as the journal does.
def writeTradeState (state : TradeState) : Bytes := writeU8 state.code

def writePostingSide (side : PostingSide) : Bytes := writeU8 side.code

def writeSettlementDirection (direction : SettlementDirection) : Bytes := writeU8 direction.code

def writeLimitLevel (level : UInt8) : Bytes := writeU8 level

def writeHasValue (hasValue : Bool) : Bytes := writeU8 (if hasValue then 1 else 0)

def writeOptionalId {tag : IdTag} (value : Option (Id tag)) : Bytes :=
  writeHasValue value.isSome ++ value.elim [] writeId

def writeOptionalVersion (value : Option UInt32) : Bytes :=
  writeHasValue value.isSome ++ value.elim [] writeU32

def writeSize (size : ℕ) : Bytes := writeU32 (UInt32.ofNat size)

def writeTrade (trade : Trade) : Bytes :=
  writeId trade.id ++ (writeU32 trade.version ++ (writeId trade.bookId ++
    (writeId trade.counterpartyId ++ (writeId trade.nettingSetId ++ (writeTerms trade.terms ++
      (writeTradeState trade.state ++ (writeOptionalVersion trade.supersedes ++
        writeOptionalVersion trade.supersededBy)))))))

def writePosting (posting : Posting) : Bytes :=
  writeId posting.id ++ (writeId posting.tradeId ++ (writeU32 posting.tradeVersion ++
    ((writeSize posting.account.length ++ posting.account) ++ (writePostingSide posting.side ++
      (writeMoney posting.amount ++ writeOptionalId posting.reversalOf)))))

def writeEntry (entry : LedgerEntry) : Bytes :=
  writeSize entry.postings.length ++ entry.postings.flatMap writePosting

def writeCurrentVersion (current : TradeId × UInt32) : Bytes :=
  writeId current.1 ++ writeU32 current.2

/-- An enumerator of the source always has a total. -/
def LedgerTotals.total (self : LedgerTotals) (currency : Currency) : Money :=
  Money.fromMinorUnits currency (Int64.ofInt (self.totals currency))

def writeLimitBalance (balance : LimitBalanceSnapshot) : Bytes :=
  writeLimitLevel balance.node.level ++ (writeOptionalId balance.node.counterpartyId ++
    (writeOptionalId balance.node.nettingSetId ++ (writeOptionalId balance.node.bookId ++
      (writeCurrency balance.currency ++ (writeI64 (Int64.ofInt balance.capacityMinorUnits) ++
        writeI64 (Int64.ofInt balance.reservedMinorUnits))))))

def writeSettlement (settlement : SettlementObligation) : Bytes :=
  writeId settlement.counterpartyId ++ (writeId settlement.nettingSetId ++
    (writeDate settlement.valueDate ++ (writeSettlementDirection settlement.direction ++
      writeMoney settlement.amount)))

def exceedsU32 (size : ℕ) : Prop := size > 4294967295

instance (size : ℕ) : Decidable (exceedsU32 size) := inferInstanceAs (Decidable (_ > _))

def stateSizesFit (state : State) : Prop :=
  ¬(exceedsU32 state.currentVersions.size ∨ exceedsU32 state.trades.size ∨
    exceedsU32 state.ledgerEntries.length ∨ exceedsU32 state.settlements.length ∨
    exceedsU32 state.limits.snapshots.length) ∧
  ∀ entry ∈ state.ledgerEntries, ¬exceedsU32 entry.postings.length ∧
    ∀ posting ∈ entry.postings, ¬exceedsU32 posting.account.length

instance (state : State) : Decidable (stateSizesFit state) := inferInstanceAs (Decidable (_ ∧ _))

def canonicalStateBytes (state : State) : Except FingerprintError Bytes :=
  if ¬stateSizesFit state then .error .sizeOverflow
  else
    .ok (writeU8 stateExportFormatVersion ++ (writeU64 state.version ++
      ((writeSize state.currentVersions.size ++
        state.currentVersions.toList.flatMap writeCurrentVersion) ++
      ((writeSize state.trades.size ++
        state.trades.toList.flatMap fun stored => writeTrade stored.2) ++
      ((writeSize state.ledgerEntries.length ++ state.ledgerEntries.flatMap writeEntry) ++
      (([Currency.usd, .jpy, .kwd].flatMap fun currency =>
        writeMoney (state.ledgerTotals.total currency)) ++
      ((writeSize state.limits.snapshots.length ++
        state.limits.snapshots.flatMap writeLimitBalance) ++
      (writeSize state.settlements.length ++ state.settlements.flatMap writeSettlement))))))))

theorem prefix_writeU8 : PrefixOn (fun _ => True) writeU8 :=
  prefixOn_of_exact (exact_readU8 unexpectedEnd)

theorem prefix_writeU32 : PrefixOn (fun _ => True) writeU32 :=
  prefixOn_of_exact (exact_readU32 unexpectedEnd)

theorem prefix_writeU64 : PrefixOn (fun _ => True) writeU64 :=
  prefixOn_of_exact (exact_readU64 unexpectedEnd)

theorem prefix_writeI64 : PrefixOn (fun _ => True) writeI64 :=
  prefixOn_of_exact (exact_readI64 unexpectedEnd)

theorem prefix_writeId (tag : IdTag) : PrefixOn (fun _ : Id tag => True) writeId :=
  prefixOn_of_exact (exact_readId tag)

theorem prefix_writeMoney : PrefixOn (fun _ => True) writeMoney :=
  prefixOn_of_exact exact_readMoney

/-- An enumeration whose cases have different codes. -/
theorem prefix_code {κ : Type} {code : κ → UInt8} (h : Function.Injective code) :
    PrefixOn (fun _ => True) fun value => writeU8 (code value) := by
  apply prefix_writeU8.comap code fun _ _ => trivial
  intro a b _ _ he
  exact h he

theorem TradeState.code_injective : Function.Injective TradeState.code := by
  intro a b he
  cases a <;> cases b <;> first | rfl | exact absurd he (by decide)

theorem PostingSide.code_injective : Function.Injective PostingSide.code := by
  intro a b he
  cases a <;> cases b <;> first | rfl | exact absurd he (by decide)

theorem SettlementDirection.code_injective : Function.Injective SettlementDirection.code := by
  intro a b he
  cases a <;> cases b <;> first | rfl | exact absurd he (by decide)

theorem prefix_writeHasValue : PrefixOn (fun _ => True) writeHasValue :=
  prefix_code (by decide)

theorem prefix_writeOptionalId (tag : IdTag) :
    PrefixOn (fun _ : Option (Id tag) => True) writeOptionalId := by
  have h := prefix_writeHasValue.optional (prefix_writeId tag)
  exact fun a b r s _ _ he => h (fun _ _ => trivial) (fun _ _ => trivial) he

theorem prefix_writeOptionalVersion : PrefixOn (fun _ => True) writeOptionalVersion := by
  have h := prefix_writeHasValue.optional prefix_writeU32
  exact fun a b r s _ _ he => h (fun _ _ => trivial) (fun _ _ => trivial) he

/-- A size that fits is not changed by the narrowing cast. -/
theorem prefix_writeSize : PrefixOn (fun size => ¬exceedsU32 size) writeSize := by
  apply prefix_writeU32.comap UInt32.ofNat fun _ _ => trivial
  intro a b ha hb he
  unfold exceedsU32 at ha hb
  have hnat := congrArg UInt32.toNat he
  rw [UInt32.toNat_ofNat', UInt32.toNat_ofNat'] at hnat
  omega

theorem prefix_writeTrade : PrefixOn (fun _ => True) writeTrade := by
  have hstate : PrefixOn (fun _ => True) writeTradeState := prefix_code TradeState.code_injective
  have hfields := (prefix_writeId .trade).pair <| prefix_writeU32.pair <|
    (prefix_writeId .book).pair <| (prefix_writeId .counterparty).pair <|
    (prefix_writeId .nettingSet).pair <| (prefixOn_of_exact exact_readTerms).pair <|
    hstate.pair <| prefix_writeOptionalVersion.pair prefix_writeOptionalVersion
  apply hfields.comap fun trade : Trade => (trade.id, trade.version, trade.bookId,
    trade.counterpartyId, trade.nettingSetId, trade.terms, trade.state, trade.supersedes,
    trade.supersededBy)
  · simp
  · intro a b _ _ he
    simp only [Prod.mk.injEq] at he
    apply Trade.ext <;> simp only [he]

theorem prefix_account : PrefixOn (fun account : Bytes => ¬exceedsU32 account.length)
    fun account => writeSize account.length ++ account := by
  have hbyte : PrefixOn (fun _ => True) fun byte : UInt8 => [byte] := by
    intro a b r s _ _ he
    exact List.cons.inj he
  -- An account is a counted list of single bytes.
  have h := prefix_writeSize.counted hbyte
  intro a b r s ha hb he
  apply h ⟨ha, fun _ _ => trivial⟩ ⟨hb, fun _ _ => trivial⟩
  simpa only [List.flatMap_singleton'] using he

theorem prefix_writePosting :
    PrefixOn (fun posting : Posting => ¬exceedsU32 posting.account.length) writePosting := by
  have hside : PrefixOn (fun _ => True) writePostingSide := prefix_code PostingSide.code_injective
  have hfields := (prefix_writeId .posting).pair <| (prefix_writeId .trade).pair <|
    prefix_writeU32.pair <| prefix_account.pair <| hside.pair <|
    prefix_writeMoney.pair (prefix_writeOptionalId .posting)
  apply hfields.comap fun posting : Posting => (posting.id, posting.tradeId, posting.tradeVersion,
    posting.account, posting.side, posting.amount, posting.reversalOf)
  · intro posting h
    simpa using h
  · intro a b _ _ he
    simp only [Prod.mk.injEq] at he
    apply Posting.ext <;> simp only [he]

def LedgerEntry.SizesFit (entry : LedgerEntry) : Prop :=
  ¬exceedsU32 entry.postings.length ∧
    ∀ posting ∈ entry.postings, ¬exceedsU32 posting.account.length

theorem prefix_writeEntry : PrefixOn LedgerEntry.SizesFit writeEntry := by
  apply (prefix_writeSize.counted prefix_writePosting).comap LedgerEntry.postings fun _ h => h
  intro a b _ _ he
  exact LedgerEntry.ext he

def LimitBalanceSnapshot.InRange (balance : LimitBalanceSnapshot) : Prop :=
  (-2 ^ 63 ≤ balance.capacityMinorUnits ∧ balance.capacityMinorUnits < 2 ^ 63) ∧
    -2 ^ 63 ≤ balance.reservedMinorUnits ∧ balance.reservedMinorUnits < 2 ^ 63

theorem prefix_writeLimitBalance : PrefixOn LimitBalanceSnapshot.InRange writeLimitBalance := by
  have hfields := prefix_writeU8.pair <| (prefix_writeOptionalId .counterparty).pair <|
    (prefix_writeOptionalId .nettingSet).pair <| (prefix_writeOptionalId .book).pair <|
    (prefixOn_of_exact exact_readCurrency).pair <| prefix_writeI64.pair prefix_writeI64
  apply hfields.comap fun balance : LimitBalanceSnapshot => (balance.node.level,
    balance.node.counterpartyId, balance.node.nettingSetId, balance.node.bookId, balance.currency,
    Int64.ofInt balance.capacityMinorUnits, Int64.ofInt balance.reservedMinorUnits)
  · simp
  · intro a b ha hb he
    simp only [Prod.mk.injEq] at he
    obtain ⟨hl, hc, hn, hbook, hu, hcap, hres⟩ := he
    have hcapacity := congrArg Int64.toInt hcap
    have hreserved := congrArg Int64.toInt hres
    rw [Int64.toInt_ofInt_of_le ha.1.1 ha.1.2, Int64.toInt_ofInt_of_le hb.1.1 hb.1.2] at hcapacity
    rw [Int64.toInt_ofInt_of_le ha.2.1 ha.2.2, Int64.toInt_ofInt_of_le hb.2.1 hb.2.2] at hreserved
    have hnode := LimitNode.ext_members hl hc hn hbook
    cases a
    cases b
    simp_all

theorem prefix_writeSettlement : PrefixOn (fun _ => True) writeSettlement := by
  have hdirection : PrefixOn (fun _ => True) writeSettlementDirection :=
    prefix_code SettlementDirection.code_injective
  have hfields := (prefix_writeId .counterparty).pair <| (prefix_writeId .nettingSet).pair <|
    (prefixOn_of_exact exact_readDate).pair <| hdirection.pair prefix_writeMoney
  apply hfields.comap fun settlement : SettlementObligation => (settlement.counterpartyId,
    settlement.nettingSetId, settlement.valueDate, settlement.direction, settlement.amount)
  · simp
  · intro a b _ _ he
    simp only [Prod.mk.injEq] at he
    cases a
    cases b
    simp_all

structure State.Exported where
  version : UInt64
  currentVersions : List (TradeId × UInt32)
  trades : List Trade
  ledgerEntries : List LedgerEntry
  totals : List Money
  balances : List LimitBalanceSnapshot
  settlements : List SettlementObligation

def State.exported (state : State) : State.Exported where
  version := state.version
  currentVersions := state.currentVersions.toList
  trades := state.trades.toList.map Prod.snd
  ledgerEntries := state.ledgerEntries
  totals := [Currency.usd, .jpy, .kwd].map state.ledgerTotals.total
  balances := state.limits.snapshots
  settlements := state.settlements

def State.Exported.write (exported : State.Exported) : Bytes :=
  writeU64 exported.version ++
    ((writeSize exported.currentVersions.length ++
      exported.currentVersions.flatMap writeCurrentVersion) ++
    ((writeSize exported.trades.length ++ exported.trades.flatMap writeTrade) ++
    ((writeSize exported.ledgerEntries.length ++ exported.ledgerEntries.flatMap writeEntry) ++
    (exported.totals.flatMap writeMoney ++
    ((writeSize exported.balances.length ++ exported.balances.flatMap writeLimitBalance) ++
    (writeSize exported.settlements.length ++
      exported.settlements.flatMap writeSettlement))))))

structure State.Exported.Fits (exported : State.Exported) : Prop where
  currentVersions : ¬exceedsU32 exported.currentVersions.length
  trades : ¬exceedsU32 exported.trades.length
  ledgerEntries : ¬exceedsU32 exported.ledgerEntries.length
  entries : ∀ entry ∈ exported.ledgerEntries, entry.SizesFit
  totals : exported.totals.length = 3
  balances : ¬exceedsU32 exported.balances.length
  inRange : ∀ balance ∈ exported.balances, balance.InRange
  settlements : ¬exceedsU32 exported.settlements.length

theorem prefix_exported : PrefixOn State.Exported.Fits State.Exported.write := by
  have hcurrent := (prefix_writeId .trade).pair prefix_writeU32
  have hfields := prefix_writeU64.pair <| (prefix_writeSize.counted hcurrent).pair <|
    (prefix_writeSize.counted prefix_writeTrade).pair <|
    (prefix_writeSize.counted prefix_writeEntry).pair <| (prefix_writeMoney.block 3).pair <|
    (prefix_writeSize.counted prefix_writeLimitBalance).pair
      (prefix_writeSize.counted prefix_writeSettlement)
  apply hfields.comap fun exported : State.Exported => (exported.version, exported.currentVersions,
    exported.trades, exported.ledgerEntries, exported.totals, exported.balances,
    exported.settlements)
  · intro exported h
    exact ⟨trivial, ⟨h.currentVersions, fun _ _ => ⟨trivial, trivial⟩⟩,
      ⟨h.trades, fun _ _ => trivial⟩, ⟨h.ledgerEntries, h.entries⟩,
      ⟨h.totals, fun _ _ => trivial⟩, ⟨h.balances, h.inRange⟩, h.settlements, fun _ _ => trivial⟩
  · intro a b _ _ he
    simp only [Prod.mk.injEq] at he
    cases a
    cases b
    simp_all

theorem canonicalStateBytes_ok_iff {state : State} {bytes : Bytes} :
    canonicalStateBytes state = .ok bytes ↔ stateSizesFit state ∧
      bytes = writeU8 stateExportFormatVersion ++ state.exported.write := by
  unfold canonicalStateBytes
  by_cases h : stateSizesFit state
  · simp only [h, not_true_eq_false, if_false, true_and, Except.ok.injEq, State.Exported.write,
      State.exported, ExtTreeMap.length_toList, List.length_map, List.flatMap_map]
    exact eq_comm
  · simp [h]

variable {limits limits' : LimitHierarchy} {first second state : State}

/-- Versions carry their keys. -/
theorem VersionChain.toList_eq {trades : ExtTreeMap TradeVersionKey Trade}
    {currentVersions : ExtTreeMap TradeId UInt32} (h : VersionChain trades currentVersions) :
    trades.toList = (trades.toList.map Prod.snd).map fun trade =>
      ((⟨trade.id, trade.version⟩ : TradeVersionKey), trade) := by
  have hid : trades.toList.map id = trades.toList := List.map_id _
  rw [List.map_map]
  nth_rewrite 1 [← hid]
  apply List.map_congr_left
  intro stored hmem
  obtain ⟨key, trade⟩ := stored
  have ht := ExtTreeMap.mem_toList_iff_getElem?_eq_some.mp hmem
  have hid := h.stored_id ht
  have hversion := (h.stored_version ht).1
  simp only [id_eq, Function.comp_apply, hid, hversion]

theorem LimitHierarchy.eq_of_snapshots {a b : LimitHierarchy} (h : a.snapshots = b.snapshots) :
    a = b := by
  apply LimitHierarchy.ext
  apply ExtTreeMap.ext_toList
  have hinj : Function.Injective fun stored : LimitKey × LimitBalance =>
      (⟨stored.1.node, stored.1.currency, stored.2.capacity, stored.2.reserved⟩ :
        LimitBalanceSnapshot) := by
    intro x y he
    simp only [LimitBalanceSnapshot.mk.injEq] at he
    obtain ⟨⟨_, _⟩, ⟨_, _⟩⟩ := x
    obtain ⟨⟨_, _⟩, ⟨_, _⟩⟩ := y
    simp_all
  have hlist : a.balances.toList = b.balances.toList := List.map_injective_iff.mpr hinj h
  rw [hlist]

/-- The index points at the entry that is the confirmation of its version. -/
theorem State.Coherent.index_iff (hs : state.Coherent) (key : TradeVersionKey) (i : ℕ) :
    state.confirmationEntries[key]? = some i ↔ ∃ trade entry, state.trades[key]? = some trade ∧
      state.ledgerEntries[i]? = some entry ∧ entry.contents = trade.confirmationContents := by
  constructor
  · intro hk
    obtain ⟨trade, entry, ht, _, he, hc⟩ := hs.posted.indexed key i hk
    exact ⟨trade, entry, ht, he, hc⟩
  · rintro ⟨trade, entry, ht, he, hc⟩
    by_cases hindexed : ∃ other : TradeVersionKey, state.confirmationEntries[other]? = some i
    · -- An entry confirms one version only.
      obtain ⟨other, ho⟩ := hindexed
      obtain ⟨trade', entry', ht', _, he', hc'⟩ := hs.posted.indexed other i ho
      obtain rfl := Option.some.inj (he.symm.trans he')
      have hsame := hc.symm.trans hc'
      simp only [Trade.confirmationContents, List.cons.injEq, PostingContent.mk.injEq] at hsame
      obtain ⟨_, _, _, _, hl⟩ := hs.chain.stored key trade ht
      obtain ⟨_, _, _, _, hl'⟩ := hs.chain.stored other trade' ht'
      have hkey : key = other := by
        cases key
        cases other
        simp_all [hl.id, hl.version, hl'.id, hl'.version]
      rw [hkey]
      exact ho
    · obtain ⟨_, _, _, original, _, _, _, _, _, hr⟩ :=
        hs.posted.others i entry he fun other ho => hindexed ⟨other, ho⟩
      exact absurd hr (not_isReversalOf_of_contents hc)

theorem State.Coherent.eq_of_exported (hf : first.Coherent) (hs : second.Coherent)
    (h : first.exported = second.exported) : first = second := by
  simp only [State.exported, State.Exported.mk.injEq] at h
  obtain ⟨hversion, hcurrent, htrades, hledger, _, hbalances, hsettlements⟩ := h
  have ht : first.trades = second.trades := by
    apply ExtTreeMap.ext_toList
    rw [hf.chain.toList_eq, hs.chain.toList_eq, htrades]
  apply State.ext
  · exact hversion
  · exact ht
  · apply ExtTreeMap.ext_toList
    rw [hcurrent]
  · exact hledger
  · -- Neither the index nor the used identifiers are written: the ledger has them.
    apply ExtTreeMap.ext_getElem?
    intro key
    apply Option.ext
    intro i
    rw [hf.index_iff, hs.index_iff, ht, hledger]
  · apply ExtTreeSet.ext_mem
    intro id
    have hids := hf.posted.ids id
    have hids' := hs.posted.ids id
    simp only [State.positions, hledger] at hids hids'
    rw [hids, hids']
  · rw [hf.totals, hs.totals]
  · exact LimitHierarchy.eq_of_snapshots hbalances
  · exact hsettlements

/-- Balances over created limits lie between zero and a 64-bit capacity. -/
theorem State.Reachable.snapshot_within {definitions : List LimitDefinition}
    (hc : LimitHierarchy.create definitions = .ok limits) (h : state.Reachable limits)
    {balance : LimitBalanceSnapshot} (hb : balance ∈ state.limits.snapshots) :
    0 ≤ balance.reservedMinorUnits ∧ balance.reservedMinorUnits ≤ balance.capacityMinorUnits ∧
      balance.capacityMinorUnits < 2 ^ 63 := by
  have hh := h.headroom hc
  obtain ⟨⟨key, stored⟩, hin, rfl⟩ := List.mem_map.mp hb
  have hk := ExtTreeMap.mem_toList_iff_getElem?_eq_some.mp hin
  have hcapacity := hh.capacity key
  have hnonneg := hh.reservedAt_nonneg key
  have hwithin := hh.within key stored hk
  unfold LimitHierarchy.capacityAt at hcapacity
  unfold LimitHierarchy.reservedAt at hnonneg
  simp only [State.positions, hk, Option.map_some, Option.getD_some] at hcapacity hnonneg
  obtain ⟨created, hcr, he⟩ := Option.map_eq_some_iff.mp hcapacity.symm
  obtain ⟨_, _, hhigh⟩ := LimitHierarchy.create_getElem? hc key created hcr
  refine ⟨?_, ?_, ?_⟩ <;> simp only <;> omega

/-- A state over created limits keeps within the format. -/
theorem State.Reachable.exported_fits {definitions : List LimitDefinition}
    (hc : LimitHierarchy.create definitions = .ok limits) (h : state.Reachable limits)
    (hsizes : stateSizesFit state) : state.exported.Fits := by
  obtain ⟨hlists, hentries⟩ := hsizes
  simp only [not_or] at hlists
  obtain ⟨hcurrent, htrades, hledger, hsettlements, hbalances⟩ := hlists
  refine ⟨?_, ?_, hledger, hentries, rfl, hbalances, ?_, hsettlements⟩
  · rw [State.exported, ExtTreeMap.length_toList]
    exact hcurrent
  · rw [State.exported, List.length_map, ExtTreeMap.length_toList]
    exact htrades
  · intro balance hb
    have hwithin := h.snapshot_within hc hb
    refine ⟨⟨?_, ?_⟩, ?_, ?_⟩ <;> omega

def State.outcomes (state : State) : List Operation → List (Except StateError State)
  | [] => []
  | operation :: rest => operation.apply state :: (state.attempt operation).outcomes rest

/-- Equal exports are exports of one state. -/
theorem canonical_bytes_identify_state {definitions definitions' : List LimitDefinition}
    {bytes : Bytes} (hc : LimitHierarchy.create definitions = .ok limits)
    (hc' : LimitHierarchy.create definitions' = .ok limits') (hf : first.Reachable limits)
    (hs : second.Reachable limits') (hb : canonicalStateBytes first = .ok bytes)
    (hb' : canonicalStateBytes second = .ok bytes) :
    first = second ∧ ∀ operations, first.outcomes operations = second.outcomes operations := by
  obtain ⟨hsizes, rfl⟩ := canonicalStateBytes_ok_iff.mp hb
  obtain ⟨hsizes', he⟩ := canonicalStateBytes_ok_iff.mp hb'
  have hexported : first.exported = second.exported :=
    prefix_exported.inj (hf.exported_fits hc hsizes) (hs.exported_fits hc' hsizes')
      (List.append_cancel_left he)
  have heq := hf.coherent.eq_of_exported hs.coherent hexported
  exact ⟨heq, fun operations => by rw [heq]⟩

/-- The same limits given in two orders, and one trade booked and confirmed under
either. -/
theorem canonical_bytes_identify_state_sample : ∃ first second : State,
    first.ledgerEntries.length = 1 ∧ first = second := by
  have hrun : (do
      let limits ← (LimitHierarchy.create sampleDefinitions).mapError StateError.limitFailure
      let limits' ← (LimitHierarchy.create sampleDefinitions.reverse).mapError
        StateError.limitFailure
      let before ← Operation.apply (State.initial limits) sampleOperations[0]
      let before' ← Operation.apply (State.initial limits') sampleOperations[0]
      let first ← Operation.apply before sampleOperations[1]
      let second ← Operation.apply before' sampleOperations[1]
      if first.ledgerEntries.length = 1 ∧ stateSizesFit first ∧
        canonicalStateBytes first = canonicalStateBytes second then .ok first
      else .error StateError.tradeNotFound : Except StateError State).isOk = true := by
    decide +kernel
  obtain ⟨state, h⟩ := ok_of_isOk hrun
  simp only [Outcome.bind_ok_iff, Outcome.mapError_ok_iff] at h
  obtain ⟨limits, hl, limits', hl', before, hb, before', hb', first, hf, second, hs, h⟩ := h
  split_ifs at h with hchecks
  obtain ⟨hlen, hfits, hbytes⟩ := hchecks
  have hfirst := canonicalStateBytes_ok_iff.mpr ⟨hfits, rfl⟩
  have hreach : first.Reachable limits := (ReflTransGen.single ⟨_, hb⟩).tail ⟨_, hf⟩
  have hreach' : second.Reachable limits' := (ReflTransGen.single ⟨_, hb'⟩).tail ⟨_, hs⟩
  exact ⟨first, second, hlen, (canonical_bytes_identify_state hl hl' hreach hreach' hfirst
    (hbytes.symm.trans hfirst)).1⟩

end Backbook
