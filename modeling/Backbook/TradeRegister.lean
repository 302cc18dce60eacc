import Backbook.KeyedMaps
import Backbook.EndOfDayPaths

/-! What the state is for: a register of trade versions and posted entries. It
keeps no index, no running sum and no cached settlement. Which version can still
change, which identifiers are spent and what is reserved at a limit are facts
about its members. -/
namespace Backbook

open Std

@[ext] structure Register where
  versions : Finset Trade
  entries : Finset LedgerEntry
  operations : ℕ

def LedgerEntry.Posts (entry : LedgerEntry) (contents : List PostingContent)
    (ids : List PostingId) : Prop :=
  entry.contents = contents ∧ entry.postings.map Posting.id = ids

namespace Register

def empty : Register := ⟨∅, ∅, 0⟩

structure Current (register : Register) (tradeId : TradeId) (version : UInt32) (trade : Trade) :
    Prop where
  mem : trade ∈ register.versions
  id_eq : trade.id = tradeId
  version_eq : trade.version = version
  last : ∀ other ∈ register.versions, other.id = tradeId → other.version ≤ version

def exposure (self : Register) (key : LimitKey) : ℤ := ∑ trade ∈ self.versions, trade.exposure key

def Room (self : Register) (capacity : LimitKey → Option ℤ) (path : LimitPath) (amount : Money) :
    Prop :=
  ∀ node ∈ path.nodes, ∃ most, capacity ⟨node, amount.currency⟩ = some most ∧
    self.exposure ⟨node, amount.currency⟩ + amount.minorUnits ≤ most

def Unspent (self : Register) (ids : List PostingId) : Prop :=
  ids.Nodup ∧ ∀ entry ∈ self.entries, ∀ posting ∈ entry.postings, posting.id ∉ ids

inductive Takes (capacity : LimitKey → Option ℤ) (self : Register) : Operation → Register → Prop
  | book {tradeId : TradeId} {bookId : BookId} {counterpartyId : CounterpartyId}
      {nettingSetId : NettingSetId} {terms : FxTerms}
      (hnew : ∀ trade ∈ self.versions, trade.id ≠ tradeId) :
      Takes capacity self (.bookTrade tradeId bookId counterpartyId nettingSetId terms)
        { self with
          versions := insert (Trade.capture tradeId bookId counterpartyId nettingSetId terms)
            self.versions
          operations := self.operations + 1 }
  | confirm {tradeId : TradeId} {version : UInt32} {ids : ConfirmationPostingIds} {trade : Trade}
      {entry : LedgerEntry} (hcur : self.Current tradeId version trade)
      (hs : trade.state = .captured) (hroom : self.Room capacity trade.limitPath trade.terms.pay)
      (hids : self.Unspent ids.toList)
      (hentry : entry.Posts trade.confirmationContents ids.toList) :
      Takes capacity self (.confirmTrade tradeId version ids)
        ⟨insert { trade with state := .confirmed } (self.versions.erase trade),
          insert entry self.entries, self.operations + 1⟩
  | amend {tradeId : TradeId} {version : UInt32} {terms : FxTerms}
      {reversalIds : ReversalPostingIds} {ids : ConfirmationPostingIds} {trade : Trade}
      {original reversal replacement : LedgerEntry}
      (hcur : self.Current tradeId version trade) (hs : trade.state = .confirmed)
      (hversion : version ≠ 4294967295) (horiginal : original ∈ self.entries)
      (hcontents : original.contents = trade.confirmationContents)
      -- The old version leaves before the new terms are measured.
      (hroom : Room { self with versions := self.versions.erase trade } capacity trade.limitPath
        terms.pay)
      (hids : self.Unspent (reversalIds.toList ++ ids.toList))
      (hreversal : reversal.Posts (original.postings.map Posting.reversalContent)
        reversalIds.toList)
      (hreplacement : replacement.Posts (trade.asReplacement terms).confirmationContents
        ids.toList) :
      Takes capacity self (.amendTrade tradeId version terms reversalIds ids)
        ⟨insert (trade.asReplacement terms)
            (insert trade.asSuperseded (self.versions.erase trade)),
          insert replacement (insert reversal self.entries), self.operations + 1⟩
  | discard {tradeId : TradeId} {version : UInt32} {trade : Trade}
      (hcur : self.Current tradeId version trade) (hs : trade.state = .captured) :
      Takes capacity self (.cancelTrade tradeId version none)
        { self with
          versions := insert { trade with state := .cancelled } (self.versions.erase trade)
          operations := self.operations + 1 }
  | unwind {tradeId : TradeId} {version : UInt32} {ids : ReversalPostingIds} {trade : Trade}
      {original reversal : LedgerEntry} (hcur : self.Current tradeId version trade)
      (hs : trade.state = .confirmed) (horiginal : original ∈ self.entries)
      (hcontents : original.contents = trade.confirmationContents)
      (hids : self.Unspent ids.toList)
      (hreversal : reversal.Posts (original.postings.map Posting.reversalContent) ids.toList) :
      Takes capacity self (.cancelTrade tradeId version (some ids))
        ⟨insert { trade with state := .cancelled } (self.versions.erase trade),
          insert reversal self.entries, self.operations + 1⟩
  | settle {asOfDate : IsoDate}
      (hdue : ∃ trade ∈ self.versions, trade.state = .confirmed ∧ trade.terms.valueDate ≤ asOfDate)
      (hnets : ∀ key, |∑ trade ∈ self.versions, (trade.endOfDay asOfDate).cashflow key| ≤
        2 ^ 63 - 1) :
      Takes capacity self (.runEod asOfDate)
        { self with
          versions := self.versions.image (Trade.endOfDay asOfDate)
          operations := self.operations + 1 }
  | idle {asOfDate : IsoDate}
      (hnone : ∀ trade ∈ self.versions, trade.state = .confirmed →
        ¬trade.terms.valueDate ≤ asOfDate) :
      Takes capacity self (.runEod asOfDate) self

/-- One step of the register, which counts its operations in 64 bits. -/
def Step (capacity : LimitKey → Option ℤ) (self : Register) (event : Option Operation)
    (next : Register) : Prop :=
  ∃ operation, event = some operation ∧ self.Takes capacity operation next ∧
    next.operations < 2 ^ 64

end Register

def State.register (state : State) : Register :=
  ⟨KeyedMap.values state.trades, state.ledgerEntries.toFinset, state.version.toNat⟩

def Trade.key (trade : Trade) : TradeVersionKey := ⟨trade.id, trade.version⟩

section Abstraction

variable {state : State} {limits : LimitHierarchy} {tradeId : TradeId} {version : UInt32}
  {trade : Trade}

theorem LedgerEntry.Posts.unique {entry other : LedgerEntry} {contents : List PostingContent}
    {ids : List PostingId} (h : entry.Posts contents ids) (h' : other.Posts contents ids) :
    entry = other := by
  -- A posting is its identifier and its contents, so the two lists are equal pairwise.
  have hpairs (e : LedgerEntry) : e.postings.map (fun p => (p.id, p.content)) =
      (e.postings.map Posting.id).zip e.contents := List.zip_map'.symm
  have hinj : Function.Injective fun p : Posting => (p.id, p.content) := by
    intro p q hpq
    simp only [Prod.mk.injEq, Posting.content, PostingContent.mk.injEq] at hpq
    obtain ⟨hid, ht, hv, hacc, hs, ham, hr⟩ := hpq
    exact Posting.ext hid ht hv hacc hs ham hr
  apply LedgerEntry.ext
  apply List.map_injective_iff.mpr hinj
  calc
    entry.postings.map (fun p => (p.id, p.content)) = ids.zip contents := by
      rw [hpairs, h.1, h.2]
    _ = other.postings.map (fun p => (p.id, p.content)) := by rw [hpairs, h'.1, h'.2]

theorem VersionChain.carries {trades : ExtTreeMap TradeVersionKey Trade}
    {currentVersions : ExtTreeMap TradeId UInt32} (hc : VersionChain trades currentVersions) :
    KeyedMap.Carries trades Trade.key := by
  intro key trade ht
  have hid := hc.stored_id ht
  have hversion := (hc.stored_version ht).1
  cases key
  simp_all [Trade.key]

theorem State.mem_register (hc : VersionChain state.trades state.currentVersions) :
    trade ∈ state.register.versions ↔ state.trades[trade.key]? = some trade :=
  hc.carries.mem_values

theorem State.register_of_stored {key : TradeVersionKey} (ht : state.trades[key]? = some trade) :
    trade ∈ state.register.versions :=
  KeyedMap.mem_values_of_getElem? ht

/-- The index of current versions points to the last version of each trade. -/
theorem State.current_register_iff (hc : VersionChain state.trades state.currentVersions) :
    state.register.Current tradeId version trade ↔
      state.currentVersions[tradeId]? = some version ∧
        state.trades[(⟨tradeId, version⟩ : TradeVersionKey)]? = some trade := by
  constructor
  · intro h
    have ht : state.trades[(⟨tradeId, version⟩ : TradeVersionKey)]? = some trade := by
      have hkey := (State.mem_register hc).mp h.mem
      rwa [Trade.key, h.id_eq, h.version_eq] at hkey
    obtain ⟨current, hcur, _, hle, _⟩ := hc.stored _ trade ht
    -- The version that the index names is stored, so it is not a later one.
    obtain ⟨hge, hall⟩ := hc.complete tradeId current hcur
    obtain ⟨other, ho⟩ := hall current hge (UInt32.le_refl current)
    have hlast : other.version ≤ version :=
      h.last other (State.register_of_stored ho) (hc.stored_id ho)
    rw [(hc.stored_version ho).1] at hlast
    have heq : current = version := UInt32.le_antisymm hlast hle
    exact ⟨by rw [hcur, heq], ht⟩
  · intro h
    obtain ⟨hcur, ht⟩ := h
    refine ⟨State.register_of_stored ht, hc.stored_id ht, (hc.stored_version ht).1, ?_⟩
    intro other ho hid
    obtain ⟨current, hcur', _, hle, _⟩ := hc.stored _ other ((State.mem_register hc).mp ho)
    simp only [Trade.key, hid] at hcur' hle
    rw [hcur] at hcur'
    obtain rfl := Option.some.inj hcur'
    exact hle

theorem State.requireCurrent_iff (hc : VersionChain state.trades state.currentVersions) :
    state.requireCurrent tradeId version = .ok trade ↔
      state.register.Current tradeId version trade := by
  rw [State.current_register_iff hc]
  constructor
  · exact State.requireCurrent_ok hc
  · intro h
    obtain ⟨hcur, ht⟩ := h
    apply State.requireCurrent_ok_iff.mpr
    exact ⟨State.currentTrade_eq_some_iff.mpr ⟨version, hcur, ht⟩, (hc.stored_version ht).1⟩

/-- What a hierarchy reserves is the exposure of the register. -/
theorem State.reservedAt_eq (hs : state.Coherent) (hh : state.positions.Headroom limits)
    (key : LimitKey) : state.limits.reservedAt key = state.register.exposure key :=
  calc
    state.limits.reservedAt key = OrderedMap.total state.trades fun _ t => t.exposure key :=
      hh.reserved key
    _ = state.register.exposure key := (hs.chain.carries.sum_values _).symm

/-- A reservation succeeds just where the amount fits at every node. -/
theorem LimitHierarchy.exists_reserve_iff {self : LimitHierarchy} {path : LimitPath}
    {amount : Money} (hpos : 0 < amount.minorUnits) :
    (∃ next, self.reserve path amount = .ok next) ↔ ∀ node ∈ path.nodes, ∃ most,
      self.capacityAt ⟨node, amount.currency⟩ = some most ∧
        self.reservedAt ⟨node, amount.currency⟩ + amount.minorUnits ≤ most := by
  have hnode (key : LimitKey) :
      (∃ found, self.balances[key]? = some found ∧
        amount.minorUnits ≤ found.capacity - found.reserved) ↔
      ∃ most, self.capacityAt key = some most ∧
        self.reservedAt key + amount.minorUnits ≤ most := by
    unfold LimitHierarchy.capacityAt LimitHierarchy.reservedAt
    cases self.balances[key]? with
    | none => simp
    | some found =>
      simp only [Option.some.injEq, exists_eq_left', Option.map_some, Option.getD_some]
      omega
  constructor
  · intro h node hn
    obtain ⟨next, hres⟩ := h
    obtain ⟨_, hall, _⟩ := LimitHierarchy.reserve_ok_iff.mp hres
    exact (hnode _).mp (hall node hn)
  · intro h
    refine ⟨_, LimitHierarchy.reserve_ok_iff.mpr ⟨hpos, ?_, rfl⟩⟩
    intro node hn
    exact (hnode _).mpr (h node hn)

/-- The identifiers that are spent are those of the ledger. -/
theorem State.unspent_iff (hs : state.Coherent) {ids : List PostingId} :
    state.register.Unspent ids ↔ ids.Nodup ∧ ∀ id ∈ ids, id ∉ state.postingIds := by
  have hmem (id : PostingId) : id ∈ state.postingIds ↔
      ∃ entry ∈ state.ledgerEntries, ∃ posting ∈ entry.postings, posting.id = id := by
    rw [show id ∈ state.postingIds ↔ id ∈ ledgerIds state.ledgerEntries from hs.posted.ids id]
    simp only [ledgerIds, ledgerPostings, List.mem_map, List.mem_flatMap]
    tauto
  unfold Register.Unspent State.register
  simp only [List.mem_toFinset, hmem]
  grind

end Abstraction

end Backbook
