import Backbook.DomainState
import Backbook.RunHistories

namespace Backbook

open Std Relation

/-- How a stored version sits in the chain of its trade, whose last version is
`current`. -/
structure Trade.Linked (trade : Trade) (key : TradeVersionKey) (current : UInt32) : Prop where
  id : trade.id = key.tradeId
  version : trade.version = key.version
  past : key.version < current →
    trade.state = .superseded ∧ trade.supersededBy = some (key.version + 1)
  last : key.version = current → trade.state ≠ .superseded ∧ trade.supersededBy = none
  first : key.version = 1 → trade.supersedes = none
  later : 1 < key.version →
    trade.supersedes = some (key.version - 1) ∧ trade.state ≠ .captured

/-- A change of state that supersedes nothing leaves the links alone. -/
theorem Trade.Linked.restate {trade : Trade} {key : TradeVersionKey}
    (h : trade.Linked key key.version) {state : TradeState} (hn : state ≠ .superseded)
    (hc : state ≠ .captured) :
    Trade.Linked { trade with state := state } key key.version where
  id := h.id
  version := h.version
  past hlt := absurd hlt (UInt32.lt_irrefl _)
  last he := ⟨hn, (h.last he).2⟩
  first := h.first
  later hv := ⟨(h.later hv).1, hc⟩

/-- An older version does not notice that the chain grows. -/
theorem Trade.Linked.extend {trade : Trade} {key : TradeVersionKey} {current : UInt32}
    (h : trade.Linked key current) (hlt : key.version < current) (hmax : current ≠ 4294967295) :
    trade.Linked key (current + 1) where
  id := h.id
  version := h.version
  past _ := h.past hlt
  last he := by grind
  first := h.first
  later := h.later

theorem Trade.Linked.asSuperseded {trade : Trade} {key : TradeVersionKey}
    (h : trade.Linked key key.version) : trade.asSuperseded.Linked key (key.version + 1) where
  id := h.id
  version := h.version
  past _ := ⟨rfl, by simp [Trade.asSuperseded, h.version]⟩
  last he := by grind
  first := h.first
  later hv := ⟨(h.later hv).1, by simp [Trade.asSuperseded]⟩

theorem Trade.Linked.asReplacement {trade : Trade} {key : TradeVersionKey} {current : UInt32}
    (h : trade.Linked key current) (hge : 1 ≤ key.version) (hmax : key.version ≠ 4294967295)
    (terms : FxTerms) :
    (trade.asReplacement terms).Linked ⟨key.tradeId, key.version + 1⟩ (key.version + 1) where
  id := h.id
  version := by simp [Trade.asReplacement, h.version]
  past hlt := absurd hlt (UInt32.lt_irrefl _)
  last _ := ⟨by simp [Trade.asReplacement], rfl⟩
  first he := by grind
  later _ := by
    -- The next version does not wrap, so its predecessor is this one.
    have hback : key.version + 1 - 1 = key.version := by grind
    refine ⟨?_, by simp [Trade.asReplacement]⟩
    simp only [Trade.asReplacement, h.version, hback]

structure VersionChain (trades : ExtTreeMap TradeVersionKey Trade)
    (currentVersions : ExtTreeMap TradeId UInt32) : Prop where
  stored : ∀ (key : TradeVersionKey) (trade : Trade), trades[key]? = some trade → ∃ current,
    currentVersions[key.tradeId]? = some current ∧ 1 ≤ key.version ∧ key.version ≤ current ∧
      trade.Linked key current
  complete : ∀ (tradeId : TradeId) (current : UInt32), currentVersions[tradeId]? = some current →
    1 ≤ current ∧ ∀ version : UInt32, 1 ≤ version → version ≤ current →
      ∃ trade, trades[(⟨tradeId, version⟩ : TradeVersionKey)]? = some trade
  parties : ∀ (tradeId : TradeId) (v w : UInt32) (trade other : Trade),
    trades[(⟨tradeId, v⟩ : TradeVersionKey)]? = some trade →
    trades[(⟨tradeId, w⟩ : TradeVersionKey)]? = some other → trade.limitPath = other.limitPath

section Chain

variable {trades : ExtTreeMap TradeVersionKey Trade} {currentVersions : ExtTreeMap TradeId UInt32}

theorem VersionChain.empty : VersionChain ∅ ∅ where
  stored _ _ h := by simp at h
  complete _ _ h := by simp at h
  parties _ _ _ _ _ h := by simp at h

/-- A trade without a current version stores nothing. -/
theorem VersionChain.none_of_current_none (h : VersionChain trades currentVersions)
    {tradeId : TradeId} (hc : currentVersions[tradeId]? = none) (version : UInt32) :
    trades[(⟨tradeId, version⟩ : TradeVersionKey)]? = none := by
  rw [Option.eq_none_iff_forall_not_mem]
  intro trade ht
  obtain ⟨current, hcur, _⟩ := h.stored ⟨tradeId, version⟩ trade ht
  rw [hc] at hcur
  cases hcur

/-- Nothing is stored past the current version. -/
theorem VersionChain.none_of_current_lt (h : VersionChain trades currentVersions)
    {tradeId : TradeId} {current version : UInt32} (hc : currentVersions[tradeId]? = some current)
    (hv : current < version) : trades[(⟨tradeId, version⟩ : TradeVersionKey)]? = none := by
  rw [Option.eq_none_iff_forall_not_mem]
  intro trade ht
  obtain ⟨other, hcur, _, hle, _⟩ := h.stored ⟨tradeId, version⟩ trade ht
  rw [hc] at hcur
  obtain rfl := Option.some.inj hcur
  exact absurd hle (by grind)

theorem VersionChain.none_of_next (h : VersionChain trades currentVersions) {tradeId : TradeId}
    {current : UInt32} (hc : currentVersions[tradeId]? = some current)
    (hmax : current ≠ 4294967295) :
    trades[(⟨tradeId, current + 1⟩ : TradeVersionKey)]? = none := by
  have hlt : current < current + 1 := by grind
  exact h.none_of_current_lt hc hlt

/-- A stored trade carries the version it is stored under, which is not zero. -/
theorem VersionChain.stored_version (h : VersionChain trades currentVersions)
    {key : TradeVersionKey} {trade : Trade} (ht : trades[key]? = some trade) :
    trade.version = key.version ∧ trade.version ≠ 0 := by
  obtain ⟨_, _, hge, _, hl⟩ := h.stored key trade ht
  refine ⟨hl.version, ?_⟩
  rw [hl.version]
  grind

theorem VersionChain.stored_id (h : VersionChain trades currentVersions)
    {key : TradeVersionKey} {trade : Trade} (ht : trades[key]? = some trade) :
    trade.id = key.tradeId := by
  obtain ⟨_, _, _, _, hl⟩ := h.stored key trade ht
  exact hl.id

/-- A version that is not superseded is the current one. -/
theorem VersionChain.current_of_not_superseded (h : VersionChain trades currentVersions)
    {key : TradeVersionKey} {trade : Trade} (ht : trades[key]? = some trade)
    (hs : trade.state ≠ .superseded) : currentVersions[key.tradeId]? = some key.version := by
  obtain ⟨current, hcur, _, hle, hl⟩ := h.stored key trade ht
  have hlast : key.version = current := by
    by_contra hne
    exact hs (hl.past (by grind)).1
  rw [hlast, hcur]

theorem VersionChain.capture (h : VersionChain trades currentVersions) {tradeId : TradeId}
    (hc : currentVersions[tradeId]? = none) {trade : Trade} (hid : trade.id = tradeId)
    (hv : trade.version = 1) (hs : trade.state ≠ .superseded) (hp : trade.supersedes = none)
    (hn : trade.supersededBy = none) :
    VersionChain (trades.insert ⟨tradeId, 1⟩ trade) (currentVersions.insert tradeId 1) where
  stored key other ht := by
    rw [OrderedMap.getElem?_insert_eq] at ht
    rw [OrderedMap.getElem?_insert_eq]
    split_ifs at ht with hk
    · obtain rfl := Option.some.inj ht
      subst hk
      exact ⟨1, by simp, by simp, by simp, ⟨hid, hv, by simp, fun _ => ⟨hs, hn⟩, fun _ => hp,
        by simp⟩⟩
    · obtain ⟨current, hcur, hrest⟩ := h.stored key other ht
      rw [if_neg (fun he => by rw [he, hc] at hcur; cases hcur)]
      exact ⟨current, hcur, hrest⟩
  complete id current hcur := by
    rw [OrderedMap.getElem?_insert_eq] at hcur
    split_ifs at hcur with hi
    · obtain rfl := Option.some.inj hcur
      subst hi
      refine ⟨by simp, fun version hge hle => ⟨trade, ?_⟩⟩
      obtain rfl : version = 1 := by grind
      simp
    · refine ⟨(h.complete id current hcur).1, fun version hge hle => ?_⟩
      obtain ⟨other, ho⟩ := (h.complete id current hcur).2 version hge hle
      have hne : ¬(⟨id, version⟩ : TradeVersionKey) = ⟨tradeId, 1⟩ :=
        fun he => hi (congrArg TradeVersionKey.tradeId he)
      refine ⟨other, ?_⟩
      rw [OrderedMap.getElem?_insert_eq, if_neg hne]
      exact ho
  parties id v w a b ha hb := by
    rw [OrderedMap.getElem?_insert_eq] at ha hb
    have hnone := h.none_of_current_none hc
    split_ifs at ha hb with h1 h2 h2
    · cases ha
      cases hb
      rfl
    · obtain rfl : id = tradeId := congrArg TradeVersionKey.tradeId h1
      rw [hnone w] at hb
      cases hb
    · obtain rfl : id = tradeId := congrArg TradeVersionKey.tradeId h2
      rw [hnone v] at ha
      cases ha
    · exact h.parties id v w a b ha hb

/-- The parties of a trade stay the same when every version has those of one that
was stored. -/
theorem VersionChain.parties_of (h : VersionChain trades currentVersions)
    {next : ExtTreeMap TradeVersionKey Trade}
    (hsame : ∀ (key : TradeVersionKey) (trade : Trade), next[key]? = some trade →
      ∃ version old, trades[(⟨key.tradeId, version⟩ : TradeVersionKey)]? = some old ∧
        trade.limitPath = old.limitPath) (id : TradeId) (v w : UInt32) (a b : Trade)
    (ha : next[(⟨id, v⟩ : TradeVersionKey)]? = some a)
    (hb : next[(⟨id, w⟩ : TradeVersionKey)]? = some b) : a.limitPath = b.limitPath := by
  obtain ⟨x, a', ha', hpa⟩ := hsame _ a ha
  obtain ⟨y, b', hb', hpb⟩ := hsame _ b hb
  rw [hpa, hpb]
  exact h.parties id x y a' b' ha' hb'

/-- The versions of a trade stay without a gap where none of them is lost. -/
theorem VersionChain.complete_of (h : VersionChain trades currentVersions)
    {next : ExtTreeMap TradeVersionKey Trade}
    (hkeep : ∀ (key : TradeVersionKey) (trade : Trade), trades[key]? = some trade →
      ∃ kept, next[key]? = some kept) {id : TradeId} {current : UInt32}
    (hc : currentVersions[id]? = some current) : 1 ≤ current ∧
      ∀ version, 1 ≤ version → version ≤ current →
        ∃ kept, next[(⟨id, version⟩ : TradeVersionKey)]? = some kept := by
  obtain ⟨hge, hall⟩ := h.complete id current hc
  refine ⟨hge, ?_⟩
  intro version hge' hle
  obtain ⟨trade, ht⟩ := hall version hge' hle
  exact hkeep _ trade ht

/-- A change of state of a version that stays the last one. -/
theorem VersionChain.restate (h : VersionChain trades currentVersions) {key : TradeVersionKey}
    {trade : Trade} (ht : trades[key]? = some trade) (hs : trade.state ≠ .superseded)
    {state : TradeState} (hn : state ≠ .superseded) (hc : state ≠ .captured) :
    VersionChain (trades.insert key { trade with state := state }) currentVersions where
  stored k other ho := by
    rw [OrderedMap.getElem?_insert_eq] at ho
    split_ifs at ho with hk
    · obtain rfl := Option.some.inj ho
      subst hk
      obtain ⟨current, hcur, hge, hle, hl⟩ := h.stored k trade ht
      have hlast := h.current_of_not_superseded ht hs
      rw [hcur] at hlast
      obtain rfl := Option.some.inj hlast
      exact ⟨_, hcur, hge, hle, hl.restate hn hc⟩
    · exact h.stored k other ho
  complete _ _ hcur :=
    h.complete_of (fun _ _ ho => OrderedMap.exists_getElem?_insert ho key _) hcur
  parties id v w a b ha hb := by
    refine h.parties_of ?_ id v w a b ha hb
    intro k c hk
    rw [OrderedMap.getElem?_insert_eq] at hk
    split_ifs at hk with he
    · cases hk
      exact ⟨key.version, trade, by rw [he]; exact ht, rfl⟩
    · exact ⟨k.version, c, hk, rfl⟩

-- An amendment changes two bindings: the last version and the one behind it.
section Amend

variable {key : TradeVersionKey} {trade : Trade} {terms : FxTerms}

theorem getElem?_amended (k : TradeVersionKey) :
    ((trades.insert key trade.asSuperseded).insert ⟨key.tradeId, key.version + 1⟩
      (trade.asReplacement terms))[k]? =
    if k = ⟨key.tradeId, key.version + 1⟩ then some (trade.asReplacement terms)
    else if k = key then some trade.asSuperseded else trades[k]? := by
  rw [OrderedMap.getElem?_insert_eq, OrderedMap.getElem?_insert_eq]

theorem VersionChain.amend_stored (h : VersionChain trades currentVersions)
    (ht : trades[key]? = some trade) (hc : currentVersions[key.tradeId]? = some key.version)
    (hmax : key.version ≠ 4294967295) (k : TradeVersionKey) (other : Trade)
    (ho : ((trades.insert key trade.asSuperseded).insert ⟨key.tradeId, key.version + 1⟩
      (trade.asReplacement terms))[k]? = some other) : ∃ current,
    (currentVersions.insert key.tradeId (key.version + 1))[k.tradeId]? = some current ∧
      1 ≤ k.version ∧ k.version ≤ current ∧ other.Linked k current := by
  obtain ⟨current, hcur, hge, _, hl⟩ := h.stored key trade ht
  rw [hc] at hcur
  obtain rfl := Option.some.inj hcur
  rw [getElem?_amended] at ho
  rw [OrderedMap.getElem?_insert_eq]
  split_ifs at ho with hnew hold
  · obtain rfl := Option.some.inj ho
    subst hnew
    exact ⟨key.version + 1, by simp, by grind, by simp, hl.asReplacement hge hmax terms⟩
  · obtain rfl := Option.some.inj ho
    subst hold
    exact ⟨k.version + 1, by simp, hge, by grind, hl.asSuperseded⟩
  · obtain ⟨current, hcur, hge', hle, hl'⟩ := h.stored k other ho
    split_ifs with hi
    · -- An earlier version of the same trade, which the chain now passes on.
      rw [hi, hc] at hcur
      obtain rfl := Option.some.inj hcur
      have hne : k.version ≠ key.version := by
        intro he
        apply hold
        cases k
        cases key
        simp_all
      have hlt : k.version < key.version := by grind
      exact ⟨key.version + 1, rfl, hge', by grind, hl'.extend hlt hmax⟩
    · exact ⟨current, hcur, hge', hle, hl'⟩

theorem VersionChain.amend_complete (h : VersionChain trades currentVersions)
    (hc : currentVersions[key.tradeId]? = some key.version) (hmax : key.version ≠ 4294967295)
    {id : TradeId} {current : UInt32}
    (hcur : (currentVersions.insert key.tradeId (key.version + 1))[id]? = some current) :
    1 ≤ current ∧ ∀ version, 1 ≤ version → version ≤ current → ∃ kept,
      ((trades.insert key trade.asSuperseded).insert ⟨key.tradeId, key.version + 1⟩
        (trade.asReplacement terms))[(⟨id, version⟩ : TradeVersionKey)]? = some kept := by
  have hkeep (k : TradeVersionKey) (other : Trade) (ho : trades[k]? = some other) : ∃ kept,
      ((trades.insert key trade.asSuperseded).insert ⟨key.tradeId, key.version + 1⟩
        (trade.asReplacement terms))[k]? = some kept := by
    obtain ⟨_, hfirst⟩ := OrderedMap.exists_getElem?_insert ho key trade.asSuperseded
    exact OrderedMap.exists_getElem?_insert hfirst _ _
  rw [OrderedMap.getElem?_insert_eq] at hcur
  split_ifs at hcur with hi
  · obtain rfl := Option.some.inj hcur
    subst hi
    obtain ⟨_, hall⟩ := h.complete_of hkeep hc
    refine ⟨by grind, fun version hge hle => ?_⟩
    by_cases hlast : version = key.version + 1
    · exact ⟨_, by rw [getElem?_amended, if_pos (by rw [hlast])]⟩
    · exact hall version hge (by grind)
  · exact h.complete_of hkeep hcur

/-- An amendment links the last version to its replacement. -/
theorem VersionChain.amend (h : VersionChain trades currentVersions)
    (ht : trades[key]? = some trade) (hc : currentVersions[key.tradeId]? = some key.version)
    (hmax : key.version ≠ 4294967295) :
    VersionChain
      ((trades.insert key trade.asSuperseded).insert ⟨key.tradeId, key.version + 1⟩
        (trade.asReplacement terms))
      (currentVersions.insert key.tradeId (key.version + 1)) where
  stored := h.amend_stored ht hc hmax
  complete _ _ := h.amend_complete hc hmax
  parties := by
    apply h.parties_of
    intro k other hk
    rw [getElem?_amended] at hk
    split_ifs at hk with hnew hold
    · cases hk
      exact ⟨key.version, trade, by rw [hnew]; exact ht, rfl⟩
    · cases hk
      exact ⟨key.version, trade, by rw [hold]; exact ht, rfl⟩
    · exact ⟨k.version, other, hk, rfl⟩

end Amend

end Chain

end Backbook
